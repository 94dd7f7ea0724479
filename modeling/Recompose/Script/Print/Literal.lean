import Recompose.Script.Print.Out
import Recompose.Script.Scan
import Recompose.Number.Printed

namespace Recompose.Script.Print

def lowerAscii (c : Char) : Char :=
  if 'A' ≤ c && c ≤ 'Z' then Char.ofNat (c.toNat + 32) else c

def closesScript (cs : List Char) : Bool :=
  (cs.take 7).map lowerAscii == "/script".toList

def spelled (c : Char) (next : List Char) : List Char :=
  match c.toNat with
  | 0 => if (next.head?.map Char.isDigit).getD false then "\\x00".toList else "\\0".toList
  | 7 => "\\x07".toList
  | 8 => "\\b".toList
  | 10 => "\\n".toList
  | 11 => "\\v".toList
  | 12 => "\\f".toList
  | 13 => "\\r".toList
  | 0x1B => "\\x1B".toList
  | 0x22 => "\\\"".toList
  | 0x3C => if closesScript next then "<\\".toList else ['<']
  | 0x5C => "\\\\".toList
  | 0xA0 => "\\xA0".toList
  | 0x2028 => "\\u2028".toList
  | 0x2029 => "\\u2029".toList
  | _ => [c]

def escaped (lone : Bool) : List Char → List Char
  | [] => []
  | c :: cs =>
    if lone && c.toNat == 0xFFFD then
      match cs with
      | a :: b :: d :: e :: r =>
        if [a, b, d, e] == "fffd".toList then c :: escaped lone r
        else '\\' :: 'u' :: a :: b :: d :: e :: escaped lone r
      | _ => [c]
    else spelled c cs ++ escaped lone cs

def quoted (s : StringText) : String :=
  String.ofList ('"' :: escaped s.lone s.value.toList ++ ['"'])

/-- A template chunk as written, with the end of a script element broken up. -/
def chunk : List Char → List Char
  | [] => []
  | '<' :: cs => if closesScript cs then '<' :: '\\' :: chunk cs else '<' :: chunk cs
  | c :: cs => c :: chunk cs

def number (raw : String) : Layout := do
  let cs := Number.printed (Number.value raw)
  text (String.ofList cs)
  when (Number.wantsSpaceBeforeDot cs) (modify fun o => { o with dotSpace := o.code.utf8ByteSize })

def literal : Literal → Layout
  | .null => text "null"
  | .bool b => text (if b then "true" else "false")
  | .number raw => number raw
  | .bigint raw => text (toString (Number.bigValue raw) ++ "n")
  | .string s => text (quoted s)
  | .regex source flags => do
    let last := (← get).code.back?
    when (last == some '/' || (last == some '<' && closesScript ('/' :: source.toList))) space
    text ("/" ++ source ++ "/" ++ flags)

/-- Literals in types keep their numbers as written. -/
def typeLiteral : Literal → Layout
  | .number raw => text raw
  | .bigint raw => text raw
  | l => literal l

def template : List String → List Layout → Layout
  | [], _ => skipped
  | c :: cs, ps => do
    text (String.ofList (chunk c.toList))
    match ps with
    | [] => template cs []
    | p :: ps =>
      text "$\x7b"
      p
      text "\x7d"
      template cs ps

/-- The quote of a directive is a double one unless the first quote in it is double. -/
def directiveQuote : List Char → String
  | [] => "\""
  | '\\' :: _ :: cs => directiveQuote cs
  | c :: cs => if c == '"' then "'" else if c.toNat == 39 then "\"" else directiveQuote cs

def directive (raw : String) : Layout := do
  let q := directiveQuote raw.toList
  indentation
  text (q ++ raw ++ q)
  terminator

end Recompose.Script.Print
