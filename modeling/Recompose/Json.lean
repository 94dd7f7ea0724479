namespace Recompose

inductive Json where
  | null
  | bool (value : Bool)
  | natural (value : Nat)
  | number (text : String)
  | string (value : Option String)
  | array (items : List Json)
  | object (fields : List (Option String × Json))
deriving Inhabited

namespace Json

def text (s : String) : Json := .string (some s)

def record (fields : List (String × Json)) : Json :=
  .object (fields.map fun f => (some f.1, f.2))

abbrev Reader (α : Type) := List Char → Option (α × List Char)

def isSpace (c : Char) : Bool :=
  c == ' ' || c == '\t' || c == '\n' || c == '\r'

def skip (cs : List Char) : List Char :=
  cs.dropWhile isSpace

/-- A character of a string: itself, or a code unit from an escape. -/
inductive Piece where
  | char (c : Char)
  | unit (n : Nat)

def hexValue? (c : Char) : Option Nat :=
  if c.isDigit then some (c.toNat - 48)
  else if 'a' ≤ c && c ≤ 'f' then some (c.toNat - 87)
  else if 'A' ≤ c && c ≤ 'F' then some (c.toNat - 55)
  else none

def hexUnit? (a b c d : Char) : Option Nat := do
  return (((← hexValue? a) * 16 + (← hexValue? b)) * 16 + (← hexValue? c)) * 16 + (← hexValue? d)

def simpleEscape? (c : Char) : Option Char :=
  match c with
  | '"' => some '"'
  | '\\' => some '\\'
  | '/' => some '/'
  | 'b' => some '\x08'
  | 'f' => some '\x0c'
  | 'n' => some '\n'
  | 'r' => some '\r'
  | 't' => some '\t'
  | _ => none

def pieces : Reader (List Piece)
  | [] => none
  | '"' :: cs => some ([], cs)
  | '\\' :: 'u' :: a :: b :: c :: d :: cs => do
    let n ← hexUnit? a b c d
    let (ps, rest) ← pieces cs
    some (.unit n :: ps, rest)
  | '\\' :: e :: cs => do
    let c ← simpleEscape? e
    let (ps, rest) ← pieces cs
    some (.char c :: ps, rest)
  | c :: cs =>
    if c.toNat < 32 then none else do
      let (ps, rest) ← pieces cs
      some (.char c :: ps, rest)

def spelled? : List Piece → Option (List Char)
  | [] => some []
  | .char c :: ps => (spelled? ps).map (c :: ·)
  | .unit n :: ps =>
    if 0xD800 ≤ n && n < 0xDC00 then
      match ps with
      | .unit m :: ps =>
        if 0xDC00 ≤ m && m < 0xE000 then
          (spelled? ps).map (Char.ofNat (0x10000 + (n - 0xD800) * 0x400 + (m - 0xDC00)) :: ·)
        else none
      | _ => none
    else if 0xDC00 ≤ n && n < 0xE000 then none
    else (spelled? ps).map (Char.ofNat n :: ·)

def quoted : Reader (Option String)
  | '"' :: cs => (pieces cs).map fun r => ((spelled? r.1).map String.ofList, r.2)
  | _ => none

def ofDigits (ds : List Char) : Nat :=
  ds.foldl (fun n d => 10 * n + (d.toNat - 48)) 0

/-- The digits before a point: no zero leads others. -/
def wholeDigits (cs : List Char) : Option (List Char × List Char) :=
  match cs.span Char.isDigit with
  | (['0'], rest) => some (['0'], rest)
  | ('0' :: _, _) => none
  | ([], _) => none
  | (ds, rest) => some (ds, rest)

def someDigits (cs : List Char) : Option (List Char × List Char) :=
  match cs.span Char.isDigit with
  | ([], _) => none
  | (ds, rest) => some (ds, rest)

def fraction : Reader (List Char)
  | '.' :: cs => (someDigits cs).map fun r => ('.' :: r.1, r.2)
  | cs => some ([], cs)

def exponentSign : List Char → List Char × List Char
  | '+' :: cs => (['+'], cs)
  | '-' :: cs => (['-'], cs)
  | cs => ([], cs)

def exponent : Reader (List Char)
  | c :: cs =>
    if c == 'e' || c == 'E' then
      let (sign, cs) := exponentSign cs
      (someDigits cs).map fun r => (c :: sign ++ r.1, r.2)
    else some ([], c :: cs)
  | [] => some ([], [])

def unsigned (cs : List Char) : Option ((List Char × List Char) × List Char) := do
  let (whole, cs) ← wholeDigits cs
  let (f, cs) ← fraction cs
  let (e, cs) ← exponent cs
  some ((whole, f ++ e), cs)

def numeral : Reader Json
  | '-' :: cs => (unsigned cs).map fun r => (.number (String.ofList ('-' :: r.1.1 ++ r.1.2)), r.2)
  | cs => (unsigned cs).map fun r =>
    (if r.1.2.isEmpty then .natural (ofDigits r.1.1) else .number (String.ofList (r.1.1 ++ r.1.2)), r.2)

def word (w : String) (j : Json) : Reader Json := fun cs =>
  if cs.take w.length = w.toList then some (j, cs.drop w.length) else none

mutual

/-- Reads a value that is nested at most `depth` deep and has at most that many parts. -/
def value : Nat → Reader Json
  | 0, _ => none
  | depth + 1, cs =>
    match skip cs with
    | '\x7b' :: cs =>
      match skip cs with
      | '\x7d' :: cs => some (.object [], cs)
      | cs => (fields depth cs).map fun r => (.object r.1, r.2)
    | '[' :: cs =>
      match skip cs with
      | ']' :: cs => some (.array [], cs)
      | cs => (items depth cs).map fun r => (.array r.1, r.2)
    | '"' :: cs => (quoted ('"' :: cs)).map fun r => (.string r.1, r.2)
    | 't' :: cs => word "true" (.bool true) ('t' :: cs)
    | 'f' :: cs => word "false" (.bool false) ('f' :: cs)
    | 'n' :: cs => word "null" .null ('n' :: cs)
    | cs => numeral cs

def items : Nat → Reader (List Json)
  | 0, _ => none
  | depth + 1, cs => do
    let (v, cs) ← value depth cs
    match skip cs with
    | ']' :: cs => some ([v], cs)
    | ',' :: cs =>
      let (vs, cs) ← items depth cs
      some (v :: vs, cs)
    | _ => none

def fields : Nat → Reader (List (Option String × Json))
  | 0, _ => none
  | depth + 1, cs => do
    let (k, cs) ← quoted (skip cs)
    match skip cs with
    | ':' :: cs =>
      let (v, cs) ← value depth cs
      match skip cs with
      | '\x7d' :: cs => some ([(k, v)], cs)
      | ',' :: cs =>
        let (fs, cs) ← fields depth cs
        some ((k, v) :: fs, cs)
      | _ => none
    | _ => none

end

def parse? (source : String) : Option Json := do
  let (j, rest) ← value (source.length + 1) source.toList
  if (skip rest).isEmpty then some j else none

end Json

end Recompose
