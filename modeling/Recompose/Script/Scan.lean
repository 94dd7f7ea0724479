import Recompose.Script.Token
import Recompose.Text.Name
import Recompose.Text.Offset

namespace Recompose.Script.Scan

open Recompose.Text

inductive Trivia where
  | blank
  | line (start : Nat) (seen : List Char)
  | block (start : Nat) (seen : List Char)

structure Gap where
  pos : Nat
  newline : Bool := false
  comments : List Comment
  pureMark : Bool := false
  effectFreeMark : Bool := false

namespace Gap

def step (g : Gap) (c : Char) : Gap :=
  { g with pos := g.pos + c.utf8Size, newline := g.newline || isLineEnd c }

def marks (block : Bool) (content mark : List Char) : Bool :=
  if block && content.head? == some '*' then
    false
  else
    match content.dropWhile (fun c => c == ' ' || c == '\t' || c == '\n' || c == '\r' || c == '\x0c') with
    | c :: cs => (c == '@' || c == '#') && mark.isPrefixOf cs
    | [] => false

def close (g : Gap) (block : Bool) (start : Nat) (seen : List Char) : Gap :=
  let content := (seen.reverse).drop 2
  { g with
    comments := ⟨⟨start, g.pos⟩, block⟩ :: g.comments
    pureMark := g.pureMark || marks block content "__PURE__".toList
    effectFreeMark := g.effectFreeMark || marks block content "__NO_SIDE_EFFECTS__".toList }

end Gap

/-- Skips blanks and comments; `none` if a comment does not end. -/
def skip : Trivia → Gap → List Char → Option (Gap × List Char)
  | .blank, g, [] => some (g, [])
  | .blank, g, '/' :: '/' :: cs => skip (.line g.pos ['/', '/']) ((g.step '/').step '/') cs
  | .blank, g, '/' :: '*' :: cs => skip (.block g.pos ['*', '/']) ((g.step '/').step '*') cs
  | .blank, g, c :: cs =>
    if isGap c || isLineEnd c then skip .blank (g.step c) cs else some (g, c :: cs)
  | .line start seen, g, [] => some (g.close false start seen, [])
  | .line start seen, g, c :: cs =>
    if isLineEnd c then skip .blank ((g.close false start seen).step c) cs
    else skip (.line start (c :: seen)) (g.step c) cs
  | .block _ _, _, [] => none
  | .block start seen, g, '*' :: '/' :: cs =>
    skip .blank (((g.step '*').step '/').close true start seen) cs
  | .block start seen, g, c :: cs => skip (.block start (c :: seen)) (g.step c) cs

def hexValue? (c : Char) : Option Nat :=
  if c.isDigit then some (c.toNat - 48)
  else if 'a' ≤ c && c ≤ 'f' then some (c.toNat - 87)
  else if 'A' ≤ c && c ≤ 'F' then some (c.toNat - 55)
  else none

def isHex (c : Char) : Bool :=
  (hexValue? c).isSome

def isOctal (c : Char) : Bool :=
  '0' ≤ c && c ≤ '7'

def isBit (c : Char) : Bool :=
  c == '0' || c == '1'

/-- Separators stand between digits only. -/
def separated : List Char → Bool
  | [] => true
  | ['_'] => false
  | '_' :: '_' :: _ => false
  | _ :: cs => separated cs

def digits? (isDigit : Char → Bool) (cs : List Char) : Option (List Char × List Char) :=
  let (ds, rest) := cs.span fun c => isDigit c || c == '_'
  match ds with
  | [] => none
  | d :: _ => if d != '_' && separated ds then some (ds, rest) else none

/-- No name or digit may follow a number at once. -/
def ends : List Char → Bool
  | [] => true
  | c :: _ => !(isNameStart c || c.isDigit || c == '\\')

def exponent? (cs : List Char) : Option (List Char × List Char) :=
  match cs with
  | e :: s :: rest =>
    if e == 'e' || e == 'E' then
      if s == '+' || s == '-' then
        (digits? Char.isDigit rest).map fun (ds, r) => (e :: s :: ds, r)
      else
        (digits? Char.isDigit (s :: rest)).map fun (ds, r) => (e :: ds, r)
    else
      some ([], cs)
  | [e] => if e == 'e' || e == 'E' then none else some ([], cs)
  | [] => some ([], [])

def fraction? (needed : Bool) (cs : List Char) : Option (List Char × List Char) :=
  match cs with
  | '.' :: rest =>
    match rest with
    | d :: _ =>
      if d.isDigit then (digits? Char.isDigit rest).map fun (ds, r) => ('.' :: ds, r)
      else if d == '_' || needed then none
      else some (['.'], rest)
    | [] => if needed then none else some (['.'], [])
  | _ => if needed then none else some ([], cs)

def based? (lead : List Char) (isDigit : Char → Bool) (cs : List Char) :
    Option (TokenKind × List Char × List Char) := do
  let (ds, rest) ← digits? isDigit cs
  match rest with
  | 'n' :: r => if ends r then some (.bigint, lead ++ ds ++ ['n'], r) else none
  | _ => if ends rest then some (.number, lead ++ ds, rest) else none

def decimal? (cs : List Char) : Option (TokenKind × List Char × List Char) := do
  let (whole, rest) ← match cs with
    | '.' :: _ => some ([], cs)
    | _ => digits? Char.isDigit cs
  let leadingZero := match whole with
    | '0' :: _ :: _ => true
    | _ => false
  if leadingZero && whole.contains '_' then none
  match rest, leadingZero with
  | 'n' :: r, false => if whole ≠ [] && ends r then some (.bigint, whole ++ ['n'], r) else none
  | _, _ =>
    if leadingZero && whole.all isOctal then
      if ends rest && rest.head? != some '.' then some (.number, whole, rest) else none
    else
      let (fraction, rest) ← fraction? (whole == []) rest
      let (exponent, rest) ← exponent? rest
      if ends rest then some (.number, whole ++ fraction ++ exponent, rest) else none

def number? (cs : List Char) : Option (TokenKind × List Char × List Char) :=
  match cs with
  | '0' :: 'x' :: r => based? ['0', 'x'] isHex r
  | '0' :: 'X' :: r => based? ['0', 'X'] isHex r
  | '0' :: 'o' :: r => based? ['0', 'o'] isOctal r
  | '0' :: 'O' :: r => based? ['0', 'O'] isOctal r
  | '0' :: 'b' :: r => based? ['0', 'b'] isBit r
  | '0' :: 'B' :: r => based? ['0', 'B'] isBit r
  | _ => decimal? cs

def hexNumber (ds : List Char) : Nat :=
  ds.foldl (fun n d => n * 16 + (hexValue? d).getD 0) 0

/-- What follows `\u` in a name: four hexadecimal digits, or any number of them in braces. -/
def nameEscape? (cs : List Char) : Option (Char × List Char) :=
  match cs with
  | '{' :: rest =>
    let (ds, rest) := rest.span isHex
    match rest with
    | '}' :: rest =>
      let n := hexNumber ds
      if ds ≠ [] && n.isValidChar then some (Char.ofNat n, rest) else none
    | _ => none
  | a :: b :: c :: d :: rest =>
    let n := hexNumber [a, b, c, d]
    if [a, b, c, d].all isHex && n.isValidChar then some (Char.ofNat n, rest) else none
  | _ => none

def nameParts? : Nat → List Char → Option (List Char × Bool × List Char)
  | 0, _ => none
  | fuel + 1, cs =>
    let (plain, rest) := cs.span isNamePart
    match rest with
    | '\\' :: 'u' :: more => do
      let (c, more) ← nameEscape? more
      if isNamePart c then
        let (tail, _, rest) ← nameParts? fuel more
        some (plain ++ c :: tail, true, rest)
      else none
    | '\\' :: _ => none
    | _ => some (plain, false, rest)

def name? (fuel : Nat) (cs : List Char) : Option (List Char × Bool × List Char) := do
  let (name, escaped, rest) ← nameParts? fuel cs
  match name with
  | c :: _ => if isNameStart c then some (name, escaped, rest) else none
  | [] => none

/-- Adds a code unit or code point to the decoded text, latest first, joining surrogate pairs. -/
def pushUnit (acc : List Nat) (n : Nat) : List Nat :=
  match acc with
  | hi :: more =>
    if 0xD800 ≤ hi && hi ≤ 0xDBFF && 0xDC00 ≤ n && n ≤ 0xDFFF then
      (0x10000 + (hi - 0xD800) * 0x400 + (n - 0xDC00)) :: more
    else n :: acc
  | [] => [n]

/-- Reads a string up to its closing quote. `braces` holds the value read so far of an escape
written with braces. -/
def stringBody? (quote : Char) :
    Option (Option Nat) → List Nat → List Char → Option (List Nat × List Char)
  | _, _, [] => none
  | some value, acc, c :: cs =>
    if c == '}' then
      match value with
      | some n => stringBody? quote none (pushUnit acc n) cs
      | none => none
    else
      match hexValue? c with
      | some d =>
        let n := value.getD 0 * 16 + d
        if n ≤ 0x10FFFF then stringBody? quote (some (some n)) acc cs else none
      | none => none
  | none, acc, c :: cs =>
    if c == quote then some (acc, cs)
    else if c == '\\' then
      match cs with
      | 'n' :: r => stringBody? quote none (10 :: acc) r
      | 't' :: r => stringBody? quote none (9 :: acc) r
      | 'r' :: r => stringBody? quote none (13 :: acc) r
      | 'b' :: r => stringBody? quote none (8 :: acc) r
      | 'f' :: r => stringBody? quote none (12 :: acc) r
      | 'v' :: r => stringBody? quote none (11 :: acc) r
      | '\r' :: '\n' :: r => stringBody? quote none acc r
      | 'x' :: a :: b :: r =>
        if isHex a && isHex b then stringBody? quote none (pushUnit acc (hexNumber [a, b])) r
        else none
      | 'u' :: '{' :: r => stringBody? quote (some none) acc r
      | 'u' :: a :: b :: d :: e :: r =>
        if [a, b, d, e].all isHex then
          stringBody? quote none (pushUnit acc (hexNumber [a, b, d, e])) r
        else none
      | 'x' :: _ => none
      | 'u' :: _ => none
      | a :: b :: d :: r =>
        if isLineEnd a then stringBody? quote none acc (b :: d :: r)
        else if '0' ≤ a && a ≤ '3' && isOctal b && isOctal d then
          stringBody? quote none (((a.toNat - 48) * 64 + (b.toNat - 48) * 8 + (d.toNat - 48)) :: acc) r
        else if isOctal a && isOctal b then
          stringBody? quote none (((a.toNat - 48) * 8 + (b.toNat - 48)) :: acc) (d :: r)
        else if isOctal a then stringBody? quote none ((a.toNat - 48) :: acc) (b :: d :: r)
        else stringBody? quote none (a.toNat :: acc) (b :: d :: r)
      | [a, b] =>
        if isLineEnd a then stringBody? quote none acc [b]
        else if isOctal a then stringBody? quote none ((a.toNat - 48) :: acc) [b]
        else stringBody? quote none (a.toNat :: acc) [b]
      | _ => none
    else if c == '\n' || c == '\r' then none
    else stringBody? quote none (c.toNat :: acc) cs

def isSurrogate (n : Nat) : Bool :=
  0xD800 ≤ n && n ≤ 0xDFFF

def hexDigit (n : Nat) : Char :=
  if n < 10 then Char.ofNat (48 + n) else Char.ofNat (87 + n)

def hex4 (n : Nat) : List Char :=
  [hexDigit (n / 4096 % 16), hexDigit (n / 256 % 16), hexDigit (n / 16 % 16), hexDigit (n % 16)]

def stringText (units : List Nat) : StringText :=
  let units := units.reverse
  let lone := units.any isSurrogate
  let chars := units.flatMap fun n =>
    if lone && (isSurrogate n || n == 0xFFFD) then Char.ofNat 0xFFFD :: hex4 n
    else [Char.ofNat n]
  ⟨String.ofList chars, lone⟩

def templateEscape : List Char → Bool
  | 'x' :: a :: b :: _ => isHex a && isHex b
  | 'x' :: _ => false
  | 'u' :: '{' :: r =>
    let (ds, rest) := r.span isHex
    ds ≠ [] && hexNumber ds ≤ 0x10FFFF && rest.head? == some '}'
  | 'u' :: a :: b :: c :: d :: _ => [a, b, c, d].all isHex
  | 'u' :: _ => false
  | '0' :: d :: _ => !d.isDigit
  | c :: _ => c == '0' || !c.isDigit
  | [] => false

/-- Reads a template up to its back quote or to the next hole. Line ends are read as line feeds. -/
def templateBody? : List Char → Bool → List Char → Option (List Char × Bool × Bool × List Char)
  | _, _, [] => none
  | acc, valid, '$' :: '{' :: cs => some (acc.reverse, false, valid, cs)
  | acc, valid, '\\' :: c :: cs => templateBody? (c :: '\\' :: acc) (valid && templateEscape (c :: cs)) cs
  | acc, valid, '\r' :: '\n' :: cs => templateBody? ('\n' :: acc) valid cs
  | acc, valid, c :: cs =>
    if c.toNat == 96 then some (acc.reverse, true, valid, cs)
    else templateBody? ((if c == '\r' then '\n' else c) :: acc) valid cs

def regexBody? : Bool → List Char → List Char → Option (List Char × List Char)
  | _, _, [] => none
  | inClass, acc, '\\' :: c :: cs =>
    if isLineEnd c then none else regexBody? inClass (c :: '\\' :: acc) cs
  | inClass, acc, c :: cs =>
    if isLineEnd c then none
    else if c == '[' then regexBody? true (c :: acc) cs
    else if c == ']' then regexBody? false (c :: acc) cs
    else if c == '/' && !inClass then some (acc.reverse, cs)
    else regexBody? inClass (c :: acc) cs

def regexFlags : List Char := ['d', 'g', 'i', 'm', 's', 'u', 'v', 'y']

def flags? (cs : List Char) : Option (List Char × List Char) :=
  let (fs, rest) := cs.span isNamePart
  if fs.all regexFlags.contains && fs.eraseDups.length == fs.length then
    some (regexFlags.filter fs.contains, rest)
  else none

/-- Spellings that start with a character, longest first. -/
def spellings (c : Char) : List String :=
  match c with
  | '.' => ["...", "."]
  | '<' => ["<<=", "<<", "<=", "<"]
  | '>' => [">"]
  | '=' => ["===", "==", "=>", "="]
  | '!' => ["!==", "!=", "!"]
  | '+' => ["++", "+=", "+"]
  | '-' => ["--", "-=", "-"]
  | '*' => ["**=", "**", "*=", "*"]
  | '/' => ["/=", "/"]
  | '%' => ["%=", "%"]
  | '&' => ["&&=", "&&", "&=", "&"]
  | '|' => ["||=", "||", "|=", "|"]
  | '^' => ["^=", "^"]
  | '?' => ["??=", "??", "?.", "?"]
  | '{' | '}' | '(' | ')' | '[' | ']' | ';' | ',' | '~' | ':' | '@' => [String.singleton c]
  | _ => []

/-- A question mark and a point do not join in front of a digit. -/
def joins (s : String) (rest : List Char) : Bool :=
  !(s == "?." && (rest.head?.map Char.isDigit).getD false)

def punct? (cs : List Char) : Option (String × List Char) := do
  let c ← cs.head?
  (spellings c).findSome? fun s =>
    let rest := cs.drop s.length
    if s.toList.isPrefixOf cs && joins s rest then some (s, rest) else none

structure Found where
  kind : TokenKind
  text : String
  raw : List Char
  rest : List Char
  escaped : Bool := false

def startsNumber : List Char → Bool
  | '.' :: d :: _ => d.isDigit
  | c :: _ => c.isDigit
  | [] => false

def upTo (cs rest : List Char) : List Char :=
  cs.take (cs.length - rest.length)

def string? (cs : List Char) : Option Found :=
  match cs with
  | quote :: body => do
    let (units, rest) ← stringBody? quote none [] body
    let text := stringText units
    some ⟨.string text.lone, text.value, upTo cs rest, rest, false⟩
  | [] => none

/-- A template chunk; the first character is the back quote or the brace that closes a hole. -/
def template? (cs : List Char) : Option Found :=
  match cs with
  | c :: body => do
    let (chars, last, valid, rest) ← templateBody? [] true body
    some ⟨.template last valid, String.ofList chars, c :: (upTo body rest), rest, false⟩
  | [] => none

def regex? (cs : List Char) : Option Found :=
  match cs with
  | _ :: body => do
    let (source, rest) ← regexBody? false [] body
    let (flags, rest) ← flags? rest
    some ⟨.regex (String.ofList flags), String.ofList source, upTo cs rest, rest, false⟩
  | [] => none

def found? (fuel : Nat) (cs : List Char) : Option Found :=
  match cs with
  | [] => some ⟨.stop, "", [], [], false⟩
  | c :: body =>
    if isNameStart c || c == '\\' then do
      let (name, escaped, rest) ← name? fuel cs
      some ⟨.name, String.ofList name, if escaped then upTo cs rest else name, rest, escaped⟩
    else if startsNumber cs then do
      let (kind, raw, rest) ← number? cs
      some ⟨kind, String.ofList raw, raw, rest, false⟩
    else if c == '"' || c.toNat == 39 then string? cs
    else if c.toNat == 96 then template? cs
    else if c == '#' then do
      let (name, escaped, rest) ← name? fuel body
      some ⟨.privateName, String.ofList name, upTo cs rest, rest, escaped⟩
    else do
      let (s, rest) ← punct? cs
      some ⟨.punct, s, s.toList, rest, false⟩

end Recompose.Script.Scan
