import Recompose.Number.Shortest

namespace Recompose.Number

def digitValue (c : Char) : Nat :=
  if c.isDigit then c.toNat - 48
  else if 'a' ≤ c && c ≤ 'f' then c.toNat - 87
  else c.toNat - 55

def ofDigits (base : Nat) (ds : List Char) : Nat :=
  ds.foldl (fun n d => n * base + digitValue d) 0

def exponentValue : List Char → Int
  | '-' :: ds => -(ofDigits 10 ds : Int)
  | '+' :: ds => ofDigits 10 ds
  | ds => ofDigits 10 ds

/-- The double nearest to `digits * 10 ^ exponent`. Far from one the answer is known at once. -/
def ofDecimal (digits : Nat) (exponent : Int) : Double :=
  let size : Int := Decimal.digitCount digits
  if digits == 0 then .finite 0 0
  else if exponent + size > 310 then .infinite
  else if exponent + size < -330 then .finite 0 0
  else if 0 ≤ exponent then Double.nearest (digits * Nat.pow 10 exponent.toNat) 1
  else Double.nearest digits (Nat.pow 10 (-exponent).toNat)

def decimalValue (cs : List Char) : Double :=
  let (whole, rest) := cs.span Char.isDigit
  let (fraction, rest) := match rest with
    | '.' :: r => r.span Char.isDigit
    | r => ([], r)
  let exponent := match rest with
    | [] => 0
    | _ :: r => exponentValue r
  ofDecimal (ofDigits 10 (whole ++ fraction)) (exponent - fraction.length)

def value (raw : String) : Double :=
  let cs := raw.toList.filter (· != '_')
  match cs with
  | '0' :: c :: ds =>
    if c == 'x' || c == 'X' then Double.nearest (ofDigits 16 ds) 1
    else if c == 'o' || c == 'O' then Double.nearest (ofDigits 8 ds) 1
    else if c == 'b' || c == 'B' then Double.nearest (ofDigits 2 ds) 1
    else if (c :: ds).all fun d => '0' ≤ d && d ≤ '7' then Double.nearest (ofDigits 8 (c :: ds)) 1
    else decimalValue cs
  | _ => decimalValue cs

def bigValue (raw : String) : Nat :=
  let cs := raw.toList.filter fun c => c != '_' && c != 'n'
  match cs with
  | '0' :: c :: ds =>
    if c == 'x' || c == 'X' then ofDigits 16 ds
    else if c == 'o' || c == 'O' then ofDigits 8 ds
    else if c == 'b' || c == 'B' then ofDigits 2 ds
    else ofDigits 10 cs
  | _ => ofDigits 10 cs

/-- The decimal form: positional from a millionth up to 21 digits, and with an exponent beyond. -/
def decimalText : Double → List Char
  | .infinite => "Infinity".toList
  | .finite 0 _ => ['0']
  | .finite m e =>
    let x := Decimal.shortest m e
    let ds := x.digitChars
    let k := ds.length
    let n := x.point
    if (k : Int) ≤ n && n ≤ 21 then ds ++ List.replicate (n.toNat - k) '0'
    else if 0 < n && n ≤ 21 then ds.take n.toNat ++ '.' :: ds.drop n.toNat
    else if -6 < n && n ≤ 0 then '0' :: '.' :: List.replicate (-n).toNat '0' ++ ds
    else
      let mark := if n - 1 < 0 then ['e', '-'] else ['e', '+']
      let exponent := mark ++ Nat.toDigits 10 (n - 1).natAbs
      match ds with
      | [d] => d :: exponent
      | d :: more => d :: '.' :: more ++ exponent
      | [] => []

end Recompose.Number
