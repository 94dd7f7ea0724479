import Recompose.Number.Literal

namespace Recompose.Number

def integer? : Double → Option Nat
  | .infinite => none
  | .finite m e =>
    if 0 ≤ e then some (m * Nat.pow 2 e.toNat)
    else if m % Nat.pow 2 (-e).toNat == 0 then some (m / Nat.pow 2 (-e).toNat)
    else none

def shorter (new old : List Char) : List Char :=
  if new.length < old.length then new else old

/-- Without a zero in front of the point and a plus in the exponent. -/
def bare (cs : List Char) : List Char :=
  let cs := match cs with
    | '0' :: '.' :: r => '.' :: r
    | r => r
  let (front, back) := cs.span (· != 'e')
  match back with
  | 'e' :: '+' :: r => front ++ 'e' :: r
  | _ => cs

/-- `.00012` as `12e-5`. -/
def smallForm (cs : List Char) : List Char :=
  match cs with
  | '.' :: '0' :: r =>
    let (zeros, digits) := r.span (· == '0')
    if digits.isEmpty then cs
    else shorter (digits ++ 'e' :: '-' :: Nat.toDigits 10 (zeros.length + 1 + digits.length)) cs
  | _ => cs

/-- `12000` as `12e3`. -/
def zerosForm (cs : List Char) : List Char :=
  let (zeros, base) := cs.reverse.span (· == '0')
  if zeros.isEmpty || base.isEmpty then cs
  else shorter (base.reverse ++ 'e' :: Nat.toDigits 10 zeros.length) cs

def intChars (n : Int) : List Char :=
  if n < 0 then '-' :: Nat.toDigits 10 n.natAbs else Nat.toDigits 10 n.toNat

/-- `1.2e101` as `12e100`. -/
def pointForm (cs : List Char) : List Char :=
  let (whole, rest) := cs.span (· != '.')
  match rest with
  | _ :: rest =>
    let (fraction, rest) := rest.span (· != 'e')
    match rest with
    | _ :: exponent =>
      shorter (whole ++ fraction ++ 'e' :: intChars (exponentValue exponent - fraction.length)) cs
    | [] => cs
  | [] => cs

def printed (x : Double) : List Char :=
  match x, integer? x with
  | .infinite, _ => "Infinity".toList
  | _, some n =>
    let plain := decimalText x
    if n < 1000 then plain
    else
      let plain := bare plain
      let hex := '0' :: 'x' :: Nat.toDigits 16 n
      if hex.length < plain.length then pointForm hex else pointForm (zerosForm plain)
  | _, none => pointForm (zerosForm (smallForm (bare (decimalText x))))

/-- A point behind such a spelling would be read as part of the number. -/
def wantsSpaceBeforeDot (cs : List Char) : Bool :=
  cs.all Char.isDigit

end Recompose.Number
