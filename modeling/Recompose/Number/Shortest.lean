import Recompose.Number.Double

namespace Recompose.Number

/-- A decimal `0.d₁d₂… * 10 ^ point` with its digits as one integer. -/
structure Decimal where
  digits : Nat
  count : Nat
  point : Int
deriving DecidableEq, Repr, Inhabited

namespace Decimal

def fraction (x : Decimal) : Nat × Nat :=
  let e := x.point - x.count
  if 0 ≤ e then (x.digits * Nat.pow 10 e.toNat, 1) else (x.digits, Nat.pow 10 (-e).toNat)

def digitCount (n : Nat) : Nat :=
  (Nat.toDigits 10 n).length

/-- The point of `num / den`: the least `p` with `num / den < 10 ^ p`. -/
def pointOf (num den : Nat) : Int :=
  if den ≤ num then
    digitCount (num / den)
  else
    -- `den / num` lies between two powers of ten
    let p := digitCount (den / num)
    if den == num * Nat.pow 10 (p - 1) then 2 - (p : Int) else 1 - (p : Int)

def strip : Nat → Decimal → Decimal
  | 0, x => x
  | fuel + 1, x =>
    if x.digits % 10 == 0 && x.count > 1 then strip fuel { x with digits := x.digits / 10, count := x.count - 1 }
    else x

/-- The decimal with `n` digits nearest to `num / den`, a tie to the even digit. -/
def rounded (num den : Nat) (point : Int) (n : Nat) : Decimal :=
  let e := point - n
  let m := if 0 ≤ e then Double.roundDiv num (den * Nat.pow 10 e.toNat)
    else Double.roundDiv (num * Nat.pow 10 (-e).toNat) den
  if m == Nat.pow 10 n then ⟨Nat.pow 10 (n - 1), n, point + 1⟩ else ⟨m, n, point⟩

def search (num den : Nat) (point : Int) (x : Double) : Nat → Nat → Decimal
  | 0, n => rounded num den point n
  | fuel + 1, n =>
    let d := rounded num den point n
    let (a, b) := d.fraction
    if Double.nearest a b == x then d else search num den point x fuel (n + 1)

def shortest (mantissa : Nat) (exponent : Int) : Decimal :=
  if mantissa == 0 then ⟨0, 1, 1⟩
  else
    let (num, den) := Double.fraction mantissa exponent
    strip 20 (search num den (pointOf num den) (.finite mantissa exponent) 17 1)

def digitChars (x : Decimal) : List Char :=
  let ds := Nat.toDigits 10 x.digits
  List.replicate (x.count - ds.length) '0' ++ ds

end Decimal

end Recompose.Number
