namespace Recompose.Number

/-- The number `mantissa * 2 ^ exponent`, or infinity. Nonzero numbers have the mantissa of the
format: at most 53 bits, fewer only at the least exponent. -/
inductive Double where
  | finite (mantissa : Nat) (exponent : Int)
  | infinite
deriving DecidableEq, Repr, Inhabited

namespace Double

/-- The quotient rounded to the nearest integer, a tie to the even one. -/
def roundDiv (num den : Nat) : Nat :=
  let q := num / den
  let r := num % den
  if 2 * r < den then q
  else if den < 2 * r then q + 1
  else if q % 2 == 0 then q else q + 1

def scaled (num den : Nat) (e : Int) : Nat × Nat :=
  if 0 ≤ e then (num, den * Nat.pow 2 e.toNat) else (num * Nat.pow 2 (-e).toNat, den)

def leastExponent : Int := -1074

/-- The exponent at which `num / den` has 53 bits in front of the point, kept from falling below the
least one. -/
def exponentFor (num den : Nat) : Int :=
  let e := (Nat.log2 num : Int) - (Nat.log2 den : Int) - 52
  let (n, d) := scaled num den e
  let e := if n < d * Nat.pow 2 52 then e - 1 else e
  if e < leastExponent then leastExponent else e

def nearest (num den : Nat) : Double :=
  if num == 0 then finite 0 0
  else
    let e := exponentFor num den
    let (n, d) := scaled num den e
    let m := roundDiv n d
    let (m, e) := if m == Nat.pow 2 53 then (Nat.pow 2 52, e + 1) else (m, e)
    if e > 971 then infinite else finite m e

def fraction (mantissa : Nat) (exponent : Int) : Nat × Nat :=
  if 0 ≤ exponent then (mantissa * Nat.pow 2 exponent.toNat, 1) else (mantissa, Nat.pow 2 (-exponent).toNat)

end Double

end Recompose.Number
