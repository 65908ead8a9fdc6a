/-
  Rounding of exact fractions. `roundDiv` is division to the nearest integer with ties to even;
  `Significand.ofRatio` keeps 53 leading bits of a fraction, which is what double arithmetic does
  to an exact quotient or product within its exponent range.
-/

namespace CentralPath.Binary

/-- The integer nearest to `num / den`; a half goes to the even neighbour. -/
def roundDiv (num den : Nat) : Nat :=
  let floor := num / den
  let rest := num % den
  if 2 * rest < den then floor
  else if den < 2 * rest then floor + 1
  else if floor % 2 = 0 then floor
  else floor + 1

/-- A number `mantissa · 2 ^ exponent`. -/
structure Significand where
  mantissa : Nat
  exponent : Int
  deriving Repr, DecidableEq

/-- Number of leading bits that double precision keeps. -/
def precision : Nat := 53

/-- The fraction `num / den` divided by `2 ^ e` and rounded to an integer. -/
def roundAt (num den : Nat) (e : Int) : Nat :=
  roundDiv (num * Nat.pow 2 (-e).toNat) (den * Nat.pow 2 e.toNat)

/-- Whether `2 ^ k ≤ num / den`. -/
def reaches (num den : Nat) (k : Int) : Bool :=
  decide (den * Nat.pow 2 k.toNat ≤ num * Nat.pow 2 (-k).toNat)

/-- The fraction `num / den` rounded to 53 leading bits, ties to even. -/
def Significand.ofRatio (num den : Nat) : Significand :=
  if num = 0 then ⟨0, 0⟩
  else
    let guess : Int := (Nat.log2 num : Int) - (Nat.log2 den : Int)
    let top := if reaches num den guess then guess else guess - 1
    let e := top - ((precision : Int) - 1)
    ⟨roundAt num den e, e⟩

/-- The rounded product of a natural number and a significand. -/
def Significand.scale (i : Nat) (s : Significand) : Significand :=
  .ofRatio (i * s.mantissa * Nat.pow 2 s.exponent.toNat) (Nat.pow 2 (-s.exponent).toNat)

/-- The integer part. -/
def Significand.floor (s : Significand) : Nat :=
  s.mantissa * Nat.pow 2 s.exponent.toNat / Nat.pow 2 (-s.exponent).toNat

end CentralPath.Binary
