/-
  The exact value behind a double: sign, mantissa and binary exponent read off the 64 bits.
  Everything printed from a double starts from this value, so printing is exact arithmetic on
  natural numbers.
-/

namespace CentralPath.Binary

/-- What a double stands for. A finite one is `± mantissa · 2 ^ exponent`. -/
inductive Value where
  | finite (negative : Bool) (mantissa : Nat) (exponent : Int)
  | infinite (negative : Bool)
  | nan
  deriving Repr, DecidableEq, Inhabited

/-- Reads the 64 bits: one sign bit, eleven exponent bits, fifty-two fraction bits. A zero exponent
field is the subnormal range, an all-ones field is an infinity or a NaN. -/
def ofBits (bits : Nat) : Value :=
  let negative := bits / Nat.pow 2 63 % 2 == 1
  let field : Nat := bits / Nat.pow 2 52 % 2048
  let fraction : Nat := bits % Nat.pow 2 52
  if field == 2047 then
    if fraction == 0 then .infinite negative else .nan
  else if field == 0 then
    .finite negative fraction (-1074)
  else
    .finite negative (Nat.pow 2 52 + fraction) ((field : Int) - 1075)

/-- The exact value of a double. -/
def decode (x : Float) : Value := ofBits x.toBits.toNat

/-- `2 ^ e` split into a numerator and a denominator, one of which is 1. -/
def powerOfTwo (e : Int) : Nat × Nat := (Nat.pow 2 e.toNat, Nat.pow 2 (-e).toNat)

/-- The integer part toward zero of a finite value. -/
def Value.truncate? : Value → Option Int
  | .finite negative m e =>
    let (num, den) := powerOfTwo e
    let whole : Int := (m * num / den : Nat)
    some (if negative then -whole else whole)
  | _ => none

/-- Whether the sign bit is set on a finite or infinite value. -/
def Value.isNegative : Value → Bool
  | .finite negative _ _ => negative
  | .infinite negative => negative
  | .nan => false

end CentralPath.Binary
