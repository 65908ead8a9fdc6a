/-
  Decimal digits of exact binary values. A positive value `m · 2 ^ q` is placed on a decimal grid
  `10 ^ g`; `shortest` takes the coarsest grid of its leading digits that still identifies the
  double, `significant` and `places` round to a chosen grid. All of it is arithmetic on natural
  numbers.
-/
import CentralPath.Binary.Double
import CentralPath.Binary.Rounding

namespace CentralPath.Decimal

open Binary (roundDiv)

/-- The decimal number `coefficient · 10 ^ exponent`. -/
structure Digits where
  coefficient : Nat
  exponent : Int
  deriving Repr, DecidableEq

/-- Number of decimal digits; zero has one. -/
def digitCount (n : Nat) : Nat :=
  if n < 10 then 1 else digitCount (n / 10) + 1
termination_by n

/-- The quotient `m · 2 ^ q / 10 ^ g` as a numerator and a denominator. -/
def onGrid (m : Nat) (q g : Int) : Nat × Nat :=
  (m * Nat.pow 2 q.toNat * Nat.pow 10 (-g).toNat, Nat.pow 2 (-q).toNat * Nat.pow 10 g.toNat)

/-- The exponent of the leading decimal digit of `num / den`, both positive. -/
def leadingExponent (num den : Nat) : Int :=
  if den ≤ num then (digitCount (num / den) : Int) - 1
  else -(digitCount ((den + num - 1) / num - 1) : Int)

/-- The exponent of the leading decimal digit of `m · 2 ^ q`. -/
def leadingExponentOf (m : Nat) (q : Int) : Int :=
  let (num, den) := onGrid m q 0
  leadingExponent num den

/-- The reals that round to the double `m · 2 ^ q`, times four and in units of `2 ^ q / 4`. Below a
power of two the next double is only half as far away. The ends belong to it iff `m` is even. -/
def neighbourhood (m : Nat) (q : Int) : Nat × Nat :=
  let below := if m = Nat.pow 2 52 ∧ -1074 < q then 1 else 2
  (4 * m - below, 4 * m + 2)

/-- Whether the grid point `c · 10 ^ g` reads back as the double `m · 2 ^ q`. -/
def readsBack (m : Nat) (q g : Int) (c : Nat) : Bool :=
  let (low, high) := neighbourhood m q
  let (lowNum, den) := onGrid low (q - 2) g
  let (highNum, _) := onGrid high (q - 2) g
  if m % 2 = 0 then lowNum ≤ c * den && c * den ≤ highNum
  else lowNum < c * den && c * den < highNum

/-- The nearer of the two grid neighbours that read back; of a tie, the even one. -/
def gridHit? (m : Nat) (q g : Int) : Option Nat :=
  let (num, den) := onGrid m q g
  let near := roundDiv num den
  let floor := num / den
  let far := if near = floor then floor + 1 else floor
  if readsBack m q g near then some near
  else if readsBack m q g far then some far
  else none

/-- Drops trailing zeros from the coefficient. -/
def Digits.strip (d : Digits) : Digits :=
  if h : d.coefficient ≠ 0 ∧ d.coefficient % 10 = 0 then
    Digits.strip ⟨d.coefficient / 10, d.exponent + 1⟩
  else d
termination_by d.coefficient
decreasing_by exact Nat.div_lt_self (Nat.pos_of_ne_zero h.1) (by decide)

/-- The fewest decimal digits that read back as the positive double `m · 2 ^ q`, and of those the
nearest. Seventeen digits always suffice. -/
def shortest (m : Nat) (q : Int) : Digits :=
  let lead := leadingExponentOf m q
  let hit := (List.range 17).findSome? fun (k : Nat) =>
    let g := lead - (k : Int)
    (gridHit? m q g).map fun c => Digits.strip ⟨c, g⟩
  hit.getD ⟨roundDiv (onGrid m q (lead - 16)).1 (onGrid m q (lead - 16)).2, lead - 16⟩

/-- The positive value `m · 2 ^ q` rounded to `count + 1` significant digits, ties to even. -/
def significant (m : Nat) (q : Int) (count : Nat) : Digits :=
  let g := leadingExponentOf m q - (count : Int)
  let (num, den) := onGrid m q g
  let c := roundDiv num den
  if c = Nat.pow 10 (count + 1) then ⟨c / 10, g + 1⟩ else ⟨c, g⟩

/-- The value `m · 2 ^ q` in units of `10 ^ -count`, rounded with ties to even. -/
def places (m : Nat) (q : Int) (count : Nat) : Nat :=
  let (num, den) := onGrid m q (-(count : Int))
  roundDiv num den

end CentralPath.Decimal
