/-
  Exact arithmetic. An ordered field is a `Scalar` with its own operations, where equality and order
  are decided and the absolute value is that of the order. The functions of the iteration beyond
  field arithmetic come from `ElementaryFunctions`, of which nothing is assumed here.
-/
import CentralPath.Scalar
import Mathlib

namespace CentralPath

variable {K : Type} [Field K] [LinearOrder K]

instance : Scalar K where
  zero := 0
  one := 1
  natCast := Nat.cast
  add := (· + ·)
  sub := (· - ·)
  mul := (· * ·)
  div := (· / ·)
  neg := (- ·)
  beq a b := decide (a = b)
  lt := (· < ·)
  le := (· ≤ ·)
  abs a := |a|
  decLt := inferInstance
  decLe := inferInstance

-- the operations of the field come first, so that its theorems apply to what is written with them
attribute [instance(low)] Scalar.toZero Scalar.toOne Scalar.toNatCast Scalar.toAdd Scalar.toSub
  Scalar.toMul Scalar.toDiv Scalar.toNeg Scalar.toLT Scalar.toLE Scalar.decLt Scalar.decLe

/-- A square root, an exponential and an integer part. -/
class ElementaryFunctions (K : Type) where
  sqrt : K → K
  exp : K → K
  truncate : K → Option Int

instance [ElementaryFunctions K] : Elementary K where
  sqrt := ElementaryFunctions.sqrt
  exp := ElementaryFunctions.exp
  truncate := ElementaryFunctions.truncate

namespace Scalar

@[simp] theorem beq_iff {a b : K} : (a == b) = true ↔ a = b := decide_eq_true_iff

@[simp] theorem abs_eq (a : K) : Scalar.abs a = |a| := rfl

@[simp] theorem isFinite_eq (a : K) : Scalar.isFinite a = true := by
  rw [isFinite, beq_iff]
  exact sub_self a

end Scalar

end CentralPath
