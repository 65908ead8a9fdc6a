/-
  The arithmetic that everything else is written over. `Scalar` bundles the operations of the
  sparse engine: ring operations, division, absolute value and decidable comparison. `Elementary`
  adds what the interior-point iteration needs on top: square root, exponential and integer part.
  Programs run at double precision, theorems are stated at an ordered field; both are instances.
  No law is assumed here, since rounded arithmetic has none of them.
-/

namespace CentralPath

/-- The operations of the sparse engine. Comparison is decidable but need not be total: at double
precision a NaN is neither below, above nor equal to anything. -/
class Scalar (α : Type) extends Zero α, One α, NatCast α, Add α, Sub α, Mul α, Div α, Neg α,
    BEq α, LT α, LE α where
  /-- Absolute value. -/
  abs : α → α
  decLt : DecidableLT α
  decLe : DecidableLE α

attribute [reducible, instance] Scalar.decLt Scalar.decLe

/-- The functions of the iteration beyond field arithmetic. -/
class Elementary (α : Type) extends Scalar α where
  sqrt : α → α
  exp : α → α
  /-- Integer part toward zero; none where there is no such integer. -/
  truncate : α → Option Int

namespace Scalar

variable {α : Type} [Scalar α]

/-- A number is finite when it leaves nothing over after subtracting itself. -/
def isFinite (a : α) : Bool := a - a == 0

/-- The only scalar that differs from itself is "not a number". -/
def isNan (a : α) : Bool := !(a == a)

/-- One half, a tenth and the like: a quotient of two numerals. -/
def ratio (num den : Nat) : α := (num : α) / (den : α)

/-- The larger of a number and a bound; a NaN stays a NaN. -/
def atLeast (bound a : α) : α := if a ≤ bound then bound else a

end Scalar

end CentralPath
