/-
  The ratio test. From a vector `v` in direction `d`, the step is the largest one up to 1 that keeps
  `v` non-negative, shortened by a fraction.
-/
import CentralPath.Vector

namespace CentralPath.InteriorPoint

variable {α : Type} [Scalar α]

/-- The smaller of a running minimum and a next number. Once a NaN was met it stays. -/
def lesser (least a : α) : α := if a < least ∨ Scalar.isNan a then a else least

/-- The minimum of a list, if it has one. -/
def least? : List α → Option α
  | [] => none
  | a :: as => some (as.foldl lesser a)

/-- The step at which a component that decreases reaches zero, times `eta`. -/
def ratioOf (eta v d : α) : α := -eta * v / d

/-- The ratios of the components that decrease. -/
def ratios (eta : α) (v d : List α) : List α :=
  ((v.zip d).filter fun p => decide (p.2 < 0)).map fun p => ratioOf eta p.1 p.2

/-- The step length `min (1, min over d_i < 0 of −eta · v_i / d_i)`, at least zero. A minimum that
is not a number counts as no bound. -/
def stepLength (v d : Array α) (eta : α) : α :=
  let alpha := match least? (ratios eta v.toList d.toList) with
    | none => 1
    | some a => if a < 1 then a else 1
  if alpha < 0 then 0 else alpha

/-- The step length, where the lengths of the vectors fit or nothing decreases. -/
def stepLength? (v d : Array α) (eta : α) : Except (Fault α) α :=
  if v.size ≠ d.size ∧ d.any fun a => decide (a < 0) then .error .componentMissing
  else .ok (stepLength v d eta)

/-- Step lengths of slacks and multipliers, made equal if asked to. -/
def stepLengths (equal : Bool) (y lam dy dlam : Array α) (eta : α) :
    Except (Fault α) (α × α) := do
  let primal ← stepLength? y dy eta
  let dual ← stepLength? lam dlam eta
  if equal then
    let shorter := if dual < primal then dual else primal
    pure (shorter, shorter)
  else pure (primal, dual)

end CentralPath.InteriorPoint
