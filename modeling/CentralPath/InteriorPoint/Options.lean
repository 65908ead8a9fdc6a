/-
  Options of the interior-point solver. `Options.check` refuses values that cannot be honoured;
  a solver works with whatever it was given, checked or not.
-/
import CentralPath.Newton.System

namespace CentralPath.InteriorPoint

/-- How the first iterate is built. -/
inductive StartingPoint where
  /-- All ones, scaled up where the residuals outweigh the duality gap. -/
  | scaledOnes
  /-- Slacks of at least one and multipliers that are their reciprocals. -/
  | reciprocal
  /-- One affine step, then slacks and multipliers of at least one. -/
  | affineStep
  /-- An affine step from the previous iterate, unless that iterate was better. -/
  | affineStepOrPrevious
  deriving Repr, DecidableEq

namespace StartingPoint

/-- The names of the strategies. -/
def name : StartingPoint → String
  | scaledOnes => "stp1"
  | reciprocal => "stp2"
  | affineStep => "nocedal"
  | affineStepOrPrevious => "nocedal_warm_start"

/-- All strategies. -/
def all : List StartingPoint := [scaledOnes, reciprocal, affineStep, affineStepOrPrevious]

/-- The strategy of a name. -/
def ofName? (s : String) : Option StartingPoint := all.find? (·.name == s)

end StartingPoint

/-- The starting point that was asked for, by strategy or by a name that is none. -/
inductive StartChoice where
  | strategy (s : StartingPoint)
  | other (name : String)
  deriving Repr, DecidableEq

namespace StartChoice

/-- The name asked for. -/
def name : StartChoice → String
  | strategy s => s.name
  | other n => n

/-- The choice that a name stands for. -/
def ofName (s : String) : StartChoice := (StartingPoint.ofName? s).elim (.other s) .strategy

end StartChoice

/-- The formulation that a name stands for. -/
def formulationOfName : String → Newton.Choice
  | "standard" => .standard
  | "augmented" => .augmented
  | "normal" => .normal
  | s => .other s

/-- The name of a formulation. -/
def formulationName : Newton.Choice → String
  | .standard => "standard"
  | .augmented => "augmented"
  | .normal => "normal"
  | .other s => s

/-- Options of the interior-point solver. -/
structure Options (α : Type) where
  formulation : Newton.Choice
  /-- Upper bound on the number of iterations. -/
  maxIterations : Int
  rpTolerance : α
  rdTolerance : α
  muTolerance : α
  /-- Take the shorter of the primal and the dual step for both. -/
  equalStepLength : Bool
  /-- Step fraction `0.9 + 0.1 · exp (−μ m)` in place of 0.95. -/
  adaptiveEta : Bool
  /-- Correct for the product of the affine directions. -/
  secondOrderCorrection : Bool
  /-- Take the predictor step and skip the corrector. -/
  onlyPredict : Bool
  startingPoint : StartChoice
  /-- Start from the previous iterate where the dimensions are unchanged. -/
  warmStart : Bool
  /-- Ask for the normal constraint rows only. -/
  skipTangential : Bool
  /-- Load the compliance block. -/
  useCompliance : Bool
  /-- How far insertions into the Newton matrix look for a hole. -/
  maxShifts : Option Int
  /-- Keep the positions of the Newton matrix from solve to solve. -/
  lockPattern : Bool
  /-- Learn the positions of the Newton matrix before it is filled. -/
  learnPattern : Bool
  /-- Expected share of nonzeros in the Newton matrix. -/
  fullness : α
  /-- Keep a record of every iteration. -/
  recordHistory : Bool

namespace Options

variable {α : Type} [Elementary α]

/-- `10 ^ -k`. -/
def negPower (k : Nat) : α := Scalar.ratio 1 (Nat.pow 10 k)

/-- The options when nothing is asked for. -/
def standard : Options α where
  formulation := .augmented
  maxIterations := 50
  rpTolerance := negPower 7
  rdTolerance := negPower 8
  muTolerance := negPower 8
  equalStepLength := false
  adaptiveEta := true
  secondOrderCorrection := true
  onlyPredict := false
  startingPoint := .strategy .affineStep
  warmStart := false
  skipTangential := false
  useCompliance := false
  maxShifts := none
  lockPattern := false
  learnPattern := false
  fullness := negPower 1
  recordHistory := true

/-- The fault of a share of nonzeros outside `(0, 1]`. -/
def fullnessFault? (o : Options α) : Option (Fault α) :=
  if 0 < o.fullness ∧ o.fullness ≤ 1 then none else some (.fullnessOutside o.fullness)

/-- The fault of a negative shift bound. -/
def shiftFault? (o : Options α) : Option (Fault α) :=
  match o.maxShifts with
  | some s => if s < 0 then some (.shiftOptionNegative s) else none
  | none => none

/-- The first tolerance that is not positive. -/
def toleranceFault? (o : Options α) : Option (Fault α) :=
  if o.rpTolerance ≤ 0 then some (.toleranceNotPositive "rp_tolerance" o.rpTolerance)
  else if o.rdTolerance ≤ 0 then some (.toleranceNotPositive "rd_tolerance" o.rdTolerance)
  else if o.muTolerance ≤ 0 then some (.toleranceNotPositive "mu_tolerance" o.muTolerance)
  else none

/-- The first option that cannot be honoured. -/
def fault? (o : Options α) : Option (Fault α) :=
  match o.formulation, o.startingPoint with
  | .other name, _ => some (.formulationInvalid name)
  | _, .other name => some (.startingPointInvalid name)
  | _, _ =>
    if o.maxIterations < 0 then some (.negativeIterations o.maxIterations)
    else o.toleranceFault?.or (o.shiftFault?.or o.fullnessFault?)

/-- The options, if all of them can be honoured. -/
def check (o : Options α) : Except (Fault α) (Options α) :=
  match o.fault? with
  | some e => .error e
  | none => .ok o

/-- Room to give a Newton matrix of dimension `dim`: the expected number of nonzeros, at least
one per row. -/
def capacityHint (o : Options α) (dim : Int) : Except (Fault α) Int :=
  let area : α := if 0 ≤ dim * dim then ((dim * dim).toNat : α) else 0
  let expected := area * o.fullness
  match Elementary.truncate expected with
  | some k => .ok (max k dim)
  | none => if Scalar.isNan expected then .error .noInteger else .error .overflow

end Options

end CentralPath.InteriorPoint
