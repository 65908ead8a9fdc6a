/-
  The interior-point solver as a value, and the quantities that are read off it. The solver keeps
  its iterate, its matrices and its history between solves.
-/
import CentralPath.InteriorPoint.Options
import CentralPath.Journal.Event
import CentralPath.Problem.Basic

namespace CentralPath.InteriorPoint

open Sparse (Matrix)
open Journal (Measures)

/-- Where a solver is in its life. -/
inductive Stage where
  | uninitialized
  | initialized
  | iterating
  | converged
  | iterationsExhausted
  | degenerate
  deriving Repr, DecidableEq

/-- The name of a stage. -/
def Stage.name : Stage → String
  | uninitialized => "uninitialized"
  | initialized => "initialized"
  | iterating => "iterating"
  | converged => "converged"
  | iterationsExhausted => "max_iter_reached"
  | degenerate => "degenerate"

/-- The measures after one iteration of one solve. -/
structure Record (α : Type) where
  solveCall : Int
  iteration : Int
  measures : Measures α

/-- The interior-point solver. -/
structure Solver (α : Type) where
  /-- The number under which its matrices are known to a backend. -/
  id : Nat
  options : Options α
  stage : Stage
  n : Nat
  m : Nat
  x : Array α
  y : Array α
  lam : Array α
  c : Array α
  b : Array α
  rp : Array α
  rd : Array α
  dx : Array α
  dy : Array α
  dlam : Array α
  yPred : Array α
  lamPred : Array α
  diagE : Array α
  mu : α
  kkt : Matrix α
  G : Matrix α
  A : Matrix α
  E : Matrix α
  system : Option Newton.System
  usesE : Bool
  patternLearned : Bool
  solveCalls : Nat
  iterations : Nat
  history : List (Record α)
  /-- Whether the vectors hold an iterate of a constrained solve. -/
  hasIterate : Bool

/-- What a solve returns. -/
structure Outcome (α : Type) where
  x : Array α
  objective : α
  stage : Stage
  message : String
  iterations : Nat
  measures : Measures α
  slack : Array α
  multipliers : Array α
  history : List (Record α)

namespace Solver

variable {α : Type} [Elementary α]

/-- A solver that has not seen a problem. -/
def create (id : Nat) (options : Options α) : Solver α where
  id
  options
  stage := .uninitialized
  n := 0
  m := 0
  x := #[]
  y := #[]
  lam := #[]
  c := #[]
  b := #[]
  rp := #[]
  rd := #[]
  dx := #[]
  dy := #[]
  dlam := #[]
  yPred := #[]
  lamPred := #[]
  diagE := #[]
  mu := 0
  kkt := .unit
  G := .unit
  A := .unit
  E := .unit
  system := none
  usesE := false
  patternLearned := false
  solveCalls := 0
  iterations := 0
  history := []
  hasIterate := false

/-- Gives the vectors of the unknowns the length `n`, unless that is the dimension already: ones for
the point, zeros for the others. -/
def resizeUnknowns (s : Solver α) (n : Nat) : Solver α :=
  if n = s.n then s else
    { s with
      x := Vector.ones n, c := Vector.zeros n, rd := Vector.zeros n, dx := Vector.zeros n }

/-- Takes on the dimensions `n` and `m`. Vectors whose dimension stays keep their values, the others
start from ones (the iterate) or zeros. -/
def allocate (s : Solver α) (n m : Nat) : Solver α :=
  let s := s.resizeUnknowns n
  let s := if m = s.m then s else
    { s with
      y := Vector.ones m, lam := Vector.ones m, b := Vector.zeros m, rp := Vector.zeros m
      dy := Vector.zeros m, dlam := Vector.zeros m
      yPred := Vector.zeros m, lamPred := Vector.zeros m }
  { s with n, m }

/-- The system that was set up last. -/
def system? (s : Solver α) : Except (Fault α) Newton.System :=
  match s.system with
  | some sys => .ok sys
  | none => .error .noProblem

/-- `A v`, read from the Newton matrix. -/
def mulA (s : Solver α) (v : Array α) : Except (Fault α) (Array α) := do
  (← s.system?).mulA s.kkt v

/-- `G v`, read from the Newton matrix. -/
def mulG (s : Solver α) (v : Array α) : Except (Fault α) (Array α) := do
  (← s.system?).mulG s.kkt v

/-- `−Aᵀ v`, read from the Newton matrix. -/
def mulNegAT (s : Solver α) (v : Array α) : Except (Fault α) (Array α) := do
  (← s.system?).mulNegAT s.kkt v

/-- `E v`, zero without compliance. -/
def mulE (s : Solver α) (v : Array α) : Except (Fault α) (Array α) :=
  if s.usesE then s.E.mulVec v false else .ok (Vector.zeros s.m)

/-- The compliance block, if it is in use. -/
def compliance? (s : Solver α) : Option (Matrix α) := if s.usesE then some s.E else none

/-- The duality measure `y · λ / m`. -/
def dualityMeasure (s : Solver α) : α := Vector.dot s.y s.lam / (s.m : α)

/-- Computes both residuals and the duality measure at the current iterate. -/
def updateResiduals (s : Solver α) : Except (Fault α) (Solver α) := do
  let rp := Vector.add (Vector.sub (Vector.sub (← s.mulA s.x) s.y) s.b) (← s.mulE s.lam)
  let rd := Vector.add (Vector.add (← s.mulG s.x) (← s.mulNegAT s.lam)) s.c
  pure { s with rp, rd, mu := s.dualityMeasure }

/-- The convergence measures from the maintained residuals. -/
def measures (s : Solver α) : Measures α :=
  ⟨Vector.normOver s.rp s.m, Vector.normOver s.rd s.n, s.mu⟩

/-- One number for the quality of an iterate: the measures weighted by their dimensions. -/
def merit (s : Solver α) : α :=
  let q := s.measures
  q.primal * (s.m : α) + q.dual * (s.n : α) + q.mu * (s.m : α)

/-- Whether all three measures are below their tolerances. -/
def isConverged (s : Solver α) : Bool :=
  let q := s.measures
  decide (q.mu < s.options.muTolerance) && decide (q.primal < s.options.rpTolerance) &&
    decide (q.dual < s.options.rdTolerance)

end Solver

/-- `½ xᵀ (G x) + cᵀ x` for a product `G x` that is at hand. -/
def objectiveOf {α : Type} [Scalar α] (image c x : Array α) : Except (Fault α) α :=
  if image.size ≠ x.size ∨ c.size ≠ x.size then .error .lengthsDiffer
  else .ok (Vector.dot (Vector.scale (Scalar.ratio 1 2) x) image + Vector.dot c x)

/-- `½ xᵀ (G x) + cᵀ x` for a matrix as it is handed over. An array with more axes than two counts
as a square table when all the others have length one, and has no single value otherwise. -/
def objectiveOfGiven {α : Type} [Scalar α] (G : GivenMatrix α) (c x : Array α) :
    Except (Fault α) α := do
  match G with
  | .box ⟨shape, numbers⟩ =>
    match shape.reverse with
    | cols :: between :: rows :: others =>
      if cols ≠ x.size ∨ rows ≠ x.size ∨ c.size ≠ x.size then throw .lengthsDiffer
      else if (between :: others).any (· ≠ 1) then throw .tooManyAxes
      else
        objectiveOf (← (GivenMatrix.dense (Nested.tableOf rows cols numbers)).mulVec x) c x
    | _ => throw .lengthsDiffer
  | _ => objectiveOf (← G.mulVec x) c x

namespace Solver

variable {α : Type} [Elementary α]

/-- The objective at the current point. -/
def objective (s : Solver α) : Except (Fault α) α := do
  objectiveOf (← s.G.mulVec s.x false) s.c s.x

/-- The measures from the residuals as the block matrices define them. -/
def measureConditions (s : Solver α) : Except (Fault α) (Measures α) := do
  let slack ← Vector.zip? (· - ·) (← s.A.mulVec s.x false) s.y
  let primal ← Vector.zip? (· + ·) (← Vector.zip? (· - ·) slack s.b) (← s.mulE s.lam)
  let image ← s.G.mulVec s.x false
  let gradient ← Vector.zip? (· - ·) image (← s.A.mulVec s.lam true)
  let dual ← Vector.zip? (· + ·) gradient s.c
  let mu := if s.m = 0 then 0 else s.dualityMeasure
  pure ⟨Vector.normOver primal s.m, Vector.normOver dual s.n, mu⟩

/-- Whether some slack or multiplier is negative. -/
def hasNegative (s : Solver α) : Bool :=
  s.y.any (fun a => decide (a < 0)) || s.lam.any fun a => decide (a < 0)

/-- A one-line description; none when the formulation has no name. -/
def describe? (s : Solver α) : Option String :=
  match s.options.formulation with
  | .other _ => none
  | f =>
    some <| s!"InteriorPointSolver(n={s.n}, m={s.m}, state={s.stage.name.toUpper}, " ++
      s!"method={(formulationName f).toUpper})"

end Solver

end CentralPath.InteriorPoint
