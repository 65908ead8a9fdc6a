/-
  The first iterate. Every strategy leaves slacks and multipliers positive and the residuals in
  line with the iterate.
-/
import CentralPath.InteriorPoint.Run

namespace CentralPath.InteriorPoint

open Backend (Environment Work)

variable {σ α : Type} [Elementary α]

/-- Which parts of the previous iterate are used again. -/
structure Reuse where
  x : Bool
  lam : Bool
  deriving Repr, DecidableEq

/-- Ones in all three parts. -/
def Solver.withOnes (s : Solver α) : Solver α :=
  { s with x := Vector.constant 1 s.x, y := Vector.constant 1 s.y, lam := Vector.constant 1 s.lam }

/-- Ones in the parts that are not used again. -/
def Solver.withOnesUnless (s : Solver α) (reuse : Reuse) : Solver α :=
  { s with
    x := if reuse.x then s.x else Vector.constant 1 s.x
    lam := if reuse.lam then s.lam else Vector.constant 1 s.lam }

/-- The iterate times a factor. -/
def Solver.scaled (s : Solver α) (k : α) : Solver α :=
  { s with
    x := s.x.map (· * k)
    y := s.y.map (· * k)
    lam := s.lam.map (· * k) }

/-- The factor for an iterate of ones whose residuals are more than a tenth of its duality gap. -/
def onesFactor? (s : Solver α) : Option α :=
  let gap := Vector.dot s.y s.lam
  let residual := Elementary.sqrt (Vector.dot s.rp s.rp + Vector.dot s.rd s.rd)
  if Scalar.ratio 1 10 < residual / gap then some (residual / (gap * Scalar.ratio 1 10)) else none

/-- All ones, scaled up where the residuals outweigh the duality gap. -/
def startScaledOnes : Run σ α Unit := do
  Work.change Solver.withOnes
  refreshResiduals
  match onesFactor? (← Work.solver) with
  | none => pure ()
  | some k => do
    Work.change (·.scaled k)
    refreshResiduals

/-- Slacks of at least one at the current point, and their reciprocals as multipliers. -/
def startReciprocal (reuse : Reuse) : Run σ α Unit := do
  if !reuse.x then Work.change fun s => { s with x := Vector.constant 1 s.x }
  let s ← Work.solver
  let slack := Vector.sub (← Work.lift (s.mulA s.x)) s.b
  let y := slack.map (Scalar.atLeast 1)
  Work.change fun s => { s with y, lam := y.map (1 / ·) }
  refreshResiduals

/-- The sum of a vector and its direction in absolute value and at least one, for a vector that
keeps its length. -/
def pushed (a d : Array α) : Except (Fault α) (Array α) := do
  let moved ← Vector.zip? (· + ·) a d
  Vector.fill? a.size (moved.map fun v => Scalar.atLeast 1 (Scalar.abs v))

/-- One affine step from the slacks of the current point, then slacks and multipliers of at least
one. -/
def startAffineStep (env : Environment σ α) (reuse : Reuse) : Run σ α Unit := do
  Work.change (·.withOnesUnless reuse)
  let s ← Work.solver
  let y := Vector.sub (← Work.lift (s.mulA s.x)) s.b
  Work.change fun s => { s with y }
  refreshResiduals
  let d ← directions env .affine true
  Solver.assign .y fun s => pushed s.y d.dy
  Solver.assign .lam fun s => pushed s.lam d.dlam
  refreshResiduals

/-- An affine step from the previous iterate, unless that iterate has the lower merit. -/
def startAffineStepOrPrevious (env : Environment σ α) (reuse : Reuse) : Run σ α Unit := do
  if !(reuse.x && reuse.lam) then startAffineStep env reuse
  else
    let previous ← Work.solver
    refreshResiduals
    let kept := (← Work.solver).merit
    startAffineStep env ⟨true, true⟩
    let fresh := (← Work.solver).merit
    if kept < fresh then
      Work.change fun s => { s with x := previous.x, y := previous.y, lam := previous.lam }
      refreshResiduals
      Work.report [.previousKept kept fresh]

/-- Runs a strategy. -/
def startWith (env : Environment σ α) (choice : StartChoice) (reuse : Reuse) : Run σ α Unit :=
  match choice with
  | .strategy .scaledOnes => startScaledOnes
  | .strategy .reciprocal => startReciprocal reuse
  | .strategy .affineStep => startAffineStep env reuse
  | .strategy .affineStepOrPrevious => startAffineStepOrPrevious env reuse
  | .other name => throw (.startingPointUnknown name)

end CentralPath.InteriorPoint
