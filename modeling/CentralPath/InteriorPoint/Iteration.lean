/-
  One iteration: an affine predictor step that is only measured, then a corrector step toward the
  central path with the same factorization. The residuals shrink with the step lengths and are
  carried along instead of recomputed.
-/
import CentralPath.InteriorPoint.Run

namespace CentralPath.InteriorPoint

open Backend (Environment Work)
open Newton.System (Aim Direction)

variable {σ α : Type} [Elementary α]

/-- The fraction of the way to the boundary that a step may go. -/
def stepFraction (s : Solver α) : α :=
  if s.options.adaptiveEta then
    Scalar.ratio 9 10 + Scalar.ratio 1 10 * Elementary.exp (-s.mu * (s.m : α))
  else Scalar.ratio 19 20

/-- Step lengths of a solver along a direction. -/
def Solver.stepLengths (s : Solver α) (d : Direction α) (eta : α) :
    Except (Fault α) (α × α) :=
  InteriorPoint.stepLengths s.options.equalStepLength s.y s.lam d.dy d.dlam eta

/-- A vector moved along a direction and kept to its length. -/
def moved (v : Array α) (alpha : α) (d : Array α) : Except (Fault α) (Array α) :=
  Vector.addTo? v (Vector.scale alpha d)

/-- Moves the iterate and remembers the direction. -/
def advance (d : Direction α) (alphaP alphaD : α) : Run σ α Unit := do
  Solver.assign .x fun s => moved s.x alphaP d.dx
  Solver.assign .y fun s => moved s.y alphaP d.dy
  Solver.assign .lam fun s => moved s.lam alphaD d.dlam
  Solver.assign .dx fun s => Vector.fill? s.dx.size d.dx
  Solver.assign .dy fun s => Vector.fill? s.dy.size d.dy
  Solver.assign .dlam fun s => Vector.fill? s.dlam.size d.dlam

/-- Scales the primal residual, and corrects it where the step lengths differ. -/
def shrinkPrimal (d : Direction α) (alphaP alphaD : α) : Run σ α Unit := do
  Solver.assign .rp fun s => .ok (Vector.scale (1 - alphaP) s.rp)
  if (← Work.solver).usesE && !(alphaD == alphaP) then
    Solver.assign .rp fun s => do moved s.rp (alphaD - alphaP) (← s.E.mulVec d.dlam false)

/-- Scales the dual residual, and corrects it where the step lengths differ. -/
def shrinkDual (d : Direction α) (alphaP alphaD : α) : Run σ α Unit := do
  Solver.assign .rd fun s => .ok (Vector.scale (1 - alphaD) s.rd)
  if !(alphaP == alphaD) then
    Solver.assign .rd fun s => do moved s.rd (alphaP - alphaD) (← s.mulG d.dx)

/-- Takes a step and carries the residuals along. -/
def takeStep (d : Direction α) (alphaP alphaD : α) : Run σ α Unit := do
  advance d alphaP alphaD
  shrinkPrimal d alphaP alphaD
  shrinkDual d alphaP alphaD
  if (← Work.solver).m = 0 then throw .divisionByZero
  Work.change fun s => { s with mu := s.dualityMeasure }

/-- The cube of a quotient. A zero denominator and a finite quotient with an infinite cube are
refused. -/
def cubedQuotient (a b : α) : Except (Fault α) α :=
  if b == 0 then .error .divisionByZero
  else
    let q := a / b
    let cube := q * q * q
    if Scalar.isFinite q && !Scalar.isFinite cube && !Scalar.isNan cube then .error .overflow
    else .ok cube

/-- The centring weight: the cube of the share of the duality measure that the predictor leaves. -/
def centring (predicted : α) (s : Solver α) : Except (Fault α) α := cubedQuotient predicted s.mu

/-- What the corrector aims at. -/
def correctorAim (s : Solver α) (sigma : α) (affine : Direction α) : Aim α :=
  if s.options.secondOrderCorrection then ⟨sigma * s.mu, some affine.dy, some affine.dlam⟩
  else ⟨sigma * s.mu, none, none⟩

/-- Takes the predictor step itself, shortened. -/
def predictorIteration (affine : Direction α) : Run σ α Unit := do
  let s ← Work.solver
  let (alphaP, alphaD) ← Work.lift (s.stepLengths affine (stepFraction s))
  takeStep affine alphaP alphaD
  let s ← Work.solver
  Work.report [.predictorStep s.iterations alphaP alphaD s.mu]

/-- Where a step would take a vector, for one that keeps its length. -/
def predicted (kept v : Array α) (alpha : α) (d : Array α) : Except (Fault α) (Array α) := do
  Vector.fill? kept.size (← Vector.zip? (· + ·) v (Vector.scale alpha d))

/-- Measures the predictor step: the centring weight that it leaves to the corrector. -/
def measurePredictor (affine : Direction α) : Run σ α α := do
  let s ← Work.solver
  let (alphaP, alphaD) ← Work.lift (s.stepLengths affine 1)
  Solver.assign .yPred fun s => predicted s.yPred s.y alphaP affine.dy
  Solver.assign .lamPred fun s => predicted s.lamPred s.lam alphaD affine.dlam
  let s ← Work.solver
  if s.m = 0 then throw .divisionByZero
  Work.lift (centring (Vector.dot s.yPred s.lamPred / (s.m : α)) s)

/-- Measures the predictor step and takes the corrector step. -/
def correctorIteration (env : Environment σ α) (affine : Direction α) : Run σ α Unit := do
  let s ← Work.solver
  let eta := stepFraction s
  let sigma ← measurePredictor affine
  let d ← directions env (correctorAim s sigma affine) false
  let (alphaP, alphaD) ← Work.lift (s.stepLengths d eta)
  takeStep d alphaP alphaD
  let s ← Work.solver
  Work.report [.correctorStep s.iterations sigma alphaP alphaD s.mu]

/-- One iteration. -/
def iterate (env : Environment σ α) : Run σ α Unit := do
  let affine ← directions env .affine true
  let s ← Work.solver
  if s.options.onlyPredict then predictorIteration affine
  else correctorIteration env affine

end CentralPath.InteriorPoint
