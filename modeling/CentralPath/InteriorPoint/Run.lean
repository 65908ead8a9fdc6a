/-
  The steps of a solve that deal with the Newton system: bring it to the iterate, solve it, read the
  direction off the solution, and measure the optimality conditions from scratch.
-/
import CentralPath.InteriorPoint.Component
import CentralPath.InteriorPoint.StepLength

namespace CentralPath.InteriorPoint

open Backend (Environment Job Session Work)
open Journal (growthEvents)

/-- A computation of the interior-point solver on a backend with states `σ`. -/
abbrev Run (σ α : Type) := Work (Solver α) σ α

variable {σ α : Type} [Elementary α]

/-- Solves the Newton system for a right-hand side. -/
def newtonSolve (env : Environment σ α) (rhs : Array α) (job : Job) : Run σ α (Array α) := do
  let s ← Work.solver
  Work.request env (.newton s.id) s.kkt rhs job "KKT system"
  Work.solution env

/-- Brings the Newton matrix to the current iterate. -/
def updateIterateBlocks : Run σ α Unit := do
  let s ← Work.solver
  let sys ← Work.lift s.system?
  let (fault, kkt) := s.kkt.assemble (sys.iterateAssembly s.y s.lam s.diagE)
  Work.change fun s => { s with kkt }
  Work.report (growthEvents s.kkt kkt)
  Work.stopAt fault

/-- The direction toward an aim. With `refactor` the matrix is brought to the current iterate and
factorized first, otherwise the last factor is used again. -/
def directions (env : Environment σ α) (aim : Newton.System.Aim α) (refactor : Bool) :
    Run σ α (Newton.System.Direction α) := do
  if refactor then updateIterateBlocks
  let s ← Work.solver
  let sys ← Work.lift s.system?
  let rhs ← Work.lift (sys.rightHandSide s.rp s.rd s.y s.lam aim)
  let solution ← newtonSolve env rhs (if refactor then .complete else .solve)
  Work.lift (sys.direction solution s.kkt s.rp s.compliance?)

/-- The direction of the unperturbed system at the current iterate. -/
def affineDirections (env : Environment σ α) : Run σ α (Newton.System.Direction α) :=
  directions env .affine true

/-- Computes the residuals at the current iterate. -/
def refreshResiduals : Run σ α Unit := do
  let s ← Work.lift (← Work.solver).updateResiduals
  Work.change fun _ => s

/-- Recomputes the measures from the block matrices and reports negative components, and on
request the measures. -/
def verifyConditions (report : Bool) : Run σ α (Journal.Measures α) := do
  let s ← Work.solver
  let q ← Work.lift s.measureConditions
  if s.hasNegative then Work.report [.signsViolated]
  if report then Work.report [.conditionsMeasured q]
  pure q

end CentralPath.InteriorPoint
