/-
  What the library reports while it works. An event is data; its source, its severity and its
  wording follow from it. Which events reach a reader is up to `CentralPath.Journal.Registry`.
-/
import CentralPath.Backend.Job
import CentralPath.Sparse.Basic
import CentralPath.Decimal.Layout

namespace CentralPath.Journal

open Backend (Job Phase)
open Sparse (Growth)

/-- The convergence measures: both residual norms and the duality measure. -/
structure Measures (α : Type) where
  primal : α
  dual : α
  mu : α
  deriving Repr

/-- Something worth reporting. -/
inductive Event (α : Type) where
  | storageRedistributed (growth : Growth)
  | storageViolated (context : String) (code : Int)
  | jobBeforeProblem (backend : String) (job : Job)
  | phaseFailed (backend : String) (phase : Phase) (job : Job) (status : Int)
  | factorSingular
  | patternLearned (entries : Nat) (dim : Int)
  | systemPatternLearned (entries : Nat)
  | signsViolated
  | conditionsMeasured (measures : Measures α)
  | previousKept (kept discarded : α)
  | predictorStep (iteration : Nat) (alphaP alphaD mu : α)
  | correctorStep (iteration : Nat) (sigma alphaP alphaD mu : α)
  | converged (iterations : Nat) (measures : Measures α)
  | notConverged (iterations : Nat) (measures : Measures α)
  | solvedDirectly (unknowns : Nat)

namespace Event

variable {α : Type}

/-- The names of the package's own loggers. -/
def storageSource : String := "contactqp.sparse.csr3"
def diagnosticsSource : String := "contactqp.diagnostics.debug_mode"
def backendSource : String := "contactqp.ipm.linsolve"
def directSource : String := "contactqp.ipm.direct"
def startSource : String := "contactqp.ipm.starting_point"
def solverSource : String := "contactqp.ipm.solver"

/-- All of them, in the order in which they come to be. -/
def sources : List String :=
  [diagnosticsSource, storageSource, backendSource, directSource, startSource, solverSource]

/-- The logger that an event goes through. -/
def source : Event α → String
  | storageRedistributed _ => storageSource
  | storageViolated .. => diagnosticsSource
  | jobBeforeProblem .. => backendSource
  | phaseFailed .. => backendSource
  | factorSingular => backendSource
  | patternLearned .. => directSource
  | previousKept .. => startSource
  | _ => solverSource

/-- The severity of an event. -/
def severity : Event α → Int
  | storageViolated .. => 40
  | jobBeforeProblem .. => 30
  | phaseFailed .. => 30
  | signsViolated => 30
  | notConverged .. => 30
  | conditionsMeasured _ => 20
  | converged .. => 20
  | solvedDirectly _ => 20
  | _ => 10

/-- Three digits after the point. -/
def brief (x : Float) : String := Decimal.renderScientific 3 x

/-- The wording of an event. -/
def text : Event Float → String
  | storageRedistributed g =>
    s!"CSR3 storage redistributed from {g.oldCapacity} to {g.newCapacity} slots " ++
      s!"({g.entries} entries)"
  | storageViolated context code =>
    s!"CSR3 storage invariant violated after {context} (code {code})"
  | jobBeforeProblem backend job => s!"{backend}: {job.name} requested before set_problem"
  | phaseFailed backend phase job status =>
    s!"{backend}: {phase.name} phase of {job.name} failed with status {status}"
  | factorSingular => "SuperLU factorization failed: Factor is exactly singular"
  | patternLearned entries dim =>
    s!"Learned sparsity pattern: {entries} entries for dim {dim}"
  | systemPatternLearned entries => s!"Learned KKT sparsity pattern: {entries} entries"
  | signsViolated => "KKT check: negative entries in y or lam"
  | conditionsMeasured q =>
    s!"KKT check: rp_nnorm={brief q.primal} rd_nnorm={brief q.dual} mu={brief q.mu}"
  | previousKept kept discarded =>
    s!"Warm start kept the previous iterate (merit {brief kept} < {brief discarded})"
  | predictorStep k alphaP alphaD mu =>
    s!"iteration {k}: predictor only alpha_p={brief alphaP} alpha_d={brief alphaD} " ++
      s!"mu={brief mu}"
  | correctorStep k sigma alphaP alphaD mu =>
    s!"iteration {k}: sigma={brief sigma} alpha_p={brief alphaP} alpha_d={brief alphaD} " ++
      s!"mu={brief mu}"
  | converged k q => s!"Converged in {k} iterations " ++ measured q
  | notConverged k q => s!"No convergence after {k} iterations " ++ measured q
  | solvedDirectly n => s!"No active constraints: solved G x = -c directly (n={n})"
where
  measured (q : Measures Float) : String :=
    let two := Decimal.renderScientific 2
    s!"(rp={two q.primal} rd={two q.dual} mu={two q.mu})"

end Event

end CentralPath.Journal
