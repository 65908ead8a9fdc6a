/-
  A solver at work on a backend. The work reads and changes the solver's state, the backend's state
  and the list of events so far; when it is refused, what it changed up to then stays changed.
-/
import CentralPath.Backend.Basic
import CentralPath.Journal.Watch

namespace CentralPath.Backend

open Journal (Event)
open Sparse (Matrix)

/-- A solver's own state `ς`, its backend's state `σ`, and what happened so far. -/
structure Session (ς σ α : Type) where
  solver : ς
  backend : σ
  events : List (Event α)

/-- What the work takes as given: the backend's operations and whether debug checks are on. -/
structure Environment (σ α : Type) where
  backend : Backend σ α
  debug : Bool

/-- A computation that keeps its changes when it is refused. -/
abbrev Work (ς σ α : Type) := ExceptT (Fault α) (StateM (Session ς σ α))

namespace Work

variable {ς σ α : Type}

/-- The solver as it is now. -/
def solver : Work ς σ α ς := do return (← get).solver

/-- Changes the solver. -/
def change (f : ς → ς) : Work ς σ α Unit :=
  modify fun r => { r with solver := f r.solver }

/-- Adds events to the report. -/
def report (es : List (Event α)) : Work ς σ α Unit :=
  modify fun r => { r with events := r.events ++ es }

/-- Takes over the outcome of a computation without effects. -/
def lift {β : Type} : Except (Fault α) β → Work ς σ α β
  | .ok b => pure b
  | .error e => throw e

/-- Stops at a fault, if there is one. -/
def stopAt : Option (Fault α) → Work ς σ α Unit
  | none => pure ()
  | some e => throw e

/-- Hands a matrix and a right-hand side to the backend and asks it for a job. A status other than
zero stops the work. -/
def request (env : Environment σ α) (ref : MatrixRef) (matrix : Matrix α) (rhs : Array α)
    (job : Job) (context : String) : Work ς σ α Unit := do
  modify fun r => { r with backend := env.backend.bind (.shared ref) rhs r.backend }
  let reply := env.backend.call (fun _ => matrix) job (← get).backend
  modify fun r => { r with backend := reply.state, events := r.events ++ reply.events }
  let status ← Work.lift reply.status
  Work.stopAt (statusFault? status context (some job.name))

/-- The solution that the backend holds. -/
def solution (env : Environment σ α) : Work ς σ α (Array α) := do
  Work.lift (env.backend.solution (← get).backend)

end Work

end CentralPath.Backend
