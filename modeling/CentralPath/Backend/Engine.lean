/-
  The backends that a caller can choose from, each with a record of its calls.
-/
import CentralPath.Backend.Adapter
import CentralPath.Backend.Scripted

namespace CentralPath.Backend

/-- A backend of one of the known kinds, with its state. -/
inductive Engine (α : Type) where
  | sparse (state : Recorded (Adapter (Factor α) α) α)
  | dense (state : Recorded (Adapter (Factor α) α) α)
  | scripted (state : Recorded (Script α) α)

/-- The same reply about a state seen as part of a larger one. -/
def Reply.lift {σ τ α : Type} (f : σ → τ) (r : Reply σ α) : Reply τ α :=
  ⟨f r.state, r.status, r.events⟩

variable {α : Type} [Scalar α]

/-- The sparse kernel as a backend on record. -/
def sparseBackend : Backend (Recorded (Adapter (Factor α) α) α) α := sparseKernel.backend.recorded

/-- The dense kernel as a backend on record. -/
def denseBackend : Backend (Recorded (Adapter (Factor α) α) α) α := denseKernel.backend.recorded

/-- The script as a backend on record. -/
def scriptedBackend : Backend (Recorded (Script α) α) α := scripted.recorded

namespace Engine

/-- A state without calls. -/
def unrecorded {σ : Type} (inner : σ) : Recorded σ α := ⟨inner, none, #[], []⟩

/-- A fresh backend for sparse systems. -/
def newSparse : Engine α := .sparse (unrecorded .initial)

/-- A fresh backend for dense systems. -/
def newDense : Engine α := .dense (unrecorded .initial)

/-- A fresh backend that follows a script. -/
def newScripted (replies : List (ScriptedReply α)) : Engine α :=
  .scripted (unrecorded ⟨none, replies, #[]⟩)

/-- The backend that an engine stands for. -/
def backend : Backend (Engine α) α where
  bind matrix rhs
    | .sparse s => .sparse (sparseBackend.bind matrix rhs s)
    | .dense s => .dense (denseBackend.bind matrix rhs s)
    | .scripted s => .scripted (scriptedBackend.bind matrix rhs s)
  call lookup job
    | .sparse s => (sparseBackend.call lookup job s).lift .sparse
    | .dense s => (denseBackend.call lookup job s).lift .dense
    | .scripted s => (scriptedBackend.call lookup job s).lift .scripted
  solution
    | .sparse s => sparseBackend.solution s
    | .dense s => denseBackend.solution s
    | .scripted s => scriptedBackend.solution s

/-- The calls on record. -/
def calls : Engine α → List (CallRecord α)
  | sparse s => s.calls
  | dense s => s.calls
  | scripted s => s.calls

/-- The engine with an empty record. -/
def forgetCalls : Engine α → Engine α
  | sparse s => .sparse { s with calls := [] }
  | dense s => .dense { s with calls := [] }
  | scripted s => .scripted { s with calls := [] }

/-- Whether the engine follows a script. -/
def isScripted : Engine α → Bool
  | scripted _ => true
  | _ => false

end Engine

end CentralPath.Backend
