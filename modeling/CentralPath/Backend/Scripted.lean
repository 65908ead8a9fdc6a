/-
  A backend that answers from a script. Every call takes the next reply, whatever the job; when
  none is left the status says so. The system is looked at but not solved.
-/
import CentralPath.Backend.Basic

namespace CentralPath.Backend

/-- One prepared reply. -/
structure ScriptedReply (α : Type) where
  status : Int
  solution : Array α

/-- The bound system, the replies that are left and the solution of the last one given. -/
structure Script (α : Type) where
  bound : Option (Binding α)
  replies : List (ScriptedReply α)
  solution : Array α

/-- The status of a call after the last reply. -/
def statusScriptEnded : Int := -99

/-- The next reply of a script. -/
def Script.next {α : Type} (s : Script α) : Int × Script α :=
  match s.replies with
  | [] => (statusScriptEnded, s)
  | r :: rest => (r.status, { s with replies := rest, solution := r.solution })

/-- The backend that follows a script. A call is refused where the system cannot be read. -/
def scripted {α : Type} [Scalar α] : Backend (Script α) α where
  bind matrix _ s := { s with bound := some matrix }
  call lookup _ s :=
    let (status, next) := s.next
    match (s.bound.map (·.resolve lookup)).map SystemMatrix.entries with
    | some (.error e) => ⟨next, .error e, []⟩
    | _ => ⟨next, .ok status, []⟩
  solution s := .ok s.solution

end CentralPath.Backend
