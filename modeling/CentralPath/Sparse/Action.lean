/-
  The calls that change a matrix, as data. A run of calls is a list of actions; each of them leaves
  a matrix, whether it is refused or not.
-/
import CentralPath.Sparse.Arithmetic
import CentralPath.Sparse.Canonical
import CentralPath.Sparse.Pattern

namespace CentralPath.Sparse

/-- A call that changes a matrix. -/
inductive Action (α : Type) where
  | write (w : Write α)
  | reset (rows cols hint : Int)
  | compress
  | prune (threshold : α)
  | trim
  | lock (on : Bool)
  | boundShifts (bound : Option Int)
  | load (pattern : Pattern)
  /-- Adds another matrix, or subtracts it. -/
  | accumulate (other : Matrix α) (negated : Bool)
  /-- Adds the matrix to itself, or subtracts it from itself. -/
  | accumulateSelf (negated : Bool)
  | scale (factor : α)
  | map (f : α → α) (rowSpan colSpan : Option Span)

/-- What an action leaves: the matrix, the fault if it was refused, and whether it reports a change
of what is stored. -/
structure Effect (α : Type) where
  matrix : Matrix α
  fault : Option (Fault α)
  changed : Bool

namespace Effect

variable {α : Type}

/-- An action that cannot be refused and reports nothing. -/
def quiet (m : Matrix α) : Effect α := ⟨m, none, false⟩

/-- An action that changes nothing when it is refused. -/
def ofResult (m : Matrix α) : Except (Fault α) (Matrix α) → Effect α
  | .ok next => quiet next
  | .error e => ⟨m, some e, false⟩

/-- An action that reports whether it changed anything, and changes nothing when it is refused. -/
def ofChange (m : Matrix α) : Except (Fault α) (Matrix α × Bool) → Effect α
  | .ok (next, changed) => ⟨next, none, changed⟩
  | .error e => ⟨m, some e, false⟩

/-- An action that may be refused on the way. -/
def ofRun (outcome : Option (Fault α) × Matrix α) : Effect α := ⟨outcome.2, outcome.1, false⟩

end Effect

namespace Matrix

variable {α : Type} [Scalar α]

/-- Performs an action. -/
def perform (m : Matrix α) : Action α → Effect α
  | .write w => .ofRun (m.set w.row w.col w.value w.overwrite)
  | .reset rows cols hint => .ofResult m (m.reset rows cols hint)
  | .compress => .ofChange m m.compress?
  | .prune threshold => .ofChange m (m.prune threshold)
  | .trim => .ofResult m m.trim?
  | .lock on => .quiet (m.setLock on)
  | .boundShifts bound => .ofResult m (m.setShiftBound bound)
  | .load pattern => .ofResult m (m.loadPattern pattern)
  | .accumulate other negated => .ofRun (m.accumulate other negated)
  | .accumulateSelf negated => .ofRun (m.accumulate m negated)
  | .scale factor => .quiet (m.scaleBy factor)
  | .map f rowSpan colSpan => .ofResult m (m.mapValues? f rowSpan colSpan)

/-- Performs actions in order; a refused one does not stop the next. -/
def performAll (m : Matrix α) (actions : List (Action α)) : Matrix α :=
  actions.foldl (fun m a => (m.perform a).matrix) m

end Matrix

end CentralPath.Sparse
