/-
  Single positions of a matrix. Reading and writing go to the window of a position; where the
  offsets cut no windows they go by the offsets as they are.
-/
import CentralPath.Sparse.Uncut

namespace CentralPath.Sparse

namespace Matrix

variable {α : Type}

/-- The value at a position: that of its slot if it is live, zero otherwise. -/
def get [Zero α] (m : Matrix α) (row col : Int) : Except (Fault α) α :=
  match m.locateWindow? row col with
  | none => .error (m.outside row col)
  | some (w, t) => if m.isCut then .ok (m.read w t) else m.readUncut w t

/-- Writes a value at a position, in place of the old one or added to it. Returns the fault of a
refused write, and the matrix as the write leaves it. -/
def set [Scalar α] (m : Matrix α) (row col : Int) (v : α) (overwrite : Bool) :
    Option (Fault α) × Matrix α :=
  match m.locateWindow? row col with
  | none => (some (m.outside row col), m)
  | some (w, t) =>
    if m.isCut then (none, m.write w t v overwrite) else m.writeUncut w t v overwrite

end Matrix

/-- One pending write. -/
structure Write (α : Type) where
  row : Int
  col : Int
  value : α
  overwrite : Bool
  deriving Repr, DecidableEq

/-- Runs writes in order up to the first that is refused. The matrix keeps what was written before
it. -/
def Matrix.writeAll {α : Type} [Scalar α] (m : Matrix α) :
    List (Write α) → Option (Fault α) × Matrix α
  | [] => (none, m)
  | w :: ws =>
    match m.set w.row w.col w.value w.overwrite with
    | (none, next) => next.writeAll ws
    | (some e, left) => (some e, left)

end CentralPath.Sparse
