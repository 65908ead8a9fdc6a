/-
  Learning which positions an assembly writes. A `Pattern` takes the same writes as a matrix and
  records positions only; loading it gives the matrix exactly the slots that the assembly will
  need, so that the real run neither shifts nor redistributes anything.
-/
import CentralPath.Sparse.Basic
import CentralPath.Sparse.IndexSet

namespace CentralPath.Sparse

/-- The positions that an assembly wrote, one list of indices per window, in order of writing. -/
structure Pattern where
  rows : Nat
  cols : Nat
  orientation : Orientation
  lists : Array (List Int)
  deriving Repr, DecidableEq

namespace Pattern

/-- Number of lists. -/
def leadingDim (p : Pattern) : Nat :=
  match p.orientation with
  | .byRows => p.rows
  | .byColumns => p.cols

/-- Bound of the recorded indices. -/
def trailingDim (p : Pattern) : Nat :=
  match p.orientation with
  | .byRows => p.cols
  | .byColumns => p.rows

/-- A pattern without positions. -/
def empty (rows cols : Nat) (orientation : Orientation) : Pattern :=
  let p : Pattern := ⟨rows, cols, orientation, #[]⟩
  { p with lists := Array.replicate p.leadingDim [] }

/-- A pattern without positions, unless a dimension is negative. -/
def create {α : Type} (rows cols : Int) (orientation : Orientation) : Except (Fault α) Pattern :=
  if rows < 0 ∨ cols < 0 then .error (.negativeDimensions rows cols)
  else .ok (empty rows.toNat cols.toNat orientation)

/-- Forgets all positions and takes on a new shape. -/
def reset {α : Type} (p : Pattern) (rows cols : Int) : Except (Fault α) Pattern :=
  create rows cols p.orientation

/-- The list that a leading index names; a negative index counts from the last list. -/
def listIndex? (p : Pattern) (i : Int) : Option Nat := placeIn? p.lists.size i

/-- Records a position. The index inside the list is taken as it is. -/
def record {α : Type} (p : Pattern) (row col : Int) : Except (Fault α) Pattern :=
  let (leading, trailing) := match p.orientation with
    | .byRows => (row, col)
    | .byColumns => (col, row)
  match p.listIndex? leading with
  | none => .error .recordOutside
  | some k => .ok { p with lists := p.lists.modify k (· ++ [trailing]) }

/-- The pattern with each list sorted and free of repetitions. -/
def collapse (p : Pattern) : Pattern := { p with lists := p.lists.map distinctSorted }

/-- The recorded positions: one strictly increasing list per window. -/
def sorted (p : Pattern) : List (List Int) := p.lists.toList.map distinctSorted

/-- Number of distinct positions. -/
def size (p : Pattern) : Nat := totalOf (p.sorted.map List.length)

end Pattern

/-- Gives the matrix the shape of a pattern and one reserved slot per recorded position. -/
def Matrix.loadPattern {α : Type} [Zero α] (m : Matrix α) (p : Pattern) :
    Except (Fault α) (Matrix α) :=
  if p.orientation ≠ m.orientation then .error .orientationsDiffer
  else
    .ok { m with
      rows := p.rows
      cols := p.cols
      lead := offsetsOf (p.sorted.map List.length)
      slots := (p.sorted.flatten.map Slot.reserved).toArray
      lockBroken := false
      compressed := false }

end CentralPath.Sparse
