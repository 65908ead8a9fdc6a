/-
  Sums, multiples, maps and comparison of sparse matrices. They work on the entries as stored, in
  any state of compression.
-/
import CentralPath.Sparse.Access
import CentralPath.Sparse.Product

namespace CentralPath.Sparse

variable {α : Type} [Scalar α]

/-- The sum of the values that entries give to one position. -/
def entrySum (entries : List (Entry α)) (row col : Int) : α :=
  entries.foldl (fun sum e => if e.row = row ∧ e.col = col then sum + e.value else sum) 0

namespace Matrix

/-- Refuses two matrices of different shape. -/
def checkSameShape (m other : Matrix α) : Option (Fault α) :=
  if m.rows = other.rows ∧ m.cols = other.cols then none
  else some (.shapesDiffer m.rows m.cols other.rows other.cols)

/-- The writes that add entries, or their negatives. -/
def additions (entries : List (Entry α)) (negated : Bool) : List (Write α) :=
  entries.map fun e => ⟨e.row, e.col, if negated then -e.value else e.value, false⟩

/-- Adds another matrix of the same shape, or subtracts it. The entries to add are read off before
the first one is written, so a matrix can be added to itself. -/
def accumulate (m other : Matrix α) (negated : Bool) : Option (Fault α) × Matrix α :=
  match m.checkSameShape other with
  | some e => (some e, m)
  | none =>
    match other.storedEntries with
    | .error e => (some e, m)
    | .ok entries => m.writeAll (additions entries negated)

/-- Multiplies every live value. -/
def scaleBy (m : Matrix α) (k : α) : Matrix α :=
  { m with slots := m.slots.mapIdx fun i s =>
      if i < m.usedCount ∧ s.live then { s with value := s.value * k } else s }

/-- Whether the entry of a slot lies in the given ranges; no range is no restriction. -/
def inSpans (m : Matrix α) (rowSpan colSpan : Option Span) (w : Nat) (s : Slot α) : Bool :=
  let e := m.entryOf w s
  rowSpan.all (·.contains e.row) && colSpan.all (·.contains e.col)

/-- Replaces every live value in the given ranges by its image. -/
def mapValues (m : Matrix α) (f : α → α) (rowSpan colSpan : Option Span) : Matrix α :=
  { m with slots := m.slots.mapIdx fun i s =>
      if i < m.usedCount ∧ s.live ∧ m.inSpans rowSpan colSpan (m.ownerOf i) s then
        { s with value := f s.value }
      else s }

/-- Why live values cannot be told apart by window: offsets decrease, or a live slot lies behind all
windows. -/
def ownershipFault? (m : Matrix α) : Option (Fault α) :=
  if m.offsetsDecrease then some .offsetsDecrease
  else if m.usedSlots.zipIdx.any fun (s, i) => s.live && decide (m.sharedLength ≤ (i : Int)) then
    some .componentMissing
  else none

/-- Maps the live values in the given ranges, unless the offsets leave some of them without a
window. -/
def mapValues? (m : Matrix α) (f : α → α) (rowSpan colSpan : Option Span) :
    Except (Fault α) (Matrix α) :=
  if m.isCut then .ok (m.mapValues f rowSpan colSpan)
  else
    match m.ownershipFault? with
    | some e => .error e
    | none => .ok (m.mapValues f rowSpan colSpan)

/-- The entries of a matrix for a conversion, which refuses entries outside the shape. -/
def convertibleEntries (m : Matrix α) : Except (Fault α) (List (Entry α)) := do
  let entries ← m.storedEntries
  if m.holds entries then pure entries else throw .entryUnfit

/-- Whether two lists of entries stand for the same numbers, which means that no difference of
values at a position is anything but zero. -/
def sameEntries (a b : List (Entry α)) : Bool :=
  (a ++ b).all fun e => entrySum a e.row e.col - entrySum b e.row e.col == 0

/-- Whether two matrices of the same shape hold the same numbers. -/
def sameValues (m other : Matrix α) : Except (Fault α) Bool :=
  match m.checkSameShape other with
  | some e => .error e
  | none => do
    let mine ← m.convertibleEntries
    let theirs ← other.convertibleEntries
    pure (sameEntries mine theirs)

end Matrix

end CentralPath.Sparse
