/-
  A sparse matrix that is built entry by entry. One flat buffer of slots is cut into windows, one
  per row (or per column, by orientation); a window holds its entries in order of their index and
  free slots, the holes, behind them.

  A slot is a hole, reserved (it has an index but no value yet and reads as zero) or live. The lock
  keeps the positions that own a slot across a reset; pruning under the lock breaks it until then.
  Nothing here is required of the buffers: a matrix is any content, and
  `CentralPath.Sparse.Validity` says which contents are sound.
-/
import CentralPath.Scalar
import CentralPath.Fault
import CentralPath.Sparse.Slice
import CentralPath.Sparse.Spread

namespace CentralPath.Sparse

/-- Which of the two indices selects a window. -/
inductive Orientation where
  | byRows
  | byColumns
  deriving Repr, DecidableEq

/-- The index of a hole. -/
def hole : Int := -1

/-- One place of the buffer. -/
structure Slot (α : Type) where
  /-- The index inside the window, or `hole`. -/
  index : Int
  value : α
  /-- Whether a value has been written since the slot was last cleared. -/
  live : Bool
  deriving Repr, DecidableEq

namespace Slot

variable {α : Type}

/-- Whether the slot is free. -/
def isHole (s : Slot α) : Bool := s.index == hole

/-- A hole without content. -/
def free [Zero α] : Slot α := ⟨hole, 0, false⟩

/-- A known position without a value. -/
def reserved [Zero α] (index : Int) : Slot α := ⟨index, 0, false⟩

/-- What the slot contributes to the matrix: its value once written, zero before. -/
def reading [Zero α] (s : Slot α) : α := if s.live then s.value else 0

/-- The slot without its value. -/
def cleared [Zero α] (s : Slot α) : Slot α := ⟨s.index, 0, false⟩

end Slot

/-- One redistribution of the buffer: capacities before and after, and the entries it moved. -/
structure Growth where
  oldCapacity : Nat
  newCapacity : Nat
  entries : Nat
  deriving Repr, DecidableEq

/-- A stored value with its position. -/
structure Entry (α : Type) where
  row : Int
  col : Int
  value : α
  deriving Repr, DecidableEq

/-- The entry with row and column exchanged. -/
def Entry.transpose {α : Type} (e : Entry α) : Entry α := ⟨e.col, e.row, e.value⟩

/-- A sparse matrix under construction. -/
structure Matrix (α : Type) where
  rows : Nat
  cols : Nat
  orientation : Orientation
  /-- Offset of each window, and behind the last one the used length. -/
  lead : Array Int
  slots : Array (Slot α)
  /-- How far an insertion looks for a hole; none is unbounded. -/
  shiftBound : Option Nat
  locked : Bool
  lockBroken : Bool
  compressed : Bool
  /-- Number of insertions that moved entries. -/
  shifts : Nat
  /-- Every redistribution so far, oldest first. -/
  growths : Array Growth
  deriving Repr, DecidableEq

namespace Matrix

variable {α : Type}

/-- Number of windows. -/
def leadingDim (m : Matrix α) : Nat :=
  match m.orientation with
  | .byRows => m.rows
  | .byColumns => m.cols

/-- Bound of the indices inside a window. -/
def trailingDim (m : Matrix α) : Nat :=
  match m.orientation with
  | .byRows => m.cols
  | .byColumns => m.rows

/-- Number of slots, used or not. -/
def capacity (m : Matrix α) : Nat := m.slots.size

/-- The offset behind the last window. -/
def usedLength (m : Matrix α) : Int := m.lead.back?.getD 0

/-- Number of redistributions. -/
def growthCount (m : Matrix α) : Nat := m.growths.size

/-- First slot of a window. -/
def start (m : Matrix α) (w : Nat) : Nat := (m.lead[w]?.getD 0).toNat

/-- The slots of a window. -/
def window (m : Matrix α) (w : Nat) : List (Slot α) :=
  (m.slots.extract (m.start w) (m.start (w + 1))).toList

/-- Number of slots before the used length. A negative length leaves out that many at the end. -/
def usedCount (m : Matrix α) : Nat := endPoint m.capacity m.usedLength

/-- The slots before the used length. -/
def usedSlots (m : Matrix α) : List (Slot α) := m.slots.toList.take m.usedCount

/-- Number of live slots. -/
def liveCount (m : Matrix α) : Nat := m.usedSlots.countP (·.live)

/-- The entry that a slot of a window stands for. -/
def entryOf (m : Matrix α) (w : Nat) (s : Slot α) : Entry α :=
  match m.orientation with
  | .byRows => ⟨w, s.index, s.value⟩
  | .byColumns => ⟨s.index, w, s.value⟩

/-- The live entries of one window. -/
def windowEntries (m : Matrix α) (w : Nat) : List (Entry α) :=
  ((m.window w).filter (·.live)).map (m.entryOf w)

/-- The live entries in storage order: window by window. -/
def entries (m : Matrix α) : List (Entry α) :=
  (List.range m.leadingDim).flatMap m.windowEntries

/-- Whether some offset is below the one before it. -/
def offsetsDecrease (m : Matrix α) : Bool :=
  (m.lead.toList.zip m.lead.toList.tail).any fun (a, b) => decide (b < a)

/-- Whether the offsets cut the buffer into windows: one more of them than there are windows, from
zero on, none below the one before it, none beyond the buffer. -/
def isCut (m : Matrix α) : Bool :=
  m.lead.size == m.leadingDim + 1 && m.lead[0]? == some 0 && !m.offsetsDecrease &&
    decide (m.usedLength ≤ m.capacity)

/-! ### Offsets that cut no windows

Windows whose offsets are out of place share the slots by their sizes alone: the first window takes
as many slots as its offsets are apart, the next one those behind them. -/

/-- The offset of the first window. -/
def firstOffset (m : Matrix α) : Int := m.lead[0]?.getD 0

/-- Number of slots that all windows take together. -/
def sharedLength (m : Matrix α) : Int := m.usedLength - m.firstOffset

/-- The window that takes a slot. -/
def ownerOf (m : Matrix α) (i : Nat) : Nat :=
  m.lead.toList.tail.countP fun k => decide (k - m.firstOffset ≤ (i : Int))

/-- Why the windows cannot share the used slots: offsets decrease, or there are more or fewer slots
than the windows take. -/
def sharingFault? (m : Matrix α) : Option (Fault α) :=
  if m.offsetsDecrease then some .offsetsDecrease
  else if m.sharedLength ≠ m.usedCount then some .componentMissing
  else none

/-- The used slots that a window takes. -/
def ownedSlots (m : Matrix α) (w : Nat) : List (Slot α) :=
  (m.usedSlots.zipIdx.filter fun (_, i) => m.ownerOf i == w).map (·.1)

/-- The live entries by the sizes of the windows. -/
def ownedEntries (m : Matrix α) : List (Entry α) :=
  (m.usedSlots.zipIdx.filter (·.1.live)).map fun (s, i) => m.entryOf (m.ownerOf i) s

/-- The live entries in storage order, unless the offsets leave no windows to read them from. -/
def storedEntries (m : Matrix α) : Except (Fault α) (List (Entry α)) :=
  if m.isCut then .ok m.entries
  else
    match m.sharingFault? with
    | some e => .error e
    | none => .ok m.ownedEntries

theorem storedEntries_of_isCut {m : Matrix α} (h : m.isCut = true) :
    m.storedEntries = .ok m.entries := by simp [storedEntries, h]

/-! ### Shape and buffers -/

/-- The window and the inner index of a position inside the shape. -/
def locateWindow? (m : Matrix α) (row col : Int) : Option (Nat × Int) :=
  if 0 ≤ row ∧ row < m.rows ∧ 0 ≤ col ∧ col < m.cols then
    some (match m.orientation with
      | .byRows => (row.toNat, col)
      | .byColumns => (col.toNat, row))
  else none

/-- The fault of a position outside the shape. -/
def outside (m : Matrix α) (row col : Int) : Fault α := .positionOutside row col m.rows m.cols

/-- Fresh buffers with room for `hint` entries, at least one slot a window and one altogether, all
free and shared evenly among the windows. -/
def withFreshBuffers [Zero α] (m : Matrix α) (hint : Int) : Matrix α :=
  let capacity := max (max hint.toNat m.leadingDim) 1
  { m with
    lead := evenOffsets m.leadingDim capacity
    slots := Array.replicate capacity Slot.free
    compressed := false }

/-- An empty matrix of the given shape. -/
def empty [Zero α] (rows cols : Nat) (orientation : Orientation) (hint : Int) : Matrix α :=
  Matrix.withFreshBuffers
    { rows, cols, orientation
      lead := #[], slots := #[]
      shiftBound := none, locked := false, lockBroken := false, compressed := false
      shifts := 0, growths := #[] } hint

/-- An empty matrix, unless a dimension is negative. -/
def create [Zero α] (rows cols : Int) (orientation : Orientation) (hint : Int) :
    Except (Fault α) (Matrix α) :=
  if rows < 0 ∨ cols < 0 then .error (.negativeDimensions rows cols)
  else .ok (empty rows.toNat cols.toNat orientation hint)

/-- The matrix of one position that solvers start from. -/
def unit [Zero α] : Matrix α := empty 1 1 .byRows 1

/-- Switches the lock. -/
def setLock (m : Matrix α) (on : Bool) : Matrix α := { m with locked := on }

/-- Bounds how far an insertion looks for a hole. -/
def setShiftBound (m : Matrix α) (bound : Option Int) : Except (Fault α) (Matrix α) :=
  match bound with
  | none => .ok { m with shiftBound := none }
  | some b =>
    if b < 0 then .error (.negativeShiftBound b) else .ok { m with shiftBound := some b.toNat }

/-- Forgets every value and takes on a new shape. A locked matrix whose lock is unbroken and whose
shape stays keeps its slots and clears them; any other gets fresh buffers. -/
def reset [Zero α] (m : Matrix α) (rows cols hint : Int) : Except (Fault α) (Matrix α) :=
  if rows < 0 ∨ cols < 0 then .error (.negativeDimensions rows cols)
  else if m.locked ∧ !m.lockBroken ∧ rows = m.rows ∧ cols = m.cols then
    .ok { m with slots := m.slots.map Slot.cleared, compressed := false }
  else
    let reshaped := { m with rows := rows.toNat, cols := cols.toNat, lockBroken := false }
    .ok (reshaped.withFreshBuffers hint)

/-- Cuts the buffer off behind the used length. -/
def trim (m : Matrix α) : Matrix α := { m with slots := m.usedSlots.toArray }

/-- Cuts the buffer to the used length, whatever the offsets. A length beyond the buffer, or a
negative one that leaves slots, is refused; a single slot fits any length. -/
def trim? (m : Matrix α) : Except (Fault α) (Matrix α) :=
  if m.isCut then .ok m.trim
  else
    match spread? m.usedLength.toNat m.usedSlots with
    | some slots => .ok { m with slots := slots.toArray }
    | none => .error .lengthsDiffer

/-- Whether entries lie inside the shape. -/
def holds (m : Matrix α) (entries : List (Entry α)) : Bool :=
  entries.all fun e => 0 ≤ e.row && e.row < m.rows && 0 ≤ e.col && e.col < m.cols

end Matrix

end CentralPath.Sparse
