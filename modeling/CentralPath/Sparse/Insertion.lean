/-
  Reading and writing inside the windows that the offsets cut. A write either hits a slot of its
  index, or takes the first hole of its window, or makes room: entries move by one slot toward the
  nearest hole of the buffer, and when none is near enough the whole buffer is redistributed with
  spare room in proportion to what each window holds.
-/
import CentralPath.Sparse.Basic

namespace CentralPath.Sparse

/-- Where an index is, or where it belongs. Slots are numbered by `ι`. -/
inductive Place (ι : Type) where
  /-- The slot that holds the index. -/
  | found (slot : ι)
  /-- The first hole of the window, behind all smaller indices. -/
  | vacant (slot : ι)
  /-- The slot that the index belongs in, which is taken or belongs to the next window. -/
  | crowded (slot : ι)
  deriving Repr, DecidableEq

/-- Binary search in `[low, high)` for the first place whose index is not below `key`. -/
def lowerBound (index : Nat → Int) (key : Int) (low high : Nat) : Nat :=
  if low < high then
    let mid := low + (high - low) / 2
    if index mid < key then lowerBound index key (mid + 1) high
    else lowerBound index key low mid
  else low
termination_by high - low
decreasing_by all_goals omega

namespace Matrix

variable {α : Type}

/-- The index in a slot; slots outside the buffer count as holes. -/
def indexAt (m : Matrix α) (i : Nat) : Int := (m.slots[i]?.map Slot.index).getD hole

/-- Whether a slot of the buffer is free. -/
def holeAt (m : Matrix α) (i : Nat) : Bool := (m.slots[i]?.map Slot.isHole).getD false

/-- Number of slots of a window before its first hole. -/
def filled (m : Matrix α) (w : Nat) : Nat := (m.window w).findIdx Slot.isHole

/-- Finds the place of an index in a window. -/
def locate (m : Matrix α) (w : Nat) (t : Int) : Place Nat :=
  let first := m.start w
  let filled := m.filled w
  let size := m.start (w + 1) - first
  let offset := lowerBound (fun i => m.indexAt (first + i)) t 0 filled
  if offset < filled ∧ m.indexAt (first + offset) = t then .found (first + offset)
  else if offset = filled ∧ filled < size then .vacant (first + offset)
  else .crowded (first + offset)

/-- What a slot contributes; slots outside the buffer contribute nothing. -/
def readingAt [Zero α] (m : Matrix α) (i : Nat) : α := (m.slots[i]?.map Slot.reading).getD 0

/-- The value at an index of a window: that of its slot if it is live, zero otherwise. -/
def read [Zero α] (m : Matrix α) (w : Nat) (t : Int) : α :=
  match m.locate w t with
  | .found i => m.readingAt i
  | _ => 0

/-- How far a search for a hole may go. -/
def searchBound (m : Matrix α) : Nat :=
  match m.shiftBound with
  | none => m.capacity
  | some s => min s m.capacity

/-- Distance from `pos` to the nearest hole at or behind it. -/
def holeAhead? (m : Matrix α) (pos : Nat) : Option Nat :=
  (List.range (m.searchBound + 1)).find? fun d => m.holeAt (pos + d)

/-- Distance from the slot before `pos` back to the nearest hole. -/
def holeBehind? (m : Matrix α) (pos : Nat) : Option Nat :=
  (List.range (m.searchBound + 1)).find? fun d => decide (d < pos) && m.holeAt (pos - 1 - d)

/-- Moves the slots `[pos, pos + d)` up by one, into the hole behind them. Offsets behind the
window that do not lie beyond the hole move with them. -/
def shiftUp (m : Matrix α) (pos d w : Nat) : Matrix α :=
  let gap := pos + d
  { m with
    slots := m.slots.mapIdx fun i s =>
      if pos < i ∧ i ≤ gap then m.slots[i - 1]?.getD s else s
    lead := m.lead.mapIdx fun i (k : Int) => if w < i ∧ k ≤ gap then k + 1 else k
    shifts := m.shifts + if d = 0 then 0 else 1 }

/-- Moves the slots `(pos - 1 - d, pos)` down by one, into the hole before them. Offsets up to the
window that lie beyond the hole move with them. -/
def shiftDown (m : Matrix α) (pos d w : Nat) : Matrix α :=
  let gap := pos - 1 - d
  { m with
    slots := m.slots.mapIdx fun i s =>
      if gap ≤ i ∧ i + 1 < pos then m.slots[i + 1]?.getD s else s
    lead := m.lead.mapIdx fun i (k : Int) => if 0 < i ∧ i ≤ w ∧ gap < k then k - 1 else k
    shifts := m.shifts + if d = 0 then 0 else 1 }

/-- Frees a slot of window `w` at `pos` by moving entries toward the nearest hole, forward if both
sides are equally near. None when no hole is near enough. -/
def makeRoom? (m : Matrix α) (pos w : Nat) : Option (Matrix α × Nat) :=
  match m.holeAhead? pos, m.holeBehind? pos with
  | none, none => none
  | some d, none => some (m.shiftUp pos d w, pos)
  | none, some d => some (m.shiftDown pos d w, pos - 1)
  | some d, some d' =>
    if d ≤ d' then some (m.shiftUp pos d w, pos) else some (m.shiftDown pos d' w, pos - 1)

/-- The entries of a window, live or reserved. -/
def occupied (m : Matrix α) (w : Nat) : List (Slot α) := (m.window w).filter (!·.isHole)

/-- The entries of a window in slots before `pos`. -/
def occupiedBefore (m : Matrix α) (w pos : Nat) : List (Slot α) :=
  ((m.window w).take (pos - m.start w)).filter (!·.isHole)

/-- The entries of a window in slots from `pos` on. -/
def occupiedFrom (m : Matrix α) (w pos : Nat) : List (Slot α) :=
  ((m.window w).drop (pos - m.start w)).filter (!·.isHole)

/-- What each window has to hold once the pending entry is in window `target`. -/
def weights (m : Matrix α) (target : Nat) : List Nat :=
  (List.range m.leadingDim).map fun w => (m.occupied w).length + if w = target then 1 else 0

/-- The capacity that a redistribution for `total` entries ends with: the old one while the entries
fill at most half of it, at least twice the old one otherwise. -/
def grownCapacity (m : Matrix α) (total : Nat) : Nat :=
  if 2 * total ≤ m.capacity then m.capacity else max (2 * m.capacity) total

/-- Splits `spare` slots in proportion to the weights, rounding down; what is left over goes to
window `target`. -/
def shares (spare : Nat) (weights : List Nat) (target : Nat) : List Nat :=
  let floors := weights.map fun k => spare * k / totalOf weights
  floors.mapIdx fun w k => if w = target then k + (spare - totalOf floors) else k

/-- One window after a redistribution: its entries, with a gap at the pending one, then `extra`
holes. -/
def regrown [Zero α] (m : Matrix α) (pos target extra w : Nat) : List (Slot α) :=
  let body :=
    if w = target then m.occupiedBefore w pos ++ Slot.free :: m.occupiedFrom w pos
    else m.occupied w
  body ++ List.replicate extra Slot.free

/-- Redistributes the buffer and leaves a gap for an entry of window `target` that belongs at
`pos`. Returns the slot of the gap. -/
def redistribute [Zero α] (m : Matrix α) (pos target : Nat) : Matrix α × Nat :=
  let weights := m.weights target
  let total := totalOf weights
  let capacity := m.grownCapacity total
  let extra := shares (capacity - total) weights target
  let windows := extra.mapIdx fun w k => m.regrown pos target k w
  let grown := { m with
    lead := offsetsOf (windows.map List.length)
    slots := windows.flatten.toArray
    growths := m.growths.push ⟨m.capacity, capacity, total - 1⟩ }
  (grown, grown.start target + (m.occupiedBefore target pos).length)

/-- Puts a live entry into a free slot. -/
def place (m : Matrix α) (i : Nat) (t : Int) (v : α) : Matrix α :=
  { m with slots := m.slots.setIfInBounds i ⟨t, v, true⟩, compressed := false }

/-- Writes into the slot that holds the position: over it, or on top of a value already there. -/
def refill [Add α] (m : Matrix α) (i : Nat) (v : α) (overwrite : Bool) : Matrix α :=
  { m with slots := m.slots.modify i fun s =>
      if s.live && !overwrite then { s with value := s.value + v } else ⟨s.index, v, true⟩ }

/-- A slot for a new entry, making room where there is none. -/
def openSlot [Zero α] (m : Matrix α) (w : Nat) : Place Nat → Matrix α × Nat
  | .found i => (m, i)
  | .vacant i => (m, i)
  | .crowded i => (m.makeRoom? i w).getD (m.redistribute i w)

/-- Writes a value at an index of a window. Without the lock a zero is not stored where nothing is
stored yet. -/
def write [Scalar α] (m : Matrix α) (w : Nat) (t : Int) (v : α) (overwrite : Bool) : Matrix α :=
  match m.locate w t with
  | .found i => m.refill i v overwrite
  | spot =>
    if v == 0 && !m.locked then m
    else
      let (opened, i) := m.openSlot w spot
      opened.place i t v

end Matrix

end CentralPath.Sparse
