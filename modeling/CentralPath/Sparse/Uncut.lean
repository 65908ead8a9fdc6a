/-
  Reading and writing where the offsets cut no windows. A window is then the range that its two
  offsets name, which may be empty, overlap others or reach outside the buffer, and slots are
  numbered by integers as offsets are: negative ones count from the end. What leaves the buffer is
  refused; room that was made before then stays made.
-/
import CentralPath.Sparse.Insertion

namespace CentralPath.Sparse.Matrix

variable {α : Type}

/-- An offset; offsets that are not there are zero. -/
def offset (m : Matrix α) (w : Nat) : Int := m.lead[w]?.getD 0

/-- Finds the place of an index in the range that a window names. Refused where the search ends
behind the last slot of a range that should be longer. -/
def locateUncut (m : Matrix α) (w : Nat) (t : Int) : Except (Fault α) (Place Int) :=
  let low := m.offset w
  let size := m.offset (w + 1) - low
  let indices := (slice m.slots.toList low (m.offset (w + 1))).map Slot.index
  let filled : Int := ((indices.findIdx? (· == hole)).map fun (k : Nat) => (k : Int)).getD size
  let known := slice indices 0 filled
  let place := lowerBound (fun i => known.getD i hole) t 0 known.length
  if place < filled then
    match indices[place]? with
    | none => .error .componentMissing
    | some i => .ok (if i = t then .found (low + place) else .crowded (low + place))
  else if place = filled ∧ filled < size then .ok (.vacant (low + place))
  else .ok (.crowded (low + place))

/-- The slot of a number, unless it lies outside the buffer. -/
def slotNumber (m : Matrix α) (p : Int) : Except (Fault α) Nat :=
  match placeIn? m.capacity p with
  | some i => .ok i
  | none => .error .componentMissing

/-- The value at an index of a window. -/
def readUncut [Zero α] (m : Matrix α) (w : Nat) (t : Int) : Except (Fault α) α := do
  match ← m.locateUncut w t with
  | .found p => return m.readingAt (← m.slotNumber p)
  | _ => return 0

/-- Distance from `pos` to the first hole of the range that a search looks through. -/
def holeAheadUncut? (m : Matrix α) (pos : Int) : Option Nat :=
  (slice m.slots.toList pos (min (pos + m.searchBound + 1) m.capacity)).findIdx? Slot.isHole

/-- The number of the last hole of the range before `pos` that a search looks through. -/
def holeBehindUncut? (m : Matrix α) (pos : Int) : Option Int :=
  let back := max (pos - m.searchBound - 1) 0
  let stretch := slice m.slots.toList back pos
  (stretch.reverse.findIdx? Slot.isHole).map fun k => back + (stretch.length - 1 - k : Nat)

/-- The buffer with one range moved over another. -/
def moved (m : Matrix α) (low high source : Int) : Except (Fault α) (Array (Slot α)) :=
  let xs := m.slots.toList
  match overlay? xs low high (slice xs source (source + (high - low))) with
  | some slots => .ok slots.toArray
  | none => .error .lengthsDiffer

/-- Moves the slots from `pos` up to a hole by one. Offsets behind the window that do not lie beyond
the hole move with them. -/
def shiftUpUncut (m : Matrix α) (pos gap : Int) (w : Nat) : Except (Fault α) (Matrix α) := do
  let slots ← if pos < gap then m.moved (pos + 1) (gap + 1) pos else pure m.slots
  pure { m with
    slots
    lead := m.lead.mapIdx fun i (k : Int) => if w < i ∧ k ≤ gap then k + 1 else k
    shifts := m.shifts + if pos < gap then 1 else 0 }

/-- Moves the slots behind a hole, up to `pos`, down by one. Offsets up to the window that lie
beyond the hole move with them. -/
def shiftDownUncut (m : Matrix α) (pos gap : Int) (w : Nat) : Except (Fault α) (Matrix α) := do
  let slots ← if gap < pos - 1 then m.moved gap (pos - 1) (gap + 1) else pure m.slots
  pure { m with
    slots
    lead := m.lead.mapIdx fun i (k : Int) => if 0 < i ∧ i ≤ w ∧ gap < k then k - 1 else k
    shifts := m.shifts + if gap < pos - 1 then 1 else 0 }

/-- Redistributes a buffer whose windows take no slots at all; any other is refused. Returns the
slot of the gap. -/
def redistributeUncut [Zero α] (m : Matrix α) (w : Nat) : Except (Fault α) (Matrix α × Int) :=
  match m.sharingFault? with
  | some e => .error e
  | none =>
    if m.usedLength.toNat ≠ m.usedCount then .error .componentMissing
    else
      let emptied := { m with lead := m.lead.map fun _ => 0 }
      let (grown, i) := emptied.redistribute 0 w
      .ok (grown, i)

/-- A slot for a new entry, making room where there is none. -/
def openSlotUncut [Zero α] (m : Matrix α) (w : Nat) :
    Place Int → Except (Fault α) (Matrix α × Int)
  | .found p => .ok (m, p)
  | .vacant p => .ok (m, p)
  | .crowded p =>
    let up (d : Nat) := (m.shiftUpUncut p (p + d) w).map (·, p)
    let down (gap : Int) := (m.shiftDownUncut p gap w).map (·, p - 1)
    match m.holeAheadUncut? p, m.holeBehindUncut? p with
    | none, none => m.redistributeUncut w
    | some d, none => up d
    | none, some gap => down gap
    | some d, some gap => if (d : Int) ≤ p - 1 - gap then up d else down gap

/-- Does something at a slot, unless its number lies outside the buffer. -/
def atSlot (m : Matrix α) (p : Int) (f : Nat → Matrix α) : Option (Fault α) × Matrix α :=
  match m.slotNumber p with
  | .ok i => (none, f i)
  | .error e => (some e, m)

/-- Writes a value at an index of a window. Without the lock a zero is not stored where nothing is
stored yet. -/
def writeUncut [Scalar α] (m : Matrix α) (w : Nat) (t : Int) (v : α) (overwrite : Bool) :
    Option (Fault α) × Matrix α :=
  match m.locateUncut w t with
  | .error e => (some e, m)
  | .ok (.found p) => m.atSlot p fun i => m.refill i v overwrite
  | .ok spot =>
    if v == 0 && !m.locked then (none, m)
    else
      match m.openSlotUncut w spot with
      | .error e => (some e, m)
      | .ok (opened, p) => opened.atSlot p fun i => opened.place i t v

end CentralPath.Sparse.Matrix
