/-
  Soundness of the buffers. `violation?` runs through the storage rules in order and names the
  first one that is broken; each rule has a number.
-/
import CentralPath.Sparse.Basic

namespace CentralPath.Sparse

/-- The storage rules, as what breaks them. -/
inductive Violation where
  /-- Not one offset per window and one more, or the first one is not zero. -/
  | offsetShape
  /-- Offsets that decrease or leave the buffer. -/
  | offsetOrder
  /-- An index outside the window's range. -/
  | indexRange
  /-- Neighbouring entries of a window that do not increase. -/
  | entryOrder
  /-- A hole in front of an entry of the same window. -/
  | holeOrder
  /-- A hole that counts as written. -/
  | liveHole
  /-- A compressed matrix with a slot that is not live. -/
  | unwrittenSlot
  deriving Repr, DecidableEq

/-- The number of a violation. -/
def Violation.code : Violation → Int
  | offsetShape => -1
  | offsetOrder => -2
  | indexRange => -3
  | entryOrder => -4
  | holeOrder => -5
  | liveHole => -6
  | unwrittenSlot => -7

namespace Matrix

variable {α : Type}

/-- Whether some pair of neighbours in the same window satisfies `p`. -/
def anyNeighbours (m : Matrix α) (p : Slot α → Slot α → Bool) : Bool :=
  (List.range m.leadingDim).any fun w =>
    let slots := m.window w
    (slots.zip slots.tail).any fun (a, b) => p a b

/-- The first storage rule that is broken, if any. -/
def violation? (m : Matrix α) : Option Violation :=
  let offsets := m.lead.toList
  let used := m.usedSlots
  if m.lead.size ≠ m.leadingDim + 1 ∨ offsets.head? ≠ some 0 then some .offsetShape
  else if ((offsets.zip offsets.tail).any fun (a, b) => b < a)
      || decide ((m.capacity : Int) < m.usedLength) then some .offsetOrder
  else if used.any fun s => s.index < hole || (m.trailingDim : Int) ≤ s.index then some .indexRange
  else if m.anyNeighbours fun a b => !a.isHole && !b.isHole && b.index ≤ a.index then
    some .entryOrder
  else if m.anyNeighbours fun a b => a.isHole && !b.isHole then some .holeOrder
  else if used.any fun s => s.isHole && s.live then some .liveHole
  else if m.compressed && used.any (!·.live) then some .unwrittenSlot
  else none

/-- Zero for sound buffers, otherwise the number of the first broken rule. -/
def verify (m : Matrix α) : Int := (m.violation?.map Violation.code).getD 0

end Matrix

end CentralPath.Sparse
