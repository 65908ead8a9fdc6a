/-
  Edits of the buffers behind the back of the matrix. Nothing is kept intact: this is how storage
  that breaks the rules of `CentralPath.Sparse.Validity` comes about.
-/
import CentralPath.Sparse.Basic

namespace CentralPath.Sparse

/-- One place of the buffers with its new content. A negative number counts places from the end. -/
inductive RawEdit (α : Type) where
  | offset (place value : Int)
  | index (place value : Int)
  | value (place : Int) (value : α)
  | live (place : Int) (value : Bool)
  | compressed (value : Bool)

namespace Matrix

variable {α : Type}

/-- Changes one slot of the buffer. -/
def editSlot (m : Matrix α) (i : Int) (f : Slot α → Slot α) : Except (Fault α) (Matrix α) :=
  match placeIn? m.capacity i with
  | some k => .ok { m with slots := m.slots.modify k f }
  | none => .error .componentMissing

/-- Makes an edit. -/
def edit (m : Matrix α) : RawEdit α → Except (Fault α) (Matrix α)
  | .offset i v =>
    match placeIn? m.lead.size i with
    | some k => .ok { m with lead := m.lead.setIfInBounds k v }
    | none => .error .componentMissing
  | .index i v => m.editSlot i fun s => { s with index := v }
  | .value i v => m.editSlot i fun s => { s with value := v }
  | .live i b => m.editSlot i fun s => { s with live := b }
  | .compressed b => .ok { m with compressed := b }

end Matrix

end CentralPath.Sparse
