/-
  The canonical form: no holes, every window in order of its indices, each index once, every slot
  live. `compress` brings a matrix into it; `prune` also drops the entries that are small.
-/
import CentralPath.Sparse.Basic
import CentralPath.Sparse.IndexSet

namespace CentralPath.Sparse

variable {α : Type} [Scalar α]

/-- The sum, starting from zero, of what the slots of one index contribute. -/
def gatheredValue (kept : List (Slot α)) (t : Int) : α :=
  kept.foldl (fun sum s => if s.index = t then sum + s.reading else sum) 0

/-- One live slot for each index among the given ones, in increasing order. -/
def gathered (kept : List (Slot α)) : List (Slot α) :=
  (distinctSorted (kept.map Slot.index)).map fun t => ⟨t, gatheredValue kept t, true⟩

/-- Whether a slot survives compression: a live one always, a reserved one under the lock. -/
def survives (locked : Bool) (s : Slot α) : Bool := !s.isHole && (locked || s.live)

/-- Whether a slot survives pruning: a live one whose value is larger than the threshold. -/
def outlasts (threshold : α) (s : Slot α) : Bool :=
  !s.isHole && s.live && decide (threshold < Scalar.abs s.value)

namespace Matrix

/-- The windows after keeping some slots and gathering the rest. -/
def gatheredWindows (m : Matrix α) (keep : Slot α → Bool) : List (List (Slot α)) :=
  (List.range m.leadingDim).map fun w => gathered ((m.window w).filter keep)

/-- Whether stored slots differ from the ones before. Values are told apart as numbers, so a NaN
always counts as changed and the sign of a zero never does. -/
def differs (old new : List (Slot α)) : Bool :=
  old.length != new.length ||
    (old.zip new).any fun (a, b) => a.index != b.index || !(b.value == a.value) || !a.live

/-- Whether a rebuild takes positions away. -/
def losesSlots (m : Matrix α) (stored : List (Slot α)) : Bool :=
  decide (stored.length < m.usedSlots.countP (!·.isHole))

/-- The matrix with given slots in its windows and holes behind them. -/
def withWindows (m : Matrix α) (windows : List (List (Slot α))) : Matrix α :=
  let stored := windows.flatten
  let rest := List.replicate (m.capacity - stored.length) Slot.free
  { m with
    lead := offsetsOf (windows.map List.length)
    slots := (stored ++ rest).toArray
    compressed := true }

/-- Keeps some slots, in canonical form and in the same buffer. Returns whether the stored slots
changed. -/
def rebuild (m : Matrix α) (keep : Slot α → Bool) : Matrix α × Bool :=
  let windows := m.gatheredWindows keep
  (m.withWindows windows, differs m.usedSlots windows.flatten)

/-- Brings the matrix into canonical form. Reserved slots are dropped, or become stored zeros when
the matrix is locked. Returns whether anything stored changed. -/
def compress (m : Matrix α) : Matrix α × Bool := m.rebuild (survives m.locked)

/-- Breaks the lock of a locked matrix if a rebuild takes positions away from it. -/
def breakLock (m : Matrix α) (windows : List (List (Slot α))) (rebuilt : Matrix α) : Matrix α :=
  { rebuilt with lockBroken := m.lockBroken || (m.locked && m.losesSlots windows.flatten) }

/-- Compression that also drops every entry of absolute value up to the threshold. -/
def pruned (m : Matrix α) (threshold : α) : Matrix α × Bool :=
  let (rebuilt, changed) := m.rebuild (outlasts threshold)
  (m.breakLock (m.gatheredWindows (outlasts threshold)) rebuilt, changed)

/-! ### Offsets that cut no windows -/

/-- The slots that each window takes by its size, after keeping some and gathering the rest. -/
def gatheredOwned (m : Matrix α) (keep : Slot α → Bool) :
    Except (Fault α) (List (List (Slot α))) :=
  match m.sharingFault? with
  | some e => .error e
  | none => .ok <| (List.range m.leadingDim).map fun w => gathered ((m.ownedSlots w).filter keep)

/-- Compression, whatever the offsets. Where they cut no windows it always changes what is
stored. -/
def compress? (m : Matrix α) : Except (Fault α) (Matrix α × Bool) :=
  if m.isCut then .ok m.compress
  else (m.gatheredOwned (survives m.locked)).map fun windows => (m.withWindows windows, true)

/-- Drops every entry of absolute value up to the threshold and compresses. Taking positions from a
locked matrix breaks its lock until the next reset. -/
def prune (m : Matrix α) (threshold : α) : Except (Fault α) (Matrix α × Bool) :=
  if threshold < 0 then .error (.negativeThreshold threshold)
  else if m.isCut then .ok (m.pruned threshold)
  else (m.gatheredOwned (outlasts threshold)).map fun windows =>
    (m.breakLock windows (m.withWindows windows), true)

end Matrix

end CentralPath.Sparse
