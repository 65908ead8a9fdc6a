/-
  Runs of calls on a matrix and on its mirror image. Every call has a mirrored one, with rows and
  columns exchanged in all that it is given. What a call makes of the buffers depends on the windows
  alone, and those are the same in the image, so the mirrored call leaves the image of what the call
  leaves and is refused for a mistake of the same kind (`perform_mirror`). It follows by induction
  that a matrix built by columns and its image built by rows go through the same buffers, whatever
  happens to them (`history_mirror`).
-/
import CentralPath.Proofs.Sparse.Dense
import CentralPath.Proofs.Sparse.Mirror

namespace CentralPath.Sparse

variable {α : Type}

/-! ## Mirrored arguments -/

/-- The write to the exchanged position. -/
def Write.mirror (w : Write α) : Write α := ⟨w.col, w.row, w.value, w.overwrite⟩

/-- The pattern of the exchanged positions. -/
def Pattern.mirror (p : Pattern) : Pattern := ⟨p.cols, p.rows, p.orientation.flip, p.lists⟩

/-- The call with rows and columns exchanged. -/
def Action.mirror : Action α → Action α
  | .write w => .write w.mirror
  | .reset rows cols hint => .reset cols rows hint
  | .load pattern => .load pattern.mirror
  | .accumulate other negated => .accumulate other.mirror negated
  | .map f rowSpan colSpan => .map f colSpan rowSpan
  | .compress => .compress
  | .prune threshold => .prune threshold
  | .trim => .trim
  | .lock on => .lock on
  | .boundShifts bound => .boundShifts bound
  | .accumulateSelf negated => .accumulateSelf negated
  | .scale factor => .scale factor

namespace Pattern

/-- Recording the exchanged position. -/
theorem record_mirror (p : Pattern) (row col : Int) :
    p.mirror.record (α := α) col row = (p.record row col).map mirror := by
  have hlist : p.mirror.listIndex? = p.listIndex? := rfl
  rw [record, record, hlist, mirror]
  cases p.orientation <;> dsimp only [Orientation.flip]
  · cases p.listIndex? row <;> rfl
  · cases p.listIndex? col <;> rfl

theorem empty_mirror (rows cols : Nat) (orientation : Orientation) :
    empty cols rows orientation.flip = (empty rows cols orientation).mirror := by
  cases orientation <;> rfl

theorem writeAll_mirror (p : Pattern) (writes : List (Write α)) :
    p.mirror.writeAll (writes.map Write.mirror) =
      ((p.writeAll writes).1, (p.writeAll writes).2.mirror) := by
  induction writes generalizing p with
  | nil => rfl
  | cons w ws ih =>
    have hrecord := p.record_mirror (α := α) w.row w.col
    rw [List.map_cons, writeAll, writeAll]
    rcases hnext : p.record (α := α) w.row w.col with e | next <;> rw [hnext] at hrecord
    · rw [show p.mirror.record w.mirror.row w.mirror.col = .error e from hrecord]
    · rw [show p.mirror.record w.mirror.row w.mirror.col = .ok next.mirror from hrecord]
      exact ih next

end Pattern

namespace Matrix

/-! ## Inserting -/

theorem weights_mirror (m : Matrix α) (target : Nat) :
    m.mirror.weights target = m.weights target := by
  rw [weights, weights, leadingDim_mirror]
  rfl

theorem redistribute_mirror [Zero α] (m : Matrix α) (pos target : Nat) :
    m.mirror.redistribute pos target =
      ((m.redistribute pos target).1.mirror, (m.redistribute pos target).2) := by
  rw [redistribute, redistribute, weights_mirror]
  rfl

theorem makeRoom?_mirror (m : Matrix α) (pos w : Nat) :
    m.mirror.makeRoom? pos w = (m.makeRoom? pos w).map fun p => (p.1.mirror, p.2) := by
  have hahead : m.mirror.holeAhead? pos = m.holeAhead? pos := rfl
  have hbehind : m.mirror.holeBehind? pos = m.holeBehind? pos := rfl
  rw [makeRoom?, makeRoom?, hahead, hbehind]
  cases m.holeAhead? pos with
  | none => cases m.holeBehind? pos <;> rfl
  | some d =>
    cases m.holeBehind? pos with
    | none => rfl
    | some d' =>
      dsimp only
      split <;> rfl

theorem openSlot_mirror [Zero α] (m : Matrix α) (w : Nat) (spot : Place Nat) :
    m.mirror.openSlot w spot = ((m.openSlot w spot).1.mirror, (m.openSlot w spot).2) := by
  cases spot with
  | found i => rfl
  | vacant i => rfl
  | crowded i =>
    rw [openSlot, openSlot, makeRoom?_mirror]
    cases m.makeRoom? i w with
    | none => exact m.redistribute_mirror i w
    | some p => rfl

theorem write_mirror [Scalar α] (m : Matrix α) (w : Nat) (t : Int) (v : α) (overwrite : Bool) :
    m.mirror.write w t v overwrite = (m.write w t v overwrite).mirror := by
  have hspot : m.mirror.locate w t = m.locate w t := rfl
  have hstore : ∀ spot : Place Nat,
      (if v == 0 && !m.mirror.locked then m.mirror
        else (m.mirror.openSlot w spot).1.place (m.mirror.openSlot w spot).2 t v) =
      (if v == 0 && !m.locked then m
        else (m.openSlot w spot).1.place (m.openSlot w spot).2 t v).mirror := by
    intro spot
    rw [openSlot_mirror, apply_ite mirror]
    rfl
  rw [write, write, hspot]
  cases m.locate w t with
  | found i => rfl
  | vacant i => exact hstore (.vacant i)
  | crowded i => exact hstore (.crowded i)

/-! ### Offsets that cut no windows -/

theorem shiftUpUncut_mirror (m : Matrix α) (pos gap : Int) (w : Nat) :
    m.mirror.shiftUpUncut pos gap w = (m.shiftUpUncut pos gap w).map mirror := by
  have hmoved : m.mirror.moved = m.moved := rfl
  rw [shiftUpUncut, shiftUpUncut, hmoved]
  split
  · cases m.moved (pos + 1) (gap + 1) pos <;> rfl
  · rfl

theorem shiftDownUncut_mirror (m : Matrix α) (pos gap : Int) (w : Nat) :
    m.mirror.shiftDownUncut pos gap w = (m.shiftDownUncut pos gap w).map mirror := by
  have hmoved : m.mirror.moved = m.moved := rfl
  rw [shiftDownUncut, shiftDownUncut, hmoved]
  split
  · cases m.moved gap (pos - 1) (gap + 1) <;> rfl
  · rfl

theorem redistributeUncut_mirror [Zero α] (m : Matrix α) (w : Nat) :
    m.mirror.redistributeUncut w = (m.redistributeUncut w).map fun p => (p.1.mirror, p.2) := by
  have hfault : m.mirror.sharingFault? = m.sharingFault? := rfl
  have hgrown := redistribute_mirror { m with lead := m.lead.map fun _ => 0 } 0 w
  rw [redistributeUncut, redistributeUncut, hfault]
  cases m.sharingFault? with
  | some e => rfl
  | none =>
    have hlength : m.mirror.usedLength = m.usedLength := rfl
    have hcount : m.mirror.usedCount = m.usedCount := rfl
    dsimp only
    rw [hlength, hcount]
    split
    · rfl
    · exact congrArg (fun p : Matrix α × Nat => Except.ok (p.1, (p.2 : Int))) hgrown

theorem openSlotUncut_mirror [Zero α] (m : Matrix α) (w : Nat) (spot : Place Int) :
    m.mirror.openSlotUncut w spot =
      (m.openSlotUncut w spot).map fun p => (p.1.mirror, p.2) := by
  cases spot with
  | found p => rfl
  | vacant p => rfl
  | crowded p =>
    have hahead : m.mirror.holeAheadUncut? p = m.holeAheadUncut? p := rfl
    have hbehind : m.mirror.holeBehindUncut? p = m.holeBehindUncut? p := rfl
    have hup : ∀ d : Nat, (m.mirror.shiftUpUncut p (p + d) w).map (·, p) =
        ((m.shiftUpUncut p (p + d) w).map (·, p)).map fun q => (q.1.mirror, q.2) := by
      intro d
      rw [shiftUpUncut_mirror]
      cases m.shiftUpUncut p (p + d) w <;> rfl
    have hdown : ∀ gap : Int, (m.mirror.shiftDownUncut p gap w).map (·, p - 1) =
        ((m.shiftDownUncut p gap w).map (·, p - 1)).map fun q => (q.1.mirror, q.2) := by
      intro gap
      rw [shiftDownUncut_mirror]
      cases m.shiftDownUncut p gap w <;> rfl
    rw [openSlotUncut, openSlotUncut, hahead, hbehind]
    cases m.holeAheadUncut? p with
    | none =>
      cases m.holeBehindUncut? p with
      | none => exact m.redistributeUncut_mirror w
      | some gap => exact hdown gap
    | some d =>
      cases m.holeBehindUncut? p with
      | none => exact hup d
      | some gap =>
        dsimp only
        split
        · exact hup d
        · exact hdown gap

theorem atSlot_mirror (m : Matrix α) (p : Int) {f g : Nat → Matrix α}
    (h : ∀ i, g i = (f i).mirror) :
    m.mirror.atSlot p g = ((m.atSlot p f).1, (m.atSlot p f).2.mirror) := by
  have hslot : m.mirror.slotNumber p = m.slotNumber p := rfl
  rw [atSlot, atSlot, hslot]
  cases m.slotNumber p with
  | error e => rfl
  | ok i => exact congrArg (Prod.mk none) (h i)

theorem writeUncut_mirror [Scalar α] (m : Matrix α) (w : Nat) (t : Int) (v : α) (overwrite : Bool) :
    m.mirror.writeUncut w t v overwrite =
      ((m.writeUncut w t v overwrite).1, (m.writeUncut w t v overwrite).2.mirror) := by
  have hspot : m.mirror.locateUncut w t = m.locateUncut w t := rfl
  have hlocked : m.mirror.locked = m.locked := rfl
  rw [writeUncut, writeUncut, hspot]
  cases m.locateUncut w t with
  | error e => rfl
  | ok spot =>
    cases spot with
    | found p => exact m.atSlot_mirror p fun i => rfl
    | vacant p | crowded p =>
      dsimp only
      rw [openSlotUncut_mirror, hlocked]
      split
      · rfl
      · cases m.openSlotUncut w _ with
        | error e => rfl
        | ok q => exact q.1.atSlot_mirror q.2 fun i => rfl

/-! ## Single calls -/

/-- The write to a position, and the mirrored write to its exchange. -/
structure Turned (outcome image : Option (Fault α) × Matrix α) : Prop where
  fault : image.1.map Fault.category = outcome.1.map Fault.category
  matrix : image.2 = outcome.2.mirror

section

variable [Scalar α]

theorem set_mirror (m : Matrix α) (row col : Int) (v : α) (overwrite : Bool) :
    Turned (m.set row col v overwrite) (m.mirror.set col row v overwrite) := by
  rw [set, set, locateWindow?_mirror, isCut_mirror]
  cases m.locateWindow? row col with
  | none => exact ⟨rfl, rfl⟩
  | some p =>
    dsimp only
    split
    · exact ⟨rfl, m.write_mirror p.1 p.2 v overwrite⟩
    · rw [writeUncut_mirror]
      exact ⟨rfl, rfl⟩

theorem writeAll_mirror (m : Matrix α) (writes : List (Write α)) :
    Turned (m.writeAll writes) (m.mirror.writeAll (writes.map Write.mirror)) := by
  induction writes generalizing m with
  | nil => exact ⟨rfl, rfl⟩
  | cons w ws ih =>
    have hset := m.set_mirror w.row w.col w.value w.overwrite
    rw [List.map_cons, writeAll, writeAll]
    rcases hout : m.set w.row w.col w.value w.overwrite with ⟨_ | e, next⟩ <;>
      rcases himage : m.mirror.set w.mirror.row w.mirror.col w.mirror.value w.mirror.overwrite with
        ⟨_ | e', next'⟩ <;>
      rw [hout, show m.mirror.set w.col w.row w.value w.overwrite = _ from himage] at hset
    · have hnext : next' = next.mirror := hset.matrix
      rw [hnext]
      exact ih next
    · exact absurd hset.fault (by simp)
    · exact absurd hset.fault (by simp)
    · exact hset

theorem additions_transpose (entries : List (Entry α)) (negated : Bool) :
    additions (entries.map Entry.transpose) negated =
      (additions entries negated).map Write.mirror := by
  rw [additions, additions, List.map_map, List.map_map]
  rfl

theorem accumulate_mirror (m other : Matrix α) (negated : Bool) :
    Turned (m.accumulate other negated) (m.mirror.accumulate other.mirror negated) := by
  rw [accumulate, accumulate, storedEntries_mirror]
  by_cases hshape : m.rows = other.rows ∧ m.cols = other.cols
  · have himage : m.mirror.rows = other.mirror.rows ∧ m.mirror.cols = other.mirror.cols :=
      And.symm hshape
    rw [checkSameShape, if_pos hshape, checkSameShape, if_pos himage]
    cases other.storedEntries with
    | error e => exact ⟨rfl, rfl⟩
    | ok entries =>
      dsimp only [Except.map]
      rw [additions_transpose]
      exact m.writeAll_mirror _
  · have himage : ¬(m.mirror.rows = other.mirror.rows ∧ m.mirror.cols = other.mirror.cols) :=
      fun h => hshape (And.symm h)
    rw [checkSameShape, if_neg hshape, checkSameShape, if_neg himage]
    exact ⟨rfl, rfl⟩

end

/-! ## Bulk calls -/

theorem withFreshBuffers_mirror [Zero α] (m : Matrix α) (hint : Int) :
    m.mirror.withFreshBuffers hint = (m.withFreshBuffers hint).mirror := by
  rw [withFreshBuffers, withFreshBuffers, leadingDim_mirror]
  rfl

theorem empty_mirror [Zero α] (rows cols : Nat) (orientation : Orientation) (hint : Int) :
    (empty cols rows orientation.flip hint : Matrix α) =
      (empty rows cols orientation hint).mirror :=
  withFreshBuffers_mirror
    ⟨rows, cols, orientation, #[], #[], none, false, false, false, 0, #[]⟩ hint

theorem reset_mirror [Zero α] (m : Matrix α) (rows cols hint : Int) :
    Concordant (fun next image => image = next.mirror) (m.reset rows cols hint)
      (m.mirror.reset cols rows hint) := by
  by_cases hneg : rows < 0 ∨ cols < 0
  · rw [reset, reset, if_pos hneg, if_pos (Or.symm hneg)]
    exact .error rfl
  · rw [reset, reset, if_neg hneg, if_neg fun h => hneg (Or.symm h)]
    by_cases hkept : m.locked ∧ !m.lockBroken ∧ rows = m.rows ∧ cols = m.cols
    · have himage : m.mirror.locked ∧ !m.mirror.lockBroken ∧ cols = m.mirror.rows ∧
          rows = m.mirror.cols := ⟨hkept.1, hkept.2.1, hkept.2.2.2, hkept.2.2.1⟩
      rw [if_pos hkept, if_pos himage]
      exact .ok rfl
    · have himage : ¬(m.mirror.locked ∧ !m.mirror.lockBroken ∧ cols = m.mirror.rows ∧
          rows = m.mirror.cols) := fun h => hkept ⟨h.1, h.2.1, h.2.2.2, h.2.2.1⟩
      rw [if_neg hkept, if_neg himage]
      exact .ok (withFreshBuffers_mirror { m with
        rows := rows.toNat, cols := cols.toNat, lockBroken := false } hint)

theorem loadPattern_mirror [Zero α] (m : Matrix α) (p : Pattern) :
    Concordant (fun next image => image = next.mirror) (m.loadPattern p)
      (m.mirror.loadPattern p.mirror) := by
  have hflip : p.mirror.orientation ≠ m.mirror.orientation ↔ p.orientation ≠ m.orientation :=
    not_congr Orientation.flip_inj
  rw [loadPattern, loadPattern]
  by_cases hdiffer : p.orientation ≠ m.orientation
  · rw [if_pos hdiffer, if_pos (hflip.mpr hdiffer)]
    exact .error rfl
  · rw [if_neg hdiffer, if_neg (mt hflip.mp hdiffer)]
    exact .ok rfl

theorem gatheredWindows_mirror [Scalar α] (m : Matrix α) (keep : Slot α → Bool) :
    m.mirror.gatheredWindows keep = m.gatheredWindows keep := by
  rw [gatheredWindows, gatheredWindows, leadingDim_mirror]
  rfl

theorem gatheredOwned_mirror [Scalar α] (m : Matrix α) (keep : Slot α → Bool) :
    m.mirror.gatheredOwned keep = m.gatheredOwned keep := by
  rw [gatheredOwned, gatheredOwned, leadingDim_mirror]
  rfl

theorem compress_mirror [Scalar α] (m : Matrix α) :
    m.mirror.compress = (m.compress.1.mirror, m.compress.2) := by
  have hlocked : m.mirror.locked = m.locked := rfl
  rw [compress, compress, rebuild, rebuild, gatheredWindows_mirror, hlocked]
  rfl

theorem compress?_mirror [Scalar α] (m : Matrix α) :
    m.mirror.compress? = m.compress?.map fun p => (p.1.mirror, p.2) := by
  have hlocked : m.mirror.locked = m.locked := rfl
  rw [compress?, compress?, isCut_mirror, compress_mirror, gatheredOwned_mirror, hlocked]
  split
  · rfl
  · cases m.gatheredOwned (survives m.locked) <;> rfl

theorem prune_mirror [Scalar α] (m : Matrix α) (threshold : α) :
    m.mirror.prune threshold = (m.prune threshold).map fun p => (p.1.mirror, p.2) := by
  rw [prune, prune, isCut_mirror, pruned, pruned, rebuild, rebuild, gatheredWindows_mirror,
    gatheredOwned_mirror]
  split
  · rfl
  · split
    · rfl
    · cases m.gatheredOwned (outlasts threshold) <;> rfl

theorem trim?_mirror (m : Matrix α) : m.mirror.trim? = m.trim?.map mirror := by
  have hslots : m.mirror.usedSlots = m.usedSlots := rfl
  have hlength : m.mirror.usedLength = m.usedLength := rfl
  rw [trim?, trim?, isCut_mirror, hslots, hlength]
  split
  · rfl
  · cases spread? m.usedLength.toNat m.usedSlots <;> rfl

theorem mapValues_mirror (m : Matrix α) (f : α → α) (rowSpan colSpan : Option Span) :
    m.mirror.mapValues f colSpan rowSpan = (m.mapValues f rowSpan colSpan).mirror := by
  have hspans : m.mirror.inSpans colSpan rowSpan = m.inSpans rowSpan colSpan := by
    funext w s
    rw [inSpans, inSpans, entryOf_mirror]
    exact Bool.and_comm ..
  rw [mapValues, mapValues, hspans]
  rfl

theorem mapValues?_mirror (m : Matrix α) (f : α → α) (rowSpan colSpan : Option Span) :
    m.mirror.mapValues? f colSpan rowSpan = (m.mapValues? f rowSpan colSpan).map mirror := by
  have hfault : m.mirror.ownershipFault? = m.ownershipFault? := rfl
  rw [mapValues?, mapValues?, isCut_mirror, mapValues_mirror, hfault]
  split
  · rfl
  · cases m.ownershipFault? <;> rfl

theorem setShiftBound_mirror (m : Matrix α) (bound : Option Int) :
    m.mirror.setShiftBound bound = (m.setShiftBound bound).map mirror := by
  cases bound with
  | none => rfl
  | some b =>
    rw [setShiftBound, setShiftBound]
    split <;> rfl

end Matrix

/-! ## Effects -/

/-- What a call leaves, and what the mirrored call leaves. -/
structure Effect.Mirrors (e image : Effect α) : Prop where
  matrix : image.matrix = e.matrix.mirror
  fault : image.fault.map Fault.category = e.fault.map Fault.category
  changed : image.changed = e.changed

namespace Effect

theorem mirrors_quiet (m : Matrix α) : (quiet m).Mirrors (quiet m.mirror) := ⟨rfl, rfl, rfl⟩

theorem mirrors_ofRun {outcome image : Option (Fault α) × Matrix α}
    (h : Matrix.Turned outcome image) : (ofRun outcome).Mirrors (ofRun image) :=
  ⟨h.matrix, h.fault, rfl⟩

theorem mirrors_ofResult {m : Matrix α} {r image : Except (Fault α) (Matrix α)}
    (h : Concordant (fun next image => image = next.mirror) r image) :
    (ofResult m r).Mirrors (ofResult m.mirror image) := by
  cases h with
  | ok h => exact ⟨h, rfl, rfl⟩
  | error h => exact ⟨rfl, congrArg some h, rfl⟩

theorem mirrors_ofResult_map (m : Matrix α) (r : Except (Fault α) (Matrix α)) :
    (ofResult m r).Mirrors (ofResult m.mirror (r.map Matrix.mirror)) := by
  cases r <;> exact ⟨rfl, rfl, rfl⟩

theorem mirrors_ofChange_map (m : Matrix α) (r : Except (Fault α) (Matrix α × Bool)) :
    (ofChange m r).Mirrors (ofChange m.mirror (r.map fun p => (p.1.mirror, p.2))) := by
  cases r <;> exact ⟨rfl, rfl, rfl⟩

end Effect

namespace Matrix

variable [Scalar α]

/-- A mirrored call on the image leaves the image of what the call leaves. -/
theorem perform_mirror (m : Matrix α) (a : Action α) :
    (m.perform a).Mirrors (m.mirror.perform a.mirror) := by
  cases a with
  | write w => exact Effect.mirrors_ofRun (m.set_mirror w.row w.col w.value w.overwrite)
  | reset rows cols hint => exact Effect.mirrors_ofResult (m.reset_mirror rows cols hint)
  | compress =>
    rw [perform, Action.mirror, perform, compress?_mirror]
    exact Effect.mirrors_ofChange_map m _
  | prune threshold =>
    rw [perform, Action.mirror, perform, prune_mirror]
    exact Effect.mirrors_ofChange_map m _
  | trim =>
    rw [perform, Action.mirror, perform, trim?_mirror]
    exact Effect.mirrors_ofResult_map m _
  | lock on => exact Effect.mirrors_quiet (m.setLock on)
  | boundShifts bound =>
    rw [perform, Action.mirror, perform, setShiftBound_mirror]
    exact Effect.mirrors_ofResult_map m _
  | load pattern => exact Effect.mirrors_ofResult (m.loadPattern_mirror pattern)
  | accumulate other negated => exact Effect.mirrors_ofRun (m.accumulate_mirror other negated)
  | accumulateSelf negated => exact Effect.mirrors_ofRun (m.accumulate_mirror m negated)
  | scale factor => exact Effect.mirrors_quiet (m.scaleBy factor)
  | map f rowSpan colSpan =>
    rw [perform, Action.mirror, perform, mapValues?_mirror]
    exact Effect.mirrors_ofResult_map m _

/-! ## Dense tables -/

omit [Scalar α] in
theorem storing_transpose (entries : List (Entry α)) :
    storing (entries.map Entry.transpose) = (storing entries).map Write.mirror := by
  rw [storing, storing, List.map_map, List.map_map]
  rfl

/-- The nonzeros of a table in storage order, exchanged. -/
theorem storageOrder_transpose (d : Dense α) (orientation : Orientation) :
    storageOrder d.transpose orientation.flip =
      (storageOrder d orientation).map Entry.transpose := by
  cases orientation with
  | byRows =>
    rw [Orientation.flip, storageOrder, storageOrder, d.entries_transpose_transpose]
  | byColumns =>
    exact Eq.symm ((List.map_map ..).trans (List.map_id' _))

/-- A matrix made of the exchanged table is the image of the matrix made of the table. -/
theorem ofDense_mirror (d : Dense α) (orientation : Orientation) :
    ofDense d.transpose orientation.flip = (ofDense d orientation).mirror := by
  have hwritten := (writeAll_mirror (empty d.rows d.cols orientation
    (storageOrder d orientation).length) (storing (storageOrder d orientation))).matrix
  rw [← empty_mirror, ← storing_transpose, ← storageOrder_transpose] at hwritten
  have hlength : (storageOrder d.transpose orientation.flip).length =
      (storageOrder d orientation).length := by rw [storageOrder_transpose, List.length_map]
  refine Eq.trans ?_ (congrArg Prod.fst (compress_mirror _))
  rw [← hwritten, ← hlength]
  rfl

theorem create_mirror (rows cols : Int) (orientation : Orientation) (hint : Int) :
    Concordant (fun m image : Matrix α => image = m.mirror) (create rows cols orientation hint)
      (create cols rows orientation.flip hint) := by
  rw [create, create]
  by_cases hneg : rows < 0 ∨ cols < 0
  · rw [if_pos hneg, if_pos hneg.symm]
    exact .error rfl
  · rw [if_neg hneg, if_neg fun h => hneg h.symm]
    exact .ok (empty_mirror rows.toNat cols.toNat orientation hint)

/-! ## Histories -/

/-- What each of a list of calls leaves, one after the other. A refused call does not stop the
next. -/
def trace (m : Matrix α) : List (Action α) → List (Effect α)
  | [] => []
  | a :: as => m.perform a :: (m.perform a).matrix.trace as

end Matrix

/-- What a call leaves and what the mirrored call leaves, with all that can be read off the two
matrices. -/
structure Effect.Reflected [Scalar α] (e image : Effect α) : Prop extends e.Mirrors image where
  reading : ∀ row col, Concordant Eq (e.matrix.get row col) (image.matrix.get col row)
  product : ∀ v transposed,
    Concordant Eq (e.matrix.mulVec v transposed) (image.matrix.mulVec v (!transposed))
  block : ∀ v rowSpan colSpan transposed,
    Concordant Eq (e.matrix.mulBlock v rowSpan colSpan transposed)
      (image.matrix.mulBlock v colSpan rowSpan (!transposed))

variable [Scalar α]

theorem Effect.Mirrors.reflected {e image : Effect α} (h : e.Mirrors image) :
    e.Reflected image := by
  refine ⟨h, ?_, ?_, ?_⟩ <;> rw [h.matrix]
  · exact e.matrix.get_mirror
  · exact e.matrix.mulVec_mirror
  · exact e.matrix.mulBlock_mirror

/-- By induction on the calls: each finds the image of what the one before it left. -/
theorem Matrix.trace_mirror (m : Matrix α) (actions : List (Action α)) :
    List.Forall₂ Effect.Reflected (m.trace actions)
      (m.mirror.trace (actions.map Action.mirror)) := by
  induction actions generalizing m with
  | nil => exact .nil
  | cons a as ih =>
    have hstep := m.perform_mirror a
    rw [List.map_cons, trace, trace, hstep.matrix]
    exact .cons hstep.reflected (ih (m.perform a).matrix)

/-- How a matrix comes about: empty, of a given shape and with room for some entries, or from the
nonzeros of a table. -/
inductive Origin (α : Type) where
  | shape (rows cols hint : Int)
  | table (d : Dense α)

namespace Origin

/-- The matrix at the start of its history. -/
def make (orientation : Orientation) : Origin α → Except (Fault α) (Matrix α)
  | shape rows cols hint => Matrix.create rows cols orientation hint
  | table d => .ok (Matrix.ofDense d orientation)

/-- The origin with rows and columns exchanged. -/
def mirror : Origin α → Origin α
  | shape rows cols hint => shape cols rows hint
  | table d => table d.transpose

/-- What the construction of a matrix leaves, and then each of a list of calls on it. -/
def history (origin : Origin α) (orientation : Orientation) (actions : List (Action α)) :
    Except (Fault α) (List (Effect α)) :=
  (origin.make orientation).map fun m => .quiet m :: m.trace actions

theorem make_mirror (origin : Origin α) (orientation : Orientation) :
    Concordant (fun m image : Matrix α => image = m.mirror) (origin.make orientation)
      (origin.mirror.make orientation.flip) := by
  cases origin with
  | shape rows cols hint => exact Matrix.create_mirror rows cols orientation hint
  | table d => exact .ok (Matrix.ofDense_mirror d orientation)

/-- A matrix in one orientation and a matrix in the other, made and called with rows and columns
exchanged in every argument, are images of each other after each call, and the patterns to load into
them are recorded alike. -/
theorem history_mirror (origin : Origin α) (orientation : Orientation)
    (actions : List (Action α)) :
    Concordant (List.Forall₂ Effect.Reflected) (origin.history orientation actions)
        (origin.mirror.history orientation.flip (actions.map Action.mirror)) ∧
      ∀ (rows cols : Nat) (writes : List (Write α)),
        (Pattern.empty cols rows orientation.flip).writeAll (writes.map Write.mirror) =
          (((Pattern.empty rows cols orientation).writeAll writes).1,
            ((Pattern.empty rows cols orientation).writeAll writes).2.mirror) := by
  refine ⟨?_, fun rows cols writes => ?_⟩
  · have hmake := origin.make_mirror orientation
    rw [history, history]
    rcases hm : origin.make orientation with e | m <;>
      rcases himage : origin.mirror.make orientation.flip with e' | image <;>
      rw [hm, himage] at hmake <;> cases hmake
    · exact .error ‹_›
    · rename_i heq
      rw [heq]
      exact .ok (.cons (Effect.mirrors_quiet m).reflected (m.trace_mirror actions))
  · rw [← Pattern.writeAll_mirror, Pattern.empty_mirror]

end Origin

end CentralPath.Sparse
