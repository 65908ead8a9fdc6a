/-
  The storage rules hold along every run of calls. Each action of `Matrix.perform` keeps sound
  buffers sound (`Sound.perform`), whether it is refused or not, and `refusal?` lists the reasons
  for which it is: they concern the arguments only, so a search for room that fails is never seen
  from outside. A refused action leaves the matrix as it was.
-/
import CentralPath.Sparse.Action
import CentralPath.Proofs.Scalar.OrderedField
import CentralPath.Proofs.Sparse.Buffers
import CentralPath.Proofs.Sparse.Positions

namespace CentralPath.Sparse

variable {α : Type}

namespace Matrix

variable {m : Matrix α}

/-! ## Maps and multiples -/

theorem revalued_mapValues (m : Matrix α) (f : α → α) (rowSpan colSpan : Option Span) :
    m.Revalued (m.mapValues f rowSpan colSpan) fun i s =>
      if i < m.usedCount ∧ s.live ∧ m.inSpans rowSpan colSpan (m.ownerOf i) s then
        { s with value := f s.value } else s := by
  refine .of_values ⟨rfl, rfl, rfl, rfl, rfl, rfl⟩ rfl rfl (fun i => ?_) (fun i s => ?_)
    fun i s => ?_
  · rw [mapValues, Array.getElem?_mapIdx]
  · split_ifs <;> rfl
  · split_ifs <;> rfl

variable [Scalar α]

theorem getElem?_scaleBy (m : Matrix α) (k : α) (i : Nat) :
    (m.scaleBy k).slots[i]? = (m.slots[i]?).map fun s =>
      if i < m.usedCount ∧ s.live then { s with value := s.value * k } else s := by
  rw [scaleBy, Array.getElem?_mapIdx]

theorem revalued_scaleBy (m : Matrix α) (k : α) :
    m.Revalued (m.scaleBy k) fun i s =>
      if i < m.usedCount ∧ s.live then { s with value := s.value * k } else s := by
  refine .of_values ⟨rfl, rfl, rfl, rfl, rfl, rfl⟩ rfl rfl (getElem?_scaleBy m k) (fun i s => ?_)
    fun i s => ?_
  · split_ifs <;> rfl
  · split_ifs <;> rfl

/-- A cleared matrix reads zero everywhere. -/
theorem Sound.valueAt_cleared (h : m.Sound) (row col : Int) :
    Matrix.valueAt { m with slots := m.slots.map Slot.cleared, compressed := false } row col = 0 := by
  have r := revalued_cleared m
  rcases hs : m.slotOf? row col with _ | s
  · exact valueAt_of_slotOf?_eq_none (r.slotOf?_eq_none hs)
  · obtain ⟨-, i, -, -, -, -, hget⟩ := r.slotOf?_eq_some h hs
    rw [valueAt_of_slotOf? hget]
    rfl

/-! ## Runs of writes -/

/-- Writes keep the buffers sound, up to the first that is refused. -/
theorem Sound.writeAll (h : m.Sound) (writes : List (Write α)) :
    (m.writeAll writes).2.Sound ∧ m.SameFrame (m.writeAll writes).2 := by
  induction writes generalizing m with
  | nil => exact ⟨h, SameFrame.refl m⟩
  | cons w ws ih =>
    have hset := h.set w.row w.col w.value w.overwrite
    have hframe := h.sameFrame_set w.row w.col w.value w.overwrite
    rw [Matrix.writeAll]
    rcases hout : m.set w.row w.col w.value w.overwrite with ⟨_ | e, next⟩ <;>
      rw [hout] at hset hframe
    · exact ⟨(ih hset).1, hframe.trans (ih hset).2⟩
    · exact ⟨hset, hframe⟩

/-- After a write inside the shape the next ones follow. -/
theorem Sound.writeAll_cons (h : m.Sound) {w : Write α} (hin : m.InShape w.row w.col)
    (ws : List (Write α)) :
    m.writeAll (w :: ws) = (m.set w.row w.col w.value w.overwrite).2.writeAll ws := by
  have hfault := h.set_fault hin w.value w.overwrite
  rw [Matrix.writeAll]
  generalize m.set w.row w.col w.value w.overwrite = outcome at hfault
  obtain ⟨_ | e, next⟩ := outcome
  · rfl
  · cases hfault

/-- Writes inside the shape are none of them refused. -/
theorem Sound.writeAll_fault (h : m.Sound) {writes : List (Write α)}
    (hin : ∀ w ∈ writes, m.InShape w.row w.col) : (m.writeAll writes).1 = none := by
  induction writes generalizing m with
  | nil => rfl
  | cons w ws ih =>
    rw [h.writeAll_cons (hin w (List.mem_cons_self ..))]
    exact ih (h.set ..) fun w' hw' =>
      (h.sameFrame_set ..).inShape.mpr (hin w' (List.mem_cons_of_mem _ hw'))

/-! ## Sums -/

theorem Sound.accumulate (h : m.Sound) (other : Matrix α) (negated : Bool) :
    (m.accumulate other negated).2.Sound := by
  rw [Matrix.accumulate]
  split
  · exact h
  · split
    · exact h
    · exact (h.writeAll _).1

theorem inShape_additions {other : Matrix α} (ho : other.Sound) (hrows : m.rows = other.rows)
    (hcols : m.cols = other.cols) (negated : Bool) :
    ∀ w ∈ additions other.entries negated, m.InShape w.row w.col := by
  intro w hw
  obtain ⟨e, he, rfl⟩ := List.mem_map.mp hw
  have := ho.inShape_of_mem_entries he
  rw [InShape] at this ⊢
  rwa [hrows, hcols]

/-- Adding a sound matrix of the same shape runs through all its entries. -/
theorem accumulate_eq {other : Matrix α} (ho : other.Sound) (hrows : m.rows = other.rows)
    (hcols : m.cols = other.cols) (negated : Bool) :
    m.accumulate other negated = m.writeAll (additions other.entries negated) := by
  rw [Matrix.accumulate, checkSameShape, if_pos ⟨hrows, hcols⟩, storedEntries_of_isCut ho.isCut]

end Matrix

variable [Scalar α]

/-! ## Refusals -/

/-- Why an action is refused, by its arguments and the shape of the matrix. -/
def Action.refusal? (m : Matrix α) : Action α → Option (Fault α)
  | .write w => if m.InShape w.row w.col then none
      else some (.positionOutside w.row w.col m.rows m.cols)
  | .reset rows cols _ => if rows < 0 ∨ cols < 0 then some (.negativeDimensions rows cols) else none
  | .prune threshold => if threshold < 0 then some (.negativeThreshold threshold) else none
  | .boundShifts bound => bound.bind fun b => if b < 0 then some (.negativeShiftBound b) else none
  | .load pattern => if pattern.orientation ≠ m.orientation then some .orientationsDiffer else none
  | .accumulate other _ => if m.rows = other.rows ∧ m.cols = other.cols then none
      else some (.shapesDiffer m.rows m.cols other.rows other.cols)
  | .compress | .trim | .lock _ | .accumulateSelf _ | .scale _ | .map .. => none

/-- The recorded positions of a pattern that an action loads are in range. -/
def Action.InRange : Action α → Prop
  | .load pattern => pattern.InRange
  | _ => True

/-- A matrix that an action adds obeys the storage rules. -/
def Action.OperandSound : Action α → Prop
  | .accumulate other _ => other.verify = 0
  | _ => True

namespace Matrix

variable {m : Matrix α}

/-- Every action keeps the buffers sound, whether it is refused or not. -/
theorem Sound.perform (h : m.Sound) (a : Action α) (ha : a.InRange) : (m.perform a).matrix.Sound := by
  cases a with
  | write w => exact h.set w.row w.col w.value w.overwrite
  | reset rows cols hint =>
    rw [Matrix.perform]
    rcases hreset : m.reset rows cols hint with _ | next
    · exact h
    · exact h.reset hreset
  | compress =>
    rw [Matrix.perform, compress?, if_pos h.isCut]
    exact h.compress
  | prune threshold =>
    rw [Matrix.perform, prune, if_pos h.isCut]
    split_ifs
    · exact h
    · exact h.pruned threshold
  | trim =>
    rw [Matrix.perform, trim?, if_pos h.isCut]
    exact h.trim
  | lock on => exact h.of_buffers_eq rfl rfl rfl rfl rfl
  | boundShifts bound =>
    rcases bound with _ | b
    · exact h.of_buffers_eq rfl rfl rfl rfl rfl
    · rw [Matrix.perform, setShiftBound]
      split_ifs
      · exact h
      · exact h.of_buffers_eq rfl rfl rfl rfl rfl
  | load pattern =>
    rw [Matrix.perform]
    rcases hload : m.loadPattern pattern with _ | next
    · exact h
    · exact sound_loadPattern ha hload
  | accumulate other negated => exact h.accumulate other negated
  | accumulateSelf negated => exact h.accumulate m negated
  | scale factor => exact (revalued_scaleBy m factor).sound h
  | map f rowSpan colSpan =>
    rw [Matrix.perform, mapValues?, if_pos h.isCut]
    exact (revalued_mapValues m f rowSpan colSpan).sound h

/-- An action is refused for its arguments only, and then changes nothing. -/
theorem Sound.perform_refusal (h : m.Sound) (a : Action α) (ha : a.OperandSound) :
    (m.perform a).fault = a.refusal? m ∧
      ((m.perform a).fault ≠ none → (m.perform a).matrix = m) := by
  cases a with
  | write w =>
    rw [Matrix.perform, Action.refusal?]
    by_cases hin : m.InShape w.row w.col
    · have hfault := h.set_fault hin w.value w.overwrite
      rw [if_pos hin]
      exact ⟨hfault, fun hne => absurd hfault hne⟩
    · rw [set_of_not_inShape hin, if_neg hin]
      exact ⟨rfl, fun _ => rfl⟩
  | reset rows cols hint =>
    rw [Matrix.perform, Action.refusal?, Matrix.reset]
    split_ifs
    · exact ⟨rfl, fun _ => rfl⟩
    · exact ⟨rfl, fun hne => absurd rfl hne⟩
    · exact ⟨rfl, fun hne => absurd rfl hne⟩
  | compress =>
    rw [Matrix.perform, compress?, if_pos h.isCut]
    exact ⟨rfl, fun hne => absurd rfl hne⟩
  | prune threshold =>
    rw [Matrix.perform, Action.refusal?, prune, if_pos h.isCut]
    split_ifs
    · exact ⟨rfl, fun _ => rfl⟩
    · exact ⟨rfl, fun hne => absurd rfl hne⟩
  | trim =>
    rw [Matrix.perform, trim?, if_pos h.isCut]
    exact ⟨rfl, fun hne => absurd rfl hne⟩
  | lock on => exact ⟨rfl, fun hne => absurd rfl hne⟩
  | boundShifts bound =>
    rcases bound with _ | b
    · exact ⟨rfl, fun hne => absurd rfl hne⟩
    · rw [Matrix.perform, Action.refusal?, setShiftBound, Option.bind_some]
      split_ifs
      · exact ⟨rfl, fun _ => rfl⟩
      · exact ⟨rfl, fun hne => absurd rfl hne⟩
  | load pattern =>
    rw [Matrix.perform, Action.refusal?, loadPattern]
    split_ifs
    · exact ⟨rfl, fun _ => rfl⟩
    · exact ⟨rfl, fun hne => absurd rfl hne⟩
  | accumulate other negated =>
    have ho : other.Sound := verify_eq_zero_iff.mp ha
    rw [Matrix.perform, Action.refusal?]
    by_cases hshape : m.rows = other.rows ∧ m.cols = other.cols
    · have hfault := h.writeAll_fault (inShape_additions ho hshape.1 hshape.2 negated)
      rw [accumulate_eq ho hshape.1 hshape.2, if_pos hshape]
      exact ⟨hfault, fun hne => absurd hfault hne⟩
    · rw [Matrix.accumulate, checkSameShape, if_neg hshape]
      exact ⟨rfl, fun _ => rfl⟩
  | accumulateSelf negated =>
    have hfault := h.writeAll_fault (inShape_additions h rfl rfl negated)
    rw [Matrix.perform, accumulate_eq h rfl rfl]
    exact ⟨hfault, fun hne => absurd hfault hne⟩
  | scale factor => exact ⟨rfl, fun hne => absurd rfl hne⟩
  | map f rowSpan colSpan =>
    rw [Matrix.perform, mapValues?, if_pos h.isCut]
    exact ⟨rfl, fun hne => absurd rfl hne⟩

/-- The storage rules are an invariant. From any buffers that obey them every action leaves buffers
that obey them; it is refused exactly for the listed reasons, and then nothing has changed. -/
theorem verify_perform (m : Matrix α) (h : m.verify = 0) (a : Action α) (ha : a.InRange) :
    (m.perform a).matrix.verify = 0 ∧
      (a.OperandSound → (m.perform a).fault = a.refusal? m ∧
        ((m.perform a).fault ≠ none → (m.perform a).matrix = m)) := by
  have hsound := verify_eq_zero_iff.mp h
  exact ⟨verify_eq_zero_iff.mpr (hsound.perform a ha), hsound.perform_refusal a⟩

end Matrix

/-- A pattern of one row and two columns with both positions recorded, the second one first. -/
def pairPattern : Pattern := ⟨1, 2, .byRows, #[[1, 0, 1]]⟩

theorem inRange_pairPattern : pairPattern.InRange := by
  refine ⟨rfl, ?_⟩
  intro l hl i hi
  obtain rfl : l = [1, 0, 1] := by simpa [pairPattern] using hl
  have htrailing : pairPattern.trailingDim = 2 := rfl
  rw [htrailing]
  simp only [List.mem_cons, List.not_mem_nil, or_false] at hi
  omega

theorem verify_unit : (Matrix.unit : Matrix ℚ).verify = 0 :=
  Matrix.verify_eq_zero_iff.mpr Matrix.sound_unit

/-- Loading the pattern of a pair into the matrix of one position. -/
theorem verify_perform_load_pair :
    (Matrix.unit : Matrix ℚ).verify = 0 ∧ Action.InRange (α := ℚ) (.load pairPattern) ∧
      (Matrix.unit.perform (α := ℚ) (.load pairPattern)).matrix.verify = 0 ∧
      (Matrix.unit.perform (α := ℚ) (.load pairPattern)).fault = none := by
  have h := Matrix.verify_perform Matrix.unit verify_unit (.load pairPattern) inRange_pairPattern
  exact ⟨verify_unit, inRange_pairPattern, h.1, (h.2 True.intro).1⟩

end CentralPath.Sparse
