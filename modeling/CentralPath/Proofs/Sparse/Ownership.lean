/-
  The positions that own a slot, live or reserved. Under the lock no call but a prune takes a slot
  from a position (`Sound.retains_perform`), so a reset finds all of them again and a position that
  has been written once is written in place from then on (`Sound.inPlace_writeAll`). A prune that
  does take one breaks the lock (`Sound.losesSlots_of_not_owns`), and only new buffers mend it
  (`Sound.lockBroken_performAll`). `locked_topology` puts this together for runs of any length.
-/
import CentralPath.Proofs.Sparse.Storage

namespace CentralPath.Sparse

/-! ## Sizes of index sets -/

theorem length_insertIndex_le (i : Int) (js : List Int) :
    (insertIndex i js).length ≤ js.length + 1 := by
  induction js with
  | nil => exact Nat.le_refl _
  | cons k ks ih =>
    rw [insertIndex]
    split_ifs
    · exact Nat.le_refl _
    · exact Nat.le_succ _
    · exact Nat.succ_le_succ ih

theorem length_distinctSorted_le (is : List Int) : (distinctSorted is).length ≤ is.length := by
  induction is with
  | nil => exact Nat.le_refl _
  | cons i is ih => exact Nat.le_trans (length_insertIndex_le i _) (Nat.succ_le_succ ih)

variable {α : Type}

namespace Matrix

variable {m m' : Matrix α} {row col row' col' : Int} {w : Nat} {t : Int}

/-! ## Owned positions -/

/-- The position has a slot, live or reserved. -/
def Owns (m : Matrix α) (row col : Int) : Prop := (m.slotOf? row col).isSome = true

instance (m : Matrix α) (row col : Int) : Decidable (m.Owns row col) :=
  inferInstanceAs (Decidable (_ = true))

theorem owns_iff : m.Owns row col ↔ ∃ s, m.slotOf? row col = some s := Option.isSome_iff_exists

theorem not_owns_iff : ¬m.Owns row col ↔ m.slotOf? row col = none := by
  rw [Owns, Bool.not_eq_true, Option.isSome_eq_false_iff, Option.isNone_iff_eq_none]

theorem Owns.inShape (h : m.Owns row col) : m.InShape row col := by
  by_contra hout
  rw [Owns, slotOf?, locateWindow?_of_not_inShape hout] at h
  cases h

/-- Values that change in place leave the owners as they are. -/
theorem Revalued.owns {change : Nat → Slot α → Slot α} (r : m.Revalued m' change) (h : m.Sound)
    (ho : m.Owns row col) : m'.Owns row col := by
  obtain ⟨s, hs⟩ := owns_iff.mp ho
  obtain ⟨-, i, -, -, -, -, hget⟩ := r.slotOf?_eq_some h hs
  exact owns_iff.mpr ⟨change i s, hget⟩

theorem owns_of_buffers_eq (hlead : m'.lead = m.lead) (hslots : m'.slots = m.slots)
    (hpos : m'.locateWindow? = m.locateWindow?) (ho : m.Owns row col) : m'.Owns row col := by
  rw [Owns, slotOf?, hpos] at *
  rcases hp : m.locateWindow? row col with _ | ⟨w, t⟩ <;> rw [hp] at ho
  · exact ho
  · rw [Option.bind_some, slotAt?_of_buffers_eq hlead hslots]
    exact ho

theorem Sound.owns_trim (h : m.Sound) (ho : m.Owns row col) : m.trim.Owns row col := by
  obtain ⟨w, t, hp, hw, -⟩ := exists_locateWindow? ho.inShape
  have hp' : m.trim.locateWindow? row col = some (w, t) := hp
  rw [Owns, slotOf?_eq hp', slotAt?, h.window_trim hw, ← slotAt?, ← slotOf?_eq hp]
  exact ho

/-! ## Writing in place -/

/-- `m'` has the topology of `m`: the same offsets, and the same index in every slot. -/
structure SameTopology (m m' : Matrix α) : Prop where
  lead : m'.lead = m.lead
  indices : m'.slots.map Slot.index = m.slots.map Slot.index

theorem SameTopology.capacity (h : m.SameTopology m') : m'.capacity = m.capacity := by
  have := congrArg Array.size h.indices
  rwa [Array.size_map, Array.size_map] at this

theorem Revalued.sameTopology {change : Nat → Slot α → Slot α} (r : m.Revalued m' change) :
    m.SameTopology m' := by
  refine ⟨r.lead, Array.ext_getElem? fun i => ?_⟩
  rw [Array.getElem?_map, Array.getElem?_map, r.slots, Option.map_map]
  congr 1
  funext s
  exact r.index i s

/-- `m'` comes from `m` by changes in place: no slot has moved, and nothing has been counted. -/
structure InPlace (m m' : Matrix α) : Prop extends SameTopology m m' where
  shifts : m'.shifts = m.shifts
  growths : m'.growths = m.growths
  compressed : m'.compressed = m.compressed

theorem InPlace.refl (m : Matrix α) : m.InPlace m := ⟨⟨rfl, rfl⟩, rfl, rfl, rfl⟩

theorem InPlace.trans {m'' : Matrix α} (h : m.InPlace m') (h' : m'.InPlace m'') : m.InPlace m'' :=
  ⟨⟨h'.lead.trans h.lead, h'.indices.trans h.indices⟩, h'.shifts.trans h.shifts,
    h'.growths.trans h.growths, h'.compressed.trans h.compressed⟩

section

variable [Scalar α]

/-- No write takes a slot away, and under the lock the written position has one afterwards. -/
theorem Sound.owns_set (h : m.Sound) (row col : Int) (x : α) (overwrite : Bool)
    (ho : m.Owns row' col') : (m.set row col x overwrite).2.Owns row' col' := by
  by_cases hin : m.InShape row col
  · rw [Owns, h.slotOf?_set hin]
    split_ifs with hown
    · obtain ⟨rfl, rfl⟩ := hown
      obtain ⟨w, t, hp, -⟩ := exists_locateWindow? hin
      obtain ⟨s, hs⟩ := owns_iff.mp ho
      rw [hp, hs]
      rfl
    · exact ho
  · rw [set_of_not_inShape hin]
    exact ho

/-- A write at an owned position hits its slot. -/
theorem Sound.inPlace_set (h : m.Sound) (ho : m.Owns row col) (x : α) (overwrite : Bool) :
    m.InPlace (m.set row col x overwrite).2 := by
  obtain ⟨w, t, hp, hw, ht, -⟩ := exists_locateWindow? ho.inShape
  rw [Owns, slotOf?_eq hp, h.slotAt?_of_locate hw ht] at ho
  rw [h.set_eq hp]
  rcases h.write_eq hw t x overwrite with ⟨i, hplace, heq⟩ | ⟨hnew, -⟩ | ⟨hnew, -⟩
  · rw [heq]
    exact ⟨(h.revalued_refill hw ht x overwrite hplace).sameTopology, rfl, rfl, rfl⟩
  all_goals
    cases hplace : m.locate w t with
    | found i => exact absurd hplace (hnew i)
    | vacant i => rw [hplace] at ho; cases ho
    | crowded i => rw [hplace] at ho; cases ho

/-- Writes take no slots away, also where one of them is refused. -/
theorem Sound.owns_writeAll (h : m.Sound) (writes : List (Write α)) (ho : m.Owns row col) :
    (m.writeAll writes).2.Owns row col := by
  induction writes generalizing m with
  | nil => exact ho
  | cons w ws ih =>
    have hset := h.set w.row w.col w.value w.overwrite
    have hnext := h.owns_set w.row w.col w.value w.overwrite ho
    rw [Matrix.writeAll]
    rcases hout : m.set w.row w.col w.value w.overwrite with ⟨_ | e, next⟩ <;>
      rw [hout] at hset hnext
    · exact ih hset hnext
    · exact hnext

/-- Writes at owned positions are made in place, whatever their values. -/
theorem Sound.inPlace_writeAll (h : m.Sound) {writes : List (Write α)}
    (ho : ∀ w ∈ writes, m.Owns w.row w.col) : m.InPlace (m.writeAll writes).2 := by
  induction writes generalizing m with
  | nil => exact InPlace.refl m
  | cons w ws ih =>
    have hset := h.set w.row w.col w.value w.overwrite
    have hplace := h.inPlace_set (ho w (List.mem_cons_self ..)) w.value w.overwrite
    have hnext : ∀ w' ∈ ws, (m.set w.row w.col w.value w.overwrite).2.Owns w'.row w'.col :=
      fun w' hw' => h.owns_set _ _ _ _ (ho w' (List.mem_cons_of_mem _ hw'))
    rw [Matrix.writeAll]
    rcases hout : m.set w.row w.col w.value w.overwrite with ⟨_ | e, next⟩ <;>
      rw [hout] at hset hplace hnext
    · exact hplace.trans (ih hset hnext)
    · exact hplace

theorem Sound.sameFrame_accumulate (h : m.Sound) (other : Matrix α) (negated : Bool) :
    m.SameFrame (m.accumulate other negated).2 := by
  rw [Matrix.accumulate]
  split
  · exact SameFrame.refl m
  · split
    · exact SameFrame.refl m
    · exact (h.writeAll _).2

theorem Sound.owns_accumulate (h : m.Sound) (other : Matrix α) (negated : Bool)
    (ho : m.Owns row col) : (m.accumulate other negated).2.Owns row col := by
  rw [Matrix.accumulate]
  split
  · exact ho
  · split
    · exact ho
    · exact h.owns_writeAll _ ho

/-! ## Compression and resets under the lock -/

/-- Under the lock compression keeps every slot. -/
theorem Sound.owns_compress (h : m.Sound) (hlock : m.locked = true) (ho : m.Owns row col) :
    m.compress.1.Owns row col := by
  obtain ⟨w, t, hp, hw, ht, -⟩ := exists_locateWindow? ho.inShape
  have hp' : m.compress.1.locateWindow? row col = some (w, t) := hp
  obtain ⟨s, hs⟩ := owns_iff.mp ho
  have hkeep : survives m.locked s = true := by
    rw [survives, isHole_of_slotOf? hs, hlock]
    rfl
  rw [slotOf?_eq hp] at hs
  rw [Owns, slotOf?_eq hp', h.slotAt?_compress hw ht, hs, Option.filter_some, if_pos hkeep]
  rfl

/-- A reset to the same shape finds the slots of an unbroken lock again. -/
theorem reset_of_locked (hlock : m.locked = true) (hbroken : m.lockBroken = false) (hint : Int) :
    m.reset m.rows m.cols hint =
      .ok { m with slots := m.slots.map Slot.cleared, compressed := false } := by
  rw [Matrix.reset, if_neg (by omega), if_pos]
  exact ⟨hlock, by rw [hbroken]; rfl, rfl, rfl⟩

/-- A reset of a broken lock gives fresh buffers. -/
theorem reset_of_lockBroken (hbroken : m.lockBroken = true) (hint : Int) :
    ∃ next, m.reset m.rows m.cols hint = .ok next ∧ ∀ s ∈ next.slots, s = Slot.free := by
  have hunlocked : ¬(m.locked ∧ !m.lockBroken ∧ (m.rows : Int) = m.rows ∧
      (m.cols : Int) = m.cols) := by
    rintro ⟨-, hunbroken, -⟩
    rw [hbroken] at hunbroken
    cases hunbroken
  rw [Matrix.reset, if_neg (by omega), if_neg hunlocked]
  refine ⟨_, rfl, fun s hs => ?_⟩
  rw [withFreshBuffers, Array.mem_replicate] at hs
  exact hs.2

/-- A locked reset keeps the topology and makes every position read zero. -/
theorem Sound.reset_locked (h : m.Sound) (hlock : m.locked = true) (hbroken : m.lockBroken = false)
    (hint : Int) :
    ∃ next, m.reset m.rows m.cols hint = .ok next ∧ m.SameTopology next ∧
      ∀ row col, m.InShape row col → next.get row col = .ok 0 := by
  have r := revalued_cleared m
  refine ⟨_, reset_of_locked hlock hbroken hint, r.sameTopology, fun row col hin => ?_⟩
  rw [(r.sound h).get_eq (r.frame.inShape.mpr hin), h.valueAt_cleared]

end

end Matrix

/-! ## Runs under the lock -/

/-- An action that is no reason for a locked matrix of the given shape to give up slots: anything
but a prune, a load, a reset to another shape, or taking the lock off. -/
def Action.KeepsTopology (rows cols : Nat) : Action α → Prop
  | .reset r c _ => r = rows ∧ c = cols
  | .lock on => on = true
  | .prune _ | .load _ => False
  | _ => True

theorem Action.KeepsTopology.inRange {rows cols : Nat} {a : Action α}
    (h : a.KeepsTopology rows cols) : a.InRange := by
  cases a with
  | load pattern => exact h.elim
  | _ => exact True.intro

/-- An action that does not exchange the buffers for new ones. -/
def Action.KeepsBuffers : Action α → Prop
  | .reset .. | .load _ => False
  | _ => True

theorem Action.KeepsBuffers.inRange {a : Action α} (h : a.KeepsBuffers) : a.InRange := by
  cases a with
  | load pattern => exact h.elim
  | _ => exact True.intro

namespace Matrix

variable {m m' : Matrix α} {row col : Int}

/-- `m'` is a matrix of the shape of `m` under an unbroken lock, and every position that owns a slot
in `m` owns one in it. -/
structure Retains (m m' : Matrix α) : Prop where
  rows : m'.rows = m.rows
  cols : m'.cols = m.cols
  locked : m'.locked = true
  unbroken : m'.lockBroken = false
  owns : ∀ row col, m.Owns row col → m'.Owns row col

theorem Retains.trans {m'' : Matrix α} (h : m.Retains m') (h' : m'.Retains m'') : m.Retains m'' :=
  ⟨h'.rows.trans h.rows, h'.cols.trans h.cols, h'.locked, h'.unbroken,
    fun row col ho => h'.owns row col (h.owns row col ho)⟩

theorem SameFrame.retains (h : m.SameFrame m') (hlock : m.locked = true)
    (hbroken : m.lockBroken = false) (ho : ∀ row col, m.Owns row col → m'.Owns row col) :
    m.Retains m' :=
  ⟨h.rows, h.cols, h.locked.trans hlock, h.lockBroken.trans hbroken, ho⟩

theorem Retains.refl (hlock : m.locked = true) (hbroken : m.lockBroken = false) : m.Retains m :=
  (SameFrame.refl m).retains hlock hbroken fun _ _ ho => ho

/-- The used slots are those of the windows, one window behind another. -/
theorem Cut.usedSlots_eq (h : m.Cut) : m.usedSlots = (List.range m.leadingDim).flatMap m.window := by
  have key : ∀ k, k ≤ m.leadingDim →
      m.slots.toList.take (m.start k) = (List.range k).flatMap m.window := by
    intro k
    induction k with
    | zero => intro _; rw [h.start_zero, List.take_zero, List.range_zero, List.flatMap_nil]
    | succ k ih =>
      intro hk
      have hle := h.start_le_succ k (by omega)
      rw [List.range_succ, List.flatMap_append, ← ih (by omega), List.flatMap_singleton, window,
        Array.toList_extract, List.extract_eq_take_drop, ← List.take_add,
        Nat.add_sub_cancel' hle]
  rw [usedSlots, h.usedCount_eq, key _ (Nat.le_refl _)]

variable [Scalar α]

/-- Under an unbroken lock an action takes no slot away. -/
theorem Sound.retains_perform (h : m.Sound) (hlock : m.locked = true)
    (hbroken : m.lockBroken = false) {a : Action α} (ha : a.KeepsTopology m.rows m.cols) :
    m.Retains (m.perform a).matrix := by
  cases a with
  | write w =>
    exact (h.sameFrame_set w.row w.col w.value w.overwrite).retains hlock hbroken
      fun _ _ => h.owns_set _ _ _ _
  | reset rows cols hint =>
    obtain ⟨rfl, rfl⟩ := ha
    have r := revalued_cleared m
    rw [Matrix.perform, reset_of_locked hlock hbroken]
    exact r.frame.retains hlock hbroken fun _ _ => r.owns h
  | compress =>
    rw [Matrix.perform, compress?, if_pos h.isCut]
    exact (sameFrame_rebuild m _).retains hlock hbroken fun _ _ => h.owns_compress hlock
  | prune threshold => exact ha.elim
  | trim =>
    rw [Matrix.perform, trim?, if_pos h.isCut]
    exact ⟨rfl, rfl, hlock, hbroken, fun _ _ => h.owns_trim⟩
  | lock on => exact ⟨rfl, rfl, ha, hbroken, fun _ _ => owns_of_buffers_eq rfl rfl rfl⟩
  | boundShifts bound =>
    rcases bound with _ | b
    · exact ⟨rfl, rfl, hlock, hbroken, fun _ _ => owns_of_buffers_eq rfl rfl rfl⟩
    · rw [Matrix.perform, setShiftBound]
      split_ifs
      · exact Retains.refl hlock hbroken
      · exact ⟨rfl, rfl, hlock, hbroken, fun _ _ => owns_of_buffers_eq rfl rfl rfl⟩
  | load pattern => exact ha.elim
  | accumulate other negated =>
    exact (h.sameFrame_accumulate other negated).retains hlock hbroken
      fun _ _ => h.owns_accumulate other negated
  | accumulateSelf negated =>
    exact (h.sameFrame_accumulate m negated).retains hlock hbroken
      fun _ _ => h.owns_accumulate m negated
  | scale factor =>
    have r := revalued_scaleBy m factor
    exact r.frame.retains hlock hbroken fun _ _ => r.owns h
  | map f rowSpan colSpan =>
    have r := revalued_mapValues m f rowSpan colSpan
    rw [Matrix.perform, mapValues?, if_pos h.isCut]
    exact r.frame.retains hlock hbroken fun _ _ => r.owns h

/-- Nor does a run of actions. -/
theorem Sound.retains_performAll (h : m.Sound) (hlock : m.locked = true)
    (hbroken : m.lockBroken = false) {actions : List (Action α)}
    (ha : ∀ a ∈ actions, a.KeepsTopology m.rows m.cols) :
    (m.performAll actions).Sound ∧ m.Retains (m.performAll actions) := by
  induction actions generalizing m with
  | nil => exact ⟨h, Retains.refl hlock hbroken⟩
  | cons a as ih =>
    have hfirst := ha a (List.mem_cons_self ..)
    have hstep := h.retains_perform hlock hbroken hfirst
    have hrest : ∀ a' ∈ as, a'.KeepsTopology (m.perform a).matrix.rows (m.perform a).matrix.cols := by
      intro a' ha'
      rw [hstep.rows, hstep.cols]
      exact ha a' (List.mem_cons_of_mem _ ha')
    obtain ⟨hsound, hrun⟩ := ih (h.perform a hfirst.inRange) hstep.locked hstep.unbroken hrest
    exact ⟨hsound, hstep.trans hrun⟩

/-! ## Broken locks -/

theorem length_gathered_le (kept : List (Slot α)) : (gathered kept).length ≤ kept.length := by
  rw [gathered, List.length_map]
  exact Nat.le_trans (length_distinctSorted_le _) (Nat.le_of_eq (List.length_map _))

/-- A rebuild from which a position comes out without its slot has fewer slots than before. -/
theorem Sound.losesSlots_of_not_owns (h : m.Sound) {keep : Slot α → Bool}
    (hkeep : ∀ s, keep s = true → s.isHole = false) (ho : m.Owns row col)
    (hlost : ¬(m.rebuild keep).1.Owns row col) :
    m.losesSlots (m.gatheredWindows keep).flatten = true := by
  obtain ⟨w, t, hp, hw, ht, -⟩ := exists_locateWindow? ho.inShape
  have hp' : (m.rebuild keep).1.locateWindow? row col = some (w, t) := hp
  obtain ⟨s, hs⟩ := owns_iff.mp ho
  have hhole := isHole_of_slotOf? hs
  rw [slotOf?_eq hp] at hs
  have hdropped : keep s = false := by
    rw [not_owns_iff, slotOf?_eq hp', h.slotAt?_rebuild hkeep hw ht, hs, Option.map_eq_none_iff,
      Option.filter_some] at hlost
    split at hlost
    · cases hlost
    · rename_i hk
      exact Bool.not_eq_true _ ▸ hk
  -- what is kept of a window is a part of its entries
  have hpart : ∀ v, (m.window v).filter keep = ((m.window v).filter (!·.isHole)).filter keep := by
    intro v
    rw [List.filter_filter]
    refine List.filter_congr fun a _ => ?_
    cases hk : keep a
    · rfl
    · rw [hkeep a hk]
      rfl
  rw [losesSlots, decide_eq_true_eq, h.cut.usedSlots_eq, List.length_flatten, gatheredWindows,
    List.map_map, List.countP_flatMap]
  refine List.sum_lt_sum _ _ (fun v _ => ?_) ⟨w, List.mem_range.mpr hw, ?_⟩
  · refine Nat.le_trans (length_gathered_le _) ?_
    rw [hpart, Function.comp_apply, List.countP_eq_length_filter]
    exact List.length_filter_le _ _
  · refine Nat.lt_of_le_of_lt (length_gathered_le _) ?_
    rw [hpart, Function.comp_apply, List.countP_eq_length_filter,
      List.length_filter_lt_length_iff_exists]
    refine ⟨s, List.mem_filter.mpr ⟨(mem_of_slotAt? hs).1, by rw [hhole]; rfl⟩, ?_⟩
    rw [hdropped]
    decide

/-- A prune that takes a slot from a locked matrix breaks the lock. -/
theorem Sound.lockBroken_prune (h : m.Sound) (hlock : m.locked = true) {threshold : α}
    (ho : m.Owns row col) (hlost : ¬(m.perform (.prune threshold)).matrix.Owns row col) :
    (m.perform (.prune threshold)).matrix.lockBroken = true := by
  rw [Matrix.perform, prune, if_pos h.isCut] at hlost ⊢
  split_ifs at hlost ⊢
  · exact absurd ho hlost
  · have hkept : ¬(m.rebuild (outlasts threshold)).1.Owns row col :=
      fun hown => hlost (owns_of_buffers_eq rfl rfl rfl hown)
    have hloses := h.losesSlots_of_not_owns (fun _ => isHole_of_outlasts) ho hkept
    show (m.lockBroken || (m.locked && m.losesSlots _)) = true
    rw [hlock, hloses, Bool.and_self, Bool.or_true]

/-- A broken lock stays broken, and the shape stays, until the buffers are exchanged. -/
theorem Sound.lockBroken_perform (h : m.Sound) (hbroken : m.lockBroken = true) {a : Action α}
    (ha : a.KeepsBuffers) :
    (m.perform a).matrix.lockBroken = true ∧ (m.perform a).matrix.rows = m.rows ∧
      (m.perform a).matrix.cols = m.cols := by
  have hframe : ∀ {m' : Matrix α}, m.SameFrame m' →
      m'.lockBroken = true ∧ m'.rows = m.rows ∧ m'.cols = m.cols :=
    fun hf => ⟨hf.lockBroken.trans hbroken, hf.rows, hf.cols⟩
  cases a with
  | write w => exact hframe (h.sameFrame_set w.row w.col w.value w.overwrite)
  | reset rows cols hint => exact ha.elim
  | compress =>
    rw [Matrix.perform, compress?, if_pos h.isCut]
    exact hframe (sameFrame_rebuild m _)
  | prune threshold =>
    rw [Matrix.perform, prune, if_pos h.isCut]
    split_ifs
    · exact hframe (SameFrame.refl m)
    · refine ⟨?_, rfl, rfl⟩
      show (m.lockBroken || (m.locked && m.losesSlots _)) = true
      rw [hbroken, Bool.true_or]
  | trim =>
    rw [Matrix.perform, trim?, if_pos h.isCut]
    exact ⟨hbroken, rfl, rfl⟩
  | lock on => exact ⟨hbroken, rfl, rfl⟩
  | boundShifts bound =>
    rcases bound with _ | b
    · exact ⟨hbroken, rfl, rfl⟩
    · rw [Matrix.perform, setShiftBound]
      split_ifs
      · exact hframe (SameFrame.refl m)
      · exact ⟨hbroken, rfl, rfl⟩
  | load pattern => exact ha.elim
  | accumulate other negated => exact hframe (h.sameFrame_accumulate other negated)
  | accumulateSelf negated => exact hframe (h.sameFrame_accumulate m negated)
  | scale factor => exact hframe (revalued_scaleBy m factor).frame
  | map f rowSpan colSpan =>
    rw [Matrix.perform, mapValues?, if_pos h.isCut]
    exact hframe (revalued_mapValues m f rowSpan colSpan).frame

theorem Sound.lockBroken_performAll (h : m.Sound) (hbroken : m.lockBroken = true)
    {actions : List (Action α)} (ha : ∀ a ∈ actions, a.KeepsBuffers) :
    (m.performAll actions).lockBroken = true ∧ (m.performAll actions).rows = m.rows ∧
      (m.performAll actions).cols = m.cols := by
  induction actions generalizing m with
  | nil => exact ⟨hbroken, rfl, rfl⟩
  | cons a as ih =>
    have hfirst := ha a (List.mem_cons_self ..)
    obtain ⟨hstill, hrows, hcols⟩ := h.lockBroken_perform hbroken hfirst
    obtain ⟨hend, hrows', hcols'⟩ := ih (h.perform a hfirst.inRange) hstill
      fun a' ha' => ha a' (List.mem_cons_of_mem _ ha')
    exact ⟨hend, hrows'.trans hrows, hcols'.trans hcols⟩

/-! ## The lock -/

/-- What the lock promises. Take a matrix that obeys the storage rules, under an unbroken lock, and
what it has become after any run of actions that give no reason to give up slots.
The matrix then still obeys the rules and is under an unbroken lock, and no position has lost its
slot on the way. A reset to the same shape keeps offsets and indices as they are, in every slot, and
all positions read zero. Writes at owned positions, of whatever values, move nothing. A prune that
takes a slot has lasting consequences: whatever is done then short of exchanging the buffers, the
next reset to the same shape starts from free slots only. -/
theorem locked_topology (m : Matrix α) (h : m.verify = 0) (hlock : m.locked = true)
    (hbroken : m.lockBroken = false) (actions : List (Action α))
    (ha : ∀ a ∈ actions, a.KeepsTopology m.rows m.cols) :
    ((m.performAll actions).verify = 0 ∧ m.Retains (m.performAll actions)) ∧
    (∀ hint, ∃ next, (m.performAll actions).reset m.rows m.cols hint = .ok next ∧
      (m.performAll actions).SameTopology next ∧
      ∀ row col, m.InShape row col → next.get row col = .ok 0) ∧
    (∀ writes : List (Write α), (∀ w ∈ writes, (m.performAll actions).Owns w.row w.col) →
      ((m.performAll actions).writeAll writes).1 = none ∧
      (m.performAll actions).InPlace ((m.performAll actions).writeAll writes).2 ∧
      ((m.performAll actions).writeAll writes).2.capacity = (m.performAll actions).capacity) ∧
    (∀ threshold row col, (m.performAll actions).Owns row col →
      ¬((m.performAll actions).perform (.prune threshold)).matrix.Owns row col →
      ∀ later : List (Action α), (∀ a ∈ later, a.KeepsBuffers) → ∀ hint, ∃ next,
        (((m.performAll actions).perform (.prune threshold)).matrix.performAll later).reset
          m.rows m.cols hint = .ok next ∧ ∀ s ∈ next.slots, s = Slot.free) := by
  have hsound := verify_eq_zero_iff.mp h
  obtain ⟨hrun, hkept⟩ := hsound.retains_performAll hlock hbroken ha
  refine ⟨⟨verify_eq_zero_iff.mpr hrun, hkept⟩, fun hint => ?_, fun writes hw => ?_, ?_⟩
  · obtain ⟨next, hreset, htop, hzero⟩ := hrun.reset_locked hkept.locked hkept.unbroken hint
    rw [hkept.rows, hkept.cols] at hreset
    refine ⟨next, hreset, htop, fun row col hin => hzero row col ?_⟩
    rwa [InShape, hkept.rows, hkept.cols]
  · have hplace := hrun.inPlace_writeAll hw
    exact ⟨hrun.writeAll_fault fun w hw' => (hw w hw').inShape, hplace, hplace.capacity⟩
  · intro threshold row col ho hlost later hlater hint
    have hpruned := hrun.perform (.prune threshold) True.intro
    have hbreak := hrun.lockBroken_prune hkept.locked ho hlost
    obtain ⟨hstill, hrows, hcols⟩ := hpruned.lockBroken_performAll hbreak hlater
    have hshape : ((m.performAll actions).perform (.prune threshold)).matrix.rows = m.rows ∧
        ((m.performAll actions).perform (.prune threshold)).matrix.cols = m.cols := by
      rw [Matrix.perform, prune, if_pos hrun.isCut]
      split_ifs <;> exact ⟨hkept.rows, hkept.cols⟩
    obtain ⟨next, hreset, hfree⟩ := reset_of_lockBroken hstill hint
    rw [hrows, hcols, hshape.1, hshape.2] at hreset
    exact ⟨next, hreset, hfree⟩

end Matrix

/-- A row of two positions under the lock: a one is stored, the other position is reserved. -/
def lockedPair : Matrix ℚ :=
  { rows := 1, cols := 2, orientation := .byRows
    lead := #[0, 2], slots := #[⟨0, 1, true⟩, ⟨1, 0, false⟩]
    shiftBound := none, locked := true, lockBroken := false, compressed := false
    shifts := 0, growths := #[] }

/-- A sum, a multiple, a compression and a reset, with a write between them. -/
def turnover : List (Action ℚ) :=
  [.accumulateSelf false, .scale 3, .compress, .reset 1 2 7, .write ⟨0, 0, 5, true⟩, .trim]

/-- Along these actions the reserved position keeps its slot. Pruning takes it away, and after that
taking the lock off and on again does not bring it back. -/
theorem locked_topology_turnover :
    (lockedPair.verify = 0 ∧ lockedPair.locked = true ∧ lockedPair.lockBroken = false ∧
      ∀ a ∈ turnover, a.KeepsTopology lockedPair.rows lockedPair.cols) ∧
    (lockedPair.performAll turnover).Owns 0 1 ∧
    ∃ next, (((lockedPair.performAll turnover).perform (.prune 1)).matrix.performAll
      [.lock false, .lock true]).reset 1 2 0 = .ok next ∧ ∀ s ∈ next.slots, s = Slot.free := by
  have hverify : lockedPair.verify = 0 := by decide +kernel
  have hactions : ∀ a ∈ turnover, a.KeepsTopology lockedPair.rows lockedPair.cols := by
    intro a ha
    simp only [turnover, List.mem_cons, List.not_mem_nil, or_false] at ha
    rcases ha with rfl | rfl | rfl | rfl | rfl | rfl
    · exact True.intro
    · exact True.intro
    · exact True.intro
    · exact ⟨rfl, rfl⟩
    · exact True.intro
    · exact True.intro
  obtain ⟨⟨-, hkept⟩, -, -, hpruned⟩ :=
    lockedPair.locked_topology hverify rfl rfl turnover hactions
  have howns : (lockedPair.performAll turnover).Owns 0 1 := hkept.owns 0 1 (by decide +kernel)
  refine ⟨⟨hverify, rfl, rfl, hactions⟩, howns, ?_⟩
  refine hpruned 1 0 1 howns (by decide +kernel) _ (fun a ha => ?_) 0
  simp only [List.mem_cons, List.not_mem_nil, or_false] at ha
  rcases ha with rfl | rfl <;> exact True.intro

end CentralPath.Sparse
