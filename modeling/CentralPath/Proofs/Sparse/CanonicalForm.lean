/-
  Rebuilding from any window contents. `Sound.rebuild` starts from windows in order; here a window
  may be unsorted, hold an index several times, mix live and reserved slots and have holes anywhere.
  All that is asked is that the offsets cut the buffers and that every index is that of a hole or in
  range (`Indexed`).

  What such a matrix says about a position are the slots of its index (`slotsOf`). A rebuild joins
  them into one live slot, or into none (`Indexed.slotsOf_rebuild`), so the result `Stores` a set of
  positions with their sums and nothing else. Offsets and used slots follow from what is stored
  (`Stores.ext`): this is why compression and pruning reach the same buffers from all
  representations. The report of a change looks at the slots alone; that it misses no change of the
  offsets is `Cut.window_eq_of_flatten_eq`.
-/
import CentralPath.Proofs.Sparse.Learning

namespace CentralPath.Sparse

variable {K : Type} [Field K] {kept : List (Slot K)} {t : Int}

/-! ## Sums -/

theorem foldl_gather (kept : List (Slot K)) (t : Int) (sum : K) :
    kept.foldl (fun sum s => if s.index = t then sum + s.reading else sum) sum =
      sum + ((kept.filter (·.index == t)).map Slot.reading).sum := by
  rw [Matrix.foldl_add_ite kept (fun s => s.index = t) Slot.reading sum, Matrix.sum_map_filter]
  simp only [beq_iff_eq]

section

variable [LinearOrder K]

theorem gatheredValue_eq_sum (kept : List (Slot K)) (t : Int) :
    gatheredValue kept t = ((kept.filter (·.index == t)).map Slot.reading).sum := by
  rw [gatheredValue, foldl_gather, zero_add]

/-- Gathering leaves one slot of an index, or none. -/
theorem filter_gathered (kept : List (Slot K)) (t : Int) :
    (gathered kept).filter (·.index == t) =
      if t ∈ kept.map Slot.index then [⟨t, gatheredValue kept t, true⟩] else [] := by
  have hindex : ((fun s : Slot K => s.index == t) ∘ fun t => ⟨t, gatheredValue kept t, true⟩) =
      fun u => u == t := rfl
  rw [gathered, List.filter_map, hindex, filter_distinctSorted, apply_ite (List.map _)]
  rfl

end

/-- What survives compression contributes its live values, locked or not. -/
theorem sum_reading_survives {slots : List (Slot K)} (h : ∀ s ∈ slots, s.isHole = false)
    (locked : Bool) :
    ((slots.filter (survives locked)).map Slot.reading).sum =
      ((slots.filter (·.live)).map Slot.value).sum := by
  induction slots with
  | nil => rfl
  | cons s l ih =>
    have hhole := h s (List.mem_cons_self ..)
    have ih := ih fun s hs => h s (List.mem_cons_of_mem _ hs)
    cases hlive : s.live <;> cases locked <;>
      simpa [survives, hhole, hlive, Slot.reading] using ih

/-- No other slot of a window in order has the index of an entry. -/
theorem InOrder.filter_index {α : Type} {bound : Nat} {slots : List (Slot α)} {s : Slot α}
    (h : InOrder bound slots) (hs : s ∈ slots) (hhole : s.isHole = false) :
    slots.filter (·.index == s.index) = [s] := by
  obtain ⟨before, behind, rfl⟩ := List.append_of_mem hs
  obtain ⟨-, hbehind, hbefore⟩ := List.pairwise_append.mp h.ordered
  rw [List.pairwise_cons] at hbehind
  have hbefore' : before.filter (·.index == s.index) = [] := by
    refine List.filter_eq_nil_iff.mpr fun a ha hindex => ?_
    have := (hbefore a ha s (List.mem_cons_self ..)).index_lt hhole
    exact absurd (beq_iff_eq.mp hindex) (Int.ne_of_lt this)
  have hbehind' : behind.filter (·.index == s.index) = [] := by
    refine List.filter_eq_nil_iff.mpr fun b hb hindex => ?_
    have hindex := beq_iff_eq.mp hindex
    have hhole' : b.isHole = false := by
      rwa [Slot.isHole_eq_false_iff, hindex, ← Slot.isHole_eq_false_iff]
    exact absurd hindex (Int.ne_of_gt ((hbehind.1 b hb).index_lt hhole'))
  rw [List.filter_append, List.filter_cons_of_pos (by simp), hbefore', hbehind', List.nil_append]

namespace Matrix

variable {α : Type} {m m' : Matrix α} {row col : Int} {w : Nat} {s : Slot α}

/-! ## Unordered windows -/

/-- The offsets cut the buffers, and a used slot is a hole or has an index in range. Nothing is
said about order, repetition, holes or what is live. -/
structure Indexed (m : Matrix α) : Prop where
  cut : m.isCut = true
  fits : ∀ s ∈ m.usedSlots, hole ≤ s.index ∧ s.index < m.trailingDim

theorem Indexed.window_fits (h : m.Indexed) (hw : w < m.leadingDim) (hs : s ∈ m.window w) :
    hole ≤ s.index ∧ s.index < m.trailingDim :=
  h.fits s ((isCut_iff.mp h.cut).mem_usedSlots.mpr ⟨w, hw, hs⟩)

theorem Sound.indexed (h : m.Sound) : m.Indexed := by
  refine ⟨h.isCut, fun s hs => ?_⟩
  obtain ⟨w, hw, hmem⟩ := h.cut.mem_usedSlots.mp hs
  have hfits := (h.inOrder w hw).fits s hmem
  exact ⟨hfits.index_ge, hfits.index_lt⟩

/-- The slots of a position in storage order. -/
def slotsOf (m : Matrix α) (row col : Int) : List (Slot α) :=
  match m.locateWindow? row col with
  | none => []
  | some (w, t) => (m.window w).filter (·.index == t)

theorem slotsOf_eq {t : Int} (h : m.locateWindow? row col = some (w, t)) :
    m.slotsOf row col = (m.window w).filter (·.index == t) := by
  rw [slotsOf, h]

theorem slotsOf_of_not_inShape (h : ¬m.InShape row col) : m.slotsOf row col = [] := by
  rw [slotsOf, locateWindow?_of_not_inShape h]

/-- A position that compression keeps: it has a live slot or, under the lock, any slot. -/
def Keeps (m : Matrix α) (row col : Int) : Prop :=
  ∃ s ∈ m.slotsOf row col, m.locked = true ∨ s.live = true

instance (m : Matrix α) (row col : Int) : Decidable (m.Keeps row col) :=
  inferInstanceAs (Decidable (∃ s ∈ m.slotsOf row col, _))

/-- The sum of the live values of a position. -/
def liveSum [Add α] [Zero α] (m : Matrix α) (row col : Int) : α :=
  (((m.slotsOf row col).filter (·.live)).map Slot.value).sum

/-- In sound buffers a position has one slot at most. -/
theorem Sound.slotsOf_eq (h : m.Sound) (row col : Int) :
    m.slotsOf row col = (m.slotOf? row col).toList := by
  by_cases hin : m.InShape row col
  · obtain ⟨w, t, hp, hw, ht, -⟩ := exists_locateWindow? hin
    rw [Matrix.slotsOf_eq hp, slotOf?_eq hp]
    cases hs : m.slotAt? w t with
    | none =>
      refine List.filter_eq_nil_iff.mpr fun s hs' hindex => ?_
      exact slotAt?_eq_none_iff.mp hs s hs' (beq_iff_eq.mp hindex)
    | some s =>
      obtain ⟨hmem, rfl⟩ := mem_of_slotAt? hs
      have hhole : s.isHole = false := Slot.isHole_eq_false_iff.mpr (by omega)
      exact (h.inOrder w hw).filter_index hmem hhole
  · rw [slotsOf_of_not_inShape hin, slotOf?, locateWindow?_of_not_inShape hin]
    rfl

/-! ## What is stored -/

/-- The buffers store the given values at the given positions: each position in one live slot, no
other slot in use, and free slots behind the used ones. -/
structure Stores [Zero α] (m : Matrix α) (positions : Int → Int → Prop) (value : Int → Int → α) :
    Prop where
  stored : ∀ row col, positions row col →
    ∃ s, m.slotsOf row col = [s] ∧ s.live = true ∧ s.value = value row col
  other : ∀ row col, ¬positions row col → m.slotsOf row col = []
  filled : ∀ s ∈ m.usedSlots, s.isHole = false
  padded : m.slots.toList =
    m.usedSlots ++ List.replicate (m.capacity - m.usedSlots.length) Slot.free

theorem mem_slotsOf {t : Int} (h : m.locateWindow? row col = some (w, t)) :
    s ∈ m.slotsOf row col ↔ s ∈ m.window w ∧ s.index = t := by
  rw [slotsOf_eq h, List.mem_filter, beq_iff_eq]

/-- A used slot is a slot of some position. -/
theorem Sound.exists_mem_slotsOf (h : m.Sound) (hw : w < m.leadingDim) (hs : s ∈ m.window w)
    (hhole : s.isHole = false) :
    ∃ row col, m.locateWindow? row col = some (w, s.index) ∧ s ∈ m.slotsOf row col := by
  obtain ⟨row, col, hp, -⟩ := h.exists_slotOf? hw hs hhole
  exact ⟨row, col, hp, (mem_slotsOf hp).mpr ⟨hs, rfl⟩⟩

section

variable [Zero α] {positions positions' : Int → Int → Prop} {value value' : Int → Int → α}

theorem Stores.congr (h : m.Stores positions value)
    (hpositions : ∀ row col, positions row col ↔ positions' row col)
    (hvalue : ∀ row col, positions row col → value row col = value' row col) :
    m.Stores positions' value' := by
  refine ⟨fun row col hpos => ?_, fun row col hpos => ?_, h.filled, h.padded⟩
  · obtain ⟨s, hs, hlive, hval⟩ := h.stored row col ((hpositions row col).mpr hpos)
    exact ⟨s, hs, hlive, hval.trans (hvalue row col ((hpositions row col).mpr hpos))⟩
  · exact h.other row col (mt (hpositions row col).mp hpos)

/-- The slots of a position follow from what is stored. -/
theorem Stores.mem_window (h : m.Stores positions value) (h' : m'.Stores positions value)
    (hsound : m.Sound) (hpos : m'.locateWindow? = m.locateWindow?) (hw : w < m.leadingDim)
    (hs : s ∈ m.window w) : s ∈ m'.window w := by
  have hhole := h.filled s (hsound.cut.mem_usedSlots.mpr ⟨w, hw, hs⟩)
  obtain ⟨row, col, hp, hmem⟩ := hsound.exists_mem_slotsOf hw hs hhole
  by_cases hat : positions row col
  · obtain ⟨a, ha, hlive, hval⟩ := h.stored row col hat
    obtain ⟨b, hb, hlive', hval'⟩ := h'.stored row col hat
    obtain rfl : s = a := List.mem_singleton.mp (ha ▸ hmem)
    have hp' : m'.locateWindow? row col = some (w, s.index) := by rw [hpos, hp]
    obtain ⟨hmem', hindex⟩ := (mem_slotsOf hp').mp (hb ▸ List.mem_singleton_self b)
    have hsame : s = b := by
      cases s
      cases b
      simp_all
    rwa [hsame]
  · rw [h.other row col hat] at hmem
    cases hmem

/-- The windows of sound buffers without holes are in order of their indices. -/
theorem Stores.window_pairwise (h : m.Stores positions value) (hsound : m.Sound)
    (hw : w < m.leadingDim) : (m.window w).Pairwise fun a b => a.index < b.index :=
  (hsound.inOrder w hw).increasing fun s hs =>
    h.filled s (hsound.cut.mem_usedSlots.mpr ⟨w, hw, hs⟩)

end

/-- Offsets are the running totals of the windows' lengths. -/
theorem Cut.lead_eq_of_window_eq (h : m.Cut) (h' : m'.Cut) (hdim : m'.leadingDim = m.leadingDim)
    (hwindow : ∀ w, w < m.leadingDim → (m'.window w).length = (m.window w).length) :
    m'.lead = m.lead := by
  have hstart : ∀ w, w ≤ m.leadingDim → m'.start w = m.start w := by
    intro w
    induction w with
    | zero => intro _; rw [h.start_zero, h'.start_zero]
    | succ w ih =>
      intro hw
      have hlen := hwindow w hw
      have hle := h.start_le_succ w hw
      have hle' := h'.start_le_succ w (by omega)
      rw [h.length_window hw, h'.length_window (by omega)] at hlen
      have := ih (by omega)
      omega
  apply Array.ext_getElem?
  intro w
  by_cases hw : w ≤ m.leadingDim
  · rw [h.lead_eq w hw, h'.lead_eq w (by omega), hstart w hw]
  · have hsize := h.size_lead
    have hsize' := h'.size_lead
    rw [Array.getElem?_eq_none (by omega), Array.getElem?_eq_none (by omega)]

/-- Sound buffers of one shape that store the same are the same up to their capacity. -/
theorem Stores.ext [Zero α] {positions : Int → Int → Prop} {value : Int → Int → α}
    (h : m.Stores positions value) (h' : m'.Stores positions value) (hsound : m.Sound)
    (hsound' : m'.Sound) (hdim : m'.leadingDim = m.leadingDim)
    (hpos : m'.locateWindow? = m.locateWindow?) :
    m'.lead = m.lead ∧ m'.usedSlots = m.usedSlots ∧
      (m'.capacity = m.capacity → m'.slots = m.slots) := by
  have irrefl : Std.Irrefl fun a b : Slot α => a.index < b.index := ⟨fun _ => Int.lt_irrefl _⟩
  have antisymm : Std.Antisymm fun a b : Slot α => a.index < b.index :=
    ⟨fun _ _ hab hba => absurd hba (Int.lt_asymm hab)⟩
  have hwindow : ∀ w, w < m.leadingDim → m'.window w = m.window w := by
    intro w hw
    have hw' : w < m'.leadingDim := by rwa [hdim]
    refine (h'.window_pairwise hsound' hw').eq_of_mem_iff (h.window_pairwise hsound hw) fun s => ?_
    exact ⟨h'.mem_window h hsound' hpos.symm hw', h.mem_window h' hsound hpos hw⟩
  have hused : m'.usedSlots = m.usedSlots := by
    rw [hsound.cut.usedSlots_eq, hsound'.cut.usedSlots_eq, hdim]
    exact List.flatMap_congr fun w hw => hwindow w (List.mem_range.mp hw)
  refine ⟨hsound.cut.lead_eq_of_window_eq hsound'.cut hdim fun w hw => ?_, hused, fun hcap => ?_⟩
  · rw [hwindow w hw]
  · exact Array.ext' (by rw [h.padded, h'.padded, hused, hcap])

/-! ## Rebuilding -/

theorem isHole_of_mem_slotsOf (hs : s ∈ m.slotsOf row col) : s.isHole = false := by
  by_cases hin : m.InShape row col
  · obtain ⟨w, t, hp, -, ht, -⟩ := exists_locateWindow? hin
    have hindex := ((mem_slotsOf hp).mp hs).2
    exact Slot.isHole_eq_false_iff.mpr (by omega)
  · rw [slotsOf_of_not_inShape hin] at hs
    cases hs

section

variable {m m' : Matrix K} [LinearOrder K] {keep : Slot K → Bool}

theorem Indexed.sound_rebuild (h : m.Indexed) (hkeep : ∀ s, keep s = true → s.isHole = false) :
    (m.rebuild keep).1.Sound :=
  Matrix.sound_rebuild hkeep fun _ hw _ hs => h.window_fits hw hs

/-- A rebuild joins the kept slots of a position. -/
theorem slotsOf_rebuild {t : Int} (keep : Slot K → Bool)
    (hp : m.locateWindow? row col = some (w, t)) :
    (m.rebuild keep).1.slotsOf row col =
      if ∃ s ∈ m.slotsOf row col, keep s = true then
        [⟨t, (((m.slotsOf row col).filter keep).map Slot.reading).sum, true⟩]
      else [] := by
  have hp' : (m.rebuild keep).1.locateWindow? row col = some (w, t) := hp
  have hw := (range_of_locateWindow? hp).1
  have hcomm : ((m.window w).filter keep).filter (·.index == t) =
      (m.slotsOf row col).filter keep := by
    rw [slotsOf_eq hp, List.filter_filter, List.filter_filter]
    exact List.filter_congr fun s _ => Bool.and_comm ..
  have hmem : t ∈ ((m.window w).filter keep).map Slot.index ↔
      ∃ s ∈ m.slotsOf row col, keep s = true := by
    simp only [List.mem_map, List.mem_filter, mem_slotsOf hp]
    exact exists_congr fun s => and_right_comm
  rw [slotsOf_eq hp', window_rebuild keep hw, filter_gathered, gatheredValue_eq_sum, hcomm]
  simp only [hmem]

theorem Indexed.usedSlots_rebuild (h : m.Indexed) (hkeep : ∀ s, keep s = true → s.isHole = false) :
    (m.rebuild keep).1.usedSlots = (m.gatheredWindows keep).flatten := by
  rw [(h.sound_rebuild hkeep).cut.usedSlots_eq, List.flatMap_def, gatheredWindows]
  exact congrArg _ (List.map_congr_left fun w hw => window_rebuild keep (List.mem_range.mp hw))

theorem Indexed.capacity_rebuild (h : m.Indexed) (keep : Slot K → Bool) :
    (m.rebuild keep).1.capacity = m.capacity := by
  have hfit : (m.gatheredWindows keep).flatten.length ≤ m.capacity := by
    have hused : m.usedSlots.length ≤ m.capacity := by
      rw [usedSlots, List.length_take, Array.length_toList]
      exact Nat.min_le_right ..
    refine Nat.le_trans ?_ hused
    rw [(isCut_iff.mp h.cut).usedSlots_eq, gatheredWindows, ← List.flatMap_def,
      List.length_flatMap, List.length_flatMap]
    exact List.sum_le_sum fun w _ => (length_gathered_le _).trans (List.length_filter_le ..)
  rw [rebuild, withWindows, capacity, List.size_toArray, List.length_append, List.length_replicate]
  omega

/-- A rebuild stores the positions that have a kept slot, with the sums of what is kept. -/
theorem Indexed.stores_rebuild (h : m.Indexed) (hkeep : ∀ s, keep s = true → s.isHole = false) :
    (m.rebuild keep).1.Stores (fun row col => ∃ s ∈ m.slotsOf row col, keep s = true)
      fun row col => (((m.slotsOf row col).filter keep).map Slot.reading).sum := by
  have hcut := (h.sound_rebuild hkeep).cut
  have hused := h.usedSlots_rebuild hkeep
  refine ⟨fun row col hpos => ?_, fun row col hpos => ?_, fun s hs => ?_, ?_⟩
  · obtain ⟨s, hs, -⟩ := id hpos
    have hin : m.InShape row col := by
      by_contra hout
      rw [slotsOf_of_not_inShape hout] at hs
      cases hs
    obtain ⟨w, t, hp, -⟩ := exists_locateWindow? hin
    exact ⟨_, (slotsOf_rebuild keep hp).trans (if_pos hpos), rfl, rfl⟩
  · by_cases hin : m.InShape row col
    · obtain ⟨w, t, hp, -⟩ := exists_locateWindow? hin
      rw [slotsOf_rebuild keep hp, if_neg hpos]
    · exact slotsOf_of_not_inShape hin
  · obtain ⟨w, hw, hs⟩ := hcut.mem_usedSlots.mp hs
    have hw' : w < m.leadingDim := hw
    rw [window_rebuild keep hw'] at hs
    obtain ⟨⟨a, ha, hindex⟩, -⟩ := mem_gathered.mp hs
    have hhole := hkeep a (List.mem_filter.mp ha).2
    rwa [Slot.isHole_eq_false_iff, ← hindex, ← Slot.isHole_eq_false_iff]
  · rw [hused, h.capacity_rebuild]
    exact (withWindows_laidOut (length_gatheredWindows m keep)).slots_eq

/-- Compression stores the positions that it keeps with the sums of their live values. -/
theorem Indexed.stores_compress (h : m.Indexed) : m.compress.1.Stores m.Keeps m.liveSum := by
  refine (h.stores_rebuild fun _ => isHole_of_survives).congr (fun row col => ?_)
    fun row col _ => ?_
  · refine exists_congr fun s => and_congr_right fun hs => ?_
    rw [survives, isHole_of_mem_slotsOf hs, Bool.not_false, Bool.true_and, Bool.or_eq_true]
  · exact sum_reading_survives (fun s hs => isHole_of_mem_slotsOf hs) m.locked

/-- Pruning at zero stores the positions of sound buffers that read as something else. -/
theorem Sound.stores_pruned [IsStrictOrderedRing K] (h : m.Sound) :
    (m.pruned 0).1.Stores (fun row col => m.valueAt row col ≠ 0) m.valueAt := by
  have hkept : ∀ row col, ∀ s ∈ m.slotsOf row col, (outlasts 0 s = true ↔ s.reading ≠ 0) := by
    intro row col s hs
    rw [outlasts, isHole_of_mem_slotsOf hs, Slot.reading, Scalar.abs_eq]
    cases s.live <;> simp
  have hstores : (m.rebuild (outlasts 0)).1.Stores (fun row col => m.valueAt row col ≠ 0)
      m.valueAt := by
    refine (h.indexed.stores_rebuild fun _ => isHole_of_outlasts).congr (fun row col => ?_)
      fun row col hpos => ?_
    · rw [h.slotsOf_eq, valueAt]
      cases hs : m.slotOf? row col with
      | none => simp
      | some s =>
        have hmem : s ∈ m.slotsOf row col := by simp [h.slotsOf_eq, hs]
        simpa using hkept row col s hmem
    · obtain ⟨s, hs, hkeep⟩ := hpos
      rw [h.slotsOf_eq, Option.mem_toList] at hs
      rw [h.slotsOf_eq, hs, valueAt_of_slotOf? hs]
      simp [hkeep]
  exact ⟨hstores.stored, hstores.other, hstores.filled, hstores.padded⟩

/-! ## The report of a change -/

/-- Live slots differ from those before exactly when they are others. -/
theorem differs_eq_false_iff {old new : List (Slot K)} (hnew : ∀ s ∈ new, s.live = true) :
    differs old new = false ↔ new = old := by
  constructor
  · intro h
    rw [differs, Bool.or_eq_false_iff, bne_eq_false_iff_eq, List.any_eq_false] at h
    obtain ⟨hlen, hsame⟩ := h
    refine List.ext_getElem hlen.symm fun i hi hi' => ?_
    have hzip : i < (old.zip new).length := by rw [List.length_zip, hlen, Nat.min_self]; exact hi
    have hpair := hsame _ (List.getElem_mem hzip)
    have hlive := hnew _ (List.getElem_mem hi)
    rw [List.getElem_zip] at hpair
    simp only [Bool.or_eq_true, bne_iff_ne, ne_eq, Bool.not_eq_true', not_or, not_not,
      Bool.not_eq_false, Scalar.beq_iff] at hpair
    obtain ⟨⟨hindex, hvalue⟩, hold⟩ := hpair
    cases hb : new[i]
    cases ha : old[i]
    simp_all
  · rintro rfl
    exact differs_self hnew

/-- Pieces that join to the same list are the same if none of them is longer than its partner. -/
theorem eq_of_flatMap_eq {β γ : Type} {l : List β} {f g : β → List γ}
    (hle : ∀ x ∈ l, (g x).length ≤ (f x).length) (h : l.flatMap g = l.flatMap f) :
    ∀ x ∈ l, g x = f x := by
  induction l with
  | nil => exact fun x hx => absurd hx (List.not_mem_nil)
  | cons a l ih =>
    have hle' : ∀ x ∈ l, (g x).length ≤ (f x).length := fun x hx =>
      hle x (List.mem_cons_of_mem _ hx)
    have hhead := hle a (List.mem_cons_self ..)
    have htail : (l.flatMap g).length ≤ (l.flatMap f).length := by
      rw [List.length_flatMap, List.length_flatMap]
      exact List.sum_le_sum hle'
    rw [List.flatMap_cons, List.flatMap_cons] at h
    have hlen := congrArg List.length h
    rw [List.length_append, List.length_append] at hlen
    obtain ⟨hfirst, hrest⟩ := List.append_inj h (by omega)
    intro x hx
    rcases List.mem_cons.mp hx with rfl | hx
    · exact hfirst
    · exact ih hle' hrest x hx

/-- A rebuild reports a change exactly when it changes an offset or a used slot. -/
theorem Indexed.rebuild_unchanged_iff (h : m.Indexed)
    (hkeep : ∀ s, keep s = true → s.isHole = false) :
    (m.rebuild keep).2 = false ↔
      (m.rebuild keep).1.lead = m.lead ∧ (m.rebuild keep).1.usedSlots = m.usedSlots := by
  have hcut := isCut_iff.mp h.cut
  have hsound := h.sound_rebuild hkeep
  have hlive : ∀ s ∈ (m.gatheredWindows keep).flatten, s.live = true := by
    rw [← h.usedSlots_rebuild hkeep]
    intro s hs
    obtain ⟨w, hw, hs⟩ := hsound.cut.mem_usedSlots.mp hs
    exact hsound.written rfl w hw s hs
  rw [h.usedSlots_rebuild hkeep, rebuild, differs_eq_false_iff hlive, iff_and_self]
  intro hsame
  refine hcut.lead_eq_of_window_eq hsound.cut rfl fun w hw => ?_
  rw [gatheredWindows, ← List.flatMap_def, hcut.usedSlots_eq] at hsame
  have hwindow := eq_of_flatMap_eq (fun w _ => ?_) hsame w (List.mem_range.mpr hw)
  · exact congrArg List.length ((window_rebuild keep hw).trans hwindow)
  · exact (length_gathered_le _).trans (List.length_filter_le ..)

/-- Compressed buffers come out of a second compression as they are. -/
theorem Indexed.compress_compress (h : m.Indexed) :
    m.compress.1.compress = (m.compress.1, false) := by
  have hsound : m.compress.1.Sound := h.sound_rebuild fun _ => isHole_of_survives
  have hlive : ∀ s ∈ m.compress.1.usedSlots, s.live = true := by
    intro s hs
    obtain ⟨w, hw, hs⟩ := hsound.cut.mem_usedSlots.mp hs
    exact hsound.written rfl w hw s hs
  have hunchanged := hsound.compress_unchanged hlive
  have hsame := (hsound.indexed.rebuild_unchanged_iff fun _ => isHole_of_survives).mp hunchanged
  have hstored := (hsound.indexed.usedSlots_rebuild fun _ => isHole_of_survives).symm.trans hsame.2
  have hslots : m.compress.1.compress.1.slots = m.compress.1.slots := by
    apply Array.ext'
    rw [h.stores_compress.padded, ← hstored]
    rfl
  have hlead : m.compress.1.compress.1.lead = m.compress.1.lead := hsame.1
  refine Prod.ext ?_ hunchanged
  calc m.compress.1.compress.1
      = { m.compress.1 with
          lead := m.compress.1.compress.1.lead
          slots := m.compress.1.compress.1.slots } := rfl
    _ = m.compress.1 := by rw [hlead, hslots]

/-! ## The canonical form -/

/-- Compression brings every matrix of indexed windows into a canonical form, and so does pruning at
zero for sound ones.

Compression is never refused and leaves sound buffers of the same capacity, which store just the
positions it keeps with the sums of their live values. Shape, orientation and what is stored
determine offsets and used slots, and with the capacity all slots. A change is reported exactly when
an offset or a used slot changed, so a second compression reports none and returns the matrix as it
is. Sound matrices of the same shape that read the same are pruned to the same buffers. -/
theorem compress_canonical [IsStrictOrderedRing K] (m n : Matrix K) (hm : m.Indexed)
    (hn : n.Indexed) (hrows : n.rows = m.rows) (hcols : n.cols = m.cols)
    (horient : n.orientation = m.orientation) :
    m.compress? = .ok m.compress ∧ m.compress.1.verify = 0 ∧
      m.compress.1.Stores m.Keeps m.liveSum ∧ m.compress.1.capacity = m.capacity ∧
      ((∀ row col, n.Keeps row col ↔ m.Keeps row col) →
        (∀ row col, m.Keeps row col → n.liveSum row col = m.liveSum row col) →
        n.compress.1.lead = m.compress.1.lead ∧ n.compress.1.usedSlots = m.compress.1.usedSlots ∧
          (n.capacity = m.capacity → n.compress.1.slots = m.compress.1.slots)) ∧
      (m.compress.2 = true ↔
        m.compress.1.lead ≠ m.lead ∨ m.compress.1.usedSlots ≠ m.usedSlots) ∧
      m.compress.1.compress? = .ok (m.compress.1, false) ∧
      (m.verify = 0 → n.verify = 0 → (∀ row col, n.get row col = m.get row col) →
        ∃ a b, m.prune 0 = .ok a ∧ n.prune 0 = .ok b ∧ b.1.lead = a.1.lead ∧
          b.1.usedSlots = a.1.usedSlots ∧ (n.capacity = m.capacity → b.1.slots = a.1.slots)) := by
  have hpos : n.locateWindow? = m.locateWindow? := by
    funext row col
    rw [locateWindow?, locateWindow?, hrows, hcols, horient]
  have hdim : n.leadingDim = m.leadingDim := by rw [leadingDim, leadingDim, hrows, hcols, horient]
  have hsound : m.compress.1.Sound := hm.sound_rebuild fun _ => isHole_of_survives
  have hsound' : n.compress.1.Sound := hn.sound_rebuild fun _ => isHole_of_survives
  refine ⟨if_pos hm.cut, verify_eq_zero_iff.mpr hsound, hm.stores_compress, hm.capacity_rebuild _,
    fun hkeeps hsum => ?_, ?_, ?_, fun hverify hverify' hget => ?_⟩
  · have hstores := hn.stores_compress.congr hkeeps fun row col hkept =>
      hsum row col ((hkeeps row col).mp hkept)
    obtain ⟨hlead, hused, hslots⟩ := hm.stores_compress.ext hstores hsound hsound' hdim hpos
    refine ⟨hlead, hused, fun hcap => hslots ?_⟩
    exact (hn.capacity_rebuild _).trans (hcap.trans (hm.capacity_rebuild _).symm)
  · have hunchanged := hm.rebuild_unchanged_iff
      fun s (hs : survives m.locked s = true) => isHole_of_survives hs
    rw [← Bool.not_eq_false, ← not_and_or]
    exact not_congr hunchanged
  · rw [compress?, if_pos hsound.isCut, hm.compress_compress]
  · have hm' := verify_eq_zero_iff.mp hverify
    have hn' := verify_eq_zero_iff.mp hverify'
    have hvalue : n.valueAt = m.valueAt := by
      funext row col
      by_cases hin : m.InShape row col
      · have hin' : n.InShape row col := by rwa [InShape, hrows, hcols]
        have := hget row col
        rw [hn'.get_eq hin', hm'.get_eq hin] at this
        exact Except.ok.inj this
      · have hout : ¬n.InShape row col := by rwa [InShape, hrows, hcols]
        rw [valueAt_of_not_inShape hin, valueAt_of_not_inShape hout]
    have hstores := hn'.stores_pruned
    rw [hvalue] at hstores
    obtain ⟨hlead, hused, hslots⟩ :=
      hm'.stores_pruned.ext hstores (hm'.pruned 0) (hn'.pruned 0) hdim hpos
    refine ⟨m.pruned 0, n.pruned 0, ?_, ?_, hlead, hused, fun hcap => hslots ?_⟩
    · rw [prune, if_neg (lt_irrefl 0), if_pos hm.cut]
    · rw [prune, if_neg (lt_irrefl 0), if_pos hn.cut]
    · exact (hn.capacity_rebuild _).trans (hcap.trans (hm.capacity_rebuild _).symm)

end

/-- A matrix whose first row is out of order, has an index twice and a hole that counts as written,
and whose second row has a reserved slot in front of a live one of the same index. -/
def scattered : Matrix ℚ :=
  { rows := 2, cols := 3, orientation := .byRows
    lead := #[0, 4, 6]
    slots := #[⟨2, 5, true⟩, ⟨hole, 7, true⟩, ⟨0, 1, true⟩, ⟨2, -2, true⟩, ⟨1, 9, false⟩,
      ⟨1, 4, true⟩, ⟨0, 3, false⟩]
    shiftBound := none, locked := false, lockBroken := false, compressed := false
    shifts := 0, growths := #[] }

/-- The same entries in order and without holes, under the lock. -/
def tidied : Matrix ℚ :=
  { scattered with
    lead := #[0, 2, 3]
    slots := #[⟨0, 1, true⟩, ⟨2, 3, true⟩, ⟨1, 4, true⟩]
    locked := true }

theorem compress_canonical_scattered :
    scattered.Indexed ∧ tidied.Indexed ∧ scattered.compress.1.verify = 0 ∧
      tidied.compress.1.lead = scattered.compress.1.lead ∧
      tidied.compress.1.usedSlots = scattered.compress.1.usedSlots ∧
      scattered.compress.2 = true ∧
      scattered.compress.1.compress? = .ok (scattered.compress.1, false) := by
  have hscattered : scattered.Indexed := ⟨by decide, by decide +kernel⟩
  have htidied : tidied.Indexed := ⟨by decide, by decide +kernel⟩
  obtain ⟨-, hverify, -, -, hsame, hchanged, hagain, -⟩ :=
    compress_canonical scattered tidied hscattered htidied rfl rfl rfl
  have hkeeps : ∀ row col, (tidied.Keeps row col ↔ scattered.Keeps row col) ∧
      tidied.liveSum row col = scattered.liveSum row col := by
    intro row col
    by_cases hin : scattered.InShape row col
    · obtain ⟨hrow, hrow', hcol, hcol'⟩ := hin
      have hrow' : row < 2 := hrow'
      have hcol' : col < 3 := hcol'
      interval_cases row <;> interval_cases col <;> decide +kernel
    · have hout : ¬tidied.InShape row col := hin
      rw [Keeps, Keeps, liveSum, liveSum, slotsOf_of_not_inShape hin, slotsOf_of_not_inShape hout]
      simp
  obtain ⟨hlead, hused, -⟩ := hsame (fun row col => (hkeeps row col).1) fun row col _ =>
    (hkeeps row col).2
  have hmoved := hchanged.mpr (Or.inl (by decide +kernel))
  exact ⟨hscattered, htidied, hverify, hlead, hused, hmoved, hagain⟩

end Matrix

end CentralPath.Sparse
