/-
  Rebuilding windows. `gathered` sorts slots by index and joins those of one index, so whatever is
  kept comes out in order (`inOrder_gathered`). From a window in order nothing has to be sorted or
  joined: an index keeps the reading of its slot, with zero added to it (`slotAt?_rebuild`).
  Compression and pruning are rebuilds and differ only in what they keep.
-/
import CentralPath.Sparse.Canonical
import CentralPath.Proofs.Sparse.Writing

namespace CentralPath.Sparse

variable {α : Type}

/-- Buffers laid out as windows in order are sound. -/
theorem Matrix.LaidOut.sound {m : Matrix α} {windows : List (List (Slot α))}
    {rest : List (Slot α)} (h : m.LaidOut windows rest)
    (hin : ∀ slots ∈ windows, InOrder m.trailingDim slots)
    (hlive : m.compressed = true → ∀ slots ∈ windows, ∀ s ∈ slots, s.live = true) : m.Sound := by
  have hwin : ∀ w, w < m.leadingDim → m.window w ∈ windows := by
    intro w hw
    rw [← h.count] at hw
    rw [h.window_eq hw]
    exact List.getElem_mem hw
  exact ⟨h.cut, fun w hw => hin _ (hwin w hw), fun hc w hw => hlive hc _ (hwin w hw)⟩

/-- A member of a list is found once among its sorted members. -/
theorem filter_distinctSorted (is : List Int) (i : Int) :
    (distinctSorted is).filter (· == i) = if i ∈ is then [i] else [] := by
  have hnodup : (distinctSorted is).Nodup := (pairwise_distinctSorted is).imp Int.ne_of_lt
  rw [List.filter_beq]
  split_ifs with hi
  · rw [List.count_eq_one_of_mem hnodup (mem_distinctSorted.mpr hi)]
    rfl
  · rw [List.count_eq_zero_of_not_mem (mt mem_distinctSorted.mp hi)]
    rfl

variable {kept : List (Slot α)} {t : Int} {s : Slot α}

theorem isHole_of_survives {locked : Bool} (hs : survives locked s = true) : s.isHole = false := by
  rw [survives, Bool.and_eq_true, Bool.not_eq_true'] at hs
  exact hs.1

variable [Scalar α]

/-! ## Gathering -/

theorem mem_gathered :
    s ∈ gathered kept ↔ (∃ a ∈ kept, a.index = s.index) ∧
      s = ⟨s.index, gatheredValue kept s.index, true⟩ := by
  rw [gathered, List.mem_map]
  constructor
  · rintro ⟨t, ht, rfl⟩
    rw [mem_distinctSorted, List.mem_map] at ht
    exact ⟨ht, rfl⟩
  · rintro ⟨ha, hs⟩
    exact ⟨s.index, mem_distinctSorted.mpr (List.mem_map.mpr ha), hs.symm⟩

/-- Gathered slots are in order, whatever the order was before. -/
theorem inOrder_gathered {bound : Nat}
    (h : ∀ s ∈ kept, s.isHole = false ∧ hole ≤ s.index ∧ s.index < bound) :
    InOrder bound (gathered kept) := by
  refine ⟨?_, ?_⟩
  · intro s hs
    obtain ⟨⟨a, ha, hindex⟩, -⟩ := mem_gathered.mp hs
    obtain ⟨hhole, hlo, hhi⟩ := h a ha
    rw [hindex] at hlo hhi
    refine ⟨hlo, hhi, fun hs' => ?_⟩
    rw [Slot.isHole_eq_false_iff, hindex, ← Slot.isHole_eq_false_iff, hs'] at hhole
    cases hhole
  · rw [gathered, List.pairwise_map]
    refine (pairwise_distinctSorted _).imp_of_mem fun {t u} ht _ htu => Or.inr ⟨?_, htu⟩
    obtain ⟨a, ha, rfl⟩ := List.mem_map.mp (mem_distinctSorted.mp ht)
    exact (h a ha).1

/-- Slots of other indices contribute nothing. -/
theorem gatheredValue_append_of_ne (sum : α) (h : ∀ s ∈ kept, s.index ≠ t) :
    kept.foldl (fun sum s => if s.index = t then sum + s.reading else sum) sum = sum := by
  induction kept generalizing sum with
  | nil => rfl
  | cons s l ih =>
    rw [List.foldl_cons, if_neg (h s (List.mem_cons_self ..))]
    exact ih sum fun s' hs' => h s' (List.mem_cons_of_mem _ hs')

/-- An index that occurs once contributes its reading. -/
theorem gatheredValue_of_unique (hs : s ∈ kept)
    (h : kept.Pairwise fun a b => a.index ≠ b.index) :
    gatheredValue kept s.index = 0 + s.reading := by
  obtain ⟨before, behind, rfl⟩ := List.append_of_mem hs
  rw [List.pairwise_append, List.pairwise_cons] at h
  obtain ⟨-, ⟨hbehind, -⟩, hbefore⟩ := h
  rw [gatheredValue, List.foldl_append,
    gatheredValue_append_of_ne 0 fun a ha => hbefore a ha s (List.mem_cons_self ..),
    List.foldl_cons, if_pos rfl, gatheredValue_append_of_ne _ fun b hb => (hbehind b hb).symm]

namespace Matrix

variable {m : Matrix α} {w : Nat} {keep : Slot α → Bool}

/-! ## Rebuilding -/

theorem length_gatheredWindows (m : Matrix α) (keep : Slot α → Bool) :
    (m.gatheredWindows keep).length = m.leadingDim := by
  rw [gatheredWindows, List.length_map, List.length_range]

theorem withWindows_laidOut {windows : List (List (Slot α))} (h : windows.length = m.leadingDim) :
    (m.withWindows windows).LaidOut windows
      (List.replicate (m.capacity - windows.flatten.length) Slot.free) :=
  ⟨h, rfl, rfl⟩

theorem window_rebuild (keep : Slot α → Bool) (hw : w < m.leadingDim) :
    (m.rebuild keep).1.window w = gathered ((m.window w).filter keep) := by
  have hlen := length_gatheredWindows m keep
  have hw' : w < (m.gatheredWindows keep).length := by rwa [hlen]
  rw [rebuild, (withWindows_laidOut hlen).window_eq hw']
  simp only [gatheredWindows, List.getElem_map, List.getElem_range]

theorem sameFrame_rebuild (m : Matrix α) (keep : Slot α → Bool) :
    m.SameFrame (m.rebuild keep).1 := ⟨rfl, rfl, rfl, rfl, rfl, rfl⟩

/-- A rebuild that keeps no hole leaves sound buffers, whatever the order in the windows was. -/
theorem sound_rebuild (hkeep : ∀ s, keep s = true → s.isHole = false)
    (hfits : ∀ w, w < m.leadingDim → ∀ s ∈ m.window w, hole ≤ s.index ∧ s.index < m.trailingDim) :
    (m.rebuild keep).1.Sound := by
  refine (withWindows_laidOut (length_gatheredWindows m keep)).sound ?_ ?_
  · intro slots hslots
    obtain ⟨w, hw, rfl⟩ := List.mem_map.mp hslots
    refine inOrder_gathered fun s hs => ?_
    obtain ⟨hmem, hk⟩ := List.mem_filter.mp hs
    exact ⟨hkeep s hk, hfits w (List.mem_range.mp hw) s hmem⟩
  · intro _ slots hslots s hs
    obtain ⟨w, -, rfl⟩ := List.mem_map.mp hslots
    rw [(mem_gathered.mp hs).2]

theorem Sound.rebuild (h : m.Sound) (hkeep : ∀ s, keep s = true → s.isHole = false) :
    (m.rebuild keep).1.Sound :=
  sound_rebuild hkeep fun w hw s hs =>
    have hfits := (h.inOrder w hw).fits s hs
    ⟨hfits.index_ge, hfits.index_lt⟩

/-- A rebuild keeps the slots that it is asked to keep, as live ones. -/
theorem Sound.slotAt?_rebuild (h : m.Sound) (hkeep : ∀ s, keep s = true → s.isHole = false)
    (hw : w < m.leadingDim) (ht : 0 ≤ t) :
    (m.rebuild keep).1.slotAt? w t =
      ((m.slotAt? w t).filter keep).map fun s => ⟨t, 0 + s.reading, true⟩ := by
  have hunique : ((m.window w).filter keep).Pairwise fun a b => a.index ≠ b.index :=
    (((h.inOrder w hw).filter keep).increasing fun s hs =>
      hkeep s (List.mem_filter.mp hs).2).imp Int.ne_of_lt
  apply Option.ext
  intro s
  rw [(h.rebuild hkeep).slotAt?_eq_some_iff hw ht, window_rebuild keep hw, mem_gathered,
    Option.map_eq_some_iff]
  simp only [Option.filter_eq_some_iff, h.slotAt?_eq_some_iff hw ht, List.mem_filter]
  constructor
  · rintro ⟨⟨⟨a, ⟨ha, hka⟩, hindex⟩, hs⟩, rfl⟩
    refine ⟨a, ⟨⟨ha, hindex⟩, hka⟩, ?_⟩
    rw [hs, ← hindex, gatheredValue_of_unique (List.mem_filter.mpr ⟨ha, hka⟩) hunique]
  · rintro ⟨a, ⟨⟨ha, rfl⟩, hka⟩, rfl⟩
    refine ⟨⟨⟨a, ⟨ha, hka⟩, rfl⟩, ?_⟩, rfl⟩
    rw [gatheredValue_of_unique (List.mem_filter.mpr ⟨ha, hka⟩) hunique]

/-! ## Compression and pruning -/

theorem isHole_of_outlasts {threshold : α} (hs : outlasts threshold s = true) :
    s.isHole = false := by
  rw [outlasts, Bool.and_eq_true, Bool.and_eq_true, Bool.not_eq_true'] at hs
  exact hs.1.1

theorem Sound.compress (h : m.Sound) : m.compress.1.Sound :=
  h.rebuild fun _ => isHole_of_survives

theorem Sound.pruned (h : m.Sound) (threshold : α) : (m.pruned threshold).1.Sound :=
  (h.rebuild fun _ => isHole_of_outlasts).of_buffers_eq rfl rfl rfl rfl rfl

theorem Sound.slotAt?_compress (h : m.Sound) (hw : w < m.leadingDim) (ht : 0 ≤ t) :
    m.compress.1.slotAt? w t =
      ((m.slotAt? w t).filter (survives m.locked)).map fun s => ⟨t, 0 + s.reading, true⟩ :=
  h.slotAt?_rebuild (fun _ => isHole_of_survives) hw ht

theorem Sound.slotAt?_pruned (h : m.Sound) (threshold : α) (hw : w < m.leadingDim) (ht : 0 ≤ t) :
    (m.pruned threshold).1.slotAt? w t =
      ((m.slotAt? w t).filter (outlasts threshold)).map fun s => ⟨t, 0 + s.reading, true⟩ := by
  rw [← h.slotAt?_rebuild (fun _ => isHole_of_outlasts) hw ht]
  exact slotAt?_of_buffers_eq rfl rfl w t

end Matrix

end CentralPath.Sparse
