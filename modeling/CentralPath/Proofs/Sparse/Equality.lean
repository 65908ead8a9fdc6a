/-
  Equality of matrices, in exact arithmetic. Two matrices of one shape that obey the storage rules
  are equal if they have the same value at every position (`sameValues_eq_true_iff`), whatever their
  orientations and buffers; everything else about equality follows from that. Comparing goes through
  the difference of the entries at each position that either of them names. The other way to compare
  is to subtract in place and to prune at zero: this leaves nothing stored for equal matrices only
  (`Sound.usedSlots_pruned_eq_nil_iff`).
-/
import CentralPath.Proofs.Sparse.Blocks
import CentralPath.Proofs.Sparse.CanonicalForm

namespace CentralPath.Sparse.Matrix

variable {K : Type} [Field K] {a b c m : Matrix K}

omit [Field K] in
theorem Cut.mem_usedSlots_of_mem_slotsOf {row col : Int} {s : Slot K} (h : m.Cut)
    (hs : s ∈ m.slotsOf row col) : s ∈ m.usedSlots := by
  by_cases hin : m.InShape row col
  · obtain ⟨w, t, hp, hw, -⟩ := exists_locateWindow? hin
    exact h.mem_usedSlots.mpr ⟨w, hw, ((mem_slotsOf hp).mp hs).1⟩
  · rw [slotsOf_of_not_inShape hin] at hs
    cases hs

/-- Without a position to store there is no used slot. -/
theorem Stores.usedSlots_eq_nil_iff {positions : Int → Int → Prop} {value : Int → Int → K}
    (h : m.Stores positions value) (hsound : m.Sound) :
    m.usedSlots = [] ↔ ∀ row col, ¬positions row col := by
  constructor
  · intro hnil row col hpos
    obtain ⟨s, hs, -⟩ := h.stored row col hpos
    have hmem := hsound.cut.mem_usedSlots_of_mem_slotsOf (hs ▸ List.mem_singleton_self s)
    rw [hnil] at hmem
    cases hmem
  · intro hnone
    refine List.eq_nil_iff_forall_not_mem.mpr fun s hs => ?_
    obtain ⟨w, hw, hmem⟩ := hsound.cut.mem_usedSlots.mp hs
    obtain ⟨row, col, -, hat⟩ := hsound.exists_mem_slotsOf hw hmem (h.filled s hs)
    rw [h.other row col (hnone row col)] at hat
    cases hat

variable [LinearOrder K]

/-! ## Comparing entries -/

theorem Sound.sameEntries_iff (ha : a.Sound) (hb : b.Sound) :
    sameEntries a.entries b.entries = true ↔ ∀ row col, a.valueAt row col = b.valueAt row col := by
  rw [sameEntries, List.all_eq_true]
  simp only [ha.entrySum_entries, hb.entrySum_entries, Scalar.beq_iff, sub_eq_zero,
    List.mem_append]
  refine ⟨fun h row col => ?_, fun h e _ => h e.row e.col⟩
  -- a value that is not zero has an entry, which the comparison looks at
  by_cases hne : a.valueAt row col = 0 ∧ b.valueAt row col = 0
  · rw [hne.1, hne.2]
  · rcases not_and_or.mp hne with hne | hne
    · obtain ⟨e, he, rfl, rfl⟩ := (ha.entriesGive row col).exists_entry hne
      exact h e (.inl he)
    · obtain ⟨e, he, rfl, rfl⟩ := (hb.entriesGive row col).exists_entry hne
      exact h e (.inr he)

theorem Sound.sameValues_eq (ha : a.Sound) (hb : b.Sound) (hrows : a.rows = b.rows)
    (hcols : a.cols = b.cols) : a.sameValues b = .ok (sameEntries a.entries b.entries) := by
  rw [sameValues, checkSameShape, if_pos ⟨hrows, hcols⟩]
  dsimp only
  rw [ha.convertibleEntries_eq, hb.convertibleEntries_eq]
  rfl

theorem Sound.sameValues_eq_true_iff (ha : a.Sound) (hb : b.Sound) (hrows : a.rows = b.rows)
    (hcols : a.cols = b.cols) :
    a.sameValues b = .ok true ↔ ∀ row col, a.valueAt row col = b.valueAt row col := by
  rw [ha.sameValues_eq hb hrows hcols, Except.ok.injEq, ha.sameEntries_iff hb]

theorem sameValues_of_shapes_differ (h : ¬(a.rows = b.rows ∧ a.cols = b.cols)) :
    a.sameValues b = .error (.shapesDiffer a.rows a.cols b.rows b.cols) := by
  rw [sameValues, checkSameShape, if_neg h]

theorem shape_of_sameValues {same : Bool} (h : a.sameValues b = .ok same) :
    a.rows = b.rows ∧ a.cols = b.cols := by
  by_contra hdiffer
  rw [sameValues_of_shapes_differ hdiffer] at h
  cases h

/-- Only matrices of different shape cannot be compared. -/
theorem Sound.unfitDimensions_sameValues_iff (ha : a.Sound) (hb : b.Sound) :
    UnfitDimensions (a.sameValues b) ↔ ¬(a.rows = b.rows ∧ a.cols = b.cols) := by
  refine ⟨?_, fun h => ⟨_, sameValues_of_shapes_differ h, rfl⟩⟩
  rintro ⟨e, he, -⟩ ⟨hrows, hcols⟩
  rw [ha.sameValues_eq hb hrows hcols] at he
  cases he

/-! ## What equality does not see -/

/-- A matrix equals every matrix of its shape with its values. -/
theorem Sound.sameValues_of_valueAt_eq (ha : a.Sound) (hb : b.Sound) (hrows : b.rows = a.rows)
    (hcols : b.cols = a.cols) (h : ∀ row col, b.valueAt row col = a.valueAt row col) :
    a.sameValues b = .ok true :=
  (ha.sameValues_eq_true_iff hb hrows.symm hcols.symm).mpr fun row col => (h row col).symm

/-- Written out as a table and stored again, in either orientation, a matrix is the same. -/
theorem Sound.sameValues_ofDense (h : a.Sound) (orientation : Orientation) :
    a.sameValues (ofDense (Dense.ofFn a.rows a.cols fun i j => a.valueAt i j) orientation) =
      .ok true := by
  set d := Dense.ofFn a.rows a.cols fun i j => a.valueAt i j with hd
  have hstored := carries_ofDense d orientation
  refine h.sameValues_of_valueAt_eq hstored.sound hstored.rows_eq hstored.cols_eq
    fun row col => ?_
  by_cases hin : a.InShape row col
  · obtain ⟨hr, hr', hc, hc'⟩ := hin
    obtain ⟨i, rfl⟩ := Int.eq_ofNat_of_zero_le hr
    obtain ⟨j, rfl⟩ := Int.eq_ofNat_of_zero_le hc
    have hi : i < a.rows := Int.ofNat_lt.mp hr'
    have hj : j < a.cols := Int.ofNat_lt.mp hc'
    rw [hstored.valueAt_eq i j hi hj, hd, Dense.get_ofFn _ hi hj]
  · have hout := mt (inShape_congr hstored.rows_eq hstored.cols_eq).mp hin
    rw [valueAt_of_not_inShape hin, valueAt_of_not_inShape hout]

/-- Comparing takes no notice of which matrix comes first. -/
theorem Sound.sameValues_comm (ha : a.Sound) (hb : b.Sound) (hrows : a.rows = b.rows)
    (hcols : a.cols = b.cols) : b.sameValues a = a.sameValues b := by
  have hflip : b.sameValues a = .ok true ↔ a.sameValues b = .ok true := by
    rw [hb.sameValues_eq_true_iff ha hrows.symm hcols.symm,
      ha.sameValues_eq_true_iff hb hrows hcols]
    exact forall₂_congr fun _ _ => eq_comm
  rw [ha.sameValues_eq hb hrows hcols, hb.sameValues_eq ha hrows.symm hcols.symm] at hflip ⊢
  rw [Except.ok.injEq, Except.ok.injEq, ← Bool.eq_iff_iff] at hflip
  rw [hflip]

theorem Sound.sameValues_trans (ha : a.Sound) (hb : b.Sound) (hc : c.Sound)
    (hab : a.sameValues b = .ok true) (hbc : b.sameValues c = .ok true) :
    a.sameValues c = .ok true := by
  obtain ⟨hrows, hcols⟩ := shape_of_sameValues hab
  obtain ⟨hrows', hcols'⟩ := shape_of_sameValues hbc
  rw [ha.sameValues_eq_true_iff hb hrows hcols] at hab
  rw [hb.sameValues_eq_true_iff hc hrows' hcols'] at hbc
  rw [ha.sameValues_eq_true_iff hc (hrows.trans hrows') (hcols.trans hcols')]
  exact fun row col => (hab row col).trans (hbc row col)

variable [IsStrictOrderedRing K]

theorem Sound.sameValues_pruned (h : a.Sound) : a.sameValues (a.pruned 0).1 = .ok true := by
  refine h.sameValues_of_valueAt_eq (h.pruned 0) rfl rfl fun row col => ?_
  rw [h.valueAt_pruned le_rfl]
  split_ifs with hzero
  · exact (abs_nonpos_iff.mp hzero).symm
  · rfl

/-- Pruning at zero leaves nothing stored exactly if there is nothing to read. -/
theorem Sound.usedSlots_pruned_eq_nil_iff (h : m.Sound) :
    (m.pruned 0).1.usedSlots = [] ↔ ∀ row col, m.valueAt row col = 0 := by
  rw [h.stores_pruned.usedSlots_eq_nil_iff (h.pruned 0)]
  simp only [not_not]

/-- Of the difference of two matrices pruning at zero keeps nothing if they are equal. -/
theorem Sound.sameValues_iff_difference (ha : a.Sound) (hb : b.Sound) (hrows : a.rows = b.rows)
    (hcols : a.cols = b.cols) :
    a.sameValues b = .ok true ↔ ((a.accumulate b true).2.pruned 0).1.usedSlots = [] := by
  rw [ha.sameValues_eq_true_iff hb hrows hcols,
    (ha.accumulate b true).usedSlots_pruned_eq_nil_iff]
  refine forall₂_congr fun row col => ?_
  rw [ha.valueAt_accumulate hb hrows hcols, if_pos rfl, ← sub_eq_add_neg, sub_eq_zero]

/-! ## Equality -/

/-- What equality of matrices that obey the storage rules means.

Two of them cannot be compared exactly if their shapes differ. Otherwise they are equal exactly if
they read alike at every position, and exactly if one subtracted in place from the other leaves a
matrix of which pruning at zero keeps nothing. Among matrices of one shape this is an equivalence.
A matrix equals itself, and so every copy, and what compression, pruning at zero, trimming or a
detour over a dense table makes of it. -/
theorem equality_of_values (a b : Matrix K) (ha : a.verify = 0) (hb : b.verify = 0) :
    (UnfitDimensions (a.sameValues b) ↔ ¬(a.rows = b.rows ∧ a.cols = b.cols)) ∧
    (a.rows = b.rows ∧ a.cols = b.cols →
      (∃ same, a.sameValues b = .ok same ∧ b.sameValues a = .ok same ∧
        (same = true ↔ ∀ row col, a.get row col = b.get row col)) ∧
      (∃ difference rest changed, a.accumulate b true = (none, difference) ∧
        difference.prune 0 = .ok (rest, changed) ∧
        (a.sameValues b = .ok true ↔ rest.usedSlots = [])) ∧
      ∀ c : Matrix K, c.verify = 0 → a.sameValues b = .ok true → b.sameValues c = .ok true →
        a.sameValues c = .ok true) ∧
    a.sameValues a = .ok true ∧
    (∃ next changed, a.compress? = .ok (next, changed) ∧ a.sameValues next = .ok true) ∧
    (∃ next changed, a.prune 0 = .ok (next, changed) ∧ a.sameValues next = .ok true) ∧
    (∃ next, a.trim? = .ok next ∧ a.sameValues next = .ok true) ∧
    ∃ d, a.toDense = .ok d ∧ ∀ orientation, a.sameValues (ofDense d orientation) = .ok true := by
  have ha := verify_eq_zero_iff.mp ha
  have hb := verify_eq_zero_iff.mp hb
  refine ⟨ha.unfitDimensions_sameValues_iff hb, fun ⟨hrows, hcols⟩ => ⟨?_, ?_, ?_⟩, ?_, ?_, ?_,
    ?_, ?_⟩
  · refine ⟨_, ha.sameValues_eq hb hrows hcols,
      (ha.sameValues_comm hb hrows hcols).trans (ha.sameValues_eq hb hrows hcols), ?_⟩
    rw [ha.sameEntries_iff hb]
    exact forall₂_congr fun _ _ => (hb.get_eq_get_iff ha hrows hcols).symm
  · have hfault : (a.accumulate b true).1 = none := by
      rw [accumulate_eq hb hrows hcols]
      exact ha.writeAll_fault (inShape_additions hb hrows hcols true)
    have hdifference := ha.accumulate b true
    refine ⟨(a.accumulate b true).2, ((a.accumulate b true).2.pruned 0).1,
      ((a.accumulate b true).2.pruned 0).2, Prod.ext hfault rfl, ?_,
      ha.sameValues_iff_difference hb hrows hcols⟩
    rw [prune, if_neg (lt_irrefl 0), if_pos hdifference.isCut]
  · exact fun c hc => ha.sameValues_trans hb (verify_eq_zero_iff.mp hc)
  · exact ha.sameValues_of_valueAt_eq ha rfl rfl fun _ _ => rfl
  · exact ⟨_, _, if_pos ha.isCut, ha.sameValues_of_valueAt_eq ha.compress rfl rfl
      ha.valueAt_compress⟩
  · refine ⟨(a.pruned 0).1, (a.pruned 0).2, ?_, ha.sameValues_pruned⟩
    rw [prune, if_neg (lt_irrefl 0), if_pos ha.isCut]
  · exact ⟨_, if_pos ha.isCut, ha.sameValues_of_valueAt_eq ha.trim rfl rfl ha.valueAt_trim⟩
  · exact ⟨_, ha.toDense_eq, ha.sameValues_ofDense⟩

/-- The table of `patchwork` by rows, in full buffers and under the lock, with another zero
stored. -/
def tiled : Matrix ℚ :=
  { patchwork with
    orientation := .byRows
    lead := #[0, 1, 1, 2]
    slots := #[⟨0, 2, true⟩, ⟨1, 0, true⟩]
    locked := true, compressed := true }

theorem equality_of_values_tiled :
    patchwork.verify = 0 ∧ tiled.verify = 0 ∧ patchwork.sameValues tiled = .ok true ∧
      ∃ difference rest changed, patchwork.accumulate tiled true = (none, difference) ∧
        difference.prune 0 = .ok (rest, changed) ∧ rest.usedSlots = [] := by
  have hpatchwork : patchwork.verify = 0 := by decide +kernel
  have htiled : tiled.verify = 0 := by decide +kernel
  have hsame : patchwork.sameValues tiled = .ok true := by decide +kernel
  obtain ⟨-, hequal, -⟩ := equality_of_values patchwork tiled hpatchwork htiled
  obtain ⟨-, ⟨difference, rest, changed, hdifference, hrest, hiff⟩, -⟩ := hequal ⟨rfl, rfl⟩
  exact ⟨hpatchwork, htiled, hsame, difference, rest, changed, hdifference, hrest,
    hiff.mp hsame⟩

end CentralPath.Sparse.Matrix
