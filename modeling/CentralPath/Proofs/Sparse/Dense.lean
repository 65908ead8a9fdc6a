/-
  Dense tables and compressed views of sound matrices. Written out in full, a matrix is the table
  of its values (`Sound.toDense_eq`); stored again, in whatever orientation, a table gives a matrix
  that holds its numbers (`carries_ofDense`). The compressed view lists in each window the indices
  of the live entries in order, and what it gives to an index is the value there
  (`Sound.exists_compressedView`).
-/
import CentralPath.Sparse.Dense
import CentralPath.Proofs.Sparse.Products

namespace CentralPath.Sparse

variable {K : Type}

/-! ## Tables -/

namespace Dense

theorem get_ofFn [Scalar K] {rows cols i j : Nat} (f : Nat → Nat → K) (hi : i < rows)
    (hj : j < cols) : (Dense.ofFn rows cols f).get i j = f i j := by
  rw [get, ofFn, Array.getD_eq_getD_getElem?, Array.getD_eq_getD_getElem?, Array.getElem?_ofFn,
    dif_pos hi, Option.getD_some, Array.getElem?_ofFn, dif_pos hj, Option.getD_some]

/-- Tables of one shape with the same numbers have the same nonzeros. -/
theorem entries_congr [Scalar K] {d d' : Dense K} (hrows : d'.rows = d.rows)
    (hcols : d'.cols = d.cols)
    (h : ∀ i j, i < d.rows → j < d.cols → d'.get i j = d.get i j) : d'.entries = d.entries := by
  rw [entries, entries, hrows, hcols]
  refine List.flatMap_congr fun i hi => congrArg _ (List.map_congr_left fun j hj => ?_)
  rw [h i j (List.mem_range.mp hi) (List.mem_range.mp hj)]

theorem entries_transpose_transpose [Scalar K] (d : Dense K) :
    d.transpose.transpose.entries = d.entries := by
  refine entries_congr rfl rfl fun i j hi hj => ?_
  exact (get_ofFn (fun i j => d.transpose.get j i) hi hj).trans
    (get_ofFn (fun i j => d.get j i) hj hi)

variable [Field K] [LinearOrder K]

theorem mem_entries_iff {d : Dense K} {e : Entry K} :
    e ∈ d.entries ↔ ∃ i j : Nat, i < d.rows ∧ j < d.cols ∧ d.get i j ≠ 0 ∧
      e = ⟨i, j, d.get i j⟩ := by
  simp only [entries, List.mem_flatMap, List.mem_range, List.mem_filter, List.mem_map,
    Bool.not_eq_true', Bool.eq_false_iff, ne_eq, Scalar.beq_iff]
  constructor
  · rintro ⟨i, hi, ⟨j, hj, rfl⟩, hne⟩
    exact ⟨i, j, hi, hj, hne, rfl⟩
  · rintro ⟨i, j, hi, hj, hne, rfl⟩
    exact ⟨i, hi, ⟨j, hj, rfl⟩, hne⟩

theorem entriesGive (d : Dense K) {i j : Nat} (hi : i < d.rows) (hj : j < d.cols) :
    EntriesGive d.entries i j (d.get i j) := by
  refine ⟨?_, fun hne => ⟨_, mem_entries_iff.mpr ⟨i, j, hi, hj, hne, rfl⟩, rfl, rfl⟩⟩
  intro e he hrow hcol
  obtain ⟨k, l, -, -, -, rfl⟩ := mem_entries_iff.mp he
  have hk : (k : Int) = i := hrow
  have hl : (l : Int) = j := hcol
  obtain rfl : k = i := by omega
  obtain rfl : l = j := by omega
  rfl

end Dense

namespace Matrix

variable [Field K] [LinearOrder K] {m : Matrix K}

theorem entrySum_eq_sum (entries : List (Entry K)) (row col : Int) :
    entrySum entries row col =
      (entries.map fun e => if e.row = row ∧ e.col = col then e.value else 0).sum :=
  (foldl_add_ite entries (fun e => e.row = row ∧ e.col = col) Entry.value 0).trans (zero_add _)

theorem Sound.entrySum_entries (h : m.Sound) (row col : Int) :
    entrySum m.entries row col = m.valueAt row col := by
  rw [entrySum_eq_sum, h.sum_entries]

/-- Written out in full, a matrix is the table of its values. -/
theorem Sound.toDense_eq (h : m.Sound) :
    m.toDense = .ok (Dense.ofFn m.rows m.cols fun i j => m.valueAt i j) := by
  have htable : m.tableOf m.entries = Dense.ofFn m.rows m.cols fun i j => m.valueAt i j := by
    rw [tableOf, Dense.ofEntries]
    congr 1
    funext i j
    exact h.entrySum_entries i j
  rw [toDense, storedEntries_of_isCut h.isCut]
  exact (if_pos h.holds_entries).trans (congrArg Except.ok htable)

/-! ### Storing a table -/

theorem mem_storageOrder_iff {d : Dense K} {orientation : Orientation} {e : Entry K} :
    e ∈ storageOrder d orientation ↔ e ∈ d.entries := by
  cases orientation with
  | byRows => rfl
  | byColumns =>
    simp only [storageOrder, List.mem_map, Dense.mem_entries_iff]
    constructor
    · rintro ⟨_, ⟨j, i, hj, hi, hne, rfl⟩, rfl⟩
      have hget : d.transpose.get j i = d.get i j := Dense.get_ofFn _ hj hi
      rw [hget] at hne ⊢
      exact ⟨i, j, hi, hj, hne, rfl⟩
    · rintro ⟨i, j, hi, hj, hne, rfl⟩
      have hget : d.transpose.get j i = d.get i j := Dense.get_ofFn _ hj hi
      exact ⟨_, ⟨j, i, hj, hi, hget ▸ hne, rfl⟩, by rw [hget]; rfl⟩

/-- A matrix made of a table holds its numbers. -/
theorem carries_ofDense (d : Dense K) (orientation : Orientation) :
    (ofDense d orientation).Carries d.rows d.cols d.get := by
  set fresh : Matrix K :=
    empty d.rows d.cols orientation (storageOrder d orientation).length with hfresh
  have hsound : fresh.Sound := sound_withFreshBuffers _ _
  obtain ⟨hwritten, hframe⟩ := hsound.writeAll (storing (storageOrder d orientation))
  have hin : ∀ w ∈ storing (storageOrder d orientation),
      fresh.InShape w.row w.col ∧ w.overwrite = true := by
    intro w hw
    obtain ⟨e, he, rfl⟩ := List.mem_map.mp hw
    obtain ⟨i, j, hi, hj, -, rfl⟩ := Dense.mem_entries_iff.mp (mem_storageOrder_iff.mp he)
    refine ⟨⟨Int.natCast_nonneg i, ?_, Int.natCast_nonneg j, ?_⟩, rfl⟩
    · exact Int.ofNat_lt.mpr hi
    · exact Int.ofNat_lt.mpr hj
  refine ⟨hwritten.compress, hframe.rows, hframe.cols, fun i j hi hj => ?_⟩
  have hgive := d.entriesGive hi hj
  refine (hwritten.valueAt_compress i j).trans (hsound.valueAt_writeAll_of_gives hin ⟨?_, ?_⟩
    (valueAt_withFreshBuffers _ _ _ _))
  · intro w hw hrow hcol
    obtain ⟨e, he, rfl⟩ := List.mem_map.mp hw
    exact hgive.value e (mem_storageOrder_iff.mp he) hrow hcol
  · intro hne
    obtain ⟨e, he, hrow, hcol⟩ := hgive.exists_entry hne
    exact ⟨_, List.mem_map_of_mem (mem_storageOrder_iff.mpr he), hrow, hcol⟩

end Matrix

/-! ## The compressed view -/

/-- What lies between two neighbouring offsets. -/
def pieceAt {β : Type} (offsets : List Int) (xs : List β) (w : Nat) : List β :=
  slice xs (offsets.getD w 0) (offsets.getD (w + 1) 0)

/-- Pieces in a row are found again by their running offsets. -/
theorem pieceAt_flatten {β : Type} {pieces : List (List β)} {w : Nat} (hw : w < pieces.length) :
    pieceAt (offsetsOf (pieces.map List.length)).toList pieces.flatten w = pieces[w] := by
  have hoffset : ∀ i, i ≤ pieces.length →
      (offsetsOf (pieces.map List.length)).toList.getD i 0 =
        (((pieces.map List.length).take i).sum : Nat) := by
    intro i hi
    rw [List.getD_eq_getElem?_getD, Array.getElem?_toList,
      getElem?_offsetsOf (by rwa [List.length_map]), Option.getD_some]
  have hle : ∀ i, ((pieces.map List.length).take i).sum ≤ pieces.flatten.length := by
    intro i
    rw [List.length_flatten]
    exact (List.take_sublist i _).sum_le_sum fun _ _ => Nat.zero_le _
  rw [pieceAt, hoffset w (Nat.le_of_lt hw), hoffset (w + 1) hw, slice_of_le (hle w) (hle (w + 1))]
  exact List.drop_take_succ_flatten_eq_getElem pieces w hw

theorem pieceAt_map {β γ : Type} (offsets : List Int) (f : β → γ) (xs : List β) (w : Nat) :
    pieceAt offsets (xs.map f) w = (pieceAt offsets xs w).map f := by
  rw [pieceAt, pieceAt, slice, slice, List.length_map, List.map_drop, List.map_take]

namespace CompressedView

/-- The indices of a window with their values. -/
def window (view : CompressedView K) (w : Nat) : List (Int × K) :=
  pieceAt view.offsets (view.indices.zip view.values) w

/-- The view of given windows. -/
def ofWindows (windows : List (List (Int × K))) : CompressedView K :=
  ⟨(offsetsOf (windows.map List.length)).toList, windows.flatten.map (·.1),
    windows.flatten.map (·.2)⟩

theorem window_ofWindows {windows : List (List (Int × K))} {w : Nat} (hw : w < windows.length) :
    (ofWindows windows).window w = windows[w] := by
  have hzip : (windows.flatten.map (·.1)).zip (windows.flatten.map (·.2)) = windows.flatten :=
    (List.zip_of_prod rfl rfl).symm
  rw [window, ofWindows, hzip]
  exact pieceAt_flatten hw

/-- What a view gives to an index of a window: the sum of the values that stand there with it. -/
def valueAt [Zero K] [Add K] (view : CompressedView K) (w : Nat) (t : Int) : K :=
  (((view.window w).filter (·.1 == t)).map Prod.snd).sum

/-- A view shows a matrix: there are as many windows, the indices in each increase, and at every
position stands the value of the matrix. -/
structure Shows [Zero K] [Add K] (view : CompressedView K) (m : Matrix K) : Prop where
  size_offsets : view.offsets.length = m.leadingDim + 1
  paired : view.indices.length = view.values.length
  increasing : ∀ w, w < m.leadingDim → ((view.window w).map Prod.fst).Pairwise (· < ·)
  value : ∀ row col w t, m.locateWindow? row col = some (w, t) →
    m.get row col = .ok (view.valueAt w t)

end CompressedView

namespace Matrix

variable {m : Matrix K}

/-- Window and index of a position are those of the entries there. -/
theorem leadingIndex_trailingIndex_iff {row col : Int} {w : Nat} {t : Int}
    (hp : m.locateWindow? row col = some (w, t)) (e : Entry K) :
    (m.leadingIndex e = w ∧ m.trailingIndex e = t) ↔ (e.row = row ∧ e.col = col) := by
  obtain ⟨hr, hr', hc, hc'⟩ := inShape_of_locateWindow? hp
  rw [locateWindow?, if_pos ⟨hr, hr', hc, hc'⟩, Option.some.injEq] at hp
  rw [leadingIndex, trailingIndex]
  cases ho : m.orientation <;> rw [ho] at hp <;> simp only [Prod.mk.injEq] at hp <;>
    dsimp only <;> omega

variable [Field K] [LinearOrder K]

theorem viewValue_eq_sum (m : Matrix K) (entries : List (Entry K)) (t : Int) :
    m.viewValue entries t =
      ((entries.filter (m.trailingIndex · == t)).map Entry.value).sum := by
  rw [viewValue]
  cases entries.filter (m.trailingIndex · == t) with
  | nil => rfl
  | cons e rest => exact foldl_add rest Entry.value e.value

/-- A window of the view: the distinct indices of its entries in order, with their values. -/
def viewWindow (m : Matrix K) (w : Nat) : List (Int × K) :=
  let live := m.entries.filter (m.leadingIndex · == (w : Int))
  (distinctSorted (live.map m.trailingIndex)).map fun t => (t, m.viewValue live t)

theorem Sound.compressedView_eq (h : m.Sound) :
    m.compressedView = .ok (.ofWindows ((List.range m.leadingDim).map m.viewWindow)) := by
  rw [compressedView, h.convertibleEntries_eq]
  rfl

/-- An index of a window is found once with the sum of its values, or not at all. -/
theorem sum_filter_viewWindow (m : Matrix K) (w : Nat) (t : Int) :
    (((m.viewWindow w).filter (·.1 == t)).map Prod.snd).sum =
      (m.entries.map fun e =>
        if m.leadingIndex e = w ∧ m.trailingIndex e = t then e.value else 0).sum := by
  have hindex : ∀ f : Int → K, ((fun p : Int × K => p.1 == t) ∘ fun t => (t, f t)) =
      fun u => u == t := fun _ => rfl
  rw [viewWindow]
  set live := m.entries.filter (m.leadingIndex · == (w : Int)) with hlive
  have hsum : ((live.filter (m.trailingIndex · == t)).map Entry.value).sum =
      (m.entries.map fun e =>
        if m.leadingIndex e = w ∧ m.trailingIndex e = t then e.value else 0).sum := by
    rw [hlive, List.filter_filter, sum_map_filter]
    refine congrArg _ (List.map_congr_left fun e _ => if_congr ?_ rfl rfl)
    rw [Bool.and_eq_true, beq_iff_eq, beq_iff_eq, and_comm]
  rw [List.filter_map, hindex, filter_distinctSorted, ← hsum, ← viewValue_eq_sum]
  split_ifs with ht
  · exact List.sum_singleton
  · rw [viewValue_eq_sum, List.filter_eq_nil_iff.mpr fun e he hindex => ht ?_]
    · rfl
    · exact List.mem_map.mpr ⟨e, he, beq_iff_eq.mp hindex⟩

/-- The compressed view of sound buffers shows the matrix. -/
theorem Sound.exists_compressedView (h : m.Sound) :
    ∃ view, m.compressedView = .ok view ∧ view.Shows m := by
  have hlength : ((List.range m.leadingDim).map m.viewWindow).length = m.leadingDim := by
    rw [List.length_map, List.length_range]
  have hwindow : ∀ w, w < m.leadingDim →
      (CompressedView.ofWindows ((List.range m.leadingDim).map m.viewWindow)).window w =
        m.viewWindow w := by
    intro w hw
    rw [CompressedView.window_ofWindows (hlength.symm ▸ hw), List.getElem_map,
      List.getElem_range]
  refine ⟨_, h.compressedView_eq, ?_, ?_, ?_, ?_⟩
  · rw [CompressedView.ofWindows, Array.length_toList, size_offsetsOf, List.length_map, hlength]
  · rw [CompressedView.ofWindows, List.length_map, List.length_map]
  · intro w hw
    rw [hwindow w hw, viewWindow, List.map_map]
    exact (List.map_id _).symm ▸ pairwise_distinctSorted _
  · intro row col w t hp
    have hw := (range_of_locateWindow? hp).1
    rw [h.get_eq (inShape_of_locateWindow? hp), CompressedView.valueAt, hwindow w hw,
      sum_filter_viewWindow, ← h.sum_entries]
    refine congrArg Except.ok (congrArg _ (List.map_congr_left fun e _ => ?_))
    exact if_congr (leadingIndex_trailingIndex_iff hp e).symm rfl rfl

end Matrix

end CentralPath.Sparse
