/-
  What a given matrix holds. In exact arithmetic the entries of a matrix carry the values of its
  table, in whatever form it was handed over (`GivenMatrix.entriesGive`), and the entries of a
  Hessian those of the symmetric part (`hessianOf_entriesGive`). A coordinate list may name a
  position more than once; its values then add up.
-/
import CentralPath.Problem.Basic
import CentralPath.Proofs.Sparse.Dense

namespace CentralPath

open Sparse (Dense EntriesGive Entry)

variable {K : Type}

/-- No two entries stand for one position. -/
def Sparse.Distinct (entries : List (Entry K)) : Prop :=
  entries.Pairwise fun a b => ¬(a.row = b.row ∧ a.col = b.col)

namespace GivenMatrix

/-! ## Coordinates -/

section

variable [Field K] [LinearOrder K] {es : List (Entry K)} {row col : Int} {rows : Nat}

theorem positionSum_eq_sum (es : List (Entry K)) (row col : Int) :
    positionSum es row col =
      (es.map fun e => if e.row = row ∧ e.col = col then e.value else 0).sum := by
  have hfilter := Sparse.Matrix.sum_map_filter es (fun e => e.row == row && e.col == col)
    Entry.value
  simp only [Bool.and_eq_true, beq_iff_eq] at hfilter
  rw [← hfilter, positionSum]
  generalize es.filter (fun e => e.row == row && e.col == col) = l
  cases l with
  | nil => rfl
  | cons e rest =>
    rw [List.map_cons, List.sum_cons]
    exact Sparse.Matrix.foldl_add rest Entry.value e.value

theorem positionSum_eq_entrySum (es : List (Entry K)) (row col : Int) :
    positionSum es row col = Sparse.entrySum es row col := by
  rw [positionSum_eq_sum, Sparse.Matrix.entrySum_eq_sum]

/-- Where no position occurs twice, the sum at a position is the value that stands there. -/
theorem positionSum_of_distinct (h : Sparse.Distinct es) {v : K} (hv : EntriesGive es row col v) :
    positionSum es row col = v := by
  have hsub := h.filter fun e => e.row == row && e.col == col
  have hmem : ∀ e ∈ es.filter (fun e => e.row == row && e.col == col),
      e ∈ es ∧ e.row = row ∧ e.col = col := by
    intro e he
    obtain ⟨hin, hpos⟩ := List.mem_filter.mp he
    rw [Bool.and_eq_true, beq_iff_eq, beq_iff_eq] at hpos
    exact ⟨hin, hpos⟩
  have hnil : es.filter (fun e => e.row == row && e.col == col) = [] → v = 0 := by
    intro hnone
    by_contra hne
    obtain ⟨e, he, hr, hc⟩ := hv.exists_entry hne
    have : e ∈ es.filter fun e => e.row == row && e.col == col :=
      List.mem_filter.mpr ⟨he, by simp [hr, hc]⟩
    rw [hnone] at this
    cases this
  rw [positionSum]
  generalize es.filter (fun e => e.row == row && e.col == col) = l at hsub hmem hnil
  rcases l with _ | ⟨e, _ | ⟨f, rest⟩⟩
  · exact (hnil rfl).symm
  · obtain ⟨hin, hr, hc⟩ := hmem e (List.mem_cons_self ..)
    exact hv.value e hin hr hc
  · -- two entries of one position
    obtain ⟨-, hr, hc⟩ := hmem e (List.mem_cons_self ..)
    obtain ⟨-, hr', hc'⟩ := hmem f (List.mem_cons_of_mem _ (List.mem_cons_self ..))
    exact absurd ⟨hr.trans hr'.symm, hc.trans hc'.symm⟩
      (List.rel_of_pairwise_cons hsub (List.mem_cons_self ..))

theorem positionSum_filter_row (es : List (Entry K)) (row col : Int) :
    positionSum (es.filter (·.row == row)) row col = positionSum es row col := by
  rw [positionSum, positionSum, List.filter_filter]
  have htest : (fun e : Entry K => (e.row == row && e.col == col) && e.row == row) =
      fun e => e.row == row && e.col == col := by
    funext e
    cases e.row == row <;> simp
  rw [htest]

theorem mem_merged_iff {e : Entry K} :
    e ∈ merged rows es ↔ (∃ i : Nat, i < rows ∧ e.row = i) ∧
      (∃ f ∈ es, f.row = e.row ∧ f.col = e.col) ∧ e.value = positionSum es e.row e.col := by
  simp only [merged, List.mem_flatMap, List.mem_range, List.mem_map, Sparse.mem_distinctSorted,
    List.mem_filter, beq_iff_eq]
  constructor
  · rintro ⟨i, hi, j, ⟨f, ⟨hf, hrow⟩, hcol⟩, rfl⟩
    exact ⟨⟨i, hi, rfl⟩, ⟨f, hf, hrow, hcol⟩, positionSum_filter_row es i j⟩
  · rintro ⟨⟨i, hi, hrow⟩, ⟨f, hf, hfrow, hfcol⟩, hvalue⟩
    refine ⟨i, hi, e.col, ⟨f, ⟨hf, hfrow.trans hrow⟩, hfcol⟩, ?_⟩
    rw [positionSum_filter_row, ← hrow, ← hvalue]

theorem distinct_merged (rows : Nat) (es : List (Entry K)) :
    Sparse.Distinct (merged rows es) := by
  rw [Sparse.Distinct, merged, List.pairwise_flatMap]
  refine ⟨?_, ?_⟩
  · intro i _
    rw [List.pairwise_map]
    refine (Sparse.pairwise_distinctSorted _).imp ?_
    intro a b hlt hsame
    exact Int.ne_of_lt hlt hsame.2
  · refine List.pairwise_lt_range.imp fun {i j} hlt a ha b hb hsame => ?_
    obtain ⟨_, -, rfl⟩ := List.mem_map.mp ha
    obtain ⟨_, -, rfl⟩ := List.mem_map.mp hb
    have hij : (i : Int) = j := hsame.1
    omega

theorem merged_entriesGive (es : List (Entry K)) {i : Nat} (hi : i < rows) (col : Int) :
    EntriesGive (merged rows es) i col (positionSum es i col) := by
  refine ⟨?_, fun hne => ?_⟩
  · intro e he hrow hcol
    rw [(mem_merged_iff.mp he).2.2, hrow, hcol]
  · by_cases hex : ∃ f ∈ es, f.row = i ∧ f.col = col
    · exact ⟨⟨i, col, positionSum es i col⟩, mem_merged_iff.mpr ⟨⟨i, hi, rfl⟩, hex, rfl⟩, rfl, rfl⟩
    · refine absurd ?_ hne
      refine positionSum_eq_sum es i col ▸ List.sum_eq_zero ?_
      intro v hv
      obtain ⟨f, hf, rfl⟩ := List.mem_map.mp hv
      exact if_neg fun hpos => hex ⟨f, hf, hpos⟩

end

/-! ## All forms -/

variable [Field K] [LinearOrder K]

theorem get_rowTable_zero (v : Array K) : (rowTable v).get 0 0 = v.getD 0 0 := by
  by_cases hv : 0 < v.size
  · rw [rowTable, Dense.get_ofFn _ Nat.zero_lt_one hv]
  · obtain rfl : v = #[] := Array.size_eq_zero_iff.mp (by omega)
    rfl

/-- A row of one number has that number for an entry. -/
theorem rowTable_entriesGive {v : Array K} (hv : v.size = 1) {x : K} (hx : v.getD 0 0 = x) :
    EntriesGive (rowTable v).entries ((0 : Nat) : Int) ((0 : Nat) : Int) x := by
  have hgive := (rowTable v).entriesGive (i := 0) (j := 0) Nat.zero_lt_one (show 0 < v.size by omega)
  rwa [get_rowTable_zero, hx] at hgive

/-- The entries of a matrix carry the values of its table. -/
theorem entriesGive (g : GivenMatrix K) {i j : Nat} (hi : i < g.rows) (hj : j < g.cols) :
    EntriesGive g.entries i j (g.table.get i j) := by
  cases g with
  | dense d => exact d.entriesGive hi hj
  | flat v => exact (rowTable v).entriesGive hi hj
  | coordinates r c es =>
    have hi : i < r := hi
    have hj : j < c := hj
    rw [entries, table, Dense.ofEntries, Dense.get_ofFn _ hi hj, ← positionSum_eq_entrySum]
    exact merged_entriesGive es hi j
  | box b => exact (rowTable b.numbers).entriesGive hi hj

/-- Every coordinate of a coordinate list names a place of the matrix. -/
def InShape : GivenMatrix K → Prop
  | coordinates r c es => ∀ e ∈ es, 0 ≤ e.row ∧ e.row < r ∧ 0 ≤ e.col ∧ e.col < c
  | _ => True

theorem InShape.of_mem_entries {g : GivenMatrix K} (h : g.InShape) {e : Entry K}
    (he : e ∈ g.entries) : ∃ i j : Nat, i < g.rows ∧ j < g.cols ∧ e.row = i ∧ e.col = j := by
  have hdense : ∀ d : Dense K, e ∈ d.entries →
      ∃ i j : Nat, i < d.rows ∧ j < d.cols ∧ e.row = i ∧ e.col = j := by
    intro d hd
    obtain ⟨i, j, hi, hj, -, rfl⟩ := Dense.mem_entries_iff.mp hd
    exact ⟨i, j, hi, hj, rfl, rfl⟩
  cases g with
  | dense d => exact hdense d he
  | flat v => exact hdense (rowTable v) he
  | coordinates r c es =>
    obtain ⟨⟨i, hi, hrow⟩, ⟨f, hf, -, hcol⟩, -⟩ := mem_merged_iff.mp he
    obtain ⟨-, -, hc, hc'⟩ := h f hf
    exact ⟨i, e.col.toNat, hi, by rw [cols]; omega, hrow, by omega⟩
  | box b => exact hdense (rowTable b.numbers) he

/-- Giving a matrix its two axes changes none of its numbers. -/
theorem planar_eq {g g' : GivenMatrix K} (h : g.planar = .ok g') :
    g'.rows = g.rows ∧ g'.cols = g.cols ∧ g'.entries = g.entries := by
  rw [planar.eq_def] at h
  split at h
  · obtain rfl := Except.ok.inj h
    exact ⟨rfl, rfl, rfl⟩
  · obtain rfl := Except.ok.inj h
    exact ⟨rfl, rfl, rfl⟩
  · cases h
  · obtain rfl := Except.ok.inj h
    exact ⟨rfl, rfl, rfl⟩

/-- A block that may be left out is taken with its entries and its shape, or left out. -/
theorem mapM_planar_eq {E E' : Option (GivenMatrix K)} (h : E.mapM planar = .ok E') :
    E'.map entries = E.map entries ∧
      ∀ e, E = some e → ∃ e', E' = some e' ∧ e'.rows = e.rows ∧ e'.cols = e.cols := by
  rcases E with _ | e
  · obtain rfl := Except.ok.inj h
    exact ⟨rfl, nofun⟩
  · rcases hplanar : e.planar with f | e' <;> rw [Option.mapM_some, hplanar] at h
    · cases h
    · obtain rfl := Except.ok.inj h
      obtain ⟨hrows, hcols, hentries⟩ := planar_eq hplanar
      refine ⟨congrArg some hentries, fun f hf => ?_⟩
      obtain rfl := Option.some.inj hf
      exact ⟨e', rfl, hrows, hcols⟩

end GivenMatrix

/-! ## The symmetric part -/

variable [Field K] [LinearOrder K]

theorem mean_eq (a b : K) : mean a b = (a + b) / 2 := by
  have hhalf : (Scalar.ratio 1 2 : K) = 1 / 2 := by
    rw [Scalar.ratio]
    show ((1 : ℕ) : K) / ((2 : ℕ) : K) = 1 / 2
    rw [Nat.cast_one, Nat.cast_ofNat]
  show (Scalar.ratio 1 2 : K) * (a + b) = (a + b) / 2
  rw [hhalf, one_div, div_eq_inv_mul]

theorem distinct_symmetricEntries (n : Nat) (es : List (Entry K)) :
    Sparse.Distinct (symmetricEntries n es) := by
  refine List.Pairwise.filterMap _ ?_ (GivenMatrix.distinct_merged n (es ++ es.map Entry.transpose))
  intro a b hab c hc d hd hsame
  split_ifs at hc hd
  obtain rfl := Option.some.inj hc
  obtain rfl := Option.some.inj hd
  exact hab hsame

/-- The symmetric entries carry the means of the sums at a position and at the transposed one. -/
theorem symmetricEntries_entriesGive {n i : Nat} (es : List (Entry K)) (hi : i < n) (col : Int) :
    EntriesGive (symmetricEntries n es) i col
      (mean (GivenMatrix.positionSum es i col) (GivenMatrix.positionSum es col i)) := by
  refine ⟨?_, fun hne => ?_⟩
  · intro e he hrow hcol
    obtain ⟨f, -, hf⟩ := List.mem_filterMap.mp he
    split_ifs at hf
    obtain rfl := Option.some.inj hf
    dsimp only at hrow hcol ⊢
    rw [hrow, hcol]
  · have hsum : GivenMatrix.positionSum es i col + GivenMatrix.positionSum es col i ≠ 0 := by
      intro hzero
      rw [mean_eq] at hne
      exact hne (by rw [hzero, zero_div])
    have hex : ∃ f ∈ es ++ es.map Entry.transpose, f.row = i ∧ f.col = col := by
      by_contra hnone
      have hgone : ∀ row' col' : Int, (∀ f ∈ es, ¬(f.row = row' ∧ f.col = col')) →
          GivenMatrix.positionSum es row' col' = 0 := by
        intro row' col' hno
        refine GivenMatrix.positionSum_eq_sum es row' col' ▸ List.sum_eq_zero ?_
        intro v hv
        obtain ⟨f, hf, rfl⟩ := List.mem_map.mp hv
        exact if_neg (hno f hf)
      apply hsum
      rw [hgone i col fun f hf hpos => hnone ⟨f, List.mem_append_left _ hf, hpos⟩,
        hgone col i fun f hf hpos => hnone
          ⟨f.transpose, List.mem_append_right _ (List.mem_map_of_mem hf), hpos.2, hpos.1⟩,
        add_zero]
    have hmem : ⟨i, col, GivenMatrix.positionSum (es ++ es.map Entry.transpose) i col⟩ ∈
        GivenMatrix.merged n (es ++ es.map Entry.transpose) :=
      GivenMatrix.mem_merged_iff.mpr ⟨⟨i, hi, rfl⟩, hex, rfl⟩
    refine ⟨_, List.mem_filterMap.mpr ⟨_, hmem, if_neg ?_⟩, rfl, rfl⟩
    rwa [Scalar.beq_iff]

/-- A common shape has as many axes as the shorter of the two. -/
theorem Box.length_of_commonShape? {s t common : List Nat} (h : commonShape? s t = some common) :
    common.length = min s.length t.length := by
  have hlength : ∀ (l : List (Nat × Nat)) (out : List Nat),
      (l.mapM fun p => commonLength? p.1 p.2) = some out → out.length = l.length := by
    intro l
    induction l with
    | nil =>
      rintro out hout
      obtain rfl := Option.some.inj hout
      rfl
    | cons p ps ih =>
      intro out hout
      rw [List.mapM_cons] at hout
      obtain ⟨a, -, hout⟩ := Option.bind_eq_some_iff.mp hout
      obtain ⟨as, has, hout⟩ := Option.bind_eq_some_iff.mp hout
      obtain rfl := Option.some.inj hout
      rw [List.length_cons, List.length_cons, ih as has]
  rw [hlength _ _ h, List.length_zip]

/-- An array with axes that is no matrix is not accepted as a Hessian. -/
theorem Problem.hessianOf_box_ne_ok (d : Nat) (ds : List Nat) (numbers : Array K)
    (g' : GivenMatrix K) : Problem.hessianOf (.box ⟨d :: ds, numbers⟩) ≠ .ok g' := by
  intro h
  obtain ⟨b', hb', hplanar⟩ : ∃ b' : Box K, Box.symmetric ⟨d :: ds, numbers⟩ = .ok b' ∧
      GivenMatrix.planar (.box b') = .ok g' := by
    rw [hessianOf] at h
    split at h
    · split_ifs at h
      rw [symmetricPart] at h
      rcases hs : Box.symmetric (⟨d :: ds, numbers⟩ : Box K) with e | b' <;> rw [hs] at h
      · cases h
      · exact ⟨b', rfl, h⟩
    · cases h
  rw [Box.symmetric] at hb'
  split at hb'
  · cases hb'
  · rename_i common hcommon
    obtain rfl := Except.ok.inj hb'
    have hlength := Box.length_of_commonShape? hcommon
    rw [List.length_reverse, Nat.min_self] at hlength
    rcases common with _ | ⟨c, cs⟩
    · cases hlength
    · cases hplanar

/-- The Hessian `g` is accepted and kept as `g'`: one case for each form that it may come in. -/
inductive Problem.HessianKept : GivenMatrix K → GivenMatrix K → Prop
  | dense {d : Dense K} (square : d.rows = d.cols) :
    HessianKept (.dense d)
      (.dense (.ofFn d.rows d.cols fun i j => mean (d.get i j) (d.get j i)))
  | flat {v : Array K} (single : v.size = 1) :
    HessianKept (.flat v) (.dense (GivenMatrix.rowTable (symmetricVector v)))
  | coordinates {n : Nat} {es : List (Entry K)} :
    HessianKept (.coordinates n n es)
      (.coordinates n n (symmetricEntries n (GivenMatrix.merged n es)))
  | number {numbers : Array K} :
    HessianKept (.box ⟨[], numbers⟩)
      (.dense (GivenMatrix.rowTable #[mean (numbers.getD 0 0) (numbers.getD 0 0)]))

/-- What is accepted as a Hessian is square, or a single number. -/
theorem Problem.hessianKept_of_hessianOf {g g' : GivenMatrix K}
    (h : Problem.hessianOf g = .ok g') : HessianKept g g' := by
  cases g with
  | dense d =>
    rw [hessianOf] at h
    simp only [GivenMatrix.shape, GivenMatrix.rows, GivenMatrix.cols] at h
    split_ifs at h with hsquare
    have hsquare := not_not.mp hsquare
    rw [symmetricPart, symmetricTable, if_pos hsquare] at h
    obtain rfl := Except.ok.inj h
    exact .dense hsquare
  | flat v =>
    rw [hessianOf] at h
    simp only [GivenMatrix.shape, GivenMatrix.rows, GivenMatrix.cols] at h
    split_ifs at h with hsquare
    obtain rfl := Except.ok.inj h
    exact .flat (not_not.mp hsquare).symm
  | coordinates r c es =>
    rw [hessianOf] at h
    simp only [GivenMatrix.shape, GivenMatrix.rows, GivenMatrix.cols] at h
    split_ifs at h with hsquare
    obtain rfl := not_not.mp hsquare
    rw [symmetricPart, if_pos rfl] at h
    obtain rfl := Except.ok.inj h
    exact .coordinates
  | box b =>
    obtain ⟨shape, numbers⟩ := b
    cases shape with
    | nil =>
      obtain rfl := Except.ok.inj h
      exact .number
    | cons d ds => exact absurd h (hessianOf_box_ne_ok d ds numbers g')

/-- Merging a coordinate list does not change what the values of a position add up to. -/
theorem GivenMatrix.positionSum_merged {rows : Nat} (es : List (Entry K)) {k : Nat} (hk : k < rows)
    (l : Int) : positionSum (merged rows es) k l = positionSum es k l :=
  positionSum_of_distinct (distinct_merged rows es) (merged_entriesGive es hk l)

/-- The entries of an accepted Hessian carry the means of its table and the transposed one. -/
theorem Problem.hessianOf_entriesGive {g g' : GivenMatrix K} (h : Problem.hessianOf g = .ok g') :
    ∀ i j, i < g'.rows → j < g'.rows →
      EntriesGive g'.entries i j (mean (g.table.get i j) (g.table.get j i)) := by
  intro i j hi hj
  cases hessianKept_of_hessianOf h with
  | @dense d hsquare =>
    have hi : i < d.rows := hi
    have hj : j < d.cols := hsquare ▸ hj
    have := (Dense.ofFn d.rows d.cols fun i j => mean (d.get i j) (d.get j i)).entriesGive
      hi hj
    rwa [Dense.get_ofFn _ hi hj] at this
  | @flat v hsize =>
    obtain rfl : i = 0 := Nat.lt_one_iff.mp hi
    obtain rfl : j = 0 := Nat.lt_one_iff.mp hj
    rw [GivenMatrix.table, GivenMatrix.get_rowTable_zero]
    refine GivenMatrix.rowTable_entriesGive ((Array.size_map ..).trans hsize) ?_
    rw [Array.getD_eq_getD_getElem?, Array.getD_eq_getD_getElem?, Array.getElem?_map,
      Array.getElem?_eq_getElem (by omega)]
    rfl
  | @coordinates n es =>
    have hi : i < n := hi
    have hj : j < n := hj
    have hgive := symmetricEntries_entriesGive (GivenMatrix.merged n es) hi j
    have hmerged := GivenMatrix.merged_entriesGive (symmetricEntries n (GivenMatrix.merged n es))
      hi j
    rw [GivenMatrix.positionSum_of_distinct (distinct_symmetricEntries n _) hgive,
      GivenMatrix.positionSum_merged es hi, GivenMatrix.positionSum_merged es hj,
      GivenMatrix.positionSum_eq_entrySum, GivenMatrix.positionSum_eq_entrySum] at hmerged
    rw [GivenMatrix.table, Dense.ofEntries, Dense.get_ofFn _ hi hj, Dense.get_ofFn _ hj hi]
    exact hmerged
  | number =>
    obtain rfl : i = 0 := Nat.lt_one_iff.mp hi
    obtain rfl : j = 0 := Nat.lt_one_iff.mp hj
    rw [GivenMatrix.table, GivenMatrix.get_rowTable_zero]
    exact GivenMatrix.rowTable_entriesGive rfl rfl

/-- An entry of a symmetric part stands where an entry or a transposed one stands. -/
theorem of_mem_symmetricEntries {n : Nat} {es : List (Entry K)} {e : Entry K}
    (h : e ∈ symmetricEntries n es) :
    (∃ i : Nat, i < n ∧ e.row = i) ∧ ∃ f ∈ es, f.col = e.col ∨ f.row = e.col := by
  obtain ⟨f, hf, he⟩ := List.mem_filterMap.mp h
  split_ifs at he
  obtain rfl := Option.some.inj he
  obtain ⟨hrow, ⟨g, hg, -, hcol⟩, -⟩ := GivenMatrix.mem_merged_iff.mp hf
  refine ⟨hrow, ?_⟩
  rcases List.mem_append.mp hg with hg | hg
  · exact ⟨g, hg, .inl hcol⟩
  · obtain ⟨g', hg', rfl⟩ := List.mem_map.mp hg
    exact ⟨g', hg', .inr hcol⟩

/-- An accepted Hessian is square, and its entries are in it if those that were given are. -/
theorem Problem.hessianOf_inShape {g g' : GivenMatrix K} (h : Problem.hessianOf g = .ok g')
    (hg : g.InShape) : g'.InShape ∧ g'.cols = g'.rows := by
  cases hessianKept_of_hessianOf h with
  | dense hsquare => exact ⟨trivial, hsquare.symm⟩
  | flat hsize => exact ⟨trivial, (Array.size_map ..).trans hsize⟩
  | coordinates =>
    refine ⟨fun e he => ?_, rfl⟩
    obtain ⟨⟨i, hi, hrow⟩, f, hf, hcol⟩ := of_mem_symmetricEntries he
    obtain ⟨⟨j, hj, hfrow⟩, ⟨g, hg', -, hgcol⟩, -⟩ := GivenMatrix.mem_merged_iff.mp hf
    obtain ⟨-, -, hc, hc'⟩ := hg g hg'
    rcases hcol with hcol | hcol <;> omega
  | number => exact ⟨trivial, rfl⟩

end CentralPath
