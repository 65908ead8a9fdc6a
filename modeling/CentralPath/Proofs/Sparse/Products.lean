/-
  Products as sums over values. The product of a matrix, or of one of its blocks, with a vector is
  computed over the entries as they are stored; on sound buffers component `i` is the sum of the
  values of row `i` times the components of the vector (`Sound.mulVec_eq`, `Sound.mulBlock_eq`).
-/
import CentralPath.Proofs.Sparse.Loading
import CentralPath.Proofs.Vector

open CentralPath.Vector (coord)

namespace CentralPath.Sparse

theorem Matrix.Sound.holds_entries {α : Type} {m : Matrix α} (h : m.Sound) :
    m.holds m.entries = true := by
  rw [holds, List.all_eq_true]
  intro e he
  obtain ⟨hr, hr', hc, hc'⟩ := h.inShape_of_mem_entries he
  simp [hr, hr', hc, hc']

theorem Matrix.Sound.convertibleEntries_eq {α : Type} {m : Matrix α} (h : m.Sound) :
    m.convertibleEntries = .ok m.entries := by
  rw [convertibleEntries, storedEntries_of_isCut h.isCut]
  exact if_pos h.holds_entries

/-- The product with a vector of as many components as there are columns is not refused, in whatever
arithmetic. -/
theorem Matrix.Sound.mulVec_eq_product {α : Type} [Scalar α] {m : Matrix α} {v : Array α}
    (h : m.Sound) (hv : v.size = m.cols) :
    m.mulVec v false = .ok (product m.entries v m.rows) := by
  have hentries := storedEntries_of_isCut h.isCut
  simp [mulVec, hv, hentries, mulEntries, oriented]
  exact if_pos h.holds_entries

variable {K : Type} [Field K]

/-! ## Sums over entries -/

/-- A weighted sum over the columns of a row, gathered entry by entry. -/
theorem sum_range_entries_mul (entries : List (Entry K)) (row low : Int) (n : Nat) (g : Nat → K) :
    ∑ j ∈ Finset.range n,
        (entries.map fun e => if e.row = row ∧ e.col = low + j then e.value else 0).sum * g j =
      (entries.map fun e =>
        if e.row = row ∧ low ≤ e.col ∧ e.col < low + n then e.value * g (e.col - low).toNat
        else 0).sum := by
  induction entries with
  | nil => simp
  | cons e es ih =>
    simp only [List.map_cons, List.sum_cons, add_mul, Finset.sum_add_distrib]
    rw [ih]
    congr 1
    by_cases hin : e.row = row ∧ low ≤ e.col ∧ e.col < low + n
    · obtain ⟨hrow, hlo, hhi⟩ := hin
      rw [if_pos ⟨hrow, hlo, hhi⟩, Finset.sum_eq_single (e.col - low).toNat]
      · rw [if_pos ⟨hrow, by omega⟩]
      · intro j _ hj
        rw [if_neg (by omega), zero_mul]
      · intro hout
        rw [Finset.mem_range] at hout
        omega
    · rw [if_neg hin]
      apply Finset.sum_eq_zero
      intro j hj
      rw [Finset.mem_range] at hj
      rw [if_neg (by omega), zero_mul]

variable [LinearOrder K] {m m' : Matrix K} {v : Array K}

theorem productAt_eq_sum (entries : List (Entry K)) (v : Array K) (i : Int) :
    productAt entries v i =
      (entries.map fun e => if e.row = i then e.value * component v e.col else 0).sum := by
  rw [productAt]
  exact (Matrix.foldl_add_ite entries (fun e => e.row = i)
    (fun e => e.value * component v e.col) 0).trans (zero_add _)

theorem component_of_nonneg {i : Int} (h : 0 ≤ i) : component v i = coord v i.toNat := by
  rw [component, if_pos h]
  rfl

/-! ## Products -/

namespace Matrix

/-- The product with a vector of as many components as there are columns. -/
theorem Sound.mulVec_eq (h : m.Sound) (hv : v.size = m.cols) :
    ∃ w, m.mulVec v false = .ok w ∧ w.size = m.rows ∧ ∀ i, i < m.rows →
      coord w i = ∑ j ∈ Finset.range m.cols, m.valueAt i j * coord v j := by
  refine ⟨product m.entries v m.rows, h.mulVec_eq_product hv, Array.size_ofFn, fun i hi => ?_⟩
  rw [product, Vector.coord_ofFn (fun i => productAt m.entries v i) hi, productAt_eq_sum]
  have hvalue : ∀ j ∈ Finset.range m.cols, m.valueAt i j * coord v j =
      (m.entries.map fun e =>
        if e.row = (i : Int) ∧ e.col = 0 + (j : Int) then e.value else 0).sum * coord v j := by
    intro j _
    rw [zero_add, h.sum_entries]
  rw [Finset.sum_congr rfl hvalue, sum_range_entries_mul]
  congr 1
  apply List.map_congr_left
  intro e he
  obtain ⟨-, -, hc, hc'⟩ := h.inShape_of_mem_entries he
  by_cases hrow : e.row = (i : Int)
  · rw [if_pos hrow, if_pos ⟨hrow, by omega, by omega⟩, component_of_nonneg hc, sub_zero]
  · rw [if_neg hrow, if_neg fun hc => hrow hc.1]

/-- The product of a block with a vector of as many components as the block has columns. -/
theorem Sound.mulBlock_eq (h : m.Sound) (r0 c0 : Int) (p : Nat) {n : Nat} (hv : v.size = n) :
    ∃ w, m.mulBlock v ⟨r0, r0 + p⟩ ⟨c0, c0 + n⟩ false = .ok w ∧ w.size = p ∧ ∀ i, i < p →
      coord w i = ∑ j ∈ Finset.range n, m.valueAt (r0 + i) (c0 + j) * coord v j := by
  refine ⟨product (blockOf m.entries ⟨r0, r0 + p⟩ ⟨c0, c0 + n⟩) v p, ?_, Array.size_ofFn,
    fun i hi => ?_⟩
  · have hentries := storedEntries_of_isCut h.isCut
    have hinner : (Span.mk c0 (c0 + n)).length = n := by
      rw [Span.length]
      dsimp only
      omega
    have houter : (Span.mk r0 (r0 + p)).length = p := by
      rw [Span.length]
      dsimp only
      omega
    simp [mulBlock, hv, hentries, hinner, houter, oriented]
    rfl
  · rw [product, Vector.coord_ofFn (fun i => productAt _ v i) hi, productAt_eq_sum, blockOf,
      List.map_map]
    have hvalue : ∀ j ∈ Finset.range n, m.valueAt (r0 + i) (c0 + j) * coord v j =
        (m.entries.map fun e =>
          if e.row = r0 + i ∧ e.col = c0 + (j : Int) then e.value else 0).sum * coord v j := by
      intro j _
      rw [h.sum_entries]
    rw [Finset.sum_congr rfl hvalue, sum_range_entries_mul]
    -- entries outside the block add nothing
    rw [sum_map_filter]
    congr 1
    apply List.map_congr_left
    intro e _
    simp only [Span.contains, Function.comp_apply, Bool.and_eq_true, decide_eq_true_eq]
    by_cases hin : e.row = r0 + i ∧ c0 ≤ e.col ∧ e.col < c0 + n
    · rw [if_pos ⟨by omega, by omega⟩, if_pos (by omega), if_pos hin,
        component_of_nonneg (by omega)]
    · rw [if_neg hin]
      split_ifs
      · omega
      · rfl
      · rfl

/-- The product of the transpose with a vector of as many components as there are rows. -/
theorem Sound.mulVec_transposed_eq (h : m.Sound) (hv : v.size = m.rows) :
    ∃ w, m.mulVec v true = .ok w ∧ w.size = m.cols ∧ ∀ j, j < m.cols →
      coord w j = ∑ i ∈ Finset.range m.rows, m.valueAt i j * coord v i := by
  refine ⟨product (oriented true m.entries) v m.cols, ?_, Array.size_ofFn, fun j hj => ?_⟩
  · have hentries := storedEntries_of_isCut h.isCut
    simp [mulVec, hv, hentries, mulEntries]
    exact if_pos h.holds_entries
  · have hvalue : ∀ i ∈ Finset.range m.rows, m.valueAt i j * coord v i =
        ((m.entries.map Entry.transpose).map fun e =>
          if e.row = (j : Int) ∧ e.col = 0 + (i : Int) then e.value else 0).sum * coord v i := by
      intro i _
      rw [zero_add, ← h.sum_entries, List.map_map]
      simp only [Function.comp_def, Entry.transpose, and_comm]
      congr!
    rw [product, Vector.coord_ofFn (fun i => productAt _ v i) hj, productAt_eq_sum,
      Finset.sum_congr rfl hvalue, sum_range_entries_mul, oriented, if_pos rfl, List.map_map,
      List.map_map]
    congr 1
    apply List.map_congr_left
    intro e he
    obtain ⟨hr, hr', -, -⟩ := h.inShape_of_mem_entries he
    change (if e.col = (j : Int) then e.value * component v e.row else 0) =
      if e.col = (j : Int) ∧ 0 ≤ e.row ∧ e.row < 0 + (m.rows : Int) then
        e.value * coord v (e.row - 0).toNat else 0
    by_cases hcol : e.col = (j : Int)
    · rw [if_pos hcol, if_pos ⟨hcol, by omega, by omega⟩, component_of_nonneg hr, sub_zero]
    · rw [if_neg hcol, if_neg fun hc => hcol hc.1]

theorem mulVec_transposed_of_size_ne (hv : v.size ≠ m.rows) :
    m.mulVec v true = .error (.vectorUnfit v.size m.rows m.cols) := by
  simp [mulVec, hv, throw, throwThe, MonadExceptOf.throw, bind, Except.bind]

theorem mulVec_of_size_ne (hv : v.size ≠ m.cols) :
    m.mulVec v false = .error (.vectorUnfit v.size m.rows m.cols) := by
  simp [mulVec, hv, throw, throwThe, MonadExceptOf.throw, bind, Except.bind]

theorem mulBlock_of_size_ne {rowSpan colSpan : Span} (hv : (v.size : Int) ≠ colSpan.length) :
    m.mulBlock v rowSpan colSpan false =
      .error (.blockVectorUnfit v.size rowSpan.low rowSpan.high colSpan.low colSpan.high) := by
  simp [mulBlock, hv, throw, throwThe, MonadExceptOf.throw, bind, Except.bind]

/-- The product of a matrix that holds given values. -/
theorem Carries.mulVec_eq {rows cols : Nat} {value : Nat → Nat → K}
    (h : m.Carries rows cols value) (hv : v.size = cols) :
    ∃ w, m.mulVec v false = .ok w ∧ w.size = rows ∧ ∀ i, i < rows →
      coord w i = ∑ j ∈ Finset.range cols, value i j * coord v j := by
  obtain ⟨w, hw, hsize, hcoord⟩ := h.sound.mulVec_eq (hv.trans h.cols_eq.symm)
  rw [h.rows_eq] at hsize hcoord
  refine ⟨w, hw, hsize, fun i hi => ?_⟩
  rw [hcoord i hi, h.cols_eq]
  exact Finset.sum_congr rfl fun j hj => by rw [h.valueAt_eq i j hi (Finset.mem_range.mp hj)]

theorem Carries.mulVec_transposed_eq {rows cols : Nat} {value : Nat → Nat → K}
    (h : m.Carries rows cols value) (hv : v.size = rows) :
    ∃ w, m.mulVec v true = .ok w ∧ w.size = cols ∧ ∀ j, j < cols →
      coord w j = ∑ i ∈ Finset.range rows, value i j * coord v i := by
  obtain ⟨w, hw, hsize, hcoord⟩ := h.sound.mulVec_transposed_eq (hv.trans h.rows_eq.symm)
  rw [h.cols_eq] at hsize hcoord
  refine ⟨w, hw, hsize, fun j hj => ?_⟩
  rw [hcoord j hj, h.rows_eq]
  exact Finset.sum_congr rfl fun i hi => by rw [h.valueAt_eq i j (Finset.mem_range.mp hi) hj]

/-- Matrices that hold the same values have the same products. -/
theorem Carries.mulVec_congr {rows cols : Nat} {value : Nat → Nat → K}
    (h : m.Carries rows cols value) (h' : m'.Carries rows cols value) (v : Array K) :
    m'.mulVec v false = m.mulVec v false := by
  by_cases hv : v.size = cols
  · exact Vector.ok_eq_of_coord (h.mulVec_eq hv) (h'.mulVec_eq hv)
  · rw [mulVec_of_size_ne (h'.cols_eq.symm ▸ hv), mulVec_of_size_ne (h.cols_eq.symm ▸ hv),
      h.rows_eq, h.cols_eq, h'.rows_eq, h'.cols_eq]

/-! ## Systems -/

/-- The vector is a solution of the system with this matrix and this right-hand side. -/
structure Solves (m : Matrix K) (v rhs : Array K) : Prop where
  size : v.size = m.cols
  size_rhs : rhs.size = m.rows
  row : ∀ i, i < m.rows → ∑ j ∈ Finset.range m.cols, m.valueAt i j * coord v j = coord rhs i

/-- The system with this matrix has exactly one solution for every right-hand side. -/
def Nonsingular (m : Matrix K) : Prop := ∀ rhs : Array K, rhs.size = m.rows → ∃! v, m.Solves v rhs

end Matrix

end CentralPath.Sparse
