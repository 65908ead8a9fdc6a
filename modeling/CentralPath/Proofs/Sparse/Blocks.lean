/-
  What a matrix gives out, against the table that reading it gives. In exact arithmetic the product
  of any block with a vector is that of the same block of the table, where positions outside the
  shape count as zero; the whole matrix is the block of all rows and columns, in both directions
  (`Sound.mulVec_eq_mulBlock`). Products with the transpose need no argument of their own, because
  they are products of the mirror image. The list of entries names each live slot once, and the
  dense table and the compressed view hold what reading gives (`views_agree`).
-/
import CentralPath.Proofs.Sparse.Dense
import CentralPath.Proofs.Sparse.Mirror
import CentralPath.Proofs.Sparse.Table

open CentralPath.Vector (coord)

namespace CentralPath.Sparse

/-! ## Blocks of a table -/

namespace Table

variable {K : Type}

/-- The table with rows and columns exchanged. -/
def transpose (t : Table K) : Table K := ⟨t.cols, t.rows, fun row col => t.value col row⟩

/-- The vector `w` is the product of a block of the table with the vector `v`. -/
structure BlockProduct [AddCommMonoid K] [Mul K] (t : Table K) (rowSpan colSpan : Span)
    (v w : Array K) : Prop where
  size : (w.size : Int) = rowSpan.length
  coord : ∀ i, i < w.size → coord w i =
    ∑ j ∈ Finset.range v.size, t.value (rowSpan.low + i) (colSpan.low + j) * coord v j

theorem ofMatrix_mirror [Field K] (m : Matrix K) : ofMatrix m.mirror = (ofMatrix m).transpose := by
  have hvalue : ∀ row col, ((m.mirror.get row col).toOption).getD 0 =
      ((m.get col row).toOption).getD 0 := by
    intro row col
    have hread := m.get_mirror col row
    cases hl : m.get col row <;> cases hr : m.mirror.get row col <;> rw [hl, hr] at hread <;>
      cases hread
    · rfl
    · rename_i heq
      exact congrArg (fun x => (some x).getD 0) heq.symm
  rw [ofMatrix, ofMatrix, transpose]
  congr 1
  funext row col
  exact hvalue row col

end Table

namespace Matrix

section

variable {α : Type} [Scalar α] {m : Matrix α}

omit [Scalar α] in
theorem Sound.blockOf_entries (h : m.Sound) :
    blockOf m.entries ⟨0, m.rows⟩ ⟨0, m.cols⟩ = m.entries := by
  have hall : ∀ e ∈ m.entries, ((Span.mk 0 m.rows).contains e.row &&
      (Span.mk 0 m.cols).contains e.col) = true := by
    intro e he
    obtain ⟨hr, hr', hc, hc'⟩ := h.inShape_of_mem_entries he
    simp only [Span.contains, Bool.and_eq_true, decide_eq_true_eq]
    exact ⟨⟨hr, hr'⟩, hc, hc'⟩
  rw [blockOf, List.filter_eq_self.mpr hall]
  simp only [Int.sub_zero]
  exact List.map_id' _

/-- All rows and columns are a block like any other. -/
theorem Sound.mulVec_eq_mulBlock (h : m.Sound) (v : Array α) (transposed : Bool) :
    Concordant Eq (m.mulVec v transposed)
      (m.mulBlock v ⟨0, m.rows⟩ ⟨0, m.cols⟩ transposed) := by
  have hlength : ∀ n : Nat, (Span.mk 0 n).length = n := fun n => Int.sub_zero _
  have hproduct : m.mulEntries m.entries v transposed =
      .ok (product (oriented transposed m.entries) v (if transposed then m.cols else m.rows)) :=
    if_pos h.holds_entries
  rw [mulVec, mulBlock, storedEntries_of_isCut h.isCut]
  simp only [hlength, bind, Except.bind, h.blockOf_entries, hproduct]
  cases transposed
  · by_cases hv : v.size = m.cols
    · simp only [hv, ne_eq, not_true_eq_false, Bool.false_eq_true, if_false]
      rw [if_neg (Int.not_lt.mpr (Int.natCast_nonneg m.rows))]
      exact .ok rfl
    · simp only [hv, Int.ofNat_inj, ne_eq, not_false_eq_true, Bool.false_eq_true, if_false,
        if_true]
      exact .error rfl
  · by_cases hv : v.size = m.rows
    · simp only [hv, ne_eq, not_true_eq_false, if_false, if_true]
      rw [if_neg (Int.not_lt.mpr (Int.natCast_nonneg m.cols))]
      exact .ok rfl
    · simp only [hv, Int.ofNat_inj, ne_eq, not_false_eq_true, if_true]
      exact .error rfl

end

variable {K : Type} [Field K] {m : Matrix K}

/-- The table of sound buffers is their value everywhere, zero outside the shape. -/
theorem Sound.value_ofMatrix_eq (h : m.Sound) (row col : Int) :
    (Table.ofMatrix m).value row col = m.valueAt row col := by
  by_cases hin : m.InShape row col
  · exact h.value_ofMatrix hin
  · rw [valueAt_of_not_inShape hin, Table.ofMatrix]
    dsimp only
    rw [Matrix.get, locateWindow?_of_not_inShape hin]
    rfl

variable [LinearOrder K]

/-- The product of a block is refused only for a vector of another length than the block has
columns. -/
theorem Sound.mulBlock_spec (h : m.Sound) (v : Array K) {rowSpan colSpan : Span}
    (hr : rowSpan.low ≤ rowSpan.high) (hc : colSpan.low ≤ colSpan.high) :
    (UnfitDimensions (m.mulBlock v rowSpan colSpan false) ↔ (v.size : Int) ≠ colSpan.length) ∧
      ((v.size : Int) = colSpan.length → ∃ w, m.mulBlock v rowSpan colSpan false = .ok w ∧
        (Table.ofMatrix m).BlockProduct rowSpan colSpan v w) := by
  obtain ⟨r0, r1⟩ := rowSpan
  obtain ⟨c0, c1⟩ := colSpan
  obtain ⟨p, hp⟩ := Int.eq_ofNat_of_zero_le (Int.sub_nonneg_of_le hr)
  obtain ⟨n, hn⟩ := Int.eq_ofNat_of_zero_le (Int.sub_nonneg_of_le hc)
  obtain rfl : r1 = r0 + p := by dsimp only at hp; omega
  obtain rfl : c1 = c0 + n := by dsimp only at hn; omega
  have hlength : (Span.mk c0 (c0 + n)).length = n := by
    rw [Span.length]
    dsimp only
    omega
  have hok : (v.size : Int) = (Span.mk c0 (c0 + n)).length →
      ∃ w, m.mulBlock v ⟨r0, r0 + p⟩ ⟨c0, c0 + n⟩ false = .ok w ∧
        (Table.ofMatrix m).BlockProduct ⟨r0, r0 + p⟩ ⟨c0, c0 + n⟩ v w := by
    intro hv
    have hv : v.size = n := by omega
    obtain ⟨w, hw, hsize, hcoord⟩ := h.mulBlock_eq r0 c0 p hv
    refine ⟨w, hw, ?_, fun i hi => ?_⟩
    · rw [hsize, Span.length]
      dsimp only
      omega
    · rw [hcoord i (hsize ▸ hi), hv]
      exact Finset.sum_congr rfl fun j _ => by rw [h.value_ofMatrix_eq]
  refine ⟨⟨?_, fun hv => ⟨_, mulBlock_of_size_ne hv, rfl⟩⟩, hok⟩
  rintro ⟨e, he, -⟩ hv
  obtain ⟨w, hw, -⟩ := hok hv
  rw [hw] at he
  cases he

/-- So is the product of a transposed block, which is a block of the image. -/
theorem Sound.mulBlock_transposed_spec (h : m.Sound) (v : Array K) {rowSpan colSpan : Span}
    (hr : rowSpan.low ≤ rowSpan.high) (hc : colSpan.low ≤ colSpan.high) :
    (UnfitDimensions (m.mulBlock v rowSpan colSpan true) ↔ (v.size : Int) ≠ rowSpan.length) ∧
      ((v.size : Int) = rowSpan.length → ∃ w, m.mulBlock v rowSpan colSpan true = .ok w ∧
        (Table.ofMatrix m).transpose.BlockProduct colSpan rowSpan v w) := by
  have himage := m.mulBlock_mirror v rowSpan colSpan true
  obtain ⟨hunfit, hok⟩ := h.mirror.mulBlock_spec v hc hr
  refine ⟨himage.unfitDimensions_iff.trans hunfit, fun hv => ?_⟩
  obtain ⟨w, hw, hproduct⟩ := hok hv
  rw [Table.ofMatrix_mirror] at hproduct
  exact ⟨w, himage.eq_ok hw, hproduct⟩

/-! ## All views of a matrix -/

/-- Blocks of the matrix, and transposed ones, are multiplied with a vector as blocks of the table
are, unless the vector has another length than the block asks for. The whole matrix is the block of
all its rows and columns. -/
structure MultipliesLike (m : Matrix K) (t : Table K) : Prop where
  unfit_iff : ∀ (v : Array K) (rowSpan colSpan : Span), rowSpan.low ≤ rowSpan.high →
    colSpan.low ≤ colSpan.high →
    (UnfitDimensions (m.mulBlock v rowSpan colSpan false) ↔ (v.size : Int) ≠ colSpan.length)
  product : ∀ (v : Array K) (rowSpan colSpan : Span), rowSpan.low ≤ rowSpan.high →
    colSpan.low ≤ colSpan.high → (v.size : Int) = colSpan.length →
    ∃ w, m.mulBlock v rowSpan colSpan false = .ok w ∧ t.BlockProduct rowSpan colSpan v w
  transposed_unfit_iff : ∀ (v : Array K) (rowSpan colSpan : Span), rowSpan.low ≤ rowSpan.high →
    colSpan.low ≤ colSpan.high →
    (UnfitDimensions (m.mulBlock v rowSpan colSpan true) ↔ (v.size : Int) ≠ rowSpan.length)
  transposed_product : ∀ (v : Array K) (rowSpan colSpan : Span), rowSpan.low ≤ rowSpan.high →
    colSpan.low ≤ colSpan.high → (v.size : Int) = rowSpan.length →
    ∃ w, m.mulBlock v rowSpan colSpan true = .ok w ∧
      t.transpose.BlockProduct colSpan rowSpan v w
  whole : ∀ (v : Array K) (transposed : Bool), Concordant Eq (m.mulVec v transposed)
    (m.mulBlock v ⟨0, m.rows⟩ ⟨0, m.cols⟩ transposed)

/-- Products, entries, dense table and compressed view of a matrix that obeys the storage rules hold
what reading it gives, and outside the shape zero. The entries are the live slots, each once. -/
theorem views_agree (m : Matrix K) (h : m.verify = 0) :
    (∀ row col, (m.InShape row col → m.get row col = .ok ((Table.ofMatrix m).value row col)) ∧
      (¬m.InShape row col → (Table.ofMatrix m).value row col = 0)) ∧
    m.MultipliesLike (Table.ofMatrix m) ∧
    (∃ entries, m.storedEntries = .ok entries ∧
      entries.Pairwise (fun a b => ¬(a.row = b.row ∧ a.col = b.col)) ∧
      ∀ e, e ∈ entries ↔ (∃ s, m.slotOf? e.row e.col = some s ∧ s.live = true) ∧
        m.get e.row e.col = .ok e.value) ∧
    (∃ d, m.toDense = .ok d ∧ d.rows = m.rows ∧ d.cols = m.cols ∧
      ∀ i j : Nat, i < m.rows → j < m.cols → m.get i j = .ok (d.get i j)) ∧
    ∃ view, m.compressedView = .ok view ∧ view.Shows m := by
  have h := verify_eq_zero_iff.mp h
  refine ⟨fun row col => ⟨fun hin => ?_, fun hout => ?_⟩,
    ⟨fun v rowSpan colSpan hr hc => (h.mulBlock_spec v hr hc).1,
      fun v rowSpan colSpan hr hc => (h.mulBlock_spec v hr hc).2,
      fun v rowSpan colSpan hr hc => (h.mulBlock_transposed_spec v hr hc).1,
      fun v rowSpan colSpan hr hc => (h.mulBlock_transposed_spec v hr hc).2,
      h.mulVec_eq_mulBlock⟩,
    ⟨m.entries, storedEntries_of_isCut h.isCut, h.entries_pairwise, fun e => ?_⟩,
    ⟨_, h.toDense_eq, rfl, rfl, fun i j hi hj => ?_⟩, h.exists_compressedView⟩
  · rw [h.get_eq hin, h.value_ofMatrix_eq]
  · rw [h.value_ofMatrix_eq, valueAt_of_not_inShape hout]
  · constructor
    · intro he
      obtain ⟨s, hs, hlive, hvalue⟩ := h.mem_entries_iff.mp he
      refine ⟨⟨s, hs, hlive⟩, ?_⟩
      rw [h.get_eq (h.inShape_of_mem_entries he), valueAt_of_slotOf? hs, Slot.reading,
        if_pos hlive, hvalue]
    · rintro ⟨⟨s, hs, hlive⟩, hget⟩
      refine h.mem_entries_iff.mpr ⟨s, hs, hlive, ?_⟩
      rw [h.get_eq (inShape_of_slotOf? hs), valueAt_of_slotOf? hs, Slot.reading,
        if_pos hlive] at hget
      exact Except.ok.inj hget
  · rw [Dense.get_ofFn _ hi hj]
    exact h.get_eq ⟨Int.natCast_nonneg i, Int.ofNat_lt.mpr hi, Int.natCast_nonneg j,
      Int.ofNat_lt.mpr hj⟩

end Matrix

/-- Two columns with a stored number, a reserved slot, a stored zero and holes. -/
def patchwork : Matrix ℚ :=
  { rows := 3, cols := 2, orientation := .byColumns
    lead := #[0, 3, 5]
    slots := #[⟨0, 2, true⟩, ⟨2, 0, false⟩, .free, ⟨1, 0, true⟩, .free, .free]
    shiftBound := none, locked := false, lockBroken := false, compressed := false
    shifts := 0, growths := #[] }

/-- The stored zero is an entry, the reserved slot is none. A transposed block that starts above the
shape takes a vector as long as its rows. -/
theorem views_agree_patchwork :
    patchwork.verify = 0 ∧ patchwork.MultipliesLike (Table.ofMatrix patchwork) ∧
      patchwork.storedEntries = .ok [⟨0, 0, 2⟩, ⟨1, 1, 0⟩] ∧
      ¬UnfitDimensions (patchwork.mulBlock #[1, 3] ⟨-1, 1⟩ ⟨0, 4⟩ true) := by
  have hverify : patchwork.verify = 0 := by decide +kernel
  obtain ⟨-, hproducts, -⟩ := patchwork.views_agree hverify
  refine ⟨hverify, hproducts, by decide +kernel, fun hunfit => ?_⟩
  exact (hproducts.transposed_unfit_iff #[1, 3] ⟨-1, 1⟩ ⟨0, 4⟩ (by decide) (by decide)).mp hunfit
    (by decide)

end CentralPath.Sparse
