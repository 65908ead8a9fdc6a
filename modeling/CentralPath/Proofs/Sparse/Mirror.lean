/-
  A matrix and its mirror image. The image has the same buffers, the transposed shape and the other
  orientation, so that its windows are the same and what was the row of a position is now its
  column. What a matrix answers, its image answers for exchanged rows and columns: entries
  (`storedEntries_mirror`), single positions (`get_mirror`) and products (`mulVec_mirror`,
  `mulBlock_mirror`). Nothing is asked of the buffers. Only the faults that name a position, a shape
  or a range differ, and these only in what they name: they are of the same kind.
-/
import CentralPath.Sparse.Action
import CentralPath.Proofs.Sparse.Positions

namespace CentralPath.Sparse

/-- The other orientation. -/
def Orientation.flip : Orientation → Orientation
  | byRows => byColumns
  | byColumns => byRows

@[simp] theorem Orientation.flip_flip (o : Orientation) : o.flip.flip = o := by cases o <;> rfl

theorem Orientation.flip_inj {a b : Orientation} : a.flip = b.flip ↔ a = b := by
  cases a <;> cases b <;> decide

/-- Two attempts end alike: both succeed with related results, or both are refused for mistakes of
one kind. -/
inductive Concordant {α β γ : Type} (R : β → γ → Prop) :
    Except (Fault α) β → Except (Fault α) γ → Prop
  | ok {b : β} {c : γ} (h : R b c) : Concordant R (.ok b) (.ok c)
  | error {e e' : Fault α} (h : e'.category = e.category) : Concordant R (.error e) (.error e')

theorem Concordant.refl {α β : Type} (r : Except (Fault α) β) : Concordant Eq r r := by
  cases r with
  | ok b => exact .ok rfl
  | error e => exact .error rfl

theorem Concordant.eq_ok {α β : Type} {r image : Except (Fault α) β} {b : β}
    (h : Concordant Eq r image) (hb : image = .ok b) : r = .ok b := by
  cases h with
  | ok heq => rw [heq, hb]
  | error => cases hb

/-- Refused because dimensions do not fit. -/
def UnfitDimensions {α β : Type} (r : Except (Fault α) β) : Prop :=
  ∃ e, r = .error e ∧ e.category = .dimension

theorem Concordant.unfitDimensions_iff {α β γ : Type} {R : β → γ → Prop}
    {r : Except (Fault α) β} {image : Except (Fault α) γ} (h : Concordant R r image) :
    UnfitDimensions r ↔ UnfitDimensions image := by
  cases h with
  | ok h =>
    constructor <;> rintro ⟨e, he, -⟩ <;> cases he
  | error h =>
    constructor
    · rintro ⟨e, he, hcat⟩
      cases he
      exact ⟨_, rfl, h.trans hcat⟩
    · rintro ⟨e, he, hcat⟩
      cases he
      exact ⟨_, rfl, h.symm.trans hcat⟩

namespace Matrix

variable {α : Type}

/-- The same buffers read along the other index. -/
def mirror (m : Matrix α) : Matrix α :=
  { m with rows := m.cols, cols := m.rows, orientation := m.orientation.flip }

@[simp] theorem mirror_mirror (m : Matrix α) : m.mirror.mirror = m := by
  rw [mirror, mirror]
  dsimp only
  rw [Orientation.flip_flip]

/-! ## Windows -/

@[simp] theorem leadingDim_mirror (m : Matrix α) : m.mirror.leadingDim = m.leadingDim := by
  rw [leadingDim, leadingDim, mirror]
  cases m.orientation <;> rfl

@[simp] theorem trailingDim_mirror (m : Matrix α) : m.mirror.trailingDim = m.trailingDim := by
  rw [trailingDim, trailingDim, mirror]
  cases m.orientation <;> rfl

@[simp] theorem isCut_mirror (m : Matrix α) : m.mirror.isCut = m.isCut := by
  rw [isCut, isCut, leadingDim_mirror]
  rfl

/-- A position has the same window and index in the image as its exchange has. -/
theorem locateWindow?_mirror (m : Matrix α) (row col : Int) :
    m.mirror.locateWindow? col row = m.locateWindow? row col := by
  by_cases hin : m.InShape row col
  · obtain ⟨hr, hr', hc, hc'⟩ := hin
    rw [locateWindow?, if_pos ⟨hc, hc', hr, hr'⟩, locateWindow?, if_pos ⟨hr, hr', hc, hc'⟩, mirror]
    cases m.orientation <;> rfl
  · have hout : ¬m.mirror.InShape col row := by
      rintro ⟨hc, hc', hr, hr'⟩
      exact hin ⟨hr, hr', hc, hc'⟩
    rw [locateWindow?_of_not_inShape hin, locateWindow?_of_not_inShape hout]

theorem Sound.mirror {m : Matrix α} (h : m.Sound) : m.mirror.Sound := by
  refine ⟨isCut_iff.mp (m.isCut_mirror.trans h.isCut), ?_, ?_⟩
  · rw [leadingDim_mirror, trailingDim_mirror]
    exact h.inOrder
  · rw [leadingDim_mirror]
    exact h.written

/-! ## Entries -/

theorem entryOf_mirror (m : Matrix α) (w : Nat) (s : Slot α) :
    m.mirror.entryOf w s = (m.entryOf w s).transpose := by
  rw [entryOf, entryOf, mirror]
  cases m.orientation <;> rfl

theorem entries_mirror (m : Matrix α) : m.mirror.entries = m.entries.map Entry.transpose := by
  have hwindow : m.mirror.windowEntries = fun w => (m.windowEntries w).map Entry.transpose := by
    funext w
    rw [windowEntries, windowEntries, List.map_map]
    exact List.map_congr_left fun s _ => m.entryOf_mirror w s
  rw [entries, entries, leadingDim_mirror, hwindow, List.map_flatMap]

theorem ownedEntries_mirror (m : Matrix α) :
    m.mirror.ownedEntries = m.ownedEntries.map Entry.transpose := by
  rw [ownedEntries, ownedEntries, List.map_map]
  exact List.map_congr_left fun p _ => m.entryOf_mirror (m.ownerOf p.2) p.1

/-- The image has the same entries in the same order, with rows and columns exchanged. -/
theorem storedEntries_mirror (m : Matrix α) :
    m.mirror.storedEntries = m.storedEntries.map (List.map Entry.transpose) := by
  have hfault : m.mirror.sharingFault? = m.sharingFault? := rfl
  rw [storedEntries, storedEntries, isCut_mirror, entries_mirror, ownedEntries_mirror, hfault]
  split
  · rfl
  · cases m.sharingFault? <;> rfl

theorem holds_mirror (m : Matrix α) (entries : List (Entry α)) :
    m.mirror.holds (entries.map Entry.transpose) = m.holds entries := by
  rw [holds, holds, List.all_map]
  congr 1
  funext e
  simp only [Function.comp_apply, Entry.transpose, mirror]
  grind

/-! ## Reading -/

theorem get_mirror [Zero α] (m : Matrix α) (row col : Int) :
    Concordant Eq (m.get row col) (m.mirror.get col row) := by
  rw [get, get, locateWindow?_mirror, isCut_mirror]
  cases m.locateWindow? row col with
  | none => exact .error rfl
  | some p => exact Concordant.refl _

theorem oriented_transpose (transposed : Bool) (entries : List (Entry α)) :
    oriented (!transposed) (entries.map Entry.transpose) = oriented transposed entries := by
  cases transposed
  · rw [oriented, oriented, Bool.not_false, if_pos rfl, if_neg (by decide), List.map_map]
    exact List.map_id' entries
  · rfl

theorem blockOf_transpose (entries : List (Entry α)) (rowSpan colSpan : Span) :
    blockOf (entries.map Entry.transpose) colSpan rowSpan =
      (blockOf entries rowSpan colSpan).map Entry.transpose := by
  rw [blockOf, blockOf, List.filter_map, List.map_map, List.map_map]
  congr 1
  exact List.filter_congr fun e _ => Bool.and_comm ..

variable [Scalar α]

/-! ## Products -/

theorem mulEntries_mirror (m : Matrix α) (entries : List (Entry α)) (v : Array α)
    (transposed : Bool) : m.mirror.mulEntries (entries.map Entry.transpose) v (!transposed) =
      m.mulEntries entries v transposed := by
  rw [mulEntries, mulEntries, holds_mirror, oriented_transpose]
  cases transposed <;> rfl

/-- The product of the image is that of the transpose. -/
theorem mulVec_mirror (m : Matrix α) (v : Array α) (transposed : Bool) :
    Concordant Eq (m.mulVec v transposed) (m.mirror.mulVec v (!transposed)) := by
  have hinner : (if !transposed then m.mirror.rows else m.mirror.cols) =
      if transposed then m.rows else m.cols := by cases transposed <;> rfl
  rw [mulVec, mulVec, hinner, storedEntries_mirror]
  by_cases hsize : v.size = if transposed then m.rows else m.cols
  · simp only [hsize, ne_eq, not_true_eq_false, if_false]
    cases m.storedEntries with
    | error e => exact .error rfl
    | ok entries =>
      simp only [Except.map, bind, Except.bind, mulEntries_mirror]
      exact Concordant.refl _
  · rw [if_pos hsize, if_pos hsize]
    exact .error rfl

/-- The product of a block of the image is that of the transposed block. -/
theorem mulBlock_mirror (m : Matrix α) (v : Array α) (rowSpan colSpan : Span)
    (transposed : Bool) : Concordant Eq (m.mulBlock v rowSpan colSpan transposed)
      (m.mirror.mulBlock v colSpan rowSpan (!transposed)) := by
  have hlengths : (if !transposed then (colSpan.length, rowSpan.length)
      else (rowSpan.length, colSpan.length)) = if transposed then (rowSpan.length, colSpan.length)
        else (colSpan.length, rowSpan.length) := by cases transposed <;> rfl
  rw [mulBlock, mulBlock, hlengths, storedEntries_mirror]
  generalize (if transposed then (rowSpan.length, colSpan.length)
    else (colSpan.length, rowSpan.length)) = lengths
  by_cases hsize : (v.size : Int) = lengths.1
  · simp only [hsize, ne_eq, not_true_eq_false, if_false]
    cases m.storedEntries with
    | error e => exact .error rfl
    | ok entries =>
      simp only [Except.map, bind, Except.bind, blockOf_transpose, oriented_transpose]
      exact Concordant.refl _
  · dsimp only
    rw [if_pos hsize, if_pos hsize]
    exact .error rfl

end Matrix

end CentralPath.Sparse
