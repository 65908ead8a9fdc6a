/-
  Storing the entries of a matrix again. The windows of the matrix may be in any order, as long as
  their slots are live and have distinct indices in range (`Unsorted`). Its entries, written one by
  one under the lock into an empty matrix of the same shape, come to stand at the same positions
  with the same values, stored zeros included; compression then leaves the offsets of the given
  matrix and its windows in order (`Unsorted.arranged_restored`). The course of the insertions does
  not matter: all that is used of it is which slot each position has in the end.
-/
import CentralPath.Proofs.Sparse.CanonicalForm
import CentralPath.Proofs.Sparse.Dense

namespace CentralPath.Sparse.Matrix

variable {α : Type} {m : Matrix α} {w : Nat} {t : Int} {s : Slot α}

/-- The offsets cut the buffers into windows of live slots with distinct indices in range, which
may stand in any order. -/
structure Unsorted (m : Matrix α) : Prop where
  cut : m.Cut
  live : ∀ w, w < m.leadingDim → ∀ s ∈ m.window w, s.live = true
  inRange : ∀ w, w < m.leadingDim → ∀ s ∈ m.window w, 0 ≤ s.index ∧ s.index < m.trailingDim
  distinct : ∀ w, w < m.leadingDim → ((m.window w).map Slot.index).Nodup

namespace Unsorted

theorem slotAt?_eq_some_iff (h : m.Unsorted) (hw : w < m.leadingDim) :
    m.slotAt? w t = some s ↔ s ∈ m.window w ∧ s.index = t :=
  slotAt?_eq_some_iff_of_unique fun _ ha _ hb hat hbt =>
    List.inj_on_of_nodup_map (h.distinct w hw) ha hb (hat.trans hbt.symm)

theorem mem_entries_iff (h : m.Unsorted) {e : Entry α} :
    e ∈ m.entries ↔ ∃ s, m.slotOf? e.row e.col = some s ∧ s.live = true ∧ s.value = e.value :=
  mem_entries_iff_slotOf? (fun _ _ _ hw _ => h.slotAt?_eq_some_iff hw)
    fun w hw s hs _ => h.inRange w hw s hs

theorem entries_pairwise (h : m.Unsorted) :
    m.entries.Pairwise fun a b => ¬(a.row = b.row ∧ a.col = b.col) :=
  entries_pairwise_of_distinct (fun w hw s hs _ => h.inRange w hw s hs) fun w hw =>
    (List.pairwise_map.mp (h.distinct w hw)).filter _

theorem inShape_storing (h : m.Unsorted) {w : Write α} (hw : w ∈ storing m.entries) :
    m.InShape w.row w.col ∧ w.overwrite = true := by
  obtain ⟨e, he, rfl⟩ := List.mem_map.mp hw
  obtain ⟨s, hs, -⟩ := h.mem_entries_iff.mp he
  exact ⟨inShape_of_slotOf? hs, rfl⟩

end Unsorted

/-! ## One by one -/

variable [Scalar α]

/-- The entries written one by one, under the lock, into an empty matrix of the same shape. -/
def rewritten (m : Matrix α) (hint : Int) : Matrix α :=
  (((empty m.rows m.cols m.orientation hint).setLock true).writeAll (storing m.entries)).2

section

variable (m) (hint : Int)

theorem sound_emptyLocked :
    ((empty m.rows m.cols m.orientation hint : Matrix α).setLock true).Sound :=
  (sound_withFreshBuffers _ hint).of_buffers_eq rfl rfl rfl rfl rfl

theorem sound_rewritten : (m.rewritten hint).Sound :=
  ((m.sound_emptyLocked hint).writeAll _).1

theorem sameFrame_rewritten :
    ((empty m.rows m.cols m.orientation hint : Matrix α).setLock true).SameFrame
      (m.rewritten hint) := ((m.sound_emptyLocked hint).writeAll _).2

theorem leadingDim_rewritten : (m.rewritten hint).leadingDim = m.leadingDim :=
  (m.sameFrame_rewritten hint).leadingDim

end

namespace Unsorted

/-- None of the writes is refused. -/
theorem fault_rewritten (h : m.Unsorted) (hint : Int) :
    (((empty m.rows m.cols m.orientation hint).setLock true).writeAll
      (storing m.entries)).1 = none :=
  (m.sound_emptyLocked hint).writeAll_fault fun _ hw => (h.inShape_storing hw).1

/-- In the end every position has the slot that it has in the given matrix. -/
theorem slotOf?_rewritten (h : m.Unsorted) (hint row col : Int) :
    (m.rewritten hint).slotOf? row col = m.slotOf? row col := by
  set fresh : Matrix α := (empty m.rows m.cols m.orientation hint).setLock true with hfresh
  have hsound : fresh.Sound := m.sound_emptyLocked hint
  rcases hs : m.slotOf? row col with _ | s
  · have hnone : fresh.slotOf? row col = none := by
      by_cases hin : fresh.InShape row col
      · obtain ⟨w, t, hp, -, ht, -⟩ := exists_locateWindow? hin
        exact (slotOf?_eq hp).trans (slotAt?_withFreshBuffers _ hint w ht)
      · rw [slotOf?, locateWindow?_of_not_inShape hin, Option.bind_none]
    refine (hsound.slotOf?_writeAll_of_untouched fun w hw hpos => ?_).trans hnone
    obtain ⟨e, he, rfl⟩ := List.mem_map.mp hw
    obtain ⟨s, hs', -⟩ := h.mem_entries_iff.mp he
    rw [show e.row = row from hpos.1, show e.col = col from hpos.2, hs] at hs'
    cases hs'
  · obtain ⟨w, t, hp, hw, -⟩ := exists_locateWindow? (inShape_of_slotOf? hs)
    obtain ⟨hmem, rfl⟩ := mem_of_slotAt? ((slotOf?_eq hp).symm.trans hs)
    have hlive := h.live w hw s hmem
    have hentry : (⟨row, col, s.value⟩ : Entry α) ∈ m.entries :=
      h.mem_entries_iff.mpr ⟨s, hs, hlive, rfl⟩
    have hdistinct : (storing m.entries).Pairwise fun a b => ¬(a.row = b.row ∧ a.col = b.col) :=
      List.pairwise_map.mpr h.entries_pairwise
    refine (hsound.slotOf?_writeAll_of_mem rfl (fun w hw => h.inShape_storing hw) hdistinct
      (List.mem_map_of_mem hentry) hp).trans ?_
    rw [← hlive]

end Unsorted

/-! ## Compressed -/

omit [Scalar α] in
/-- In a compressed matrix no window has a hole, so the indices of a window increase. -/
theorem Sound.increasing_of_compressed (h : m.Sound) (hc : m.compressed = true)
    (hw : w < m.leadingDim) : (m.window w).Pairwise fun a b => a.index < b.index :=
  (h.inOrder w hw).increasing_of_live (h.written hc w hw)

/-- A sound matrix holds what another one holds, with the same offsets and compressed, so with its
windows in order. -/
structure Arranged (m m' : Matrix α) : Prop where
  sound : m'.Sound
  compressed : m'.compressed = true
  rows : m'.rows = m.rows
  cols : m'.cols = m.cols
  orientation : m'.orientation = m.orientation
  lead : m'.lead = m.lead
  perm : ∀ w, w < m.leadingDim → (m'.window w).Perm (m.window w)

namespace Arranged

variable {m' : Matrix α}

omit [Scalar α]

theorem leadingDim (h : m.Arranged m') : m'.leadingDim = m.leadingDim := by
  rw [Matrix.leadingDim, Matrix.leadingDim, h.rows, h.cols, h.orientation]

theorem trailingDim (h : m.Arranged m') : m'.trailingDim = m.trailingDim := by
  rw [Matrix.trailingDim, Matrix.trailingDim, h.rows, h.cols, h.orientation]

theorem setLock (h : m.Arranged m') (on : Bool) : m.Arranged (m'.setLock on) :=
  ⟨h.sound.of_buffers_eq rfl rfl rfl rfl rfl, h.compressed, h.rows, h.cols, h.orientation, h.lead,
    h.perm⟩

end Arranged

/-- What is left of a matrix whose entries are written again and compressed. -/
def restored (m : Matrix α) (hint : Int) : Matrix α := (m.rewritten hint).compress.1

theorem sound_restored (m : Matrix α) (hint : Int) : (m.restored hint).Sound :=
  (m.sound_rewritten hint).compress

theorem leadingDim_restored (m : Matrix α) (hint : Int) :
    (m.restored hint).leadingDim = m.leadingDim := m.leadingDim_rewritten hint

variable (hzero : ∀ x : α, 0 + x = x)

include hzero

namespace Unsorted

theorem slotAt?_restored (h : m.Unsorted) (hint : Int) (hw : w < m.leadingDim) (ht : 0 ≤ t)
    (htb : t < m.trailingDim) : (m.restored hint).slotAt? w t = m.slotAt? w t := by
  have hp := m.locateWindow?_entryOf (s := ⟨t, 0, true⟩) hw ht htb
  have hp' := ((m.sameFrame_rewritten hint).locateWindow? _ _).trans hp
  have hw' : w < (m.rewritten hint).leadingDim := by rwa [leadingDim_rewritten]
  have hslot : (m.rewritten hint).slotAt? w t = m.slotAt? w t := by
    rw [← slotOf?_eq hp, ← slotOf?_eq hp', h.slotOf?_rewritten]
  rw [restored, (m.sound_rewritten hint).slotAt?_compress hw' ht, hslot]
  rcases hs : m.slotAt? w t with _ | s
  · rfl
  · obtain ⟨hmem, rfl⟩ := mem_of_slotAt? hs
    have hlive := h.live w hw s hmem
    have hhole : s.isHole = false := Slot.isHole_eq_false_iff.mpr (by omega)
    have hkeep : survives (m.rewritten hint).locked s = true := by
      rw [survives, hhole, hlive, Bool.or_true, Bool.not_false, Bool.and_self]
    rw [Option.filter_some, if_pos hkeep, Option.map_some, Slot.reading, if_pos hlive, hzero,
      ← hlive]

theorem mem_window_restored (h : m.Unsorted) (hint : Int) (hw : w < m.leadingDim) :
    s ∈ (m.restored hint).window w ↔ s ∈ m.window w := by
  have hsound := m.sound_restored hint
  have hw' : w < (m.restored hint).leadingDim := by rwa [leadingDim_restored]
  have htrail : (m.restored hint).trailingDim = m.trailingDim :=
    (m.sameFrame_rewritten hint).trailingDim
  constructor
  · intro hs
    obtain ⟨hlo, hhi⟩ := hsound.index_range hw' hs (hsound.written rfl w hw' s hs)
    rw [htrail] at hhi
    have hslot := (hsound.slotAt?_eq_some_iff hw' hlo).mpr ⟨hs, rfl⟩
    rw [h.slotAt?_restored hzero hint hw hlo hhi] at hslot
    exact (mem_of_slotAt? hslot).1
  · intro hs
    obtain ⟨hlo, hhi⟩ := h.inRange w hw s hs
    have hslot := (h.slotAt?_eq_some_iff hw).mpr ⟨hs, rfl⟩
    rw [← h.slotAt?_restored hzero hint hw hlo hhi] at hslot
    exact (mem_of_slotAt? hslot).1

/-- Entries written again and compressed are those of the given matrix, in order. -/
theorem arranged_restored (h : m.Unsorted) (hint : Int) : m.Arranged (m.restored hint) := by
  have hsound := m.sound_restored hint
  have hdim := m.leadingDim_restored hint
  have hperm : ∀ w, w < m.leadingDim → ((m.restored hint).window w).Perm (m.window w) := by
    intro w hw
    have hnodup : ((m.restored hint).window w).Nodup := by
      refine (hsound.increasing_of_compressed rfl (hdim.symm ▸ hw)).imp ?_
      rintro a _ hab rfl
      exact Int.lt_irrefl a.index hab
    refine (List.perm_ext_iff_of_nodup hnodup (h.distinct w hw).of_map).mpr fun s => ?_
    exact h.mem_window_restored hzero hint hw
  have hframe := m.sameFrame_rewritten hint
  exact ⟨hsound, rfl, hframe.rows, hframe.cols, hframe.orientation,
    h.cut.lead_eq_of_window_eq hsound.cut hdim fun w hw => (hperm w hw).length_eq, hperm⟩

end Unsorted

end CentralPath.Sparse.Matrix
