/-
  Finding an index in a window. The binary search returns the first place that is not below the key
  (`lowerBound_spec`), so `Matrix.locate` either names the slot of the index or a place around which
  the window is split at it (`locate_spec`, `Belongs`). `slotAt?` is the meaning of a window as a
  partial function from indices to slots; `read_eq` says that reading computes it.
-/
import CentralPath.Proofs.Sparse.Soundness

namespace CentralPath.Sparse

/-! ## Binary search -/

/-- On increasing indices the search ends between those below the key and the others. -/
theorem lowerBound_spec (index : Nat → Int) (key : Int) (low high : Nat) (hle : low ≤ high)
    (hsorted : ∀ i j, low ≤ i → i < j → j < high → index i < index j) :
    low ≤ lowerBound index key low high ∧ lowerBound index key low high ≤ high ∧
      (∀ i, low ≤ i → i < lowerBound index key low high → index i < key) ∧
      (∀ i, lowerBound index key low high ≤ i → i < high → key ≤ index i) := by
  fun_induction lowerBound index key low high with
  | case1 low high hlt mid hmid ih =>
    obtain ⟨h1, h2, h3, h4⟩ := ih (by omega) fun i j hi hij hj => hsorted i j (by omega) hij hj
    refine ⟨by omega, h2, ?_, h4⟩
    intro i hi hib
    by_cases him : i ≤ mid
    · rcases Nat.lt_or_eq_of_le him with hlt' | rfl
      · exact Int.lt_trans (hsorted i mid hi hlt' (by omega)) hmid
      · exact hmid
    · exact h3 i (by omega) hib
  | case2 low high hlt mid hmid ih =>
    obtain ⟨h1, h2, h3, h4⟩ := ih (by omega) fun i j hi hij hj => hsorted i j hi hij (by omega)
    refine ⟨h1, by omega, h3, ?_⟩
    intro i hi hih
    by_cases him : i < mid
    · exact h4 i hi him
    · rcases Nat.lt_or_eq_of_le (Nat.le_of_not_lt him) with hlt' | heq
      · have := hsorted mid i (by omega) hlt' hih
        omega
      · rw [← heq]
        omega
  | case3 low high hlt =>
    exact ⟨Nat.le_refl _, hle, fun i _ _ => by omega, fun i _ _ => by omega⟩

namespace Matrix

variable {α : Type} {m : Matrix α} {w : Nat} {t : Int} {i : Nat} {s : Slot α}

/-! ## Single slots -/

theorem indexAt_eq (h : m.slots[i]? = some s) : m.indexAt i = s.index := by
  rw [indexAt, h]
  rfl

theorem holeAt_eq_true_iff : m.holeAt i = true ↔ ∃ s, m.slots[i]? = some s ∧ s.isHole = true := by
  rw [holeAt]
  rcases m.slots[i]? with _ | s <;> simp

/-- Every place of a window has a slot. -/
theorem Cut.exists_slot (h : m.Cut) (hw : w < m.leadingDim) (hi : i < m.start (w + 1)) :
    ∃ s, m.slots[i]? = some s := by
  have := h.start_le_capacity (show w + 1 ≤ m.leadingDim by omega)
  exact ⟨m.slots[i], Array.getElem?_eq_getElem (by omega)⟩

/-! ## Filled slots -/

/-- The holes of a window in order begin behind its filled slots. -/
theorem Sound.isHole_iff (h : m.Sound) (hw : w < m.leadingDim) (hwi : m.start w ≤ i)
    (hi : i < m.start (w + 1)) (hs : m.slots[i]? = some s) :
    s.isHole = true ↔ m.start w + m.filled w ≤ i := by
  have hwin := (getElem?_window_sub hwi hi).trans hs
  obtain ⟨hk, hget⟩ := List.getElem?_eq_some_iff.mp hwin
  constructor
  · intro hhole
    by_contra hlt
    have hbefore : i - m.start w < (m.window w).findIdx Slot.isHole := by
      rw [filled] at hlt
      omega
    have := List.not_of_lt_findIdx hbefore
    rw [hget, hhole] at this
    exact absurd this (by decide)
  · intro hle
    have hlt : m.filled w < (m.window w).length := by omega
    have hfirst : (m.window w)[m.filled w].isHole = true := List.findIdx_getElem
    rcases Nat.lt_or_eq_of_le (show m.filled w ≤ i - m.start w by omega) with hlt' | heq
    · have := List.pairwise_iff_getElem.mp (h.inOrder w hw).ordered _ _ hlt hk hlt'
      rw [hget] at this
      exact this.isHole hfirst
    · simp only [heq, hget] at hfirst
      exact hfirst

theorem Cut.filled_le (h : m.Cut) (hw : w < m.leadingDim) :
    m.start w + m.filled w ≤ m.start (w + 1) := by
  have hlen := h.length_window hw
  have hle : m.filled w ≤ (m.window w).length := List.findIdx_le_length
  have := h.start_le_succ w hw
  omega

/-! ## Places -/

/-- A window is split at place `i` by index `t`: smaller entries before it, larger ones and holes
from it on. -/
structure Belongs (m : Matrix α) (w : Nat) (t : Int) (i : Nat) : Prop where
  start_le : m.start w ≤ i
  le_end : i ≤ m.start (w + 1)
  below : ∀ j s, m.start w ≤ j → j < i → m.slots[j]? = some s → s.isHole = false ∧ s.index < t
  above : ∀ j s, i ≤ j → j < m.start (w + 1) → m.slots[j]? = some s →
    s.isHole = true ∨ t < s.index

/-- What a place says about its window. -/
def Located (m : Matrix α) (w : Nat) (t : Int) : Place Nat → Prop
  | .found i => m.start w ≤ i ∧ i < m.start (w + 1) ∧ ∃ s, m.slots[i]? = some s ∧ s.index = t
  | .vacant i => m.Belongs w t i ∧ i < m.start (w + 1) ∧ m.holeAt i = true
  | .crowded i => m.Belongs w t i

/-- Finding a place in sound buffers is right about it. -/
theorem Sound.locate_spec (h : m.Sound) (hw : w < m.leadingDim) (t : Int) :
    m.Located w t (m.locate w t) := by
  have hfill := h.cut.filled_le hw
  have hslot : ∀ i, i < m.start (w + 1) → ∃ s, m.slots[i]? = some s :=
    fun i hi => h.cut.exists_slot hw hi
  have hsorted : ∀ i j, 0 ≤ i → i < j → j < m.filled w →
      m.indexAt (m.start w + i) < m.indexAt (m.start w + j) := by
    intro i j _ hij hj
    obtain ⟨a, ha⟩ := hslot (m.start w + i) (by omega)
    obtain ⟨b, hb⟩ := hslot (m.start w + j) (by omega)
    have hbefore := pairwise_window_iff.mp (h.inOrder w hw).ordered _ _ a b (by omega)
      (show m.start w + i < m.start w + j by omega) (by omega) ha hb
    have hb' : b.isHole = false := by
      rw [← Bool.not_eq_true, h.isHole_iff hw (by omega) (by omega) hb]
      omega
    rw [indexAt_eq ha, indexAt_eq hb]
    exact hbefore.index_lt hb'
  obtain ⟨-, hle, hbelow, habove⟩ := lowerBound_spec (fun i => m.indexAt (m.start w + i)) t 0
    (m.filled w) (Nat.zero_le _) hsorted
  simp only [locate]
  set k := lowerBound (fun i => m.indexAt (m.start w + i)) t 0 (m.filled w) with hk
  have hbelongs : ¬(k < m.filled w ∧ m.indexAt (m.start w + k) = t) →
      m.Belongs w t (m.start w + k) := by
    intro hne
    refine ⟨by omega, by omega, ?_, ?_⟩
    · intro j s hwj hj hs
      refine ⟨?_, ?_⟩
      · rw [← Bool.not_eq_true, h.isHole_iff hw hwj (by omega) hs]
        omega
      · have := hbelow (j - m.start w) (Nat.zero_le _) (by omega)
        rwa [show m.start w + (j - m.start w) = j by omega, indexAt_eq hs] at this
    · intro j s hj hje hs
      by_cases hjf : m.start w + m.filled w ≤ j
      · exact Or.inl ((h.isHole_iff hw (by omega) hje hs).mpr hjf)
      · -- the first entry from the place on is not the one looked for, so all are larger
        right
        have hkey := habove k (Nat.le_refl _) (by omega)
        have hlarger : t < m.indexAt (m.start w + k) := by
          have : m.indexAt (m.start w + k) ≠ t := fun he => hne ⟨by omega, he⟩
          omega
        rcases Nat.lt_or_eq_of_le hj with hlt | heq
        · have := hsorted k (j - m.start w) (Nat.zero_le _) (by omega) (by omega)
          rw [show m.start w + (j - m.start w) = j by omega, indexAt_eq hs] at this
          omega
        · rw [heq, indexAt_eq hs] at hlarger
          exact hlarger
  split_ifs with hfound hvacant
  · obtain ⟨s, hs⟩ := hslot (m.start w + k) (by omega)
    exact ⟨by omega, by omega, s, hs, by rw [← indexAt_eq hs]; exact hfound.2⟩
  · obtain ⟨s, hs⟩ := hslot (m.start w + k) (by omega)
    refine ⟨hbelongs hfound, by omega, holeAt_eq_true_iff.mpr ⟨s, hs, ?_⟩⟩
    rw [h.isHole_iff hw (by omega) (by omega) hs]
    omega
  · exact hbelongs hfound

/-- An entry has one place only in its window. -/
theorem Sound.place_inj (h : m.Sound) (hw : w < m.leadingDim) {i j : Nat} (hwi : m.start w ≤ i)
    (hi : i < m.start (w + 1)) (hwj : m.start w ≤ j) (hj : j < m.start (w + 1))
    (hsi : m.slots[i]? = some s) (hsj : m.slots[j]? = some s) (hhole : s.isHole = false) :
    j = i := by
  have hord := pairwise_window_iff.mp (h.inOrder w hw).ordered
  rcases Nat.lt_trichotomy j i with hlt | heq | hlt
  · exact absurd ((hord j i s s hwj hlt hi hsj hsi).index_lt hhole) (Int.lt_irrefl _)
  · exact heq
  · exact absurd ((hord i j s s hwi hlt hj hsi hsj).index_lt hhole) (Int.lt_irrefl _)

/-! ## The meaning of a window -/

/-- The slot of an index in a window. -/
def slotAt? (m : Matrix α) (w : Nat) (t : Int) : Option (Slot α) :=
  (m.window w).find? fun s => s.index == t

theorem slotAt?_eq_none_iff : m.slotAt? w t = none ↔ ∀ s ∈ m.window w, s.index ≠ t := by
  simp [slotAt?]

theorem mem_of_slotAt? (h : m.slotAt? w t = some s) : s ∈ m.window w ∧ s.index = t :=
  ⟨List.mem_of_find?_eq_some h, by simpa using List.find?_some h⟩

/-- Where an index has one slot at most, a search of the window finds it. -/
theorem slotAt?_eq_some_iff_of_unique
    (hunique : ∀ a ∈ m.window w, ∀ b ∈ m.window w, a.index = t → b.index = t → a = b) :
    m.slotAt? w t = some s ↔ s ∈ m.window w ∧ s.index = t := by
  refine ⟨mem_of_slotAt?, fun ⟨hs, ht⟩ => ?_⟩
  rcases hfind : m.slotAt? w t with _ | s'
  · exact absurd ht (slotAt?_eq_none_iff.mp hfind s hs)
  · obtain ⟨hs', ht'⟩ := mem_of_slotAt? hfind
    rw [hunique s' hs' s hs ht' ht]

/-- In sound buffers an index of the shape has one slot at most. -/
theorem Sound.slotAt?_eq_some_iff (h : m.Sound) (hw : w < m.leadingDim) (ht : 0 ≤ t) :
    m.slotAt? w t = some s ↔ s ∈ m.window w ∧ s.index = t := by
  refine slotAt?_eq_some_iff_of_unique fun a ha b hb hat hbt => ?_
  have hhole : a.isHole = false := Slot.isHole_eq_false_iff.mpr (by omega)
  exact (h.inOrder w hw).index_inj ha hb hhole (hat.trans hbt.symm)

/-- Two sound matrices give an index the same slot if their windows have the same entries. -/
theorem Sound.slotAt?_congr {m' : Matrix α} {v : Nat} (h : m.Sound) (h' : m'.Sound)
    (hw : w < m.leadingDim) (hv : v < m'.leadingDim) (ht : 0 ≤ t)
    (hmem : ∀ s : Slot α, s.index = t → (s ∈ m'.window v ↔ s ∈ m.window w)) :
    m'.slotAt? v t = m.slotAt? w t := by
  apply Option.ext
  intro s
  rw [h'.slotAt?_eq_some_iff hv ht, h.slotAt?_eq_some_iff hw ht]
  exact ⟨fun hs => ⟨(hmem s hs.2).mp hs.1, hs.2⟩, fun hs => ⟨(hmem s hs.2).mpr hs.1, hs.2⟩⟩

/-- The place of an index tells whether it has a slot. -/
theorem Sound.slotAt?_of_locate (h : m.Sound) (hw : w < m.leadingDim) (ht : 0 ≤ t) :
    m.slotAt? w t = match m.locate w t with
      | .found i => m.slots[i]?
      | _ => none := by
  have hspec := h.locate_spec hw t
  have hnone : ∀ i, m.Belongs w t i → m.slotAt? w t = none := by
    intro i hb
    rw [slotAt?_eq_none_iff]
    intro s hs
    obtain ⟨j, hwj, hj, hsj⟩ := mem_window_iff.mp hs
    by_cases hji : j < i
    · have := (hb.below j s hwj hji hsj).2
      omega
    · rcases hb.above j s (by omega) hj hsj with hhole | hlt
      · rw [Slot.isHole_iff.mp hhole]
        omega
      · omega
  split
  · rename_i i hplace
    rw [hplace] at hspec
    obtain ⟨hwi, hi, s, hs, hst⟩ := hspec
    rw [hs, h.slotAt?_eq_some_iff hw ht]
    exact ⟨mem_window_iff.mpr ⟨i, hwi, hi, hs⟩, hst⟩
  · rcases hplace : m.locate w t with i | i | i
    · rename_i hne
      exact absurd hplace (hne i)
    · rw [hplace] at hspec
      exact hnone i hspec.1
    · rw [hplace] at hspec
      exact hnone i hspec

/-- Reading a position gives what its slot contributes. -/
theorem Sound.read_eq [Zero α] (h : m.Sound) (hw : w < m.leadingDim) (ht : 0 ≤ t) :
    m.read w t = ((m.slotAt? w t).map Slot.reading).getD 0 := by
  rw [h.slotAt?_of_locate hw ht, read]
  cases m.locate w t <;> rfl

end Matrix

end CentralPath.Sparse
