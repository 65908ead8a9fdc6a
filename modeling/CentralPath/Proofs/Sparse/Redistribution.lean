/-
  Redistribution of the buffer. It lays out every window anew: its entries in order, with the open
  slot in place, and its share of holes behind them (`redistribute_laidOut`). The shares only decide
  how many holes that are, so the slot is open in the sense of `Opened` whatever they are.
-/
import CentralPath.Proofs.Sparse.Room

namespace CentralPath.Sparse

/-- Past an inserted element a list goes on as before. -/
theorem getElem?_append_cons_of_ne {β : Type} (a : List β) (x : β) (b : List β) {i : Nat}
    (h : i ≠ a.length) :
    (a ++ x :: b)[i]? = (a ++ b)[if i < a.length then i else i - 1]? := by
  by_cases hi : i < a.length
  · rw [if_pos hi, List.getElem?_append_left hi, List.getElem?_append_left hi]
  · rw [if_neg hi, List.getElem?_append_right (by omega), List.getElem?_append_right (by omega),
      show i - a.length = (i - 1 - a.length) + 1 by omega, List.getElem?_cons_succ]

namespace Matrix

variable {α : Type} {m : Matrix α} {w v i k pos : Nat} {t : Int} {s : Slot α}

/-! ## Entries around a place -/

theorem occupiedBefore_append_occupiedFrom (m : Matrix α) (w pos : Nat) :
    m.occupiedBefore w pos ++ m.occupiedFrom w pos = m.occupied w := by
  rw [occupiedBefore, occupiedFrom, occupied, ← List.filter_append, List.take_append_drop]

theorem mem_occupied_iff_before_or_from (pos : Nat) :
    s ∈ m.occupied w ↔ s ∈ m.occupiedBefore w pos ∨ s ∈ m.occupiedFrom w pos := by
  rw [← occupiedBefore_append_occupiedFrom m w pos, List.mem_append]

theorem mem_occupied_iff : s ∈ m.occupied w ↔ s ∈ m.window w ∧ s.isHole = false := by
  simp [occupied]

theorem Sound.inOrder_occupied (h : m.Sound) (hw : w < m.leadingDim) :
    InOrder m.trailingDim (m.occupied w) :=
  ⟨fun s hs => (h.inOrder w hw).fits s (mem_occupied_iff.mp hs).1, (h.inOrder w hw).ordered.filter _⟩

theorem Belongs.of_mem_occupiedBefore (hb : m.Belongs w t pos) (hs : s ∈ m.occupiedBefore w pos) :
    s.isHole = false ∧ s.index < t := by
  obtain ⟨k, hk⟩ := List.mem_iff_getElem?.mp (List.mem_of_mem_filter hs)
  rw [List.getElem?_take] at hk
  split at hk
  · rw [getElem?_window] at hk
    split at hk
    · exact hb.below _ s (by omega) (by omega) hk
    · cases hk
  · cases hk

theorem Belongs.of_mem_occupiedFrom (hb : m.Belongs w t pos) (hs : s ∈ m.occupiedFrom w pos) :
    s.isHole = true ∨ t < s.index := by
  have hstart := hb.start_le
  obtain ⟨k, hk⟩ := List.mem_iff_getElem?.mp (List.mem_of_mem_filter hs)
  rw [List.getElem?_drop, getElem?_window] at hk
  split at hk
  · exact hb.above _ s (by omega) (by omega) hk
  · cases hk

variable [Zero α]

/-! ## Layout -/

/-- The windows that a redistribution lays out. -/
def regrownWindows (m : Matrix α) (pos target : Nat) : List (List (Slot α)) :=
  (shares (m.grownCapacity (totalOf (m.weights target)) - totalOf (m.weights target))
    (m.weights target) target).mapIdx fun w k => m.regrown pos target k w

theorem length_regrownWindows (m : Matrix α) (pos target : Nat) :
    (m.regrownWindows pos target).length = m.leadingDim := by
  simp [regrownWindows, shares, weights]

theorem redistribute_laidOut (m : Matrix α) (pos target : Nat) :
    (m.redistribute pos target).1.LaidOut (m.regrownWindows pos target) [] := by
  refine ⟨length_regrownWindows m pos target, rfl, ?_⟩
  rw [List.append_nil]
  rfl

theorem sameFrame_redistribute (m : Matrix α) (pos target : Nat) :
    m.SameFrame (m.redistribute pos target).1 := ⟨rfl, rfl, rfl, rfl, rfl, rfl⟩

/-- A window holds its entries, the open slot among them in its own window, and holes. -/
theorem window_redistribute (pos target : Nat) (hv : v < m.leadingDim) :
    ∃ n, (m.redistribute pos target).1.window v =
      (if v = target then m.occupiedBefore v pos ++ Slot.free :: m.occupiedFrom v pos
        else m.occupied v) ++ List.replicate n Slot.free := by
  have hlen : v < (m.regrownWindows pos target).length := by
    rwa [length_regrownWindows]
  rw [(redistribute_laidOut m pos target).window_eq hlen]
  simp only [regrownWindows, List.getElem_mapIdx, regrown]
  exact ⟨_, rfl⟩

/-- Number of entries before the open slot of a redistribution. -/
def entriesBefore (m : Matrix α) (pos target : Nat) : Nat := (m.occupiedBefore target pos).length

/-- Apart from the open slot a window holds its entries and holes behind them. -/
theorem getElem?_window_redistribute (pos target : Nat) (hv : v < m.leadingDim) :
    ∃ n, ∀ k, (v = target → k ≠ m.entriesBefore pos target) →
      ((m.redistribute pos target).1.window v)[k]? =
        (m.occupied v ++ List.replicate n Slot.free)[
          if v = target ∧ m.entriesBefore pos target < k then k - 1 else k]? := by
  obtain ⟨n, hn⟩ := window_redistribute (m := m) pos target hv
  refine ⟨n, fun k hk => ?_⟩
  rw [hn]
  by_cases hvt : v = target
  · subst hvt
    have hne : k ≠ (m.occupiedBefore v pos).length := hk rfl
    rw [if_pos rfl, List.append_assoc, List.cons_append, getElem?_append_cons_of_ne _ _ _ hne,
      ← List.append_assoc, occupiedBefore_append_occupiedFrom, entriesBefore]
    congr 1
    split_ifs <;> omega
  · rw [if_neg hvt, if_neg fun hc => hvt hc.1]

/-! ## The open slot -/

/-- The slot that a redistribution opens is free. -/
theorem getElem?_window_redistribute_open (pos : Nat) (hw : w < m.leadingDim) :
    ((m.redistribute pos w).1.window w)[m.entriesBefore pos w]? = some Slot.free := by
  obtain ⟨n, hn⟩ := window_redistribute (m := m) pos w hw
  rw [hn, if_pos rfl, List.append_assoc, entriesBefore, List.getElem?_append_right (Nat.le_refl _),
    Nat.sub_self]
  rfl

/-- A window holds its entries and free slots. -/
theorem mem_window_redistribute (pos target : Nat) (hv : v < m.leadingDim)
    (hs : s ∈ (m.redistribute pos target).1.window v) : s = Slot.free ∨ s ∈ m.occupied v := by
  obtain ⟨n, hn⟩ := window_redistribute (m := m) pos target hv
  rw [hn] at hs
  rcases List.mem_append.mp hs with hs | hs
  · split_ifs at hs
    · rw [List.mem_append, List.mem_cons] at hs
      rw [mem_occupied_iff_before_or_from pos]
      tauto
    · exact Or.inr hs
  · exact Or.inl (List.eq_of_mem_replicate hs)

/-- No entry leaves its window. -/
theorem mem_window_redistribute_of_mem_occupied (pos target : Nat) (hv : v < m.leadingDim)
    (hs : s ∈ m.occupied v) : s ∈ (m.redistribute pos target).1.window v := by
  obtain ⟨n, hn⟩ := window_redistribute (m := m) pos target hv
  rw [hn]
  refine List.mem_append_left _ ?_
  split_ifs
  · rw [mem_occupied_iff_before_or_from pos] at hs
    rw [List.mem_append, List.mem_cons]
    tauto
  · exact hs

/-- Apart from the open slot, the slots of a window of a redistribution are in order. -/
theorem Sound.before_redistribute (h : m.Sound) (pos target : Nat) (hv : v < m.leadingDim) {j : Nat}
    {a b : Slot α} (hij : i < j) (hi : v = target → i ≠ m.entriesBefore pos target)
    (hj : v = target → j ≠ m.entriesBefore pos target)
    (ha : ((m.redistribute pos target).1.window v)[i]? = some a)
    (hb : ((m.redistribute pos target).1.window v)[j]? = some b) : a.Before b := by
  obtain ⟨n, hn⟩ := getElem?_window_redistribute (m := m) pos target hv
  rw [hn i hi] at ha
  rw [hn j hj] at hb
  obtain ⟨hi', rfl⟩ := List.getElem?_eq_some_iff.mp ha
  obtain ⟨hj', rfl⟩ := List.getElem?_eq_some_iff.mp hb
  refine List.pairwise_iff_getElem.mp ((h.inOrder_occupied hv).append_free n).ordered _ _ hi' hj' ?_
  split_ifs <;> omega

/-- In front of the open slot are the entries that belong in front of the index. -/
theorem Belongs.below_redistribute (hb : m.Belongs w t pos) (hw : w < m.leadingDim)
    (hi : i < m.entriesBefore pos w) (hs : ((m.redistribute pos w).1.window w)[i]? = some s) :
    s.isHole = false ∧ s.index < t := by
  obtain ⟨n, hn⟩ := window_redistribute (m := m) pos w hw
  rw [hn, if_pos rfl, List.append_assoc, List.getElem?_append_left hi] at hs
  exact hb.of_mem_occupiedBefore (List.mem_of_getElem? hs)

/-- Behind the open slot are the entries that belong behind the index, and holes. -/
theorem Belongs.above_redistribute (hb : m.Belongs w t pos) (hw : w < m.leadingDim)
    (hi : m.entriesBefore pos w < i) (hs : ((m.redistribute pos w).1.window w)[i]? = some s) :
    s.isHole = true ∨ t < s.index := by
  obtain ⟨n, hn⟩ := window_redistribute (m := m) pos w hw
  obtain ⟨k, rfl⟩ := Nat.exists_eq_add_of_lt hi
  rw [hn, if_pos rfl, List.append_assoc, List.getElem?_append_right (by rw [← entriesBefore]; omega),
    show m.entriesBefore pos w + k + 1 - (m.occupiedBefore w pos).length = k + 1 by
      rw [← entriesBefore]; omega,
    List.cons_append, List.getElem?_cons_succ] at hs
  rcases List.mem_append.mp (List.mem_of_getElem? hs) with hs | hs
  · exact hb.of_mem_occupiedFrom hs
  · rw [List.eq_of_mem_replicate hs]
    exact Or.inl Slot.isHole_free

/-- A redistribution opens a slot of the window for the index. -/
theorem Sound.opened_redistribute (h : m.Sound) (hw : w < m.leadingDim) (hb : m.Belongs w t pos) :
    m.Opened (m.redistribute pos w).1 w t (m.redistribute pos w).2 := by
  have hcut : (m.redistribute pos w).1.Cut := (redistribute_laidOut m pos w).cut
  have hp : (m.redistribute pos w).2 = (m.redistribute pos w).1.start w + m.entriesBefore pos w := rfl
  have hopen := getElem?_window_redistribute_open (m := m) pos hw
  have hlt := (List.getElem?_eq_some_iff.mp hopen).1
  rw [hcut.length_window hw] at hlt
  rw [hp]
  refine ⟨sameFrame_redistribute m pos w, hcut, by omega, by omega, ?_, ?_, ?_, ?_, ?_⟩
  · intro v i s hv hvi hi _ hs
    rcases mem_window_redistribute pos w hv (mem_window_iff.mpr ⟨i, hvi, hi, hs⟩) with rfl | hs
    · exact ⟨Slot.fits_free _, fun hhole => by cases hhole⟩
    · exact ⟨(h.inOrder_occupied hv).fits s hs, fun _ => (mem_occupied_iff.mp hs).1⟩
  · intro v s hv hs hhole
    obtain ⟨i, hvi, hi, hsi⟩ := mem_window_iff.mp <|
      mem_window_redistribute_of_mem_occupied pos w hv (mem_occupied_iff.mpr ⟨hs, hhole⟩)
    refine ⟨i, ?_, hvi, hi, hsi⟩
    -- the open slot is free, and this one is not
    rintro rfl
    rw [getElem?_window, if_pos (by omega), hsi] at hopen
    obtain rfl := Option.some.inj hopen
    cases hhole
  · intro v i j a b hv hvi hij hj hip hjp ha hb'
    refine h.before_redistribute pos w hv (i := i - (m.redistribute pos w).1.start v)
      (j := j - (m.redistribute pos w).1.start v) (by omega) ?_ ?_
      ((getElem?_window_sub hvi (by omega)).trans ha)
      ((getElem?_window_sub (by omega) hj).trans hb')
    · rintro rfl
      omega
    · rintro rfl
      omega
  · intro i s hwi hip hs
    exact hb.below_redistribute hw (by omega) ((getElem?_window_sub hwi (by omega)).trans hs)
  · intro i s hip hi hs
    exact hb.above_redistribute hw (by omega) ((getElem?_window_sub (by omega) hi).trans hs)

/-- A slot for a new entry is open, wherever it comes from. -/
theorem Sound.opened_openSlot (h : m.Sound) (hw : w < m.leadingDim) {spot : Place Nat}
    (hspot : m.Located w t spot) (hnew : ∀ i, spot ≠ .found i) :
    m.Opened (m.openSlot w spot).1 w t (m.openSlot w spot).2 := by
  cases spot with
  | found i => exact absurd rfl (hnew i)
  | vacant i =>
    obtain ⟨hb, hlt, hhole⟩ := hspot
    exact h.opened_self hw hb hlt hhole
  | crowded i =>
    have hb : m.Belongs w t i := hspot
    rw [openSlot]
    rcases hroom : m.makeRoom? i w with _ | opened
    · exact h.opened_redistribute hw hb
    · exact h.opened_makeRoom? hw hb hroom

end Matrix

end CentralPath.Sparse
