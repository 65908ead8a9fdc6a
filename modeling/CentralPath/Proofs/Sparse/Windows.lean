/-
  Offsets that cut the buffer into windows. `Cut` states what `Matrix.isCut` decides, over the
  natural numbers `Matrix.start`: they begin at zero, do not decrease and end within the buffer.
  Everything that later modules need of offsets is read off `Cut`: which slots a window holds
  (`mem_window_iff`), that windows lie one behind another (`Cut.start_mono`), that they fill the
  used slots (`Cut.mem_usedSlots`), and that buffers laid out as a list of windows are cut into
  those windows (`LaidOut.window_eq`).
-/
import CentralPath.Sparse.Insertion
import Mathlib

namespace CentralPath.Sparse

/-! ## Neighbours -/

/-- No pair of neighbours passes a test exactly when the list is a chain for its negation. -/
theorem any_neighbours_eq_false {β : Type} {p : β → β → Bool} (l : List β) :
    ((l.zip l.tail).any fun x => p x.1 x.2) = false ↔ l.IsChain fun a b => p a b = false := by
  induction l with
  | nil => simp
  | cons a l ih =>
    cases l with
    | nil => simp
    | cons b l =>
      rw [List.isChain_cons_cons, ← ih]
      simp

/-! ## Running totals -/

theorem totalOf_eq_sum (sizes : List Nat) : totalOf sizes = sizes.sum := by
  induction sizes with
  | nil => rfl
  | cons k ks ih => rw [List.sum_cons, ← ih]; rfl

theorem getElem?_runningOffsets (first : Nat) (sizes : List Nat) (i : Nat) :
    (runningOffsets first sizes)[i]? =
      if i ≤ sizes.length then some (first + (sizes.take i).sum) else none := by
  induction sizes generalizing first i with
  | nil => cases i <;> simp [runningOffsets]
  | cons k ks ih =>
    cases i with
    | zero => simp [runningOffsets]
    | succ i =>
      rw [runningOffsets, List.getElem?_cons_succ, ih, List.take_succ_cons, List.sum_cons,
        List.length_cons]
      by_cases h : i ≤ ks.length
      · rw [if_pos h, if_pos (Nat.succ_le_succ h), Nat.add_assoc]
      · rw [if_neg h, if_neg fun h' => h (Nat.le_of_succ_le_succ h')]

theorem getElem?_offsetsOf {sizes : List Nat} {i : Nat} (h : i ≤ sizes.length) :
    (offsetsOf sizes)[i]? = some ((sizes.take i).sum : Int) := by
  simp [offsetsOf, getElem?_runningOffsets, h]

namespace Matrix

variable {α : Type} {m : Matrix α} {w v i : Nat} {s : Slot α}

/-! ## Slots of a window -/

theorem getElem?_window (m : Matrix α) (w k : Nat) :
    (m.window w)[k]? =
      if m.start w + k < m.start (w + 1) then m.slots[m.start w + k]? else none := by
  rw [window, Array.getElem?_toList, Array.getElem?_extract]
  by_cases h : m.start w + k < m.start (w + 1)
  · rw [if_pos h]
    by_cases hs : m.start w + k < m.slots.size
    · rw [if_pos (by omega)]
    · rw [if_neg (by omega), Array.getElem?_eq_none (by omega)]
  · rw [if_neg h, if_neg (by omega)]

/-- A slot of a window by its place in the buffer. -/
theorem getElem?_window_sub (hwi : m.start w ≤ i) (hi : i < m.start (w + 1)) :
    (m.window w)[i - m.start w]? = m.slots[i]? := by
  rw [getElem?_window, Nat.add_sub_cancel' hwi, if_pos hi]

/-- A window holds the slots between its offset and the next one. -/
theorem mem_window_iff :
    s ∈ m.window w ↔ ∃ i, m.start w ≤ i ∧ i < m.start (w + 1) ∧ m.slots[i]? = some s := by
  rw [List.mem_iff_getElem?]
  constructor
  · rintro ⟨k, hk⟩
    rw [getElem?_window] at hk
    split at hk
    · exact ⟨m.start w + k, by omega, by omega, hk⟩
    · cases hk
  · rintro ⟨i, hw, hi, hs⟩
    exact ⟨i - m.start w, (getElem?_window_sub hw hi).trans hs⟩

/-- A relation holds along a window exactly when it holds between the slots of its range. -/
theorem pairwise_window_iff {R : Slot α → Slot α → Prop} :
    (m.window w).Pairwise R ↔
      ∀ i j a b, m.start w ≤ i → i < j → j < m.start (w + 1) → m.slots[i]? = some a →
        m.slots[j]? = some b → R a b := by
  rw [List.pairwise_iff_getElem]
  constructor
  · intro h i j a b hi hij hj ha hb
    have hai := (getElem?_window_sub hi (by omega)).trans ha
    have hbj := (getElem?_window_sub (by omega) hj).trans hb
    obtain ⟨hi', rfl⟩ := List.getElem?_eq_some_iff.mp hai
    obtain ⟨hj', rfl⟩ := List.getElem?_eq_some_iff.mp hbj
    exact h _ _ hi' hj' (by omega)
  · intro h i j hi hj hij
    have hai := List.getElem?_eq_getElem hi
    have hbj := List.getElem?_eq_getElem hj
    rw [getElem?_window] at hai hbj
    split at hai
    · split at hbj
      · exact h _ _ _ _ (by omega) (by omega) (by assumption) hai hbj
      · cases hbj
    · cases hai

/-- Two matrices agree on a window when offsets and slots of it agree. -/
theorem window_congr {m' : Matrix α} (hs : m'.start w = m.start w)
    (he : m'.start (w + 1) = m.start (w + 1))
    (h : ∀ i, m.start w ≤ i → i < m.start (w + 1) → m'.slots[i]? = m.slots[i]?) :
    m'.window w = m.window w := by
  apply List.ext_getElem?
  intro k
  rw [getElem?_window, getElem?_window, hs, he]
  split
  · exact h _ (by omega) (by assumption)
  · rfl

/-! ## Offsets in order -/

/-- The offsets cut the buffer into windows. -/
structure Cut (m : Matrix α) : Prop where
  size_lead : m.lead.size = m.leadingDim + 1
  lead_eq : ∀ w, w ≤ m.leadingDim → m.lead[w]? = some (m.start w : Int)
  start_zero : m.start 0 = 0
  start_le_succ : ∀ w, w < m.leadingDim → m.start w ≤ m.start (w + 1)
  end_le : m.start m.leadingDim ≤ m.capacity

theorem Cut.start_mono (h : m.Cut) (hwv : w ≤ v) (hv : v ≤ m.leadingDim) :
    m.start w ≤ m.start v := by
  induction hwv with
  | refl => exact Nat.le_refl _
  | @step v _ ih => exact Nat.le_trans (ih (by omega)) (h.start_le_succ v (by omega))

theorem Cut.start_le_end (h : m.Cut) (hw : w ≤ m.leadingDim) :
    m.start w ≤ m.start m.leadingDim := h.start_mono hw (Nat.le_refl _)

theorem Cut.start_le_capacity (h : m.Cut) (hw : w ≤ m.leadingDim) : m.start w ≤ m.slots.size :=
  Nat.le_trans (h.start_le_end hw) h.end_le

theorem Cut.length_window (h : m.Cut) (hw : w < m.leadingDim) :
    (m.window w).length = m.start (w + 1) - m.start w := by
  have := h.start_le_capacity (show w + 1 ≤ m.leadingDim by omega)
  rw [window, Array.length_toList, Array.size_extract]
  omega

theorem Cut.usedLength_eq (h : m.Cut) : m.usedLength = (m.start m.leadingDim : Int) := by
  have hl := h.lead_eq m.leadingDim (Nat.le_refl _)
  rw [usedLength, Array.back?, h.size_lead, Nat.add_sub_cancel, hl, Option.getD_some]

theorem Cut.usedCount_eq (h : m.Cut) : m.usedCount = m.start m.leadingDim := by
  rw [usedCount, h.usedLength_eq, endPoint_of_le h.end_le]

/-- The window that a used position lies in. -/
theorem Cut.exists_window (h : m.Cut) (hi : i < m.start m.leadingDim) :
    ∃ w, w < m.leadingDim ∧ m.start w ≤ i ∧ i < m.start (w + 1) := by
  have key : ∀ k, k ≤ m.leadingDim → i < m.start k →
      ∃ w, w < k ∧ m.start w ≤ i ∧ i < m.start (w + 1) := by
    intro k
    induction k with
    | zero => intro _ hk; rw [h.start_zero] at hk; omega
    | succ k ih =>
      intro hk hik
      by_cases hlt : i < m.start k
      · obtain ⟨w, hw, hwi⟩ := ih (by omega) hlt
        exact ⟨w, by omega, hwi⟩
      · exact ⟨k, by omega, by omega, hik⟩
  exact key _ (Nat.le_refl _) hi

theorem Cut.getElem?_usedSlots (h : m.Cut) (i : Nat) :
    m.usedSlots[i]? = if i < m.start m.leadingDim then m.slots[i]? else none := by
  rw [usedSlots, h.usedCount_eq, List.getElem?_take, Array.getElem?_toList]

/-- The windows hold the used slots and no others. -/
theorem Cut.mem_usedSlots (h : m.Cut) :
    s ∈ m.usedSlots ↔ ∃ w, w < m.leadingDim ∧ s ∈ m.window w := by
  rw [List.mem_iff_getElem?]
  simp only [h.getElem?_usedSlots]
  constructor
  · rintro ⟨i, hi⟩
    split at hi
    · obtain ⟨w, hw, hlo, hhi⟩ := h.exists_window (by assumption)
      exact ⟨w, hw, mem_window_iff.mpr ⟨i, hlo, hhi, hi⟩⟩
    · cases hi
  · rintro ⟨w, hw, hs⟩
    obtain ⟨i, -, hi, hs⟩ := mem_window_iff.mp hs
    have := h.start_le_end (show w + 1 ≤ m.leadingDim by omega)
    exact ⟨i, by rw [if_pos (by omega), hs]⟩

/-- Of two windows one lies behind the other. -/
theorem Cut.apart (h : m.Cut) (hw : w < m.leadingDim) (hv : v < m.leadingDim) :
    w < v ∧ m.start (w + 1) ≤ m.start v ∨ w = v ∨ v < w ∧ m.start (v + 1) ≤ m.start w := by
  rcases Nat.lt_trichotomy w v with hlt | rfl | hlt
  · exact .inl ⟨hlt, h.start_mono hlt (Nat.le_of_lt hv)⟩
  · exact .inr (.inl rfl)
  · exact .inr (.inr ⟨hlt, h.start_mono hlt (Nat.le_of_lt hw)⟩)

/-- A position in a window lies in no other. -/
theorem Cut.window_unique (h : m.Cut) (hw : w < m.leadingDim) (hv : v < m.leadingDim)
    (hwi : m.start w ≤ i) (hiw : i < m.start (w + 1)) (hvi : m.start v ≤ i)
    (hiv : i < m.start (v + 1)) : w = v := by
  rcases h.apart hw hv with ⟨-, hle⟩ | rfl | ⟨-, hle⟩
  · omega
  · rfl
  · omega

theorem offsetsDecrease_eq_false_iff :
    m.offsetsDecrease = false ↔ m.lead.toList.Pairwise (· ≤ ·) := by
  have h := any_neighbours_eq_false (p := fun a b => decide (b < a)) m.lead.toList
  simp only [decide_eq_false_iff_not, Int.not_lt] at h
  rw [← List.isChain_iff_pairwise, ← h]
  rfl

theorem isCut_iff_offsets :
    m.isCut = true ↔ m.lead.size = m.leadingDim + 1 ∧ m.lead[0]? = some 0 ∧
      m.lead.toList.Pairwise (· ≤ ·) ∧ m.usedLength ≤ m.capacity := by
  rw [isCut, Bool.and_eq_true, Bool.and_eq_true, Bool.and_eq_true, Bool.not_eq_true',
    offsetsDecrease_eq_false_iff, beq_iff_eq, beq_iff_eq, decide_eq_true_eq, and_assoc, and_assoc]

/-- Offsets in order are the natural numbers that `start` reads off them. -/
theorem lead_eq_start (h0 : m.lead[0]? = some 0) (hp : m.lead.toList.Pairwise (· ≤ ·))
    (hw : w < m.lead.size) : m.lead[w]? = some (m.start w : Int) := by
  have hk : m.lead[w]? = some m.lead[w] := Array.getElem?_eq_getElem hw
  have h0' : 0 < m.lead.size := by omega
  have hz : m.lead[0] = 0 := by
    rw [Array.getElem?_eq_getElem h0'] at h0
    exact Option.some.inj h0
  have hnonneg : 0 ≤ m.lead[w] := by
    rcases Nat.eq_zero_or_pos w with rfl | hpos
    · rw [hz]
    · have := List.pairwise_iff_getElem.mp hp 0 w (by simpa using h0') (by simpa using hw) hpos
      simpa [hz] using this
  rw [start, hk, Option.getD_some, Int.toNat_of_nonneg hnonneg]

/-- The test of the offsets decides that they cut the buffer into windows. -/
theorem isCut_iff : m.isCut = true ↔ m.Cut := by
  rw [isCut_iff_offsets]
  constructor
  · rintro ⟨hsize, h0, hp, hend⟩
    have hlead : ∀ w, w ≤ m.leadingDim → m.lead[w]? = some (m.start w : Int) :=
      fun w hw => lead_eq_start h0 hp (by omega)
    refine ⟨hsize, hlead, ?_, ?_, ?_⟩
    · rw [start, h0]; rfl
    · intro w hw
      have hlt : w + 1 < m.lead.size := by omega
      have := List.pairwise_iff_getElem.mp hp w (w + 1) (by simpa using by omega)
        (by simpa using hlt) (Nat.lt_succ_self w)
      have ha := hlead w (by omega)
      have hb := hlead (w + 1) (by omega)
      rw [Array.getElem?_eq_getElem (by omega)] at ha hb
      simp only [Array.getElem_toList, Option.some.inj ha, Option.some.inj hb] at this
      exact_mod_cast this
    · have hl := hlead m.leadingDim (Nat.le_refl _)
      rw [usedLength, Array.back?, hsize, Nat.add_sub_cancel, hl, Option.getD_some] at hend
      exact_mod_cast hend
  · intro h
    have h0 := h.lead_eq 0 (Nat.zero_le _)
    rw [h.start_zero] at h0
    refine ⟨h.size_lead, h0, ?_, ?_⟩
    · rw [List.pairwise_iff_getElem]
      intro i j hi hj hij
      rw [Array.length_toList] at hi hj
      have hle := h.start_mono (Nat.le_of_lt hij) (by have := h.size_lead; omega)
      have ha := h.lead_eq i (by have := h.size_lead; omega)
      have hb := h.lead_eq j (by have := h.size_lead; omega)
      rw [Array.getElem?_eq_getElem (by omega)] at ha hb
      simp only [Array.getElem_toList, Option.some.inj ha, Option.some.inj hb]
      exact_mod_cast hle
    · rw [h.usedLength_eq]
      exact_mod_cast h.end_le

/-! ## Owners -/

/-- Slots belong to the window whose range they lie in. -/
theorem Cut.ownerOf_eq (h : m.Cut) (hw : w < m.leadingDim) (hwi : m.start w ≤ i)
    (hiw : i < m.start (w + 1)) : m.ownerOf i = w := by
  have hfirst : m.firstOffset = 0 := by
    rw [firstOffset, h.lead_eq 0 (Nat.zero_le _), h.start_zero]
    rfl
  have htail : m.lead.toList.tail = (List.range m.leadingDim).map fun v => (m.start (v + 1) : Int) := by
    apply List.ext_getElem?
    intro k
    rw [List.getElem?_tail, Array.getElem?_toList, List.getElem?_map]
    by_cases hk : k < m.leadingDim
    · rw [List.getElem?_range hk, h.lead_eq (k + 1) (by omega)]; rfl
    · rw [List.getElem?_eq_none (by simpa using hk),
        Array.getElem?_eq_none (by have := h.size_lead; omega)]
      rfl
  have hcount : ∀ v, v < m.leadingDim → (m.start (v + 1) ≤ i ↔ v < w) := by
    intro v hv
    constructor
    · intro hle
      by_contra hge
      have := h.start_mono (show w + 1 ≤ v + 1 by omega) (by omega)
      omega
    · intro hlt
      exact Nat.le_trans (h.start_mono (show v + 1 ≤ w by omega) (by omega)) hwi
  rw [ownerOf, hfirst, htail, List.countP_map]
  have : (List.range m.leadingDim).countP
      ((fun k : Int => decide (k - 0 ≤ (i : Int))) ∘ fun v => (m.start (v + 1) : Int)) =
      (List.range m.leadingDim).countP fun v => decide (v < w) := by
    apply List.countP_congr
    intro v hv
    simp only [Function.comp_apply, Int.sub_zero, decide_eq_true_eq, Nat.cast_le]
    exact hcount v (List.mem_range.mp hv)
  rw [this, List.countP_eq_length_filter, ← List.Ico.zero_bot, List.Ico.filter_lt,
    List.Ico.length]
  omega

/-! ## Buffers laid out as windows -/

/-- Offsets and slots of a matrix that follow a list of windows, with more slots behind them. -/
structure LaidOut (m : Matrix α) (windows : List (List (Slot α))) (rest : List (Slot α)) :
    Prop where
  count : windows.length = m.leadingDim
  lead_eq : m.lead = offsetsOf (windows.map List.length)
  slots_eq : m.slots.toList = windows.flatten ++ rest

namespace LaidOut

variable {windows : List (List (Slot α))} {rest : List (Slot α)}

theorem lead_getElem? (h : m.LaidOut windows rest) (hw : w ≤ m.leadingDim) :
    m.lead[w]? = some (((windows.take w).map List.length).sum : Int) := by
  have hc := h.count
  rw [h.lead_eq, getElem?_offsetsOf (by simpa [hc] using hw), List.map_take]

theorem start_eq (h : m.LaidOut windows rest) (hw : w ≤ m.leadingDim) :
    m.start w = (windows.take w).flatten.length := by
  rw [start, h.lead_getElem? hw, Option.getD_some, Int.toNat_natCast, List.length_flatten]

theorem cut (h : m.LaidOut windows rest) : m.Cut := by
  have hc := h.count
  refine ⟨by rw [h.lead_eq, size_offsetsOf, List.length_map, hc], ?_, ?_, ?_, ?_⟩
  · intro w hw
    rw [h.lead_getElem? hw, h.start_eq hw, List.length_flatten]
  · rw [h.start_eq (Nat.zero_le _)]; simp
  · intro w hw
    rw [h.start_eq (by omega), h.start_eq (by omega), List.take_add_one, List.flatten_append,
      List.length_append]
    exact Nat.le_add_right _ _
  · rw [h.start_eq (Nat.le_refl _), ← hc, List.take_length, capacity, ← Array.length_toList,
      h.slots_eq, List.length_append]
    exact Nat.le_add_right _ _

/-- The windows of a buffer that is laid out as windows are those windows. -/
theorem window_eq (h : m.LaidOut windows rest) (hw : w < windows.length) :
    m.window w = windows[w] := by
  have hc := h.count
  have hsplit : windows = windows.take w ++ windows[w] :: windows.drop (w + 1) := by
    rw [← List.drop_eq_getElem_cons hw, List.take_append_drop]
  have hstart := h.start_eq (show w ≤ m.leadingDim by omega)
  have hnext : m.start (w + 1) = m.start w + windows[w].length := by
    rw [h.start_eq (by omega), hstart, List.take_add_one, List.getElem?_eq_getElem hw,
      Option.toList_some, List.flatten_append, List.length_append]
    simp
  have hslots : m.slots.toList =
      (windows.take w).flatten ++ (windows[w] ++ ((windows.drop (w + 1)).flatten ++ rest)) := by
    rw [h.slots_eq]
    conv => lhs; rw [hsplit]
    simp only [List.flatten_append, List.flatten_cons, List.append_assoc]
  rw [window, Array.toList_extract, List.extract_eq_take_drop, hslots, hnext, hstart,
    List.drop_left, Nat.add_sub_cancel_left, List.take_left]

end LaidOut

end Matrix

end CentralPath.Sparse
