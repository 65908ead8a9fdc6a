/-
  What the storage rules demand. `Matrix.verify` runs through the rules one after another;
  `verify_eq_zero_iff` says that it finds none broken exactly when the buffers are `Sound`: the
  offsets cut them, every window is `InOrder`, and a compressed matrix has written every used slot.
  Everything that an operation keeps is stated with `Sound`, never with the checker.
-/
import CentralPath.Sparse.Validity
import CentralPath.Proofs.Sparse.Windows

namespace CentralPath.Sparse

variable {α : Type}

/-! ## Windows in order -/

namespace Slot

/-- Slots may stand in this order: entries by their index, holes behind entries. -/
def Before (a b : Slot α) : Prop := b.isHole = true ∨ (a.isHole = false ∧ a.index < b.index)

/-- The index of a slot is that of a hole or inside the bound, and a hole is not live. -/
structure Fits (bound : Nat) (s : Slot α) : Prop where
  index_ge : hole ≤ s.index
  index_lt : s.index < bound
  not_live : s.isHole = true → s.live = false

theorem isHole_iff {s : Slot α} : s.isHole = true ↔ s.index = -1 := by
  simp [isHole, hole]

theorem isHole_eq_false_iff {s : Slot α} : s.isHole = false ↔ s.index ≠ -1 := by
  simp [isHole, hole]

@[simp] theorem isHole_free [Zero α] : (free : Slot α).isHole = true := rfl

theorem Before.trans {a b c : Slot α} (hab : a.Before b) (hbc : b.Before c) : a.Before c := by
  rcases hbc with hc | ⟨hb, hlt⟩
  · exact Or.inl hc
  · rcases hab with hb' | ⟨ha, hlt'⟩
    · rw [hb] at hb'; cases hb'
    · exact Or.inr ⟨ha, Int.lt_trans hlt' hlt⟩

instance : Trans (Before (α := α)) Before Before := ⟨Before.trans⟩

/-- Only holes stand behind a hole. -/
theorem Before.isHole {a b : Slot α} (h : a.Before b) (ha : a.isHole = true) : b.isHole = true := by
  rcases h with hb | ⟨ha', -⟩
  · exact hb
  · rw [ha] at ha'; cases ha'

theorem Before.index_lt {a b : Slot α} (h : a.Before b) (hb : b.isHole = false) :
    a.index < b.index := by
  rcases h with hb' | ⟨-, hlt⟩
  · rw [hb] at hb'; cases hb'
  · exact hlt

/-- The order of two slots, as the rules test it. -/
theorem before_iff {a b : Slot α} :
    a.Before b ↔ (!a.isHole && !b.isHole && decide (b.index ≤ a.index)) = false ∧
      (a.isHole && !b.isHole) = false := by
  rw [Before]
  cases a.isHole <;> cases b.isHole <;> simp

theorem fits_iff {bound : Nat} {s : Slot α} :
    s.Fits bound ↔ (decide (s.index < hole) || decide ((bound : Int) ≤ s.index)) = false ∧
      (s.isHole && s.live) = false := by
  rw [Bool.or_eq_false_iff, decide_eq_false_iff_not, decide_eq_false_iff_not, Int.not_lt,
    Int.not_le, Bool.and_eq_false_imp]
  exact ⟨fun h => ⟨⟨h.index_ge, h.index_lt⟩, h.not_live⟩, fun h => ⟨h.1.1, h.1.2, h.2⟩⟩

theorem Fits.isHole_of_live {bound : Nat} {s : Slot α} (h : s.Fits bound) (hlive : s.live = true) :
    s.isHole = false := by
  by_contra hhole
  rw [Bool.not_eq_false] at hhole
  rw [h.not_live hhole] at hlive
  cases hlive

theorem fits_free [Zero α] (bound : Nat) : (free : Slot α).Fits bound :=
  ⟨Int.le_refl _, Int.lt_of_lt_of_le (by decide : hole < 0) (Int.natCast_nonneg _), fun _ => rfl⟩

end Slot

/-- The slots of one window: entries by their index, holes behind them. -/
structure InOrder (bound : Nat) (slots : List (Slot α)) : Prop where
  fits : ∀ s ∈ slots, s.Fits bound
  ordered : slots.Pairwise Slot.Before

namespace InOrder

variable {bound : Nat} {slots : List (Slot α)}

/-- Free slots may follow the slots of a window. -/
theorem append_free [Zero α] (h : InOrder bound slots) (n : Nat) :
    InOrder bound (slots ++ List.replicate n Slot.free) := by
  refine ⟨?_, ?_⟩
  · intro s hs
    rcases List.mem_append.mp hs with hs | hs
    · exact h.fits s hs
    · rw [List.eq_of_mem_replicate hs]
      exact Slot.fits_free bound
  · refine List.pairwise_append.mpr ⟨h.ordered, ?_, ?_⟩
    · exact List.pairwise_replicate.mpr (Or.inr (Or.inl Slot.isHole_free))
    · intro a _ b hb
      rw [List.eq_of_mem_replicate hb]
      exact Or.inl Slot.isHole_free

theorem filter (h : InOrder bound slots) (keep : Slot α → Bool) :
    InOrder bound (slots.filter keep) :=
  ⟨fun s hs => h.fits s (List.mem_filter.mp hs).1, h.ordered.filter _⟩

/-- Without holes the indices of a window increase. -/
theorem increasing (h : InOrder bound slots) (hfilled : ∀ s ∈ slots, s.isHole = false) :
    slots.Pairwise fun a b => a.index < b.index :=
  h.ordered.imp_of_mem fun {_ b} _ hb hab => hab.index_lt (hfilled b hb)

theorem increasing_of_live (h : InOrder bound slots) (hlive : ∀ s ∈ slots, s.live = true) :
    slots.Pairwise fun a b => a.index < b.index :=
  h.increasing fun s hs => (h.fits s hs).isHole_of_live (hlive s hs)

/-- No two entries of a window have the same index. -/
theorem index_inj (h : InOrder bound slots) {a b : Slot α} (ha : a ∈ slots) (hb : b ∈ slots)
    (hole_a : a.isHole = false) (heq : a.index = b.index) : a = b := by
  have hole_b : b.isHole = false := by
    rw [Slot.isHole_eq_false_iff] at hole_a ⊢
    rwa [← heq]
  obtain ⟨i, hi, rfl⟩ := List.mem_iff_getElem.mp ha
  obtain ⟨j, hj, rfl⟩ := List.mem_iff_getElem.mp hb
  have hp := List.pairwise_iff_getElem.mp h.ordered
  rcases Nat.lt_trichotomy i j with hij | rfl | hij
  · have := (hp i j hi hj hij).index_lt hole_b
    omega
  · rfl
  · have := (hp j i hj hi hij).index_lt hole_a
    omega

end InOrder

namespace Matrix

variable {m : Matrix α}

/-! ## Soundness -/

/-- The buffers obey every storage rule. -/
structure Sound (m : Matrix α) : Prop where
  cut : m.Cut
  inOrder : ∀ w, w < m.leadingDim → InOrder m.trailingDim (m.window w)
  written : m.compressed = true → ∀ w, w < m.leadingDim → ∀ s ∈ m.window w, s.live = true

theorem anyNeighbours_eq_false_iff {p : Slot α → Slot α → Bool} :
    m.anyNeighbours p = false ↔
      ∀ w, w < m.leadingDim → (m.window w).IsChain fun a b => p a b = false := by
  rw [anyNeighbours, List.any_eq_false]
  simp only [List.mem_range, Bool.not_eq_true]
  exact forall₂_congr fun w _ => any_neighbours_eq_false (m.window w)

theorem Cut.any_usedSlots_eq_false_iff (h : m.Cut) {p : Slot α → Bool} :
    m.usedSlots.any p = false ↔ ∀ w, w < m.leadingDim → ∀ s ∈ m.window w, p s = false := by
  rw [List.any_eq_false]
  constructor
  · intro hall w hw s hs
    exact Bool.not_eq_true _ ▸ hall s (h.mem_usedSlots.mpr ⟨w, hw, hs⟩)
  · intro hall s hs
    obtain ⟨w, hw, hs⟩ := h.mem_usedSlots.mp hs
    rw [hall w hw s hs]
    decide

/-- The two rules about offsets decide that they cut the buffers. -/
theorem offsetRules_iff :
    (¬(m.lead.size ≠ m.leadingDim + 1 ∨ m.lead.toList.head? ≠ some 0) ∧
      (((m.lead.toList.zip m.lead.toList.tail).any fun x => decide (x.2 < x.1)) ||
        decide ((m.capacity : Int) < m.usedLength)) = false) ↔ m.Cut := by
  have hdec : ((m.lead.toList.zip m.lead.toList.tail).any fun x => decide (x.2 < x.1)) =
      m.offsetsDecrease := rfl
  rw [← isCut_iff, isCut_iff_offsets, hdec, Bool.or_eq_false_iff, offsetsDecrease_eq_false_iff,
    decide_eq_false_iff_not, Int.not_lt, not_or, not_not, not_not, List.head?_eq_getElem?,
    Array.getElem?_toList, and_assoc]

theorem violation?_eq_none_iff : m.violation? = none ↔ m.Sound := by
  simp only [violation?]
  split_ifs with hshape horder hindex hentry hhole hlive hwritten
  · refine ⟨nofun, fun h => absurd hshape ?_⟩
    exact (offsetRules_iff.mpr h.cut).1
  · refine ⟨nofun, fun h => absurd horder ?_⟩
    rw [Bool.not_eq_true]
    exact (offsetRules_iff.mpr h.cut).2
  all_goals
    have cut : m.Cut := offsetRules_iff.mp ⟨hshape, Bool.not_eq_true _ ▸ horder⟩
  · refine ⟨nofun, fun h => absurd hindex ?_⟩
    rw [Bool.not_eq_true, cut.any_usedSlots_eq_false_iff]
    exact fun w hw s hs => (Slot.fits_iff.mp ((h.inOrder w hw).fits s hs)).1
  · refine ⟨nofun, fun h => absurd hentry ?_⟩
    rw [Bool.not_eq_true, anyNeighbours_eq_false_iff]
    exact fun w hw => (h.inOrder w hw).ordered.isChain.imp fun _ _ hb => (Slot.before_iff.mp hb).1
  · refine ⟨nofun, fun h => absurd hhole ?_⟩
    rw [Bool.not_eq_true, anyNeighbours_eq_false_iff]
    exact fun w hw => (h.inOrder w hw).ordered.isChain.imp fun _ _ hb => (Slot.before_iff.mp hb).2
  · refine ⟨nofun, fun h => absurd hlive ?_⟩
    rw [Bool.not_eq_true, cut.any_usedSlots_eq_false_iff]
    exact fun w hw s hs => (Slot.fits_iff.mp ((h.inOrder w hw).fits s hs)).2
  · refine ⟨nofun, fun h => absurd hwritten ?_⟩
    rw [Bool.not_eq_true, Bool.and_eq_false_imp]
    intro hc
    rw [cut.any_usedSlots_eq_false_iff]
    intro w hw s hs
    rw [h.written hc w hw s hs]
    rfl
  · refine ⟨fun _ => ⟨cut, ?_, ?_⟩, fun _ => rfl⟩
    · rw [Bool.not_eq_true, cut.any_usedSlots_eq_false_iff] at hindex hlive
      rw [Bool.not_eq_true, anyNeighbours_eq_false_iff] at hentry hhole
      intro w hw
      refine ⟨fun s hs => Slot.fits_iff.mpr ⟨hindex w hw s hs, hlive w hw s hs⟩, ?_⟩
      rw [← List.isChain_iff_pairwise]
      have hentry := List.isChain_iff_getElem.mp (hentry w hw)
      have hhole := List.isChain_iff_getElem.mp (hhole w hw)
      rw [List.isChain_iff_getElem]
      exact fun i hi => Slot.before_iff.mpr ⟨hentry i hi, hhole i hi⟩
    · intro hc w hw s hs
      rw [hc, Bool.true_and, Bool.not_eq_true, cut.any_usedSlots_eq_false_iff] at hwritten
      simpa using hwritten w hw s hs

/-- The checker finds nothing exactly when the buffers are sound. -/
theorem verify_eq_zero_iff : m.verify = 0 ↔ m.Sound := by
  rw [← violation?_eq_none_iff, verify]
  rcases m.violation? with _ | v
  · simp
  · cases v <;> simp [Violation.code]

theorem Sound.isCut (h : m.Sound) : m.isCut = true := isCut_iff.mpr h.cut

end Matrix

end CentralPath.Sparse
