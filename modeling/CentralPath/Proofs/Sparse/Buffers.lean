/-
  New buffers. Fresh ones are shared evenly, and since the rounded offsets of an even split do not
  decrease they are cut into windows of holes (`sound_withFreshBuffers`). A locked reset clears
  values in place, trimming cuts off what no window holds, and a pattern lays out one reserved slot
  for each recorded position (`sound_loadPattern`). After a reset or a load nothing is stored.
-/
import CentralPath.Sparse.Pattern
import CentralPath.Proofs.Binary.Rounding
import CentralPath.Proofs.Sparse.Canonical

namespace CentralPath.Sparse

open Binary (Significand)

/-! ## Even offsets -/

theorem evenOffset_le (windows total i : Nat) : evenOffset windows total i ≤ total := by
  rw [evenOffset]
  split_ifs
  · exact Nat.le_refl _
  · exact Nat.min_le_left _ _

/-- The offsets of an even split do not decrease. -/
theorem evenOffset_mono {windows total i j : Nat} (hij : i ≤ j) (hj : j ≤ windows) :
    evenOffset windows total i ≤ evenOffset windows total j := by
  by_cases hjw : j = windows
  · rw [hjw, show evenOffset windows total windows = total by simp [evenOffset]]
    exact evenOffset_le windows total i
  · rw [evenOffset, evenOffset, if_neg (by omega), if_neg hjw]
    exact min_le_min_left _ (Significand.floor_scale_mono _ hij)

theorem evenOffset_zero {windows total : Nat} (hw : 0 < windows) :
    evenOffset windows total 0 = 0 := by
  rw [evenOffset, if_neg (by omega), Significand.floor_scale_zero, Nat.min_zero]

theorem getElem?_evenOffsets {windows total i : Nat} (hw : 0 < windows) (hi : i ≤ windows) :
    (evenOffsets windows total)[i]? = some (evenOffset windows total i : Int) := by
  rw [evenOffsets, if_neg (by omega), Array.getElem?_ofFn, dif_pos (by omega)]

/-! ## Recorded positions -/

/-- One list for each window, and every recorded position inside the shape. -/
structure Pattern.InRange (p : Pattern) : Prop where
  size_lists : p.lists.size = p.leadingDim
  index_mem : ∀ l ∈ p.lists, ∀ i ∈ l, 0 ≤ i ∧ i < p.trailingDim

namespace Matrix

variable {α : Type} {m : Matrix α} {w : Nat} {t : Int}

/-! ## Trimming -/

/-- Trimming keeps every window. -/
theorem Sound.window_trim (h : m.Sound) (hw : w < m.leadingDim) : m.trim.window w = m.window w := by
  refine window_congr rfl rfl fun i _ hi => ?_
  have := h.cut.start_le_end (show w + 1 ≤ m.leadingDim by omega)
  rw [trim, List.getElem?_toArray, h.cut.getElem?_usedSlots, if_pos (by omega)]

theorem Sound.trim (h : m.Sound) : m.trim.Sound := by
  have hstart : ∀ w, m.trim.start w = m.start w := fun _ => rfl
  have hcap : m.start m.leadingDim ≤ m.trim.capacity := by
    have := h.cut.end_le
    rw [capacity, Matrix.trim, List.size_toArray, usedSlots, h.cut.usedCount_eq, List.length_take,
      Array.length_toList]
    exact Nat.le_min.mpr ⟨Nat.le_refl _, this⟩
  refine ⟨⟨h.cut.size_lead, h.cut.lead_eq, h.cut.start_zero, h.cut.start_le_succ, hcap⟩, ?_, ?_⟩
  · intro w hw
    rw [h.window_trim hw]
    exact h.inOrder w hw
  · intro hc w hw
    rw [h.window_trim hw]
    exact h.written hc w hw

variable [Scalar α]

/-! ## Fresh buffers -/

/-- The capacity of fresh buffers. -/
def freshCapacity (m : Matrix α) (hint : Int) : Nat := max (max hint.toNat m.leadingDim) 1

theorem cut_withFreshBuffers (m : Matrix α) (hint : Int) : (m.withFreshBuffers hint).Cut := by
  have hlead : (m.withFreshBuffers hint).lead =
      evenOffsets m.leadingDim (m.freshCapacity hint) := rfl
  have hdim : (m.withFreshBuffers hint).leadingDim = m.leadingDim := rfl
  have hcap : (m.withFreshBuffers hint).capacity = m.freshCapacity hint := by
    rw [capacity, withFreshBuffers, Array.size_replicate]
    rfl
  rcases Nat.eq_zero_or_pos m.leadingDim with hzero | hpos
  · have hlead0 : (m.withFreshBuffers hint).lead = #[0] := by
      rw [hlead, evenOffsets, if_pos hzero]
    have hstart : (m.withFreshBuffers hint).start 0 = 0 := by
      rw [start, hlead0]
      rfl
    refine ⟨?_, ?_, hstart, ?_, ?_⟩
    · rw [hlead0, hdim, hzero]
      rfl
    · intro w hw
      obtain rfl : w = 0 := by omega
      rw [hstart, hlead0]
      rfl
    · intro w hw
      omega
    · rw [hdim, hzero, hstart]
      exact Nat.zero_le _
  · have hget : ∀ w, w ≤ m.leadingDim → (m.withFreshBuffers hint).lead[w]? =
        some (evenOffset m.leadingDim (m.freshCapacity hint) w : Int) := by
      intro w hw
      rw [hlead, getElem?_evenOffsets hpos hw]
    have hstart : ∀ w, w ≤ m.leadingDim → (m.withFreshBuffers hint).start w =
        evenOffset m.leadingDim (m.freshCapacity hint) w := by
      intro w hw
      rw [start, hget w hw, Option.getD_some, Int.toNat_natCast]
    refine ⟨?_, ?_, ?_, ?_, ?_⟩
    · rw [hlead, hdim, evenOffsets, if_neg (by omega), Array.size_ofFn]
    · intro w hw
      rw [hget w hw, hstart w hw]
    · rw [hstart 0 (by omega), evenOffset_zero hpos]
    · intro w hw
      rw [hdim] at hw
      rw [hstart w (by omega), hstart (w + 1) (by omega)]
      exact evenOffset_mono (Nat.le_succ w) (by omega)
    · rw [hdim, hstart _ (Nat.le_refl _), hcap]
      exact evenOffset_le _ _ _

theorem eq_free_of_mem_withFreshBuffers {hint : Int} {s : Slot α}
    (hs : s ∈ (m.withFreshBuffers hint).window w) : s = Slot.free := by
  obtain ⟨i, -, -, hi⟩ := mem_window_iff.mp hs
  rw [withFreshBuffers, Array.getElem?_replicate] at hi
  split at hi
  · exact (Option.some.inj hi).symm
  · cases hi

/-- Fresh buffers are sound. -/
theorem sound_withFreshBuffers (m : Matrix α) (hint : Int) : (m.withFreshBuffers hint).Sound := by
  refine ⟨cut_withFreshBuffers m hint, ?_, ?_⟩
  · intro w _
    have hall : ∀ s ∈ (m.withFreshBuffers hint).window w, s = Slot.free :=
      fun s hs => eq_free_of_mem_withFreshBuffers hs
    rw [List.eq_replicate_of_mem hall, ← List.nil_append (List.replicate _ _)]
    exact InOrder.append_free ⟨fun s hs => absurd hs List.not_mem_nil, List.Pairwise.nil⟩ _
  · intro hc
    cases hc

theorem sound_unit : (unit : Matrix α).Sound := sound_withFreshBuffers _ 1

/-- Fresh buffers store nothing. -/
theorem slotAt?_withFreshBuffers (m : Matrix α) (hint : Int) (w : Nat) (ht : 0 ≤ t) :
    (m.withFreshBuffers hint).slotAt? w t = none := by
  rw [slotAt?_eq_none_iff]
  intro s hs
  rw [eq_free_of_mem_withFreshBuffers hs]
  show (-1 : Int) ≠ t
  omega

/-! ## Clearing -/

theorem revalued_cleared (m : Matrix α) :
    m.Revalued { m with slots := m.slots.map Slot.cleared, compressed := false }
      fun _ s => s.cleared := by
  refine ⟨⟨rfl, rfl, rfl, rfl, rfl, rfl⟩, rfl, ?_, fun _ _ => rfl, fun _ _ _ _ _ => rfl, ?_⟩
  · intro i
    rw [Array.getElem?_map]
  · intro hc
    cases hc

/-- What a reset can do: under an unbroken lock a matrix of the same shape is cleared, any other
gets fresh buffers. -/
theorem cases_of_reset {rows cols hint : Int} {next : Matrix α}
    (h : m.reset rows cols hint = .ok next) :
    0 ≤ rows ∧ 0 ≤ cols ∧
      (rows = m.rows ∧ cols = m.cols ∧
          next = { m with slots := m.slots.map Slot.cleared, compressed := false } ∨
        next = withFreshBuffers
          { m with rows := rows.toNat, cols := cols.toNat, lockBroken := false } hint) := by
  rw [Matrix.reset] at h
  split_ifs at h with hneg hsame
  · exact ⟨by omega, by omega, .inl ⟨hsame.2.2.1, hsame.2.2.2, (Except.ok.inj h).symm⟩⟩
  · exact ⟨by omega, by omega, .inr (Except.ok.inj h).symm⟩

/-- A reset leaves sound buffers. -/
theorem Sound.reset (h : m.Sound) {rows cols hint : Int} {next : Matrix α}
    (hreset : m.reset rows cols hint = .ok next) : next.Sound := by
  obtain ⟨-, -, ⟨-, -, rfl⟩ | rfl⟩ := cases_of_reset hreset
  · exact (revalued_cleared m).sound h
  · exact sound_withFreshBuffers _ hint

/-! ## Loading a pattern -/

/-- The windows that a pattern lays out. -/
def reservedWindows (p : Pattern) : List (List (Slot α)) :=
  p.sorted.map fun indices => indices.map Slot.reserved

/-- A load takes the shape of the pattern and replaces the buffers. -/
theorem loadPattern_eq {p : Pattern} {next : Matrix α} (hload : m.loadPattern p = .ok next) :
    p.orientation = m.orientation ∧
      next = { m with
        rows := p.rows
        cols := p.cols
        lead := offsetsOf (p.sorted.map List.length)
        slots := (p.sorted.flatten.map Slot.reserved).toArray
        lockBroken := false
        compressed := false } := by
  rw [loadPattern] at hload
  split_ifs at hload with horient
  exact ⟨not_not.mp horient, (Except.ok.inj hload).symm⟩

theorem leadingDim_of_loadPattern {p : Pattern} {next : Matrix α}
    (hload : m.loadPattern p = .ok next) :
    next.leadingDim = p.leadingDim ∧ next.trailingDim = p.trailingDim := by
  obtain ⟨horient, rfl⟩ := loadPattern_eq hload
  rw [leadingDim, trailingDim, Pattern.leadingDim, Pattern.trailingDim, horient]
  cases m.orientation <;> exact ⟨rfl, rfl⟩

theorem loadPattern_laidOut {p : Pattern} (hp : p.InRange) {next : Matrix α}
    (hload : m.loadPattern p = .ok next) : next.LaidOut (reservedWindows p) [] := by
  have hdim := (leadingDim_of_loadPattern hload).1
  obtain ⟨-, rfl⟩ := loadPattern_eq hload
  have hlen : (reservedWindows (α := α) p).map List.length = p.sorted.map List.length := by
    rw [reservedWindows, List.map_map]
    congr 1
    funext indices
    exact List.length_map _
  refine ⟨?_, ?_, ?_⟩
  · rw [hdim, reservedWindows, List.length_map, Pattern.sorted, List.length_map,
      Array.length_toList, hp.size_lists]
  · rw [hlen]
  · rw [List.append_nil, reservedWindows, ← List.map_flatten]

/-- Loading a pattern whose positions are in range leaves sound buffers. -/
theorem sound_loadPattern {p : Pattern} (hp : p.InRange) {next : Matrix α}
    (hload : m.loadPattern p = .ok next) : next.Sound := by
  have hlaid := loadPattern_laidOut hp hload
  have htrailing := (leadingDim_of_loadPattern hload).2
  have hc : next.compressed = false := by
    obtain ⟨-, rfl⟩ := loadPattern_eq hload
    rfl
  refine hlaid.sound ?_ ?_
  · intro slots hslots
    obtain ⟨indices, hindices, rfl⟩ := List.mem_map.mp hslots
    obtain ⟨l, hl, rfl⟩ := List.mem_map.mp hindices
    have hrange : ∀ i ∈ distinctSorted l, 0 ≤ i ∧ i < p.trailingDim :=
      fun i hi => hp.index_mem l (Array.mem_toList_iff.mp hl) i (mem_distinctSorted.mp hi)
    refine ⟨?_, ?_⟩
    · intro s hs
      obtain ⟨i, hi, rfl⟩ := List.mem_map.mp hs
      obtain ⟨hlo, hhi⟩ := hrange i hi
      exact ⟨Int.le_trans (by decide) hlo, by rw [htrailing]; exact hhi, fun _ => rfl⟩
    · rw [List.pairwise_map]
      refine (pairwise_distinctSorted l).imp_of_mem fun {i j} hi _ hij => Or.inr ⟨?_, hij⟩
      have := (hrange i hi).1
      exact Slot.isHole_eq_false_iff.mpr (show i ≠ -1 by omega)
  · intro hc'
    rw [hc] at hc'
    cases hc'

/-- A loaded pattern stores no values. -/
theorem reading_of_loadPattern {p : Pattern} (hp : p.InRange) {next : Matrix α}
    (hload : m.loadPattern p = .ok next) (hw : w < next.leadingDim) {s : Slot α}
    (hs : s ∈ next.window w) : s.reading = 0 := by
  have hlaid := loadPattern_laidOut hp hload
  rw [← hlaid.count] at hw
  rw [hlaid.window_eq hw] at hs
  obtain ⟨indices, -, heq⟩ := List.mem_map.mp (List.getElem_mem hw)
  rw [← heq] at hs
  obtain ⟨i, -, rfl⟩ := List.mem_map.mp hs
  rfl

end Matrix

end CentralPath.Sparse
