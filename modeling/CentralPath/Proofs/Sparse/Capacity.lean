/-
  How much room a redistribution makes. `held` counts the entries of a matrix, live or reserved.
  The shares of the windows add up to the spare slots exactly (`sum_shares`), so the windows of a
  redistribution fill the new capacity, and none of them gets less than it holds and its share
  (`Cut.redistributed`). A write either leaves the capacity as it is or redistributes, and no write
  takes an entry away (`Sound.write_settled_or_redistributed`).
-/
import CentralPath.Proofs.Sparse.Ownership

namespace CentralPath.Sparse

/-! ## Sums of shares -/

/-- Adding to one element of a list adds to its sum. -/
theorem sum_mapIdx_add {sizes : List Nat} {target c : Nat} (h : target < sizes.length) :
    (sizes.mapIdx fun w k => if w = target then k + c else k).sum = sizes.sum + c := by
  induction sizes generalizing target with
  | nil => cases h
  | cons k sizes ih =>
    rw [List.mapIdx_cons, List.sum_cons, List.sum_cons]
    cases target with
    | zero =>
      have hrest : (sizes.mapIdx fun w k => if w + 1 = 0 then k + c else k) = sizes :=
        List.ext_getElem (by simp) fun i _ _ => by simp
      rw [if_pos rfl, hrest]
      omega
    | succ target =>
      have hrest : (sizes.mapIdx fun w k => if w + 1 = target + 1 then k + c else k) =
          sizes.mapIdx fun w k => if w = target then k + c else k :=
        List.ext_getElem (by simp) fun i _ _ => by simp
      rw [if_neg (by omega), hrest, ih (Nat.lt_of_succ_lt_succ h)]
      omega

/-- Parts rounded down are together no more than the whole. -/
theorem sum_floors_le (spare : Nat) (weights : List Nat) :
    (weights.map fun k => spare * k / totalOf weights).sum ≤ spare := by
  have hdiv : ∀ (d : Nat) (parts : List Nat),
      (parts.map fun k => spare * k / d).sum ≤ spare * parts.sum / d := by
    intro d parts
    induction parts with
    | nil => simp
    | cons k parts ih =>
      rw [List.map_cons, List.sum_cons, List.sum_cons, Nat.mul_add]
      exact Nat.le_trans (Nat.add_le_add_left ih _) (Nat.div_add_div_le_add_div ..)
  rw [totalOf_eq_sum]
  refine Nat.le_trans (hdiv weights.sum weights) ?_
  rcases Nat.eq_zero_or_pos weights.sum with hzero | hpos
  · rw [hzero, Nat.mul_zero, Nat.zero_div]
    exact Nat.zero_le _
  · rw [Nat.mul_div_cancel _ hpos]

namespace Matrix

/-- Every spare slot is given to a window. -/
theorem sum_shares (spare : Nat) {weights : List Nat} {target : Nat}
    (h : target < weights.length) : (shares spare weights target).sum = spare := by
  have hle := sum_floors_le spare weights
  rw [shares, sum_mapIdx_add (by rwa [List.length_map]),
    totalOf_eq_sum (weights.map fun k => spare * k / totalOf weights)]
  omega

@[simp] theorem length_shares (spare : Nat) (weights : List Nat) (target : Nat) :
    (shares spare weights target).length = weights.length := by
  rw [shares, List.length_mapIdx, List.length_map]

theorem le_getElem_shares (spare : Nat) (weights : List Nat) (target : Nat) {w : Nat}
    (hw : w < weights.length) (hw' : w < (shares spare weights target).length) :
    spare * weights[w] / totalOf weights ≤ (shares spare weights target)[w] := by
  simp only [shares, List.getElem_mapIdx, List.getElem_map]
  split_ifs
  · exact Nat.le_add_right _ _
  · exact Nat.le_refl _

variable {α : Type} {m m' opened : Matrix α} {w v p pos : Nat} {t : Int}

/-! ## Entries held -/

/-- Number of entries, live or reserved. -/
def held (m : Matrix α) : Nat := m.usedSlots.countP (!·.isHole)

/-- The windows hold the entries. -/
theorem Cut.held_eq (h : m.Cut) :
    m.held = ((List.range m.leadingDim).map fun w => (m.occupied w).length).sum := by
  rw [held, h.usedSlots_eq, List.countP_flatMap]
  refine congrArg List.sum (List.map_congr_left fun w _ => ?_)
  rw [Function.comp_apply, List.countP_eq_length_filter, occupied]

/-- What a window has to hold once an entry of window `target` is added. -/
def need (m : Matrix α) (target w : Nat) : Nat :=
  (m.occupied w).length + if w = target then 1 else 0

theorem weights_eq (m : Matrix α) (target : Nat) :
    m.weights target = (List.range m.leadingDim).map (m.need target) := rfl

/-- All windows together have to hold one entry more than before. -/
theorem Cut.total_weights (h : m.Cut) (hw : w < m.leadingDim) :
    totalOf (m.weights w) = m.held + 1 := by
  have hadd : m.weights w = ((List.range m.leadingDim).map fun v => (m.occupied v).length).mapIdx
      fun v k => if v = w then k + 1 else k := by
    rw [weights_eq]
    refine List.ext_getElem (by simp) fun v _ _ => ?_
    simp only [List.getElem_map, List.getElem_range, List.getElem_mapIdx, need]
    split_ifs <;> rfl
  rw [totalOf_eq_sum, hadd, sum_mapIdx_add (by simpa using hw), h.held_eq]

/-- Values that change in place do not change how much is held. -/
theorem SameTopology.held_eq (h : m.SameTopology m') : m'.held = m.held := by
  have hcount : ∀ n : Matrix α, n.held =
      (((n.slots.map Slot.index).toList.take n.usedCount).countP fun k => !(k == hole)) := by
    intro n
    rw [held, usedSlots, Array.toList_map, ← List.map_take, List.countP_map]
    rfl
  have hused : m'.usedCount = m.usedCount := by
    rw [usedCount, usedCount, usedLength, usedLength, h.lead, h.capacity]
  rw [hcount, hcount, h.indices, hused]

theorem Sound.nodup_occupied (h : m.Sound) (hw : w < m.leadingDim) : (m.occupied w).Nodup := by
  have hinc := (h.inOrder_occupied hw).increasing fun s hs => (mem_occupied_iff.mp hs).2
  refine hinc.imp fun {a b} hab heq => ?_
  rw [heq] at hab
  exact Int.lt_irrefl _ hab

/-- With the new entry in the open slot its window holds one entry more, the others as many as
before. -/
theorem Opened.length_occupied_place (ho : m.Opened opened w t p) (h : m.Sound)
    (hw : w < m.leadingDim) (ht : 0 ≤ t) (htb : t < m.trailingDim) (hnew : m.slotAt? w t = none)
    (x : α) (hv : v < m.leadingDim) :
    ((opened.place p t x).occupied v).length = m.need w v := by
  have hsound := ho.sound_place hw ht htb x
  have hv' : v < (opened.place p t x).leadingDim := by
    rw [show (opened.place p t x).leadingDim = opened.leadingDim from rfl, ho.frame.leadingDim]
    exact hv
  have hfilled : (⟨t, x, true⟩ : Slot α).isHole = false :=
    Slot.isHole_eq_false_iff.mpr (show t ≠ -1 by omega)
  have hmem : ∀ s, s ∈ (opened.place p t x).occupied v ↔
      (v = w ∧ s = ⟨t, x, true⟩) ∨ s ∈ m.occupied v := by
    intro s
    rw [mem_occupied_iff, mem_occupied_iff]
    constructor
    · rintro ⟨hs, hhole⟩
      rcases (ho.mem_window_place hw hv x hhole).mp hs with hs | hs
      · exact Or.inl hs
      · exact Or.inr ⟨hs, hhole⟩
    · rintro (⟨rfl, rfl⟩ | ⟨hs, hhole⟩)
      · exact ⟨(ho.mem_window_place hw hv x hfilled).mpr (Or.inl ⟨rfl, rfl⟩), hfilled⟩
      · exact ⟨(ho.mem_window_place hw hv x hhole).mpr (Or.inr hs), hhole⟩
  have hnodup := hsound.nodup_occupied hv'
  rw [need]
  by_cases hvw : v = w
  · subst hvw
    have hfresh : (⟨t, x, true⟩ : Slot α) ∉ m.occupied v := fun hs =>
      slotAt?_eq_none_iff.mp hnew _ (mem_occupied_iff.mp hs).1 rfl
    have hperm : ((opened.place p t x).occupied v).Perm (⟨t, x, true⟩ :: m.occupied v) := by
      rw [List.perm_ext_iff_of_nodup hnodup (List.nodup_cons.mpr ⟨hfresh, h.nodup_occupied hv⟩)]
      intro s
      rw [hmem, List.mem_cons, and_iff_right rfl]
    rw [hperm.length_eq, List.length_cons, if_pos rfl]
  · have hperm : ((opened.place p t x).occupied v).Perm (m.occupied v) := by
      rw [List.perm_ext_iff_of_nodup hnodup (h.nodup_occupied hv)]
      intro s
      rw [hmem, or_iff_right fun hc => hvw hc.1]
    rw [hperm.length_eq, if_neg hvw, Nat.add_zero]

/-- A new entry adds one to what is held. -/
theorem Opened.held_place (ho : m.Opened opened w t p) (h : m.Sound) (hw : w < m.leadingDim)
    (ht : 0 ≤ t) (htb : t < m.trailingDim) (hnew : m.slotAt? w t = none) (x : α) :
    (opened.place p t x).held = m.held + 1 := by
  have hdim : (opened.place p t x).leadingDim = m.leadingDim := ho.frame.leadingDim
  rw [(ho.sound_place hw ht htb x).cut.held_eq, ← h.cut.total_weights hw, totalOf_eq_sum,
    weights_eq, hdim]
  refine congrArg List.sum (List.map_congr_left fun v hv => ?_)
  exact ho.length_occupied_place h hw ht htb hnew x (List.mem_range.mp hv)

/-! ## A redistribution -/

/-- `m'` is `m` after a redistribution for an entry of window `target`. The capacity stays, or it
doubles, to more only where the entries take more; and it stays unless the entries and the new one
fill more than half of it. No slot is left behind the windows, and each window has room for what it
has to hold and its share of the spare slots. -/
structure Redistributed (m m' : Matrix α) (target : Nat) : Prop where
  keeps_or_doubles : m'.capacity = m.capacity ∨
    (2 * m.capacity ≤ m'.capacity ∧ m.capacity < 2 * (m.held + 1) ∧
      m'.capacity ≤ max (2 * m.capacity) (m.held + 1))
  from_empty : m.capacity = 0 → m'.capacity = 1
  full : m'.usedLength = m'.capacity
  room : ∀ v, v < m.leadingDim →
    m.need target v + (m'.capacity - (m.held + 1)) * m.need target v / (m.held + 1) ≤
      (m'.window v).length
  recorded : m'.growths = m.growths.push ⟨m.capacity, m'.capacity, m.held⟩

theorem grownCapacity_spec (m : Matrix α) (total : Nat) :
    total ≤ m.grownCapacity total ∧
      (m.grownCapacity total = m.capacity ∨
        (2 * m.capacity ≤ m.grownCapacity total ∧ m.capacity < 2 * total ∧
          m.grownCapacity total ≤ max (2 * m.capacity) total)) := by
  rw [grownCapacity]
  split_ifs <;> omega

/-- The spare slots that each window gets in a redistribution. -/
def grownShares (m : Matrix α) (target : Nat) : List Nat :=
  shares (m.grownCapacity (totalOf (m.weights target)) - totalOf (m.weights target))
    (m.weights target) target

theorem length_grownShares (m : Matrix α) (target : Nat) :
    (m.grownShares target).length = m.leadingDim := by
  rw [grownShares, length_shares, weights_eq, List.length_map, List.length_range]

variable [Zero α]

/-- A window of a redistribution has the slots that it needs and its share. -/
theorem length_regrown (m : Matrix α) (pos target extra w : Nat) :
    (m.regrown pos target extra w).length = m.need target w + extra := by
  have hsplit := congrArg List.length (m.occupiedBefore_append_occupiedFrom w pos)
  rw [List.length_append] at hsplit
  rw [regrown, List.length_append, List.length_replicate, need]
  split_ifs
  · rw [List.length_append, List.length_cons]
    omega
  · rfl

theorem length_window_redistribute (pos target : Nat) (hv : v < m.leadingDim)
    (hv' : v < (m.grownShares target).length) :
    ((m.redistribute pos target).1.window v).length =
      m.need target v + (m.grownShares target)[v] := by
  have hlen : v < (m.regrownWindows pos target).length := by rwa [length_regrownWindows]
  rw [(redistribute_laidOut m pos target).window_eq hlen]
  simp only [regrownWindows, List.getElem_mapIdx, length_regrown]
  rfl

theorem sum_regrownWindows (h : m.Cut) (hw : w < m.leadingDim) (pos : Nat) :
    ((m.regrownWindows pos w).map List.length).sum = m.grownCapacity (m.held + 1) := by
  have htotal := h.total_weights hw
  have hshares := length_grownShares m w
  have hlengths : (m.regrownWindows pos w).map List.length =
      List.zipWith (· + ·) (m.weights w) (m.grownShares w) := by
    refine List.ext_getElem ?_ fun v hv _ => ?_
    · rw [List.length_map, length_regrownWindows, List.length_zipWith, hshares, weights_eq,
        List.length_map, List.length_range, Nat.min_self]
    · simp only [List.getElem_map, regrownWindows, List.getElem_mapIdx, length_regrown,
        List.getElem_zipWith, weights_eq, List.getElem_range]
      rfl
  have hlen : (m.weights w).length = (m.grownShares w).length := by
    rw [hshares, weights_eq, List.length_map, List.length_range]
  have hle := (m.grownCapacity_spec (m.held + 1)).1
  rw [hlengths, ← List.sum_add_sum_eq_sum_zipWith_of_length_eq _ _ hlen, grownShares,
    sum_shares _ (by rw [hlen, hshares]; exact hw), ← totalOf_eq_sum, htotal]
  omega

/-- The windows of a redistribution take all slots of the new capacity. -/
theorem Cut.capacity_redistribute (h : m.Cut) (hw : w < m.leadingDim) (pos : Nat) :
    (m.redistribute pos w).1.capacity = m.grownCapacity (m.held + 1) ∧
      (m.redistribute pos w).1.usedLength = m.grownCapacity (m.held + 1) := by
  have hlaid := redistribute_laidOut m pos w
  have hsum := sum_regrownWindows h hw pos
  constructor
  · rw [capacity, ← Array.length_toList, hlaid.slots_eq, List.append_nil, List.length_flatten, hsum]
  · rw [hlaid.cut.usedLength_eq, hlaid.start_eq (Nat.le_refl _), ← hlaid.count, List.take_length,
      List.length_flatten, hsum]

/-- What a redistribution does. The new entry in the open slot changes none of it. -/
theorem Cut.redistributed (h : m.Cut) (hw : w < m.leadingDim) (pos p : Nat) (t : Int) (x : α) :
    m.Redistributed ((m.redistribute pos w).1.place p t x) w := by
  obtain ⟨hcap, hused⟩ := h.capacity_redistribute hw pos
  have htotal := h.total_weights hw
  obtain ⟨hle, hspec⟩ := m.grownCapacity_spec (m.held + 1)
  have hcap' : ((m.redistribute pos w).1.place p t x).capacity = m.grownCapacity (m.held + 1) := by
    rw [← hcap, capacity, capacity, place, Array.size_setIfInBounds]
  have hheld : m.held ≤ m.capacity := by
    refine Nat.le_trans List.countP_le_length ?_
    rw [usedSlots, List.length_take, Array.length_toList]
    exact Nat.min_le_right _ _
  refine ⟨?_, fun hempty => ?_, ?_, fun v hv => ?_, ?_⟩
  · rw [hcap']
    omega
  · rw [hcap', grownCapacity, if_neg (by omega)]
    omega
  · rw [hcap', ← hused]
    rfl
  · have hlength : (((m.redistribute pos w).1.place p t x).window v).length =
        ((m.redistribute pos w).1.window v).length := by
      rw [window, window, start_place, start_place, Array.length_toList, Array.length_toList,
        Array.size_extract, Array.size_extract, place, Array.size_setIfInBounds]
    have hv' : v < (m.weights w).length := by
      rwa [weights_eq, List.length_map, List.length_range]
    have hshare := le_getElem_shares (m.grownCapacity (m.held + 1) - (m.held + 1)) (m.weights w) w
      hv' (by rwa [length_shares])
    rw [hlength, length_window_redistribute pos w hv (by rwa [length_grownShares]), hcap']
    simp only [weights_eq, List.getElem_map, List.getElem_range] at hshare
    simp only [← weights_eq, htotal] at hshare
    simp only [grownShares, htotal]
    exact Nat.add_le_add_left hshare _
  · rw [hcap']
    show m.growths.push ⟨m.capacity, m.grownCapacity (totalOf (m.weights w)),
      totalOf (m.weights w) - 1⟩ = _
    rw [htotal, Nat.add_sub_cancel]

end Matrix

/-! ## A write -/

namespace Matrix

variable {α : Type} {m : Matrix α} {w : Nat} {t : Int}

theorem makeRoom?_keeps {pos : Nat} {room : Matrix α × Nat} (h : m.makeRoom? pos w = some room) :
    room.1.capacity = m.capacity ∧ room.1.growths = m.growths := by
  obtain ⟨d, -, -, rfl⟩ | ⟨d, -, -, rfl⟩ := cases_of_makeRoom? h
  · exact ⟨Array.size_mapIdx, rfl⟩
  · exact ⟨Array.size_mapIdx, rfl⟩

/-- A step of a run leaves capacity and record of redistributions as they are and takes no entry
away. -/
structure Settled (m m' : Matrix α) : Prop where
  capacity : m'.capacity = m.capacity
  growths : m'.growths = m.growths
  held : m.held ≤ m'.held

theorem Settled.refl (m : Matrix α) : m.Settled m := ⟨rfl, rfl, Nat.le_refl _⟩

variable [Scalar α]

/-- A write either finds room in the buffers as they are, or redistributes them for one entry more
than before. -/
theorem Sound.write_settled_or_redistributed (h : m.Sound) (hw : w < m.leadingDim) (ht : 0 ≤ t)
    (htb : t < m.trailingDim) (x : α) (overwrite : Bool) :
    m.Settled (m.write w t x overwrite) ∨
      (m.Redistributed (m.write w t x overwrite) w ∧
        (m.write w t x overwrite).held = m.held + 1) := by
  have hspec := h.locate_spec hw t
  have hslot := h.slotAt?_of_locate hw ht
  rw [Matrix.write]
  split
  · rename_i i hplace
    have htop := (h.revalued_refill hw ht x overwrite hplace).sameTopology
    exact Or.inl ⟨htop.capacity, rfl, Nat.le_of_eq htop.held_eq.symm⟩
  · rename_i hnew
    have hnone : m.slotAt? w t = none := by
      rw [hslot]
      split
      · rename_i i hplace
        exact absurd hplace (hnew i)
      · rfl
    split_ifs
    · exact Or.inl (Settled.refl m)
    · have hopened := h.opened_openSlot hw hspec hnew
      have hheld := hopened.held_place h hw ht htb hnone x
      have hkept : (m.openSlot w (m.locate w t)).1.capacity = m.capacity →
          (m.openSlot w (m.locate w t)).1.growths = m.growths →
          m.Settled ((m.openSlot w (m.locate w t)).1.place (m.openSlot w (m.locate w t)).2 t x) := by
        intro hcap hgrowths
        refine ⟨?_, hgrowths, by omega⟩
        rw [capacity, place, Array.size_setIfInBounds]
        exact hcap
      cases hplace : m.locate w t with
      | found i => exact absurd hplace (hnew i)
      | vacant i =>
        rw [hplace] at hkept
        exact Or.inl (hkept rfl rfl)
      | crowded i =>
        rw [hplace, openSlot] at hkept hheld
        rw [openSlot]
        rcases hroom : m.makeRoom? i w with _ | room <;> rw [hroom] at hkept hheld
        · exact Or.inr ⟨h.cut.redistributed hw i _ t x, hheld⟩
        · obtain ⟨hcap, hgrowths⟩ := makeRoom?_keeps hroom
          exact Or.inl (hkept hcap hgrowths)

end Matrix

end CentralPath.Sparse
