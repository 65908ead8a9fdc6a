/-
  Making room by moving entries toward a hole. `Opened` says what a matrix is that has a slot made
  free for an index: apart from that slot its windows are in order and hold the entries they held
  before. Every move of a stretch by one slot is described by the place that each slot comes from
  (`Opened.of_source`), so the arithmetic of offsets is done once for each direction, in
  `Sound.opened_shiftUp` and `Sound.opened_shiftDown`.
-/
import CentralPath.Proofs.Sparse.Search

namespace CentralPath.Sparse.Matrix

variable {α : Type} {m m' : Matrix α} {w v i p pos : Nat} {t : Int} {s : Slot α}

/-! ## Frames -/

/-- Two matrices of the same shape and mode, which may differ in what they store. -/
structure SameFrame (m m' : Matrix α) : Prop where
  rows : m'.rows = m.rows
  cols : m'.cols = m.cols
  orientation : m'.orientation = m.orientation
  shiftBound : m'.shiftBound = m.shiftBound
  locked : m'.locked = m.locked
  lockBroken : m'.lockBroken = m.lockBroken

namespace SameFrame

theorem refl (m : Matrix α) : m.SameFrame m := ⟨rfl, rfl, rfl, rfl, rfl, rfl⟩

theorem trans {m'' : Matrix α} (h : m.SameFrame m') (h' : m'.SameFrame m'') : m.SameFrame m'' :=
  ⟨h'.rows.trans h.rows, h'.cols.trans h.cols, h'.orientation.trans h.orientation,
    h'.shiftBound.trans h.shiftBound, h'.locked.trans h.locked, h'.lockBroken.trans h.lockBroken⟩

theorem leadingDim (h : m.SameFrame m') : m'.leadingDim = m.leadingDim := by
  rw [Matrix.leadingDim, Matrix.leadingDim, h.orientation, h.rows, h.cols]

theorem trailingDim (h : m.SameFrame m') : m'.trailingDim = m.trailingDim := by
  rw [Matrix.trailingDim, Matrix.trailingDim, h.orientation, h.rows, h.cols]

end SameFrame

/-! ## An opened slot -/

/-- Slot `p` of window `w` is free for index `t`; all other slots of the windows are in order and
have the entries of `m`. -/
structure Opened (m opened : Matrix α) (w : Nat) (t : Int) (p : Nat) : Prop where
  frame : m.SameFrame opened
  cut : opened.Cut
  start_le : opened.start w ≤ p
  lt_end : p < opened.start (w + 1)
  origin : ∀ v i s, v < m.leadingDim → opened.start v ≤ i → i < opened.start (v + 1) → i ≠ p →
    opened.slots[i]? = some s → s.Fits m.trailingDim ∧ (s.isHole = false → s ∈ m.window v)
  kept : ∀ v s, v < m.leadingDim → s ∈ m.window v → s.isHole = false →
    ∃ i, i ≠ p ∧ opened.start v ≤ i ∧ i < opened.start (v + 1) ∧ opened.slots[i]? = some s
  ordered : ∀ v i j a b, v < m.leadingDim → opened.start v ≤ i → i < j →
    j < opened.start (v + 1) → i ≠ p → j ≠ p → opened.slots[i]? = some a →
    opened.slots[j]? = some b → a.Before b
  below : ∀ i s, opened.start w ≤ i → i < p → opened.slots[i]? = some s →
    s.isHole = false ∧ s.index < t
  above : ∀ i s, p < i → i < opened.start (w + 1) → opened.slots[i]? = some s →
    s.isHole = true ∨ t < s.index

/-- A slot is opened by moving slots apart: every slot but the open one comes from a place of the
same window, in the same order, and only holes are overwritten. -/
theorem Opened.of_source {opened : Matrix α} (h : m.Sound) (hw : w < m.leadingDim)
    (hb : m.Belongs w t pos) (frame : m.SameFrame opened) (cut : opened.Cut)
    (start_le : opened.start w ≤ p) (lt_end : p < opened.start (w + 1)) (source : Nat → Nat)
    (slots : ∀ i, i ≠ p → opened.slots[i]? = m.slots[source i]?)
    (lands : ∀ v i, v < m.leadingDim → i ≠ p → opened.start v ≤ i → i < opened.start (v + 1) →
      m.start v ≤ source i ∧ source i < m.start (v + 1))
    (mono : ∀ i j, i ≠ p → j ≠ p → i < j → source i < source j)
    (covers : ∀ v j, v < m.leadingDim → m.start v ≤ j → j < m.start (v + 1) →
      m.holeAt j = false → ∃ i, i ≠ p ∧ opened.start v ≤ i ∧ i < opened.start (v + 1) ∧
        source i = j)
    (before : ∀ i, opened.start w ≤ i → i < p → source i < pos)
    (behind : ∀ i, p < i → i < opened.start (w + 1) → pos ≤ source i) :
    m.Opened opened w t p := by
  refine ⟨frame, cut, start_le, lt_end, ?_, ?_, ?_, ?_, ?_⟩
  · intro v i s hv hvi hi hp hs
    obtain ⟨hlo, hhi⟩ := lands v i hv hp hvi hi
    rw [slots i hp] at hs
    have hmem := mem_window_iff.mpr ⟨_, hlo, hhi, hs⟩
    exact ⟨(h.inOrder v hv).fits s hmem, fun _ => hmem⟩
  · intro v s hv hs hhole
    obtain ⟨j, hvj, hj, hsj⟩ := mem_window_iff.mp hs
    have hfull : m.holeAt j = false := by
      rw [holeAt, hsj, Option.map_some, Option.getD_some, hhole]
    obtain ⟨i, hp, hvi, hi, rfl⟩ := covers v j hv hvj hj hfull
    exact ⟨i, hp, hvi, hi, by rw [slots i hp, hsj]⟩
  · intro v i j a b hv hvi hij hj hpi hpj ha hb'
    rw [slots i hpi] at ha
    rw [slots j hpj] at hb'
    exact pairwise_window_iff.mp (h.inOrder v hv).ordered _ _ a b
      (lands v i hv hpi hvi (by omega)).1 (mono i j hpi hpj hij)
      (lands v j hv hpj (by omega) hj).2 ha hb'
  · intro i s hwi hi hs
    have hp : i ≠ p := by omega
    rw [slots i hp] at hs
    exact hb.below _ s (lands w i hw hp hwi (by omega)).1 (before i hwi hi) hs
  · intro i s hi hie hs
    have hp : i ≠ p := by omega
    rw [slots i hp] at hs
    exact hb.above _ s (behind i hi hie) (lands w i hw hp (by omega) hie).2 hs

/-- The first hole of a window is open already. -/
theorem Sound.opened_self (h : m.Sound) (hw : w < m.leadingDim) (hb : m.Belongs w t p)
    (hlt : p < m.start (w + 1)) (hhole : m.holeAt p = true) : m.Opened m w t p := by
  refine Opened.of_source h hw hb (SameFrame.refl m) h.cut hb.start_le hlt id
    (fun _ _ => rfl) (fun _ _ _ _ hlo hhi => ⟨hlo, hhi⟩) (fun _ _ _ _ hij => hij) ?_
    (fun _ _ hi => hi) (fun _ hi _ => Nat.le_of_lt hi)
  intro v j _ hvj hj hfull
  refine ⟨j, ?_, hvj, hj, rfl⟩
  rintro rfl
  rw [hhole] at hfull
  cases hfull

/-! ## Moving up -/

theorem lt_size_of_holeAt (h : m.holeAt i = true) : i < m.slots.size := by
  obtain ⟨s, hs, -⟩ := holeAt_eq_true_iff.mp h
  exact (Array.getElem?_eq_some_iff.mp hs).1

/-- Slots that are overwritten from other places of the buffer. -/
theorem getElem?_mapIdx_moved (slots : Array (Slot α)) {moves : Nat → Prop} [DecidablePred moves]
    {source : Nat → Nat} (hin : ∀ i, moves i → i < slots.size ∧ source i < slots.size) (i : Nat) :
    (slots.mapIdx fun i s => if moves i then slots[source i]?.getD s else s)[i]? =
      slots[if moves i then source i else i]? := by
  rw [Array.getElem?_mapIdx]
  by_cases hi : moves i
  · obtain ⟨hlt, hsource⟩ := hin i hi
    rw [if_pos hi, Array.getElem?_eq_getElem hlt, Option.map_some, if_pos hi,
      Array.getElem?_eq_getElem hsource, Option.getD_some]
  · simp only [if_neg hi, Option.map_id']

theorem Cut.start_shiftUp (h : m.Cut) (pos d w : Nat) (hv : v ≤ m.leadingDim) :
    (m.shiftUp pos d w).start v =
      if w < v ∧ m.start v ≤ pos + d then m.start v + 1 else m.start v := by
  rw [start, shiftUp, Array.getElem?_mapIdx, h.lead_eq v hv, Option.map_some, Option.getD_some]
  norm_cast

theorem lead_shiftUp (h : m.Cut) (pos d w : Nat) (hv : v ≤ m.leadingDim) :
    (m.shiftUp pos d w).lead[v]? = some ((m.shiftUp pos d w).start v : Int) := by
  rw [h.start_shiftUp pos d w hv, shiftUp, Array.getElem?_mapIdx, h.lead_eq v hv, Option.map_some]
  norm_cast

theorem getElem?_slots_shiftUp {d : Nat} (hgap : pos + d < m.slots.size) (i : Nat) :
    (m.shiftUp pos d w).slots[i]? =
      m.slots[if pos < i ∧ i ≤ pos + d then i - 1 else i]? :=
  getElem?_mapIdx_moved m.slots (fun _ hi => by omega) i

theorem Cut.shiftUp (h : m.Cut) {d : Nat} (hgap : pos + d < m.slots.size) :
    (m.shiftUp pos d w).Cut := by
  have hstart : ∀ v, v ≤ m.leadingDim → _ := fun v hv => h.start_shiftUp pos d w hv
  refine ⟨?_, fun v hv => lead_shiftUp h pos d w hv, ?_, ?_, ?_⟩
  · rw [Matrix.shiftUp, Array.size_mapIdx]
    exact h.size_lead
  · rw [hstart 0 (Nat.zero_le _), h.start_zero, if_neg (by omega)]
  · intro v hv
    have hv : v < m.leadingDim := hv
    have := h.start_le_succ v hv
    rw [hstart v (by omega), hstart (v + 1) (by omega)]
    split_ifs <;> omega
  · have hcap : (m.shiftUp pos d w).capacity = m.slots.size := by
      rw [capacity, Matrix.shiftUp, Array.size_mapIdx]
    have := h.start_le_capacity (Nat.le_refl _)
    rw [hcap, show (m.shiftUp pos d w).leadingDim = m.leadingDim from rfl,
      hstart _ (Nat.le_refl _)]
    split_ifs <;> omega

/-- Moving the stretch up to a hole opens the place where it began. -/
theorem Sound.opened_shiftUp (h : m.Sound) (hw : w < m.leadingDim) (hb : m.Belongs w t pos)
    {d : Nat} (hhole : m.holeAt (pos + d) = true) : m.Opened (m.shiftUp pos d w) w t pos := by
  have hgap := lt_size_of_holeAt hhole
  have hstart : ∀ v, v ≤ m.leadingDim → _ := fun v hv => h.cut.start_shiftUp pos d w hv
  have hposle := hb.le_end
  have hposge := hb.start_le
  refine Opened.of_source h hw hb ⟨rfl, rfl, rfl, rfl, rfl, rfl⟩ (h.cut.shiftUp hgap) ?_ ?_
    (fun i => if pos < i ∧ i ≤ pos + d then i - 1 else i)
    (fun i _ => getElem?_slots_shiftUp hgap i) ?_ ?_ ?_ ?_ ?_
  · rw [hstart w (by omega), if_neg (by omega)]
    exact hposge
  · rw [hstart (w + 1) (by omega)]
    split_ifs <;> omega
  · intro v i hv hp hvi hi
    rw [hstart v (by omega)] at hvi
    rw [hstart (v + 1) (by omega)] at hi
    -- windows before the one of the new entry, that one, and windows behind it
    rcases h.cut.apart hv hw with hvw | rfl | hvw <;> split_ifs at hvi hi ⊢ <;> omega
  · intro i j hi hj hij
    split_ifs <;> omega
  · intro v j hv hvj hj hfull
    have hjgap : j ≠ pos + d := by
      rintro rfl
      rw [hhole] at hfull
      cases hfull
    refine ⟨if pos ≤ j ∧ j < pos + d then j + 1 else j, ?_⟩
    rw [hstart v (by omega), hstart (v + 1) (by omega)]
    rcases h.cut.apart hv hw with hvw | rfl | hvw <;>
      refine ⟨?_, ?_, ?_, ?_⟩ <;> split_ifs <;> omega
  · intro i _ hi
    split_ifs <;> omega
  · intro i hi _
    split_ifs <;> omega

/-! ## Moving down -/

theorem Cut.start_shiftDown (h : m.Cut) (d w : Nat) (hpos : d < pos) (hv : v ≤ m.leadingDim) :
    (m.shiftDown pos d w).start v =
      if v ≤ w ∧ pos - 1 - d < m.start v then m.start v - 1 else m.start v := by
  have hzero := h.start_zero
  rw [start, shiftDown, Array.getElem?_mapIdx, h.lead_eq v hv, Option.map_some, Option.getD_some]
  rcases Nat.eq_zero_or_pos v with rfl | hv0
  · rw [if_neg (by omega), if_neg (by omega), Int.toNat_natCast]
  · split_ifs <;> omega

theorem lead_shiftDown (h : m.Cut) (d w : Nat) (hpos : d < pos) (hv : v ≤ m.leadingDim) :
    (m.shiftDown pos d w).lead[v]? = some ((m.shiftDown pos d w).start v : Int) := by
  have hzero := h.start_zero
  rw [h.start_shiftDown d w hpos hv, shiftDown, Array.getElem?_mapIdx, h.lead_eq v hv,
    Option.map_some]
  rcases Nat.eq_zero_or_pos v with rfl | hv0
  · rw [if_neg (by omega), if_neg (by omega)]
  · congr 1
    split_ifs <;> omega

theorem getElem?_slots_shiftDown {d : Nat} (hsize : pos ≤ m.slots.size) (i : Nat) :
    (m.shiftDown pos d w).slots[i]? =
      m.slots[if pos - 1 - d ≤ i ∧ i + 1 < pos then i + 1 else i]? :=
  getElem?_mapIdx_moved m.slots (fun _ hi => by omega) i

theorem Cut.shiftDown (h : m.Cut) {d : Nat} (hpos : d < pos) :
    (m.shiftDown pos d w).Cut := by
  have hstart : ∀ v, v ≤ m.leadingDim → _ := fun v hv => h.start_shiftDown d w hpos hv
  refine ⟨?_, fun v hv => lead_shiftDown h d w hpos hv, ?_, ?_, ?_⟩
  · rw [Matrix.shiftDown, Array.size_mapIdx]
    exact h.size_lead
  · rw [hstart 0 (Nat.zero_le _), h.start_zero, if_neg (by omega)]
  · intro v hv
    have hv : v < m.leadingDim := hv
    have := h.start_le_succ v hv
    rw [hstart v (by omega), hstart (v + 1) (by omega)]
    split_ifs <;> omega
  · have hcap : (m.shiftDown pos d w).capacity = m.slots.size := by
      rw [capacity, Matrix.shiftDown, Array.size_mapIdx]
    have := h.start_le_capacity (Nat.le_refl _)
    rw [hcap, show (m.shiftDown pos d w).leadingDim = m.leadingDim from rfl,
      hstart _ (Nat.le_refl _)]
    split_ifs <;> omega

/-- Moving the stretch down to a hole opens the place where it ended. -/
theorem Sound.opened_shiftDown (h : m.Sound) (hw : w < m.leadingDim) (hb : m.Belongs w t pos)
    {d : Nat} (hpos : d < pos) (hhole : m.holeAt (pos - 1 - d) = true) :
    m.Opened (m.shiftDown pos d w) w t (pos - 1) := by
  have hstart : ∀ v, v ≤ m.leadingDim → _ := fun v hv => h.cut.start_shiftDown d w hpos hv
  have hsize : pos ≤ m.slots.size :=
    Nat.le_trans hb.le_end (h.cut.start_le_capacity (show w + 1 ≤ m.leadingDim by omega))
  have hposle := hb.le_end
  have hposge := hb.start_le
  -- the window has no hole before the place, so the hole lies in an earlier one
  have hgap : pos - 1 - d < m.start w := by
    by_contra hge
    obtain ⟨s, hs, hs'⟩ := holeAt_eq_true_iff.mp hhole
    rw [(hb.below _ s (by omega) (by omega) hs).1] at hs'
    cases hs'
  refine Opened.of_source h hw hb ⟨rfl, rfl, rfl, rfl, rfl, rfl⟩ (h.cut.shiftDown hpos) ?_ ?_
    (fun i => if pos - 1 - d ≤ i ∧ i + 1 < pos then i + 1 else i)
    (fun i _ => getElem?_slots_shiftDown hsize i) ?_ ?_ ?_ ?_ ?_
  · rw [hstart w (by omega), if_pos (by omega)]
    omega
  · rw [hstart (w + 1) (by omega), if_neg (by omega)]
    omega
  · intro v i hv hp hvi hi
    rw [hstart v (by omega)] at hvi
    rw [hstart (v + 1) (by omega)] at hi
    -- windows before the one of the new entry, that one, and windows behind it
    rcases h.cut.apart hv hw with hvw | rfl | hvw <;> split_ifs at hvi hi ⊢ <;> omega
  · intro i j hi hj hij
    split_ifs <;> omega
  · intro v j hv hvj hj hfull
    have hjgap : j ≠ pos - 1 - d := by
      rintro rfl
      rw [hhole] at hfull
      cases hfull
    refine ⟨if pos - 1 - d < j ∧ j < pos then j - 1 else j, ?_⟩
    rw [hstart v (by omega), hstart (v + 1) (by omega)]
    rcases h.cut.apart hv hw with hvw | rfl | hvw <;>
      refine ⟨?_, ?_, ?_, ?_⟩ <;> split_ifs <;> omega
  · intro i _ hi
    split_ifs <;> omega
  · intro i hi _
    split_ifs <;> omega

/-! ## The nearest hole -/

theorem holeAt_of_holeAhead? {d : Nat} (h : m.holeAhead? pos = some d) :
    m.holeAt (pos + d) = true := by
  have := List.find?_some h
  exact this

theorem holeAt_of_holeBehind? {d : Nat} (h : m.holeBehind? pos = some d) :
    d < pos ∧ m.holeAt (pos - 1 - d) = true := by
  have := List.find?_some h
  rwa [Bool.and_eq_true, decide_eq_true_eq] at this

/-- Room is made toward the nearer hole, forward if both sides are equally near. -/
theorem cases_of_makeRoom? {room : Matrix α × Nat} (h : m.makeRoom? pos w = some room) :
    (∃ d, m.holeAhead? pos = some d ∧ (∀ d', m.holeBehind? pos = some d' → d ≤ d') ∧
      room = (m.shiftUp pos d w, pos)) ∨
    ∃ d, m.holeBehind? pos = some d ∧ (∀ d', m.holeAhead? pos = some d' → d < d') ∧
      room = (m.shiftDown pos d w, pos - 1) := by
  rw [makeRoom?] at h
  rcases hahead : m.holeAhead? pos with _ | d <;> rcases hbehind : m.holeBehind? pos with _ | d' <;>
    rw [hahead, hbehind] at h
  · cases h
  · exact .inr ⟨d', rfl, nofun, (Option.some.inj h).symm⟩
  · exact .inl ⟨d, rfl, nofun, (Option.some.inj h).symm⟩
  · dsimp only at h
    split_ifs at h with hle
    · refine .inl ⟨d, rfl, fun e he => ?_, (Option.some.inj h).symm⟩
      obtain rfl := Option.some.inj he
      exact hle
    · refine .inr ⟨d', rfl, fun e he => ?_, (Option.some.inj h).symm⟩
      obtain rfl := Option.some.inj he
      exact Nat.lt_of_not_le hle

/-- Whichever way entries move, the place is open afterwards. -/
theorem Sound.opened_makeRoom? (h : m.Sound) (hw : w < m.leadingDim) (hb : m.Belongs w t pos)
    {opened : Matrix α × Nat} (hroom : m.makeRoom? pos w = some opened) :
    m.Opened opened.1 w t opened.2 := by
  obtain ⟨d, hahead, -, rfl⟩ | ⟨d, hbehind, -, rfl⟩ := cases_of_makeRoom? hroom
  · exact h.opened_shiftUp hw hb (holeAt_of_holeAhead? hahead)
  · obtain ⟨hlt, hhole⟩ := holeAt_of_holeBehind? hbehind
    exact h.opened_shiftDown hw hb hlt hhole

end CentralPath.Sparse.Matrix
