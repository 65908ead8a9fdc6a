/-
  What one write does. Whichever of the five routes it takes, it keeps the buffers sound
  (`Sound.write`) and changes the slot of its own position only (`Sound.slotAt?_write`), so the
  routes are not seen from outside. Slotwise changes of values, of which refilling a slot is one,
  are treated once for all in `Revalued`.
-/
import CentralPath.Proofs.Sparse.Redistribution

namespace CentralPath.Sparse.Matrix

variable {α : Type} {m m' : Matrix α} {w v i p : Nat} {t u : Int} {s : Slot α}

/-! ## Offsets kept -/

/-- Buffers with the same offsets and no fewer slots are cut into the same windows. -/
theorem Cut.of_lead_eq (h : m.Cut) (hlead : m'.lead = m.lead)
    (hdim : m'.leadingDim = m.leadingDim) (hcap : m.capacity ≤ m'.capacity) : m'.Cut := by
  have hstart : ∀ w, m'.start w = m.start w := fun w => by rw [start, start, hlead]
  refine ⟨by rw [hlead, hdim, h.size_lead], ?_, ?_, ?_, ?_⟩
  · intro w hw
    rw [hlead, hstart]
    exact h.lead_eq w (by omega)
  · rw [hstart, h.start_zero]
  · intro w hw
    rw [hstart, hstart]
    exact h.start_le_succ w (by omega)
  · rw [hstart, hdim]
    exact Nat.le_trans h.end_le hcap

/-- A change of the lock and of the record of insertions does not touch the buffers. -/
theorem Sound.of_buffers_eq {m' : Matrix α} (h : m.Sound) (hlead : m'.lead = m.lead)
    (hslots : m'.slots = m.slots) (hldim : m'.leadingDim = m.leadingDim)
    (htdim : m'.trailingDim = m.trailingDim) (hc : m'.compressed = m.compressed) : m'.Sound := by
  have hwin : ∀ w, m'.window w = m.window w := by
    intro w
    rw [window, window, start, start, start, start, hlead, hslots]
  refine ⟨h.cut.of_lead_eq hlead hldim (by rw [capacity, capacity, hslots]), ?_, ?_⟩
  · intro w hw
    rw [hwin, htdim]
    exact h.inOrder w (by omega)
  · intro hc' w hw
    rw [hwin]
    exact h.written (by rw [← hc]; exact hc') w (by omega)

theorem slotAt?_of_buffers_eq {m' : Matrix α} (hlead : m'.lead = m.lead)
    (hslots : m'.slots = m.slots) (w : Nat) (t : Int) : m'.slotAt? w t = m.slotAt? w t := by
  rw [slotAt?, slotAt?, window, window, start, start, start, start, hlead, hslots]

/-! ## Values changed slot by slot -/

/-- `m'` has the slots of `m` with other values: indices stay, no hole becomes live, and a matrix
that counts as compressed keeps its live slots live. -/
structure Revalued (m m' : Matrix α) (change : Nat → Slot α → Slot α) : Prop where
  frame : m.SameFrame m'
  lead : m'.lead = m.lead
  slots : ∀ i, m'.slots[i]? = (m.slots[i]?).map (change i)
  index : ∀ i s, (change i s).index = s.index
  not_live : ∀ i s, s.isHole = true → s.live = false → m.slots[i]? = some s →
    (change i s).live = false
  live : m'.compressed = true → m.compressed = true ∧
    ∀ i s, s.live = true → m.slots[i]? = some s → (change i s).live = true

namespace Revalued

variable {change : Nat → Slot α → Slot α}

/-- Nothing but values changes. -/
theorem of_values (frame : m.SameFrame m') (lead : m'.lead = m.lead)
    (compressed : m'.compressed = m.compressed)
    (slots : ∀ i, m'.slots[i]? = (m.slots[i]?).map (change i))
    (index : ∀ i s, (change i s).index = s.index) (live : ∀ i s, (change i s).live = s.live) :
    m.Revalued m' change :=
  ⟨frame, lead, slots, index, fun i s _ hlive _ => (live i s).trans hlive,
    fun hc => ⟨compressed ▸ hc, fun i s hlive _ => (live i s).trans hlive⟩⟩

theorem start (r : m.Revalued m' change) (w : Nat) : m'.start w = m.start w := by
  rw [Matrix.start, Matrix.start, r.lead]

theorem isHole (r : m.Revalued m' change) (i : Nat) (s : Slot α) :
    (change i s).isHole = s.isHole := by
  rw [Slot.isHole, Slot.isHole, r.index]

theorem mem_window (r : m.Revalued m' change) :
    s ∈ m'.window w ↔
      ∃ i a, m.start w ≤ i ∧ i < m.start (w + 1) ∧ m.slots[i]? = some a ∧ change i a = s := by
  rw [mem_window_iff]
  simp only [r.start, r.slots, Option.map_eq_some_iff]
  constructor
  · rintro ⟨i, hwi, hi, a, ha, rfl⟩
    exact ⟨i, a, hwi, hi, ha, rfl⟩
  · rintro ⟨i, a, hwi, hi, ha, rfl⟩
    exact ⟨i, hwi, hi, a, ha, rfl⟩

/-- Changed values do not affect soundness. -/
theorem sound (r : m.Revalued m' change) (h : m.Sound) : m'.Sound := by
  have hdim := r.frame.leadingDim
  have hcap : m.capacity ≤ m'.capacity := by
    by_contra hlt
    have hsize : m'.slots.size < m.slots.size := Nat.lt_of_not_le hlt
    have hsome : m.slots[m'.slots.size]? = some m.slots[m'.slots.size] :=
      Array.getElem?_eq_getElem hsize
    have := r.slots m'.slots.size
    rw [hsome, Array.getElem?_eq_none (Nat.le_refl _)] at this
    cases this
  refine ⟨h.cut.of_lead_eq r.lead hdim hcap, ?_, ?_⟩
  · intro w hw
    rw [hdim] at hw
    rw [r.frame.trailingDim]
    refine ⟨?_, ?_⟩
    · intro s hs
      obtain ⟨i, a, hwi, hi, ha, rfl⟩ := r.mem_window.mp hs
      have hfits := (h.inOrder w hw).fits a (mem_window_iff.mpr ⟨i, hwi, hi, ha⟩)
      refine ⟨by rw [r.index]; exact hfits.index_ge, by rw [r.index]; exact hfits.index_lt, ?_⟩
      intro hhole
      rw [r.isHole] at hhole
      exact r.not_live i a hhole (hfits.not_live hhole) ha
    · rw [pairwise_window_iff]
      intro i j a b hwi hij hj ha hb
      rw [r.start] at hwi hj
      rw [r.slots, Option.map_eq_some_iff] at ha hb
      obtain ⟨a, ha, rfl⟩ := ha
      obtain ⟨b, hb, rfl⟩ := hb
      rw [Slot.Before, r.isHole, r.isHole, r.index, r.index]
      exact pairwise_window_iff.mp (h.inOrder w hw).ordered i j a b hwi hij hj ha hb
  · intro hc w hw s hs
    rw [hdim] at hw
    obtain ⟨i, a, hwi, hi, ha, rfl⟩ := r.mem_window.mp hs
    obtain ⟨hc', hlive⟩ := r.live hc
    exact hlive i a (h.written hc' w hw a (mem_window_iff.mpr ⟨i, hwi, hi, ha⟩)) ha

/-- An index keeps its slot, with the value changed. -/
theorem slotAt?_eq_some (r : m.Revalued m' change) (h : m.Sound) (hw : w < m.leadingDim)
    (ht : 0 ≤ t) (hs : m.slotAt? w t = some s) :
    ∃ i, m.start w ≤ i ∧ i < m.start (w + 1) ∧ m.slots[i]? = some s ∧
      m'.slotAt? w t = some (change i s) := by
  obtain ⟨hmem, rfl⟩ := mem_of_slotAt? hs
  obtain ⟨i, hwi, hi, hsi⟩ := mem_window_iff.mp hmem
  refine ⟨i, hwi, hi, hsi, ?_⟩
  rw [(r.sound h).slotAt?_eq_some_iff (by rw [r.frame.leadingDim]; exact hw) ht]
  exact ⟨r.mem_window.mpr ⟨i, s, hwi, hi, hsi, rfl⟩, r.index i s⟩

theorem slotAt?_eq_none (r : m.Revalued m' change) (hs : m.slotAt? w t = none) :
    m'.slotAt? w t = none := by
  rw [slotAt?_eq_none_iff] at hs ⊢
  intro s hs'
  obtain ⟨i, a, hwi, hi, ha, rfl⟩ := r.mem_window.mp hs'
  rw [r.index]
  exact hs a (mem_window_iff.mpr ⟨i, hwi, hi, ha⟩)

end Revalued

/-! ## A new entry -/

theorem getElem?_slots_place (m : Matrix α) (hp : p < m.slots.size) (t : Int) (x : α) (i : Nat) :
    (m.place p t x).slots[i]? = if i = p then some ⟨t, x, true⟩ else m.slots[i]? := by
  rw [place, Array.getElem?_setIfInBounds]
  by_cases hi : i = p
  · rw [if_pos hi.symm, if_pos hi, if_pos hp]
  · rw [if_neg (Ne.symm hi), if_neg hi]

theorem start_place (m : Matrix α) (p : Nat) (t : Int) (x : α) (w : Nat) :
    (m.place p t x).start w = m.start w := rfl

namespace Opened

variable {opened : Matrix α}

theorem lt_size (ho : m.Opened opened w t p) (hw : w < m.leadingDim) : p < opened.slots.size := by
  have hdim := ho.frame.leadingDim
  have := ho.cut.start_le_capacity (show w + 1 ≤ opened.leadingDim by omega)
  have := ho.lt_end
  omega

/-- The open slot lies in its window only. -/
theorem window_eq (ho : m.Opened opened w t p) (hw : w < m.leadingDim) (hv : v < m.leadingDim)
    (hvp : opened.start v ≤ p) (hpv : p < opened.start (v + 1)) : v = w := by
  have hdim := ho.frame.leadingDim
  exact ho.cut.window_unique (by omega) (by omega) hvp hpv ho.start_le ho.lt_end

/-- With the new entry in the open slot the windows hold the old entries and that one. -/
theorem mem_window_place (ho : m.Opened opened w t p) (hw : w < m.leadingDim)
    (hv : v < m.leadingDim) (x : α) (hs : s.isHole = false) :
    s ∈ (opened.place p t x).window v ↔ (v = w ∧ s = ⟨t, x, true⟩) ∨ s ∈ m.window v := by
  have hslots := opened.getElem?_slots_place (ho.lt_size hw) t x
  rw [mem_window_iff]
  simp only [start_place, hslots]
  constructor
  · rintro ⟨i, hvi, hi, hsi⟩
    by_cases hip : i = p
    · rw [if_pos hip] at hsi
      subst hip
      exact Or.inl ⟨ho.window_eq hw hv hvi hi, (Option.some.inj hsi).symm⟩
    · rw [if_neg hip] at hsi
      exact Or.inr ((ho.origin v i s hv hvi hi hip hsi).2 hs)
  · rintro (⟨rfl, rfl⟩ | hmem)
    · exact ⟨p, ho.start_le, ho.lt_end, if_pos rfl⟩
    · obtain ⟨i, hip, hvi, hi, hsi⟩ := ho.kept v s hv hmem hs
      exact ⟨i, hvi, hi, by rw [if_neg hip, hsi]⟩

/-- With the new entry in the open slot the buffers are sound. -/
theorem sound_place (ho : m.Opened opened w t p) (hw : w < m.leadingDim)
    (ht : 0 ≤ t) (htb : t < m.trailingDim) (x : α) : (opened.place p t x).Sound := by
  have hdim := ho.frame.leadingDim
  have htdim := ho.frame.trailingDim
  have hslots := opened.getElem?_slots_place (ho.lt_size hw) t x
  have hnew : (⟨t, x, true⟩ : Slot α).isHole = false :=
    Slot.isHole_eq_false_iff.mpr (show t ≠ -1 by omega)
  refine ⟨?_, ?_, ?_⟩
  · refine ho.cut.of_lead_eq rfl rfl ?_
    rw [capacity, capacity, place, Array.size_setIfInBounds]
  · intro v hv
    have hv : v < m.leadingDim := by rw [← hdim]; exact hv
    rw [show (opened.place p t x).trailingDim = opened.trailingDim from rfl, htdim]
    refine ⟨?_, ?_⟩
    · intro s hs
      obtain ⟨i, hvi, hi, hsi⟩ := mem_window_iff.mp hs
      rw [start_place] at hvi hi
      rw [hslots] at hsi
      by_cases hip : i = p
      · rw [if_pos hip] at hsi
        obtain rfl := Option.some.inj hsi
        refine ⟨Int.le_trans (by decide) ht, htb, fun hhole => ?_⟩
        rw [hnew] at hhole
        cases hhole
      · rw [if_neg hip] at hsi
        exact (ho.origin v i s hv hvi hi hip hsi).1
    · rw [pairwise_window_iff]
      intro i j a b hvi hij hj ha hb
      rw [start_place] at hvi hj
      rw [hslots] at ha hb
      by_cases hip : i = p
      · -- the new entry stands before larger entries and holes
        rw [if_pos hip] at ha
        rw [if_neg (by omega)] at hb
        obtain rfl := Option.some.inj ha
        obtain rfl := ho.window_eq hw hv (by omega) (by omega)
        rcases ho.above j b (by omega) hj hb with hhole | hlt
        · exact Or.inl hhole
        · exact Or.inr ⟨hnew, hlt⟩
      · rw [if_neg hip] at ha
        by_cases hjp : j = p
        · -- and behind smaller ones
          rw [if_pos hjp] at hb
          obtain rfl := Option.some.inj hb
          obtain rfl := ho.window_eq hw hv (by omega) (by omega)
          exact Or.inr (ho.below i a hvi (by omega) ha)
        · rw [if_neg hjp] at hb
          exact ho.ordered v i j a b hv hvi hij hj hip hjp ha hb
  · intro hc
    cases hc

theorem slotAt?_place (ho : m.Opened opened w t p) (h : m.Sound) (hw : w < m.leadingDim)
    (ht : 0 ≤ t) (htb : t < m.trailingDim) (x : α) (hv : v < m.leadingDim) (hu : 0 ≤ u) :
    (opened.place p t x).slotAt? v u =
      if v = w ∧ u = t then some ⟨t, x, true⟩ else m.slotAt? v u := by
  have hsound := ho.sound_place hw ht htb x
  have hv' : v < (opened.place p t x).leadingDim := by
    rw [show (opened.place p t x).leadingDim = opened.leadingDim from rfl, ho.frame.leadingDim]
    exact hv
  have hhole : ∀ s : Slot α, s.index = u → s.isHole = false :=
    fun s hs => Slot.isHole_eq_false_iff.mpr (by omega)
  split_ifs with hown
  · obtain ⟨rfl, rfl⟩ := hown
    rw [hsound.slotAt?_eq_some_iff hv' hu]
    refine ⟨(ho.mem_window_place hw hv x (hhole _ rfl)).mpr (Or.inl ⟨rfl, rfl⟩), rfl⟩
  · refine h.slotAt?_congr hsound hv hv' hu fun s hs => ?_
    rw [ho.mem_window_place hw hv x (hhole s hs)]
    constructor
    · rintro (⟨rfl, rfl⟩ | hmem)
      · exact absurd ⟨rfl, hs.symm⟩ hown
      · exact hmem
    · exact Or.inr

end Opened

/-! ## A write -/

section

variable [Scalar α]

/-- The slot that a write leaves at its position. -/
def slotAfter (locked : Bool) (old : Option (Slot α)) (t : Int) (x : α) (overwrite : Bool) :
    Option (Slot α) :=
  match old with
  | some s => some ⟨t, if s.live && !overwrite then s.value + x else x, true⟩
  | none => if x == 0 && !locked then none else some ⟨t, x, true⟩

/-- A write leaves its slot live. -/
theorem live_of_slotAfter {locked overwrite : Bool} {old : Option (Slot α)} {x : α}
    (h : slotAfter locked old t x overwrite = some s) : s.live = true := by
  unfold slotAfter at h
  split at h
  · obtain rfl := Option.some.inj h
    rfl
  · split_ifs at h
    obtain rfl := Option.some.inj h
    rfl

/-- There is a slot after a write where there was one, under the lock, and for a value that is not
zero. -/
theorem exists_slotAfter_iff {locked overwrite : Bool} {old : Option (Slot α)} {x : α} :
    (∃ s, slotAfter locked old t x overwrite = some s) ↔
      (∃ s, old = some s) ∨ locked = true ∨ (x == 0) = false := by
  rcases old with _ | s
  · cases locked <;> cases hx : x == 0 <;> simp [slotAfter, hx]
  · simp [slotAfter]

theorem revalued_refill (m : Matrix α) (i : Nat) (x : α) (overwrite : Bool)
    (hi : ∀ s, m.slots[i]? = some s → s.isHole = false) :
    m.Revalued (m.refill i x overwrite) fun j s =>
      if j = i then ⟨s.index, if s.live && !overwrite then s.value + x else x, true⟩ else s := by
  refine ⟨⟨rfl, rfl, rfl, rfl, rfl, rfl⟩, rfl, ?_, ?_, ?_, ?_⟩
  · intro j
    rw [refill, Array.getElem?_modify]
    by_cases hj : j = i
    · subst hj
      rw [if_pos rfl]
      congr 1
      funext s
      rw [if_pos rfl]
      cases hl : s.live && !overwrite
      · simp
      · rw [Bool.and_eq_true] at hl
        simp [hl.1]
    · rw [if_neg (Ne.symm hj)]
      simp [hj]
  · intro j s
    split_ifs <;> rfl
  · intro j s hhole hlive hs
    by_cases hj : j = i
    · subst hj
      rw [hi s hs] at hhole
      cases hhole
    · rw [if_neg hj]
      exact hlive
  · intro hc
    refine ⟨hc, fun j s hlive _ => ?_⟩
    by_cases hj : j = i
    · rw [if_pos hj]
    · rw [if_neg hj]
      exact hlive

theorem Sound.revalued_refill (h : m.Sound) (hw : w < m.leadingDim) (ht : 0 ≤ t) (x : α)
    (overwrite : Bool) (hplace : m.locate w t = .found i) :
    m.Revalued (m.refill i x overwrite) fun j s =>
      if j = i then ⟨s.index, if s.live && !overwrite then s.value + x else x, true⟩ else s := by
  have hspec := h.locate_spec hw t
  rw [hplace] at hspec
  obtain ⟨-, -, s, hs, hst⟩ := hspec
  refine Matrix.revalued_refill m i x overwrite fun s' hs' => ?_
  obtain rfl := Option.some.inj (hs.symm.trans hs')
  exact Slot.isHole_eq_false_iff.mpr (by omega)

/-- A write that finds no slot either stores nothing or puts its entry into an open slot. -/
theorem Sound.write_eq (h : m.Sound) (hw : w < m.leadingDim) (t : Int) (x : α) (overwrite : Bool) :
    (∃ i, m.locate w t = .found i ∧ m.write w t x overwrite = m.refill i x overwrite) ∨
      ((∀ i, m.locate w t ≠ .found i) ∧ (x == 0 && !m.locked) = true ∧
        m.write w t x overwrite = m) ∨
      ((∀ i, m.locate w t ≠ .found i) ∧ (x == 0 && !m.locked) = false ∧
        ∃ opened p, m.Opened opened w t p ∧ m.write w t x overwrite = opened.place p t x) := by
  have hspec := h.locate_spec hw t
  rw [write]
  split
  · rename_i i hplace
    exact Or.inl ⟨i, hplace, rfl⟩
  · rename_i hnew
    right
    cases hskip : x == 0 && !m.locked with
    | true => exact Or.inl ⟨hnew, rfl, rfl⟩
    | false =>
      exact Or.inr ⟨hnew, rfl, _, _, h.opened_openSlot hw hspec hnew, rfl⟩

/-- A write keeps the buffers sound. -/
theorem Sound.write (h : m.Sound) (hw : w < m.leadingDim) (ht : 0 ≤ t) (htb : t < m.trailingDim)
    (x : α) (overwrite : Bool) : (m.write w t x overwrite).Sound := by
  rcases h.write_eq hw t x overwrite with ⟨i, hplace, heq⟩ | ⟨-, -, heq⟩ | ⟨-, -, opened, p, ho, heq⟩
  · rw [heq]
    exact (h.revalued_refill hw ht x overwrite hplace).sound h
  · rwa [heq]
  · rw [heq]
    exact ho.sound_place hw ht htb x

theorem Sound.sameFrame_write (h : m.Sound) (hw : w < m.leadingDim) (t : Int) (x : α)
    (overwrite : Bool) : m.SameFrame (m.write w t x overwrite) := by
  rcases h.write_eq hw t x overwrite with ⟨i, -, heq⟩ | ⟨-, -, heq⟩ | ⟨-, -, opened, p, ho, heq⟩
  · rw [heq]
    exact ⟨rfl, rfl, rfl, rfl, rfl, rfl⟩
  · rw [heq]
    exact SameFrame.refl m
  · rw [heq]
    exact ho.frame.trans ⟨rfl, rfl, rfl, rfl, rfl, rfl⟩

/-- A write that finds its slot changes that one alone. -/
theorem Sound.slotAt?_refill (h : m.Sound) (hw : w < m.leadingDim) (ht : 0 ≤ t) (x : α)
    (overwrite : Bool) (hplace : m.locate w t = .found i) (hv : v < m.leadingDim) (hu : 0 ≤ u) :
    (m.refill i x overwrite).slotAt? v u =
      if v = w ∧ u = t then slotAfter m.locked (m.slotAt? w t) t x overwrite
      else m.slotAt? v u := by
  have r := h.revalued_refill hw ht x overwrite hplace
  have hspec := h.locate_spec hw t
  rw [hplace] at hspec
  obtain ⟨hwi, hi, s, hs, rfl⟩ := hspec
  have hold : m.slotAt? w s.index = some s := by
    rw [h.slotAt?_of_locate hw ht, hplace]
    exact hs
  rcases hvu : m.slotAt? v u with _ | a
  · rw [r.slotAt?_eq_none hvu, if_neg]
    rintro ⟨rfl, rfl⟩
    rw [hold] at hvu
    cases hvu
  · obtain ⟨j, hvj, hj, ha, hget⟩ := r.slotAt?_eq_some h hv hu hvu
    rw [hget]
    by_cases hji : j = i
    · subst hji
      obtain rfl := Option.some.inj (hs.symm.trans ha)
      have hvw := h.cut.window_unique hv hw hvj hj hwi hi
      have hsu := (mem_of_slotAt? hvu).2
      rw [if_pos (show j = j from rfl), if_pos (show v = w ∧ u = s.index from ⟨hvw, hsu.symm⟩),
        hold]
      rfl
    · rw [if_neg hji, if_neg]
      rintro ⟨rfl, rfl⟩
      rw [hold] at hvu
      obtain rfl := Option.some.inj hvu
      have hhole : s.isHole = false := Slot.isHole_eq_false_iff.mpr (by omega)
      exact hji (h.place_inj hw hwi hi hvj hj hs ha hhole)

/-- A write changes the slot of its position and no other. -/
theorem Sound.slotAt?_write (h : m.Sound) (hw : w < m.leadingDim) (ht : 0 ≤ t)
    (htb : t < m.trailingDim) (x : α) (overwrite : Bool) (hv : v < m.leadingDim) (hu : 0 ≤ u) :
    (m.write w t x overwrite).slotAt? v u =
      if v = w ∧ u = t then slotAfter m.locked (m.slotAt? w t) t x overwrite
      else m.slotAt? v u := by
  rcases h.write_eq hw t x overwrite with
    ⟨i, hplace, heq⟩ | ⟨hnew, hskip, heq⟩ | ⟨hnew, hskip, opened, p, ho, heq⟩
  · rw [heq]
    exact h.slotAt?_refill hw ht x overwrite hplace hv hu
  all_goals
    have hnone : m.slotAt? w t = none := by
      rw [h.slotAt?_of_locate hw ht]
      split
      · rename_i i hplace
        exact absurd hplace (hnew i)
      · rfl
    rw [heq, hnone]
  · split_ifs with hown
    · obtain ⟨rfl, rfl⟩ := hown
      rw [hnone, slotAfter, hskip, if_pos rfl]
    · rfl
  · rw [ho.slotAt?_place h hw ht htb x hv hu, slotAfter, hskip]
    rfl

end

end CentralPath.Sparse.Matrix
