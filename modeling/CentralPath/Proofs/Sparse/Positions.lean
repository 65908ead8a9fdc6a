/-
  Positions of a matrix. A position inside the shape has a window and an index, and no other
  position has the same (`locateWindow?_inj`). `slotOf?` is the meaning of a matrix as a partial
  function from positions to slots and `valueAt` the value it reads as; `get` and `set` are described
  by them, and the entries are exactly the live slots (`Sound.mem_entries_iff`), one for each
  position at most (`Sound.entries_pairwise`).
-/
import CentralPath.Sparse.Access
import CentralPath.Proofs.Sparse.Writing

namespace CentralPath.Sparse.Matrix

variable {α : Type} {m m' : Matrix α} {row col row' col' : Int} {w : Nat} {t : Int} {s : Slot α}

/-! ## Windows of positions -/

/-- The position lies inside the shape. -/
def InShape (m : Matrix α) (row col : Int) : Prop :=
  0 ≤ row ∧ row < m.rows ∧ 0 ≤ col ∧ col < m.cols

instance (m : Matrix α) (row col : Int) : Decidable (m.InShape row col) :=
  inferInstanceAs (Decidable (_ ∧ _ ∧ _ ∧ _))

theorem locateWindow?_of_not_inShape (h : ¬m.InShape row col) : m.locateWindow? row col = none :=
  if_neg h

theorem exists_locateWindow? (h : m.InShape row col) :
    ∃ w t, m.locateWindow? row col = some (w, t) ∧ w < m.leadingDim ∧ 0 ≤ t ∧
      t < m.trailingDim := by
  obtain ⟨hr, hr', hc, hc'⟩ := h
  rw [locateWindow?, if_pos ⟨hr, hr', hc, hc'⟩, leadingDim, trailingDim]
  rcases m.orientation with _ | _
  · exact ⟨row.toNat, col, rfl, (Int.toNat_lt hr).mpr hr', hc, hc'⟩
  · exact ⟨col.toNat, row, rfl, (Int.toNat_lt hc).mpr hc', hr, hr'⟩

theorem inShape_of_locateWindow? (h : m.locateWindow? row col = some (w, t)) :
    m.InShape row col := by
  by_contra hout
  rw [locateWindow?_of_not_inShape hout] at h
  cases h

theorem range_of_locateWindow? (h : m.locateWindow? row col = some (w, t)) :
    w < m.leadingDim ∧ 0 ≤ t ∧ t < m.trailingDim := by
  obtain ⟨w', t', h', hrange⟩ := exists_locateWindow? (inShape_of_locateWindow? h)
  obtain ⟨rfl, rfl⟩ := Prod.mk.inj (Option.some.inj (h.symm.trans h'))
  exact hrange

/-- A window and an index belong to one position. -/
theorem locateWindow?_inj (h : m.locateWindow? row col = some (w, t))
    (h' : m.locateWindow? row' col' = some (w, t)) : row = row' ∧ col = col' := by
  obtain ⟨hr, -, hc, -⟩ := inShape_of_locateWindow? h
  obtain ⟨hr', -, hc', -⟩ := inShape_of_locateWindow? h'
  have hin : 0 ≤ row ∧ row < m.rows ∧ 0 ≤ col ∧ col < m.cols := inShape_of_locateWindow? h
  have hin' : 0 ≤ row' ∧ row' < m.rows ∧ 0 ≤ col' ∧ col' < m.cols := inShape_of_locateWindow? h'
  rw [locateWindow?, if_pos hin, Option.some.injEq] at h
  rw [locateWindow?, if_pos hin', Option.some.injEq] at h'
  cases ho : m.orientation <;> rw [ho] at h h' <;> simp only [Prod.mk.injEq] at h h' <;> omega

theorem SameFrame.inShape (h : m.SameFrame m') : m'.InShape row col ↔ m.InShape row col := by
  rw [InShape, InShape, h.rows, h.cols]

theorem SameFrame.locateWindow? (h : m.SameFrame m') (row col : Int) :
    m'.locateWindow? row col = m.locateWindow? row col := by
  rw [Matrix.locateWindow?, Matrix.locateWindow?, h.rows, h.cols, h.orientation]

theorem locateWindow?_entryOf (m : Matrix α) (hw : w < m.leadingDim) (hs : 0 ≤ s.index)
    (hs' : s.index < m.trailingDim) :
    m.locateWindow? (m.entryOf w s).row (m.entryOf w s).col = some (w, s.index) := by
  rw [leadingDim] at hw
  rw [trailingDim] at hs'
  rw [locateWindow?, entryOf]
  cases ho : m.orientation <;> rw [ho] at hw hs'
  · rw [if_pos ⟨Int.natCast_nonneg w, Int.ofNat_lt.mpr hw, hs, hs'⟩]
    rfl
  · rw [if_pos ⟨hs, hs', Int.natCast_nonneg w, Int.ofNat_lt.mpr hw⟩]
    rfl

/-! ## The meaning of a matrix -/

/-- The slot of a position. -/
def slotOf? (m : Matrix α) (row col : Int) : Option (Slot α) :=
  (m.locateWindow? row col).bind fun p => m.slotAt? p.1 p.2

/-- What a position reads as. -/
def valueAt [Zero α] (m : Matrix α) (row col : Int) : α :=
  ((m.slotOf? row col).map Slot.reading).getD 0

theorem slotOf?_eq (h : m.locateWindow? row col = some (w, t)) :
    m.slotOf? row col = m.slotAt? w t := by
  rw [slotOf?, h]
  rfl

/-- Two matrices of one frame have the same slot at a position if their windows do. -/
theorem SameFrame.slotOf?_congr (h : m.SameFrame m') {f : Option (Slot α) → Option (Slot α)}
    (hnone : f none = none) (hslot : ∀ w t, m.locateWindow? row col = some (w, t) →
      m'.slotAt? w t = f (m.slotAt? w t)) : m'.slotOf? row col = f (m.slotOf? row col) := by
  rw [slotOf?, slotOf?, h.locateWindow?]
  rcases hp : m.locateWindow? row col with _ | ⟨w, t⟩
  · exact hnone.symm
  · exact hslot w t hp

theorem isHole_of_slotOf? (hs : m.slotOf? row col = some s) : s.isHole = false := by
  by_cases hin : m.InShape row col
  · obtain ⟨w, t, hp, -, ht, -⟩ := exists_locateWindow? hin
    rw [slotOf?_eq hp] at hs
    have := (mem_of_slotAt? hs).2
    exact Slot.isHole_eq_false_iff.mpr (by omega)
  · rw [slotOf?, locateWindow?_of_not_inShape hin] at hs
    cases hs

theorem inShape_of_slotOf? (hs : m.slotOf? row col = some s) : m.InShape row col := by
  by_contra hout
  rw [slotOf?, locateWindow?_of_not_inShape hout] at hs
  cases hs

theorem valueAt_of_slotOf? [Zero α] (h : m.slotOf? row col = some s) :
    m.valueAt row col = s.reading := by
  rw [valueAt, h]
  rfl

theorem valueAt_of_slotOf?_eq_none [Zero α] (h : m.slotOf? row col = none) :
    m.valueAt row col = 0 := by
  rw [valueAt, h]
  rfl

theorem valueAt_of_not_inShape [Zero α] (h : ¬m.InShape row col) : m.valueAt row col = 0 := by
  apply valueAt_of_slotOf?_eq_none
  rw [slotOf?, locateWindow?_of_not_inShape h, Option.bind_none]

/-- Reading a position inside the shape of sound buffers gives its value. -/
theorem Sound.get_eq [Zero α] (h : m.Sound) (hin : m.InShape row col) :
    m.get row col = .ok (m.valueAt row col) := by
  obtain ⟨w, t, hp, hw, ht, -⟩ := exists_locateWindow? hin
  rw [get, valueAt, slotOf?_eq hp, hp]
  dsimp only
  rw [if_pos h.isCut, h.read_eq hw ht]

theorem inShape_congr (hrows : m'.rows = m.rows) (hcols : m'.cols = m.cols) :
    m'.InShape row col ↔ m.InShape row col := by
  rw [InShape, InShape, hrows, hcols]

/-- Sound buffers of one shape read alike if they have the same values. -/
theorem Sound.get_eq_get_iff [Zero α] (h : m.Sound) (h' : m'.Sound) (hrows : m'.rows = m.rows)
    (hcols : m'.cols = m.cols) :
    m'.get row col = m.get row col ↔ m'.valueAt row col = m.valueAt row col := by
  by_cases hin : m.InShape row col
  · rw [h.get_eq hin, h'.get_eq ((inShape_congr hrows hcols).mpr hin), Except.ok.injEq]
  · have hout : ¬m'.InShape row col := mt (inShape_congr hrows hcols).mp hin
    rw [valueAt_of_not_inShape hin, valueAt_of_not_inShape hout, get, get,
      locateWindow?_of_not_inShape hin, locateWindow?_of_not_inShape hout]
    simp only [outside, hrows, hcols]

/-! ## Values changed slot by slot -/

theorem Revalued.slotOf?_eq_some {change : Nat → Slot α → Slot α} (r : m.Revalued m' change)
    (h : m.Sound) (hs : m.slotOf? row col = some s) :
    ∃ w i, m.locateWindow? row col = some (w, s.index) ∧ w < m.leadingDim ∧
      m.start w ≤ i ∧ i < m.start (w + 1) ∧ m'.slotOf? row col = some (change i s) := by
  by_cases hin : m.InShape row col
  · obtain ⟨w, t, hp, hw, ht, -⟩ := exists_locateWindow? hin
    rw [slotOf?_eq hp] at hs
    obtain rfl := (mem_of_slotAt? hs).2
    obtain ⟨i, hwi, hi, -, hget⟩ := r.slotAt?_eq_some h hw ht hs
    exact ⟨w, i, hp, hw, hwi, hi, by rw [slotOf?_eq ((r.frame.locateWindow? _ _).trans hp), hget]⟩
  · rw [slotOf?, locateWindow?_of_not_inShape hin] at hs
    cases hs

theorem Revalued.slotOf?_eq_none {change : Nat → Slot α → Slot α} (r : m.Revalued m' change)
    (hs : m.slotOf? row col = none) : m'.slotOf? row col = none := by
  rw [slotOf?, r.frame.locateWindow?]
  rcases hp : m.locateWindow? row col with _ | ⟨w, t⟩
  · rfl
  · rw [slotOf?_eq hp] at hs
    exact r.slotAt?_eq_none hs

/-- A place inside a window is before the used length. -/
theorem Cut.lt_usedCount (h : m.Cut) (hw : w < m.leadingDim) {i : Nat}
    (hi : i < m.start (w + 1)) : i < m.usedCount := by
  rw [h.usedCount_eq]
  exact Nat.lt_of_lt_of_le hi (h.start_le_end hw)

/-! ## Writing a position -/

section

variable [Scalar α]

theorem set_of_not_inShape (h : ¬m.InShape row col) (x : α) (overwrite : Bool) :
    m.set row col x overwrite = (some (m.outside row col), m) := by
  rw [set, locateWindow?_of_not_inShape h]

/-- A write inside the shape is never refused. -/
theorem Sound.set_eq (h : m.Sound) (hp : m.locateWindow? row col = some (w, t)) (x : α)
    (overwrite : Bool) : m.set row col x overwrite = (none, m.write w t x overwrite) := by
  rw [Matrix.set, hp]
  dsimp only
  rw [if_pos h.isCut]

theorem Sound.set_fault (h : m.Sound) (hin : m.InShape row col) (x : α) (overwrite : Bool) :
    (m.set row col x overwrite).1 = none := by
  obtain ⟨w, t, hp, -⟩ := exists_locateWindow? hin
  rw [h.set_eq hp]

/-- A write keeps the buffers sound, also where it is refused. -/
theorem Sound.set (h : m.Sound) (row col : Int) (x : α) (overwrite : Bool) :
    (m.set row col x overwrite).2.Sound := by
  by_cases hin : m.InShape row col
  · obtain ⟨w, t, hp, hw, ht, htb⟩ := exists_locateWindow? hin
    rw [h.set_eq hp]
    exact h.write hw ht htb x overwrite
  · rw [set_of_not_inShape hin]
    exact h

theorem Sound.sameFrame_set (h : m.Sound) (row col : Int) (x : α) (overwrite : Bool) :
    m.SameFrame (m.set row col x overwrite).2 := by
  by_cases hin : m.InShape row col
  · obtain ⟨w, t, hp, hw, -⟩ := exists_locateWindow? hin
    rw [h.set_eq hp]
    exact h.sameFrame_write hw t x overwrite
  · rw [set_of_not_inShape hin]
    exact SameFrame.refl m

/-- The value that a write leaves at its position. -/
theorem reading_slotAfter (locked : Bool) (old : Option (Slot α)) (t : Int) (x : α)
    (overwrite : Bool) :
    ((slotAfter locked old t x overwrite).map Slot.reading).getD 0 =
      match old with
      | some s => if s.live && !overwrite then s.value + x else x
      | none => if x == 0 && !locked then 0 else x := by
  rcases old with _ | s
  · simp only [slotAfter]
    split <;> rfl
  · rfl

/-- A write changes the slot of its position and no other. -/
theorem Sound.slotOf?_set (h : m.Sound) (hin : m.InShape row col) (x : α) (overwrite : Bool)
    (row' col' : Int) :
    (m.set row col x overwrite).2.slotOf? row' col' =
      if row' = row ∧ col' = col then
        (m.locateWindow? row col).bind fun p =>
          slotAfter m.locked (m.slotOf? row col) p.2 x overwrite
      else m.slotOf? row' col' := by
  obtain ⟨w, t, hp, hw, ht, htb⟩ := exists_locateWindow? hin
  have hframe := h.sameFrame_write hw t x overwrite
  rw [h.set_eq hp, slotOf?_eq hp, hp]
  by_cases hown : row' = row ∧ col' = col
  · obtain ⟨rfl, rfl⟩ := hown
    rw [if_pos ⟨rfl, rfl⟩, slotOf?_eq ((hframe.locateWindow? _ _).trans hp),
      h.slotAt?_write hw ht htb x overwrite hw ht, if_pos ⟨rfl, rfl⟩]
    rfl
  · rw [if_neg hown]
    refine hframe.slotOf?_congr (f := id) rfl fun v u hp' => ?_
    obtain ⟨hv, hu, -⟩ := range_of_locateWindow? hp'
    rw [h.slotAt?_write hw ht htb x overwrite hv hu, if_neg]
    · rfl
    · rintro ⟨rfl, rfl⟩
      exact hown (locateWindow?_inj hp' hp)

/-- What positions read as after a write. -/
theorem Sound.valueAt_set (h : m.Sound) (hin : m.InShape row col) (x : α) (overwrite : Bool)
    (row' col' : Int) :
    (m.set row col x overwrite).2.valueAt row' col' =
      if row' = row ∧ col' = col then
        match m.slotOf? row col with
        | some s => if s.live && !overwrite then s.value + x else x
        | none => if x == 0 && !m.locked then 0 else x
      else m.valueAt row' col' := by
  rw [valueAt, h.slotOf?_set hin]
  split
  · obtain ⟨w, t, hp, -⟩ := exists_locateWindow? hin
    rw [hp, Option.bind_some, reading_slotAfter]
  · rfl

end

/-! ## Entries -/

theorem mem_windowEntries_iff {e : Entry α} :
    e ∈ m.windowEntries w ↔ ∃ s ∈ m.window w, s.live = true ∧ m.entryOf w s = e := by
  simp [windowEntries, and_assoc]

theorem mem_entries_iff {e : Entry α} :
    e ∈ m.entries ↔
      ∃ w, w < m.leadingDim ∧ ∃ s ∈ m.window w, s.live = true ∧ m.entryOf w s = e := by
  simp only [entries, List.mem_flatMap, List.mem_range, mem_windowEntries_iff]

/-- Live slots have an index of the shape. -/
theorem Sound.index_range (h : m.Sound) (hw : w < m.leadingDim) (hs : s ∈ m.window w)
    (hlive : s.live = true) : 0 ≤ s.index ∧ s.index < m.trailingDim := by
  have hfits := (h.inOrder w hw).fits s hs
  have hlo : (-1 : Int) ≤ s.index := hfits.index_ge
  have := Slot.isHole_eq_false_iff.mp (hfits.isHole_of_live hlive)
  exact ⟨by omega, hfits.index_lt⟩

/-- The entries are the live slots with their positions, where slots of windows are found by their
index and live ones have an index of the shape. -/
theorem mem_entries_iff_slotOf?
    (hslot : ∀ w t s, w < m.leadingDim → 0 ≤ t →
      (m.slotAt? w t = some s ↔ s ∈ m.window w ∧ s.index = t))
    (hrange : ∀ w, w < m.leadingDim → ∀ s ∈ m.window w, s.live = true →
      0 ≤ s.index ∧ s.index < m.trailingDim) {e : Entry α} :
    e ∈ m.entries ↔ ∃ s, m.slotOf? e.row e.col = some s ∧ s.live = true ∧ s.value = e.value := by
  rw [Matrix.mem_entries_iff]
  constructor
  · rintro ⟨w, hw, s, hs, hlive, rfl⟩
    obtain ⟨hlo, hhi⟩ := hrange w hw s hs hlive
    refine ⟨s, ?_, hlive, ?_⟩
    · rw [slotOf?_eq (m.locateWindow?_entryOf hw hlo hhi), hslot w _ s hw hlo]
      exact ⟨hs, rfl⟩
    · rw [entryOf]
      cases m.orientation <;> rfl
  · rintro ⟨s, hs, hlive, hvalue⟩
    obtain ⟨w, t, hp, hw, -, -⟩ := exists_locateWindow? (inShape_of_slotOf? hs)
    rw [slotOf?_eq hp] at hs
    obtain ⟨hmem, hindex⟩ := mem_of_slotAt? hs
    obtain ⟨hlo, hhi⟩ := hrange w hw s hmem hlive
    have hpos := locateWindow?_inj (m.locateWindow?_entryOf hw hlo hhi) (by rw [hindex]; exact hp)
    refine ⟨w, hw, s, hmem, hlive, ?_⟩
    have hv : (m.entryOf w s).value = s.value := by
      rw [entryOf]
      cases m.orientation <;> rfl
    cases e
    cases hpart : m.entryOf w s
    rw [hpart] at hpos hv
    simp only [Entry.mk.injEq] at hpos hv hvalue ⊢
    exact ⟨hpos.1, hpos.2, hv.trans hvalue⟩

theorem Sound.mem_entries_iff (h : m.Sound) {e : Entry α} :
    e ∈ m.entries ↔ ∃ s, m.slotOf? e.row e.col = some s ∧ s.live = true ∧ s.value = e.value :=
  mem_entries_iff_slotOf? (fun _ _ _ hw ht => h.slotAt?_eq_some_iff hw ht)
    fun _ hw _ => h.index_range hw

theorem Sound.inShape_of_mem_entries (h : m.Sound) {e : Entry α} (he : e ∈ m.entries) :
    m.InShape e.row e.col := by
  obtain ⟨s, hs, -⟩ := h.mem_entries_iff.mp he
  exact inShape_of_slotOf? hs

/-- No position has two entries if no window has two live slots of one index. -/
theorem entries_pairwise_of_distinct
    (hrange : ∀ w, w < m.leadingDim → ∀ s ∈ m.window w, s.live = true →
      0 ≤ s.index ∧ s.index < m.trailingDim)
    (hdistinct : ∀ w, w < m.leadingDim →
      ((m.window w).filter (·.live)).Pairwise fun a b => a.index ≠ b.index) :
    m.entries.Pairwise fun a b => ¬(a.row = b.row ∧ a.col = b.col) := by
  rw [entries, List.pairwise_flatMap]
  refine ⟨?_, ?_⟩
  · intro w hw
    have hw := List.mem_range.mp hw
    rw [windowEntries, List.pairwise_map]
    refine (hdistinct w hw).imp_of_mem fun {a b} ha hb hab => ?_
    obtain ⟨ha, hla⟩ := List.mem_filter.mp ha
    obtain ⟨hb, hlb⟩ := List.mem_filter.mp hb
    obtain ⟨hlo, hhi⟩ := hrange w hw a ha hla
    obtain ⟨hlo', hhi'⟩ := hrange w hw b hb hlb
    rintro ⟨hr, hc⟩
    have hpa := m.locateWindow?_entryOf hw hlo hhi
    rw [hr, hc, m.locateWindow?_entryOf hw hlo' hhi', Option.some.injEq, Prod.mk.injEq] at hpa
    exact hab hpa.2.symm
  · refine List.pairwise_lt_range.imp_of_mem fun {v w} hv hw hvw => ?_
    intro a ha b hb
    obtain ⟨s, hs, hls, rfl⟩ := mem_windowEntries_iff.mp ha
    obtain ⟨s', hs', hls', rfl⟩ := mem_windowEntries_iff.mp hb
    have hv := List.mem_range.mp hv
    have hw := List.mem_range.mp hw
    obtain ⟨hlo, hhi⟩ := hrange v hv s hs hls
    obtain ⟨hlo', hhi'⟩ := hrange w hw s' hs' hls'
    rintro ⟨hr, hc⟩
    have hpa := m.locateWindow?_entryOf hv hlo hhi
    rw [hr, hc, m.locateWindow?_entryOf hw hlo' hhi', Option.some.injEq, Prod.mk.injEq] at hpa
    omega

theorem Sound.entries_pairwise (h : m.Sound) :
    m.entries.Pairwise fun a b => ¬(a.row = b.row ∧ a.col = b.col) := by
  refine entries_pairwise_of_distinct (fun w hw s => h.index_range hw) fun w hw => ?_
  have hlive := (h.inOrder w hw).filter (·.live)
  exact (hlive.increasing_of_live fun s hs => (List.mem_filter.mp hs).2).imp Int.ne_of_lt

end CentralPath.Sparse.Matrix
