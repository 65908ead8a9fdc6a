/-
  What operations do to values, in exact arithmetic. Each operation on sound buffers acts on
  `valueAt` position by position: a write at one position, a sum pointwise (`Sound.valueAt_accumulate`),
  and so on; compression, trimming and the lock do nothing to it. Reserved slots and absent ones
  cannot be told apart by reading, which is why zeros need no care here.
-/
import CentralPath.Proofs.Sparse.Storage

namespace CentralPath.Sparse

namespace Matrix

section

variable {α : Type} {m m' : Matrix α}

/-! ## Kept values -/

theorem Sound.valueAt_trim [Zero α] (h : m.Sound) (row col : Int) :
    m.trim.valueAt row col = m.valueAt row col := by
  by_cases hin : m.InShape row col
  · obtain ⟨w, t, hp, hw, -⟩ := exists_locateWindow? hin
    have hp' : m.trim.locateWindow? row col = some (w, t) := hp
    rw [valueAt, valueAt, slotOf?_eq hp, slotOf?_eq hp', slotAt?, slotAt?, h.window_trim hw]
  · have hout : ¬m.trim.InShape row col := hin
    rw [valueAt_of_not_inShape hin, valueAt_of_not_inShape hout]

theorem valueAt_of_buffers_eq [Zero α] (hlead : m'.lead = m.lead) (hslots : m'.slots = m.slots)
    (hpos : m'.locateWindow? = m.locateWindow?) (row col : Int) :
    m'.valueAt row col = m.valueAt row col := by
  rw [valueAt, valueAt, slotOf?, slotOf?, hpos]
  congr 3
  funext p
  exact slotAt?_of_buffers_eq hlead hslots p.1 p.2

/-- After a rebuild a position reads as the slot that was kept. -/
theorem valueAt_of_slotAt?_eq [Zero α] [Add α] (hzero : ∀ x : α, 0 + x = x)
    {keep : Slot α → Bool} (hslot : ∀ w t, w < m.leadingDim → 0 ≤ t → m'.slotAt? w t =
      ((m.slotAt? w t).filter keep).map fun s => ⟨t, 0 + s.reading, true⟩)
    (hframe : m'.locateWindow? = m.locateWindow?) (row col : Int) :
    m'.valueAt row col =
      (((m.slotOf? row col).filter keep).map Slot.reading).getD 0 := by
  by_cases hin : m.InShape row col
  · obtain ⟨w, t, hp, hw, ht, -⟩ := exists_locateWindow? hin
    rw [valueAt, slotOf?_eq hp, slotOf?_eq (by rw [hframe, hp]), hslot w t hw ht, Option.map_map]
    congr 2
    funext s
    exact hzero _
  · rw [valueAt, slotOf?, slotOf?, hframe, locateWindow?_of_not_inShape hin]
    rfl

/-- Compression changes no value, as long as zero adds nothing. -/
theorem Sound.valueAt_compress_of_zero_add [Scalar α] (hzero : ∀ x : α, 0 + x = x) (h : m.Sound)
    (row col : Int) : m.compress.1.valueAt row col = m.valueAt row col := by
  rw [valueAt_of_slotAt?_eq hzero (fun w t hw ht => h.slotAt?_compress hw ht) rfl, valueAt]
  rcases hs : m.slotOf? row col with _ | s
  · rfl
  · have hhole := isHole_of_slotOf? hs
    cases hkeep : survives m.locked s
    · -- only reserved slots do not survive
      have hlive : s.live = false := by
        rw [survives, hhole] at hkeep
        simpa using (Bool.or_eq_false_iff.mp hkeep).2
      rw [Option.filter_some, hkeep]
      simp [Slot.reading, hlive]
    · rw [Option.filter_some, hkeep]
      rfl

end

variable {K : Type} [Field K] {m m' : Matrix K} {row col row' col' : Int} {w : Nat} {t : Int}
  {s : Slot K}

/-! ## Sums over entries -/

/-- A running total adds up what is added. -/
theorem foldl_add {β : Type} (l : List β) (f : β → K) (start : K) :
    l.foldl (fun sum x => sum + f x) start = start + (l.map f).sum := by
  induction l generalizing start with
  | nil => exact (add_zero start).symm
  | cons x xs ih => rw [List.foldl_cons, ih, List.map_cons, List.sum_cons, ← add_assoc]

/-- Where a total runs on for some elements only, the others add nothing. -/
theorem foldl_add_ite {β : Type} (l : List β) (p : β → Prop) [DecidablePred p] (f : β → K)
    (start : K) : l.foldl (fun sum x => if p x then sum + f x else sum) start =
      start + (l.map fun x => if p x then f x else 0).sum := by
  rw [← foldl_add]
  congr 1
  funext sum x
  split_ifs
  · rfl
  · exact (add_zero sum).symm

theorem sum_map_filter {β : Type} (l : List β) (p : β → Bool) (f : β → K) :
    ((l.filter p).map f).sum = (l.map fun x => if p x then f x else 0).sum := by
  induction l with
  | nil => rfl
  | cons x xs ih =>
    cases hp : p x
    · rw [List.filter_cons_of_neg (by simp [hp]), List.map_cons, List.sum_cons, hp,
        if_neg (by decide), zero_add, ih]
    · rw [List.filter_cons_of_pos hp, List.map_cons, List.map_cons, List.sum_cons, List.sum_cons,
        hp, if_pos rfl, ih]

/-- The entries of sound buffers add up to the value of each position. -/
theorem Sound.sum_entries (h : m.Sound) (row col : Int) :
    (m.entries.map fun e => if e.row = row ∧ e.col = col then e.value else 0).sum =
      m.valueAt row col := by
  by_cases hex : ∃ e ∈ m.entries, e.row = row ∧ e.col = col
  · obtain ⟨e, he, rfl, rfl⟩ := hex
    obtain ⟨s, hs, hlive, hvalue⟩ := h.mem_entries_iff.mp he
    have hpair := h.entries_pairwise
    obtain ⟨before, behind, hsplit⟩ := List.append_of_mem he
    rw [hsplit, List.pairwise_append, List.pairwise_cons] at hpair
    obtain ⟨-, ⟨hbehind, -⟩, hbefore⟩ := hpair
    -- every other entry has another position
    have hzero : ∀ l : List (Entry K), (∀ a ∈ l, ¬(a.row = e.row ∧ a.col = e.col)) →
        (l.map fun a => if a.row = e.row ∧ a.col = e.col then a.value else 0).sum = 0 := by
      intro l hl
      apply List.sum_eq_zero
      intro x hx
      obtain ⟨a, ha, rfl⟩ := List.mem_map.mp hx
      exact if_neg (hl a ha)
    rw [hsplit, List.map_append, List.sum_append, List.map_cons, List.sum_cons,
      hzero before fun a ha => hbefore a ha e (List.mem_cons_self ..),
      hzero behind fun b hb hc => hbehind b hb ⟨hc.1.symm, hc.2.symm⟩, if_pos ⟨rfl, rfl⟩,
      zero_add, add_zero, valueAt_of_slotOf? hs, Slot.reading, if_pos hlive, hvalue]
  · have hzero : m.valueAt row col = 0 := by
      rcases hs : m.slotOf? row col with _ | s
      · exact valueAt_of_slotOf?_eq_none hs
      · rw [valueAt_of_slotOf? hs, Slot.reading, if_neg]
        intro hlive
        exact hex ⟨⟨row, col, s.value⟩, h.mem_entries_iff.mpr ⟨s, hs, hlive, rfl⟩, rfl, rfl⟩
    rw [hzero]
    apply List.sum_eq_zero
    intro x hx
    obtain ⟨e, he, rfl⟩ := List.mem_map.mp hx
    exact if_neg fun hc => hex ⟨e, he, hc⟩

/-! ## Maps -/

/-- Whether a position lies in the given ranges; no range is no restriction. -/
def positionInSpans (rowSpan colSpan : Option Span) (row col : Int) : Bool :=
  rowSpan.all (·.contains row) && colSpan.all (·.contains col)

theorem Sound.valueAt_mapValues (h : m.Sound) {f : K → K} (hf : f 0 = 0)
    (rowSpan colSpan : Option Span) (row col : Int) :
    (m.mapValues f rowSpan colSpan).valueAt row col =
      if positionInSpans rowSpan colSpan row col then f (m.valueAt row col)
      else m.valueAt row col := by
  have r := revalued_mapValues m f rowSpan colSpan
  rcases hs : m.slotOf? row col with _ | s
  · rw [valueAt_of_slotOf?_eq_none hs, valueAt_of_slotOf?_eq_none (r.slotOf?_eq_none hs), hf,
      ite_self]
  · obtain ⟨w, i, hp, hw, hwi, hi, hget⟩ := r.slotOf?_eq_some h hs
    have hused := h.cut.lt_usedCount hw hi
    have hspan : m.inSpans rowSpan colSpan (m.ownerOf i) s =
        positionInSpans rowSpan colSpan row col := by
      obtain ⟨-, hlo, hhi⟩ := range_of_locateWindow? hp
      obtain ⟨hr, hc⟩ := locateWindow?_inj (m.locateWindow?_entryOf hw hlo hhi) hp
      rw [inSpans, h.cut.ownerOf_eq hw hwi hi, positionInSpans, hr, hc]
    rw [valueAt_of_slotOf? hs, valueAt_of_slotOf? hget, hspan]
    cases hlive : s.live
    · rw [if_neg (by simp), Slot.reading, if_neg (by simp [hlive]), hf, ite_self]
    · cases positionInSpans rowSpan colSpan row col
      · rw [if_neg (by simp), if_neg (by simp)]
      · rw [if_pos ⟨hused, rfl, rfl⟩, if_pos rfl, Slot.reading, Slot.reading, if_pos rfl,
          if_pos hlive]

variable [LinearOrder K]

/-! ## Writes -/

/-- A zero that is not stored reads as zero all the same. -/
theorem ite_skip_eq (x : K) (locked : Bool) : (if x == 0 && !locked then 0 else x) = x := by
  split_ifs with hskip
  · rw [Bool.and_eq_true, Scalar.beq_iff] at hskip
    exact hskip.1.symm
  · rfl

/-- A write overwrites or adds at its position and does nothing elsewhere. -/
theorem Sound.valueAt_set_eq (h : m.Sound) (hin : m.InShape row col) (x : K) (overwrite : Bool)
    (row' col' : Int) :
    (m.set row col x overwrite).2.valueAt row' col' =
      if row' = row ∧ col' = col then if overwrite then x else m.valueAt row col + x
      else m.valueAt row' col' := by
  rw [h.valueAt_set hin]
  by_cases hown : row' = row ∧ col' = col
  · rw [if_pos hown, if_pos hown]
    rcases hs : m.slotOf? row col with _ | s
    · rw [valueAt_of_slotOf?_eq_none hs, zero_add, ite_self]
      exact ite_skip_eq x m.locked
    · rw [valueAt_of_slotOf? hs, Slot.reading]
      cases hlive : s.live <;> cases overwrite <;> simp [hlive]
  · rw [if_neg hown, if_neg hown]

/-- Writes that add contribute their values position by position. -/
theorem Sound.valueAt_writeAll (h : m.Sound) {writes : List (Write K)}
    (hin : ∀ w ∈ writes, m.InShape w.row w.col ∧ w.overwrite = false) (row col : Int) :
    (m.writeAll writes).2.valueAt row col = m.valueAt row col +
      (writes.map fun w => if w.row = row ∧ w.col = col then w.value else 0).sum := by
  induction writes generalizing m with
  | nil => rw [List.map_nil, List.sum_nil, add_zero]; rfl
  | cons w ws ih =>
    obtain ⟨hw, hadd⟩ := hin w (List.mem_cons_self ..)
    rw [h.writeAll_cons hw, ih (h.set ..) fun w' hw' => ?_,
      h.valueAt_set_eq hw w.value w.overwrite row col, hadd, List.map_cons, List.sum_cons,
      ← add_assoc]
    · by_cases hown : w.row = row ∧ w.col = col
      · rw [if_pos ⟨hown.1.symm, hown.2.symm⟩, if_pos hown, hown.1, hown.2]
        rfl
      · rw [if_neg fun hc => hown ⟨hc.1.symm, hc.2.symm⟩, if_neg hown, add_zero]
    · rw [(h.sameFrame_set ..).inShape]
      exact hin w' (List.mem_cons_of_mem _ hw')

/-- Adding a sound matrix of the same shape adds its values, or their negatives. -/
theorem Sound.valueAt_accumulate (h : m.Sound) {other : Matrix K} (ho : other.Sound)
    (hrows : m.rows = other.rows) (hcols : m.cols = other.cols) (negated : Bool) (row col : Int) :
    (m.accumulate other negated).2.valueAt row col =
      m.valueAt row col + if negated then -other.valueAt row col else other.valueAt row col := by
  have hin := inShape_additions ho hrows hcols negated
  have hover : ∀ w ∈ additions other.entries negated, w.overwrite = false := by
    intro w hw
    obtain ⟨e, -, rfl⟩ := List.mem_map.mp hw
    rfl
  rw [accumulate_eq ho hrows hcols, h.valueAt_writeAll fun w hw => ⟨hin w hw, hover w hw⟩,
    ← ho.sum_entries, additions, List.map_map]
  congr 1
  cases negated
  · rfl
  · rw [if_pos rfl, List.sum_neg, List.map_map]
    congr 2
    funext e
    rw [Function.comp_apply, Function.comp_apply, apply_ite Neg.neg, neg_zero]
    rfl

/-! ## Multiples -/

theorem Sound.valueAt_scaleBy (h : m.Sound) (k : K) (row col : Int) :
    (m.scaleBy k).valueAt row col = m.valueAt row col * k := by
  have r := revalued_scaleBy m k
  rcases hs : m.slotOf? row col with _ | s
  · rw [valueAt_of_slotOf?_eq_none hs, valueAt_of_slotOf?_eq_none (r.slotOf?_eq_none hs), zero_mul]
  · obtain ⟨w, i, -, hw, -, hi, hget⟩ := r.slotOf?_eq_some h hs
    have hused := h.cut.lt_usedCount hw hi
    rw [valueAt_of_slotOf? hs, valueAt_of_slotOf? hget]
    cases hlive : s.live
    · rw [if_neg (by simp), Slot.reading, if_neg (by simp [hlive]), zero_mul]
    · rw [if_pos ⟨hused, rfl⟩, Slot.reading, Slot.reading, if_pos rfl, if_pos hlive]

/-! ## Rebuilds -/

/-- Compression changes no value. -/
theorem Sound.valueAt_compress (h : m.Sound) (row col : Int) :
    m.compress.1.valueAt row col = m.valueAt row col :=
  h.valueAt_compress_of_zero_add zero_add row col

/-- Pruning drops what is at most the threshold in absolute value. -/
theorem Sound.valueAt_pruned [IsStrictOrderedRing K] (h : m.Sound) {threshold : K}
    (hthreshold : 0 ≤ threshold) (row col : Int) :
    (m.pruned threshold).1.valueAt row col =
      if |m.valueAt row col| ≤ threshold then 0 else m.valueAt row col := by
  rw [valueAt_of_slotAt?_eq zero_add (fun w t hw ht => h.slotAt?_pruned threshold hw ht) rfl]
  rcases hs : m.slotOf? row col with _ | s
  · rw [valueAt_of_slotOf?_eq_none hs, abs_zero, if_pos hthreshold]
    rfl
  · have hhole := isHole_of_slotOf? hs
    rw [valueAt_of_slotOf? hs, Option.filter_some, outlasts, hhole, Slot.reading, Scalar.abs_eq]
    cases hlive : s.live
    · simp
    · by_cases hle : |s.value| ≤ threshold
      · simp [hle, not_lt.mpr hle]
      · simp [hle, not_le.mp hle, Slot.reading, hlive]

/-! ## New buffers -/

theorem valueAt_withFreshBuffers (m : Matrix K) (hint row col : Int) :
    (m.withFreshBuffers hint).valueAt row col = 0 := by
  by_cases hin : (m.withFreshBuffers hint).InShape row col
  · obtain ⟨w, t, hp, -, ht, -⟩ := exists_locateWindow? hin
    apply valueAt_of_slotOf?_eq_none
    rw [slotOf?_eq hp, slotAt?_withFreshBuffers m hint w ht]
  · exact valueAt_of_not_inShape hin

/-- After a reset every value is zero. -/
theorem Sound.valueAt_reset (h : m.Sound) {rows cols hint : Int} {next : Matrix K}
    (hreset : m.reset rows cols hint = .ok next) (row col : Int) : next.valueAt row col = 0 := by
  obtain ⟨-, -, ⟨-, -, rfl⟩ | rfl⟩ := cases_of_reset hreset
  · exact h.valueAt_cleared row col
  · exact valueAt_withFreshBuffers _ hint row col

/-- After loading a pattern every value is zero. -/
theorem valueAt_loadPattern {p : Pattern} (hp : p.InRange) {next : Matrix K}
    (hload : m.loadPattern p = .ok next) (row col : Int) : next.valueAt row col = 0 := by
  rcases hs : next.slotOf? row col with _ | s
  · exact valueAt_of_slotOf?_eq_none hs
  · by_cases hin : next.InShape row col
    · obtain ⟨w, t, hpos, hw, -⟩ := exists_locateWindow? hin
      rw [valueAt_of_slotOf? hs]
      rw [slotOf?_eq hpos] at hs
      exact reading_of_loadPattern hp hload hw (mem_of_slotAt? hs).1
    · exact valueAt_of_not_inShape hin

end Matrix

end CentralPath.Sparse
