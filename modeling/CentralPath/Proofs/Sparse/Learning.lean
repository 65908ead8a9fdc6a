/-
  Learning before filling. A matrix that has loaded what a pattern learned owns the written
  positions and no others (`owns_loadPattern_iff`), so the same writes find every slot they need
  and are made in place; afterwards it is `Packed`: the slots are exactly those of the written
  positions, all of them live and in order, and compression finds nothing to do.
  `learned_filling` puts this together, with what the writes mean as a table, which is the same as
  on a matrix that has learned nothing.
-/
import CentralPath.Proofs.Sparse.Ownership
import CentralPath.Proofs.Sparse.Recording
import CentralPath.Proofs.Sparse.Table

namespace CentralPath.Sparse

/-! ## Assemblies that run to their end -/

theorem Matrix.assemble_ofWrites {α : Type} [Scalar α] (m : Matrix α) (writes : List (Write α)) :
    m.assemble (.ofWrites writes) = m.writeAll writes :=
  Prod.ext (Option.or_none ..) rfl

theorem Pattern.assemble_ofWrites {α : Type} (p : Pattern) (writes : List (Write α)) :
    p.assemble (.ofWrites writes) = p.writeAll writes :=
  Prod.ext (Option.or_none ..) rfl

/-! ## Live windows -/

/-- A window of live slots is gathered already. -/
theorem InOrder.gathered_eq {K : Type} [Field K] [LinearOrder K] {bound : Nat}
    {slots : List (Slot K)} (h : InOrder bound slots) (hlive : ∀ s ∈ slots, s.live = true) :
    gathered slots = slots := by
  have hinc := h.increasing_of_live hlive
  have hsorted : distinctSorted (slots.map Slot.index) = slots.map Slot.index :=
    (pairwise_distinctSorted _).eq_of_mem_iff (List.pairwise_map.mpr hinc)
      fun t => mem_distinctSorted
  rw [gathered, hsorted, List.map_map]
  refine (List.map_congr_left fun s hs => ?_).trans (List.map_id slots)
  rw [Function.comp_apply, gatheredValue_of_unique hs (hinc.imp ne_of_lt), zero_add, Slot.reading,
    if_pos (hlive s hs), id, ← hlive s hs]

namespace Matrix

/-- Live slots do not differ from themselves. -/
theorem differs_self {K : Type} [Field K] [LinearOrder K] {slots : List (Slot K)}
    (hlive : ∀ s ∈ slots, s.live = true) : differs slots slots = false := by
  rw [differs, bne_self_eq_false, Bool.false_or]
  induction slots with
  | nil => rfl
  | cons s ss ih =>
    rw [List.zip_cons_cons, List.any_cons, ih fun s hs => hlive s (List.mem_cons_of_mem _ hs)]
    simp [hlive s (List.mem_cons_self ..)]

section

variable {α : Type} {m m' : Matrix α} {row col : Int} {w : Nat} {t : Int}

/-! ## Owners and their windows -/

/-- An index has a slot if it stands among the indices of its window. -/
theorem isSome_slotAt?_iff : (m.slotAt? w t).isSome = true ↔ t ∈ (m.window w).map Slot.index := by
  rw [slotAt?, List.find?_isSome, List.mem_map]
  simp only [beq_iff_eq]

theorem SameTopology.indices_window (h : m.SameTopology m') (w : Nat) :
    (m'.window w).map Slot.index = (m.window w).map Slot.index := by
  have hstart : m'.start = m.start := by
    funext w
    rw [start, start, h.lead]
  have hcut : ∀ m : Matrix α, (m.window w).map Slot.index =
      ((m.slots.map Slot.index).extract (m.start w) (m.start (w + 1))).toList := fun m => by
    rw [window, ← Array.toList_map, Array.map_extract]
  rw [hcut, hcut, h.indices, hstart]

/-- Positions own slots by the topology alone. -/
theorem SameTopology.owns_iff (h : m.SameTopology m') (hpos : m'.locateWindow? = m.locateWindow?) :
    m'.Owns row col ↔ m.Owns row col := by
  rw [Owns, Owns, slotOf?, slotOf?, hpos]
  rcases m.locateWindow? row col with _ | ⟨w, t⟩
  · exact Iff.rfl
  · rw [Option.bind_some, Option.bind_some, isSome_slotAt?_iff, isSome_slotAt?_iff,
      h.indices_window]

theorem SameTopology.usedLength (h : m.SameTopology m') : m'.usedLength = m.usedLength := by
  rw [Matrix.usedLength, Matrix.usedLength, h.lead]

theorem SameFrame.locateWindow?_eq (h : m.SameFrame m') : m'.locateWindow? = m.locateWindow? :=
  funext fun row => funext fun col => h.locateWindow? row col

/-- A slot that is not a hole belongs to a position. -/
theorem Sound.exists_slotOf? (h : m.Sound) (hw : w < m.leadingDim) {s : Slot α}
    (hs : s ∈ m.window w) (hhole : s.isHole = false) :
    ∃ row col, m.locateWindow? row col = some (w, s.index) ∧ m.slotOf? row col = some s := by
  have hfit := (h.inOrder w hw).fits s hs
  have hlo : 0 ≤ s.index := by
    have := hfit.index_ge
    have := Slot.isHole_eq_false_iff.mp hhole
    unfold hole at *
    omega
  have hp := locateWindow?_entryOf m hw hlo hfit.index_lt
  exact ⟨_, _, hp, by rw [slotOf?_eq hp]; exact (h.slotAt?_eq_some_iff hw hlo).mpr ⟨hs, rfl⟩⟩

section

variable [Scalar α]

/-- The writes of a position, as far as it has a slot, leave it live. -/
theorem Sound.live_writeAll (h : m.Sound) {writes : List (Write α)}
    (hin : ∀ w ∈ writes, m.InShape w.row w.col)
    (hlive : Names writes row col ∨ ∀ s, m.slotOf? row col = some s → s.live = true) :
    ∀ s, (m.writeAll writes).2.slotOf? row col = some s → s.live = true := by
  induction writes generalizing m with
  | nil =>
    refine hlive.resolve_left ?_
    rintro ⟨w, hw, -⟩
    cases hw
  | cons w ws ih =>
    have hw := hin w (List.mem_cons_self ..)
    have hset := h.set w.row w.col w.value w.overwrite
    have hframe := h.sameFrame_set w.row w.col w.value w.overwrite
    have hslot := h.slotOf?_set hw w.value w.overwrite row col
    rw [h.writeAll_cons hw]
    generalize (m.set w.row w.col w.value w.overwrite).2 = next at hset hframe hslot ⊢
    refine ih hset (fun v hv => hframe.inShape.mpr (hin v (List.mem_cons_of_mem _ hv))) ?_
    by_cases hown : row = w.row ∧ col = w.col
    · refine .inr fun s hs => ?_
      obtain ⟨v, t, hp, -⟩ := exists_locateWindow? hw
      rw [hslot, if_pos hown, hp, Option.bind_some] at hs
      exact live_of_slotAfter hs
    · rw [if_neg hown] at hslot
      rw [hslot]
      refine hlive.imp_left ?_
      rintro ⟨v, hv, hrow, hcol⟩
      rcases List.mem_cons.mp hv with rfl | hv
      · exact absurd ⟨hrow.symm, hcol.symm⟩ hown
      · exact ⟨v, hv, hrow, hcol⟩

/-- Under the lock the positions of the writes join those that had a slot. -/
theorem Sound.owns_writeAll_iff (h : m.Sound) (hlock : m.locked = true) {writes : List (Write α)}
    (hin : ∀ w ∈ writes, m.InShape w.row w.col) :
    (m.writeAll writes).2.Owns row col ↔ m.Owns row col ∨ Names writes row col := by
  induction writes generalizing m with
  | nil => exact ⟨.inl, fun ho => ho.resolve_right fun ⟨w, hw, _⟩ => List.not_mem_nil hw⟩
  | cons w ws ih =>
    have hw := hin w (List.mem_cons_self ..)
    have hset := h.set w.row w.col w.value w.overwrite
    have hframe := h.sameFrame_set w.row w.col w.value w.overwrite
    have hslot := h.slotOf?_set hw w.value w.overwrite row col
    rw [h.writeAll_cons hw]
    generalize (m.set w.row w.col w.value w.overwrite).2 = next at hset hframe hslot ⊢
    have hnext : next.Owns row col ↔ m.Owns row col ∨ (w.row = row ∧ w.col = col) := by
      rw [Owns, hslot]
      split_ifs with hown
      · obtain ⟨rfl, rfl⟩ := hown
        obtain ⟨v, t, hp, -⟩ := exists_locateWindow? hw
        rw [hp, Option.bind_some, hlock, Option.isSome_iff_exists, exists_slotAfter_iff]
        exact ⟨fun _ => .inr ⟨rfl, rfl⟩, fun _ => .inr (.inl rfl)⟩
      · exact ⟨.inl, fun ho => ho.resolve_right fun heq => hown ⟨heq.1.symm, heq.2.symm⟩⟩
    rw [ih hset (hframe.locked.trans hlock) fun v hv =>
      hframe.inShape.mpr (hin v (List.mem_cons_of_mem _ hv)), hnext, or_assoc]
    exact or_congr_right (by simp [Names])

/-- Compression keeps the slot of a position that is live, and under the lock any. -/
theorem Sound.owns_compress_iff (h : m.Sound)
    (hkeep : m.locked = true ∨ ∀ s, m.slotOf? row col = some s → s.live = true) :
    m.compress.1.Owns row col ↔ m.Owns row col := by
  have hframe : m.SameFrame m.compress.1 := sameFrame_rebuild m _
  rw [Owns, Owns]
  rcases hp : m.locateWindow? row col with _ | ⟨w, t⟩
  · rw [slotOf?, slotOf?, hframe.locateWindow?, hp]
    rfl
  · obtain ⟨hw, ht, -⟩ := range_of_locateWindow? hp
    rw [slotOf?_eq hp] at hkeep ⊢
    rw [slotOf?_eq ((hframe.locateWindow? _ _).trans hp), h.slotAt?_compress hw ht]
    rcases hs : m.slotAt? w t with _ | s
    · rfl
    · have hhole : s.isHole = false := by
        rw [Slot.isHole_eq_false_iff, (mem_of_slotAt? hs).2]
        omega
      have hkept : survives m.locked s = true := by
        rw [survives, hhole]
        rcases hkeep with hlock | hlive
        · rw [hlock]; rfl
        · rw [hlive s hs, Bool.or_true]; rfl
      rw [Option.filter_some_pos hkept]
      rfl

end

end

/-! ## Loaded positions -/

section

variable {α : Type} [Scalar α] {m next : Matrix α} {p : Pattern} {writes : List (Write α)}

/-- The windows of a loaded matrix have the recorded indices, in order. -/
theorem indices_window_loadPattern (hp : p.InRange) (hload : m.loadPattern p = .ok next) {w : Nat}
    (hw : w < next.leadingDim) : p.sorted[w]? = some ((next.window w).map Slot.index) := by
  have hlaid := loadPattern_laidOut hp hload
  have hlen : w < (reservedWindows (α := α) p).length := hlaid.count.symm ▸ hw
  have hindices : (reservedWindows (α := α) p)[w]? =
      (p.sorted[w]?).map fun indices => indices.map Slot.reserved := List.getElem?_map ..
  rw [List.getElem?_eq_getElem hlen, ← hlaid.window_eq hlen] at hindices
  obtain ⟨l, hl, heq⟩ := Option.map_eq_some_iff.mp hindices.symm
  rw [hl, ← heq, List.map_map]
  exact congrArg some (List.map_id' l).symm

/-- A matrix that has loaded a pattern owns the recorded positions and no others. -/
theorem owns_loadPattern_iff (hp : p.Records writes) (hload : m.loadPattern p = .ok next)
    (row col : Int) : next.Owns row col ↔ Names writes row col := by
  obtain ⟨hlead, -⟩ := leadingDim_of_loadPattern hload
  obtain ⟨horient, heq⟩ := loadPattern_eq hload
  have hshape : next.InShape row col ↔ 0 ≤ row ∧ row < p.rows ∧ 0 ≤ col ∧ col < p.cols := by
    rw [heq]
    exact Iff.rfl
  by_cases hin : next.InShape row col
  swap
  · refine ⟨fun ho => absurd ho.inShape hin, ?_⟩
    rintro ⟨w, hw, rfl, rfl⟩
    exact absurd (hshape.mpr (hp.fit w hw)) hin
  obtain ⟨w, t, hpos, hw, -⟩ := exists_locateWindow? hin
  have hplace : p.placeOf row col = ((w : Int), t) := by
    have horient' : next.orientation = m.orientation := by rw [heq]
    have hrlo := hin.1
    have hclo := hin.2.2.1
    rw [locateWindow?, if_pos (by exact hin), horient'] at hpos
    rw [Pattern.placeOf, horient]
    cases ho : m.orientation <;> rw [ho] at hpos <;> cases hpos
    · rw [Int.toNat_of_nonneg hrlo]
    · rw [Int.toNat_of_nonneg hclo]
  obtain ⟨l, hl, -, hmem⟩ := hp.getElem?_sorted (hlead ▸ hw)
  rw [indices_window_loadPattern hp.inRange hload hw] at hl
  obtain rfl := Option.some.inj hl
  rw [Owns, slotOf?_eq hpos, isSome_slotAt?_iff, hmem, ← hplace]
  constructor
  · rintro ⟨v, hv, heq⟩
    obtain ⟨hr, hc⟩ := Pattern.placeOf_inj heq
    exact ⟨v, hv, hr, hc⟩
  · rintro ⟨v, hv, rfl, rfl⟩
    exact ⟨v, hv, rfl⟩

/-- A pattern of the right orientation can be loaded, and gives its shape. -/
theorem exists_loadPattern (horient : p.orientation = m.orientation) :
    ∃ next, m.loadPattern p = .ok next ∧ next.rows = p.rows ∧ next.cols = p.cols := by
  rw [loadPattern, if_neg (not_not.mpr horient)]
  exact ⟨_, rfl, rfl, rfl⟩

/-- What is loaded depends on the shape and the distinct positions only. -/
theorem loadPattern_congr {p' : Pattern} (ho : p'.orientation = p.orientation)
    (hr : p'.rows = p.rows) (hc : p'.cols = p.cols) (hs : p'.sorted = p.sorted) :
    m.loadPattern p' = m.loadPattern p := by
  rw [loadPattern, loadPattern, ho, hr, hc, hs]

theorem capacity_loadPattern (hload : m.loadPattern p = .ok next) : next.capacity = p.size := by
  obtain ⟨-, rfl⟩ := loadPattern_eq hload
  rw [capacity, List.size_toArray, List.length_map, List.length_flatten, Pattern.size,
    totalOf_eq_sum]

theorem usedLength_loadPattern (hp : p.InRange) (hload : m.loadPattern p = .ok next) :
    next.usedLength = next.capacity := by
  have hlaid := loadPattern_laidOut hp hload
  rw [hlaid.cut.usedLength_eq, hlaid.start_eq (Nat.le_refl _), ← hlaid.count, List.take_length,
    capacity, ← Array.length_toList, hlaid.slots_eq, List.append_nil]

end

/-! ## Packed matrices -/

/-- The slots of a matrix are those of the positions that writes went to: one each, all of them
live, in order within each window, and no room besides. -/
structure Packed {α : Type} (m : Matrix α) (writes : List (Write α)) : Prop where
  owns_iff : ∀ row col, m.Owns row col ↔ Names writes row col
  capacity_eq : m.capacity = (namedPositions writes).card
  usedLength_eq : m.usedLength = m.capacity
  live : ∀ s ∈ m.slots, s.live = true
  increasing : ∀ w, w < m.leadingDim → ((m.window w).map Slot.index).Pairwise (· < ·)

section

variable {α : Type} {m : Matrix α} {writes : List (Write α)}

theorem usedSlots_eq_toList (h : m.usedLength = m.capacity) : m.usedSlots = m.slots.toList := by
  rw [usedSlots, usedCount, h, endPoint, if_pos (Int.natCast_nonneg _), Int.toNat_natCast,
    Nat.min_self]
  exact List.take_of_length_le (Nat.le_of_eq Array.length_toList)

/-- In a packed matrix every slot counts. -/
theorem Packed.liveCount_eq (h : m.Packed writes) : m.liveCount = m.capacity := by
  have hlive : ∀ s ∈ m.slots.toList, s.live = true := fun s hs =>
    h.live s (Array.mem_toList_iff.mp hs)
  rw [liveCount, usedSlots_eq_toList h.usedLength_eq, List.countP_eq_length.mpr hlive]
  exact Array.length_toList

theorem Packed.live_of_slotOf? (h : m.Packed writes) {row col : Int} {s : Slot α}
    (hs : m.slotOf? row col = some s) : s.live = true := by
  obtain ⟨⟨w, t⟩, -, hs⟩ := Option.bind_eq_some_iff.mp hs
  obtain ⟨i, -, -, hi⟩ := mem_window_iff.mp (mem_of_slotAt? hs).1
  exact h.live s (Array.mem_of_getElem? hi)

/-- Writes at the positions that a matrix has loaded are made in place and leave it packed. -/
theorem packed_of_loadPattern [Scalar α] {p : Pattern} (hp : p.Records writes) {next : Matrix α}
    (hload : m.loadPattern p = .ok next) :
    (next.writeAll writes).1 = none ∧ next.InPlace (next.writeAll writes).2 ∧
      (next.writeAll writes).2.Packed writes := by
  have hsound := sound_loadPattern hp.inRange hload
  have howns := owns_loadPattern_iff hp hload
  have hnamed : ∀ w ∈ writes, next.Owns w.row w.col := fun w hw =>
    (howns _ _).mpr ⟨w, hw, rfl, rfl⟩
  have hin : ∀ w ∈ writes, next.InShape w.row w.col := fun w hw => (hnamed w hw).inShape
  have hplace := hsound.inPlace_writeAll hnamed
  obtain ⟨hdone, hframe⟩ := hsound.writeAll writes
  have howns' : ∀ row col, (next.writeAll writes).2.Owns row col ↔ Names writes row col :=
    fun row col => (hplace.owns_iff hframe.locateWindow?_eq).trans (howns row col)
  have hindices : ∀ w, w < (next.writeAll writes).2.leadingDim →
      (((next.writeAll writes).2.window w).map Slot.index).Pairwise (· < ·) ∧
        ∀ t ∈ ((next.writeAll writes).2.window w).map Slot.index, 0 ≤ t := fun w hw => by
    rw [hframe.leadingDim] at hw
    obtain ⟨l, hl, hinc, hmem⟩ := hp.getElem?_sorted ((leadingDim_of_loadPattern hload).1 ▸ hw)
    rw [indices_window_loadPattern hp.inRange hload hw] at hl
    rw [hplace.indices_window, Option.some.inj hl]
    refine ⟨hinc, fun t ht => ?_⟩
    obtain ⟨v, hv, heq⟩ := (hmem t).mp ht
    obtain ⟨hrlo, hrhi, hclo, hchi⟩ := hp.fit v hv
    have := (Pattern.placeOf_range (p := p) ⟨hrlo, hrhi⟩ ⟨hclo, hchi⟩).2.2.1
    rwa [heq] at this
  have hused : (next.writeAll writes).2.usedLength = (next.writeAll writes).2.capacity := by
    rw [hplace.usedLength, hplace.capacity, usedLength_loadPattern hp.inRange hload]
  refine ⟨hsound.writeAll_fault hin, hplace, howns', ?_, hused, fun s hs => ?_,
    fun w hw => (hindices w hw).1⟩
  · rw [hplace.capacity, capacity_loadPattern hload, hp.size_eq]
  · rw [← Array.mem_toList_iff, ← usedSlots_eq_toList hused, hdone.cut.mem_usedSlots] at hs
    obtain ⟨w, hw, hs⟩ := hs
    have hhole : s.isHole = false := by
      have := (hindices w hw).2 s.index (List.mem_map_of_mem hs)
      exact Slot.isHole_eq_false_iff.mpr (by omega)
    obtain ⟨row, col, -, hslot⟩ := hdone.exists_slotOf? hw hs hhole
    have hwritten := (howns' row col).mp (owns_iff.mpr ⟨s, hslot⟩)
    exact hsound.live_writeAll hin (.inl hwritten) s hslot

end

section

variable {K : Type} [Field K] [LinearOrder K] {m : Matrix K} {writes : List (Write K)}

/-- Compression finds nothing to do where every used slot is live. -/
theorem Sound.compress_unchanged (h : m.Sound) (hlive : ∀ s ∈ m.usedSlots, s.live = true) :
    m.compress.2 = false := by
  have hwindow : ∀ w ∈ List.range m.leadingDim,
      gathered ((m.window w).filter (survives m.locked)) = m.window w := fun w hw => by
    have hw := List.mem_range.mp hw
    have hlive' : ∀ s ∈ m.window w, s.live = true := fun s hs =>
      hlive s (h.cut.mem_usedSlots.mpr ⟨w, hw, hs⟩)
    have hkept : (m.window w).filter (survives m.locked) = m.window w := by
      refine List.filter_eq_self.mpr fun s hs => ?_
      rw [survives, ((h.inOrder w hw).fits s hs).isHole_of_live (hlive' s hs), hlive' s hs,
        Bool.or_true]
      rfl
    rw [hkept]
    exact (h.inOrder w hw).gathered_eq hlive'
  have hsame : (m.gatheredWindows (survives m.locked)).flatten = m.usedSlots := by
    rw [gatheredWindows, List.map_congr_left hwindow, h.cut.usedSlots_eq, List.flatMap_def]
  have hdiffers : m.compress.2 =
      differs m.usedSlots (m.gatheredWindows (survives m.locked)).flatten := rfl
  rw [hdiffers, hsame, differs_self hlive]

/-- Nor does it report a change of packed buffers, under the lock or not. -/
theorem Packed.compress_unchanged (h : m.Packed writes) (hsound : m.Sound) (on : Bool) :
    ∃ compressed, (m.setLock on).compress? = .ok (compressed, false) := by
  have hsound' : (m.setLock on).Sound := hsound.of_buffers_eq rfl rfl rfl rfl rfl
  have hsame : (m.setLock on).compress.2 = false := hsound'.compress_unchanged fun s hs =>
    h.live s (Array.mem_toList_iff.mp (usedSlots_eq_toList h.usedLength_eq ▸ hs))
  exact ⟨(m.setLock on).compress.1, by rw [compress?, if_pos hsound'.isCut, ← hsame]⟩

/-- Writes mean on a matrix what they mean on the table that it represents. -/
theorem Sound.represents_writeAll [IsStrictOrderedRing K] {t : Table K} (h : m.Sound)
    (r : m.Represents t) (hin : ∀ w ∈ writes, m.InShape w.row w.col) :
    (m.writeAll writes).2.Represents (writes.foldl Table.write t) := by
  induction writes generalizing m t with
  | nil => exact r
  | cons w ws ih =>
    have hw := hin w (List.mem_cons_self ..)
    have hset := h.set w.row w.col w.value w.overwrite
    have hframe := h.sameFrame_set w.row w.col w.value w.overwrite
    have hnext := h.represents_perform r (.write w) True.intro
    rw [h.writeAll_cons hw]
    exact ih hset hnext fun v hv => hframe.inShape.mpr (hin v (List.mem_cons_of_mem _ hv))

omit [LinearOrder K] in
/-- A matrix that reads zero everywhere represents the table of zeros. -/
theorem Sound.represents_zero (h : m.Sound) (hzero : ∀ row col, m.valueAt row col = 0) :
    m.Represents (Table.zero m.rows m.cols) :=
  h.represents rfl rfl fun row col _ => hzero row col

end

/-! ## Learning -/

/-- Learning is exact, and it shows in the storage only. A pattern takes lessons, writes to
positions of its shape and looks in between, and a matrix of its orientation loads it, whatever has
been done to that matrix before.
No lesson is refused, and the pattern counts the distinct positions of the writes; what is loaded
depends on these positions alone, and not on the order of the writes or the looks. The same writes
then run on the matrix in place: no shift, no redistribution, no offset or index changed. It ends up
packed with the written positions, and compression has nothing to change, under the lock or not. As
a table it holds what the writes leave on an empty matrix that has learned nothing. -/
theorem learned_filling {K : Type} [Field K] [LinearOrder K] [IsStrictOrderedRing K]
    (rows cols : Nat) (m : Matrix K) (lessons : List (Lesson K))
    (hfit : WritesFit rows cols (Lesson.writes lessons)) :
    let writes := Lesson.writes lessons
    let learned := (Pattern.empty rows cols m.orientation).learn lessons
    learned.1 = none ∧ learned.2.size = (namedPositions writes).card ∧
    (∀ others : List (Lesson K),
      (∀ row col, Names (Lesson.writes others) row col ↔ Names writes row col) →
      m.loadPattern ((Pattern.empty rows cols m.orientation).learn others).2 =
        m.loadPattern learned.2) ∧
    ∃ loaded, m.loadPattern learned.2 = .ok loaded ∧
      let filled := (loaded.writeAll writes).2
      (loaded.writeAll writes).1 = none ∧ loaded.InPlace filled ∧
      filled.shifts = m.shifts ∧ filled.growths = m.growths ∧
      filled.Packed writes ∧ filled.liveCount = learned.2.size ∧
      (∀ on, ∃ compressed, (filled.setLock on).compress? = .ok (compressed, false)) ∧
      filled.Represents (writes.foldl Table.write (Table.zero rows cols)) ∧
      ∀ (orientation : Orientation) (hint : Int) (locked : Bool) (shiftBound : Option Nat),
        let fresh : Matrix K := { empty rows cols orientation hint with locked, shiftBound }
        (fresh.writeAll writes).1 = none ∧
        Table.ofMatrix (fresh.writeAll writes).2 = Table.ofMatrix filled := by
  intro writes learned
  obtain ⟨hfault, horient, hrows, hcols, hrecords⟩ := Pattern.learn_empty m.orientation hfit
  refine ⟨hfault, hrecords.size_eq, fun others hsame => ?_, ?_⟩
  · have hfit' : WritesFit rows cols (Lesson.writes others) := fun w hw => by
      obtain ⟨v, hv, hr, hc⟩ := (hsame w.row w.col).mp ⟨w, hw, rfl, rfl⟩
      exact hr ▸ hc ▸ hfit v hv
    obtain ⟨-, ho', hr', hc', hrecords'⟩ := Pattern.learn_empty m.orientation hfit'
    have ho := ho'.trans horient.symm
    have hr := hr'.trans hrows.symm
    have hc := hc'.trans hcols.symm
    exact loadPattern_congr ho hr hc (hrecords.sorted_eq hrecords' ho hr hc hsame)
  obtain ⟨loaded, hload, hr, hc⟩ := exists_loadPattern (m := m) horient
  have hsound := sound_loadPattern hrecords.inRange hload
  obtain ⟨hnone, hplace, hpacked⟩ := packed_of_loadPattern hrecords hload
  have hfilled := (hsound.writeAll writes).1
  have hcount : loaded.shifts = m.shifts ∧ loaded.growths = m.growths := by
    obtain ⟨-, rfl⟩ := loadPattern_eq hload
    exact ⟨rfl, rfl⟩
  have hzero := hsound.represents_zero (valueAt_loadPattern hrecords.inRange hload)
  rw [hr.trans hrows, hc.trans hcols] at hzero
  have hmeans := hsound.represents_writeAll hzero (hsound.inShape_of_writeAll hnone)
  refine ⟨loaded, hload, hnone, hplace, hplace.shifts.trans hcount.1,
    hplace.growths.trans hcount.2, hpacked, ?_, hpacked.compress_unchanged hfilled, hmeans, ?_⟩
  · rw [hpacked.liveCount_eq, hpacked.capacity_eq, hrecords.size_eq]
  intro orientation hint locked shiftBound fresh
  have hfresh : fresh.Sound :=
    (sound_withFreshBuffers _ hint).of_buffers_eq rfl rfl rfl rfl rfl
  have hfreshZero : fresh.Represents (Table.zero rows cols) :=
    hfresh.represents_zero fun row col =>
      (valueAt_of_buffers_eq rfl rfl rfl row col).trans (valueAt_withFreshBuffers _ hint row col)
  have hin : ∀ w ∈ writes, fresh.InShape w.row w.col := hfit
  exact ⟨hfresh.writeAll_fault hin,
    hmeans.ofMatrix_eq (hfresh.represents_writeAll hfreshZero hin)⟩

end Matrix

/-- A position written twice, first with zero, two others, and two looks in between. -/
def mixedLessons : List (Lesson ℚ) :=
  [.write ⟨1, 0, 0, true⟩, .look, .write ⟨0, 1, 3, false⟩, .write ⟨1, 0, 2, false⟩, .look,
    .write ⟨0, 0, -1, true⟩]

theorem learned_filling_mixedLessons :
    WritesFit 2 2 (Lesson.writes mixedLessons) ∧
      ∃ loaded, lockedPair.loadPattern
          ((Pattern.empty 2 2 .byRows).learn mixedLessons).2 = .ok loaded ∧
        (loaded.writeAll (Lesson.writes mixedLessons)).2.liveCount = 3 := by
  obtain ⟨-, hsize, -, loaded, hload, -, -, -, -, -, hlive, -⟩ :=
    Matrix.learned_filling 2 2 lockedPair mixedLessons (by decide)
  refine ⟨by decide, loaded, hload, ?_⟩
  rw [hlive, hsize]
  decide

end CentralPath.Sparse
