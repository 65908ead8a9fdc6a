/-
  Filling a matrix. Writes that overwrite and agree about a position leave its value there, however
  often and in whatever order they come (`Sound.valueAt_writeAll_of_gives`), so what a loaded block
  holds can be read off its entries. Whether it is refused, and whether it leaves live slots, is a
  matter of its entries alone (`Sound.fault_loadBlock`, `Sound.liveCount_loadBlock_pos_iff`).
  Recording the same writes on a pattern is not refused and keeps the positions in range.
-/
import CentralPath.Problem.Target
import CentralPath.Proofs.Sparse.Values

namespace CentralPath.Sparse

variable {K : Type}

/-! ## Agreement about a position -/

/-- Writes over a position carry its value, and there is one unless the value is zero. -/
structure WritesGive [Zero K] (writes : List (Write K)) (row col : Int) (v : K) : Prop where
  value : ∀ w ∈ writes, w.row = row → w.col = col → w.value = v
  exists_write : v ≠ 0 → ∃ w ∈ writes, w.row = row ∧ w.col = col

/-- Entries at a position carry its value, and there is one unless the value is zero. -/
structure EntriesGive [Zero K] (entries : List (Entry K)) (row col : Int) (v : K) : Prop where
  value : ∀ e ∈ entries, e.row = row → e.col = col → e.value = v
  exists_entry : v ≠ 0 → ∃ e ∈ entries, e.row = row ∧ e.col = col

theorem EntriesGive.writes [Zero K] {b : Block K} {row col : Int} {v : K}
    (h : EntriesGive b.entries row col v) : WritesGive b.writes row col v := by
  refine ⟨?_, fun hv => ?_⟩
  · intro w hw hr hc
    obtain ⟨e, he, rfl⟩ := List.mem_map.mp hw
    exact h.value e he hr hc
  · obtain ⟨e, he, hr, hc⟩ := h.exists_entry hv
    exact ⟨_, List.mem_map_of_mem he, hr, hc⟩

/-- What refuses a block: its first entry outside its shape. -/
def Block.fault? (b : Block K) : Option (Fault K) :=
  b.entries.findSome? fun (e : Entry K) =>
    if 0 ≤ e.row ∧ e.row < b.rows ∧ 0 ≤ e.col ∧ e.col < b.cols then none
    else some (.positionOutside e.row e.col b.rows b.cols)

/-- Nothing refuses a block whose entries stand in its shape. -/
theorem Block.fault?_eq_none {b : Block K}
    (h : ∀ e ∈ b.entries, ∃ i j : Nat, i < b.rows ∧ j < b.cols ∧ e.row = i ∧ e.col = j) :
    b.fault? = none := by
  refine List.findSome?_eq_none_iff.mpr fun e he => ?_
  obtain ⟨i, j, hi, hj, hrow, hcol⟩ := h e he
  exact if_pos (by omega)

namespace Matrix

theorem Sound.entriesGive [Zero K] {m : Matrix K} (h : m.Sound) (row col : Int) :
    EntriesGive m.entries row col (m.valueAt row col) := by
  refine ⟨?_, fun hv => ?_⟩
  · rintro e he rfl rfl
    obtain ⟨s, hs, hlive, hvalue⟩ := h.mem_entries_iff.mp he
    rw [valueAt_of_slotOf? hs, Slot.reading, if_pos hlive, hvalue]
  · rcases hs : m.slotOf? row col with _ | s
    · exact absurd (valueAt_of_slotOf?_eq_none hs) hv
    · rw [valueAt_of_slotOf? hs, Slot.reading] at hv
      have hlive : s.live = true := by
        by_contra hdead
        exact hv (if_neg hdead)
      exact ⟨⟨row, col, s.value⟩, h.mem_entries_iff.mpr ⟨s, hs, hlive, rfl⟩, rfl, rfl⟩

/-- A matrix without live slots holds nothing. -/
theorem Sound.valueAt_of_liveCount_eq_zero [Zero K] {m : Matrix K} (h : m.Sound)
    (hlive : m.liveCount = 0) (row col : Int) : m.valueAt row col = 0 := by
  by_contra hne
  obtain ⟨e, he, -⟩ := (h.entriesGive row col).exists_entry hne
  obtain ⟨w, hw, s, hs, hs', -⟩ := Matrix.mem_entries_iff.mp he
  exact List.countP_eq_zero.mp hlive s (h.cut.mem_usedSlots.mpr ⟨w, hw, hs⟩) hs'

/-- A matrix of a given shape that holds given values. -/
structure Carries [Zero K] (m : Matrix K) (rows cols : Nat) (value : Nat → Nat → K) : Prop where
  sound : m.Sound
  rows_eq : m.rows = rows
  cols_eq : m.cols = cols
  valueAt_eq : ∀ i j : Nat, i < rows → j < cols → m.valueAt i j = value i j

/-- The entries of such a matrix lie inside its shape. -/
theorem Carries.inShape [Zero K] {m : Matrix K} {rows cols : Nat} {value : Nat → Nat → K}
    (h : m.Carries rows cols value)
    {e : Entry K} (he : e ∈ m.entries) :
    0 ≤ e.row ∧ e.row < rows ∧ 0 ≤ e.col ∧ e.col < cols := by
  have := h.sound.inShape_of_mem_entries he
  rwa [InShape, h.rows_eq, h.cols_eq] at this

theorem Carries.gives [Zero K] {m : Matrix K} {rows cols : Nat} {value : Nat → Nat → K}
    (h : m.Carries rows cols value) {i j : Nat} (hi : i < rows) (hj : j < cols) :
    EntriesGive m.entries i j (value i j) :=
  h.valueAt_eq i j hi hj ▸ h.sound.entriesGive i j

/-! ## Overwriting -/

/-- Writes none of which was refused lie inside the shape. -/
theorem Sound.inShape_of_writeAll [Scalar K] {m : Matrix K} (h : m.Sound) {writes : List (Write K)}
    (hfault : (m.writeAll writes).1 = none) : ∀ w ∈ writes, m.InShape w.row w.col := by
  induction writes generalizing m with
  | nil => exact fun w hw => absurd hw List.not_mem_nil
  | cons w ws ih =>
    have hin : m.InShape w.row w.col := by
      by_contra hout
      rw [Matrix.writeAll, set_of_not_inShape hout] at hfault
      cases hfault
    rw [h.writeAll_cons hin] at hfault
    intro w' hw'
    rcases List.mem_cons.mp hw' with rfl | hw'
    · exact hin
    · exact (h.sameFrame_set ..).inShape.mp (ih (h.set ..) hfault w' hw')

/-- A reset gives the shape that was asked for. -/
theorem shape_of_reset [Scalar K] {m next : Matrix K} {rows cols hint : Int}
    (hreset : m.reset rows cols hint = .ok next) :
    (next.rows : Int) = rows ∧ (next.cols : Int) = cols := by
  obtain ⟨hr, hc, ⟨hrows, hcols, rfl⟩ | rfl⟩ := cases_of_reset hreset
  · exact ⟨hrows.symm, hcols.symm⟩
  · exact ⟨Int.toNat_of_nonneg hr, Int.toNat_of_nonneg hc⟩

/-- A reset keeps the orientation and the lock. -/
theorem frame_of_reset [Scalar K] {m next : Matrix K} {rows cols hint : Int}
    (hreset : m.reset rows cols hint = .ok next) :
    next.orientation = m.orientation ∧ next.locked = m.locked := by
  obtain ⟨-, -, ⟨-, -, rfl⟩ | rfl⟩ := cases_of_reset hreset
  · exact ⟨rfl, rfl⟩
  · exact ⟨rfl, rfl⟩

theorem exists_reset [Scalar K] (m : Matrix K) {rows cols : Int} (hr : 0 ≤ rows) (hc : 0 ≤ cols)
    (hint : Int) : ∃ next, m.reset rows cols hint = .ok next := by
  rw [Matrix.reset, if_neg (by omega)]
  split_ifs
  · exact ⟨_, rfl⟩
  · exact ⟨_, rfl⟩

/-- Writes are refused at the first one outside the shape. -/
theorem Sound.fault_writeAll [Scalar K] {m : Matrix K} (h : m.Sound) (writes : List (Write K)) :
    (m.writeAll writes).1 = writes.findSome? fun (w : Write K) =>
      if 0 ≤ w.row ∧ w.row < m.rows ∧ 0 ≤ w.col ∧ w.col < m.cols then none
      else some (.positionOutside w.row w.col m.rows m.cols) := by
  induction writes generalizing m with
  | nil => rfl
  | cons w ws ih =>
    have hframe := h.sameFrame_set w.row w.col w.value w.overwrite
    rw [List.findSome?_cons]
    by_cases hin : m.InShape w.row w.col
    · rw [if_pos (by exact hin), h.writeAll_cons hin, ih (h.set ..), hframe.rows, hframe.cols]
    · rw [Matrix.writeAll, set_of_not_inShape hin, if_neg (by exact hin)]
      rfl

/-- A position that no write names keeps its slot, also where a write is refused. -/
theorem Sound.slotOf?_writeAll_of_untouched [Scalar K] {m : Matrix K} (h : m.Sound)
    {writes : List (Write K)} {row col : Int}
    (hw : ∀ w ∈ writes, ¬(w.row = row ∧ w.col = col)) :
    (m.writeAll writes).2.slotOf? row col = m.slotOf? row col := by
  induction writes generalizing m with
  | nil => rfl
  | cons w ws ih =>
    by_cases hin : m.InShape w.row w.col
    · have hother : ¬(row = w.row ∧ col = w.col) := fun hc =>
        hw w (List.mem_cons_self ..) ⟨hc.1.symm, hc.2.symm⟩
      rw [h.writeAll_cons hin, ih (h.set ..) fun w' hw' => hw w' (List.mem_cons_of_mem _ hw'),
        h.slotOf?_set hin, if_neg hother]
    · rw [Matrix.writeAll, set_of_not_inShape hin]

/-- Of writes that overwrite under the lock, each to a position of its own, every one is stored. -/
theorem Sound.slotOf?_writeAll_of_mem [Scalar K] {m : Matrix K} (h : m.Sound)
    (hlock : m.locked = true) {writes : List (Write K)}
    (hin : ∀ w ∈ writes, m.InShape w.row w.col ∧ w.overwrite = true)
    (hdistinct : writes.Pairwise fun a b => ¬(a.row = b.row ∧ a.col = b.col)) {w : Write K}
    (hw : w ∈ writes) {k : Nat} {t : Int} (hp : m.locateWindow? w.row w.col = some (k, t)) :
    (m.writeAll writes).2.slotOf? w.row w.col = some ⟨t, w.value, true⟩ := by
  induction writes generalizing m with
  | nil => cases hw
  | cons w' ws ih =>
    obtain ⟨hin', hover⟩ := hin w' (List.mem_cons_self ..)
    obtain ⟨hother, hdistinct⟩ := List.pairwise_cons.mp hdistinct
    have hnext := h.set w'.row w'.col w'.value w'.overwrite
    have hframe := h.sameFrame_set w'.row w'.col w'.value w'.overwrite
    rw [h.writeAll_cons hin']
    rcases List.mem_cons.mp hw with rfl | hw
    · rw [hnext.slotOf?_writeAll_of_untouched fun v hv hc =>
        hother v hv ⟨hc.1.symm, hc.2.symm⟩, h.slotOf?_set hin', if_pos ⟨rfl, rfl⟩, hp,
        Option.bind_some, hlock, hover]
      cases m.slotOf? w.row w.col <;> simp [slotAfter]
    · refine ih hnext (hframe.locked.trans hlock) (fun v hv => ?_) hdistinct hw
        ((hframe.locateWindow? _ _).trans hp)
      rw [hframe.inShape]
      exact hin v (List.mem_cons_of_mem _ hv)

/-- There is a live slot where some position has one. -/
theorem Sound.liveCount_pos_iff {m : Matrix K} (h : m.Sound) :
    0 < m.liveCount ↔ ∃ row col s, m.slotOf? row col = some s ∧ s.live = true := by
  rw [Matrix.liveCount, List.countP_pos_iff]
  constructor
  · rintro ⟨s, hs, hlive⟩
    obtain ⟨w, hw, hs⟩ := h.cut.mem_usedSlots.mp hs
    obtain ⟨s', hs', hlive', -⟩ :=
      h.mem_entries_iff.mp (Matrix.mem_entries_iff.mpr ⟨w, hw, s, hs, hlive, rfl⟩)
    exact ⟨_, _, s', hs', hlive'⟩
  · rintro ⟨row, col, s, hs, hlive⟩
    obtain ⟨w, hw, s', hs', hlive', -⟩ :=
      Matrix.mem_entries_iff.mp
        ((h.mem_entries_iff (e := ⟨row, col, s.value⟩)).mpr ⟨s, hs, hlive, rfl⟩)
    exact ⟨s', h.cut.mem_usedSlots.mpr ⟨w, hw, hs'⟩, hlive'⟩

/-! ## Blocks -/

/-- Loading a block keeps the buffers sound, also where it is refused. -/
theorem Sound.loadBlock [Scalar K] {m : Matrix K} (h : m.Sound) (b : Block K) (hint : Int) :
    (m.loadBlock b hint).2.Sound := by
  rw [Matrix.loadBlock]
  rcases hreset : m.reset b.rows b.cols hint with e | fresh
  · exact h
  · exact ((h.reset hreset).writeAll b.writes).1

/-- A block is refused or not whatever it is loaded into. -/
theorem Sound.fault_loadBlock [Scalar K] {m : Matrix K} (h : m.Sound) (b : Block K) (hint : Int) :
    (m.loadBlock b hint).1 = b.fault? := by
  obtain ⟨fresh, hreset⟩ :=
    m.exists_reset (Int.natCast_nonneg b.rows) (Int.natCast_nonneg b.cols) hint
  obtain ⟨hrows, hcols⟩ := shape_of_reset hreset
  rw [Matrix.loadBlock, hreset]
  dsimp only
  rw [(h.reset hreset).fault_writeAll, Block.writes, List.findSome?_map, Block.fault?,
    Int.ofNat_inj.mp hrows, Int.ofNat_inj.mp hcols]
  rfl

/-- Loading a block gives its shape, also where it is refused. -/
theorem Sound.shape_loadBlock [Scalar K] {m : Matrix K} (h : m.Sound) (b : Block K) (hint : Int) :
    (m.loadBlock b hint).2.rows = b.rows ∧ (m.loadBlock b hint).2.cols = b.cols := by
  obtain ⟨fresh, hreset⟩ :=
    m.exists_reset (Int.natCast_nonneg b.rows) (Int.natCast_nonneg b.cols) hint
  obtain ⟨hrows, hcols⟩ := shape_of_reset hreset
  have hframe := ((h.reset hreset).writeAll b.writes).2
  rw [Matrix.loadBlock, hreset]
  exact ⟨hframe.rows.trans (Int.ofNat_inj.mp hrows), hframe.cols.trans (Int.ofNat_inj.mp hcols)⟩

/-- Loading a block keeps the orientation and the lock. -/
theorem Sound.frame_loadBlock [Scalar K] {m : Matrix K} (h : m.Sound) (b : Block K) (hint : Int) :
    (m.loadBlock b hint).2.orientation = m.orientation ∧
      (m.loadBlock b hint).2.locked = m.locked := by
  rw [Matrix.loadBlock]
  rcases hreset : m.reset b.rows b.cols hint with e | fresh
  · exact ⟨rfl, rfl⟩
  · have hframe := ((h.reset hreset).writeAll b.writes).2
    obtain ⟨horientation, hlocked⟩ := frame_of_reset hreset
    exact ⟨hframe.orientation.trans horientation, hframe.locked.trans hlocked⟩

/-! ## Values of writes -/

variable [Field K] [LinearOrder K] {m : Matrix K} {row col : Int} {v : K}

/-- Overwriting writes that agree about a position leave its value there. -/
theorem Sound.valueAt_writeAll_of_agree (h : m.Sound) {writes : List (Write K)}
    (hin : ∀ w ∈ writes, m.InShape w.row w.col ∧ w.overwrite = true)
    (hvalue : ∀ w ∈ writes, w.row = row → w.col = col → w.value = v)
    (hkept : (∀ w ∈ writes, ¬(w.row = row ∧ w.col = col)) → m.valueAt row col = v) :
    (m.writeAll writes).2.valueAt row col = v := by
  induction writes generalizing m with
  | nil => exact hkept fun w hw => absurd hw List.not_mem_nil
  | cons w ws ih =>
    obtain ⟨hw, hover⟩ := hin w (List.mem_cons_self ..)
    rw [h.writeAll_cons hw]
    refine ih (h.set ..) (fun w' hw' => ?_) (fun w' hw' => hvalue w' (List.mem_cons_of_mem _ hw'))
      fun hnone => ?_
    · rw [(h.sameFrame_set ..).inShape]
      exact hin w' (List.mem_cons_of_mem _ hw')
    · rw [h.valueAt_set_eq hw w.value w.overwrite row col]
      by_cases hown : row = w.row ∧ col = w.col
      · rw [if_pos hown, if_pos hover]
        exact hvalue w (List.mem_cons_self ..) hown.1.symm hown.2.symm
      · rw [if_neg hown]
        refine hkept fun w' hw' => ?_
        rcases List.mem_cons.mp hw' with rfl | hw'
        · exact fun hc => hown ⟨hc.1.symm, hc.2.symm⟩
        · exact hnone w' hw'

/-- On a position that reads as zero, writes leave the value that they give to it. -/
theorem Sound.valueAt_writeAll_of_gives (h : m.Sound) {writes : List (Write K)}
    (hin : ∀ w ∈ writes, m.InShape w.row w.col ∧ w.overwrite = true)
    (hgive : WritesGive writes row col v) (hzero : m.valueAt row col = 0) :
    (m.writeAll writes).2.valueAt row col = v := by
  refine h.valueAt_writeAll_of_agree hin hgive.value fun hnone => ?_
  rw [hzero]
  by_contra hne
  obtain ⟨w, hw, hpos⟩ := hgive.exists_write (Ne.symm hne)
  exact hnone w hw hpos

/-- A position that no write names keeps its value, also where a write is refused. -/
theorem Sound.valueAt_writeAll_of_untouched (h : m.Sound) {writes : List (Write K)}
    (hw : ∀ w ∈ writes, ¬(w.row = row ∧ w.col = col)) :
    (m.writeAll writes).2.valueAt row col = m.valueAt row col := by
  rw [valueAt, valueAt, h.slotOf?_writeAll_of_untouched hw]

/-! ## Values of blocks -/

/-- A loaded block has its shape and the values that its entries give. -/
theorem Sound.carries_loadBlock (h : m.Sound) {b : Block K} {hint : Int}
    (hfault : (m.loadBlock b hint).1 = none) {value : Nat → Nat → K}
    (hgive : ∀ i j : Nat, i < b.rows → j < b.cols → EntriesGive b.entries i j (value i j)) :
    (m.loadBlock b hint).2.Carries b.rows b.cols value := by
  have hsound := h.loadBlock b hint
  rw [Matrix.loadBlock] at hfault hsound ⊢
  rcases hreset : m.reset b.rows b.cols hint with e | fresh <;> rw [hreset] at hfault hsound
  · cases hfault
  · have hfresh := h.reset hreset
    obtain ⟨hrows, hcols⟩ := shape_of_reset hreset
    have hframe := (hfresh.writeAll b.writes).2
    refine ⟨hsound, hframe.rows.trans (Int.ofNat_inj.mp hrows),
      hframe.cols.trans (Int.ofNat_inj.mp hcols), fun i j hi hj => ?_⟩
    refine hfresh.valueAt_writeAll_of_gives (fun w hw => ?_) (hgive i j hi hj).writes
      (h.valueAt_reset hreset i j)
    refine ⟨hfresh.inShape_of_writeAll hfault w hw, ?_⟩
    obtain ⟨e, -, rfl⟩ := List.mem_map.mp hw
    rfl

/-! ## Live slots -/

/-- Without the lock, writes make slots live where there is a number to store or a slot already. -/
theorem Sound.exists_live_writeAll (h : m.Sound) (hlock : m.locked = false)
    {writes : List (Write K)} (hin : ∀ w ∈ writes, m.InShape w.row w.col)
    (hslots : ∀ row col s, m.slotOf? row col = some s → s.live = true) :
    (∃ row col s, (m.writeAll writes).2.slotOf? row col = some s ∧ s.live = true) ↔
      (∃ row col s, m.slotOf? row col = some s) ∨ ∃ w ∈ writes, w.value ≠ 0 := by
  induction writes generalizing m with
  | nil =>
    constructor
    · rintro ⟨row, col, s, hs, -⟩
      exact .inl ⟨row, col, s, hs⟩
    · rintro (⟨row, col, s, hs⟩ | ⟨w, hw, -⟩)
      · exact ⟨row, col, s, hs, hslots row col s hs⟩
      · exact absurd hw List.not_mem_nil
  | cons w ws ih =>
    have hw := hin w (List.mem_cons_self ..)
    have hset := h.set w.row w.col w.value w.overwrite
    have hframe := h.sameFrame_set w.row w.col w.value w.overwrite
    have hslot := h.slotOf?_set hw w.value w.overwrite
    obtain ⟨v, t, hp, -⟩ := exists_locateWindow? hw
    rw [hp, Option.bind_some, hlock] at hslot
    rw [h.writeAll_cons hw]
    generalize (m.set w.row w.col w.value w.overwrite).2 = next at hset hframe hslot ⊢
    have hlive : ∀ row col s, next.slotOf? row col = some s → s.live = true := by
      intro row col s hs
      rw [hslot] at hs
      split_ifs at hs
      · exact live_of_slotAfter hs
      · exact hslots row col s hs
    have hinNext : ∀ w' ∈ ws, next.InShape w'.row w'.col := fun w' hw' =>
      hframe.inShape.mpr (hin w' (List.mem_cons_of_mem _ hw'))
    rw [ih hset (hframe.locked.trans hlock) hinNext hlive, List.exists_mem_cons_iff, ← or_assoc]
    refine or_congr_left ?_
    constructor
    · rintro ⟨row, col, s, hs⟩
      rw [hslot] at hs
      split_ifs at hs
      · rcases exists_slotAfter_iff.mp ⟨s, hs⟩ with ⟨s', hs'⟩ | hlocked | hvalue
        · exact .inl ⟨_, _, s', hs'⟩
        · cases hlocked
        · exact .inr (by simpa using hvalue)
      · exact .inl ⟨row, col, s, hs⟩
    · rintro (⟨row, col, s, hs⟩ | hvalue)
      · by_cases hpos : row = w.row ∧ col = w.col
        · rw [hpos.1, hpos.2] at hs
          obtain ⟨s', hs'⟩ := exists_slotAfter_iff.mpr (.inl ⟨s, hs⟩)
          exact ⟨w.row, w.col, s', by rw [hslot, if_pos ⟨rfl, rfl⟩, hs']⟩
        · exact ⟨row, col, s, by rw [hslot, if_neg hpos, hs]⟩
      · have hne : (w.value == 0) = false := by simpa using hvalue
        obtain ⟨s', hs'⟩ := exists_slotAfter_iff.mpr (.inr (.inr hne))
        exact ⟨w.row, w.col, s', by rw [hslot, if_pos ⟨rfl, rfl⟩, hs']⟩

/-- Loaded without the lock, a block has live slots where one of its entries is not zero. -/
theorem Sound.liveCount_loadBlock_pos_iff (h : m.Sound) (hlock : m.locked = false) {b : Block K}
    {hint : Int} (hfault : (m.loadBlock b hint).1 = none) :
    0 < (m.loadBlock b hint).2.liveCount ↔ ∃ e ∈ b.entries, e.value ≠ 0 := by
  rw [(h.loadBlock b hint).liveCount_pos_iff]
  obtain ⟨fresh, hreset⟩ :=
    m.exists_reset (Int.natCast_nonneg b.rows) (Int.natCast_nonneg b.cols) hint
  have hfresh := h.reset hreset
  have hlocked := (frame_of_reset hreset).2.trans hlock
  rw [Matrix.loadBlock, hreset] at hfault ⊢
  dsimp only at hfault ⊢
  have hnone : ∀ row col s, fresh.slotOf? row col ≠ some s := by
    intro row col s hs
    rw [Matrix.reset, if_neg (by omega), if_neg (by rw [hlock]; simp)] at hreset
    obtain rfl := Except.ok.inj hreset
    rcases hp : Matrix.locateWindow? _ row col with _ | ⟨w, t⟩
    · rw [slotOf?, hp] at hs
      cases hs
    · have ht := (range_of_locateWindow? hp).2.1
      rw [slotOf?_eq hp, slotAt?_withFreshBuffers _ hint _ ht] at hs
      cases hs
  rw [hfresh.exists_live_writeAll hlocked (hfresh.inShape_of_writeAll hfault)
    fun row col s hs => absurd hs (hnone row col s)]
  constructor
  · rintro (⟨row, col, s, hs⟩ | ⟨w, hw, hvalue⟩)
    · exact absurd hs (hnone row col s)
    · obtain ⟨e, he, rfl⟩ := List.mem_map.mp hw
      exact ⟨e, he, hvalue⟩
  · rintro ⟨e, he, hvalue⟩
    exact .inr ⟨_, List.mem_map_of_mem he, hvalue⟩

end Matrix

/-! ## Recording -/

namespace Pattern

/-- A fresh pattern is in range. -/
theorem InRange.of_create {rows cols : Int} {orientation : Orientation} {p : Pattern}
    (h : create (α := K) rows cols orientation = .ok p) :
    p.InRange ∧ p.orientation = orientation ∧ p.rows = rows.toNat ∧ p.cols = cols.toNat := by
  rw [create] at h
  split_ifs at h
  obtain rfl := Except.ok.inj h
  refine ⟨⟨?_, ?_⟩, rfl, rfl, rfl⟩
  · rw [empty, Array.size_replicate]
    rfl
  · intro l hl i hi
    rw [empty, Array.mem_replicate] at hl
    rw [hl.2] at hi
    cases hi

/-- An index of the shape may join any list of a pattern in range. -/
theorem InRange.append {p : Pattern} (hp : p.InRange) {t : Int} (ht : 0 ≤ t ∧ t < p.trailingDim)
    (k : Nat) : InRange { p with lists := p.lists.modify k (· ++ [t]) } := by
  refine ⟨(Array.size_modify ..).trans hp.size_lists, fun l hl i hi => ?_⟩
  obtain ⟨j, hj, rfl⟩ := Array.mem_iff_getElem.mp hl
  rw [Array.getElem_modify] at hi
  split at hi
  · rcases List.mem_append.mp hi with hi | hi
    · exact hp.index_mem _ (Array.getElem_mem _) i hi
    · rw [List.mem_singleton.mp hi]
      exact ht
  · exact hp.index_mem _ (Array.getElem_mem _) i hi

/-- Recording positions inside the shape is not refused and keeps the pattern in range. -/
theorem InRange.writeAll {p : Pattern} (hp : p.InRange) {writes : List (Write K)}
    (hin : ∀ w ∈ writes, 0 ≤ w.row ∧ w.row < p.rows ∧ 0 ≤ w.col ∧ w.col < p.cols) :
    (p.writeAll writes).1 = none ∧ (p.writeAll writes).2.InRange ∧
      (p.writeAll writes).2.orientation = p.orientation ∧
      (p.writeAll writes).2.rows = p.rows ∧ (p.writeAll writes).2.cols = p.cols := by
  induction writes generalizing p with
  | nil => exact ⟨rfl, hp, rfl, rfl, rfl⟩
  | cons w ws ih =>
    obtain ⟨hr, hr', hc, hc'⟩ := hin w (List.mem_cons_self ..)
    obtain ⟨k, t, htlo, hthi, hrecord⟩ : ∃ k t, 0 ≤ t ∧ t < (p.trailingDim : Int) ∧
        p.record (α := K) w.row w.col = .ok { p with lists := p.lists.modify k (· ++ [t]) } := by
      have hsize := hp.size_lists
      rw [record, trailingDim]
      rw [leadingDim] at hsize
      cases ho : p.orientation <;> rw [ho] at hsize <;> dsimp only at hsize ⊢
      · refine ⟨w.row.toNat, w.col, hc, hc', ?_⟩
        rw [listIndex?, placeIn?, if_pos (by omega)]
      · refine ⟨w.col.toNat, w.row, hr, hr', ?_⟩
        rw [listIndex?, placeIn?, if_pos (by omega)]
    rw [Pattern.writeAll, hrecord]
    exact ih (hp.append ⟨htlo, hthi⟩ k) fun w' hw' => hin w' (List.mem_cons_of_mem _ hw')

end Pattern

end CentralPath.Sparse
