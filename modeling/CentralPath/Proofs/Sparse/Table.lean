/-
  The matrix as a plain table of numbers. `Table.step` says what each action means for a table: a
  write changes one number, a sum adds pointwise, pruning turns small numbers into zero, and
  compression, trimming, the lock and the shift bound mean nothing. `performAll_represents` is the
  refinement: along every run of admissible actions the matrix represents the table that the steps
  lead to, whatever its storage went through.
-/
import CentralPath.Proofs.Sparse.Values

namespace CentralPath.Sparse

/-- A table of numbers. Numbers outside the shape mean nothing. -/
structure Table (K : Type) where
  rows : Nat
  cols : Nat
  value : Int → Int → K

namespace Table

variable {K : Type}

/-- The table of zeros. -/
def zero [Zero K] (rows cols : Nat) : Table K := ⟨rows, cols, fun _ _ => 0⟩

/-- The table that reading a matrix gives. -/
def ofMatrix [Zero K] (m : Matrix K) : Table K :=
  ⟨m.rows, m.cols, fun row col => ((m.get row col).toOption).getD 0⟩

/-- A table with every number replaced. -/
def map (t : Table K) (f : Int → Int → K → K) : Table K :=
  { t with value := fun row col => f row col (t.value row col) }

variable [Field K] [LinearOrder K]

/-- A table with another one of the same shape added, or subtracted. -/
def add (t other : Table K) (negated : Bool) : Table K :=
  if t.rows = other.rows ∧ t.cols = other.cols then
    t.map fun row col v => if negated then v - other.value row col else v + other.value row col
  else t

/-- A table with one number overwritten, or added to. -/
def write (t : Table K) (w : Write K) : Table K :=
  if 0 ≤ w.row ∧ w.row < t.rows ∧ 0 ≤ w.col ∧ w.col < t.cols then
    t.map fun row col v =>
      if row = w.row ∧ col = w.col then if w.overwrite then w.value else v + w.value else v
  else t

/-- What an action on a matrix of the given orientation means for its table. -/
def step (orientation : Orientation) (t : Table K) : Action K → Table K
  | .write w => t.write w
  | .reset rows cols _ => if rows < 0 ∨ cols < 0 then t else zero rows.toNat cols.toNat
  | .prune threshold =>
    if threshold < 0 then t else t.map fun _ _ v => if |v| ≤ threshold then 0 else v
  | .load pattern => if pattern.orientation ≠ orientation then t else zero pattern.rows pattern.cols
  | .accumulate other negated => t.add (ofMatrix other) negated
  | .accumulateSelf negated => t.add t negated
  | .scale factor => t.map fun _ _ v => v * factor
  | .map f rowSpan colSpan =>
    t.map fun row col v =>
      if rowSpan.all (·.contains row) && colSpan.all (·.contains col) then f v else v
  | .compress | .trim | .lock _ | .boundShifts _ => t

end Table

/-- The arguments of an action are as they have to be: a recorded pattern is in range, an operand
obeys the storage rules, and a function maps zero to zero. -/
def Action.Admissible {K : Type} [Zero K] : Action K → Prop
  | .load pattern => pattern.InRange
  | .accumulate other _ => other.verify = 0
  | .map f _ _ => f 0 = 0
  | _ => True

theorem Action.Admissible.inRange {K : Type} [Zero K] {a : Action K} (h : a.Admissible) : a.InRange := by
  cases a with
  | load pattern => exact h
  | _ => exact True.intro

/-- A matrix reads as a table at every position of its shape, and its entries are the numbers of the
table at their positions: none of them twice, and none missing that is not zero. -/
structure Matrix.Represents {K : Type} [Zero K] (m : Matrix K) (t : Table K) : Prop where
  rows : m.rows = t.rows
  cols : m.cols = t.cols
  get : ∀ row col, m.InShape row col → m.get row col = .ok (t.value row col)
  entry_value : ∀ e ∈ m.entries, m.InShape e.row e.col ∧ e.value = t.value e.row e.col
  entry_unique : m.entries.Pairwise fun a b => ¬(a.row = b.row ∧ a.col = b.col)
  entry_exists : ∀ row col, m.InShape row col → t.value row col ≠ 0 →
    ∃ e ∈ m.entries, e.row = row ∧ e.col = col

namespace Matrix

variable {K : Type} [Field K] {m : Matrix K} {t : Table K}

/-- For sound buffers it is enough that shape and values agree. -/
theorem Sound.represents (h : m.Sound) (hrows : m.rows = t.rows) (hcols : m.cols = t.cols)
    (hvalue : ∀ row col, m.InShape row col → m.valueAt row col = t.value row col) :
    m.Represents t := by
  refine ⟨hrows, hcols, ?_, ?_, h.entries_pairwise, ?_⟩
  · intro row col hin
    rw [h.get_eq hin, hvalue row col hin]
  · intro e he
    have hin := h.inShape_of_mem_entries he
    obtain ⟨s, hs, hlive, hv⟩ := h.mem_entries_iff.mp he
    refine ⟨hin, ?_⟩
    rw [← hvalue _ _ hin, valueAt_of_slotOf? hs, Slot.reading, if_pos hlive, hv]
  · intro row col hin hne
    rw [← hvalue row col hin] at hne
    rcases hs : m.slotOf? row col with _ | s
    · exact absurd (valueAt_of_slotOf?_eq_none hs) hne
    · rw [valueAt_of_slotOf? hs, Slot.reading] at hne
      split_ifs at hne with hlive
      · exact ⟨⟨row, col, s.value⟩, h.mem_entries_iff.mpr ⟨s, hs, hlive, rfl⟩, rfl, rfl⟩
      · exact absurd rfl hne

theorem Represents.valueAt_eq (r : m.Represents t) (h : m.Sound) {row col : Int}
    (hin : m.InShape row col) : m.valueAt row col = t.value row col := by
  have := r.get row col hin
  rw [h.get_eq hin] at this
  exact Except.ok.inj this

theorem Sound.value_ofMatrix (h : m.Sound) {row col : Int} (hin : m.InShape row col) :
    (Table.ofMatrix m).value row col = m.valueAt row col := by
  rw [Table.ofMatrix]
  dsimp only
  rw [h.get_eq hin]
  rfl

theorem Sound.represents_ofMatrix (h : m.Sound) : m.Represents (Table.ofMatrix m) :=
  h.represents rfl rfl fun _ _ hin => (h.value_ofMatrix hin).symm

/-- Matrices that represent one table read alike everywhere. -/
theorem Represents.ofMatrix_eq {m' : Matrix K} (r : m.Represents t) (r' : m'.Represents t) :
    Table.ofMatrix m' = Table.ofMatrix m := by
  have hrows : m'.rows = m.rows := r'.rows.trans r.rows.symm
  have hcols : m'.cols = m.cols := r'.cols.trans r.cols.symm
  have hget : ∀ row col,
      (m'.get row col).toOption.getD 0 = (m.get row col).toOption.getD 0 := by
    intro row col
    by_cases hin : m.InShape row col
    · have hin' : m'.InShape row col := by
        rw [InShape, hrows, hcols]
        exact hin
      rw [r.get row col hin, r'.get row col hin']
    · have hout : ¬m'.InShape row col := by
        rw [InShape, hrows, hcols]
        exact hin
      rw [Matrix.get, Matrix.get, locateWindow?_of_not_inShape hin,
        locateWindow?_of_not_inShape hout]
      rfl
  rw [Table.ofMatrix, Table.ofMatrix, hrows, hcols]
  congr 1
  funext row col
  exact hget row col

/-- A matrix of the same frame represents a table mapped like its values. -/
theorem Sound.represents_map {m' : Matrix K} (h : m.Sound) (r : m.Represents t) (h' : m'.Sound)
    (hrows : m'.rows = m.rows) (hcols : m'.cols = m.cols) {f : Int → Int → K → K}
    (hvalue : ∀ row col, m.InShape row col →
      m'.valueAt row col = f row col (m.valueAt row col)) : m'.Represents (t.map f) := by
  refine h'.represents (hrows.trans r.rows) (hcols.trans r.cols) fun row col hin => ?_
  rw [InShape, hrows, hcols] at hin
  rw [hvalue row col hin, r.valueAt_eq h hin]
  rfl

variable [LinearOrder K]

/-! ## One action -/

theorem Sound.orientation_accumulate (h : m.Sound) (other : Matrix K) (negated : Bool) :
    (m.accumulate other negated).2.orientation = m.orientation := by
  rw [Matrix.accumulate]
  split
  · rfl
  · split
    · rfl
    · exact (h.writeAll _).2.orientation

/-- An action keeps the orientation. -/
theorem Sound.orientation_perform (h : m.Sound) (a : Action K) :
    (m.perform a).matrix.orientation = m.orientation := by
  cases a with
  | write w => exact (h.sameFrame_set w.row w.col w.value w.overwrite).orientation
  | reset rows cols hint =>
    rw [Matrix.perform, Matrix.reset]
    split_ifs <;> rfl
  | compress =>
    rw [Matrix.perform, compress?, if_pos h.isCut]
    rfl
  | prune threshold =>
    rw [Matrix.perform, prune, if_pos h.isCut]
    split_ifs <;> rfl
  | trim =>
    rw [Matrix.perform, trim?, if_pos h.isCut]
    rfl
  | lock on => rfl
  | boundShifts bound =>
    rcases bound with _ | b
    · rfl
    · rw [Matrix.perform, setShiftBound]
      split_ifs <;> rfl
  | load pattern =>
    rw [Matrix.perform, loadPattern]
    split_ifs <;> rfl
  | accumulate other negated => exact h.orientation_accumulate other negated
  | accumulateSelf negated => exact h.orientation_accumulate m negated
  | scale factor => rfl
  | map f rowSpan colSpan =>
    rw [Matrix.perform, mapValues?, if_pos h.isCut]
    rfl

/-- Adding a matrix adds its table. -/
theorem Sound.represents_accumulate (h : m.Sound) (r : m.Represents t) {other : Matrix K}
    (ho : other.Sound) {u : Table K} (ru : other.Represents u) (negated : Bool) :
    (m.accumulate other negated).2.Represents (t.add u negated) := by
  rw [Table.add, ← r.rows, ← r.cols, ← ru.rows, ← ru.cols]
  by_cases hshape : m.rows = other.rows ∧ m.cols = other.cols
  · rw [if_pos hshape]
    have hframe := (h.writeAll (additions other.entries negated)).2
    rw [← accumulate_eq ho hshape.1 hshape.2] at hframe
    refine (h.accumulate other negated).represents (hframe.rows.trans r.rows)
      (hframe.cols.trans r.cols) fun row col hin => ?_
    have hin' := hframe.inShape.mp hin
    have hother : other.InShape row col := by
      rw [InShape, ← hshape.1, ← hshape.2]
      exact hin'
    rw [h.valueAt_accumulate ho hshape.1 hshape.2, r.valueAt_eq h hin', ru.valueAt_eq ho hother]
    cases negated
    · rfl
    · exact (sub_eq_add_neg _ _).symm
  · rw [if_neg hshape, Matrix.accumulate, checkSameShape, if_neg hshape]
    exact r

/-- A write changes one place of the table, or none if it is outside. -/
theorem Sound.represents_write [IsStrictOrderedRing K] (h : m.Sound) (r : m.Represents t)
    (w : Write K) : (m.perform (.write w)).matrix.Represents (t.write w) := by
  have hnext := h.perform (.write w) trivial
  have hframe := h.sameFrame_set w.row w.col w.value w.overwrite
  rw [Table.write, ← r.rows, ← r.cols]
  by_cases hin : m.InShape w.row w.col
  · rw [if_pos (show 0 ≤ w.row ∧ w.row < m.rows ∧ 0 ≤ w.col ∧ w.col < m.cols from hin)]
    refine h.represents_map r hnext hframe.rows hframe.cols fun row col _ => ?_
    refine (h.valueAt_set_eq hin w.value w.overwrite row col).trans ?_
    by_cases hown : row = w.row ∧ col = w.col
    · rw [if_pos hown, if_pos hown, hown.1, hown.2]
    · rw [if_neg hown, if_neg hown]
  · rw [if_neg (show ¬(0 ≤ w.row ∧ w.row < m.rows ∧ 0 ≤ w.col ∧ w.col < m.cols) from hin),
      Matrix.perform, set_of_not_inShape hin]
    exact r

/-- A reset leaves a table of zeros, unless a dimension is negative. -/
theorem Sound.represents_reset (h : m.Sound) (r : m.Represents t) (rows cols hint : Int) :
    (m.perform (.reset rows cols hint)).matrix.Represents
      (if rows < 0 ∨ cols < 0 then t else Table.zero rows.toNat cols.toNat) := by
  have hnext := h.perform (.reset rows cols hint) trivial
  rw [Matrix.perform] at hnext ⊢
  rcases hreset : m.reset rows cols hint with e | next
  · have hneg : rows < 0 ∨ cols < 0 := by
      rw [Matrix.reset] at hreset
      split_ifs at hreset
      assumption
    rw [if_pos hneg]
    exact r
  · rw [hreset] at hnext
    have hvalue := h.valueAt_reset hreset
    obtain ⟨hr, hc, ⟨hrows, hcols, rfl⟩ | rfl⟩ := cases_of_reset hreset
    · rw [if_neg (by omega)]
      exact hnext.represents (by rw [hrows]; rfl) (by rw [hcols]; rfl)
        fun row col _ => hvalue row col
    · rw [if_neg (by omega)]
      exact hnext.represents rfl rfl fun row col _ => hvalue row col

/-- So does a pattern that is loaded, unless it has the other orientation. -/
theorem Sound.represents_load (h : m.Sound) (r : m.Represents t) {pattern : Pattern}
    (hrange : pattern.InRange) : (m.perform (.load pattern)).matrix.Represents
      (if pattern.orientation ≠ m.orientation then t
        else Table.zero pattern.rows pattern.cols) := by
  have hnext := h.perform (.load pattern) hrange
  rw [Matrix.perform] at hnext ⊢
  rcases hload : m.loadPattern pattern with e | next
  · have hdiffer : pattern.orientation ≠ m.orientation := by
      rw [loadPattern] at hload
      split_ifs at hload
      assumption
    rw [if_pos hdiffer]
    exact r
  · rw [hload] at hnext
    have hvalue := valueAt_loadPattern hrange hload
    obtain ⟨hsame, rfl⟩ := loadPattern_eq hload
    rw [if_neg (not_not.mpr hsame)]
    exact hnext.represents rfl rfl fun row col _ => hvalue row col

/-- A bound on shifts leaves the table alone, accepted or not. -/
theorem Sound.represents_boundShifts (h : m.Sound) (r : m.Represents t) (bound : Option Int) :
    (m.perform (.boundShifts bound)).matrix.Represents t := by
  have hnext := h.perform (.boundShifts bound) trivial
  rw [Matrix.perform] at hnext ⊢
  rcases hset : m.setShiftBound bound with e | next
  · exact r
  · rw [hset] at hnext
    have heq : next = { m with shiftBound := bound.map Int.toNat } := by
      rcases bound with _ | b
      · exact (Except.ok.inj hset).symm
      · rw [setShiftBound] at hset
        split_ifs at hset
        exact (Except.ok.inj hset).symm
    rw [heq] at hnext ⊢
    exact hnext.represents r.rows r.cols fun row col hin =>
      (valueAt_of_buffers_eq rfl rfl rfl row col).trans (r.valueAt_eq h hin)

/-- An action does to the table what its step says. -/
theorem Sound.represents_perform [IsStrictOrderedRing K] (h : m.Sound) (r : m.Represents t)
    (a : Action K) (ha : a.Admissible) :
    (m.perform a).matrix.Represents (t.step m.orientation a) := by
  have hnext := h.perform a ha.inRange
  cases a with
  | write w => exact h.represents_write r w
  | reset rows cols hint => exact h.represents_reset r rows cols hint
  | compress =>
    rw [Matrix.perform, compress?, if_pos h.isCut] at hnext ⊢
    exact hnext.represents r.rows r.cols fun row col hin =>
      (h.valueAt_compress row col).trans (r.valueAt_eq h hin)
  | prune threshold =>
    rw [Table.step]
    rw [Matrix.perform, prune, if_pos h.isCut] at hnext ⊢
    by_cases hneg : threshold < 0
    · rw [if_pos hneg, if_pos hneg]
      exact r
    · rw [if_neg hneg] at hnext
      rw [if_neg hneg, if_neg hneg]
      exact h.represents_map r hnext rfl rfl fun row col _ =>
        h.valueAt_pruned (not_lt.mp hneg) row col
  | trim =>
    rw [Matrix.perform, trim?, if_pos h.isCut] at hnext ⊢
    exact hnext.represents r.rows r.cols fun row col hin =>
      (h.valueAt_trim row col).trans (r.valueAt_eq h hin)
  | lock on =>
    exact hnext.represents r.rows r.cols fun row col hin =>
      (valueAt_of_buffers_eq rfl rfl rfl row col).trans (r.valueAt_eq h hin)
  | boundShifts bound => exact h.represents_boundShifts r bound
  | load pattern => exact h.represents_load r ha
  | accumulate other negated =>
    have ho : other.Sound := verify_eq_zero_iff.mp ha
    exact h.represents_accumulate r ho ho.represents_ofMatrix negated
  | accumulateSelf negated => exact h.represents_accumulate r h r negated
  | scale factor =>
    exact h.represents_map (f := fun _ _ v => v * factor) r hnext rfl rfl
      fun row col _ => h.valueAt_scaleBy factor row col
  | map f rowSpan colSpan =>
    rw [Matrix.perform, mapValues?, if_pos h.isCut] at hnext ⊢
    exact h.represents_map
      (f := fun row col v => if positionInSpans rowSpan colSpan row col then f v else v)
      r hnext rfl rfl fun row col _ => h.valueAt_mapValues ha rowSpan colSpan row col

/-! ## Runs -/

/-- A run keeps the buffers sound and the orientation as it is. -/
theorem Sound.performAll (h : m.Sound) (actions : List (Action K))
    (ha : ∀ a ∈ actions, a.Admissible) : (m.performAll actions).Sound := by
  induction actions generalizing m with
  | nil => exact h
  | cons a as ih =>
    exact ih (h.perform a (ha a (List.mem_cons_self ..)).inRange)
      fun a' ha' => ha a' (List.mem_cons_of_mem _ ha')

/-- A run does to the table what its steps say. -/
theorem Sound.represents_performAll [IsStrictOrderedRing K] (h : m.Sound) (r : m.Represents t)
    (actions : List (Action K)) (ha : ∀ a ∈ actions, a.Admissible) :
    (m.performAll actions).Represents (actions.foldl (Table.step m.orientation) t) := by
  induction actions generalizing m t with
  | nil => exact r
  | cons a as ih =>
    have hadm := ha a (List.mem_cons_self ..)
    have hstep := ih (h.perform a hadm.inRange) (h.represents_perform r a hadm)
      fun a' ha' => ha a' (List.mem_cons_of_mem _ ha')
    rw [h.orientation_perform a] at hstep
    exact hstep

/-- A matrix built from scratch represents the table that its history of calls leads to. -/
theorem performAll_represents [IsStrictOrderedRing K] {rows cols : Int}
    {orientation : Orientation} {hint : Int} {m : Matrix K}
    (hcreate : create rows cols orientation hint = .ok m) (actions : List (Action K))
    (ha : ∀ a ∈ actions, a.Admissible) :
    (m.performAll actions).Represents
      (actions.foldl (Table.step orientation) (Table.zero rows.toNat cols.toNat)) := by
  rw [create] at hcreate
  split_ifs at hcreate
  obtain rfl := Except.ok.inj hcreate
  have h : (empty rows.toNat cols.toNat orientation hint : Matrix K).Sound :=
    sound_withFreshBuffers _ hint
  refine h.represents_performAll (h.represents rfl rfl fun row col _ => ?_) actions ha
  exact valueAt_withFreshBuffers _ hint row col

end Matrix

/-- A write, a sum with itself, a sum with another matrix, a map and a pattern loaded. -/
def mixedActions : List (Action ℚ) :=
  [.write ⟨0, 1, 3, true⟩, .write ⟨1, 0, -2, false⟩, .accumulateSelf false,
    .accumulate Matrix.unit true, .map (· * 2) none (some ⟨0, 1⟩), .load pairPattern,
    .write ⟨0, 0, 5, true⟩]

theorem admissible_mixedActions : ∀ a ∈ mixedActions, a.Admissible := by
  intro a ha
  simp only [mixedActions, List.mem_cons, List.not_mem_nil, or_false] at ha
  rcases ha with rfl | rfl | rfl | rfl | rfl | rfl | rfl
  · exact True.intro
  · exact True.intro
  · exact True.intro
  · exact verify_unit
  · exact zero_mul 2
  · exact inRange_pairPattern
  · exact True.intro

theorem performAll_represents_mixedActions :
    Matrix.create 2 2 .byRows 0 = .ok (Matrix.empty 2 2 .byRows 0 : Matrix ℚ) ∧
      (∀ a ∈ mixedActions, a.Admissible) ∧
      ((Matrix.empty 2 2 .byRows 0 : Matrix ℚ).performAll mixedActions).Represents
        (mixedActions.foldl (Table.step .byRows) (Table.zero 2 2)) :=
  ⟨rfl, admissible_mixedActions,
    Matrix.performAll_represents (show Matrix.create 2 2 .byRows 0 = .ok _ from rfl) mixedActions
      admissible_mixedActions⟩

end CentralPath.Sparse
