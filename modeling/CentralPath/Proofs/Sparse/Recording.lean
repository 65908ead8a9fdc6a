/-
  What a pattern remembers. Its lists are kept as they are written, with repetitions, and are put in
  order whenever somebody looks at them; neither the order of the writes nor the looks in between
  can be told from the members of the lists, which are the written positions and no others
  (`Records`). Everything that is ever done with a pattern goes by these members alone
  (`Records.sorted_eq`), and its size is the number of distinct positions (`Records.size_eq`).
-/
import CentralPath.Proofs.Sparse.Loading

namespace CentralPath.Sparse

variable {α : Type}

/-! ## Written positions -/

/-- Some write goes to the position. -/
def Names (writes : List (Write α)) (row col : Int) : Prop :=
  ∃ w ∈ writes, w.row = row ∧ w.col = col

/-- The positions that writes go to, each once. -/
def namedPositions (writes : List (Write α)) : Finset (Int × Int) :=
  (writes.map fun w => (w.row, w.col)).toFinset

theorem mem_namedPositions {writes : List (Write α)} {row col : Int} :
    (row, col) ∈ namedPositions writes ↔ Names writes row col := by
  simp [namedPositions, Names]

/-- Every write goes to a position of the shape. -/
def WritesFit (rows cols : Nat) (writes : List (Write α)) : Prop :=
  ∀ w ∈ writes, 0 ≤ w.row ∧ w.row < rows ∧ 0 ≤ w.col ∧ w.col < cols

instance (rows cols : Nat) (writes : List (Write α)) : Decidable (WritesFit rows cols writes) :=
  inferInstanceAs (Decidable (∀ w ∈ writes, _))

/-! ## Lessons -/

/-- A call on a pattern that learns: a write, or a look at what it has learned so far. -/
inductive Lesson (α : Type) where
  | write (w : Write α)
  | look

/-- The writes among lessons, in order. -/
def Lesson.writes (lessons : List (Lesson α)) : List (Write α) :=
  lessons.filterMap fun
    | .write w => some w
    | .look => none

namespace Pattern

variable {p : Pattern} {writes : List (Write α)} {row col : Int}

/-- Takes lessons in order up to the first that is refused. A look leaves the lists sorted. -/
def learn (p : Pattern) : List (Lesson α) → Option (Fault α) × Pattern
  | [] => (none, p)
  | .look :: lessons => p.collapse.learn lessons
  | .write w :: lessons =>
    match p.record w.row w.col with
    | .ok next => next.learn lessons
    | .error e => (some e, p)

/-- Without looks the lessons are a run of writes. -/
theorem learn_map_write (p : Pattern) (writes : List (Write α)) :
    p.learn (writes.map .write) = p.writeAll writes := by
  induction writes generalizing p with
  | nil => rfl
  | cons w ws ih =>
    rw [List.map_cons, learn, writeAll]
    cases p.record (α := α) w.row w.col with
    | ok next => exact ih next
    | error e => rfl

/-- The list and the index that a position is recorded under. -/
def placeOf (p : Pattern) (row col : Int) : Int × Int :=
  match p.orientation with
  | .byRows => (row, col)
  | .byColumns => (col, row)

theorem placeOf_inj {row' col' : Int} (h : p.placeOf row col = p.placeOf row' col') :
    row = row' ∧ col = col' := by
  rw [placeOf, placeOf] at h
  split at h
  · exact Prod.mk.inj h
  · exact (Prod.mk.inj h).symm

/-- A position of the shape has a list, and an index in range. -/
theorem placeOf_range (hrow : 0 ≤ row ∧ row < p.rows) (hcol : 0 ≤ col ∧ col < p.cols) :
    0 ≤ (p.placeOf row col).1 ∧ (p.placeOf row col).1 < p.leadingDim ∧
      0 ≤ (p.placeOf row col).2 ∧ (p.placeOf row col).2 < p.trailingDim := by
  unfold placeOf leadingDim trailingDim
  cases p.orientation
  · exact ⟨hrow.1, hrow.2, hcol.1, hcol.2⟩
  · exact ⟨hcol.1, hcol.2, hrow.1, hrow.2⟩

theorem record_eq (p : Pattern) (row col : Int) :
    p.record (α := α) row col = match p.listIndex? (p.placeOf row col).1 with
      | none => .error .recordOutside
      | some k => .ok { p with lists := p.lists.modify k (· ++ [(p.placeOf row col).2]) } := by
  unfold record placeOf
  cases p.orientation <;> rfl

/-! ## Records -/

/-- The lists of a pattern hold the positions of writes and no others. -/
structure Records (p : Pattern) (writes : List (Write α)) : Prop where
  size_lists : p.lists.size = p.leadingDim
  mem_iff : ∀ (k : Nat) l, p.lists[k]? = some l →
    ∀ t, t ∈ l ↔ ∃ w ∈ writes, p.placeOf w.row w.col = ((k : Int), t)
  fit : WritesFit p.rows p.cols writes

theorem records_empty (rows cols : Nat) (orientation : Orientation) :
    (empty rows cols orientation).Records ([] : List (Write α)) := by
  refine ⟨Array.size_replicate, fun k l hl t => ?_, fun w hw => absurd hw List.not_mem_nil⟩
  rw [empty, Array.getElem?_replicate] at hl
  split_ifs at hl
  obtain rfl := Option.some.inj hl
  simp

namespace Records

/-- Recording a position of the shape adds it to the records. -/
theorem record (h : p.Records writes) {w : Write α}
    (hw : 0 ≤ w.row ∧ w.row < p.rows ∧ 0 ≤ w.col ∧ w.col < p.cols) :
    ∃ next, p.record (α := α) w.row w.col = .ok next ∧ next.orientation = p.orientation ∧
      next.rows = p.rows ∧ next.cols = p.cols ∧ next.Records (writes ++ [w]) := by
  obtain ⟨hlo, hhi, -, -⟩ := placeOf_range (p := p) ⟨hw.1, hw.2.1⟩ hw.2.2
  obtain ⟨k, hk⟩ := Int.eq_ofNat_of_zero_le hlo
  have hrecord : p.record (α := α) w.row w.col =
      .ok { p with lists := p.lists.modify k (· ++ [(p.placeOf w.row w.col).2]) } := by
    have hindex : p.listIndex? (p.placeOf w.row w.col).1 = some k := by
      rw [listIndex?, placeIn?, h.size_lists, if_pos ⟨hlo, hhi⟩, hk]
      rfl
    rw [record_eq, hindex]
  refine ⟨_, hrecord, rfl, rfl, rfl, Array.size_modify.trans h.size_lists, fun j l hl t => ?_,
    fun v hv => ?_⟩
  · have hplace : (∃ u ∈ writes ++ [w], p.placeOf u.row u.col = ((j : Int), t)) ↔
        (∃ u ∈ writes, p.placeOf u.row u.col = ((j : Int), t)) ∨
          p.placeOf w.row w.col = ((j : Int), t) := by
      simp [or_and_right, exists_or]
    rw [Array.getElem?_modify] at hl
    refine Iff.trans ?_ hplace.symm
    split_ifs at hl with hkj
    · obtain ⟨old, hold, rfl⟩ := Option.map_eq_some_iff.mp hl
      rw [List.mem_append, h.mem_iff j old hold, List.mem_singleton, Prod.ext_iff, hk, hkj]
      simp [eq_comm]
    · rw [h.mem_iff j l hl, Prod.ext_iff, hk]
      simp [hkj]
  · rcases List.mem_append.mp hv with hv | hv
    · exact h.fit v hv
    · rw [List.mem_singleton.mp hv]
      exact hw

/-- A look changes the lists, but not their members. -/
theorem collapse (h : p.Records writes) : p.collapse.Records writes := by
  refine ⟨Array.size_map.trans h.size_lists, fun k l hl t => ?_, h.fit⟩
  rw [Pattern.collapse, Array.getElem?_map] at hl
  obtain ⟨old, hold, rfl⟩ := Option.map_eq_some_iff.mp hl
  rw [mem_distinctSorted]
  exact h.mem_iff k old hold t

/-- Lessons about positions of the shape are none of them refused, and their writes are recorded
behind the former ones. -/
theorem learn (h : p.Records writes) {lessons : List (Lesson α)}
    (hfit : WritesFit p.rows p.cols (Lesson.writes lessons)) :
    (p.learn lessons).1 = none ∧ (p.learn lessons).2.orientation = p.orientation ∧
      (p.learn lessons).2.rows = p.rows ∧ (p.learn lessons).2.cols = p.cols ∧
      (p.learn lessons).2.Records (writes ++ Lesson.writes lessons) := by
  induction lessons generalizing p writes with
  | nil => exact ⟨rfl, rfl, rfl, rfl, (List.append_nil writes).symm ▸ h⟩
  | cons lesson lessons ih =>
    cases lesson with
    | look => exact ih h.collapse hfit
    | write w =>
      have hcons : Lesson.writes (.write w :: lessons) = w :: Lesson.writes lessons := rfl
      rw [hcons] at hfit ⊢
      obtain ⟨next, hrecord, ho, hr, hc, hnext⟩ := h.record (hfit w (List.mem_cons_self ..))
      obtain ⟨hfault, ho', hr', hc', hlast⟩ := ih hnext (by
        rw [hr, hc]
        exact fun v hv => hfit v (List.mem_cons_of_mem _ hv))
      rw [List.append_assoc] at hlast
      rw [Pattern.learn, hrecord]
      exact ⟨hfault, ho'.trans ho, hr'.trans hr, hc'.trans hc, hlast⟩

theorem inRange (h : p.Records writes) : p.InRange := by
  refine ⟨h.size_lists, fun l hl t ht => ?_⟩
  obtain ⟨k, hk⟩ := Array.mem_iff_getElem?.mp hl
  obtain ⟨w, hw, hplace⟩ := (h.mem_iff k l hk t).mp ht
  obtain ⟨hrlo, hrhi, hclo, hchi⟩ := h.fit w hw
  have hrange := placeOf_range (p := p) ⟨hrlo, hrhi⟩ ⟨hclo, hchi⟩
  rw [hplace] at hrange
  exact hrange.2.2

/-- The indices that a list holds, sorted, are those of the writes to it. -/
theorem getElem?_sorted (h : p.Records writes) {k : Nat} (hk : k < p.leadingDim) :
    ∃ l, p.sorted[k]? = some l ∧ l.Pairwise (· < ·) ∧
      ∀ t, t ∈ l ↔ ∃ w ∈ writes, p.placeOf w.row w.col = ((k : Int), t) := by
  have hk' : k < p.lists.size := h.size_lists.symm ▸ hk
  have hsome : p.lists[k]? = some p.lists[k] := Array.getElem?_eq_getElem hk'
  refine ⟨distinctSorted p.lists[k], ?_, pairwise_distinctSorted _, fun t => ?_⟩
  · rw [sorted, List.getElem?_map, Array.getElem?_toList, hsome]
    rfl
  · rw [mem_distinctSorted]
    exact h.mem_iff k _ hsome t

theorem length_sorted (h : p.Records writes) : p.sorted.length = p.leadingDim := by
  rw [sorted, List.length_map, Array.length_toList, h.size_lists]

/-- Patterns of one shape that record the same positions cannot be told apart. -/
theorem sorted_eq {p' : Pattern} {writes' : List (Write α)} (h : p.Records writes)
    (h' : p'.Records writes') (ho : p'.orientation = p.orientation) (hr : p'.rows = p.rows)
    (hc : p'.cols = p.cols) (hsame : ∀ row col, Names writes' row col ↔ Names writes row col) :
    p'.sorted = p.sorted := by
  have hdim : p'.leadingDim = p.leadingDim := by rw [leadingDim, leadingDim, ho, hr, hc]
  have hplace : p'.placeOf = p.placeOf := by
    funext row col
    rw [placeOf, placeOf, ho]
  have hnamed : ∀ (writes : List (Write α)) k t,
      (∃ w ∈ writes, p.placeOf w.row w.col = (k, t)) ↔
        ∃ row col, Names writes row col ∧ p.placeOf row col = (k, t) := by
    intro writes k t
    constructor
    · rintro ⟨w, hw, heq⟩
      exact ⟨w.row, w.col, ⟨w, hw, rfl, rfl⟩, heq⟩
    · rintro ⟨_, _, ⟨w, hw, rfl, rfl⟩, heq⟩
      exact ⟨w, hw, heq⟩
  refine List.ext_getElem? fun k => ?_
  by_cases hk : k < p.leadingDim
  · obtain ⟨l, hl, hinc, hmem⟩ := h.getElem?_sorted hk
    obtain ⟨l', hl', hinc', hmem'⟩ := h'.getElem?_sorted (hdim.symm ▸ hk)
    rw [hl, hl', hinc'.eq_of_mem_iff hinc fun t => ?_]
    rw [hmem, hmem', hplace, hnamed, hnamed]
    simp only [hsame]
  · rw [List.getElem?_eq_none (by rw [h'.length_sorted]; omega),
      List.getElem?_eq_none (by rw [h.length_sorted]; omega)]

/-- The size of a pattern is the number of distinct positions that it records. -/
theorem size_eq (h : p.Records writes) : p.size = (namedPositions writes).card := by
  have hrange : ∀ q ∈ namedPositions writes,
      0 ≤ (p.placeOf q.1 q.2).1 ∧ (p.placeOf q.1 q.2).1 < p.leadingDim := by
    rintro ⟨row, col⟩ hq
    obtain ⟨w, hw, rfl, rfl⟩ := mem_namedPositions.mp hq
    obtain ⟨hrlo, hrhi, hclo, hchi⟩ := h.fit w hw
    have := placeOf_range (p := p) ⟨hrlo, hrhi⟩ ⟨hclo, hchi⟩
    exact ⟨this.1, this.2.1⟩
  -- the positions are counted list by list
  have hmaps : ∀ q ∈ namedPositions writes,
      (p.placeOf q.1 q.2).1.toNat ∈ Finset.range p.sorted.length := by
    intro q hq
    have := hrange q hq
    rw [Finset.mem_range, h.length_sorted]
    omega
  rw [Finset.card_eq_sum_card_fiberwise hmaps, size, totalOf_eq_sum, Finset.sum_range,
    ← Fin.sum_univ_fun_getElem]
  refine Finset.sum_congr rfl fun k _ => ?_
  obtain ⟨l, hl, hinc, hmem⟩ := h.getElem?_sorted (k.isLt.trans_eq h.length_sorted)
  rw [List.getElem?_eq_getElem k.isLt] at hl
  rw [Option.some.inj hl, ← List.toFinset_card_of_nodup hinc.nodup]
  refine (Finset.card_bij (fun q _ => (p.placeOf q.1 q.2).2) ?_ ?_ ?_).symm
  · rintro ⟨row, col⟩ hq
    obtain ⟨hq, hk⟩ := Finset.mem_filter.mp hq
    obtain ⟨w, hw, rfl, rfl⟩ := mem_namedPositions.mp hq
    rw [List.mem_toFinset, hmem]
    exact ⟨w, hw, Prod.ext (by have := hrange _ hq; dsimp only at hk this ⊢; omega) rfl⟩
  · rintro ⟨row, col⟩ hq ⟨row', col'⟩ hq' heq
    obtain ⟨hq, hk⟩ := Finset.mem_filter.mp hq
    obtain ⟨hq', hk'⟩ := Finset.mem_filter.mp hq'
    have hlo := hrange _ hq
    have hlo' := hrange _ hq'
    obtain ⟨rfl, rfl⟩ := placeOf_inj (Prod.ext (by dsimp only at *; omega) heq)
    rfl
  · intro t ht
    obtain ⟨w, hw, hplace⟩ := (hmem t).mp (List.mem_toFinset.mp ht)
    refine ⟨(w.row, w.col), Finset.mem_filter.mpr ⟨?_, ?_⟩, ?_⟩
    · exact mem_namedPositions.mpr ⟨w, hw, rfl, rfl⟩
    · rw [hplace]
      exact Int.toNat_natCast _
    · rw [hplace]

end Records

/-- Lessons on an empty pattern: the records are those of the lessons. -/
theorem learn_empty {rows cols : Nat} (orientation : Orientation) {lessons : List (Lesson α)}
    (hfit : WritesFit rows cols (Lesson.writes lessons)) :
    ((empty rows cols orientation).learn lessons).1 = none ∧
      ((empty rows cols orientation).learn lessons).2.orientation = orientation ∧
      ((empty rows cols orientation).learn lessons).2.rows = rows ∧
      ((empty rows cols orientation).learn lessons).2.cols = cols ∧
      ((empty rows cols orientation).learn lessons).2.Records (Lesson.writes lessons) :=
  (records_empty rows cols orientation).learn hfit

end Pattern

end CentralPath.Sparse
