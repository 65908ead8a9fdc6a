/-
  Every third row and column. `GivenMatrix.thirdRows` and `GivenMatrix.thirdCols` select them from a
  matrix in whatever form it was handed over, and what is stored row by row follows the selection: a
  row is stored as its triple was (`storedRow_thirdRows`), and of a row the columns stay that are
  multiples of three (`storedRow_thirdCols`).
-/
import CentralPath.Proofs.Problem.Parts

namespace CentralPath

open Sparse (Dense Entry distinctSorted)

/-! ## In steps of three -/

/-- The third of a multiple of three. -/
def third? (j : Int) : Option Int := if j % 3 = 0 then some (j / 3) else none

theorem third?_eq_some_iff {j k : Int} : third? j = some k ↔ j = 3 * k := by
  unfold third?
  split_ifs with h
  · rw [Option.some.injEq]
    omega
  · exact ⟨fun hnone => absurd hnone (by simp), fun hj => absurd (by omega) h⟩

theorem range_three_mul_succ (k : Nat) :
    List.range (3 * (k + 1)) = List.range (3 * k) ++ [3 * k, 3 * k + 1, 3 * k + 2] := by
  rw [show 3 * (k + 1) = 3 * k + 1 + 1 + 1 by ring, List.range_succ, List.range_succ,
    List.range_succ, List.append_assoc, List.append_assoc]
  rfl

theorem filter_range_three_mul (k : Nat) :
    (List.range (3 * k)).filter (· % 3 == 0) = (List.range k).map (3 * ·) := by
  induction k with
  | zero => rfl
  | succ k ih =>
    have hone : (3 * k + 1) % 3 = 1 := by omega
    have htwo : (3 * k + 2) % 3 = 2 := by omega
    rw [range_three_mul_succ, List.filter_append, ih, List.range_succ, List.map_append]
    simp [hone, htwo]

/-- What belongs to the multiples of three, numbered by their thirds. -/
theorem filterMap_range_three_mul {β : Type} (f : Nat → β) (k : Nat) :
    ((List.range (3 * k)).filterMap fun (j : Nat) => (third? j).map fun c => (c, f j)) =
      (List.range k).map fun (i : Nat) => ((i : Int), f (3 * i)) := by
  induction k with
  | zero => rfl
  | succ k ih =>
    have hzero : third? ((3 * k : Nat) : Int) = some (k : Int) :=
      third?_eq_some_iff.mpr (by push_cast; rfl)
    have hone : third? ((3 * k + 1 : Nat) : Int) = none := if_neg (by omega)
    have htwo : third? ((3 * k + 2 : Nat) : Int) = none := if_neg (by omega)
    rw [range_three_mul_succ, List.filterMap_append, ih, List.range_succ, List.map_append]
    simp only [List.filterMap_cons, List.filterMap_nil, hzero, hone, htwo, Option.map_some,
      Option.map_none, List.map_cons, List.map_nil]

theorem zipIdx_map_range (f : Nat → Nat) (k : Nat) :
    ((List.range k).map f).zipIdx = (List.range k).map fun i => (f i, i) := by
  refine List.ext_getElem (by simp) fun i hi hi' => ?_
  simp

/-- The distinct thirds of a list of columns are the thirds of the distinct columns. -/
theorem distinctSorted_filterMap_third? (l : List Int) :
    distinctSorted (l.filterMap third?) = (distinctSorted l).filterMap third? := by
  refine (Sparse.pairwise_distinctSorted _).eq_of_mem_iff ?_ fun a => ?_
  · refine (Sparse.pairwise_distinctSorted l).filterMap _ fun a b hab c hc d hd => ?_
    have hc := third?_eq_some_iff.mp hc
    have hd := third?_eq_some_iff.mp hd
    omega
  · simp only [Sparse.mem_distinctSorted, List.mem_filterMap]

/-- Every third component, from the first one on. -/
def Vector.thirds {α : Type} [Scalar α] (v : Array α) : Array α :=
  Array.ofFn (n := (v.size + 2) / 3) fun i => v.getD (3 * i) 0

/-- Every component in the place of three times its number, zeros in between. -/
def Vector.inThirds {α : Type} [Scalar α] (v : Array α) : Array α :=
  Array.ofFn (n := 3 * v.size) fun i => if i.val % 3 = 0 then v.getD (i.val / 3) 0 else 0

theorem Vector.size_thirds {α : Type} [Scalar α] (v : Array α) :
    (thirds v).size = (v.size + 2) / 3 := Array.size_ofFn

theorem Vector.getD_thirds {α : Type} [Scalar α] {v : Array α} {i : Nat}
    (hi : 3 * i < v.size) : (thirds v).getD i 0 = v.getD (3 * i) 0 := by
  rw [thirds, Array.getD_eq_getD_getElem?, Array.getElem?_ofFn, dif_pos (by omega),
    Option.getD_some]

variable {α : Type}

/-- The entry of a row that is a multiple of three, in the row of a third. -/
def Sparse.Entry.thirdRow? (e : Entry α) : Option (Entry α) :=
  (third? e.row).map fun i => ⟨i, e.col, e.value⟩

/-- The entry of a column that is a multiple of three, in the column of a third. -/
def Sparse.Entry.thirdCol? (e : Entry α) : Option (Entry α) :=
  (third? e.col).map fun j => ⟨e.row, j, e.value⟩

theorem filter_filterMap_thirdRow? (es : List (Entry α)) (i : Nat) :
    (es.filterMap Entry.thirdRow?).filter (·.row == (i : Int)) =
      (es.filter (·.row == ((3 * i : Nat) : Int))).map fun e => ⟨i, e.col, e.value⟩ := by
  rw [List.filter_filterMap, ← List.filterMap_eq_map, List.filterMap_filter]
  refine List.filterMap_congr fun e _ => Option.ext fun f => ?_
  simp only [Entry.thirdRow?, Option.filter_eq_some_iff, Option.map_eq_some_iff, third?_eq_some_iff]
  constructor
  · rintro ⟨⟨k, hk, rfl⟩, hf⟩
    obtain rfl : k = i := beq_iff_eq.mp hf
    rw [if_pos (by rw [beq_iff_eq, hk]; push_cast; rfl)]
    rfl
  · intro hf
    split_ifs at hf with he
    obtain rfl := Option.some.inj hf
    have he := beq_iff_eq.mp he
    exact ⟨⟨i, by omega, rfl⟩, beq_self_eq_true _⟩

theorem filter_filterMap_thirdCol? (es : List (Entry α)) (i : Int) :
    (es.filterMap Entry.thirdCol?).filter (·.row == i) =
      (es.filter (·.row == i)).filterMap Entry.thirdCol? := by
  rw [List.filter_filterMap, List.filterMap_filter]
  refine List.filterMap_congr fun e _ => ?_
  unfold Entry.thirdCol?
  cases third? e.col with
  | none => split_ifs <;> rfl
  | some j =>
    rw [Option.map_some, Option.filter_some]

/-- The stored column that is a multiple of three, as the column of a third. -/
def thirdStored? (e : Int × α) : Option (Int × α) := (third? e.1).map fun j => (j, e.2)

theorem filter_filterMap_thirdStored? (l : List (Int × α)) (f : α → Bool) :
    (l.filterMap thirdStored?).filter (f ·.2) = (l.filter (f ·.2)).filterMap thirdStored? := by
  rw [List.filter_filterMap, List.filterMap_filter]
  refine List.filterMap_congr fun e _ => ?_
  unfold thirdStored?
  cases third? e.1 with
  | none => split_ifs <;> rfl
  | some j => rw [Option.map_some, Option.filter_some]

variable [Scalar α]

/-! ## Matrices row by row -/

/-- The columns and values of the nonzeros in a row. -/
def Sparse.Dense.storedRow (d : Dense α) (i : Nat) : List (Int × α) :=
  ((List.range d.cols).map fun (j : Nat) => ((j : Int), d.get i j)).filter fun e => !(e.2 == 0)

namespace GivenMatrix

/-- The columns and values that are stored in a row. -/
def storedRow : GivenMatrix α → Nat → List (Int × α)
  | dense d, i => d.storedRow i
  | flat v, i => (rowTable v).storedRow i
  | coordinates _ _ es, i =>
    let row := es.filter (·.row == (i : Int))
    (distinctSorted (row.map Entry.col)).map fun j => (j, positionSum row i j)
  | box b, i => (rowTable b.numbers).storedRow i

theorem entries_eq_flatMap (g : GivenMatrix α) :
    g.entries = (List.range g.rows).flatMap fun (i : Nat) =>
      (g.storedRow i).map fun e => ⟨i, e.1, e.2⟩ := by
  have hdense : ∀ d : Dense α, d.entries = (List.range d.rows).flatMap fun (i : Nat) =>
      (d.storedRow i).map fun e => ⟨i, e.1, e.2⟩ := by
    intro d
    unfold Dense.entries Dense.storedRow
    refine List.flatMap_congr fun i _ => ?_
    rw [List.filter_map, List.filter_map, List.map_map]
    rfl
  cases g with
  | dense d => exact hdense d
  | flat v => exact hdense (rowTable v)
  | coordinates r c es =>
    unfold entries merged storedRow
    refine List.flatMap_congr fun i _ => ?_
    rw [List.map_map]
    rfl
  | box b => exact hdense (rowTable b.numbers)

theorem filter_entries (g : GivenMatrix α) {i : Nat} (hi : i < g.rows) :
    g.entries.filter (·.row == (i : Int)) = (g.storedRow i).map fun e => ⟨i, e.1, e.2⟩ := by
  have hone : ∀ k : Nat, ((g.storedRow k).map fun e => (⟨k, e.1, e.2⟩ : Entry α)).filter
      (·.row == (i : Int)) = if k = i then (g.storedRow i).map fun e => ⟨i, e.1, e.2⟩ else [] := by
    intro k
    split_ifs with hk
    · subst hk
      rw [List.filter_eq_self]
      intro e he
      obtain ⟨f, -, rfl⟩ := List.mem_map.mp he
      exact beq_self_eq_true _
    · rw [List.filter_eq_nil_iff]
      intro e he
      obtain ⟨f, -, rfl⟩ := List.mem_map.mp he
      simpa using hk
  have hpick : ∀ n : Nat, (List.range n).flatMap (fun k =>
      if k = i then (g.storedRow i).map fun e => (⟨i, e.1, e.2⟩ : Entry α) else []) =
      if i < n then (g.storedRow i).map fun e => ⟨i, e.1, e.2⟩ else [] := by
    intro n
    induction n with
    | zero => rfl
    | succ n ih =>
      rw [List.range_succ, List.flatMap_append, ih, List.flatMap_singleton]
      rcases Nat.lt_trichotomy i n with hlt | rfl | hgt
      · rw [if_pos hlt, if_neg (by omega), if_pos (by omega), List.append_nil]
      · rw [if_neg (by omega), if_pos rfl, if_pos (by omega), List.nil_append]
      · rw [if_neg (by omega), if_neg (by omega), if_neg (by omega), List.nil_append]
  rw [entries_eq_flatMap, List.filter_flatMap]
  simp only [hone]
  rw [hpick, if_pos hi]

theorem positionSum_congr {es es' : List (Entry α)} {row col row' col' : Int}
    (h : (es.filter fun e => e.row == row && e.col == col).map Entry.value =
      (es'.filter fun e => e.row == row' && e.col == col').map Entry.value) :
    positionSum es row col = positionSum es' row' col' := by
  have hfold : ∀ (l : List (Entry α)) (start : α),
      l.foldl (fun sum e => sum + e.value) start = (l.map Entry.value).foldl (· + ·) start := by
    intro l start
    rw [List.foldl_map]
  unfold positionSum
  generalize es.filter (fun e => e.row == row && e.col == col) = l at h
  generalize es'.filter (fun e => e.row == row' && e.col == col') = l' at h
  cases l with
  | nil =>
    obtain rfl : l' = [] := List.map_eq_nil_iff.mp h.symm
    rfl
  | cons e rest =>
    cases l' with
    | nil => cases h
    | cons e' rest' =>
      rw [List.map_cons, List.map_cons] at h
      obtain ⟨hvalue, hrest⟩ := List.cons.inj h
      dsimp only
      rw [hfold, hfold, hvalue, hrest]

/-! ## Every third row and column -/

/-- Every third row, from the first one on. -/
def thirdRows : GivenMatrix α → GivenMatrix α
  | dense d => .dense (.ofFn ((d.rows + 2) / 3) d.cols fun i j => d.get (3 * i) j)
  | flat v => .flat v
  | coordinates r c es => .coordinates ((r + 2) / 3) c (es.filterMap Entry.thirdRow?)
  | box b => .box b

/-- Every third column, from the first one on. -/
def thirdCols : GivenMatrix α → GivenMatrix α
  | dense d => .dense (.ofFn d.rows ((d.cols + 2) / 3) fun i j => d.get i (3 * j))
  | flat v => .flat (Vector.thirds v)
  | coordinates r c es => .coordinates r ((c + 2) / 3) (es.filterMap Entry.thirdCol?)
  | box b => .flat (Vector.thirds b.numbers)

theorem rows_thirdRows (g : GivenMatrix α) : g.thirdRows.rows = (g.rows + 2) / 3 := by
  cases g with
  | dense d => rfl
  | coordinates r c es => rfl
  | flat v => exact (by decide : 1 = (1 + 2) / 3)
  | box b => exact (by decide : 1 = (1 + 2) / 3)

theorem cols_thirdRows (g : GivenMatrix α) : g.thirdRows.cols = g.cols := by
  cases g <;> rfl

theorem rows_thirdCols (g : GivenMatrix α) : g.thirdCols.rows = g.rows := by
  cases g <;> rfl

theorem cols_thirdCols (g : GivenMatrix α) : g.thirdCols.cols = (g.cols + 2) / 3 := by
  cases g with
  | dense d => rfl
  | coordinates r c es => rfl
  | flat v => exact Vector.size_thirds v
  | box b => exact Vector.size_thirds b.numbers

theorem InShape.thirds {g : GivenMatrix α} (h : g.InShape) : g.thirdRows.thirdCols.InShape := by
  cases g with
  | dense d => trivial
  | flat v => trivial
  | box b => trivial
  | coordinates r c es =>
    intro e he
    obtain ⟨f, hf, hthird⟩ := List.mem_filterMap.mp he
    obtain ⟨j, hj, rfl⟩ := Option.map_eq_some_iff.mp hthird
    obtain ⟨f₀, hf₀, hthird⟩ := List.mem_filterMap.mp hf
    obtain ⟨i, hi, rfl⟩ := Option.map_eq_some_iff.mp hthird
    have hj := third?_eq_some_iff.mp hj
    have hi := third?_eq_some_iff.mp hi
    obtain ⟨h1, h2, h3, h4⟩ := h f₀ hf₀
    dsimp only at hj hi ⊢
    omega

theorem InShape.nonneg_of_mem_storedRow {K : Type} [Field K] [LinearOrder K] {g : GivenMatrix K}
    (h : g.InShape) {i : Nat} (hi : i < g.rows) {e : Int × K} (he : e ∈ g.storedRow i) :
    0 ≤ e.1 := by
  have hmem : (⟨i, e.1, e.2⟩ : Entry K) ∈ g.entries := by
    refine List.mem_of_mem_filter (p := (·.row == (i : Int))) ?_
    rw [filter_entries g hi]
    exact List.mem_map_of_mem he
  obtain ⟨_, j, -, -, -, hj⟩ := h.of_mem_entries hmem
  dsimp only at hj
  omega

/-- What is no single row has two axes, and so have its thirds. -/
theorem planar_thirds {g : GivenMatrix α} (h : g.rows ≠ 1) :
    g.thirdRows.planar = .ok g.thirdRows ∧
      g.thirdRows.thirdCols.planar = .ok g.thirdRows.thirdCols := by
  cases g with
  | dense d => exact ⟨rfl, rfl⟩
  | coordinates r c es => exact ⟨rfl, rfl⟩
  | flat v => exact absurd rfl h
  | box b => exact absurd rfl h

/-- Every third row is stored as it was. -/
theorem storedRow_thirdRows (g : GivenMatrix α) {i : Nat} (hi : 3 * i < g.rows) :
    g.thirdRows.storedRow i = g.storedRow (3 * i) := by
  have hfirst : ∀ d : Dense α, 3 * i < 1 → d.storedRow i = d.storedRow (3 * i) := by
    intro d hlt
    obtain rfl : i = 0 := by omega
    rfl
  cases g with
  | dense d =>
    have hi : 3 * i < d.rows := hi
    refine congrArg _ (List.map_congr_left fun j hj => ?_)
    have hrow : i < (d.rows + 2) / 3 := by omega
    have hj : j < d.cols := List.mem_range.mp hj
    rw [Dense.get_ofFn _ hrow hj]
  | flat v => exact hfirst _ hi
  | coordinates r c es =>
    unfold thirdRows storedRow
    dsimp only
    rw [filter_filterMap_thirdRow?, List.map_map]
    refine List.map_congr_left fun j _ => congrArg (Prod.mk j) (positionSum_congr ?_)
    rw [List.filter_map, List.map_map]
    refine congrArg (List.map Entry.value) (List.filter_congr fun e he => ?_)
    rw [List.mem_filter] at he
    simp [Function.comp, beq_iff_eq.mp he.2]
  | box b => exact hfirst _ hi

theorem positionSum_filterMap_thirdCol? (es : List (Entry α)) (row c : Int) :
    positionSum (es.filterMap Entry.thirdCol?) row c = positionSum es row (3 * c) := by
  refine positionSum_congr ?_
  rw [List.filter_filterMap, List.map_filterMap, ← List.filterMap_eq_map, List.filterMap_filter]
  refine List.filterMap_congr fun e _ => Option.ext fun a => ?_
  simp only [Entry.thirdCol?, Option.map_eq_some_iff, Option.filter_eq_some_iff,
    third?_eq_some_iff]
  constructor
  · rintro ⟨_, ⟨⟨j, hj, rfl⟩, hpos⟩, rfl⟩
    rw [Bool.and_eq_true, beq_iff_eq, beq_iff_eq] at hpos
    obtain ⟨hrow, rfl⟩ := hpos
    have hrow : e.row = row := hrow
    rw [if_pos (by simp [hrow, hj])]
    rfl
  · intro ha
    split_ifs at ha with hpos
    obtain rfl := Option.some.inj ha
    rw [Bool.and_eq_true, beq_iff_eq, beq_iff_eq] at hpos
    exact ⟨⟨e.row, c, e.value⟩, ⟨⟨c, hpos.2, rfl⟩, by simp [hpos.1]⟩, rfl⟩

/-- Of every row, the columns that are multiples of three are stored. -/
theorem storedRow_thirdCols (g : GivenMatrix α) {i k : Nat} (hi : i < g.rows)
    (hk : g.cols = 3 * k) :
    g.thirdCols.storedRow i = (g.storedRow i).filterMap thirdStored? := by
  have hdense : ∀ d d' : Dense α, d.cols = 3 * k → d'.cols = k →
      (∀ j, j < k → d'.get i j = d.get i (3 * j)) →
      d'.storedRow i = (d.storedRow i).filterMap thirdStored? := by
    intro d d' hd hd' hget
    have hthirds : ((List.range (3 * k)).map fun (j : Nat) => ((j : Int), d.get i j)).filterMap
        thirdStored? = (List.range k).map fun (j : Nat) => ((j : Int), d.get i (3 * j)) := by
      rw [List.filterMap_map]
      exact filterMap_range_three_mul (d.get i) k
    unfold Dense.storedRow
    rw [hd, hd', ← filter_filterMap_thirdStored? _ fun a => !(a == 0), hthirds]
    refine congrArg _ (List.map_congr_left fun j hj => ?_)
    rw [hget j (List.mem_range.mp hj)]
  have hvector : ∀ v : Array α, i < 1 → v.size = 3 * k →
      (rowTable (Vector.thirds v)).storedRow i =
        ((rowTable v).storedRow i).filterMap thirdStored? := by
    intro v hi hv
    have hsize : (Vector.thirds v).size = k := by
      rw [Vector.size_thirds]
      omega
    refine hdense _ _ hv hsize fun j hj => ?_
    rw [rowTable, rowTable, Dense.get_ofFn _ hi (by omega), Dense.get_ofFn _ hi (by omega),
      Vector.getD_thirds (by omega)]
  cases g with
  | dense d =>
    have hk : d.cols = 3 * k := hk
    refine hdense d _ hk (show (d.cols + 2) / 3 = k by omega) fun j hj => ?_
    have hi : i < d.rows := hi
    have hcol : j < (d.cols + 2) / 3 := by omega
    rw [Dense.get_ofFn _ hi hcol]
  | flat v => exact hvector v hi hk
  | coordinates r c es =>
    have hcols : ∀ l : List (Entry α), (l.filterMap Entry.thirdCol?).map Entry.col =
        (l.map Entry.col).filterMap third? := by
      intro l
      rw [List.map_filterMap, List.filterMap_map]
      refine List.filterMap_congr fun e _ => ?_
      simp only [Entry.thirdCol?, Option.map_map, Function.comp]
      exact Option.map_id'
    unfold thirdCols storedRow
    dsimp only
    rw [filter_filterMap_thirdCol?, hcols, distinctSorted_filterMap_third?, List.map_filterMap,
      List.filterMap_map]
    refine List.filterMap_congr fun j _ => ?_
    simp only [thirdStored?, Function.comp]
    rcases hj : third? j with _ | c
    · rfl
    rw [Option.map_some, Option.map_some]
    rw [third?_eq_some_iff.mp hj, positionSum_filterMap_thirdCol?]
  | box b => exact hvector b.numbers hi hk

end GivenMatrix

end CentralPath
