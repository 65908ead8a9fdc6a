/-
  Gaussian elimination with partial pivoting on a dense table. Every step takes the first row whose
  leading entry is largest in absolute value; a zero pivot is remembered and its column skipped.
  Two rules find that row. They part where an entry is not a number: one may take it for a pivot,
  the other passes it over and has no pivot left when nothing else differs from zero. Rows come in
  groups, and a pivot row changes rows of its own group only.
-/
import CentralPath.Problem.Given

namespace CentralPath.Backend

open Sparse (Dense)

/-- One row under elimination: its number in the table at the start, its group and its values. Left
of the diagonal the values are the multipliers used so far. -/
structure EliminationRow (α : Type) where
  source : Nat
  group : Nat
  values : Array α

/-- A table in triangular form. -/
structure Factor (α : Type) where
  rows : Nat
  cols : Nat
  triangular : Array (EliminationRow α)
  /-- The first step, counted from one, whose pivot was exactly zero. -/
  zeroPivot : Option Nat

namespace Factor

variable {α : Type} [Scalar α]

/-- The value in a column of a row. -/
def entry (rows : Array (EliminationRow α)) (i j : Nat) : α :=
  (rows[i]?.map fun r => r.values.getD j 0).getD 0

/-- The row from `k` on with the largest entry in column `k`, the first of several. An entry that is
not a number is taken when it is the first, and passed over otherwise. -/
def pivotRow (rows : Array (EliminationRow α)) (k : Nat) : Nat :=
  (List.range rows.size).foldl
    (fun best i =>
      if k < i ∧ Scalar.abs (entry rows best k) < Scalar.abs (entry rows i k) then i else best) k

/-- Whether row `i` beats the best row so far in column `k`; without one it has to beat zero. -/
def beats (rows : Array (EliminationRow α)) (k i : Nat) : Option Nat → Bool
  | none => decide (0 < Scalar.abs (entry rows i k))
  | some best => decide (Scalar.abs (entry rows best k) < Scalar.abs (entry rows i k))

/-- The row from `k` on with the largest nonzero entry in column `k`, the first of several. An entry
that is not a number is passed over. -/
def pivotRow? (rows : Array (EliminationRow α)) (k : Nat) : Option Nat :=
  (List.range rows.size).foldl
    (fun best i => if k ≤ i && beats rows k i best then some i else best) none

/-- Subtracts the multiple of the pivot row that clears column `k`, and keeps the multiplier. -/
def eliminate (pivot : EliminationRow α) (k : Nat) (row : EliminationRow α) : EliminationRow α :=
  let factor := row.values.getD k 0 / pivot.values.getD k 0
  { row with values := row.values.mapIdx fun j v =>
      if j < k then v else if j = k then factor else v - factor * pivot.values.getD j 0 }

/-- A rule that finds the pivot row of a column, which may have none. -/
abbrev PivotRule (α : Type) := Array (EliminationRow α) → Nat → Option Nat

/-- The rule that always names a row. -/
def anyPivot : PivotRule α := fun rows k => some (pivotRow rows k)

/-- The rule that names rows with a nonzero number only. -/
def numberPivot : PivotRule α := pivotRow?

/-- One elimination step. -/
def step (rule : PivotRule α) (f : Factor α) (k : Nat) : Factor α :=
  let vanished : Factor α := { f with zeroPivot := f.zeroPivot.or (some (k + 1)) }
  match rule f.triangular k with
  | none => vanished
  | some best =>
    let rows := f.triangular.swapIfInBounds k best
    match rows[k]? with
    | none => f
    | some pivot =>
      if pivot.values.getD k 0 == 0 then { vanished with triangular := rows }
      else
        { f with triangular := rows.mapIdx fun i r =>
            if k < i ∧ r.group = pivot.group then eliminate pivot k r else r }

/-- Brings a table whose rows lie in given groups into triangular form. -/
def ofDense (rule : PivotRule α) (groups : Array Nat) (d : Dense α) : Factor α :=
  let rows := Array.ofFn (n := d.rows) fun i =>
    ⟨i, groups.getD i 0, Array.ofFn (n := d.cols) fun j => d.get i j⟩
  (List.range (min d.rows d.cols)).foldl (step rule) ⟨d.rows, d.cols, rows, none⟩

/-- Solves with the unit lower triangle, from the first row on. -/
def forward (f : Factor α) (b : Array α) : Array α :=
  f.triangular.foldl
    (fun y row =>
      let sum := (List.range y.size).foldl (fun s j => s - row.values.getD j 0 * y.getD j 0)
        (b.getD row.source 0)
      y.push sum) #[]

/-- Solves with the upper triangle, from the last row on. -/
def backward (f : Factor α) (y : Array α) : Array α :=
  (List.range f.rows).foldr
    (fun i x =>
      let row := (f.triangular[i]?.map EliminationRow.values).getD #[]
      let sum := (List.range (f.rows - 1 - i)).foldl
        (fun s k => s - row.getD (i + 1 + k) 0 * x.getD (i + 1 + k) 0) (y.getD i 0)
      x.setIfInBounds i (sum / row.getD i 0))
    (Array.replicate f.rows 0)

/-- The solution of the system for a right-hand side. -/
def solve (f : Factor α) (b : Array α) : Array α := f.backward (f.forward b)

end Factor

end CentralPath.Backend
