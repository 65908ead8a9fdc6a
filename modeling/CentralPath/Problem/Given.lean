/-
  Matrices as they are handed over: a dense table, a single row without a second axis, an array with
  another number of axes, or a list of coordinates in which a position may occur more than once.
  `GivenMatrix.entries` puts all of them in one form, `GivenMatrix.planar` refuses what has too many
  axes, `symmetricPart` averages a matrix with its transpose.
-/
import CentralPath.Problem.Nested

namespace CentralPath

open Sparse (Entry Dense distinctSorted)

/-- A matrix as handed over. -/
inductive GivenMatrix (α : Type) where
  | dense (table : Dense α)
  /-- A vector where a matrix is expected: a matrix of one row, and its own transpose. -/
  | flat (vector : Array α)
  /-- Values of a position that occurs more than once add up. -/
  | coordinates (rows cols : Nat) (entries : List (Entry α))
  /-- An array with neither one axis nor two, read as one row of its numbers. -/
  | box (array : Box α)

namespace GivenMatrix

variable {α : Type} [Scalar α]

/-- Number of rows. -/
def rows : GivenMatrix α → Nat
  | dense d => d.rows
  | flat _ => 1
  | coordinates r _ _ => r
  | box _ => 1

/-- Number of columns. -/
def cols : GivenMatrix α → Nat
  | dense d => d.cols
  | flat v => v.size
  | coordinates _ c _ => c
  | box b => b.numbers.size

/-- The sum of the values given for one position; a single value stays as it is. -/
def positionSum (entries : List (Entry α)) (row col : Int) : α :=
  match entries.filter fun e => e.row == row && e.col == col with
  | [] => 0
  | e :: rest => rest.foldl (fun sum r => sum + r.value) e.value

/-- The distinct positions row by row, columns ascending, each with its sum. -/
def merged (rows : Nat) (entries : List (Entry α)) : List (Entry α) :=
  (List.range rows).flatMap fun (i : Nat) =>
    let row := entries.filter (·.row == (i : Int))
    (distinctSorted (row.map Entry.col)).map fun j => ⟨i, j, positionSum row i j⟩

/-- A vector as a table of one row. -/
def rowTable (v : Array α) : Dense α := .ofFn 1 v.size fun _ j => v.getD j 0

/-- The stored entries row by row, columns ascending: the nonzeros of a table, every given position
of a coordinate list. -/
def entries : GivenMatrix α → List (Entry α)
  | dense d => d.entries
  | flat v => (rowTable v).entries
  | coordinates r _ es => merged r es
  | box b => (rowTable b.numbers).entries

/-- The matrix written out in full. -/
def table : GivenMatrix α → Dense α
  | dense d => d
  | flat v => rowTable v
  | coordinates r c es => .ofEntries r c es
  | box b => rowTable b.numbers

/-- The lengths of the axes, at least two of them. -/
def shape : GivenMatrix α → List Nat
  | box ⟨[], _⟩ => [1, 1]
  | box b => b.shape
  | g => [g.rows, g.cols]

/-- The same matrix with two axes, which an array with more of them has not. -/
def planar : GivenMatrix α → Except (Fault α) (GivenMatrix α)
  | flat v => .ok (.dense (rowTable v))
  | box ⟨[], numbers⟩ => .ok (.dense (rowTable numbers))
  | box _ => .error .tooManyAxes
  | g => .ok g

/-- A nesting of numbers as a matrix. -/
def ofNested (t : Nested α) : Except (Fault α) (GivenMatrix α) := do
  let b ← t.box
  match b.shape with
  | [rows, cols] => pure (.dense (Nested.tableOf rows cols b.numbers))
  | [_] => pure (.flat b.numbers)
  | _ => pure (.box b)

/-- A table of zeros, unless a dimension is negative. -/
def zeros (rows cols : Int) : Except (Fault α) (GivenMatrix α) :=
  if rows < 0 ∨ cols < 0 then .error .negativeLength
  else .ok (.dense (.zeros rows.toNat cols.toNat))

/-- A matrix of entries, unless one of them lies outside the shape. A compressed one holds each
position once, row by row, with the sum of its values. -/
def ofEntries (rows cols : Int) (entries : List (Entry α)) (compressed : Bool) :
    Except (Fault α) (GivenMatrix α) :=
  if rows < 0 ∨ cols < 0 then .error .negativeLength
  else if entries.all fun e => 0 ≤ e.row && e.row < rows && 0 ≤ e.col && e.col < cols then
    .ok <| .coordinates rows.toNat cols.toNat <|
      if compressed then merged rows.toNat entries else entries
  else .error .entryUnfit

/-- The product with a vector of as many components as there are columns. Only what has two axes has
a product. -/
def mulVec (g : GivenMatrix α) (v : Array α) : Except (Fault α) (Array α) :=
  if v.size ≠ g.cols then .error .lengthsDiffer
  else
    match g with
    | flat _ => .error .lengthsDiffer
    | box _ => .error .lengthsDiffer
    | dense d => .ok <| Array.ofFn (n := d.rows) fun i => Vector.dot (d.values.getD i #[]) v
    | coordinates r _ es => .ok (Sparse.product es v r)

end GivenMatrix

variable {α : Type} [Scalar α]

/-- The entries of `(G + Gᵀ) / 2` for entries of a square matrix; sums that vanish are left out. -/
def symmetricEntries (n : Nat) (entries : List (Entry α)) : List (Entry α) :=
  let value := GivenMatrix.positionSum entries
  (GivenMatrix.merged n (entries ++ entries.map Entry.transpose)).filterMap fun e =>
    if value e.row e.col + value e.col e.row == 0 then none
    else some ⟨e.row, e.col, mean (value e.row e.col) (value e.col e.row)⟩

/-- The mean of a table and its transpose. A single row and a single column combine to a square;
other tables have to be square. -/
def symmetricTable (d : Dense α) : Except (Fault α) (Dense α) :=
  if d.rows = d.cols then .ok (.ofFn d.rows d.cols fun i j => mean (d.get i j) (d.get j i))
  else if d.rows = 1 then .ok (.ofFn d.cols d.cols fun i j => mean (d.get 0 j) (d.get 0 i))
  else if d.cols = 1 then .ok (.ofFn d.rows d.rows fun i j => mean (d.get i 0) (d.get j 0))
  else .error .lengthsDiffer

/-- The mean of a vector with itself. -/
def symmetricVector (v : Array α) : Array α := v.map fun a => mean a a

/-- The symmetric part of a given matrix, in the form it was given in. -/
def symmetricPart : GivenMatrix α → Except (Fault α) (GivenMatrix α)
  | .dense d => (symmetricTable d).map .dense
  | .flat v => .ok (.flat (symmetricVector v))
  | .coordinates r c es =>
    if r = c then .ok (.coordinates r c (symmetricEntries r (GivenMatrix.merged r es)))
    else .error .lengthsDiffer
  | .box b => b.symmetric.map .box

end CentralPath
