/-
  Dense tables and the compressed view. `toDense` writes a matrix out in full, `ofDense` stores the
  nonzeros of a table, `compressedView` lists each window's distinct positions in order without
  touching the matrix.
-/
import CentralPath.Sparse.Arithmetic
import CentralPath.Sparse.Canonical

namespace CentralPath.Sparse

/-- A dense table of values. -/
structure Dense (α : Type) where
  rows : Nat
  cols : Nat
  values : Array (Array α)
  deriving Repr

namespace Dense

variable {α : Type} [Scalar α]

/-- The value at a position; zero outside. -/
def get (d : Dense α) (i j : Nat) : α := (d.values.getD i #[]).getD j 0

/-- The table with a given value at every position. -/
def ofFn (rows cols : Nat) (f : Nat → Nat → α) : Dense α :=
  ⟨rows, cols, Array.ofFn (n := rows) fun i => Array.ofFn (n := cols) fun j => f i j⟩

/-- The table of zeros. -/
def zeros (rows cols : Nat) : Dense α := ofFn rows cols fun _ _ => 0

/-- The table of entries. Values of one position add up. -/
def ofEntries (rows cols : Nat) (entries : List (Entry α)) : Dense α :=
  ofFn rows cols fun i j => entrySum entries i j

/-- The nonzeros, row by row. -/
def entries (d : Dense α) : List (Entry α) :=
  (List.range d.rows).flatMap fun (i : Nat) =>
    ((List.range d.cols).map fun (j : Nat) => (⟨i, j, d.get i j⟩ : Entry α)).filter fun e =>
      !(e.value == 0)

/-- The table with rows and columns exchanged. -/
def transpose (d : Dense α) : Dense α := ofFn d.cols d.rows fun i j => d.get j i

end Dense

/-- Three arrays in compressed form: window offsets, indices and values. -/
structure CompressedView (α : Type) where
  offsets : List Int
  indices : List Int
  values : List α
  deriving Repr

namespace Matrix

variable {α : Type} [Scalar α]

/-- Entries with negative indices counted from the end; none if one of them has no place. -/
def placedEntries? (m : Matrix α) (entries : List (Entry α)) : Option (List (Entry α)) :=
  entries.mapM fun e => do
    let i ← placeIn? m.rows e.row
    let j ← placeIn? m.cols e.col
    pure ⟨i, j, e.value⟩

/-- Entries of the matrix as a dense table. Values of one position add up. -/
def tableOf (m : Matrix α) (entries : List (Entry α)) : Dense α :=
  .ofEntries m.rows m.cols entries

/-- The matrix as a dense table. Where storage is damaged, a negative index counts from the
end. -/
def toDense (m : Matrix α) : Except (Fault α) (Dense α) := do
  let entries ← m.storedEntries
  if m.holds entries then pure (m.tableOf entries)
  else
    match m.placedEntries? entries with
    | some placed => pure (m.tableOf placed)
    | none => throw .entryOutside

/-- The entries of a table in storage order of an orientation. -/
def storageOrder (d : Dense α) : Orientation → List (Entry α)
  | .byRows => d.entries
  | .byColumns => d.transpose.entries.map Entry.transpose

/-- The writes that store entries. -/
def storing (entries : List (Entry α)) : List (Write α) :=
  entries.map fun e => ⟨e.row, e.col, e.value, true⟩

/-- A compressed matrix that holds the nonzeros of a table. -/
def ofDense (d : Dense α) (orientation : Orientation) : Matrix α :=
  let entries := storageOrder d orientation
  let fresh : Matrix α := empty d.rows d.cols orientation entries.length
  (fresh.writeAll (storing entries)).2.compress.1

/-- The index that selects the window of an entry. -/
def leadingIndex (m : Matrix α) (e : Entry α) : Int :=
  match m.orientation with
  | .byRows => e.row
  | .byColumns => e.col

/-- The index of an entry inside its window. -/
def trailingIndex (m : Matrix α) (e : Entry α) : Int :=
  match m.orientation with
  | .byRows => e.col
  | .byColumns => e.row

/-- The sum of the values that entries give to an inner index; a single value stays as it is. -/
def viewValue (m : Matrix α) (entries : List (Entry α)) (t : Int) : α :=
  match entries.filter (m.trailingIndex · == t) with
  | [] => 0
  | e :: rest => rest.foldl (fun sum r => sum + r.value) e.value

/-- Each window's distinct live positions in order. -/
def compressedView (m : Matrix α) : Except (Fault α) (CompressedView α) := do
  let entries ← m.convertibleEntries
  let windows := (List.range m.leadingDim).map fun (w : Nat) =>
    let live := entries.filter (m.leadingIndex · == (w : Int))
    (distinctSorted (live.map m.trailingIndex)).map fun t => (t, m.viewValue live t)
  pure ⟨(offsetsOf (windows.map List.length)).toList, windows.flatten.map (·.1),
    windows.flatten.map (·.2)⟩

end Matrix

end CentralPath.Sparse
