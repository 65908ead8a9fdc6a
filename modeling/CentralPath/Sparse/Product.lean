/-
  Products with a vector. Every component of the result is a sum over the stored entries in storage
  order, so products need no compression first.
-/
import CentralPath.Sparse.Basic
import CentralPath.Vector

namespace CentralPath.Sparse

variable {α : Type} [Scalar α]

/-- The components of a vector by integer index, zero outside. -/
def component (v : Array α) (i : Int) : α := if 0 ≤ i then v.getD i.toNat 0 else 0

/-- Component `i` of the product of entries with a vector. -/
def productAt (entries : List (Entry α)) (v : Array α) (i : Int) : α :=
  entries.foldl (fun sum e => if e.row = i then sum + e.value * component v e.col else sum) 0

/-- The product of entries with a vector, `n` components long. -/
def product (entries : List (Entry α)) (v : Array α) (n : Nat) : Array α :=
  Array.ofFn (n := n) fun i => productAt entries v i

/-- Entries for a vector of a given length, where a negative column counts from the end; none if one
of them has no place there. -/
def placedColumns? (length : Nat) (entries : List (Entry α)) : Option (List (Entry α)) :=
  entries.mapM fun e => (placeIn? length e.col).map fun (k : Nat) => ⟨e.row, k, e.value⟩

/-- Number of components that the rows of entries reach, `n` at least. -/
def reach (entries : List (Entry α)) (n : Nat) : Nat :=
  entries.foldl (fun most e => max most (e.row + 1).toNat) n

/-- The product with a vector of entries some of which lie outside the shape. A negative column
counts from the end, a row behind the last makes the product longer. -/
def strayProduct (entries : List (Entry α)) (v : Array α) (n : Nat) :
    Except (Fault α) (Array α) :=
  match placedColumns? v.size entries with
  | none => .error .entryOutside
  | some placed =>
    if placed.any fun e => decide (e.row < 0) then .error .entryUnfit
    else .ok (product placed v (reach placed n))

/-- Exchanges row and column of every entry if asked to. -/
def oriented (transposed : Bool) (entries : List (Entry α)) : List (Entry α) :=
  if transposed then entries.map Entry.transpose else entries

/-- A half-open range of indices. -/
structure Span where
  low : Int
  high : Int
  deriving Repr, DecidableEq

namespace Span

/-- Whether an index lies in the range. -/
def contains (s : Span) (i : Int) : Bool := s.low ≤ i && i < s.high

/-- Number of indices; negative when the ends are the wrong way round. -/
def length (s : Span) : Int := s.high - s.low

end Span

namespace Matrix

/-- The product of entries with a vector, where some of them may lie outside the shape. -/
def mulEntries (m : Matrix α) (entries : List (Entry α)) (v : Array α) (transposed : Bool) :
    Except (Fault α) (Array α) :=
  let outer := if transposed then m.cols else m.rows
  if m.holds entries then .ok (product (oriented transposed entries) v outer)
  else strayProduct (oriented transposed entries) v outer

/-- The product of the matrix, or its transpose, with a vector. -/
def mulVec (m : Matrix α) (v : Array α) (transposed : Bool) : Except (Fault α) (Array α) := do
  let inner := if transposed then m.rows else m.cols
  if v.size ≠ inner then throw (.vectorUnfit v.size m.rows m.cols)
  m.mulEntries (← m.storedEntries) v transposed

/-- The entries of a block, counted from its corner. -/
def blockOf (entries : List (Entry α)) (rowSpan colSpan : Span) : List (Entry α) :=
  (entries.filter fun e => rowSpan.contains e.row && colSpan.contains e.col).map fun e =>
    ⟨e.row - rowSpan.low, e.col - colSpan.low, e.value⟩

/-- The product of a block of the matrix, or of its transpose, with a vector. The block may reach
outside the shape, where the matrix is zero. -/
def mulBlock (m : Matrix α) (v : Array α) (rowSpan colSpan : Span) (transposed : Bool) :
    Except (Fault α) (Array α) := do
  let (inner, outer) := if transposed then (rowSpan.length, colSpan.length)
    else (colSpan.length, rowSpan.length)
  if (v.size : Int) ≠ inner then
    throw (.blockVectorUnfit v.size rowSpan.low rowSpan.high colSpan.low colSpan.high)
  let block := blockOf (← m.storedEntries) rowSpan colSpan
  if outer < 0 then throw .negativeLength
  pure (product (oriented transposed block) v outer.toNat)

end Matrix

end CentralPath.Sparse
