/-
  Nested lists of numbers, as tables are written down. A nested list is regular when all lists at
  one depth have the same length; its shape is then the list of those lengths.
-/
import CentralPath.Problem.Box
import CentralPath.Sparse.Dense

namespace CentralPath

/-- A number, or a list of nested lists. -/
inductive Nested (α : Type) where
  | number (a : α)
  | list (items : List (Nested α))

namespace Nested

variable {α : Type}

/-- The common value of a list, if it has one. -/
def agreed? {β : Type} [BEq β] : List β → Option β
  | [] => none
  | b :: bs => if bs.all (· == b) then some b else none

mutual

/-- The shape of a regular nesting. -/
def shape? : Nested α → Option (List Nat)
  | number _ => some []
  | list items =>
    if items.isEmpty then some [0]
    else do
      let inner ← agreed? (← shapes? items)
      pure (items.length :: inner)

/-- The shapes of all items. -/
def shapes? : List (Nested α) → Option (List (List Nat))
  | [] => some []
  | i :: is => do
    let s ← shape? i
    let rest ← shapes? is
    pure (s :: rest)

end

mutual

/-- All numbers in order. -/
def numbers : Nested α → List α
  | number a => [a]
  | list items => allNumbers items

/-- All numbers of a list of nestings. -/
def allNumbers : List (Nested α) → List α
  | [] => []
  | i :: is => numbers i ++ allNumbers is

end

/-- The largest number of axes. -/
def mostAxes : Nat := 64

/-- The shape, which irregular and all too deep nestings do not have. -/
def shape (t : Nested α) : Except (Fault α) (List Nat) :=
  match t.shape? with
  | some s => if s.length ≤ mostAxes then .ok s else .error .lengthsDiffer
  | none => .error .lengthsDiffer

/-- The numbers of a regular nesting as one vector. -/
def vector (t : Nested α) : Except (Fault α) (Array α) := do
  let _ ← t.shape
  pure t.numbers.toArray

variable [Scalar α]

/-- The table of `rows` times `cols` numbers in order. -/
def tableOf (rows cols : Nat) (numbers : Array α) : Sparse.Dense α :=
  .ofFn rows cols fun i j => numbers.getD (i * cols + j) 0

/-- A nesting of depth two as a table. -/
def table (t : Nested α) : Except (Fault α) (Sparse.Dense α) := do
  match ← t.shape with
  | [rows, cols] => pure (tableOf rows cols t.numbers.toArray)
  | shape => throw (.notTwoDimensional shape)

/-- A nesting as an array with as many axes as it is deep. -/
def box (t : Nested α) : Except (Fault α) (Box α) := do
  pure ⟨← t.shape, t.numbers.toArray⟩

/-- The first numbers of a list as a nesting of a given shape. A missing number is zero. -/
def ofShape : List Nat → List α → Nested α
  | [], ns => .number (ns.headD 0)
  | d :: ds, ns =>
    let width := ds.foldl (· * ·) 1
    .list <| (List.range d).map fun i => ofShape ds (ns.drop (i * width))

end Nested

/-- An array as a nesting. -/
def Box.nested {α : Type} [Scalar α] (b : Box α) : Nested α :=
  .ofShape b.shape b.numbers.toList

end CentralPath
