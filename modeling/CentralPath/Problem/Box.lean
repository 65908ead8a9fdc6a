/-
  Arrays of numbers with any number of axes. The numbers lie in order, the last axis running
  fastest. An axis of length one stretches to any length, so that an array and the one with its axes
  reversed can be averaged whenever their lengths agree axis by axis.
-/
import CentralPath.Fault
import CentralPath.Scalar

namespace CentralPath

/-- An array with the lengths of its axes. -/
structure Box (α : Type) where
  shape : List Nat
  numbers : Array α

/-- Half the sum of two values. -/
def mean {α : Type} [Scalar α] (a b : α) : α := Scalar.ratio 1 2 * (a + b)

namespace Box

/-- The place of an index in order. An axis of length one takes every index. -/
def place (shape index : List Nat) : Nat :=
  (shape.zip index).foldl (fun k (d, i) => k * d + (if d = 1 then 0 else i)) 0

/-- All indices of a shape in order. -/
def indices : List Nat → List (List Nat)
  | [] => [[]]
  | d :: ds => (List.range d).flatMap fun i => (indices ds).map (i :: ·)

/-- The common length of two axes, where one of them is as long as the other or stretches. -/
def commonLength? (a b : Nat) : Option Nat :=
  if a = b then some a else if a = 1 then some b else if b = 1 then some a else none

/-- The common shape of two shapes with as many axes. -/
def commonShape? (s t : List Nat) : Option (List Nat) :=
  (s.zip t).mapM fun (a, b) => commonLength? a b

theorem commonLength?_self (a : Nat) : commonLength? a a = some a := by simp [commonLength?]

theorem length_of_mem_indices {shape index : List Nat} (h : index ∈ indices shape) :
    index.length = shape.length := by
  induction shape generalizing index with
  | nil => simp_all [indices]
  | cons d ds ih =>
    simp only [indices, List.mem_flatMap, List.mem_map] at h
    obtain ⟨_, _, rest, hrest, rfl⟩ := h
    simp [ih hrest]

variable {α : Type} [Scalar α]

/-- The number at an index. -/
def get (b : Box α) (index : List Nat) : α := b.numbers.getD (place b.shape index) 0

/-- The mean of an array and the one with its axes reversed. -/
def symmetric (b : Box α) : Except (Fault α) (Box α) :=
  match commonShape? b.shape b.shape.reverse with
  | none => .error .lengthsDiffer
  | some common =>
    .ok ⟨common, ((indices common).map fun i => mean (b.get i) (b.get i.reverse)).toArray⟩

end Box

end CentralPath
