/-
  Splitting a buffer among windows: evenly for a fresh matrix, by given sizes otherwise. Window `w`
  is the half-open range from offset `w` to offset `w + 1`.
-/
import CentralPath.Binary.Rounding

namespace CentralPath.Sparse

open Binary (Significand)

/-- Offset `i` of an even split: the integer part of `i` times the share of one window, both
rounded to 53 bits, and never beyond the total. -/
def evenOffset (windows total i : Nat) : Nat :=
  if i = windows then total
  else min total ((Significand.ofRatio total windows).scale i).floor

/-- Offsets of `windows` windows that share `total` slots evenly; the last offset is the total. -/
def evenOffsets (windows total : Nat) : Array Int :=
  if windows = 0 then #[0]
  else Array.ofFn (n := windows + 1) fun i => (evenOffset windows total i : Int)

/-- The sum of a list of sizes. -/
def totalOf (sizes : List Nat) : Nat := sizes.foldr (· + ·) 0

/-- Running totals of a list of sizes, starting from a first offset. -/
def runningOffsets (first : Nat) : List Nat → List Nat
  | [] => [first]
  | k :: ks => first :: runningOffsets (first + k) ks

/-- Offsets of windows of the given sizes. -/
def offsetsOf (sizes : List Nat) : Array Int :=
  ((runningOffsets 0 sizes).map fun (k : Nat) => (k : Int)).toArray

theorem length_runningOffsets (first : Nat) (sizes : List Nat) :
    (runningOffsets first sizes).length = sizes.length + 1 := by
  induction sizes generalizing first with
  | nil => rfl
  | cons k ks ih => simp [runningOffsets, ih]

@[simp] theorem size_offsetsOf (sizes : List Nat) : (offsetsOf sizes).size = sizes.length + 1 := by
  simp [offsetsOf, length_runningOffsets]

end CentralPath.Sparse
