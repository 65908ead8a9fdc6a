/-
  Vectors as arrays of scalars. Componentwise operations are total and stop at the shorter operand;
  `zip?` refuses lengths that do not belong together, where a single component stands for a
  constant vector. Sums run from zero in order.
-/
import CentralPath.Scalar
import CentralPath.Fault
import CentralPath.Sparse.Slice

namespace CentralPath.Vector

variable {α : Type} [Scalar α]

/-- Componentwise sum. -/
def add (a b : Array α) : Array α := a.zipWith (· + ·) b

/-- Componentwise difference. -/
def sub (a b : Array α) : Array α := a.zipWith (· - ·) b

/-- Componentwise product. -/
def mul (a b : Array α) : Array α := a.zipWith (· * ·) b

/-- Componentwise quotient. -/
def div (a b : Array α) : Array α := a.zipWith (· / ·) b

/-- Componentwise negation. -/
def neg (a : Array α) : Array α := a.map (- ·)

/-- Every component times a factor. -/
def scale (k : α) (a : Array α) : Array α := a.map (k * ·)

/-- The vector of zeros. -/
def zeros (n : Nat) : Array α := Array.replicate n 0

/-- The vector of ones. -/
def ones (n : Nat) : Array α := Array.replicate n 1

/-- The sum of the products of components. -/
def dot (a b : Array α) : α := (mul a b).foldl (· + ·) 0

/-- Whether all components are finite. -/
def isFinite (a : Array α) : Bool := a.all Scalar.isFinite

/-- Combines two vectors componentwise. Their lengths agree, or one of them has a single component
that is used throughout. -/
def zip? (f : α → α → α) (a b : Array α) : Except (Fault α) (Array α) :=
  if a.size = b.size then .ok (a.zipWith f b)
  else if a.size = 1 then .ok (b.map (f (a[0]?.getD 0) ·))
  else if b.size = 1 then .ok (a.map (f · (b[0]?.getD 0)))
  else .error .lengthsDiffer

/-- Writes a vector over one of a given length. A single component fills all of it. -/
def fill? (length : Nat) (a : Array α) : Except (Fault α) (Array α) :=
  if a.size = length then .ok a
  else if a.size = 1 then .ok (Array.replicate length (a[0]?.getD 0))
  else .error .lengthsDiffer

/-- Adds a vector to one that keeps its length. A single component is added to all of them. -/
def addTo? (a d : Array α) : Except (Fault α) (Array α) := (fill? a.size d).map (add a)

/-- Every component replaced by the same one. -/
def constant (k : α) (a : Array α) : Array α := a.map fun _ => k

/-- The components between two ends. A negative end counts from the end of the vector. -/
def range (a : Array α) (low high : Int) : Array α := (Sparse.slice a.toList low high).toArray

theorem zip?_of_size_eq {f : α → α → α} {a b : Array α} (h : a.size = b.size) :
    zip? f a b = .ok (a.zipWith f b) := by simp [zip?, h]

theorem fill?_of_size_eq {length : Nat} {a : Array α} (h : a.size = length) :
    fill? length a = .ok a := by simp [fill?, h]

theorem addTo?_of_size_eq {a d : Array α} (h : d.size = a.size) :
    addTo? a d = .ok (add a d) := by simp [addTo?, fill?_of_size_eq h, Except.map]

end CentralPath.Vector

namespace CentralPath.Vector

variable {α : Type} [Elementary α]

/-- Euclidean norm. -/
def norm (a : Array α) : α := Elementary.sqrt (dot a a)

/-- A dimension as a scalar. -/
def dimension (dim : Int) : α := if 0 ≤ dim then (dim.toNat : α) else -((-dim).toNat : α)

/-- Euclidean norm over a dimension, zero in dimension zero. -/
def normOver (a : Array α) (dim : Int) : α := if dim = 0 then 0 else norm a / dimension dim

/-- Euclidean norm over a dimension, unless there is no scalar for so large a dimension. -/
def normOver? (a : Array α) (dim : Int) : Except (Fault α) α :=
  if Scalar.isFinite (dimension dim : α) then .ok (normOver a dim) else .error .overflow

end CentralPath.Vector
