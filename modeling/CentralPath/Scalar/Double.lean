/-
  Double precision as a scalar. Every operation is the hardware one, so a program run at `Float`
  rounds exactly where it is written to round.
-/
import CentralPath.Scalar
import CentralPath.Binary.Double

namespace CentralPath

instance : Scalar Float where
  zero := 0.0
  one := 1.0
  natCast := Float.ofNat
  add := Float.add
  sub := Float.sub
  mul := Float.mul
  div := Float.div
  neg := Float.neg
  beq := Float.beq
  lt := fun a b => a < b
  le := fun a b => a ≤ b
  abs := Float.abs
  decLt := inferInstanceAs (DecidableLT Float)
  decLe := inferInstanceAs (DecidableLE Float)

instance : Elementary Float where
  sqrt := Float.sqrt
  exp := Float.exp
  truncate := fun x => (Binary.decode x).truncate?

end CentralPath
