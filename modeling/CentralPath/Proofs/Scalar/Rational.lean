/-
  Rational arithmetic, where programs over an ordered field can be run. The root is exact on squares
  and the exponential is a rational stand-in that is one at zero, increasing and positive.
-/
import CentralPath.Proofs.Scalar.OrderedField

namespace CentralPath

instance : ElementaryFunctions ℚ where
  sqrt a := Nat.sqrt a.num.toNat / Nat.sqrt a.den
  exp a := if a ≤ 0 then 1 / (1 - a) else 1 + a
  truncate a := some (if 0 ≤ a then ⌊a⌋ else ⌈a⌉)

/-- The stand-in is between zero and one at negative numbers. -/
theorem exp_neg_mem_Ioo (t : ℚ) (ht : 0 < t) : ElementaryFunctions.exp (-t) ∈ Set.Ioo (0 : ℚ) 1 := by
  have hexp : ElementaryFunctions.exp (-t) = 1 / (1 + t) := by
    show (if -t ≤ 0 then 1 / (1 - -t) else 1 + -t) = 1 / (1 + t)
    rw [if_pos (neg_nonpos.mpr ht.le), sub_neg_eq_add]
  rw [hexp]
  exact ⟨by positivity, (div_lt_one (by linarith)).mpr (by linarith)⟩

end CentralPath
