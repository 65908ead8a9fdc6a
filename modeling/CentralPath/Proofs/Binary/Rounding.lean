/-
  Rounding to 53 leading bits is monotone. A fraction between `2 ^ t` and `2 ^ (t + 1)` rounds to a
  number in the same closed range (`ofRatio_bounds`), so rounding keeps the order of two fractions
  also where they lie in different binades (`value_ofRatio_mono`). It follows that the integer parts
  of the rounded multiples of one number never decrease (`floor_scale_mono`).
-/
import CentralPath.Binary.Rounding
import Mathlib

namespace CentralPath.Binary

/-! ## Division to the nearest integer -/

theorem roundDiv_bounds (num den : Nat) :
    num / den ≤ roundDiv num den ∧ roundDiv num den ≤ num / den + 1 := by
  simp only [roundDiv]
  split_ifs <;> omega

theorem roundDiv_mono {a b den : Nat} (h : a ≤ b) : roundDiv a den ≤ roundDiv b den := by
  have hfloor : a / den ≤ b / den := Nat.div_le_div_right h
  rcases Nat.lt_or_eq_of_le hfloor with hlt | heq
  · have ha := (roundDiv_bounds a den).2
    have hb := (roundDiv_bounds b den).1
    omega
  · have hrest : a % den ≤ b % den := by
      have ha := Nat.div_add_mod a den
      have hb := Nat.div_add_mod b den
      rw [heq] at ha
      omega
    simp only [roundDiv, heq]
    split_ifs <;> omega

theorem le_roundDiv {k num den : Nat} (hd : 0 < den) (h : k * den ≤ num) : k ≤ roundDiv num den :=
  Nat.le_trans ((Nat.le_div_iff_mul_le hd).mpr h) (roundDiv_bounds num den).1

theorem roundDiv_le {k num den : Nat} (hd : 0 < den) (h : num ≤ k * den) :
    roundDiv num den ≤ k := by
  have hle : num / den ≤ k := Nat.div_le_of_le_mul (by rwa [Nat.mul_comm])
  rcases Nat.lt_or_eq_of_le hle with hlt | rfl
  · exact Nat.le_trans (roundDiv_bounds num den).2 hlt
  · -- the quotient is exact, so nothing is rounded
    have hrest : num % den = 0 := by
      have := Nat.div_add_mod num den
      rw [Nat.mul_comm] at this
      omega
    simp only [roundDiv, hrest]
    rw [if_pos (by omega)]

/-! ## Powers of two with integer exponents -/

theorem two_zpow_eq_div (e : Int) : (2 : ℚ) ^ e = (2 ^ e.toNat : ℚ) / 2 ^ (-e).toNat := by
  rcases Int.le_total 0 e with h | h
  · obtain ⟨k, rfl⟩ := Int.eq_ofNat_of_zero_le h
    simp
  · obtain ⟨k, hk⟩ := Int.eq_ofNat_of_zero_le (show 0 ≤ -e by omega)
    obtain rfl : e = -(k : Int) := by omega
    simp

/-- A comparison with a multiple of `2 ^ e`, cleared of denominators. -/
theorem mul_zpow_le_div_iff {k num den : Nat} (hd : 0 < den) (e : Int) :
    (k : ℚ) * 2 ^ e ≤ (num : ℚ) / den ↔ k * (den * 2 ^ e.toNat) ≤ num * 2 ^ (-e).toNat := by
  have hdq : (0 : ℚ) < den := by exact_mod_cast hd
  rw [two_zpow_eq_div, mul_div_assoc', div_le_div_iff₀ (by positivity) hdq,
    show (k : ℚ) * 2 ^ e.toNat * den = k * (den * 2 ^ e.toNat) by ring]
  exact_mod_cast Iff.rfl

theorem div_le_mul_zpow_iff {k num den : Nat} (hd : 0 < den) (e : Int) :
    (num : ℚ) / den ≤ k * 2 ^ e ↔ num * 2 ^ (-e).toNat ≤ k * (den * 2 ^ e.toNat) := by
  have hdq : (0 : ℚ) < den := by exact_mod_cast hd
  rw [two_zpow_eq_div, mul_div_assoc', div_le_div_iff₀ hdq (by positivity),
    show (k : ℚ) * 2 ^ e.toNat * den = k * (den * 2 ^ e.toNat) by ring]
  exact_mod_cast Iff.rfl

theorem reaches_iff {num den : Nat} (hd : 0 < den) (k : Int) :
    reaches num den k = true ↔ (2 : ℚ) ^ k ≤ (num : ℚ) / den := by
  have h : ((1 : Nat) : ℚ) * 2 ^ k ≤ (num : ℚ) / den ↔ _ := mul_zpow_le_div_iff hd k
  rw [Nat.cast_one, one_mul, Nat.one_mul] at h
  rw [h, reaches, decide_eq_true_eq]
  rfl

theorem le_roundAt {k num den : Nat} (hd : 0 < den) {e : Int}
    (h : (k : ℚ) * 2 ^ e ≤ (num : ℚ) / den) : k ≤ roundAt num den e :=
  le_roundDiv (Nat.mul_pos hd (Nat.pow_pos (by decide))) ((mul_zpow_le_div_iff hd e).mp h)

theorem roundAt_le {k num den : Nat} (hd : 0 < den) {e : Int}
    (h : (num : ℚ) / den ≤ k * 2 ^ e) : roundAt num den e ≤ k :=
  roundDiv_le (Nat.mul_pos hd (Nat.pow_pos (by decide))) ((div_le_mul_zpow_iff hd e).mp h)

/-! ## Significands -/

namespace Significand

/-- The number that a significand stands for. -/
def value (s : Significand) : ℚ := s.mantissa * 2 ^ s.exponent

theorem floor_eq (s : Significand) : s.floor = ⌊s.value⌋₊ := by
  rw [value, two_zpow_eq_div, mul_div_assoc']
  have h := Nat.floor_div_eq_div (K := ℚ) (s.mantissa * 2 ^ s.exponent.toNat)
    (2 ^ (-s.exponent).toNat)
  push_cast at h
  rw [h]
  rfl

/-- The exponent of the leading bit of a positive fraction. -/
theorem ofRatio_eq {num den : Nat} (hn : 0 < num) (hd : 0 < den) :
    ∃ t : Int, (2 : ℚ) ^ t ≤ (num : ℚ) / den ∧ (num : ℚ) / den < 2 ^ (t + 1) ∧
      ofRatio num den = ⟨roundAt num den (t - 52), t - 52⟩ := by
  have hdq : (0 : ℚ) < den := by exact_mod_cast hd
  have hn2 : (2 : ℚ) ^ (Nat.log2 num : Int) ≤ num := by
    rw [zpow_natCast]
    exact_mod_cast Nat.log2_self_le (by omega)
  have hn2' : (num : ℚ) < 2 ^ ((Nat.log2 num : Int) + 1) := by
    rw [show ((Nat.log2 num : Int) + 1) = ((Nat.log2 num + 1 : Nat) : Int) by simp, zpow_natCast]
    exact_mod_cast Nat.lt_log2_self (n := num)
  have hd2 : (2 : ℚ) ^ (Nat.log2 den : Int) ≤ den := by
    rw [zpow_natCast]
    exact_mod_cast Nat.log2_self_le (by omega)
  have hd2' : (den : ℚ) < 2 ^ ((Nat.log2 den : Int) + 1) := by
    rw [show ((Nat.log2 den : Int) + 1) = ((Nat.log2 den + 1 : Nat) : Int) by simp, zpow_natCast]
    exact_mod_cast Nat.lt_log2_self (n := den)
  have hbelow : (2 : ℚ) ^ ((Nat.log2 num : Int) - Nat.log2 den - 1) ≤ num / den := by
    rw [le_div_iff₀ hdq]
    calc (2 : ℚ) ^ ((Nat.log2 num : Int) - Nat.log2 den - 1) * den
        ≤ 2 ^ ((Nat.log2 num : Int) - Nat.log2 den - 1) * 2 ^ ((Nat.log2 den : Int) + 1) := by
          gcongr
      _ = 2 ^ (Nat.log2 num : Int) := by
          rw [← zpow_add₀ (by norm_num)]
          congr 1
          omega
      _ ≤ num := hn2
  have habove : (num : ℚ) / den < 2 ^ ((Nat.log2 num : Int) - Nat.log2 den + 1) := by
    rw [div_lt_iff₀ hdq]
    calc (num : ℚ) < 2 ^ ((Nat.log2 num : Int) + 1) := hn2'
      _ = 2 ^ ((Nat.log2 num : Int) - Nat.log2 den + 1) * 2 ^ (Nat.log2 den : Int) := by
          rw [← zpow_add₀ (by norm_num)]
          congr 1
          omega
      _ ≤ 2 ^ ((Nat.log2 num : Int) - Nat.log2 den + 1) * den := by gcongr
  have hr : reaches num den ((Nat.log2 num : Int) - Nat.log2 den) = true ↔ _ := reaches_iff hd _
  by_cases hg : reaches num den ((Nat.log2 num : Int) - Nat.log2 den) = true
  · refine ⟨_, hr.mp hg, habove, ?_⟩
    simp only [ofRatio, if_neg (show num ≠ 0 by omega), hg, if_true, precision]
    norm_num
  · refine ⟨_, hbelow, ?_, ?_⟩
    · rw [sub_add_cancel]
      exact lt_of_not_ge fun h => hg (hr.mpr h)
    · simp only [ofRatio, if_neg (show num ≠ 0 by omega), hg, precision]
      norm_num

/-- Rounding stays inside the binade of the fraction, its upper end included. -/
theorem ofRatio_bounds {num den : Nat} {t : Int} (hd : 0 < den)
    (hlow : (2 : ℚ) ^ t ≤ (num : ℚ) / den) (hhigh : (num : ℚ) / den < 2 ^ (t + 1)) :
    (2 : ℚ) ^ t ≤ value ⟨roundAt num den (t - 52), t - 52⟩ ∧
      value ⟨roundAt num den (t - 52), t - 52⟩ ≤ 2 ^ (t + 1) := by
  have hscale : ∀ k : Nat, ((2 ^ k : Nat) : ℚ) * 2 ^ (t - 52) = 2 ^ (t + k - 52) := by
    intro k
    rw [Nat.cast_pow, Nat.cast_ofNat, ← zpow_natCast, ← zpow_add₀ (by norm_num)]
    congr 1
    omega
  have h52 : ((2 ^ 52 : Nat) : ℚ) * 2 ^ (t - 52) = 2 ^ t := by
    rw [hscale]
    congr 1
    norm_num
  have h53 : ((2 ^ 53 : Nat) : ℚ) * 2 ^ (t - 52) = 2 ^ (t + 1) := by
    rw [hscale]
    congr 1
    push_cast
    ring
  have hlo : 2 ^ 52 ≤ roundAt num den (t - 52) := le_roundAt hd (by rw [h52]; exact hlow)
  have hhi : roundAt num den (t - 52) ≤ 2 ^ 53 := roundAt_le hd (by rw [h53]; exact hhigh.le)
  constructor
  · rw [← h52, value]
    gcongr
  · rw [← h53, value]
    gcongr

/-- Rounding keeps the order of fractions with one denominator. -/
theorem value_ofRatio_mono {a b den : Nat} (hd : 0 < den) (h : a ≤ b) :
    (ofRatio a den).value ≤ (ofRatio b den).value := by
  rcases Nat.eq_zero_or_pos a with rfl | ha
  · have hz : (ofRatio 0 den).value = 0 := by simp [ofRatio, value]
    rw [hz, value]
    positivity
  · obtain ⟨s, hslow, hshigh, hs⟩ := ofRatio_eq ha hd
    obtain ⟨t, htlow, hthigh, ht⟩ := ofRatio_eq (Nat.lt_of_lt_of_le ha h) hd
    have hab : (a : ℚ) / den ≤ b / den := by gcongr
    have hst : s < t + 1 := by
      rw [← zpow_lt_zpow_iff_right₀ (a := (2 : ℚ)) (by norm_num)]
      exact lt_of_le_of_lt hslow (lt_of_le_of_lt hab hthigh)
    rw [hs, ht]
    rcases Int.lt_or_eq_of_le (Int.lt_add_one_iff.mp hst) with hlt | rfl
    · calc value ⟨roundAt a den (s - 52), s - 52⟩ ≤ 2 ^ (s + 1) := (ofRatio_bounds hd hslow hshigh).2
        _ ≤ 2 ^ t := by
          apply zpow_le_zpow_right₀ (by norm_num)
          omega
        _ ≤ value ⟨roundAt b den (t - 52), t - 52⟩ := (ofRatio_bounds hd htlow hthigh).1
    · -- one binade: both are rounded at the same place
      have hround : roundAt a den (s - 52) ≤ roundAt b den (s - 52) :=
        roundDiv_mono (Nat.mul_le_mul_right _ h)
      simp only [value]
      gcongr

/-- The integer parts of rounded multiples do not decrease. -/
theorem floor_scale_mono (s : Significand) {i j : Nat} (h : i ≤ j) :
    (s.scale i).floor ≤ (s.scale j).floor := by
  rw [floor_eq, floor_eq]
  apply Nat.floor_le_floor
  apply value_ofRatio_mono (Nat.pow_pos (by decide))
  gcongr

theorem floor_scale_zero (s : Significand) : (s.scale 0).floor = 0 := by
  simp [scale, ofRatio, floor]

end Significand

end CentralPath.Binary
