/-
  The interior in exact arithmetic. A step stops short of the boundary: by the ratio test no
  component of a positive vector reaches zero (`pos_add_scale`). With a step fraction below one,
  slacks and multipliers stay positive (`Solver.Steps.interior`).
-/
import CentralPath.Proofs.InteriorPoint.Iterates

open CentralPath.Vector (coord)

namespace CentralPath.InteriorPoint

open Newton.System (Direction)
open Problem (Data)

variable {K : Type} [Field K] [LinearOrder K]

/-! ## The ratio test -/

theorem lesser_eq_min (a b : K) : lesser a b = min a b := by
  have hnan : Scalar.isNan b = false := by
    rw [Scalar.isNan, Scalar.beq_iff.mpr rfl]
    rfl
  unfold lesser
  rw [hnan]
  by_cases h : b < a
  · rw [if_pos (.inl h), min_eq_right h.le]
  · rw [if_neg (by simpa using h), min_eq_left (not_lt.mp h)]

/-- The minimum of a list is its minimum in the order of the field. -/
theorem least?_eq_min? (l : List K) : least? l = l.min? := by
  cases l with
  | nil => rfl
  | cons a as =>
    rw [List.min?_cons', least?]
    congr 2
    funext b c
    exact lesser_eq_min b c

/-- It is below all of it. -/
theorem least?_le {l : List K} {least : K} (h : least? l = some least) : ∀ a ∈ l, least ≤ a :=
  (List.min?_eq_some_iff.mp (least?_eq_min? l ▸ h)).2

theorem mem_ratios (eta : K) {v d : Array K} {i : Nat} (hv : i < v.size) (hd : i < d.size)
    (hneg : d[i] < 0) : ratioOf eta v[i] d[i] ∈ ratios eta v.toList d.toList := by
  unfold ratios
  refine List.mem_map.mpr ⟨(v[i], d[i]), List.mem_filter.mpr ⟨?_, decide_eq_true hneg⟩, rfl⟩
  refine List.mem_iff_getElem.mpr ⟨i, by simp [hv, hd], ?_⟩
  rw [List.getElem_zip, Array.getElem_toList, Array.getElem_toList]

theorem stepLength_nonneg (v d : Array K) (eta : K) : 0 ≤ stepLength v d eta := by
  unfold stepLength
  dsimp only
  split_ifs with h
  · exact le_refl 0
  · exact not_lt.mp h

theorem stepLengths_le {equal : Bool} {y lam dy dlam : Array K} {eta alphaP alphaD : K}
    (h : stepLengths equal y lam dy dlam eta = .ok (alphaP, alphaD)) :
    (0 ≤ alphaP ∧ alphaP ≤ stepLength y dy eta) ∧
      0 ≤ alphaD ∧ alphaD ≤ stepLength lam dlam eta := by
  have hlength : ∀ {v d : Array K} {alpha : K}, stepLength? v d eta = .ok alpha →
      alpha = stepLength v d eta := by
    intro v d alpha hok
    unfold stepLength? at hok
    split_ifs at hok
    exact (Except.ok.inj hok).symm
  unfold stepLengths at h
  obtain ⟨primal, hp, h⟩ := Newton.exists_of_bind_eq_ok h
  obtain ⟨dual, hd, h⟩ := Newton.exists_of_bind_eq_ok h
  have hp0 : 0 ≤ primal := hlength hp ▸ stepLength_nonneg y dy eta
  have hd0 : 0 ≤ dual := hlength hd ▸ stepLength_nonneg lam dlam eta
  rw [← hlength hp, ← hlength hd]
  split_ifs at h with hequal hlt
  · obtain ⟨rfl, rfl⟩ := Prod.mk.inj (Except.ok.inj h)
    exact ⟨⟨hd0, hlt.le⟩, hd0, le_refl _⟩
  · obtain ⟨rfl, rfl⟩ := Prod.mk.inj (Except.ok.inj h)
    exact ⟨⟨hp0, le_refl _⟩, hp0, not_lt.mp hlt⟩
  · obtain ⟨rfl, rfl⟩ := Prod.mk.inj (Except.ok.inj h)
    exact ⟨⟨hp0, le_refl _⟩, hd0, le_refl _⟩

variable [IsStrictOrderedRing K]

/-- No decreasing component of a positive vector is taken past its fraction of the way to zero. -/
theorem stepLength_le {eta : K} (heta : 0 ≤ eta) {v d : Array K} {i : Nat} (hv : i < v.size)
    (hd : i < d.size) (hpos : 0 < v[i]) (hneg : d[i] < 0) :
    stepLength v d eta ≤ ratioOf eta v[i] d[i] := by
  have hratio : 0 ≤ ratioOf eta v[i] d[i] :=
    div_nonneg_of_nonpos (mul_nonpos_of_nonpos_of_nonneg (neg_nonpos.mpr heta) hpos.le) hneg.le
  have hmem := mem_ratios eta hv hd hneg
  unfold stepLength
  dsimp only
  split_ifs with h
  · exact hratio
  · rcases hleast : least? (ratios eta v.toList d.toList) with _ | least
    · rcases hl : ratios eta v.toList d.toList with _ | ⟨a, as⟩
      · rw [hl] at hmem
        exact absurd hmem List.not_mem_nil
      · rw [hl] at hleast
        cases hleast
    · have hle := least?_le hleast _ hmem
      dsimp only
      split_ifs with hone
      · exact hle
      · exact (not_lt.mp hone).trans hle

/-- A step that the ratio test allows leaves a positive component the share that its fraction does
not take. -/
theorem share_le_add {eta alpha : K} (heta : 0 ≤ eta) {v d : Array K} {i : Nat} (hv : i < v.size)
    (hd : i < d.size) (hpos : 0 < v[i]) (halpha : 0 ≤ alpha) (hle : alpha ≤ stepLength v d eta) :
    (1 - eta) * v[i] ≤ v[i] + alpha * d[i] := by
  rcases le_or_gt 0 d[i] with hnonneg | hneg
  · have htaken : 0 ≤ eta * v[i] := mul_nonneg heta hpos.le
    have hadded : 0 ≤ alpha * d[i] := mul_nonneg halpha hnonneg
    linarith
  · have hratio := hle.trans (stepLength_le heta hv hd hpos hneg)
    have hback : -eta * v[i] ≤ alpha * d[i] := (le_div_iff_of_neg hneg).mp hratio
    linarith

/-- A step that the ratio test allows leaves a positive vector positive. -/
theorem pos_add_scale {eta alpha : K} (heta : 0 ≤ eta) (hone : eta < 1) {v d : Array K}
    (hsize : d.size = v.size) (hpos : ∀ a ∈ v, 0 < a) (halpha : 0 ≤ alpha)
    (hle : alpha ≤ stepLength v d eta) : ∀ a ∈ Vector.add v (Vector.scale alpha d), 0 < a := by
  intro a ha
  obtain ⟨i, hin, rfl⟩ := Array.mem_iff_getElem.mp ha
  have hi : i < v.size := by rwa [Vector.size_add, Vector.size_scale, hsize, Nat.min_self] at hin
  have hd : i < d.size := by omega
  have hvi : 0 < v[i] := hpos _ (Array.getElem_mem hi)
  have hcomponent : (Vector.add v (Vector.scale alpha d))[i] = v[i] + alpha * d[i] := by
    rw [← Vector.coord_eq_getElem hin, ← Vector.coord_eq_getElem hi, ← Vector.coord_eq_getElem hd,
      Vector.coord_add (by rw [Vector.size_scale, hsize]), Vector.coord_scale]
  rw [hcomponent]
  exact (mul_pos (sub_pos.mpr hone) hvi).trans_le (share_le_add heta hi hd hvi halpha hle)

/-! ## Staying inside -/

/-- Slacks and multipliers are positive. -/
structure Solver.Interior (s : Solver K) : Prop where
  slack : ∀ a ∈ s.y, 0 < a
  multipliers : ∀ a ∈ s.lam, 0 < a

variable {D : Data K} {s s' : Solver K}

namespace Solver.Interior

variable {m : Nat} (h : s.Interior)
include h

/-- In the interior there is a duality gap. -/
theorem dot_pos (hy : s.y.size = m) (hl : s.lam.size = m) (hm : 0 < m) :
    0 < Vector.dot s.y s.lam := by
  have hcoord : ∀ {v : Array K} {k : Nat}, (∀ a ∈ v, 0 < a) → k < v.size → 0 < coord v k := by
    intro v k hpos hk
    rw [Vector.coord_eq_getElem hk]
    exact hpos _ (Array.getElem_mem hk)
  rw [Vector.dot_eq_sum hy hl]
  refine Finset.sum_pos (fun k hk => ?_) ⟨0, Finset.mem_range.mpr hm⟩
  have hk := Finset.mem_range.mp hk
  exact mul_pos (hcoord h.slack (hy.symm ▸ hk)) (hcoord h.multipliers (hl.symm ▸ hk))

theorem dualityMeasure_pos (hy : s.y.size = D.m) (hl : s.lam.size = D.m) (hm : 0 < D.m) :
    0 < D.dualityMeasure s.y s.lam := by
  unfold Data.dualityMeasure
  rw [← Vector.dot_eq_sum hy hl]
  exact div_pos (h.dot_pos hy hl hm) (Nat.cast_pos.mpr hm)

end Solver.Interior

variable [ElementaryFunctions K]

/-- Where the exponential of a negative number is between zero and one, a step goes a part of the
way only. -/
theorem stepFraction_mem (hexp : ∀ t : K, 0 < t → ElementaryFunctions.exp (-t) ∈ Set.Ioo 0 1)
    (hmu : 0 < s.mu) (hm : 0 < s.m) : 0 ≤ stepFraction s ∧ stepFraction s < 1 := by
  have hgap : 0 < s.mu * (s.m : K) := mul_pos hmu (Nat.cast_pos.mpr hm)
  obtain ⟨hpos, hlt⟩ := Set.mem_Ioo.mp (hexp _ hgap)
  rw [← neg_mul] at hpos hlt
  unfold stepFraction
  split_ifs
  · show 0 ≤ ((9 : ℕ) : K) / ((10 : ℕ) : K) +
        ((1 : ℕ) : K) / ((10 : ℕ) : K) * ElementaryFunctions.exp (-s.mu * (s.m : K)) ∧
      ((9 : ℕ) : K) / ((10 : ℕ) : K) +
        ((1 : ℕ) : K) / ((10 : ℕ) : K) * ElementaryFunctions.exp (-s.mu * (s.m : K)) < 1
    push_cast
    constructor <;> linarith
  · show 0 ≤ ((19 : ℕ) : K) / ((20 : ℕ) : K) ∧ ((19 : ℕ) : K) / ((20 : ℕ) : K) < 1
    push_cast
    constructor <;> norm_num

/-- An iteration that starts inside ends inside. -/
theorem Solver.Steps.interior (h : s.Steps D s') (hI : s.Interior)
    (hexp : ∀ t : K, 0 < t → ElementaryFunctions.exp (-t) ∈ Set.Ioo 0 1) (hmu : 0 < s.mu)
    (hm : 0 < s.m) (hy : s.y.size = D.m) (hl : s.lam.size = D.m) : s'.Interior := by
  obtain ⟨d, alphaP, alphaD, hdy, hdl, hlengths, hy', hl'⟩ := h
  obtain ⟨heta, hone⟩ := stepFraction_mem hexp hmu hm
  obtain ⟨⟨hP0, hP⟩, hD0, hD⟩ := stepLengths_le hlengths
  constructor
  · rw [hy']
    exact pos_add_scale heta hone (hdy.trans hy.symm) hI.slack hP0 hP
  · rw [hl']
    exact pos_add_scale heta hone (hdl.trans hl.symm) hI.multipliers hD0 hD

end CentralPath.InteriorPoint
