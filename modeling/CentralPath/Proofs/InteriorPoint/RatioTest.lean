/-
  The ratio test as an optimum. A number is below the step length exactly if it is not positive, or it
  is at most one and below every ratio (`le_stepLength_iff`); everything else is read off that. For a
  vector that is not negative the step length is the greatest step up to one that leaves every
  component the share that its fraction does not take (`isGreatest_stepLength`). It does not depend on
  the order of the components, and parts of a vector are stepped by the shortest of their steps.
-/
import CentralPath.Proofs.InteriorPoint.AnyDirection

open CentralPath.Vector (coord)

namespace CentralPath.InteriorPoint

variable {K : Type} [Field K] [LinearOrder K] {eta x : K} {v d v' d' : Array K}

/-! ## Below the step length -/

theorem le_least?_iff {l : List K} {least : K} (h : least? l = some least) :
    x ≤ least ↔ ∀ a ∈ l, x ≤ a :=
  List.le_min?_iff (least?_eq_min? l ▸ h)

/-- A number is below the step length if nothing stands against it: it is not positive, or neither one
nor any ratio is below it. -/
theorem le_stepLength_iff : x ≤ stepLength v d eta ↔
    x ≤ 0 ∨ x ≤ 1 ∧ ∀ a ∈ ratios eta v.toList d.toList, x ≤ a := by
  -- the step before it is cut off at zero
  have hclamp : ∀ alpha : K, x ≤ (if alpha < 0 then 0 else alpha) ↔ x ≤ 0 ∨ x ≤ alpha := by
    intro alpha
    split_ifs with h
    · exact ⟨.inl, fun hx => hx.elim id fun hx => hx.trans h.le⟩
    · exact ⟨.inr, fun hx => hx.elim (fun hx => hx.trans (not_lt.mp h)) id⟩
  unfold stepLength
  dsimp only
  rw [hclamp]
  refine or_congr_right ?_
  rcases hleast : least? (ratios eta v.toList d.toList) with _ | least
  · have hnone : ratios eta v.toList d.toList = [] := by
      rcases hratios : ratios eta v.toList d.toList with _ | ⟨a, as⟩
      · rfl
      · rw [hratios] at hleast
        cases hleast
    rw [hnone]
    simp
  · rw [← le_least?_iff hleast]
    dsimp only
    split_ifs with hone
    · exact ⟨fun hx => ⟨hx.trans hone.le, hx⟩, And.right⟩
    · exact ⟨fun hx => ⟨hx, hx.trans (not_lt.mp hone)⟩, And.left⟩

/-- The ratios are those of the pairs of components whose direction is negative. -/
theorem forall_ratios_iff {P : K → Prop} (hsize : d.size = v.size) :
    (∀ a ∈ ratios eta v.toList d.toList, P a) ↔
      ∀ i < v.size, coord d i < 0 → P (ratioOf eta (coord v i) (coord d i)) := by
  constructor
  · intro h i hi hneg
    have hd : i < d.size := by omega
    rw [Vector.coord_eq_getElem hi, Vector.coord_eq_getElem hd] at *
    exact h _ (mem_ratios eta hi hd hneg)
  · intro h a ha
    obtain ⟨⟨a₁, a₂⟩, hpair, rfl⟩ := List.mem_map.mp ha
    obtain ⟨hzip, hneg⟩ := List.mem_filter.mp hpair
    obtain ⟨i, hi, heq⟩ := List.mem_iff_getElem.mp hzip
    rw [List.length_zip, Array.length_toList, Array.length_toList] at hi
    have hv : i < v.size := by omega
    have hd : i < d.size := by omega
    rw [List.getElem_zip, Array.getElem_toList, Array.getElem_toList] at heq
    obtain ⟨rfl, rfl⟩ := Prod.mk.inj heq
    have hratio := h i hv
    rw [Vector.coord_eq_getElem hv, Vector.coord_eq_getElem hd] at hratio
    exact hratio (of_decide_eq_true hneg)

/-- Ratios that are not below others allow a step that is not shorter. -/
theorem stepLength_mono {eta' : K} (hsize : d.size = v.size) (hsize' : v'.size = v.size)
    (h : ∀ i < v.size, coord d i < 0 →
      ratioOf eta (coord v i) (coord d i) ≤ ratioOf eta' (coord v' i) (coord d i)) :
    stepLength v d eta ≤ stepLength v' d eta' := by
  rw [le_stepLength_iff, forall_ratios_iff (hsize.trans hsize'.symm)]
  refine (le_stepLength_iff.mp le_rfl).imp_right fun ⟨hone, hall⟩ => ⟨hone, fun i hi hneg => ?_⟩
  rw [forall_ratios_iff hsize] at hall
  exact (hall i (hsize' ▸ hi) hneg).trans (h i (hsize' ▸ hi) hneg)

/-! ## The greatest step -/

/-- Along a vector of its length, a vector keeps its share if each of its components does. -/
theorem keepsShare_add_scale_iff (hsize : d.size = v.size) :
    KeepsShare eta v (Vector.add v (Vector.scale x d)) ↔
      ∀ i < v.size, (1 - eta) * coord v i ≤ coord v i + x * coord d i := by
  have hscaled : v.size = (Vector.scale x d).size := by rw [Vector.size_scale, hsize]
  have hcoord : ∀ i, coord (Vector.add v (Vector.scale x d)) i = coord v i + x * coord d i :=
    fun i => by rw [Vector.coord_add hscaled, Vector.coord_scale]
  constructor
  · intro h i hi
    exact hcoord i ▸ h.share_le i hi
  · intro h
    refine ⟨by rw [Vector.size_add, ← hscaled, Nat.min_self], fun i hi => ?_⟩
    rw [hcoord]
    exact h i hi

/-- Where the whole fraction may go, a vector keeps its share by staying non-negative. -/
theorem keepsShare_one_iff (hsize : d.size = v.size) :
    KeepsShare 1 v (Vector.add v (Vector.scale x d)) ↔
      ∀ a ∈ Vector.add v (Vector.scale x d), 0 ≤ a := by
  have hadd : (Vector.add v (Vector.scale x d)).size = v.size := by
    rw [Vector.size_add, Vector.size_scale, hsize, Nat.min_self]
  constructor
  · intro h a ha
    obtain ⟨i, hi, rfl⟩ := Array.mem_iff_getElem.mp ha
    have hshare := h.share_le i (by omega)
    rwa [sub_self, zero_mul, Vector.coord_eq_getElem hi] at hshare
  · refine fun h => ⟨hadd, fun i hi => ?_⟩
    have hi' : i < (Vector.add v (Vector.scale x d)).size := by omega
    rw [sub_self, zero_mul, Vector.coord_eq_getElem hi']
    exact h _ (Array.getElem_mem hi')

section

variable [IsStrictOrderedRing K]

/-- A ratio is above the steps that leave a component its share. -/
theorem le_ratioOf_iff {a b : K} (hneg : b < 0) :
    x ≤ ratioOf eta a b ↔ (1 - eta) * a ≤ a + x * b := by
  rw [ratioOf, le_div_iff_of_neg hneg]
  constructor <;> intro h <;> linarith

/-- The steps between zero and one that leave a non-negative vector its share are those up to the step
length. -/
theorem keepsShare_iff_le_stepLength (heta : 0 ≤ eta) (hsize : d.size = v.size)
    (hv : ∀ a ∈ v, 0 ≤ a) (hx : x ∈ Set.Icc (0 : K) 1) :
    KeepsShare eta v (Vector.add v (Vector.scale x d)) ↔ x ≤ stepLength v d eta := by
  have hcoord : ∀ i < v.size, 0 ≤ coord v i := fun i hi => by
    rw [Vector.coord_eq_getElem hi]
    exact hv _ (Array.getElem_mem hi)
  rw [keepsShare_add_scale_iff hsize, le_stepLength_iff, forall_ratios_iff hsize]
  constructor
  · exact fun h => .inr ⟨hx.2, fun i hi hneg => (le_ratioOf_iff hneg).mpr (h i hi)⟩
  · intro h i hi
    have htaken : 0 ≤ eta * coord v i := mul_nonneg heta (hcoord i hi)
    rcases lt_or_ge (coord d i) 0 with hneg | hnonneg
    · rcases h with hx0 | ⟨-, h⟩
      · rw [le_antisymm hx0 hx.1]
        linarith
      · exact (le_ratioOf_iff hneg).mp (h i hi hneg)
    · have hadded : 0 ≤ x * coord d i := mul_nonneg hx.1 hnonneg
      linarith

theorem isGreatest_stepLength (heta : 0 ≤ eta) (hsize : d.size = v.size) (hv : ∀ a ∈ v, 0 ≤ a) :
    IsGreatest {a | a ∈ Set.Icc (0 : K) 1 ∧ KeepsShare eta v (Vector.add v (Vector.scale a d))}
      (stepLength v d eta) := by
  have hmem : stepLength v d eta ∈ Set.Icc (0 : K) 1 :=
    ⟨stepLength_nonneg v d eta, stepLength_le_one v d eta⟩
  exact ⟨⟨hmem, (keepsShare_iff_le_stepLength heta hsize hv hmem).mpr le_rfl⟩,
    fun _ ha => (keepsShare_iff_le_stepLength heta hsize hv ha.1).mp ha.2⟩

/-! ## Comparison of steps -/

/-- A larger fraction of the way allows a longer step. -/
theorem stepLength_le_of_fraction_le {eta' : K} (hsize : d.size = v.size) (hv : ∀ a ∈ v, 0 ≤ a)
    (h : eta ≤ eta') : stepLength v d eta ≤ stepLength v d eta' := by
  refine stepLength_mono hsize rfl fun i hi hneg => ?_
  have hvi : 0 ≤ coord v i := by
    rw [Vector.coord_eq_getElem hi]
    exact hv _ (Array.getElem_mem hi)
  have htaken : eta * coord v i ≤ eta' * coord v i := mul_le_mul_of_nonneg_right h hvi
  exact div_le_div_of_nonpos_of_le hneg.le (by linarith)

/-- A vector that is farther from the boundary allows a longer step. -/
theorem stepLength_le_of_vector_le (heta : 0 ≤ eta) (hsize : d.size = v.size)
    (hsize' : v'.size = v.size) (h : ∀ i < v.size, coord v i ≤ coord v' i) :
    stepLength v d eta ≤ stepLength v' d eta := by
  refine stepLength_mono hsize hsize' fun i hi hneg => ?_
  have htaken : eta * coord v i ≤ eta * coord v' i := mul_le_mul_of_nonneg_left (h i hi) heta
  exact div_le_div_of_nonpos_of_le hneg.le (by linarith)

/-- There is no step from beyond the boundary away from it. -/
theorem stepLength_eq_zero (heta : 0 < eta) (hsize : d.size = v.size) {i : Nat} (hi : i < v.size)
    (hvi : coord v i < 0) (hdi : coord d i < 0) : stepLength v d eta = 0 := by
  have hratio : ratioOf eta (coord v i) (coord d i) < 0 :=
    div_neg_of_pos_of_neg (mul_pos_of_neg_of_neg (neg_lt_zero.mpr heta) hvi) hdi
  refine le_antisymm (not_lt.mp fun hpos => ?_) (stepLength_nonneg v d eta)
  rcases le_stepLength_iff.mp (le_refl (stepLength v d eta)) with hle | ⟨-, hall⟩
  · exact hle.not_gt hpos
  · exact ((forall_ratios_iff hsize).mp hall i hi hdi).not_gt (hratio.trans hpos)

end

/-! ## Parts and order of components -/

/-- The step length depends on the pairs of components, not on their order. -/
theorem stepLength_perm (h : (v'.toList.zip d'.toList).Perm (v.toList.zip d.toList)) :
    stepLength v' d' eta = stepLength v d eta := by
  refine eq_of_forall_le_iff fun x => ?_
  rw [le_stepLength_iff, le_stepLength_iff]
  have hratios := (h.filter fun p => decide (p.2 < 0)).map fun p => ratioOf eta p.1 p.2
  refine or_congr_right (and_congr_right fun _ => ?_)
  exact forall_congr' fun a => imp_congr_left hratios.mem_iff

/-- Vectors in two parts are stepped by the shorter of the two steps. -/
theorem stepLength_append (hsize : d.size = v.size) :
    stepLength (v ++ v') (d ++ d') eta = min (stepLength v d eta) (stepLength v' d' eta) := by
  have hratios : ratios eta (v ++ v').toList (d ++ d').toList =
      ratios eta v.toList d.toList ++ ratios eta v'.toList d'.toList := by
    have hlength : v.toList.length = d.toList.length := by
      rw [Array.length_toList, Array.length_toList, hsize]
    unfold ratios
    rw [Array.toList_append, Array.toList_append, List.zip_append hlength, List.filter_append,
      List.map_append]
  refine eq_of_forall_le_iff fun x => ?_
  rw [le_min_iff, le_stepLength_iff, le_stepLength_iff, le_stepLength_iff, hratios,
    List.forall_mem_append]
  tauto

/-! ## The exact rule -/

variable [IsStrictOrderedRing K]

/-- For vectors of one length there is a step length, whatever their components are. From a
non-negative vector it is the greatest step up to one that leaves every component the share that the
fraction does not take, with the whole fraction the greatest one that keeps the vector non-negative,
and it grows with the fraction. It grows with the vector, does not depend on the order of components,
and is the shortest of the steps of the parts. Where a negative component has a negative direction it
is zero. -/
theorem stepLength_exact (heta : 0 < eta) (v d : Array K) (hsize : d.size = v.size) :
    stepLength? v d eta = .ok (stepLength v d eta) ∧
    ((∀ a ∈ v, 0 ≤ a) →
      IsGreatest {a | a ∈ Set.Icc (0 : K) 1 ∧ KeepsShare eta v (Vector.add v (Vector.scale a d))}
        (stepLength v d eta) ∧
      IsGreatest {a | a ∈ Set.Icc (0 : K) 1 ∧ ∀ b ∈ Vector.add v (Vector.scale a d), 0 ≤ b}
        (stepLength v d 1) ∧
      ∀ eta', eta ≤ eta' → stepLength v d eta ≤ stepLength v d eta') ∧
    (∀ v' : Array K, v'.size = v.size → (∀ i < v.size, coord v i ≤ coord v' i) →
      stepLength v d eta ≤ stepLength v' d eta) ∧
    (∀ v' d' : Array K, (v'.toList.zip d'.toList).Perm (v.toList.zip d.toList) →
      stepLength v' d' eta = stepLength v d eta) ∧
    (∀ v' d' : Array K, d'.size = v'.size →
      stepLength (v ++ v') (d ++ d') eta = min (stepLength v d eta) (stepLength v' d' eta)) ∧
    ((∃ i < v.size, coord v i < 0 ∧ coord d i < 0) → stepLength v d eta = 0) := by
  refine ⟨?_, fun hv => ⟨isGreatest_stepLength heta.le hsize hv, ?_, fun eta' heta' => ?_⟩,
    fun v' hsize' hle => stepLength_le_of_vector_le heta.le hsize hsize' hle,
    fun v' d' hperm => stepLength_perm hperm, fun v' d' _ => stepLength_append hsize, ?_⟩
  · rw [stepLength?, if_neg fun h => h.1 hsize.symm]
  · have hgreatest := isGreatest_stepLength zero_le_one hsize hv
    simpa only [keepsShare_one_iff hsize] using hgreatest
  · exact stepLength_le_of_fraction_le hsize hv heta'
  · rintro ⟨i, hi, hvi, hdi⟩
    exact stepLength_eq_zero heta hsize hi hvi hdi

/-- A component at the boundary that moves away from it does not stop the others. -/
theorem stepLength_exact_atBoundary :
    stepLength? #[4, 0, 3] #[-8, 1, -2] (3 / 4 : ℚ) = .ok (3 / 8) ∧
      IsGreatest {a | a ∈ Set.Icc (0 : ℚ) 1 ∧
        KeepsShare (3 / 4) #[4, 0, 3] (Vector.add #[4, 0, 3] (Vector.scale a #[-8, 1, -2]))}
        (3 / 8) := by
  have hstep : stepLength #[4, 0, 3] #[-8, 1, -2] (3 / 4 : ℚ) = 3 / 8 := by decide +kernel
  obtain ⟨hok, hgreatest, -⟩ := stepLength_exact (by norm_num : (0 : ℚ) < 3 / 4) #[4, 0, 3]
    #[-8, 1, -2] rfl
  rw [hstep] at hok hgreatest
  exact ⟨hok, (hgreatest (by decide)).1⟩

end CentralPath.InteriorPoint
