/-
  The two formulations of the Newton system have the same directions. `Linearised` is what both say
  about a direction: it is a Newton direction for the residuals, and it brings the products `y · λ`
  to what the right-hand side aims at. The rows of the standard system are these conditions one by
  one (`AtIterate.solves_standard_iff`). The augmented system has the complementarity rows divided by
  `λ` and `Δy` eliminated, and its readout of `Δy` brings back the row that went
  (`AtIterate.solves_augmented_iff`). So a direction solves one system if and only if it solves the
  other, and one matrix is singular if and only if the other is (`AtIterate.nonsingular_iff`).
-/
import CentralPath.Proofs.Newton.Updates

open CentralPath.Vector (coord)

namespace CentralPath.Newton

open Problem (Data)
open Sparse (Matrix)

variable {K : Type}

/-! ## Directions and unknowns -/

section

variable {n m : Nat} {d d' : System.Direction K}

/-- The parts of a direction have the lengths of the unknowns, the slacks and the multipliers. -/
structure System.Direction.Sized (d : System.Direction K) (n m : Nat) : Prop where
  dx : d.dx.size = n
  dy : d.dy.size = m
  dlam : d.dlam.size = m

/-- The unknowns of the system for a direction. -/
def System.Direction.unknowns (d : System.Direction K) : Formulation → Array K
  | .standard => d.dx ++ (d.dy ++ d.dlam)
  | .augmented => d.dx ++ d.dlam

/-- Unknowns of the standard system stand for one direction. -/
theorem exists_unknowns_standard {v : Array K} (hv : v.size = n + (m + m)) :
    ∃ d : System.Direction K, d.Sized n m ∧ d.unknowns .standard = v := by
  obtain ⟨dx, rest, rfl, hx, hrest⟩ := Vector.exists_append hv
  obtain ⟨dy, dlam, rfl, hy, hl⟩ := Vector.exists_append hrest
  exact ⟨⟨dx, dy, dlam⟩, ⟨hx, hy, hl⟩, rfl⟩

theorem unknowns_standard_inj (hd : d.Sized n m)
    (hd' : d'.Sized n m) (h : d.unknowns .standard = d'.unknowns .standard) : d = d' := by
  obtain ⟨hx, hrest⟩ := Array.append_inj h (hd.dx.trans hd'.dx.symm)
  obtain ⟨hy, hl⟩ := Array.append_inj hrest (hd.dy.trans hd'.dy.symm)
  rcases d with ⟨dx, dy, dlam⟩
  rcases d' with ⟨dx', dy', dlam'⟩
  dsimp only at hx hy hl
  rw [hx, hy, hl]

end

variable [Field K] {f : Formulation} {D : Data K} {kkt kkt' : Matrix K}
  {rp rd y lam : Array K} {aim : System.Aim K} {d : System.Direction K}

/-! ## What a right-hand side aims at -/

/-- Component `k` of the product of the affine directions, zero unless both are given. -/
def System.Aim.secondOrder (aim : System.Aim K) (k : Nat) : K :=
  match aim.dyAffine, aim.dlamAffine with
  | some dy, some dlam => coord dy k * coord dlam k
  | _, _ => 0

/-- How far the product `y · λ` in place `k` is from where the aim puts it. -/
def excess (y lam : Array K) (aim : System.Aim K) (k : Nat) : K :=
  coord y k * coord lam k + aim.secondOrder k - aim.sigmaMu

/-- Affine directions that are given have the length of the slacks. -/
structure System.Aim.Fits (aim : System.Aim K) (m : Nat) : Prop where
  dy : ∀ v, aim.dyAffine = some v → v.size = m
  dlam : ∀ v, aim.dlamAffine = some v → v.size = m

/-- The direction satisfies the linearised optimality conditions. -/
structure Linearised (D : Data K) (rp rd y lam : Array K) (aim : System.Aim K)
    (d : System.Direction K) : Prop extends IsNewton D rp rd d where
  complementarity : ∀ k, k < D.m →
    coord lam k * coord d.dy k + coord y k * coord d.dlam k = -excess y lam aim k

theorem Linearised.sized (h : Linearised D rp rd y lam aim d) : d.Sized D.n D.m :=
  ⟨h.size_dx, h.size_dy, h.size_dlam⟩

/-- `Δy` is what the other two parts of the direction make of it. -/
def Eliminated (D : Data K) (rp : Array K) (d : System.Direction K) : Prop :=
  ∀ k, k < D.m → coord d.dy k = ∑ j ∈ Finset.range D.n, D.A k j * coord d.dx j + coord rp k +
    ∑ l ∈ Finset.range D.m, D.E k l * coord d.dlam l

/-- Unknowns of the augmented system stand for one direction with an eliminated `Δy`. -/
theorem exists_unknowns_augmented (rp : Array K) {v : Array K} (hv : v.size = D.n + D.m) :
    ∃ d : System.Direction K, d.Sized D.n D.m ∧ Eliminated D rp d ∧ d.unknowns .augmented = v := by
  obtain ⟨dx, dlam, rfl, hx, hl⟩ := Vector.exists_append hv
  refine ⟨⟨dx, Array.ofFn (n := D.m) fun k => ∑ j ∈ Finset.range D.n, D.A k j * coord dx j +
    coord rp k + ∑ l ∈ Finset.range D.m, D.E k l * coord dlam l, dlam⟩,
    ⟨hx, Array.size_ofFn, hl⟩, fun k hk => ?_, rfl⟩
  exact Vector.coord_ofFn (fun k => ∑ j ∈ Finset.range D.n, D.A k j * coord dx j +
    coord rp k + ∑ l ∈ Finset.range D.m, D.E k l * coord dlam l) hk

theorem unknowns_augmented_inj {d' : System.Direction K} (hd : d.Sized D.n D.m)
    (hd' : d'.Sized D.n D.m) (he : Eliminated D rp d) (he' : Eliminated D rp d')
    (h : d.unknowns .augmented = d'.unknowns .augmented) : d = d' := by
  obtain ⟨hx, hl⟩ := Array.append_inj h (hd.dx.trans hd'.dx.symm)
  have hy : d.dy = d'.dy := by
    refine Vector.ext_coord (hd.dy.trans hd'.dy.symm) fun k hk => ?_
    rw [hd.dy] at hk
    rw [he k hk, he' k hk, hx, hl]
  rcases d with ⟨dx, dy, dlam⟩
  rcases d' with ⟨dx', dy', dlam'⟩
  dsimp only at hx hy hl
  rw [hx, hy, hl]

/-! ## The rows of the system at an iterate -/

/-- A complementarity row of the standard formulation, times any vector. -/
theorem AtIterate.sum_complementarity (h : AtIterate .standard D y lam kkt) (v : Array K) {k : Nat}
    (hk : k < D.m) :
    ∑ j ∈ Finset.range (dimension .standard D),
        kkt.valueAt ((D.n + D.m + k : ℕ) : Int) j * coord v j =
      coord lam k * coord v (D.n + k) + coord y k * coord v (D.n + D.m + k) := by
  rw [dimension, Finset.sum_range_add, Finset.sum_range_add]
  have hidle : ∑ j ∈ Finset.range D.n,
      kkt.valueAt ((D.n + D.m + k : ℕ) : Int) j * coord v j = 0 := by
    refine Finset.sum_eq_zero fun j hj => ?_
    rw [Nat.cast_add, Nat.cast_add, h.idle rfl k j hk (Finset.mem_range.mp hj), zero_mul]
  have hslack : ∑ l ∈ Finset.range D.m, kkt.valueAt ((D.n + D.m + k : ℕ) : Int)
      ((D.n + l : ℕ) : Int) * coord v (D.n + l) = coord lam k * coord v (D.n + k) := by
    rw [Finset.sum_eq_single k]
    · rw [Nat.cast_add, Nat.cast_add, Nat.cast_add, h.multipliers rfl k hk]
    · intro l hl hne
      rw [Nat.cast_add, Nat.cast_add, Nat.cast_add,
        (h.uncoupled rfl k l hk (Finset.mem_range.mp hl) (Ne.symm hne)).1, zero_mul]
    · exact fun hout => absurd (Finset.mem_range.mpr hk) hout
  have hmultiplier : ∑ l ∈ Finset.range D.m, kkt.valueAt ((D.n + D.m + k : ℕ) : Int)
      ((D.n + (D.m + l) : ℕ) : Int) * coord v (D.n + (D.m + l)) =
        coord y k * coord v (D.n + D.m + k) := by
    rw [Finset.sum_eq_single k]
    · rw [← add_assoc, Nat.cast_add, Nat.cast_add, h.slacks rfl k hk]
    · intro l hl hne
      rw [← add_assoc, Nat.cast_add, Nat.cast_add, Nat.cast_add, Nat.cast_add,
        (h.uncoupled rfl k l hk (Finset.mem_range.mp hl) (Ne.symm hne)).2, zero_mul]
    · exact fun hout => absurd (Finset.mem_range.mpr hk) hout
  rw [hidle, hslack, hmultiplier, zero_add]

/-- A row of the multipliers of the augmented formulation, times any vector. -/
theorem AtIterate.sum_ratio (h : AtIterate .augmented D y lam kkt) (v : Array K) {k : Nat}
    (hk : k < D.m) :
    ∑ j ∈ Finset.range (dimension .augmented D),
        kkt.valueAt ((D.n + k : ℕ) : Int) j * coord v j =
      ∑ j ∈ Finset.range D.n, D.A k j * coord v j +
        (coord y k / coord lam k * coord v (D.n + k) +
          ∑ l ∈ Finset.range D.m, D.E k l * coord v (D.n + l)) := by
  rw [dimension, Finset.sum_range_add]
  have hA : ∑ j ∈ Finset.range D.n, kkt.valueAt ((D.n + k : ℕ) : Int) j * coord v j =
      ∑ j ∈ Finset.range D.n, D.A k j * coord v j :=
    Finset.sum_congr rfl fun j hj => by
      rw [Nat.cast_add, h.jacobian k j hk (Finset.mem_range.mp hj)]
  -- the ratio stands on the diagonal, where it is added to the compliance
  have hvalue : ∀ l ∈ Finset.range D.m,
      kkt.valueAt ((D.n + k : ℕ) : Int) ((D.n + l : ℕ) : Int) * coord v (D.n + l) =
        (if k = l then coord y k / coord lam k * coord v (D.n + k) else 0) +
          D.E k l * coord v (D.n + l) := by
    intro l hl
    rw [Nat.cast_add, Nat.cast_add]
    split_ifs with hkl
    · subst hkl
      rw [h.ratios rfl k hk, add_mul]
    · rw [h.coupling rfl k l hk (Finset.mem_range.mp hl) hkl, zero_add]
  rw [hA, Finset.sum_congr rfl hvalue, Finset.sum_add_distrib, Finset.sum_ite_eq,
    if_pos (Finset.mem_range.mpr hk)]

/-! ## The rows times the unknowns of a direction -/

section

variable (hd : d.Sized D.n D.m)
include hd

omit [Field K] in
theorem size_unknowns (f : Formulation) : (d.unknowns f).size = dimension f D := by
  cases f with
  | standard =>
    rw [System.Direction.unknowns, dimension, Array.size_append, Array.size_append, hd.dx, hd.dy,
      hd.dlam]
  | augmented => rw [System.Direction.unknowns, dimension, Array.size_append, hd.dx, hd.dlam]

theorem coord_unknowns_dx (f : Formulation) {j : Nat} (hj : j < D.n) :
    coord (d.unknowns f) j = coord d.dx j := by
  cases f with
  | standard => exact Vector.coord_append_left (hd.dx.symm ▸ hj) _
  | augmented => exact Vector.coord_append_left (hd.dx.symm ▸ hj) _

theorem coord_unknowns_dy {k : Nat} (hk : k < D.m) :
    coord (d.unknowns .standard) (D.n + k) = coord d.dy k := by
  rw [System.Direction.unknowns, Vector.coord_append_right (by rw [hd.dx]; omega), hd.dx,
    Nat.add_sub_cancel_left, Vector.coord_append_left (hd.dy.symm ▸ hk)]

theorem coord_unknowns_dlam (f : Formulation) (k : Nat) :
    coord (d.unknowns f) ((systemFor f D).multiplierOffset.toNat + k) = coord d.dlam k := by
  cases f with
  | standard =>
    rw [show (systemFor .standard D).multiplierOffset.toNat = D.n + D.m from rfl,
      System.Direction.unknowns, Vector.coord_append_right (by rw [hd.dx]; omega), hd.dx,
      Vector.coord_append_right (by rw [hd.dy]; omega), hd.dy]
    congr 1
    omega
  | augmented =>
    rw [show (systemFor .augmented D).multiplierOffset.toNat = D.n from rfl,
      System.Direction.unknowns, Vector.coord_append_right (by rw [hd.dx]; omega), hd.dx,
      Nat.add_sub_cancel_left]

theorem Holds.sum_dual_unknowns (h : Holds f D kkt) {i : Nat} (hi : i < D.n) :
    ∑ j ∈ Finset.range (dimension f D), kkt.valueAt i j * coord (d.unknowns f) j =
      ∑ j ∈ Finset.range D.n, D.G i j * coord d.dx j -
        ∑ k ∈ Finset.range D.m, D.A k i * coord d.dlam k := by
  rw [h.sum_dual _ hi]
  refine congrArg₂ _ (Finset.sum_congr rfl fun j hj => ?_) (Finset.sum_congr rfl fun k _ => ?_)
  · rw [coord_unknowns_dx hd f (Finset.mem_range.mp hj)]
  · rw [coord_unknowns_dlam hd f k]

theorem Holds.sum_primal_unknowns (h : Holds .standard D kkt) {k : Nat} (hk : k < D.m) :
    ∑ j ∈ Finset.range (dimension .standard D),
        kkt.valueAt ((D.n + k : ℕ) : Int) j * coord (d.unknowns .standard) j =
      ∑ j ∈ Finset.range D.n, D.A k j * coord d.dx j - coord d.dy k +
        ∑ l ∈ Finset.range D.m, D.E k l * coord d.dlam l := by
  rw [h.sum_primal _ hk, coord_unknowns_dy hd hk]
  refine congrArg₂ _ (congrArg₂ _ (Finset.sum_congr rfl fun j hj => ?_) rfl)
    (Finset.sum_congr rfl fun l _ => ?_)
  · rw [coord_unknowns_dx hd _ (Finset.mem_range.mp hj)]
  · rw [← coord_unknowns_dlam hd .standard l]
    rfl

theorem AtIterate.sum_complementarity_unknowns (h : AtIterate .standard D y lam kkt) {k : Nat}
    (hk : k < D.m) :
    ∑ j ∈ Finset.range (dimension .standard D),
        kkt.valueAt ((D.n + D.m + k : ℕ) : Int) j * coord (d.unknowns .standard) j =
      coord lam k * coord d.dy k + coord y k * coord d.dlam k := by
  rw [h.sum_complementarity _ hk, coord_unknowns_dy hd hk, ← coord_unknowns_dlam hd .standard k]
  rfl

theorem AtIterate.sum_ratio_unknowns (h : AtIterate .augmented D y lam kkt) {k : Nat}
    (hk : k < D.m) :
    ∑ j ∈ Finset.range (dimension .augmented D),
        kkt.valueAt ((D.n + k : ℕ) : Int) j * coord (d.unknowns .augmented) j =
      ∑ j ∈ Finset.range D.n, D.A k j * coord d.dx j +
        (coord y k / coord lam k * coord d.dlam k +
          ∑ l ∈ Finset.range D.m, D.E k l * coord d.dlam l) := by
  have hdl : ∀ l, coord (d.unknowns .augmented) (D.n + l) = coord d.dlam l :=
    coord_unknowns_dlam hd .augmented
  rw [h.sum_ratio _ hk, hdl k]
  refine congrArg₂ _ (Finset.sum_congr rfl fun j hj => ?_)
    (congrArg₂ _ rfl (Finset.sum_congr rfl fun l _ => by rw [hdl l]))
  rw [coord_unknowns_dx hd _ (Finset.mem_range.mp hj)]

end

/-- Vectors of the dimension of the system solve it row by row. -/
theorem Holds.solves_iff (h : Holds f D kkt) {v rhs : Array K} (hv : v.size = dimension f D)
    (hrhs : rhs.size = dimension f D) :
    kkt.Solves v rhs ↔ ∀ i, i < rhs.size →
      ∑ j ∈ Finset.range (dimension f D), kkt.valueAt i j * coord v j = coord rhs i := by
  obtain ⟨hrows, hcols⟩ := h.rows_eq_dimension
  constructor
  · intro hs i hi
    rw [← hcols]
    exact hs.row i (by rw [hrows, ← hrhs]; exact hi)
  · intro hrow
    refine ⟨hv.trans hcols.symm, hrhs.trans hrows.symm, fun i hi => ?_⟩
    rw [hcols]
    exact hrow i (by rw [hrhs, ← hrows]; exact hi)

/-! ## The right-hand sides -/

variable [LinearOrder K]

theorem System.Aim.fits_affine (m : Nat) : (System.Aim.affine : System.Aim K).Fits m where
  dy := by
    rintro v ⟨⟩
  dlam := by
    rintro v ⟨⟩

/-- The product of the affine directions, where both are given. -/
theorem System.Aim.secondOrder?_eq {m : Nat} (h : aim.Fits m) :
    (∃ product, aim.secondOrder? = .ok (some product) ∧ product.size = m ∧
        ∀ k, k < m → coord product k = aim.secondOrder k) ∨
      aim.secondOrder? = .ok none ∧ ∀ k, aim.secondOrder k = 0 := by
  unfold System.Aim.secondOrder? System.Aim.secondOrder
  rcases hdy : aim.dyAffine with _ | dy
  · exact .inr ⟨rfl, fun _ => rfl⟩
  rcases hdlam : aim.dlamAffine with _ | dlam
  · exact .inr ⟨rfl, fun _ => rfl⟩
  obtain ⟨product, hproduct, hsize, hcoord⟩ :=
    Vector.exists_zip? (· * ·) (h.dy dy hdy) (h.dlam dlam hdlam)
  refine .inl ⟨product, ?_, hsize, hcoord⟩
  dsimp only
  rw [hproduct]
  rfl

variable (rp rd) in
/-- The right-hand side of the standard formulation. -/
theorem rightHandSide_standard (hy : y.size = D.m) (hl : lam.size = D.m) (ha : aim.Fits D.m) :
    ∃ tail, (systemFor .standard D).rightHandSide rp rd y lam aim =
        .ok (Vector.neg rd ++ (Vector.neg rp ++ tail)) ∧ tail.size = D.m ∧
      ∀ k, k < D.m → coord tail k = -excess y lam aim k := by
  obtain ⟨gap, hgap, hgsize, hgcoord⟩ := Vector.exists_zip? (· * ·) hy hl
  have hcorrected : ∃ corrected, corrected.size = D.m ∧
      (∀ k, k < D.m → coord corrected k = coord y k * coord lam k + aim.secondOrder k) ∧
      (systemFor .standard D).rightHandSide rp rd y lam aim =
        .ok (Vector.neg rd ++ Vector.neg rp ++ Vector.neg (corrected.map (· - aim.sigmaMu))) := by
    unfold System.rightHandSide
    dsimp only [systemFor]
    rw [hgap]
    rcases System.Aim.secondOrder?_eq ha with ⟨product, hproduct, hsize, hcoord⟩ | ⟨hnone, hzero⟩
    · obtain ⟨corrected, hsum, hcsize, hccoord⟩ := Vector.exists_zip? (· + ·) hgsize hsize
      refine ⟨corrected, hcsize, fun k hk => ?_, ?_⟩
      · rw [hccoord k hk, hgcoord k hk, hcoord k hk]
      · rw [hproduct]
        dsimp only [bind, Except.bind]
        rw [hsum]
        rfl
    · refine ⟨gap, hgsize, fun k hk => ?_, ?_⟩
      · rw [hgcoord k hk, hzero, add_zero]
      · rw [hnone]
        rfl
  obtain ⟨corrected, hcsize, hccoord, hcorrected⟩ := hcorrected
  refine ⟨Vector.neg (corrected.map (· - aim.sigmaMu)), ?_, ?_, fun k hk => ?_⟩
  · rw [← Array.append_assoc]
    exact hcorrected
  · rw [Vector.size_neg, Array.size_map, hcsize]
  · rw [Vector.coord_neg, Vector.coord_map_of_lt _ (hcsize.symm ▸ hk), hccoord k hk]
    rfl

variable (rp rd) in
/-- The right-hand side of the augmented formulation, where the complementarity rows are divided by
`λ`. -/
theorem rightHandSide_augmented (hrp : rp.size = D.m) (hy : y.size = D.m) (hl : lam.size = D.m)
    (hne : ∀ k, k < D.m → coord lam k ≠ 0) (ha : aim.Fits D.m) :
    ∃ tail, (systemFor .augmented D).rightHandSide rp rd y lam aim =
        .ok (Vector.neg rd ++ tail) ∧ tail.size = D.m ∧
      ∀ k, k < D.m → coord tail k = -coord rp k - excess y lam aim k / coord lam k := by
  obtain ⟨base, hbase, hbsize, hbcoord⟩ :=
    Vector.exists_zip? (· - ·) ((Vector.size_neg rp).trans hrp) hy
  have hcentred : ∃ centred, (if aim.sigmaMu == 0 then pure base
        else Vector.zip? (· + ·) base (lam.map (aim.sigmaMu / ·))) = .ok centred ∧
      centred.size = D.m ∧ ∀ k, k < D.m →
        coord centred k = -coord rp k - coord y k + aim.sigmaMu / coord lam k := by
    split_ifs with hsigma
    · refine ⟨base, rfl, hbsize, fun k hk => ?_⟩
      rw [hbcoord k hk, Vector.coord_neg, Scalar.beq_iff.mp hsigma, zero_div, add_zero]
    · obtain ⟨centred, hsum, hsize, hcoord⟩ := Vector.exists_zip? (· + ·) hbsize
        (b := lam.map (aim.sigmaMu / ·)) (by rw [Array.size_map, hl])
      refine ⟨centred, hsum, hsize, fun k hk => ?_⟩
      rw [hcoord k hk, hbcoord k hk, Vector.coord_neg, Vector.coord_map_of_lt _ (hl.symm ▸ hk)]
  obtain ⟨centred, hcentred, hcsize, hccoord⟩ := hcentred
  have htail : ∃ tail, tail.size = D.m ∧
      (∀ k, k < D.m → coord tail k = coord centred k - aim.secondOrder k / coord lam k) ∧
      (systemFor .augmented D).rightHandSide rp rd y lam aim = .ok (Vector.neg rd ++ tail) := by
    unfold System.rightHandSide
    dsimp only [systemFor]
    rw [hbase]
    dsimp only [bind, Except.bind]
    rcases System.Aim.secondOrder?_eq ha with ⟨product, hproduct, hsize, hcoord⟩ | ⟨hnone, hzero⟩
    · obtain ⟨quotient, hquotient, hqsize, hqcoord⟩ := Vector.exists_zip? (· / ·) hsize hl
      obtain ⟨tail, htail, htsize, htcoord⟩ := Vector.exists_zip? (· - ·) hcsize hqsize
      refine ⟨tail, htsize, fun k hk => ?_, ?_⟩
      · rw [htcoord k hk, hqcoord k hk, hcoord k hk]
      · split_ifs at hcentred ⊢ <;>
        · rw [hcentred, hproduct]
          dsimp only
          rw [hquotient]
          dsimp only
          rw [htail]
          rfl
    · refine ⟨centred, hcsize, fun k _ => ?_, ?_⟩
      · rw [hzero, zero_div, sub_zero]
      · split_ifs at hcentred ⊢ <;>
        · rw [hcentred, hnone]
          rfl
  obtain ⟨tail, htsize, htcoord, htail⟩ := htail
  refine ⟨tail, htail, htsize, fun k hk => ?_⟩
  · have hlam := hne k hk
    rw [htcoord k hk, hccoord k hk, excess]
    field_simp
    ring

/-! ## Directions as solutions -/

section

variable {rhs : Array K} (hd : d.Sized D.n D.m) (hrp : rp.size = D.m) (hrd : rd.size = D.n)
  (hy : y.size = D.m) (hl : lam.size = D.m) (ha : aim.Fits D.m)
include hd hrp hrd hy hl ha

/-- A direction solves the standard system if and only if it satisfies the linearised conditions. -/
theorem AtIterate.solves_standard_iff (h : AtIterate .standard D y lam kkt)
    (hrhs : (systemFor .standard D).rightHandSide rp rd y lam aim = .ok rhs) :
    kkt.Solves (d.unknowns .standard) rhs ↔ Linearised D rp rd y lam aim d := by
  obtain ⟨tail, htail, htsize, htcoord⟩ := rightHandSide_standard rp rd hy hl ha
  obtain rfl := Except.ok.inj (htail.symm.trans hrhs)
  have hnrd : (Vector.neg rd).size = D.n := (Vector.size_neg rd).trans hrd
  have hnrp : (Vector.neg rp).size = D.m := (Vector.size_neg rp).trans hrp
  rw [h.solves_iff (size_unknowns hd _) (by
      rw [Array.size_append, Array.size_append, hnrd, hnrp, htsize, dimension]),
    Vector.forall_eq_coord_append, Vector.forall_eq_coord_append, hnrd, hnrp, htsize]
  simp only [← Nat.add_assoc]
  constructor
  · rintro ⟨hdual, hprimal, hcomplementarity⟩
    exact
      { size_dx := hd.dx
        size_dy := hd.dy
        size_dlam := hd.dlam
        dual := fun i hi => by
          rw [← h.sum_dual_unknowns hd hi, hdual i hi, Vector.coord_neg]
        primal := fun k hk => by
          rw [← h.sum_primal_unknowns hd hk, hprimal k hk, Vector.coord_neg]
        complementarity := fun k hk => by
          rw [← h.sum_complementarity_unknowns hd hk, hcomplementarity k hk, htcoord k hk] }
  · intro hlin
    refine ⟨fun i hi => ?_, fun k hk => ?_, fun k hk => ?_⟩
    · rw [h.sum_dual_unknowns hd hi, hlin.dual i hi, Vector.coord_neg]
    · rw [h.sum_primal_unknowns hd hk, hlin.primal k hk, Vector.coord_neg]
    · rw [h.sum_complementarity_unknowns hd hk, hlin.complementarity k hk, htcoord k hk]

/-- A direction solves the augmented system and has its `Δy` from the other parts if and only if it
satisfies the linearised conditions. -/
theorem AtIterate.solves_augmented_iff (h : AtIterate .augmented D y lam kkt)
    (hne : ∀ k, k < D.m → coord lam k ≠ 0)
    (hrhs : (systemFor .augmented D).rightHandSide rp rd y lam aim = .ok rhs) :
    (kkt.Solves (d.unknowns .augmented) rhs ∧ Eliminated D rp d) ↔
      Linearised D rp rd y lam aim d := by
  obtain ⟨tail, htail, htsize, htcoord⟩ := rightHandSide_augmented rp rd hrp hy hl hne ha
  obtain rfl := Except.ok.inj (htail.symm.trans hrhs)
  have hnrd : (Vector.neg rd).size = D.n := (Vector.size_neg rd).trans hrd
  rw [h.solves_iff (size_unknowns hd _) (by
      rw [Array.size_append, hnrd, htsize, dimension]),
    Vector.forall_eq_coord_append, hnrd, htsize]
  constructor
  · rintro ⟨⟨hdual, hratio⟩, helim⟩
    refine
      { size_dx := hd.dx
        size_dy := hd.dy
        size_dlam := hd.dlam
        dual := fun i hi => by
          rw [← h.sum_dual_unknowns hd hi, hdual i hi, Vector.coord_neg]
        primal := fun k hk => by
          rw [helim k hk]
          ring
        complementarity := fun k hk => ?_ }
    -- the row of the multiplier times `λ`, with the elimination put in
    have hlam := hne k hk
    have hline := h.sum_ratio_unknowns hd hk
    rw [hratio k hk, htcoord k hk] at hline
    rw [helim k hk]
    field_simp at hline
    linear_combination -hline
  · intro hlin
    have helim : Eliminated D rp d := fun k hk => by
      linear_combination -(hlin.primal k hk)
    refine ⟨⟨fun i hi => ?_, fun k hk => ?_⟩, helim⟩
    · rw [h.sum_dual_unknowns hd hi, hlin.dual i hi, Vector.coord_neg]
    · have hlam := hne k hk
      have hline := hlin.complementarity k hk
      rw [helim k hk] at hline
      rw [h.sum_ratio_unknowns hd hk, htcoord k hk]
      field_simp
      linear_combination hline

end

/-! ## Reading a direction off the unknowns -/

/-- In the standard formulation the parts of the direction are read off one by one. -/
theorem direction_unknowns_standard (hd : d.Sized D.n D.m) (E : Option (Matrix K)) :
    (systemFor .standard D).direction (d.unknowns .standard) kkt rp E = .ok d := by
  have hx := Vector.range_append_left d.dx (d.dy ++ d.dlam)
  have hy := Vector.range_append_middle d.dx d.dy d.dlam
  have hl := Vector.range_append_right (d.dx ++ d.dy) d.dlam
  rw [hd.dx] at hx hy
  rw [hd.dy] at hy
  rw [Array.size_append, hd.dx, hd.dy, Array.append_assoc] at hl
  unfold System.direction System.Direction.unknowns
  dsimp only [systemFor]
  rw [hx]
  push_cast at hy hl
  rw [hy, hl]

/-- In the augmented formulation `Δy` has to be what the other parts make of it. -/
theorem Holds.direction_unknowns_augmented (h : Holds .augmented D kkt) {E : Option (Matrix K)}
    (hE : Complies D E) (hrp : rp.size = D.m) (hd : d.Sized D.n D.m) :
    (systemFor .augmented D).direction (d.unknowns .augmented) kkt rp E = .ok d ↔
      Eliminated D rp d := by
  have hx := Vector.range_append_left d.dx d.dlam
  have hl := Vector.range_append_right d.dx d.dlam
  rw [hd.dx] at hx hl
  obtain ⟨dy, (hread : (systemFor .augmented D).direction (d.unknowns .augmented) kkt rp E =
    .ok ⟨d.dx, dy, d.dlam⟩), hysize, hycoord⟩ := h.direction_augmented hE hrp hx hd.dx hl hd.dlam
  rw [hread]
  constructor
  · intro heq k hk
    rw [← hycoord k hk, ← Except.ok.inj heq]
  · intro helim
    have hy : dy = d.dy := by
      refine Vector.ext_coord (hysize.trans hd.dy.symm) fun k hk => ?_
      rw [hysize] at hk
      rw [hycoord k hk, helim k hk]
    rw [hy]

/-! ## Singular systems -/

/-- Whatever the residuals and the aim, the linearised conditions have exactly one solution. -/
def Solvable (D : Data K) (y lam : Array K) : Prop :=
  ∀ (rp rd : Array K) (aim : System.Aim K), rp.size = D.m → rd.size = D.n → aim.Fits D.m →
    ∃! d, Linearised D rp rd y lam aim d

/-- Any excess is reached by a second-order term. -/
theorem exists_excess {m : Nat} (hy : y.size = m) (hl : lam.size = m) {r : Array K}
    (hr : r.size = m) :
    ∃ aim : System.Aim K, aim.Fits m ∧ ∀ k, k < m → -excess y lam aim k = coord r k := by
  obtain ⟨gap, -, hgsize, hgcoord⟩ := Vector.exists_zip? (· * ·) hy hl
  refine ⟨⟨0, some (Vector.neg (Vector.add gap r)), some (Vector.ones m)⟩, ⟨?_, ?_⟩,
    fun k hk => ?_⟩
  · rintro v ⟨⟩
    rw [Vector.size_neg, Vector.size_add, hgsize, hr, Nat.min_self]
  · rintro v ⟨⟩
    exact Vector.size_ones m
  · have hone : coord (Vector.ones m : Array K) k = 1 := Vector.coord_replicate 1 hk
    rw [excess, System.Aim.secondOrder]
    dsimp only
    rw [Vector.coord_neg, Vector.coord_add (hgsize.trans hr.symm), hgcoord k hk, hone]
    ring

section

variable (hy : y.size = D.m) (hl : lam.size = D.m)
include hy hl

/-- Every right-hand side of the standard system is one for some residuals and some aim. -/
theorem AtIterate.nonsingular_standard_iff (h : AtIterate .standard D y lam kkt) :
    kkt.Nonsingular ↔ Solvable D y lam := by
  obtain ⟨hrows, hcols⟩ := h.rows_eq_dimension
  rw [dimension] at hrows hcols
  constructor
  · intro hns rp rd aim hrp hrd ha
    obtain ⟨tail, hrhs, htsize, -⟩ := rightHandSide_standard rp rd hy hl ha
    obtain ⟨v, hv, hunique⟩ := hns (Vector.neg rd ++ (Vector.neg rp ++ tail)) (by
      rw [hrows, Array.size_append, Array.size_append, Vector.size_neg, Vector.size_neg, hrd, hrp,
        htsize])
    obtain ⟨d, hd, rfl⟩ := exists_unknowns_standard (hv.size.trans hcols)
    refine ⟨d, (h.solves_standard_iff hd hrp hrd hy hl ha hrhs).mp hv, fun d' hd' => ?_⟩
    have hs' := (h.solves_standard_iff hd'.sized hrp hrd hy hl ha hrhs).mpr hd'
    exact unknowns_standard_inj hd'.sized hd (hunique _ hs')
  · intro hsolvable rhs hsize
    obtain ⟨r₁, rest, rfl, hr₁, hrest⟩ := Vector.exists_append (hsize.trans hrows)
    obtain ⟨r₂, r₃, rfl, hr₂, hr₃⟩ := Vector.exists_append hrest
    obtain ⟨aim, ha, hexcess⟩ := exists_excess hy hl hr₃
    obtain ⟨tail, hrhs, htsize, htcoord⟩ :=
      rightHandSide_standard (Vector.neg r₂) (Vector.neg r₁) hy hl ha
    have htail : tail = r₃ := Vector.ext_coord (htsize.trans hr₃.symm) fun k hk => by
      rw [htsize] at hk
      rw [htcoord k hk, hexcess k hk]
    rw [Vector.neg_neg_eq, Vector.neg_neg_eq, htail] at hrhs
    have hnr₁ : (Vector.neg r₁).size = D.n := (Vector.size_neg r₁).trans hr₁
    have hnr₂ : (Vector.neg r₂).size = D.m := (Vector.size_neg r₂).trans hr₂
    obtain ⟨d, hd, hunique⟩ := hsolvable (Vector.neg r₂) (Vector.neg r₁) aim hnr₂ hnr₁ ha
    refine ⟨d.unknowns .standard,
      (h.solves_standard_iff hd.sized hnr₂ hnr₁ hy hl ha hrhs).mpr hd, fun v hv => ?_⟩
    obtain ⟨d', hd', rfl⟩ := exists_unknowns_standard (hv.size.trans hcols)
    rw [hunique d' ((h.solves_standard_iff hd' hnr₂ hnr₁ hy hl ha hrhs).mp hv)]

/-- Every right-hand side of the augmented system is one for some residuals. -/
theorem AtIterate.nonsingular_augmented_iff (h : AtIterate .augmented D y lam kkt)
    (hne : ∀ k, k < D.m → coord lam k ≠ 0) : kkt.Nonsingular ↔ Solvable D y lam := by
  obtain ⟨hrows, hcols⟩ := h.rows_eq_dimension
  rw [dimension] at hrows hcols
  constructor
  · intro hns rp rd aim hrp hrd ha
    obtain ⟨tail, hrhs, htsize, -⟩ :=
      rightHandSide_augmented rp rd hrp hy hl hne ha
    obtain ⟨v, hv, hunique⟩ := hns (Vector.neg rd ++ tail) (by
      rw [hrows, Array.size_append, Vector.size_neg, hrd, htsize])
    obtain ⟨d, hd, helim, rfl⟩ := exists_unknowns_augmented rp (hv.size.trans hcols)
    refine ⟨d, (h.solves_augmented_iff hd hrp hrd hy hl ha hne hrhs).mp ⟨hv, helim⟩,
      fun d' hd' => ?_⟩
    obtain ⟨hs', helim'⟩ := (h.solves_augmented_iff hd'.sized hrp hrd hy hl ha hne hrhs).mpr hd'
    exact unknowns_augmented_inj hd'.sized hd helim' helim (hunique _ hs')
  · intro hsolvable rhs hsize
    obtain ⟨r₁, r₂, rfl, hr₁, hr₂⟩ := Vector.exists_append (hsize.trans hrows)
    set rp : Array K := Vector.neg (Vector.add r₂ y) with hrpdef
    have hrp : rp.size = D.m := by
      rw [hrpdef, Vector.size_neg, Vector.size_add, hr₂, hy, Nat.min_self]
    have ha : (System.Aim.affine : System.Aim K).Fits D.m :=
      System.Aim.fits_affine D.m
    obtain ⟨tail, hrhs, htsize, htcoord⟩ :=
      rightHandSide_augmented rp (Vector.neg r₁) hrp hy hl hne ha
    have htail : tail = r₂ := Vector.ext_coord (htsize.trans hr₂.symm) fun k hk => by
      rw [htsize] at hk
      have hlam := hne k hk
      have hexcess : excess y lam (System.Aim.affine : System.Aim K) k =
          coord y k * coord lam k := by
        rw [excess, System.Aim.affine, System.Aim.secondOrder]
        ring
      rw [htcoord k hk, hexcess, hrpdef, Vector.coord_neg, Vector.coord_add (hr₂.trans hy.symm)]
      field_simp
      ring
    rw [Vector.neg_neg_eq, htail] at hrhs
    have hnr₁ : (Vector.neg r₁).size = D.n := (Vector.size_neg r₁).trans hr₁
    obtain ⟨d, hd, hunique⟩ := hsolvable rp (Vector.neg r₁) .affine hrp hnr₁ ha
    obtain ⟨hs, -⟩ := (h.solves_augmented_iff hd.sized hrp hnr₁ hy hl ha hne hrhs).mpr hd
    refine ⟨d.unknowns .augmented, hs, fun v hv => ?_⟩
    obtain ⟨d', hd', helim', rfl⟩ := exists_unknowns_augmented rp (hv.size.trans hcols)
    rw [hunique d' ((h.solves_augmented_iff hd' hrp hnr₁ hy hl ha hne hrhs).mp ⟨hv, helim'⟩)]

end

/-! ## Either formulation -/

section

variable {E : Option (Matrix K)} {rhs v : Array K} (hrp : rp.size = D.m) (hrd : rd.size = D.n)
  (hy : y.size = D.m) (hl : lam.size = D.m) (hne : ∀ k, k < D.m → coord lam k ≠ 0)

include hy hl hne

/-- Both matrices are nonsingular where the linearised conditions are solvable. -/
theorem AtIterate.nonsingular_iff (h : AtIterate f D y lam kkt) :
    kkt.Nonsingular ↔ Solvable D y lam := by
  cases f with
  | standard => exact h.nonsingular_standard_iff hy hl
  | augmented => exact h.nonsingular_augmented_iff hy hl hne

include hrp hrd

/-- There is a right-hand side, of the dimension of the system. -/
theorem exists_rightHandSide (f : Formulation) (ha : aim.Fits D.m) :
    ∃ rhs, (systemFor f D).rightHandSide rp rd y lam aim = .ok rhs ∧ rhs.size = dimension f D := by
  cases f with
  | standard =>
    obtain ⟨tail, hrhs, hsize, -⟩ := rightHandSide_standard rp rd hy hl ha
    refine ⟨_, hrhs, ?_⟩
    rw [Array.size_append, Array.size_append, Vector.size_neg, Vector.size_neg, hrd, hrp, hsize,
      dimension]
  | augmented =>
    obtain ⟨tail, hrhs, hsize, -⟩ := rightHandSide_augmented rp rd hrp hy hl hne ha
    refine ⟨_, hrhs, ?_⟩
    rw [Array.size_append, Vector.size_neg, hrd, hsize, dimension]

/-- What is read off a solution satisfies the linearised conditions. -/
theorem AtIterate.exists_linearised (h : AtIterate f D y lam kkt) (hE : Complies D E)
    (ha : aim.Fits D.m) (hrhs : (systemFor f D).rightHandSide rp rd y lam aim = .ok rhs)
    (hs : kkt.Solves v rhs) : ∃ d, (systemFor f D).direction v kkt rp E = .ok d ∧
      Linearised D rp rd y lam aim d := by
  have hsize := hs.size.trans h.rows_eq_dimension.2
  cases f with
  | standard =>
    obtain ⟨d, hd, rfl⟩ := exists_unknowns_standard hsize
    exact ⟨d, direction_unknowns_standard hd E,
      (h.solves_standard_iff hd hrp hrd hy hl ha hrhs).mp hs⟩
  | augmented =>
    obtain ⟨d, hd, helim, rfl⟩ := exists_unknowns_augmented rp hsize
    exact ⟨d, (h.direction_unknowns_augmented hE hrp hd).mpr helim,
      (h.solves_augmented_iff hd hrp hrd hy hl ha hne hrhs).mp ⟨hs, helim⟩⟩

end

/-- The two formulations agree on directions. In the standard one a direction solves the system if
and only if it solves the augmented one and has the `Δy` that is read off there, and what is read
off is the direction in both. -/
theorem AtIterate.solves_iff (h : AtIterate .standard D y lam kkt)
    (h' : AtIterate .augmented D y lam kkt') {E : Option (Matrix K)} (hE : Complies D E)
    (hd : d.Sized D.n D.m) (hrp : rp.size = D.m) (hrd : rd.size = D.n) (hy : y.size = D.m)
    (hl : lam.size = D.m) (hne : ∀ k, k < D.m → coord lam k ≠ 0) (ha : aim.Fits D.m)
    {rhs rhs' : Array K} (hrhs : (systemFor .standard D).rightHandSide rp rd y lam aim = .ok rhs)
    (hrhs' : (systemFor .augmented D).rightHandSide rp rd y lam aim = .ok rhs') :
    kkt.Solves (d.unknowns .standard) rhs ↔ kkt'.Solves (d.unknowns .augmented) rhs' ∧
      (systemFor .augmented D).direction (d.unknowns .augmented) kkt' rp E = .ok d := by
  rw [h.solves_standard_iff hd hrp hrd hy hl ha hrhs,
    h'.direction_unknowns_augmented hE hrp hd,
    h'.solves_augmented_iff hd hrp hrd hy hl ha hne hrhs']

end CentralPath.Newton
