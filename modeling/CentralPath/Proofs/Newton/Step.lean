/-
  What an exact solution of the Newton system says. The direction that is read off it satisfies the
  linearised feasibility conditions of the data (`Holds.isNewton`): in the standard formulation both
  are rows of the system, in the augmented one the primal condition is what `Δy` is computed from.
-/
import CentralPath.Proofs.Newton.Blocks

open CentralPath.Vector (coord)

namespace CentralPath.Newton

open Problem (Data)
open Sparse (Matrix)

variable {K : Type} [Field K] {f : Formulation} {D : Data K} {kkt : Matrix K}
  {rp rd y lam rhs solution : Array K} {aim : System.Aim K} {d : System.Direction K}

/-- A direction along which both residuals vanish at step length one. -/
structure IsNewton (D : Data K) (rp rd : Array K) (d : System.Direction K) : Prop where
  size_dx : d.dx.size = D.n
  size_dy : d.dy.size = D.m
  size_dlam : d.dlam.size = D.m
  dual : ∀ i, i < D.n → ∑ j ∈ Finset.range D.n, D.G i j * coord d.dx j -
    ∑ k ∈ Finset.range D.m, D.A k i * coord d.dlam k = -coord rd i
  primal : ∀ k, k < D.m → ∑ j ∈ Finset.range D.n, D.A k j * coord d.dx j - coord d.dy k +
    ∑ l ∈ Finset.range D.m, D.E k l * coord d.dlam l = -coord rp k

/-- The dimension of a system as a number of rows. -/
def dimension (f : Formulation) (D : Data K) : Nat :=
  match f with
  | .standard => D.n + (D.m + D.m)
  | .augmented => D.n + D.m

theorem Holds.rows_eq_dimension (h : Holds f D kkt) :
    kkt.rows = dimension f D ∧ kkt.cols = dimension f D := by
  have hr := h.rows_eq
  have hc := h.cols_eq
  cases f <;> simp only [System.dim, systemFor, dimension] at hr hc ⊢ <;> omega

/-- Without a compliance block there is nothing to add. -/
theorem Complies.sum_eq_zero (h : Complies D none) (v : Array K) {k : Nat} (hk : k < D.m) :
    ∑ l ∈ Finset.range D.m, D.E k l * coord v l = 0 :=
  Finset.sum_eq_zero fun l hl => by rw [h.absent rfl k l hk (Finset.mem_range.mp hl), zero_mul]

/-! ## The rows of the system -/

/-- A row of the unknowns, times any vector. -/
theorem Holds.sum_dual (h : Holds f D kkt) (v : Array K) {i : Nat} (hi : i < D.n) :
    ∑ j ∈ Finset.range (dimension f D), kkt.valueAt i j * coord v j =
      ∑ j ∈ Finset.range D.n, D.G i j * coord v j - ∑ k ∈ Finset.range D.m,
        D.A k i * coord v ((systemFor f D).multiplierOffset.toNat + k) := by
  have hG : ∑ j ∈ Finset.range D.n, kkt.valueAt i j * coord v j =
      ∑ j ∈ Finset.range D.n, D.G i j * coord v j :=
    Finset.sum_congr rfl fun j hj => by rw [h.hessian i j hi (Finset.mem_range.mp hj)]
  rw [← hG, sub_eq_add_neg, ← Finset.sum_neg_distrib]
  cases f with
  | standard =>
    rw [dimension, Finset.sum_range_add, Finset.sum_range_add]
    have hzero : ∑ k ∈ Finset.range D.m,
        kkt.valueAt i ((D.n + k : ℕ) : Int) * coord v (D.n + k) = 0 := by
      refine Finset.sum_eq_zero fun k hk => ?_
      rw [Nat.cast_add, h.vacant rfl i k hi (Finset.mem_range.mp hk), zero_mul]
    rw [hzero, zero_add]
    congr 1
    refine Finset.sum_congr rfl fun k hk => ?_
    have hval := h.transposed i k hi (Finset.mem_range.mp hk)
    have hpos : (systemFor Formulation.standard D).multiplierOffset = D.n + D.m := rfl
    rw [hpos] at hval ⊢
    rw [← neg_mul, ← hval]
    congr 2
    · push_cast
      ring
    · omega
  | augmented =>
    rw [dimension, Finset.sum_range_add]
    congr 1
    refine Finset.sum_congr rfl fun k hk => ?_
    have hval := h.transposed i k hi (Finset.mem_range.mp hk)
    have hpos : (systemFor Formulation.augmented D).multiplierOffset = D.n := rfl
    rw [hpos] at hval ⊢
    rw [← neg_mul, ← hval, Nat.cast_add, Int.toNat_natCast]

/-- A row of the slacks, which the standard formulation has, times any vector. -/
theorem Holds.sum_primal (h : Holds .standard D kkt) (v : Array K) {k : Nat} (hk : k < D.m) :
    ∑ j ∈ Finset.range (dimension .standard D),
        kkt.valueAt ((D.n + k : ℕ) : Int) j * coord v j =
      ∑ j ∈ Finset.range D.n, D.A k j * coord v j - coord v (D.n + k) +
        ∑ l ∈ Finset.range D.m, D.E k l * coord v (D.n + D.m + l) := by
  rw [dimension, Finset.sum_range_add, Finset.sum_range_add]
  have hA : ∑ j ∈ Finset.range D.n, kkt.valueAt ((D.n + k : ℕ) : Int) j * coord v j =
      ∑ j ∈ Finset.range D.n, D.A k j * coord v j :=
    Finset.sum_congr rfl fun j hj => by
      rw [Nat.cast_add, h.jacobian k j hk (Finset.mem_range.mp hj)]
  have hslack : ∑ l ∈ Finset.range D.m,
      kkt.valueAt ((D.n + k : ℕ) : Int) ((D.n + l : ℕ) : Int) * coord v (D.n + l) =
        -coord v (D.n + k) := by
    rw [Finset.sum_eq_single k]
    · rw [Nat.cast_add, h.slack rfl k k hk hk, if_pos rfl, neg_one_mul]
    · intro l hl hne
      rw [Nat.cast_add, Nat.cast_add, h.slack rfl k l hk (Finset.mem_range.mp hl),
        if_neg (Ne.symm hne), zero_mul]
    · exact fun hout => absurd (Finset.mem_range.mpr hk) hout
  have hE : ∑ l ∈ Finset.range D.m, kkt.valueAt ((D.n + k : ℕ) : Int)
      ((D.n + (D.m + l) : ℕ) : Int) * coord v (D.n + (D.m + l)) =
        ∑ l ∈ Finset.range D.m, D.E k l * coord v (D.n + D.m + l) := by
    refine Finset.sum_congr rfl fun l hl => ?_
    rw [← h.compliance rfl k l hk (Finset.mem_range.mp hl), Nat.cast_add, Nat.cast_add,
      Nat.cast_add, add_assoc, add_assoc]
  rw [hA, hslack, hE]
  ring

variable [LinearOrder K]

/-! ## The right-hand side -/

/-- What comes first has come out well where everything has. -/
theorem exists_of_bind_eq_ok {ε α β : Type} {x : Except ε α} {g : α → Except ε β} {b : β}
    (h : x >>= g = .ok b) : ∃ a, x = .ok a ∧ g a = .ok b := by
  rcases x with e | a
  · cases h
  · exact ⟨a, rfl, h⟩

/-- The right-hand side begins with the negated dual residual, and in the standard formulation the
negated primal residual comes next. -/
theorem rightHandSide_eq (h : (systemFor f D).rightHandSide rp rd y lam aim = .ok rhs) :
    (∃ tail, rhs = Vector.neg rd ++ tail) ∧
      (f = .standard → ∃ tail, rhs = Vector.neg rd ++ (Vector.neg rp ++ tail)) := by
  cases f with
  | standard =>
    obtain ⟨gap, -, h⟩ := exists_of_bind_eq_ok h
    obtain ⟨product, -, h⟩ := exists_of_bind_eq_ok h
    obtain ⟨corrected, hrhs⟩ : ∃ corrected : Array K, Vector.neg rd ++ Vector.neg rp ++
        Vector.neg (corrected.map (· - aim.sigmaMu)) = rhs := by
      rcases product with _ | product <;> obtain ⟨corrected, -, h⟩ := exists_of_bind_eq_ok h <;>
        exact ⟨corrected, Except.ok.inj h⟩
    rw [← hrhs, Array.append_assoc]
    exact ⟨⟨_, rfl⟩, fun _ => ⟨_, rfl⟩⟩
  | augmented =>
    refine ⟨?_, fun hf => by cases hf⟩
    obtain ⟨base, -, h⟩ := exists_of_bind_eq_ok h
    dsimp only at h
    -- with and without a centring term
    split at h
    all_goals
      obtain ⟨centred, -, h⟩ := exists_of_bind_eq_ok h
      obtain ⟨product, -, h⟩ := exists_of_bind_eq_ok h
      rcases product with _ | product
      · obtain ⟨tail, -, h⟩ := exists_of_bind_eq_ok h
        exact ⟨tail, (Except.ok.inj h).symm⟩
      · obtain ⟨quotient, -, h⟩ := exists_of_bind_eq_ok h
        obtain ⟨tail, -, h⟩ := exists_of_bind_eq_ok h
        exact ⟨tail, (Except.ok.inj h).symm⟩

/-! ## The rows at a solution -/

section

variable (h : Holds f D kkt) (hs : kkt.Solves solution rhs)
  (hrhs : (systemFor f D).rightHandSide rp rd y lam aim = .ok rhs) (hrd : rd.size = D.n)
include h hs hrhs hrd

/-- The rows of the unknowns, for the parts of the solution that stand for `Δx` and `Δλ`. -/
theorem Holds.dual_row {dx dlam : Array K} (hx : ∀ j, j < D.n → coord dx j = coord solution j)
    (hl : ∀ k, k < D.m →
      coord dlam k = coord solution ((systemFor f D).multiplierOffset.toNat + k))
    {i : Nat} (hi : i < D.n) :
    ∑ j ∈ Finset.range D.n, D.G i j * coord dx j -
      ∑ k ∈ Finset.range D.m, D.A k i * coord dlam k = -coord rd i := by
  have hdx : ∑ j ∈ Finset.range D.n, D.G i j * coord dx j =
      ∑ j ∈ Finset.range D.n, D.G i j * coord solution j :=
    Finset.sum_congr rfl fun j hj => by rw [hx j (Finset.mem_range.mp hj)]
  have hdlam : ∑ k ∈ Finset.range D.m, D.A k i * coord dlam k = ∑ k ∈ Finset.range D.m,
      D.A k i * coord solution ((systemFor f D).multiplierOffset.toNat + k) :=
    Finset.sum_congr rfl fun k hk => by rw [hl k (Finset.mem_range.mp hk)]
  obtain ⟨hrows, hcols⟩ := h.rows_eq_dimension
  have hrow := hs.row i (by rw [hrows]; cases f <;> simp only [dimension] <;> omega)
  obtain ⟨tail, rfl⟩ := (rightHandSide_eq hrhs).1
  rw [Vector.coord_append_left (by rwa [Vector.size_neg, hrd]), Vector.coord_neg, hcols,
    h.sum_dual solution hi] at hrow
  rw [hdx, hdlam, hrow]

/-- The rows of the slacks, which the standard formulation has. -/
theorem Holds.primal_row (hf : f = .standard) (hrp : rp.size = D.m) {dx dy dlam : Array K}
    (hx : ∀ j, j < D.n → coord dx j = coord solution j)
    (hy : ∀ k, k < D.m → coord dy k = coord solution (D.n + k))
    (hl : ∀ k, k < D.m → coord dlam k = coord solution (D.n + D.m + k)) {k : Nat} (hk : k < D.m) :
    ∑ j ∈ Finset.range D.n, D.A k j * coord dx j - coord dy k +
      ∑ l ∈ Finset.range D.m, D.E k l * coord dlam l = -coord rp k := by
  have hdx : ∑ j ∈ Finset.range D.n, D.A k j * coord dx j =
      ∑ j ∈ Finset.range D.n, D.A k j * coord solution j :=
    Finset.sum_congr rfl fun j hj => by rw [hx j (Finset.mem_range.mp hj)]
  have hdlam : ∑ l ∈ Finset.range D.m, D.E k l * coord dlam l =
      ∑ l ∈ Finset.range D.m, D.E k l * coord solution (D.n + D.m + l) :=
    Finset.sum_congr rfl fun l hl' => by rw [hl l (Finset.mem_range.mp hl')]
  obtain ⟨hrows, hcols⟩ := h.rows_eq_dimension
  subst hf
  have hrow := hs.row (D.n + k) (by rw [hrows, dimension]; omega)
  obtain ⟨tail, rfl⟩ := (rightHandSide_eq hrhs).2 rfl
  have hhead : (Vector.neg rd).size = D.n := (Vector.size_neg rd).trans hrd
  rw [Vector.coord_append_right (by omega), hhead, Nat.add_sub_cancel_left,
    Vector.coord_append_left (by rwa [Vector.size_neg, hrp]), Vector.coord_neg, hcols,
    h.sum_primal solution hk] at hrow
  rw [hdx, hy k hk, hdlam, hrow]

end

/-! ## Products with the compliance block -/

/-- The product with a compliance block that is in use. -/
theorem Complies.mulVec_eq {e : Matrix K} (h : Complies D (some e)) {v : Array K}
    (hv : v.size = D.m) : ∃ u, e.mulVec v false = .ok u ∧ u.size = D.m ∧
      ∀ k, k < D.m → coord u k = ∑ l ∈ Finset.range D.m, D.E k l * coord v l :=
  (h.carries e rfl).mulVec_eq hv

/-! ## The direction -/

/-- What is read off a vector of the length of the augmented system. -/
theorem Holds.direction_augmented (h : Holds .augmented D kkt) {E : Option (Matrix K)}
    (hE : Complies D E) (hrp : rp.size = D.m) {dx dlam : Array K}
    (hdx : Vector.range solution 0 D.n = dx) (hx : dx.size = D.n)
    (hdlam : Vector.range solution D.n solution.size = dlam) (hl : dlam.size = D.m) :
    ∃ dy, (systemFor .augmented D).direction solution kkt rp E = .ok ⟨dx, dy, dlam⟩ ∧
      dy.size = D.m ∧ ∀ k, k < D.m → coord dy k =
        ∑ j ∈ Finset.range D.n, D.A k j * coord dx j + coord rp k +
          ∑ l ∈ Finset.range D.m, D.E k l * coord dlam l := by
  obtain ⟨image, himage, hisize, hicoord⟩ := h.mulA_eq hx
  obtain ⟨dy, hslack, hssize, hscoord⟩ := Vector.exists_zip? (· + ·) hisize hrp
  unfold System.direction
  dsimp only [systemFor] at himage ⊢
  rw [hdx, hdlam, himage]
  simp only [bind, Except.bind]
  rw [hslack]
  rcases E with _ | e
  · refine ⟨_, rfl, hssize, fun k hk => ?_⟩
    rw [hE.sum_eq_zero _ hk, hscoord k hk, hicoord k hk, add_zero]
  · obtain ⟨u, hu, husize, hucoord⟩ := hE.mulVec_eq hl
    refine ⟨Vector.add dy u, ?_, ?_, fun k hk => ?_⟩
    · dsimp only
      rw [hu]
      dsimp only
      rw [Vector.addTo?_of_size_eq (husize.trans hssize.symm)]
      rfl
    · rw [Vector.size_add, husize, hssize, Nat.min_self]
    · rw [Vector.coord_add (hssize.trans husize.symm), hscoord k hk, hicoord k hk,
        hucoord k hk]

/-- A direction is read off every vector of the length of the system. -/
theorem Holds.exists_direction (h : Holds f D kkt) {E : Option (Matrix K)} (hE : Complies D E)
    (hrp : rp.size = D.m) (hsize : solution.size = dimension f D) :
    ∃ d, (systemFor f D).direction solution kkt rp E = .ok d ∧ d.dx.size = D.n ∧
      d.dy.size = D.m ∧ d.dlam.size = D.m := by
  have hfirst : D.n ≤ solution.size := by
    rw [hsize]
    cases f <;> simp only [dimension] <;> omega
  have hx : (Vector.range solution 0 D.n).size = D.n :=
    (Vector.range_of_le solution 0 D.n (by omega) hfirst).1
  cases f with
  | standard =>
    rw [dimension] at hsize
    have hy := (Vector.range_of_le solution D.n (D.n + D.m) (by omega) (by omega)).1
    have hl := (Vector.range_of_le solution (D.n + D.m) solution.size (by omega) (by omega)).1
    exact ⟨_, rfl, hx, hy.trans (by omega), hl.trans (by omega)⟩
  | augmented =>
    rw [dimension] at hsize
    have hl := (Vector.range_of_le solution D.n solution.size (by omega) (by omega)).1
    have hl : (Vector.range solution D.n solution.size).size = D.m := hl.trans (by omega)
    obtain ⟨dy, hd, hy, -⟩ := h.direction_augmented hE hrp rfl hx rfl hl
    exact ⟨_, hd, hx, hy, hl⟩

/-- The direction that is read off an exact solution satisfies the linearised conditions. -/
theorem Holds.isNewton (h : Holds f D kkt) (hs : kkt.Solves solution rhs)
    (hrhs : (systemFor f D).rightHandSide rp rd y lam aim = .ok rhs) (hrd : rd.size = D.n)
    (hrp : rp.size = D.m) {E : Option (Matrix K)} (hE : Complies D E)
    (hd : (systemFor f D).direction solution kkt rp E = .ok d) : IsNewton D rp rd d := by
  have hsize : solution.size = dimension f D := hs.size.trans h.rows_eq_dimension.2
  have hfirst : D.n ≤ solution.size := by
    rw [hsize]
    cases f <;> simp only [dimension] <;> omega
  obtain ⟨hx, hxc⟩ := Vector.range_of_le solution 0 D.n (by omega) hfirst
  have hx : (Vector.range solution 0 D.n).size = D.n := hx
  have hxc : ∀ j, j < D.n → coord (Vector.range solution 0 D.n) j = coord solution j := by
    intro j hj
    have := hxc j (by omega)
    rwa [zero_add] at this
  cases f with
  | standard =>
    rw [dimension] at hsize
    obtain rfl := Except.ok.inj hd
    obtain ⟨hy, hyc⟩ := Vector.range_of_le solution D.n (D.n + D.m) (by omega) (by omega)
    obtain ⟨hl, hlc⟩ := Vector.range_of_le solution (D.n + D.m) solution.size (by omega)
      (by omega)
    exact
      { size_dx := hx
        size_dy := hy.trans (by omega)
        size_dlam := hl.trans (by omega)
        dual := fun i hi => h.dual_row hs hrhs hrd hxc (fun k hk => hlc k (by omega)) hi
        primal := fun k hk => h.primal_row hs hrhs hrd rfl hrp hxc (fun k hk => hyc k (by omega))
          (fun k hk => hlc k (by omega)) hk }
  | augmented =>
    rw [dimension] at hsize
    obtain ⟨hl, hlc⟩ := Vector.range_of_le solution D.n solution.size (by omega) (by omega)
    have hl : (Vector.range solution D.n solution.size).size = D.m := hl.trans (by omega)
    have hdual : ∀ i, i < D.n → _ := fun i hi =>
      h.dual_row hs hrhs hrd hxc (fun k hk => hlc k (by omega)) hi
    obtain ⟨dy, hdy, hdysize, hdycoord⟩ := h.direction_augmented hE hrp rfl hx rfl hl
    obtain rfl := Except.ok.inj (hdy.symm.trans hd)
    refine ⟨hx, hdysize, hl, hdual, fun k hk => ?_⟩
    rw [hdycoord k hk]
    ring

/-! ## However the matrices are stored -/

section

variable {f' : Formulation} {kkt' : Matrix K} {E E' : Option (Matrix K)}

/-- Products with `A` do not depend on the formulation or on how the matrix is stored. -/
theorem Holds.mulA_congr (h : Holds f D kkt) (h' : Holds f' D kkt') (v : Array K) :
    (systemFor f' D).mulA kkt' v = (systemFor f D).mulA kkt v := by
  by_cases hv : v.size = D.n
  · exact Vector.ok_eq_of_coord (h.mulA_eq hv) (h'.mulA_eq hv)
  · have hne : (v.size : Int) ≠ (Sparse.Span.mk 0 (D.n : Int)).length := by
      rw [Sparse.Span.length]
      dsimp only
      omega
    exact (Sparse.Matrix.mulBlock_of_size_ne hne).trans (Sparse.Matrix.mulBlock_of_size_ne hne).symm

/-- Products with `G` do not depend on the formulation or on how the matrix is stored. -/
theorem Holds.mulG_congr (h : Holds f D kkt) (h' : Holds f' D kkt') (v : Array K) :
    (systemFor f' D).mulG kkt' v = (systemFor f D).mulG kkt v := by
  by_cases hv : v.size = D.n
  · exact Vector.ok_eq_of_coord (h.mulG_eq hv) (h'.mulG_eq hv)
  · have hne : (v.size : Int) ≠ (Sparse.Span.mk 0 (D.n : Int)).length := by
      rw [Sparse.Span.length]
      dsimp only
      omega
    exact (Sparse.Matrix.mulBlock_of_size_ne hne).trans (Sparse.Matrix.mulBlock_of_size_ne hne).symm

/-- The readout of a direction does not depend on how the matrices are stored. -/
theorem Holds.direction_congr (h : Holds f D kkt) (h' : Holds f D kkt') (hE : Complies D E)
    (hE' : Complies D E') (hsome : E'.isSome = E.isSome) (solution rp : Array K) :
    (systemFor f D).direction solution kkt' rp E' = (systemFor f D).direction solution kkt rp E := by
  cases f with
  | standard => rfl
  | augmented =>
    unfold System.direction
    dsimp only [systemFor]
    have hA := h.mulA_congr h' (Vector.range solution 0 D.n)
    dsimp only [systemFor] at hA
    rw [hA]
    rcases E with _ | e <;> rcases E' with _ | e'
    · rfl
    · cases hsome
    · cases hsome
    · have he := (hE.carries e rfl).mulVec_congr (hE'.carries e' rfl)
        (Vector.range solution D.n solution.size)
      dsimp only
      rw [he]

end

/-! ## Along the direction -/

namespace IsNewton

variable {x : Array K} (h : IsNewton D rp rd d) {alphaP alphaD : K}
include h

/-- The primal residual after a step, from the one before. What is left of different step lengths
is seen by the compliance block alone. -/
theorem coord_primalResidual (hrp : rp = D.primalResidual x y lam) (hx : x.size = D.n)
    (hy : y.size = D.m) (hl : lam.size = D.m) {k : Nat} (hk : k < D.m) :
    coord (D.primalResidual (Vector.add x (Vector.scale alphaP d.dx))
        (Vector.add y (Vector.scale alphaP d.dy)) (Vector.add lam (Vector.scale alphaD d.dlam))) k =
      (1 - alphaP) * coord rp k +
        (alphaD - alphaP) * ∑ l ∈ Finset.range D.m, D.E k l * coord d.dlam l := by
  have hrow := h.primal k hk
  have hbefore := D.coord_primalResidual x y lam hk
  rw [← hrp] at hbefore
  rw [D.coord_primalResidual _ _ _ hk,
    Vector.coord_add (by rw [Vector.size_scale, hy, h.size_dy]), Vector.coord_scale]
  simp only [Vector.coord_add (hx.trans (h.size_dx.symm.trans (Vector.size_scale alphaP _).symm)),
    Vector.coord_add (hl.trans (h.size_dlam.symm.trans (Vector.size_scale alphaD _).symm)),
    Vector.coord_scale, mul_add, mul_left_comm _ alphaP, mul_left_comm _ alphaD,
    Finset.sum_add_distrib, ← Finset.mul_sum]
  linear_combination -hbefore + alphaP * hrow

/-- The dual residual after a step, from the one before. -/
theorem coord_dualResidual (hrd : rd = D.dualResidual x lam) (hx : x.size = D.n)
    (hl : lam.size = D.m) {i : Nat} (hi : i < D.n) :
    coord (D.dualResidual (Vector.add x (Vector.scale alphaP d.dx))
        (Vector.add lam (Vector.scale alphaD d.dlam))) i =
      (1 - alphaD) * coord rd i +
        (alphaP - alphaD) * ∑ j ∈ Finset.range D.n, D.G i j * coord d.dx j := by
  have hrow := h.dual i hi
  have hbefore := D.coord_dualResidual x lam hi
  rw [← hrd] at hbefore
  rw [D.coord_dualResidual _ _ hi]
  simp only [Vector.coord_add (hx.trans (h.size_dx.symm.trans (Vector.size_scale alphaP _).symm)),
    Vector.coord_add (hl.trans (h.size_dlam.symm.trans (Vector.size_scale alphaD _).symm)),
    Vector.coord_scale, mul_add, mul_left_comm _ alphaP, mul_left_comm _ alphaD,
    Finset.sum_add_distrib, ← Finset.mul_sum]
  linear_combination -hbefore + alphaD * hrow

end IsNewton

end CentralPath.Newton
