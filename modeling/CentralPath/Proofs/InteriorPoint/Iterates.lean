/-
  One iteration in exact arithmetic. A step moves the residuals by the shortcut formulas, and along
  a Newton direction these give the residuals of the data at the new iterate, for any two step
  lengths (`ends_takeStep`). So an iteration keeps the residuals consistent, whichever of its
  variants it takes and wherever it is refused (`ends_iterate`).
-/
import CentralPath.Proofs.InteriorPoint.Loaded

open CentralPath.Vector (coord)

namespace CentralPath.InteriorPoint

open Backend (Environment Exact Session Work)
open Backend.Work (Ends ends_bind ends_change ends_lift ends_report ends_solver)
open Newton (Formulation IsNewton systemFor)
open Newton.System (Direction)
open Problem (Data)
open Sparse (Matrix)

variable {σ K : Type} [Field K] {r : Session (Solver K) σ K} {f : Formulation} {D : Data K}
  {o : Options K} {s s' : Solver K} {d : Direction K} {alphaP alphaD eta : K}

namespace Loaded

/-- The direction that was taken is remembered. -/
theorem of_direction (h : Loaded D f o s) {dx dy dlam : Array K} (hx : dx.size = D.n)
    (hy : dy.size = D.m) (hl : dlam.size = D.m) : Loaded D f o { s with dx, dy, dlam } :=
  { h with
    ready := { h.ready with
      dx := hx.trans h.n_eq.symm, dy := hy.trans h.m_eq.symm, dlam := hl.trans h.m_eq.symm }
    vectors := { h.vectors with } }

theorem of_predicted (h : Loaded D f o s) {yPred lamPred : Array K} (hy : yPred.size = D.m)
    (hl : lamPred.size = D.m) : Loaded D f o { s with yPred, lamPred } :=
  { h with
    ready := { h.ready with yPred := hy.trans h.m_eq.symm, lamPred := hl.trans h.m_eq.symm }
    vectors := { h.vectors with } }

/-- Where compliance is off, the data have none. -/
theorem sum_E_eq_zero (h : Loaded D f o s) (huse : s.usesE = false) (v : Array K) {k : Nat}
    (hk : k < D.m) : ∑ l ∈ Finset.range D.m, D.E k l * coord v l = 0 := by
  have hcomplies := h.compliance
  rw [Solver.compliance?, if_neg (by rw [huse]; exact Bool.false_ne_true)] at hcomplies
  exact hcomplies.sum_eq_zero v hk

variable [LinearOrder K]

theorem mulE_of_usesE (h : Loaded D f o s) (huse : s.usesE = true) {v : Array K}
    (hv : v.size = D.m) : ∃ u, s.E.mulVec v false = .ok u ∧ u.size = D.m ∧
      ∀ k, k < D.m → coord u k = ∑ l ∈ Finset.range D.m, D.E k l * coord v l := by
  have hcomplies := h.compliance
  rw [Solver.compliance?, if_pos huse] at hcomplies
  exact hcomplies.mulVec_eq hv

variable [ElementaryFunctions K]

/-! ## Taking a step -/

theorem moved_eq {v u : Array K} (hu : u.size = v.size) (alpha : K) :
    moved v alpha u = .ok (Vector.add v (Vector.scale alpha u)) :=
  Vector.addTo?_of_size_eq ((Vector.size_scale alpha u).trans hu)

theorem ends_advance (h : Loaded D f o r.solver) (hx : d.dx.size = D.n) (hy : d.dy.size = D.m)
    (hl : d.dlam.size = D.m) {R : Fault K → Session (Solver K) σ K → Prop} :
    Ends (advance d alphaP alphaD)
      (fun _ r' => r'.backend = r.backend ∧ r'.solver = { r.solver with
        x := Vector.add r.solver.x (Vector.scale alphaP d.dx)
        y := Vector.add r.solver.y (Vector.scale alphaP d.dy)
        lam := Vector.add r.solver.lam (Vector.scale alphaD d.dlam)
        dx := d.dx, dy := d.dy, dlam := d.dlam }) R r := by
  have hxs : d.dx.size = r.solver.x.size := by rw [hx, h.ready.x, h.n_eq]
  have hys : d.dy.size = r.solver.y.size := by rw [hy, h.ready.y, h.m_eq]
  have hls : d.dlam.size = r.solver.lam.size := by rw [hl, h.ready.lam, h.m_eq]
  have hdxs : d.dx.size = r.solver.dx.size := by rw [hx, h.ready.dx, h.n_eq]
  have hdys : d.dy.size = r.solver.dy.size := by rw [hy, h.ready.dy, h.m_eq]
  have hdls : d.dlam.size = r.solver.dlam.size := by rw [hl, h.ready.dlam, h.m_eq]
  unfold advance
  rw [ends_bind, ends_assign, moved_eq hxs]
  dsimp only [Solver.withComponent]
  rw [ends_bind, ends_assign, moved_eq hys]
  dsimp only [Solver.withComponent]
  rw [ends_bind, ends_assign, moved_eq hls]
  dsimp only [Solver.withComponent]
  rw [ends_bind, ends_assign, Vector.fill?_of_size_eq hdxs]
  dsimp only [Solver.withComponent]
  rw [ends_bind, ends_assign, Vector.fill?_of_size_eq hdys]
  dsimp only [Solver.withComponent]
  rw [ends_assign, Vector.fill?_of_size_eq hdls]
  exact ⟨rfl, rfl⟩

/-- What the primal residual becomes. -/
theorem ends_shrinkPrimal (h : Loaded D f o r.solver) (hl : d.dlam.size = D.m)
    {R : Fault K → Session (Solver K) σ K → Prop} :
    Ends (shrinkPrimal d alphaP alphaD)
      (fun _ r' => r'.backend = r.backend ∧ ∃ rp, r'.solver = { r.solver with rp } ∧ rp.size = D.m ∧
        ∀ k, k < D.m → coord rp k = (1 - alphaP) * coord r.solver.rp k +
          (alphaD - alphaP) * ∑ l ∈ Finset.range D.m, D.E k l * coord d.dlam l) R r := by
  have hsize : (Vector.scale (1 - alphaP) r.solver.rp).size = D.m := by
    rw [Vector.size_scale, h.ready.rp, h.m_eq]
  unfold shrinkPrimal
  rw [ends_bind, ends_assign]
  dsimp only [Solver.withComponent]
  rw [ends_bind, ends_solver]
  dsimp only
  split_ifs with hcase
  · obtain ⟨huse, -⟩ := Bool.and_eq_true_iff.mp hcase
    obtain ⟨u, hu, husize, hucoord⟩ := h.mulE_of_usesE huse hl
    have hmoved : (do
        moved (Vector.scale (1 - alphaP) r.solver.rp) (alphaD - alphaP)
          (← r.solver.E.mulVec d.dlam false)) =
        .ok (Vector.add (Vector.scale (1 - alphaP) r.solver.rp)
          (Vector.scale (alphaD - alphaP) u)) := by
      rw [hu]
      exact moved_eq (husize.trans hsize.symm) _
    rw [ends_assign]
    dsimp only
    rw [hmoved]
    refine ⟨rfl, _, rfl, ?_, fun k hk => ?_⟩
    · rw [Vector.size_add, hsize, Vector.size_scale, husize, Nat.min_self]
    · rw [Vector.coord_add (by rw [hsize, Vector.size_scale, husize]), Vector.coord_scale,
        Vector.coord_scale, hucoord k hk]
  · refine ⟨rfl, _, rfl, hsize, fun k hk => ?_⟩
    rw [Vector.coord_scale]
    rcases huse : r.solver.usesE with _ | _
    · rw [h.sum_E_eq_zero huse _ hk, mul_zero, add_zero]
    · rw [huse, Bool.true_and, Bool.not_eq_true', Bool.not_eq_false, Scalar.beq_iff] at hcase
      rw [hcase, sub_self, zero_mul, add_zero]

/-- What the dual residual becomes. -/
theorem ends_shrinkDual (h : Loaded D f o r.solver) (hx : d.dx.size = D.n)
    {R : Fault K → Session (Solver K) σ K → Prop} :
    Ends (shrinkDual d alphaP alphaD)
      (fun _ r' => r'.backend = r.backend ∧ ∃ rd, r'.solver = { r.solver with rd } ∧ rd.size = D.n ∧
        ∀ i, i < D.n → coord rd i = (1 - alphaD) * coord r.solver.rd i +
          (alphaP - alphaD) * ∑ j ∈ Finset.range D.n, D.G i j * coord d.dx j) R r := by
  have hsize : (Vector.scale (1 - alphaD) r.solver.rd).size = D.n := by
    rw [Vector.size_scale, h.ready.rd, h.n_eq]
  unfold shrinkDual
  rw [ends_bind, ends_assign]
  dsimp only [Solver.withComponent]
  split_ifs with hcase
  · obtain ⟨u, hu, husize, hucoord⟩ := h.mulG_eq hx
    have hmoved : (do
        moved (Vector.scale (1 - alphaD) r.solver.rd) (alphaP - alphaD)
          (← Solver.mulG { r.solver with rd := Vector.scale (1 - alphaD) r.solver.rd } d.dx)) =
        .ok (Vector.add (Vector.scale (1 - alphaD) r.solver.rd)
          (Vector.scale (alphaP - alphaD) u)) := by
      have hu' : Solver.mulG { r.solver with rd := Vector.scale (1 - alphaD) r.solver.rd } d.dx =
          .ok u := hu
      rw [hu']
      exact moved_eq (husize.trans hsize.symm) _
    rw [ends_assign]
    dsimp only
    rw [hmoved]
    refine ⟨rfl, _, rfl, ?_, fun i hi => ?_⟩
    · rw [Vector.size_add, hsize, Vector.size_scale, husize, Nat.min_self]
    · rw [Vector.coord_add (by rw [hsize, Vector.size_scale, husize]), Vector.coord_scale,
        Vector.coord_scale, hucoord i hi]
  · refine ⟨rfl, _, rfl, hsize, fun i _ => ?_⟩
    rw [Bool.not_eq_true', Bool.not_eq_false, Scalar.beq_iff] at hcase
    rw [Vector.coord_scale, hcase, sub_self, zero_mul, add_zero]

/-- A step along any direction of the right lengths moves the iterate and carries the residuals
along. -/
theorem ends_takeStep_sized (h : Loaded D f o r.solver) (hm : 0 < D.m) (hx : d.dx.size = D.n)
    (hy : d.dy.size = D.m) (hl : d.dlam.size = D.m) {R : Fault K → Session (Solver K) σ K → Prop} :
    Ends (takeStep d alphaP alphaD)
      (fun _ r' => r'.backend = r.backend ∧ Loaded D f o r'.solver ∧ ∃ rp rd,
        (∀ k, k < D.m → coord rp k = (1 - alphaP) * coord r.solver.rp k +
          (alphaD - alphaP) * ∑ l ∈ Finset.range D.m, D.E k l * coord d.dlam l) ∧
        (∀ i, i < D.n → coord rd i = (1 - alphaD) * coord r.solver.rd i +
          (alphaP - alphaD) * ∑ j ∈ Finset.range D.n, D.G i j * coord d.dx j) ∧
        r'.solver = { r.solver with
          x := Vector.add r.solver.x (Vector.scale alphaP d.dx)
          y := Vector.add r.solver.y (Vector.scale alphaP d.dy)
          lam := Vector.add r.solver.lam (Vector.scale alphaD d.dlam)
          dx := d.dx, dy := d.dy, dlam := d.dlam, rp, rd
          mu := D.dualityMeasure (Vector.add r.solver.y (Vector.scale alphaP d.dy))
            (Vector.add r.solver.lam (Vector.scale alphaD d.dlam)) }) R r := by
  have hmoved : ∀ {k : Nat} {v u : Array K} (alpha : K), v.size = k → u.size = k →
      (Vector.add v (Vector.scale alpha u)).size = k := by
    intro k v u alpha hv hu
    rw [Vector.size_add, Vector.size_scale, hv, hu, Nat.min_self]
  unfold takeStep
  refine (h.ends_advance hx hy hl).bind ?_ fun _ _ hR => hR
  rintro _ r₁ ⟨hb₁, hs₁⟩
  have h₁ : Loaded D f o r₁.solver := by
    rw [hs₁]
    exact (h.of_point (hmoved alphaP (h.ready.x.trans h.n_eq) hx)
      (hmoved alphaP (h.ready.y.trans h.m_eq) hy)
      (hmoved alphaD (h.ready.lam.trans h.m_eq) hl)).of_direction hx hy hl
  refine (h₁.ends_shrinkPrimal hl).bind ?_ fun _ _ hR => hR
  rintro _ r₂ ⟨hb₂, rp, hs₂, hrpsize, hrp⟩
  have h₂ : Loaded D f o r₂.solver := by
    rw [hs₂]
    exact h₁.of_iterate r₁.solver.mu (h₁.ready.x.trans h₁.n_eq) (h₁.ready.y.trans h₁.m_eq)
      (h₁.ready.lam.trans h₁.m_eq) hrpsize (h₁.ready.rd.trans h₁.n_eq)
  refine (h₂.ends_shrinkDual hx).bind ?_ fun _ _ hR => hR
  rintro _ r₃ ⟨hb₃, rd, hs₃, hrdsize, hrd⟩
  have h₃ : Loaded D f o r₃.solver := by
    rw [hs₃]
    exact h₂.of_iterate r₂.solver.mu (h₂.ready.x.trans h₂.n_eq) (h₂.ready.y.trans h₂.m_eq)
      (h₂.ready.lam.trans h₂.m_eq) (h₂.ready.rp.trans h₂.m_eq) hrdsize
  have hm₃ : r₃.solver.m ≠ 0 := by
    rw [h₃.m_eq]
    omega
  rw [ends_bind, ends_solver, if_neg hm₃, ends_change]
  refine ⟨hb₃.trans (hb₂.trans hb₁), h₃.of_iterate _ (h₃.ready.x.trans h₃.n_eq)
    (h₃.ready.y.trans h₃.m_eq) (h₃.ready.lam.trans h₃.m_eq) (h₃.ready.rp.trans h₃.m_eq)
    (h₃.ready.rd.trans h₃.n_eq), rp, rd, ?_, ?_, ?_⟩
  · rw [hs₁] at hrp
    exact hrp
  · rw [hs₂, hs₁] at hrd
    exact hrd
  · dsimp only
    rw [h₃.dualityMeasure_eq, hs₃, hs₂, hs₁]

/-- A step along a Newton direction keeps the residuals consistent. -/
theorem ends_takeStep (h : Loaded D f o r.solver) (hc : Consistent D r.solver) (hm : 0 < D.m)
    (hd : IsNewton D r.solver.rp r.solver.rd d) {R : Fault K → Session (Solver K) σ K → Prop} :
    Ends (takeStep d alphaP alphaD)
      (fun _ r' => Loaded D f o r'.solver ∧ Consistent D r'.solver ∧
        r'.solver.y = Vector.add r.solver.y (Vector.scale alphaP d.dy) ∧
        r'.solver.lam = Vector.add r.solver.lam (Vector.scale alphaD d.dlam)) R r := by
  have hxsize := h.ready.x.trans h.n_eq
  have hysize := h.ready.y.trans h.m_eq
  have hlsize := h.ready.lam.trans h.m_eq
  refine (h.ends_takeStep_sized hm hd.size_dx hd.size_dy hd.size_dlam).mono ?_ fun _ _ hR => hR
  rintro _ r' ⟨-, h', rp, rd, hrp, hrd, hs'⟩
  have hrpsize := h'.ready.rp.trans h'.m_eq
  have hrdsize := h'.ready.rd.trans h'.n_eq
  rw [hs'] at hrpsize hrdsize
  dsimp only at hrpsize hrdsize
  refine ⟨h', ⟨?_, ?_, ?_⟩, ?_, ?_⟩
  · rw [hs']
    refine Vector.ext_coord (hrpsize.trans (D.size_primalResidual _ _ _).symm) fun k hk => ?_
    rw [hrpsize] at hk
    exact (hrp k hk).trans
      (hd.coord_primalResidual hc.primal hxsize hysize hlsize hk).symm
  · rw [hs']
    refine Vector.ext_coord (hrdsize.trans (D.size_dualResidual _ _).symm) fun i hi => ?_
    rw [hrdsize] at hi
    exact (hrd i hi).trans (hd.coord_dualResidual hc.dual hxsize hlsize hi).symm
  · rw [hs']
  · rw [hs']
  · rw [hs']

/-! ## Measuring the predictor -/

theorem predicted_eq {kept v u : Array K} (hk : kept.size = v.size) (hu : u.size = v.size)
    (alpha : K) : predicted kept v alpha u = .ok (Vector.add v (Vector.scale alpha u)) := by
  have hscale : v.size = (Vector.scale alpha u).size := by rw [Vector.size_scale, hu]
  unfold predicted
  rw [Vector.zip?_of_size_eq hscale]
  exact Vector.fill?_of_size_eq (by rw [Array.size_zipWith, ← hscale, Nat.min_self, hk])

/-- Step lengths exist along a direction of the right lengths. -/
theorem exists_stepLengths (h : Loaded D f o s) (hy : d.dy.size = D.m) (hl : d.dlam.size = D.m)
    (eta : K) : ∃ alphaP alphaD, s.stepLengths d eta = .ok (alphaP, alphaD) := by
  have hlength : ∀ {v u : Array K}, u.size = v.size →
      stepLength? v u eta = .ok (stepLength v u eta) := by
    intro v u hsize
    exact if_neg fun hne => hne.1 hsize.symm
  unfold Solver.stepLengths InteriorPoint.stepLengths
  rw [hlength (hy.trans (h.ready.y.trans h.m_eq).symm),
    hlength (hl.trans (h.ready.lam.trans h.m_eq).symm)]
  simp only [bind, Except.bind]
  split_ifs <;> exact ⟨_, _, rfl⟩

/-- The predictor step is measured without taking it, unless there is no duality gap to compare
with. -/
theorem ends_measurePredictor (h : Loaded D f o r.solver) (hm : 0 < D.m) (hy : d.dy.size = D.m)
    (hl : d.dlam.size = D.m) :
    Ends (measurePredictor d)
      (fun _ r' => r'.backend = r.backend ∧ ∃ yPred lamPred,
        r'.solver = { r.solver with yPred, lamPred } ∧ yPred.size = D.m ∧ lamPred.size = D.m)
      (fun _ r' => r.solver.mu = 0 ∧ ∃ yPred lamPred,
        r'.solver = { r.solver with yPred, lamPred } ∧ yPred.size = D.m ∧ lamPred.size = D.m)
      r := by
  have hysize := h.ready.y.trans h.m_eq
  have hlsize := h.ready.lam.trans h.m_eq
  have hypred := h.ready.yPred.trans h.m_eq
  have hlpred := h.ready.lamPred.trans h.m_eq
  have hpos : r.solver.m ≠ 0 := by
    rw [h.m_eq]
    omega
  obtain ⟨alphaP, alphaD, hlengths⟩ := h.exists_stepLengths hy hl 1
  have hysize' : (Vector.add r.solver.y (Vector.scale alphaP d.dy)).size = D.m := by
    rw [Vector.size_add, Vector.size_scale, hysize, hy, Nat.min_self]
  have hlsize' : (Vector.add r.solver.lam (Vector.scale alphaD d.dlam)).size = D.m := by
    rw [Vector.size_add, Vector.size_scale, hlsize, hl, Nat.min_self]
  unfold measurePredictor
  rw [ends_bind, ends_solver, ends_bind, ends_lift, hlengths]
  dsimp only
  rw [ends_bind, ends_assign, predicted_eq (hypred.trans hysize.symm) (hy.trans hysize.symm)]
  dsimp only [Solver.withComponent]
  rw [ends_bind, ends_assign, predicted_eq (hlpred.trans hlsize.symm) (hl.trans hlsize.symm)]
  dsimp only [Solver.withComponent]
  rw [ends_bind, ends_solver]
  dsimp only
  rw [if_neg hpos, ends_lift]
  unfold centring cubedQuotient
  dsimp only
  split_ifs with hmu hoverflow
  · exact ⟨Scalar.beq_iff.mp hmu, _, _, rfl, hysize', hlsize'⟩
  · simp at hoverflow
  · exact ⟨rfl, _, _, rfl, hysize', hlsize'⟩

end Loaded

/-! ## Iterating -/

variable [LinearOrder K] [ElementaryFunctions K]

/-- Slacks and multipliers have moved along a direction, by its step lengths. -/
def Solver.Steps (D : Data K) (s s' : Solver K) : Prop :=
  ∃ d alphaP alphaD, d.dy.size = D.m ∧ d.dlam.size = D.m ∧
    s.stepLengths d (stepFraction s) = .ok (alphaP, alphaD) ∧
    s'.y = Vector.add s.y (Vector.scale alphaP d.dy) ∧
    s'.lam = Vector.add s.lam (Vector.scale alphaD d.dlam)

variable {env : Environment σ K} {factored : σ → Option (Matrix K)}

/-- A step along the predictor direction alone moves the iterate, unless its lengths are refused. -/
theorem Loaded.ends_predictorIteration {affine : Newton.System.Direction K} (hm : 0 < D.m)
    (h : Loaded D f o r.solver) (hc : Consistent D r.solver)
    (haffine : IsNewton D r.solver.rp r.solver.rd affine) :
    Ends (predictorIteration affine)
      (fun _ r' => Loaded D f o r'.solver ∧ Consistent D r'.solver ∧ r.solver.Steps D r'.solver)
      (fun _ r' => Loaded D f o r'.solver ∧ Consistent D r'.solver ∧
        r'.solver.y = r.solver.y ∧ r'.solver.lam = r.solver.lam) r := by
  unfold predictorIteration
  rw [ends_bind, ends_solver, ends_bind, ends_lift]
  rcases hlengths : r.solver.stepLengths affine (stepFraction r.solver) with e | ⟨alphaP, alphaD⟩
  · exact ⟨h, hc, rfl, rfl⟩
  dsimp only
  refine (h.ends_takeStep hc hm haffine).bind ?_ fun _ _ hR => hR
  rintro _ r₁ ⟨h₁, hc₁, hy, hl⟩
  rw [ends_bind, ends_solver, ends_report]
  exact ⟨h₁, hc₁, affine, alphaP, alphaD, haffine.size_dy, haffine.size_dlam, hlengths, hy, hl⟩

/-- So does a step along a corrector direction, which is solved for with the factor of the
predictor. -/
theorem Loaded.ends_correctorIteration {affine : Newton.System.Direction K}
    (hexact : Exact env.backend factored) (hm : 0 < D.m) (h : Loaded D f o r.solver)
    (hc : Consistent D r.solver) (hlast : factored r.backend = some r.solver.kkt)
    (haffine : IsNewton D r.solver.rp r.solver.rd affine) :
    Ends (correctorIteration env affine)
      (fun _ r' => Loaded D f o r'.solver ∧ Consistent D r'.solver ∧ r.solver.Steps D r'.solver)
      (fun _ r' => Loaded D f o r'.solver ∧ Consistent D r'.solver ∧
        r'.solver.y = r.solver.y ∧ r'.solver.lam = r.solver.lam) r := by
  unfold correctorIteration
  rw [ends_bind, ends_solver]
  dsimp only
  refine (h.ends_measurePredictor hm haffine.size_dy haffine.size_dlam).bind ?_ ?_
  rotate_left
  · rintro _ r₁ ⟨-, yPred, lamPred, hs₁, hy, hl⟩
    rw [hs₁]
    exact ⟨h.of_predicted hy hl, ⟨hc.primal, hc.dual, hc.mu⟩, rfl, rfl⟩
  rintro sigma r₁ ⟨hbackend, yPred, lamPred, hs₁, hysize, hlsize⟩
  have h₁ : Loaded D f o r₁.solver := hs₁ ▸ h.of_predicted hysize hlsize
  have hc₁ : Consistent D r₁.solver := hs₁ ▸ ⟨hc.primal, hc.dual, hc.mu⟩
  have hy₁ : r₁.solver.y = r.solver.y := by rw [hs₁]
  have hl₁ : r₁.solver.lam = r.solver.lam := by rw [hs₁]
  -- the factor is that of the matrix as it is: measuring the predictor changes neither
  have hlast₁ : factored r₁.backend = some r₁.solver.kkt := by rw [hbackend, hlast, hs₁]
  refine (h₁.ends_directions_again hexact hlast₁ _).bind ?_ ?_
  rotate_left
  · intro _ r₂ hs₂
    rw [hs₂]
    exact ⟨h₁, hc₁, hy₁, hl₁⟩
  rintro d r₂ ⟨hs₂, hd⟩
  have h₂ : Loaded D f o r₂.solver := hs₂ ▸ h₁
  have hc₂ : Consistent D r₂.solver := hs₂ ▸ hc₁
  rw [← hs₂] at hd
  rw [ends_bind, ends_lift]
  rcases hlengths : r.solver.stepLengths d (stepFraction r.solver) with e | ⟨alphaP, alphaD⟩
  · exact ⟨h₂, hc₂, hs₂ ▸ hy₁, hs₂ ▸ hl₁⟩
  dsimp only
  refine (h₂.ends_takeStep hc₂ hm hd).bind ?_ fun _ _ hR => hR
  rintro _ r₃ ⟨h₃, hc₃, hy, hl⟩
  rw [ends_bind, ends_solver, ends_report]
  rw [hs₂, hy₁] at hy
  rw [hs₂, hl₁] at hl
  exact ⟨h₃, hc₃, d, alphaP, alphaD, hd.size_dy, hd.size_dlam, hlengths, hy, hl⟩

/-- An iteration keeps the residuals consistent, and moves the iterate unless it is refused. -/
theorem ends_iterate (hexact : Exact env.backend factored) (hm : 0 < D.m)
    (h : Loaded D f o r.solver) (hc : Consistent D r.solver) :
    Ends (iterate env)
      (fun _ r' => Loaded D f o r'.solver ∧ Consistent D r'.solver ∧ r.solver.Steps D r'.solver)
      (fun _ r' => Loaded D f o r'.solver ∧ Consistent D r'.solver ∧
        r'.solver.y = r.solver.y ∧ r'.solver.lam = r.solver.lam) r := by
  unfold iterate
  refine (h.ends_directions hexact .affine).bind ?_ ?_
  rotate_left
  · rintro _ r₁ ⟨kkt, hs₁, hkkt⟩
    rw [hs₁]
    exact ⟨h.of_kkt hkkt, ⟨hc.primal, hc.dual, hc.mu⟩, rfl, rfl⟩
  rintro affine r₁ ⟨kkt, hs₁, hkkt, hlast, haffine⟩
  have h₁ : Loaded D f o r₁.solver := hs₁ ▸ h.of_kkt hkkt
  have hc₁ : Consistent D r₁.solver := hs₁ ▸ ⟨hc.primal, hc.dual, hc.mu⟩
  have haffine₁ : IsNewton D r₁.solver.rp r₁.solver.rd affine := by
    rw [hs₁]
    exact haffine
  -- only the Newton matrix has changed, so a step from here is one from the start
  have hsteps : ∀ s', r₁.solver.Steps D s' → r.solver.Steps D s' := by
    rw [hs₁]
    exact fun _ hstep => hstep
  have hunmoved : r₁.solver.y = r.solver.y ∧ r₁.solver.lam = r.solver.lam := by
    rw [hs₁]
    exact ⟨rfl, rfl⟩
  rw [ends_bind, ends_solver]
  split_ifs
  · refine (h₁.ends_predictorIteration hm hc₁ haffine₁).mono ?_ ?_
    · exact fun _ _ ⟨h', hc', hstep⟩ => ⟨h', hc', hsteps _ hstep⟩
    · exact fun _ _ ⟨h', hc', hy, hl⟩ => ⟨h', hc', hy.trans hunmoved.1, hl.trans hunmoved.2⟩
  · have hlast₁ : factored r₁.backend = some r₁.solver.kkt := by rw [hlast, hs₁]
    refine (h₁.ends_correctorIteration hexact hm hc₁ hlast₁ haffine₁).mono ?_ ?_
    · exact fun _ _ ⟨h', hc', hstep⟩ => ⟨h', hc', hsteps _ hstep⟩
    · exact fun _ _ ⟨h', hc', hy, hl⟩ => ⟨h', hc', hy.trans hunmoved.1, hl.trans hunmoved.2⟩

end CentralPath.InteriorPoint
