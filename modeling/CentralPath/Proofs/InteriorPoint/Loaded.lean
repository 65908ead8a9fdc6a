/-
  A solver whose problem is loaded and whose system is assembled. `Loaded` is what every step behind
  the assembly keeps. Under it the products read from the Newton matrix are those of the data, the
  residuals that are computed are those of the data, and a direction from an exact backend is a
  Newton direction.
-/
import CentralPath.Proofs.Backend.Exact
import CentralPath.Proofs.InteriorPoint.Assembly

open CentralPath.Vector (coord)

namespace CentralPath.InteriorPoint

open Backend (Environment Exact Job Session Work)
open Backend.Work (Ends ends_bind ends_change ends_lift ends_report ends_solver ends_stopAt)
open Newton (Formulation IsNewton systemFor)
open Problem (Data)
open Sparse (Matrix)

variable {σ K : Type} [Field K] {r : Session (Solver K) σ K} {f : Formulation} {D : Data K}
  {o : Options K} {s : Solver K}

/-- The problem is loaded and the system assembled. -/
structure Loaded (D : Data K) (f : Formulation) (o : Options K) (s : Solver K) : Prop where
  ready : s.Ready
  options : s.options = o
  n_eq : s.n = D.n
  m_eq : s.m = D.m
  system : s.system = some (systemFor f D)
  kkt : Newton.Holds f D s.kkt
  compliance : Newton.Complies D s.compliance?
  vectors : s.HasVectors D

/-- The maintained residuals and the duality measure are those of the data at the iterate. -/
structure Consistent (D : Data K) (s : Solver K) : Prop where
  primal : s.rp = D.primalResidual s.x s.y s.lam
  dual : s.rd = D.dualResidual s.x s.lam
  mu : s.mu = D.dualityMeasure s.y s.lam

/-- The solver with the residuals and the duality measure of the data at its iterate. -/
def Solver.measured (D : Data K) (s : Solver K) : Solver K :=
  { s with
    rp := D.primalResidual s.x s.y s.lam
    rd := D.dualResidual s.x s.lam
    mu := D.dualityMeasure s.y s.lam }

theorem consistent_measured (D : Data K) (s : Solver K) : Consistent D (s.measured D) :=
  ⟨rfl, rfl, rfl⟩

namespace Loaded

/-! ## Frames -/

/-- What the system does not depend on may change. -/
theorem of_iterate (h : Loaded D f o s) {x y lam rp rd : Array K} (mu : K)
    (hx : x.size = D.n) (hy : y.size = D.m) (hl : lam.size = D.m) (hrp : rp.size = D.m)
    (hrd : rd.size = D.n) : Loaded D f o { s with x, y, lam, rp, rd, mu } :=
  { h with
    ready := { h.ready with
      x := hx.trans h.n_eq.symm, y := hy.trans h.m_eq.symm, lam := hl.trans h.m_eq.symm
      rp := hrp.trans h.m_eq.symm, rd := hrd.trans h.n_eq.symm }
    vectors := { h.vectors with } }

theorem of_point (h : Loaded D f o s) {x y lam : Array K} (hx : x.size = D.n) (hy : y.size = D.m)
    (hl : lam.size = D.m) : Loaded D f o { s with x, y, lam } :=
  h.of_iterate s.mu hx hy hl (h.ready.rp.trans h.m_eq) (h.ready.rd.trans h.n_eq)

theorem measured (h : Loaded D f o s) : Loaded D f o (s.measured D) :=
  h.of_iterate _ (h.ready.x.trans h.n_eq) (h.ready.y.trans h.m_eq) (h.ready.lam.trans h.m_eq)
    (D.size_primalResidual _ _ _) (D.size_dualResidual _ _)

theorem of_kkt (h : Loaded D f o s) {kkt : Matrix K} (hkkt : Newton.Holds f D kkt) :
    Loaded D f o { s with kkt } :=
  { h with ready := { h.ready with kkt := hkkt.sound }, kkt := hkkt, vectors := { h.vectors with } }

theorem system?_eq (h : Loaded D f o s) : s.system? = .ok (systemFor f D) := by
  unfold Solver.system?
  rw [h.system]

variable [LinearOrder K]

/-- The direction that is read off an exact solution. -/
theorem isNewton (h : Loaded D f o s) {aim : Newton.System.Aim K} {rhs solution : Array K}
    (hrhs : (systemFor f D).rightHandSide s.rp s.rd s.y s.lam aim = .ok rhs)
    (hsolves : s.kkt.Solves solution rhs) {d : Newton.System.Direction K}
    (hd : (systemFor f D).direction solution s.kkt s.rp s.compliance? = .ok d) :
    IsNewton D s.rp s.rd d :=
  h.kkt.isNewton hsolves hrhs (h.ready.rd.trans h.n_eq) (h.ready.rp.trans h.m_eq) h.compliance hd

variable [ElementaryFunctions K]

/-! ## Products -/

section

variable (h : Loaded D f o s) {v : Array K}
include h

theorem mulA_eq (hv : v.size = D.n) : ∃ u, s.mulA v = .ok u ∧ u.size = D.m ∧
    ∀ k, k < D.m → coord u k = ∑ j ∈ Finset.range D.n, D.A k j * coord v j := by
  unfold Solver.mulA
  rw [h.system?_eq]
  exact h.kkt.mulA_eq hv

theorem mulG_eq (hv : v.size = D.n) : ∃ u, s.mulG v = .ok u ∧ u.size = D.n ∧
    ∀ i, i < D.n → coord u i = ∑ j ∈ Finset.range D.n, D.G i j * coord v j := by
  unfold Solver.mulG
  rw [h.system?_eq]
  exact h.kkt.mulG_eq hv

theorem mulNegAT_eq (hv : v.size = D.m) : ∃ u, s.mulNegAT v = .ok u ∧ u.size = D.n ∧
    ∀ i, i < D.n → coord u i = -∑ k ∈ Finset.range D.m, D.A k i * coord v k := by
  unfold Solver.mulNegAT
  rw [h.system?_eq]
  exact h.kkt.mulNegAT_eq hv

theorem mulE_eq (hv : v.size = D.m) : ∃ u, s.mulE v = .ok u ∧ u.size = D.m ∧
    ∀ k, k < D.m → coord u k = ∑ l ∈ Finset.range D.m, D.E k l * coord v l := by
  have hcomplies := h.compliance
  unfold Solver.compliance? at hcomplies
  unfold Solver.mulE
  split_ifs at hcomplies ⊢
  · exact hcomplies.mulVec_eq hv
  · refine ⟨_, rfl, (Vector.size_zeros s.m).trans h.m_eq, fun k hk => ?_⟩
    rw [hcomplies.sum_eq_zero v hk, Vector.coord_zeros]

/-! ## Residuals -/

theorem dualityMeasure_eq : s.dualityMeasure = D.dualityMeasure s.y s.lam := by
  unfold Solver.dualityMeasure Data.dualityMeasure
  rw [Vector.dot_eq_sum (h.ready.y.trans h.m_eq) (h.ready.lam.trans h.m_eq), h.m_eq]

omit [ElementaryFunctions K] in
/-- The sum of the products that a primal residual is made of. -/
theorem primalResidual_of_products {a e : Array K} (ha : a.size = D.m) (he : e.size = D.m)
    (hacoord : ∀ k, k < D.m → coord a k = ∑ j ∈ Finset.range D.n, D.A k j * coord s.x j)
    (hecoord : ∀ k, k < D.m → coord e k = ∑ l ∈ Finset.range D.m, D.E k l * coord s.lam l) :
    Vector.add (Vector.sub (Vector.sub a s.y) s.b) e = D.primalResidual s.x s.y s.lam := by
  have hy := h.ready.y.trans h.m_eq
  have hb := h.ready.b.trans h.m_eq
  have h₁ : (Vector.sub a s.y).size = D.m := by rw [Vector.size_sub, ha, hy, Nat.min_self]
  have h₂ : (Vector.sub (Vector.sub a s.y) s.b).size = D.m := by
    rw [Vector.size_sub, h₁, hb, Nat.min_self]
  have h₃ : (Vector.add (Vector.sub (Vector.sub a s.y) s.b) e).size = D.m := by
    rw [Vector.size_add, h₂, he, Nat.min_self]
  refine Vector.ext_coord (h₃.trans (D.size_primalResidual _ _ _).symm) fun k hk => ?_
  rw [h₃] at hk
  rw [D.coord_primalResidual _ _ _ hk, Vector.coord_add (h₂.trans he.symm),
    Vector.coord_sub (h₁.trans hb.symm), Vector.coord_sub (ha.trans hy.symm), hacoord k hk,
    hecoord k hk, h.vectors.bound k hk]

omit [ElementaryFunctions K] in
/-- The sum of the products that a dual residual is made of. -/
theorem dualResidual_of_products {v : Array K} (hv : v.size = D.n)
    (hvcoord : ∀ i, i < D.n → coord v i = (∑ j ∈ Finset.range D.n, D.G i j * coord s.x j) -
      ∑ k ∈ Finset.range D.m, D.A k i * coord s.lam k) :
    Vector.add v s.c = D.dualResidual s.x s.lam := by
  have hc := h.ready.c.trans h.n_eq
  have h₁ : (Vector.add v s.c).size = D.n := by rw [Vector.size_add, hv, hc, Nat.min_self]
  refine Vector.ext_coord (h₁.trans (D.size_dualResidual _ _).symm) fun i hi => ?_
  rw [h₁] at hi
  rw [D.coord_dualResidual _ _ hi, Vector.coord_add (hv.trans hc.symm), hvcoord i hi,
    h.vectors.linear i hi]

/-- The residuals that are computed at an iterate are those of the data. -/
theorem updateResiduals_eq : s.updateResiduals = .ok (s.measured D) := by
  obtain ⟨a, ha, hasize, hacoord⟩ := h.mulA_eq (h.ready.x.trans h.n_eq)
  obtain ⟨e, he, hesize, hecoord⟩ := h.mulE_eq (h.ready.lam.trans h.m_eq)
  obtain ⟨g, hg, hgsize, hgcoord⟩ := h.mulG_eq (h.ready.x.trans h.n_eq)
  obtain ⟨t, ht, htsize, htcoord⟩ := h.mulNegAT_eq (h.ready.lam.trans h.m_eq)
  have hrd : Vector.add (Vector.add g t) s.c = D.dualResidual s.x s.lam := by
    refine h.dualResidual_of_products ?_ fun i hi => ?_
    · rw [Vector.size_add, hgsize, htsize, Nat.min_self]
    · rw [Vector.coord_add (hgsize.trans htsize.symm), hgcoord i hi, htcoord i hi,
        ← sub_eq_add_neg]
  unfold Solver.updateResiduals Solver.measured
  rw [ha, he, hg, ht, ← h.primalResidual_of_products hasize hesize hacoord hecoord, ← hrd,
    ← h.dualityMeasure_eq]
  rfl

end

theorem ends_refreshResiduals_iff (h : Loaded D f o r.solver)
    {Q : Unit → Session (Solver K) σ K → Prop} {R : Fault K → Session (Solver K) σ K → Prop} :
    Ends refreshResiduals Q R r ↔ Q () { r with solver := r.solver.measured D } := by
  unfold refreshResiduals
  rw [ends_bind, ends_solver, ends_bind, ends_lift, h.updateResiduals_eq]
  exact Iff.rfl

/-- Computed residuals are consistent with the iterate. -/
theorem ends_refreshResiduals (h : Loaded D f o r.solver) :
    Ends refreshResiduals
      (fun _ r' => r'.backend = r.backend ∧ (∃ rp rd mu, r'.solver = { r.solver with rp, rd, mu }) ∧
        Loaded D f o r'.solver ∧ Consistent D r'.solver)
      (fun _ _ => False) r :=
  h.ends_refreshResiduals_iff.mpr ⟨rfl, ⟨_, _, _, rfl⟩, h.measured, consistent_measured D _⟩

/-! ## Directions -/

/-- Bringing the matrix to the iterate keeps the constant blocks, also where it is refused. -/
theorem ends_updateIterateBlocks (h : Loaded D f o r.solver) :
    Ends updateIterateBlocks
      (fun _ r' => ∃ kkt : Matrix K, r'.solver = { r.solver with kkt } ∧ Newton.Holds f D kkt)
      (fun _ r' => ∃ kkt : Matrix K, r'.solver = { r.solver with kkt } ∧ Newton.Holds f D kkt)
      r := by
  have hkkt := h.kkt.assemble r.solver.y r.solver.lam r.solver.diagE
  unfold updateIterateBlocks
  rw [ends_bind, ends_solver, ends_bind, ends_lift, h.system?_eq]
  dsimp only
  rw [ends_bind, ends_change, ends_bind, ends_report, ends_stopAt]
  split
  · exact ⟨_, rfl, hkkt⟩
  · exact ⟨_, rfl, hkkt⟩

variable {env : Environment σ K} {factored : σ → Option (Matrix K)}

/-- A direction from the matrix at the current iterate. -/
theorem ends_directions (hexact : Exact env.backend factored) (h : Loaded D f o r.solver)
    (aim : Newton.System.Aim K) :
    Ends (directions env aim true)
      (fun d r' => ∃ kkt : Matrix K, r'.solver = { r.solver with kkt } ∧ Newton.Holds f D kkt ∧
        factored r'.backend = some kkt ∧ IsNewton D r.solver.rp r.solver.rd d)
      (fun _ r' => ∃ kkt : Matrix K, r'.solver = { r.solver with kkt } ∧ Newton.Holds f D kkt)
      r := by
  unfold directions
  simp only [if_pos]
  refine h.ends_updateIterateBlocks.bind ?_ fun _ _ h' => h'
  rintro _ r₁ ⟨kkt, hs₁, hkkt⟩
  have h₁ : Loaded D f o r₁.solver := hs₁ ▸ h.of_kkt hkkt
  rw [ends_bind, ends_solver, ends_bind, ends_lift, h₁.system?_eq]
  dsimp only
  rw [ends_bind, ends_lift]
  rcases hrhs : (systemFor f D).rightHandSide r₁.solver.rp r₁.solver.rd r₁.solver.y r₁.solver.lam
    aim with e | rhs
  · exact ⟨kkt, hs₁, hkkt⟩
  dsimp only
  unfold newtonSolve
  refine (hexact.ends_complete (r := r₁) (.newton r₁.solver.id) r₁.solver.kkt rhs "KKT system").bind
    ?_ fun _ r₂ hs₂ => ⟨kkt, hs₂.trans hs₁, hkkt⟩
  rintro solution r₂ ⟨hs₂, hfactored, hsolves⟩
  rw [ends_lift]
  rcases hd : (systemFor f D).direction solution r₁.solver.kkt r₁.solver.rp r₁.solver.compliance?
    with e | d
  · exact ⟨kkt, hs₂.trans hs₁, hkkt⟩
  · have hnewton := h₁.isNewton hrhs hsolves hd
    rw [hs₁] at hfactored hnewton
    exact ⟨kkt, hs₂.trans hs₁, hkkt, hfactored, hnewton⟩

/-- A direction from the matrix that was factorized last, which is the current one. -/
theorem ends_directions_again (hexact : Exact env.backend factored) (h : Loaded D f o r.solver)
    (hlast : factored r.backend = some r.solver.kkt) (aim : Newton.System.Aim K) :
    Ends (directions env aim false)
      (fun d r' => r'.solver = r.solver ∧ IsNewton D r.solver.rp r.solver.rd d)
      (fun _ r' => r'.solver = r.solver) r := by
  unfold directions
  simp only [if_neg Bool.false_ne_true]
  rw [ends_bind, ends_solver, ends_bind, ends_lift, h.system?_eq]
  dsimp only
  rw [ends_bind, ends_lift]
  rcases hrhs : (systemFor f D).rightHandSide r.solver.rp r.solver.rd r.solver.y r.solver.lam aim
    with e | rhs
  · rfl
  dsimp only
  unfold newtonSolve
  refine (hexact.ends_solve (.newton r.solver.id) hlast rhs "KKT system").bind ?_ fun _ _ hs => hs
  rintro solution r₁ ⟨hs₁, -, hsolves⟩
  rw [ends_lift]
  rcases hd : (systemFor f D).direction solution r.solver.kkt r.solver.rp r.solver.compliance?
    with e | d
  · exact hs₁
  · exact ⟨hs₁, h.isNewton hrhs hsolves hd⟩

end Loaded

end CentralPath.InteriorPoint
