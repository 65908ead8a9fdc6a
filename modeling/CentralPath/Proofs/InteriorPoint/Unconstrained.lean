/-
  Two solves without constraints side by side. Whatever solves came before, both load the same
  Hessian and the same linear term and ask for the same solution; where the backends give the same,
  both hand out the same (`abreast_solveProblem_unconstrained`).
-/
import CentralPath.Proofs.InteriorPoint.Twins
import CentralPath.Proofs.InteriorPoint.Reachable

namespace CentralPath.InteriorPoint

open Backend (Environment Session Work)
open Backend.Work (Abreast abreast_change abreast_change_bind abreast_report_bind
  abreast_solver_bind)
open Sparse (Matrix)

variable {σ σ' K : Type} [Field K] [LinearOrder K] [ElementaryFunctions K]
  {env : Environment σ K} {env' : Environment σ' K} {r : Session (Solver K) σ K}
  {r' : Session (Solver K) σ' K} {p : Problem K} {q : Problem.Parts K} {L : σ → σ' → Prop}
  {R : Fault K → Fault K → Prop}

/-- What solves without constraints have in common once the problem is loaded: the number of unknowns,
the linear term, and a Hessian with the numbers given. -/
structure Solver.Level (value : Nat → Nat → K) (n : Nat) (s : Solver K) (s' : Solver K) : Prop where
  hessian : s.G.Carries n n value
  hessian' : s'.G.Carries n n value
  x : s'.x.size = s.x.size
  c : s'.c = s.c
  size_c : s.c.size = n

/-- Both solves put the same question, or both are refused for the same reason. -/
theorem abreast_pose (h : r.solver.Ready) (h' : r'.solver.Ready) {value : Nat → Nat → K}
    (hgive : ∀ i j : Nat, i < p.unknowns → j < p.unknowns →
      Sparse.EntriesGive p.hessianBlock.entries i j (value i j)) :
    Abreast (pose env p p.unknowns) (pose env' p p.unknowns)
      (fun G s G' s' => s.backend = r.backend ∧ s'.backend = r'.backend ∧ s.solver.G = G ∧
        s'.solver.G = G' ∧ s.solver.Level value p.unknowns s'.solver)
      (fun e s e' s' => e' = e ∧ s.backend = r.backend ∧ s'.backend = r'.backend) r r' := by
  have h₁ := h.allocate p.unknowns 0
  have h₁' := h'.allocate p.unknowns 0
  have hn : ∀ s : Solver K, (s.allocate p.unknowns 0).n = p.unknowns := fun s => by
    rw [s.allocate_eq]
  unfold pose
  rw [abreast_change_bind]
  refine ((ends_loadHessian (r := { r with solver := r.solver.allocate p.unknowns 0 }) h₁ value
    hgive).abreast (ends_loadHessian (r := { r' with solver := r'.solver.allocate p.unknowns 0 })
      h₁' value hgive) (Q := fun _ s _ s' => s.backend = r.backend ∧ s'.backend = r'.backend ∧
        (∃ G : Matrix K, s.solver = { r.solver.allocate p.unknowns 0 with G } ∧
          G.Carries p.unknowns p.unknowns value) ∧
        ∃ G : Matrix K, s'.solver = { r'.solver.allocate p.unknowns 0 with G } ∧
          G.Carries p.unknowns p.unknowns value)
      ?_ ?_ ?_ ?_).bind ?_
  · rintro _ s _ s' ⟨hb, -, hs⟩ ⟨hb', -, hs'⟩
    exact ⟨hb, hb', hs, hs'⟩
  · rintro e s e' s' ⟨hb, he, -⟩ ⟨hb', he', -⟩
    exact ⟨Option.some.inj (he'.symm.trans he), hb, hb'⟩
  · rintro _ s e' s' ⟨-, hnone, -⟩ ⟨-, hsome, -⟩
    cases hnone.symm.trans hsome
  · rintro e s _ s' ⟨-, hsome, -⟩ ⟨-, hnone, -⟩
    cases hnone.symm.trans hsome
  rintro _ r₂ _ r₂' ⟨hb₂, hb₂', ⟨G, hs₂, hG⟩, G', hs₂', hG'⟩
  refine Abreast.lift_bind rfl (fun linear _ => ?_) fun e _ => ⟨rfl, hb₂, hb₂'⟩
  have hcsize : r₂.solver.c.size = p.unknowns := by
    rw [hs₂]
    exact h₁.c.trans (hn _)
  have hc : r₂'.solver.c.size = r₂.solver.c.size := by
    rw [hs₂, hs₂', h₁'.c, h₁.c, hn, hn]
  unfold Solver.assign
  rw [bind_assoc, bind_assoc, abreast_solver_bind, bind_assoc, bind_assoc]
  refine Abreast.lift_bind (congrArg (Vector.fill? · _) hc) (fun c hfill => ?_)
    fun e _ => ⟨rfl, hb₂, hb₂'⟩
  rw [abreast_change_bind, abreast_solver_bind, abreast_change_bind, abreast_report_bind,
    Work.abreast_pure]
  have hcompress : ∀ {G : Matrix K}, G.Carries p.unknowns p.unknowns value →
      G.compress.1.Carries p.unknowns p.unknowns value := fun {G} hG =>
    ⟨hG.sound.compress, hG.rows_eq, hG.cols_eq, fun i j hi hj =>
      (hG.sound.valueAt_compress i j).trans (hG.valueAt_eq i j hi hj)⟩
  refine ⟨hb₂, hb₂', rfl, rfl, ?_⟩
  rw [hs₂, hs₂']
  exact ⟨hcompress hG, hcompress hG', h₁'.x.trans ((hn _).trans (h₁.x.trans (hn _)).symm), rfl,
    (Vector.size_of_fill? hfill).trans hcsize⟩

/-- Both solves make the same of the same answer. -/
theorem abreast_settle {value : Nat → Nat → K} (h : r.solver.Level value p.unknowns r'.solver)
    (full : Int) (found : Array K) :
    Abreast (settle p p.unknowns full r.solver.G found) (settle p p.unknowns full r'.solver.G found)
      (fun d s d' s' => d' = d ∧ s.backend = r.backend ∧ s'.backend = r'.backend)
      (fun e s e' s' => e' = e ∧ s.backend = r.backend ∧ s'.backend = r'.backend) r r' := by
  unfold settle Solver.assign
  rw [bind_assoc, bind_assoc, abreast_solver_bind, bind_assoc, bind_assoc]
  refine Abreast.lift_bind (congrArg (Vector.fill? · _) h.x) (fun x _ => ?_)
    fun e _ => ⟨rfl, rfl, rfl⟩
  have hproduct : ∀ v : Array K, r'.solver.G.mulVec v false = r.solver.G.mulVec v false :=
    h.hessian.mulVec_congr h.hessian'
  rw [abreast_change_bind, abreast_change_bind, abreast_report_bind, abreast_solver_bind]
  dsimp only [Solver.withComponent]
  refine Abreast.lift_bind rfl (fun head _ => ?_) fun e _ => ⟨rfl, rfl, rfl⟩
  refine Abreast.lift_bind rfl (fun received _ => ?_) fun e _ => ⟨rfl, rfl, rfl⟩
  refine Abreast.lift_bind (hproduct x) (fun image _ => ?_) fun e _ => ⟨rfl, rfl, rfl⟩
  refine Abreast.lift_bind (by rw [h.c]) (fun rd _ => ?_) fun e _ => ⟨rfl, rfl, rfl⟩
  refine Abreast.lift_bind ?_ (fun objective _ => ⟨rfl, rfl, rfl⟩) fun e _ => ⟨rfl, rfl, rfl⟩
  unfold Solver.objective
  dsimp only
  rw [h.c, hproduct]

/-- Without constraints in use, what a solve does is settled by the problem and the answer of the
backend. `L` is what the backends have in common, and `R` what refusals have. -/
theorem abreast_solveUnconstrained (h : r.solver.Ready) (h' : r'.solver.Ready)
    {value : Nat → Nat → K} (hgive : ∀ i j : Nat, i < p.unknowns → j < p.unknowns →
      Sparse.EntriesGive p.hessianBlock.entries i j (value i j)) (hR : ∀ e, R e e)
    (hL : L r.backend r'.backend)
    (hask : ∀ (s : Session (Solver K) σ K) (s' : Session (Solver K) σ' K) (G G' : Matrix K)
      (rhs : Array K), s.backend = r.backend → s'.backend = r'.backend →
      G.Carries p.unknowns p.unknowns value → G'.Carries p.unknowns p.unknowns value →
      rhs.size = p.unknowns →
      Abreast
        (Work.request env (.hessian s.solver.id) G rhs .complete "unconstrained system" >>=
          fun _ => Work.solution env)
        (Work.request env' (.hessian s'.solver.id) G' rhs .complete "unconstrained system" >>=
          fun _ => Work.solution env')
        (fun v t v' t' => v' = v ∧ t.solver = s.solver ∧ t'.solver = s'.solver ∧
          L t.backend t'.backend)
        (fun e t e' t' => R e e' ∧ L t.backend t'.backend) s s') (full : Int) :
    Abreast (solveUnconstrained env p p.unknowns full) (solveUnconstrained env' p p.unknowns full)
      (fun d s d' s' => d' = d ∧ L s.backend s'.backend)
      (fun e s e' s' => R e e' ∧ L s.backend s'.backend) r r' := by
  rw [solveUnconstrained_eq, solveUnconstrained_eq]
  refine ((abreast_pose h h' hgive).mono (fun _ _ _ _ h₁ => h₁) ?_).bind ?_
  · rintro _ s e s' ⟨rfl, hb, hb'⟩
    exact ⟨hR e, hb ▸ hb' ▸ hL⟩
  rintro _ r₁ _ r₁' ⟨hb₁, hb₁', rfl, rfl, h₁⟩
  rw [abreast_solver_bind, h₁.c]
  refine (hask r₁ r₁' _ _ _ hb₁ hb₁' h₁.hessian h₁.hessian' ?_).bind ?_
  · exact (Vector.size_neg _).trans h₁.size_c
  rintro _ r₂ found r₂' ⟨rfl, hs₂, hs₂', hL₂⟩
  rw [← hs₂, ← hs₂'] at h₁ ⊢
  refine (abreast_settle h₁ full found).mono ?_ ?_
  · rintro _ s d s' ⟨rfl, hb, hb'⟩
    exact ⟨rfl, hb ▸ hb' ▸ hL₂⟩
  · rintro _ s e s' ⟨rfl, hb, hb'⟩
    exact ⟨hR e, hb ▸ hb' ▸ hL₂⟩

/-- Solves without constraints come to the same, whatever came before. -/
theorem abreast_solveProblem_unconstrained (h : r.solver.Ready) (h' : r'.solver.Ready)
    (hskip : r'.solver.options.skipTangential = r.solver.options.skipTangential) (hq : q.Makes p)
    (hm : p.activeConstraints r.solver.options.skipTangential = 0) (hR : ∀ e, R e e)
    (hL : L r.backend r'.backend)
    (hask : ∀ (s : Session (Solver K) σ K) (s' : Session (Solver K) σ' K) (G G' : Matrix K)
      (rhs : Array K), s.backend = r.backend → s'.backend = r'.backend →
      G.Carries p.unknowns p.unknowns (r.solver.options.data q).G →
      G'.Carries p.unknowns p.unknowns (r.solver.options.data q).G → rhs.size = p.unknowns →
      Abreast
        (Work.request env (.hessian s.solver.id) G rhs .complete "unconstrained system" >>=
          fun _ => Work.solution env)
        (Work.request env' (.hessian s'.solver.id) G' rhs .complete "unconstrained system" >>=
          fun _ => Work.solution env')
        (fun v t v' t' => v' = v ∧ t.solver = s.solver ∧ t'.solver = s'.solver ∧
          L t.backend t'.backend)
        (fun e t e' t' => R e e' ∧ L t.backend t'.backend) s s') :
    Abreast (solveProblem env p) (solveProblem env' p)
      (fun d s d' s' => d' = d ∧ L s.backend s'.backend)
      (fun e s e' s' => R e e' ∧ L s.backend s'.backend) r r' := by
  have hm' : p.activeConstraints r'.solver.options.skipTangential = 0 := by rw [hskip, hm]
  have hfit := hq.fit
  have hn : p.unknowns = (r.solver.options.data q).n := hfit.unknowns
  have hgive : ∀ i j : Nat, i < p.unknowns → j < p.unknowns → Sparse.EntriesGive
      p.hessianBlock.entries i j ((r.solver.options.data q).G i j) := fun i j hi hj =>
    hfit.hessianBlock_gives (hn ▸ hi) (hn ▸ hj)
  have hcounted : ∀ {s : Solver K}, s.Ready → { s with solveCalls := s.solveCalls + 1 }.Ready :=
    fun h => { h with }
  unfold solveProblem
  rw [abreast_change_bind, abreast_solver_bind]
  dsimp only
  rw [if_pos hm, if_pos hm']
  refine abreast_solveUnconstrained (hcounted h) (hcounted h') hgive hR ?_ ?_ _
  · exact hL
  · exact hask

end CentralPath.InteriorPoint
