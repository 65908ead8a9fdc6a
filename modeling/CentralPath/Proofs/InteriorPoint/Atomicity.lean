/-
  Failures are atomic toward the caller. Whatever refuses a solve, the problem at hand is what it was
  before; otherwise it has received what is reported. And where a solve for a direction is refused, the
  iterate, its residuals, the directions and the count and records of the iterations are those of the
  last iteration that was completed. The solver is in any state that its callers can bring it to
  (`Entrusted`). Nothing is asked of the backend or of the terms of the problem, and of the arithmetic
  only that two signs cancel.
-/
import CentralPath.Proofs.InteriorPoint.InPlace
import CentralPath.Proofs.InteriorPoint.Protocol

namespace CentralPath.InteriorPoint

open Backend (Environment Session Work)
open Backend.Work (Ends run_bind_of_error run_bind_of_ok run_change_bind run_solver_bind)
open Newton.System (Direction)
open Sparse (Matrix)

variable {σ α : Type} [Elementary α]

/-! ## Solvers in the hands of their callers -/

/-- The solvers that callers come to: they create one, have it solve whatever they like with whatever
backend, do to it anything that leaves the Hessian alone and the point and the linear term as long as
they are, and write over the Hessian. -/
inductive Entrusted : Solver α → Prop
  | created (id : Nat) (options : Options α) : Entrusted (.create id options)
  | solved {s : Solver α} (h : Entrusted s) {σ : Type} (env : Environment σ α) (terms : Terms α)
      (p : Problem α) (backend : σ) (events : List (Journal.Event α)) :
      Entrusted ((solveInPlace env terms).run.run (facing p ⟨s, backend, events⟩)).2.solver.1
  | touched {s s' : Solver α} (h : Entrusted s) (hframed : s.Framed s') : Entrusted s'
  | rewritten {s : Solver α} (h : Entrusted s) (G : Matrix α) (hG : G.Sound) : Entrusted { s with G }

section

variable {s : Solver α}

/-- Iterating is something that callers may do. -/
theorem Entrusted.iterated (h : Entrusted s) (env : Environment σ α) (backend : σ)
    (events : List (Journal.Event α)) :
    Entrusted ((iterate env).run.run ⟨s, backend, events⟩).2.solver :=
  h.touched ((overlooks_framed.iterate env).run ⟨s, backend, events⟩)

/-- So is writing over the components of a vector. -/
theorem Entrusted.overwritten (h : Entrusted s) {name : String} {v : Array α} {s' : Solver α}
    (hs : s.overwrite name v = .ok s') : Entrusted s' := by
  obtain ⟨k, w, hw, rfl⟩ := Solver.exists_of_overwrite hs
  exact h.touched (s.framed_withComponent_of_size fun _ => hw)

variable (hneg : ∀ a : α, - -a = a)
include hneg

theorem Entrusted.orderly (h : Entrusted s) : s.Orderly := by
  induction h with
  | created id options => exact Solver.orderly_create id options
  | @solved s _ σ env terms p backend events ih =>
    have hends := ends_solveInPlace hneg env terms (r := ⟨s, backend, events⟩) ih p
    unfold Work.Ends at hends
    rcases hrun : (solveInPlace env terms).run.run (facing p ⟨s, backend, events⟩) with
      ⟨_ | _, _⟩ <;> rw [hrun] at hends
    · exact hends.1
    · exact hends.1
  | touched _ hframed ih => exact ih.of_framed hframed
  | rewritten _ G hG ih => exact ⟨hG, ih.c⟩

/-- Solving a problem on its own terms is what callers do as a rule. -/
theorem Entrusted.session_solve (h : Entrusted s) (env : Environment σ α) (p : Problem α) (backend : σ)
    (events : List (Journal.Event α)) :
    Entrusted (solve env p ⟨s, backend, events⟩).session.solver := by
  have hsolved := h.solved env (Terms.of p) p backend events
  rwa [run_solveInPlace hneg env (r := ⟨s, backend, events⟩) (h.orderly hneg) p] at hsolved

end

/-! ## Iterations that are refused -/

/-- From session `r`, the solve for the predictor or the one for the corrector is refused for `e` and
leaves session `r'`. -/
inductive SolveRefused (env : Environment σ α) (r : Session (Solver α) σ α) (e : Fault α)
    (r' : Session (Solver α) σ α) : Prop
  | predictor (h : (directions env .affine true).run.run r = (.error e, r'))
  | corrector {affine : Direction α} {r₁ r₂ : Session (Solver α) σ α} {sigma : α}
      (hpredictor : (directions env .affine true).run.run r = (.ok affine, r₁))
      (hoption : r₁.solver.options.onlyPredict = false)
      (hmeasured : (measurePredictor affine).run.run r₁ = (.ok sigma, r₂))
      (h : (directions env (correctorAim r₁.solver sigma affine) false).run.run r₂ =
        (.error e, r'))

section

variable {env : Environment σ α} {r r' : Session (Solver α) σ α} {e : Fault α}

/-- The iteration is refused for that as well, at the same point. -/
theorem SolveRefused.run_iterate (h : SolveRefused env r e r') :
    (iterate env).run.run r = (.error e, r') := by
  unfold iterate
  cases h with
  | predictor h => exact run_bind_of_error h _
  | @corrector affine r₁ r₂ sigma hpredictor hoption hmeasured h =>
    have hcorrector : (correctorIteration env affine).run.run r₁ = (.error e, r') := by
      unfold correctorIteration
      rw [run_solver_bind]
      exact (run_bind_of_ok hmeasured _).trans (run_bind_of_error h _)
    rw [run_bind_of_ok hpredictor, run_solver_bind, hoption]
    exact hcorrector

/-- The step was not taken. -/
theorem SolveRefused.unmoved (h : SolveRefused env r e r') : r.solver.Unmoved r'.solver := by
  cases h with
  | predictor h =>
    have hpredictor := (unmoved_directions env .affine true).run r
    rwa [h] at hpredictor
  | @corrector affine r₁ r₂ sigma hpredictor _ hmeasured h =>
    have h₁ := (unmoved_directions env .affine true).run r
    have h₂ := (unmoved_measurePredictor affine).run r₁
    have h₃ := (unmoved_directions env (correctorAim r₁.solver sigma affine) false).run r₂
    rw [hpredictor] at h₁
    rw [hmeasured] at h₂
    rw [h] at h₃
    exact trans_of Solver.Unmoved (trans_of Solver.Unmoved h₁ h₂) h₃

/-! ## Solves that are refused at an iteration -/

/-- Iterations are made one after the other. -/
theorem run_iterateWithin_add {k : Nat} (h : (iterateWithin env k).run.run r = (.ok (), r'))
    (j : Nat) :
    (iterateWithin env (k + j)).run.run r = (iterateWithin env j).run.run r' := by
  induction k generalizing r with
  | zero =>
    obtain rfl : r = r' := (Prod.mk.inj h).2
    rw [Nat.zero_add]
  | succ k ih =>
    rw [Nat.succ_add, iterateWithin_succ, run_solver_bind]
    rw [iterateWithin_succ, run_solver_bind] at h
    split_ifs at h ⊢ with hconverged
    · -- a converged iterate is left alone, however much may be spent on it
      obtain rfl : r = r' := (Prod.mk.inj h).2
      cases j with
      | zero => rfl
      | succ j => rw [iterateWithin_succ, run_solver_bind, if_pos hconverged]
    · rcases hstep : (iterate env).run.run r with ⟨e | _, r₁⟩
      · rw [run_bind_of_error hstep] at h
        cases h
      rw [run_bind_of_ok hstep] at h ⊢
      rcases hbooks : (keepBooks env).run.run r₁ with ⟨e | _, r₂⟩
      · rw [run_bind_of_error hbooks] at h
        cases h
      rw [run_bind_of_ok hbooks] at h ⊢
      exact ih h

end

/-- A solve up to the point where `k` iterations are completed. -/
def upTo (env : Environment σ α) (p : Problem α) (terms : Terms α) (k : Nat) : Run σ α Unit := do
  Work.change fun s => { s with solveCalls := s.solveCalls + 1 }
  let before ← Work.solver
  prepareFor env p terms.compliance (terms.count before.options.skipTangential) before
  iterateWithin env k

/-- A solve comes to `r` with `k` iterations completed; there it goes on to another one, whose solve
for the predictor or for the corrector is refused for `e` and leaves `r'`. -/
structure Interrupted (env : Environment σ α) (p : Problem α) (terms : Terms α)
    (start : Session (Solver α) σ α) (k : Nat) (r : Session (Solver α) σ α) (e : Fault α)
    (r' : Session (Solver α) σ α) : Prop where
  constrained : terms.count start.solver.options.skipTangential ≠ 0
  reached : (upTo env p terms k).run.run start = (.ok (), r)
  budget : k < start.solver.options.maxIterations.toNat
  unconverged : r.solver.isConverged = false
  refused : SolveRefused env r e r'

section

variable {env : Environment σ α} {p : Problem α} {terms : Terms α}
  {start r r' : Session (Solver α) σ α} {k : Nat} {e : Fault α}

/-- The solve ends there. -/
theorem Interrupted.run_solveInPlace (h : Interrupted env p terms start k r e r') :
    (solveInPlace env terms).run.run (facing p start) = (.error e, facing p r') := by
  set counted : Session (Solver α) σ α :=
    { start with solver := { start.solver with solveCalls := start.solver.solveCalls + 1 } }
  have hreached := h.reached
  unfold upTo at hreached
  rw [run_change_bind, run_solver_bind] at hreached
  refine run_solveInPlace_of_error ?_
  unfold handOver
  rw [run_change_bind, run_solver_bind]
  dsimp only
  rw [if_neg h.constrained, run_solver_bind]
  rcases hprepared : (prepareFor env p terms.compliance
    (terms.count start.solver.options.skipTangential) counted.solver).run.run counted with
    ⟨e' | _, r₁⟩
  · rw [run_bind_of_error hprepared] at hreached
    cases hreached
  · rw [run_bind_of_ok hprepared] at hreached ⊢
    have hiterations :
        (iterateWithin env start.solver.options.maxIterations.toNat).run.run r₁ =
          (.error e, r') := by
      obtain ⟨j, hj⟩ := Nat.exists_eq_add_of_lt h.budget
      rw [hj, Nat.add_assoc, run_iterateWithin_add hreached, iterateWithin_succ, run_solver_bind,
        h.unconverged, if_neg Bool.false_ne_true, run_bind_of_error h.refused.run_iterate]
    exact run_bind_of_error hiterations _

end

/-! ## Atomicity -/

/-- What a solve and an iteration leave behind that are refused. A problem at hand is as it was, or, if
the solve returns, has received the point and the expanded multipliers that are reported. On the
problem's own terms that is the solve as it is. An iteration whose solve for a direction is refused has
moved nothing but the Newton matrix and the prediction, by itself as well as after the completed
iterations of a solve, which then ends there. -/
theorem Entrusted.solve_atomic (hneg : ∀ a : α, - -a = a) {env : Environment σ α}
    {r : Session (Solver α) σ α} (h : Entrusted r.solver) (p : Problem α) (terms : Terms α) :
    Ends (solveInPlace env terms)
      (fun out r' => r'.solver.2 = { p with
        x := some out.x, multipliers := some (expanded out.multipliers p.constraints) })
      (fun _ r' => r'.solver.2 = p) (facing p r) ∧
    (solveInPlace env (Terms.of p)).run.run (facing p r) =
      ((solve env p r).outcome, facing (solve env p r).problem (solve env p r).session) ∧
    (∀ e r', SolveRefused env r e r' →
      (iterate env).run.run r = (.error e, r') ∧ r.solver.Unmoved r'.solver) ∧
    ∀ k r₁ e r₂, Interrupted env p terms r k r₁ e r₂ →
      (solveInPlace env terms).run.run (facing p r) = (.error e, facing p r₂) ∧
        r₁.solver.Unmoved r₂.solver := by
  have horderly := h.orderly hneg
  refine ⟨?_, run_solveInPlace hneg env horderly p, fun e r' hrefused => ?_,
    fun k r₁ e r₂ hinterrupted => ?_⟩
  · exact (ends_solveInPlace hneg env terms horderly p).mono (fun _ _ h' => h'.2.2) fun _ _ h' => h'.2
  · exact ⟨hrefused.run_iterate, hrefused.unmoved⟩
  · exact ⟨hinterrupted.run_solveInPlace, hinterrupted.refused.unmoved⟩

theorem exists_of_isOk_eq_false {ε β : Type} {x : Except ε β} (h : x.isOk = false) :
    ∃ e, x = .error e := by
  cases x with
  | error e => exact ⟨e, rfl⟩
  | ok b => cases h

/-- A second solve that is cut off at its first corrector, with the solver that the first one left. -/
theorem solve_atomic_singleStep : ∃ (p : Problem ℚ) (r : Session (Solver ℚ) _ ℚ) (e : Fault ℚ)
    (r' : Session (Solver ℚ) _ ℚ), (halfLine 2 (-2) 0).Makes p ∧
      (∀ a : ℚ, - -a = a) ∧ Entrusted (singleStepAfter p).solver ∧
      Interrupted failsSixth p (Terms.of p) (singleStepAfter p) 0 r e r' ∧
      (solveInPlace failsSixth (Terms.of p)).run.run (facing p (singleStepAfter p)) =
        (.error e, facing p r') ∧
      r.solver.Unmoved r'.solver := by
  have hrun : (do
      let p ← (halfLine 2 (-2) 0).problem?
      let start := singleStepAfter p
      let reached := (upTo failsSixth p (Terms.of p) 0).run.run start
      let _ ← reached.1
      let predicted := (directions failsSixth .affine true).run.run reached.2
      let affine ← predicted.1
      let measured := (measurePredictor affine).run.run predicted.2
      let sigma ← measured.1
      let aim := correctorAim predicted.2.solver sigma affine
      let corrected := (directions failsSixth aim false).run.run measured.2
      pure (decide (p.activeConstraints start.solver.options.skipTangential ≠ 0 ∧
        0 < start.solver.options.maxIterations.toNat ∧ reached.2.solver.isConverged = false ∧
        predicted.2.solver.options.onlyPredict = false ∧ corrected.1.isOk = false)) :
        Except (Fault ℚ) Bool).toOption = some true := by
    decide +kernel
  obtain ⟨p, hp, hrun⟩ := exists_of_bind_toOption_eq_some hrun
  obtain ⟨_, hreached, hrun⟩ := exists_of_bind_toOption_eq_some hrun
  obtain ⟨affine, hpredictor, hrun⟩ := exists_of_bind_toOption_eq_some hrun
  obtain ⟨sigma, hmeasured, hrun⟩ := exists_of_bind_toOption_eq_some hrun
  obtain ⟨hm, hbudget, hconverged, hoption, hrefused⟩ :=
    of_decide_eq_true (Option.some.inj hrun)
  obtain ⟨e, he⟩ := exists_of_isOk_eq_false hrefused
  have hentrusted : Entrusted (singleStepAfter p).solver :=
    ((Entrusted.created 0 singleStep).session_solve neg_neg failsSixth p _ []).touched
      ⟨rfl, rfl, rfl⟩
  have hinterrupted : Interrupted failsSixth p (Terms.of p) (singleStepAfter p) 0 _ e _ :=
    ⟨hm, Prod.ext hreached rfl, hbudget, hconverged,
      .corrector (Prod.ext hpredictor rfl) hoption (Prod.ext hmeasured rfl) (Prod.ext he rfl)⟩
  obtain ⟨-, -, -, hsolve⟩ := hentrusted.solve_atomic neg_neg p (Terms.of p)
  obtain ⟨hrun, hunmoved⟩ := hsolve _ _ _ _ hinterrupted
  exact ⟨p, _, e, _, makes_halfLine hp, neg_neg, hentrusted, hinterrupted, hrun, hunmoved⟩

end CentralPath.InteriorPoint
