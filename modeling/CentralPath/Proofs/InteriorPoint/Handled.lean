/-
  The solvers that callers come to have, whatever their backends do. A run is abreast of itself, so
  what agreeing solvers keep, one solver keeps on its own: wherever it ends or is refused, any problem
  may follow (`Handled.usable`).
-/
import CentralPath.Proofs.InteriorPoint.Answers

namespace CentralPath.InteriorPoint

open Backend (Environment Job Session Work)
open Backend.Work (Abreast Ends abreast_request abreast_solver_bind abreast_stopAt abreast_solution)
open Newton (Formulation systemFor)
open Problem (Data)

/-- Options are like themselves. -/
theorem Options.Alike.refl {K : Type} (o : Options K) : o.Alike o := ⟨_, _, _, _, _, _, rfl⟩

variable {σ K : Type} [Field K] [LinearOrder K] [ElementaryFunctions K] {env : Environment σ K}
  {r s s' : Session (Solver K) σ K} {p : Problem K} {q : Problem.Parts K} {D : Data K}
  {f : Formulation} {o : Options K}

/-! ## Beside itself -/

/-- A solver beside itself. -/
def Pairing.diagonal (env : Environment σ K) (D : Data K) (f : Formulation) (o : Options K) :
    Pairing σ σ K where
  env
  env' := env
  data := D
  f
  f' := f
  o
  o' := o
  link t t' := t' = t
  held _ _ _ t t' := t' = t
  good _ := True
  refused e e' := e' = e

omit [Field K] [LinearOrder K] [ElementaryFunctions K] in
/-- What a backend answers depends on what is brought to it. -/
theorem abreast_newtonSolve_self [Elementary K] (h : tie s' = tie s) (rhs : Array K) (job : Job) :
    Abreast (newtonSolve env rhs job) (newtonSolve env rhs job)
      (fun v u v' u' => v' = v ∧ u.solver = s.solver ∧ u'.solver = s'.solver ∧ tie u' = tie u)
      (fun e u e' u' => e' = e ∧ u.solver = s.solver ∧ u'.solver = s'.solver ∧ tie u' = tie u)
      s s' := by
  obtain ⟨hid, hkkt, hbackend⟩ : s'.solver.id = s.solver.id ∧ s'.solver.kkt = s.solver.kkt ∧
      s'.backend = s.backend := ⟨congrArg Tie.id h, congrArg Tie.kkt h, congrArg Tie.backend h⟩
  unfold newtonSolve
  rw [abreast_solver_bind, hid, hkkt]
  refine Abreast.bind (P := fun _ u _ u' => u.solver = s.solver ∧ u'.solver = s'.solver ∧
    u'.backend = u.backend) ?_ ?_
  · rw [abreast_request, hbackend]
    have htie : ∀ (b : σ) (es es' : List (Journal.Event K)),
        tie { s' with backend := b, events := es' } = tie { s with backend := b, events := es } := by
      intro b es es'
      rw [tie, tie, hid, hkkt]
    refine Abreast.lift_bind rfl (fun status _ => ?_) fun e _ => ⟨rfl, rfl, rfl, htie _ _ _⟩
    exact abreast_stopAt rfl ⟨rfl, rfl, rfl⟩ fun e _ => ⟨rfl, rfl, rfl, htie _ _ _⟩
  · rintro _ u _ u' ⟨hu, hu', hb⟩
    have htie : tie u' = tie u := by rw [tie, tie, hu, hu', hid, hkkt, hb]
    refine abreast_solution (by rw [hb]) (fun v _ => ⟨rfl, hu, hu', htie⟩)
      fun e _ => ⟨rfl, hu, hu', htie⟩

theorem Pairing.answers_diagonal (env : Environment σ K) (D : Data K) (f : Formulation)
    (o : Options K) : (Pairing.diagonal env D f o).Answers where
  debug := rfl
  formulation := rfl
  refused_refl _ := rfl
  good_ones _ := trivial
  link_of_held h := h
  link_assemble := by
    rintro t _ a rfl
    rfl
  complete := by
    rintro t _ a y lam rhs s s' rfl - - hs hs'
    exact (abreast_newtonSolve_self (hs'.trans hs.symm) rhs .complete).mono
      (fun _ _ _ _ ⟨hv, hu, hu', htie⟩ => ⟨hv, hu, hu', fun _ => htie⟩) fun _ _ _ _ hR => hR
  again rhs _ _ hheld := abreast_newtonSolve_self hheld rhs .solve

/-! ## Many solves -/

/-- Up to its first iterate a solve keeps its problem in place. -/
theorem Solver.Usable.ends_prepare (env : Environment σ K) (h : r.solver.Usable) (hq : q.Makes p)
    (hm : 0 < (r.solver.options.data q).m) :
    Ends (prepare env p)
      (fun _ r' => ∃ f, Assembled (r.solver.options.data q) f r.solver.options r'.solver)
      (fun _ r' => r'.solver.Usable ∧
        (r'.solver.A = r.solver.A ∨ r'.solver.A.rows = (r.solver.options.data q).m)) r := by
  rw [ends_prepare_iff]
  refine (ends_arrange env h.toReady hq).mono ?_ fun _ _ h' => ⟨h'.2.1.usable h, h'.2.1.jacobian⟩
  rintro _ r₁ ⟨-, -, f, -, h₁⟩
  set P := Pairing.diagonal env (r.solver.options.data q) f r.solver.options
  have hP : P.Coupled := (Pairing.answers_diagonal env _ f _).coupled
  have halong : P.Alongside (tie r₁) (tie r₁) r₁.solver.book r₁.solver.book r₁ r₁ :=
    ⟨h₁.assembled h, h₁.assembled h, hm, .refl _, rfl, rfl, rfl, rfl, rfl⟩
  refine (hP.abreast_startWith halong rfl r.solver.options.startingPoint (fun _ => rfl)
    fun _ => ⟨rfl, rfl, trivial⟩).ends.mono ?_ ?_
  · rintro _ r₂ ⟨_, _, htwin, -⟩
    exact ⟨f, htwin.left⟩
  · rintro _ r₂ ⟨-, _, _, _, _, h₂, -⟩
    exact ⟨h₂.left.usable, .inr h₂.left.jacobian.rows_eq⟩

/-- So does every iteration. -/
theorem Assembled.ends_iterate (env : Environment σ K) (h : Assembled D f o r.solver)
    (hm : 0 < D.m) :
    Ends (iterate env) (fun _ r' => Assembled D f o r'.solver)
      (fun _ r' => r'.solver.Usable ∧ r'.solver.A.rows = D.m) r := by
  set P := Pairing.diagonal env D f o
  have hP : P.Coupled := (Pairing.answers_diagonal env D f o).coupled
  have hagree : P.Agree r.solver.book r.solver.book r r :=
    ⟨tie r, tie r, ⟨⟨h, h, hm, .refl _, rfl, rfl, rfl, rfl, rfl⟩, rfl, rfl, rfl, rfl, rfl, rfl⟩, rfl⟩
  refine (hP.abreast_iterate hagree trivial).ends.mono ?_ ?_
  · rintro _ r₁ ⟨_, _, htwin, -⟩
    exact htwin.left
  · rintro _ r₁ ⟨-, _, _, _, _, h₁, -⟩
    exact ⟨h₁.left.usable, h₁.left.jacobian.rows_eq⟩

/-- A solve with constraints that returns leaves its problem in place, and reports the measures that
are maintained. One that is refused does so in a solver that any problem may follow. -/
theorem ends_solveProblem_assembled (env : Environment σ K) (h : r.solver.Usable) (hq : q.Makes p)
    (hm : p.activeConstraints r.solver.options.skipTangential ≠ 0) :
    Ends (solveProblem env p)
      (fun d r' => (∃ f, Assembled (r.solver.options.data q) f r.solver.options r'.solver) ∧
        d.outcome.stage ≠ .degenerate ∧ d.outcome.measures = r'.solver.measures)
      (fun _ r' => r'.solver.Usable ∧
        (r'.solver.A = r.solver.A ∨ r'.solver.A.rows = (r.solver.options.data q).m)) r := by
  have hactive : p.activeConstraints r.solver.options.skipTangential =
      ((r.solver.options.data q).m : Int) := hq.fit.activeConstraints
  have hpos : 0 < (r.solver.options.data q).m := by omega
  rw [ends_solveProblem hm]
  refine (h.ends_prepare env hq hpos).mono ?_ fun _ _ h' => h'
  rintro _ r₁ ⟨f, h₁⟩
  refine (ends_finish
    (I := fun s => Assembled (r.solver.options.data q) f r.solver.options s.solver)
    (J := fun s => s.solver.Usable ∧
      (s.solver.A = r.solver.A ∨ s.solver.A.rows = (r.solver.options.data q).m))
    (fun s hs => (hs.ends_iterate env hpos).mono (fun _ _ h' => h') fun _ _ h' => ⟨h'.1, .inr h'.2⟩)
    (fun s s' hs hbooked _ => hs.of_booked hbooked)
    (fun s hs => ⟨hs.usable, .inr hs.jacobian.rows_eq⟩) r.solver h₁).mono ?_ fun _ _ h' => h'
  rintro d r₂ ⟨h₂, r₃, -, ⟨_, _, _, _, hs⟩, hreports⟩
  refine ⟨⟨f, h₂⟩, hreports.iterated, ?_⟩
  rw [hreports.measures, hs]
  rfl

/-- A solve leaves the solver to any problem that may follow. -/
theorem usable_solve (env : Environment σ K) (h : r.solver.Usable) (hq : q.Makes p) :
    (solve env p r).session.solver.Usable := by
  refine session_solve (P := fun r' => r'.solver.Usable) ?_
  by_cases hm : p.activeConstraints r.solver.options.skipTangential = 0
  · have hspared : ∀ s : Solver K, r.solver.Spares s → s.Usable := fun s hs =>
      ⟨hs.ready, hs.compliance.symm ▸ h.unlocked, hs.kkt.symm ▸ h.byRows⟩
    exact (ends_solveProblem_unconstrained env h.toReady hq hm).mono
      (fun _ _ h' => hspared _ h'.1) fun _ _ h' => hspared _ h'
  · refine (ends_solveProblem_assembled env h hq hm).mono ?_ fun _ _ h' => h'.1
    rintro _ _ ⟨⟨_, h'⟩, -⟩
    exact h'.usable

/-- The sessions that callers come to with one solver, with any backend: it is created, it solves
problems one after the other, some of them in vain, and between solves it forgets the positions that
it learned, its options are set, and its backend is used for something else. -/
inductive Handled (env : Environment σ K) : Session (Solver K) σ K → Prop
  | created (id : Nat) (options : Options K) (backend : σ) (events : List (Journal.Event K)) :
      Handled env ⟨.create id options, backend, events⟩
  | solved {r : Session (Solver K) σ K} {q : Problem.Parts K} {p : Problem K}
      (h : Handled env r) (hq : q.Makes p) : Handled env (solve env p r).session
  | forgotten {r : Session (Solver K) σ K} (h : Handled env r) :
      Handled env { r with solver := { r.solver with patternLearned := false } }
  | elsewhere {r r' : Session (Solver K) σ K} (h : Handled env r) (options : Options K)
      (hsolver : r'.solver = { r.solver with options }) : Handled env r'

/-- Wherever its callers take it, any problem may follow. -/
theorem Handled.usable (h : Handled env r) : r.solver.Usable := by
  induction h with
  | created id options backend events => exact ⟨Solver.ready_create id options, rfl, rfl⟩
  | solved _ hq ih => exact usable_solve env ih hq
  | forgotten _ ih => exact ⟨{ ih.toReady with }, ih.unlocked, ih.byRows⟩
  | elsewhere _ options hsolver ih =>
    rw [hsolver]
    exact ⟨{ ih.toReady with }, ih.unlocked, ih.byRows⟩

end CentralPath.InteriorPoint
