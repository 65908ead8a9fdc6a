/-
  Measuring the optimality conditions again after a solve. The measures that a result reports come
  from residuals that were carried along; those that are measured again come from the blocks that the
  solver keeps for itself. Where constraints are in use both are those of the data, whatever solves
  came before (`Assembled.measureConditions_eq_measures`). A solve without constraints leaves the
  constraints of an earlier solve beside multipliers that are gone, and its dual residual where it
  was: measuring again is refused, and the maintained measures are not those of the result
  (`Handled.solve_reverifies`).
-/
import CentralPath.Proofs.InteriorPoint.Handled
import CentralPath.Proofs.InteriorPoint.Outcomes

open CentralPath.Vector (coord)

namespace CentralPath.InteriorPoint

open Backend (Environment Exact Session Work)
open Newton (Formulation)
open Problem (Data)
open Sparse (Matrix)

variable {σ K : Type} [Field K] [LinearOrder K] [ElementaryFunctions K] {env : Environment σ K}
  {start r : Session (Solver K) σ K} {p : Problem K} {q : Problem.Parts K} {out : Outcome K}
  {D : Data K} {f : Formulation} {o : Options K} {s s' : Solver K} {n : Nat}
  {factored : σ → Option (Matrix K)}

/-! ## Measuring -/

/-- What is measured is read off the solver. -/
theorem fst_run_verifyConditions (report : Bool) (r : Session (Solver K) σ K) :
    ((verifyConditions report).run.run r).1 = r.solver.measureConditions := by
  have hends : Backend.Work.Ends (verifyConditions report)
      (fun v _ => r.solver.measureConditions = .ok v)
      (fun e _ => r.solver.measureConditions = .error e) r := by
    unfold verifyConditions
    rw [Work.ends_bind, Work.ends_solver, Work.ends_bind, Work.ends_lift]
    rcases hmeasured : r.solver.measureConditions with e | v
    · rfl
    · dsimp only
      split_ifs <;> rfl
  unfold Work.Ends at hends
  rcases hrun : (verifyConditions report).run.run r with ⟨_ | _, _⟩ <;> rw [hrun] at hends
  · exact hends.symm
  · exact hends.symm

/-- Consistent residuals have the measures that the blocks give. -/
theorem Assembled.measureConditions_eq_measures (h : Assembled D f o s) (hc : Consistent D s)
    (hm : 0 < D.m) : s.measureConditions = .ok s.measures := by
  have hpos : s.m ≠ 0 := by
    rw [h.m_eq]
    omega
  rw [h.measureConditions_eq, if_neg hpos, ← hc.primal, ← hc.dual, ← hc.mu]
  rfl

/-- Without a multiplier for every constraint there is nothing to measure. -/
theorem exists_measureConditions_eq_error (h : s.lam.size ≠ s.A.rows) :
    ∃ e, s.measureConditions = .error e := by
  unfold Solver.measureConditions
  rcases s.A.mulVec s.x false with e | image
  · exact ⟨e, rfl⟩
  simp only [bind, Except.bind]
  rcases Vector.zip? (· - ·) image s.y with e | slack
  · exact ⟨e, rfl⟩
  dsimp only
  rcases Vector.zip? (· - ·) slack s.b with e | gap
  · exact ⟨e, rfl⟩
  dsimp only
  rcases s.mulE s.lam with e | given
  · exact ⟨e, rfl⟩
  dsimp only
  rcases Vector.zip? (· + ·) gap given with e | primal
  · exact ⟨e, rfl⟩
  dsimp only
  rcases s.G.mulVec s.x false with e | gradient
  · exact ⟨e, rfl⟩
  dsimp only
  rw [Matrix.mulVec_transposed_of_size_ne h]
  exact ⟨_, rfl⟩

/-! ## Without constraints -/

namespace Outcome.SolvesDirectly

variable {good : Matrix K → Array K → Array K → Prop}

/-- The maintained dual residual is the one that the solver was found with. -/
theorem measures_solver (h : out.SolvesDirectly good n s s') :
    s'.measures = ⟨0, Vector.normOver (if n = s.n then s.rd else Vector.zeros n) n, 0⟩ := by
  have hrd := h.rd
  rw [s.allocate_eq] at hrd
  unfold Solver.measures
  rw [h.m_eq, h.n_eq, h.mu, hrd]
  exact congrArg (fun a => Journal.Measures.mk a _ _) (if_pos rfl)

/-- The result of an exact backend leaves nothing of the gradient. -/
theorem measures_of_solves (h : out.SolvesDirectly (fun G rhs v => G.Solves v rhs) n s s')
    (hs : s'.Ready) : out.measures = ⟨0, Vector.normOver (Vector.zeros n) n, 0⟩ := by
  obtain ⟨found, hsolves, hfill⟩ := h.solution
  obtain ⟨image, rd, himage, hrd, hmeasures⟩ := h.measures
  have hx : s'.x.size = s'.G.cols := by
    by_contra hne
    rw [Matrix.mulVec_of_size_ne hne] at himage
    cases himage
  rw [Vector.fill?_of_size_eq (hsolves.size.trans hx.symm)] at hfill
  obtain rfl := Except.ok.inj hfill
  obtain ⟨w, hw, hwsize, hwcoord⟩ := hs.hessian.mulVec_eq hx
  obtain rfl := Except.ok.inj (himage.symm.trans hw)
  have hsize : image.size = s'.c.size := by
    rw [hwsize, ← hsolves.size_rhs, Vector.size_neg]
  rw [Vector.zip?_of_size_eq hsize] at hrd
  obtain rfl := Except.ok.inj hrd
  have hzero : image.zipWith (· + ·) s'.c = Vector.zeros n := by
    have hadd : (Vector.add image s'.c).size = n := by
      rw [Vector.size_add, hsize, Nat.min_self, hs.c, h.n_eq]
    refine Vector.ext_coord (hadd.trans (Vector.size_zeros n).symm) fun i hi => ?_
    have hi' : i < s'.G.rows := by
      rw [← hwsize, hsize, hs.c, h.n_eq, ← hadd]
      exact hi
    have hrow := hsolves.row i hi'
    rw [Vector.coord_neg] at hrow
    refine (Vector.coord_add hsize i).trans ?_
    rw [hwcoord i hi', hrow, neg_add_cancel, Vector.coord_zeros]
  rw [hmeasures, hzero]

end Outcome.SolvesDirectly

/-- There is always some constraint that the solver keeps the numbers of. -/
theorem Handled.rows_jacobian_pos (h : Handled env r) : 0 < r.solver.A.rows := by
  induction h with
  | created id options backend events => exact Nat.one_pos
  | @solved r q p h hq ih =>
    refine session_solve (P := fun r' => 0 < r'.solver.A.rows) ?_
    by_cases hm : p.activeConstraints r.solver.options.skipTangential = 0
    · exact (ends_solveProblem_unconstrained env h.usable.toReady hq hm).mono
        (fun _ _ h' => h'.1.jacobian.symm ▸ ih) fun _ _ h' => h'.jacobian.symm ▸ ih
    · have hactive : p.activeConstraints r.solver.options.skipTangential =
          ((r.solver.options.data q).m : Int) := hq.fit.activeConstraints
      have hpos : 0 < (r.solver.options.data q).m := by omega
      refine (ends_solveProblem_assembled env h.usable hq hm).mono ?_ ?_
      · rintro _ _ ⟨⟨_, h'⟩, -⟩
        exact h'.jacobian.rows_eq.symm ▸ hpos
      · rintro _ _ ⟨-, hkept | hrows⟩
        · exact hkept.symm ▸ ih
        · exact hrows.symm ▸ hpos
  | forgotten _ ih => exact ih
  | elsewhere _ options hsolver ih =>
    rw [hsolver]
    exact ih

/-! ## After a solve -/

variable [IsStrictOrderedRing K]

/-- Whatever solves came before, a result with constraints is measured again without fail, and where
the backend is exact, what is measured again, what is maintained and what was reported are the same.
A result without constraints is never measured again, and the maintained measures still have the dual
residual of before, unless that had another length. -/
theorem Handled.solve_reverifies (h : Handled env start) (hq : q.Makes p)
    (hout : (solve env p start).outcome = .ok out) (report : Bool) :
    (out.stage ≠ .degenerate →
      (solve env p start).session.solver.measures = out.measures ∧
      (∃ v, ((verifyConditions report).run.run (solve env p start).session).1 = .ok v) ∧
      ∀ factored : σ → Option (Matrix K), Exact env.backend factored →
        ((verifyConditions report).run.run (solve env p start).session).1 = .ok out.measures) ∧
    (out.stage = .degenerate →
      (∃ e, ((verifyConditions report).run.run (solve env p start).session).1 = .error e) ∧
      (solve env p start).session.solver.measures = ⟨0, Vector.normOver
        (if p.unknowns = start.solver.n then start.solver.rd else Vector.zeros p.unknowns)
        p.unknowns, 0⟩ ∧
      ∀ factored : σ → Option (Matrix K), Exact env.backend factored →
        out.measures = ⟨0, Vector.normOver (Vector.zeros p.unknowns) p.unknowns, 0⟩) := by
  have hactive : p.activeConstraints start.solver.options.skipTangential =
      ((start.solver.options.data q).m : Int) := hq.fit.activeConstraints
  simp only [fst_run_verifyConditions]
  by_cases hm : p.activeConstraints start.solver.options.skipTangential = 0
  · obtain ⟨_, rfl, hspares, hdirect⟩ := exists_of_outcome_solve
      (ends_solveProblem_unconstrained env h.usable.toReady hq hm) hout
    refine ⟨fun hstage => absurd hdirect.stage hstage, fun _ =>
      ⟨exists_measureConditions_eq_error ?_, hdirect.measures_solver, fun factored hexact => ?_⟩⟩
    · rw [hspares.ready.lam, hdirect.m_eq, hspares.jacobian]
      exact h.rows_jacobian_pos.ne
    · have hends : Work.Ends (solveProblem env p)
          (fun d r' => start.solver.Spares r'.solver ∧ d.outcome.SolvesDirectly
            (fun G rhs v => G.Solves v rhs) p.unknowns start.solver r'.solver)
          (fun _ r' => start.solver.Spares r'.solver) start :=
        ends_solveProblem_directly h.usable.toReady hq hm fun s G rhs =>
          (hexact.ends_complete (.hessian s.solver.id) G rhs "unconstrained system").mono
            (fun _ _ ⟨hs, _, hsolves⟩ => ⟨hs, hsolves⟩) fun _ _ hs => hs
      obtain ⟨_, hd, hspares', hdirect'⟩ := exists_of_outcome_solve hends hout
      rw [← hd]
      exact hdirect'.measures_of_solves hspares'.ready
  · obtain ⟨_, rfl, ⟨f, hassembled⟩, hstage, hmeasures⟩ := exists_of_outcome_solve
      (ends_solveProblem_assembled env h.usable hq hm) hout
    refine ⟨fun _ => ⟨hmeasures.symm, ⟨_, hassembled.measureConditions_eq⟩, fun factored hexact => ?_⟩,
      fun hdirect => absurd hdirect hstage⟩
    have hpos : 0 < (start.solver.options.data q).m := by omega
    obtain ⟨_, -, hconsistent⟩ :=
      (visited_solve hm hout).consistent_of_ready hexact h.usable.toReady hq hpos
    rw [hassembled.measureConditions_eq_measures hconsistent hpos, hmeasures]

/-- The whole line: `½ g x² + c x`, and no constraint. -/
def wholeLine (g c : ℚ) : Problem.Parts ℚ where
  G := .dense ⟨1, 1, #[#[g]]⟩
  c := #[c]
  A := .dense ⟨0, 1, #[]⟩
  b := #[]
  E := none
  triplets := false

/-- A fresh solver that starts from ones, with no iterations to spend. -/
def idleStart :
    Session (Solver ℚ) (Backend.Verified (Backend.Adapter (Backend.Factor ℚ) ℚ) ℚ) ℚ :=
  ⟨.create 0 { (Options.standard : Options ℚ) with
    startingPoint := .strategy .scaledOnes, maxIterations := 0 }, .initial, []⟩

/-- A result with a constraint is measured again; the minimizer without constraints that comes next
is not, and what is maintained still has the dual residual of the first. -/
theorem solve_reverifies_wholeLine : ∃ (p p' : Problem ℚ) (out out' : Outcome ℚ)
    (r r' : Session (Solver ℚ) _ ℚ),
    (halfLine 1 3 0).Makes p ∧ (wholeLine 1 (-2)).Makes p' ∧
      r = (solve Backend.elimination p idleStart).session ∧
      (solve Backend.elimination p idleStart).outcome = .ok out ∧ out.stage ≠ .degenerate ∧
      ((verifyConditions false).run.run r).1 = .ok out.measures ∧
      r' = (solve Backend.elimination p' r).session ∧
      (solve Backend.elimination p' r).outcome = .ok out' ∧ out'.stage = .degenerate ∧
      (∃ e, ((verifyConditions false).run.run r').1 = .error e) ∧
      out'.measures.dual = 0 ∧ r'.solver.measures.dual = 3 := by
  have hrun : (do
      let p ← (halfLine 1 3 0).problem?
      let p' ← (wholeLine 1 (-2)).problem?
      let out ← (solve Backend.elimination p idleStart).outcome
      let r := (solve Backend.elimination p idleStart).session
      let out' ← (solve Backend.elimination p' r).outcome
      pure (decide (out.stage ≠ .degenerate ∧ out'.stage = .degenerate ∧ out'.measures.dual = 0 ∧
        (solve Backend.elimination p' r).session.solver.measures.dual = 3)) :
          Except (Fault ℚ) Bool).toOption = some true := by
    decide +kernel
  obtain ⟨p, hp, hrun⟩ := exists_of_bind_toOption_eq_some hrun
  obtain ⟨p', hp', hrun⟩ := exists_of_bind_toOption_eq_some hrun
  obtain ⟨out, hout, hrun⟩ := exists_of_bind_toOption_eq_some hrun
  obtain ⟨out', hout', hrun⟩ := exists_of_bind_toOption_eq_some hrun
  obtain ⟨hstage, hstage', hreported, hmaintained⟩ := of_decide_eq_true (Option.some.inj hrun)
  have hmakes := makes_halfLine hp
  have hmakes' : (wholeLine 1 (-2)).Makes p' :=
    Problem.Parts.makes_of_problem? (fun e he => by cases he) hp'
  have hfresh : Handled Backend.elimination idleStart := .created 0 _ _ _
  have hfirst := Handled.solve_reverifies hfresh hmakes hout false
  have hsecond := Handled.solve_reverifies (hfresh.solved hmakes) hmakes' hout' false
  exact ⟨p, p', out, out', _, _, hmakes, hmakes', rfl, hout, hstage,
    (hfirst.1 hstage).2.2 _ (Backend.exact_verified _), rfl, hout', hstage', (hsecond.2 hstage').1,
    hreported, hmaintained⟩

end CentralPath.InteriorPoint
