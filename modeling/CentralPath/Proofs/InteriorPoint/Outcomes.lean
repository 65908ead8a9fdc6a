/-
  What a solve that returns guarantees. A converged outcome is feasible up to the tolerances, by the
  residuals of the data. Slacks and multipliers are positive unless the first iterate was restored
  from a solver whose iterate is not: a solve that is refused half-way can leave such an iterate, and
  the strategy that compares merits prefers it where its merit is lower
  (`solve_inside_unless_leftover`).
-/
import CentralPath.Proofs.InteriorPoint.Residuals

namespace CentralPath.InteriorPoint

open Backend (Environment Exact Session Work)
open Backend.Work (Ends ends_bind ends_change)
open Problem (Data)
open Sparse (Matrix)

/-! ## Properties of outcomes -/

section

variable {K : Type} [Field K] [LinearOrder K]

/-- Slacks and multipliers of all constraints, all positive, and a positive duality measure. -/
structure Outcome.Inside (out : Outcome K) (D : Data K) : Prop where
  size_slack : out.slack.size = D.m
  slack : ∀ a ∈ out.slack, 0 < a
  size_multipliers : out.multipliers.size = D.m
  multipliers : ∀ a ∈ out.multipliers, 0 < a
  mu : 0 < out.measures.mu

/-- The duality measure and the residuals of the data are below their tolerances. -/
structure Outcome.WithinTolerances [ElementaryFunctions K] (out : Outcome K) (D : Data K)
    (o : Options K) : Prop where
  mu : out.measures.mu < o.muTolerance
  primal : Vector.normOver (D.primalResidual out.x out.slack out.multipliers) D.m < o.rpTolerance
  dual : Vector.normOver (D.dualResidual out.x out.multipliers) D.n < o.rdTolerance

end

variable {σ K : Type} [Field K] [LinearOrder K] [ElementaryFunctions K] {env : Environment σ K}
  {start r : Session (Solver K) σ K} {f : Newton.Formulation} {D : Data K} {o : Options K}
  {s : Solver K} {out : Outcome K} {p : Problem K} {q : Problem.Parts K}
  {factored : σ → Option (Matrix K)}

theorem Outcome.Reports.withinTolerances (h : out.Reports s) (hs : Loaded D f o s)
    (hc : Consistent D s) (hconverged : out.stage = .converged) : out.WithinTolerances D o := by
  have hsmall := h.converged hconverged
  simp only [Solver.isConverged, Solver.measures, Bool.and_eq_true, decide_eq_true_eq,
    hs.options, hs.n_eq, hs.m_eq] at hsmall
  obtain ⟨⟨hmu, hprimal⟩, hdual⟩ := hsmall
  refine ⟨?_, ?_, ?_⟩
  · rw [h.measures]
    exact hmu
  · rw [h.x, h.slack, h.multipliers, ← hc.primal]
    exact hprimal
  · rw [h.x, h.multipliers, ← hc.dual]
    exact hdual

/-! ## Leftovers -/

/-- The first iterate is the one that the solver was found with, and that one is not in the
interior. -/
structure RestoresLeftover (env : Environment σ K) (p : Problem K)
    (start : Session (Solver K) σ K) : Prop where
  strategy : start.solver.options.startingPoint = .strategy .affineStepOrPrevious
  reuse : reuseFor start.solver p.unknowns
    (p.activeConstraints start.solver.options.skipTangential) = ⟨true, true⟩
  outside : ¬start.solver.Interior
  restored : ∃ r, (prepare env p).run.run start = (.ok (), r) ∧
    r.solver.y = start.solver.y ∧ r.solver.lam = start.solver.lam

/-- Without iterations the first iterate is the last one. -/
theorem ends_finish_of_budget {before : Solver K} (h : before.options.maxIterations ≤ 0) :
    Ends (finish env p before)
      (fun d _ => d.outcome.slack = r.solver.y ∧ d.outcome.multipliers = r.solver.lam)
      (fun _ _ => True) r := by
  unfold finish
  rw [ends_bind, ends_change, Int.toNat_of_nonpos h, ends_bind]
  refine (ends_handBack before).mono ?_ fun _ _ _ => trivial
  rintro d _ ⟨-, -, hreports⟩
  exact ⟨hreports.slack, hreports.multipliers⟩

/-- The sessions that callers come to when no solve is refused. -/
inductive Served (env : Environment σ K) : Session (Solver K) σ K → Prop
  | created (id : Nat) (options : Options K) (backend : σ) (events : List (Journal.Event K)) :
      Served env ⟨.create id options, backend, events⟩
  | solved {r : Session (Solver K) σ K} {q : Problem.Parts K} {p : Problem K} {out : Outcome K}
      (h : Served env r) (hq : q.Makes p) (hout : (solve env p r).outcome = .ok out) :
      Served env (solve env p r).session
  | elsewhere {r r' : Session (Solver K) σ K} (h : Served env r) (options : Options K)
      (hsolver : r'.solver = { r.solver with options }) : Served env r'

theorem Served.reachable (h : Served env r) : Reachable env r := by
  induction h with
  | created id options backend events => exact .created id options backend events
  | solved _ hq _ ih => exact ih.solved hq
  | elsewhere _ options hsolver ih => exact ih.elsewhere options hsolver

variable [IsStrictOrderedRing K]

theorem Outcome.Reports.inside (h : out.Reports s) (hs : Loaded D f o s) (hc : Consistent D s)
    (hI : s.Interior) (hm : 0 < D.m) : out.Inside D := by
  have hy := hs.ready.y.trans hs.m_eq
  have hl := hs.ready.lam.trans hs.m_eq
  refine ⟨?_, ?_, ?_, ?_, ?_⟩
  · rw [h.slack, hy]
  · rw [h.slack]
    exact hI.slack
  · rw [h.multipliers, hl]
  · rw [h.multipliers]
    exact hI.multipliers
  · rw [h.measures]
    show 0 < s.mu
    rw [hc.mu]
    exact hI.dualityMeasure_pos hy hl hm

section

variable (hexact : Exact env.backend factored) (hstart : Reachable env start) (hq : q.Makes p)
  (hm : 0 < p.activeConstraints start.solver.options.skipTangential)
include hexact hstart hq hm

/-- A first iterate is in the interior, unless it is a leftover. -/
theorem interior_iff_of_prepare (hrun : (prepare env p).run.run start = (.ok (), r)) :
    r.solver.Interior ↔ ¬RestoresLeftover env p start := by
  have hactive : p.activeConstraints start.solver.options.skipTangential =
      ((start.solver.options.data q).m : Int) := hq.fit.activeConstraints
  have hends := ends_prepare hexact (hstart.ready hexact) hq (by omega)
  rw [Ends, hrun] at hends
  obtain ⟨f, -, -, hor⟩ := hends
  constructor
  · rintro hI ⟨-, -, houtside, r', hrun', hy, hl⟩
    obtain rfl := (Prod.mk.inj (hrun.symm.trans hrun')).2
    exact houtside ⟨hy ▸ hI.slack, hl ▸ hI.multipliers⟩
  · intro hnot
    rcases hor with hI | ⟨hchoice, hreuse, hy, hl⟩
    · exact hI
    · by_contra houtside
      refine hnot ⟨hchoice, hreuse, fun hI => houtside ?_, r, hrun, hy, hl⟩
      exact ⟨hy.symm ▸ hI.slack, hl.symm ▸ hI.multipliers⟩

/-- What iterations keep and outcomes report. -/
theorem ends_solveProblem_guarantees
    (hexp : ∀ t : K, 0 < t → ElementaryFunctions.exp (-t) ∈ Set.Ioo 0 1) :
    Ends (solveProblem env p)
      (fun d r' => (¬RestoresLeftover env p start → r'.solver.Interior ∧
          d.outcome.Inside (start.solver.options.data q)) ∧
        (d.outcome.stage = .converged →
          d.outcome.WithinTolerances (start.solver.options.data q) start.solver.options))
      (fun _ _ => True) start := by
  have hactive : p.activeConstraints start.solver.options.skipTangential =
      ((start.solver.options.data q).m : Int) := hq.fit.activeConstraints
  set D := start.solver.options.data q
  have hD : 0 < D.m := by omega
  rw [ends_solveProblem (by omega)]
  refine ((Work.ends_run (prepare env p) start)).mono ?_ fun _ _ _ => trivial
  intro _ r₁ hrun
  have hprepared := ends_prepare hexact (hstart.ready hexact) hq hD
  rw [Ends, hrun] at hprepared
  obtain ⟨f, h₁, hc₁, -⟩ := hprepared
  have hI₁ := (interior_iff_of_prepare hexact hstart hq hm hrun).mpr
  refine (ends_finish
    (I := fun r' => Loaded D f start.solver.options r'.solver ∧ Consistent D r'.solver ∧
      (¬RestoresLeftover env p start → r'.solver.Interior))
    (J := fun _ => True) ?_ ?_ ?_ start.solver ⟨h₁, hc₁, hI₁⟩).mono ?_ fun _ _ _ => trivial
  · rintro r₂ ⟨h₂, hc₂, hI₂⟩
    refine (ends_iterate hexact hD h₂ hc₂).mono ?_ fun _ _ _ => trivial
    rintro _ r₃ ⟨h₃, hc₃, hsteps⟩
    refine ⟨h₃, hc₃, fun hnot => ?_⟩
    have hy := h₂.ready.y.trans h₂.m_eq
    have hl := h₂.ready.lam.trans h₂.m_eq
    have hmu : 0 < r₂.solver.mu := by
      rw [hc₂.mu]
      exact (hI₂ hnot).dualityMeasure_pos hy hl hD
    exact hsteps.interior (hI₂ hnot) hexp hmu (h₂.m_eq.symm ▸ hD) hy hl
  · rintro r₂ r₃ ⟨h₂, hc₂, hI₂⟩ hbooked -
    exact ⟨h₂.of_booked hbooked, hc₂.of_booked hbooked, fun hnot => (hI₂ hnot).of_booked hbooked⟩
  · exact fun _ _ => trivial
  · rintro d r₂ ⟨⟨-, -, hI₂⟩, r₃, ⟨h₃, hc₃, hI₃⟩, -, hreports⟩
    exact ⟨fun hnot => ⟨hI₂ hnot, hreports.inside h₃ hc₃ (hI₃ hnot) hD⟩,
      hreports.withinTolerances h₃ hc₃⟩

/-- A leftover that no iteration moves is handed out. -/
theorem ends_solveProblem_leftover (hleft : RestoresLeftover env p start)
    (hbudget : start.solver.options.maxIterations ≤ 0) :
    Ends (solveProblem env p)
      (fun d _ => ¬d.outcome.Inside (start.solver.options.data q)) (fun _ _ => True) start := by
  rw [ends_solveProblem (by omega)]
  refine (Work.ends_run (prepare env p) start).mono ?_ fun _ _ _ => trivial
  intro _ r₁ hrun
  have houtside := (interior_iff_of_prepare hexact hstart hq hm hrun).not.mpr (not_not.mpr hleft)
  refine (ends_finish_of_budget hbudget).mono ?_ fun _ _ _ => trivial
  rintro d _ ⟨hslack, hmultipliers⟩ hinside
  exact houtside ⟨hslack ▸ hinside.slack, hmultipliers ▸ hinside.multipliers⟩

/-- Whatever solves came before, and whether they returned: an outcome with constraints is inside
unless its first iterate was a leftover, and feasible up to the tolerances if it has converged. A
leftover that there is no iteration to move is not inside. -/
theorem solve_inside_unless_leftover
    (hexp : ∀ t : K, 0 < t → ElementaryFunctions.exp (-t) ∈ Set.Ioo 0 1)
    (hout : (solve env p start).outcome = .ok out) :
    (¬RestoresLeftover env p start → out.Inside (start.solver.options.data q)) ∧
      (out.stage = .converged →
        out.WithinTolerances (start.solver.options.data q) start.solver.options) ∧
      (RestoresLeftover env p start → start.solver.options.maxIterations ≤ 0 →
        ¬out.Inside (start.solver.options.data q)) := by
  have hguarantees := ends_solveProblem_guarantees hexact hstart hq hm hexp
  obtain ⟨_, rfl, hinside, htolerances⟩ := exists_of_outcome_solve hguarantees hout
  refine ⟨fun hnot => (hinside hnot).2, htolerances, fun hleft hbudget => ?_⟩
  have hleftover := ends_solveProblem_leftover hexact hstart hq hm hleft hbudget
  obtain ⟨_, hd, hnot⟩ := exists_of_outcome_solve hleftover hout
  rwa [hd] at hnot

end

/-- One constraint on one unknown: `½ g x² + c x` where `x ≥ b`. -/
def halfLine (g c b : ℚ) : Problem.Parts ℚ where
  G := .dense ⟨1, 1, #[#[g]]⟩
  c := #[c]
  A := .dense ⟨1, 1, #[#[1]]⟩
  b := #[b]
  E := none
  triplets := false

theorem makes_halfLine {g c b : ℚ} {p : Problem ℚ} (h : (halfLine g c b).problem? = .ok p) :
    (halfLine g c b).Makes p :=
  Problem.Parts.makes_of_problem? (fun e he => by cases he) h

/-- A fresh solver with tolerances that a few rational iterations reach. -/
def tolerantStart :
    Session (Solver ℚ) (Backend.Verified (Backend.Adapter (Backend.Factor ℚ) ℚ) ℚ) ℚ :=
  ⟨.create 0 { (Options.standard : Options ℚ) with
    adaptiveEta := false, maxIterations := 3, muTolerance := 1 / 10, rpTolerance := 1 / 10
    rdTolerance := 1 / 10 }, .initial, []⟩

theorem solve_inside_halfLine : ∃ (p : Problem ℚ) (out : Outcome ℚ),
    (halfLine 2 (-2) 0).Makes p ∧
      0 < p.activeConstraints tolerantStart.solver.options.skipTangential ∧
      (solve Backend.elimination p tolerantStart).outcome = .ok out ∧ out.stage = .converged ∧
      ¬RestoresLeftover Backend.elimination p tolerantStart ∧
      (¬RestoresLeftover Backend.elimination p tolerantStart →
        out.Inside (tolerantStart.solver.options.data (halfLine 2 (-2) 0))) ∧
      (out.stage = .converged → out.WithinTolerances
        (tolerantStart.solver.options.data (halfLine 2 (-2) 0)) tolerantStart.solver.options) ∧
      (RestoresLeftover Backend.elimination p tolerantStart →
        tolerantStart.solver.options.maxIterations ≤ 0 →
        ¬out.Inside (tolerantStart.solver.options.data (halfLine 2 (-2) 0))) := by
  have hrun : (do
      let p ← (halfLine 2 (-2) 0).problem?
      let out ← (solve Backend.elimination p tolerantStart).outcome
      pure (decide (0 < p.activeConstraints tolerantStart.solver.options.skipTangential ∧
        out.stage = .converged)) : Except (Fault ℚ) Bool).toOption = some true := by decide +kernel
  obtain ⟨p, hp, hrun⟩ := exists_of_bind_toOption_eq_some hrun
  obtain ⟨out, hout, hrun⟩ := exists_of_bind_toOption_eq_some hrun
  obtain ⟨hm, hconverged⟩ := of_decide_eq_true (Option.some.inj hrun)
  have hmakes := makes_halfLine hp
  have hnot : ¬RestoresLeftover Backend.elimination p tolerantStart :=
    fun hleft => StartChoice.noConfusion hleft.strategy fun h => StartingPoint.noConfusion h
  exact ⟨p, out, hmakes, hm, hout, hconverged, hnot,
    solve_inside_unless_leftover (Backend.exact_verified _) (.created 0 _ _ _) hmakes hm
      exp_neg_mem_Ioo hout⟩

/-- A fresh solver that compares merits, with no iterations to spend. -/
def comparingStart :
    Session (Solver ℚ) (Backend.Verified (Backend.Adapter (Backend.Factor ℚ) ℚ) ℚ) ℚ :=
  ⟨.create 0 { (Options.standard : Options ℚ) with
    startingPoint := .strategy .affineStepOrPrevious, maxIterations := 0 }, .initial, []⟩

/-- After a solve with a singular system, a leftover with a negative slack counts as converged. -/
theorem leftover_converges : ∃ (start : Session (Solver ℚ) _ ℚ) (p : Problem ℚ) (out : Outcome ℚ),
    Reachable Backend.elimination start ∧ (halfLine 2 (-1) 2).Makes p ∧
      (solve Backend.elimination p start).outcome = .ok out ∧ out.stage = .converged ∧
      out.slack = #[-1] := by
  have hrun : (do
      let p₁ ← (halfLine 1 0 0).problem?
      let p₂ ← (halfLine 1 0 2).problem?
      let p₃ ← (halfLine 2 (-1) 2).problem?
      let r₁ := (solve Backend.elimination p₁ comparingStart).session
      let r₂ := (solve Backend.elimination p₂ r₁).session
      let out ← (solve Backend.elimination p₃ r₂).outcome
      pure (decide (out.stage = .converged ∧ out.slack = #[-1])) :
        Except (Fault ℚ) Bool).toOption = some true := by
    decide +kernel
  obtain ⟨p₁, hp₁, hrun⟩ := exists_of_bind_toOption_eq_some hrun
  obtain ⟨p₂, hp₂, hrun⟩ := exists_of_bind_toOption_eq_some hrun
  obtain ⟨p₃, hp₃, hrun⟩ := exists_of_bind_toOption_eq_some hrun
  obtain ⟨out, hout, hrun⟩ := exists_of_bind_toOption_eq_some hrun
  obtain ⟨hconverged, hslack⟩ := of_decide_eq_true (Option.some.inj hrun)
  have hfresh : Reachable Backend.elimination comparingStart := .created 0 _ _ _
  exact ⟨_, p₃, out, (hfresh.solved (makes_halfLine hp₁)).solved (makes_halfLine hp₂),
    makes_halfLine hp₃, hout, hconverged, hslack⟩

/-- An iterate that is kept for later is in the interior where no solve was refused. -/
theorem Served.interior (hexact : Exact env.backend factored)
    (hexp : ∀ t : K, 0 < t → ElementaryFunctions.exp (-t) ∈ Set.Ioo 0 1) (h : Served env r)
    (hiterate : r.solver.hasIterate = true) : r.solver.Interior := by
  induction h with
  | created id options backend events => cases hiterate
  | @solved r q p out h hq hout ih =>
    have hactive : p.activeConstraints r.solver.options.skipTangential =
        ((r.solver.options.data q).m : Int) := hq.fit.activeConstraints
    by_cases hm : p.activeConstraints r.solver.options.skipTangential = 0
    · have hends := ends_solveProblem_unconstrained env (h.reachable.ready hexact) hq hm
      obtain ⟨_, -, -, hdirect⟩ := exists_of_outcome_solve hends hout
      rw [hdirect.iterate] at hiterate
      cases hiterate
    · have hnot : ¬RestoresLeftover env p r := by
        rintro ⟨-, hreuse, houtside, -⟩
        have hx := congrArg Reuse.x hreuse
        simp only [reuseFor, Bool.and_eq_true] at hx
        exact houtside (ih hx.1.2)
      obtain ⟨_, -, hinside, -⟩ := exists_of_outcome_solve
        (ends_solveProblem_guarantees hexact h.reachable hq (by omega) hexp) hout
      exact (hinside hnot).1
  | elsewhere _ options hsolver ih =>
    rw [hsolver] at hiterate ⊢
    have hI := ih hiterate
    exact ⟨hI.slack, hI.multipliers⟩

/-- Only a solve that is refused leaves something behind. -/
theorem Served.not_restoresLeftover (hexact : Exact env.backend factored)
    (hexp : ∀ t : K, 0 < t → ElementaryFunctions.exp (-t) ∈ Set.Ioo 0 1)
    (h : Served env start) : ¬RestoresLeftover env p start := by
  rintro ⟨-, hreuse, houtside, -⟩
  have hx := congrArg Reuse.x hreuse
  simp only [reuseFor, Bool.and_eq_true] at hx
  exact houtside (h.interior hexact hexp hx.1.2)

end CentralPath.InteriorPoint
