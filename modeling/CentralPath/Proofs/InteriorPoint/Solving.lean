/-
  A solve in two halves. `prepare` runs up to the first iterate and `finish` iterates and hands the
  solution back; where constraints are in use, a solve is one after the other (`ends_solveProblem`).
  What `prepare` establishes is `ends_prepare`, and what iterations keep reaches the outcome by
  `ends_finish`.
-/
import CentralPath.Proofs.InteriorPoint.Assembled
import CentralPath.Proofs.InteriorPoint.Starting

namespace CentralPath.InteriorPoint

open Backend (Environment Exact Session Work)
open Backend.Work (Ends ends_bind ends_change ends_lift ends_map ends_solver)
open Newton (Formulation systemFor)
open Problem (Data)
open Sparse (Matrix)

/-! ## The two halves -/

/-- A solver that begins to iterate. -/
def Solver.begun {α : Type} (s : Solver α) : Solver α :=
  { s with hasIterate := true, iterations := 0, stage := .iterating }

section

variable {σ α : Type} [Elementary α]

/-- A solve up to the first iterate. -/
def prepare (env : Environment σ α) (p : Problem α) : Run σ α Unit := do
  Work.change fun s => { s with solveCalls := s.solveCalls + 1 }
  let before ← Work.solver
  let n := p.unknowns
  let m := p.activeConstraints before.options.skipTangential
  let sys ← Work.lift (Newton.System.create before.options.formulation n m)
  Work.change fun s => { s with system := some sys }
  allocateFor n m
  loadProblem p
  assembleSystem env sys
  Work.change fun s => { s with stage := .initialized }
  startWith env before.options.startingPoint (reuseFor before n m)

/-- The solution of a solve that started with `before`, handed back to the problem. -/
def handBack (p : Problem α) (before : Solver α) : Run σ α (Delivery α) := do
  let full := p.activeConstraints false
  let q := (← Work.solver).measures
  let message ← conclude
  let s ← Work.solver
  let head ← Work.lift (handedUnknowns s.x p.unknowns full)
  let multipliers ← Work.lift (spreadMultipliers s.lam full)
  let problem ← Work.lift (p.receive (head ++ multipliers))
  let outcome : Outcome α :=
    { x := s.x
      objective := ← Work.lift s.objective
      stage := s.stage
      message
      iterations := s.iterations
      measures := q
      slack := s.y
      multipliers := s.lam
      history := s.history.drop before.history.length }
  pure ⟨outcome, problem⟩

/-- A solve from the first iterate on. -/
def finish (env : Environment σ α) (p : Problem α) (before : Solver α) : Run σ α (Delivery α) := do
  Work.change Solver.begun
  iterateWithin env before.options.maxIterations.toNat
  handBack p before

/-- What follows an iteration: it is counted, and checked where checks are on. -/
def keepBooks (env : Environment σ α) : Run σ α Unit := do
  countIteration
  if env.debug then discard <| verifyConditions true

/-- A solve that has not converged iterates, keeps its books and goes on. -/
theorem iterateWithin_succ (env : Environment σ α) (budget : Nat) :
    iterateWithin env (budget + 1) = (Work.solver >>= fun s =>
      if s.isConverged then pure ()
      else iterate env >>= fun _ => keepBooks env >>= fun _ => iterateWithin env budget) := by
  rw [iterateWithin]
  refine bind_congr fun s => ?_
  unfold keepBooks
  simp only [bind_assoc]
  split_ifs
  · rfl
  · rfl
  · simp only [pure_bind]

/-- A solver whose latest iteration is counted, and recorded if records are kept. -/
def Solver.counted (s : Solver α) : Solver α :=
  { s with
    iterations := s.iterations + 1
    history := if s.options.recordHistory then
      s.history ++ [⟨s.solveCalls, s.iterations + 1, s.measures⟩] else s.history }

variable {env : Environment σ α} {p : Problem α} {r : Session (Solver α) σ α}
  {Q : Delivery α → Session (Solver α) σ α → Prop} {R : Fault α → Session (Solver α) σ α → Prop}

theorem ends_countIteration :
    Ends countIteration (fun _ r' => r'.solver = r.solver.counted ∧ r'.backend = r.backend) R r := by
  unfold countIteration Solver.counted
  rw [ends_bind, ends_change, ends_bind, ends_solver]
  dsimp only
  split_ifs
  · exact ⟨rfl, rfl⟩
  · exact ⟨rfl, rfl⟩

/-- To measure the conditions changes the report at most. -/
theorem ends_verifyConditions (report : Bool) :
    Ends (verifyConditions report)
      (fun _ r' => r'.solver = r.solver ∧ r'.backend = r.backend)
      (fun _ r' => r'.solver = r.solver ∧ r'.backend = r.backend) r := by
  unfold verifyConditions
  rw [ends_bind, ends_solver, ends_bind, ends_lift]
  rcases r.solver.measureConditions with e | measured
  · exact ⟨rfl, rfl⟩
  · dsimp only
    split_ifs <;> exact ⟨rfl, rfl⟩

/-- Whatever the check after an iteration finds, the iteration is counted. -/
theorem ends_keepBooks (env : Environment σ α) :
    Ends (keepBooks env) (fun _ r' => r'.solver = r.solver.counted ∧ r'.backend = r.backend)
      (fun _ r' => r'.solver = r.solver.counted ∧ r'.backend = r.backend) r := by
  unfold keepBooks
  refine ends_countIteration.bind ?_ fun _ _ h => h
  rintro _ r₁ ⟨hs₁, hb₁⟩
  split_ifs
  · show Ends ((fun _ => ()) <$> verifyConditions true) _ _ r₁
    rw [ends_map]
    exact (ends_verifyConditions true).mono (fun _ _ h => ⟨h.1.trans hs₁, h.2.trans hb₁⟩)
      fun _ _ h => ⟨h.1.trans hs₁, h.2.trans hb₁⟩
  · exact ⟨hs₁, hb₁⟩

/-- A solver whose last iteration is done. -/
def Solver.concluded (s : Solver α) : Solver α :=
  { s with stage := if s.isConverged then .converged else .iterationsExhausted }

theorem ends_conclude {R : Fault α → Session (Solver α) σ α → Prop} :
    Ends conclude (fun _ r' => r'.solver = r.solver.concluded ∧ r'.backend = r.backend) R r := by
  unfold conclude Solver.concluded
  rw [ends_bind, ends_solver]
  split_ifs
  · exact ⟨rfl, rfl⟩
  · exact ⟨rfl, rfl⟩

/-- What the outcome of a solve that found the solver as `before` says of the last iterate `s`. -/
structure Outcome.Renders (out : Outcome α) (before s : Solver α) : Prop where
  x : out.x = s.x
  slack : out.slack = s.y
  multipliers : out.multipliers = s.lam
  measures : out.measures = s.measures
  iterations : out.iterations = s.iterations
  stage : out.stage = if s.isConverged then .converged else .iterationsExhausted
  objective : s.objective = .ok out.objective
  history : out.history = s.history.drop before.history.length

/-- A solution is handed back as it is. -/
theorem ends_handBack_eq (before : Solver α) :
    Ends (handBack p before)
      (fun d r' => r'.solver = r.solver.concluded ∧ r'.backend = r.backend ∧
        d.outcome.Renders before r.solver)
      (fun _ r' => r'.solver = r.solver.concluded ∧ r'.backend = r.backend) r := by
  unfold handBack
  dsimp only
  rw [ends_bind, ends_solver]
  refine ends_conclude.bind ?_ fun _ _ h => h
  rintro message r₁ ⟨hs₁, hb₁⟩
  rw [ends_bind, ends_solver]
  refine Ends.lift_bind (fun head _ => ?_) fun _ => ⟨hs₁, hb₁⟩
  refine Ends.lift_bind (fun multipliers _ => ?_) fun _ => ⟨hs₁, hb₁⟩
  refine Ends.lift_bind (fun received _ => ?_) fun _ => ⟨hs₁, hb₁⟩
  refine Ends.lift_bind (fun objective hobjective => ?_) fun _ => ⟨hs₁, hb₁⟩
  refine ⟨hs₁, hb₁, ?_⟩
  rw [hs₁] at hobjective ⊢
  exact ⟨rfl, rfl, rfl, rfl, rfl, rfl, hobjective, rfl⟩

/-- Up to the first iterate, a solve arranges its system and starts. -/
theorem ends_prepare_iff {Q : Unit → Session (Solver α) σ α → Prop} :
    Ends (prepare env p) Q R r ↔
      Ends (arrange env p) (fun _ r' => Ends (startWith env r.solver.options.startingPoint
        (reuseFor r.solver p.unknowns (p.activeConstraints r.solver.options.skipTangential)))
          Q R r') R r := by
  unfold prepare arrange
  simp only [Work.ends_bind_eq]
  rfl

/-- Where constraints are in use, a solve prepares and finishes. -/
theorem ends_solveProblem (hm : p.activeConstraints r.solver.options.skipTangential ≠ 0) :
    Ends (solveProblem env p) Q R r ↔
      Ends (prepare env p) (fun _ r' => Ends (finish env p r.solver) Q R r') R r := by
  unfold solveProblem prepare
  rw [ends_bind, ends_change, ends_bind, ends_solver, ends_bind, ends_change, ends_bind,
    ends_solver]
  dsimp only
  rw [if_neg hm]
  unfold solveConstrained finish handBack
  simp only [Work.ends_bind_eq]
  rfl

/-- What holds wherever the work of a solve ends, holds of the session that the solve leaves. -/
theorem session_solve {P : Session (Solver α) σ α → Prop}
    (h : Ends (solveProblem env p) (fun _ r' => P r') (fun _ r' => P r') r) :
    P (solve env p r).session := by
  unfold Ends at h
  unfold solve
  rcases hrun : (solveProblem env p).run.run r with ⟨_ | d, r'⟩ <;> rw [hrun] at h
  · exact h
  · exact h

/-- An outcome comes from work that ended well. -/
theorem exists_of_outcome_solve (h : Ends (solveProblem env p) Q R r) {out : Outcome α}
    (hout : (solve env p r).outcome = .ok out) :
    ∃ d : Delivery α, d.outcome = out ∧ Q d (solve env p r).session := by
  unfold Ends at h
  unfold solve at hout ⊢
  rcases hrun : (solveProblem env p).run.run r with ⟨_ | d, r'⟩ <;> rw [hrun] at h hout
  · cases hout
  · exact ⟨d, Except.ok.inj hout, h⟩

end

/-! ## Bookkeeping -/

variable {σ K : Type} {s s' s'' : Solver K}

/-- What a solve keeps about its iterations may have changed, the iterate has not. -/
def Solver.Booked (s s' : Solver K) : Prop :=
  ∃ stage iterations history hasIterate, s' = { s with stage, iterations, history, hasIterate }

theorem Solver.Booked.trans (h : s.Booked s') (h' : s'.Booked s'') : s.Booked s'' := by
  obtain ⟨_, _, _, _, rfl⟩ := h
  obtain ⟨_, _, _, _, rfl⟩ := h'
  exact ⟨_, _, _, _, rfl⟩

variable [Field K] {f : Formulation} {D : Data K} {o : Options K}

theorem Loaded.of_booked (h : Loaded D f o s) (hb : s.Booked s') : Loaded D f o s' := by
  obtain ⟨_, _, _, _, rfl⟩ := hb
  exact { h with ready := { h.ready with }, vectors := { h.vectors with } }

theorem Consistent.of_booked (h : Consistent D s) (hb : s.Booked s') : Consistent D s' := by
  obtain ⟨_, _, _, _, rfl⟩ := hb
  exact ⟨h.primal, h.dual, h.mu⟩

variable [LinearOrder K]

theorem Solver.booked_counted [ElementaryFunctions K] (s : Solver K) : s.Booked s.counted :=
  ⟨_, _, _, _, rfl⟩

theorem Solver.Interior.of_booked (h : s.Interior) (hb : s.Booked s') : s'.Interior := by
  obtain ⟨_, _, _, _, rfl⟩ := hb
  exact ⟨h.slack, h.multipliers⟩

variable [ElementaryFunctions K] {env : Environment σ K} {r : Session (Solver K) σ K}
  {p : Problem K} {q : Problem.Parts K} {factored : σ → Option (Matrix K)}

/-! ## Up to the first iterate -/

/-- Unknowns that are used again are still there when the solver has taken on the dimensions. -/
theorem allocate_of_reuse_x {n m : Nat} (h : (reuseFor s n m).x = true) :
    (s.allocate n m).x = s.x := by
  simp only [reuseFor, Bool.and_eq_true, beq_iff_eq] at h
  rw [s.allocate_eq]
  exact if_pos h.2

/-- So are slacks and multipliers. -/
theorem allocate_of_reuse_lam {n m : Nat} (h : (reuseFor s n m).lam = true) :
    (s.allocate n m).y = s.y ∧ (s.allocate n m).lam = s.lam := by
  have hm : m = s.m := by
    simp only [reuseFor, Bool.and_eq_true, beq_iff_eq] at h
    omega
  rw [s.allocate_eq]
  exact ⟨if_pos hm, if_pos hm⟩

section

variable [IsStrictOrderedRing K]

/-- A solve that gets to its first iterate has the problem loaded and its residuals consistent, and
is in the interior unless it returned to the iterate that it found. -/
theorem ends_prepare (hexact : Exact env.backend factored) (h : r.solver.Ready) (hq : q.Makes p)
    (hm : 0 < (r.solver.options.data q).m) :
    Ends (prepare env p)
      (fun _ r' => ∃ f, Loaded (r.solver.options.data q) f r.solver.options r'.solver ∧
        Consistent (r.solver.options.data q) r'.solver ∧
        (r'.solver.Interior ∨
          r.solver.options.startingPoint = .strategy .affineStepOrPrevious ∧
          reuseFor r.solver p.unknowns (p.activeConstraints r.solver.options.skipTangential) =
            ⟨true, true⟩ ∧
          r'.solver.y = r.solver.y ∧ r'.solver.lam = r.solver.lam))
      (fun _ r' => r'.solver.Ready) r := by
  have hactive : p.activeConstraints r.solver.options.skipTangential =
      ((r.solver.options.data q).m : Int) := hq.fit.activeConstraints
  have hn : p.unknowns = (r.solver.options.data q).n := hq.fit.unknowns
  rw [ends_prepare_iff]
  refine (ends_arrange env h hq).mono ?_ fun _ _ h' => h'.2.1.ready
  rintro _ r₁ ⟨-, -, f, -, h₁⟩
  refine (Loaded.ends_startWith hexact hm h₁.loaded r.solver.options.startingPoint _).mono ?_
    fun _ _ h' => h'.ready
  rintro _ r₂ ⟨h₂, hc₂, hor⟩
  refine ⟨f, h₂, hc₂, hor.imp_right ?_⟩
  rintro ⟨hchoice, hreuse, hy, hl⟩
  have hlam := congrArg Reuse.lam hreuse
  rw [hactive, hn] at hlam
  have hkept := allocate_of_reuse_lam hlam
  exact ⟨hchoice, hreuse, hy.trans (h₁.y.trans hkept.1), hl.trans (h₁.lam.trans hkept.2)⟩

end

/-! ## From the first iterate on -/

/-- What an outcome reports of a solver at its last iterate. -/
structure Outcome.Reports (out : Outcome K) (s : Solver K) : Prop where
  x : out.x = s.x
  slack : out.slack = s.y
  multipliers : out.multipliers = s.lam
  measures : out.measures = s.measures
  iterated : out.stage ≠ .degenerate
  converged : out.stage = .converged → s.isConverged = true

theorem Outcome.Renders.reports {out : Outcome K} {before : Solver K} (h : out.Renders before s) :
    out.Reports s := by
  refine ⟨h.x, h.slack, h.multipliers, h.measures, fun hstage => ?_, fun hstage => ?_⟩ <;>
    have hsettled := h.stage.symm.trans hstage
  · split_ifs at hsettled
  · by_contra hnot
    rw [if_neg hnot] at hsettled
    cases hsettled

variable {I J : Session (Solver K) σ K → Prop}

/-- What an iteration and the bookkeeping keep holds as long as there are iterations. -/
theorem ends_iterateWithin
    (hstep : ∀ r, I r → Ends (iterate env) (fun _ r' => I r') (fun _ r' => J r') r)
    (hbooked : ∀ r r', I r → r.solver.Booked r'.solver → r'.backend = r.backend → I r')
    (hrefused : ∀ r, I r → J r) (budget : Nat) (h : I r) :
    Ends (iterateWithin env budget) (fun _ r' => I r') (fun _ r' => J r') r := by
  induction budget generalizing r with
  | zero => exact h
  | succ budget ih =>
    rw [iterateWithin_succ, ends_bind, ends_solver]
    split
    · exact h
    · refine (hstep r h).bind (fun _ r₁ h₁ => ?_) fun _ _ h' => h'
      have hcounted : ∀ r₂ : Session (Solver K) σ K, r₂.solver = r₁.solver.counted →
          r₂.backend = r₁.backend → I r₂ := fun r₂ hs₂ hb₂ =>
        hbooked r₁ r₂ h₁ (hs₂ ▸ r₁.solver.booked_counted) hb₂
      refine (ends_keepBooks env).bind (fun _ r₂ h₂ => ?_) fun _ r₂ h₂ => ?_
      · exact ih (hcounted r₂ h₂.1 h₂.2)
      · exact hrefused r₂ (hcounted r₂ h₂.1 h₂.2)

/-- A solution is handed back without touching the iterate. -/
theorem ends_handBack (before : Solver K) :
    Ends (handBack p before)
      (fun d r' => r.solver.Booked r'.solver ∧ r'.backend = r.backend ∧ d.outcome.Reports r.solver)
      (fun _ r' => r.solver.Booked r'.solver ∧ r'.backend = r.backend) r := by
  have hbooked : r.solver.Booked r.solver.concluded := ⟨_, _, _, _, rfl⟩
  refine (ends_handBack_eq before).mono ?_ ?_
  · rintro d r₁ ⟨hs₁, hb₁, hrenders⟩
    exact ⟨hs₁ ▸ hbooked, hb₁, hrenders.reports⟩
  · rintro _ r₁ ⟨hs₁, hb₁⟩
    exact ⟨hs₁ ▸ hbooked, hb₁⟩

/-- What a first iterate has and iterations keep, the last iterate has, and it is reported. -/
theorem ends_finish
    (hstep : ∀ r, I r → Ends (iterate env) (fun _ r' => I r') (fun _ r' => J r') r)
    (hbooked : ∀ r r', I r → r.solver.Booked r'.solver → r'.backend = r.backend → I r')
    (hrefused : ∀ r, I r → J r) (before : Solver K) (h : I r) :
    Ends (finish env p before)
      (fun d r' => I r' ∧ ∃ r₁, I r₁ ∧ r₁.solver.Booked r'.solver ∧ d.outcome.Reports r₁.solver)
      (fun _ r' => J r') r := by
  unfold finish
  rw [ends_bind, ends_change]
  refine (ends_iterateWithin (r := { r with solver := r.solver.begun }) hstep hbooked hrefused _
    (hbooked r _ h ⟨_, _, _, _, rfl⟩ rfl)).bind ?_ fun _ _ h' => h'
  intro _ r₁ h₁
  refine (ends_handBack before).mono ?_ ?_
  · rintro d r₂ ⟨hs₂, hb₂, hreports⟩
    exact ⟨hbooked r₁ r₂ h₁ hs₂ hb₂, r₁, h₁, hs₂, hreports⟩
  · rintro _ r₂ ⟨hs₂, hb₂⟩
    exact hrefused r₂ (hbooked r₁ r₂ h₁ hs₂ hb₂)

end CentralPath.InteriorPoint
