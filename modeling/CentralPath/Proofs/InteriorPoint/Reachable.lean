/-
  The solvers that callers come to have. Every solve leaves its solver ready for the next one,
  whether it has constraints, returns or is refused half-way, so a solver is ready wherever its
  callers take it (`Reachable.ready`).
-/
import CentralPath.Proofs.InteriorPoint.Solving

namespace CentralPath.InteriorPoint

open Backend (Environment Exact Session Work)
open Backend.Work (Ends ends_bind ends_change ends_pure ends_report ends_request_solver
  ends_solution ends_solver)
open Newton (Formulation)
open Problem (Data)
open Sparse (Matrix)

/-! ## Without constraints -/

section

variable {σ α : Type} [Elementary α]

/-- A solve without constraints up to its question, which is about the Hessian handed over. -/
def pose (env : Environment σ α) (p : Problem α) (n : Nat) : Run σ α (Matrix α) := do
  Work.change (·.allocate n 0)
  loadHessian p
  let f ← Work.lift (p.linearFor n)
  Solver.assign .c fun s => Vector.fill? s.c.size (Vector.neg f)
  let G := (← Work.solver).G.compress.1
  Work.change fun s => { s with G }
  Work.report (Journal.storageEvents env.debug Journal.compressionContext G)
  pure G

/-- A solve without constraints from the answer of the backend on. -/
def settle (p : Problem α) (n : Nat) (full : Int) (G : Matrix α) (found : Array α) :
    Run σ α (Delivery α) := do
  Solver.assign .x fun s => Vector.fill? s.x.size found
  Work.change fun s => { s with mu := 0, stage := .degenerate, hasIterate := false }
  Work.report [.solvedDirectly n]
  let s ← Work.solver
  let head ← Work.lift (handedUnknowns s.x n full)
  let problem ← Work.lift (p.receive (head ++ Vector.zeros ((n + full).toNat - head.size)))
  let rd ← Work.lift (Vector.zip? (· + ·) (← Work.lift (G.mulVec s.x false)) s.c)
  let outcome : Outcome α :=
    { x := s.x
      objective := ← Work.lift s.objective
      stage := s.stage
      message := "No constraints; unconstrained minimizer returned"
      iterations := 0
      measures := ⟨0, Vector.normOver rd n, 0⟩
      slack := #[]
      multipliers := #[]
      history := [] }
  pure ⟨outcome, problem⟩

theorem solveUnconstrained_eq (env : Environment σ α) (p : Problem α) (n : Nat) (full : Int) :
    solveUnconstrained env p n full = pose env p n >>= fun G => Work.solver >>= fun s =>
      (Work.request env (.hessian s.id) G (Vector.neg s.c) .complete "unconstrained system" >>=
        fun _ => Work.solution env) >>= settle p n full G := by
  unfold solveUnconstrained pose settle
  simp only [bind_assoc, pure_bind]

end

variable {σ K : Type} [Field K] [LinearOrder K] [ElementaryFunctions K] {env : Environment σ K}
  {r : Session (Solver K) σ K} {p : Problem K} {q : Problem.Parts K}
  {factored : σ → Option (Matrix K)}

/-! ## One solve -/

/-- A solver that is ready, with the compliance block, the block of the constraints and the Newton
matrix of `s`. -/
structure Solver.Spares (s s' : Solver K) : Prop where
  ready : s'.Ready
  compliance : s'.E = s.E
  jacobian : s'.A = s.A
  kkt : s'.kkt = s.kkt

/-- The outcome of a solve without constraints, which found the solver as `s` and left it as `s'`.
`good` is what the backend grants its solutions; the maintained dual residual is not brought to the
solution. -/
structure Outcome.SolvesDirectly (out : Outcome K) (good : Matrix K → Array K → Array K → Prop)
    (n : Nat) (s s' : Solver K) : Prop where
  stage : out.stage = .degenerate
  n_eq : s'.n = n
  m_eq : s'.m = 0
  iterate : s'.hasIterate = false
  rd : s'.rd = (s.allocate n 0).rd
  mu : s'.mu = 0
  solution : ∃ found, good s'.G (Vector.neg s'.c) found ∧
    Vector.fill? s'.x.size found = .ok s'.x
  measures : ∃ image rd, s'.G.mulVec s'.x false = .ok image ∧
    Vector.zip? (· + ·) image s'.c = .ok rd ∧ out.measures = ⟨0, Vector.normOver rd n, 0⟩

/-- The question of a solve without constraints is put. -/
structure Solver.Posed (n : Nat) (s s' : Solver K) : Prop extends s.Spares s' where
  n_eq : s'.n = n
  m_eq : s'.m = 0
  rd : s'.rd = (s.allocate n 0).rd

theorem ends_pose (env : Environment σ K) (h : r.solver.Ready) (hq : q.Makes p) :
    Ends (pose env p p.unknowns)
      (fun G r' => r.solver.Posed p.unknowns r'.solver ∧ r'.solver.G = G)
      (fun _ r' => r.solver.Spares r'.solver) r := by
  have hfit := hq.fit
  set D := r.solver.options.data q
  have hn : p.unknowns = D.n := hfit.unknowns
  unfold pose
  rw [ends_bind, ends_change]
  have h₁ := h.allocate p.unknowns 0
  have hposed : ∀ G : Matrix K, G.Sound →
      r.solver.Posed p.unknowns { r.solver.allocate p.unknowns 0 with G } := fun G hG => by
    rw [r.solver.allocate_eq] at h₁ ⊢
    exact ⟨⟨{ h₁ with hessian := hG }, rfl, rfl, rfl⟩, rfl, rfl, by rw [r.solver.allocate_eq]⟩
  refine (ends_loadHessian (r := { r with solver := r.solver.allocate p.unknowns 0 }) h₁ D.G
    fun i j hi hj => hfit.hessianBlock_gives (hn ▸ hi) (hn ▸ hj)).bind ?_ ?_
  rotate_left
  · rintro _ r₂ ⟨-, -, G, hs₂, hG⟩
    rw [hs₂]
    exact (hposed G hG).toSpares
  rintro _ r₂ ⟨-, -, G, hs₂, hG⟩
  have h₂ : r.solver.Posed p.unknowns r₂.solver := by
    rw [hs₂]
    exact hposed G hG.sound
  refine Ends.lift_bind (fun linear _ => ?_) fun _ => h₂.toSpares
  rw [ends_bind, ends_assign]
  rcases hc : Vector.fill? r₂.solver.c.size (Vector.neg linear) with e | c
  · exact h₂.toSpares
  dsimp only [Solver.withComponent]
  rw [ends_bind, ends_solver]
  dsimp only
  rw [ends_bind, ends_change, ends_bind, ends_report, ends_pure]
  have hready : { r₂.solver with c, G := r₂.solver.G.compress.1 }.Ready :=
    { h₂.ready with
      c := (Vector.size_of_fill? hc).trans h₂.ready.c
      hessian := h₂.ready.hessian.compress }
  exact ⟨{ h₂ with ready := hready }, rfl⟩

theorem ends_settle {s : Solver K} (h : s.Posed p.unknowns r.solver) (full : Int)
    {good : Matrix K → Array K → Array K → Prop} {found : Array K}
    (hgood : good r.solver.G (Vector.neg r.solver.c) found) :
    Ends (settle p p.unknowns full r.solver.G found)
      (fun d r' => s.Spares r'.solver ∧ d.outcome.SolvesDirectly good p.unknowns s r'.solver)
      (fun _ r' => s.Spares r'.solver) r := by
  unfold settle
  rw [ends_bind, ends_assign]
  rcases hx : Vector.fill? r.solver.x.size found with e | x
  · exact h.toSpares
  dsimp only [Solver.withComponent]
  rw [ends_bind, ends_change, ends_bind, ends_report, ends_bind, ends_solver]
  dsimp only
  have hxsize := Vector.size_of_fill? hx
  have h₁ : s.Spares { r.solver with x, mu := 0, stage := .degenerate, hasIterate := false } :=
    ⟨{ h.ready with x := hxsize.trans h.ready.x }, h.compliance, h.jacobian, h.kkt⟩
  refine Ends.lift_bind (fun head _ => ?_) fun _ => h₁
  refine Ends.lift_bind (fun received _ => ?_) fun _ => h₁
  refine Ends.lift_bind (fun image himage => ?_) fun _ => h₁
  refine Ends.lift_bind (fun rd hrd => ?_) fun _ => h₁
  refine Ends.lift_bind (fun objective _ => ⟨h₁, ?_⟩) fun _ => h₁
  exact
    { stage := rfl
      n_eq := h.n_eq
      m_eq := h.m_eq
      iterate := rfl
      rd := h.rd
      mu := rfl
      solution := ⟨found, hgood, by rw [hxsize]; exact hx⟩
      measures := ⟨image, rd, himage, hrd, rfl⟩ }

/-- A solve without constraints leaves the solver ready, and without an iterate if it returns. -/
theorem ends_solveUnconstrained (h : r.solver.Ready) (hq : q.Makes p) (full : Int)
    {good : Matrix K → Array K → Array K → Prop}
    (hask : ∀ (s : Session (Solver K) σ K) (G : Matrix K) (rhs : Array K),
      Ends (Work.request env (.hessian s.solver.id) G rhs .complete "unconstrained system" >>=
          fun _ => Work.solution env)
        (fun v t => t.solver = s.solver ∧ good G rhs v) (fun _ t => t.solver = s.solver) s) :
    Ends (solveUnconstrained env p p.unknowns full)
      (fun d r' => r.solver.Spares r'.solver ∧
        d.outcome.SolvesDirectly good p.unknowns r.solver r'.solver)
      (fun _ r' => r.solver.Spares r'.solver) r := by
  rw [solveUnconstrained_eq]
  refine (ends_pose env h hq).bind ?_ fun _ _ h₁ => h₁
  rintro _ r₁ ⟨h₁, rfl⟩
  rw [ends_bind, ends_solver]
  refine (hask r₁ _ _).bind ?_ ?_
  · rintro found r₂ ⟨hs₂, hgood⟩
    rw [← hs₂] at h₁ hgood ⊢
    exact ends_settle h₁ full hgood
  · intro _ r₂ hs₂
    rw [hs₂]
    exact h₁.toSpares

theorem ends_solveProblem_directly (h : r.solver.Ready) (hq : q.Makes p)
    (hm : p.activeConstraints r.solver.options.skipTangential = 0)
    {good : Matrix K → Array K → Array K → Prop}
    (hask : ∀ (s : Session (Solver K) σ K) (G : Matrix K) (rhs : Array K),
      Ends (Work.request env (.hessian s.solver.id) G rhs .complete "unconstrained system" >>=
          fun _ => Work.solution env)
        (fun v t => t.solver = s.solver ∧ good G rhs v) (fun _ t => t.solver = s.solver) s) :
    Ends (solveProblem env p)
      (fun d r' => r.solver.Spares r'.solver ∧
        d.outcome.SolvesDirectly good p.unknowns r.solver r'.solver)
      (fun _ r' => r.solver.Spares r'.solver) r := by
  unfold solveProblem
  rw [ends_bind, ends_change, ends_bind, ends_solver]
  dsimp only
  rw [if_pos hm]
  refine (ends_solveUnconstrained
    (r := { r with solver := { r.solver with solveCalls := r.solver.solveCalls + 1 } })
    { h with } hq _ hask).mono ?_ fun _ _ h' => { h' with }
  rintro d r' ⟨hspares, hout⟩
  refine ⟨{ hspares with }, { hout with rd := ?_ }⟩
  have hrd := hout.rd
  rwa [Solver.allocate_eq] at hrd ⊢

/-- Nothing need be known of the backend. -/
theorem ends_solveProblem_unconstrained (env : Environment σ K) (h : r.solver.Ready) (hq : q.Makes p)
    (hm : p.activeConstraints r.solver.options.skipTangential = 0) :
    Ends (solveProblem env p)
      (fun d r' => r.solver.Spares r'.solver ∧
        d.outcome.SolvesDirectly (fun _ _ _ => True) p.unknowns r.solver r'.solver)
      (fun _ r' => r.solver.Spares r'.solver) r := by
  refine ends_solveProblem_directly h hq hm fun s G rhs => ?_
  refine (ends_request_solver env _ _ _ _ _).bind ?_ fun _ _ hs => hs
  intro _ t hs
  rw [ends_solution]
  rcases env.backend.solution t.backend with _ | v
  · exact hs
  · exact ⟨hs, trivial⟩

variable [IsStrictOrderedRing K]

/-- A solve leaves the solver ready. -/
theorem ready_solve (hexact : Exact env.backend factored) (h : r.solver.Ready) (hq : q.Makes p) :
    (solve env p r).session.solver.Ready := by
  refine session_solve (P := fun r' => r'.solver.Ready) ?_
  have hactive : p.activeConstraints r.solver.options.skipTangential =
      ((r.solver.options.data q).m : Int) := hq.fit.activeConstraints
  by_cases hm : p.activeConstraints r.solver.options.skipTangential = 0
  · exact (ends_solveProblem_unconstrained env h hq hm).mono (fun _ _ h' => h'.1.ready)
      fun _ _ h' => h'.ready
  · rw [ends_solveProblem hm]
    have hpos : 0 < (r.solver.options.data q).m := by omega
    refine (ends_prepare hexact h hq hpos).mono ?_ fun _ _ h' => h'
    rintro _ r₁ ⟨f, h₁, hc₁, -⟩
    refine (ends_finish
      (I := fun r' => Loaded (r.solver.options.data q) f r.solver.options r'.solver ∧
        Consistent (r.solver.options.data q) r'.solver)
      (J := fun r' => r'.solver.Ready) ?_ ?_ ?_ r.solver ⟨h₁, hc₁⟩).mono ?_ fun _ _ h' => h'
    · rintro r₂ ⟨h₂, hc₂⟩
      exact (ends_iterate hexact hpos h₂ hc₂).mono (fun _ _ h' => ⟨h'.1, h'.2.1⟩)
        fun _ _ h' => h'.1.ready
    · rintro r₂ r₃ ⟨h₂, hc₂⟩ hbooked -
      exact ⟨h₂.of_booked hbooked, hc₂.of_booked hbooked⟩
    · exact fun r₂ h₂ => h₂.1.ready
    · exact fun _ _ h' => h'.1.1.ready

/-! ## Many solves -/

/-- The sessions that callers come to with one solver: it is created, it solves problems one after
the other, some of them in vain, and between solves its options are set and its backend is used for
something else. -/
inductive Reachable (env : Environment σ K) : Session (Solver K) σ K → Prop
  | created (id : Nat) (options : Options K) (backend : σ) (events : List (Journal.Event K)) :
      Reachable env ⟨.create id options, backend, events⟩
  | solved {r : Session (Solver K) σ K} {q : Problem.Parts K} {p : Problem K}
      (h : Reachable env r) (hq : q.Makes p) : Reachable env (solve env p r).session
  | elsewhere {r r' : Session (Solver K) σ K} (h : Reachable env r) (options : Options K)
      (hsolver : r'.solver = { r.solver with options }) : Reachable env r'

/-- Wherever its callers take it, a solver is ready. -/
theorem Reachable.ready (hexact : Exact env.backend factored) (h : Reachable env r) :
    r.solver.Ready := by
  induction h with
  | created id options backend events => exact Solver.ready_create id options
  | solved _ hq ih => exact ready_solve hexact ih hq
  | elsewhere _ options hsolver ih =>
    rw [hsolver]
    exact { ih with }

end CentralPath.InteriorPoint
