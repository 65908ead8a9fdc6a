/-
  The residuals along a whole solve. From the first iterate on they are only carried along by the
  shortcut formulas, and they never drift: in every session that a solve visits, the maintained
  residuals and the duality measure are those of the data at the iterate (`Visited.residuals_eq`).
-/
import CentralPath.Proofs.Backend.Verified
import CentralPath.Proofs.InteriorPoint.Reachable
import CentralPath.Proofs.Scalar.Rational

namespace CentralPath.InteriorPoint

open Backend (Environment Exact Session Work)
open Backend.Work (Ends)
open Problem (Data)
open Sparse (Matrix)

variable {σ K : Type} [Field K] [LinearOrder K] [ElementaryFunctions K] {env : Environment σ K}
  {start r : Session (Solver K) σ K} {p : Problem K} {q : Problem.Parts K}
  {factored : σ → Option (Matrix K)}

/-- The sessions that a solve of `p` visits from `start`: the one with the first iterate, those after
any number of iterations, also where one is refused, and what bookkeeping makes of them. -/
inductive Visited (env : Environment σ K) (p : Problem K) (start : Session (Solver K) σ K) :
    Session (Solver K) σ K → Prop
  | prepared {r : Session (Solver K) σ K} (h : (prepare env p).run.run start = (.ok (), r)) :
      Visited env p start r
  | iterated {r : Session (Solver K) σ K} (h : Visited env p start r) :
      Visited env p start ((iterate env).run.run r).2
  | booked {r r' : Session (Solver K) σ K} (h : Visited env p start r)
      (hsolver : r.solver.Booked r'.solver) (hbackend : r'.backend = r.backend) :
      Visited env p start r'

/-- A solve that returns does so in a session that it visits. -/
theorem visited_solve (hm : p.activeConstraints start.solver.options.skipTangential ≠ 0)
    {out : Outcome K} (hout : (solve env p start).outcome = .ok out) :
    Visited env p start (solve env p start).session := by
  have hends : Ends (solveProblem env p) (fun _ r' => Visited env p start r') (fun _ _ => True)
      start := by
    rw [ends_solveProblem hm]
    refine (Work.ends_run (prepare env p) start).mono ?_ fun _ _ _ => trivial
    intro _ r₁ hrun
    refine (ends_finish (I := Visited env p start) (J := fun _ => True) ?_ ?_ ?_ start.solver
      (.prepared hrun)).mono (fun _ _ h => h.1) fun _ _ _ => trivial
    · intro r₂ h₂
      refine (Work.ends_run (iterate env) r₂).mono ?_ fun _ _ _ => trivial
      intro _ r₃ hrun
      have h₃ := h₂.iterated
      rwa [hrun] at h₃
    · exact fun _ _ h hs hb => h.booked hs hb
    · exact fun _ _ => trivial
  obtain ⟨_, -, h⟩ := exists_of_outcome_solve hends hout
  exact h

variable [IsStrictOrderedRing K]

/-- What the sessions of a solve have in common, wherever the solver comes from. -/
theorem Visited.consistent_of_ready (hexact : Exact env.backend factored)
    (hready : start.solver.Ready) (hq : q.Makes p) (hm : 0 < (start.solver.options.data q).m)
    (h : Visited env p start r) :
    ∃ f, Loaded (start.solver.options.data q) f start.solver.options r.solver ∧
      Consistent (start.solver.options.data q) r.solver := by
  induction h with
  | prepared hrun =>
    have hends := ends_prepare hexact hready hq hm
    rw [Ends, hrun] at hends
    obtain ⟨f, hloaded, hconsistent, -⟩ := hends
    exact ⟨f, hloaded, hconsistent⟩
  | @iterated r₁ _ ih =>
    obtain ⟨f, hloaded, hconsistent⟩ := ih
    have hends := ends_iterate hexact hm hloaded hconsistent
    rw [Ends] at hends
    rcases hrun : (iterate env).run.run r₁ with ⟨_ | _, r₂⟩ <;> rw [hrun] at hends
    · exact ⟨f, hends.1, hends.2.1⟩
    · exact ⟨f, hends.1, hends.2.1⟩
  | booked _ hsolver _ ih =>
    obtain ⟨f, hloaded, hconsistent⟩ := ih
    exact ⟨f, hloaded.of_booked hsolver, hconsistent.of_booked hsolver⟩

theorem Visited.consistent (hexact : Exact env.backend factored) (hstart : Reachable env start)
    (hq : q.Makes p) (hm : 0 < (start.solver.options.data q).m) (h : Visited env p start r) :
    ∃ f, Loaded (start.solver.options.data q) f start.solver.options r.solver ∧
      Consistent (start.solver.options.data q) r.solver :=
  h.consistent_of_ready hexact (hstart.ready hexact) hq hm

/-- The maintained residuals never drift from those of the data. -/
theorem Visited.residuals_eq (hexact : Exact env.backend factored) (hstart : Reachable env start)
    (hq : q.Makes p) (hm : 0 < p.activeConstraints start.solver.options.skipTangential)
    (h : Visited env p start r) :
    r.solver.rp =
        (start.solver.options.data q).primalResidual r.solver.x r.solver.y r.solver.lam ∧
      r.solver.rd = (start.solver.options.data q).dualResidual r.solver.x r.solver.lam ∧
      r.solver.mu = (start.solver.options.data q).dualityMeasure r.solver.y r.solver.lam := by
  have hactive : p.activeConstraints start.solver.options.skipTangential =
      ((start.solver.options.data q).m : Int) := hq.fit.activeConstraints
  obtain ⟨_, -, hprimal, hdual, hmu⟩ := h.consistent hexact hstart hq (by omega)
  exact ⟨hprimal, hdual, hmu⟩

theorem exists_of_bind_toOption_eq_some {ε α β : Type} {x : Except ε α} {g : α → Except ε β} {b : β}
    (h : (x >>= g).toOption = some b) : ∃ a, x = .ok a ∧ (g a).toOption = some b := by
  rcases x with e | a
  · cases h
  · exact ⟨a, rfl, h⟩

/-- One unknown with one compliant constraint: `x² − 2x` where `x + λ ≥ 3`. -/
def compliantRow : Problem.Parts ℚ where
  G := .dense ⟨1, 1, #[#[2]]⟩
  c := #[-2]
  A := .dense ⟨1, 1, #[#[1]]⟩
  b := #[3]
  E := some (.dense ⟨1, 1, #[#[1]]⟩)
  triplets := false

/-- A fresh solver that counts compliance and goes a fixed part of the way. -/
def compliantStart :
    Session (Solver ℚ) (Backend.Verified (Backend.Adapter (Backend.Factor ℚ) ℚ) ℚ) ℚ :=
  ⟨.create 0 { (Options.standard : Options ℚ) with useCompliance := true, adaptiveEta := false },
    .initial, []⟩

theorem residuals_eq_compliantRow : ∃ (p : Problem ℚ) (r : Session (Solver ℚ) _ ℚ),
    compliantRow.Makes p ∧ 0 < p.activeConstraints compliantStart.solver.options.skipTangential ∧
      Visited Backend.elimination p compliantStart r ∧
      (r.solver.rp = (compliantStart.solver.options.data compliantRow).primalResidual r.solver.x
          r.solver.y r.solver.lam ∧
        r.solver.rd =
          (compliantStart.solver.options.data compliantRow).dualResidual r.solver.x r.solver.lam ∧
        r.solver.mu = (compliantStart.solver.options.data compliantRow).dualityMeasure r.solver.y
          r.solver.lam) := by
  have hrun : (do
      let p ← compliantRow.problem?
      let _ ← ((prepare Backend.elimination p).run.run compliantStart).1
      pure (decide (0 < p.activeConstraints compliantStart.solver.options.skipTangential)) :
        Except (Fault ℚ) Bool).toOption = some true := by
    decide +kernel
  obtain ⟨p, hp, hrun⟩ := exists_of_bind_toOption_eq_some hrun
  obtain ⟨_, hok, hrun⟩ := exists_of_bind_toOption_eq_some hrun
  have hm := of_decide_eq_true (Option.some.inj hrun)
  have hmakes : compliantRow.Makes p := Problem.Parts.makes_of_problem?
    (fun e he => by obtain rfl := Option.some.inj he; trivial) hp
  have hprepared : (prepare Backend.elimination p).run.run compliantStart =
      (.ok (), ((prepare Backend.elimination p).run.run compliantStart).2) := Prod.ext hok rfl
  have hvisited := (Visited.prepared hprepared).iterated
  exact ⟨p, _, hmakes, hm, hvisited, Visited.residuals_eq (Backend.exact_verified _)
    (.created 0 _ _ _) hmakes hm hvisited⟩

end CentralPath.InteriorPoint
