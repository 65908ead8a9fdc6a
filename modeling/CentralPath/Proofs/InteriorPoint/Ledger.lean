/-
  What a solve reports and records. The loop stops at the first iterate that meets all tolerances, or
  with its budget spent, or at an iteration that is refused (`exists_stops`), and the outcome is that
  of the iterate where it stopped (`Outcome.Tells`). One record is added for each iteration completed,
  behind all earlier ones and also if the solve is refused later on, so what a solver recorded is
  what its calls added, one after the other (`Calls.solve_reports`). No law of arithmetic is used, and
  nothing is known of the backend.
-/
import CentralPath.Proofs.InteriorPoint.Framed
import CentralPath.Proofs.InteriorPoint.Protocol

namespace CentralPath.InteriorPoint

open Backend (Environment Recorded Session Work)
open Backend.Work (Ends Keeps ends_bind ends_change ends_solver exists_of_run_bind_eq_ok keeps_change
  keeps_change_bind keeps_lift keeps_lift_bind keeps_pure keeps_report_bind keeps_request
  keeps_solution keeps_solver_bind keeps_throw run_bind_of_error run_bind_of_ok run_solver_bind)
open Journal (Measures)

variable {σ α : Type}

/-! ## What the books are kept about -/

/-- The options and the books are the same. -/
structure Solver.SameBooks (s s' : Solver α) : Prop where
  options : s'.options = s.options
  solveCalls : s'.solveCalls = s.solveCalls
  iterations : s'.iterations = s.iterations
  history : s'.history = s.history

instance : IsPreorder (Solver α) Solver.SameBooks where
  refl _ := ⟨rfl, rfl, rfl, rfl⟩
  trans _ _ _ h h' := ⟨h'.options.trans h.options, h'.solveCalls.trans h.solveCalls,
    h'.iterations.trans h.iterations, h'.history.trans h.history⟩

/-- So is the objective. -/
structure Solver.SameTask (s s' : Solver α) : Prop extends s.SameBooks s' where
  hessian : s'.G = s.G
  linear : s'.c = s.c

instance : IsPreorder (Solver α) Solver.SameTask where
  refl _ := ⟨⟨rfl, rfl, rfl, rfl⟩, rfl, rfl⟩
  trans _ _ _ h h' := ⟨trans_of Solver.SameBooks h.toSameBooks h'.toSameBooks,
    h'.hessian.trans h.hessian, h'.linear.trans h.linear⟩

theorem Solver.sameBooks_withComponent (s : Solver α) (k : Component) (v : Array α) :
    s.SameBooks (s.withComponent k v) := by
  cases k <;> exact ⟨rfl, rfl, rfl, rfl⟩

theorem overlooks_sameBooks : Overlooks (Solver.SameBooks (α := α)) where
  written s k v _ _ := s.sameBooks_withComponent k v
  restored _ _ h := ⟨h.options, h.solveCalls, h.iterations, h.history⟩
  apparatus _ _ _ _ _ _ _ _ := ⟨rfl, rfl, rfl, rfl⟩

theorem overlooks_sameTask : Overlooks (Solver.SameTask (α := α)) where
  written s k v hc _ := by
    refine ⟨s.sameBooks_withComponent k v, ?_, ?_⟩ <;> cases k
    case refine_2.c => exact absurd rfl hc
    all_goals rfl
  restored _ _ h := { h with }
  apparatus _ _ _ _ _ _ _ _ := ⟨⟨rfl, rfl, rfl, rfl⟩, rfl, rfl⟩

section

variable [Elementary α] {env : Environment σ α} {p : Problem α} {r : Session (Solver α) σ α}

theorem Solver.sameBooks_resizeUnknowns (s : Solver α) (n : Nat) :
    s.SameBooks (s.resizeUnknowns n) := by
  unfold Solver.resizeUnknowns
  split_ifs <;> exact ⟨rfl, rfl, rfl, rfl⟩

theorem Solver.sameBooks_allocate (s : Solver α) (n m : Nat) : s.SameBooks (s.allocate n m) := by
  have hresized := s.sameBooks_resizeUnknowns n
  unfold Solver.allocate
  generalize s.resizeUnknowns n = resized at hresized
  dsimp only
  split_ifs <;>
    exact ⟨hresized.options, hresized.solveCalls, hresized.iterations, hresized.history⟩

omit [Elementary α] in
theorem keeps_assign_books (k : Component) (g : Solver α → Except (Fault α) (Array α)) :
    Keeps Solver.SameBooks (Solver.assign k g : Run σ α Unit) :=
  keeps_assign fun s v _ => s.sameBooks_withComponent k v

theorem keeps_loadHessian_books (p : Problem α) :
    Keeps Solver.SameBooks (loadHessian p : Run σ α Unit) := by
  unfold loadHessian loadExactly
  exact keeps_solver_bind fun s => keeps_loadInto fun _ _ => ⟨rfl, rfl, rfl, rfl⟩

theorem keeps_loadProblem_books (p : Problem α) :
    Keeps Solver.SameBooks (loadProblem p : Run σ α Unit) := by
  have hsubstitute : Keeps Solver.SameBooks (loadSubstitute p : Run σ α Unit) := by
    unfold loadSubstitute
    refine keeps_solver_bind fun s => ?_
    split
    · exact .ite _ (keeps_loadInto fun _ _ => ⟨rfl, rfl, rfl, rfl⟩) (keeps_pure ())
    · exact keeps_pure ()
  unfold loadProblem
  refine keeps_solver_bind fun s => (keeps_loadHessian_books p).bind fun _ => ?_
  refine (overlooks_sameBooks.loadJacobian p).bind fun _ => ?_
  refine (overlooks_sameBooks.loadCompliance p).bind fun _ => ?_
  refine keeps_lift_bind fun f => keeps_lift_bind fun bound => hsubstitute.bind fun _ => ?_
  refine (keeps_assign_books _ _).bind fun _ => (keeps_assign_books _ _).bind fun _ => ?_
  exact overlooks_sameBooks.adoptCompliance

/-- Up to the first iterate, a solve is counted and nothing is recorded. -/
theorem ends_prepare_books (env : Environment σ α) (p : Problem α) (r : Session (Solver α) σ α) :
    Ends (prepare env p)
      (fun _ r' => { r.solver with solveCalls := r.solver.solveCalls + 1 }.SameBooks r'.solver)
      (fun _ r' => { r.solver with solveCalls := r.solver.solveCalls + 1 }.SameBooks r'.solver)
      r := by
  have hallocate : ∀ n m, Keeps Solver.SameBooks (allocateFor n m : Run σ α Unit) := by
    intro n m
    unfold allocateFor
    split_ifs
    · exact keeps_change_bind (fun s => s.sameBooks_resizeUnknowns n) (keeps_throw _)
    · exact keeps_change fun s => s.sameBooks_allocate n m.toNat
  have hrest : ∀ (n : Nat) (m : Int) (before : Solver α), Keeps Solver.SameBooks (do
      let sys ← Work.lift (Newton.System.create before.options.formulation n m)
      Work.change fun s => { s with system := some sys }
      allocateFor n m
      loadProblem p
      assembleSystem env sys
      Work.change fun s => { s with stage := .initialized }
      startWith env before.options.startingPoint (reuseFor before n m) : Run σ α Unit) := by
    intro n m before
    refine keeps_lift_bind fun sys => keeps_change_bind (fun _ => ⟨rfl, rfl, rfl, rfl⟩) ?_
    refine (hallocate n m).bind fun _ => (keeps_loadProblem_books p).bind fun _ => ?_
    refine (overlooks_sameBooks.assembleSystem env sys).bind fun _ => ?_
    exact keeps_change_bind (fun _ => ⟨rfl, rfl, rfl, rfl⟩) (overlooks_sameBooks.startWith env _ _)
  unfold prepare
  rw [ends_bind, ends_change, ends_bind, ends_solver]
  exact hrest _ _ _ _

/-- Neither is anything recorded where no constraint is in use. -/
theorem keeps_solveUnconstrained_books (env : Environment σ α) (p : Problem α) (n : Nat)
    (full : Int) : Keeps Solver.SameBooks (solveUnconstrained env p n full) := by
  unfold solveUnconstrained
  refine keeps_change_bind (fun s => s.sameBooks_allocate n 0) ?_
  refine (keeps_loadHessian_books p).bind fun _ => keeps_lift_bind fun f => ?_
  refine (keeps_assign_books _ _).bind fun _ => keeps_solver_bind fun s => ?_
  refine keeps_change_bind (fun _ => ⟨rfl, rfl, rfl, rfl⟩) (keeps_report_bind ?_)
  refine keeps_solver_bind fun s => (keeps_request env _ _ _ _ _).bind fun _ => ?_
  refine (keeps_solution env).bind fun found => (keeps_assign_books _ _).bind fun _ => ?_
  refine keeps_change_bind (fun _ => ⟨rfl, rfl, rfl, rfl⟩) (keeps_report_bind ?_)
  refine keeps_solver_bind fun s => keeps_lift_bind fun head => keeps_lift_bind fun problem => ?_
  refine keeps_lift_bind fun image => keeps_lift_bind fun rd => ?_
  exact keeps_lift_bind fun objective => keeps_pure _

end

/-! ## The iterates of a solve -/

variable [Elementary α] {env : Environment σ α} {p : Problem α}
  {r r₁ r₂ start : Session (Solver α) σ α} {s : Solver α} {j k : Nat}

/-- Iterations one after the other, each followed by its books. Convergence is not looked at. -/
def passes (env : Environment σ α) : Nat → Run σ α Unit
  | 0 => pure ()
  | k + 1 => do
    passes env k
    iterate env
    keepBooks env

theorem passes_succ (env : Environment σ α) (k : Nat) :
    passes env (k + 1) = iterate env >>= fun _ => keepBooks env >>= fun _ => passes env k := by
  induction k with
  | zero => simp only [passes, pure_bind, bind_pure_unit]
  | succ k ih =>
    conv_lhs => rw [passes, ih]
    simp only [bind_assoc]
    rfl

/-- The solver when the `k`-th iteration is done and counted. There is none where an iteration up to
that one is refused, or the check that follows an earlier one. -/
def iterateAt (env : Environment σ α) (r : Session (Solver α) σ α) : Nat → Option (Solver α)
  | 0 => some r.solver
  | k + 1 =>
    match (passes env k >>= fun _ => iterate env).run.run r with
    | (.ok _, r') => some r'.solver.counted
    | (.error _, _) => none

/-- One counted iteration on, with its record in the books if records are kept. -/
structure Solver.Advances (s s' : Solver α) : Prop where
  options : s'.options = s.options
  solveCalls : s'.solveCalls = s.solveCalls
  hessian : s'.G = s.G
  linear : s'.c = s.c
  iterations : s'.iterations = s.iterations + 1
  history : s'.history = s.history ++ if s.options.recordHistory then [s'.latestRecord] else []

theorem Solver.SameTask.advances {s s' : Solver α} (h : s.SameTask s') : s.Advances s'.counted where
  options := h.options
  solveCalls := h.solveCalls
  hessian := h.hessian
  linear := h.linear
  iterations := congrArg (· + 1) h.iterations
  history := by
    have hcounted : s'.counted.history =
        s'.history ++ if s'.options.recordHistory then [s'.counted.latestRecord] else [] := by
      unfold Solver.counted
      dsimp only
      split_ifs
      · rfl
      · rw [List.append_nil]
    rw [hcounted, h.history, h.options]

theorem solver_of_keepBooks {x : Except (Fault α) Unit}
    (h : (keepBooks env).run.run r₁ = (x, r₂)) : r₂.solver = r₁.solver.counted := by
  have hends := ends_keepBooks (r := r₁) env
  unfold Ends at hends
  rw [h] at hends
  rcases x with _ | _ <;> exact hends.1

theorem iterateAt_of_passes (h : (passes env k).run.run r = (.ok (), r₁)) :
    iterateAt env r k = some r₁.solver := by
  cases k with
  | zero =>
    obtain rfl : r = r₁ := (Prod.mk.inj h).2
    rfl
  | succ k =>
    rw [passes, ← bind_assoc] at h
    obtain ⟨_, r', hiterate, hbooks⟩ := exists_of_run_bind_eq_ok h
    rw [iterateAt, hiterate, solver_of_keepBooks hbooks]

/-- Every iterate but the first comes from the one before it. -/
theorem exists_of_iterateAt_succ (h : iterateAt env r (k + 1) = some s) :
    ∃ t, iterateAt env r k = some t ∧ t.Advances s := by
  rw [iterateAt] at h
  split at h
  · rename_i r' hrun
    obtain rfl := Option.some.inj h
    obtain ⟨_, r₁, hpasses, hiterate⟩ := exists_of_run_bind_eq_ok hrun
    have hkept := (overlooks_sameTask.iterate env).run r₁
    rw [hiterate] at hkept
    exact ⟨r₁.solver, iterateAt_of_passes hpasses, hkept.advances⟩
  · cases h

/-- Behind an iteration whose books are kept, the others follow. -/
theorem iterateAt_succ_of_run (hiterate : (iterate env).run.run r = (.ok (), r₁))
    (hbooks : (keepBooks env).run.run r₁ = (.ok (), r₂)) (k : Nat) :
    iterateAt env r (k + 1) = iterateAt env r₂ k := by
  rw [iterateAt]
  cases k with
  | zero => rw [passes, pure_bind, hiterate, iterateAt, solver_of_keepBooks hbooks]
  | succ k =>
    rw [passes_succ]
    simp only [bind_assoc]
    rw [run_bind_of_ok hiterate, run_bind_of_ok hbooks, iterateAt]

theorem iterateAt_one_of_run (hiterate : (iterate env).run.run r = (.ok (), r₁)) :
    iterateAt env r 1 = some r₁.solver.counted := by
  rw [iterateAt, passes, pure_bind, hiterate]

theorem iterateAt_one_of_refused {e : Fault α} (hiterate : (iterate env).run.run r = (.error e, r₁)) :
    iterateAt env r 1 = none := by
  rw [iterateAt, passes, pure_bind, hiterate]

theorem iterateAt_two_of_refused {e : Fault α} (hiterate : (iterate env).run.run r = (.ok (), r₁))
    (hbooks : (keepBooks env).run.run r₁ = (.error e, r₂)) : iterateAt env r 2 = none := by
  have hpasses : (passes env 1).run.run r = (.error e, r₂) := by
    rw [passes_succ, run_bind_of_ok hiterate, run_bind_of_error hbooks]
  rw [iterateAt, run_bind_of_error hpasses]

/-- What does not change from iterate to iterate. -/
theorem iterateAt_constants (h : iterateAt env r k = some s) :
    s.options = r.solver.options ∧ s.solveCalls = r.solver.solveCalls ∧ s.G = r.solver.G ∧
      s.c = r.solver.c ∧ s.iterations = r.solver.iterations + k := by
  induction k generalizing s with
  | zero =>
    obtain rfl := Option.some.inj h
    exact ⟨rfl, rfl, rfl, rfl, rfl⟩
  | succ k ih =>
    obtain ⟨t, ht, hadvances⟩ := exists_of_iterateAt_succ h
    obtain ⟨hoptions, hcalls, hhessian, hlinear, hiterations⟩ := ih ht
    refine ⟨hadvances.options.trans hoptions, hadvances.solveCalls.trans hcalls,
      hadvances.hessian.trans hhessian, hadvances.linear.trans hlinear, ?_⟩
    rw [hadvances.iterations, hiterations, Nat.add_assoc]

theorem exists_iterateAt_of_le (h : iterateAt env r k = some s) (hj : j ≤ k) :
    ∃ t, iterateAt env r j = some t := by
  induction k generalizing s with
  | zero => exact ⟨s, Nat.le_zero.mp hj ▸ h⟩
  | succ k ih =>
    rcases Nat.le_succ_iff.mp hj with hle | rfl
    · obtain ⟨t, ht, -⟩ := exists_of_iterateAt_succ h
      exact ih ht hle
    · exact ⟨s, h⟩

/-! ## Their records -/

/-- The record of iteration `k` of a call. -/
def recordAt (env : Environment σ α) (r : Session (Solver α) σ α) (call k : Nat) :
    Option (Record α) := (iterateAt env r k).map fun s => ⟨call, k, s.measures⟩

/-- The records that a call makes of its first `k` iterations, if it keeps any. -/
def Chronicles (env : Environment σ α) (r : Session (Solver α) σ α) (o : Options α) (call k : Nat)
    (records : List (Record α)) : Prop :=
  records.map some =
    (List.range (if o.recordHistory then k else 0)).map fun i => recordAt env r call (i + 1)

theorem Chronicles.unique {o : Options α} {call : Nat} {records records' : List (Record α)}
    (h : Chronicles env r o call k records) (h' : Chronicles env r o call k records') :
    records = records' :=
  List.map_injective_iff.mpr (Option.some_injective _) (h.trans h'.symm)

/-- The iterations of a call are recorded behind everything that was recorded before. -/
theorem exists_chronicle (hbegun : r.solver.iterations = 0) (h : iterateAt env r k = some s) :
    ∃ records, Chronicles env r r.solver.options r.solver.solveCalls k records ∧
      s.history = r.solver.history ++ records := by
  unfold Chronicles
  induction k generalizing s with
  | zero =>
    obtain rfl := Option.some.inj h
    exact ⟨[], by rw [ite_self]; rfl, (List.append_nil _).symm⟩
  | succ k ih =>
    obtain ⟨t, ht, hadvances⟩ := exists_of_iterateAt_succ h
    obtain ⟨records, hrecords, hhistory⟩ := ih ht
    obtain ⟨-, hcalls, -, -, hiterations⟩ := iterateAt_constants h
    have hlatest : recordAt env r r.solver.solveCalls (k + 1) = some s.latestRecord := by
      rw [recordAt, h, Option.map_some, Solver.latestRecord, hcalls, hiterations, hbegun,
        Nat.zero_add]
    have hoptions := (iterateAt_constants ht).1
    rw [hadvances.history, hhistory, hoptions]
    split_ifs at hrecords ⊢
    · refine ⟨records ++ [s.latestRecord], ?_, List.append_assoc ..⟩
      rw [List.map_append, hrecords, List.range_succ, List.map_append, List.map_singleton,
        List.map_singleton, hlatest]
    · exact ⟨records, hrecords, List.append_nil _⟩

/-! ## Where the loop stops -/

/-- All three measures are below their tolerances. -/
structure Options.Met (o : Options α) (q : Measures α) : Prop where
  mu : q.mu < o.muTolerance
  primal : q.primal < o.rpTolerance
  dual : q.dual < o.rdTolerance

theorem Solver.isConverged_iff (s : Solver α) : s.isConverged = true ↔ s.options.Met s.measures := by
  unfold Solver.isConverged
  simp only [Bool.and_eq_true, decide_eq_true_eq]
  exact ⟨fun h => ⟨h.1.1, h.1.2, h.2⟩, fun h => ⟨⟨h.mu, h.primal⟩, h.dual⟩⟩

/-- The iterate after `k` iterations meets the tolerances. -/
def MeetsAt (env : Environment σ α) (r : Session (Solver α) σ α) (o : Options α) (k : Nat) : Prop :=
  ∃ s, iterateAt env r k = some s ∧ o.Met s.measures

theorem meetsAt_iff (h : iterateAt env r k = some s) :
    MeetsAt env r r.solver.options k ↔ s.isConverged = true := by
  rw [s.isConverged_iff, (iterateAt_constants h).1]
  constructor
  · rintro ⟨t, ht, hmet⟩
    obtain rfl := Option.some.inj (h.symm.trans ht)
    exact hmet
  · exact fun hmet => ⟨s, h, hmet⟩

/-- After `j` iterations a loop with that budget stops: it does not stop any earlier, and the
tolerances are met, or the budget is spent, or the next iteration is not completed. -/
structure Stops (env : Environment σ α) (r : Session (Solver α) σ α) (o : Options α)
    (budget j : Nat) : Prop where
  reached : ∃ s, iterateAt env r j = some s
  within : j ≤ budget
  unmet : ∀ k < j, ¬MeetsAt env r o k
  last : MeetsAt env r o j ∨ j = budget ∨ iterateAt env r (j + 1) = none

theorem Stops.le {o : Options α} {budget j' : Nat} (h : Stops env r o budget j)
    (h' : Stops env r o budget j') : j' ≤ j := by
  by_contra hlt
  rcases h.last with hmet | hspent | hnone
  · exact h'.unmet j (by omega) hmet
  · have := h'.within
    omega
  · obtain ⟨s, hs⟩ := h'.reached
    obtain ⟨t, ht⟩ := exists_iterateAt_of_le hs (show j + 1 ≤ j' by omega)
    rw [hnone] at ht
    cases ht

theorem Stops.unique {o : Options α} {budget j' : Nat} (h : Stops env r o budget j)
    (h' : Stops env r o budget j') : j = j' := le_antisymm (h'.le h) (h.le h')

/-- A loop that completes an iteration stops one later than from there. -/
theorem Stops.succ {o : Options α} {budget : Nat} (h : Stops env r₂ o budget j)
    (hunmet : ¬MeetsAt env r o 0) (hshift : ∀ k, iterateAt env r (k + 1) = iterateAt env r₂ k) :
    Stops env r o (budget + 1) (j + 1) := by
  have hmeets : ∀ k, MeetsAt env r o (k + 1) ↔ MeetsAt env r₂ o k := fun k => by
    rw [MeetsAt, hshift]
    exact Iff.rfl
  refine ⟨?_, Nat.succ_le_succ h.within, fun k hk => ?_, ?_⟩
  · rw [hshift]
    exact h.reached
  · cases k with
    | zero => exact hunmet
    | succ k =>
      rw [hmeets]
      exact h.unmet k (Nat.lt_of_succ_lt_succ hk)
  · rw [hmeets, hshift, Nat.succ_inj]
    exact h.last

/-- The loop returns where it stops because of its tolerances or its budget, and is refused where it
stops because the next iteration is not completed. What was recorded is that of the last iterate. -/
theorem exists_stops (env : Environment σ α) (budget : Nat) (r : Session (Solver α) σ α) :
    ∃ j s, Stops env r r.solver.options budget j ∧ iterateAt env r j = some s ∧
      Ends (iterateWithin env budget)
        (fun _ r' => r'.solver = s ∧ (s.isConverged = true ∨ j = budget))
        (fun _ r' => s.SameBooks r'.solver) r := by
  induction budget generalizing r with
  | zero =>
    exact ⟨0, r.solver, ⟨⟨_, rfl⟩, le_rfl, fun k hk => absurd hk k.not_lt_zero, .inr (.inl rfl)⟩,
      rfl, rfl, .inr rfl⟩
  | succ budget ih =>
    have hstays : (MeetsAt env r r.solver.options 0 ∨ 0 = budget + 1 ∨ iterateAt env r 1 = none) →
        Stops env r r.solver.options (budget + 1) 0 := fun hlast =>
      ⟨⟨_, rfl⟩, Nat.zero_le _, fun k hk => absurd hk k.not_lt_zero, hlast⟩
    by_cases hconverged : r.solver.isConverged = true
    · refine ⟨0, r.solver, hstays (.inl ((meetsAt_iff rfl).mpr hconverged)), rfl, ?_⟩
      rw [iterateWithin_succ, ends_bind, ends_solver, if_pos hconverged]
      exact ⟨rfl, .inl hconverged⟩
    have hrun : (iterateWithin env (budget + 1)).run.run r =
        (iterate env >>= fun _ => keepBooks env >>= fun _ => iterateWithin env budget).run.run r := by
      rw [iterateWithin_succ, run_solver_bind, if_neg hconverged]
    have hunmet : ¬MeetsAt env r r.solver.options 0 := fun h => hconverged ((meetsAt_iff rfl).mp h)
    have hkept := (overlooks_sameTask.iterate env).run r
    rcases hiterate : (iterate env).run.run r with ⟨e | _, r₁⟩ <;> rw [hiterate] at hkept
    · -- the iteration is refused
      refine ⟨0, r.solver, hstays (.inr (.inr (iterateAt_one_of_refused hiterate))), rfl, ?_⟩
      rw [Ends, hrun, run_bind_of_error hiterate]
      exact hkept.toSameBooks
    rcases hbooks : (keepBooks env).run.run r₁ with ⟨e | _, r₂⟩ <;>
      have hs₂ := solver_of_keepBooks hbooks
    · -- the iteration is completed, but the check that follows is refused
      have hone := iterateAt_one_of_run hiterate
      have htwo := iterateAt_two_of_refused hiterate hbooks
      refine ⟨1, r₁.solver.counted, ⟨⟨_, hone⟩, by omega, fun k hk => ?_, .inr (.inr htwo)⟩, hone, ?_⟩
      · rwa [Nat.lt_one_iff.mp hk]
      · rw [Ends, hrun, run_bind_of_ok hiterate, run_bind_of_error hbooks]
        dsimp only
        rw [hs₂]
        exact refl_of Solver.SameBooks _
    · have hshift := iterateAt_succ_of_run hiterate hbooks
      obtain ⟨j, s, hstops, hs, hends⟩ := ih r₂
      have hoptions : r₂.solver.options = r.solver.options := by
        rw [hs₂]
        exact hkept.options
      rw [hoptions] at hstops
      refine ⟨j + 1, s, hstops.succ hunmet hshift, (hshift j).trans hs, ?_⟩
      rw [Ends, hrun, run_bind_of_ok hiterate, run_bind_of_ok hbooks]
      exact hends.mono (fun _ _ h => ⟨h.1, h.2.imp_right (congrArg (· + 1))⟩) fun _ _ h => h

/-! ## What a solve reports -/

/-- The outcome of a solve from its first iterate on is that of the iterate where it stopped: the
first one to meet the tolerances, or the last one that the budget leaves room for. A budget below
zero, which `Options.check` refuses, leaves room for no iteration. -/
structure Outcome.Tells (out : Outcome α) (env : Environment σ α) (o : Options α) (call : Nat)
    (first : Session (Solver α) σ α) : Prop where
  verdict :
    (out.stage = .converged ∧
      IsLeast {k | k ≤ o.maxIterations.toNat ∧ MeetsAt env first o k} out.iterations) ∨
    (out.stage = .iterationsExhausted ∧ out.iterations = o.maxIterations.toNat ∧
      ∀ k ≤ o.maxIterations.toNat, ¬MeetsAt env first o k)
  iterate : ∃ s, iterateAt env first out.iterations = some s ∧ out.x = s.x ∧ out.slack = s.y ∧
    out.multipliers = s.lam ∧ out.measures = s.measures
  objective : ∃ image, first.solver.G.mulVec out.x false = .ok image ∧
    objectiveOf image first.solver.c out.x = .ok out.objective
  history : Chronicles env first o call out.iterations out.history

/-- The session in which a solve that is prepared begins to iterate. -/
def beginning (r : Session (Solver α) σ α) : Session (Solver α) σ α :=
  { r with solver := r.solver.begun }

theorem Outcome.Renders.tells {out : Outcome α} {before : Solver α} {o : Options α}
    {records : List (Record α)} {call : Nat} (h : out.Renders before s)
    (hoptions : r.solver.options = o) (hbegun : r.solver.iterations = 0)
    (hstops : Stops env r o o.maxIterations.toNat j) (hs : iterateAt env r j = some s)
    (hsettled : s.isConverged = true ∨ j = o.maxIterations.toNat)
    (hrecords : Chronicles env r o call j records) (hhistory : s.history = before.history ++ records) :
    out.Tells env o call r := by
  subst hoptions
  obtain ⟨-, -, hhessian, hlinear, hiterations⟩ := iterateAt_constants hs
  obtain rfl : out.iterations = j := by rw [h.iterations, hiterations, hbegun, Nat.zero_add]
  have hmeets := meetsAt_iff hs
  refine ⟨?_, ⟨s, hs, h.x, h.slack, h.multipliers, h.measures⟩, ?_, ?_⟩
  · have hstage := h.stage
    split_ifs at hstage with hconverged
    · refine .inl ⟨hstage, ⟨hstops.within, hmeets.mpr hconverged⟩, fun k hk => ?_⟩
      exact le_of_not_gt fun hlt => hstops.unmet k hlt hk.2
    · have hspent := hsettled.resolve_left hconverged
      refine .inr ⟨hstage, hspent, fun k hk => ?_⟩
      rcases (hspent ▸ hk).lt_or_eq with hlt | rfl
      · exact hstops.unmet k hlt
      · exact fun hmet => hconverged (hmeets.mp hmet)
  · rw [← hhessian, ← hlinear, h.x]
    exact Newton.exists_of_bind_eq_ok h.objective
  · rw [h.history, hhistory, List.drop_left]
    exact hrecords

/-! ## What a solver records -/

/-- The records that a solve adds: none where it has no constraints in use or does not come to a first
iterate, otherwise one for each iteration up to where its loop stops, whether it returns or not. -/
inductive Adds (env : Environment σ α) (p : Problem α) (start : Session (Solver α) σ α) :
    List (Record α) → Prop
  | unconstrained (hm : p.activeConstraints start.solver.options.skipTangential = 0) :
      Adds env p start []
  | unprepared {e : Fault α} {r : Session (Solver α) σ α}
      (hm : p.activeConstraints start.solver.options.skipTangential ≠ 0)
      (h : (prepare env p).run.run start = (.error e, r)) : Adds env p start []
  | iterated {r : Session (Solver α) σ α} {j : Nat} {records : List (Record α)}
      (hm : p.activeConstraints start.solver.options.skipTangential ≠ 0)
      (h : (prepare env p).run.run start = (.ok (), r))
      (hstops : Stops env (beginning r) start.solver.options
        start.solver.options.maxIterations.toNat j)
      (hrecords : Chronicles env (beginning r) start.solver.options (start.solver.solveCalls + 1) j
        records) : Adds env p start records

/-- A solve adds one list of records. -/
theorem Adds.unique {records records' : List (Record α)} (h : Adds env p start records)
    (h' : Adds env p start records') : records = records' := by
  cases h with
  | unconstrained hm =>
    cases h' with
    | unconstrained => rfl
    | unprepared hm' => exact absurd hm hm'
    | iterated hm' => exact absurd hm hm'
  | unprepared hm hrun =>
    cases h' with
    | unconstrained hm' => exact absurd hm' hm
    | unprepared => rfl
    | iterated _ hrun' =>
      rw [hrun] at hrun'
      cases hrun'
  | iterated hm hrun hstops hrecords =>
    cases h' with
    | unconstrained hm' => exact absurd hm' hm
    | unprepared _ hrun' =>
      rw [hrun] at hrun'
      cases hrun'
    | iterated _ hrun' hstops' hrecords' =>
      rw [hrun] at hrun'
      obtain rfl := (Prod.mk.inj hrun').2
      obtain rfl := hstops.unique hstops'
      exact hrecords.unique hrecords'

/-- From `start` to `r`, a solve is counted and adds records to the history. -/
structure Enters (env : Environment σ α) (p : Problem α) (start r : Session (Solver α) σ α)
    (records : List (Record α)) : Prop where
  adds : Adds env p start records
  history : r.solver.history = start.solver.history ++ records
  solveCalls : r.solver.solveCalls = start.solver.solveCalls + 1

theorem enters_nil (hadds : Adds env p start [])
    (h : { start.solver with solveCalls := start.solver.solveCalls + 1 }.SameBooks r.solver) :
    Enters env p start r [] :=
  ⟨hadds, h.history.trans (List.append_nil _).symm, h.solveCalls⟩

/-- Every solve adds its records, and an outcome has those of its own solve. -/
theorem ends_solveProblem_books (env : Environment σ α) (p : Problem α)
    (start : Session (Solver α) σ α) :
    Ends (solveProblem env p)
      (fun d r => ∃ records, Enters env p start r records ∧
        (p.activeConstraints start.solver.options.skipTangential ≠ 0 →
          d.outcome.history = records ∧ ∃ first,
            (prepare env p).run.run start = (.ok (), first) ∧
              d.outcome.Tells env start.solver.options (start.solver.solveCalls + 1)
                (beginning first)))
      (fun _ r => ∃ records, Enters env p start r records) start := by
  by_cases hm : p.activeConstraints start.solver.options.skipTangential = 0
  · unfold solveProblem
    rw [ends_bind, ends_change, ends_bind, ends_solver]
    dsimp only
    rw [if_pos hm]
    have hnil : Adds env p start [] := .unconstrained hm
    refine (keeps_solveUnconstrained_books env p _ _ _).mono (fun d r h => ?_) fun _ r h => ?_
    · exact ⟨[], enters_nil hnil h, fun hne => absurd hm hne⟩
    · exact ⟨[], enters_nil hnil h⟩
  rw [ends_solveProblem hm]
  refine (ends_prepare_books env p start).with_run.mono ?_ ?_
  rotate_left
  · rintro e r ⟨hrun, h⟩
    exact ⟨[], enters_nil (.unprepared hm hrun) h⟩
  rintro _ r ⟨hrun, h⟩
  obtain ⟨j, s, hstops, hs, hends⟩ :=
    exists_stops env start.solver.options.maxIterations.toNat (beginning r)
  obtain ⟨records, hrecords, hhistory⟩ := exists_chronicle rfl hs
  have hoptions : (beginning r).solver.options = start.solver.options := h.options
  have hcalls : (beginning r).solver.solveCalls = start.solver.solveCalls + 1 := h.solveCalls
  have hbefore : (beginning r).solver.history = start.solver.history := h.history
  rw [hoptions] at hstops hrecords
  rw [hcalls] at hrecords
  rw [hbefore] at hhistory
  have henters : ∀ r' : Session (Solver α) σ α, s.SameBooks r'.solver →
      Enters env p start r' records := fun r' h' =>
    ⟨.iterated hm hrun hstops hrecords, h'.history.trans hhistory,
      h'.solveCalls.trans ((iterateAt_constants hs).2.1.trans hcalls)⟩
  unfold finish
  rw [ends_bind, ends_change]
  refine hends.bind ?_ fun _ r' h' => ⟨records, henters r' h'⟩
  rintro _ r₁ ⟨rfl, hsettled⟩
  have hconcluded : ∀ r' : Session (Solver α) σ α, r'.solver = r₁.solver.concluded →
      Enters env p start r' records := fun r' h' => by
    refine henters r' ?_
    rw [h']
    exact ⟨rfl, rfl, rfl, rfl⟩
  refine (ends_handBack_eq start.solver).mono (fun d r' h' => ?_) fun _ r' h' => ?_
  · obtain ⟨hs', -, hrenders⟩ := h'
    refine ⟨records, hconcluded r' hs', fun _ => ⟨?_, r, hrun, ?_⟩⟩
    · rw [hrenders.history, hhistory, List.drop_left]
    · exact hrenders.tells hoptions rfl hstops hs hsettled hrecords hhistory
  · exact ⟨records, hconcluded r' h'.1⟩

/-- A call for a problem, with the environment that it is made in and the session that it finds. -/
structure Call (σ α : Type) where
  env : Environment σ α
  problem : Problem α
  session : Session (Solver α) σ α

/-- From session `r₀` a solver is called for problems one after the other, for some of them in vain.
Between calls anything may happen to it that leaves its history and its number of calls alone. -/
inductive Calls (r₀ : Session (Solver α) σ α) : List (Call σ α) → Session (Solver α) σ α → Prop
  | none : Calls r₀ [] r₀
  | solved {calls : List (Call σ α)} {r : Session (Solver α) σ α} (h : Calls r₀ calls r)
      (env : Environment σ α) (p : Problem α) :
      Calls r₀ (calls ++ [⟨env, p, r⟩]) (solve env p r).session
  | elsewhere {calls : List (Call σ α)} {r r' : Session (Solver α) σ α} (h : Calls r₀ calls r)
      (hhistory : r'.solver.history = r.solver.history)
      (hcalls : r'.solver.solveCalls = r.solver.solveCalls) : Calls r₀ calls r'

/-- What a solver has recorded since `r₀` is what its calls added, and these are numbered. -/
structure Recounts (r₀ : Session (Solver α) σ α) (calls : List (Call σ α))
    (r : Session (Solver α) σ α) : Prop where
  history : ∃ added : List (List (Record α)),
    List.Forall₂ (fun call records => Adds call.env call.problem call.session records) calls added ∧
      r.solver.history = r₀.solver.history ++ added.flatten
  numbered : calls.map (fun call => call.session.solver.solveCalls) =
    (List.range calls.length).map (r₀.solver.solveCalls + ·)
  solveCalls : r.solver.solveCalls = r₀.solver.solveCalls + calls.length

theorem Recounts.solved {r₀ : Session (Solver α) σ α} {calls : List (Call σ α)}
    (h : Recounts r₀ calls r) (env : Environment σ α) (p : Problem α) :
    Recounts r₀ (calls ++ [⟨env, p, r⟩]) (solve env p r).session := by
  obtain ⟨records, henters⟩ : ∃ records, Enters env p r (solve env p r).session records :=
    session_solve (P := fun r' => ∃ records, Enters env p r r' records)
      ((ends_solveProblem_books env p r).mono (fun _ _ h => h.imp fun _ h => h.1) fun _ _ h => h)
  obtain ⟨added, hadded, hhistory⟩ := h.history
  refine ⟨⟨added ++ [records], ?_, ?_⟩, ?_, ?_⟩
  · exact List.rel_append hadded (.cons henters.adds .nil)
  · rw [henters.history, hhistory, List.flatten_append, List.flatten_singleton, List.append_assoc]
  · rw [List.length_append, List.length_singleton, List.range_succ, List.map_append, List.map_append,
      h.numbered, List.map_singleton, List.map_singleton, h.solveCalls]
  · rw [henters.solveCalls, h.solveCalls, List.length_append, List.length_singleton, Nat.add_assoc]

theorem Calls.recounts {r₀ : Session (Solver α) σ α} {calls : List (Call σ α)}
    (h : Calls r₀ calls r) : Recounts r₀ calls r := by
  induction h with
  | none => exact ⟨⟨[], .nil, (List.append_nil _).symm⟩, rfl, rfl⟩
  | solved _ env p ih => exact ih.solved env p
  | elsewhere _ hhistory hcalls ih =>
    obtain ⟨added, hadded, ih'⟩ := ih.history
    exact ⟨⟨added, hadded, hhistory.trans ih'⟩, ih.numbered, hcalls.trans ih.solveCalls⟩

/-- After any calls, whatever came of them, a solve with constraints that returns stopped at the first
iterate to meet the tolerances, or spent its budget, and its outcome is that of the iterate where it
stopped, with the records of its own iterations. The history of the solver is that of all calls one
after the other, this one included, and each has its own number. -/
theorem Calls.solve_reports {r₀ : Session (Solver α) σ α} {calls : List (Call σ α)}
    (h : Calls r₀ calls start) (env : Environment σ α) (p : Problem α) :
    Recounts r₀ (calls ++ [⟨env, p, start⟩]) (solve env p start).session ∧
      ∀ out, p.activeConstraints start.solver.options.skipTangential ≠ 0 →
        (solve env p start).outcome = .ok out →
          Adds env p start out.history ∧
          ∃ first, (prepare env p).run.run start = (.ok (), first) ∧
            out.Tells env start.solver.options (start.solver.solveCalls + 1) (beginning first) := by
  refine ⟨h.recounts.solved env p, fun out hm hout => ?_⟩
  obtain ⟨d, rfl, records, henters, htells⟩ :=
    exists_of_outcome_solve (ends_solveProblem_books env p start) hout
  obtain ⟨hrecords, hfirst⟩ := htells hm
  exact ⟨hrecords ▸ henters.adds, hfirst⟩

/-- A fresh solver with iterations to spend, before its backend was called. -/
def patientStart : Session (Solver ℚ) (Recorded (Backend.Caprice ℚ) ℚ) ℚ :=
  ⟨.create 0 .standard, ⟨⟨none, 0, #[]⟩, none, #[], []⟩, []⟩

/-- The same solver after it was called in vain, with one iteration to spend. -/
def resumedStart (p : Problem ℚ) : Session (Solver ℚ) (Recorded (Backend.Caprice ℚ) ℚ) ℚ :=
  let r := (solve failsSixth p patientStart).session
  { r with solver := { r.solver with options := singleStep } }

theorem solve_reports_resumed : ∃ (p : Problem ℚ) (out : Outcome ℚ),
    (solve failsSixth p patientStart).outcome.isOk = false ∧
      (resumedStart p).solver.history.map (fun c => (c.solveCall, c.iteration)) = [(1, 1), (1, 2)] ∧
      Calls patientStart [⟨failsSixth, p, patientStart⟩] (resumedStart p) ∧
      p.activeConstraints (resumedStart p).solver.options.skipTangential ≠ 0 ∧
      (solve failsSixth p (resumedStart p)).outcome = .ok out ∧
      out.history.map (fun c => (c.solveCall, c.iteration)) = [(2, 1)] ∧
      Recounts patientStart [⟨failsSixth, p, patientStart⟩, ⟨failsSixth, p, resumedStart p⟩]
        (solve failsSixth p (resumedStart p)).session ∧
      Adds failsSixth p (resumedStart p) out.history ∧
      ∃ first, (prepare failsSixth p).run.run (resumedStart p) = (.ok (), first) ∧
        out.Tells failsSixth singleStep ((resumedStart p).solver.solveCalls + 1)
          (beginning first) := by
  have hrun : (do
      let p ← (halfLine 2 (-2) 0).problem?
      let out ← (solve failsSixth p (resumedStart p)).outcome
      pure (decide ((solve failsSixth p patientStart).outcome.isOk = false ∧
        (resumedStart p).solver.history.map (fun c => (c.solveCall, c.iteration)) =
          [(1, 1), (1, 2)] ∧
        p.activeConstraints singleStep.skipTangential ≠ 0 ∧
        out.history.map (fun c => (c.solveCall, c.iteration)) = [(2, 1)])) :
        Except (Fault ℚ) Bool).toOption = some true := by
    decide +kernel
  obtain ⟨p, -, hrun⟩ := exists_of_bind_toOption_eq_some hrun
  obtain ⟨out, hout, hrun⟩ := exists_of_bind_toOption_eq_some hrun
  obtain ⟨hfailed, hhistory, hm, hown⟩ := of_decide_eq_true (Option.some.inj hrun)
  have hcalls : Calls patientStart [⟨failsSixth, p, patientStart⟩] (resumedStart p) :=
    (Calls.none.solved failsSixth p).elsewhere rfl rfl
  obtain ⟨hrecounts, htells⟩ := hcalls.solve_reports failsSixth p
  obtain ⟨hadds, hfirst⟩ := htells out hm hout
  exact ⟨p, out, hfailed, hhistory, hcalls, hm, hout, hown, hrecounts, hadds, hfirst⟩

end CentralPath.InteriorPoint
