/-
  The calls of a whole solve. A solve that is accepted (`Options.refusal?_eq_none`) opens with one
  complete call where its starting point asks for a direction, and goes on with the calls of its
  iterations; the first call that fails is the last one, and is what the solve is refused for
  (`Served.solve_protocol`). This holds of solvers that have solved other problems before, for any
  backend that answers. That nothing is fetched after a failure shows in that it would not matter
  (`solve_congr`).
-/
import CentralPath.Proofs.InteriorPoint.Conversation
import CentralPath.Proofs.InteriorPoint.Indifference
import CentralPath.Proofs.Problem.Blocks

namespace CentralPath.InteriorPoint

open Backend (CallRecord CutOff Environment Job Recorded Session Work statusOk)
open Backend.Work (Ends ends_bind ends_change)
open Newton (Formulation systemFor)
open Problem (Data)
open Sparse (Matrix)

/-! ## What is accepted -/

section

variable {K : Type} [Field K] [LinearOrder K] [ElementaryFunctions K] {o : Options K}
  {p : Problem K} {q : Problem.Parts K}

/-- Options that can be honoured name a starting point. -/
theorem Options.exists_strategy (h : o.fault? = none) : ∃ s, o.startingPoint = .strategy s := by
  unfold Options.fault? at h
  split at h
  · cases h
  · cases h
  · rename_i hother
    rcases hchoice : o.startingPoint with s | name
    · exact ⟨s, rfl⟩
    · exact absurd hchoice (hother name)

theorem Options.shiftFault?_eq_none (h : o.fault? = none) : o.shiftFault? = none := by
  unfold Options.fault? at h
  split at h
  · cases h
  · cases h
  · split_ifs at h
    exact (Option.or_eq_none_iff.mp (Option.or_eq_none_iff.mp h).2).1

/-- Nothing refuses a problem whose entries are in shape, where the options can be honoured and the
formulation is one of the two that there are. -/
theorem Options.refusal?_eq_none (hvalid : o.fault? = none) (hmethod : o.formulation ≠ .normal)
    (hq : q.Makes p) (hG : q.G.InShape) (hA : q.A.InShape) : o.refusal? p (o.data q) = none := by
  have hfit := hq.fit
  have hhessian : p.hessianBlock.fault? = none :=
    hfit.fault?_block hG hA o.skipTangential .hessian
  have hjacobian : (p.jacobianBlock o.skipTangential).fault? = none :=
    hfit.fault?_block hG hA o.skipTangential .jacobian
  have hcompliance : (p.complianceBlock o.skipTangential).fault? = none :=
    hfit.fault?_block hG hA o.skipTangential .compliance
  have hblock : o.blockFault? p = none := by
    rw [Options.blockFault?, hhessian, hjacobian, hcompliance, ite_self]
    rfl
  have hlater : (o.blockFault? p).or o.boundFault? = none := by
    rw [hblock, boundFault?_eq_none (Options.shiftFault?_eq_none hvalid)]
    rfl
  unfold Options.refusal?
  rcases hformulation : o.formulation with _ | _ | _ | name
  · exact hlater
  · exact hlater
  · exact absurd hformulation hmethod
  · rw [Options.fault?, hformulation] at hvalid
    cases hvalid

end

/-! ## The calls of a solve -/

variable {σ K : Type} [Field K] [LinearOrder K] [ElementaryFunctions K]

/-- The calls before the first iterate. Where the starting point asks for a direction, that is one
complete call, at the slacks of the unknowns that the solver starts from; `s` is the solver with its
system. -/
inductive Opening (f : Formulation) (D : Data K) (choice : StartChoice) (reuse : Reuse)
    (s : Solver K) : List (CallRecord K) → Option (CallRecord K) → Prop
  | silent (hsilent : choice.asks = false) : Opening f D choice reuse s [] none
  | asked {s' : Solver K} {kkt : Matrix K} {c : CallRecord K} (hasks : choice.asks = true)
      (hslacks : s.AtSlacks reuse s') (hc : Completes f D s'.y s'.lam kkt c) :
      Opening f D choice reuse s [c] c.failure?

theorem Opening.cutOff {f : Formulation} {D : Data K} {choice : StartChoice} {reuse : Reuse}
    {s : Solver K} {calls : List (CallRecord K)} {cut : Option (CallRecord K)}
    (h : Opening f D choice reuse s calls cut) : CutOff calls cut := by
  cases h with
  | silent => exact .nil
  | asked => exact .single _

/-- The parts of the last iterate that a solve starts from. -/
def Solver.reuse (s : Solver K) (p : Problem K) : Reuse :=
  reuseFor s p.unknowns (p.activeConstraints s.options.skipTangential)

/-- The calls of a solve, along its run: those before the first iterate, then those of its
iterations, and the one that failed, if one did. -/
inductive Dialogue (env : Environment (Recorded σ K) K) (p : Problem K) (f : Formulation)
    (D : Data K) (start : Session (Solver K) (Recorded σ K) K) :
    List (CallRecord K) → Option (CallRecord K) → Prop
  | cut {r : Session (Solver K) (Recorded σ K) K} {opening : List (CallRecord K)}
      {c : CallRecord K} (harrange : (arrange env p).run.run start = (.ok (), r))
      (hopening : Opening f D start.solver.options.startingPoint (start.solver.reuse p) r.solver
        opening (some c)) : Dialogue env p f D start opening (some c)
  | iterated {r r' : Session (Solver K) (Recorded σ K) K} {opening calls : List (CallRecord K)}
      {cut : Option (CallRecord K)} (harrange : (arrange env p).run.run start = (.ok (), r))
      (hopening : Opening f D start.solver.options.startingPoint (start.solver.reuse p) r.solver
        opening none)
      (hstart : (startWith env start.solver.options.startingPoint
        (start.solver.reuse p)).run.run r = (.ok (), r'))
      (hcalls : Iterations env f D start.solver.options.maxIterations.toNat
        { r' with solver := r'.solver.begun } calls cut) :
      Dialogue env p f D start (opening ++ calls) cut

theorem Dialogue.cutOff {env : Environment (Recorded σ K) K} {p : Problem K} {f : Formulation}
    {D : Data K} {start : Session (Solver K) (Recorded σ K) K} {calls : List (CallRecord K)}
    {cut : Option (CallRecord K)} (h : Dialogue env p f D start calls cut) : CutOff calls cut := by
  cases h with
  | cut _ hopening => exact hopening.cutOff
  | iterated _ hopening _ hcalls => exact hopening.cutOff.append hcalls.cutOff

/-- From `start` to `r` a solve has made the calls of a dialogue in its formulation. -/
def Conversed (env : Environment (Recorded σ K) K) (p : Problem K) (D : Data K)
    (start r : Session (Solver K) (Recorded σ K) K) (cut : Option (CallRecord K)) : Prop :=
  ∃ f calls,
    Newton.System.create (α := K) start.solver.options.formulation D.n D.m = .ok (systemFor f D) ∧
      Dialogue env p f D start calls cut ∧ r.backend.calls = start.backend.calls ++ calls

/-! ## Before the first iterate -/

section

variable {f : Formulation} {D : Data K} {o : Options K} {b : Backend σ K}
  {env : Environment (Recorded σ K) K} {r : Session (Solver K) (Recorded σ K) K}
  {p : Problem K} {q : Problem.Parts K}

omit [LinearOrder K] [ElementaryFunctions K] in
theorem Assembled.of_moved {s s' : Solver K} (h : Assembled D f o s) (hmoved : s.Moved s')
    (hloaded : Loaded D f o s') : Assembled D f o s' := by
  obtain ⟨_, _, _, _, _, _, rfl⟩ := hmoved
  exact { h with toLoaded := hloaded }

variable [IsStrictOrderedRing K] (hb : b.Answering) (henv : env.backend = b.recorded)
include hb henv

/-- A starting point makes the calls of an opening, and is refused by a failed one only. -/
theorem Assembled.ends_startWith (h : Assembled D f o r.solver) (hm : 0 < D.m)
    (choice : StartChoice) (reuse : Reuse)
    (hpos : reuse.lam = true → ∀ a ∈ r.solver.lam, 0 < a) :
    Ends (startWith env choice reuse)
      (fun _ r' => (∃ opening, Opening f D choice reuse r.solver opening none ∧
          r'.backend.calls = r.backend.calls ++ opening) ∧
        Assembled D f o r'.solver ∧ Consistent D r'.solver ∧
        (r'.solver.Interior ∨ reuse = ⟨true, true⟩ ∧ r'.solver.y = r.solver.y ∧
          r'.solver.lam = r.solver.lam))
      (fun e r' => (∃ name, choice = .other name) ∨
        ∃ opening c, Opening f D choice reuse r.solver opening (some c) ∧
          e = c.fault "KKT system" ∧ r'.backend.calls = r.backend.calls ++ opening) r := by
  refine (h.toLoaded.ends_startWith_of_directions hm choice reuse
    (P := fun r₂ => Assembled D f o r₂.solver ∧ ∃ opening,
      Opening f D choice reuse r.solver opening none ∧
        r₂.backend.calls = r.backend.calls ++ opening) ?_ ?_).mono ?_ fun _ _ hR => hR
  · intro hasks r₁ hb₁ hslacks h₁
    have hpos₁ : ∀ a ∈ r₁.solver.lam, 0 < a := by
      rw [hslacks.lam]
      unfold Solver.withOnesUnless
      dsimp only
      split_ifs with hlam
      · exact hpos hlam
      · exact pos_constant_one _
    refine ((h.of_moved hslacks.moved h₁).ends_directions_affine hb henv hpos₁).mono ?_ ?_
    · rintro d r₂ ⟨hd, kkt, c, ⟨hs₂, h₂⟩, hc, hok, hcalls⟩
      refine ⟨hd.dy, hd.dlam, h₂.toLoaded, h₂, [c], ?_, by rw [hcalls, hb₁]⟩
      rw [← CallRecord.failure?_of_ok hok]
      exact .asked hasks hslacks hc
    · rintro e r₂ ⟨kkt, c, hc, hfailed, he, hcalls⟩
      refine .inr ⟨[c], c, ?_, he, by rw [hcalls, hb₁]⟩
      rw [← CallRecord.failure?_of_ne hfailed]
      exact .asked hasks hslacks hc
  · exact fun name hname => .inl ⟨name, hname⟩
  · rintro _ r₂ ⟨hasked, h₂, hc₂, hor⟩
    have hinterior := hor.imp_right fun hkept => hkept.2
    by_cases hasks : choice.asks = true
    · rw [if_pos hasks] at hasked
      obtain ⟨r₃, ⟨h₃, opening, hopening, hcalls⟩, hb₂, hmoved⟩ := hasked
      exact ⟨⟨opening, hopening, by rw [hb₂, hcalls]⟩, h₃.of_moved hmoved h₂, hc₂, hinterior⟩
    · rw [if_neg hasks] at hasked
      obtain ⟨hb₂, hmoved⟩ := hasked
      refine ⟨⟨[], .silent (Bool.not_eq_true _ ▸ hasks), ?_⟩, h.of_moved hmoved h₂, hc₂, hinterior⟩
      rw [hb₂, List.append_nil]

/-! ## The whole solve -/

omit [IsStrictOrderedRing K] hb henv in
/-- Multipliers that are used again are those of an iterate in the interior. -/
theorem Arranged.interior_of_reuse {s s' : Solver K} (h : Arranged p D f s s') {n : Nat} {m : Int}
    (hn : n = D.n) (hm : m = D.m) (hfound : s.hasIterate = true → s.Interior)
    (hreuse : (reuseFor s n m).lam = true) : s.Interior ∧ s'.y = s.y ∧ s'.lam = s.lam := by
  rw [hn, hm] at hreuse
  obtain ⟨hy, hl⟩ := allocate_of_reuse_lam hreuse
  simp only [reuseFor, Bool.and_eq_true] at hreuse
  exact ⟨hfound hreuse.1.2, h.y.trans hy, h.lam.trans hl⟩

variable (hexp : ∀ t : K, 0 < t → ElementaryFunctions.exp (-t) ∈ Set.Ioo 0 1)
include hexp

/-- From the first iterate on, a solve makes the calls of its iterations. Whatever else may refuse
it comes after all of them. -/
theorem Underway.ends_finish (h : Underway D f o r.solver) (hm : 0 < D.m) (before : Solver K) :
    Ends (finish env p before)
      (fun _ r' => r'.solver.Interior ∧ ∃ calls,
        Iterations env f D before.options.maxIterations.toNat
            { r with solver := r.solver.begun } calls none ∧
          r'.backend.calls = r.backend.calls ++ calls)
      (fun e r' => ∃ calls cut,
        Iterations env f D before.options.maxIterations.toNat
            { r with solver := r.solver.begun } calls cut ∧
          (∀ c, cut = some c → e = c.fault "KKT system") ∧
          r'.backend.calls = r.backend.calls ++ calls) r := by
  have hbegun : Underway D f o r.solver.begun := h.of_booked ⟨_, _, _, _, rfl⟩
  unfold finish
  rw [ends_bind, ends_change]
  refine (Underway.ends_iterateWithin (r := { r with solver := r.solver.begun }) hm hexp hb henv
    before.options.maxIterations.toNat hbegun).bind ?_ ?_
  rotate_left
  · rintro e r₁ ⟨calls, c, hiterations, he, hcalls⟩
    refine ⟨calls, some c, hiterations, ?_, hcalls⟩
    rintro _ ⟨⟩
    exact he
  rintro _ r₁ ⟨h₁, calls, hiterations, hcalls⟩
  refine (ends_handBack before).mono ?_ ?_
  · rintro d r₂ ⟨hbooked, hb₂, -⟩
    exact ⟨h₁.interior.of_booked hbooked, calls, hiterations, by rw [hb₂, hcalls]⟩
  · rintro e r₂ ⟨-, hb₂⟩
    refine ⟨calls, none, hiterations, ?_, by rw [hb₂, hcalls]⟩
    rintro _ ⟨⟩

/-- A solve that is accepted makes the calls of a dialogue, and is in the interior at its end if it
returns. -/
theorem ends_solveProblem_conversed (h : r.solver.Usable)
    (hfound : r.solver.hasIterate = true → r.solver.Interior) (hq : q.Makes p)
    (hm : 0 < p.activeConstraints r.solver.options.skipTangential) :
    Ends (solveProblem env p)
      (fun _ r' => r'.solver.Interior ∧ Conversed env p (r.solver.options.data q) r r' none)
      (fun e r' => ((∀ a : K, ElementaryFunctions.truncate a ≠ none) →
          r.solver.options.refusal? p (r.solver.options.data q) = some e) ∨
        (∃ name, r.solver.options.startingPoint = .other name) ∨
        ∃ cut, Conversed env p (r.solver.options.data q) r r' cut ∧
          ∀ c, cut = some c → e = c.fault "KKT system") r := by
  have hactive : p.activeConstraints r.solver.options.skipTangential =
      ((r.solver.options.data q).m : Int) := hq.fit.activeConstraints
  have hpos : 0 < (r.solver.options.data q).m := by omega
  rw [ends_solveProblem hm.ne', ends_prepare_iff]
  refine (ends_arrange env h.toReady hq).with_run.mono ?_ ?_
  rotate_left
  · rintro e r₁ ⟨-, -, -, hrefused⟩
    exact .inl (hrefused h)
  rintro _ r₁ ⟨harrange, hb₁, -, f, hcreate, h₁⟩
  have hkept : (r.solver.reuse p).lam = true → r.solver.Interior ∧
      r₁.solver.y = r.solver.y ∧ r₁.solver.lam = r.solver.lam :=
    h₁.interior_of_reuse hq.fit.unknowns hactive hfound
  refine ((h₁.assembled h).ends_startWith hb henv hpos r.solver.options.startingPoint
    (r.solver.reuse p) ?_).with_run.mono ?_ ?_
  · intro hreuse
    obtain ⟨hI, -, hl⟩ := hkept hreuse
    exact hl ▸ hI.multipliers
  rotate_left
  · rintro e r₂ ⟨-, hother | ⟨opening, c, hopening, he, hcalls⟩⟩
    · exact .inr (.inl hother)
    · refine .inr (.inr ⟨some c, ⟨f, opening, hcreate, .cut harrange hopening, ?_⟩, ?_⟩)
      · rw [hcalls, hb₁]
      · rintro _ ⟨⟩
        exact he
  rintro _ r₂ ⟨hstart, ⟨opening, hopening, hcalls₂⟩, h₂, hc₂, hor⟩
  have hinterior : r₂.solver.Interior := by
    rcases hor with hI | ⟨hreuse, hy, hl⟩
    · exact hI
    · obtain ⟨hI, hy₁, hl₁⟩ := hkept (by rw [hreuse])
      exact ⟨(hy.trans hy₁) ▸ hI.slack, (hl.trans hl₁) ▸ hI.multipliers⟩
  have hunderway : Underway (r.solver.options.data q) f r.solver.options r₂.solver :=
    ⟨h₂, hinterior, hc₂.mu⟩
  have hconversed : ∀ {calls cut} {r' : Session (Solver K) (Recorded σ K) K},
      Iterations env f (r.solver.options.data q) r.solver.options.maxIterations.toNat
        { r₂ with solver := r₂.solver.begun } calls cut →
      r'.backend.calls = r₂.backend.calls ++ calls →
        Conversed env p (r.solver.options.data q) r r' cut := by
    intro calls cut r' hiterations hcalls
    refine ⟨f, opening ++ calls, hcreate, .iterated harrange hopening hstart hiterations, ?_⟩
    rw [hcalls, hcalls₂, hb₁, List.append_assoc]
  refine (hunderway.ends_finish hb henv hexp hpos r.solver).mono ?_ ?_
  · rintro d r₃ ⟨hI, calls, hiterations, hcalls⟩
    exact ⟨hI, hconversed hiterations hcalls⟩
  · rintro e r₃ ⟨calls, cut, hiterations, hcut, hcalls⟩
    exact .inr (.inr ⟨cut, hconversed hiterations hcalls, hcut⟩)

/-! ## Many solves -/

omit [IsStrictOrderedRing K] hb henv hexp in
theorem Served.handled {start : Session (Solver K) σ K} {env : Environment σ K}
    (h : Served env start) : Handled env start := by
  induction h with
  | created id options backend events => exact .created id options backend events
  | solved _ hq _ ih => exact ih.solved hq
  | elsewhere _ options hsolver ih => exact ih.elsewhere options hsolver

/-- Where every earlier solve returned, an iterate that is found is in the interior. -/
theorem Served.interior_of_answering (h : Served env r) (hfound : r.solver.hasIterate = true) :
    r.solver.Interior := by
  induction h with
  | created => cases hfound
  | @solved r₀ q₀ p₀ out h₀ hq₀ hout ih =>
    have husable := h₀.handled.usable
    have hactive : p₀.activeConstraints r₀.solver.options.skipTangential =
        ((r₀.solver.options.data q₀).m : Int) := hq₀.fit.activeConstraints
    by_cases hm : p₀.activeConstraints r₀.solver.options.skipTangential = 0
    · obtain ⟨d, -, -, hdirect⟩ := exists_of_outcome_solve
        (ends_solveProblem_unconstrained env husable.toReady hq₀ hm) hout
      rw [hdirect.iterate] at hfound
      cases hfound
    · obtain ⟨d, -, hI, -⟩ := exists_of_outcome_solve
        (ends_solveProblem_conversed hb henv hexp husable ih hq₀ (by omega)) hout
      exact hI
  | elsewhere _ options hsolver ih =>
    rw [hsolver] at hfound ⊢
    obtain ⟨hy, hl⟩ := ih hfound
    exact ⟨hy, hl⟩

end

/-! ## After a failure -/

section

variable {env env' : Environment σ K} (h : env.backend.SameAfterSuccess env'.backend)
  (hdebug : env'.debug = env.debug)
include h

omit [Field K] [LinearOrder K] [ElementaryFunctions K] in
theorem newtonSolve_congr [Elementary K] (rhs : Array K) (job : Job) :
    newtonSolve env' rhs job = newtonSolve env rhs job := by
  unfold newtonSolve
  simp only [h.ask_eq]

theorem directions_congr (aim : Newton.System.Aim K) (refactor : Bool) :
    directions env' aim refactor = directions env aim refactor := by
  unfold directions
  simp only [newtonSolve_congr h]

theorem iterate_congr : iterate env' = iterate env := by
  unfold iterate correctorIteration
  simp only [directions_congr h]

theorem startWith_congr (choice : StartChoice) (reuse : Reuse) :
    startWith env' choice reuse = startWith env choice reuse := by
  unfold startWith startAffineStepOrPrevious startAffineStep
  simp only [directions_congr h]

include hdebug

theorem iterateWithin_congr (budget : Nat) : iterateWithin env' budget = iterateWithin env budget := by
  induction budget with
  | zero => rfl
  | succ budget ih =>
    unfold iterateWithin
    simp only [iterate_congr h, hdebug, ih]

/-- A solve does not depend on what its backend would hand out after a call that failed: it never
fetches it. -/
theorem solve_congr (p : Problem K) (start : Session (Solver K) σ K) :
    solve env' p start = solve env p start := by
  have hproblem : solveProblem env' p = solveProblem env p := by
    unfold solveProblem solveConstrained assembleSystem
    simp only [solveUnconstrained_eq, pose, h.ask_eq, startWith_congr h,
      iterateWithin_congr h hdebug, hdebug]
  unfold solve
  rw [hproblem]

end

/-! ## The protocol -/

section

variable [IsStrictOrderedRing K] {b : Backend σ K} {env : Environment (Recorded σ K) K}
  {start : Session (Solver K) (Recorded σ K) K} {p : Problem K} {q : Problem.Parts K}

/-- The calls of one solve, for a solver whose earlier solves all returned. They are a dialogue: a
complete call first if and only if the starting point asks for one, then per iteration a complete call
at the iterate and, unless only the predictor is taken, a solve call with the matrix as it was stored.
The first call that fails is the last, and the solve is refused for it; what the backend would hand
out then is never looked at. -/
theorem Served.solve_protocol (hb : b.Answering) (henv : env.backend = b.recorded)
    (h : Served env start) (hq : q.Makes p) (hG : q.G.InShape) (hA : q.A.InShape)
    (hvalid : start.solver.options.fault? = none)
    (hmethod : start.solver.options.formulation ≠ .normal)
    (hm : 0 < p.activeConstraints start.solver.options.skipTangential)
    (hexp : ∀ t : K, 0 < t → ElementaryFunctions.exp (-t) ∈ Set.Ioo 0 1)
    (htruncate : ∀ a : K, ElementaryFunctions.truncate a ≠ none) :
    ∃ f calls cut,
      Newton.System.create (α := K) start.solver.options.formulation
          (start.solver.options.data q).n (start.solver.options.data q).m =
        .ok (systemFor f (start.solver.options.data q)) ∧
      Dialogue env p f (start.solver.options.data q) start calls cut ∧
      CutOff calls cut ∧
      (solve env p start).session.backend.calls = start.backend.calls ++ calls ∧
      (∀ c, cut = some c → (solve env p start).outcome = .error (c.fault "KKT system")) ∧
      ∀ b' : Backend σ K, b.SameAfterSuccess b' →
        solve { env with backend := b'.recorded } p start = solve env p start := by
  have hsame : ∀ b' : Backend σ K, b.SameAfterSuccess b' →
      solve { env with backend := b'.recorded } p start = solve env p start := by
    intro b' hb'
    have hrecorded : env.backend.SameAfterSuccess b'.recorded := henv ▸ hb'.recorded
    have hdebug : ({ env with backend := b'.recorded } : Environment (Recorded σ K) K).debug =
        env.debug := rfl
    exact solve_congr hrecorded hdebug p start
  have hends := ends_solveProblem_conversed hb henv hexp h.handled.usable
    (h.interior_of_answering hb henv hexp) hq hm
  rw [Ends] at hends
  rcases hrun : (solveProblem env p).run.run start with ⟨e | d, r'⟩ <;> rw [hrun] at hends
  · have hsolve : solve env p start = ⟨.error e, r', p⟩ := by
      unfold solve
      rw [hrun]
    rcases hends with hrefused | ⟨name, hother⟩ | ⟨cut, ⟨f, calls, hcreate, hcalls, happend⟩, hcut⟩
    · have hnone := Options.refusal?_eq_none hvalid hmethod hq hG hA
      rw [hrefused htruncate] at hnone
      cases hnone
    · obtain ⟨s, hs⟩ := Options.exists_strategy hvalid
      rw [hother] at hs
      cases hs
    · refine ⟨f, calls, cut, hcreate, hcalls, hcalls.cutOff, ?_, fun c hc => ?_, hsame⟩
      · rw [hsolve]
        exact happend
      · rw [hsolve, hcut c hc]
  · have hsolve : solve env p start = ⟨.ok d.outcome, r', d.problem⟩ := by
      unfold solve
      rw [hrun]
    obtain ⟨-, f, calls, hcreate, hcalls, happend⟩ := hends
    refine ⟨f, calls, none, hcreate, hcalls, hcalls.cutOff, ?_, ?_, hsame⟩
    · rw [hsolve]
      exact happend
    · rintro _ ⟨⟩

end

/-- Every call succeeds but the sixth. -/
def failsSixth : Environment (Recorded (Backend.Caprice ℚ) ℚ) ℚ :=
  ⟨(Backend.capricious fun k => (if k = 5 then Backend.statusSingular else statusOk, 1)).recorded,
    false⟩

/-- One iteration for each solve. -/
def singleStep : Options ℚ := { (Options.standard : Options ℚ) with maxIterations := 1 }

/-- A fresh solver with that much to spend, before its backend was called. -/
def uncalledStart : Session (Solver ℚ) (Recorded (Backend.Caprice ℚ) ℚ) ℚ :=
  ⟨.create 0 singleStep, ⟨⟨none, 0, #[]⟩, none, #[], []⟩, []⟩

/-- The same solver after it has solved a problem. -/
def singleStepAfter (p : Problem ℚ) : Session (Solver ℚ) (Recorded (Backend.Caprice ℚ) ℚ) ℚ :=
  let r := (solve failsSixth p uncalledStart).session
  { r with solver := { r.solver with options := singleStep } }

/-- Its second solve is cut off at the solve call. -/
theorem solve_protocol_singleStep : ∃ (p : Problem ℚ) (out : Outcome ℚ) (f : Formulation)
    (calls : List (CallRecord ℚ)) (c : CallRecord ℚ), (halfLine 2 (-2) 0).Makes p ∧
      (solve failsSixth p uncalledStart).outcome = .ok out ∧
      (solve failsSixth p (singleStepAfter p)).session.backend.calls =
        (singleStepAfter p).backend.calls ++ calls ∧
      calls.map (fun c => (c.job, c.status)) = [(.complete, 0), (.complete, 0), (.solve, -10)] ∧
      Dialogue failsSixth p f
        ((singleStepAfter p).solver.options.data (halfLine 2 (-2) 0)) (singleStepAfter p) calls
        (some c) ∧
      (solve failsSixth p (singleStepAfter p)).outcome = .error (c.fault "KKT system") := by
  have hrun : (do
      let p ← (halfLine 2 (-2) 0).problem?
      let out ← (solve failsSixth p uncalledStart).outcome
      pure (decide (0 < p.activeConstraints singleStep.skipTangential ∧
        (((solve failsSixth p (singleStepAfter p)).session.backend.calls.drop
          (singleStepAfter p).backend.calls.length).map fun c => (c.job, c.status)) =
            [(.complete, 0), (.complete, 0), (.solve, -10)])) :
        Except (Fault ℚ) Bool).toOption = some true := by
    decide +kernel
  obtain ⟨p, hp, hrun⟩ := exists_of_bind_toOption_eq_some hrun
  obtain ⟨out, hout, hrun⟩ := exists_of_bind_toOption_eq_some hrun
  obtain ⟨hm, hjobs⟩ := of_decide_eq_true (Option.some.inj hrun)
  have hmakes := makes_halfLine hp
  have hserved : Served failsSixth (singleStepAfter p) :=
    ((Served.created 0 singleStep _ []).solved hmakes hout).elsewhere singleStep rfl
  have hvalid : singleStep.fault? = none := Option.isNone_iff_eq_none.mp (by decide +kernel)
  obtain ⟨f, calls, cut, -, hdialogue, hcut, hcalls, hfault, -⟩ :=
    hserved.solve_protocol (Backend.answering_capricious _) rfl hmakes trivial trivial hvalid
      (fun h => Newton.Choice.noConfusion h) hm exp_neg_mem_Ioo (fun _ h => by cases h)
  rw [hcalls, List.drop_left] at hjobs
  rcases cut with _ | c
  · -- a call failed, so the calls were cut off
    obtain ⟨answered, hanswered, hok⟩ := hcut.answered
    rw [Option.toList_none, List.append_nil] at hanswered
    have hmem : (Job.solve, (-10 : Int)) ∈ calls.map fun c => (c.job, c.status) := by
      rw [hjobs]
      exact List.mem_of_getLast? rfl
    obtain ⟨c, hc, hfailed⟩ := List.mem_map.mp hmem
    have hstatus := hok c (hanswered ▸ hc)
    rw [(Prod.mk.inj hfailed).2] at hstatus
    cases hstatus
  · exact ⟨p, out, f, calls, c, hmakes, hout, hcalls, hjobs, hdialogue, hfault c rfl⟩

end CentralPath.InteriorPoint
