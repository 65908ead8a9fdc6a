/-
  What the answer of a solve does not depend on. Two solvers may store their Newton matrices in
  different ways and have any solves behind them; as long as their backends show the same behaviour
  and none of them starts from an earlier iterate, they ask their backends for the same and hand out
  the same, or are refused for the same reason (`Handled.solve_indifferent`).
-/
import CentralPath.Proofs.Backend.Cramer
import CentralPath.Proofs.InteriorPoint.Handled
import CentralPath.Proofs.InteriorPoint.Outcomes
import CentralPath.Proofs.InteriorPoint.Unconstrained

namespace CentralPath.InteriorPoint

open Backend (Behaviour Environment Follows Observed SameAsked Session Work observed)
open Backend.Work (Abreast abreast_change_bind abreast_solver_bind)
open Newton (Formulation systemFor)
open Problem (Data)
open Sparse (Matrix Table)

/-! ## What two solves come to -/

section

variable {σ σ' K : Type}

/-- Both solves handed out the same, their records apart, or were refused for the same reason. The
problem received the same. -/
def Solved.Agrees (a : Solved σ K) (a' : Solved σ' K) : Prop :=
  a'.problem = a.problem ∧
    ((∃ e, a.outcome = .error e ∧ a'.outcome = .error e) ∨
      ∃ out history, a.outcome = .ok out ∧ a'.outcome = .ok { out with history })

end

/-! ## One behaviour -/

variable {σ σ' K : Type}

/-- Options that differ in how the Newton matrix is stored and in whether records are kept, and in
nothing else. -/
def Options.SameButStorage (o o' : Options K) : Prop :=
  ∃ maxShifts lockPattern learnPattern fullness recordHistory,
    o' = { o with maxShifts, lockPattern, learnPattern, fullness, recordHistory }

theorem Options.SameButStorage.alike {o o' : Options K} (h : o.SameButStorage o') : o.Alike o' := by
  obtain ⟨_, _, _, _, _, rfl⟩ := h
  exact ⟨_, _, _, _, _, _, rfl⟩

variable [Field K] [LinearOrder K] [ElementaryFunctions K] {b : Backend σ K} {b' : Backend σ' K}
  {behaviour : Behaviour K} {factored : σ → Option (Table K)} {factored' : σ' → Option (Table K)}
  {debug : Bool} {start : Session (Solver K) (Observed σ K) K}
  {start' : Session (Solver K) (Observed σ' K) K} {p : Problem K} {q : Problem.Parts K}

/-- Two solvers whose backends are asked the same. While factors are in use, they are those of one
table, and the Newton matrices still represent the same. -/
def Pairing.determined (b : Backend σ K) (b' : Backend σ' K) (factored : σ → Option (Table K))
    (factored' : σ' → Option (Table K)) (debug : Bool) (D : Data K) (f : Formulation)
    (o o' : Options K) (start : Observed σ K) (start' : Observed σ' K) :
    Pairing (Observed σ K) (Observed σ' K) K where
  env := ⟨observed b, debug⟩
  env' := ⟨observed b', debug⟩
  data := D
  f
  f' := f
  o
  o'
  link t t' := SameAsked start start' t.backend t'.backend
  held _ _ _ t t' := SameAsked start start' t.backend t'.backend ∧
    Table.ofMatrix t'.kkt = Table.ofMatrix t.kkt ∧
    ∃ last, factored t.backend.inner = some last ∧ factored' t'.backend.inner = some last
  good _ := True
  refused e e' := e' = e

omit [ElementaryFunctions K] in
/-- Backends with one behaviour answer alike. -/
theorem Pairing.answers_determined (hb : Follows b behaviour factored)
    (hb' : Follows b' behaviour factored') (debug : Bool) (D : Data K) (f : Formulation)
    (o o' : Options K) (start : Observed σ K) (start' : Observed σ' K) :
    (Pairing.determined b b' factored factored' debug D f o o' start start').Answers where
  debug := rfl
  formulation := rfl
  refused_refl _ := rfl
  good_ones _ := trivial
  link_of_held h := h.1
  link_assemble _ h := h
  complete := by
    intro t t' a y lam rhs s s' hlink hat hat' hs hs'
    have hkkt : s.solver.kkt = (t.kkt.assemble a).2 := congrArg Tie.kkt hs
    have hkkt' : s'.solver.kkt = (t'.kkt.assemble a).2 := congrArg Tie.kkt hs'
    have hbackend : s.backend = t.backend := congrArg Tie.backend hs
    have hbackend' : s'.backend = t'.backend := congrArg Tie.backend hs'
    rw [← hkkt] at hat
    rw [← hkkt'] at hat'
    have htable := hat.represents.ofMatrix_eq hat'.represents
    have hasked : ∀ {u : Session (Solver K) (Observed σ K) K}
        {u' : Session (Solver K) (Observed σ' K) K},
        SameAsked s.backend s'.backend u.backend u'.backend →
          SameAsked start start' u.backend u'.backend := by
      intro u u' h
      rw [hbackend, hbackend'] at h
      exact SameAsked.trans hlink h
    unfold newtonSolve
    rw [abreast_solver_bind]
    refine (hb.abreast_complete hb' hat.sound hat'.sound htable _ _ rhs _).mono ?_ ?_
    · rintro v u v' u' ⟨rfl, hu, hu', hmore, hlast, hlast'⟩
      refine ⟨rfl, hu, hu', fun _ => ⟨hasked hmore, ?_, _, hlast, hlast'⟩⟩
      rw [tie, tie, hu, hu']
      exact htable
    · rintro e u e' u' ⟨rfl, hu, hu', hmore⟩
      exact ⟨rfl, hu, hu', hasked hmore⟩
  again := by
    rintro d y lam rhs s s' ⟨hlink, htable, last, hlast, hlast'⟩
    unfold newtonSolve
    rw [abreast_solver_bind]
    refine (hb.abreast_solve hb' hlast hlast' htable _ _ rhs _).mono ?_ ?_
    · rintro v u v' u' ⟨rfl, hu, hu', hmore, -⟩
      exact ⟨rfl, hu, hu', SameAsked.trans hlink hmore⟩
    · rintro e u e' u' ⟨rfl, hu, hu', hmore⟩
      exact ⟨rfl, hu, hu', SameAsked.trans hlink hmore⟩

/-! ## Any history -/

omit [Field K] [LinearOrder K] [ElementaryFunctions K] in
/-- A choice stands for one formulation at most. -/
theorem exists_formulation (choice : Newton.Choice) (D : Data K) :
    ∃ f, ∀ g, Newton.System.create (α := K) choice D.n D.m = .ok (systemFor g D) → g = f := by
  have hinj : ∀ {f g : Formulation},
      (.ok (systemFor f D) : Except (Fault K) Newton.System) = .ok (systemFor g D) → g = f :=
    fun h => (congrArg Newton.System.formulation (Except.ok.inj h)).symm
  cases choice with
  | standard => exact ⟨.standard, fun g h => hinj h⟩
  | augmented => exact ⟨.augmented, fun g h => hinj h⟩
  | normal => exact ⟨.standard, fun g h => by cases h⟩
  | other name => exact ⟨.standard, fun g h => by cases h⟩

omit [Field K] [LinearOrder K] [ElementaryFunctions K] in
/-- Without a start that asks for it, nothing of an earlier iterate is used again. -/
theorem reuseFor_eq_none {s : Solver K} (hwarm : s.options.warmStart = false)
    (hchoice : s.options.startingPoint ≠ .strategy .affineStepOrPrevious) (n : Nat) (m : Int) :
    reuseFor s n m = ⟨false, false⟩ := by
  have hcold : (s.options.warmStart ||
      s.options.startingPoint == .strategy .affineStepOrPrevious) = false := by
    rw [hwarm, Bool.false_or, beq_eq_false_iff_ne]
    exact hchoice
  rw [reuseFor, hcold]
  rfl

omit [Field K] [LinearOrder K] [ElementaryFunctions K] in
/-- A bound on shifts that can be honoured refuses nothing. -/
theorem boundFault?_eq_none [Elementary K] {o : Options K} (h : o.shiftFault? = none) :
    o.boundFault? = none := by
  unfold Options.shiftFault? at h
  unfold Options.boundFault?
  rcases hmax : o.maxShifts with _ | k
  · rfl
  · rw [hmax] at h
    dsimp only at h
    split_ifs at h with hk
    exact if_neg hk

section

variable (hb : Follows b behaviour factored) (hb' : Follows b' behaviour factored')
  (hstart : Handled ⟨observed b, debug⟩ start) (hstart' : Handled ⟨observed b', debug⟩ start')
  (halike : start.solver.options.SameButStorage start'.solver.options) (hq : q.Makes p)
include hb hb' hstart hstart' halike hq

/-- Solves without constraints. -/
theorem abreast_solveProblem_direct
    (hm : p.activeConstraints start.solver.options.skipTangential = 0) :
    Abreast (solveProblem ⟨observed b, debug⟩ p) (solveProblem ⟨observed b', debug⟩ p)
      (fun d s d' s' => d' = d ∧ SameAsked start.backend start'.backend s.backend s'.backend)
      (fun e s e' s' => e' = e ∧ SameAsked start.backend start'.backend s.backend s'.backend)
      start start' := by
  have hskip : start'.solver.options.skipTangential = start.solver.options.skipTangential := by
    obtain ⟨_, _, _, _, _, ho⟩ := halike
    rw [ho]
  refine abreast_solveProblem_unconstrained hstart.usable.toReady hstart'.usable.toReady hskip hq hm
    (fun _ => rfl) (SameAsked.refl _ _) ?_
  intro s s' G G' rhs hs hs' hG hG' _
  refine (hb.abreast_complete hb' hG.sound hG'.sound (hG.ofMatrix_eq hG') _ _ rhs _).mono ?_ ?_
  · rintro v t v' t' ⟨rfl, ht, ht', hasked, -⟩
    rw [hs, hs'] at hasked
    exact ⟨rfl, ht, ht', hasked⟩
  · rintro e t e' t' ⟨rfl, -, -, hasked⟩
    rw [hs, hs'] at hasked
    exact ⟨rfl, hasked⟩

/-- Solves with constraints. -/
theorem abreast_solveProblem_determined
    (hshift : start.solver.options.shiftFault? = none)
    (hshift' : start'.solver.options.shiftFault? = none)
    (hwarm : start.solver.options.warmStart = false)
    (hchoice : start.solver.options.startingPoint ≠ .strategy .affineStepOrPrevious)
    (htruncate : ∀ a : K, ElementaryFunctions.truncate a ≠ none)
    (hm : 0 < (start.solver.options.data q).m) :
    Abreast (solveProblem ⟨observed b, debug⟩ p) (solveProblem ⟨observed b', debug⟩ p)
      (fun d s d' s' => (d'.problem = d.problem ∧
          d'.outcome = { d.outcome with history := d'.outcome.history }) ∧
        SameAsked start.backend start'.backend s.backend s'.backend)
      (fun e s e' s' => e' = e ∧ SameAsked start.backend start'.backend s.backend s'.backend)
      start start' := by
  obtain ⟨f, hf⟩ := exists_formulation (K := K) start.solver.options.formulation
    (start.solver.options.data q)
  set P := Pairing.determined b b' factored factored' debug (start.solver.options.data q) f
    start.solver.options start'.solver.options start.backend start'.backend
  have hP : P.Coupled := (Pairing.answers_determined hb hb' debug _ f _ _ _ _).coupled
  have hsame := halike.alike
  obtain ⟨maxShifts, lockPattern, learnPattern, fullness, recordHistory, ho⟩ := halike
  have hbound := boundFault?_eq_none hshift
  have hbound' := boundFault?_eq_none hshift'
  have hrefusal : start'.solver.options.refusal? p (start.solver.options.data q) =
      start.solver.options.refusal? p (start.solver.options.data q) := by
    have hblock : start'.solver.options.blockFault? p = start.solver.options.blockFault? p := by
      rw [ho]
      rfl
    rw [Options.refusal?, Options.refusal?, hblock, hbound, hbound', ho]
  have hf' : ∀ g, Newton.System.create (α := K) start'.solver.options.formulation
      (start.solver.options.data q).n (start.solver.options.data q).m =
        .ok (systemFor g (start.solver.options.data q)) → g = f := by
    rw [ho]
    exact hf
  have hreuse : ∀ m : Int, reuseFor start.solver (start.solver.options.data q).n m =
      ⟨false, false⟩ := reuseFor_eq_none hwarm hchoice _
  have hreuse' : ∀ m : Int, reuseFor start'.solver (start.solver.options.data q).n m =
      ⟨false, false⟩ := by
    rw [← show start'.solver.options.warmStart = start.solver.options.warmStart by rw [ho]] at hwarm
    rw [← show start'.solver.options.startingPoint = start.solver.options.startingPoint by rw [ho]]
      at hchoice
    exact reuseFor_eq_none hwarm hchoice _
  have hfaces : P.Faces q p start start' :=
    { left := hstart.usable
      right := hstart'.usable
      options := rfl
      options' := rfl
      alike := hsame
      makes := hq
      data := rfl
      pos := hm
      formulation := hf
      formulation' := hf'
      truncate := htruncate
      taken := ⟨hrefusal.trans, hrefusal.symm.trans⟩
      refused := fun e e' he he' => Option.some.inj (he'.symm.trans (hrefusal.trans he))
      link := by
        rintro t t' ht ht'
        show SameAsked _ _ t.backend t'.backend
        rw [ht, ht']
        exact .refl _ _
      reuse := (hreuse' _).trans (hreuse _).symm
      x := fun h => by
        rw [show reuseFor start.solver P.data.n P.data.m = ⟨false, false⟩ from hreuse _] at h
        cases h
      lam := fun h => by
        rw [show reuseFor start.solver P.data.n P.data.m = ⟨false, false⟩ from hreuse _] at h
        cases h }
  refine (hfaces.abreast_solveProblem hP fun _ _ => trivial).mono ?_ ?_
  · rintro d s d' s' ⟨⟨⟨hout, -⟩, hproblem⟩, hasked⟩
    exact ⟨⟨hproblem, hout⟩, hasked⟩
  · rintro e s e' s' ⟨he, hasked⟩
    exact ⟨he, hasked⟩

end

/-- The answer of a solve does not depend on how the Newton matrix is stored, nor on what came before.
Take two solvers with backends of one behaviour, whatever their callers did with them, and options
that differ in storage and records only and ask for a start of its own. Both solves ask their
backends for the same jobs on the same represented matrices and right-hand sides, and both return the
same, or are refused for the same reason. -/
theorem Handled.solve_indifferent (hb : Follows b behaviour factored)
    (hb' : Follows b' behaviour factored') (hstart : Handled ⟨observed b, debug⟩ start)
    (hstart' : Handled ⟨observed b', debug⟩ start')
    (halike : start.solver.options.SameButStorage start'.solver.options)
    (hshift : start.solver.options.shiftFault? = none)
    (hshift' : start'.solver.options.shiftFault? = none)
    (hwarm : start.solver.options.warmStart = false)
    (hchoice : start.solver.options.startingPoint ≠ .strategy .affineStepOrPrevious)
    (htruncate : ∀ a : K, ElementaryFunctions.truncate a ≠ none) (hq : q.Makes p) :
    (solve ⟨observed b, debug⟩ p start).Agrees (solve ⟨observed b', debug⟩ p start') ∧
      SameAsked start.backend start'.backend
        (solve ⟨observed b, debug⟩ p start).session.backend
        (solve ⟨observed b', debug⟩ p start').session.backend := by
  have habreast : Abreast (solveProblem ⟨observed b, debug⟩ p) (solveProblem ⟨observed b', debug⟩ p)
      (fun d s d' s' => (d'.problem = d.problem ∧
          d'.outcome = { d.outcome with history := d'.outcome.history }) ∧
        SameAsked start.backend start'.backend s.backend s'.backend)
      (fun e s e' s' => e' = e ∧ SameAsked start.backend start'.backend s.backend s'.backend)
      start start' := by
    have hactive : p.activeConstraints start.solver.options.skipTangential =
        ((start.solver.options.data q).m : Int) := hq.fit.activeConstraints
    rcases Nat.eq_zero_or_pos (start.solver.options.data q).m with hm | hm
    · refine (abreast_solveProblem_direct hb hb' hstart hstart' halike hq (by omega)).mono ?_
        fun _ _ _ _ hR => hR
      rintro d s _ s' ⟨rfl, hasked⟩
      exact ⟨⟨rfl, rfl⟩, hasked⟩
    · exact abreast_solveProblem_determined hb hb' hstart hstart' halike hq hshift hshift' hwarm
        hchoice htruncate hm
  rcases solve_of_abreast habreast with
    ⟨d, d', hd, hd', ⟨hproblem, hout⟩, hasked⟩ | ⟨e, e', he, he', heq, hasked⟩
  · refine ⟨?_, hasked⟩
    rw [hd, hd']
    exact ⟨hproblem, .inr ⟨d.outcome, d'.outcome.history, rfl, congrArg _ hout⟩⟩
  · refine ⟨?_, hasked⟩
    rw [he, he']
    exact ⟨rfl, .inl ⟨e, rfl, congrArg _ heq⟩⟩

/-- Cramer's rule, with what it is asked on record. -/
def observedCramer : Environment (Observed (Backend.Adapter (Matrix ℚ) ℚ) ℚ) ℚ :=
  ⟨observed Backend.cramerKernel.backend, false⟩

/-- Options with compliance, a fixed part of the way, and tolerances that a few rational iterations
reach. -/
def compliantOptions : Options ℚ :=
  { (Options.standard : Options ℚ) with
    useCompliance := true, adaptiveEta := false, muTolerance := 1 / 10, rpTolerance := 1 / 10
    rdTolerance := 1 / 10 }

/-- The same with the positions learned once and kept, no shifts, and no records. -/
def lockedOptions : Options ℚ :=
  { compliantOptions with
    maxShifts := some 0, lockPattern := true, learnPattern := true, fullness := 1
    recordHistory := false }

/-- A fresh solver with given options, before Cramer's rule was asked anything. -/
def unaskedStart (o : Options ℚ) :
    Session (Solver ℚ) (Observed (Backend.Adapter (Matrix ℚ) ℚ) ℚ) ℚ :=
  ⟨.create 0 o, .initial .initial, []⟩

/-- A solver that keeps its positions after a solve of another problem of the same dimensions. -/
def lockedAfter (p₀ : Problem ℚ) :
    Session (Solver ℚ) (Observed (Backend.Adapter (Matrix ℚ) ℚ) ℚ) ℚ :=
  let r := (solve observedCramer p₀ (unaskedStart lockedOptions)).session
  { r with solver := { r.solver with options := lockedOptions } }

/-- A fresh solver, and one with the positions of a problem without compliance. -/
theorem solve_indifferent_lockedAfter : ∃ (p₀ p : Problem ℚ) (out : Outcome ℚ),
    (halfLine 2 (-2) 0).Makes p₀ ∧ compliantRow.Makes p ∧
      (lockedAfter p₀).solver.patternLearned = true ∧
      (solve observedCramer p (unaskedStart compliantOptions)).outcome = .ok out ∧
      out.stage = .converged ∧
      (solve observedCramer p (unaskedStart compliantOptions)).Agrees
        (solve observedCramer p (lockedAfter p₀)) ∧
      SameAsked (unaskedStart compliantOptions).backend (lockedAfter p₀).backend
        (solve observedCramer p (unaskedStart compliantOptions)).session.backend
        (solve observedCramer p (lockedAfter p₀)).session.backend := by
  have hrun : (do
      let p₀ ← (halfLine 2 (-2) 0).problem?
      let p ← compliantRow.problem?
      let out ← (solve observedCramer p (unaskedStart compliantOptions)).outcome
      pure (decide ((lockedAfter p₀).solver.patternLearned = true ∧ out.stage = .converged)) :
        Except (Fault ℚ) Bool).toOption = some true := by
    decide +kernel
  obtain ⟨p₀, hp₀, hrun⟩ := exists_of_bind_toOption_eq_some hrun
  obtain ⟨p, hp, hrun⟩ := exists_of_bind_toOption_eq_some hrun
  obtain ⟨out, hout, hrun⟩ := exists_of_bind_toOption_eq_some hrun
  obtain ⟨hlearned, hconverged⟩ := of_decide_eq_true (Option.some.inj hrun)
  have hmakes : compliantRow.Makes p := Problem.Parts.makes_of_problem?
    (fun e he => by obtain rfl := Option.some.inj he; trivial) hp
  have hafter : Handled observedCramer (lockedAfter p₀) :=
    ((Handled.created 0 lockedOptions _ []).solved (makes_halfLine hp₀)).elsewhere lockedOptions rfl
  exact ⟨p₀, p, out, makes_halfLine hp₀, hmakes, hlearned, hout, hconverged,
    Handled.solve_indifferent Backend.follows_cramer Backend.follows_cramer (.created 0 _ _ _) hafter
      ⟨_, _, _, _, _, rfl⟩ rfl rfl rfl (fun h => StartingPoint.noConfusion (StartChoice.strategy.inj h))
      (fun _ h => by cases h) hmakes⟩

end CentralPath.InteriorPoint
