/-
  What a solver asks of its backend while it iterates. At every iterate the Newton matrix is brought
  there and one complete call is made; unless only the predictor is taken, one solve call with the
  matrix as it was stored then follows (`Round`). In the interior nothing but a failed call refuses an
  iteration (`Underway.ends_iterate`), so the calls of a run are those of its iterations one after the
  other, up to the first that fails (`Underway.ends_iterateWithin`). This asks nothing of the backend
  but a status for every call and a vector of the right length after success.
-/
import CentralPath.Proofs.Backend.Recorded
import CentralPath.Proofs.InteriorPoint.Formulations

namespace CentralPath.InteriorPoint

open Backend (CallRecord CutOff Environment Job Recorded Session Work statusOk)
open Backend.Work (Ends ends_bind ends_lift ends_map ends_report ends_solver)
open Newton (AtIterate Formulation systemFor)
open Newton.System (Aim Direction)
open Problem (Data)
open Sparse (Matrix)

variable {σ K : Type} [Field K] [LinearOrder K]

/-! ## The calls of an iteration -/

/-- A complete call at an iterate: the Newton matrix, as it is stored at that moment, is the documented
one of the iterate. No multiplier in its denominators is zero. -/
structure Completes (f : Formulation) (D : Data K) (y lam : Array K) (kkt : Matrix K)
    (c : CallRecord K) : Prop extends c.Asks .complete kkt where
  represents : kkt.Represents (Newton.blockTable f D y lam)
  positive : ∀ a ∈ lam, 0 < a

/-- The calls of an iteration at an iterate, and the one that failed, if one did. The second call has
the matrix of the first. -/
inductive Round (f : Formulation) (D : Data K) (onlyPredict : Bool) (y lam : Array K) :
    List (CallRecord K) → Option (CallRecord K) → Prop
  | predicted {kkt : Matrix K} {c : CallRecord K} (hc : Completes f D y lam kkt c)
      (hlast : onlyPredict = true ∨ c.status ≠ statusOk) :
      Round f D onlyPredict y lam [c] c.failure?
  | corrected {kkt : Matrix K} {c c' : CallRecord K} (hc : Completes f D y lam kkt c)
      (hgo : onlyPredict = false ∧ c.status = statusOk) (hc' : c'.Asks .solve kkt) :
      Round f D onlyPredict y lam [c, c'] c'.failure?

variable {f : Formulation} {D : Data K} {o : Options K} {s s' : Solver K}

omit [LinearOrder K] in
theorem Assembled.of_predicted (h : Assembled D f o s) {yPred lamPred : Array K}
    (hy : yPred.size = D.m) (hl : lamPred.size = D.m) :
    Assembled D f o { s with yPred, lamPred } :=
  { h with toLoaded := h.toLoaded.of_predicted hy hl }

theorem Round.cutOff {onlyPredict : Bool} {y lam : Array K} {calls : List (CallRecord K)}
    {cut : Option (CallRecord K)} (h : Round f D onlyPredict y lam calls cut) : CutOff calls cut := by
  cases h with
  | predicted => exact .single _
  | @corrected kkt c c' _ hgo _ =>
    have hfirst := CutOff.single c
    rw [CallRecord.failure?_of_ok hgo.2] at hfirst
    exact hfirst.append (.single c')

variable [ElementaryFunctions K]

/-- The calls of at most `budget` iterations: one round after the other, each at the iterate that the
last one led to, until the measures are below their tolerances or a call fails. -/
inductive Iterations (env : Environment (Recorded σ K) K) (f : Formulation) (D : Data K) :
    Nat → Session (Solver K) (Recorded σ K) K → List (CallRecord K) → Option (CallRecord K) → Prop
  | done {budget : Nat} {r : Session (Solver K) (Recorded σ K) K}
      (hdone : budget = 0 ∨ r.solver.isConverged = true) : Iterations env f D budget r [] none
  | more {budget : Nat} {r r₁ r₂ : Session (Solver K) (Recorded σ K) K}
      {round calls : List (CallRecord K)} {cut : Option (CallRecord K)}
      (hgo : r.solver.isConverged = false)
      (hround : Round f D r.solver.options.onlyPredict r.solver.y r.solver.lam round none)
      (hrun : (iterate env).run.run r = (.ok (), r₁)) (hbooked : r₁.solver.Booked r₂.solver)
      (hbackend : r₂.backend = r₁.backend) (hrest : Iterations env f D budget r₂ calls cut) :
      Iterations env f D (budget + 1) r (round ++ calls) cut
  | cut {budget : Nat} {r r' : Session (Solver K) (Recorded σ K) K}
      {round : List (CallRecord K)} {c : CallRecord K} (hgo : r.solver.isConverged = false)
      (hround : Round f D r.solver.options.onlyPredict r.solver.y r.solver.lam round (some c))
      (hrun : (iterate env).run.run r = (.error (c.fault "KKT system"), r')) :
      Iterations env f D (budget + 1) r round (some c)

theorem Iterations.cutOff {env : Environment (Recorded σ K) K} {budget : Nat}
    {r : Session (Solver K) (Recorded σ K) K} {calls : List (CallRecord K)}
    {cut : Option (CallRecord K)} (h : Iterations env f D budget r calls cut) : CutOff calls cut := by
  induction h with
  | done => exact .nil
  | more _ hround _ _ _ _ ih => exact hround.cutOff.append ih
  | cut _ hround _ => exact hround.cutOff

/-! ## One direction -/

/-- A direction is found where the backend has a vector of the right length. -/
theorem Assembled.ends_directionFor_of_solve {env : Environment σ K} {r : Session (Solver K) σ K}
    {aim : Aim K} {job : Job} {P : σ → Prop} {R : Fault K → Session (Solver K) σ K → Prop}
    (h : Assembled D f o r.solver) (hne : ∀ a ∈ r.solver.lam, a ≠ 0) (ha : aim.Fits D.m)
    (hsolve : ∀ rhs, Ends (newtonSolve env rhs job)
      (fun v r' => r'.solver = r.solver ∧ v.size = r.solver.kkt.cols ∧ P r'.backend) R r) :
    Ends (directionFor env aim job)
      (fun d r' => r'.solver = r.solver ∧ d.Sized D.n D.m ∧ P r'.backend) R r := by
  have hrp : r.solver.rp.size = D.m := h.size_component .rp
  have hrd : r.solver.rd.size = D.n := h.size_component .rd
  have hy : r.solver.y.size = D.m := h.size_component .y
  have hl : r.solver.lam.size = D.m := h.size_component .lam
  obtain ⟨rhs, hrhs, -⟩ := Newton.exists_rightHandSide hrp hrd hy hl (h.coord_lam_ne_zero hne) f ha
  unfold directionFor
  rw [ends_bind, ends_solver, ends_bind, ends_lift, h.system?_eq]
  dsimp only
  rw [ends_bind, ends_lift, hrhs]
  dsimp only
  refine (hsolve rhs).bind ?_ fun _ _ hR => hR
  rintro v r₁ ⟨hs₁, hsize, hP⟩
  obtain ⟨d, hd, hx, hy, hl⟩ := h.kkt.exists_direction h.compliance hrp
    (hsize.trans h.prepared.rows_eq_dimension.2)
  rw [ends_lift, hd]
  exact ⟨hs₁, ⟨hx, hy, hl⟩, hP⟩

section

variable {b : Backend σ K} {env : Environment (Recorded σ K) K}
  {r : Session (Solver K) (Recorded σ K) K} {aim : Aim K}
  (hb : b.Answering) (henv : env.backend = b.recorded)
include hb henv

omit [Field K] [LinearOrder K] [ElementaryFunctions K] in
/-- A solution costs one call with the Newton matrix as it is. -/
theorem ends_newtonSolve_recorded (rhs : Array K) (job : Job) :
    Ends (newtonSolve env rhs job)
      (fun v r' => r'.solver = r.solver ∧ v.size = r.solver.kkt.cols ∧ ∃ c : CallRecord K,
        c.Asks job r.solver.kkt ∧ c.status = statusOk ∧
          r'.backend.calls = r.backend.calls ++ [c])
      (fun e r' => r'.solver = r.solver ∧ ∃ c : CallRecord K, c.Asks job r.solver.kkt ∧
        c.status ≠ statusOk ∧ e = c.fault "KKT system" ∧
          r'.backend.calls = r.backend.calls ++ [c]) r := by
  unfold newtonSolve
  rw [ends_bind, ends_solver]
  exact hb.ends_ask_recorded henv _ _ _ _ _

/-- A direction costs one call with the Newton matrix as it is, and it is found if and only if the call
succeeds. -/
theorem Assembled.ends_directionFor_recorded (h : Assembled D f o r.solver)
    (hne : ∀ a ∈ r.solver.lam, a ≠ 0) (ha : aim.Fits D.m) (job : Job) :
    Ends (directionFor env aim job)
      (fun d r' => r'.solver = r.solver ∧ d.Sized D.n D.m ∧ ∃ c : CallRecord K,
        c.Asks job r.solver.kkt ∧ c.status = statusOk ∧
          r'.backend.calls = r.backend.calls ++ [c])
      (fun e r' => r'.solver = r.solver ∧ ∃ c : CallRecord K, c.Asks job r.solver.kkt ∧
        c.status ≠ statusOk ∧ e = c.fault "KKT system" ∧
          r'.backend.calls = r.backend.calls ++ [c]) r :=
  h.ends_directionFor_of_solve
    (P := fun s => ∃ c : CallRecord K, c.Asks job r.solver.kkt ∧ c.status = statusOk ∧
      s.calls = r.backend.calls ++ [c])
    hne ha fun rhs => ends_newtonSolve_recorded hb henv rhs job

/-- The first direction of an iteration costs a complete call at the iterate. -/
theorem Assembled.ends_directions_affine (h : Assembled D f o r.solver)
    (hpos : ∀ a ∈ r.solver.lam, 0 < a) :
    Ends (directions env .affine true)
      (fun d r' => d.Sized D.n D.m ∧ ∃ (kkt : Matrix K) (c : CallRecord K),
        (r'.solver = { r.solver with kkt } ∧ Assembled D f o r'.solver) ∧
        Completes f D r.solver.y r.solver.lam kkt c ∧ c.status = statusOk ∧
          r'.backend.calls = r.backend.calls ++ [c])
      (fun e r' => ∃ (kkt : Matrix K) (c : CallRecord K),
        Completes f D r.solver.y r.solver.lam kkt c ∧ c.status ≠ statusOk ∧
          e = c.fault "KKT system" ∧ r'.backend.calls = r.backend.calls ++ [c]) r := by
  obtain ⟨-, hat, hrows⟩ := h.assemble
  show Ends (updateIterateBlocks >>= fun _ => directionFor env .affine .complete) _ _ r
  refine (h.ends_updateIterateBlocks (R := fun _ _ => False)).bind ?_ fun _ _ hfalse => hfalse.elim
  rintro _ r₁ ⟨hb₁, hs₁⟩
  have h₁ : Assembled D f o r₁.solver := by
    rw [hs₁]
    exact h.of_kkt hat.toPrepared hrows
  have hne : ∀ a ∈ r₁.solver.lam, a ≠ 0 := by
    rw [hs₁]
    exact fun a ha => (hpos a ha).ne'
  refine (h₁.ends_directionFor_recorded hb henv hne (Aim.fits_affine D.m) .complete).mono ?_ ?_
  · rintro d r₂ ⟨hs₂, hd, c, hc, hok, hcalls⟩
    rw [hs₁] at hc hs₂
    rw [hb₁] at hcalls
    refine ⟨hd, _, c, ⟨hs₂, ?_⟩, ⟨hc, hat.represents, hpos⟩, hok, hcalls⟩
    rw [hs₂]
    exact h.of_kkt hat.toPrepared hrows
  · rintro e r₂ ⟨hs₂, c, hc, hfailed, he, hcalls⟩
    rw [hs₁] at hc
    rw [hb₁] at hcalls
    exact ⟨_, c, ⟨hc, hat.represents, hpos⟩, hfailed, he, hcalls⟩

end

/-! ## One iteration -/

/-- A solver between iterations: its problem is in place, its iterate is in the interior, and the
duality measure is that of the iterate. -/
structure Underway (D : Data K) (f : Formulation) (o : Options K) (s : Solver K) : Prop
    extends Assembled D f o s where
  interior : s.Interior
  mu : s.mu = D.dualityMeasure s.y s.lam

omit [ElementaryFunctions K] in
theorem Underway.of_booked (h : Underway D f o s) (hb : s.Booked s') : Underway D f o s' := by
  have hassembled := h.toAssembled.of_booked hb
  have hinterior := h.interior.of_booked hb
  obtain ⟨_, _, _, _, rfl⟩ := hb
  exact ⟨hassembled, hinterior, h.mu⟩

/-- A step along a direction of the right lengths, no longer than the ratio test allows, stays inside. -/
theorem Underway.ends_takeStep [IsStrictOrderedRing K] {r r₀ : Session (Solver K) σ K}
    {d : Direction K} {alphaP alphaD : K} (h₀ : Underway D f o r₀.solver) (hm : 0 < D.m)
    (hexp : ∀ t : K, 0 < t → ElementaryFunctions.exp (-t) ∈ Set.Ioo 0 1)
    (h : Assembled D f o r.solver) (hy : r.solver.y = r₀.solver.y)
    (hl : r.solver.lam = r₀.solver.lam) (hd : d.Sized D.n D.m)
    (hlengths : r₀.solver.stepLengths d (stepFraction r₀.solver) = .ok (alphaP, alphaD))
    {R : Fault K → Session (Solver K) σ K → Prop} :
    Ends (takeStep d alphaP alphaD)
      (fun _ r' => r'.backend = r.backend ∧ Underway D f o r'.solver) R r := by
  have hysize : r₀.solver.y.size = D.m := h₀.size_component .y
  have hlsize : r₀.solver.lam.size = D.m := h₀.size_component .lam
  have hmu : 0 < r₀.solver.mu := h₀.mu ▸ h₀.interior.dualityMeasure_pos hysize hlsize hm
  refine (h.toLoaded.ends_takeStep_sized hm hd.dx hd.dy hd.dlam).mono ?_ fun _ _ hR => hR
  rintro _ r' ⟨hb, h', rp, rd, -, -, hs⟩
  have hsteps : r₀.solver.Steps D r'.solver := by
    refine ⟨d, alphaP, alphaD, hd.dy, hd.dlam, hlengths, ?_, ?_⟩
    · rw [hs, ← hy]
    · rw [hs, ← hl]
  refine ⟨hb, ⟨?_, hsteps.interior h₀.interior hexp hmu (h₀.m_eq.symm ▸ hm) hysize hlsize, ?_⟩⟩
  · rw [hs] at h' ⊢
    exact { h with toLoaded := h' }
  · rw [hs]

/-- What follows an iteration is bookkeeping, and is never refused. -/
theorem Underway.ends_keepBooks (env : Environment σ K) {r : Session (Solver K) σ K}
    (h : Underway D f o r.solver) :
    Ends (keepBooks env) (fun _ r' => r.solver.Booked r'.solver ∧ r'.backend = r.backend)
      (fun _ _ => False) r := by
  unfold keepBooks
  refine (ends_countIteration (R := fun _ _ => False)).bind ?_ fun _ _ hfalse => hfalse
  rintro _ r₁ ⟨hs₁, hb₁⟩
  have hbooked : r.solver.Booked r₁.solver := hs₁ ▸ r.solver.booked_counted
  split_ifs
  · show Ends ((fun _ => ()) <$> verifyConditions true) _ _ r₁
    rw [ends_map]
    refine ((h.of_booked hbooked).toAssembled.ends_verifyConditions true).mono ?_
      fun _ _ hfalse => hfalse
    rintro _ r₂ ⟨hs₂, hb₂⟩
    exact ⟨hs₂ ▸ hbooked, hb₂.trans hb₁⟩
  · exact ⟨hbooked, hb₁⟩

section

variable [IsStrictOrderedRing K] (hm : 0 < D.m)
  (hexp : ∀ t : K, 0 < t → ElementaryFunctions.exp (-t) ∈ Set.Ioo 0 1)
include hm hexp

/-- Taking the predictor asks nothing of the backend. -/
theorem Underway.ends_predictorIteration {r : Session (Solver K) σ K} {affine : Direction K}
    (h : Underway D f o r.solver) (hd : affine.Sized D.n D.m)
    {R : Fault K → Session (Solver K) σ K → Prop} :
    Ends (predictorIteration affine)
      (fun _ r' => r'.backend = r.backend ∧ Underway D f o r'.solver) R r := by
  obtain ⟨alphaP, alphaD, hlengths⟩ := h.toLoaded.exists_stepLengths hd.dy hd.dlam
    (stepFraction r.solver)
  unfold predictorIteration
  rw [ends_bind, ends_solver, ends_bind, ends_lift, hlengths]
  dsimp only
  refine (h.ends_takeStep hm hexp h.toAssembled rfl rfl hd hlengths).bind ?_ fun _ _ hR => hR
  rintro _ r₁ h₁
  rw [ends_bind, ends_solver, ends_report]
  exact h₁

/-- The corrector needs one solution, with the Newton matrix as it is. -/
theorem Underway.ends_correctorIteration_of_solve {env : Environment σ K}
    {r : Session (Solver K) σ K} {affine : Direction K} {P : σ → Prop}
    {R : Fault K → Session (Solver K) σ K → Prop} (h : Underway D f o r.solver)
    (haffine : affine.Sized D.n D.m)
    (hsolve : ∀ rhs (r₁ : Session (Solver K) σ K), r₁.solver.kkt = r.solver.kkt →
      r₁.backend = r.backend → Ends (newtonSolve env rhs .solve)
        (fun v r' => r'.solver = r₁.solver ∧ v.size = r₁.solver.kkt.cols ∧ P r'.backend) R r₁) :
    Ends (correctorIteration env affine)
      (fun _ r' => Underway D f o r'.solver ∧ P r'.backend) R r := by
  have hy : r.solver.y.size = D.m := h.size_component .y
  have hl : r.solver.lam.size = D.m := h.size_component .lam
  have hmu : 0 < r.solver.mu := h.mu ▸ h.interior.dualityMeasure_pos hy hl hm
  unfold correctorIteration
  rw [ends_bind, ends_solver]
  dsimp only
  refine (h.toLoaded.ends_measurePredictor hm haffine.dy haffine.dlam).bind ?_ ?_
  rotate_left
  · rintro _ _ ⟨hzero, -⟩
    exact absurd hzero hmu.ne'
  rintro sigma r₁ ⟨hb₁, yPred, lamPred, hs₁, hysize, hlsize⟩
  have h₁ : Assembled D f o r₁.solver := hs₁ ▸ h.toAssembled.of_predicted hysize hlsize
  have hkkt₁ : r₁.solver.kkt = r.solver.kkt := by rw [hs₁]
  have hne : ∀ a ∈ r₁.solver.lam, a ≠ 0 := by
    rw [hs₁]
    exact fun a ha => (h.interior.multipliers a ha).ne'
  show Ends (directionFor env (correctorAim r.solver sigma affine) .solve >>= _) _ _ r₁
  refine (h₁.ends_directionFor_of_solve hne (fits_correctorAim haffine r.solver sigma)
    fun rhs => hsolve rhs r₁ hkkt₁ hb₁).bind ?_ fun _ _ hR => hR
  rintro d r₂ ⟨hs₂, hd, hP⟩
  obtain ⟨alphaP, alphaD, hlengths⟩ := h.toLoaded.exists_stepLengths hd.dy hd.dlam
    (stepFraction r.solver)
  rw [ends_bind, ends_lift, hlengths]
  dsimp only
  refine (h.ends_takeStep hm hexp (hs₂ ▸ h₁) ?_ ?_ hd hlengths).bind ?_ fun _ _ hR => hR
  · rw [hs₂, hs₁]
  · rw [hs₂, hs₁]
  rintro _ r₃ ⟨hb₃, h₃⟩
  rw [ends_bind, ends_solver, ends_report]
  exact ⟨h₃, hb₃ ▸ hP⟩

end

section

variable [IsStrictOrderedRing K] {b : Backend σ K} {env : Environment (Recorded σ K) K}
  {r : Session (Solver K) (Recorded σ K) K} {affine : Direction K} (hm : 0 < D.m)
  (hexp : ∀ t : K, 0 < t → ElementaryFunctions.exp (-t) ∈ Set.Ioo 0 1)
  (hb : b.Answering) (henv : env.backend = b.recorded)
include hm hexp hb henv

/-- The corrector costs one solve call, with the Newton matrix as it is. -/
theorem Underway.ends_correctorIteration (h : Underway D f o r.solver)
    (haffine : affine.Sized D.n D.m) :
    Ends (correctorIteration env affine)
      (fun _ r' => Underway D f o r'.solver ∧ ∃ c : CallRecord K, c.Asks .solve r.solver.kkt ∧
        c.status = statusOk ∧ r'.backend.calls = r.backend.calls ++ [c])
      (fun e r' => ∃ c : CallRecord K, c.Asks .solve r.solver.kkt ∧ c.status ≠ statusOk ∧
        e = c.fault "KKT system" ∧ r'.backend.calls = r.backend.calls ++ [c]) r := by
  refine h.ends_correctorIteration_of_solve
    (P := fun s => ∃ c : CallRecord K, c.Asks .solve r.solver.kkt ∧ c.status = statusOk ∧
      s.calls = r.backend.calls ++ [c])
    hm hexp haffine fun rhs r₁ hkkt hb₁ => ?_
  rw [← hkkt, ← hb₁]
  exact (ends_newtonSolve_recorded hb henv rhs .solve).mono (fun _ _ hQ => hQ) fun _ _ hR => hR.2

/-- In the interior an iteration is refused by a failed call only, and its calls are those of a round
at the iterate that it starts from. -/
theorem Underway.ends_iterate (h : Underway D f o r.solver) :
    Ends (iterate env)
      (fun _ r' => Underway D f o r'.solver ∧ ∃ round,
        Round f D r.solver.options.onlyPredict r.solver.y r.solver.lam round none ∧
          r'.backend.calls = r.backend.calls ++ round)
      (fun e r' => ∃ round c,
        Round f D r.solver.options.onlyPredict r.solver.y r.solver.lam round (some c) ∧
          e = c.fault "KKT system" ∧ r'.backend.calls = r.backend.calls ++ round) r := by
  unfold iterate
  refine (h.toAssembled.ends_directions_affine hb henv h.interior.multipliers).bind ?_ ?_
  rotate_left
  · rintro e r₁ ⟨kkt, c, hc, hfailed, he, hcalls⟩
    refine ⟨[c], c, ?_, he, hcalls⟩
    rw [← CallRecord.failure?_of_ne hfailed]
    exact .predicted hc (.inr hfailed)
  rintro affine r₁ ⟨haffine, kkt, c, ⟨hs₁, hassembled⟩, hc, hok, hcalls₁⟩
  have h₁ : Underway D f o r₁.solver := by
    rw [hs₁] at hassembled ⊢
    exact ⟨hassembled, ⟨h.interior.slack, h.interior.multipliers⟩, h.mu⟩
  have hpredict : r.solver.options.onlyPredict = r₁.solver.options.onlyPredict := by rw [hs₁]
  have hkkt₁ : r₁.solver.kkt = kkt := by rw [hs₁]
  rw [ends_bind, ends_solver, hpredict]
  split_ifs with honly
  · refine (h₁.ends_predictorIteration hm hexp haffine).mono ?_ fun _ _ hR => hR
    rintro _ r₂ ⟨hb₂, h₂⟩
    refine ⟨h₂, [c], ?_, by rw [hb₂, hcalls₁]⟩
    rw [← CallRecord.failure?_of_ok hok]
    exact .predicted hc (.inl honly)
  have hgo : r₁.solver.options.onlyPredict = false ∧ c.status = statusOk :=
    ⟨Bool.not_eq_true _ ▸ honly, hok⟩
  refine (h₁.ends_correctorIteration hm hexp hb henv haffine).mono ?_ ?_
  · rintro _ r₂ ⟨h₂, c', hc', hok', hcalls₂⟩
    refine ⟨h₂, [c, c'], ?_, by rw [hcalls₂, hcalls₁, List.append_assoc]; rfl⟩
    rw [← CallRecord.failure?_of_ok hok']
    exact .corrected hc hgo (hkkt₁ ▸ hc')
  · rintro e r₂ ⟨c', hc', hfailed, he, hcalls₂⟩
    refine ⟨[c, c'], c', ?_, he, by rw [hcalls₂, hcalls₁, List.append_assoc]; rfl⟩
    rw [← CallRecord.failure?_of_ne hfailed]
    exact .corrected hc hgo (hkkt₁ ▸ hc')

/-! ## All iterations -/

/-- The calls of a run are those of its iterations, and only a failed call refuses it. -/
theorem Underway.ends_iterateWithin (budget : Nat) (h : Underway D f o r.solver) :
    Ends (iterateWithin env budget)
      (fun _ r' => Underway D f o r'.solver ∧ ∃ calls, Iterations env f D budget r calls none ∧
        r'.backend.calls = r.backend.calls ++ calls)
      (fun e r' => ∃ calls c, Iterations env f D budget r calls (some c) ∧
        e = c.fault "KKT system" ∧ r'.backend.calls = r.backend.calls ++ calls) r := by
  induction budget generalizing r with
  | zero => exact ⟨h, [], .done (.inl rfl), (List.append_nil _).symm⟩
  | succ budget ih =>
    rw [iterateWithin_succ, ends_bind, ends_solver]
    split
    · rename_i hconverged
      exact ⟨h, [], .done (.inr hconverged), (List.append_nil _).symm⟩
    rename_i hgo
    have hgo : r.solver.isConverged = false := Bool.not_eq_true _ ▸ hgo
    refine (h.ends_iterate hm hexp hb henv).with_run.bind ?_ ?_
    rotate_left
    · rintro _ r₁ ⟨hrun, round, c, hround, rfl, hcalls⟩
      exact ⟨round, c, .cut hgo hround hrun, rfl, hcalls⟩
    rintro _ r₁ ⟨hrun, h₁, round, hround, hcalls₁⟩
    refine (h₁.ends_keepBooks env).bind ?_ fun _ _ hfalse => hfalse.elim
    rintro _ r₂ ⟨hbooked, hbackend⟩
    have hprefix : r₂.backend.calls = r.backend.calls ++ round := by rw [hbackend, hcalls₁]
    refine (ih (h₁.of_booked hbooked)).mono ?_ ?_
    · rintro _ r' ⟨h', calls, hcalls, hb'⟩
      refine ⟨h', round ++ calls, .more hgo hround hrun hbooked hbackend hcalls, ?_⟩
      rw [hb', hprefix, List.append_assoc]
    · rintro _ r' ⟨calls, c, hcalls, rfl, hb'⟩
      refine ⟨round ++ calls, c, .more hgo hround hrun hbooked hbackend hcalls, rfl, ?_⟩
      rw [hb', hprefix, List.append_assoc]

end

end CentralPath.InteriorPoint
