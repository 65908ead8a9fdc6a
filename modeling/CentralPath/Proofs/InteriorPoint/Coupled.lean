/-
  Two solves side by side. A pairing is `Coupled` when the backends on both sides come to the same
  direction from agreeing solvers, or both refuse. Then agreement carries over from step to step: the
  strategies for the first iterate end in agreement wherever they use again what agrees
  (`Coupled.abreast_startWith`), an iteration keeps it (`Coupled.abreast_iterate`), and so does a
  whole solve, which hands back the same solution (`Coupled.abreast_solveProblem`).
-/
import CentralPath.Proofs.InteriorPoint.Twins

namespace CentralPath.InteriorPoint

open Backend (Environment Session Work)
open Backend.Work (Abreast Ends abreast_change abreast_change_bind abreast_pure abreast_report
  abreast_report_bind abreast_solver_bind abreast_throw)
open Newton (Formulation systemFor)
open Newton.System (Direction)
open Problem (Data)
open Sparse (Matrix)

variable {σ σ' K : Type} [Field K] {P : Pairing σ σ' K} {t : Tie σ K} {t' : Tie σ' K}
  {k k' : Nat × List (Record K)} {r : Session (Solver K) σ K} {r' : Session (Solver K) σ' K}

namespace Pairing

/-- Both works are stopped by faults that go together, and the ties are linked. -/
def Halted (P : Pairing σ σ' K) (e : Fault K) (r : Session (Solver K) σ K) (e' : Fault K)
    (r' : Session (Solver K) σ' K) : Prop :=
  P.refused e e' ∧ ∃ t t' k k', P.Alongside t t' k k' r r' ∧ P.link t t'

variable [LinearOrder K] [ElementaryFunctions K]

/-- From agreeing solvers, both backends lead to the same affine direction, and with the factors in
hand to the same direction toward the corrector's aim; or both refuse. -/
structure Coupled (P : Pairing σ σ' K) : Prop where
  debug : P.env'.debug = P.env.debug
  refused_refl : ∀ e, P.refused e e
  good_ones : ∀ v : Array K, P.good (Vector.constant 1 v)
  link_of_held : ∀ {d y lam t t'}, P.held d y lam t t' → P.link t t'
  complete : ∀ {t t' k k' r r'}, P.Twin t t' k k' r r' → P.link t t' → P.good r.solver.lam →
    Abreast (directions P.env .affine true) (directions P.env' .affine true)
      (fun d s d' s' => d' = d ∧ s.solver.y = r.solver.y ∧ s.solver.lam = r.solver.lam ∧
        ∃ u u', P.Twin u u' k k' s s' ∧ P.held d r.solver.y r.solver.lam u u')
      P.Halted r r'
  again : ∀ {t t' k k' r r' affine}, P.Twin t t' k k' r r' →
    P.held affine r.solver.y r.solver.lam t t' → ∀ (before : Solver K) (sigma : K),
    Abreast (directions P.env (correctorAim before sigma affine) false)
      (directions P.env' (correctorAim before sigma affine) false)
      (fun d s d' s' => d' = d ∧ ∃ u u', P.Twin u u' k k' s s' ∧ P.link u u')
      P.Halted r r'

/-- Both sides agree, with linked ties and the books given. -/
def Agree (P : Pairing σ σ' K) (k k' : Nat × List (Record K)) (r : Session (Solver K) σ K)
    (r' : Session (Solver K) σ' K) : Prop :=
  ∃ t t', P.Twin t t' k k' r r' ∧ P.link t t'

namespace Coupled

variable (hP : P.Coupled)
include hP

/-- A fault that does not come from a backend stops both works. -/
theorem halted (h : P.Alongside t t' k k' r r') (hlink : P.link t t') (e : Fault K) :
    P.Halted e r e r' :=
  ⟨hP.refused_refl e, t, t', k, k', h, hlink⟩

/-! ## One iteration -/

theorem abreast_predictorIteration (h : P.Twin t t' k k' r r') (hlink : P.link t t')
    (d : Direction K) :
    Abreast (predictorIteration d) (predictorIteration d) (fun _ s _ s' => P.Agree k k' s s')
      P.Halted r r' := by
  unfold predictorIteration
  rw [abreast_solver_bind]
  refine Abreast.lift_bind ?_ ?_ fun e _ => hP.halted h.toAlongside hlink e
  · rw [h.stepFraction, h.stepLengths]
  rintro ⟨alphaP, alphaD⟩ -
  refine (h.abreast_takeStep d alphaP alphaD fun e _ _ hs =>
    hP.halted hs.toAlongside hlink e).bind ?_
  intro _ r₁ _ r₁' h₁
  rw [abreast_solver_bind, abreast_report]
  exact ⟨t, t', h₁.of_events _ _, hlink⟩

theorem abreast_correctorIteration (h : P.Twin t t' k k' r r') {d : Direction K}
    (hheld : P.held d r.solver.y r.solver.lam t t') :
    Abreast (correctorIteration P.env d) (correctorIteration P.env' d)
      (fun _ s _ s' => P.Agree k k' s s') P.Halted r r' := by
  have hlink := hP.link_of_held hheld
  unfold correctorIteration
  rw [abreast_solver_bind]
  refine (h.abreast_measurePredictor d fun e _ _ hs => hP.halted hs.toAlongside hlink e).bind ?_
  rintro _ r₁ sigma r₁' ⟨rfl, h₁, hy, hl⟩
  rw [← hy, ← hl] at hheld
  rw [h.correctorAim]
  refine (hP.again h₁ hheld r.solver sigma).bind ?_
  rintro _ r₂ d r₂' ⟨rfl, u, u', h₂, hlink₂⟩
  refine Abreast.lift_bind ?_ ?_ fun e _ => hP.halted h₂.toAlongside hlink₂ e
  · rw [h.stepFraction, h.stepLengths]
  rintro ⟨alphaP, alphaD⟩ -
  refine (h₂.abreast_takeStep d alphaP alphaD fun e _ _ hs =>
    hP.halted hs.toAlongside hlink₂ e).bind ?_
  intro _ r₃ _ r₃' h₃
  rw [abreast_solver_bind, abreast_report]
  exact ⟨u, u', h₃.of_events _ _, hlink₂⟩

/-- An iteration keeps agreement. -/
theorem abreast_iterate (h : P.Agree k k' r r') (hgood : P.good r.solver.lam) :
    Abreast (iterate P.env) (iterate P.env') (fun _ s _ s' => P.Agree k k' s s') P.Halted r r' := by
  obtain ⟨t, t', h, hlink⟩ := h
  unfold iterate
  refine (hP.complete h hlink hgood).bind ?_
  rintro _ r₁ affine r₁' ⟨rfl, hy, hl, u, u', h₁, hheld⟩
  rw [abreast_solver_bind]
  obtain ⟨_, _, _, _, _, _, ho⟩ := h₁.options
  rw [show r₁'.solver.options.onlyPredict = r₁.solver.options.onlyPredict by rw [ho]]
  split_ifs
  · exact hP.abreast_predictorIteration h₁ (hP.link_of_held hheld) affine
  · rw [← hy, ← hl] at hheld
    exact hP.abreast_correctorIteration h₁ hheld

/-! ## The first iterate -/

omit hP in
theorem abreast_startScaledOnes (h : P.Alongside t t' k k' r r') (hlink : P.link t t') :
    Abreast startScaledOnes startScaledOnes (fun _ s _ s' => P.Agree k k' s s') P.Halted r r' := by
  have hx : Vector.constant 1 r'.solver.x = Vector.constant 1 r.solver.x :=
    Vector.constant_congr (h.size_component .x)
  have hy : Vector.constant 1 r'.solver.y = Vector.constant 1 r.solver.y :=
    Vector.constant_congr (h.size_component .y)
  have hl : Vector.constant 1 r'.solver.lam = Vector.constant 1 r.solver.lam :=
    Vector.constant_congr (h.size_component .lam)
  unfold startScaledOnes
  rw [abreast_change_bind]
  have h₁ := h.of_point ((Vector.size_constant 1 _).trans h.size_x)
    ((Vector.size_constant 1 _).trans h.size_y) ((Vector.size_constant 1 _).trans h.size_lam)
    hx hy hl
  refine (h₁.abreast_refreshResiduals hx hy hl).bind ?_
  rintro _ r₂ _ r₂' ⟨h₂, -⟩
  rw [abreast_solver_bind, h₂.onesFactor?]
  rcases onesFactor? r₂.solver with _ | factor
  · exact ⟨t, t', h₂, hlink⟩
  have hx₂ : r₂'.solver.x.map (· * factor) = r₂.solver.x.map (· * factor) := by rw [h₂.x]
  have hy₂ : r₂'.solver.y.map (· * factor) = r₂.solver.y.map (· * factor) := by rw [h₂.y]
  have hl₂ : r₂'.solver.lam.map (· * factor) = r₂.solver.lam.map (· * factor) := by rw [h₂.lam]
  dsimp only
  rw [abreast_change_bind]
  have h₃ := h₂.toAlongside.of_point (Array.size_map.trans h₂.size_x)
    (Array.size_map.trans h₂.size_y) (Array.size_map.trans h₂.size_lam) hx₂ hy₂ hl₂
  refine (h₃.abreast_refreshResiduals hx₂ hy₂ hl₂).mono ?_ fun _ _ _ _ hR => hR
  rintro _ r₄ _ r₄' ⟨h₄, -⟩
  exact ⟨t, t', h₄, hlink⟩

/-- Behind a point that agrees, slacks and their reciprocals agree. -/
theorem abreast_reciprocalFromPoint (h : P.Alongside t t' k k' r r') (hlink : P.link t t')
    (hx : r'.solver.x = r.solver.x) :
    Abreast reciprocalFromPoint reciprocalFromPoint (fun _ s _ s' => P.Agree k k' s s') P.Halted
      r r' := by
  obtain ⟨u, hu, husize, -⟩ := h.left.mulA_eq h.size_x
  have hysize : ((Vector.sub u r.solver.b).map (Scalar.atLeast 1)).size = P.data.m := by
    rw [Array.size_map, Vector.size_sub, husize,
      show r.solver.b.size = P.data.m from h.left.size_component .b, Nat.min_self]
  have hslack : (Vector.sub u r'.solver.b).map (Scalar.atLeast 1) =
      (Vector.sub u r.solver.b).map (Scalar.atLeast 1) := by rw [h.b]
  have hreciprocal : ((Vector.sub u r'.solver.b).map (Scalar.atLeast 1)).map (1 / ·) =
      ((Vector.sub u r.solver.b).map (Scalar.atLeast 1)).map (1 / ·) := by rw [h.b]
  unfold reciprocalFromPoint
  rw [abreast_solver_bind]
  refine Abreast.lift_bind (by rw [h.mulA, hx]) (fun v hv => ?_) fun e _ => hP.halted h hlink e
  obtain rfl : u = v := Except.ok.inj (hu.symm.trans hv)
  dsimp only
  rw [abreast_change_bind]
  have h₁ := h.of_point h.size_x hysize (Array.size_map.trans hysize) hx hslack hreciprocal
  refine (h₁.abreast_refreshResiduals hx hslack hreciprocal).mono ?_ fun _ _ _ _ hR => hR
  rintro _ r₂ _ r₂' ⟨h₂, -⟩
  exact ⟨t, t', h₂, hlink⟩

theorem abreast_startReciprocal (h : P.Alongside t t' k k' r r') (hlink : P.link t t') {reuse : Reuse}
    (hx : reuse.x = true → r'.solver.x = r.solver.x) :
    Abreast (startReciprocal reuse) (startReciprocal reuse) (fun _ s _ s' => P.Agree k k' s s')
      P.Halted r r' := by
  have hones : Vector.constant 1 r'.solver.x = Vector.constant 1 r.solver.x :=
    Vector.constant_congr (h.size_component .x)
  unfold startReciprocal
  split_ifs with hreuse
  · rw [abreast_change_bind]
    refine hP.abreast_reciprocalFromPoint ?_ hlink hones
    exact { h with
      left := h.left.of_point ((Vector.size_constant 1 _).trans (h.left.size_component .x))
        (h.left.size_component .y) (h.left.size_component .lam)
      right := h.right.of_point ((Vector.size_constant 1 _).trans (h.right.size_component .x))
        (h.right.size_component .y) (h.right.size_component .lam) }
  · exact hP.abreast_reciprocalFromPoint h hlink (hx (by simpa using hreuse))

/-- Behind a point and multipliers that agree, one affine step leads to the same iterate. -/
theorem abreast_affineStepFromPoint (h : P.Alongside t t' k k' r r') (hlink : P.link t t')
    (hx : r'.solver.x = r.solver.x) (hl : r'.solver.lam = r.solver.lam)
    (hgood : P.good r.solver.lam) :
    Abreast (affineStepFromPoint P.env) (affineStepFromPoint P.env')
      (fun _ s _ s' => P.Agree k k' s s') P.Halted r r' := by
  obtain ⟨u, hu, husize, -⟩ := h.left.mulA_eq h.size_x
  have hysize : (Vector.sub u r.solver.b).size = P.data.m := by
    rw [Vector.size_sub, husize,
      show r.solver.b.size = P.data.m from h.left.size_component .b, Nat.min_self]
  have hslack : Vector.sub u r'.solver.b = Vector.sub u r.solver.b := by rw [h.b]
  unfold affineStepFromPoint
  rw [abreast_solver_bind]
  refine Abreast.lift_bind (by rw [h.mulA, hx]) (fun v hv => ?_) fun e _ => hP.halted h hlink e
  obtain rfl : u = v := Except.ok.inj (hu.symm.trans hv)
  dsimp only
  rw [abreast_change_bind]
  have h₁ := h.of_point h.size_x hysize h.size_lam hx hslack hl
  refine (h₁.abreast_refreshResiduals hx hslack hl).bind ?_
  rintro _ r₂ _ r₂' ⟨h₂, -, -, hl₂⟩
  refine (hP.complete h₂ hlink (hl₂ ▸ hgood)).bind ?_
  rintro _ r₃ d r₃' ⟨rfl, -, -, u, u', h₃, hheld⟩
  have hlink₃ := hP.link_of_held hheld
  refine (h₃.abreast_assign (by decide) (by rw [h₃.y]) (fun _ hv => size_of_pushed hv)
    fun e => hP.halted h₃.toAlongside hlink₃ e).bind ?_
  rintro _ r₄ _ r₄' ⟨h₄, -⟩
  refine (h₄.abreast_assign (by decide) (by rw [h₄.lam]) (fun _ hv => size_of_pushed hv)
    fun e => hP.halted h₄.toAlongside hlink₃ e).bind ?_
  rintro _ r₅ _ r₅' ⟨h₅, -⟩
  refine (h₅.toAlongside.abreast_refreshResiduals h₅.x h₅.y h₅.lam).mono ?_ fun _ _ _ _ hR => hR
  rintro _ r₆ _ r₆' ⟨h₆, -⟩
  exact ⟨u, u', h₆, hlink₃⟩

theorem abreast_startAffineStep (h : P.Alongside t t' k k' r r') (hlink : P.link t t') {reuse : Reuse}
    (hx : reuse.x = true → r'.solver.x = r.solver.x)
    (hl : reuse.lam = true → r'.solver.lam = r.solver.lam ∧ P.good r.solver.lam) :
    Abreast (startAffineStep P.env reuse) (startAffineStep P.env' reuse)
      (fun _ s _ s' => P.Agree k k' s s') P.Halted r r' := by
  have hkept : ∀ {s : Solver K} {f : Formulation} {o : Options K}, Assembled P.data f o s →
      Assembled P.data f o (s.withOnesUnless reuse) := by
    intro s f o hs
    refine hs.of_point ?_ (hs.size_component .y) ?_
    · split_ifs
      · exact hs.size_component .x
      · exact (Vector.size_constant 1 _).trans (hs.size_component .x)
    · split_ifs
      · exact hs.size_component .lam
      · exact (Vector.size_constant 1 _).trans (hs.size_component .lam)
  unfold startAffineStep
  rw [abreast_change_bind]
  refine hP.abreast_affineStepFromPoint
    { h with left := hkept h.left, right := hkept h.right } hlink ?_ ?_ ?_
  · dsimp only [Solver.withOnesUnless]
    split_ifs with hreuse
    · exact hx hreuse
    · exact Vector.constant_congr (h.size_component .x)
  · dsimp only [Solver.withOnesUnless]
    split_ifs with hreuse
    · exact (hl hreuse).1
    · exact Vector.constant_congr (h.size_component .lam)
  · dsimp only [Solver.withOnesUnless]
    split_ifs with hreuse
    · exact (hl hreuse).2
    · exact hP.good_ones _

/-- The strategy that compares merits compares the same ones. -/
theorem abreast_startAffineStepOrPrevious (h : P.Alongside t t' k k' r r') (hlink : P.link t t')
    {reuse : Reuse} (hx : reuse.x = true → r'.solver.x = r.solver.x)
    (hl : reuse.lam = true → r'.solver.y = r.solver.y ∧ r'.solver.lam = r.solver.lam ∧
      P.good r.solver.lam) :
    Abreast (startAffineStepOrPrevious P.env reuse) (startAffineStepOrPrevious P.env' reuse)
      (fun _ s _ s' => P.Agree k k' s s') P.Halted r r' := by
  unfold startAffineStepOrPrevious
  split_ifs with hreuse
  · exact hP.abreast_startAffineStep h hlink hx fun hlam => (hl hlam).2
  have hboth : reuse.x = true ∧ reuse.lam = true := by
    simpa only [Bool.not_eq_true', Bool.not_eq_false, Bool.and_eq_true] using hreuse
  obtain ⟨hy, hlam, hgood⟩ := hl hboth.2
  rw [abreast_solver_bind]
  refine (h.abreast_refreshResiduals (hx hboth.1) hy hlam).bind ?_
  rintro _ r₁ _ r₁' ⟨h₁, -, -, hl₁⟩
  rw [abreast_solver_bind]
  refine (hP.abreast_startAffineStep h₁.toAlongside hlink (fun _ => h₁.x)
    fun _ => ⟨h₁.lam, hl₁ ▸ hgood⟩).bind ?_
  rintro _ r₂ _ r₂' ⟨u, u', h₂, hlink₂⟩
  rw [abreast_solver_bind, h₁.merit, h₂.merit]
  dsimp only
  split_ifs
  · rw [abreast_change_bind]
    have h₃ := h₂.toAlongside.of_point h.size_x h.size_y h.size_lam (hx hboth.1) hy hlam
    refine (h₃.abreast_refreshResiduals (hx hboth.1) hy hlam).bind ?_
    rintro _ r₄ _ r₄' ⟨h₄, -⟩
    rw [abreast_report]
    exact ⟨u, u', h₄.of_events _ _, hlink₂⟩
  · exact ⟨u, u', h₂, hlink₂⟩

/-- Every strategy ends in agreement where what it uses again agrees. -/
theorem abreast_startWith (h : P.Alongside t t' k k' r r') (hlink : P.link t t') (choice : StartChoice)
    {reuse : Reuse} (hx : reuse.x = true → r'.solver.x = r.solver.x)
    (hl : reuse.lam = true → r'.solver.y = r.solver.y ∧ r'.solver.lam = r.solver.lam ∧
      P.good r.solver.lam) :
    Abreast (startWith P.env choice reuse) (startWith P.env' choice reuse)
      (fun _ s _ s' => P.Agree k k' s s') P.Halted r r' := by
  unfold startWith
  split
  · exact abreast_startScaledOnes h hlink
  · exact hP.abreast_startReciprocal h hlink hx
  · exact hP.abreast_startAffineStep h hlink hx fun hreuse => (hl hreuse).2
  · exact hP.abreast_startAffineStepOrPrevious h hlink hx hl
  · exact hP.halted h hlink _

end Coupled

end Pairing

end CentralPath.InteriorPoint
