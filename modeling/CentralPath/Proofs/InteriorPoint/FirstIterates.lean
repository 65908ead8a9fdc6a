/-
  The first iterate, whatever the backend answers. A strategy ends in the interior with residuals
  that are those of the data, also where the one direction that it asks for is any vector at all
  (`startWith_consistent_interior`). It never divides by zero: the direction is asked for at
  multipliers that are ones or were used before, and slacks of any sign are no denominators
  (`Loaded.neverDividesByZero_startWith`). The strategy that may return to the iterate it was given
  ends at the better of the two (`Loaded.ends_better`).
-/
import CentralPath.Proofs.InteriorPoint.AnyDirection
import CentralPath.Proofs.InteriorPoint.Protocol

namespace CentralPath.InteriorPoint

section

open Backend (Environment Work)

variable {σ α : Type} [Elementary α]

/-- A direction from the current iterate, and slacks and multipliers that are pushed along it. -/
def pushAlongDirection (env : Environment σ α) : Run σ α Unit := do
  let d ← directions env .affine true
  Solver.assign .y fun s => pushed s.y d.dy
  Solver.assign .lam fun s => pushed s.lam d.dlam
  refreshResiduals

/-- Ones are scaled where there is a factor for them. -/
def scaleOnes : Option α → Run σ α Unit
  | none => pure ()
  | some k => do
    Work.change (·.scaled k)
    refreshResiduals

/-- The previous iterate is kept where its merit is the lower one. -/
def keepBetter (previous : Solver α) (kept fresh : α) : Run σ α Unit := do
  if kept < fresh then
    Work.change fun s => { s with x := previous.x, y := previous.y, lam := previous.lam }
    refreshResiduals
    Work.report [.previousKept kept fresh]

end

open Backend (Environment Session Work)
open Backend.Work (Ends NeverDividesByZero ends_bind ends_change ends_lift ends_report ends_solver
  fieldArithmetic neverDividesByZero_of_eq)
open Newton (Formulation)
open Newton.System (Aim Direction)
open Problem (Data)
open Sparse (Matrix)

variable {σ K : Type} [Field K] {D : Data K} {f : Formulation} {o : Options K} {s : Solver K}

variable [LinearOrder K] [ElementaryFunctions K] {r : Session (Solver K) σ K}
  {env : Environment σ K} {Q : Unit → Session (Solver K) σ K → Prop}
  {R : Fault K → Session (Solver K) σ K → Prop}

/-! ## From the slacks of the unknowns -/

/-- The solver at the unknowns and multipliers that an affine step starts from, with the slacks of
these unknowns, whatever their signs. -/
def Solver.fromSlack (D : Data K) (reuse : Reuse) (slack : Array K) (s : Solver K) : Solver K :=
  Solver.measured D { s.withOnesUnless reuse with y := slack }

theorem Loaded.withOnesUnless (h : Loaded D f o s) (reuse : Reuse) :
    Loaded D f o (s.withOnesUnless reuse) := by
  have hx := h.ready.x.trans h.n_eq
  have hl := h.ready.lam.trans h.m_eq
  refine h.of_point ?_ (h.ready.y.trans h.m_eq) ?_
  · split_ifs
    · exact hx
    · exact (Vector.size_constant 1 _).trans hx
  · split_ifs
    · exact hl
    · exact (Vector.size_constant 1 _).trans hl

section

variable (h : Loaded D f o r.solver) (reuse : Reuse) {u : Array K}
  (hu : r.solver.mulA (r.solver.withOnesUnless reuse).x = .ok u)
include h hu

theorem Loaded.withSlack :
    Loaded D f o { r.solver.withOnesUnless reuse with y := Vector.sub u r.solver.b } := by
  have h₁ := h.withOnesUnless reuse
  obtain ⟨v, hv, hvsize, -⟩ := h.mulA_eq (h₁.ready.x.trans h₁.n_eq)
  obtain rfl : u = v := Except.ok.inj (hu.symm.trans hv)
  refine h₁.of_point (h₁.ready.x.trans h₁.n_eq) ?_ (h₁.ready.lam.trans h₁.m_eq)
  rw [Vector.size_sub, hvsize, h.ready.b, h.m_eq, Nat.min_self]

/-- An affine step is a push along a direction from the slacks of the unknowns. -/
theorem Loaded.ends_startAffineStep_iff : Ends (startAffineStep env reuse) Q R r ↔
    Ends (pushAlongDirection env) Q R
      { r with solver := r.solver.fromSlack D reuse (Vector.sub u r.solver.b) } := by
  have hu' : (r.solver.withOnesUnless reuse).mulA (r.solver.withOnesUnless reuse).x = .ok u := hu
  unfold startAffineStep
  rw [ends_bind, ends_change, ends_bind, ends_solver, ends_bind, ends_lift, hu']
  dsimp only
  rw [ends_bind, ends_change, ends_bind, Loaded.ends_refreshResiduals_iff (h.withSlack reuse hu)]
  exact Iff.rfl

/-- What was measured before plays no part in it. -/
theorem Loaded.run_startAffineStep_measured (env : Environment σ K) :
    (startAffineStep env reuse).run.run { r with solver := r.solver.measured D } =
      (startAffineStep env reuse).run.run r := by
  have hends := Work.ends_run (startAffineStep env reuse) r
  rw [h.ends_startAffineStep_iff reuse hu] at hends
  have hmeasured := (Loaded.ends_startAffineStep_iff (u := u)
    (r := { r with solver := r.solver.measured D }) h.measured reuse hu).mpr hends
  unfold Ends at hmeasured
  rcases hrun : (startAffineStep env reuse).run.run { r with solver := r.solver.measured D } with
    ⟨_ | _, r'⟩
  · rw [hrun] at hmeasured
    exact hmeasured.symm
  · rw [hrun] at hmeasured
    exact hmeasured.symm

end

/-! ## Along any direction -/

/-- Whatever a backend answers, a direction keeps the problem in place. -/
theorem Loaded.ends_directions_any (h : Loaded D f o r.solver) (aim : Aim K) :
    Ends (directions env aim true)
      (fun _ r' => (∃ kkt, r'.solver = { r.solver with kkt }) ∧ Loaded D f o r'.solver)
      (fun e _ => NotOwnZero env e) r := by
  have hloaded : Ends (directions env aim true) (fun _ r' => Loaded D f o r'.solver)
      (fun _ _ => True) r := by
    show Ends (updateIterateBlocks >>= fun _ => directionFor env aim .complete) _ _ r
    refine h.ends_updateIterateBlocks.bind ?_ fun _ _ _ => trivial
    rintro _ r₁ ⟨kkt, hs₁, hkkt⟩
    refine (ends_directionFor_any aim .complete).mono (fun _ _ hs₂ => ?_) fun _ _ _ => trivial
    rw [hs₂, hs₁]
    exact h.of_kkt hkkt
  exact ((InteriorPoint.ends_directions_any aim true).and hloaded).mono (fun _ _ hQ => hQ)
    fun _ _ hR => hR.2

variable [IsStrictOrderedRing K]

omit [IsStrictOrderedRing K] in
theorem one_le_of_pushed {v d w : Array K} (h : pushed v d = .ok w) : ∀ a ∈ w, 1 ≤ a := by
  obtain ⟨u, -, h⟩ := Newton.exists_of_bind_eq_ok h
  intro a ha
  obtain ⟨b, -, rfl⟩ := Array.mem_map.mp (Vector.mem_of_fill? h a ha)
  exact one_le_atLeast _

omit [IsStrictOrderedRing K] in
theorem notByZero_pushed (v d : Array K) : NotByZero (pushed v d) :=
  (Vector.notByZero_zip? _ v d).bind fun _ => Vector.notByZero_fill? _ _

/-- A push along any direction ends in the interior. -/
theorem Loaded.ends_pushAlongDirection (h : Loaded D f o r.solver) :
    Ends (pushAlongDirection env)
      (fun _ r' => Loaded D f o r'.solver ∧ Consistent D r'.solver ∧ r'.solver.Interior ∧
        r'.solver.x = r.solver.x) (fun e _ => NotOwnZero env e) r := by
  have hpos : ∀ {v d w : Array K}, pushed v d = .ok w → ∀ a ∈ w, 0 < a := fun hw a ha =>
    one_pos.trans_le (one_le_of_pushed hw a ha)
  have hfault : ∀ {v d : Array K} {e : Fault K}, pushed v d = .error e → NotOwnZero env e :=
    notOwnZero_of_notByZero (notByZero_pushed _ _)
  unfold pushAlongDirection
  refine (h.ends_directions_any .affine).bind ?_ fun _ _ hR => hR
  rintro d r₁ ⟨⟨kkt, hs₁⟩, h₁⟩
  refine ends_assign_bind (fun y hy => ?_) fun e he => hfault he
  refine ends_assign_bind (fun lam hl => ?_) fun e he => hfault he
  have h₂ : Loaded D f o { r₁.solver with y, lam } :=
    h₁.of_point (h₁.ready.x.trans h₁.n_eq)
      ((size_of_pushed hy).trans (h₁.ready.y.trans h₁.m_eq))
      ((size_of_pushed hl).trans (h₁.ready.lam.trans h₁.m_eq))
  rw [Loaded.ends_refreshResiduals_iff h₂]
  refine ⟨h₂.measured, consistent_measured D _, ⟨hpos hy, hpos hl⟩, ?_⟩
  show r₁.solver.x = r.solver.x
  rw [hs₁]

/-- So does an affine step. -/
theorem Loaded.ends_startAffineStep_any (h : Loaded D f o r.solver) (reuse : Reuse) :
    Ends (startAffineStep env reuse)
      (fun _ r' => Loaded D f o r'.solver ∧ Consistent D r'.solver ∧ r'.solver.Interior ∧
        r'.solver.x = (r.solver.withOnesUnless reuse).x) (fun e _ => NotOwnZero env e) r := by
  have h₁ := h.withOnesUnless reuse
  obtain ⟨u, hu, -⟩ := h.mulA_eq (h₁.ready.x.trans h₁.n_eq)
  rw [h.ends_startAffineStep_iff reuse hu]
  exact Loaded.ends_pushAlongDirection (h.withSlack reuse hu).measured

/-! ## The better of two -/

/-- The solver is at the better of two iterates, the previous one and another. -/
structure Solver.Better (D : Data K) (s s₂ s' : Solver K) : Prop where
  point : (s'.x = s.x ∧ s'.y = s.y ∧ s'.lam = s.lam) ∨
    (s'.x = s₂.x ∧ s'.y = s₂.y ∧ s'.lam = s₂.lam)
  merit : s'.merit = min (s.measured D).merit s₂.merit

theorem Loaded.ends_better (h : Loaded D f o r.solver) :
    Ends (startAffineStepOrPrevious env ⟨true, true⟩)
      (fun _ r' => Consistent D r'.solver ∧ ∃ r₂ : Session (Solver K) σ K,
        (startAffineStep env ⟨true, true⟩).run.run r = (.ok (), r₂) ∧ r₂.solver.Interior ∧
          r₂.solver.x = r.solver.x ∧ r.solver.Better D r₂.solver r'.solver)
      (fun e _ => NotOwnZero env e) r := by
  obtain ⟨u, hu, -⟩ := h.mulA_eq (h.ready.x.trans h.n_eq)
  unfold startAffineStepOrPrevious
  rw [Bool.and_self, Bool.not_true, if_neg Bool.false_ne_true]
  rw [ends_bind, ends_solver, ends_bind, h.ends_refreshResiduals_iff, ends_bind, ends_solver]
  dsimp only
  refine ((Loaded.ends_startAffineStep_any (r := { r with solver := r.solver.measured D })
    h.measured ⟨true, true⟩).with_run).bind ?_ fun _ _ hR => hR.2
  rintro _ r₂ ⟨hrun, h₂, hc₂, hI₂, hx₂⟩
  rw [h.run_startAffineStep_measured ⟨true, true⟩ hu] at hrun
  rw [ends_bind, ends_solver]
  split_ifs with hbetter
  · have h₃ : Loaded D f o { r₂.solver with
        x := r.solver.x, y := r.solver.y, lam := r.solver.lam } :=
      h₂.of_point (h.ready.x.trans h.n_eq) (h.ready.y.trans h.m_eq) (h.ready.lam.trans h.m_eq)
    have hmerit : (Solver.measured D { r₂.solver with
        x := r.solver.x, y := r.solver.y, lam := r.solver.lam }).merit =
        (r.solver.measured D).merit := by
      have hm : r₂.solver.m = r.solver.m := h₂.m_eq.trans h.m_eq.symm
      have hn : r₂.solver.n = r.solver.n := h₂.n_eq.trans h.n_eq.symm
      unfold Solver.merit Solver.measures Solver.measured
      dsimp only
      rw [hm, hn]
    rw [ends_bind, ends_change, ends_bind, Loaded.ends_refreshResiduals_iff h₃, ends_report]
    exact ⟨consistent_measured D _, r₂, hrun, hI₂, hx₂, .inl ⟨rfl, rfl, rfl⟩,
      hmerit.trans (min_eq_left hbetter.le).symm⟩
  · exact ⟨hc₂, r₂, hrun, hI₂, hx₂, .inr ⟨rfl, rfl, rfl⟩, (min_eq_right (not_lt.mp hbetter)).symm⟩

/-! ## No division by zero -/

section

variable {quotient : K → K → K} (hq : IsQuotient quotient)
include hq

theorem updateResiduals_withQuotient (hm : s.m ≠ 0) :
    @Solver.updateResiduals K ((fieldArithmetic K).withQuotient quotient) s =
      s.updateResiduals :=
  congrArg (fun mu : K => (do
    let rp := Vector.add (Vector.sub (Vector.sub (← s.mulA s.x) s.y) s.b) (← s.mulE s.lam)
    let rd := Vector.add (Vector.add (← s.mulG s.x) (← s.mulNegAT s.lam)) s.c
    pure { s with rp, rd, mu } : Except (Fault K) (Solver K)))
    (dualityMeasure_withQuotient hq hm)

theorem normOver_withQuotient (v : Array K) (dim : Int) :
    @Vector.normOver K ((fieldArithmetic K).withQuotient quotient) v dim =
      Vector.normOver v dim := by
  by_cases hdim : dim = 0
  · exact (if_pos hdim).trans (if_pos hdim).symm
  have hne : (Vector.dimension dim : K) ≠ 0 := by
    unfold Vector.dimension
    split_ifs
    · exact Nat.cast_ne_zero.mpr (by omega)
    · exact neg_ne_zero.mpr (Nat.cast_ne_zero.mpr (by omega))
  exact (if_neg hdim).trans ((hq _ _ hne).trans (if_neg hdim).symm)

theorem merit_withQuotient (s : Solver K) :
    @Solver.merit K ((fieldArithmetic K).withQuotient quotient) s = s.merit :=
  congrArg₂ (fun p d : K => p * (s.m : K) + d * (s.n : K) + s.mu * (s.m : K))
    (normOver_withQuotient hq s.rp s.m) (normOver_withQuotient hq s.rd s.n)

theorem onesFactor?_withQuotient (hgap : Vector.dot s.y s.lam ≠ 0) :
    @onesFactor? K ((fieldArithmetic K).withQuotient quotient) s = onesFactor? s := by
  have htenth : @Scalar.ratio K ((fieldArithmetic K).withQuotient quotient).toScalar 1 10 =
      Scalar.ratio 1 10 := hq _ _ (Nat.cast_ne_zero.mpr (by decide))
  have hne : Vector.dot s.y s.lam * Scalar.ratio 1 10 ≠ 0 :=
    mul_ne_zero hgap (div_ne_zero (Nat.cast_ne_zero.mpr (by decide))
      (Nat.cast_ne_zero.mpr (by decide)))
  unfold onesFactor?
  rw [htenth]
  exact congrArg₂ (fun share factor : K => if Scalar.ratio 1 10 < share then some factor else none)
    (hq _ _ hgap) (hq _ _ hne)

end

theorem neverDividesByZero_refreshResiduals (hm : r.solver.m ≠ 0) :
    NeverDividesByZero (fun E => (@refreshResiduals σ K E : Run σ K Unit)) r := by
  refine NeverDividesByZero.solver_bind ?_
  refine NeverDividesByZero.lift_bind
    (fun quotient hq => updateResiduals_withQuotient hq hm) fun s _ => ?_
  exact neverDividesByZero_of_eq fun _ _ => rfl

section

variable (h : Loaded D f o r.solver) (hm : 0 < D.m)
include h hm

theorem Loaded.neverDividesByZero_startScaledOnes :
    NeverDividesByZero (fun E => (@startScaledOnes σ K E : Run σ K Unit)) r := by
  have h₁ : Loaded D f o r.solver.withOnes :=
    h.of_point ((Vector.size_constant 1 _).trans (h.ready.x.trans h.n_eq))
      ((Vector.size_constant 1 _).trans (h.ready.y.trans h.m_eq))
      ((Vector.size_constant 1 _).trans (h.ready.lam.trans h.m_eq))
  have hne : r.solver.withOnes.m ≠ 0 := h₁.m_eq.symm ▸ hm.ne'
  have hne' : (r.solver.withOnes.measured D).m ≠ 0 := hne
  have hgap : Vector.dot (r.solver.withOnes.measured D).y (r.solver.withOnes.measured D).lam ≠ 0 :=
    (Solver.Interior.dot_pos ⟨pos_constant_one r.solver.y, pos_constant_one r.solver.lam⟩
      (h₁.ready.y.trans h₁.m_eq) (h₁.ready.lam.trans h₁.m_eq) hm).ne'
  refine NeverDividesByZero.change_bind (fun _ _ => rfl) ?_
  refine (neverDividesByZero_refreshResiduals
    (r := { r with solver := r.solver.withOnes }) hne).bind ?_
  rw [Loaded.ends_refreshResiduals_iff h₁]
  refine NeverDividesByZero.solver_bind ?_
  generalize r.solver.withOnes.measured D = ones at hgap hne' ⊢
  refine NeverDividesByZero.value (v := fun E => @onesFactor? K E ones)
    (f := fun E factor => @scaleOnes σ K E factor)
    (fun quotient hq => onesFactor?_withQuotient hq hgap) ?_
  rcases onesFactor? ones with _ | k
  · exact neverDividesByZero_of_eq fun _ _ => rfl
  · refine NeverDividesByZero.change_bind (fun _ _ => rfl) ?_
    exact neverDividesByZero_refreshResiduals hne'

theorem Loaded.neverDividesByZero_startReciprocal (reuse : Reuse) :
    NeverDividesByZero (fun E => (@startReciprocal σ K E reuse : Run σ K Unit)) r := by
  have hne : r.solver.m ≠ 0 := h.m_eq.symm ▸ hm.ne'
  have hreciprocals : ∀ (quotient : K → K → K), IsQuotient quotient → ∀ v : Array K,
      (v.map (Scalar.atLeast 1)).map (quotient 1 ·) = (v.map (Scalar.atLeast 1)).map (1 / ·) := by
    intro quotient hq v
    refine Array.map_congr_left fun a ha => hq _ _ ?_
    obtain ⟨b, -, rfl⟩ := Array.mem_map.mp ha
    exact (one_pos.trans_le (one_le_atLeast b)).ne'
  have hfrom : ∀ r₁ : Session (Solver K) σ K, r₁.solver.m ≠ 0 →
      NeverDividesByZero (fun E => (@reciprocalFromPoint σ K E : Run σ K Unit)) r₁ := by
    intro r₁ hm₁
    refine NeverDividesByZero.solver_bind ?_
    refine NeverDividesByZero.lift_bind
      (v := fun E => @Solver.mulA K E r₁.solver r₁.solver.x) (fun _ _ => rfl) fun u _ => ?_
    refine NeverDividesByZero.change_bind (fun quotient hq => ?_) ?_
    · exact congrArg (fun lam => { r₁.solver with
        y := (Vector.sub u r₁.solver.b).map (Scalar.atLeast 1), lam }) (hreciprocals quotient hq _)
    · exact neverDividesByZero_refreshResiduals hm₁
  unfold startReciprocal
  by_cases hreuse : (!reuse.x) = true
  · simp only [if_pos hreuse]
    refine NeverDividesByZero.change_bind (fun _ _ => rfl) ?_
    exact hfrom _ hne
  · simp only [if_neg hreuse]
    exact hfrom r hne

end

/-- No slack is looked at: where a direction is asked for, only multipliers are denominators. -/
theorem neverDividesByZero_pushAlongDirection (env : Environment σ K) (hm : r.solver.m ≠ 0)
    (hlam : ∀ a ∈ r.solver.lam, a ≠ 0) :
    NeverDividesByZero (fun E => @pushAlongDirection σ K E env) r := by
  refine (neverDividesByZero_directions (fun E => @Aim.affine K E.toScalar)
    (fun _ _ => rfl) hlam env true).bind ?_
  refine (unmoved_directions env .affine true r).mono (fun d r₁ h₁ => ?_) fun _ _ _ => trivial
  obtain ⟨_, _, _, hs₁⟩ := h₁
  refine (neverDividesByZero_of_eq fun _ _ => rfl).bind ?_
  rw [ends_assign]
  split
  · refine (neverDividesByZero_of_eq fun _ _ => rfl).bind ?_
    rw [ends_assign]
    split
    · refine neverDividesByZero_refreshResiduals ?_
      show r₁.solver.m ≠ 0
      rwa [hs₁]
    · trivial
  · trivial

section

variable (env : Environment σ K) (h : Loaded D f o r.solver) (hm : 0 < D.m)
include h hm

theorem Loaded.neverDividesByZero_affineStepFromPoint (hlam : ∀ a ∈ r.solver.lam, a ≠ 0) :
    NeverDividesByZero (fun E => @affineStepFromPoint σ K E env) r := by
  have hne : r.solver.m ≠ 0 := h.m_eq.symm ▸ hm.ne'
  refine NeverDividesByZero.solver_bind ?_
  refine NeverDividesByZero.lift_bind (v := fun E => @Solver.mulA K E r.solver r.solver.x)
    (fun _ _ => rfl) fun u hu => ?_
  refine NeverDividesByZero.change_bind (fun _ _ => rfl) ?_
  refine (neverDividesByZero_refreshResiduals
    (r := { r with solver := { r.solver with y := Vector.sub u r.solver.b } }) hne).bind
    (f := fun E _ => @pushAlongDirection σ K E env) ?_
  have h₁ : Loaded D f o { r.solver with y := Vector.sub u r.solver.b } :=
    h.withSlack ⟨true, true⟩ hu
  rw [Loaded.ends_refreshResiduals_iff h₁]
  exact neverDividesByZero_pushAlongDirection env hne hlam

theorem Loaded.neverDividesByZero_startAffineStep (reuse : Reuse)
    (hlam : ∀ a ∈ (r.solver.withOnesUnless reuse).lam, a ≠ 0) :
    NeverDividesByZero (fun E => @startAffineStep σ K E env reuse) r := by
  refine NeverDividesByZero.change_bind (g := fun E s => @Solver.withOnesUnless K E s reuse)
    (fun _ _ => rfl) ?_
  exact Loaded.neverDividesByZero_affineStepFromPoint env
    (r := { r with solver := r.solver.withOnesUnless reuse }) (h.withOnesUnless reuse) hm hlam

theorem Loaded.neverDividesByZero_startAffineStepOrPrevious (reuse : Reuse)
    (hlam : ∀ a ∈ (r.solver.withOnesUnless reuse).lam, a ≠ 0) :
    NeverDividesByZero (fun E => @startAffineStepOrPrevious σ K E env reuse) r := by
  have hne : r.solver.m ≠ 0 := h.m_eq.symm ▸ hm.ne'
  unfold startAffineStepOrPrevious
  by_cases hreuse : (!(reuse.x && reuse.lam)) = true
  · simp only [if_pos hreuse]
    exact h.neverDividesByZero_startAffineStep env hm reuse hlam
  obtain rfl : reuse = ⟨true, true⟩ := by
    rcases reuse with ⟨_ | _, _ | _⟩ <;> simp_all
  simp only [if_neg hreuse]
  refine NeverDividesByZero.solver_bind ?_
  refine (neverDividesByZero_refreshResiduals hne).bind ?_
  rw [h.ends_refreshResiduals_iff]
  refine NeverDividesByZero.solver_bind ?_
  refine NeverDividesByZero.value (v := fun E => @Solver.merit K E (r.solver.measured D))
    (f := fun E kept => do
      @startAffineStep σ K E env ⟨true, true⟩
      @keepBetter σ K E r.solver kept (@Solver.merit K E (← Work.solver)))
    (fun quotient hq => merit_withQuotient hq _) ?_
  refine (Loaded.neverDividesByZero_startAffineStep env
    (r := { r with solver := r.solver.measured D }) h.measured hm ⟨true, true⟩ hlam).bind ?_
  generalize (r.solver.measured D).merit = kept
  refine (Loaded.ends_startAffineStep_any (r := { r with solver := r.solver.measured D })
    h.measured ⟨true, true⟩).mono ?_ fun _ _ _ => trivial
  rintro _ r₂ ⟨h₂, -⟩
  refine NeverDividesByZero.solver_bind ?_
  refine NeverDividesByZero.value (v := fun E => @Solver.merit K E r₂.solver)
    (f := fun E fresh => @keepBetter σ K E r.solver kept fresh)
    (fun quotient hq => merit_withQuotient hq _) ?_
  refine NeverDividesByZero.ite_lt (fun _ => ?_) fun _ => neverDividesByZero_of_eq fun _ _ => rfl
  refine NeverDividesByZero.change_bind (fun _ _ => rfl) ?_
  refine (neverDividesByZero_refreshResiduals ?_).seq fun _ r₃ => ?_
  · exact h₂.m_eq.symm ▸ hm.ne'
  · exact neverDividesByZero_of_eq fun _ _ => rfl

end

theorem Loaded.neverDividesByZero_startWith (h : Loaded D f o r.solver) (hm : 0 < D.m)
    (env : Environment σ K) (choice : StartingPoint) (reuse : Reuse)
    (hlam : ∀ a ∈ (r.solver.withOnesUnless reuse).lam, a ≠ 0) :
    NeverDividesByZero (fun E => @startWith σ K E env (.strategy choice) reuse) r := by
  cases choice with
  | scaledOnes => exact h.neverDividesByZero_startScaledOnes hm
  | reciprocal => exact h.neverDividesByZero_startReciprocal hm reuse
  | affineStep => exact h.neverDividesByZero_startAffineStep env hm reuse hlam
  | affineStepOrPrevious =>
    exact h.neverDividesByZero_startAffineStepOrPrevious env hm reuse hlam

/-! ## Every strategy -/

/-- Where a strategy leaves the unknowns: as they were where they are used again, and at ones
otherwise, which one strategy scales along with slacks and multipliers. -/
def Solver.StartsFrom (D : Data K) (s : Solver K) (reuse : Reuse) (s' : Solver K) :
    StartingPoint → Prop
  | .scaledOnes => ∃ k, (k = 1 ∨ onesFactor? (s.withOnes.measured D) = some k) ∧
      s'.x = Vector.constant k s.x ∧ s'.y = Vector.constant k s.y ∧ s'.lam = Vector.constant k s.lam
  | _ => s'.x = if reuse.x then s.x else Vector.constant 1 s.x

/-- Every strategy leaves an iterate in the interior with residuals that are those of the data,
whatever direction it is given. -/
theorem startWith_consistent_interior (env : Environment σ K) (r : Session (Solver K) σ K)
    (h : Loaded D f o r.solver) (hm : 0 < D.m) (choice : StartingPoint) (reuse : Reuse)
    (hlam : reuse.lam = true → ∀ a ∈ r.solver.lam, 0 < a)
    (hy : reuse = ⟨true, true⟩ → ∀ a ∈ r.solver.y, 0 < a) :
    NeverDividesByZero (fun E => @startWith σ K E env (.strategy choice) reuse) r ∧
    Ends (startWith env (.strategy choice) reuse)
      (fun _ r' => r'.solver.Interior ∧ Consistent D r'.solver ∧
        r.solver.StartsFrom D reuse r'.solver choice ∧
        (choice = .affineStepOrPrevious → reuse = ⟨true, true⟩ →
          ∃ r₂ : Session (Solver K) σ K,
            (startWith env (.strategy .affineStep) reuse).run.run r = (.ok (), r₂) ∧
              r.solver.Better D r₂.solver r'.solver))
      (fun e _ => NotOwnZero env e) r ∧
    (Assembled D f o r.solver → env.backend.Obliging →
      Ends (startWith env (.strategy choice) reuse) (fun _ _ => True) (fun _ _ => False) r) := by
  have hlam₁ : ∀ a ∈ (r.solver.withOnesUnless reuse).lam, 0 < a := by
    unfold Solver.withOnesUnless
    dsimp only
    split_ifs with hreuse
    · exact hlam hreuse
    · exact pos_constant_one r.solver.lam
  have hne : ∀ a ∈ (r.solver.withOnesUnless reuse).lam, a ≠ 0 := fun a ha => (hlam₁ a ha).ne'
  refine ⟨h.neverDividesByZero_startWith hm env choice reuse hne, ?_, ?_⟩
  · cases choice with
    | scaledOnes =>
      refine (h.ends_startScaledOnes hm).mono ?_ fun _ _ hR => hR
      rintro _ r' ⟨-, -, hc, hI, hpoint⟩
      exact ⟨hI, hc, hpoint, nofun⟩
    | reciprocal =>
      refine (h.ends_startReciprocal reuse).mono ?_ fun _ _ hR => hR
      rintro _ r' ⟨-, -, hc, hI, hx⟩
      exact ⟨hI, hc, hx, nofun⟩
    | affineStep =>
      refine (h.ends_startAffineStep_any reuse).mono ?_ fun _ _ hR => hR
      rintro _ r' ⟨-, hc, hI, hx⟩
      exact ⟨hI, hc, hx, nofun⟩
    | affineStepOrPrevious =>
      by_cases hreuse : reuse = ⟨true, true⟩
      · subst hreuse
        refine h.ends_better.mono ?_ fun _ _ hR => hR
        rintro _ r' ⟨hc, r₂, hrun, hI₂, hx₂, hbetter⟩
        obtain ⟨hx, hy', hl'⟩ | ⟨hx, hy', hl'⟩ := hbetter.point
        · refine ⟨⟨?_, ?_⟩, hc, hx, fun _ _ => ⟨r₂, hrun, hbetter⟩⟩
          · rw [hy']
            exact hy rfl
          · rw [hl']
            exact hlam rfl
        · refine ⟨⟨?_, ?_⟩, hc, hx.trans hx₂, fun _ _ => ⟨r₂, hrun, hbetter⟩⟩
          · rw [hy']
            exact hI₂.slack
          · rw [hl']
            exact hI₂.multipliers
      · have hsome : (!(reuse.x && reuse.lam)) = true := by
          rcases reuse with ⟨_ | _, _ | _⟩ <;> simp_all
        show Ends (startAffineStepOrPrevious env reuse) _ _ r
        unfold startAffineStepOrPrevious
        rw [if_pos hsome]
        refine (h.ends_startAffineStep_any reuse).mono ?_ fun _ _ hR => hR
        rintro _ r' ⟨-, hc, hI, hx⟩
        exact ⟨hI, hc, hx, fun _ hboth => absurd hboth hreuse⟩
  · intro hassembled hb
    refine (h.ends_startWith_of_directions hm (.strategy choice) reuse (P := fun _ => True) ?_
      nofun).mono (fun _ _ _ => trivial) fun _ _ hR => hR
    intro _ r₁ _ hslacks h₁
    have hne₁ : ∀ a ∈ r₁.solver.lam, a ≠ 0 := by rwa [hslacks.lam]
    refine ((hassembled.of_moved hslacks.moved h₁).ends_directions_of_obliging hb hne₁).mono ?_
      fun _ _ hR => hR
    rintro d r₂ ⟨hd, h₂, -⟩
    exact ⟨hd.dy, hd.dlam, h₂.toLoaded, trivial⟩

/-- From its first iterate the solver with ones for an answer is brought to the better of two. -/
theorem startWith_consistent_interior_onesOnly : ∃ (p : Problem ℚ)
    (r r₂ r' : Session (Solver ℚ) _ ℚ), (halfLine 2 (-2) 0).Makes p ∧
      (prepare onesOnly p).run.run onesStart = (.ok (), r) ∧
      (startWith onesOnly (.strategy .affineStepOrPrevious) ⟨true, true⟩).run.run r =
        (.ok (), r') ∧
      (startWith onesOnly (.strategy .affineStep) ⟨true, true⟩).run.run r = (.ok (), r₂) ∧
      r'.solver.Interior ∧
      r.solver.Better (Options.standard.data (halfLine 2 (-2) 0)) r₂.solver r'.solver := by
  obtain ⟨p, r, hmakes, hprepared, ⟨f, hassembled⟩, hpoised⟩ := exists_prepared_onesOnly
  obtain ⟨-, hends, hreturns⟩ := startWith_consistent_interior onesOnly r hassembled.toLoaded
    (hassembled.m_eq ▸ hpoised.m_pos) .affineStepOrPrevious ⟨true, true⟩
    (fun _ => hpoised.multipliers) fun _ => hpoised.slack
  have hreturns := hreturns hassembled obliging_onesOnly
  unfold Ends at hends hreturns
  rcases hstart : (startWith onesOnly (.strategy .affineStepOrPrevious) ⟨true, true⟩).run.run r
    with ⟨_ | _, r'⟩
  · rw [hstart] at hreturns
    exact hreturns.elim
  · rw [hstart] at hends
    obtain ⟨hI, -, -, hbetter⟩ := hends
    obtain ⟨r₂, hrun, hbetter⟩ := hbetter rfl rfl
    exact ⟨p, r, r₂, r', hmakes, hprepared, hstart, hrun, hI, hbetter⟩

end CentralPath.InteriorPoint
