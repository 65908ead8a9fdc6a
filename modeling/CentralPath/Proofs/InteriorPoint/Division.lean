/-
  No iteration divides by zero. Quotients of slacks by multipliers are where it could, so as long as
  no multiplier is zero a direction is found without (`neverDividesByZero_directions`). The ratio test
  divides by negative components only, and what is divided by the number of constraints or by the
  duality measure is guarded.
-/
import CentralPath.Proofs.Backend.Division
import CentralPath.Proofs.InteriorPoint.Answers
import CentralPath.Proofs.InteriorPoint.Framed

namespace CentralPath

open Backend (Environment Job Session Work)
open Backend.Work (Ends NeverDividesByZero ends_bind ends_solver fieldArithmetic
  neverDividesByZero_of_eq)
open Newton (System)
open Newton.System (Aim Direction)
open Sparse (Assembly Matrix Write)

variable {K : Type} [Field K] [LinearOrder K] [ElementaryFunctions K] {quotient : K → K → K}

/-! ## Vectors -/

omit [ElementaryFunctions K] in
/-- Componentwise operations that agree on the components of the second operand agree. -/
theorem Vector.zip?_congr {g h : K → K → K} {u v : Array K} (hv : ∀ a, ∀ b ∈ v, g a b = h a b) :
    Vector.zip? g u v = Vector.zip? h u v := by
  unfold Vector.zip?
  split_ifs with hsize hone hone'
  · congr 1
    refine Array.ext (by simp) fun i hi _ => ?_
    rw [Array.getElem_zipWith, Array.getElem_zipWith]
    exact hv _ _ (Array.getElem_mem _)
  · exact congrArg _ (Array.map_congr_left fun b hb => hv _ b hb)
  · have hmem : v[0]?.getD 0 ∈ v := by
      rw [Array.getElem?_eq_getElem (by omega), Option.getD_some]
      exact Array.getElem_mem _
    simp only [hv _ _ hmem]
  · rfl

namespace Sparse.Matrix

/-- Writing divides nothing. -/
theorem writeAll_withQuotient (m : Matrix K) (writes : List (Write K)) :
    @writeAll K ((fieldArithmetic K).withQuotient quotient).toScalar m writes = m.writeAll writes := by
  have hset : @set K ((fieldArithmetic K).withQuotient quotient).toScalar = @set K _ := rfl
  induction writes generalizing m with
  | nil => rfl
  | cons w ws ih =>
    unfold writeAll
    rw [hset]
    rcases m.set w.row w.col w.value w.overwrite with ⟨_ | e, next⟩
    · exact ih next
    · rfl

theorem assemble_withQuotient (quotient : K → K → K) (m : Matrix K) (a : Assembly K) :
    @assemble K ((fieldArithmetic K).withQuotient quotient).toScalar m a = m.assemble a :=
  congrArg (fun p : Option (Fault K) × Matrix K => (p.1.or a.stop, p.2))
    (writeAll_withQuotient m a.writes)

end Sparse.Matrix

namespace Newton.System

omit [ElementaryFunctions K] in
/-- The right-hand side of the augmented formulation, by a quotient. -/
def augmentedSide (divide : K → K → K) (rp rd y lam : Array K) (aim : Aim K) :
    Except (Fault K) (Array K) := do
  let base ← Vector.zip? (· - ·) (Vector.neg rp) y
  let centred ←
    if aim.sigmaMu == 0 then pure base
    else Vector.zip? (· + ·) base (lam.map (divide aim.sigmaMu ·))
  let tail ← match ← aim.secondOrder? with
    | some product => do Vector.zip? (· - ·) centred (← Vector.zip? divide product lam)
    | none => pure centred
  pure (Vector.neg rd ++ tail)

variable {y lam : Array K} (s : System) (hq : IsQuotient quotient) (hlam : ∀ a ∈ lam, a ≠ 0)
include hq hlam

theorem iterateAssembly_withQuotient (diagE : Array K) :
    @iterateAssembly K ((fieldArithmetic K).withQuotient quotient).toScalar s y lam diagE =
      s.iterateAssembly y lam diagE := by
  have hratios : @slackRatios K ((fieldArithmetic K).withQuotient quotient).toScalar y lam diagE =
      slackRatios y lam diagE := by
    have hzip : Vector.zip? quotient y lam = Vector.zip? (· / ·) y lam :=
      Vector.zip?_congr fun a b hb => hq a b (hlam b hb)
    exact congrArg (· >>= fun v => Vector.zip? (· + ·) v diagE) hzip
  rcases s with ⟨_ | _, n, m⟩
  · rfl
  · unfold iterateAssembly
    dsimp only
    rw [hratios]
    rfl

theorem rightHandSide_withQuotient (rp rd : Array K) (aim : Aim K) :
    @rightHandSide K ((fieldArithmetic K).withQuotient quotient).toScalar s rp rd y lam aim =
      s.rightHandSide rp rd y lam aim := by
  have hcentre : lam.map (quotient aim.sigmaMu ·) = lam.map (aim.sigmaMu / ·) :=
    Array.map_congr_left fun b hb => hq _ b (hlam b hb)
  have hproduct : ∀ product : Array K,
      Vector.zip? quotient product lam = Vector.zip? (· / ·) product lam :=
    fun product => Vector.zip?_congr fun a b hb => hq a b (hlam b hb)
  rcases s with ⟨_ | _, n, m⟩
  · rfl
  · have hside : augmentedSide quotient rp rd y lam aim = augmentedSide (· / ·) rp rd y lam aim := by
      simp only [augmentedSide, hcentre, hproduct]
    exact hside

end Newton.System

namespace InteriorPoint

variable {σ : Type} {r : Session (Solver K) σ K} {env : Environment σ K} {d : Direction K}

/-! ## The steps of an iteration -/

section

variable (hq : IsQuotient quotient)
include hq

/-- The ratio test divides by negative components only. -/
theorem stepLengths_withQuotient :
    @stepLengths K ((fieldArithmetic K).withQuotient quotient).toScalar = @stepLengths K _ := by
  have hratios : ∀ (eta : K) (v u : List K),
      @ratios K ((fieldArithmetic K).withQuotient quotient).toScalar eta v u = ratios eta v u := by
    intro eta v u
    refine List.map_congr_left fun p hp => ?_
    have hneg : p.2 < 0 := of_decide_eq_true (List.mem_filter.mp hp).2
    exact hq _ _ hneg.ne
  have hlength : @stepLength K ((fieldArithmetic K).withQuotient quotient).toScalar =
      @stepLength K _ := by
    funext v u eta
    unfold stepLength
    rw [hratios]
    rfl
  have hlength? : @stepLength? K ((fieldArithmetic K).withQuotient quotient).toScalar =
      @stepLength? K _ := by
    funext v u eta
    unfold stepLength?
    rw [hlength]
  funext equal y lam dy dlam eta
  unfold stepLengths
  rw [hlength?]

theorem stepFraction_withQuotient [IsStrictOrderedRing K] (s : Solver K) :
    @stepFraction K ((fieldArithmetic K).withQuotient quotient) s = stepFraction s := by
  have hratio : ∀ num den : Nat, den ≠ 0 →
      @Scalar.ratio K ((fieldArithmetic K).withQuotient quotient).toScalar num den =
        Scalar.ratio num den := fun num den hden => hq _ _ (Nat.cast_ne_zero.mpr hden)
  unfold stepFraction
  rw [hratio 9 10 (by decide), hratio 1 10 (by decide), hratio 19 20 (by decide)]
  rfl

theorem stepLengths_solver_withQuotient (s : Solver K) (eta : K) :
    @Solver.stepLengths K ((fieldArithmetic K).withQuotient quotient) s d eta =
      s.stepLengths d eta := by
  unfold Solver.stepLengths
  rw [stepLengths_withQuotient hq]

theorem dualityMeasure_withQuotient [IsStrictOrderedRing K] {s : Solver K} (hm : s.m ≠ 0) :
    @Solver.dualityMeasure K ((fieldArithmetic K).withQuotient quotient) s = s.dualityMeasure :=
  hq _ _ (Nat.cast_ne_zero.mpr hm)

theorem cubedQuotient_withQuotient (a b : K) :
    @cubedQuotient K ((fieldArithmetic K).withQuotient quotient) a b = cubedQuotient a b := by
  by_cases hb : b = 0
  · have hzero : (b == 0) = true := Scalar.beq_iff.mpr hb
    exact (if_pos hzero).trans (if_pos hzero).symm
  · exact congrArg (fun q : K => (if b == 0 then .error .divisionByZero
      else if Scalar.isFinite q && !Scalar.isFinite (q * q * q) && !Scalar.isNan (q * q * q) then
        .error .overflow
      else .ok (q * q * q) : Except (Fault K) K)) (hq a b hb)

end

variable [IsStrictOrderedRing K]

theorem neverDividesByZero_takeStep (alphaP alphaD : K) (r : Session (Solver K) σ K) :
    NeverDividesByZero (fun E => @takeStep σ K E d alphaP alphaD) r := by
  refine NeverDividesByZero.seq (w := fun E => @advance σ K E d alphaP alphaD)
    (neverDividesByZero_of_eq fun _ _ => rfl) fun _ r₁ => ?_
  refine NeverDividesByZero.seq (w := fun E => @shrinkPrimal σ K E d alphaP alphaD)
    (neverDividesByZero_of_eq fun _ _ => rfl) fun _ r₂ => ?_
  refine NeverDividesByZero.seq (w := fun E => @shrinkDual σ K E d alphaP alphaD)
    (neverDividesByZero_of_eq fun _ _ => rfl) fun _ r₃ => ?_
  refine NeverDividesByZero.solver_bind ?_
  by_cases hm : r₃.solver.m = 0
  · simp only [if_pos hm]
    exact neverDividesByZero_of_eq fun _ _ => rfl
  · simp only [if_neg hm]
    intro quotient hq
    exact congrArg (fun mu => (Except.ok (), { r₃ with solver := { r₃.solver with mu } }))
      (dualityMeasure_withQuotient hq hm)

theorem neverDividesByZero_measurePredictor (r : Session (Solver K) σ K) :
    NeverDividesByZero (fun E => (@measurePredictor σ K E d : Run σ K K)) r := by
  refine NeverDividesByZero.solver_bind ?_
  refine NeverDividesByZero.lift_bind
    (v := fun E => @Solver.stepLengths K E r.solver d E.toScalar.toOne.one)
    (fun quotient hq => stepLengths_solver_withQuotient hq r.solver 1) fun lengths _ => ?_
  refine NeverDividesByZero.seq (neverDividesByZero_of_eq fun _ _ => rfl) fun _ r₁ => ?_
  refine NeverDividesByZero.seq (neverDividesByZero_of_eq fun _ _ => rfl) fun _ r₂ => ?_
  refine NeverDividesByZero.solver_bind ?_
  by_cases hm : r₂.solver.m = 0
  · simp only [if_pos hm]
    exact neverDividesByZero_of_eq fun _ _ => rfl
  · simp only [if_neg hm]
    refine neverDividesByZero_of_eq fun quotient hq => congrArg Work.lift ?_
    refine (cubedQuotient_withQuotient hq _ _).trans ?_
    exact congrArg (cubedQuotient · r₂.solver.mu) (hq _ _ (Nat.cast_ne_zero.mpr hm))

theorem neverDividesByZero_predictorIteration (r : Session (Solver K) σ K) :
    NeverDividesByZero (fun E => (@predictorIteration σ K E d : Run σ K Unit)) r := by
  refine NeverDividesByZero.solver_bind ?_
  refine NeverDividesByZero.lift_bind
    (v := fun E => @Solver.stepLengths K E r.solver d (@stepFraction K E r.solver))
    (fun quotient hq => ?_) fun lengths _ => ?_
  · rw [stepFraction_withQuotient hq, stepLengths_solver_withQuotient hq]
  · refine (neverDividesByZero_takeStep _ _ r).seq fun _ r₁ => ?_
    exact neverDividesByZero_of_eq fun _ _ => rfl

omit [IsStrictOrderedRing K] in
theorem neverDividesByZero_updateIterateBlocks (hlam : ∀ a ∈ r.solver.lam, a ≠ 0) :
    NeverDividesByZero (fun E => (@updateIterateBlocks σ K E : Run σ K Unit)) r := by
  refine NeverDividesByZero.solver_bind ?_
  refine NeverDividesByZero.lift_bind (fun _ _ => rfl) fun sys _ => ?_
  refine neverDividesByZero_of_eq fun quotient hq => ?_
  have hwrites := System.iterateAssembly_withQuotient (y := r.solver.y) sys hq hlam r.solver.diagE
  have hassembled := (Matrix.assemble_withQuotient quotient r.solver.kkt _).trans
    (congrArg r.solver.kkt.assemble hwrites)
  exact congrArg (fun p : Option (Fault K) × Matrix K => (do
    Work.change fun s => { s with kkt := p.2 }
    Work.report (Journal.growthEvents r.solver.kkt p.2)
    Work.stopAt p.1 : Run σ K Unit)) hassembled

section

variable (aim : Elementary K → Aim K) (haim : ∀ quotient, IsQuotient quotient →
    aim ((fieldArithmetic K).withQuotient quotient) = aim (fieldArithmetic K))
  (hlam : ∀ a ∈ r.solver.lam, a ≠ 0)
include haim hlam

omit [IsStrictOrderedRing K]

theorem neverDividesByZero_directionFor (env : Environment σ K) (job : Job) :
    NeverDividesByZero (fun E => @directionFor σ K E env (aim E) job) r := by
  refine NeverDividesByZero.solver_bind ?_
  refine NeverDividesByZero.seq (neverDividesByZero_of_eq fun _ _ => rfl) fun sys r₁ => ?_
  refine NeverDividesByZero.lift_bind (fun quotient hq => ?_) fun rhs _ => ?_
  · rw [haim quotient hq]
    exact System.rightHandSide_withQuotient sys hq hlam _ _ _
  · exact neverDividesByZero_of_eq fun _ _ => rfl

/-- A direction is found without a division by zero as long as no multiplier is zero. -/
theorem neverDividesByZero_directions (env : Environment σ K) (refactor : Bool) :
    NeverDividesByZero (fun E => @directions σ K E env (aim E) refactor) r := by
  cases refactor with
  | false => exact neverDividesByZero_directionFor aim haim hlam env .solve
  | true =>
    refine (neverDividesByZero_updateIterateBlocks hlam).bind
      (f := fun E _ => @directionFor σ K E env (aim E) .complete) ?_
    refine (unmoved_updateIterateBlocks r).mono (fun _ r₁ h₁ => ?_) fun _ _ _ => trivial
    obtain ⟨_, _, _, hs₁⟩ := h₁
    exact neverDividesByZero_directionFor aim haim (by rw [hs₁]; exact hlam) env .complete

end

theorem neverDividesByZero_correctorIteration (env : Environment σ K)
    (hlam : ∀ a ∈ r.solver.lam, a ≠ 0) :
    NeverDividesByZero (fun E => @correctorIteration σ K E env d) r := by
  refine NeverDividesByZero.solver_bind ?_
  refine (neverDividesByZero_measurePredictor r).bind ?_
  refine (unmoved_measurePredictor d r).mono (fun sigma r₁ h₁ => ?_) fun _ _ _ => trivial
  obtain ⟨_, _, _, hs₁⟩ := h₁
  refine (neverDividesByZero_directions (fun E => @correctorAim K E r.solver sigma d)
    (fun _ _ => rfl) (by rw [hs₁]; exact hlam) env false).seq fun d' r₂ => ?_
  refine NeverDividesByZero.lift_bind
    (v := fun E => @Solver.stepLengths K E r.solver d' (@stepFraction K E r.solver))
    (fun quotient hq => ?_) fun lengths _ => ?_
  · rw [stepFraction_withQuotient hq, stepLengths_solver_withQuotient hq]
  · refine (neverDividesByZero_takeStep _ _ r₂).seq fun _ r₃ => ?_
    exact neverDividesByZero_of_eq fun _ _ => rfl

/-- An iteration that starts with no multiplier zero never divides by zero. -/
theorem neverDividesByZero_iterate (env : Environment σ K) (hlam : ∀ a ∈ r.solver.lam, a ≠ 0) :
    NeverDividesByZero (fun E => @iterate σ K E env) r := by
  refine (neverDividesByZero_directions (fun E => @Aim.affine K E.toScalar)
    (fun _ _ => rfl) hlam env true).bind ?_
  refine (unmoved_directions env .affine true r).mono (fun affine r₁ h₁ => ?_) fun _ _ _ => trivial
  obtain ⟨_, _, _, hs₁⟩ := h₁
  refine NeverDividesByZero.solver_bind ?_
  by_cases honly : r₁.solver.options.onlyPredict = true
  · simp only [if_pos honly]
    exact neverDividesByZero_predictorIteration r₁
  · simp only [if_neg honly]
    exact neverDividesByZero_correctorIteration env (by rw [hs₁]; exact hlam)

end InteriorPoint

end CentralPath
