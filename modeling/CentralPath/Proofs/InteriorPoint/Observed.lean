/-
  A watched solver. Part by part, the interior-point solver does the same with debug checks and without
  them, up to what is reported. The one place where more than a report hangs on the checks is behind an
  iteration, where the conditions are measured again and a measuring that is refused would stop the
  solve. A solve measures only where that is not refused, so this place is in step as well
  (`shadowsAt_iterateWithin`), and with it every solve from lengths in order (`solve_unwatched`).
-/
import CentralPath.InteriorPoint.Setting
import CentralPath.Proofs.Backend.Observed
import CentralPath.Proofs.InteriorPoint.Answers
import CentralPath.Proofs.InteriorPoint.Measurable

namespace CentralPath.InteriorPoint

open Backend (Environment Job Quieter Session Work quieter_self storageEvents_sublist)
open Backend.Work (run_bind_of_ok run_solver_bind session_of_ends shadowsAt_bind shadowsAt_change_bind
  shadowsAt_solver_bind shadows_change shadows_change_bind shadows_lift shadows_lift_bind
  shadows_report shadows_report_bind shadows_request shadows_solution shadows_solver_bind
  shadows_stopAt)
open Newton.System (Aim Direction)
open Sparse (Block Matrix)

variable {σ α β γ : Type}

theorem shadows_assign (k : Component) (g : Solver α → Except (Fault α) (Array α)) :
    Shadows Quieter (Solver.assign k g : Run σ α Unit) (Solver.assign k g) := by
  unfold Solver.assign
  exact shadows_solver_bind fun s => shadows_lift_bind _ fun v => shadows_change _

/-! ## Newton systems -/

theorem shadows_newtonSolve (env : Environment σ α) (rhs : Array α) (job : Job) :
    Shadows Quieter (newtonSolve env rhs job) (newtonSolve env.unwatched rhs job) := by
  unfold newtonSolve
  refine shadows_solver_bind fun s => ?_
  exact (shadows_request env _ _ _ _ _).bind fun _ => shadows_solution env

variable [Elementary α]

theorem shadows_updateIterateBlocks :
    Shadows Quieter (updateIterateBlocks : Run σ α Unit) updateIterateBlocks := by
  unfold updateIterateBlocks
  refine shadows_solver_bind fun s => shadows_lift_bind _ fun sys => ?_
  exact shadows_change_bind (shadows_report_bind (shadows_stopAt _))

theorem shadows_directionFor (env : Environment σ α) (aim : Aim α) (job : Job) :
    Shadows Quieter (directionFor env aim job) (directionFor env.unwatched aim job) := by
  unfold directionFor
  refine shadows_solver_bind fun s => shadows_lift_bind _ fun sys => shadows_lift_bind _ fun rhs => ?_
  exact (shadows_newtonSolve env rhs job).bind fun solution => shadows_lift _

theorem shadows_directions (env : Environment σ α) (aim : Aim α) (refactor : Bool) :
    Shadows Quieter (directions env aim refactor) (directions env.unwatched aim refactor) := by
  cases refactor with
  | false => exact shadows_directionFor env aim .solve
  | true => exact shadows_updateIterateBlocks.bind fun _ => shadows_directionFor env aim .complete

theorem shadows_refreshResiduals :
    Shadows Quieter (refreshResiduals : Run σ α Unit) refreshResiduals := by
  unfold refreshResiduals
  exact shadows_solver_bind fun s => shadows_lift_bind _ fun s' => shadows_change _

theorem shadows_verifyConditions (report : Bool) :
    Shadows Quieter (verifyConditions report : Run σ α (Journal.Measures α))
      (verifyConditions report) := by
  unfold verifyConditions
  refine shadows_solver_bind fun s => shadows_lift_bind _ fun q => ?_
  split_ifs
  · exact shadows_report_bind (shadows_report_bind (shadows_pure q))
  · exact shadows_report_bind (shadows_pure q)
  · exact shadows_report_bind (shadows_pure q)
  · exact shadows_pure q

/-! ## The first iterate -/

theorem shadows_startScaledOnes :
    Shadows Quieter (startScaledOnes : Run σ α Unit) startScaledOnes := by
  unfold startScaledOnes
  refine shadows_change_bind (shadows_refreshResiduals.bind fun _ => shadows_solver_bind fun s => ?_)
  cases onesFactor? s with
  | none => exact shadows_pure ()
  | some k => exact shadows_change_bind shadows_refreshResiduals

theorem shadows_startReciprocal (reuse : Reuse) :
    Shadows Quieter (startReciprocal reuse : Run σ α Unit) (startReciprocal reuse) := by
  have hrest : Shadows Quieter (reciprocalFromPoint : Run σ α Unit) reciprocalFromPoint := by
    unfold reciprocalFromPoint
    refine shadows_solver_bind fun s => shadows_lift_bind _ fun image => ?_
    exact shadows_change_bind shadows_refreshResiduals
  unfold startReciprocal
  split_ifs
  · exact shadows_change_bind hrest
  · exact hrest

theorem shadows_startAffineStep (env : Environment σ α) (reuse : Reuse) :
    Shadows Quieter (startAffineStep env reuse) (startAffineStep env.unwatched reuse) := by
  unfold startAffineStep
  refine shadows_change_bind (shadows_solver_bind fun s => shadows_lift_bind _ fun image => ?_)
  refine shadows_change_bind (shadows_refreshResiduals.bind fun _ => ?_)
  refine (shadows_directions env .affine true).bind fun d => ?_
  refine (shadows_assign _ _).bind fun _ => (shadows_assign _ _).bind fun _ => ?_
  exact shadows_refreshResiduals

theorem shadows_startAffineStepOrPrevious (env : Environment σ α) (reuse : Reuse) :
    Shadows Quieter (startAffineStepOrPrevious env reuse)
      (startAffineStepOrPrevious env.unwatched reuse) := by
  unfold startAffineStepOrPrevious
  refine .ite _ (shadows_startAffineStep env reuse) (shadows_solver_bind fun previous => ?_)
  refine shadows_refreshResiduals.bind fun _ => shadows_solver_bind fun kept => ?_
  refine (shadows_startAffineStep env ⟨true, true⟩).bind fun _ => shadows_solver_bind fun fresh => ?_
  refine .ite _ (shadows_change_bind ?_) (shadows_pure ())
  exact shadows_refreshResiduals.bind fun _ => shadows_report (.refl _)

theorem shadows_startWith (env : Environment σ α) (choice : StartChoice) (reuse : Reuse) :
    Shadows Quieter (startWith env choice reuse) (startWith env.unwatched choice reuse) := by
  unfold startWith
  split
  · exact shadows_startScaledOnes
  · exact shadows_startReciprocal reuse
  · exact shadows_startAffineStep env reuse
  · exact shadows_startAffineStepOrPrevious env reuse
  · exact shadows_throw _

/-! ## Iterations -/

theorem shadows_takeStep (d : Direction α) (alphaP alphaD : α) :
    Shadows Quieter (takeStep d alphaP alphaD : Run σ α Unit) (takeStep d alphaP alphaD) := by
  have hadvance :
      Shadows Quieter (advance d alphaP alphaD : Run σ α Unit) (advance d alphaP alphaD) := by
    unfold advance
    refine (shadows_assign _ _).bind fun _ => (shadows_assign _ _).bind fun _ => ?_
    refine (shadows_assign _ _).bind fun _ => (shadows_assign _ _).bind fun _ => ?_
    exact (shadows_assign _ _).bind fun _ => shadows_assign _ _
  have hprimal : Shadows Quieter (shrinkPrimal d alphaP alphaD : Run σ α Unit)
      (shrinkPrimal d alphaP alphaD) := by
    unfold shrinkPrimal
    refine (shadows_assign _ _).bind fun _ => shadows_solver_bind fun s => ?_
    exact .ite _ (shadows_assign _ _) (shadows_pure ())
  have hdual :
      Shadows Quieter (shrinkDual d alphaP alphaD : Run σ α Unit) (shrinkDual d alphaP alphaD) := by
    unfold shrinkDual
    exact (shadows_assign _ _).bind fun _ => .ite _ (shadows_assign _ _) (shadows_pure ())
  unfold takeStep
  refine hadvance.bind fun _ => hprimal.bind fun _ => hdual.bind fun _ => ?_
  refine shadows_solver_bind fun s => ?_
  split_ifs
  · exact shadows_throw _
  · exact shadows_change _

theorem shadows_measurePredictor (affine : Direction α) :
    Shadows Quieter (measurePredictor affine : Run σ α α) (measurePredictor affine) := by
  unfold measurePredictor
  refine shadows_solver_bind fun s => shadows_lift_bind _ fun lengths => ?_
  refine (shadows_assign _ _).bind fun _ => (shadows_assign _ _).bind fun _ => ?_
  refine shadows_solver_bind fun s => ?_
  split_ifs
  · exact shadows_throw _
  · exact shadows_lift _

theorem shadows_iterate (env : Environment σ α) :
    Shadows Quieter (iterate env) (iterate env.unwatched) := by
  unfold iterate
  refine (shadows_directions env .affine true).bind fun affine => ?_
  refine shadows_solver_bind fun s => .ite _ ?_ ?_
  · unfold predictorIteration
    refine shadows_solver_bind fun s => shadows_lift_bind _ fun lengths => ?_
    refine (shadows_takeStep affine _ _).bind fun _ => ?_
    exact shadows_solver_bind fun s => shadows_report (.refl _)
  · unfold correctorIteration
    refine shadows_solver_bind fun s => (shadows_measurePredictor affine).bind fun sigma => ?_
    refine (shadows_directions env _ false).bind fun d => shadows_lift_bind _ fun lengths => ?_
    refine (shadows_takeStep d _ _).bind fun _ => ?_
    exact shadows_solver_bind fun s => shadows_report (.refl _)

theorem shadows_countIteration :
    Shadows Quieter (countIteration : Run σ α Unit) countIteration := by
  unfold countIteration
  refine shadows_change_bind (shadows_solver_bind fun s => ?_)
  exact .ite _ (shadows_change _) (shadows_pure ())

variable {r r' : Session (Solver α) σ α}

/-- Where the conditions are measured without being refused, nothing but a report comes of it. -/
theorem exists_run_verifyConditions {q : Journal.Measures α} (hq : r.solver.measureConditions = .ok q)
    (report : Bool) : ∃ es, (verifyConditions report).run.run r =
      (.ok q, { r with events := r.events ++ es }) := by
  unfold verifyConditions
  rw [run_solver_bind, hq]
  dsimp only
  split_ifs
  · exact ⟨[.signsViolated] ++ [.conditionsMeasured q], by rw [← List.append_assoc]; rfl⟩
  · exact ⟨[.signsViolated], rfl⟩
  · exact ⟨[.conditionsMeasured q], rfl⟩
  · exact ⟨[], by rw [List.append_nil]; rfl⟩

/-- The check behind an iteration is in step with no check at all, where the conditions can be
measured. -/
theorem shadowsAt_check (hr : Quieter r r') (h : r.solver.Measurable) :
    ShadowsAt Quieter (discard <| verifyConditions true : Run σ α Unit) (pure ()) r r' := by
  obtain ⟨q, hq⟩ := h.exists_measures
  obtain ⟨es, hes⟩ := exists_run_verifyConditions hq true
  have hrun : (discard <| verifyConditions true : Run σ α Unit).run.run r =
      (.ok (), { r with events := r.events ++ es }) := by
    show ((fun _ => ()) <$> verifyConditions true : Run σ α Unit).run.run r = _
    rw [map_eq_pure_bind]
    exact run_bind_of_ok hes _
  unfold ShadowsAt
  rw [hrun]
  exact ⟨rfl, hr.solver, hr.backend, hr.events.trans (List.sublist_append_left _ _)⟩

theorem shadowsAt_keepBooks (env : Environment σ α) (hr : Quieter r r') (h : r.solver.Measurable) :
    ShadowsAt Quieter (keepBooks env) (keepBooks env.unwatched) r r' := by
  unfold keepBooks
  refine shadowsAt_bind (shadows_countIteration r r' hr) (sameShape_countIteration r) ?_
  intro _ r₁ r₁' hshape hr₁
  cases hdebug : env.debug with
  | true => exact shadowsAt_check hr₁ (h.of_sameShape hshape)
  | false => exact shadows_pure () r₁ r₁' hr₁

/-- Iterations from where the conditions can be measured. The lengths that this takes are kept by every
iteration, so the checks are in step behind each of them. -/
theorem shadowsAt_iterateWithin (env : Environment σ α) (budget : Nat) (hr : Quieter r r')
    (h : r.solver.Measurable) :
    ShadowsAt Quieter (iterateWithin env budget) (iterateWithin env.unwatched budget) r r' := by
  induction budget generalizing r r' with
  | zero => exact shadows_pure () r r' hr
  | succ budget ih =>
    rw [iterateWithin_succ, iterateWithin_succ]
    show ShadowsAt Quieter (if r.solver.isConverged then pure () else _)
      (if r'.solver.isConverged then pure () else _) r r'
    rw [hr.solver]
    split_ifs
    · exact shadows_pure () r r' hr
    refine shadowsAt_bind (shadows_iterate env r r' hr) (sameShape_iterate env r) ?_
    intro _ r₁ r₁' hshape₁ hr₁
    have h₁ := h.of_sameShape hshape₁
    refine shadowsAt_bind (shadowsAt_keepBooks env hr₁ h₁) (sameShape_keepBooks env r₁) ?_
    intro _ r₂ r₂' hshape₂ hr₂
    exact ih hr₂ (h₁.of_sameShape hshape₂)

theorem shadows_conclude : Shadows Quieter (conclude : Run σ α String) conclude := by
  unfold conclude
  refine shadows_solver_bind fun s => .ite _ ?_ ?_
  · exact shadows_change_bind (shadows_report_bind (shadows_pure _))
  · exact shadows_change_bind (shadows_report_bind (shadows_pure _))

/-! ## Loading and assembly -/

theorem shadows_loadInto (before : Matrix α) (put : Matrix α → Solver α → Solver α) (b : Block α)
    (hint : Int) :
    Shadows Quieter (loadInto before put b hint : Run σ α Unit) (loadInto before put b hint) := by
  unfold loadInto
  exact shadows_change_bind (shadows_report_bind (shadows_stopAt _))

theorem shadows_loadHessian (p : Problem α) :
    Shadows Quieter (loadHessian p : Run σ α Unit) (loadHessian p) := by
  unfold loadHessian loadExactly
  exact shadows_solver_bind fun s => shadows_loadInto _ _ _ _

theorem shadows_adoptCompliance :
    Shadows Quieter (adoptCompliance : Run σ α Unit) adoptCompliance := by
  unfold adoptCompliance
  refine shadows_change_bind (shadows_solver_bind fun s => .ite _ ?_ (shadows_change _))
  split_ifs
  · exact shadows_throw _
  · exact shadows_lift_bind _ fun diagE => shadows_change _

theorem shadows_loadOn (p : Problem α) (cover : Option (Block α × Int)) :
    Shadows Quieter (loadOn p cover : Run σ α Unit) (loadOn p cover) := by
  have hjacobian : Shadows Quieter (loadJacobian p : Run σ α Unit) (loadJacobian p) := by
    unfold loadJacobian loadExactly
    exact shadows_solver_bind fun s => shadows_loadInto _ _ _ _
  have hcompliance : Shadows Quieter (loadCompliance p : Run σ α Unit) (loadCompliance p) := by
    unfold loadCompliance loadExactly
    exact shadows_solver_bind fun s => .ite _ (shadows_loadInto _ _ _ _) (shadows_pure ())
  have hover : Shadows Quieter (loadOver cover : Run σ α Unit) (loadOver cover) := by
    unfold loadOver
    refine shadows_solver_bind fun s => ?_
    split
    · exact .ite _ (shadows_loadInto _ _ _ _) (shadows_pure ())
    · exact shadows_pure ()
  unfold loadOn
  refine shadows_solver_bind fun s => (shadows_loadHessian p).bind fun _ => ?_
  refine hjacobian.bind fun _ => hcompliance.bind fun _ => ?_
  refine shadows_lift_bind _ fun f => shadows_lift_bind _ fun bound => hover.bind fun _ => ?_
  exact (shadows_assign _ _).bind fun _ => (shadows_assign _ _).bind fun _ => shadows_adoptCompliance

theorem shadows_allocateFor (n : Nat) (m : Int) :
    Shadows Quieter (allocateFor n m : Run σ α Unit) (allocateFor n m) := by
  unfold allocateFor
  split_ifs
  · exact shadows_change_bind (shadows_throw _)
  · exact shadows_change _

theorem shadows_assembleSystem (env : Environment σ α) (sys : Newton.System) :
    Shadows Quieter (assembleSystem env sys) (assembleSystem env.unwatched sys) := by
  have hlearn : Shadows Quieter (learnPattern sys : Run σ α Unit) (learnPattern sys) := by
    unfold learnPattern
    refine shadows_solver_bind fun s => shadows_lift_bind _ fun fresh => ?_
    refine (shadows_stopAt _).bind fun _ => shadows_lift_bind _ fun kkt => ?_
    exact shadows_change_bind (shadows_report (.refl _))
  have hreset : Shadows Quieter (resetSystem sys : Run σ α Unit) (resetSystem sys) := by
    unfold resetSystem
    refine shadows_solver_bind fun s => shadows_lift_bind _ fun hint => ?_
    exact shadows_lift_bind _ fun kkt => shadows_change _
  unfold assembleSystem
  refine shadows_solver_bind fun s => shadows_lift_bind _ fun bounded => shadows_change_bind ?_
  split_ifs
  · refine hlearn.bind fun _ => shadows_solver_bind fun s => ?_
    refine shadows_change_bind (shadows_report_bind ((shadows_stopAt _).bind fun _ => ?_))
    exact shadows_change_bind (shadows_report (storageEvents_sublist env _ _))
  · refine hreset.bind fun _ => shadows_solver_bind fun s => ?_
    refine shadows_change_bind (shadows_report_bind ((shadows_stopAt _).bind fun _ => ?_))
    exact shadows_change_bind (shadows_report (storageEvents_sublist env _ _))

theorem shadows_prepareFor (env : Environment σ α) (p : Problem α) (cover : Option (Block α × Int))
    (m : Int) (before : Solver α) :
    Shadows Quieter (prepareFor env p cover m before) (prepareFor env.unwatched p cover m before) := by
  unfold prepareFor
  refine shadows_lift_bind _ fun sys => shadows_change_bind ?_
  refine (shadows_allocateFor _ _).bind fun _ => (shadows_loadOn p cover).bind fun _ => ?_
  refine (shadows_assembleSystem env sys).bind fun _ => shadows_change_bind ?_
  exact (shadows_startWith env _ _).bind fun _ => shadows_change _

theorem shadows_pose (env : Environment σ α) (p : Problem α) (n : Nat) :
    Shadows Quieter (pose env p n) (pose env.unwatched p n) := by
  unfold pose
  refine shadows_change_bind ((shadows_loadHessian p).bind fun _ => shadows_lift_bind _ fun f => ?_)
  refine (shadows_assign _ _).bind fun _ => shadows_solver_bind fun s => shadows_change_bind ?_
  exact (shadows_report (storageEvents_sublist env _ _)).bind fun _ => shadows_pure _

/-! ## Whole solves -/

theorem shadows_handOverAnswer (n : Nat) (full : Int) (G : Matrix α) (found : Array α) :
    Shadows Quieter (handOverAnswer n full G found : Run σ α (Handover α))
      (handOverAnswer n full G found) := by
  unfold handOverAnswer
  refine (shadows_assign _ _).bind fun _ => shadows_change_bind (shadows_report_bind ?_)
  exact shadows_solver_bind fun s => shadows_lift_bind _ fun head => shadows_pure _

theorem shadows_handOverIterate (n : Nat) (full : Int) (before : Solver α) :
    Shadows Quieter (handOverIterate n full before : Run σ α (Handover α))
      (handOverIterate n full before) := by
  unfold handOverIterate
  refine shadows_solver_bind fun s => shadows_conclude.bind fun message => ?_
  refine shadows_solver_bind fun s => shadows_lift_bind _ fun head => ?_
  exact shadows_lift_bind _ fun multipliers => shadows_pure _

/-- A solve up to its delivery, from a solver whose lengths are in order. -/
theorem shadowsAt_handOver (env : Environment σ α) (p : Problem α) (terms : Terms α)
    (hr : Quieter r r') (h : r.solver.Sized) :
    ShadowsAt Quieter (handOver env p terms) (handOver env.unwatched p terms) r r' := by
  have hdirect (n : Nat) (full : Int) : Shadows Quieter
      (do
        let G ← pose env p n
        let s ← Work.solver
        Work.request env (.hessian s.id) G (Vector.neg s.c) .complete "unconstrained system"
        let found ← Work.solution env
        handOverAnswer n full G found)
      (do
        let G ← pose env.unwatched p n
        let s ← Work.solver
        Work.request env.unwatched (.hessian s.id) G (Vector.neg s.c) .complete
          "unconstrained system"
        let found ← Work.solution env.unwatched
        handOverAnswer n full G found) :=
    (shadows_pose env p n).bind fun G => shadows_solver_bind fun s =>
      (shadows_request env _ _ _ _ _).bind fun _ => (shadows_solution env).bind fun found =>
        shadows_handOverAnswer n full G found
  have hcounted : { r.solver with solveCalls := r.solver.solveCalls + 1 }.Sized := { h with }
  unfold handOver
  refine shadowsAt_change_bind hr fun r₁ hr₁ => shadowsAt_solver_bind hr₁ ?_
  dsimp only
  split_ifs
  · exact hdirect _ _ _ r₁ hr₁
  · refine shadowsAt_solver_bind hr₁ ?_
    refine shadowsAt_bind (shadows_prepareFor env p _ _ _ _ r₁ hr₁)
      (ends_prepareFor_measurable env _ _ _ hcounted) fun _ r₂ r₂' h₂ hr₂ => ?_
    refine (shadowsAt_iterateWithin env _ hr₂ h₂).bind fun _ r₃ r₃' _ hr₃ => ?_
    exact shadows_handOverIterate _ _ _ r₃ r₃' hr₃

/-! ## What a caller asks for -/

/-- Changes the solver from outside, unless the change is refused. -/
def exchange (f : Solver α → Except (Fault α) (Solver α)) : Run σ α Unit := do
  let s ← Work.lift (f (← Work.solver))
  Work.change fun _ => s

/-- Work that comes to the same without the checks wherever the lengths are in order, and that leaves
them in order. -/
structure Unaffected (w : Environment σ α → Run σ α β) : Prop where
  shadows : ∀ env r r', Quieter r r' → r.solver.Sized →
    ShadowsAt Quieter (w env) (w env.unwatched) r r'
  sized : ∀ env r, r.solver.Sized → ((w env).run.run r).2.solver.Sized

theorem unaffected_solveProblem (p : Problem α) :
    Unaffected fun env : Environment σ α => solveProblem env p where
  shadows env r r' hr h := by
    rw [solveProblem_eq_handOver, solveProblem_eq_handOver]
    refine (shadowsAt_handOver env p _ hr h).bind fun hand r₁ r₁' _ hr₁ => ?_
    have hdeliver : Shadows Quieter
        (Work.lift (p.receive hand.vector) >>= fun problem =>
          Work.lift hand.outcome >>= fun outcome => pure (⟨outcome, problem⟩ : Delivery α))
        (Work.lift (p.receive hand.vector) >>= fun problem =>
          Work.lift hand.outcome >>= fun outcome => pure (⟨outcome, problem⟩ : Delivery α) :
            Run σ α (Delivery α)) :=
      shadows_lift_bind _ fun problem => shadows_lift_bind _ fun outcome => shadows_pure _
    exact hdeliver r₁ r₁' hr₁
  sized env r h := session_of_ends (P := fun r' : Session (Solver α) σ α => r'.solver.Sized)
    (ends_solveProblem_sized env p h)

theorem unaffected_iterate : Unaffected (iterate : Environment σ α → Run σ α Unit) where
  shadows env r r' hr _ := shadows_iterate env r r' hr
  sized env r h := h.of_sameShape ((sameShape_iterate env).run r)

theorem unaffected_affineDirections :
    Unaffected (affineDirections : Environment σ α → Run σ α (Direction α)) where
  shadows env r r' hr _ := shadows_directions env .affine true r r' hr
  sized env r h := h.of_sameShape ((sameShape_directions env .affine true).run r)

theorem unaffected_verifyConditions (report : Bool) :
    Unaffected fun _ : Environment σ α => verifyConditions report where
  shadows _ r r' hr _ := shadows_verifyConditions report r r' hr
  sized _ r h := h.of_sameShape ((sameShape_verifyConditions report).run r)

omit [Elementary α] in
/-- A change of the solver that leaves lengths in order where it is not refused. -/
theorem unaffected_exchange {f : Solver α → Except (Fault α) (Solver α)}
    (hf : ∀ s s', f s = .ok s' → s.Sized → s'.Sized) :
    Unaffected fun _ : Environment σ α => (exchange f : Run σ α Unit) where
  shadows _ r r' hr _ := by
    have hexchange : Shadows Quieter (exchange f : Run σ α Unit) (exchange f) :=
      shadows_solver_bind fun s => shadows_lift_bind _ fun s' => shadows_change _
    exact hexchange r r' hr
  sized _ r h := by
    unfold exchange
    rw [run_solver_bind]
    rcases hs : f r.solver with e | s
    · exact h
    · exact hf _ s hs h

omit [Elementary α] in
theorem unaffected_setOptions (settings : List (Setting α)) :
    Unaffected fun _ : Environment σ α => (exchange fun s =>
      .ok { s with options := s.options.setAll settings } : Run σ α Unit) := by
  refine unaffected_exchange fun s s' hs h => ?_
  obtain rfl := Except.ok.inj hs
  exact { h with }

omit [Elementary α] in
theorem unaffected_relearn : Unaffected fun _ : Environment σ α =>
    (exchange fun s => .ok { s with patternLearned := false } : Run σ α Unit) := by
  refine unaffected_exchange fun s s' hs h => ?_
  obtain rfl := Except.ok.inj hs
  exact { h with }

theorem unaffected_overwrite (component : String) (v : Array α) :
    Unaffected fun _ : Environment σ α =>
      (exchange fun s => s.overwrite component v : Run σ α Unit) :=
  unaffected_exchange fun _ _ hs h => h.of_sameShape (.of_overwrite hs)

/-- A solve comes to the same with the checks and without them, whatever the backend answers. -/
theorem solve_unwatched (env : Environment σ α) (p : Problem α) (hr : Quieter r r')
    (h : r.solver.Sized) :
    (solve env.unwatched p r').outcome = (solve env p r).outcome ∧
      (solve env.unwatched p r').problem = (solve env p r).problem ∧
      Quieter (solve env p r).session (solve env.unwatched p r').session := by
  obtain ⟨hanswer, hsession⟩ := (unaffected_solveProblem p).shadows env r r' hr h
  unfold solve
  rcases hw : (solveProblem env p).run.run r with ⟨_ | _, _⟩ <;>
    rcases hw' : (solveProblem env.unwatched p).run.run r' with ⟨_ | _, _⟩ <;>
    rw [hw, hw'] at hanswer hsession <;> cases hanswer
  · exact ⟨rfl, rfl, hsession⟩
  · exact ⟨rfl, rfl, hsession⟩

end CentralPath.InteriorPoint
