/-
  What a solve leaves alone apart from its Hessian and its linear term. A relation between solvers that
  `Overlooks` everything else that is written is kept up to the end of the last iteration, whatever it
  is otherwise. One such relation is `Framed`: the Hessian stays, and the point and the linear term
  keep their lengths. An iteration up to its step leaves even more alone, the solver is `Unmoved`: the
  Newton matrix and the predicted slacks and multipliers are all that may have changed. No law of
  arithmetic is used.
-/
import CentralPath.Proofs.Backend.Keeping
import CentralPath.Proofs.InteriorPoint.Solving

namespace CentralPath

namespace InteriorPoint

open Backend (Environment Job Work)
open Backend.Work (Ends Keeps ends_bind ends_change ends_solver keeps_change keeps_change_bind
  keeps_lift keeps_lift_bind keeps_pure keeps_report keeps_report_bind keeps_request keeps_solution
  keeps_solver_bind keeps_stopAt keeps_throw)
open Newton.System (Aim Direction)
open Sparse (Block Matrix)

variable {σ α : Type}

/-! ## The relations -/

/-- The Newton matrix and the predicted slacks and multipliers may have changed, nothing else. -/
def Solver.Unmoved (s s' : Solver α) : Prop :=
  ∃ kkt yPred lamPred, s' = { s with kkt, yPred, lamPred }

instance : IsPreorder (Solver α) Solver.Unmoved where
  refl _ := ⟨_, _, _, rfl⟩
  trans := by
    rintro _ _ _ ⟨_, _, _, rfl⟩ ⟨_, _, _, rfl⟩
    exact ⟨_, _, _, rfl⟩

/-- The Hessian is the same, and the point and the linear term have their lengths. -/
structure Solver.Framed (s s' : Solver α) : Prop where
  hessian : s'.G = s.G
  x : s'.x.size = s.x.size
  c : s'.c.size = s.c.size

instance : IsPreorder (Solver α) Solver.Framed where
  refl _ := ⟨rfl, rfl, rfl⟩
  trans _ _ _ h h' := ⟨h'.hessian.trans h.hessian, h'.x.trans h.x, h'.c.trans h.c⟩

theorem keeps_assign {R : Solver α → Solver α → Prop} [IsPreorder (Solver α) R] {k : Component}
    {g : Solver α → Except (Fault α) (Array α)}
    (h : ∀ s v, g s = .ok v → R s (s.withComponent k v)) :
    Keeps R (Solver.assign k g : Run σ α Unit) := by
  intro r
  unfold Solver.assign
  rw [ends_bind, ends_solver]
  refine Ends.lift_bind (fun v hv => h r.solver v hv) fun _ => refl_of R r.solver

/-- Over a vector something of its length may be written. -/
theorem Solver.framed_withComponent_of_size {s : Solver α} {k : Component} {v : Array α}
    (h : k = .x ∨ k = .c → v.size = (s.component k).size) : s.Framed (s.withComponent k v) := by
  cases k
  case x => exact ⟨rfl, h (.inl rfl), rfl⟩
  case c => exact ⟨rfl, rfl, h (.inr rfl)⟩
  all_goals exact ⟨rfl, rfl, rfl⟩

/-- Where a component is written over by name, a vector of its length takes its place. -/
theorem Solver.exists_of_overwrite [Scalar α] {s s' : Solver α} {name : String} {v : Array α}
    (h : s.overwrite name v = .ok s') :
    ∃ k w, w.size = (s.component k).size ∧ s' = s.withComponent k w := by
  unfold Solver.overwrite at h
  rcases hname : Component.ofName? name with _ | k <;> rw [hname] at h
  · cases h
  · obtain ⟨w, hw, h⟩ := Newton.exists_of_bind_eq_ok h
    exact ⟨k, w, Vector.size_of_fill? hw, (Except.ok.inj h).symm⟩

/-- Whatever a solve writes but its Hessian, its linear term and its books, the relation does not see
it. The point is written over by vectors of its length, and an earlier iterate may be restored. -/
structure Overlooks (R : Solver α → Solver α → Prop) : Prop where
  written : ∀ (s : Solver α) (k : Component) (v : Array α), k ≠ .c →
    (k = .x → v.size = s.x.size) → R s (s.withComponent k v)
  restored : ∀ s s', R s s' → R s { s' with x := s.x, y := s.y, lam := s.lam }
  apparatus : ∀ (s : Solver α) mu kkt A E usesE patternLearned stage,
    R s { s with mu, kkt, A, E, usesE, patternLearned, stage }

theorem overlooks_framed : Overlooks (Solver.Framed (α := α)) where
  written s k v hc hx := by
    refine Solver.framed_withComponent_of_size ?_
    rintro (rfl | rfl)
    · exact hx rfl
    · exact absurd rfl hc
  restored _ _ h := ⟨h.hessian, rfl, h.c⟩
  apparatus _ _ _ _ _ _ _ _ := ⟨rfl, rfl, rfl⟩

/-! ## Up to the step -/

theorem unmoved_newtonSolve [Elementary α] (env : Environment σ α) (rhs : Array α) (job : Job) :
    Keeps Solver.Unmoved (newtonSolve env rhs job) := by
  unfold newtonSolve
  exact keeps_solver_bind fun s => (keeps_request env _ _ _ _ _).bind fun _ => keeps_solution env

variable [Elementary α]

theorem unmoved_updateIterateBlocks :
    Keeps Solver.Unmoved (updateIterateBlocks : Run σ α Unit) := by
  unfold updateIterateBlocks
  refine keeps_solver_bind fun s => keeps_lift_bind fun sys => ?_
  exact keeps_change_bind (fun _ => ⟨_, _, _, rfl⟩) (keeps_report_bind (keeps_stopAt _))

theorem unmoved_directions (env : Environment σ α) (aim : Aim α) (refactor : Bool) :
    Keeps Solver.Unmoved (directions env aim refactor) := by
  have hrest : Keeps Solver.Unmoved (do
      let s ← Work.solver
      let sys ← Work.lift s.system?
      let rhs ← Work.lift (sys.rightHandSide s.rp s.rd s.y s.lam aim)
      let solution ← newtonSolve env rhs (if refactor then .complete else .solve)
      Work.lift (sys.direction solution s.kkt s.rp s.compliance?)) := by
    refine keeps_solver_bind fun s => keeps_lift_bind fun sys => keeps_lift_bind fun rhs => ?_
    exact (unmoved_newtonSolve env _ _).bind fun solution => keeps_lift _
  unfold directions
  cases refactor with
  | false => exact hrest
  | true => exact unmoved_updateIterateBlocks.bind fun _ => hrest

theorem unmoved_measurePredictor (affine : Direction α) :
    Keeps Solver.Unmoved (measurePredictor affine : Run σ α α) := by
  have hpredicted : ∀ s : Solver α, ∀ v, s.Unmoved (s.withComponent .yPred v) ∧
      s.Unmoved (s.withComponent .lamPred v) := fun s v => ⟨⟨_, _, _, rfl⟩, ⟨_, _, _, rfl⟩⟩
  unfold measurePredictor
  refine keeps_solver_bind fun s => keeps_lift_bind fun lengths => ?_
  refine (keeps_assign fun s v _ => (hpredicted s v).1).bind fun _ => ?_
  refine (keeps_assign fun s v _ => (hpredicted s v).2).bind fun _ => ?_
  refine keeps_solver_bind fun s => ?_
  split_ifs
  · exact keeps_throw _
  · exact keeps_lift _

theorem keeps_loadInto {R : Solver α → Solver α → Prop} [IsPreorder (Solver α) R]
    {before : Matrix α} {put : Matrix α → Solver α → Solver α} {b : Block α} {hint : Int}
    (hput : ∀ M s, R s (put M s)) : Keeps R (loadInto before put b hint : Run σ α Unit) := by
  unfold loadInto
  exact keeps_change_bind (hput _) (keeps_report_bind (keeps_stopAt _))

namespace Overlooks

variable {R : Solver α → Solver α → Prop} [IsPreorder (Solver α) R] (hR : Overlooks R)
include hR

omit [Elementary α] [IsPreorder (Solver α) R] in
/-- Over any other vector anything may be written. -/
theorem write (s : Solver α) {k : Component} (hx : k ≠ .x) (hc : k ≠ .c) (v : Array α) :
    R s (s.withComponent k v) :=
  hR.written s k v hc fun hk => absurd hk hx

omit [Elementary α] in
theorem and_write {s s' : Solver α} (h : R s s') {k : Component} (hx : k ≠ .x) (hc : k ≠ .c)
    (v : Array α) : R s (s'.withComponent k v) :=
  trans_of R h (hR.write s' hx hc v)

omit [Elementary α] in
theorem assign {k : Component} {g : Solver α → Except (Fault α) (Array α)} (hx : k ≠ .x)
    (hc : k ≠ .c) : Keeps R (Solver.assign k g : Run σ α Unit) :=
  keeps_assign fun s v _ => hR.write s hx hc v

omit [Elementary α] in
theorem of_unmoved {s s' : Solver α} (h : s.Unmoved s') : R s s' := by
  obtain ⟨kkt, yPred, lamPred, rfl⟩ := h
  have hy : R s (s.withComponent .yPred yPred) := hR.write s (by decide) (by decide) yPred
  have hl := hR.and_write hy (k := .lamPred) (by decide) (by decide) lamPred
  exact trans_of R hl (hR.apparatus _ s.mu kkt s.A s.E s.usesE s.patternLearned
    s.stage)

theorem directions (env : Environment σ α) (aim : Aim α) (refactor : Bool) :
    Keeps R (directions env aim refactor) :=
  (unmoved_directions env aim refactor).mono fun _ _ h => hR.of_unmoved h

/-! ## Loading and assembly -/

theorem loadJacobian (p : Problem α) : Keeps R (loadJacobian p : Run σ α Unit) := by
  unfold InteriorPoint.loadJacobian loadExactly
  exact keeps_solver_bind fun s => keeps_loadInto fun _ s => hR.apparatus s _ _ _ _ _ _ _

theorem loadCompliance (p : Problem α) : Keeps R (loadCompliance p : Run σ α Unit) := by
  unfold InteriorPoint.loadCompliance loadExactly
  exact keeps_solver_bind fun s =>
    .ite _ (keeps_loadInto fun _ s => hR.apparatus s _ _ _ _ _ _ _) (keeps_pure ())

theorem adoptCompliance : Keeps R (adoptCompliance : Run σ α Unit) := by
  have hdiag : ∀ (s : Solver α) v, R s { s with diagE := v } := fun s v =>
    hR.write s (k := .diagE) (by decide) (by decide) v
  unfold InteriorPoint.adoptCompliance
  refine keeps_change_bind (fun s => hR.apparatus s _ _ _ _ _ _ _)
    (keeps_solver_bind fun s => .ite _ ?_ ?_)
  · split_ifs
    · exact keeps_throw _
    · exact keeps_lift_bind fun diagE => keeps_change fun s => hdiag s diagE
  · exact keeps_change fun s => hdiag s _

theorem assembleSystem (env : Environment σ α) (sys : Newton.System) :
    Keeps R (assembleSystem env sys) := by
  have hlearn : Keeps R (learnPattern sys : Run σ α Unit) := by
    unfold learnPattern
    refine keeps_solver_bind fun s => keeps_lift_bind fun fresh => ?_
    refine (keeps_stopAt _).bind fun _ => keeps_lift_bind fun kkt => ?_
    exact keeps_change_bind (fun s => hR.apparatus s _ _ _ _ _ _ _) (keeps_report _)
  have hreset : Keeps R (resetSystem sys : Run σ α Unit) := by
    unfold resetSystem
    refine keeps_solver_bind fun s => keeps_lift_bind fun hint => keeps_lift_bind fun kkt => ?_
    exact keeps_change fun s => hR.apparatus s _ _ _ _ _ _ _
  unfold InteriorPoint.assembleSystem
  refine keeps_solver_bind fun s => keeps_lift_bind fun bounded => ?_
  refine keeps_change_bind (fun s => hR.apparatus s _ _ _ _ _ _ _) ?_
  split_ifs
  on_goal 1 => refine hlearn.bind fun _ => ?_
  on_goal 2 => refine hreset.bind fun _ => ?_
  -- wherever its positions come from, the matrix is written and compressed
  all_goals
    refine keeps_solver_bind fun s => ?_
    refine keeps_change_bind (fun s => hR.apparatus s _ _ _ _ _ _ _) (keeps_report_bind ?_)
    refine (keeps_stopAt _).bind fun _ => ?_
    exact keeps_change_bind (fun s => hR.apparatus s _ _ _ _ _ _ _) (keeps_report _)

/-! ## The first iterate -/

omit [Elementary α] in
/-- An iterate whose point keeps its length, and what is measured at it. -/
theorem of_iterate (s : Solver α) {x : Array α} (hx : x.size = s.x.size) (y lam rp rd : Array α)
    (mu : α) : R s { s with x, y, lam, rp, rd, mu } := by
  have hx : R s (s.withComponent .x x) := hR.written s .x x (by decide) fun _ => hx
  have hy := hR.and_write hx (k := .y) (by decide) (by decide) y
  have hlam := hR.and_write hy (k := .lam) (by decide) (by decide) lam
  have hrp := hR.and_write hlam (k := .rp) (by decide) (by decide) rp
  have hrd := hR.and_write hrp (k := .rd) (by decide) (by decide) rd
  exact trans_of R hrd (hR.apparatus _ mu s.kkt s.A s.E s.usesE s.patternLearned s.stage)

theorem refreshResiduals : Keeps R (refreshResiduals : Run σ α Unit) := by
  intro r
  unfold InteriorPoint.refreshResiduals
  rw [ends_bind, ends_solver]
  refine Ends.lift_bind (fun s hs => ?_) fun _ => refl_of R r.solver
  unfold Solver.updateResiduals at hs
  obtain ⟨_, -, hs⟩ := Newton.exists_of_bind_eq_ok hs
  obtain ⟨_, -, hs⟩ := Newton.exists_of_bind_eq_ok hs
  obtain ⟨_, -, hs⟩ := Newton.exists_of_bind_eq_ok hs
  obtain ⟨_, -, hs⟩ := Newton.exists_of_bind_eq_ok hs
  obtain rfl := Except.ok.inj hs
  exact hR.of_iterate r.solver rfl _ _ _ _ _

theorem startAffineStep (env : Environment σ α) (reuse : Reuse) :
    Keeps R (startAffineStep env reuse) := by
  unfold InteriorPoint.startAffineStep
  refine keeps_change_bind (fun s => hR.of_iterate s ?_ _ _ _ _ _) ?_
  · split_ifs
    · rfl
    · exact Vector.size_constant 1 s.x
  refine keeps_solver_bind fun s => keeps_lift_bind fun image => ?_
  refine keeps_change_bind (fun s => hR.of_iterate s rfl _ _ _ _ _)
    (hR.refreshResiduals.bind fun _ => ?_)
  refine (hR.directions env .affine true).bind fun d => ?_
  refine (hR.assign (by decide) (by decide)).bind fun _ => ?_
  exact (hR.assign (by decide) (by decide)).bind fun _ => hR.refreshResiduals

/-- The previous point is restored over one of its length. -/
theorem startAffineStepOrPrevious (env : Environment σ α) (reuse : Reuse) :
    Keeps R (startAffineStepOrPrevious env reuse) := by
  unfold InteriorPoint.startAffineStepOrPrevious
  split_ifs
  · exact hR.startAffineStep env reuse
  intro r
  rw [ends_bind, ends_solver]
  refine (hR.refreshResiduals r).bind (fun _ r₁ h₁ => ?_) fun _ _ h₁ => h₁
  rw [ends_bind, ends_solver]
  refine (hR.startAffineStep env ⟨true, true⟩ r₁).bind (fun _ r₂ h₂ => ?_)
    fun _ _ h₂ => trans_of R h₁ h₂
  rw [ends_bind, ends_solver]
  have h₂ := trans_of R h₁ h₂
  dsimp only
  split_ifs
  · rw [ends_bind, ends_change]
    have hrest : Keeps R (do
        InteriorPoint.refreshResiduals
        Work.report [.previousKept r₁.solver.merit r₂.solver.merit] : Run σ α Unit) :=
      hR.refreshResiduals.bind fun _ => keeps_report _
    exact (hrest _).mono (fun _ _ h₃ => trans_of R (hR.restored _ _ h₂) h₃)
      fun _ _ h₃ => trans_of R (hR.restored _ _ h₂) h₃
  · exact h₂

theorem startWith (env : Environment σ α) (choice : StartChoice) (reuse : Reuse) :
    Keeps R (startWith env choice reuse) := by
  have hreciprocal : Keeps R (reciprocalFromPoint : Run σ α Unit) := by
    unfold reciprocalFromPoint
    refine keeps_solver_bind fun s => keeps_lift_bind fun image => ?_
    exact keeps_change_bind (fun s => hR.of_iterate s rfl _ _ _ _ _) hR.refreshResiduals
  unfold InteriorPoint.startWith
  split
  · unfold startScaledOnes
    refine keeps_change_bind (fun s => hR.of_iterate s (Vector.size_constant 1 s.x) _ _ _ _ _)
      (hR.refreshResiduals.bind fun _ => ?_)
    refine keeps_solver_bind fun s => ?_
    split
    · exact keeps_pure ()
    · exact keeps_change_bind (fun s => hR.of_iterate s (Array.size_map ..) _ _ _ _ _)
        hR.refreshResiduals
  · unfold startReciprocal
    split_ifs
    · exact keeps_change_bind
        (fun s => hR.of_iterate s (Vector.size_constant 1 s.x) _ _ _ _ _) hreciprocal
    · exact hreciprocal
  · exact hR.startAffineStep env reuse
  · exact hR.startAffineStepOrPrevious env reuse
  · exact keeps_throw _

/-! ## Iterations -/

theorem takeStep (d : Direction α) (alphaP alphaD : α) :
    Keeps R (takeStep d alphaP alphaD : Run σ α Unit) := by
  have hadvance : Keeps R (advance d alphaP alphaD : Run σ α Unit) := by
    unfold advance
    refine (keeps_assign fun s v hv => ?_).bind fun _ => ?_
    · exact hR.written s .x v (by decide) fun _ => Vector.size_of_addTo? hv
    refine (hR.assign (by decide) (by decide)).bind fun _ => ?_
    refine (hR.assign (by decide) (by decide)).bind fun _ => ?_
    refine (hR.assign (by decide) (by decide)).bind fun _ => ?_
    refine (hR.assign (by decide) (by decide)).bind fun _ => ?_
    exact hR.assign (by decide) (by decide)
  have hprimal : Keeps R (shrinkPrimal d alphaP alphaD : Run σ α Unit) := by
    unfold shrinkPrimal
    refine (hR.assign (by decide) (by decide)).bind fun _ => keeps_solver_bind fun s => ?_
    exact .ite _ (hR.assign (by decide) (by decide)) (keeps_pure ())
  have hdual : Keeps R (shrinkDual d alphaP alphaD : Run σ α Unit) := by
    unfold shrinkDual
    refine (hR.assign (by decide) (by decide)).bind fun _ => ?_
    exact .ite _ (hR.assign (by decide) (by decide)) (keeps_pure ())
  unfold InteriorPoint.takeStep
  refine hadvance.bind fun _ => hprimal.bind fun _ => hdual.bind fun _ => ?_
  refine keeps_solver_bind fun s => ?_
  split_ifs
  · exact keeps_throw _
  · exact keeps_change fun s => hR.apparatus s _ _ _ _ _ _ _

theorem iterate (env : Environment σ α) : Keeps R (iterate env) := by
  unfold InteriorPoint.iterate
  refine (hR.directions env .affine true).bind fun affine => ?_
  refine keeps_solver_bind fun s => .ite _ ?_ ?_
  · unfold predictorIteration
    refine keeps_solver_bind fun s => keeps_lift_bind fun lengths => ?_
    refine (hR.takeStep affine _ _).bind fun _ => ?_
    exact keeps_solver_bind fun s => keeps_report _
  · unfold correctorIteration
    refine keeps_solver_bind fun s => ?_
    refine ((unmoved_measurePredictor affine).mono fun _ _ h => hR.of_unmoved h).bind fun sigma => ?_
    refine (hR.directions env _ false).bind fun d => keeps_lift_bind fun lengths => ?_
    refine (hR.takeStep d _ _).bind fun _ => ?_
    exact keeps_solver_bind fun s => keeps_report _

theorem conclude : Keeps R (conclude : Run σ α String) := by
  unfold InteriorPoint.conclude
  refine keeps_solver_bind fun s => .ite _ ?_ ?_
  · exact keeps_change_bind (fun s => hR.apparatus s _ _ _ _ _ _ _)
      (keeps_report_bind (keeps_pure _))
  · exact keeps_change_bind (fun s => hR.apparatus s _ _ _ _ _ _ _)
      (keeps_report_bind (keeps_pure _))

end Overlooks

theorem framed_keepBooks (env : Environment σ α) : Keeps Solver.Framed (keepBooks env) := by
  have hcount : Keeps Solver.Framed (countIteration : Run σ α Unit) := by
    unfold countIteration
    refine keeps_change_bind (fun _ => ⟨rfl, rfl, rfl⟩) (keeps_solver_bind fun s => ?_)
    exact .ite _ (keeps_change fun _ => ⟨rfl, rfl, rfl⟩) (keeps_pure ())
  have hverify : ∀ report, Keeps Solver.Framed
      (verifyConditions report : Run σ α (Journal.Measures α)) := by
    intro report
    unfold verifyConditions
    refine keeps_solver_bind fun s => keeps_lift_bind fun q => ?_
    split_ifs
    · exact keeps_report_bind (keeps_report_bind (keeps_pure q))
    · exact keeps_report_bind (keeps_pure q)
    · exact keeps_report_bind (keeps_pure q)
    · exact keeps_pure q
  unfold keepBooks
  exact hcount.bind fun _ => .ite _ (hverify true).discard (keeps_pure ())

theorem framed_iterateWithin (env : Environment σ α) (budget : Nat) :
    Keeps Solver.Framed (iterateWithin env budget) := by
  induction budget with
  | zero => exact keeps_pure ()
  | succ budget ih =>
    rw [iterateWithin_succ]
    refine keeps_solver_bind fun s => .ite _ (keeps_pure ()) ?_
    exact (overlooks_framed.iterate env).bind fun _ => (framed_keepBooks env).bind fun _ => ih

end InteriorPoint

end CentralPath
