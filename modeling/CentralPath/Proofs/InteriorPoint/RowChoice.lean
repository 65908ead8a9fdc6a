/-
  What does not depend on the choice of rows. Whether a solver asks for the normal rows alone decides
  which blocks it loads. Everything else that it does is `Blind` to that option: from sessions that
  differ in it alone, it ends in the same way, in sessions that differ in it alone.
-/
import CentralPath.Proofs.InteriorPoint.Solving
import CentralPath.Proofs.Backend.Tandem

namespace CentralPath.InteriorPoint

open Backend (Environment Job MatrixRef Session Work)
open Backend.Work (Abreast abreast_change abreast_change_bind abreast_report abreast_request
  abreast_solution abreast_solver_bind abreast_stopAt)
open Journal (Event)
open Newton.System (Aim Direction)
open Sparse (Block Matrix)

variable {σ α β γ : Type}

/-! ## Sessions that differ in the choice of rows -/

/-- The solver with its choice of rows replaced. -/
def Solver.choosing (s : Solver α) (normalOnly : Bool) : Solver α :=
  { s with options := { s.options with skipTangential := normalOnly } }

/-- The session of the solver with its choice of rows replaced. -/
def choosing (normalOnly : Bool) (r : Session (Solver α) σ α) : Session (Solver α) σ α :=
  { r with solver := r.solver.choosing normalOnly }

/-- From a session and the one with another choice of rows, both works end in the same way, again in
such sessions. The options stay. -/
def Parallel (normalOnly : Bool) (w w' : Run σ α β) (r : Session (Solver α) σ α) : Prop :=
  Abreast w w'
    (fun c s c' s' => c' = c ∧ s' = choosing normalOnly s ∧ s.solver.options = r.solver.options)
    (fun e s e' s' => e' = e ∧ s' = choosing normalOnly s) r (choosing normalOnly r)

/-- The choice of rows makes no difference to the work. -/
def Blind (w : Run σ α β) : Prop := ∀ normalOnly r, Parallel normalOnly w w r

section

variable {normalOnly : Bool} {w w' : Run σ α γ} {f f' : γ → Run σ α β}
  {r : Session (Solver α) σ α}

theorem Parallel.bind (h : Parallel normalOnly w w' r)
    (hf : ∀ c s, s.solver.options = r.solver.options → Parallel normalOnly (f c) (f' c) s) :
    Parallel normalOnly (w >>= f) (w' >>= f') r := by
  refine Abreast.bind h ?_
  rintro c s _ _ ⟨rfl, rfl, ho⟩
  exact (hf _ s ho).mono (fun _ _ _ _ ⟨hc, hs, ho'⟩ => ⟨hc, hs, ho'.trans ho⟩)
    fun _ _ _ _ hR => hR

/-- Parallel works run to the same result, in sessions that differ in the choice of rows. -/
theorem Parallel.run_eq (h : Parallel normalOnly w w' r) :
    w'.run.run (choosing normalOnly r) = (w.run.run r).map id (choosing normalOnly) := by
  unfold Parallel Abreast at h
  rcases hw : w.run.run r with ⟨_ | _, s⟩ <;>
    rcases hw' : w'.run.run (choosing normalOnly r) with ⟨_ | _, s'⟩ <;> rw [hw, hw'] at h
  · obtain ⟨rfl, rfl⟩ := h
    rfl
  · exact h.elim
  · exact h.elim
  · obtain ⟨rfl, rfl, -⟩ := h
    rfl

theorem Blind.bind (h : Blind w) (hf : ∀ c, Blind (f c)) : Blind (w >>= f) :=
  fun normalOnly r => (h normalOnly r).bind fun c s _ => hf c normalOnly s

theorem Blind.ite {w w' : Run σ α β} (c : Prop) [Decidable c] (h : Blind w) (h' : Blind w') :
    Blind (if c then w else w') := by
  split_ifs
  · exact h
  · exact h'

theorem blind_pure (c : β) : Blind (pure c : Run σ α β) := fun _ _ => ⟨rfl, rfl, rfl⟩

theorem blind_throw (e : Fault α) : Blind (throw e : Run σ α β) := fun _ _ => ⟨rfl, rfl⟩

theorem blind_lift (v : Except (Fault α) β) : Blind (Work.lift v : Run σ α β) := by
  cases v with
  | error e => exact blind_throw e
  | ok c => exact blind_pure c

theorem blind_stopAt (fault : Option (Fault α)) : Blind (Work.stopAt fault : Run σ α Unit) := by
  cases fault with
  | none => exact blind_pure ()
  | some e => exact blind_throw e

theorem blind_report (es : List (Event α)) : Blind (Work.report es : Run σ α Unit) :=
  fun _ _ => ⟨rfl, rfl, rfl⟩

theorem blind_change {g : Solver α → Solver α}
    (hg : ∀ s normalOnly, g (s.choosing normalOnly) = (g s).choosing normalOnly)
    (ho : ∀ s, (g s).options = s.options) : Blind (Work.change g : Run σ α Unit) := by
  intro normalOnly r
  refine ⟨rfl, ?_, ho r.solver⟩
  show (⟨g (r.solver.choosing normalOnly), r.backend, r.events⟩ : Session (Solver α) σ α) = _
  rw [hg]
  rfl

theorem blind_solver_bind {f : Solver α → Run σ α β}
    (hf : ∀ s normalOnly, f (s.choosing normalOnly) = f s) (h : ∀ s, Blind (f s)) :
    Blind (Work.solver >>= f) := by
  intro normalOnly r
  unfold Parallel
  rw [abreast_solver_bind]
  show Abreast (f r.solver) (f (r.solver.choosing normalOnly)) _ _ _ _
  rw [hf]
  exact h r.solver normalOnly r

theorem blind_change_bind {g : Solver α → Solver α} {f : Unit → Run σ α β}
    (hg : ∀ s normalOnly, g (s.choosing normalOnly) = (g s).choosing normalOnly)
    (ho : ∀ s, (g s).options = s.options) (hf : Blind (f ())) : Blind (Work.change g >>= f) :=
  (blind_change hg ho).bind fun _ => hf

theorem blind_lift_bind {v : Except (Fault α) γ} {f : γ → Run σ α β} (hf : ∀ c, Blind (f c)) :
    Blind (Work.lift v >>= f) := (blind_lift v).bind hf

theorem blind_report_bind {es : List (Event α)} {f : Unit → Run σ α β} (hf : Blind (f ())) :
    Blind (Work.report es >>= f) := (blind_report es).bind fun _ => hf

theorem Parallel.change_bind {g : Solver α → Solver α} {f f' : Unit → Run σ α β}
    (hg : ∀ s normalOnly, g (s.choosing normalOnly) = (g s).choosing normalOnly)
    (ho : ∀ s, (g s).options = s.options)
    (h : Parallel normalOnly (f ()) (f' ()) { r with solver := g r.solver }) :
    Parallel normalOnly (Work.change g >>= f) (Work.change g >>= f') r := by
  unfold Parallel at h ⊢
  rw [abreast_change_bind]
  dsimp only [choosing] at h ⊢
  rw [hg, ← ho]
  exact h

theorem Parallel.solver_bind {f f' : Solver α → Run σ α β}
    (h : Parallel normalOnly (f r.solver) (f' (r.solver.choosing normalOnly)) r) :
    Parallel normalOnly (Work.solver >>= f) (Work.solver >>= f') r := by
  unfold Parallel at h ⊢
  rw [abreast_solver_bind]
  exact h

theorem Parallel.lift_bind {v v' : Except (Fault α) γ} (hv : v' = v)
    (hf : ∀ c, Parallel normalOnly (f c) (f' c) r) :
    Parallel normalOnly (Work.lift v >>= f) (Work.lift v' >>= f') r := by
  subst hv
  cases v' with
  | error e => exact ⟨rfl, rfl⟩
  | ok c => exact hf c

theorem Blind.discard (h : Blind w) : Blind (discard w) := by
  show Blind ((fun _ => ()) <$> w)
  rw [map_eq_pure_bind]
  exact h.bind fun _ => blind_pure ()

end

theorem Solver.withComponent_choosing (s : Solver α) (normalOnly : Bool) (k : Component)
    (v : Array α) : (s.choosing normalOnly).withComponent k v =
      (s.withComponent k v).choosing normalOnly := by
  cases k <;> rfl

theorem Solver.options_withComponent (s : Solver α) (k : Component) (v : Array α) :
    (s.withComponent k v).options = s.options := by
  cases k <;> rfl

theorem blind_assign {k : Component} {g : Solver α → Except (Fault α) (Array α)}
    (hg : ∀ s normalOnly, g (s.choosing normalOnly) = g s) :
    Blind (Solver.assign k g : Run σ α Unit) := by
  unfold Solver.assign
  refine blind_solver_bind (fun s normalOnly => by rw [hg]) fun s => ?_
  refine (blind_lift (g s)).bind fun v => ?_
  exact blind_change (fun s normalOnly => s.withComponent_choosing normalOnly k v)
    fun s => s.options_withComponent k v

theorem blind_request (env : Environment σ α) (ref : MatrixRef) (matrix : Matrix α)
    (rhs : Array α) (job : Job) (context : String) :
    Blind (Work.request env ref matrix rhs job context : Run σ α Unit) := by
  intro normalOnly r
  unfold Parallel
  rw [abreast_request]
  refine Abreast.lift_bind rfl (fun status _ => ?_) fun e _ => ⟨rfl, rfl⟩
  exact abreast_stopAt rfl ⟨rfl, rfl, rfl⟩ fun e _ => ⟨rfl, rfl⟩

theorem blind_solution (env : Environment σ α) : Blind (Work.solution env : Run σ α (Array α)) :=
  fun _ _ => abreast_solution rfl (fun _ _ => ⟨rfl, rfl, rfl⟩) fun _ _ => ⟨rfl, rfl⟩

/-! ## Newton systems -/

theorem blind_newtonSolve [Elementary α] (env : Environment σ α) (rhs : Array α) (job : Job) :
    Blind (newtonSolve env rhs job) := by
  unfold newtonSolve
  refine blind_solver_bind (fun _ _ => rfl) fun s => ?_
  exact (blind_request env _ _ _ _ _).bind fun _ => blind_solution env

variable [Elementary α]

theorem blind_updateIterateBlocks : Blind (updateIterateBlocks : Run σ α Unit) := by
  unfold updateIterateBlocks
  refine blind_solver_bind (fun _ _ => rfl) fun s => blind_lift_bind fun sys => ?_
  refine blind_change_bind (fun _ _ => rfl) (fun _ => rfl) ?_
  exact blind_report_bind (blind_stopAt _)

theorem blind_directions (env : Environment σ α) (aim : Aim α) (refactor : Bool) :
    Blind (directions env aim refactor) := by
  have hrest : Blind (do
      let s ← Work.solver
      let sys ← Work.lift s.system?
      let rhs ← Work.lift (sys.rightHandSide s.rp s.rd s.y s.lam aim)
      let solution ← newtonSolve env rhs (if refactor then .complete else .solve)
      Work.lift (sys.direction solution s.kkt s.rp s.compliance?)) := by
    refine blind_solver_bind (fun _ _ => rfl) fun s => ?_
    refine blind_lift_bind fun sys => blind_lift_bind fun rhs => ?_
    exact (blind_newtonSolve env _ _).bind fun solution => blind_lift _
  unfold directions
  cases refactor with
  | false => exact hrest
  | true => exact blind_updateIterateBlocks.bind fun _ => hrest

theorem Solver.updateResiduals_choosing (s : Solver α) (normalOnly : Bool) :
    (s.choosing normalOnly).updateResiduals =
      s.updateResiduals.map (·.choosing normalOnly) := by
  unfold Solver.updateResiduals
  rw [show (s.choosing normalOnly).mulA (s.choosing normalOnly).x = s.mulA s.x from rfl,
    show (s.choosing normalOnly).mulE (s.choosing normalOnly).lam = s.mulE s.lam from rfl,
    show (s.choosing normalOnly).mulG (s.choosing normalOnly).x = s.mulG s.x from rfl,
    show (s.choosing normalOnly).mulNegAT (s.choosing normalOnly).lam = s.mulNegAT s.lam from rfl]
  rcases s.mulA s.x with _ | _
  · rfl
  rcases s.mulE s.lam with _ | _
  · rfl
  rcases s.mulG s.x with _ | _
  · rfl
  rcases s.mulNegAT s.lam with _ | _
  · rfl
  · rfl

theorem Solver.options_of_updateResiduals {s s' : Solver α} (h : s.updateResiduals = .ok s') :
    s'.options = s.options := by
  unfold Solver.updateResiduals at h
  obtain ⟨_, -, h⟩ := Newton.exists_of_bind_eq_ok h
  obtain ⟨_, -, h⟩ := Newton.exists_of_bind_eq_ok h
  obtain ⟨_, -, h⟩ := Newton.exists_of_bind_eq_ok h
  obtain ⟨_, -, h⟩ := Newton.exists_of_bind_eq_ok h
  obtain rfl := Except.ok.inj h
  rfl

theorem blind_refreshResiduals : Blind (refreshResiduals : Run σ α Unit) := by
  intro normalOnly r
  unfold Parallel refreshResiduals
  rw [abreast_solver_bind]
  show Abreast (Work.lift r.solver.updateResiduals >>= _)
    (Work.lift (r.solver.choosing normalOnly).updateResiduals >>= _) _ _ _ _
  rw [Solver.updateResiduals_choosing]
  rcases hupdate : r.solver.updateResiduals with e | s
  · exact ⟨rfl, rfl⟩
  · exact ⟨rfl, rfl, Solver.options_of_updateResiduals hupdate⟩

theorem blind_verifyConditions (report : Bool) :
    Blind (verifyConditions report : Run σ α (Journal.Measures α)) := by
  unfold verifyConditions
  refine blind_solver_bind (fun _ _ => rfl) fun s => blind_lift_bind fun q => ?_
  split_ifs
  · exact blind_report_bind (blind_report_bind (blind_pure q))
  · exact blind_report_bind (blind_pure q)
  · exact blind_report_bind (blind_pure q)
  · exact blind_pure q

/-! ## The first iterate -/

theorem blind_startScaledOnes : Blind (startScaledOnes : Run σ α Unit) := by
  unfold startScaledOnes
  refine blind_change_bind (fun _ _ => rfl) (fun _ => rfl) ?_
  refine blind_refreshResiduals.bind fun _ => blind_solver_bind (fun _ _ => rfl) fun s => ?_
  cases onesFactor? s with
  | none => exact blind_pure ()
  | some k => exact blind_change_bind (fun _ _ => rfl) (fun _ => rfl) blind_refreshResiduals

theorem blind_startReciprocal (reuse : Reuse) : Blind (startReciprocal reuse : Run σ α Unit) := by
  have hrest : Blind (reciprocalFromPoint : Run σ α Unit) := by
    unfold reciprocalFromPoint
    refine blind_solver_bind (fun _ _ => rfl) fun s => blind_lift_bind fun image => ?_
    exact blind_change_bind (fun _ _ => rfl) (fun _ => rfl) blind_refreshResiduals
  unfold startReciprocal
  split_ifs
  · exact blind_change_bind (fun _ _ => rfl) (fun _ => rfl) hrest
  · exact hrest

theorem blind_startAffineStep (env : Environment σ α) (reuse : Reuse) :
    Blind (startAffineStep env reuse) := by
  unfold startAffineStep
  refine blind_change_bind (fun _ _ => rfl) (fun _ => rfl) ?_
  refine blind_solver_bind (fun _ _ => rfl) fun s => blind_lift_bind fun image => ?_
  refine blind_change_bind (fun _ _ => rfl) (fun _ => rfl) (blind_refreshResiduals.bind fun _ => ?_)
  refine (blind_directions env .affine true).bind fun d => ?_
  refine (blind_assign fun _ _ => rfl).bind fun _ => (blind_assign fun _ _ => rfl).bind fun _ => ?_
  exact blind_refreshResiduals

theorem blind_startAffineStepOrPrevious (env : Environment σ α) (reuse : Reuse) :
    Blind (startAffineStepOrPrevious env reuse) := by
  unfold startAffineStepOrPrevious
  split_ifs
  · exact blind_startAffineStep env reuse
  refine blind_solver_bind (fun _ _ => rfl) fun previous => blind_refreshResiduals.bind fun _ => ?_
  refine blind_solver_bind (fun _ _ => rfl) fun kept => ?_
  refine (blind_startAffineStep env ⟨true, true⟩).bind fun _ => ?_
  refine blind_solver_bind (fun _ _ => rfl) fun fresh => ?_
  dsimp only
  split_ifs
  · refine blind_change_bind (fun _ _ => rfl) (fun _ => rfl) ?_
    exact blind_refreshResiduals.bind fun _ => blind_report _
  · exact blind_pure ()

theorem blind_startWith (env : Environment σ α) (choice : StartChoice) (reuse : Reuse) :
    Blind (startWith env choice reuse) := by
  unfold startWith
  split
  · exact blind_startScaledOnes
  · exact blind_startReciprocal reuse
  · exact blind_startAffineStep env reuse
  · exact blind_startAffineStepOrPrevious env reuse
  · exact blind_throw _

/-! ## Iterations -/

theorem blind_advance (d : Direction α) (alphaP alphaD : α) :
    Blind (advance d alphaP alphaD : Run σ α Unit) := by
  unfold advance
  refine (blind_assign fun _ _ => rfl).bind fun _ => (blind_assign fun _ _ => rfl).bind fun _ => ?_
  refine (blind_assign fun _ _ => rfl).bind fun _ => (blind_assign fun _ _ => rfl).bind fun _ => ?_
  exact (blind_assign fun _ _ => rfl).bind fun _ => blind_assign fun _ _ => rfl

theorem blind_shrinkPrimal (d : Direction α) (alphaP alphaD : α) :
    Blind (shrinkPrimal d alphaP alphaD : Run σ α Unit) := by
  unfold shrinkPrimal
  refine (blind_assign fun _ _ => rfl).bind fun _ => blind_solver_bind (fun _ _ => rfl) fun s => ?_
  exact .ite _ (blind_assign fun _ _ => rfl) (blind_pure ())

theorem blind_shrinkDual (d : Direction α) (alphaP alphaD : α) :
    Blind (shrinkDual d alphaP alphaD : Run σ α Unit) := by
  unfold shrinkDual
  refine (blind_assign fun _ _ => rfl).bind fun _ => ?_
  exact .ite _ (blind_assign fun _ _ => rfl) (blind_pure ())

theorem blind_takeStep (d : Direction α) (alphaP alphaD : α) :
    Blind (takeStep d alphaP alphaD : Run σ α Unit) := by
  unfold takeStep
  refine (blind_advance d alphaP alphaD).bind fun _ => ?_
  refine (blind_shrinkPrimal d alphaP alphaD).bind fun _ => ?_
  refine (blind_shrinkDual d alphaP alphaD).bind fun _ => ?_
  refine blind_solver_bind (fun _ _ => rfl) fun s => ?_
  split_ifs
  · exact blind_throw _
  · exact blind_change (fun _ _ => rfl) fun _ => rfl

theorem blind_measurePredictor (affine : Direction α) :
    Blind (measurePredictor affine : Run σ α α) := by
  unfold measurePredictor
  refine blind_solver_bind (fun _ _ => rfl) fun s => blind_lift_bind fun lengths => ?_
  dsimp only
  refine (blind_assign fun _ _ => rfl).bind fun _ => (blind_assign fun _ _ => rfl).bind fun _ => ?_
  refine blind_solver_bind (fun _ _ => rfl) fun s => ?_
  split_ifs
  · exact blind_throw _
  · exact blind_lift _

theorem blind_iterate (env : Environment σ α) : Blind (iterate env) := by
  unfold iterate
  refine (blind_directions env .affine true).bind fun affine => ?_
  refine blind_solver_bind (fun _ _ => rfl) fun s => .ite _ ?_ ?_
  · unfold predictorIteration
    refine blind_solver_bind (fun _ _ => rfl) fun s => blind_lift_bind fun lengths => ?_
    refine (blind_takeStep affine _ _).bind fun _ => ?_
    exact blind_solver_bind (fun _ _ => rfl) fun s => blind_report _
  · unfold correctorIteration
    refine blind_solver_bind (fun _ _ => rfl) fun s => ?_
    refine (blind_measurePredictor affine).bind fun sigma => ?_
    refine (blind_directions env _ false).bind fun d => blind_lift_bind fun lengths => ?_
    refine (blind_takeStep d _ _).bind fun _ => ?_
    exact blind_solver_bind (fun _ _ => rfl) fun s => blind_report _

theorem blind_countIteration : Blind (countIteration : Run σ α Unit) := by
  unfold countIteration
  refine blind_change_bind (fun _ _ => rfl) (fun _ => rfl) ?_
  refine blind_solver_bind (fun _ _ => rfl) fun s => ?_
  exact .ite _ (blind_change (fun _ _ => rfl) fun _ => rfl) (blind_pure ())

theorem blind_keepBooks (env : Environment σ α) : Blind (keepBooks env) := by
  unfold keepBooks
  refine blind_countIteration.bind fun _ => ?_
  exact .ite _ (blind_verifyConditions true).discard (blind_pure ())

theorem blind_iterateWithin (env : Environment σ α) (budget : Nat) :
    Blind (iterateWithin env budget) := by
  induction budget with
  | zero => exact blind_pure ()
  | succ budget ih =>
    rw [iterateWithin_succ]
    refine blind_solver_bind (fun _ _ => rfl) fun s => .ite _ (blind_pure ()) ?_
    exact (blind_iterate env).bind fun _ => (blind_keepBooks env).bind fun _ => ih

theorem blind_conclude : Blind (conclude : Run σ α String) := by
  unfold conclude
  refine blind_solver_bind (fun _ _ => rfl) fun s => .ite _ ?_ ?_
  · refine blind_change_bind (fun _ _ => rfl) (fun _ => rfl) ?_
    exact blind_report_bind (blind_pure _)
  · refine blind_change_bind (fun _ _ => rfl) (fun _ => rfl) ?_
    exact blind_report_bind (blind_pure _)

/-! ## Loading and assembly -/

theorem Solver.resizeUnknowns_choosing (s : Solver α) (normalOnly : Bool) (n : Nat) :
    (s.choosing normalOnly).resizeUnknowns n = (s.resizeUnknowns n).choosing normalOnly := by
  unfold Solver.resizeUnknowns
  by_cases hn : n = s.n
  · rw [if_pos (show n = (s.choosing normalOnly).n from hn), if_pos hn]
  · rw [if_neg (show ¬n = (s.choosing normalOnly).n from hn), if_neg hn]
    rfl

theorem Solver.options_resizeUnknowns (s : Solver α) (n : Nat) :
    (s.resizeUnknowns n).options = s.options := by
  unfold Solver.resizeUnknowns
  split_ifs
  · rfl
  · rfl

theorem Solver.allocate_choosing (s : Solver α) (normalOnly : Bool) (n m : Nat) :
    (s.choosing normalOnly).allocate n m = (s.allocate n m).choosing normalOnly := by
  unfold Solver.allocate
  dsimp only
  rw [resizeUnknowns_choosing]
  generalize s.resizeUnknowns n = u
  by_cases hm : m = u.m
  · rw [if_pos (show m = (u.choosing normalOnly).m from hm), if_pos hm]
    rfl
  · rw [if_neg (show ¬m = (u.choosing normalOnly).m from hm), if_neg hm]
    rfl

theorem Solver.options_allocate (s : Solver α) (n m : Nat) :
    (s.allocate n m).options = s.options := by
  unfold Solver.allocate
  dsimp only
  split_ifs
  · exact s.options_resizeUnknowns n
  · exact s.options_resizeUnknowns n

theorem blind_allocateFor (n : Nat) (m : Int) : Blind (allocateFor n m : Run σ α Unit) := by
  unfold allocateFor
  split_ifs
  · exact blind_change_bind (fun s normalOnly => s.resizeUnknowns_choosing normalOnly n)
      (fun s => s.options_resizeUnknowns n) (blind_throw _)
  · exact blind_change (fun s normalOnly => s.allocate_choosing normalOnly n m.toNat)
      fun s => s.options_allocate n m.toNat

theorem blind_loadInto {before : Matrix α} {put : Matrix α → Solver α → Solver α} {b : Block α}
    {hint : Int}
    (hput : ∀ M s normalOnly, put M (s.choosing normalOnly) = (put M s).choosing normalOnly)
    (ho : ∀ M s, (put M s).options = s.options) :
    Blind (loadInto before put b hint : Run σ α Unit) := by
  unfold loadInto
  exact blind_change_bind (hput _) (ho _) (blind_report_bind (blind_stopAt _))

theorem blind_loadHessian (p : Problem α) : Blind (loadHessian p : Run σ α Unit) := by
  unfold loadHessian loadExactly
  refine blind_solver_bind (fun _ _ => rfl) fun s => ?_
  exact blind_loadInto (fun _ _ _ => rfl) fun _ _ => rfl

theorem blind_adoptCompliance : Blind (adoptCompliance : Run σ α Unit) := by
  unfold adoptCompliance
  refine blind_change_bind (fun _ _ => rfl) (fun _ => rfl) ?_
  refine blind_solver_bind (fun _ _ => rfl) fun s => .ite _ ?_ ?_
  · split_ifs
    · exact blind_throw _
    · refine blind_lift_bind fun diagE => ?_
      exact blind_change (fun _ _ => rfl) fun _ => rfl
  · exact blind_change (fun _ _ => rfl) fun _ => rfl

theorem blind_learnPattern (sys : Newton.System) : Blind (learnPattern sys : Run σ α Unit) := by
  unfold learnPattern
  refine blind_solver_bind (fun _ _ => rfl) fun s => blind_lift_bind fun fresh => ?_
  refine (blind_stopAt _).bind fun _ => blind_lift_bind fun kkt => ?_
  exact blind_change_bind (fun _ _ => rfl) (fun _ => rfl) (blind_report _)

theorem blind_resetSystem (sys : Newton.System) : Blind (resetSystem sys : Run σ α Unit) := by
  unfold resetSystem
  refine blind_solver_bind (fun _ _ => rfl) fun s => blind_lift_bind fun hint => ?_
  refine blind_lift_bind fun kkt => ?_
  exact blind_change (fun _ _ => rfl) fun _ => rfl

theorem blind_assembleSystem (env : Environment σ α) (sys : Newton.System) :
    Blind (assembleSystem env sys) := by
  unfold assembleSystem
  refine blind_solver_bind (fun _ _ => rfl) fun s => blind_lift_bind fun bounded => ?_
  refine blind_change_bind (fun _ _ => rfl) (fun _ => rfl) ?_
  split_ifs
  · refine (blind_learnPattern sys).bind fun _ => blind_solver_bind (fun _ _ => rfl) fun s => ?_
    refine blind_change_bind (fun _ _ => rfl) (fun _ => rfl) (blind_report_bind ?_)
    refine (blind_stopAt _).bind fun _ => ?_
    exact blind_change_bind (fun _ _ => rfl) (fun _ => rfl) (blind_report _)
  · refine (blind_resetSystem sys).bind fun _ => blind_solver_bind (fun _ _ => rfl) fun s => ?_
    refine blind_change_bind (fun _ _ => rfl) (fun _ => rfl) (blind_report_bind ?_)
    refine (blind_stopAt _).bind fun _ => ?_
    exact blind_change_bind (fun _ _ => rfl) (fun _ => rfl) (blind_report _)

end CentralPath.InteriorPoint
