/-
  Backends and solvers at a workspace whose debug switch is off. A solver that is employed sees the
  switch through its environment alone, so what is known of watched solvers carries over to the
  workspace, together with the lengths that it keeps in order.
-/
import CentralPath.Proofs.Direct.Observed
import CentralPath.Proofs.InteriorPoint.Observed
import CentralPath.Proofs.Workspace.Observed
import CentralPath.Proofs.Workspace.Targets
import CentralPath.Workspace.Solvers

namespace CentralPath.Desk

open Backend (CallRecord Engine Environment Job Quieter Session Work quieter_self)
open InteriorPoint (Options Outcome Setting Solver Unaffected solve_unwatched
  unaffected_affineDirections unaffected_iterate unaffected_overwrite unaffected_relearn
  unaffected_setOptions unaffected_verifyConditions)
open Sparse (Assembly)

variable {ς α β γ : Type}

/-! ## Backends -/

section

variable [Scalar α]

theorem oblivious_bind (name : String) (matrix : Bound α) (rhs : Array α) :
    Oblivious (Desk.bind name matrix rhs) := by
  unfold Desk.bind
  refine (oblivious_find _ name).bind fun k => (oblivious_engine name).bind fun e => ?_
  cases matrix with
  | named n => exact (oblivious_find _ n).bind fun _ => oblivious_storeEngine k _
  | given g => exact oblivious_storeEngine k _

theorem oblivious_call (name : String) (job : Job) : Oblivious (call name job : Desk α Int) := by
  unfold call
  refine (oblivious_find _ name).bind fun k => (oblivious_engine name).bind fun e => ?_
  -- a reference stands for the same matrix on both sides
  refine oblivious_look (fun _ _ _ => rfl) fun w => ?_
  refine (oblivious_storeEngine k _).bind fun _ => (oblivious_report _).bind fun _ => ?_
  exact oblivious_lift _

theorem oblivious_solution (name : String) : Oblivious (solution name : Desk α (Array α)) :=
  (oblivious_engine name).bind fun _ => oblivious_lift _

omit [Scalar α] in
theorem oblivious_takeCalls (name : String) :
    Oblivious (takeCalls name : Desk α (List (CallRecord α))) := by
  unfold takeCalls
  refine (oblivious_find _ name).bind fun k => (oblivious_engine name).bind fun e => ?_
  exact (oblivious_storeEngine k _).bind fun _ => oblivious_pure _

theorem oblivious_backendFor (name : Option String) : Oblivious (backendFor name : Desk α Nat) := by
  cases name with
  | none => exact oblivious_employEngine _
  | some n => exact oblivious_find _ n

/-! ## Solvers at work -/

/-- The work of a solver on a backend comes to the same without the checks. -/
def Discreet (work : Environment (Engine α) α → Session ς (Engine α) α → β × Session ς (Engine α) α)
    (s : ς) : Prop :=
  ∀ env r r', Quieter r r' → r.solver = s →
    (work env.unwatched r').1 = (work env r).1 ∧ Quieter (work env r).2 (work env.unwatched r').2

/-- What a solver comes to that is employed, and what becomes of the workspace. -/
theorem run_employ (e : Employed ς)
    (work : Environment (Engine α) α → Session ς (Engine α) α → β × Session ς (Engine α) α)
    (w : Workspace α) :
    (employ e work).run.run w =
      let done := work ⟨Engine.backend, w.debug⟩
        ⟨e.solver, w.engines.getD e.engine Engine.newSparse, []⟩
      (.ok (done.1, done.2.solver),
        { w with
          engines := w.engines.setIfInBounds e.engine done.2.backend
          events := w.events ++ done.2.events }) := rfl

/-- A solver is employed, and its work is taken up where something is known of what it came to. -/
theorem oblivious_employ_bind {e : Employed ς} {P : β × ς → Prop} {f : β × ς → Desk α γ}
    {work : Environment (Engine α) α → Session ς (Engine α) α → β × Session ς (Engine α) α}
    (hwork : Discreet work e.solver)
    (hP : ∀ env r, r.solver = e.solver → P ((work env r).1, (work env r).2.solver))
    (hf : ∀ c, P c → Oblivious (f c)) : Oblivious (employ e work >>= f) := by
  rintro w _ ⟨events, rfl, hevents, hw⟩
  obtain ⟨hanswer, hsolver, hbackend, hreported⟩ :=
    hwork ⟨Engine.backend, w.debug⟩ ⟨e.solver, w.engines.getD e.engine Engine.newSparse, []⟩ _
      (quieter_self _) rfl
  -- with the switch off, the solver works in the same environment without the checks
  have hdark : (employ e work).run.run { w with debug := false, events } =
      let done := work (Environment.unwatched ⟨Engine.backend, w.debug⟩)
        ⟨e.solver, w.engines.getD e.engine Engine.newSparse, []⟩
      (.ok (done.1, done.2.solver),
        { w with
          engines := w.engines.setIfInBounds e.engine done.2.backend
          debug := false
          events := events ++ done.2.events }) := rfl
  have hemployed : ShadowsAt Workspace.Unwatched (employ e work) (employ e work) w
      { w with debug := false, events } := by
    unfold ShadowsAt
    rw [hdark, run_employ]
    dsimp only
    rw [hanswer, hsolver, hbackend]
    exact ⟨rfl, _, rfl, hevents.append hreported, hw⟩
  refine hemployed.bind fun c w₁ w₁' hrun hw₁ => ?_
  rw [run_employ] at hrun
  obtain rfl := Except.ok.inj (congrArg Prod.fst hrun)
  exact hf _ (hP _ _ rfl) w₁ w₁' hw₁

omit [Scalar α] in
/-- What is in step from every session is discreet. -/
theorem Discreet.of_shadows {work : Environment (Engine α) α → Work ς (Engine α) α β}
    (h : ∀ env, Shadows Quieter (work env) (work env.unwatched)) (s : ς) :
    Discreet (runWork work) s := fun env r r' hr _ => h env r r' hr

/-! ## Direct solvers -/

theorem oblivious_newDirect (name : String) (backend : Option String) (learns locks : Bool)
    (capacityHint : Int) : Oblivious (newDirect name backend learns locks capacityHint : Desk α Unit) :=
  (oblivious_backendFor backend).bind fun _ => oblivious_change (fun _ _ _ => rfl) fun _ hw => hw

theorem oblivious_withDirect (name : String)
    {work : Environment (Engine α) α → Work (Direct.Solver α) (Engine α) α β}
    (h : ∀ env, Shadows Quieter (work env) (work env.unwatched)) :
    Oblivious (withDirect name work) := by
  unfold withDirect
  refine (oblivious_find _ name).bind fun k => ?_
  refine (oblivious_fetch (fun _ _ _ => rfl) name k).bind fun e => ?_
  refine oblivious_employ_bind (P := fun _ => True) (.of_shadows h _) (fun _ _ _ => trivial) ?_
  rintro ⟨answer, solver⟩ -
  refine Oblivious.bind ?_ fun _ => oblivious_lift answer
  exact oblivious_change (fun _ _ _ => rfl) fun _ hw => hw

theorem oblivious_setup (name : String) (assembly : Assembly α) (dim : Int) :
    Oblivious (setup name assembly dim) :=
  oblivious_withDirect name fun env => Direct.shadows_setupBy env _ dim

theorem oblivious_solveDirect (name : String) (rhs : Array α) : Oblivious (solveDirect name rhs) :=
  oblivious_withDirect name fun env => Direct.shadows_solve env rhs

theorem oblivious_relearnDirect (name : String) : Oblivious (relearnDirect name : Desk α Unit) :=
  oblivious_withDirect name fun _ => Backend.Work.shadows_change _

end

/-! ## Interior-point solvers -/

section

variable [Elementary α]

theorem oblivious_newInterior (name : String) (backend : Option String) (options : Options α) :
    Oblivious (newInterior name backend options) := by
  unfold newInterior
  refine (oblivious_backendFor backend).bind fun engine => ?_
  refine oblivious_change (fun _ _ _ => rfl) fun w hw e he => ?_
  rcases Array.mem_push.mp he with he | rfl
  · exact hw e he
  · exact InteriorPoint.Solver.sized_create _ options

omit [Elementary α] in
/-- An interior-point solver is looked up with its lengths in order. -/
theorem oblivious_fetch_interior_bind {name : String} {k : Nat}
    {f : Employed (InteriorPoint.Solver α) → Desk α β}
    (hf : ∀ e, e.solver.Sized → Oblivious (f e)) :
    Oblivious (fetch (·.interiors) name k >>= f) := by
  intro w w' hw
  refine (oblivious_fetch (fun _ _ _ => rfl) name k w w' hw).bind fun e w₁ w₁' hrun hw₁ => ?_
  obtain ⟨_, -, -, hsized⟩ := hw
  rw [fetch, run_bind_of_ok (run_get w)] at hrun
  rcases hk : w.interiors[k]? with _ | found <;> rw [hk] at hrun <;> cases hrun
  exact hf e (hsized e (Array.mem_of_getElem? hk)) _ w₁' hw₁

omit [Elementary α] in
/-- A solver whose lengths are in order is put back. -/
theorem oblivious_storeInterior_bind {k engine : Nat} {solver : InteriorPoint.Solver α}
    {f : Unit → Desk α β} (h : solver.Sized) (hf : Oblivious (f ())) :
    Oblivious ((modify fun w => { w with interiors := w.interiors.setIfInBounds k ⟨solver, engine⟩ }) >>=
      f) := by
  refine Oblivious.bind ?_ fun _ => hf
  refine oblivious_change (fun _ _ _ => rfl) fun w hw e he => ?_
  rcases Array.mem_or_eq_of_mem_setIfInBounds he with he | rfl
  · exact hw e he
  · exact h

theorem oblivious_withInterior (name : String)
    {work : Environment (Engine α) α → InteriorPoint.Run (Engine α) α β} (h : Unaffected work) :
    Oblivious (withInterior name work) := by
  unfold withInterior
  refine (oblivious_find _ name).bind fun k => oblivious_fetch_interior_bind fun e he => ?_
  refine oblivious_employ_bind (P := fun c => c.2.Sized)
    (fun env r r' hr hs => h.shadows env r r' hr (hs ▸ he)) (fun env r hs => h.sized env r (hs ▸ he)) ?_
  rintro ⟨answer, solver⟩ hsolver
  exact oblivious_storeInterior_bind hsolver (oblivious_lift answer)

theorem oblivious_solve (name problemName : String) :
    Oblivious (solve name problemName : Desk α (Outcome α × Problem α)) := by
  unfold solve
  refine (oblivious_find _ name).bind fun k => oblivious_fetch_interior_bind fun e he => ?_
  refine (oblivious_find _ problemName).bind fun l => (oblivious_problem problemName).bind fun p => ?_
  refine oblivious_employ_bind (P := fun c => c.2.Sized) (fun env r r' hr hs => ?_)
    (fun env r hs => Solver.Sized.session_solve (hs ▸ he) env p) ?_
  · obtain ⟨hanswer, hproblem, hsession⟩ := solve_unwatched env p hr (hs ▸ he)
    exact ⟨Prod.ext hanswer hproblem, hsession⟩
  rintro ⟨⟨answer, q⟩, solver⟩ hsolver
  refine oblivious_storeInterior_bind hsolver ((oblivious_storeProblem l q).bind fun _ => ?_)
  exact oblivious_lift_bind answer fun _ => oblivious_pure _

theorem oblivious_iterate (name : String) : Oblivious (iterate name : Desk α Unit) :=
  oblivious_withInterior name unaffected_iterate

theorem oblivious_affineDirections (name : String) :
    Oblivious (affineDirections name : Desk α (Newton.System.Direction α)) :=
  oblivious_withInterior name unaffected_affineDirections

theorem oblivious_verifyConditions (name : String) (reported : Bool) :
    Oblivious (verifyConditions name reported : Desk α (Journal.Measures α)) :=
  oblivious_withInterior name (unaffected_verifyConditions reported)

theorem oblivious_setOptions (name : String) (settings : List (Setting α)) :
    Oblivious (setOptions name settings) :=
  oblivious_withInterior name (unaffected_setOptions settings)

theorem oblivious_relearnInterior (name : String) : Oblivious (relearnInterior name : Desk α Unit) :=
  oblivious_withInterior name unaffected_relearn

theorem oblivious_overwrite (name : String) (vectors : List (String × Array α)) :
    Oblivious (overwrite name vectors) := by
  unfold overwrite
  refine Oblivious.bind (shadows_forIn (fun (component, v) _ => ?_) vectors _) fun _ =>
    oblivious_pure _
  exact (oblivious_withInterior name (unaffected_overwrite component v)).bind fun _ =>
    oblivious_pure _

end

end CentralPath.Desk
