/-
  Work at a workspace whose debug switch is off. Work is `Oblivious` to the switch if it answers the
  same, or is refused for the same fault, and leaves the same workspace up to the switch itself and to
  what was reported. Here is that of everything done with matrices, patterns, Newton systems and
  problems. The lengths of the interior-point solvers are in order at each point on the way, which
  their solves will rely on.
-/
import CentralPath.Proofs.InteriorPoint.Measurable
import CentralPath.Proofs.Shadow
import CentralPath.Workspace.Systems

namespace CentralPath

open Backend (Engine)
open Journal (Event storageEvents)
open Sparse (Action Assembly Matrix Pattern Target)

variable {α β γ : Type}

/-- The second workspace is the first one with the debug switch off and with part of its events. The
lengths of the interior-point solvers are in order. -/
def Workspace.Unwatched (w w' : Workspace α) : Prop :=
  ∃ events, w' = { w with debug := false, events } ∧ events.Sublist w.events ∧
    ∀ e ∈ w.interiors, e.solver.Sized

namespace Desk

/-- The work comes to the same with the debug switch off. -/
def Oblivious (d : Desk α β) : Prop := Shadows Workspace.Unwatched d d

/-! ## Along the program -/

section

theorem Oblivious.bind {d : Desk α γ} {f : γ → Desk α β} (h : Oblivious d)
    (hf : ∀ c, Oblivious (f c)) : Oblivious (d >>= f) := Shadows.bind h hf

theorem oblivious_pure (b : β) : Oblivious (pure b : Desk α β) := shadows_pure b

theorem oblivious_throw (e : Fault α) : Oblivious (throw e : Desk α β) := shadows_throw e

theorem oblivious_lift (v : Except (Fault α) β) : Oblivious (lift v) := by
  cases v with
  | ok b => exact oblivious_pure b
  | error e => exact oblivious_throw e

theorem oblivious_lift_bind (v : Except (Fault α) γ) {f : γ → Desk α β}
    (hf : ∀ c, Oblivious (f c)) : Oblivious (lift v >>= f) := (oblivious_lift v).bind hf

theorem oblivious_stopAt (fault : Option (Fault α)) : Oblivious (stopAt fault) := by
  cases fault with
  | none => exact oblivious_pure ()
  | some e => exact oblivious_throw e

theorem oblivious_mapM {f : γ → Desk α β} (h : ∀ c, Oblivious (f c)) (c : Option γ) :
    Oblivious (c.mapM f) := shadows_mapM h c

/-- What goes on from the workspace is the same from every switch and all events. -/
theorem oblivious_look {f : Workspace α → Desk α β}
    (hf : ∀ w debug events, f { w with debug, events } = f w) (h : ∀ w, Oblivious (f w)) :
    Oblivious (get >>= f) := by
  refine shadows_get_bind ?_
  rintro w _ ⟨events, rfl, hw⟩
  rw [hf w false events]
  exact h w w _ ⟨events, rfl, hw⟩

/-- A change that neither looks at the switch and the events nor alters them. -/
theorem oblivious_change {g : Workspace α → Workspace α}
    (hg : ∀ w debug events, g { w with debug, events } = { g w with debug, events })
    (hsized : ∀ w, (∀ e ∈ w.interiors, e.solver.Sized) → ∀ e ∈ (g w).interiors, e.solver.Sized) :
    Oblivious (modify g) := by
  refine shadows_modify ?_
  rintro w _ ⟨events, rfl, hevents, hw⟩
  have hkept : (g w).events = w.events := by
    have heq := hg w w.debug w.events
    exact (congrArg Workspace.events heq :)
  exact ⟨events, hg w false events, hkept ▸ hevents, hsized w hw⟩

theorem oblivious_report (es : List (Event α)) : Oblivious (report es) := by
  refine shadows_modify ?_
  rintro w _ ⟨events, rfl, hevents, hw⟩
  exact ⟨events ++ es, rfl, hevents.append (.refl es), hw⟩

/-- The report of a storage check is made while the switch is on. -/
theorem oblivious_checked (context : String) (m : Matrix α) :
    Oblivious (do report (storageEvents (← get).debug context m)) := by
  refine shadows_get_bind ?_
  rintro w _ ⟨events, rfl, hevents, hw⟩
  exact ⟨rfl, events ++ [], rfl, hevents.append (List.nil_sublist _), hw⟩

theorem oblivious_checked_bind {context : String} {m : Matrix α} {f : Unit → Desk α β}
    (hf : Oblivious (f ())) :
    Oblivious (get >>= fun w => report (storageEvents w.debug context m) >>= f) :=
  (oblivious_checked context m).bind fun _ => hf

end

/-! ## Finding and storing -/

theorem oblivious_find (select : Handle → Option Nat) (name : String) :
    Oblivious (find select name : Desk α Nat) := by
  unfold find
  refine oblivious_look (fun _ _ _ => rfl) fun w => ?_
  cases w.handle? name >>= select with
  | none => exact oblivious_throw _
  | some k => exact oblivious_pure k

theorem oblivious_fetch {objects : Workspace α → Array β}
    (h : ∀ w debug events, objects { w with debug, events } = objects w) (name : String) (k : Nat) :
    Oblivious (fetch objects name k) := by
  unfold fetch
  refine oblivious_look (fun w debug events => by rw [h]) fun w => ?_
  cases (objects w)[k]? with
  | none => exact oblivious_throw _
  | some b => exact oblivious_pure b

/-- The object of a name. -/
theorem oblivious_named {objects : Workspace α → Array β}
    (h : ∀ w debug events, objects { w with debug, events } = objects w)
    (select : Handle → Option Nat) (name : String) :
    Oblivious (do fetch objects name (← find select name)) :=
  (oblivious_find select name).bind fun k => oblivious_fetch h name k

theorem oblivious_matrix (name : String) : Oblivious (matrix name : Desk α (Matrix α)) :=
  oblivious_named (fun _ _ _ => rfl) _ name

theorem oblivious_pattern (name : String) : Oblivious (pattern name : Desk α Pattern) :=
  oblivious_named (fun _ _ _ => rfl) _ name

theorem oblivious_problem (name : String) : Oblivious (problem name : Desk α (Problem α)) :=
  oblivious_named (fun _ _ _ => rfl) _ name

theorem oblivious_system (name : String) : Oblivious (system name : Desk α Newton.System) :=
  oblivious_named (fun _ _ _ => rfl) _ name

theorem oblivious_engine (name : String) : Oblivious (engine name : Desk α (Engine α)) :=
  oblivious_named (fun _ _ _ => rfl) _ name

theorem oblivious_direct (name : String) : Oblivious (direct name : Desk α (Direct.Solver α)) :=
  (oblivious_find _ name).bind fun k =>
    (oblivious_fetch (fun _ _ _ => rfl) name k).bind fun e => oblivious_pure e.solver

theorem oblivious_interior (name : String) :
    Oblivious (interior name : Desk α (InteriorPoint.Solver α)) :=
  (oblivious_find _ name).bind fun k =>
    (oblivious_fetch (fun _ _ _ => rfl) name k).bind fun e => oblivious_pure e.solver

theorem oblivious_entriesOf (name : String) :
    Oblivious (entriesOf name : Desk α (List (Sparse.Entry α))) :=
  (oblivious_matrix name).bind fun _ => oblivious_lift _

theorem oblivious_name (n : String) (h : Handle) : Oblivious (Desk.name n h : Desk α Unit) :=
  oblivious_change (fun _ _ _ => rfl) fun _ hw => hw

theorem oblivious_storeMatrix (k : Nat) (m : Matrix α) : Oblivious (storeMatrix k m) :=
  oblivious_change (fun _ _ _ => rfl) fun _ hw => hw

theorem oblivious_storePattern (k : Nat) (p : Pattern) :
    Oblivious (storePattern k p : Desk α Unit) :=
  oblivious_change (fun _ _ _ => rfl) fun _ hw => hw

theorem oblivious_storeProblem (k : Nat) (p : Problem α) : Oblivious (storeProblem k p) :=
  oblivious_change (fun _ _ _ => rfl) fun _ hw => hw

theorem oblivious_storeEngine (k : Nat) (e : Engine α) : Oblivious (storeEngine k e) :=
  oblivious_change (fun _ _ _ => rfl) fun _ hw => hw

theorem oblivious_addMatrix (name : String) (m : Matrix α) : Oblivious (addMatrix name m) :=
  oblivious_change (fun _ _ _ => rfl) fun _ hw => hw

theorem oblivious_addPattern (name : String) (p : Pattern) :
    Oblivious (addPattern name p : Desk α Unit) :=
  oblivious_change (fun _ _ _ => rfl) fun _ hw => hw

theorem oblivious_addSystem (name : String) (s : Newton.System) :
    Oblivious (addSystem name s : Desk α Unit) :=
  oblivious_change (fun _ _ _ => rfl) fun _ hw => hw

theorem oblivious_addProblem (name : String) (p : Problem α) : Oblivious (addProblem name p) :=
  oblivious_change (fun _ _ _ => rfl) fun _ hw => hw

theorem oblivious_employEngine (e : Engine α) : Oblivious (employEngine e) := by
  unfold employEngine
  refine oblivious_look (fun _ _ _ => rfl) fun w => ?_
  refine Oblivious.bind ?_ fun _ => oblivious_pure _
  exact oblivious_change (fun _ _ _ => rfl) fun _ hw => hw

theorem oblivious_addEngine (n : String) (e : Engine α) : Oblivious (addEngine n e) :=
  (oblivious_employEngine e).bind fun _ => oblivious_name n _

/-! ## Matrices and patterns -/

theorem oblivious_reportChange (before after : Matrix α) (context : Option String) :
    Oblivious (reportChange before after context) := by
  unfold reportChange
  refine (oblivious_report _).bind fun _ => ?_
  cases context with
  | none => exact oblivious_pure ()
  | some c => exact oblivious_checked c after

section

variable [Scalar α]

theorem oblivious_actOn (name : String) (k : Nat) (a : Action α) : Oblivious (actOn name k a) := by
  unfold actOn
  refine (oblivious_fetch (fun _ _ _ => rfl) name k).bind fun m => ?_
  refine (oblivious_storeMatrix k _).bind fun _ => (oblivious_reportChange _ _ _).bind fun _ => ?_
  exact (oblivious_stopAt _).bind fun _ => oblivious_pure _

theorem oblivious_act (name : String) (a : Action α) : Oblivious (act name a) :=
  (oblivious_find _ name).bind fun k => oblivious_actOn name k a

theorem oblivious_writeAll (name : String) (ws : List (Sparse.Write α)) :
    Oblivious (writeAll name ws) := by
  unfold writeAll
  refine (oblivious_find _ name).bind fun k => ?_
  have hwrites : Oblivious (forIn ws PUnit.unit fun w _ => do
      let _ ← actOn name k (.write w)
      pure (ForInStep.yield PUnit.unit)) :=
    shadows_forIn (fun w _ => (oblivious_actOn name k _).bind fun _ => oblivious_pure _) ws _
  exact hwrites.bind fun _ => oblivious_pure _

theorem oblivious_newMatrix (name : String) (rows cols : Int) (o : Sparse.Orientation) (hint : Int) :
    Oblivious (newMatrix name rows cols o hint : Desk α Unit) :=
  oblivious_lift_bind _ fun m => oblivious_addMatrix name m

theorem oblivious_newMatrixOf (name : String) (table : Nested α) (o : Sparse.Orientation) :
    Oblivious (newMatrixOf name table o) := by
  unfold newMatrixOf
  refine oblivious_lift_bind _ fun t => (oblivious_report _).bind fun _ => ?_
  exact oblivious_checked_bind (oblivious_addMatrix name _)

omit [Scalar α] in
theorem oblivious_copyMatrix (name target : String) :
    Oblivious (copyMatrix name target : Desk α Unit) :=
  (oblivious_matrix name).bind fun m => oblivious_addMatrix target m

theorem oblivious_accumulate (name : String) (other : Option String) (negated : Bool) :
    Oblivious (accumulate name other negated : Desk α Unit) := by
  unfold accumulate
  refine (oblivious_find _ name).bind fun k => ?_
  cases other with
  | none => exact oblivious_throw _
  | some n =>
    refine (oblivious_find _ n).bind fun l => (oblivious_matrix n).bind fun addend => ?_
    exact (oblivious_actOn name k _).bind fun _ => oblivious_pure _

theorem oblivious_scale (name : String) (factor : Option α) : Oblivious (scale name factor) := by
  unfold scale
  refine (oblivious_find _ name).bind fun k => ?_
  cases factor with
  | none => exact oblivious_throw _
  | some f => exact (oblivious_actOn name k _).bind fun _ => oblivious_pure _

theorem oblivious_same (name : String) (other : Option String) :
    Oblivious (same name other : Desk α Bool) := by
  unfold same
  refine (oblivious_matrix name).bind fun m => ?_
  cases other with
  | none => exact oblivious_pure false
  | some n => exact (oblivious_matrix n).bind fun _ => oblivious_lift _

theorem oblivious_load (name patternName : String) :
    Oblivious (load name patternName : Desk α Unit) := by
  unfold load
  refine (oblivious_find _ name).bind fun k => (oblivious_pattern patternName).bind fun p => ?_
  exact (oblivious_actOn name k _).bind fun _ => oblivious_pure _

omit [Scalar α] in
theorem oblivious_edit (name : String) (e : Sparse.RawEdit α) : Oblivious (edit name e) := by
  unfold edit
  refine (oblivious_find _ name).bind fun k => (oblivious_matrix name).bind fun m => ?_
  exact oblivious_lift_bind _ fun edited => oblivious_storeMatrix k edited

theorem oblivious_addRebuilt (name : String) (r : Sparse.Rebuilt α) :
    Oblivious (addRebuilt name r) := by
  unfold addRebuilt
  exact (oblivious_report _).bind fun _ => oblivious_checked_bind (oblivious_addMatrix name _)

end

theorem oblivious_newPattern (name : String) (rows cols : Int) (o : Sparse.Orientation) :
    Oblivious (newPattern name rows cols o : Desk α Unit) :=
  oblivious_lift_bind _ fun p => oblivious_addPattern name p

theorem oblivious_record (name : String) (positions : List (Int × Int)) :
    Oblivious (record name positions : Desk α Unit) := by
  unfold record
  refine (oblivious_find _ name).bind fun k => Oblivious.bind ?_ fun _ => oblivious_pure _
  refine shadows_forIn (fun (row, col) _ => ?_) positions _
  refine (oblivious_fetch (fun _ _ _ => rfl) name k).bind fun p => oblivious_lift_bind _ fun q => ?_
  exact (oblivious_storePattern k q).bind fun _ => oblivious_pure _

theorem oblivious_resetPattern (name : String) (rows cols : Int) :
    Oblivious (resetPattern name rows cols : Desk α Unit) := by
  unfold resetPattern
  refine (oblivious_pattern name).bind fun p => (oblivious_find _ name).bind fun k => ?_
  exact oblivious_lift_bind _ fun q => oblivious_storePattern k q

theorem oblivious_collapsedPattern (name : String) :
    Oblivious (collapsedPattern name : Desk α Pattern) := by
  unfold collapsedPattern
  refine (oblivious_pattern name).bind fun p => (oblivious_find _ name).bind fun k => ?_
  exact (oblivious_storePattern k _).bind fun _ => oblivious_pure _

/-! ## Targets, systems and problems -/

theorem oblivious_target (name : String) : Oblivious (target name : Desk α (Handle × Target α)) := by
  unfold target
  refine oblivious_look (fun _ _ _ => rfl) fun w => ?_
  split
  · exact (oblivious_fetch (fun _ _ _ => rfl) name _).bind fun _ => oblivious_pure _
  · exact (oblivious_fetch (fun _ _ _ => rfl) name _).bind fun _ => oblivious_pure _
  · exact oblivious_throw _

theorem oblivious_storeTarget (h : Handle) (before after : Target α) :
    Oblivious (storeTarget h before after) := by
  unfold storeTarget
  split
  · exact (oblivious_storeMatrix _ _).bind fun _ => oblivious_report _
  · exact oblivious_storePattern _ _
  · exact oblivious_pure ()

theorem oblivious_newSystem (name : String) (choice : Newton.Choice) (n m : Int) :
    Oblivious (newSystem name choice n m : Desk α Newton.System) :=
  oblivious_lift_bind _ fun s => (oblivious_addSystem name s).bind fun _ => oblivious_pure s

theorem oblivious_changeTarget (targetName : Option String)
    (f : Target α → Option (Fault α) × Target α) : Oblivious (changeTarget targetName f) := by
  unfold changeTarget
  cases targetName with
  | none => exact oblivious_pure ()
  | some n =>
    refine (oblivious_target n).bind fun (h, t) => ?_
    exact (oblivious_storeTarget h t _).bind fun _ => oblivious_stopAt _

theorem oblivious_checkTarget (name : Option String) :
    Oblivious (checkTarget name : Desk α Unit) := by
  unfold checkTarget
  cases name with
  | none => exact oblivious_pure ()
  | some n => exact (oblivious_target n).bind fun _ => oblivious_pure _

theorem oblivious_bufferLength (length : Int) : Oblivious (bufferLength length : Desk α Nat) := by
  unfold bufferLength
  split_ifs
  · exact oblivious_throw _
  · exact oblivious_pure _

section

variable [Scalar α]

theorem oblivious_assemble (name : String) (a : Assembly α) : Oblivious (assemble name a) := by
  unfold assemble
  refine (oblivious_target name).bind fun (h, t) => ?_
  exact (oblivious_storeTarget h t _).bind fun _ => oblivious_stopAt _

theorem oblivious_assembleSystem (name targetName G A : String) (E : Option String) :
    Oblivious (assembleSystem name targetName G A E : Desk α Unit) := by
  have hblocks (s : Newton.System) {rest : Desk α Unit} (h : Oblivious rest) : Oblivious (do
      assemble targetName (.ofWrites (Newton.System.hessianWrites (← entriesOf G)))
      assemble targetName (.ofWrites (s.jacobianWrites (← entriesOf A)))
      rest) :=
    (oblivious_entriesOf G).bind fun _ => (oblivious_assemble targetName _).bind fun _ =>
      (oblivious_entriesOf A).bind fun _ => (oblivious_assemble targetName _).bind fun _ => h
  unfold assembleSystem
  refine (oblivious_system name).bind fun s => (oblivious_target targetName).bind fun _ => ?_
  refine (oblivious_matrix G).bind fun _ => (oblivious_matrix A).bind fun _ => ?_
  cases E with
  | none => exact hblocks s (oblivious_assemble targetName _)
  | some e =>
    refine (oblivious_matrix e).bind fun _ => hblocks s ((oblivious_entriesOf e).bind fun _ => ?_)
    exact (oblivious_assemble targetName _).bind fun _ => oblivious_assemble targetName _

theorem oblivious_updateSystem (name targetName : String) (y lam diagE : Array α) :
    Oblivious (updateSystem name targetName y lam diagE) :=
  (oblivious_system name).bind fun _ => oblivious_assemble targetName _

theorem oblivious_rightHandSide (name : String) (rp rd y lam : Array α)
    (aim : Newton.System.Aim α) : Oblivious (rightHandSide name rp rd y lam aim) :=
  (oblivious_system name).bind fun _ => oblivious_lift _

theorem oblivious_direction (name : String) (solution : Array α) (kkt : String) (rp : Array α)
    (E : Option String) : Oblivious (direction name solution kkt rp E) := by
  unfold direction
  refine (oblivious_system name).bind fun s => (oblivious_matrix kkt).bind fun m => ?_
  exact (oblivious_mapM oblivious_matrix E).bind fun e => oblivious_lift _

theorem oblivious_mulSystemBlock (name : String) (block : SystemBlock) (kkt : String) (v : Array α) :
    Oblivious (mulSystemBlock name block kkt v) := by
  unfold mulSystemBlock
  refine (oblivious_system name).bind fun s => (oblivious_matrix kkt).bind fun m => ?_
  cases block with
  | jacobian => exact oblivious_lift _
  | hessian => exact oblivious_lift _
  | negJacobianTransposed => exact oblivious_lift _

theorem oblivious_newProblem (name : String) (G : GivenMatrix α) (c : Array α) (A : GivenMatrix α)
    (b : Array α) (E : Option (GivenMatrix α)) (triplets : Bool) (d : Departure α) :
    Oblivious (newProblem name G c A b E triplets d) := by
  unfold newProblem
  refine oblivious_lift_bind _ fun p => ?_
  exact (oblivious_addProblem name _).bind fun _ => oblivious_pure _

theorem oblivious_convert (name : String) (d : Destination) (normalOnly : Bool) :
    Oblivious (convert name d normalOnly : Desk α (Option (Array α) × Option (Array α))) := by
  unfold convert
  refine (oblivious_problem name).bind fun p => (oblivious_checkTarget _).bind fun _ => ?_
  refine (oblivious_checkTarget _).bind fun _ => (oblivious_checkTarget _).bind fun _ => ?_
  refine (oblivious_mapM oblivious_bufferLength _).bind fun linear => ?_
  refine (oblivious_mapM oblivious_bufferLength _).bind fun bound => ?_
  refine (oblivious_changeTarget _ _).bind fun _ => (oblivious_changeTarget _ _).bind fun _ => ?_
  refine (oblivious_changeTarget _ _).bind fun _ => ?_
  refine (oblivious_mapM (fun k => oblivious_lift _) linear).bind fun f => ?_
  refine (oblivious_mapM (fun k => oblivious_lift _) bound).bind fun b => ?_
  exact (oblivious_changeTarget _ _).bind fun _ => oblivious_pure _

theorem oblivious_receive (name : String) (v : Array α) : Oblivious (receive name v) := by
  unfold receive
  refine (oblivious_problem name).bind fun p => oblivious_lift_bind _ fun q => ?_
  refine (oblivious_find _ name).bind fun k => ?_
  exact (oblivious_storeProblem k q).bind fun _ => oblivious_pure q

end

end Desk

end CentralPath
