/-
  Work that is watched. `Quieter r r'` relates two sessions that agree in everything but what was
  reported: the second one has part of the events of the first. A computation with debug checks on and
  the same one with the checks off are to keep sessions in this relation (`Shadows Quieter`), and here
  are the rules for the parts that such computations are put together from.
-/
import CentralPath.Proofs.Backend.Work
import CentralPath.Proofs.Shadow

namespace CentralPath.Backend

open Journal (Event)
open Sparse (Matrix)

variable {ς σ α β γ : Type}

/-- The second session is the first one with fewer events. -/
structure Quieter (r r' : Session ς σ α) : Prop where
  solver : r'.solver = r.solver
  backend : r'.backend = r.backend
  events : r'.events.Sublist r.events

theorem quieter_self (r : Session ς σ α) : Quieter r r := ⟨rfl, rfl, .refl _⟩

/-- The same backend with the debug checks off. -/
def Environment.unwatched (env : Environment σ α) : Environment σ α := { env with debug := false }

namespace Work

variable {w w' : Work ς σ α γ} {f f' : γ → Work ς σ α β} {r r' : Session ς σ α}

/-! ## From one pair of sessions on -/

theorem shadowsAt_change_bind {g : ς → ς} {f f' : Unit → Work ς σ α β} (hr : Quieter r r')
    (h : ∀ r₁', Quieter { r with solver := g r.solver } r₁' →
      ShadowsAt Quieter (f ()) (f' ()) { r with solver := g r.solver } r₁') :
    ShadowsAt Quieter (change g >>= f) (change g >>= f') r r' :=
  h { r' with solver := g r'.solver } ⟨congrArg g hr.solver, hr.backend, hr.events⟩

theorem shadowsAt_solver_bind {f f' : ς → Work ς σ α β} (hr : Quieter r r')
    (h : ShadowsAt Quieter (f r.solver) (f' r.solver) r r') :
    ShadowsAt Quieter (solver >>= f) (solver >>= f') r r' := by
  show ShadowsAt Quieter (f r.solver) (f' r'.solver) r r'
  rw [hr.solver]
  exact h

/-- One computation after the other, where it is known what the first one ends in. -/
theorem shadowsAt_bind {Q : γ → Session ς σ α → Prop} {R : Fault α → Session ς σ α → Prop}
    (h : ShadowsAt Quieter w w' r r') (hw : Ends w Q R r)
    (hf : ∀ c r₁ r₁', Q c r₁ → Quieter r₁ r₁' → ShadowsAt Quieter (f c) (f' c) r₁ r₁') :
    ShadowsAt Quieter (w >>= f) (w' >>= f') r r' := by
  refine h.bind fun c r₁ r₁' hrun hr₁ => hf c r₁ r₁' ?_ hr₁
  unfold Ends at hw
  rw [hrun] at hw
  exact hw

/-! ## From all sessions -/

theorem shadows_lift (v : Except (Fault α) β) :
    Shadows Quieter (lift v : Work ς σ α β) (lift v) := by
  cases v with
  | ok b => exact shadows_pure b
  | error e => exact shadows_throw e

theorem shadows_lift_bind (v : Except (Fault α) γ) (hf : ∀ c, Shadows Quieter (f c) (f' c)) :
    Shadows Quieter (lift v >>= f) (lift v >>= f') := (shadows_lift v).bind hf

theorem shadows_stopAt (fault : Option (Fault α)) :
    Shadows Quieter (stopAt fault : Work ς σ α Unit) (stopAt fault) := by
  cases fault with
  | none => exact shadows_pure ()
  | some e => exact shadows_throw e

theorem shadows_change (g : ς → ς) : Shadows Quieter (change g : Work ς σ α Unit) (change g) :=
  shadows_modify fun _ _ h => ⟨congrArg g h.solver, h.backend, h.events⟩

theorem shadows_change_bind {g : ς → ς} {f f' : Unit → Work ς σ α β}
    (hf : Shadows Quieter (f ()) (f' ())) :
    Shadows Quieter (change g >>= f) (change g >>= f') :=
  (shadows_change g).bind fun _ => hf

/-- What is reported without the checks is to be reported with them as well. -/
theorem shadows_report {es es' : List (Event α)} (h : es'.Sublist es) :
    Shadows Quieter (report es : Work ς σ α Unit) (report es') :=
  shadows_modify fun _ _ hr => ⟨hr.solver, hr.backend, hr.events.append h⟩

theorem shadows_report_bind {es : List (Event α)} {f f' : Unit → Work ς σ α β}
    (hf : Shadows Quieter (f ()) (f' ())) :
    Shadows Quieter (report es >>= f) (report es >>= f') :=
  (shadows_report (.refl es)).bind fun _ => hf

theorem shadows_solver_bind {f f' : ς → Work ς σ α β} (h : ∀ s, Shadows Quieter (f s) (f' s)) :
    Shadows Quieter (solver >>= f) (solver >>= f') :=
  fun r r' hr => shadowsAt_solver_bind hr (h r.solver r r' hr)

/-- The backend is asked the same and answers the same. -/
theorem shadows_request (env : Environment σ α) (ref : MatrixRef) (matrix : Matrix α)
    (rhs : Array α) (job : Job) (context : String) :
    Shadows Quieter (request env ref matrix rhs job context : Work ς σ α Unit)
      (request env.unwatched ref matrix rhs job context) := by
  unfold request
  refine (shadows_modify fun r r' hr => ?_).bind fun _ => shadows_get_bind fun r r' hr => ?_
  · exact ⟨hr.solver, congrArg (env.backend.bind (.shared ref) rhs) hr.backend, hr.events⟩
  · have hreply : env.unwatched.backend.call (fun _ => matrix) job r'.backend =
        env.backend.call (fun _ => matrix) job r.backend :=
      congrArg (env.backend.call (fun _ => matrix) job) hr.backend
    dsimp only
    rw [hreply]
    refine ((shadows_modify fun _ _ hr' => ?_).bind fun _ => ?_) r r' hr
    · exact ⟨hr'.solver, rfl, hr'.events.append (.refl _)⟩
    · exact shadows_lift_bind _ fun status => shadows_stopAt _

theorem shadows_solution (env : Environment σ α) :
    Shadows Quieter (solution env : Work ς σ α (Array α)) (solution env.unwatched) := by
  refine shadows_get_bind fun r r' hr => ?_
  have hsolution : env.unwatched.backend.solution r'.backend = env.backend.solution r.backend :=
    congrArg env.backend.solution hr.backend
  rw [hsolution]
  exact shadows_lift _ r r' hr

end Work

/-- Without the checks, nothing is reported about the storage of a matrix. -/
theorem storageEvents_sublist (env : Environment σ α) (context : String) (m : Matrix α) :
    (Journal.storageEvents env.unwatched.debug context m).Sublist
      (Journal.storageEvents env.debug context m) := List.nil_sublist _

end CentralPath.Backend
