/-
  What a computation keeps. `Work.Keeps R w` says that the solver that `w` starts with and the one
  that it ends with stand in the relation `R`, whether it returns or is refused. For a preorder this is
  put together along the program: parts that keep it, one after the other, keep it.
-/
import CentralPath.Proofs.Backend.Work

namespace CentralPath.Backend.Work

open Journal (Event)
open Sparse (Matrix)

variable {ς σ α β γ : Type} {R : ς → ς → Prop}

/-- From every session, the work leaves a solver that stands in the relation to the one before. -/
def Keeps (R : ς → ς → Prop) (w : Work ς σ α β) : Prop :=
  ∀ r, Ends w (fun _ r' => R r.solver r'.solver) (fun _ r' => R r.solver r'.solver) r

/-- What is kept holds of the session that the work runs to. -/
theorem Keeps.run {w : Work ς σ α β} (h : Keeps R w) (r : Session ς σ α) :
    R r.solver (w.run.run r).2.solver :=
  session_of_ends (P := fun r' : Session ς σ α => R r.solver r'.solver) (h r)

/-- A weaker relation is kept as well. -/
theorem Keeps.mono {S : ς → ς → Prop} {w : Work ς σ α β} (h : Keeps R w)
    (hS : ∀ s s', R s s' → S s s') : Keeps S w :=
  fun r => (h r).mono (fun _ _ => hS _ _) fun _ _ => hS _ _

theorem keeps_change {g : ς → ς} (h : ∀ s, R s (g s)) : Keeps R (change g : Work ς σ α Unit) :=
  fun r => h r.solver

theorem keeps_solver_bind {f : ς → Work ς σ α β} (h : ∀ s, Keeps R (f s)) :
    Keeps R (solver >>= f) :=
  fun r => h r.solver r

theorem Keeps.ite {w w' : Work ς σ α β} (c : Prop) [Decidable c] (h : Keeps R w)
    (h' : Keeps R w') : Keeps R (if c then w else w') := by
  split_ifs
  · exact h
  · exact h'

variable [IsPreorder ς R]

/-! ## Single steps -/

theorem keeps_pure (b : β) : Keeps R (pure b : Work ς σ α β) := fun r => refl_of R r.solver

theorem keeps_throw (e : Fault α) : Keeps R (throw e : Work ς σ α β) := fun r => refl_of R r.solver

theorem keeps_lift (v : Except (Fault α) β) : Keeps R (lift v : Work ς σ α β) := by
  cases v with
  | error e => exact keeps_throw e
  | ok b => exact keeps_pure b

theorem keeps_stopAt (fault : Option (Fault α)) : Keeps R (stopAt fault : Work ς σ α Unit) := by
  cases fault with
  | none => exact keeps_pure ()
  | some e => exact keeps_throw e

theorem keeps_report (es : List (Event α)) : Keeps R (report es : Work ς σ α Unit) :=
  fun r => refl_of R r.solver

theorem keeps_request (env : Environment σ α) (ref : MatrixRef) (matrix : Matrix α)
    (rhs : Array α) (job : Job) (context : String) :
    Keeps R (request env ref matrix rhs job context : Work ς σ α Unit) := fun r =>
  (ends_request_solver env ref matrix rhs job context).mono
    (fun _ r' (hr : r'.solver = r.solver) => by rw [hr]; exact refl_of R r.solver)
    fun _ r' (hr : r'.solver = r.solver) => by rw [hr]; exact refl_of R r.solver

theorem keeps_solution (env : Environment σ α) :
    Keeps R (solution env : Work ς σ α (Array α)) := by
  intro r
  rw [ends_solution]
  split
  · exact refl_of R r.solver
  · exact refl_of R r.solver

/-! ## One after the other -/

theorem Keeps.bind {w : Work ς σ α γ} {f : γ → Work ς σ α β} (h : Keeps R w)
    (hf : ∀ c, Keeps R (f c)) : Keeps R (w >>= f) := fun r =>
  (h r).bind (fun c r₁ h₁ => (hf c r₁).mono (fun _ _ h₂ => trans_of R h₁ h₂)
    fun _ _ h₂ => trans_of R h₁ h₂) fun _ _ h₁ => h₁

theorem keeps_lift_bind {v : Except (Fault α) γ} {f : γ → Work ς σ α β} (hf : ∀ c, Keeps R (f c)) :
    Keeps R (lift v >>= f) := (keeps_lift v).bind hf

theorem keeps_report_bind {es : List (Event α)} {f : Unit → Work ς σ α β} (hf : Keeps R (f ())) :
    Keeps R (report es >>= f) := (keeps_report es).bind fun _ => hf

theorem keeps_change_bind {g : ς → ς} {f : Unit → Work ς σ α β} (h : ∀ s, R s (g s))
    (hf : Keeps R (f ())) : Keeps R (change g >>= f) := (keeps_change h).bind fun _ => hf

theorem Keeps.discard {w : Work ς σ α β} (h : Keeps R w) : Keeps R (discard w) := by
  show Keeps R ((fun _ => ()) <$> w)
  rw [map_eq_pure_bind]
  exact h.bind fun _ => keeps_pure ()

end CentralPath.Backend.Work
