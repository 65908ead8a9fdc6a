/-
  What a computation on a backend leaves behind. `Work.Ends w Q R r` says that from session `r` the
  work `w` either returns and ends in `Q`, or is refused and ends in `R`. It is the weakest
  condition of the pair and is computed along the program by the `ends` equations; `Ends.mono` puts
  a known fact about a part of the program in the place of that part.
-/
import CentralPath.Backend.Session
import Mathlib

namespace CentralPath.Backend.Work

open Sparse (Matrix)

variable {ς σ α β γ : Type}

/-- From session `r` the work ends in `Q` with its result, or in `R` with its fault. -/
def Ends (w : Work ς σ α β) (Q : β → Session ς σ α → Prop) (R : Fault α → Session ς σ α → Prop)
    (r : Session ς σ α) : Prop :=
  match w.run.run r with
  | (.ok b, r') => Q b r'
  | (.error e, r') => R e r'

variable {Q : β → Session ς σ α → Prop} {R : Fault α → Session ς σ α → Prop} {r : Session ς σ α}

/-! ## Along the program -/

theorem ends_pure (b : β) : Ends (pure b) Q R r ↔ Q b r := Iff.rfl

theorem ends_throw (e : Fault α) : Ends (throw e : Work ς σ α β) Q R r ↔ R e r := Iff.rfl

theorem ends_bind (w : Work ς σ α γ) (f : γ → Work ς σ α β) :
    Ends (w >>= f) Q R r ↔ Ends w (fun c => Ends (f c) Q R) R r := by
  have hrun : (w >>= f).run.run r =
      match w.run.run r with
      | (.ok c, r') => (f c).run.run r'
      | (.error e, r') => (.error e, r') := by
    rw [ExceptT.run_bind, StateT.run_bind]
    rcases hw : w.run.run r with ⟨_ | c, r'⟩ <;> rfl
  rw [Ends, Ends, hrun]
  rcases w.run.run r with ⟨_ | c, r'⟩ <;> rfl

theorem run_bind_of_ok {w : Work ς σ α γ} {c : γ} {r' : Session ς σ α}
    (h : w.run.run r = (.ok c, r')) (f : γ → Work ς σ α β) :
    (w >>= f).run.run r = (f c).run.run r' := by
  rw [ExceptT.run_bind, StateT.run_bind, h]
  rfl

theorem run_bind_of_error {w : Work ς σ α γ} {e : Fault α} {r' : Session ς σ α}
    (h : w.run.run r = (.error e, r')) (f : γ → Work ς σ α β) :
    (w >>= f).run.run r = (.error e, r') := by
  rw [ExceptT.run_bind, StateT.run_bind, h]
  rfl

theorem exists_of_run_bind_eq_ok {w : Work ς σ α γ} {f : γ → Work ς σ α β} {b : β}
    {r' : Session ς σ α} (h : (w >>= f).run.run r = (.ok b, r')) :
    ∃ c r₁, w.run.run r = (.ok c, r₁) ∧ (f c).run.run r₁ = (.ok b, r') := by
  rcases hw : w.run.run r with ⟨e | c, r₁⟩
  · rw [run_bind_of_error hw] at h
    cases h
  · rw [run_bind_of_ok hw] at h
    exact ⟨c, r₁, rfl, h⟩

theorem run_solver_bind (f : ς → Work ς σ α β) :
    (solver >>= f).run.run r = (f r.solver).run.run r := rfl

theorem run_change_bind (g : ς → ς) (f : Unit → Work ς σ α β) :
    (change g >>= f).run.run r = (f ()).run.run { r with solver := g r.solver } := rfl

/-- The same under the condition of another part. -/
theorem ends_bind_eq (w : Work ς σ α γ) (f : γ → Work ς σ α β) :
    Ends (w >>= f) Q R = Ends w (fun c => Ends (f c) Q R) R := by
  funext r
  exact propext (ends_bind w f)

theorem ends_map (f : γ → β) (w : Work ς σ α γ) :
    Ends (f <$> w) Q R r ↔ Ends w (fun c => Q (f c)) R r := by
  rw [map_eq_pure_bind, ends_bind]
  rfl

theorem ends_solver {Q : ς → Session ς σ α → Prop} : Ends solver Q R r ↔ Q r.solver r := Iff.rfl

theorem ends_change {Q : Unit → Session ς σ α → Prop} (f : ς → ς) :
    Ends (change f) Q R r ↔ Q () { r with solver := f r.solver } := Iff.rfl

theorem ends_report {Q : Unit → Session ς σ α → Prop} (es : List (Journal.Event α)) :
    Ends (report es) Q R r ↔ Q () { r with events := r.events ++ es } := Iff.rfl

theorem ends_lift (v : Except (Fault α) β) :
    Ends (lift v) Q R r ↔ match v with
      | .ok b => Q b r
      | .error e => R e r := by
  cases v <;> rfl

theorem ends_stopAt {Q : Unit → Session ς σ α → Prop} (fault : Option (Fault α)) :
    Ends (stopAt fault) Q R r ↔ match fault with
      | none => Q () r
      | some e => R e r := by
  cases fault <;> rfl

/-- A computation without effects may be taken over part by part. -/
theorem lift_bind (v : Except (Fault α) γ) (f : γ → Except (Fault α) β) :
    (lift (v >>= f) : Work ς σ α β) = lift v >>= fun c => lift (f c) := by
  cases v <;> rfl

theorem lift_map_bind {δ : Type} (v : Except (Fault α) γ) (f : γ → δ) (g : δ → Work ς σ α β) :
    lift (v.map f) >>= g = lift v >>= fun c => g (f c) := by
  cases v <;> rfl

/-- A request binds the right-hand side, runs the job, and stops at a status that is not zero. -/
theorem ends_request {Q : Unit → Session ς σ α → Prop} (env : Environment σ α) (ref : MatrixRef)
    (matrix : Matrix α) (rhs : Array α) (job : Job) (context : String) :
    Ends (request env ref matrix rhs job context) Q R r ↔
      let reply := env.backend.call (fun _ => matrix) job
        (env.backend.bind (.shared ref) rhs r.backend)
      let r' := { r with backend := reply.state, events := r.events ++ reply.events }
      match reply.status with
      | .ok status =>
        match statusFault? status context (some job.name) with
        | none => Q () r'
        | some e => R e r'
      | .error e => R e r' := by
  set reply := env.backend.call (fun _ => matrix) job
    (env.backend.bind (.shared ref) rhs r.backend) with hreply
  have hrun : Ends (request env ref matrix rhs job context) Q R r ↔
      Ends (lift reply.status >>= fun status =>
        stopAt (statusFault? status context (some job.name))) Q R
        { r with backend := reply.state, events := r.events ++ reply.events } := Iff.rfl
  rw [hrun, ends_bind, ends_lift]
  dsimp only
  cases reply.status with
  | error e => rfl
  | ok status => exact ends_stopAt _

theorem ends_solution {Q : Array α → Session ς σ α → Prop} (env : Environment σ α) :
    Ends (solution env) Q R r ↔ match env.backend.solution r.backend with
      | .ok v => Q v r
      | .error e => R e r := by
  have hrun : Ends (solution env) Q R r ↔ Ends (lift (env.backend.solution r.backend)) Q R r :=
    Iff.rfl
  rw [hrun, ends_lift]
  cases env.backend.solution r.backend <;> rfl

/-- A request leaves the solver alone, whatever comes of it. -/
theorem ends_request_solver (env : Environment σ α) (ref : MatrixRef) (matrix : Matrix α)
    (rhs : Array α) (job : Job) (context : String) :
    Ends (request env ref matrix rhs job context) (fun _ r' => r'.solver = r.solver)
      (fun _ r' => r'.solver = r.solver) r := by
  rw [ends_request]
  dsimp only
  split
  · split
    · rfl
    · rfl
  · rfl

/-- Work ends in what it runs to. -/
theorem ends_run (w : Work ς σ α β) (r : Session ς σ α) :
    Ends w (fun b r' => w.run.run r = (.ok b, r')) (fun e r' => w.run.run r = (.error e, r')) r := by
  unfold Ends
  rcases hw : w.run.run r with ⟨_ | _, _⟩ <;> rfl

/-- What holds of a session whichever way the work ends. -/
theorem session_of_ends {w : Work ς σ α β} {P : Session ς σ α → Prop}
    (h : Ends w (fun _ => P) (fun _ => P) r) : P (w.run.run r).2 := by
  unfold Ends at h
  rcases hw : w.run.run r with ⟨_ | _, _⟩ <;> rw [hw] at h
  · exact h
  · exact h

/-- What is known of the end of work is known of what it runs to. -/
theorem Ends.with_run {w : Work ς σ α β} (h : Ends w Q R r) :
    Ends w (fun b r' => w.run.run r = (.ok b, r') ∧ Q b r')
      (fun e r' => w.run.run r = (.error e, r') ∧ R e r') r := by
  unfold Ends at *
  rcases hw : w.run.run r with ⟨_ | b, r'⟩ <;> rw [hw] at h
  · exact ⟨rfl, h⟩
  · exact ⟨rfl, h⟩

/-- Work is the same where it ends in what the other one runs to. -/
theorem eq_of_ends {w w' : Work ς σ α β}
    (h : ∀ r, Ends w (fun b r' => w'.run.run r = (.ok b, r'))
      (fun e r' => w'.run.run r = (.error e, r')) r) : w = w' := by
  funext r
  have hr := h r
  unfold Ends at hr
  rcases hw : w.run.run r with ⟨_ | _, _⟩ <;> rw [hw] at hr
  · exact hw.trans hr.symm
  · exact hw.trans hr.symm

/-- Weaker conclusions hold as well. -/
theorem Ends.mono {w : Work ς σ α β} {Q' : β → Session ς σ α → Prop}
    {R' : Fault α → Session ς σ α → Prop} (h : Ends w Q R r) (hQ : ∀ b r', Q b r' → Q' b r')
    (hR : ∀ e r', R e r' → R' e r') : Ends w Q' R' r := by
  rw [Ends] at h ⊢
  rcases hw : w.run.run r with ⟨_ | b, r'⟩ <;> rw [hw] at h
  · exact hR _ _ h
  · exact hQ _ _ h

/-- A part of the program may be replaced by what is known of it. -/
theorem Ends.bind {w : Work ς σ α γ} {f : γ → Work ς σ α β} {P : γ → Session ς σ α → Prop}
    {R' : Fault α → Session ς σ α → Prop} (h : Ends w P R' r)
    (hf : ∀ c r', P c r' → Ends (f c) Q R r') (hR : ∀ e r', R' e r' → R e r') :
    Ends (w >>= f) Q R r :=
  (ends_bind w f).mpr (h.mono hf hR)

/-- A computation without effects stops the work where it is or lets it go on. -/
theorem Ends.lift_bind {v : Except (Fault α) γ} {f : γ → Work ς σ α β}
    (hf : ∀ c, v = .ok c → Ends (f c) Q R r) (hR : ∀ e, R e r) : Ends (lift v >>= f) Q R r := by
  rw [ends_bind, ends_lift]
  rcases v with e | c
  · exact hR e
  · exact hf c rfl

theorem Ends.and {w : Work ς σ α β} {Q' : β → Session ς σ α → Prop}
    {R' : Fault α → Session ς σ α → Prop} (h : Ends w Q R r) (h' : Ends w Q' R' r) :
    Ends w (fun b r' => Q b r' ∧ Q' b r') R r := by
  rw [Ends] at *
  rcases hw : w.run.run r with ⟨_ | b, r'⟩ <;> rw [hw] at h h'
  · exact h
  · exact ⟨h, h'⟩

end CentralPath.Backend.Work
