/-
  Two computations side by side. `Work.Abreast w w' Q R r r'` says that from sessions `r` and `r'`
  the works `w` and `w'` end in the same way: both return and end in `Q`, or both are refused and end
  in `R`. Works of one shape are followed step by step (`Abreast.bind` and the equations for single
  steps); facts about each run on its own come in by `Ends.abreast` and `Abreast.and_ends`.
-/
import CentralPath.Proofs.Backend.Work

namespace CentralPath.Backend.Work

open Sparse (Matrix)

variable {ς σ σ' α β β' γ γ' : Type}

/-- From sessions `r` and `r'` both works return and end in `Q`, or both are refused and end in `R`. -/
def Abreast (w : Work ς σ α β) (w' : Work ς σ' α β')
    (Q : β → Session ς σ α → β' → Session ς σ' α → Prop)
    (R : Fault α → Session ς σ α → Fault α → Session ς σ' α → Prop) (r : Session ς σ α)
    (r' : Session ς σ' α) : Prop :=
  match w.run.run r, w'.run.run r' with
  | (.ok b, s), (.ok b', s') => Q b s b' s'
  | (.error e, s), (.error e', s') => R e s e' s'
  | _, _ => False

variable {Q : β → Session ς σ α → β' → Session ς σ' α → Prop}
  {R : Fault α → Session ς σ α → Fault α → Session ς σ' α → Prop} {r : Session ς σ α}
  {r' : Session ς σ' α}

/-! ## From single runs -/

/-- Both ends are known, and they match. -/
theorem Ends.abreast {w : Work ς σ α β} {w' : Work ς σ' α β'} {P : β → Session ς σ α → Prop}
    {P' : β' → Session ς σ' α → Prop} {S : Fault α → Session ς σ α → Prop}
    {S' : Fault α → Session ς σ' α → Prop} (h : Ends w P S r) (h' : Ends w' P' S' r')
    (hQ : ∀ b s b' s', P b s → P' b' s' → Q b s b' s')
    (hR : ∀ e s e' s', S e s → S' e' s' → R e s e' s')
    (hleft : ∀ b s e' s', P b s → S' e' s' → False) (hright : ∀ e s b' s', S e s → P' b' s' → False) :
    Abreast w w' Q R r r' := by
  unfold Ends at h h'
  unfold Abreast
  rcases hw : w.run.run r with ⟨_ | b, s⟩ <;> rcases hw' : w'.run.run r' with ⟨_ | b', s'⟩ <;>
    rw [hw] at h <;> rw [hw'] at h'
  · exact hR _ _ _ _ h h'
  · exact hright _ _ _ _ h h'
  · exact hleft _ _ _ _ h h'
  · exact hQ _ _ _ _ h h'

/-- What is known of each run on its own holds of the two as well. -/
theorem Abreast.and_ends {w : Work ς σ α β} {w' : Work ς σ' α β'} {P : β → Session ς σ α → Prop}
    {S : Fault α → Session ς σ α → Prop} (h : Abreast w w' Q R r r') (hends : Ends w P S r) :
    Abreast w w' (fun b s b' s' => Q b s b' s' ∧ P b s) (fun e s e' s' => R e s e' s' ∧ S e s)
      r r' := by
  unfold Ends at hends
  unfold Abreast at h ⊢
  rcases hw : w.run.run r with ⟨_ | b, s⟩ <;> rcases hw' : w'.run.run r' with ⟨_ | b', s'⟩ <;>
    rw [hw, hw'] at h <;> rw [hw] at hends
  · exact ⟨h, hends⟩
  · exact h
  · exact h
  · exact ⟨h, hends⟩

/-- Works that end like two others in every respect end side by side where those do. -/
theorem Abreast.congr {w : Work ς σ α β} {w' : Work ς σ' α β'} (v : Work ς σ α β)
    (v' : Work ς σ' α β') (h : Abreast v v' Q R r r')
    (hw : ∀ P S, Ends v P S r → Ends w P S r) (hw' : ∀ P S, Ends v' P S r' → Ends w' P S r') :
    Abreast w w' Q R r r' := by
  have hrun : ∀ {τ δ : Type} {w v : Work ς τ α δ} {t : Session ς τ α},
      (∀ P S, Ends v P S t → Ends w P S t) → w.run.run t = v.run.run t := by
    intro τ δ w v t hends
    have h := hends _ _ (ends_run v t)
    unfold Ends at h
    rcases hw : w.run.run t with ⟨_ | _, _⟩ <;> rw [hw] at h
    · exact h.symm
    · exact h.symm
  unfold Abreast at h ⊢
  rwa [hrun hw, hrun hw']

/-- What holds of a work abreast of itself holds of the work. -/
theorem Abreast.ends {w : Work ς σ α β} {Q : β → Session ς σ α → β → Session ς σ α → Prop}
    {R : Fault α → Session ς σ α → Fault α → Session ς σ α → Prop} (h : Abreast w w Q R r r) :
    Ends w (fun b s => Q b s b s) (fun e s => R e s e s) r := by
  unfold Abreast at h
  unfold Ends
  rcases hw : w.run.run r with ⟨_ | b, s⟩ <;> rw [hw] at h
  · exact h
  · exact h

/-- Weaker conclusions hold as well. -/
theorem Abreast.mono {w : Work ς σ α β} {w' : Work ς σ' α β'}
    {Q' : β → Session ς σ α → β' → Session ς σ' α → Prop}
    {R' : Fault α → Session ς σ α → Fault α → Session ς σ' α → Prop} (h : Abreast w w' Q R r r')
    (hQ : ∀ b s b' s', Q b s b' s' → Q' b s b' s')
    (hR : ∀ e s e' s', R e s e' s' → R' e s e' s') : Abreast w w' Q' R' r r' := by
  unfold Abreast at h ⊢
  rcases hw : w.run.run r with ⟨_ | b, s⟩ <;> rcases hw' : w'.run.run r' with ⟨_ | b', s'⟩ <;>
    rw [hw, hw'] at h
  · exact hR _ _ _ _ h
  · exact h
  · exact h
  · exact hQ _ _ _ _ h

/-! ## Along the programs -/

theorem abreast_pure (b : β) (b' : β') : Abreast (pure b) (pure b') Q R r r' ↔ Q b r b' r' := Iff.rfl

theorem abreast_throw (e e' : Fault α) :
    Abreast (throw e : Work ς σ α β) (throw e' : Work ς σ' α β') Q R r r' ↔ R e r e' r' := Iff.rfl

/-- Parts that end in the same way are followed by the rest of both programs. -/
theorem Abreast.bind {w : Work ς σ α γ} {w' : Work ς σ' α γ'} {f : γ → Work ς σ α β}
    {f' : γ' → Work ς σ' α β'} {P : γ → Session ς σ α → γ' → Session ς σ' α → Prop}
    (h : Abreast w w' P R r r')
    (hf : ∀ c s c' s', P c s c' s' → Abreast (f c) (f' c') Q R s s') :
    Abreast (w >>= f) (w' >>= f') Q R r r' := by
  have hrun : ∀ {τ δ ε : Type} (v : Work ς τ α δ) (g : δ → Work ς τ α ε) (t : Session ς τ α),
      (v >>= g).run.run t = match v.run.run t with
        | (.ok c, t') => (g c).run.run t'
        | (.error e, t') => (.error e, t') := by
    intro τ δ ε v g t
    rw [ExceptT.run_bind, StateT.run_bind]
    rcases v.run.run t with ⟨_ | c, t'⟩ <;> rfl
  unfold Abreast at h ⊢
  rw [hrun w f, hrun w' f']
  rcases hw : w.run.run r with ⟨_ | c, s⟩ <;> rcases hw' : w'.run.run r' with ⟨_ | c', s'⟩ <;>
    rw [hw, hw'] at h
  · exact h
  · exact h.elim
  · exact h.elim
  · exact hf _ _ _ _ h

/-- A result that is not needed. -/
theorem Abreast.discard {w : Work ς σ α γ} {w' : Work ς σ' α γ'}
    {S : Session ς σ α → Session ς σ' α → Prop} (h : Abreast w w' (fun _ s _ s' => S s s') R r r') :
    Abreast (discard w) (discard w') (fun _ s _ s' => S s s') R r r' := by
  show Abreast ((fun _ => ()) <$> w) ((fun _ => ()) <$> w') (fun _ s _ s' => S s s') R r r'
  rw [map_eq_pure_bind, map_eq_pure_bind]
  exact h.bind fun _ _ _ _ hS => hS

section

variable {f : ς → Work ς σ α β} {f' : ς → Work ς σ' α β'} {g : Unit → Work ς σ α β}
  {g' : Unit → Work ς σ' α β'}

theorem abreast_solver_bind : Abreast (solver >>= f) (solver >>= f') Q R r r' ↔
    Abreast (f r.solver) (f' r'.solver) Q R r r' := Iff.rfl

theorem abreast_change_bind (k k' : ς → ς) : Abreast (change k >>= g) (change k' >>= g') Q R r r' ↔
    Abreast (g ()) (g' ()) Q R { r with solver := k r.solver }
      { r' with solver := k' r'.solver } := Iff.rfl

theorem abreast_report_bind (es es' : List (Journal.Event α)) :
    Abreast (report es >>= g) (report es' >>= g') Q R r r' ↔
      Abreast (g ()) (g' ()) Q R { r with events := r.events ++ es }
        { r' with events := r'.events ++ es' } := Iff.rfl

theorem abreast_lift_ok_bind {f : γ → Work ς σ α β} {f' : γ' → Work ς σ' α β'} (c : γ) (c' : γ') :
    Abreast (lift (.ok c) >>= f) (lift (.ok c') >>= f') Q R r r' ↔ Abreast (f c) (f' c') Q R r r' :=
  Iff.rfl

/-- Equal results of computations without effects stop both works or let both go on. -/
theorem Abreast.lift_bind {v v' : Except (Fault α) γ} {f : γ → Work ς σ α β}
    {f' : γ → Work ς σ' α β'} (hv : v' = v)
    (hf : ∀ c, v = .ok c → Abreast (f c) (f' c) Q R r r') (hR : ∀ e, v = .error e → R e r e r') :
    Abreast (lift v >>= f) (lift v' >>= f') Q R r r' := by
  subst hv
  rcases v' with e | c
  · exact hR e rfl
  · exact hf c rfl

end

/-! ## Single steps at the end -/

theorem abreast_change {Q : Unit → Session ς σ α → Unit → Session ς σ' α → Prop} (k k' : ς → ς) :
    Abreast (change k) (change k') Q R r r' ↔
      Q () { r with solver := k r.solver } () { r' with solver := k' r'.solver } := Iff.rfl

theorem abreast_report {Q : Unit → Session ς σ α → Unit → Session ς σ' α → Prop}
    (es es' : List (Journal.Event α)) :
    Abreast (report es) (report es') Q R r r' ↔
      Q () { r with events := r.events ++ es } () { r' with events := r'.events ++ es' } := Iff.rfl

theorem Abreast.lift {Q : β → Session ς σ α → β → Session ς σ' α → Prop} {v v' : Except (Fault α) β}
    (hv : v' = v) (hQ : ∀ b, v = .ok b → Q b r b r') (hR : ∀ e, v = .error e → R e r e r') :
    Abreast (lift v) (lift v') Q R r r' := by
  subst hv
  rcases v' with e | b
  · exact hR e rfl
  · exact hQ b rfl

/-- The same fault stops both works, or none does. -/
theorem abreast_stopAt {Q : Unit → Session ς σ α → Unit → Session ς σ' α → Prop}
    {fault fault' : Option (Fault α)} (hfault : fault' = fault) (hQ : Q () r () r')
    (hR : ∀ e, fault = some e → R e r e r') : Abreast (stopAt fault) (stopAt fault') Q R r r' := by
  subst hfault
  rcases fault' with _ | e
  · exact hQ
  · exact hR e rfl

/-- Solutions that are fetched are the same where the backends hold the same. -/
theorem abreast_solution {Q : Array α → Session ς σ α → Array α → Session ς σ' α → Prop}
    {env : Environment σ α} {env' : Environment σ' α}
    (hsolution : env'.backend.solution r'.backend = env.backend.solution r.backend)
    (hQ : ∀ v, env.backend.solution r.backend = .ok v → Q v r v r')
    (hR : ∀ e, env.backend.solution r.backend = .error e → R e r e r') :
    Abreast (solution env) (solution env') Q R r r' :=
  Abreast.lift hsolution hQ hR

/-- Requests end alike where the answers of the backends do: both status are zero, both stop the
work, or both calls are refused. -/
theorem abreast_request {Q : Unit → Session ς σ α → Unit → Session ς σ' α → Prop}
    {env : Environment σ α} {env' : Environment σ' α} {ref ref' : MatrixRef}
    {matrix matrix' : Matrix α} {rhs rhs' : Array α} {job : Job} {context : String} :
    Abreast (request env ref matrix rhs job context) (request env' ref' matrix' rhs' job context)
        Q R r r' ↔
      Abreast
        (lift (env.backend.call (fun _ => matrix) job
          (env.backend.bind (.shared ref) rhs r.backend)).status >>= fun status =>
            stopAt (statusFault? status context (some job.name)))
        (lift (env'.backend.call (fun _ => matrix') job
          (env'.backend.bind (.shared ref') rhs' r'.backend)).status >>= fun status =>
            stopAt (statusFault? status context (some job.name)))
        Q R
        { r with
          backend := (env.backend.call (fun _ => matrix) job
            (env.backend.bind (.shared ref) rhs r.backend)).state
          events := r.events ++ (env.backend.call (fun _ => matrix) job
            (env.backend.bind (.shared ref) rhs r.backend)).events }
        { r' with
          backend := (env'.backend.call (fun _ => matrix') job
            (env'.backend.bind (.shared ref') rhs' r'.backend)).state
          events := r'.events ++ (env'.backend.call (fun _ => matrix') job
            (env'.backend.bind (.shared ref') rhs' r'.backend)).events } := Iff.rfl

end CentralPath.Backend.Work
