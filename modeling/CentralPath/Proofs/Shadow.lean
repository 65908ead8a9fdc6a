/-
  Two computations in step. `Shadows R w w'` says that from states in the relation `R` the second
  computation answers what the first one answers, or is refused for the same fault, and that the states
  which the two leave are in the relation again. It is put together along the program; where what the
  first computation has come to counts, it is put together from one pair of states on
  (`ShadowsAt.bind`).
-/
import Mathlib.Control.Monad.Basic

namespace CentralPath

variable {ε S β γ : Type} {R : S → S → Prop}

/-- From states `s` and `t` both computations answer the same and leave states in the relation. -/
def ShadowsAt (R : S → S → Prop) (w w' : ExceptT ε (StateM S) β) (s t : S) : Prop :=
  (w'.run.run t).1 = (w.run.run s).1 ∧ R (w.run.run s).2 (w'.run.run t).2

/-- From any states in the relation, both computations answer the same and leave states in it. -/
def Shadows (R : S → S → Prop) (w w' : ExceptT ε (StateM S) β) : Prop :=
  ∀ s t, R s t → ShadowsAt R w w' s t

section

variable {w w' : ExceptT ε (StateM S) γ} {f f' : γ → ExceptT ε (StateM S) β} {s t : S}

/-- One computation after the other, where what the first one has come to is known. -/
theorem ShadowsAt.bind (h : ShadowsAt R w w' s t)
    (hf : ∀ c s₁ t₁, w.run.run s = (.ok c, s₁) → R s₁ t₁ → ShadowsAt R (f c) (f' c) s₁ t₁) :
    ShadowsAt R (w >>= f) (w' >>= f') s t := by
  have hrun : ∀ (v : ExceptT ε (StateM S) γ) (g : γ → ExceptT ε (StateM S) β) (u : S),
      (v >>= g).run.run u = match v.run.run u with
        | (.ok c, u₁) => (g c).run.run u₁
        | (.error e, u₁) => (.error e, u₁) := by
    intro v g u
    rw [ExceptT.run_bind, StateT.run_bind]
    rcases v.run.run u with ⟨_ | c, u₁⟩ <;> rfl
  unfold ShadowsAt at h ⊢
  rw [hrun w f, hrun w' f']
  rcases hw : w.run.run s with ⟨e | c, s₁⟩ <;> rcases hw' : w'.run.run t with ⟨e' | c', t₁⟩ <;>
    rw [hw, hw'] at h <;> obtain ⟨hanswer, hstates⟩ := h
  · cases hanswer
    exact ⟨rfl, hstates⟩
  · cases hanswer
  · cases hanswer
  · cases hanswer
    exact hf c s₁ t₁ hw hstates

theorem Shadows.bind (h : Shadows R w w') (hf : ∀ c, Shadows R (f c) (f' c)) :
    Shadows R (w >>= f) (w' >>= f') :=
  fun s t hst => (h s t hst).bind fun c s₁ t₁ _ h₁ => hf c s₁ t₁ h₁

theorem Shadows.map (h : Shadows R w w') (g : γ → β) : Shadows R (g <$> w) (g <$> w') := by
  rw [map_eq_pure_bind, map_eq_pure_bind]
  exact h.bind fun _ _ _ hst => ⟨rfl, hst⟩

end

theorem shadows_pure (b : β) : Shadows R (pure b : ExceptT ε (StateM S) β) (pure b) :=
  fun _ _ h => ⟨rfl, h⟩

theorem shadows_throw (e : ε) : Shadows R (throw e : ExceptT ε (StateM S) β) (throw e) :=
  fun _ _ h => ⟨rfl, h⟩

/-- States may be changed in different ways, as long as the relation does not see it. -/
theorem shadows_modify {g g' : S → S} (h : ∀ s t, R s t → R (g s) (g' t)) :
    Shadows R (modify g : ExceptT ε (StateM S) PUnit) (modify g') :=
  fun s t hst => ⟨rfl, h s t hst⟩

/-- The state is looked at, and the rest is in step from there. -/
theorem shadows_get_bind {f f' : S → ExceptT ε (StateM S) β}
    (h : ∀ s t, R s t → ShadowsAt R (f s) (f' t) s t) : Shadows R (get >>= f) (get >>= f') := h

theorem Shadows.ite {w w' v v' : ExceptT ε (StateM S) β} (c : Prop) [Decidable c]
    (h : Shadows R w w') (h' : Shadows R v v') :
    Shadows R (if c then w else v) (if c then w' else v') := by
  split_ifs
  · exact h
  · exact h'

/-- A loop over a list is in step if its body is. -/
theorem shadows_forIn {f f' : γ → β → ExceptT ε (StateM S) (ForInStep β)}
    (h : ∀ c b, Shadows R (f c b) (f' c b)) (cs : List γ) (b : β) :
    Shadows R (forIn cs b f) (forIn cs b f') := by
  induction cs generalizing b with
  | nil => exact shadows_pure b
  | cons c cs ih =>
    rw [List.forIn_cons, List.forIn_cons]
    refine (h c b).bind fun next => ?_
    cases next with
    | done b => exact shadows_pure b
    | yield b => exact ih b

/-- Work on something that need not be there. -/
theorem shadows_mapM {f f' : γ → ExceptT ε (StateM S) β} (h : ∀ c, Shadows R (f c) (f' c))
    (c : Option γ) : Shadows R (c.mapM f) (c.mapM f') := by
  cases c with
  | none => exact shadows_pure none
  | some c =>
    rw [Option.mapM_some, Option.mapM_some]
    exact (h c).map some

end CentralPath
