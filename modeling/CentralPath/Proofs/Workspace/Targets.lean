/-
  Targets by name. What an assembly or a conversion writes into is reached through a name, which stands
  for a handle, and `Workspace.target?` is the matrix or the pattern behind a handle. Changing a target
  puts another one of its kind in its place (`Desk.run_changeTarget`). Everything else stays as it was,
  apart from what is reported: that is `Workspace.Keeps`.
-/
import CentralPath.Workspace.Systems
import Mathlib.Data.Set.Basic

namespace CentralPath

open Journal (Event growthEvents)
open Sparse (Matrix Pattern Target)

variable {α β γ : Type}

/-- Both are matrices, or both are patterns. -/
def Sparse.Target.Alike : Target α → Target α → Prop
  | .matrix _, .matrix _ => True
  | .pattern _, .pattern _ => True
  | _, _ => False

theorem Sparse.Target.Alike.refl (t : Target α) : t.Alike t := by
  cases t <;> trivial

namespace Workspace

variable {w w' w'' : Workspace α} {h : Handle} {t : Target α} {changed : Set Handle}

/-- The matrix or the pattern of a handle. -/
def target? (w : Workspace α) : Handle → Option (Target α)
  | .matrix k => (w.matrices[k]?).map .matrix
  | .pattern k => (w.patterns[k]?).map .pattern
  | _ => none

/-- The problem of a name. -/
def problem? (w : Workspace α) (name : String) : Option (Problem α) :=
  match w.handle? name with
  | some (.problem k) => w.problems[k]?
  | _ => none

theorem problem?_eq_some_iff {name : String} {p : Problem α} :
    w.problem? name = some p ↔
      ∃ k, w.handle? name = some (.problem k) ∧ w.problems[k]? = some p := by
  rw [problem?]
  split
  · rename_i k hname
    exact ⟨fun hp => ⟨k, hname, hp⟩, fun ⟨l, hl, hp⟩ => by cases hname.symm.trans hl; exact hp⟩
  · rename_i hother
    exact ⟨fun hp => (by cases hp), fun ⟨k, hk, _⟩ => absurd hk (hother k)⟩

/-- Of all objects only the targets of some handles may have changed. -/
structure Keeps (w w' : Workspace α) (changed : Set Handle) : Prop where
  names : w'.names = w.names
  systems : w'.systems = w.systems
  problems : w'.problems = w.problems
  engines : w'.engines = w.engines
  directs : w'.directs = w.directs
  interiors : w'.interiors = w.interiors
  debug : w'.debug = w.debug
  target?_eq : ∀ h, h ∉ changed → w'.target? h = w.target? h

namespace Keeps

theorem trans (h : w.Keeps w' changed) (h' : w'.Keeps w'' changed) : w.Keeps w'' changed where
  names := h'.names.trans h.names
  systems := h'.systems.trans h.systems
  problems := h'.problems.trans h.problems
  engines := h'.engines.trans h.engines
  directs := h'.directs.trans h.directs
  interiors := h'.interiors.trans h.interiors
  debug := h'.debug.trans h.debug
  target?_eq k hk := (h'.target?_eq k hk).trans (h.target?_eq k hk)

theorem mono {changed' : Set Handle} (h : w.Keeps w' changed) (hsub : changed ⊆ changed') :
    w.Keeps w' changed' :=
  ⟨h.names, h.systems, h.problems, h.engines, h.directs, h.interiors, h.debug,
    fun k hk => h.target?_eq k fun hin => hk (hsub hin)⟩

theorem handle? (h : w.Keeps w' changed) (name : String) : w'.handle? name = w.handle? name := by
  rw [Workspace.handle?, Workspace.handle?, h.names]

theorem problem? (h : w.Keeps w' changed) (name : String) :
    w'.problem? name = w.problem? name := by
  rw [Workspace.problem?, Workspace.problem?, h.handle?, h.problems]

end Keeps

/-- Another matrix in the place of one that is there. -/
theorem keeps_storeMatrix {k : Nat} {old : Matrix α} (hold : w.matrices[k]? = some old)
    (new : Matrix α) (events : List (Event α)) (hchanged : Handle.matrix k ∈ changed) :
    let w' := { w with matrices := w.matrices.setIfInBounds k new, events := events }
    w.Keeps w' changed ∧ w'.target? (.matrix k) = some (.matrix new) := by
  refine ⟨⟨rfl, rfl, rfl, rfl, rfl, rfl, rfl, fun h hh => ?_⟩, ?_⟩
  · cases h with
    | matrix l =>
      have hne : k ≠ l := by
        rintro rfl
        exact hh hchanged
      exact congrArg (Option.map Target.matrix) (Array.getElem?_setIfInBounds_ne hne)
    | _ => rfl
  · obtain ⟨hk, -⟩ := Array.getElem?_eq_some_iff.mp hold
    exact congrArg (Option.map Target.matrix) (Array.getElem?_setIfInBounds_self_of_lt hk)

/-- Another pattern in the place of one that is there. -/
theorem keeps_storePattern {k : Nat} {old : Pattern} (hold : w.patterns[k]? = some old)
    (new : Pattern) (hchanged : Handle.pattern k ∈ changed) :
    let w' := { w with patterns := w.patterns.setIfInBounds k new }
    w.Keeps w' changed ∧ w'.target? (.pattern k) = some (.pattern new) := by
  refine ⟨⟨rfl, rfl, rfl, rfl, rfl, rfl, rfl, fun h hh => ?_⟩, ?_⟩
  · cases h with
    | pattern l =>
      have hne : k ≠ l := by
        rintro rfl
        exact hh hchanged
      exact congrArg (Option.map Target.pattern) (Array.getElem?_setIfInBounds_ne hne)
    | _ => rfl
  · obtain ⟨hk, -⟩ := Array.getElem?_eq_some_iff.mp hold
    exact congrArg (Option.map Target.pattern) (Array.getElem?_setIfInBounds_self_of_lt hk)

end Workspace

/-! ## Running work by name -/

namespace Desk

variable {w w' : Workspace α} {name : String} {h : Handle} {t : Target α}

theorem run_bind_of_ok {x : Desk α β} {b : β} (hx : x.run.run w = (.ok b, w')) (f : β → Desk α γ) :
    (x >>= f).run.run w = (f b).run.run w' := by
  rw [ExceptT.run_bind, StateT.run_bind, hx]
  rfl

theorem run_lift_of_ok {x : Except (Fault α) β} {b : β} (hx : x = .ok b) :
    (lift x).run.run w = (.ok b, w) := by
  rw [hx]
  rfl

theorem run_mapM_of_ok {x : β → Desk α γ} {b : β} {c : γ}
    (hx : (x b).run.run w = (.ok c, w)) : ((some b).mapM x).run.run w = (.ok (some c), w) := by
  rw [Option.mapM_some, ExceptT.run_map]
  show (Except.map some <$> (x b).run).run w = _
  rw [StateT.run_map, hx]
  rfl

theorem run_get (w : Workspace α) : (get : Desk α (Workspace α)).run.run w = (.ok w, w) := rfl

theorem run_fetch {objects : Workspace α → Array β} {k : Nat} {b : β}
    (hb : (objects w)[k]? = some b) (name : String) :
    (fetch objects name k).run.run w = (.ok b, w) := by
  rw [fetch, run_bind_of_ok (run_get w), hb]
  rfl

theorem run_find {select : Handle → Option Nat} {k : Nat} (hname : w.handle? name = some h)
    (hselect : select h = some k) : (find select name).run.run w = (.ok k, w) := by
  rw [find, run_bind_of_ok (run_get w), hname, Option.bind_eq_bind, Option.bind_some, hselect]
  rfl

theorem run_problemNumber {k : Nat} (hname : w.handle? name = some (.problem k)) :
    (problemNumber (α := α) name).run.run w = (.ok k, w) := run_find hname rfl

theorem run_problem {p : Problem α} (hp : w.problem? name = some p) :
    (problem name).run.run w = (.ok p, w) := by
  obtain ⟨k, hname, hk⟩ := Workspace.problem?_eq_some_iff.mp hp
  exact (run_bind_of_ok (run_problemNumber hname) _).trans (run_fetch hk name)

theorem run_target (hname : w.handle? name = some h) (ht : w.target? h = some t) :
    (target name).run.run w = (.ok (h, t), w) := by
  rw [target, run_bind_of_ok (run_get w), hname]
  cases h with
  | matrix k =>
    obtain ⟨m, hm, rfl⟩ := Option.map_eq_some_iff.mp ht
    exact run_bind_of_ok (run_fetch hm name) _
  | pattern k =>
    obtain ⟨p, hp, rfl⟩ := Option.map_eq_some_iff.mp ht
    exact run_bind_of_ok (run_fetch hp name) _
  | _ => cases ht

theorem run_checkTarget (hname : w.handle? name = some h) (ht : w.target? h = some t) :
    (checkTarget (α := α) (some name)).run.run w = (.ok (), w) :=
  run_bind_of_ok (run_target hname ht) _

theorem run_storeTarget {changed : Set Handle} {t' : Target α} (ht : w.target? h = some t)
    (halike : t.Alike t') (hchanged : h ∈ changed) :
    ∃ w', (storeTarget h t t').run.run w = (.ok (), w') ∧ w.Keeps w' changed ∧
      w'.target? h = some t' := by
  cases h with
  | matrix k =>
    obtain ⟨m, hm, rfl⟩ := Option.map_eq_some_iff.mp ht
    cases t' with
    | matrix m' =>
      exact ⟨_, rfl, Workspace.keeps_storeMatrix hm m' (w.events ++ growthEvents m m') hchanged⟩
    | pattern _ => exact halike.elim
  | pattern k =>
    obtain ⟨p, hp, rfl⟩ := Option.map_eq_some_iff.mp ht
    cases t' with
    | matrix _ => exact halike.elim
    | pattern p' => exact ⟨_, rfl, Workspace.keeps_storePattern hp p' hchanged⟩
  | _ => cases ht

/-- A target is changed in its place, whether or not something stops the change. -/
theorem run_changeTarget {changed : Set Handle} {f : Target α → Option (Fault α) × Target α}
    (hname : w.handle? name = some h) (ht : w.target? h = some t) (halike : t.Alike (f t).2)
    (hchanged : h ∈ changed) :
    ∃ w', (changeTarget (some name) f).run.run w =
        (((stopAt (f t).1).run.run w').1, w') ∧
      w.Keeps w' changed ∧ w'.target? h = some (f t).2 := by
  obtain ⟨w', hstore, hkeeps, ht'⟩ := run_storeTarget ht halike hchanged
  refine ⟨w', ?_, hkeeps, ht'⟩
  refine (run_bind_of_ok (run_target hname ht) _).trans ((run_bind_of_ok hstore _).trans ?_)
  cases (f t).1 <;> rfl

end Desk

end CentralPath
