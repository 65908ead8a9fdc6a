/-
  Solvers of both kinds on a backend of any behaviour. A bench has solvers by number and one backend
  that all of them work on; as a backend is told whose matrix it is bound to, it can be many in one. The
  calls of a caller come to the same whatever the debug switch was at each of them
  (`Bench.performAll_unwatched`).
-/
import CentralPath.Proofs.Direct.Observed
import CentralPath.Proofs.InteriorPoint.Observed

namespace CentralPath

open Backend (Environment Quieter Session Work)
open InteriorPoint (Delivery Options Setting Unaffected exchange)
open Journal (Event Measures)
open Newton.System (Direction)
open Sparse (Assembly)

/-- Solvers by number, the backend that all of them work on, and what happened so far. -/
structure Bench (σ α : Type) where
  directs : Nat → Direct.Solver α
  interiors : Nat → InteriorPoint.Solver α
  backend : σ
  events : List (Event α)

namespace Bench

/-- A call at a bench that answers with a `β`. -/
inductive Call (σ α : Type) : Type → Type 1 where
  /-- The assembly may do something else on the matrix than on the pattern. -/
  | setup (k : Nat) (assembly : Direct.Pass → Assembly α) (dim : Int) : Call σ α (List Direct.Pass)
  | solveDirect (k : Nat) (rhs : Array α) : Call σ α (Array α)
  | relearnDirect (k : Nat) : Call σ α Unit
  | solve (k : Nat) (p : Problem α) : Call σ α (Delivery α)
  | iterate (k : Nat) : Call σ α Unit
  | affineDirections (k : Nat) : Call σ α (Direction α)
  | verifyConditions (k : Nat) (reported : Bool) : Call σ α (Measures α)
  | setOptions (k : Nat) (settings : List (Setting α)) : Call σ α Unit
  | relearnInterior (k : Nat) : Call σ α Unit
  | overwrite (k : Nat) (component : String) (v : Array α) : Call σ α Unit
  /-- The backend is used without a solver. -/
  | use {β : Type} (f : σ → Except (Fault α) β × σ) : Call σ α β

variable {σ α β : Type}

/-- Lets the direct solver of a number work. -/
def onDirect (b : Bench σ α) (k : Nat) (w : Work (Direct.Solver α) σ α β) :
    Except (Fault α) β × Bench σ α :=
  let done := w.run.run ⟨b.directs k, b.backend, b.events⟩
  (done.1, { b with
    directs := Function.update b.directs k done.2.solver
    backend := done.2.backend
    events := done.2.events })

/-- Lets the interior-point solver of a number work. -/
def onInterior (b : Bench σ α) (k : Nat) (w : InteriorPoint.Run σ α β) :
    Except (Fault α) β × Bench σ α :=
  let done := w.run.run ⟨b.interiors k, b.backend, b.events⟩
  (done.1, { b with
    interiors := Function.update b.interiors k done.2.solver
    backend := done.2.backend
    events := done.2.events })

/-- The second bench is the first one with part of its events. The lengths of the interior-point
solvers are in order. -/
def Unwatched (b b' : Bench σ α) : Prop :=
  ∃ events, b' = { b with events } ∧ events.Sublist b.events ∧ ∀ k, (b.interiors k).Sized

section

variable {b b' : Bench σ α}

theorem onDirect_unwatched (h : b.Unwatched b') (k : Nat)
    {w w' : Work (Direct.Solver α) σ α β} (hw : Shadows Quieter w w') :
    (b'.onDirect k w').1 = (b.onDirect k w).1 ∧ (b.onDirect k w).2.Unwatched (b'.onDirect k w').2 := by
  obtain ⟨events, rfl, hevents, hsized⟩ := h
  obtain ⟨hanswer, hsolver, hbackend, hreported⟩ :=
    hw ⟨b.directs k, b.backend, b.events⟩ ⟨b.directs k, b.backend, events⟩ ⟨rfl, rfl, hevents⟩
  refine ⟨hanswer, _, ?_, hreported, hsized⟩
  unfold onDirect
  dsimp only
  rw [hsolver, hbackend]

theorem onInterior_unwatched (h : b.Unwatched b') (k : Nat)
    {w : Environment σ α → InteriorPoint.Run σ α β} (hw : Unaffected w) (env : Environment σ α) :
    (b'.onInterior k (w env.unwatched)).1 = (b.onInterior k (w env)).1 ∧
      (b.onInterior k (w env)).2.Unwatched (b'.onInterior k (w env.unwatched)).2 := by
  obtain ⟨events, rfl, hevents, hsized⟩ := h
  obtain ⟨hanswer, hsolver, hbackend, hreported⟩ :=
    hw.shadows env ⟨b.interiors k, b.backend, b.events⟩ ⟨b.interiors k, b.backend, events⟩
      ⟨rfl, rfl, hevents⟩ (hsized k)
  refine ⟨hanswer, _, ?_, hreported, fun l => ?_⟩
  · unfold onInterior
    dsimp only
    rw [hsolver, hbackend]
  · by_cases hl : l = k
    · subst hl
      show (Function.update b.interiors l _ l).Sized
      rw [Function.update_self]
      exact hw.sized env _ (hsized l)
    · show (Function.update b.interiors k _ l).Sized
      rw [Function.update_of_ne hl]
      exact hsized l

end

variable [Elementary α]

/-- What a call answers, and the bench behind it. -/
def Call.perform (env : Environment σ α) (b : Bench σ α) :
    Call σ α β → Except (Fault α) β × Bench σ α
  | .setup k assembly dim => b.onDirect k (Direct.setupBy env assembly dim)
  | .solveDirect k rhs => b.onDirect k (Direct.solve env rhs)
  | .relearnDirect k => b.onDirect k (Work.change Direct.Solver.relearn)
  | .solve k p => b.onInterior k (InteriorPoint.solveProblem env p)
  | .iterate k => b.onInterior k (InteriorPoint.iterate env)
  | .affineDirections k => b.onInterior k (InteriorPoint.affineDirections env)
  | .verifyConditions k reported => b.onInterior k (InteriorPoint.verifyConditions reported)
  | .setOptions k settings =>
    b.onInterior k (exchange fun s => .ok { s with options := s.options.setAll settings })
  | .relearnInterior k => b.onInterior k (exchange fun s => .ok { s with patternLearned := false })
  | .overwrite k component v => b.onInterior k (exchange fun s => s.overwrite component v)
  | .use f =>
    let (answer, backend) := f b.backend
    (answer, { b with backend })

/-- A call comes to the same with the checks and without them. -/
theorem Call.perform_unwatched (c : Call σ α β) (env : Environment σ α) {b b' : Bench σ α}
    (h : b.Unwatched b') :
    (c.perform env.unwatched b').1 = (c.perform env b).1 ∧
      (c.perform env b).2.Unwatched (c.perform env.unwatched b').2 := by
  cases c with
  | setup k assembly dim => exact onDirect_unwatched h k (Direct.shadows_setupBy env assembly dim)
  | solveDirect k rhs => exact (onDirect_unwatched h k (Direct.shadows_solve env rhs) :)
  | relearnDirect k => exact onDirect_unwatched h k (Work.shadows_change _)
  | solve k p => exact onInterior_unwatched h k (InteriorPoint.unaffected_solveProblem p) env
  | iterate k => exact onInterior_unwatched h k InteriorPoint.unaffected_iterate env
  | affineDirections k => exact onInterior_unwatched h k InteriorPoint.unaffected_affineDirections env
  | verifyConditions k reported =>
    exact onInterior_unwatched h k (InteriorPoint.unaffected_verifyConditions reported) env
  | setOptions k settings =>
    exact onInterior_unwatched h k (InteriorPoint.unaffected_setOptions settings) env
  | relearnInterior k => exact onInterior_unwatched h k InteriorPoint.unaffected_relearn env
  | overwrite k component v =>
    exact onInterior_unwatched h k (InteriorPoint.unaffected_overwrite component v) env
  | use f =>
    obtain ⟨events, rfl, hevents, hsized⟩ := h
    exact ⟨rfl, events, rfl, hevents, hsized⟩

/-- What a sequence of calls answers, each made with the debug switch as it was then, and the bench
behind them. -/
def performAll (backend : Backend σ α) :
    Bench σ α → List (Bool × Σ β, Call σ α β) → List (Σ β, Except (Fault α) β) × Bench σ α
  | b, [] => ([], b)
  | b, (debug, ⟨β, c⟩) :: calls =>
    let (answer, b₁) := c.perform ⟨backend, debug⟩ b
    let (answers, b₂) := performAll backend b₁ calls
    (⟨β, answer⟩ :: answers, b₂)

/-- The same calls with the switch off at each of them. -/
def unwatched (calls : List (Bool × Σ β, Call σ α β)) : List (Bool × Σ β, Call σ α β) :=
  calls.map fun c => (false, c.2)

/-- A sequence of calls comes to the same with the switch off throughout. -/
theorem performAll_unwatched (backend : Backend σ α) (calls : List (Bool × Σ β, Call σ α β))
    {b b' : Bench σ α} (h : b.Unwatched b') :
    (performAll backend b' (unwatched calls)).1 = (performAll backend b calls).1 ∧
      (performAll backend b calls).2.Unwatched (performAll backend b' (unwatched calls)).2 := by
  induction calls generalizing b b' with
  | nil => exact ⟨rfl, h⟩
  | cons call calls ih =>
    obtain ⟨debug, β, c⟩ := call
    obtain ⟨hanswer, hbench⟩ := c.perform_unwatched ⟨backend, debug⟩ h
    obtain ⟨hanswers, hbenches⟩ := ih hbench
    refine ⟨?_, hbenches⟩
    show (⟨β, _⟩ : Σ β, Except (Fault α) β) :: _ = ⟨β, _⟩ :: _
    exact congrArg₂ (fun a as => (⟨β, a⟩ : Σ β, Except (Fault α) β) :: as) hanswer hanswers

/-- A bench with direct solvers as they are, and interior-point solvers that have not seen a
problem. -/
def start (directs : Nat → Direct.Solver α) (options : Nat → Options α) (backend : σ) : Bench σ α where
  directs
  interiors k := .create k (options k)
  backend
  events := []

theorem unwatched_start (directs : Nat → Direct.Solver α) (options : Nat → Options α) (backend : σ) :
    (start directs options backend).Unwatched (start directs options backend) :=
  ⟨[], rfl, .refl _, fun k => InteriorPoint.Solver.sized_create k (options k)⟩

end Bench

end CentralPath
