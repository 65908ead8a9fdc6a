/-
  Everything a caller has made, by name. Objects are numbered by kind; a name stands for the object
  it was given to last, and objects that refer to others do so by number, so giving a name away
  changes none of them. Work at the workspace keeps its changes when it is refused.
-/
import CentralPath.Backend.Engine
import CentralPath.Direct
import CentralPath.InteriorPoint.Solve

namespace CentralPath

open Backend (Engine MatrixRef)
open Journal (Event)
open Sparse (Matrix Pattern)

/-- An object by kind and number. -/
inductive Handle where
  | matrix (k : Nat)
  | pattern (k : Nat)
  | system (k : Nat)
  | problem (k : Nat)
  | engine (k : Nat)
  | direct (k : Nat)
  | interior (k : Nat)
  deriving Repr, DecidableEq

/-- A solver and the number of the backend it works on. -/
structure Employed (ς : Type) where
  solver : ς
  engine : Nat

/-- All objects, the debug switch, and the events that nobody has read yet. -/
structure Workspace (α : Type) where
  /-- Names, the latest first. -/
  names : List (String × Handle)
  matrices : Array (Matrix α)
  patterns : Array Pattern
  systems : Array Newton.System
  problems : Array (Problem α)
  engines : Array (Engine α)
  directs : Array (Employed (Direct.Solver α))
  interiors : Array (Employed (InteriorPoint.Solver α))
  /-- Whether debug checks are on. -/
  debug : Bool
  events : List (Event α)

/-- Work at a workspace. -/
abbrev Desk (α : Type) := ExceptT (Fault α) (StateM (Workspace α))

namespace Workspace

variable {α : Type}

/-- A workspace without objects. -/
def empty : Workspace α where
  names := []
  matrices := #[]
  patterns := #[]
  systems := #[]
  problems := #[]
  engines := #[]
  directs := #[]
  interiors := #[]
  debug := false
  events := []

/-- The object of a name. -/
def handle? (w : Workspace α) (name : String) : Option Handle := w.names.lookup name

/-- The matrix that a reference stands for at this moment. -/
def lookup [Zero α] (w : Workspace α) : MatrixRef → Matrix α
  | .free k => w.matrices.getD k .unit
  | .assembled k => (w.directs[k]?.map (·.solver.matrix)).getD .unit
  | .newton k => (w.interiors[k]?.map (·.solver.kkt)).getD .unit
  | .hessian k => (w.interiors[k]?.map (·.solver.G)).getD .unit

end Workspace

namespace Desk

variable {α : Type}

/-- Takes over the outcome of a computation without effects. -/
def lift {β : Type} : Except (Fault α) β → Desk α β
  | .ok b => pure b
  | .error e => throw e

/-- Stops at a fault, if there is one. -/
def stopAt : Option (Fault α) → Desk α Unit
  | none => pure ()
  | some e => throw e

/-- Adds events to the report. -/
def report (es : List (Event α)) : Desk α Unit :=
  modify fun w => { w with events := w.events ++ es }

/-- Gives a name to an object. -/
def name (name : String) (h : Handle) : Desk α Unit :=
  modify fun w => { w with names := (name, h) :: w.names }

/-- The number of a named object of one kind. -/
def find (select : Handle → Option Nat) (name : String) : Desk α Nat := do
  match (← get).handle? name >>= select with
  | some k => pure k
  | none => throw (.objectMissing name)

/-- The object of a number. -/
def fetch {β : Type} (objects : Workspace α → Array β) (name : String) (k : Nat) : Desk α β := do
  match (objects (← get))[k]? with
  | some b => pure b
  | none => throw (.objectMissing name)

/-- The number of a matrix. -/
def matrixNumber (name : String) : Desk α Nat :=
  find (fun | .matrix k => some k | _ => none) name

/-- A matrix by name. -/
def matrix (name : String) : Desk α (Matrix α) := do fetch (·.matrices) name (← matrixNumber name)

/-- The live entries of a matrix by name. -/
def entriesOf (name : String) : Desk α (List (Sparse.Entry α)) := do
  lift (← matrix name).storedEntries

/-- The number of a pattern. -/
def patternNumber (name : String) : Desk α Nat :=
  find (fun | .pattern k => some k | _ => none) name

/-- A pattern by name. -/
def pattern (name : String) : Desk α Pattern := do fetch (·.patterns) name (← patternNumber name)

/-- The number of a problem. -/
def problemNumber (name : String) : Desk α Nat :=
  find (fun | .problem k => some k | _ => none) name

/-- A problem by name. -/
def problem (name : String) : Desk α (Problem α) := do
  fetch (·.problems) name (← problemNumber name)

/-- A Newton system by name. -/
def system (name : String) : Desk α Newton.System := do
  fetch (·.systems) name (← find (fun | .system k => some k | _ => none) name)

/-- The number of a backend. -/
def engineNumber (name : String) : Desk α Nat :=
  find (fun | .engine k => some k | _ => none) name

/-- A backend by name. -/
def engine (name : String) : Desk α (Engine α) := do fetch (·.engines) name (← engineNumber name)

/-- The number of a direct solver. -/
def directNumber (name : String) : Desk α Nat :=
  find (fun | .direct k => some k | _ => none) name

/-- A direct solver by name. -/
def direct (name : String) : Desk α (Direct.Solver α) := do
  return (← fetch (·.directs) name (← directNumber name)).solver

/-- The number of an interior-point solver. -/
def interiorNumber (name : String) : Desk α Nat :=
  find (fun | .interior k => some k | _ => none) name

/-- An interior-point solver by name. -/
def interior (name : String) : Desk α (InteriorPoint.Solver α) := do
  return (← fetch (·.interiors) name (← interiorNumber name)).solver

/-- Puts a matrix in the place of one that is there. -/
def storeMatrix (k : Nat) (m : Matrix α) : Desk α Unit :=
  modify fun w => { w with matrices := w.matrices.setIfInBounds k m }

/-- Puts a pattern in the place of one that is there. -/
def storePattern (k : Nat) (p : Pattern) : Desk α Unit :=
  modify fun w => { w with patterns := w.patterns.setIfInBounds k p }

/-- Puts a problem in the place of one that is there. -/
def storeProblem (k : Nat) (p : Problem α) : Desk α Unit :=
  modify fun w => { w with problems := w.problems.setIfInBounds k p }

/-- Puts a backend in the place of one that is there. -/
def storeEngine (k : Nat) (e : Engine α) : Desk α Unit :=
  modify fun w => { w with engines := w.engines.setIfInBounds k e }

/-- Adds a matrix under a name. -/
def addMatrix (name : String) (m : Matrix α) : Desk α Unit :=
  modify fun w => { w with
    matrices := w.matrices.push m
    names := (name, .matrix w.matrices.size) :: w.names }

/-- Adds a pattern under a name. -/
def addPattern (name : String) (p : Pattern) : Desk α Unit :=
  modify fun w => { w with
    patterns := w.patterns.push p
    names := (name, .pattern w.patterns.size) :: w.names }

/-- Adds a Newton system under a name. -/
def addSystem (name : String) (s : Newton.System) : Desk α Unit :=
  modify fun w => { w with
    systems := w.systems.push s
    names := (name, .system w.systems.size) :: w.names }

/-- Adds a problem under a name. -/
def addProblem (name : String) (p : Problem α) : Desk α Unit :=
  modify fun w => { w with
    problems := w.problems.push p
    names := (name, .problem w.problems.size) :: w.names }

/-- Adds a backend without a name and returns its number. -/
def employEngine (e : Engine α) : Desk α Nat := do
  let k := (← get).engines.size
  modify fun w => { w with engines := w.engines.push e }
  pure k

/-- Adds a backend under a name. -/
def addEngine (n : String) (e : Engine α) : Desk α Unit := do
  let k ← employEngine e
  name n (.engine k)

end Desk

end CentralPath
