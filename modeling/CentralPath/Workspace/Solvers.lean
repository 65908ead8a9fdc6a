/-
  Work with backends and solvers. A solver works on the backend it was made with, whatever that
  backend's name stands for by then; a backend sees the matrices it was bound to as they are at the
  moment of a call.
-/
import CentralPath.Workspace.Systems
import CentralPath.InteriorPoint.Setting

namespace CentralPath.Desk

open Backend (CallRecord Engine Environment Job MatrixRef Session Work)
open InteriorPoint (Options Outcome Setting)
open Newton.System (Direction)
open Sparse (Assembly)

variable {α : Type}

/-! ## Backends -/

/-- A system matrix to bind: someone's matrix, or one given by value. -/
inductive Bound (α : Type) where
  | named (name : String)
  | given (matrix : GivenMatrix α)

/-- Binds a system to a backend. -/
def bind [Scalar α] (name : String) (matrix : Bound α) (rhs : Array α) : Desk α Unit := do
  let k ← engineNumber name
  let e ← engine name
  let binding : Backend.Binding α ← match matrix with
    | .named n => pure (.shared (.free (← matrixNumber n)))
    | .given g => pure (.given g)
  storeEngine k (Engine.backend.bind binding rhs e)

/-- Asks a backend for a job and returns its status. -/
def call [Scalar α] (name : String) (job : Job) : Desk α Int := do
  let k ← engineNumber name
  let e ← engine name
  let reply := Engine.backend.call (← get).lookup job e
  storeEngine k reply.state
  report reply.events
  lift reply.status

/-- The solution that a backend holds. -/
def solution [Scalar α] (name : String) : Desk α (Array α) := do
  lift (Engine.backend.solution (← engine name))

/-- The calls of a backend since the record was taken last. -/
def takeCalls (name : String) : Desk α (List (CallRecord α)) := do
  let k ← engineNumber name
  let e ← engine name
  storeEngine k e.forgetCalls
  pure e.calls

/-- The number of the backend that a solver is to work on: a named one, or a new one. -/
def backendFor [Scalar α] : Option String → Desk α Nat
  | some name => engineNumber name
  | none => employEngine Engine.newSparse

/-- Lets a solver work on its backend. -/
def employ {ς β : Type} [Scalar α] (e : Employed ς)
    (work : Environment (Engine α) α → Session ς (Engine α) α → β × Session ς (Engine α) α) :
    Desk α (β × ς) := do
  let env : Environment (Engine α) α := ⟨Engine.backend, (← get).debug⟩
  let backend := (← get).engines.getD e.engine Engine.newSparse
  let (answer, session) := work env ⟨e.solver, backend, []⟩
  storeEngine e.engine session.backend
  report session.events
  pure (answer, session.solver)

/-- A computation on a session as a function. -/
def runWork {ς σ β : Type} (work : Environment σ α → Work ς σ α β) (env : Environment σ α)
    (session : Session ς σ α) : Except (Fault α) β × Session ς σ α :=
  (work env).run.run session

/-! ## Direct solvers -/

/-- Makes a direct solver. -/
def newDirect [Scalar α] (name : String) (backend : Option String) (learns locks : Bool)
    (capacityHint : Int) : Desk α Unit := do
  let engine ← backendFor backend
  modify fun w =>
    let k := w.directs.size
    { w with
      directs := w.directs.push ⟨Direct.Solver.create k learns locks capacityHint, engine⟩
      names := (name, .direct k) :: w.names }

/-- Lets a direct solver work. -/
def withDirect {β : Type} [Scalar α] (name : String)
    (work : Environment (Engine α) α → Work (Direct.Solver α) (Engine α) α β) : Desk α β := do
  let k ← directNumber name
  let e ← fetch (·.directs) name k
  let (answer, solver) ← employ e (runWork work)
  modify fun w => { w with directs := w.directs.setIfInBounds k { e with solver } }
  lift answer

/-- Sets a direct solver up. -/
def setup [Scalar α] (name : String) (assembly : Assembly α) (dim : Int) :
    Desk α (List Direct.Pass) := withDirect name fun env => Direct.setup env assembly dim

/-- Solves with a direct solver. -/
def solveDirect [Scalar α] (name : String) (rhs : Array α) : Desk α (Array α) :=
  withDirect name fun env => Direct.solve env rhs

/-- Has a direct solver learn its positions again. -/
def relearnDirect [Scalar α] (name : String) : Desk α Unit :=
  withDirect name fun _ => Work.change Direct.Solver.relearn

/-! ## Interior-point solvers -/

variable [Elementary α]

/-- Makes an interior-point solver. -/
def newInterior (name : String) (backend : Option String) (options : Options α) :
    Desk α Unit := do
  let engine ← backendFor backend
  modify fun w =>
    let k := w.interiors.size
    { w with
      interiors := w.interiors.push ⟨InteriorPoint.Solver.create k options, engine⟩
      names := (name, .interior k) :: w.names }

/-- Lets an interior-point solver work. -/
def withInterior {β : Type} (name : String)
    (work : Environment (Engine α) α → InteriorPoint.Run (Engine α) α β) : Desk α β := do
  let k ← interiorNumber name
  let e ← fetch (·.interiors) name k
  let (answer, solver) ← employ e (runWork work)
  modify fun w => { w with interiors := w.interiors.setIfInBounds k { e with solver } }
  lift answer

/-- Solves a problem, which receives the solution unless the solve is stopped. -/
def solve (name problemName : String) : Desk α (Outcome α × Problem α) := do
  let k ← interiorNumber name
  let e ← fetch (·.interiors) name k
  let l ← problemNumber problemName
  let p ← problem problemName
  let ((answer, p), solver) ← employ e fun env session =>
    let solved := InteriorPoint.solve env p session
    ((solved.outcome, solved.problem), solved.session)
  modify fun w => { w with interiors := w.interiors.setIfInBounds k { e with solver } }
  storeProblem l p
  return (← lift answer, p)

/-- One iteration of a solver. -/
def iterate (name : String) : Desk α Unit := withInterior name InteriorPoint.iterate

/-- The affine direction of a solver at its iterate. -/
def affineDirections (name : String) : Desk α (Direction α) :=
  withInterior name InteriorPoint.affineDirections

/-- The measures of a solver, recomputed from its block matrices. -/
def verifyConditions (name : String) (reported : Bool) : Desk α (Journal.Measures α) :=
  withInterior name fun _ => InteriorPoint.verifyConditions reported

/-- Changes a solver between its solves. -/
def changeInterior (name : String)
    (f : InteriorPoint.Solver α → Except (Fault α) (InteriorPoint.Solver α)) : Desk α Unit :=
  withInterior name fun _ => do
    let s ← Work.lift (f (← Work.solver))
    Work.change fun _ => s

/-- Sets options of a solver without checking them. -/
def setOptions (name : String) (settings : List (Setting α)) : Desk α Unit :=
  changeInterior name fun s => .ok { s with options := s.options.setAll settings }

/-- Has a solver learn its positions again. -/
def relearnInterior (name : String) : Desk α Unit :=
  changeInterior name fun s => .ok { s with patternLearned := false }

/-- Writes over vectors of a solver in order, up to the first that does not fit. -/
def overwrite (name : String) (vectors : List (String × Array α)) : Desk α Unit := do
  for (component, v) in vectors do
    changeInterior name fun s => s.overwrite component v

end CentralPath.Desk
