/-
  Work with matrices and patterns. Every change of a matrix reports its redistributions, and a
  compression or pruning is followed by the storage check while debug checks are on.
-/
import CentralPath.Workspace.Basic
import CentralPath.Problem.Nested
import CentralPath.Sparse.Action
import CentralPath.Sparse.Exchange
import CentralPath.Sparse.Raw

namespace CentralPath.Desk

open Journal (compressionContext growthEvents pruningContext storageEvents)
open Sparse (Action Assembly Matrix Orientation Pattern RawEdit Rebuilt Target Write)

variable {α : Type} [Scalar α]

/-- What the storage check after an action calls it, where there is one. -/
def checkedContext? : Action α → Option String
  | .compress => some compressionContext
  | .prune _ => some pruningContext
  | _ => none

/-- Reports what became of a matrix that was a given one before. -/
def reportChange (before after : Matrix α) (context : Option String) : Desk α Unit := do
  report (growthEvents before after)
  match context with
  | some c => report (storageEvents (← get).debug c after)
  | none => pure ()

/-- Performs an action on the matrix of a number. -/
def actOn (name : String) (k : Nat) (a : Action α) : Desk α Bool := do
  let m ← fetch (·.matrices) name k
  let effect := m.perform a
  storeMatrix k effect.matrix
  reportChange m effect.matrix (if effect.fault.isSome then none else checkedContext? a)
  stopAt effect.fault
  pure effect.changed

/-- Performs an action on a matrix. Returns whether it reports a change. -/
def act (name : String) (a : Action α) : Desk α Bool := do actOn name (← matrixNumber name) a

/-- Writes in order, up to the first write that is refused. -/
def writeAll (name : String) (ws : List (Write α)) : Desk α Unit := do
  let k ← matrixNumber name
  for w in ws do
    let _ ← actOn name k (.write w)

/-- Makes an empty matrix. -/
def newMatrix (name : String) (rows cols : Int) (orientation : Orientation) (hint : Int) :
    Desk α Unit := do
  addMatrix name (← lift (Matrix.create rows cols orientation hint))

/-- Makes a matrix of the nonzeros of a table. -/
def newMatrixOf (name : String) (table : Nested α) (orientation : Orientation) : Desk α Unit := do
  let m := Matrix.ofDense (← lift table.table) orientation
  report (growthEvents (Matrix.empty 0 0 orientation 0) m)
  report (storageEvents (← get).debug compressionContext m)
  addMatrix name m

/-- Makes a copy of a matrix. -/
def copyMatrix (name target : String) : Desk α Unit := do addMatrix target (← matrix name)

/-- Adds one matrix to another, or subtracts it. -/
def accumulate (name : String) (other : Option String) (negated : Bool) : Desk α Unit := do
  let k ← matrixNumber name
  match other with
  | none => throw .operandMissing
  | some n =>
    let l ← matrixNumber n
    let addend ← matrix n
    let _ ← actOn name k (if k = l then .accumulateSelf negated else .accumulate addend negated)

/-- Multiplies a matrix by a factor. -/
def scale (name : String) (factor : Option α) : Desk α Unit := do
  let k ← matrixNumber name
  match factor with
  | none => throw .operandMissing
  | some f => let _ ← actOn name k (.scale f)

/-- Whether two matrices hold the same numbers; nothing equals a missing one. -/
def same (name : String) (other : Option String) : Desk α Bool := do
  let m ← matrix name
  match other with
  | none => pure false
  | some n =>
    lift (m.sameValues (← matrix n))

/-- Gives a matrix the slots of a pattern. -/
def load (name patternName : String) : Desk α Unit := do
  let k ← matrixNumber name
  let p ← pattern patternName
  let _ ← actOn name k (.load p)

/-- Edits the buffers of a matrix behind its back. -/
def edit (name : String) (e : RawEdit α) : Desk α Unit := do
  let k ← matrixNumber name
  storeMatrix k (← lift ((← matrix name).edit e))

/-- Looks at the storage rules while debug checks are on. -/
def checkStorage (name context : String) : Desk α Int := do
  let m ← matrix name
  if (← get).debug then
    report (storageEvents true context m)
    pure m.verify
  else pure 0

/-- Takes in a matrix that was rebuilt from arrays. -/
def addRebuilt (name : String) (r : Rebuilt α) : Desk α Unit := do
  report (growthEvents (Matrix.empty 0 0 r.finished.orientation 0) r.written)
  report (storageEvents (← get).debug compressionContext r.finished)
  addMatrix name r.finished

/-! ## Patterns -/

/-- Makes an empty pattern. -/
def newPattern (name : String) (rows cols : Int) (orientation : Orientation) : Desk α Unit := do
  addPattern name (← lift (Pattern.create rows cols orientation))

/-- Records positions in order, up to the first that is refused. -/
def record (name : String) (positions : List (Int × Int)) : Desk α Unit := do
  let k ← patternNumber name
  for (row, col) in positions do
    let p ← fetch (·.patterns) name k
    storePattern k (← lift (p.record row col))

/-- Forgets the positions of a pattern and gives it a shape. -/
def resetPattern (name : String) (rows cols : Int) : Desk α Unit := do
  let p ← pattern name
  storePattern (← patternNumber name) (← lift (p.reset rows cols))

/-- A pattern whose lists were brought into order. -/
def collapsedPattern (name : String) : Desk α Pattern := do
  let p := (← pattern name).collapse
  storePattern (← patternNumber name) p
  pure p

/-! ## Targets -/

/-- A matrix or a pattern by name. -/
def target (name : String) : Desk α (Handle × Target α) := do
  match (← get).handle? name with
  | some (.matrix k) => return (.matrix k, .matrix (← fetch (·.matrices) name k))
  | some (.pattern k) => return (.pattern k, .pattern (← fetch (·.patterns) name k))
  | _ => throw (.objectMissing name)

/-- Puts a target back and reports what became of it. -/
def storeTarget (h : Handle) (before after : Target α) : Desk α Unit := do
  match h, before, after with
  | .matrix k, .matrix old, .matrix new =>
    storeMatrix k new
    report (growthEvents old new)
  | .pattern k, _, .pattern p => storePattern k p
  | _, _, _ => pure ()

/-- Runs an assembly on a target. -/
def assemble (name : String) (a : Assembly α) : Desk α Unit := do
  let (h, t) ← target name
  let (fault, written) := t.assemble a
  storeTarget h t written
  stopAt fault

end CentralPath.Desk
