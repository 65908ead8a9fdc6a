/-
  Work with Newton systems and problems. Several targets of one conversion may be the same object,
  so each block is read and stored before the next one is looked at.
-/
import CentralPath.Workspace.Matrices

namespace CentralPath.Desk

open Newton (Choice System)
open Newton.System (Aim Direction)
open Sparse (Assembly Dense Matrix Target)

variable {α : Type} [Scalar α]

/-- Sets up a Newton system. -/
def newSystem (name : String) (choice : Choice) (n m : Int) : Desk α System := do
  let s ← lift (System.create choice n m)
  addSystem name s
  pure s

/-- Assembles the constant blocks of a system in a target. -/
def assembleSystem (name targetName G A : String) (E : Option String) : Desk α Unit := do
  let s ← system name
  let _ ← target (α := α) targetName
  let _ ← matrix (α := α) G
  let _ ← matrix (α := α) A
  if let some e := E then
    let _ ← matrix (α := α) e
  assemble targetName (.ofWrites (System.hessianWrites (← entriesOf G)))
  assemble targetName (.ofWrites (s.jacobianWrites (← entriesOf A)))
  if let some e := E then
    assemble targetName (.ofWrites (s.complianceWrites (← entriesOf e)))
  assemble targetName (.ofWrites s.placeholderWrites)

/-- Brings an assembled target to an iterate. -/
def updateSystem (name targetName : String) (y lam diagE : Array α) : Desk α Unit := do
  let s ← system name
  assemble targetName (s.iterateAssembly y lam diagE)

/-- The right-hand side of a system. -/
def rightHandSide (name : String) (rp rd y lam : Array α) (aim : Aim α) : Desk α (Array α) := do
  lift ((← system name).rightHandSide rp rd y lam aim)

/-- The direction that a solution of a system stands for. -/
def direction (name : String) (solution : Array α) (kkt : String) (rp : Array α)
    (E : Option String) : Desk α (Direction α) := do
  let s ← system name
  let m ← matrix kkt
  let e ← E.mapM matrix
  lift (s.direction solution m rp e)

/-- A block of an assembled system. -/
inductive SystemBlock where
  | jacobian
  | hessian
  | negJacobianTransposed
  deriving Repr, DecidableEq

/-- The product of a block of an assembled system with a vector. -/
def mulSystemBlock (name : String) (block : SystemBlock) (kkt : String) (v : Array α) :
    Desk α (Array α) := do
  let s ← system name
  let m ← matrix kkt
  match block with
  | .jacobian => lift (s.mulA m v)
  | .hessian => lift (s.mulG m v)
  | .negJacobianTransposed => lift (s.mulNegAT m v)

/-! ## Problems -/

/-- What a problem departs from its own data in. -/
structure Departure (α : Type) where
  announced : Option Int
  substitute : Option (Dense α)

/-- Makes a problem. -/
def newProblem (name : String) (G : GivenMatrix α) (c : Array α) (A : GivenMatrix α) (b : Array α)
    (E : Option (GivenMatrix α)) (triplets : Bool) (d : Departure α) : Desk α (Problem α) := do
  let p ← lift (Problem.create G c A b E triplets)
  let p := { p with announced := d.announced, substitute := d.substitute }
  addProblem name p
  pure p

/-- Changes a target by name, up to what stops the change. -/
def changeTarget (targetName : Option String)
    (f : Target α → Option (Fault α) × Target α) : Desk α Unit := do
  match targetName with
  | none => pure ()
  | some n =>
    let (h, t) ← target n
    let (fault, changed) := f t
    storeTarget h t changed
    stopAt fault

/-- Where a conversion puts the blocks and vectors of a problem; what is not there is left out. -/
structure Destination where
  hessian : Option String
  jacobian : Option String
  compliance : Option String
  linearLength : Option Int
  boundLength : Option Int

/-- A length that a buffer can have. -/
def bufferLength (length : Int) : Desk α Nat := do
  if length < 0 then throw .negativeLength
  pure length.toNat

/-- Refuses a name of no target. -/
def checkTarget (name : Option String) : Desk α Unit := do
  match name with
  | none => pure ()
  | some n => let _ ← target (α := α) n

/-- Stores the blocks of a problem in targets and its vectors in buffers. -/
def convert (name : String) (d : Destination) (normalOnly : Bool) :
    Desk α (Option (Array α) × Option (Array α)) := do
  let p ← problem name
  checkTarget d.hessian
  checkTarget d.jacobian
  checkTarget d.compliance
  let linear ← d.linearLength.mapM bufferLength
  let bound ← d.boundLength.mapM bufferLength
  changeTarget d.hessian (Problem.store p.hessianBlock)
  changeTarget d.jacobian (Problem.store (p.jacobianBlock normalOnly))
  changeTarget d.compliance (Problem.store (p.complianceBlock normalOnly))
  let f ← linear.mapM fun k => lift (p.linearFor k)
  let b ← bound.mapM fun k => lift (p.boundFor normalOnly k)
  changeTarget d.compliance p.storeSubstitute
  pure (f, b)

/-- Hands a solution to a problem. -/
def receive (name : String) (v : Array α) : Desk α (Problem α) := do
  let p ← lift ((← problem name).receive v)
  storeProblem (← problemNumber name) p
  pure p

end CentralPath.Desk
