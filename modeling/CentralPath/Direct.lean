/-
  A direct solver: set a square system up once, solve it for many right-hand sides. A setup may
  first run the assembly on a pattern, which sizes the matrix exactly; with the lock on, the
  positions are kept from setup to setup until they are to be learned again.
-/
import CentralPath.Backend.Session
import CentralPath.Problem.Target
import CentralPath.Sparse.Canonical

namespace CentralPath.Direct

open Backend (Environment Work)
open Journal (compressionContext growthEvents storageEvents)
open Sparse (Assembly Matrix Pattern)

/-- The direct solver. -/
structure Solver (α : Type) where
  /-- The number under which its matrix is known to a backend. -/
  id : Nat
  /-- Learn the positions before the matrix is filled. -/
  learns : Bool
  /-- Keep the positions from setup to setup. -/
  locks : Bool
  /-- Room to give the matrix where its positions are not learned. -/
  capacityHint : Int
  matrix : Matrix α
  /-- The next setup may not use the positions again. -/
  relearns : Bool
  setups : Nat
  solves : Nat

/-- What an assembly was run on. -/
inductive Pass where
  | pattern
  | matrix
  deriving Repr, DecidableEq

namespace Solver

variable {α : Type} [Scalar α]

/-- A solver that has set up nothing yet. -/
def create (id : Nat) (learns locks : Bool) (capacityHint : Int) : Solver α where
  id
  learns
  locks
  capacityHint
  matrix := .unit
  relearns := true
  setups := 0
  solves := 0

/-- Has the positions learned again at the next setup. -/
def relearn (s : Solver α) : Solver α := { s with relearns := true }

/-- Whether the matrix has a square shape already. -/
def hasDim (s : Solver α) (dim : Int) : Bool :=
  (s.matrix.rows : Int) == dim && (s.matrix.cols : Int) == dim

/-- Whether the positions of the last setup still serve. -/
def reusesPositions (s : Solver α) (dim : Int) : Bool := s.locks && !s.relearns && s.hasDim dim

/-- Room for a reset to a dimension: never less than what the same shape used before. -/
def roomFor (s : Solver α) (dim : Int) : Int :=
  if s.hasDim dim then max s.capacityHint s.matrix.usedLength else s.capacityHint

end Solver

variable {σ α : Type} [Scalar α]

/-- Gives the matrix the positions that an assembly writes. -/
def learn (assembly : Assembly α) (dim : Int) : Work (Solver α) σ α Unit := do
  let s ← Work.solver
  let fresh ← Work.lift (Pattern.create dim dim .byRows)
  let (fault, pattern) := fresh.assemble assembly
  Work.stopAt fault
  let matrix ← Work.lift (s.matrix.loadPattern pattern)
  Work.change fun s => { s with matrix, relearns := false }
  Work.report [.patternLearned pattern.size dim]

/-- Clears the matrix for a dimension. -/
def clear (dim : Int) : Work (Solver α) σ α Unit := do
  let s ← Work.solver
  let matrix ← Work.lift (s.matrix.reset dim dim (s.roomFor dim))
  Work.change fun s => { s with matrix }

/-- Runs an assembly on the matrix and compresses it. -/
def fill (debug : Bool) (assembly : Assembly α) : Work (Solver α) σ α Unit := do
  let s ← Work.solver
  let (fault, written) := s.matrix.assemble assembly
  Work.change fun s => { s with matrix := written }
  Work.report (growthEvents s.matrix written)
  Work.stopAt fault
  let matrix := written.compress.1
  Work.change fun s => { s with matrix }
  Work.report (storageEvents debug compressionContext matrix)

/-- Assembles the matrix of a system, up to its factorization. What the assembly does may depend on
what it is run on. Returns what that was. -/
def assembleBy (debug : Bool) (assembly : Pass → Assembly α) (dim : Int) :
    Work (Solver α) σ α (List Pass) := do
  Work.change fun s => { s with matrix := s.matrix.setLock s.locks }
  let s ← Work.solver
  if s.learns && !s.reusesPositions dim then
    learn (assembly .pattern) dim
    fill debug (assembly .matrix)
    pure [.pattern, .matrix]
  else
    clear dim
    fill debug (assembly .matrix)
    pure [.matrix]

/-- Assembles a system of a dimension and factorizes it. -/
def setupBy (env : Environment σ α) (assembly : Pass → Assembly α) (dim : Int) :
    Work (Solver α) σ α (List Pass) := do
  let passes ← assembleBy env.debug assembly dim
  let s ← Work.solver
  Work.request env (.assembled s.id) s.matrix (Vector.zeros dim.toNat) .analyzeFactorize
    "direct solver setup"
  Work.change fun s => { s with setups := s.setups + 1 }
  pure passes

/-- The setup with an assembly that does the same on everything. -/
def setup (env : Environment σ α) (assembly : Assembly α) (dim : Int) :
    Work (Solver α) σ α (List Pass) :=
  setupBy env (fun _ => assembly) dim

/-- Solves the system of the last setup for a right-hand side. -/
def solve (env : Environment σ α) (rhs : Array α) : Work (Solver α) σ α (Array α) := do
  let s ← Work.solver
  if rhs.size ≠ s.matrix.rows then throw (.rightHandSideUnfit rhs.size s.matrix.rows)
  Work.request env (.assembled s.id) s.matrix rhs .solve "direct solver"
  Work.change fun s => { s with solves := s.solves + 1 }
  Work.solution env

end CentralPath.Direct
