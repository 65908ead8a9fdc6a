/-
  A backend around a numeric kernel. It keeps the bound system, the last factor and the last
  solution, and runs the phases of a job in order up to the first that fails. A failed factorization
  forgets the old factor, a failed solve keeps the old solution.
-/
import CentralPath.Backend.Basic
import CentralPath.Backend.Coupling
import CentralPath.Backend.Elimination
import CentralPath.Vector

namespace CentralPath.Backend

open Sparse (Matrix Dense)
open Journal (Event)

/-- The outcome of a factorization. -/
inductive Factorization (φ α : Type) where
  | factored (factor : φ)
  | failed (status : Int) (events : List (Event α))

/-- What does the arithmetic: a factorization and a triangular solve. Both may refuse their input
instead. -/
structure Kernel (φ α : Type) where
  name : String
  factorize : SystemMatrix α → Except (Fault α) (Factorization φ α)
  solve : φ → Array α → Except (Fault α) (Array α)

/-- The state of a backend around a kernel with factors `φ`. -/
structure Adapter (φ α : Type) where
  bound : Option (Binding α)
  rightHandSide : Array α
  factor : Option φ
  solution : Option (Array α)

namespace Adapter

variable {φ α : Type} [Scalar α]

/-- A backend that was bound to nothing yet. -/
def initial : Adapter φ α := ⟨none, #[], none, none⟩

/-- Factorizes the bound matrix as it is now. -/
def factorize (k : Kernel φ α) (matrix : SystemMatrix α) (s : Adapter φ α) :
    Reply (Adapter φ α) α :=
  match k.factorize matrix with
  | .error e => ⟨s, .error e, []⟩
  | .ok (.failed status events) => ⟨{ s with factor := none }, .ok status, events⟩
  | .ok (.factored f) => ⟨{ s with factor := some f }, .ok statusOk, []⟩

/-- Solves with the last factor. -/
def solve (k : Kernel φ α) (s : Adapter φ α) : Reply (Adapter φ α) α :=
  match s.factor with
  | none => ⟨s, .ok statusNotReady, []⟩
  | some f =>
    match k.solve f s.rightHandSide with
    | .error e => ⟨s, .error e, []⟩
    | .ok x =>
      if Vector.isFinite x then ⟨{ s with solution := some x }, .ok statusOk, []⟩
      else ⟨s, .ok statusNonFinite, []⟩

/-- Runs one phase. -/
def runPhase (k : Kernel φ α) (matrix : SystemMatrix α) (s : Adapter φ α) :
    Phase → Reply (Adapter φ α) α
  | .analyze => ⟨s, .ok statusOk, []⟩
  | .factorize => s.factorize k matrix
  | .solve => s.solve k

/-- Runs phases in order up to the first that fails or is refused. -/
def runPhases (k : Kernel φ α) (matrix : SystemMatrix α) (job : Job) (s : Adapter φ α) :
    List Phase → Reply (Adapter φ α) α
  | [] => ⟨s, .ok statusOk, []⟩
  | p :: ps =>
    let reply := s.runPhase k matrix p
    match reply.status with
    | .error e => ⟨reply.state, .error e, reply.events⟩
    | .ok status =>
      if status = statusOk then
        let rest := reply.state.runPhases k matrix job ps
        { rest with events := reply.events ++ rest.events }
      else
        ⟨reply.state, .ok status, reply.events ++ [.phaseFailed k.name p job status]⟩

/-- Runs a job on the bound system. -/
def call (k : Kernel φ α) (lookup : MatrixRef → Matrix α) (job : Job) (s : Adapter φ α) :
    Reply (Adapter φ α) α :=
  match s.bound with
  | none => ⟨s, .ok statusNotReady, [.jobBeforeProblem k.name job]⟩
  | some binding => s.runPhases k (binding.resolve lookup) job job.phases

end Adapter

/-- The backend around a kernel. -/
def Kernel.backend {φ α : Type} [Scalar α] (k : Kernel φ α) : Backend (Adapter φ α) α where
  bind matrix rhs s := { s with bound := some matrix, rightHandSide := rhs }
  call := Adapter.call k
  solution s :=
    match s.solution with
    | none => .error .noSolution
    | some x => .ok x

/-! ## Two kernels on elimination -/

variable {α : Type} [Scalar α]

/-- A system matrix written out in full. -/
def SystemMatrix.table : SystemMatrix α → Except (Fault α) (Dense α)
  | stored m => m.toDense
  | given g => .ok g.table

/-- Whether a system matrix has two axes. -/
def SystemMatrix.twoDimensional : SystemMatrix α → Bool
  | given (.flat _) => false
  | given (.box _) => false
  | _ => true

/-- The shape of a system matrix. -/
def SystemMatrix.shape : SystemMatrix α → Nat × Nat
  | stored m => (m.rows, m.cols)
  | given g => (g.rows, g.cols)

/-- The entries of a system matrix for a sparse elimination, unless a stored entry lies outside its
shape or there are more axes than two. -/
def SystemMatrix.convertedEntries : SystemMatrix α → Except (Fault α) (List (Sparse.Entry α))
  | stored m => m.convertibleEntries
  | given g => g.planar.map GivenMatrix.entries

/-- The triangular form of a square table of entries, where only coupled rows change each other. -/
def sparseFactor (n : Nat) (entries : List (Sparse.Entry α)) : Factor α :=
  .ofDense Factor.numberPivot (coupledGroups n n entries) (Dense.ofEntries n n entries)

/-- The kernel for sparse systems. It takes square systems only and tells a singular one by a fixed
status; a column without a nonzero number to divide by makes a system singular. -/
def sparseKernel : Kernel (Factor α) α where
  name := "SuperLUAdapter"
  factorize matrix :=
    match matrix.convertedEntries with
    | .error e => .error e
    | .ok entries =>
      let (rows, cols) := matrix.shape
      if rows ≠ cols then .error .systemUnfit
      else
        let f := sparseFactor rows entries
        match f.zeroPivot with
        | some _ => .ok (.failed statusSingular [.factorSingular])
        | none => .ok (.factored f)
  solve f b := if b.size ≠ f.rows then .error .systemUnfit else .ok (f.solve b)

/-- The kernel for dense systems. The status of a singular one is the number of its first zero
pivot. -/
def denseKernel : Kernel (Factor α) α where
  name := "TorchDenseAdapter"
  factorize matrix :=
    match matrix.twoDimensional, matrix.table with
    | false, _ => .error .denseSystemUnfit
    | true, .error e => .error e
    | true, .ok d =>
      let f := Factor.ofDense Factor.anyPivot #[] d
      match f.zeroPivot with
      | some k => .ok (.failed k [])
      | none => .ok (.factored f)
  solve f b :=
    if f.rows ≠ f.cols ∨ b.size ≠ f.rows then .error .denseSystemUnfit else .ok (f.solve b)

end CentralPath.Backend
