/-
  The interface between solvers and whatever factorizes their systems. A solver binds a system to a
  backend, asks it for jobs and fetches the solution. A matrix is bound by reference: a call looks
  up what the matrix holds at that moment.
-/
import CentralPath.Journal.Event
import CentralPath.Problem.Given

namespace CentralPath.Backend

open Sparse (Entry Matrix)
open Journal (Event)

/-- Names a matrix that stays with its owner. -/
inductive MatrixRef where
  /-- A matrix on its own. -/
  | free (id : Nat)
  /-- The matrix of a direct solver. -/
  | assembled (owner : Nat)
  /-- The Newton matrix of an interior-point solver. -/
  | newton (owner : Nat)
  /-- The Hessian of an interior-point solver. -/
  | hessian (owner : Nat)
  deriving Repr, DecidableEq

/-- The matrix a backend is bound to: someone's matrix, or one given by value. -/
inductive Binding (α : Type) where
  | shared (ref : MatrixRef)
  | given (matrix : GivenMatrix α)

/-- The matrix of a system at the moment of a call. -/
inductive SystemMatrix (α : Type) where
  | stored (matrix : Matrix α)
  | given (matrix : GivenMatrix α)

/-- What a binding stands for, given what the referenced matrices hold. -/
def Binding.resolve {α : Type} (lookup : MatrixRef → Matrix α) : Binding α → SystemMatrix α
  | shared ref => .stored (lookup ref)
  | given g => .given g

/-- The entries of a system matrix. -/
def SystemMatrix.entries {α : Type} [Scalar α] :
    SystemMatrix α → Except (Fault α) (List (Entry α))
  | stored m => m.storedEntries
  | given g => .ok g.entries

/-- The answer to a job: the backend afterwards, the status (zero is success) unless the call was
refused, and what happened on the way. -/
structure Reply (σ α : Type) where
  state : σ
  status : Except (Fault α) Int
  events : List (Event α)

end CentralPath.Backend

namespace CentralPath

open Backend (Binding Job MatrixRef Reply)
open Sparse (Matrix)

/-- A linear-solve backend with states `σ`. -/
structure Backend (σ α : Type) where
  /-- Registers the matrix and the right-hand side of the next calls. -/
  bind : Binding α → Array α → σ → σ
  /-- Runs a job. -/
  call : (MatrixRef → Matrix α) → Job → σ → Reply σ α
  /-- The solution of the last successful solve phase. -/
  solution : σ → Except (Fault α) (Array α)

end CentralPath

namespace CentralPath.Backend

open Sparse (Entry Matrix)

/-- Success. -/
def statusOk : Int := 0

/-- A phase whose precondition is missing. -/
def statusNotReady : Int := -1

/-- A factorization that met a zero pivot. -/
def statusSingular : Int := -10

/-- A solution that is not finite. -/
def statusNonFinite : Int := -11

/-- The fault of a status that is not zero. -/
def statusFault? {α : Type} (status : Int) (context : String) (job : Option String) :
    Option (Fault α) :=
  if status = statusOk then none else some (.linearSolveFailed context status job)

/-- A call as it was made. -/
structure CallRecord (α : Type) where
  job : Job
  status : Int
  rightHandSide : Array α
  matrix : Option (SystemMatrix α)

/-- A backend state together with the calls made so far. -/
structure Recorded (σ α : Type) where
  inner : σ
  bound : Option (Binding α)
  rightHandSide : Array α
  calls : List (CallRecord α)

/-- The same backend, with every call that is answered put on record. -/
def recorded {σ α : Type} (b : Backend σ α) : Backend (Recorded σ α) α where
  bind matrix rhs s :=
    { s with inner := b.bind matrix rhs s.inner, bound := some matrix, rightHandSide := rhs }
  call lookup job s :=
    let reply := b.call lookup job s.inner
    let calls := match reply.status with
      | .ok status => s.calls ++ [⟨job, status, s.rightHandSide, s.bound.map (·.resolve lookup)⟩]
      | .error _ => s.calls
    ⟨{ s with inner := reply.state, calls }, reply.status, reply.events⟩
  solution s := b.solution s.inner

end CentralPath.Backend
