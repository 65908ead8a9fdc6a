/-
  Exact backends exist. Any backend becomes exact when a solution counts only after it was put into
  the system it is for: a solve that fails the check is reported as failed.
-/
import CentralPath.Backend.Adapter
import CentralPath.Proofs.Backend.Exact

open CentralPath.Vector (coord)

namespace CentralPath.Backend

open Sparse (Matrix)

/-- Success means that the solution was confirmed. -/
theorem confirmed_of_status {K : Type} {status : Except (Fault K) Int} {confirmed : Bool}
    (h : (status.map fun k => if k = statusOk ∧ confirmed = false then statusNonFinite else k) =
      .ok statusOk) : confirmed = true := by
  rcases status with e | k
  · cases h
  · have hk := Except.ok.inj h
    dsimp only at hk
    split_ifs at hk with hcase
    · cases hk
    · by_contra hne
      exact hcase ⟨hk, Bool.eq_false_iff.mpr hne⟩

variable {σ K : Type} [Field K] [LinearOrder K]

instance (m : Matrix K) (v rhs : Array K) : Decidable (m.Solves v rhs) :=
  decidable_of_iff (v.size = m.cols ∧ rhs.size = m.rows ∧
      ∀ i, i < m.rows → ∑ j ∈ Finset.range m.cols, m.valueAt i j * coord v j = coord rhs i)
    ⟨fun h => ⟨h.1, h.2.1, h.2.2⟩, fun h => ⟨h.size, h.size_rhs, h.row⟩⟩

/-- The state of a backend whose solutions are checked: what is bound, and the matrix that was
factorized last. -/
structure Verified (σ K : Type) where
  inner : σ
  bound : Option (Binding K)
  rightHandSide : Array K
  factored : Option (Matrix K)

namespace Verified

/-- The matrix that is bound, where it is someone's. -/
def matrix? (s : Verified σ K) (lookup : MatrixRef → Matrix K) : Option (Matrix K) :=
  match s.bound with
  | some (.shared ref) => some (lookup ref)
  | _ => none

/-- Whether a solution is one of the system. -/
def confirms (factored : Option (Matrix K)) (solution : Except (Fault K) (Array K))
    (rhs : Array K) : Bool :=
  match factored, solution with
  | some m, .ok v => decide (m.Solves v rhs)
  | _, _ => false

/-- A call, with a check of the solution where the job asks for one. -/
def call (b : Backend σ K) (lookup : MatrixRef → Matrix K) (job : Job) (s : Verified σ K) :
    Reply (Verified σ K) K :=
  let reply := b.call lookup job s.inner
  let factored := if job.phases.contains .factorize then s.matrix? lookup else s.factored
  let confirmed := !job.phases.contains .solve ||
    confirms factored (b.solution reply.state) s.rightHandSide
  let status := reply.status.map fun status =>
    if status = statusOk ∧ confirmed = false then statusNonFinite else status
  ⟨{ s with inner := reply.state, factored }, status, reply.events⟩

end Verified

/-- A backend with its solutions checked. -/
def verified (b : Backend σ K) : Backend (Verified σ K) K where
  bind matrix rhs s :=
    { s with inner := b.bind matrix rhs s.inner, bound := some matrix, rightHandSide := rhs }
  call := Verified.call b
  solution s := b.solution s.inner

/-- A confirmed solution solves the system. -/
theorem Verified.solves_of_confirms {m : Matrix K} {solution : Except (Fault K) (Array K)}
    {rhs : Array K} (h : confirms (some m) solution rhs = true) :
    ∀ v, solution = .ok v → m.Solves v rhs := by
  rintro v rfl
  exact of_decide_eq_true h

theorem exact_verified (b : Backend σ K) : Exact (verified b) Verified.factored where
  complete ref matrix rhs s hstatus :=
    ⟨rfl, Verified.solves_of_confirms (confirmed_of_status hstatus)⟩
  solve ref matrix last rhs s hlast hstatus := by
    have hconfirmed := confirmed_of_status hstatus
    refine ⟨hlast, Verified.solves_of_confirms ?_⟩
    rw [← hlast]
    exact hconfirmed

/-- Elimination on sparse systems, with its solutions checked. -/
def elimination : Environment (Verified (Adapter (Factor K) K) K) K :=
  ⟨verified sparseKernel.backend, false⟩

/-- Elimination before its first call. -/
def Verified.initial : Verified (Adapter (Factor K) K) K := ⟨.initial, none, #[], none⟩

end CentralPath.Backend
