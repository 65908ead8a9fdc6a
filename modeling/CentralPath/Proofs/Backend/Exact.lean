/-
  Backends in exact arithmetic. `Exact` is what a solve may rely on: whatever is handed out after a
  call that succeeded solves the system of the current right-hand side and the matrix at the last
  complete call. Nothing is asked of calls that fail, and any call may fail.
-/
import CentralPath.Proofs.Backend.Work
import CentralPath.Proofs.Sparse.Products

namespace CentralPath.Backend

open Sparse (Matrix)

theorem statusFault?_eq_none {α : Type} {status : Int} {context : String} {job : Option String}
    (h : statusFault? (α := α) status context job = none) : status = statusOk := by
  by_contra hne
  rw [statusFault?, if_neg hne] at h
  cases h

/-- Binds a system of some solver and runs a job on it. -/
def ask {σ α : Type} (b : Backend σ α) (ref : MatrixRef) (matrix : Matrix α) (rhs : Array α) (job : Job)
    (s : σ) : Reply σ α :=
  b.call (fun _ => matrix) job (b.bind (.shared ref) rhs s)

/-- A request with the fetch behind it changes nothing of the solver. What is granted of a call that
succeeds holds of the solution. -/
theorem ends_request_solution {ς σ α : Type} {env : Environment σ α} {r : Session ς σ α}
    {P : Array α → σ → Prop} (ref : MatrixRef) (matrix : Matrix α) (rhs : Array α) (job : Job)
    (context : String)
    (hgrants : (env.backend.ask ref matrix rhs job r.backend).status = .ok statusOk →
      ∀ v, env.backend.solution (env.backend.ask ref matrix rhs job r.backend).state = .ok v →
        P v (env.backend.ask ref matrix rhs job r.backend).state) :
    Work.Ends (Work.request env ref matrix rhs job context >>= fun _ => Work.solution env)
      (fun v r' => r'.solver = r.solver ∧ P v r'.backend) (fun _ r' => r'.solver = r.solver) r := by
  rw [Work.ends_bind, Work.ends_request]
  unfold ask at hgrants
  generalize env.backend.call (fun _ => matrix) job
    (env.backend.bind (.shared ref) rhs r.backend) = reply at hgrants
  dsimp only
  rcases hstatus : reply.status with e | status
  · rfl
  dsimp only
  rcases hfault : statusFault? status context (some job.name) with _ | e
  · rw [statusFault?_eq_none hfault] at hstatus
    dsimp only
    rw [Work.ends_solution]
    rcases hv : env.backend.solution reply.state with e | v
    · rfl
    · exact ⟨rfl, hgrants hstatus v hv⟩
  · rfl

variable {K : Type} [Field K] {ς σ : Type}

/-- A backend whose solutions are exact. `factored` is the matrix at the last complete call that
succeeded, as far as the state still knows it. -/
structure Exact (b : Backend σ K) (factored : σ → Option (Matrix K)) : Prop where
  complete : ∀ (ref : MatrixRef) (matrix : Matrix K) (rhs : Array K) (s : σ),
    (b.call (fun _ => matrix) .complete (b.bind (.shared ref) rhs s)).status = .ok statusOk →
      factored (b.call (fun _ => matrix) .complete (b.bind (.shared ref) rhs s)).state =
        some matrix ∧
      ∀ v, b.solution (b.call (fun _ => matrix) .complete (b.bind (.shared ref) rhs s)).state =
        .ok v → matrix.Solves v rhs
  solve : ∀ (ref : MatrixRef) (matrix last : Matrix K) (rhs : Array K) (s : σ),
    factored s = some last →
    (b.call (fun _ => matrix) .solve (b.bind (.shared ref) rhs s)).status = .ok statusOk →
      factored (b.call (fun _ => matrix) .solve (b.bind (.shared ref) rhs s)).state = some last ∧
      ∀ v, b.solution (b.call (fun _ => matrix) .solve (b.bind (.shared ref) rhs s)).state =
        .ok v → last.Solves v rhs

variable {env : Environment σ K} {factored : σ → Option (Matrix K)} {r : Session ς σ K}

/-- A complete call with the fetch behind it changes nothing of the solver, and its solution is
that of the matrix as it is. -/
theorem Exact.ends_complete (h : Exact env.backend factored) (ref : MatrixRef) (matrix : Matrix K)
    (rhs : Array K) (context : String) :
    Work.Ends (Work.request env ref matrix rhs .complete context >>= fun _ => Work.solution env)
      (fun v r' => r'.solver = r.solver ∧ factored r'.backend = some matrix ∧ matrix.Solves v rhs)
      (fun _ r' => r'.solver = r.solver) r :=
  ends_request_solution (P := fun v s => factored s = some matrix ∧ matrix.Solves v rhs) ref matrix
    rhs .complete context fun hstatus v hv =>
      have ⟨hfactored, hsolves⟩ := h.complete ref matrix rhs r.backend hstatus
      ⟨hfactored, hsolves v hv⟩

/-- A call that solves once more uses the matrix that was factorized. -/
theorem Exact.ends_solve (h : Exact env.backend factored) (ref : MatrixRef)
    {matrix last : Matrix K} (hlast : factored r.backend = some last) (rhs : Array K)
    (context : String) :
    Work.Ends (Work.request env ref matrix rhs .solve context >>= fun _ => Work.solution env)
      (fun v r' => r'.solver = r.solver ∧ factored r'.backend = some last ∧ last.Solves v rhs)
      (fun _ r' => r'.solver = r.solver) r :=
  ends_request_solution (P := fun v s => factored s = some last ∧ last.Solves v rhs) ref matrix
    rhs .solve context fun hstatus v hv =>
      have ⟨hfactored, hsolves⟩ := h.solve ref matrix last rhs r.backend hlast hstatus
      ⟨hfactored, hsolves v hv⟩

end CentralPath.Backend
