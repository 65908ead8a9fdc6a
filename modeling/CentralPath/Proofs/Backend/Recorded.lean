/-
  Backends that answer. Such a backend gives every call a status, whichever one it likes, and has a
  vector of the length of the system at hand after a call that succeeded; of what it hands out after
  a call that failed nothing is known. Where the calls are put on record, a request with the fetch
  behind it adds one call, and goes on exactly where the status of that call is zero
  (`ends_ask_recorded`).
-/
import CentralPath.Proofs.Backend.Exact

namespace CentralPath.Backend

open Sparse (Matrix)

/-- The backend answers with a status, and after success with a vector of the right length. -/
structure Answering {σ α : Type} (b : Backend σ α) : Prop where
  status : ∀ (ref : MatrixRef) (matrix : Matrix α) (rhs : Array α) (job : Job) (s : σ),
    ∃ status, (b.ask ref matrix rhs job s).status = .ok status
  solution : ∀ (ref : MatrixRef) (matrix : Matrix α) (rhs : Array α) (job : Job) (s : σ),
    (b.ask ref matrix rhs job s).status = .ok statusOk →
      ∃ v, b.solution (b.ask ref matrix rhs job s).state = .ok v ∧ v.size = matrix.cols

namespace CallRecord

variable {α : Type}

/-- The call asked for a job on a matrix, as it was stored at that moment. -/
structure Asks (c : CallRecord α) (job : Job) (matrix : Matrix α) : Prop where
  job : c.job = job
  matrix : c.matrix = some (.stored matrix)

/-- The call itself, where it failed. -/
def failure? (c : CallRecord α) : Option (CallRecord α) :=
  if c.status = statusOk then none else some c

/-- What a failed call is reported as. -/
def fault (c : CallRecord α) (context : String) : Fault α :=
  .linearSolveFailed context c.status (some c.job.name)

theorem failure?_of_ok {c : CallRecord α} (h : c.status = statusOk) : c.failure? = none := if_pos h

theorem failure?_of_ne {c : CallRecord α} (h : c.status ≠ statusOk) : c.failure? = some c := if_neg h

end CallRecord

/-- All calls but the last succeeded, and the last one did unless it is the one that cut them off. -/
structure CutOff {α : Type} (calls : List (CallRecord α)) (cut : Option (CallRecord α)) : Prop where
  answered : ∃ answered, calls = answered ++ cut.toList ∧ ∀ c ∈ answered, c.status = statusOk
  failed : ∀ c, cut = some c → c.status ≠ statusOk

namespace CutOff

variable {α : Type} {c : CallRecord α} {calls calls' : List (CallRecord α)}
  {cut : Option (CallRecord α)}

theorem nil : CutOff ([] : List (CallRecord α)) none where
  answered := ⟨[], rfl, fun _ hc => absurd hc List.not_mem_nil⟩
  failed _ hc := by cases hc

theorem single (c : CallRecord α) : CutOff [c] c.failure? := by
  by_cases hok : c.status = statusOk
  · rw [CallRecord.failure?_of_ok hok]
    refine ⟨⟨[c], rfl, fun c' hc' => ?_⟩, fun _ hc' => by cases hc'⟩
    rw [List.mem_singleton.mp hc']
    exact hok
  · rw [CallRecord.failure?_of_ne hok]
    refine ⟨⟨[], rfl, fun _ hc => absurd hc List.not_mem_nil⟩, fun c' hc' => ?_⟩
    rw [← Option.some.inj hc']
    exact hok

/-- Only calls that all succeeded are followed by others. -/
theorem append (h : CutOff calls none) (h' : CutOff calls' cut) : CutOff (calls ++ calls') cut := by
  obtain ⟨answered, hcalls, hok⟩ := h.answered
  obtain ⟨answered', hcalls', hok'⟩ := h'.answered
  refine ⟨⟨answered ++ answered', ?_, fun c hc => ?_⟩, h'.failed⟩
  · rw [hcalls, hcalls', Option.toList_none, List.append_nil, List.append_assoc]
  · exact (List.mem_append.mp hc).elim (hok c) (hok' c)

end CutOff

/-! ## Nothing is fetched after a failure -/

/-- Two backends that differ at most in what they hand out after a call that did not succeed. -/
structure SameAfterSuccess {σ α : Type} (b b' : Backend σ α) : Prop where
  bind : b'.bind = b.bind
  call : b'.call = b.call
  solution : ∀ (ref : MatrixRef) (matrix : Matrix α) (rhs : Array α) (job : Job) (s : σ),
    (b.ask ref matrix rhs job s).status = .ok statusOk →
      b'.solution (b.ask ref matrix rhs job s).state = b.solution (b.ask ref matrix rhs job s).state

section

variable {ς σ α : Type} {b b' : Backend σ α} {env env' : Environment σ α}

theorem SameAfterSuccess.recorded (h : b.SameAfterSuccess b') :
    b.recorded.SameAfterSuccess b'.recorded where
  bind := by
    unfold Backend.recorded
    rw [h.bind]
  call := by
    unfold Backend.recorded
    rw [h.call]
  solution ref matrix rhs job s := h.solution ref matrix rhs job s.inner

/-- A request with the fetch behind it tells no difference between them. -/
theorem SameAfterSuccess.ask_eq (h : env.backend.SameAfterSuccess env'.backend) (ref : MatrixRef)
    (matrix : Matrix α) (rhs : Array α) (job : Job) (context : String) :
    (Work.request env' ref matrix rhs job context >>= fun _ => Work.solution env' :
        Work ς σ α (Array α)) =
      Work.request env ref matrix rhs job context >>= fun _ => Work.solution env := by
  refine Work.eq_of_ends fun r => ?_
  have hrun := Work.ends_run
    (Work.request env ref matrix rhs job context >>= fun _ => Work.solution env) r
  rw [Work.ends_bind, Work.ends_request] at hrun ⊢
  dsimp only at hrun ⊢
  rw [h.bind, h.call]
  rcases hstatus : (env.backend.call (fun _ => matrix) job
    (env.backend.bind (.shared ref) rhs r.backend)).status with e | status
  · rw [hstatus] at hrun
    exact hrun
  rw [hstatus] at hrun
  dsimp only at hrun ⊢
  rcases hfault : statusFault? (α := α) status context (some job.name) with _ | e
  · rw [hfault] at hrun
    dsimp only at hrun ⊢
    rw [Work.ends_solution] at hrun ⊢
    rw [statusFault?_eq_none hfault] at hstatus
    have hsame := h.solution ref matrix rhs job r.backend hstatus
    unfold ask at hsame
    rwa [hsame]
  · rw [hfault] at hrun
    exact hrun

end

variable {ς σ α : Type} {b : Backend σ α} {env : Environment (Recorded σ α) α}
  {r : Session ς (Recorded σ α) α}

/-- A request with the fetch behind it is one call. Where the call fails, that is what is reported,
and the solution plays no part. -/
theorem Answering.ends_ask_recorded (hb : b.Answering) (henv : env.backend = b.recorded)
    (ref : MatrixRef) (matrix : Matrix α) (rhs : Array α) (job : Job) (context : String) :
    Work.Ends (Work.request env ref matrix rhs job context >>= fun _ => Work.solution env)
      (fun v r' => r'.solver = r.solver ∧ v.size = matrix.cols ∧
        ∃ c : CallRecord α, c.Asks job matrix ∧ c.status = statusOk ∧
          r'.backend.calls = r.backend.calls ++ [c])
      (fun e r' => r'.solver = r.solver ∧
        ∃ c : CallRecord α, c.Asks job matrix ∧ c.status ≠ statusOk ∧ e = c.fault context ∧
          r'.backend.calls = r.backend.calls ++ [c]) r := by
  obtain ⟨status, hstatus⟩ := hb.status ref matrix rhs job r.backend.inner
  have hsolution := hb.solution ref matrix rhs job r.backend.inner
  unfold ask at hstatus hsolution
  have hanswer : ((b.recorded.call (fun _ => matrix) job
      (b.recorded.bind (.shared ref) rhs r.backend)).status) = .ok status := hstatus
  have hcalls : (b.recorded.call (fun _ => matrix) job
      (b.recorded.bind (.shared ref) rhs r.backend)).state.calls =
        r.backend.calls ++ [⟨job, status, rhs, some (.stored matrix)⟩] := by
    unfold recorded
    dsimp only
    rw [hstatus]
    rfl
  rw [Work.ends_bind, Work.ends_request, henv]
  dsimp only
  rw [hanswer]
  dsimp only
  unfold statusFault?
  split_ifs with hok
  · dsimp only
    subst hok
    obtain ⟨v, hv, hsize⟩ := hsolution hstatus
    have hfetch : b.recorded.solution (b.recorded.call (fun _ => matrix) job
        (b.recorded.bind (.shared ref) rhs r.backend)).state = .ok v := hv
    rw [Work.ends_solution, henv]
    dsimp only
    rw [hfetch]
    exact ⟨rfl, hsize, _, ⟨rfl, rfl⟩, rfl, hcalls⟩
  · exact ⟨rfl, _, ⟨rfl, rfl⟩, hok, rfl, hcalls⟩

/-! ## A backend that answers as it likes -/

/-- What a capricious backend is bound to, how often it was called, and what it hands out. -/
structure Caprice (α : Type) where
  bound : Option (Binding α)
  calls : Nat
  solution : Array α

/-- A backend that looks at nothing but the length of its answer: the status of each call, and the
number in every component, are a matter of how many calls came before. -/
def capricious {α : Type} (reply : Nat → Int × α) : Backend (Caprice α) α where
  bind matrix _ s := { s with bound := some matrix }
  call lookup _ s :=
    let length := match s.bound.map (·.resolve lookup) with
      | some (.stored matrix) => matrix.cols
      | _ => 0
    ⟨{ s with calls := s.calls + 1, solution := Array.replicate length (reply s.calls).2 },
      .ok (reply s.calls).1, []⟩
  solution s := .ok s.solution

theorem answering_capricious {α : Type} (reply : Nat → Int × α) : (capricious reply).Answering where
  status _ _ _ _ s := ⟨(reply s.calls).1, rfl⟩
  solution _ _ _ _ _ _ := ⟨_, rfl, Array.size_replicate⟩

end CentralPath.Backend
