/-
  Backends that solve what can be solved. An ideal backend succeeds exactly for nonsingular systems
  with a right-hand side of their length, and what it holds then is the solution. It is exact
  (`Ideal.exact`), and a call to it returns if and only if its system is nonsingular
  (`Ideal.ends_complete`).
-/
import CentralPath.Proofs.Backend.Exact

namespace CentralPath.Backend

open Sparse (Matrix)

variable {K ς σ : Type} [Field K]

/-- A backend that solves every nonsingular system and no other. `factored` is the matrix at the last
complete call that succeeded, as far as the state still knows it. -/
structure Ideal (b : Backend σ K) (factored : σ → Option (Matrix K)) : Prop where
  complete : ∀ (ref : MatrixRef) (matrix : Matrix K) (rhs : Array K) (s : σ),
    ((b.ask ref matrix rhs .complete s).status = .ok statusOk ↔
        matrix.Nonsingular ∧ rhs.size = matrix.rows) ∧
      ((b.ask ref matrix rhs .complete s).status = .ok statusOk →
        factored (b.ask ref matrix rhs .complete s).state = some matrix ∧
        ∃ v, b.solution (b.ask ref matrix rhs .complete s).state = .ok v ∧ matrix.Solves v rhs)
  solve : ∀ (ref : MatrixRef) (matrix last : Matrix K) (rhs : Array K) (s : σ),
    factored s = some last →
    ((b.ask ref matrix rhs .solve s).status = .ok statusOk ↔
        last.Nonsingular ∧ rhs.size = last.rows) ∧
      ((b.ask ref matrix rhs .solve s).status = .ok statusOk →
        factored (b.ask ref matrix rhs .solve s).state = some last ∧
        ∃ v, b.solution (b.ask ref matrix rhs .solve s).state = .ok v ∧ last.Solves v rhs)

variable {b : Backend σ K} {factored : σ → Option (Matrix K)} {env : Environment σ K}
  {r : Session ς σ K}

theorem Ideal.exact (h : Ideal b factored) : Exact b factored where
  complete ref matrix rhs s hstatus := by
    obtain ⟨hfactored, v, hv, hsolves⟩ := (h.complete ref matrix rhs s).2 hstatus
    refine ⟨hfactored, fun w hw => ?_⟩
    rwa [← Except.ok.inj (hv.symm.trans hw)]
  solve ref matrix last rhs s hlast hstatus := by
    obtain ⟨hfactored, v, hv, hsolves⟩ := (h.solve ref matrix last rhs s hlast).2 hstatus
    refine ⟨hfactored, fun w hw => ?_⟩
    rwa [← Except.ok.inj (hv.symm.trans hw)]

/-- A call that succeeds exactly for a nonsingular system returns its solution, and is refused
otherwise. -/
theorem ends_ask_ideal (ref : MatrixRef) {matrix last : Matrix K} {rhs : Array K} {job : Job}
    (context : String) (hsize : rhs.size = last.rows)
    (hreply : ((env.backend.ask ref matrix rhs job r.backend).status = .ok statusOk ↔
        last.Nonsingular ∧ rhs.size = last.rows) ∧
      ((env.backend.ask ref matrix rhs job r.backend).status = .ok statusOk →
        factored (env.backend.ask ref matrix rhs job r.backend).state = some last ∧
        ∃ v, env.backend.solution (env.backend.ask ref matrix rhs job r.backend).state = .ok v ∧
          last.Solves v rhs)) :
    Work.Ends (Work.request env ref matrix rhs job context >>= fun _ => Work.solution env)
      (fun v r' => last.Nonsingular ∧ r'.solver = r.solver ∧ factored r'.backend = some last ∧
        last.Solves v rhs)
      (fun _ r' => ¬last.Nonsingular ∧ r'.solver = r.solver) r := by
  rw [Work.ends_bind, Work.ends_request]
  unfold ask at hreply
  dsimp only
  generalize env.backend.call (fun _ => matrix) job
    (env.backend.bind (.shared ref) rhs r.backend) = reply at hreply ⊢
  obtain ⟨hiff, hok⟩ := hreply
  have hrefused : reply.status ≠ .ok statusOk → ¬last.Nonsingular :=
    fun hne hns => hne (hiff.mpr ⟨hns, hsize⟩)
  rcases hstatus : reply.status with e | status
  · exact ⟨hrefused (by rw [hstatus]; simp), rfl⟩
  dsimp only
  rcases hfault : statusFault? status context (some job.name) with _ | e
  · rw [statusFault?_eq_none hfault] at hstatus
    obtain ⟨hfactored, v, hv, hsolves⟩ := hok hstatus
    dsimp only
    rw [Work.ends_solution]
    dsimp only
    rw [hv]
    exact ⟨(hiff.mp hstatus).1, rfl, hfactored, hsolves⟩
  · refine ⟨hrefused fun hok => ?_, rfl⟩
    rw [hstatus] at hok
    rw [Except.ok.inj hok, statusFault?, if_pos rfl] at hfault
    cases hfault

/-- A complete call returns if and only if its system is nonsingular. -/
theorem Ideal.ends_complete (h : Ideal env.backend factored) (ref : MatrixRef) {matrix : Matrix K}
    {rhs : Array K} (hsize : rhs.size = matrix.rows) (context : String) :
    Work.Ends (Work.request env ref matrix rhs .complete context >>= fun _ => Work.solution env)
      (fun v r' => matrix.Nonsingular ∧ r'.solver = r.solver ∧ factored r'.backend = some matrix ∧
        matrix.Solves v rhs)
      (fun _ r' => ¬matrix.Nonsingular ∧ r'.solver = r.solver) r :=
  ends_ask_ideal ref context hsize (h.complete ref matrix rhs r.backend)

/-- A call that solves once more returns where the factors are those of a nonsingular system. -/
theorem Ideal.ends_solve (h : Ideal env.backend factored) (ref : MatrixRef) {matrix last : Matrix K}
    (hlast : factored r.backend = some last) (hns : last.Nonsingular) {rhs : Array K}
    (hsize : rhs.size = last.rows) (context : String) :
    Work.Ends (Work.request env ref matrix rhs .solve context >>= fun _ => Work.solution env)
      (fun v r' => r'.solver = r.solver ∧ factored r'.backend = some last ∧ last.Solves v rhs)
      (fun _ _ => False) r :=
  (ends_ask_ideal ref context hsize (h.solve ref matrix last rhs r.backend hlast)).mono
    (fun _ _ h => h.2) fun _ _ h => h.1 hns

end CentralPath.Backend
