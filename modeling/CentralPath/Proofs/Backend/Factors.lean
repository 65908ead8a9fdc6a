/-
  The factor that a backend keeps. A backend around a kernel judges a matrix by its kernel alone
  (`Kernel.ask_analyzeFactorize`) and solves with the factor of its last factorization, whatever
  matrix it is shown meanwhile (`Kernel.ask_solve`). A failed factorization forgets the old factor, a
  refused one keeps it. `Faithful` kernels solve the matrices that they factorize; an `Impartial`
  backend judges by what a matrix represents.
-/
import CentralPath.Backend.Adapter
import CentralPath.Proofs.Backend.Cramer

namespace CentralPath.Backend

open Sparse (Matrix Table)

variable {ς σ φ α β : Type}

/-! ## Faults of a request -/

/-- What stops a request after its reply. -/
def Reply.fault? (reply : Reply σ α) (context : String) (job : Job) : Option (Fault α) :=
  match reply.status with
  | .error e => some e
  | .ok status => statusFault? status context (some job.name)

theorem Reply.fault?_eq_none_iff {reply : Reply σ α} {context : String} {job : Job} :
    reply.fault? context job = none ↔ reply.status = .ok statusOk := by
  rw [fault?]
  constructor
  · intro h
    split at h
    · cases h
    · rename_i status hstatus
      rw [hstatus, statusFault?_eq_none h]
  · intro h
    rw [h]
    rfl

/-- Replies with the same status stop a request in the same way. -/
theorem Reply.fault?_congr {τ : Type} {reply : Reply σ α} {reply' : Reply τ α}
    (h : reply'.status = reply.status) (context : String) (job : Job) :
    reply'.fault? context job = reply.fault? context job := by
  rw [fault?, fault?, h]

/-- A request leaves the backend as it replies, and ends by the fault of the reply. -/
theorem Work.ends_request_fault? {Q : Unit → Session ς σ α → Prop}
    {R : Fault α → Session ς σ α → Prop} {r : Session ς σ α} (env : Environment σ α)
    (ref : MatrixRef) (matrix : Matrix α) (rhs : Array α) (job : Job) (context : String) :
    Work.Ends (Work.request env ref matrix rhs job context) Q R r ↔
      let reply := env.backend.ask ref matrix rhs job r.backend
      let r' := { r with backend := reply.state, events := r.events ++ reply.events }
      match reply.fault? context job with
      | none => Q () r'
      | some e => R e r' := by
  rw [Work.ends_request]
  unfold ask Reply.fault?
  dsimp only
  cases (env.backend.call (fun _ => matrix) job
    (env.backend.bind (.shared ref) rhs r.backend)).status <;> exact Iff.rfl

/-! ## Kernels -/

namespace Kernel

variable (k : Kernel φ α)

/-- The status of a factorization. -/
def verdict (m : Matrix α) : Except (Fault α) Int :=
  match k.factorize (.stored m) with
  | .error e => .error e
  | .ok (.failed status _) => .ok status
  | .ok (.factored _) => .ok statusOk

/-- The factor behind a factorization. -/
def factorAfter (m : Matrix α) (old : Option φ) : Option φ :=
  match k.factorize (.stored m) with
  | .error _ => old
  | .ok (.failed _ _) => none
  | .ok (.factored f) => some f

variable [Scalar α]

/-- A factorization is judged by the kernel, and binds the matrix whatever comes of it. -/
theorem ask_analyzeFactorize (ref : MatrixRef) (m : Matrix α) (rhs : Array α) (s : Adapter φ α) :
    (k.backend.ask ref m rhs .analyzeFactorize s).status = k.verdict m ∧
      (k.backend.ask ref m rhs .analyzeFactorize s).state.factor = k.factorAfter m s.factor := by
  unfold ask
  dsimp only [Kernel.backend, Adapter.call, Binding.resolve, Job.phases, Adapter.runPhases,
    Adapter.runPhase]
  rw [if_pos rfl, Adapter.factorize, verdict, factorAfter]
  rcases k.factorize (.stored m) with e | ⟨f⟩ | ⟨status, events⟩
  · exact ⟨rfl, rfl⟩
  · exact ⟨rfl, rfl⟩
  · dsimp only
    split_ifs with hstatus
    · exact ⟨congrArg Except.ok hstatus.symm, rfl⟩
    · exact ⟨rfl, rfl⟩

/-- A call that solves goes by the factor, and by nothing of the matrix. Without a factor its status
says so; if it succeeds, the backend holds what the kernel made of the factor. -/
theorem ask_solve (ref : MatrixRef) (m : Matrix α) (rhs : Array α) (s : Adapter φ α) :
    (k.backend.ask ref m rhs .solve s).state.factor = s.factor ∧
      (s.factor = none → (k.backend.ask ref m rhs .solve s).status = .ok statusNotReady) ∧
      ((k.backend.ask ref m rhs .solve s).status = .ok statusOk →
        ∃ f x, s.factor = some f ∧ k.solve f rhs = .ok x ∧
          k.backend.solution (k.backend.ask ref m rhs .solve s).state = .ok x) := by
  obtain ⟨bound, old, factor, solution⟩ := s
  unfold ask
  dsimp only [Kernel.backend, Adapter.call, Binding.resolve, Job.phases, Adapter.runPhases,
    Adapter.runPhase]
  rw [Adapter.solve]
  rcases factor with _ | f
  · exact ⟨rfl, fun _ => rfl, nofun⟩
  rcases hsolve : k.solve f rhs with e | x
  · dsimp only
    rw [hsolve]
    exact ⟨rfl, nofun, nofun⟩
  · dsimp only
    rw [hsolve]
    dsimp only
    split_ifs
    · exact ⟨rfl, nofun, fun _ => ⟨f, x, rfl, hsolve, rfl⟩⟩
    · exact ⟨rfl, nofun, nofun⟩

end Kernel

/-! ## Exact kernels and impartial backends -/

variable {K : Type} [Field K]

/-- A factor solves the systems of every matrix that it is a factor of. -/
def Kernel.Faithful (k : Kernel φ K) : Prop :=
  ∀ (m : Matrix K) (f : φ) (rhs x : Array K), k.factorize (.stored m) = .ok (.factored f) →
    k.solve f rhs = .ok x → m.Solves x rhs

/-- The status of a factorization depends on what the matrix represents, and not on the way it is
stored, the state of the backend or who asks. -/
def Impartial (b : Backend σ K) : Prop :=
  ∀ (ref ref' : MatrixRef) (m m' : Matrix K) (rhs : Array K) (s s' : σ), m.Sound → m'.Sound →
    Table.ofMatrix m' = Table.ofMatrix m →
    (b.ask ref' m' rhs .analyzeFactorize s').status = (b.ask ref m rhs .analyzeFactorize s).status

variable [LinearOrder K]

/-- The backend of a kernel is as impartial as its verdicts. -/
theorem Kernel.impartial {k : Kernel φ K} (h : ∀ m m' : Matrix K, m.Sound → m'.Sound →
    Table.ofMatrix m' = Table.ofMatrix m → k.verdict m' = k.verdict m) : Impartial k.backend :=
  fun ref ref' m m' rhs s s' hm hm' htable => by
    rw [(k.ask_analyzeFactorize ref' m' rhs s').1, (k.ask_analyzeFactorize ref m rhs s).1]
    exact h m m' hm hm' htable

theorem faithful_cramer : (cramerKernel (K := K)).Faithful := by
  intro m f rhs x hfactor hsolve
  dsimp only [cramerKernel] at hfactor hsolve
  by_cases hsquare : m.rows = m.cols
  swap
  · rw [if_pos hsquare] at hfactor
    cases hfactor
  rw [if_neg (not_not.mpr hsquare)] at hfactor
  by_cases hdet : (grid m.rows m.rows m.valueAt).det = 0
  · rw [if_pos hdet] at hfactor
    cases hfactor
  rw [if_neg hdet] at hfactor
  obtain rfl := Factorization.factored.inj (Except.ok.inj hfactor)
  by_cases hsize : rhs.size = m.rows
  · rw [if_neg (not_not.mpr hsize)] at hsolve
    obtain rfl := Except.ok.inj hsolve
    exact solves_cramerSolution hsquare.symm hdet hsize
  · rw [if_pos hsize] at hsolve
    cases hsolve

/-- Whether there is a determinant, and whether it is zero, is a matter of the table. -/
theorem impartial_cramer : Impartial (cramerKernel (K := K)).backend := by
  refine Kernel.impartial fun m m' hm hm' htable => ?_
  have hverdict : ∀ {m : Matrix K}, m.Sound → cramerKernel.verdict m =
      let t := Table.ofMatrix m
      if t.rows ≠ t.cols then .error .systemUnfit
      else if (grid t.rows t.rows t.value).det = 0 then .ok statusSingular
      else .ok statusOk := by
    intro m hm
    have hrows : (Table.ofMatrix m).rows = m.rows := rfl
    have hcols : (Table.ofMatrix m).cols = m.cols := rfl
    dsimp only
    rw [Kernel.verdict, cramerKernel, hrows, hcols]
    by_cases hsquare : m.rows = m.cols
    · have hgrid : grid m.rows m.rows (Table.ofMatrix m).value = grid m.rows m.rows m.valueAt := by
        ext i j
        refine hm.value_ofMatrix ?_
        rw [Matrix.InShape, ← hsquare]
        omega
      rw [hgrid]
      dsimp only
      split_ifs <;> rfl
    · rw [if_pos hsquare]
      dsimp only
      rw [if_pos hsquare]
  rw [hverdict hm, hverdict hm', htable]

end CentralPath.Backend
