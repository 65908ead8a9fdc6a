/-
  Which matrix a direct solver answers for. The backend keeps the factor of the last factorization
  that succeeded; a setup that stops between the change of the matrix and its factorization leaves the
  two apart. The `Ledger` keeps the books: the matrix behind the factor, and whether the solver's own
  matrix has changed since. Every call keeps it (`Balanced.perform`), and so an answer always solves
  the matrix in the books, which is the solver's own unless the ledger says otherwise
  (`solve_after_calls`).
-/
import CentralPath.Proofs.Direct.Calls

namespace CentralPath.Direct

open Backend (Adapter Environment Kernel Session Work)
open Backend.Work
open Sparse (Assembly Matrix Write)

/-- The matrix behind the factor that the backend keeps, if there is a factor, and whether the matrix
of the solver may have changed since. -/
structure Ledger (α : Type) where
  factored : Option (Matrix α)
  outdated : Bool

section

variable {σ α : Type} [Scalar α]

/-- The books behind a call. A setup that is stopped is outdated from where it touches the matrix; one
that comes to its factorization enters its matrix or, if that fails, nothing. -/
def Ledger.behind (env : Environment σ α) (r : Session (Solver α) σ α) (l : Ledger α) :
    Call α → Ledger α
  | .setup assembly dim =>
    match (assembleBy env.debug assembly dim).run.run r with
    | (.error _, _) => { l with outdated := l.outdated || r.solver.touches assembly dim }
    | (.ok _, r') =>
      match (env.backend.ask (.assembled r'.solver.id) r'.solver.matrix (Vector.zeros dim.toNat)
        .analyzeFactorize r'.backend).status with
      | .error _ => { l with outdated := true }
      | .ok status =>
        if status = Backend.statusOk then ⟨some r'.solver.matrix, false⟩ else ⟨none, false⟩
  | .relearn => l
  | .solve _ => l

/-- The books behind a sequence of calls. -/
def ledgerAfter (env : Environment σ α) (r : Session (Solver α) σ α) (l : Ledger α) :
    List (Call α) → Ledger α
  | [] => l
  | c :: calls => ledgerAfter env (perform env r c) (l.behind env r c) calls

variable {φ : Type} {k : Kernel φ α} {debug : Bool} {l : Ledger α}
  {r : Session (Solver α) (Adapter φ α) α}

/-- The books are those of the session: the factor is that of the matrix in them, and the matrix of
the solver is that one, but for the lock, unless they are outdated. -/
structure Balanced (k : Kernel φ α) (l : Ledger α) (r : Session (Solver α) (Adapter φ α) α) :
    Prop where
  byRows : r.solver.matrix.orientation = .byRows
  factor : ∀ f, r.backend.factor = some f →
    ∃ m, l.factored = some m ∧ k.factorize (.stored m) = .ok (.factored f)
  current : l.outdated = false → ∀ m, l.factored = some m →
    ∃ on, r.solver.matrix = m.setLock on

theorem balanced_create (k : Kernel φ α) (id : Nat) (learns locks : Bool) (hint : Int) :
    Balanced k ⟨none, false⟩ ⟨.create id learns locks hint, .initial, []⟩ where
  byRows := rfl
  factor _ h := nomatch h
  current _ _ h := nomatch h

omit [Scalar α] in
/-- A setup that is stopped leaves the factor alone. -/
theorem Balanced.stopped (h : Balanced k l r) {assembly : Pass → Assembly α} {dim : Int}
    {r' : Session (Solver α) (Adapter φ α) α} (h' : Assembling assembly dim r r') :
    Balanced k { l with outdated := l.outdated || r.solver.touches assembly dim } r' where
  byRows := h'.byRows
  factor f hf := h.factor f (h'.backend ▸ hf)
  current hcurrent m hm := by
    obtain ⟨hbefore, htouches⟩ := Bool.or_eq_false_iff.mp hcurrent
    obtain ⟨on, hmatrix⟩ := h.current hbefore m hm
    exact ⟨r.solver.locks, by rw [h'.untouched htouches, hmatrix]; rfl⟩

/-- What the kernel makes of a matrix decides about the factor and about the entry. -/
theorem Balanced.factorized (h : Balanced k l r) {s : Solver α}
    (hs : s.matrix.orientation = .byRows) (id : Nat) (b : Array α)
    (events : List (Journal.Event α)) :
    Balanced k
      (match (k.backend.ask (.assembled id) s.matrix b .analyzeFactorize r.backend).status with
        | .error _ => { l with outdated := true }
        | .ok status => if status = Backend.statusOk then ⟨some s.matrix, false⟩ else ⟨none, false⟩)
      ⟨s, (k.backend.ask (.assembled id) s.matrix b .analyzeFactorize r.backend).state, events⟩ := by
  obtain ⟨hstatus, hfactor⟩ := k.ask_analyzeFactorize (.assembled id) s.matrix b r.backend
  rw [hstatus, Kernel.verdict]
  rw [Kernel.factorAfter] at hfactor
  rcases hout : k.factorize (.stored s.matrix) with e | ⟨f⟩ | ⟨status, es⟩ <;>
    rw [hout] at hfactor <;> dsimp only at hfactor ⊢
  · exact ⟨hs, fun f hf => h.factor f (hfactor ▸ hf), fun hcurrent => by cases hcurrent⟩
  · rw [if_pos rfl]
    refine ⟨hs, fun f' hf' => ?_, fun _ m hm => ?_⟩
    · obtain rfl := Option.some.inj (hfactor.symm.trans hf')
      exact ⟨_, rfl, hout⟩
    · obtain rfl := Option.some.inj hm
      exact ⟨s.matrix.locked, rfl⟩
  · have hnone : ∀ f, (k.backend.ask (.assembled id) s.matrix b .analyzeFactorize
        r.backend).state.factor ≠ some f := fun f hf => by
      cases hfactor.symm.trans hf
    split_ifs
    · refine ⟨hs, fun f hf => absurd hf (hnone f), fun _ m hm => ?_⟩
      obtain rfl := Option.some.inj hm
      exact ⟨s.matrix.locked, rfl⟩
    · exact ⟨hs, fun f hf => absurd hf (hnone f), fun _ m hm => by cases hm⟩

/-- A setup enters its matrix, or is outdated from where it was stopped. -/
theorem Balanced.setup (h : Balanced k l r) (assembly : Pass → Assembly α) (dim : Int) :
    Balanced k (l.behind ⟨k.backend, debug⟩ r (.setup assembly dim))
      (Direct.perform ⟨k.backend, debug⟩ r (.setup assembly dim)) := by
  refine session_of_ends (P := Balanced k (l.behind ⟨k.backend, debug⟩ r (.setup assembly dim))) ?_
  rw [ends_setupBy]
  refine (ends_assembleBy_assembling debug assembly h.byRows).with_run.mono ?_ ?_
  · rintro passes r' ⟨hrun, h', -⟩
    rw [Ledger.behind, hrun]
    dsimp only
    rw [h'.backend]
    split
    · exact h.factorized (s := { r'.solver with setups := r'.solver.setups + 1 }) h'.byRows _ _ _
    · exact h.factorized h'.byRows _ _ _
  · rintro e r' ⟨hrun, h'⟩
    rw [Ledger.behind, hrun]
    exact h.stopped h'

/-- A solve leaves the factor alone, and the matrix. -/
theorem Balanced.solve (h : Balanced k l r) (rhs : Array α) :
    Balanced k l (Direct.perform ⟨k.backend, debug⟩ r (.solve rhs)) := by
  refine session_of_ends (P := Balanced k l) ?_
  rw [ends_solve]
  split_ifs
  · exact h
  obtain ⟨hfactor, -⟩ := k.ask_solve (.assembled r.solver.id) r.solver.matrix rhs r.backend
  have hkept : ∀ f, (k.backend.ask (.assembled r.solver.id) r.solver.matrix rhs .solve
      r.backend).state.factor = some f →
      ∃ m, l.factored = some m ∧ k.factorize (.stored m) = .ok (.factored f) := fun f hf =>
    h.factor f (hfactor.symm.trans hf)
  dsimp only
  split
  · split
    · exact ⟨h.byRows, hkept, h.current⟩
    · exact ⟨h.byRows, hkept, h.current⟩
  · exact ⟨h.byRows, hkept, h.current⟩

/-- Every call keeps the books, whether it returns or is refused. -/
theorem Balanced.perform (h : Balanced k l r) (c : Call α) :
    Balanced k (l.behind ⟨k.backend, debug⟩ r c) (Direct.perform ⟨k.backend, debug⟩ r c) := by
  cases c with
  | relearn => exact ⟨h.byRows, h.factor, h.current⟩
  | solve rhs => exact h.solve rhs
  | setup assembly dim => exact h.setup assembly dim

/-- So does a sequence of calls. -/
theorem Balanced.performAll (h : Balanced k l r) (calls : List (Call α)) :
    Balanced k (ledgerAfter ⟨k.backend, debug⟩ r l calls)
      (Direct.performAll ⟨k.backend, debug⟩ r calls) := by
  induction calls generalizing r l with
  | nil => exact h
  | cons c calls ih => exact ih (h.perform c)

end

variable {φ K : Type} [Field K] [LinearOrder K]

/-- An answer is for the matrix in the books. Calls of any kind are made on a new solver and a new
backend: its setups, of any dimensions, may return, stop half-way or fail at the factorization.
Whatever a call that solves returns after them solves the matrix behind the last factorization that
succeeded, and where no setup has been stopped over its matrix since then, that is the matrix which
the solver holds. Where a failed factorization came last, or there was none, nothing is returned, and
the status says so to every right-hand side of the right length. -/
theorem solve_after_calls (k : Kernel φ K) (hk : k.Faithful) (debug : Bool) (id : Nat)
    (learns locks : Bool) (hint : Int) (calls : List (Call K)) (rhs : Array K) :
    let env : Environment (Adapter φ K) K := ⟨k.backend, debug⟩
    let start : Session (Solver K) (Adapter φ K) K := ⟨.create id learns locks hint, .initial, []⟩
    let r := performAll env start calls
    let books := ledgerAfter env start ⟨none, false⟩ calls
    Ends (solve env rhs)
      (fun x r' => r'.solver.matrix = r.solver.matrix ∧
        ∃ m, books.factored = some m ∧ m.Solves x rhs ∧
          (books.outdated = false → r'.solver.matrix.Solves x rhs))
      (fun e r' => r'.solver.matrix = r.solver.matrix ∧
        (books.factored = none → rhs.size = r.solver.matrix.rows →
          e = .linearSolveFailed "direct solver" Backend.statusNotReady (some "SOLVE"))) r := by
  intro env start r books
  have hbalanced : Balanced k books r := (balanced_create k id learns locks hint).performAll calls
  rw [ends_solve]
  split_ifs with hsize
  · exact ⟨rfl, fun _ h => absurd h hsize⟩
  obtain ⟨-, hnone, hok⟩ := k.ask_solve (.assembled r.solver.id) r.solver.matrix rhs r.backend
  dsimp only
  split
  · rename_i hfault
    obtain ⟨f, x, hf, hx, hsolution⟩ := hok (Backend.Reply.fault?_eq_none_iff.mp hfault)
    rw [show env.backend.solution _ = .ok x from hsolution]
    obtain ⟨m, hm, hfactor⟩ := hbalanced.factor f hf
    have hsolves := hk m f rhs x hfactor hx
    refine ⟨rfl, m, hm, hsolves, fun hcurrent => ?_⟩
    obtain ⟨on, hmatrix⟩ := hbalanced.current hcurrent m hm
    rw [hmatrix]
    exact ⟨hsolves.size, hsolves.size_rhs, hsolves.row⟩
  · rename_i e hfault
    refine ⟨rfl, fun hempty _ => ?_⟩
    have hfactor : r.backend.factor = none := by
      rcases hf : r.backend.factor with _ | f
      · rfl
      · obtain ⟨m, hm, -⟩ := hbalanced.factor f hf
        cases hempty.symm.trans hm
    rw [Backend.Reply.fault?, show (env.backend.ask _ _ _ _ _).status = _ from hnone hfactor]
      at hfault
    exact (Option.some.inj hfault).symm

/-- A number set up as a system of one row. -/
def singleCalls : List (Call ℚ) := [.setup (fun _ => .ofWrites [⟨0, 0, 2, true⟩]) 1]

/-- What is returned for it solves the matrix held. -/
theorem solve_after_calls_single :
    let env : Environment _ ℚ := ⟨Backend.cramerKernel.backend, false⟩
    let start : Session (Solver ℚ) _ ℚ := ⟨.create 0 true false 0, .initial, []⟩
    (Backend.cramerKernel (K := ℚ)).Faithful ∧
      (ledgerAfter env start ⟨none, false⟩ singleCalls).outdated = false ∧
      Ends (solve env #[4]) (fun x r' => r'.solver.matrix.Solves x #[4]) (fun _ _ => False)
        (performAll env start singleCalls) := by
  intro env start
  have hcurrent : (ledgerAfter env start ⟨none, false⟩ singleCalls).outdated = false := by
    decide +kernel
  have hreturns : ((solve env #[4]).run.run (performAll env start singleCalls)).1.isOk = true := by
    decide +kernel
  refine ⟨Backend.faithful_cramer, hcurrent, ?_⟩
  have h := solve_after_calls Backend.cramerKernel Backend.faithful_cramer false 0 true false 0
    singleCalls #[4]
  refine h.with_run.mono (fun x r' ⟨_, _, _, _, _, hx⟩ => hx hcurrent) fun e r' ⟨hrun, _⟩ => ?_
  rw [hrun] at hreturns
  cases hreturns

/-- Two setups of the same size, and the second leaves the shape half-way. -/
def stoppedCalls : List (Call ℚ) :=
  [.setup (fun _ => .ofWrites [⟨0, 0, 2, true⟩, ⟨1, 1, 2, true⟩]) 2,
    .setup (fun _ => .ofWrites [⟨0, 0, 5, true⟩, ⟨9, 9, 1, true⟩]) 2]

/-- The answer that follows is for the first matrix, while the solver holds the second. -/
theorem solve_after_stopped :
    let env : Environment _ ℚ := ⟨Backend.sparseKernel.backend, false⟩
    let r := performAll env ⟨.create 0 false false 0, .initial, []⟩ stoppedCalls
    ((solve env #[2, 2]).run.run r).1.toOption = some #[1, 1] ∧
      r.solver.matrix.get 0 0 = .ok 5 ∧ ¬r.solver.matrix.Solves #[1, 1] #[2, 2] := by
  intro env r
  refine ⟨by decide +kernel, by decide +kernel, fun h => ?_⟩
  exact absurd (h.row 0 (by decide +kernel)) (by decide +kernel)

end CentralPath.Direct
