/-
  Setups that fail, and what they leave for the next one. A setup may stop anywhere: in its dry run,
  half-way through the matrix, at the factorization. It leaves a sound matrix behind, unless the
  positions that it loaded stray (`Kept.perform`): the dry run looks at rows only, the matrix at
  columns as well. A later setup inside the shape then does what it does on a new solver
  (`setup_after_failures`), save for one that keeps the positions of a setup that strayed
  (`setup_after_straying`).
-/
import CentralPath.Proofs.Direct.Calls

namespace CentralPath.Direct

open Backend (Environment Impartial Session Work)
open Backend.Work
open Sparse (Assembly Matrix Pattern Table Write WritesFit)

section

variable {σ α : Type} [Scalar α]

/-- Whether the positions that the solver holds behind a call stray, given whether they did before. -/
def Call.straysBehind (s : Solver α) (before : Bool) : Call α → Bool
  | .setup assembly dim => s.straysBehind assembly dim before
  | .relearn => before
  | .solve _ => before

/-- Whether the positions that the solver holds behind a sequence of calls stray. -/
def straysAfter (env : Environment σ α) (r : Session (Solver α) σ α) (before : Bool) :
    List (Call α) → Bool
  | [] => before
  | c :: calls => straysAfter env (perform env r c) (c.straysBehind r.solver before) calls

/-- An assembly that runs to its end on both. -/
def runsOn (learned writes : List (Write α)) : Pass → Assembly α
  | .pattern => .ofWrites learned
  | .matrix => .ofWrites writes

/-- What calls keep of a solver as it was made. -/
structure Kept (made : Solver α) (astray : Bool) (s : Solver α) : Prop where
  settings : made.SameSettings s
  byRows : s.matrix.orientation = .byRows
  sound : astray = false → s.matrix.Sound
  learns : astray = true → made.learns = true

theorem kept_create (id : Nat) (learns locks : Bool) (hint : Int) :
    Kept (.create id learns locks hint) false (.create id learns locks hint : Solver α) where
  settings := ⟨rfl, rfl, rfl, rfl⟩
  byRows := rfl
  sound _ := Matrix.sound_unit
  learns h := absurd h (by decide)

variable {env : Environment σ α} {made : Solver α} {before : Bool} {r : Session (Solver α) σ α}

omit [Scalar α] in
theorem Kept.of_matrix_eq {s s' : Solver α} (h : Kept made before s)
    (hsettings : s.SameSettings s') (hmatrix : s'.matrix = s.matrix) : Kept made before s' :=
  ⟨h.settings.trans hsettings, hmatrix ▸ h.byRows, fun hbefore => hmatrix ▸ h.sound hbefore,
    h.learns⟩

/-- Every call keeps this, whether it returns or is refused. -/
theorem Kept.perform (h : Kept made before r.solver) (c : Call α) :
    Kept made (c.straysBehind r.solver before) (Direct.perform env r c).solver := by
  cases c with
  | relearn => exact h.of_matrix_eq ⟨rfl, rfl, rfl, rfl⟩ rfl
  | solve rhs =>
    have hsolver : Ends (solve env rhs) (fun _ r' => Kept made before r'.solver)
        (fun _ r' => Kept made before r'.solver) r := by
      rw [ends_solve]
      split_ifs
      · exact h
      · dsimp only
        split
        · split
          · exact h.of_matrix_eq ⟨rfl, rfl, rfl, rfl⟩ rfl
          · exact h.of_matrix_eq ⟨rfl, rfl, rfl, rfl⟩ rfl
        · exact h
    exact session_of_ends hsolver
  | setup assembly dim =>
    have hlearns : r.solver.straysBehind assembly dim before = true → made.learns = true := by
      intro hstrays
      rw [Solver.straysBehind] at hstrays
      split_ifs at hstrays with hdry
      · rw [Solver.dryRuns, Bool.and_assoc, Bool.and_eq_true] at hdry
        exact h.settings.learns.symm.trans hdry.1
      · exact h.learns hstrays
    have hkept : ∀ r', Assembling assembly dim r r' →
        Kept made (r.solver.straysBehind assembly dim before) r'.solver := fun r' h' =>
      ⟨h.settings.trans h'.settings, h'.byRows, h'.sound before h.sound, hlearns⟩
    have hsolver : Ends (setupBy env assembly dim)
        (fun _ r' => Kept made (r.solver.straysBehind assembly dim before) r'.solver)
        (fun _ r' => Kept made (r.solver.straysBehind assembly dim before) r'.solver) r := by
      rw [ends_setupBy]
      refine (ends_assembleBy_assembling env.debug assembly h.byRows).mono (fun _ r' h' => ?_)
        fun _ r' h' => hkept r' h'
      dsimp only
      split
      · exact (hkept r' h'.1).of_matrix_eq ⟨rfl, rfl, rfl, rfl⟩ rfl
      · exact hkept r' h'.1
    exact session_of_ends hsolver

/-- So does a sequence of calls. -/
theorem Kept.performAll (h : Kept made before r.solver) (calls : List (Call α)) :
    Kept made (straysAfter env r before calls) (Direct.performAll env r calls).solver := by
  induction calls generalizing r before with
  | nil => exact h
  | cons c calls ih => exact ih (h.perform c)

end

variable {σ K : Type} [Field K] [LinearOrder K]

/-- A setup has handed its backend the system of the writes. -/
structure HandedOver (env : Environment σ K) (r r' : Session (Solver K) σ K) (dim : Nat)
    (writes : List (Write K)) : Prop where
  system : SystemOf dim writes r'.solver.matrix
  backend : r'.backend = (factorization env r dim r'.solver.matrix).state

variable {env : Environment σ K} {made : Solver K} {r : Session (Solver K) σ K}
  {learned writes : List (Write K)}

/-- A dimension below zero is refused. -/
theorem ends_setupBy_negative {dim : Int} (hdim : dim < 0) (assembly : Pass → Assembly K) :
    Ends (setupBy env assembly dim) (fun _ _ => False)
      (fun e _ => e = .negativeDimensions dim dim) r := by
  rw [ends_setupBy, assembleBy, ends_bind, ends_change, ends_bind, ends_solver]
  split_ifs
  · rw [ends_bind, learn, ends_bind, ends_solver, ends_bind, ends_lift, Pattern.create,
      if_pos (.inl hdim)]
  · rw [ends_bind, clear, ends_bind, ends_solver, ends_bind, ends_lift, Matrix.reset,
      if_pos (.inl hdim)]

variable [IsStrictOrderedRing K]

/-- A setup inside the shape hands over its system, unless it keeps positions that stray, and ends
as the backend replies. -/
theorem Kept.ends_setupBy {astray : Bool} (h : Kept made astray r.solver) {dim : Nat}
    (hlearned : WritesFit dim dim learned) (hwrites : WritesFit dim dim writes)
    (hreuse : astray = true → r.solver.reusesPositions dim = false) :
    Ends (setupBy env (runsOn learned writes) dim)
      (fun _ r' => HandedOver env r r' dim writes ∧
        (factorization env r dim r'.solver.matrix).fault? "direct solver setup" .analyzeFactorize =
          none)
      (fun e r' => HandedOver env r r' dim writes ∧
        (factorization env r dim r'.solver.matrix).fault? "direct solver setup" .analyzeFactorize =
          some e) r := by
  have hsound : r.solver.learns = false ∨ r.solver.reusesPositions dim = true →
      r.solver.matrix.Sound := by
    intro hway
    cases astray with
    | false => exact h.sound rfl
    | true =>
      rcases hway with hlearns | hkeeps
      · cases hlearns.symm.trans (h.settings.learns.trans (h.learns rfl))
      · cases hkeeps.symm.trans (hreuse rfl)
  rw [Direct.ends_setupBy]
  refine (ends_assembleBy env.debug rfl rfl hlearned hwrites h.byRows hsound
    (fun _ _ _ _ _ hcleared => hcleared.system hwrites)
    fun _ _ _ _ hcleared => hcleared.system hwrites).mono (fun _ r' h' => ?_) fun _ _ => False.elim
  obtain ⟨hbackend, hid, hsystem⟩ := h'
  have hreply : env.backend.ask (.assembled r'.solver.id) r'.solver.matrix
      (Vector.zeros (dim : Int).toNat) .analyzeFactorize r'.backend =
        factorization env r dim r'.solver.matrix := by
    rw [factorization, Backend.ask, hbackend, hid, Int.toNat_natCast]
  rw [hreply]
  dsimp only
  split
  · rename_i hfault
    exact ⟨⟨hsystem, rfl⟩, hfault⟩
  · rename_i e hfault
    exact ⟨⟨hsystem, rfl⟩, hfault⟩

/-- A failed setup does not show in the next one. Calls of any kind are made on a new solver: its
setups may stop in the dry run or half-way through the matrix, leave the shape, or fail at the
backend, whichever backend that is.
As long as the positions that the solver holds do not stray, that is, as long as the last assembly
that they were learned from kept to the columns of the shape, its matrix obeys the storage rules.
Then, and also where they do stray but are not kept, a setup with all its writes inside the shape
hands the backend the system of these writes, as it does on a new solver of the same settings, and
it returns or is refused by the same fault as there. -/
theorem setup_after_failures (env : Environment σ K) (himpartial : Impartial env.backend) (id : Nat)
    (learns locks : Bool) (hint : Int) (s : σ) (calls : List (Call K)) :
    let start : Session (Solver K) σ K := ⟨.create id learns locks hint, s, []⟩
    let r := performAll env start calls
    let astray := straysAfter env start false calls
    (astray = false → r.solver.matrix.verify = 0) ∧
    ∀ (dim : Int) (learned writes : List (Write K)) (id' : Nat) (s' : σ),
      WritesFit dim.toNat dim.toNat learned → WritesFit dim.toNat dim.toNat writes →
      (astray = true → r.solver.reusesPositions dim = false) →
      let fresh : Session (Solver K) σ K := ⟨.create id' learns locks hint, s', []⟩
      Abreast (setupBy env (runsOn learned writes) dim) (setupBy env (runsOn learned writes) dim)
        (fun _ t _ t' => HandedOver env r t dim.toNat writes ∧
          HandedOver env fresh t' dim.toNat writes)
        (fun e t e' t' => e' = e ∧ (0 ≤ dim → HandedOver env r t dim.toNat writes ∧
          HandedOver env fresh t' dim.toNat writes)) r fresh := by
  intro start r astray
  have hkept : Kept start.solver astray r.solver := (kept_create id learns locks hint).performAll calls
  refine ⟨fun h => Matrix.verify_eq_zero_iff.mpr (hkept.sound h), ?_⟩
  intro dim learned writes id' s' hlearned hwrites hreuse fresh
  rcases lt_or_ge dim 0 with hdim | hdim
  · exact (ends_setupBy_negative hdim _).abreast (ends_setupBy_negative hdim _)
      (fun _ _ _ _ => False.elim)
      (fun e t e' t' he he' => ⟨he'.trans he.symm, fun h => absurd h (not_le.mpr hdim)⟩)
      (fun _ _ _ _ => False.elim) fun _ _ _ _ _ => False.elim
  obtain ⟨n, rfl⟩ := Int.eq_ofNat_of_zero_le hdim
  rw [Int.toNat_natCast] at hlearned hwrites ⊢
  have hfresh : Kept fresh.solver false fresh.solver := kept_create id' learns locks hint
  -- both replies are to matrices that represent the same
  have hfault : ∀ {t t' : Session (Solver K) σ K}, HandedOver env r t n writes →
      HandedOver env fresh t' n writes →
      (factorization env fresh n t'.solver.matrix).fault? "direct solver setup" .analyzeFactorize =
        (factorization env r n t.solver.matrix).fault? "direct solver setup" .analyzeFactorize :=
    fun h h' => Backend.Reply.fault?_congr (himpartial _ _ _ _ _ _ _
      (Matrix.verify_eq_zero_iff.mp h.system.verify_eq)
      (Matrix.verify_eq_zero_iff.mp h'.system.verify_eq)
      (h.system.represents.ofMatrix_eq h'.system.represents)) _ _
  refine (hkept.ends_setupBy hlearned hwrites hreuse).abreast
    (hfresh.ends_setupBy hlearned hwrites nofun) ?_ ?_ ?_ ?_
  · rintro _ t _ t' ⟨h, -⟩ ⟨h', -⟩
    exact ⟨h, h'⟩
  · rintro e t e' t' ⟨h, he⟩ ⟨h', he'⟩
    exact ⟨Option.some.inj (he'.symm.trans ((hfault h h').trans he)), fun _ => ⟨h, h'⟩⟩
  · rintro _ t e' t' ⟨h, hnone⟩ ⟨h', he'⟩
    cases he'.symm.trans ((hfault h h').trans hnone)
  · rintro e t _ t' ⟨h, he⟩ ⟨h', hnone⟩
    cases hnone.symm.trans ((hfault h h').trans he)

/-- The second write leaves the columns. -/
def strayWrites : List (Write ℚ) := [⟨0, 0, 2, true⟩, ⟨1, 5, 1, true⟩]

/-- A diagonal. -/
def diagonalWrites : List (Write ℚ) := [⟨0, 0, 2, true⟩, ⟨1, 1, 4, true⟩]

/-- A new solver that learns and locks. -/
def lockingStart {σ : Type} (s : σ) : Session (Solver ℚ) σ ℚ := ⟨.create 0 true true 0, s, []⟩

/-- A setup that strays, and the order to learn again. -/
def strayCalls : List (Call ℚ) := [.setup (runsOn strayWrites strayWrites) 2, .relearn]

/-- After the order to learn again the diagonal is set up as on a new solver. -/
theorem setup_after_failures_relearned :
    let env : Environment _ ℚ := ⟨Backend.cramerKernel.backend, false⟩
    let r := performAll env (lockingStart .initial) strayCalls
    (Impartial env.backend ∧ WritesFit 2 2 diagonalWrites ∧
      straysAfter env (lockingStart .initial) false strayCalls = true ∧
      r.solver.reusesPositions 2 = false) ∧
    Abreast (setupBy env (runsOn diagonalWrites diagonalWrites) 2)
      (setupBy env (runsOn diagonalWrites diagonalWrites) 2)
      (fun _ t _ t' => t.solver.matrix.get 1 1 = .ok 4 ∧ t'.solver.matrix.get 1 1 = .ok 4)
      (fun e t e' t' => e' = e ∧ t.solver.matrix.get 1 1 = .ok 4 ∧
        t'.solver.matrix.get 1 1 = .ok 4) r (lockingStart .initial) := by
  intro env r
  have hfit : WritesFit 2 2 diagonalWrites := by decide
  have hreuse : r.solver.reusesPositions 2 = false := by decide +kernel
  refine ⟨⟨Backend.impartial_cramer, hfit, by decide +kernel, hreuse⟩, ?_⟩
  obtain ⟨-, h⟩ := setup_after_failures env Backend.impartial_cramer 0 true true 0 .initial strayCalls
  have hget : ∀ {r t : Session (Solver ℚ) _ ℚ}, HandedOver env r t 2 diagonalWrites →
      t.solver.matrix.get 1 1 = .ok 4 := fun {_ t} h => by
    refine (h.system.represents.get 1 1 ?_).trans (by decide +kernel)
    rw [Matrix.InShape, h.system.rows_eq, h.system.cols_eq]
    decide
  refine (h 2 diagonalWrites diagonalWrites 0 .initial hfit hfit fun _ => hreuse).mono ?_ ?_
  · rintro _ t _ t' ⟨ht, ht'⟩
    exact ⟨hget ht, hget ht'⟩
  · rintro e t e' t' ⟨he, h⟩
    obtain ⟨ht, ht'⟩ := h (by decide)
    exact ⟨he, hget ht, hget ht'⟩

/-- Without it the lock keeps the positions that strayed: the matrix breaks the storage rules, and a
sparse factorization refuses the diagonal that it takes from a new solver. -/
theorem setup_after_straying :
    let env : Environment _ ℚ := ⟨Backend.sparseKernel.backend, false⟩
    let r := perform env (lockingStart .initial) (.setup (runsOn strayWrites strayWrites) 2)
    r.solver.matrix.verify = -3 ∧
      ((setup env (.ofWrites diagonalWrites) 2).run.run r).1.isOk = false ∧
      ((setup env (.ofWrites diagonalWrites) 2).run.run (lockingStart .initial)).1.isOk = true := by
  decide +kernel

end CentralPath.Direct
