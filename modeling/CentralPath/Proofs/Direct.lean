/-
  Setting up a direct solver. There are three ways to the matrix of a system: learn the positions
  and fill them, clear the positions of the last setup and fill them again, or start from an even
  split. Each is a preparation that leaves a matrix reading zero (`Cleared`), and from there the
  same filling makes the system (`Cleared.system_fill`). Which positions are stored depends on the
  way, what they hold does not (`setup_assembles`).
-/
import CentralPath.Backend.Scripted
import CentralPath.Direct
import CentralPath.Proofs.Backend.Work
import CentralPath.Proofs.Sparse.Learning

namespace CentralPath.Direct

open Backend (Environment Session Work)
open Backend.Work
open Sparse (Assembly Matrix Names Pattern Table Write WritesFit)

/-- The solver with its matrix under the lock as the solver is set, ready for an assembly. -/
def lockedAsSet {α : Type} (s : Solver α) : Solver α :=
  { s with matrix := s.matrix.setLock s.locks }

theorem sound_lockedAsSet {α : Type} {s : Solver α} (h : s.matrix.Sound) :
    (lockedAsSet s).matrix.Sound :=
  h.of_buffers_eq rfl rfl rfl rfl rfl

variable {σ K : Type} [Field K] [LinearOrder K]

/-! ## Systems -/

/-- The matrix is the system that writes make out of zeros, in canonical form. -/
structure SystemOf (dim : Nat) (writes : List (Write K)) (m : Matrix K) : Prop where
  rows_eq : m.rows = dim
  cols_eq : m.cols = dim
  byRows : m.orientation = .byRows
  compressed : m.compressed = true
  verify_eq : m.verify = 0
  represents : m.Represents (writes.foldl Table.write (Table.zero dim dim))

/-- A matrix that is ready to be filled: of the right shape, and reading zero everywhere. -/
structure Cleared (dim : Nat) (m : Matrix K) : Prop where
  sound : m.Sound
  rows_eq : m.rows = dim
  cols_eq : m.cols = dim
  byRows : m.orientation = .byRows
  zero : ∀ row col, m.valueAt row col = 0

omit [LinearOrder K] in
theorem Cleared.inShape {dim : Nat} {writes : List (Write K)} {m : Matrix K} (h : Cleared dim m)
    (hfit : WritesFit dim dim writes) : ∀ w ∈ writes, m.InShape w.row w.col := fun w hw => by
  rw [Matrix.InShape, h.rows_eq, h.cols_eq]
  exact hfit w hw

/-- Writes and a compression turn a cleared matrix into the system. -/
theorem Cleared.system [IsStrictOrderedRing K] {dim : Nat} {writes : List (Write K)} {m : Matrix K}
    (h : Cleared dim m) (hfit : WritesFit dim dim writes) :
    SystemOf dim writes (m.writeAll writes).2.compress.1 := by
  obtain ⟨hsound, hframe⟩ := h.sound.writeAll writes
  have hrows := hframe.rows.trans h.rows_eq
  have hcols := hframe.cols.trans h.cols_eq
  have hzero := h.sound.represents_zero h.zero
  rw [h.rows_eq, h.cols_eq] at hzero
  have hwritten := h.sound.represents_writeAll hzero (h.inShape hfit)
  refine ⟨hrows, hcols, hframe.orientation.trans h.byRows, rfl,
    Matrix.verify_eq_zero_iff.mpr hsound.compress, ?_⟩
  refine hsound.compress.represents hwritten.rows hwritten.cols fun row col hin => ?_
  rw [hsound.valueAt_compress]
  exact hwritten.valueAt_eq hsound hin

/-! ## The parts of a setup -/

section

variable {r : Session (Solver K) σ K} {dim : Nat} {writes : List (Write K)}

/-- Filling a cleared matrix is not refused, and changes nothing but the matrix. -/
theorem ends_fill (debug : Bool) (h : Cleared dim r.solver.matrix)
    (hfit : WritesFit dim dim writes) :
    Ends (fill debug (.ofWrites writes)) (fun _ r' => r'.backend = r.backend ∧
        r'.solver.id = r.solver.id ∧
        r'.solver.matrix = (r.solver.matrix.writeAll writes).2.compress.1)
      (fun _ _ => False) r := by
  rw [fill, ends_bind, ends_solver, Matrix.assemble_ofWrites]
  simp only [ends_bind_eq, ends_change, ends_report, ends_stopAt,
    h.sound.writeAll_fault (h.inShape hfit), and_self]

/-- Learning is not refused, and loads the positions of the writes. -/
theorem ends_learn (horient : r.solver.matrix.orientation = .byRows)
    (hfit : WritesFit dim dim writes) :
    ∃ pattern loaded, pattern.Records writes ∧ r.solver.matrix.loadPattern pattern = .ok loaded ∧
      Cleared dim loaded ∧
      Ends (learn (.ofWrites writes) dim) (fun _ r' => r'.backend = r.backend ∧
        r'.solver.id = r.solver.id ∧ r'.solver.matrix = loaded) (fun _ _ => False) r := by
  have hwrites : Sparse.Lesson.writes (writes.map .write) = writes := by
    rw [Sparse.Lesson.writes, List.filterMap_map]
    exact List.filterMap_some
  obtain ⟨hfault, ho, hr, hc, hrecords⟩ :=
    Pattern.learn_empty .byRows (hwrites.symm ▸ hfit : WritesFit dim dim (Sparse.Lesson.writes _))
  rw [Pattern.learn_map_write] at hfault ho hr hc hrecords
  rw [hwrites] at hrecords
  obtain ⟨loaded, hload, hrows, hcols⟩ :=
    Matrix.exists_loadPattern (m := r.solver.matrix) (ho.trans horient.symm)
  refine ⟨_, loaded, hrecords, hload, ⟨Matrix.sound_loadPattern hrecords.inRange hload,
    hrows.trans hr, hcols.trans hc, ?_, Matrix.valueAt_loadPattern hrecords.inRange hload⟩, ?_⟩
  · obtain ⟨-, rfl⟩ := Matrix.loadPattern_eq hload
    exact horient
  have hcreate : Pattern.create (α := K) dim dim .byRows = .ok (Pattern.empty dim dim .byRows) := by
    rw [Pattern.create, if_neg (by omega)]
    rfl
  rw [learn, ends_bind, ends_solver, ends_bind, ends_lift, hcreate]
  dsimp only
  rw [Pattern.assemble_ofWrites]
  simp only [ends_bind_eq, ends_stopAt, hfault, ends_lift, hload, ends_change, ends_report, and_self]

/-- Clearing is not refused, and resets the matrix. -/
theorem ends_clear (dim : Nat) (h : r.solver.matrix.Sound)
    (horient : r.solver.matrix.orientation = .byRows) :
    ∃ cleared, r.solver.matrix.reset dim dim (r.solver.roomFor dim) = .ok cleared ∧
      Cleared dim cleared ∧
      Ends (clear dim) (fun _ r' => r'.backend = r.backend ∧
        r'.solver.id = r.solver.id ∧ r'.solver.matrix = cleared) (fun _ _ => False) r := by
  obtain ⟨cleared, hreset⟩ := r.solver.matrix.exists_reset (Int.natCast_nonneg dim)
    (Int.natCast_nonneg dim) (r.solver.roomFor dim)
  obtain ⟨hrows, hcols⟩ := Matrix.shape_of_reset hreset
  refine ⟨cleared, hreset, ⟨h.reset hreset, Int.ofNat_inj.mp hrows, Int.ofNat_inj.mp hcols,
    (Matrix.frame_of_reset hreset).1.trans horient, h.valueAt_reset hreset⟩, ?_⟩
  rw [clear, ends_bind, ends_solver, ends_bind, ends_lift, hreset]
  simp only [ends_change, and_self]

/-- The system of a setup, and which of its positions are stored. -/
structure SetUp (dim : Nat) (writes : List (Write K)) (s : Solver K) (m : Matrix K) : Prop where
  system : SystemOf dim writes m
  learned : s.learns = true → s.reusesPositions dim = false →
    (∀ row col, m.Owns row col ↔ Names writes row col) ∧
      m.shifts = s.matrix.shifts ∧ m.growths = s.matrix.growths
  kept : s.reusesPositions dim = true → s.matrix.lockBroken = false →
    ∀ row col, m.Owns row col ↔ s.matrix.Owns row col ∨ Names writes row col

variable [IsStrictOrderedRing K]

/-- A matrix that has loaded the positions of the writes becomes a system of these positions. -/
theorem setUp_of_learned {s : Solver K} {pattern : Pattern} {loaded : Matrix K}
    (hfit : WritesFit dim dim writes) (hrecords : pattern.Records writes)
    (hload : (lockedAsSet s).matrix.loadPattern pattern = .ok loaded)
    (hcleared : Cleared dim loaded) (hreuse : s.reusesPositions dim = false) :
    SetUp dim writes s (loaded.writeAll writes).2.compress.1 := by
  obtain ⟨-, hplace, hpacked⟩ := Matrix.packed_of_loadPattern hrecords hload
  have hsound := (hcleared.sound.writeAll writes).1
  refine ⟨hcleared.system hfit, fun _ _ => ⟨fun row col => ?_, ?_⟩, fun h => ?_⟩
  · exact (hsound.owns_compress_iff (.inr fun _ => hpacked.live_of_slotOf?)).trans
      (hpacked.owns_iff row col)
  · obtain ⟨-, rfl⟩ := Matrix.loadPattern_eq hload
    exact ⟨hplace.shifts, hplace.growths⟩
  · rw [hreuse] at h
    cases h

/-- A matrix that has been cleared for the writes becomes a system of the positions kept. -/
theorem setUp_of_cleared {s : Solver K} {cleared : Matrix K} {hint : Int}
    (hfit : WritesFit dim dim writes)
    (hreset : (lockedAsSet s).matrix.reset dim dim hint = .ok cleared)
    (hcleared : Cleared dim cleared) (hway : s.learns = false ∨ s.reusesPositions dim = true) :
    SetUp dim writes s (cleared.writeAll writes).2.compress.1 := by
  obtain ⟨hsound, hframe⟩ := hcleared.sound.writeAll writes
  refine ⟨hcleared.system hfit, fun hlearns hreuse => ?_, fun hreuse hbroken row col => ?_⟩
  · rw [hlearns, hreuse] at hway
    rcases hway with h | h <;> cases h
  · simp only [Solver.reusesPositions, Solver.hasDim, Bool.and_eq_true, beq_iff_eq] at hreuse
    obtain ⟨⟨hlocks, -⟩, hrows, hcols⟩ := hreuse
    have hkept := Matrix.reset_of_locked (m := (lockedAsSet s).matrix) hlocks hbroken hint
    rw [show ((lockedAsSet s).matrix.rows : Int) = dim from hrows,
      show ((lockedAsSet s).matrix.cols : Int) = dim from hcols] at hkept
    obtain rfl := Except.ok.inj (hkept.symm.trans hreset)
    have hold : (lockedAsSet s).matrix.Owns row col ↔ s.matrix.Owns row col := Iff.rfl
    rw [hsound.owns_compress_iff (.inl (hframe.locked.trans hlocks)),
      hcleared.sound.owns_writeAll_iff hlocks (hcleared.inShape hfit),
      (Matrix.revalued_cleared _).sameTopology.owns_iff rfl, hold]

omit [IsStrictOrderedRing K] in
/-- Assembling inside the shape is not refused. It loads the positions of the dry run or clears the
matrix, and fills what comes of that. -/
theorem ends_assembleBy (debug : Bool) {P : Matrix K → Prop} {learned : List (Write K)}
    {assembly : Pass → Assembly K} (hpattern : assembly .pattern = .ofWrites learned)
    (hmatrix : assembly .matrix = .ofWrites writes) (hfit' : WritesFit dim dim learned)
    (hfit : WritesFit dim dim writes) (horient : r.solver.matrix.orientation = .byRows)
    (hsound : r.solver.learns = false ∨ r.solver.reusesPositions dim = true →
      r.solver.matrix.Sound)
    (hlearned : ∀ pattern loaded, r.solver.reusesPositions dim = false → pattern.Records learned →
      (lockedAsSet r.solver).matrix.loadPattern pattern = .ok loaded → Cleared dim loaded →
      P (loaded.writeAll writes).2.compress.1)
    (hcleared : ∀ cleared hint, r.solver.learns = false ∨ r.solver.reusesPositions dim = true →
      (lockedAsSet r.solver).matrix.reset dim dim hint = .ok cleared → Cleared dim cleared →
      P (cleared.writeAll writes).2.compress.1) :
    Ends (assembleBy debug assembly dim) (fun _ r' => r'.backend = r.backend ∧
      r'.solver.id = r.solver.id ∧ P r'.solver.matrix) (fun _ _ => False) r := by
  rw [assembleBy, ends_bind, ends_change, ends_bind, ends_solver, hpattern, hmatrix]
  -- the session behind the first step, and the two ways from there
  change Ends (if r.solver.learns && !r.solver.reusesPositions dim then _ else _) _ _
    ({ r with solver := lockedAsSet r.solver } : Session (Solver K) σ K)
  split_ifs with hway
  · obtain ⟨pattern, loaded, hrecords, hload, hfresh, hlearn⟩ :=
      ends_learn (r := { r with solver := lockedAsSet r.solver }) horient hfit'
    have hreuse : r.solver.reusesPositions dim = false := by
      rw [Bool.and_eq_true, Bool.not_eq_true'] at hway
      exact hway.2
    refine hlearn.bind (fun _ r₂ h₂ => ?_) fun _ _ => id
    obtain ⟨hbackend, hid, rfl⟩ := h₂
    refine (ends_fill debug hfresh hfit).bind (fun _ r₃ h₃ => ?_) fun _ _ => id
    obtain ⟨hbackend', hid', hmatrix⟩ := h₃
    rw [ends_pure, hmatrix]
    exact ⟨hbackend'.trans hbackend, hid'.trans hid, hlearned _ _ hreuse hrecords hload hfresh⟩
  · have hway' : r.solver.learns = false ∨ r.solver.reusesPositions dim = true := by
      rw [Bool.and_eq_true, Bool.not_eq_true', not_and_or, Bool.not_eq_true,
        Bool.not_eq_false] at hway
      exact hway
    obtain ⟨cleared, hreset, hfresh, hclear⟩ := ends_clear dim
      (r := { r with solver := lockedAsSet r.solver }) (sound_lockedAsSet (hsound hway')) horient
    refine hclear.bind (fun _ r₂ h₂ => ?_) fun _ _ => id
    obtain ⟨hbackend, hid, rfl⟩ := h₂
    refine (ends_fill debug hfresh hfit).bind (fun _ r₃ h₃ => ?_) fun _ _ => id
    obtain ⟨hbackend', hid', hmatrix⟩ := h₃
    rw [ends_pure, hmatrix]
    exact ⟨hbackend'.trans hbackend, hid'.trans hid, hcleared _ _ hway' hreset hfresh⟩

/-- Assembling is not refused, and ends in a system. -/
theorem ends_assemble (debug : Bool) (h : r.solver.matrix.Sound)
    (horient : r.solver.matrix.orientation = .byRows) (hfit : WritesFit dim dim writes) :
    Ends (assembleBy debug (fun _ => .ofWrites writes) dim) (fun _ r' => r'.backend = r.backend ∧
      r'.solver.id = r.solver.id ∧ SetUp dim writes r.solver r'.solver.matrix)
      (fun _ _ => False) r :=
  ends_assembleBy debug rfl rfl hfit hfit horient (fun _ => h)
    (fun _ _ hreuse hrecords hload hcleared =>
      setUp_of_learned hfit hrecords hload hcleared hreuse)
    fun _ _ hway hreset hcleared => setUp_of_cleared hfit hreset hcleared hway

/-- What a backend answers when it is handed a matrix to factorize. -/
def factorization (env : Environment σ K) (r : Session (Solver K) σ K) (dim : Nat) (m : Matrix K) :
    Backend.Reply σ K :=
  env.backend.call (fun _ => m) .analyzeFactorize
    (env.backend.bind (.shared (.assembled r.solver.id)) (Vector.zeros dim) r.backend)

/-- A setup hands the backend the right system. It starts from a solver in any state: whatever its
options are, whether it is asked to learn again or not, and whatever its matrix holds or has room
for, as long as the storage rules are kept.
The assembly, writes inside the shape, is not refused. The matrix that the backend is asked to
factorize, and that the solver is left with whatever the answer is, has the new shape, is in
canonical form and means what the writes leave on a table of zeros. Where the positions are learned
it stores those of the writes and no others, without a shift or a redistribution; where they are
kept from the last setup, under a lock that no prune has broken, it stores these and those of the
writes. -/
theorem setup_assembles (env : Environment σ K) (r : Session (Solver K) σ K) (dim : Nat)
    (writes : List (Write K)) (hverify : r.solver.matrix.verify = 0)
    (horient : r.solver.matrix.orientation = .byRows) (hfit : WritesFit dim dim writes) :
    Ends (setup env (.ofWrites writes) dim)
      (fun _ r' => SetUp dim writes r.solver r'.solver.matrix ∧
        (factorization env r dim r'.solver.matrix).status = .ok Backend.statusOk ∧
        r'.backend = (factorization env r dim r'.solver.matrix).state)
      (fun _ r' => SetUp dim writes r.solver r'.solver.matrix ∧
        (factorization env r dim r'.solver.matrix).status ≠ .ok Backend.statusOk ∧
        r'.backend = (factorization env r dim r'.solver.matrix).state) r := by
  rw [setup, setupBy, ends_bind]
  refine (ends_assemble env.debug (Matrix.verify_eq_zero_iff.mp hverify) horient hfit).mono
    (fun _ r₁ h₁ => ?_) fun _ _ => False.elim
  obtain ⟨hbackend, hid, hsetUp⟩ := h₁
  have hreply : env.backend.call (fun _ => r₁.solver.matrix) .analyzeFactorize
      (env.backend.bind (.shared (.assembled r₁.solver.id)) (Vector.zeros (dim : Int).toNat)
        r₁.backend) = factorization env r dim r₁.solver.matrix := by
    rw [factorization, hbackend, hid, Int.toNat_natCast]
  rw [ends_bind, ends_solver, ends_bind, ends_request, hreply]
  dsimp only
  split
  · rename_i status hstatus
    split
    · rename_i hok
      rw [Backend.statusFault?] at hok
      split_ifs at hok with hzero
      rw [ends_bind, ends_change, ends_pure]
      exact ⟨hsetUp, hstatus.trans (congrArg _ hzero), rfl⟩
    · rename_i e he
      refine ⟨hsetUp, fun hok => ?_, rfl⟩
      have hzero := Except.ok.inj (hstatus.symm.trans hok)
      rw [Backend.statusFault?, if_pos hzero] at he
      cases he
  · rename_i e hstatus
    refine ⟨hsetUp, fun hok => ?_, rfl⟩
    cases hstatus.symm.trans hok

end

/-- A solver that keeps its positions, and the matrix of its last setup: a value at one position and
a reserved slot at another. -/
def usedSolver : Solver ℚ :=
  { (Solver.create 0 true true 5 : Solver ℚ) with
    matrix :=
      { rows := 2, cols := 2, orientation := .byRows
        lead := #[0, 2, 3], slots := #[⟨0, 8, true⟩, ⟨1, 0, false⟩, ⟨1, -3, true⟩]
        shiftBound := none, locked := true, lockBroken := false, compressed := false
        shifts := 4, growths := #[] }
    relearns := false }

/-- Two sums at one position and a zero at another. -/
def doubledWrites : List (Write ℚ) := [⟨0, 0, 1, false⟩, ⟨1, 0, 0, true⟩, ⟨0, 0, 2, false⟩]

/-- Nothing is left of the old values, but their slots are there again. -/
theorem setup_assembles_usedSolver :
    (usedSolver.matrix.verify = 0 ∧ usedSolver.matrix.orientation = .byRows ∧
      WritesFit 2 2 doubledWrites) ∧
    Ends (σ := Backend.Script ℚ) (setup ⟨Backend.scripted, false⟩ (.ofWrites doubledWrites) 2)
      (fun _ r' => r'.solver.matrix.get 0 0 = .ok 3 ∧ r'.solver.matrix.get 0 1 = .ok 0 ∧
        r'.solver.matrix.Owns 0 1)
      (fun _ _ => False) ⟨usedSolver, ⟨none, [⟨0, #[]⟩], #[]⟩, []⟩ := by
  have hverify : usedSolver.matrix.verify = 0 := by decide +kernel
  refine ⟨⟨hverify, rfl, by decide⟩, ?_⟩
  refine (setup_assembles ⟨Backend.scripted, false⟩ ⟨usedSolver, ⟨none, [⟨0, #[]⟩], #[]⟩, []⟩ 2
    doubledWrites hverify rfl (by decide)).mono ?_ ?_
  · rintro - r' ⟨h, -, -⟩
    have hget : ∀ row col : Int, 0 ≤ row ∧ row < 2 ∧ 0 ≤ col ∧ col < 2 →
        r'.solver.matrix.get row col =
          .ok ((doubledWrites.foldl Table.write (Table.zero 2 2)).value row col) := fun row col hin =>
      h.system.represents.get row col (by
        rw [Matrix.InShape, h.system.rows_eq, h.system.cols_eq]
        exact hin)
    refine ⟨(hget 0 0 (by decide)).trans ?_, (hget 0 1 (by decide)).trans ?_,
      (h.kept (by decide) rfl 0 1).mpr (.inl (by decide +kernel))⟩
    · decide +kernel
    · decide +kernel
  · rintro e r' ⟨h, hstatus, -⟩
    have hentries := Matrix.storedEntries_of_isCut
      (Matrix.verify_eq_zero_iff.mp h.system.verify_eq).isCut
    refine hstatus ?_
    simp only [factorization, Backend.scripted, Backend.Script.next, Option.map_some,
      Backend.Binding.resolve, Backend.SystemMatrix.entries, hentries]
    rfl

end CentralPath.Direct
