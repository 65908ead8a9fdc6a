/-
  Calls on a direct solver. A setup goes through a dry run, which may be refused before anything has
  changed, through the filling of the matrix, which may stop anywhere, and through a factorization,
  which may fail. `Assembling` is what the first two leave behind, for every assembly and however it
  ends; `ends_setupBy` and `ends_solve` add what the backend replies.
-/
import CentralPath.Proofs.Backend.Factors
import CentralPath.Proofs.Direct
import CentralPath.Proofs.Sparse.Straying

namespace CentralPath.Direct

open Backend (Environment Session Work)
open Backend.Work
open Sparse (Assembly Matrix Pattern)

section

variable {σ α : Type} [Scalar α]

/-- A call on a direct solver. The assembly of a setup may do something else on the matrix than on
the pattern. -/
inductive Call (α : Type) where
  | setup (assembly : Pass → Assembly α) (dim : Int)
  | relearn
  | solve (rhs : Array α)

/-- The session behind a call, whether it returned or was refused. -/
def perform (env : Environment σ α) (r : Session (Solver α) σ α) :
    Call α → Session (Solver α) σ α
  | .setup assembly dim => ((setupBy env assembly dim).run.run r).2
  | .relearn => { r with solver := r.solver.relearn }
  | .solve rhs => ((solve env rhs).run.run r).2

/-- The session behind a sequence of calls. -/
def performAll (env : Environment σ α) (r : Session (Solver α) σ α) (calls : List (Call α)) :
    Session (Solver α) σ α :=
  calls.foldl (perform env) r

/-- Whether a setup starts with a dry run. -/
def Solver.dryRuns (s : Solver α) (dim : Int) : Bool := s.learns && !s.reusesPositions dim

/-- The pattern that a dry run records, unless it is refused. -/
def recorded (a : Assembly α) (dim : Int) : Except (Fault α) Pattern :=
  match Pattern.create dim dim .byRows with
  | .error e => .error e
  | .ok fresh =>
    match fresh.assemble a with
    | (some e, _) => .error e
    | (none, pattern) => .ok pattern

/-- Whether a setup comes as far as to change its matrix. -/
def Solver.touches (s : Solver α) (assembly : Pass → Assembly α) (dim : Int) : Bool :=
  if s.dryRuns dim then (recorded (assembly .pattern) dim).isOk else decide (0 ≤ dim)

/-- Whether an assembly writes to columns outside the shape. -/
def strays (a : Assembly α) (dim : Int) : Bool :=
  a.writes.any fun w => decide (w.col < 0) || decide (dim ≤ w.col)

/-- Whether the positions that the solver holds behind a setup stray. They are those of its dry run,
or where there is none, or it is refused, those of before. -/
def Solver.straysBehind (s : Solver α) (assembly : Pass → Assembly α) (dim : Int) (before : Bool) :
    Bool :=
  if s.dryRuns dim && (recorded (assembly .pattern) dim).isOk then strays (assembly .pattern) dim
  else before

/-! ## Dry runs -/

omit [Scalar α] in
/-- What a dry run records has the right shape, and is in range unless the assembly strays. -/
theorem recorded_spec {a : Assembly α} {dim : Int} {p : Pattern} (h : recorded a dim = .ok p) :
    p.orientation = .byRows ∧ (strays a dim = false → p.InRange) := by
  unfold recorded at h
  rcases hcreate : Pattern.create (α := α) dim dim .byRows with e | fresh <;> rw [hcreate] at h
  · cases h
  obtain ⟨hrange, ho, -, hc⟩ : fresh.InRange ∧ fresh.orientation = .byRows ∧
      fresh.rows = dim.toNat ∧ fresh.cols = dim.toNat := by
    rw [Pattern.create] at hcreate
    split_ifs at hcreate
    obtain rfl := Except.ok.inj hcreate
    exact ⟨(Pattern.records_empty (α := α) _ _ _).inRange, rfl, rfl, rfl⟩
  have hp : p = (fresh.writeAll a.writes).2 := by
    dsimp only at h
    split at h
    · cases h
    · rename_i heq
      obtain rfl := Except.ok.inj h
      exact (congrArg Prod.snd heq).symm
  rw [hp]
  refine ⟨(fresh.shape_writeAll a.writes).1.trans ho, fun hstray => ?_⟩
  refine Pattern.inRange_writeAll hrange ho fun w hw => ?_
  have hcol := List.any_eq_false.mp hstray w hw
  simp only [Bool.or_eq_true, decide_eq_true_eq, not_or, not_lt, not_le] at hcol
  rw [hc]
  omega

variable {r : Session (Solver α) σ α} {dim : Int}

/-- Learning is a dry run and the loading of what it recorded. -/
theorem ends_learn_recorded {Q : Unit → Session (Solver α) σ α → Prop}
    {R : Fault α → Session (Solver α) σ α → Prop} (a : Assembly α)
    (horient : r.solver.matrix.orientation = .byRows) :
    Ends (learn a dim) Q R r ↔
      match recorded a dim with
      | .error e => R e r
      | .ok p => ∀ loaded, r.solver.matrix.loadPattern p = .ok loaded →
        Q () { r with
          solver := { r.solver with matrix := loaded, relearns := false }
          events := r.events ++ [.patternLearned p.size dim] } := by
  rw [learn, ends_bind, ends_solver, ends_bind, ends_lift]
  rcases hrecorded : recorded a dim with e | p
  · unfold recorded at hrecorded
    rcases hcreate : Pattern.create (α := α) dim dim .byRows with e' | fresh <;>
      rw [hcreate] at hrecorded
    · rw [Except.error.inj hrecorded]
    · dsimp only at hrecorded ⊢
      rcases hrun : fresh.assemble a with ⟨_ | e', p⟩ <;> rw [hrun] at hrecorded
      · cases hrecorded
      · dsimp only
        rw [ends_bind, ends_stopAt, Except.error.inj hrecorded]
  · obtain ⟨ho, -⟩ := recorded_spec hrecorded
    obtain ⟨loaded, hload, -⟩ := Matrix.exists_loadPattern (m := r.solver.matrix) (p := p)
      (ho.trans horient.symm)
    unfold recorded at hrecorded
    rcases hcreate : Pattern.create (α := α) dim dim .byRows with e' | fresh <;>
      rw [hcreate] at hrecorded
    · cases hrecorded
    · dsimp only at hrecorded ⊢
      rcases hrun : fresh.assemble a with ⟨_ | e', p'⟩ <;> rw [hrun] at hrecorded
      · obtain rfl := Except.ok.inj hrecorded
        dsimp only
        rw [ends_bind, ends_stopAt, ends_bind, ends_lift, hload]
        dsimp only
        rw [ends_bind, ends_change, ends_report]
        refine ⟨fun h m hm => ?_, fun h => h loaded rfl⟩
        obtain rfl := Except.ok.inj hm
        exact h
      · cases hrecorded

/-! ## Assemblies that may stop anywhere -/

/-- The settings of a solver stay. -/
structure Solver.SameSettings (s s' : Solver α) : Prop where
  id : s'.id = s.id
  learns : s'.learns = s.learns
  locks : s'.locks = s.locks
  capacityHint : s'.capacityHint = s.capacityHint

omit [Scalar α] in
theorem Solver.SameSettings.trans {s s' s'' : Solver α} (h : s.SameSettings s')
    (h' : s'.SameSettings s'') : s.SameSettings s'' :=
  ⟨h'.id.trans h.id, h'.learns.trans h.learns, h'.locks.trans h.locks,
    h'.capacityHint.trans h.capacityHint⟩

/-- Only the matrix was changed, and it is sound if it was. -/
structure Filling (r r' : Session (Solver α) σ α) : Prop where
  backend : r'.backend = r.backend
  settings : r.solver.SameSettings r'.solver
  orientation : r'.solver.matrix.orientation = r.solver.matrix.orientation
  sound : r.solver.matrix.Sound → r'.solver.matrix.Sound

/-- Filling a matrix in any state, by an assembly that may stop anywhere. -/
theorem ends_fill_filling (debug : Bool) (a : Assembly α) :
    Ends (fill debug a) (fun _ => Filling r) (fun _ => Filling r) r := by
  have hwritten : Filling r { r with
      solver := { r.solver with matrix := (r.solver.matrix.writeAll a.writes).2 } } :=
    ⟨rfl, ⟨rfl, rfl, rfl, rfl⟩, Matrix.orientation_writeAll _ _, fun h => (h.writeAll _).1⟩
  rw [fill, ends_bind, ends_solver]
  dsimp only [Matrix.assemble]
  rw [ends_bind, ends_change, ends_bind, ends_report, ends_bind, ends_stopAt]
  split
  · rw [ends_bind, ends_change, ends_report]
    exact ⟨rfl, ⟨rfl, rfl, rfl, rfl⟩, hwritten.orientation, fun h => (hwritten.sound h).compress⟩
  · exact ⟨rfl, ⟨rfl, rfl, rfl, rfl⟩, hwritten.orientation, hwritten.sound⟩

/-- What is left behind by an assembly, whether it returns or is refused. -/
structure Assembling (assembly : Pass → Assembly α) (dim : Int) (r r' : Session (Solver α) σ α) :
    Prop where
  backend : r'.backend = r.backend
  settings : r.solver.SameSettings r'.solver
  byRows : r'.solver.matrix.orientation = .byRows
  untouched : r.solver.touches assembly dim = false →
    r'.solver.matrix = r.solver.matrix.setLock r.solver.locks
  sound : ∀ before : Bool, (before = false → r.solver.matrix.Sound) →
    r.solver.straysBehind assembly dim before = false → r'.solver.matrix.Sound

/-- An assembly that learns the positions before it writes. -/
theorem ends_assembleBy_learning (debug : Bool) (assembly : Pass → Assembly α)
    (horient : r.solver.matrix.orientation = .byRows) (hway : r.solver.dryRuns dim = true) :
    Ends (assembleBy debug assembly dim)
      (fun _ r' => Assembling assembly dim r r' ∧ r.solver.touches assembly dim = true)
      (fun _ => Assembling assembly dim r) r := by
  rw [assembleBy, ends_bind, ends_change, ends_bind, ends_solver]
  change Ends (if r.solver.dryRuns dim = true then _ else _) _ _
    ({ r with solver := lockedAsSet r.solver } : Session (Solver α) σ α)
  rw [if_pos hway, ends_bind,
    ends_learn_recorded (r := { r with solver := lockedAsSet r.solver }) _ horient]
  rcases hrecorded : recorded (assembly .pattern) dim with e | p
  · have hbehind : ∀ before, r.solver.straysBehind assembly dim before = before := fun before => by
      rw [Solver.straysBehind, hrecorded, hway]
      rfl
    exact ⟨rfl, ⟨rfl, rfl, rfl, rfl⟩, horient, fun _ => rfl, fun before hsound hbefore =>
      sound_lockedAsSet (hsound ((hbehind before).symm.trans hbefore))⟩
  · obtain ⟨-, hrange⟩ := recorded_spec hrecorded
    have htouches : r.solver.touches assembly dim = true := by
      rw [Solver.touches, if_pos hway, hrecorded]
      rfl
    have hbehind : ∀ before, r.solver.straysBehind assembly dim before =
        strays (assembly .pattern) dim := fun before => by
      rw [Solver.straysBehind, hrecorded, hway]
      rfl
    intro loaded hload
    have hloaded : loaded.orientation = .byRows := by
      obtain ⟨-, rfl⟩ := Matrix.loadPattern_eq hload
      exact horient
    have hfilled : ∀ r', Filling { r with
        solver := { lockedAsSet r.solver with matrix := loaded, relearns := false }
        events := r.events ++ [.patternLearned p.size dim] } r' →
        Assembling assembly dim r r' := fun r' h =>
      ⟨h.backend, ⟨h.settings.id, h.settings.learns, h.settings.locks, h.settings.capacityHint⟩,
        h.orientation.trans hloaded, fun hnot => absurd (htouches.symm.trans hnot) (by decide),
        fun before _ hbefore => h.sound
          (Matrix.sound_loadPattern (hrange ((hbehind before).symm.trans hbefore)) hload)⟩
    refine (ends_fill_filling debug _).bind (fun _ r' h => ?_) fun _ r' h => hfilled r' h
    rw [ends_pure]
    exact ⟨hfilled r' h, htouches⟩

/-- An assembly that writes into a matrix that was reset. -/
theorem ends_assembleBy_clearing (debug : Bool) (assembly : Pass → Assembly α)
    (horient : r.solver.matrix.orientation = .byRows) (hway : ¬r.solver.dryRuns dim = true) :
    Ends (assembleBy debug assembly dim)
      (fun _ r' => Assembling assembly dim r r' ∧ r.solver.touches assembly dim = true)
      (fun _ => Assembling assembly dim r) r := by
  rw [assembleBy, ends_bind, ends_change, ends_bind, ends_solver]
  change Ends (if r.solver.dryRuns dim = true then _ else _) _ _
    ({ r with solver := lockedAsSet r.solver } : Session (Solver α) σ α)
  have hbehind : ∀ before, r.solver.straysBehind assembly dim before = before := fun before => by
    rw [Solver.straysBehind, Bool.eq_false_of_not_eq_true hway]
    rfl
  have htouches : r.solver.touches assembly dim = decide (0 ≤ dim) := by
    rw [Solver.touches, if_neg hway]
  rw [if_neg hway, ends_bind, clear, ends_bind, ends_solver, ends_bind, ends_lift]
  rcases hreset : (lockedAsSet r.solver).matrix.reset dim dim
    ((lockedAsSet r.solver).roomFor dim) with e | cleared
  · exact ⟨rfl, ⟨rfl, rfl, rfl, rfl⟩, horient, fun _ => rfl, fun before hsound hbefore =>
      sound_lockedAsSet (hsound ((hbehind before).symm.trans hbefore))⟩
  · have hdim : 0 ≤ dim := (Matrix.cases_of_reset hreset).1
    have hcleared := (Matrix.frame_of_reset hreset).1.trans horient
    have hfilled : ∀ r', Filling { r with
        solver := { lockedAsSet r.solver with matrix := cleared } } r' →
        Assembling assembly dim r r' := fun r' h =>
      ⟨h.backend, ⟨h.settings.id, h.settings.learns, h.settings.locks, h.settings.capacityHint⟩,
        h.orientation.trans hcleared, fun hnot => by simp [htouches, hdim] at hnot,
        fun before hsound hbefore => h.sound ((sound_lockedAsSet
          (hsound ((hbehind before).symm.trans hbefore))).reset hreset)⟩
    dsimp only
    rw [ends_change]
    refine (ends_fill_filling debug _).bind (fun _ r' h => ?_) fun _ r' h => hfilled r' h
    rw [ends_pure]
    exact ⟨hfilled r' h, htouches.trans (decide_eq_true hdim)⟩

/-- Every assembly leaves this behind; one that returns has touched the matrix. -/
theorem ends_assembleBy_assembling (debug : Bool) (assembly : Pass → Assembly α)
    (horient : r.solver.matrix.orientation = .byRows) :
    Ends (assembleBy debug assembly dim)
      (fun _ r' => Assembling assembly dim r r' ∧ r.solver.touches assembly dim = true)
      (fun _ => Assembling assembly dim r) r := by
  by_cases hway : r.solver.dryRuns dim = true
  · exact ends_assembleBy_learning debug assembly horient hway
  · exact ends_assembleBy_clearing debug assembly horient hway

/-! ## Replies -/

/-- A setup is an assembly and a factorization of what it left. -/
theorem ends_setupBy {Q : List Pass → Session (Solver α) σ α → Prop}
    {R : Fault α → Session (Solver α) σ α → Prop} (env : Environment σ α)
    (assembly : Pass → Assembly α) :
    Ends (setupBy env assembly dim) Q R r ↔
      Ends (assembleBy env.debug assembly dim) (fun passes r' =>
        let reply := env.backend.ask (.assembled r'.solver.id) r'.solver.matrix
          (Vector.zeros dim.toNat) .analyzeFactorize r'.backend
        match reply.fault? "direct solver setup" .analyzeFactorize with
        | none => Q passes ⟨{ r'.solver with setups := r'.solver.setups + 1 }, reply.state,
            r'.events ++ reply.events⟩
        | some e => R e { r' with backend := reply.state, events := r'.events ++ reply.events }) R
        r := by
  rw [setupBy, ends_bind]
  refine iff_of_eq (congrArg (fun Q => Ends _ Q R r) ?_)
  funext passes r'
  rw [ends_bind, ends_solver, ends_bind, Backend.Work.ends_request_fault?]
  dsimp only
  generalize env.backend.ask (.assembled r'.solver.id) r'.solver.matrix (Vector.zeros dim.toNat)
    .analyzeFactorize r'.backend = reply
  rcases reply.fault? "direct solver setup" .analyzeFactorize with _ | e
  · dsimp only
    rw [ends_bind, ends_change, ends_pure]
  · rfl

omit [Scalar α] in
/-- A right-hand side of the right length is handed to the backend. -/
theorem ends_solve {Q : Array α → Session (Solver α) σ α → Prop}
    {R : Fault α → Session (Solver α) σ α → Prop} (env : Environment σ α) (rhs : Array α) :
    Ends (solve env rhs) Q R r ↔
      if rhs.size ≠ r.solver.matrix.rows then
        R (.rightHandSideUnfit rhs.size r.solver.matrix.rows) r
      else
        let reply := env.backend.ask (.assembled r.solver.id) r.solver.matrix rhs .solve r.backend
        match reply.fault? "direct solver" .solve with
        | none =>
          let r' : Session (Solver α) σ α := ⟨{ r.solver with solves := r.solver.solves + 1 },
            reply.state, r.events ++ reply.events⟩
          match env.backend.solution reply.state with
          | .ok x => Q x r'
          | .error e => R e r'
        | some e => R e { r with backend := reply.state, events := r.events ++ reply.events } := by
  rw [solve, ends_bind, ends_solver]
  split_ifs with hsize
  · rfl
  · rw [ends_bind, Backend.Work.ends_request_fault?]
    dsimp only
    generalize env.backend.ask (.assembled r.solver.id) r.solver.matrix rhs .solve r.backend = reply
    rcases reply.fault? "direct solver" .solve with _ | e
    · dsimp only
      refine (ends_bind _ _).trans ((ends_change _).trans ((ends_solution env).trans ?_))
      rcases env.backend.solution reply.state with e | x
      · rfl
      · rfl
    · exact Iff.rfl

end

end CentralPath.Direct
