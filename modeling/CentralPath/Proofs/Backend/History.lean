/-
  A backend by its history. What a backend has been through is a list of occurrences, the latest
  first: it was bound, or ran a phase. Everything that a phase goes by is the most recent occurrence
  of some kind: a solve takes the factor of the last factorization and the right-hand side of the
  last binding, and the solution is that of the last solve which succeeded. `History.state` is the
  state that a history amounts to, and no call leaves it (`state_course`), so replies and solutions
  are those of the history whatever the order of calls (`accounts_history`).

  Kernels that `Serve` answer square systems with right-hand sides of their length; both kernels on
  elimination do.
-/
import CentralPath.Backend.Adapter
import CentralPath.Proofs.Sparse.Products

namespace CentralPath.Backend

open Sparse (Matrix)

variable {φ α : Type}

/-! ## Histories -/

/-- What a backend goes through at one time: it is bound, or runs a phase. -/
inductive Occurrence (φ α : Type) where
  | bound (matrix : Binding α) (rhs : Array α)
  | analyzed
  | factorized (matrix : SystemMatrix α) (factor : φ)
  | unfactorized (matrix : SystemMatrix α) (status : Int)
  /-- A solve with a factor, for a right-hand side. -/
  | solved (factor : φ) (rhs solution : Array α)
  /-- A solve without a factor. -/
  | unprepared

/-- What a backend has been through, the latest occurrence first. -/
abbrev History (φ α : Type) := List (Occurrence φ α)

namespace History

/-- The matrix of the last binding. -/
def bound? : History φ α → Option (Binding α)
  | [] => none
  | .bound matrix _ :: _ => some matrix
  | _ :: h => bound? h

/-- The right-hand side of the last binding. -/
def rightHandSide : History φ α → Array α
  | [] => #[]
  | .bound _ rhs :: _ => rhs
  | _ :: h => rightHandSide h

/-- The factor of the last factorize phase, unless that failed. -/
def factor? : History φ α → Option φ
  | [] => none
  | .factorized _ factor :: _ => some factor
  | .unfactorized .. :: _ => none
  | _ :: h => factor? h

/-- The matrix of the last factorize phase. -/
def matrix? : History φ α → Option (SystemMatrix α)
  | [] => none
  | .factorized matrix _ :: _ => some matrix
  | .unfactorized matrix _ :: _ => some matrix
  | _ :: h => matrix? h

/-- The vector of the last solve phase that succeeded. -/
def solution? [Scalar α] : History φ α → Option (Array α)
  | [] => none
  | .solved _ _ x :: h => if Vector.isFinite x then some x else solution? h
  | _ :: h => solution? h

/-- The state that a history amounts to. -/
def state [Scalar α] (h : History φ α) : Adapter φ α :=
  ⟨h.bound?, h.rightHandSide, h.factor?, h.solution?⟩

/-- A solve changes the solution only, and that only if it succeeds. -/
theorem state_solved [Scalar α] (factor : φ) (rhs x : Array α) (h : History φ α) :
    state (.solved factor rhs x :: h) =
      { h.state with solution := if Vector.isFinite x then some x else h.solution? } := rfl

end History

variable [Scalar α]

/-- The status of a phase. -/
def Occurrence.status : Occurrence φ α → Int
  | .unfactorized _ status => status
  | .solved _ _ x => if Vector.isFinite x then statusOk else statusNonFinite
  | .unprepared => statusNotReady
  | _ => statusOk

/-! ## What happens in a phase -/

/-- What happens in a phase on a matrix, after a history. -/
inductive Happens (k : Kernel φ α) (matrix : SystemMatrix α) (h : History φ α) :
    Phase → Occurrence φ α → Prop where
  | analyzed : Happens k matrix h .analyze .analyzed
  | factorized {factor : φ} (hk : k.factorize matrix = .ok (.factored factor)) :
      Happens k matrix h .factorize (.factorized matrix factor)
  | unfactorized {status : Int} {events : List (Journal.Event α)}
      (hk : k.factorize matrix = .ok (.failed status events)) (hne : status ≠ statusOk) :
      Happens k matrix h .factorize (.unfactorized matrix status)
  | solved {factor : φ} {x : Array α} (hf : h.factor? = some factor)
      (hk : k.solve factor h.rightHandSide = .ok x) :
      Happens k matrix h .solve (.solved factor h.rightHandSide x)
  | unprepared (hf : h.factor? = none) : Happens k matrix h .solve .unprepared

/-- The kernel refuses its input in a phase. -/
inductive Refuses (k : Kernel φ α) (matrix : SystemMatrix α) (h : History φ α) :
    Phase → Fault α → Prop where
  | factorize {e : Fault α} (hk : k.factorize matrix = .error e) : Refuses k matrix h .factorize e
  | solve {factor : φ} {e : Fault α} (hf : h.factor? = some factor)
      (hk : k.solve factor h.rightHandSide = .error e) : Refuses k matrix h .solve e

/-- The phases run in order up to the first one whose status is not zero, and that status is
returned. A refused phase leaves nothing behind. -/
inductive Runs (k : Kernel φ α) (matrix : SystemMatrix α) :
    History φ α → List Phase → History φ α → Except (Fault α) Int → Prop where
  | done (h : History φ α) : Runs k matrix h [] h (.ok statusOk)
  | next {h h' : History φ α} {p : Phase} {ps : List Phase} {o : Occurrence φ α}
      {r : Except (Fault α) Int} (ho : Happens k matrix h p o) (hok : o.status = statusOk)
      (hr : Runs k matrix (o :: h) ps h' r) : Runs k matrix h (p :: ps) h' r
  | stop {h : History φ α} {p : Phase} {ps : List Phase} {o : Occurrence φ α}
      (ho : Happens k matrix h p o) (hne : o.status ≠ statusOk) :
      Runs k matrix h (p :: ps) (o :: h) (.ok o.status)
  | refused {h : History φ α} {p : Phase} {ps : List Phase} {e : Fault α}
      (he : Refuses k matrix h p e) : Runs k matrix h (p :: ps) h (.error e)

/-! ## Sequences of uses -/

/-- One use of a backend. A call sees what the matrices hold at that moment. -/
inductive Use (α : Type) where
  | bind (matrix : Binding α) (rhs : Array α)
  | call (lookup : MatrixRef → Matrix α) (job : Job)

namespace Kernel

variable (k : Kernel φ α)

/-- The state of the backend after a use. -/
def use (s : Adapter φ α) : Use α → Adapter φ α
  | .bind matrix rhs => k.backend.bind matrix rhs s
  | .call lookup job => (k.backend.call lookup job s).state

/-- The state of a new backend after some uses. -/
def after (uses : List (Use α)) : Adapter φ α := uses.foldl k.use .initial

/-- What happens in a phase; none when it is refused. -/
def occurrence? (matrix : SystemMatrix α) (h : History φ α) : Phase → Option (Occurrence φ α)
  | .analyze => some .analyzed
  | .factorize =>
    match k.factorize matrix with
    | .error _ => none
    | .ok (.failed status _) => some (.unfactorized matrix status)
    | .ok (.factored factor) => some (.factorized matrix factor)
  | .solve =>
    match h.factor? with
    | none => some .unprepared
    | some factor =>
      match k.solve factor h.rightHandSide with
      | .error _ => none
      | .ok x => some (.solved factor h.rightHandSide x)

/-- The history after the phases of a call. -/
def course (matrix : SystemMatrix α) (h : History φ α) : List Phase → History φ α
  | [] => h
  | p :: ps =>
    match k.occurrence? matrix h p with
    | none => h
    | some o => if o.status = statusOk then course matrix (o :: h) ps else o :: h

/-- The history after a use. -/
def extend (h : History φ α) : Use α → History φ α
  | .bind matrix rhs => .bound matrix rhs :: h
  | .call lookup job =>
    match h.bound? with
    | none => h
    | some matrix => k.course (matrix.resolve lookup) h job.phases

/-- What a new backend goes through in some uses. -/
def history (uses : List (Use α)) : History φ α := uses.foldl k.extend []

end Kernel

/-! ## Kernels that serve -/

/-- A square matrix of a given size, stored by the rules where it is not given by value. -/
def SystemMatrix.Square (n : Nat) : SystemMatrix α → Prop
  | .stored m => m.verify = 0 ∧ m.rows = n ∧ m.cols = n
  | .given (.dense d) => d.rows = n ∧ d.cols = n
  | .given (.coordinates rows cols _) => rows = n ∧ cols = n
  | .given _ => False

/-- A factorization that fails says so by its status. A square matrix is not refused, and with its
factor a vector is computed for every right-hand side of its length. -/
structure Kernel.Serves (k : Kernel φ α) : Prop where
  failed : ∀ matrix status events, k.factorize matrix = .ok (.failed status events) →
    status ≠ statusOk
  factorize : ∀ matrix n, matrix.Square n → ∃ outcome, k.factorize matrix = .ok outcome
  solve : ∀ matrix factor (rhs : Array α), matrix.Square rhs.size →
    k.factorize matrix = .ok (.factored factor) → ∃ x, k.solve factor rhs = .ok x

/-- A call for which the system fits: a matrix that is to be factorized is square, and a right-hand
side that is to be solved for has the length of the matrix behind the factor. -/
structure History.Fits (h : History φ α) (lookup : MatrixRef → Matrix α) (job : Job) : Prop where
  factorize : .factorize ∈ job.phases → ∀ b, h.bound? = some b →
    ∃ n, (b.resolve lookup).Square n ∧ (.solve ∈ job.phases → h.rightHandSide.size = n)
  solve : .factorize ∉ job.phases → .solve ∈ job.phases → ∀ matrix, h.matrix? = some matrix →
    matrix.Square h.rightHandSide.size

/-! ## Phases and calls follow the history -/

variable {k : Kernel φ α} {matrix : SystemMatrix α} {h h' : History φ α} {p : Phase}
  {o : Occurrence φ α}

/-- A phase at the state of a history leaves the state of the longer history, with its status. A
refused phase leaves the state. -/
theorem runPhase_state (hk : k.Serves) (h : History φ α) (matrix : SystemMatrix α) (p : Phase) :
    (∃ o, k.occurrence? matrix h p = some o ∧ Happens k matrix h p o ∧
      (h.state.runPhase k matrix p).status = .ok o.status ∧
      (h.state.runPhase k matrix p).state = History.state (o :: h)) ∨
    (∃ e, k.occurrence? matrix h p = none ∧ Refuses k matrix h p e ∧
      (h.state.runPhase k matrix p).status = .error e ∧
      (h.state.runPhase k matrix p).state = h.state) := by
  cases p with
  | analyze => exact Or.inl ⟨.analyzed, rfl, .analyzed, rfl, rfl⟩
  | factorize =>
    rw [Adapter.runPhase, Adapter.factorize, Kernel.occurrence?]
    rcases hout : k.factorize matrix with e | factor | ⟨status, events⟩
    · exact Or.inr ⟨e, rfl, .factorize hout, rfl, rfl⟩
    · exact Or.inl ⟨_, rfl, .factorized hout, rfl, rfl⟩
    · exact Or.inl ⟨_, rfl, .unfactorized hout (hk.failed _ _ _ hout), rfl, rfl⟩
  | solve =>
    have hfactor : h.state.factor = h.factor? := rfl
    have hrhs : h.state.rightHandSide = h.rightHandSide := rfl
    rw [Adapter.runPhase, Adapter.solve, Kernel.occurrence?, hfactor, hrhs]
    rcases hf : h.factor? with _ | factor
    · exact Or.inl ⟨_, rfl, .unprepared hf, rfl, rfl⟩
    · dsimp only
      rcases hout : k.solve factor h.rightHandSide with e | x
      · exact Or.inr ⟨e, rfl, .solve hf hout, rfl, rfl⟩
      · refine Or.inl ⟨_, rfl, .solved hf hout, ?_, ?_⟩ <;> dsimp only <;> split_ifs with hx
        · rw [Occurrence.status, if_pos hx]
        · rw [Occurrence.status, if_neg hx]
        · rw [History.state_solved, if_pos hx, History.state, hf]
        · rw [History.state_solved, if_neg hx, History.state, hf]

/-- The phases of a call run from the state of a history to that of the course it takes. -/
theorem runPhases_state (hk : k.Serves) (matrix : SystemMatrix α) (job : Job) (h : History φ α)
    (phases : List Phase) :
    Runs k matrix h phases (k.course matrix h phases)
        (h.state.runPhases k matrix job phases).status ∧
      (h.state.runPhases k matrix job phases).state = (k.course matrix h phases).state := by
  induction phases generalizing h with
  | nil => exact ⟨.done h, rfl⟩
  | cons p ps ih =>
    rw [Adapter.runPhases, Kernel.course]
    rcases runPhase_state hk h matrix p with
      ⟨o, hocc, hhappens, hstatus, hstate⟩ | ⟨e, hocc, hrefuses, hstatus, hstate⟩
    · rw [hocc, hstatus]
      dsimp only
      split_ifs with hok
      · obtain ⟨hruns, hend⟩ := ih (o :: h)
        rw [hstate]
        exact ⟨.next hhappens hok hruns, hend⟩
      · exact ⟨.stop hhappens hok, hstate⟩
    · rw [hocc, hstatus]
      exact ⟨.refused hrefuses, hstate⟩

/-- A use at the state of a history leaves the state of the history extended by it. -/
theorem use_state (hk : k.Serves) (h : History φ α) (u : Use α) :
    k.use h.state u = (k.extend h u).state := by
  cases u with
  | bind b rhs => rfl
  | call lookup job =>
    have hbound : h.state.bound = h.bound? := rfl
    show (h.state.call k lookup job).state = _
    rw [Adapter.call, Kernel.extend, hbound]
    rcases h.bound? with _ | b
    · rfl
    · exact (runPhases_state hk _ _ _ _).2

theorem Kernel.after_append (k : Kernel φ α) (uses : List (Use α)) (u : Use α) :
    k.after (uses ++ [u]) = k.use (k.after uses) u := List.foldl_append

theorem Kernel.history_append (k : Kernel φ α) (uses : List (Use α)) (u : Use α) :
    k.history (uses ++ [u]) = k.extend (k.history uses) u := List.foldl_append

/-- The state of a backend is that of its history. -/
theorem after_eq_state (hk : k.Serves) (uses : List (Use α)) :
    k.after uses = (k.history uses).state := by
  induction uses using List.reverseRecOn with
  | nil => rfl
  | append_singleton uses u ih =>
    rw [Kernel.after_append, Kernel.history_append, ih]
    exact use_state hk _ u

/-! ## The account of a backend -/

/-- A backend is accounted for by histories. Binding adds to the history. A call before the first
binding says that it is not ready and changes nothing; any other runs the phases of its job on the
matrix as it is at that moment. The solution is that of the last solve that succeeded. -/
structure Kernel.Accounts (k : Kernel φ α) (history : List (Use α) → History φ α) : Prop where
  start : history [] = []
  bind : ∀ uses b rhs, history (uses ++ [.bind b rhs]) = .bound b rhs :: history uses
  early : ∀ uses lookup job, (history uses).bound? = none →
    (k.backend.call lookup job (k.after uses)).status = .ok statusNotReady ∧
      (k.backend.call lookup job (k.after uses)).state = k.after uses ∧
      history (uses ++ [.call lookup job]) = history uses
  call : ∀ uses lookup job b, (history uses).bound? = some b →
    Runs k (b.resolve lookup) (history uses) job.phases (history (uses ++ [.call lookup job]))
      (k.backend.call lookup job (k.after uses)).status
  solution : ∀ uses, k.backend.solution (k.after uses) =
    match (history uses).solution? with
    | none => .error .noSolution
    | some x => .ok x

theorem accounts_history (hk : k.Serves) : k.Accounts k.history where
  start := rfl
  bind uses b rhs := k.history_append uses (.bind b rhs)
  early uses lookup job hnone := by
    have hbound : (k.history uses).state.bound = none := hnone
    rw [k.history_append, after_eq_state hk, Kernel.extend, hnone]
    show (Adapter.call k lookup job _).status = _ ∧ (Adapter.call k lookup job _).state = _ ∧ _
    rw [Adapter.call, hbound]
    exact ⟨rfl, rfl, rfl⟩
  call uses lookup job b hsome := by
    have hbound : (k.history uses).state.bound = some b := hsome
    rw [k.history_append, after_eq_state hk, Kernel.extend, hsome]
    show Runs _ _ _ _ _ (Adapter.call k lookup job _).status
    rw [Adapter.call, hbound]
    exact (runPhases_state hk _ _ _ _).1
  solution uses := by rw [after_eq_state hk]; rfl

/-! ## No call is refused where the system fits -/

/-- The factor of a history, if there is one, is one of the matrix that was factorized last. -/
def History.Grounded (k : Kernel φ α) (h : History φ α) : Prop :=
  ∀ factor, h.factor? = some factor →
    ∃ matrix, h.matrix? = some matrix ∧ k.factorize matrix = .ok (.factored factor)

omit [Scalar α] in
theorem Happens.grounded (ho : Happens k matrix h p o) (hg : h.Grounded k) :
    History.Grounded k (o :: h) := by
  cases ho with
  | analyzed => exact hg
  | factorized hout =>
    intro factor hf
    obtain rfl := Option.some.inj hf
    exact ⟨matrix, rfl, hout⟩
  | unfactorized => exact nofun
  | solved => exact hg
  | unprepared => exact hg

theorem Runs.grounded {phases : List Phase} {r : Except (Fault α) Int}
    (hr : Runs k matrix h phases h' r) (hg : h.Grounded k) : h'.Grounded k := by
  induction hr with
  | done => exact hg
  | next ho _ _ ih => exact ih (ho.grounded hg)
  | stop ho _ => exact ho.grounded hg
  | refused => exact hg

theorem grounded_history (hk : k.Serves) (uses : List (Use α)) : (k.history uses).Grounded k := by
  induction uses using List.reverseRecOn with
  | nil => exact nofun
  | append_singleton uses u ih =>
    cases u with
    | bind b rhs =>
      rw [(accounts_history hk).bind]
      exact ih
    | call lookup job =>
      rcases hbound : (k.history uses).bound? with _ | b
      · rw [((accounts_history hk).early uses lookup job hbound).2.2]
        exact ih
      · exact ((accounts_history hk).call uses lookup job b hbound).grounded ih

/-- The factor of a history, if there is one, is one of a matrix that the right-hand side fits. -/
def History.Ready (k : Kernel φ α) (h : History φ α) : Prop :=
  ∀ factor, h.factor? = some factor →
    ∃ matrix, matrix.Square h.rightHandSide.size ∧ k.factorize matrix = .ok (.factored factor)

/-- A solve is the last phase of a job. -/
theorem Job.pairwise_phases (job : Job) : job.phases.Pairwise fun p _ => p ≠ .solve := by
  cases job <;> decide

/-- Phases of which none is refused return a status. Behind a factorize phase a solve phase finds the
factor of the matrix at hand, otherwise that of the history. -/
theorem Runs.exists_status (hk : k.Serves) {phases : List Phase} {r : Except (Fault α) Int}
    (hr : Runs k matrix h phases h' r) (horder : phases.Pairwise fun p _ => p ≠ .solve)
    (hfactorize : .factorize ∈ phases →
      ∃ n, matrix.Square n ∧ (.solve ∈ phases → h.rightHandSide.size = n))
    (hsolve : .factorize ∉ phases → .solve ∈ phases → h.Ready k) :
    ∃ status, r = .ok status := by
  induction hr with
  | done h => exact ⟨statusOk, rfl⟩
  | stop ho hne => exact ⟨_, rfl⟩
  | @refused h p ps e he =>
    obtain ⟨hlast, -⟩ := List.pairwise_cons.mp horder
    cases he with
    | factorize hout =>
      obtain ⟨n, hsquare, -⟩ := hfactorize (List.mem_cons_self ..)
      obtain ⟨outcome, hok⟩ := hk.factorize matrix n hsquare
      rw [hok] at hout
      cases hout
    | solve hf hout =>
      have hnone : Phase.factorize ∉ Phase.solve :: ps := by
        intro hmem
        rcases List.mem_cons.mp hmem with heq | hmem
        · cases heq
        · exact hlast _ hmem rfl
      obtain ⟨m, hsquare, hfactor⟩ := hsolve hnone (List.mem_cons_self ..) _ hf
      obtain ⟨x, hok⟩ := hk.solve m _ _ hsquare hfactor
      rw [hok] at hout
      cases hout
  | @next h h' p ps o r ho hok hr ih =>
    obtain ⟨hlast, hrest⟩ := List.pairwise_cons.mp horder
    cases ho with
    | analyzed =>
      refine ih hrest (fun hmem => ?_) fun hnone hmem => ?_
      · obtain ⟨n, hsquare, hsize⟩ := hfactorize (List.mem_cons_of_mem _ hmem)
        exact ⟨n, hsquare, fun hmem => hsize (List.mem_cons_of_mem _ hmem)⟩
      · refine hsolve (fun hmem => ?_) (List.mem_cons_of_mem _ hmem)
        rcases List.mem_cons.mp hmem with heq | hmem
        · cases heq
        · exact hnone hmem
    | factorized hout =>
      obtain ⟨n, hsquare, hsize⟩ := hfactorize (List.mem_cons_self ..)
      refine ih hrest (fun _ => ⟨n, hsquare, fun hmem => hsize (List.mem_cons_of_mem _ hmem)⟩)
        fun _ hmem factor hf => ?_
      obtain rfl := Option.some.inj hf
      refine ⟨matrix, ?_, hout⟩
      show matrix.Square h.rightHandSide.size
      rw [hsize (List.mem_cons_of_mem _ hmem)]
      exact hsquare
    | unfactorized _ hne => exact absurd hok hne
    | solved =>
      have hempty : ps = [] := List.eq_nil_iff_forall_not_mem.mpr fun q hq => hlast q hq rfl
      subst hempty
      exact ih hrest nofun nofun
    | unprepared => cases hok

/-- Calls for which the system fits are answered. -/
theorem exists_status (hk : k.Serves) (uses : List (Use α)) (lookup : MatrixRef → Matrix α)
    (job : Job) (hfits : (k.history uses).Fits lookup job) :
    ∃ status, (k.backend.call lookup job (k.after uses)).status = .ok status := by
  rcases hbound : (k.history uses).bound? with _ | b
  · exact ⟨_, ((accounts_history hk).early uses lookup job hbound).1⟩
  · refine ((accounts_history hk).call uses lookup job b hbound).exists_status hk
      job.pairwise_phases (fun hmem => hfits.factorize hmem b hbound) fun hnone hmem factor hf => ?_
    obtain ⟨m, hm, hout⟩ := grounded_history hk uses factor hf
    exact ⟨m, hfits.solve hnone hmem m hm, hout⟩

/-! ## The kernels on elimination -/

/-- A step keeps the shape, and leaves the first zero pivot as it is unless it is the one. -/
theorem Factor.step_spec (rule : Factor.PivotRule α) (f : Factor α) (k : Nat) :
    (f.step rule k).rows = f.rows ∧ (f.step rule k).cols = f.cols ∧
      ((f.step rule k).zeroPivot = f.zeroPivot ∨
        (f.step rule k).zeroPivot = f.zeroPivot.or (some (k + 1))) := by
  simp only [Factor.step]
  split
  · exact ⟨rfl, rfl, Or.inr rfl⟩
  · split
    · exact ⟨rfl, rfl, Or.inl rfl⟩
    · split_ifs
      · exact ⟨rfl, rfl, Or.inr rfl⟩
      · exact ⟨rfl, rfl, Or.inl rfl⟩

theorem Factor.foldl_step_spec (rule : Factor.PivotRule α) (steps : List Nat) (f : Factor α)
    (hf : f.zeroPivot ≠ some 0) :
    (steps.foldl (Factor.step rule) f).rows = f.rows ∧
      (steps.foldl (Factor.step rule) f).cols = f.cols ∧
      (steps.foldl (Factor.step rule) f).zeroPivot ≠ some 0 := by
  induction steps generalizing f with
  | nil => exact ⟨rfl, rfl, hf⟩
  | cons k steps ih =>
    obtain ⟨hrows, hcols, hpivot⟩ := Factor.step_spec rule f k
    have hnext : (f.step rule k).zeroPivot ≠ some 0 := by
      rcases hpivot with heq | heq <;> rw [heq]
      · exact hf
      · intro hor
        rcases Option.or_eq_some_iff.mp hor with hzero | ⟨-, hzero⟩
        · exact hf hzero
        · cases hzero
    obtain ⟨hrows', hcols', hpivot'⟩ := ih _ hnext
    exact ⟨hrows'.trans hrows, hcols'.trans hcols, hpivot'⟩

/-- A triangular form has the shape of its table, and pivots that vanish are counted from one. -/
theorem Factor.ofDense_spec (rule : Factor.PivotRule α) (groups : Array Nat) (d : Sparse.Dense α) :
    (Factor.ofDense rule groups d).rows = d.rows ∧ (Factor.ofDense rule groups d).cols = d.cols ∧
      (Factor.ofDense rule groups d).zeroPivot ≠ some 0 :=
  Factor.foldl_step_spec rule _ _ nofun

theorem SystemMatrix.Square.exists_entries {n : Nat} (h : matrix.Square n) :
    (∃ entries, matrix.convertedEntries = .ok entries) ∧ matrix.shape = (n, n) := by
  cases matrix with
  | stored m =>
    obtain ⟨hverify, hrows, hcols⟩ := h
    exact ⟨⟨_, (Matrix.verify_eq_zero_iff.mp hverify).convertibleEntries_eq⟩,
      Prod.ext hrows hcols⟩
  | given g =>
    cases g with
    | dense d => exact ⟨⟨_, rfl⟩, Prod.ext h.1 h.2⟩
    | coordinates rows cols entries => exact ⟨⟨_, rfl⟩, Prod.ext h.1 h.2⟩
    | flat v => exact h.elim
    | box b => exact h.elim

theorem SystemMatrix.Square.exists_table {n : Nat} (h : matrix.Square n) :
    matrix.twoDimensional = true ∧ ∃ d, matrix.table = .ok d ∧ d.rows = n ∧ d.cols = n := by
  cases matrix with
  | stored m =>
    obtain ⟨hverify, hrows, hcols⟩ := h
    have hsound := Matrix.verify_eq_zero_iff.mp hverify
    have htable : m.toDense = .ok (m.tableOf m.entries) := by
      rw [Matrix.toDense, Matrix.storedEntries_of_isCut hsound.isCut]
      exact if_pos hsound.holds_entries
    exact ⟨rfl, _, htable, hrows, hcols⟩
  | given g =>
    cases g with
    | dense d => exact ⟨rfl, d, rfl, h⟩
    | coordinates rows cols entries => exact ⟨rfl, _, rfl, h⟩
    | flat v => exact h.elim
    | box b => exact h.elim

theorem serves_sparseKernel : (sparseKernel (α := α)).Serves where
  failed matrix status events hout := by
    dsimp only [sparseKernel] at hout
    split at hout
    · cases hout
    · split_ifs at hout
      split at hout
      · cases hout
        decide
      · cases hout
  factorize matrix n hsquare := by
    obtain ⟨⟨entries, hentries⟩, hshape⟩ := hsquare.exists_entries
    dsimp only [sparseKernel]
    rw [hentries, hshape]
    dsimp only
    rw [if_neg (not_not.mpr rfl)]
    split
    · exact ⟨_, rfl⟩
    · exact ⟨_, rfl⟩
  solve matrix f rhs hsquare hout := by
    obtain ⟨⟨entries, hentries⟩, hshape⟩ := hsquare.exists_entries
    have hrows : f.rows = rhs.size := by
      dsimp only [sparseKernel] at hout
      rw [hentries, hshape] at hout
      dsimp only at hout
      rw [if_neg (not_not.mpr rfl)] at hout
      split at hout
      · cases hout
      · cases hout
        exact (Factor.ofDense_spec _ _ _).1
    exact ⟨_, if_neg (not_not.mpr hrows.symm)⟩

theorem serves_denseKernel : (denseKernel (α := α)).Serves where
  failed matrix status events hout := by
    dsimp only [denseKernel] at hout
    split at hout
    · cases hout
    · cases hout
    · rename_i d _ _
      split at hout
      · rename_i i hzero
        cases hout
        have hpos : i ≠ 0 := by
          rintro rfl
          exact (Factor.ofDense_spec _ _ _).2.2 hzero
        rw [statusOk]
        omega
      · cases hout
  factorize matrix n hsquare := by
    obtain ⟨htwo, d, htable, -⟩ := hsquare.exists_table
    dsimp only [denseKernel]
    rw [htwo, htable]
    dsimp only
    split
    · exact ⟨_, rfl⟩
    · exact ⟨_, rfl⟩
  solve matrix f rhs hsquare hout := by
    obtain ⟨htwo, d, htable, hrows, hcols⟩ := hsquare.exists_table
    have hshape : f.rows = rhs.size ∧ f.cols = rhs.size := by
      dsimp only [denseKernel] at hout
      rw [htwo, htable] at hout
      dsimp only at hout
      split at hout
      · cases hout
      · cases hout
        obtain ⟨hfrows, hfcols, -⟩ := Factor.ofDense_spec Factor.anyPivot #[] d
        exact ⟨hfrows.trans hrows, hfcols.trans hcols⟩
    refine ⟨_, if_neg ?_⟩
    rintro (hne | hne)
    · exact hne (hshape.1.trans hshape.2.symm)
    · exact hne hshape.1.symm

/-- A backend around a kernel goes by its history, for every sequence of bindings and calls from a
new one on, and no call for which the system fits is refused. -/
theorem calls_follow_history (k : Kernel φ α) (hk : k.Serves) :
    k.Accounts k.history ∧ ∀ uses lookup job, (k.history uses).Fits lookup job →
      ∃ status, (k.backend.call lookup job (k.after uses)).status = .ok status :=
  ⟨accounts_history hk, exists_status hk⟩

/-- A system of one row is solved, then a singular one is bound in its place. -/
def rebound : List (Use ℚ) :=
  [.bind (.given (.dense ⟨1, 1, #[#[2]]⟩)) #[4], .call (fun _ => .unit) .complete,
    .bind (.given (.dense ⟨1, 1, #[#[0]]⟩)) #[6]]

/-- The solution of the first system stays, and a call for the second is answered. -/
theorem calls_follow_history_rebound :
    ((sparseKernel (α := ℚ)).Serves ∧ (denseKernel (α := ℚ)).Serves) ∧
      sparseKernel.backend.solution (sparseKernel.after rebound) = .ok #[2] ∧
      ∃ status, (denseKernel.backend.call (fun _ => .unit) .complete
        (denseKernel.after rebound)).status = .ok status := by
  obtain ⟨haccounts, -⟩ := calls_follow_history (sparseKernel (α := ℚ)) serves_sparseKernel
  obtain ⟨-, hanswered⟩ := calls_follow_history (denseKernel (α := ℚ)) serves_denseKernel
  have hsolution : (sparseKernel.history rebound).solution? = some #[2] := by decide +kernel
  refine ⟨⟨serves_sparseKernel, serves_denseKernel⟩, ?_, hanswered rebound _ _ ⟨fun _ b hb => ?_, ?_⟩⟩
  · rw [haccounts.solution, hsolution]
  · obtain rfl := Option.some.inj hb
    exact ⟨1, ⟨rfl, rfl⟩, fun _ => rfl⟩
  · exact fun hnone => absurd (by decide) hnone

end CentralPath.Backend
