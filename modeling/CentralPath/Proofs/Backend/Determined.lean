/-
  Backends that are determined by what they are asked. A `Behaviour` answers in terms of tables:
  storage does not come into it. A backend follows it (`Follows`) when a complete call answers by the
  table that the matrix represents, and a call that solves once more by the table of the last complete
  call. Backends that follow one behaviour answer alike wherever their matrices represent the same
  (`Follows.abreast_complete`, `Follows.abreast_solve`). `observed` puts on record what a backend is
  asked, whatever comes of it.
-/
import CentralPath.Proofs.Backend.Exact
import CentralPath.Proofs.Backend.Tandem
import CentralPath.Proofs.Sparse.Table

namespace CentralPath.Sparse.Matrix

/-- Matrices that carry the same numbers read alike everywhere. -/
theorem Carries.ofMatrix_eq {K : Type} [Field K] {m m' : Matrix K} {rows cols : Nat}
    {value : Nat → Nat → K} (h : m.Carries rows cols value) (h' : m'.Carries rows cols value) :
    Table.ofMatrix m' = Table.ofMatrix m := by
  have hrows : m'.rows = m.rows := h'.rows_eq.trans h.rows_eq.symm
  have hcols : m'.cols = m.cols := h'.cols_eq.trans h.cols_eq.symm
  refine h.sound.represents_ofMatrix.ofMatrix_eq (h'.sound.represents hrows hcols ?_)
  intro row col hin
  have hin' : m.InShape row col := by
    rw [InShape, ← hrows, ← hcols]
    exact hin
  rw [h.sound.value_ofMatrix hin']
  obtain ⟨hr, hr', hc, hc'⟩ := hin'
  obtain ⟨i, rfl⟩ := Int.eq_ofNat_of_zero_le hr
  obtain ⟨j, rfl⟩ := Int.eq_ofNat_of_zero_le hc
  rw [h.rows_eq] at hr'
  rw [h.cols_eq] at hc'
  have hi : i < rows := Int.ofNat_lt.mp hr'
  have hj : j < cols := Int.ofNat_lt.mp hc'
  exact (h'.valueAt_eq i j hi hj).trans (h.valueAt_eq i j hi hj).symm

end CentralPath.Sparse.Matrix

namespace CentralPath.Backend

open Sparse (Matrix Table)

variable {K ς σ σ' : Type}

/-! ## Answers -/

/-- What comes of a call: the status, and the solution that is held afterwards. -/
structure Answer (K : Type) where
  status : Except (Fault K) Int
  solution : Except (Fault K) (Array K)

/-- What a solver gets out of an answer. -/
def Answer.outcome (a : Answer K) (context : String) (job : Job) : Except (Fault K) (Array K) :=
  match a.status with
  | .error e => .error e
  | .ok status =>
    match statusFault? status context (some job.name) with
    | some e => .error e
    | none => a.solution

/-- The answer to a job for a table and a right-hand side. -/
abbrev Behaviour (K : Type) := Job → Table K → Array K → Answer K

/-- The backend shows the behaviour. `factored` is the table of the matrix at the last complete call
that succeeded, as far as the state still knows it. -/
structure Follows [Zero K] (b : Backend σ K) (behaviour : Behaviour K)
    (factored : σ → Option (Table K)) : Prop where
  complete : ∀ (ref : MatrixRef) (matrix : Matrix K) (rhs : Array K) (s : σ), matrix.Sound →
    (b.ask ref matrix rhs .complete s).status = (behaviour .complete (.ofMatrix matrix) rhs).status ∧
      ((b.ask ref matrix rhs .complete s).status = .ok statusOk →
        factored (b.ask ref matrix rhs .complete s).state = some (.ofMatrix matrix) ∧
        b.solution (b.ask ref matrix rhs .complete s).state =
          (behaviour .complete (.ofMatrix matrix) rhs).solution)
  solve : ∀ (ref : MatrixRef) (matrix : Matrix K) (last : Table K) (rhs : Array K) (s : σ),
    factored s = some last →
    (b.ask ref matrix rhs .solve s).status = (behaviour .solve last rhs).status ∧
      ((b.ask ref matrix rhs .solve s).status = .ok statusOk →
        factored (b.ask ref matrix rhs .solve s).state = some last ∧
        b.solution (b.ask ref matrix rhs .solve s).state = (behaviour .solve last rhs).solution)

/-! ## What is asked -/

/-- One call: the job, what the matrix represents, and the right-hand side. -/
structure Asked (K : Type) where
  job : Job
  matrix : Table K
  rightHandSide : Array K

/-- A backend's state, with what it was asked so far. -/
structure Observed (σ K : Type) where
  inner : σ
  bound : Option (Binding K)
  rightHandSide : Array K
  asked : List (Asked K)

/-- A call on record. Matrices that are not some solver's are none of this. -/
def Observed.call [Zero K] (b : Backend σ K) (lookup : MatrixRef → Matrix K) (job : Job)
    (s : Observed σ K) : Reply (Observed σ K) K :=
  let reply := b.call lookup job s.inner
  let asked := match s.bound with
    | some (.shared ref) => s.asked ++ [⟨job, .ofMatrix (lookup ref), s.rightHandSide⟩]
    | _ => s.asked
  ⟨{ s with inner := reply.state, asked }, reply.status, reply.events⟩

/-- A backend that is observed. -/
def observed [Zero K] (b : Backend σ K) : Backend (Observed σ K) K where
  bind matrix rhs s :=
    { s with inner := b.bind matrix rhs s.inner, bound := some matrix, rightHandSide := rhs }
  call := Observed.call b
  solution s := b.solution s.inner

/-- A backend that was asked nothing yet. -/
def Observed.initial (inner : σ) : Observed σ K := ⟨inner, none, #[], []⟩

/-- From `start` to `s` one backend was asked what the other one was asked from `start'` to `s'`. -/
def SameAsked (start : Observed σ K) (start' : Observed σ' K) (s : Observed σ K)
    (s' : Observed σ' K) : Prop :=
  ∃ asked, s.asked = start.asked ++ asked ∧ s'.asked = start'.asked ++ asked

theorem SameAsked.refl (start : Observed σ K) (start' : Observed σ' K) :
    SameAsked start start' start start' :=
  ⟨[], (List.append_nil _).symm, (List.append_nil _).symm⟩

theorem SameAsked.trans {start s t : Observed σ K} {start' s' t' : Observed σ' K}
    (h : SameAsked start start' s s') (h' : SameAsked s s' t t') :
    SameAsked start start' t t' := by
  obtain ⟨asked, hs, hs'⟩ := h
  obtain ⟨more, ht, ht'⟩ := h'
  exact ⟨asked ++ more, by rw [ht, hs, List.append_assoc], by rw [ht', hs', List.append_assoc]⟩

/-! ## One behaviour -/

variable [Zero K] {b : Backend σ K} {b' : Backend σ' K} {debug debug' : Bool}
  {behaviour : Behaviour K} {factored : σ → Option (Table K)} {factored' : σ' → Option (Table K)}
  {r : Session ς (Observed σ K) K} {r' : Session ς (Observed σ' K) K} {matrix matrix' : Matrix K}

/-- A call with the fetch behind it comes out as the answer that the backend gives. -/
theorem ends_ask (ref : MatrixRef) (matrix : Matrix K) (rhs : Array K) (job : Job)
    (context : String) {a : Answer K} {last : Table K}
    (hstatus : (b.ask ref matrix rhs job r.backend.inner).status = a.status)
    (hok : (b.ask ref matrix rhs job r.backend.inner).status = .ok statusOk →
      factored (b.ask ref matrix rhs job r.backend.inner).state = some last ∧
        b.solution (b.ask ref matrix rhs job r.backend.inner).state = a.solution) :
    Work.Ends (Work.request ⟨observed b, debug⟩ ref matrix rhs job context >>= fun _ =>
        Work.solution ⟨observed b, debug⟩)
      (fun v s => a.outcome context job = .ok v ∧ s.solver = r.solver ∧
        s.backend.asked = r.backend.asked ++ [⟨job, .ofMatrix matrix, rhs⟩] ∧
        factored s.backend.inner = some last)
      (fun e s => a.outcome context job = .error e ∧ s.solver = r.solver ∧
        s.backend.asked = r.backend.asked ++ [⟨job, .ofMatrix matrix, rhs⟩]) r := by
  rw [Work.ends_bind, Work.ends_request]
  unfold ask at hstatus hok
  dsimp only [observed, Observed.call]
  generalize b.call (fun _ => matrix) job (b.bind (.shared ref) rhs r.backend.inner) = reply
    at hstatus hok ⊢
  unfold Answer.outcome
  rw [← hstatus]
  rcases hreply : reply.status with e | status
  · exact ⟨rfl, rfl, rfl⟩
  dsimp only
  rcases hfault : statusFault? status context (some job.name) with _ | e
  · rw [statusFault?_eq_none hfault] at hreply
    obtain ⟨hfactored, hsolution⟩ := hok hreply
    dsimp only
    rw [Work.ends_solution]
    dsimp only
    rw [← hsolution]
    rcases hv : b.solution reply.state with e | v
    · exact ⟨rfl, rfl, rfl⟩
    · exact ⟨rfl, rfl, rfl, hfactored⟩
  · exact ⟨rfl, rfl, rfl⟩

omit [Zero K] in
/-- Two calls that come out as one answer end in the same way. -/
theorem abreast_of_outcome {w : Work ς (Observed σ K) K (Array K)}
    {w' : Work ς (Observed σ' K) K (Array K)} {o : Except (Fault K) (Array K)} {a : Asked K}
    {last : Table K}
    (h : Work.Ends w (fun v s => o = .ok v ∧ s.solver = r.solver ∧
        s.backend.asked = r.backend.asked ++ [a] ∧ factored s.backend.inner = some last)
      (fun e s => o = .error e ∧ s.solver = r.solver ∧
        s.backend.asked = r.backend.asked ++ [a]) r)
    (h' : Work.Ends w' (fun v s => o = .ok v ∧ s.solver = r'.solver ∧
        s.backend.asked = r'.backend.asked ++ [a] ∧ factored' s.backend.inner = some last)
      (fun e s => o = .error e ∧ s.solver = r'.solver ∧
        s.backend.asked = r'.backend.asked ++ [a]) r') :
    Work.Abreast w w'
      (fun v s v' s' => v' = v ∧ s.solver = r.solver ∧ s'.solver = r'.solver ∧
        SameAsked r.backend r'.backend s.backend s'.backend ∧
        factored s.backend.inner = some last ∧ factored' s'.backend.inner = some last)
      (fun e s e' s' => e' = e ∧ s.solver = r.solver ∧ s'.solver = r'.solver ∧
        SameAsked r.backend r'.backend s.backend s'.backend) r r' := by
  refine h.abreast h' ?_ ?_ ?_ ?_
  · rintro v s v' s' ⟨ho, hs, ha, hf⟩ ⟨ho', hs', ha', hf'⟩
    exact ⟨Except.ok.inj (ho'.symm.trans ho), hs, hs', ⟨[a], ha, ha'⟩, hf, hf'⟩
  · rintro e s e' s' ⟨ho, hs, ha⟩ ⟨ho', hs', ha'⟩
    exact ⟨Except.error.inj (ho'.symm.trans ho), hs, hs', [a], ha, ha'⟩
  · rintro v s e' s' ⟨ho, -⟩ ⟨ho', -⟩
    cases ho.symm.trans ho'
  · rintro e s v' s' ⟨ho, -⟩ ⟨ho', -⟩
    cases ho.symm.trans ho'

/-- Complete calls for matrices that represent the same end in the same way. -/
theorem Follows.abreast_complete (h : Follows b behaviour factored)
    (h' : Follows b' behaviour factored') (hm : matrix.Sound) (hm' : matrix'.Sound)
    (htable : Table.ofMatrix matrix' = Table.ofMatrix matrix) (ref ref' : MatrixRef)
    (rhs : Array K) (context : String) :
    Work.Abreast
      (Work.request ⟨observed b, debug⟩ ref matrix rhs .complete context >>= fun _ =>
        Work.solution ⟨observed b, debug⟩)
      (Work.request ⟨observed b', debug'⟩ ref' matrix' rhs .complete context >>= fun _ =>
        Work.solution ⟨observed b', debug'⟩)
      (fun v s v' s' => v' = v ∧ s.solver = r.solver ∧ s'.solver = r'.solver ∧
        SameAsked r.backend r'.backend s.backend s'.backend ∧
        factored s.backend.inner = some (.ofMatrix matrix) ∧
        factored' s'.backend.inner = some (.ofMatrix matrix))
      (fun e s e' s' => e' = e ∧ s.solver = r.solver ∧ s'.solver = r'.solver ∧
        SameAsked r.backend r'.backend s.backend s'.backend) r r' := by
  obtain ⟨hstatus, hok⟩ := h.complete ref matrix rhs r.backend.inner hm
  obtain ⟨hstatus', hok'⟩ := h'.complete ref' matrix' rhs r'.backend.inner hm'
  refine abreast_of_outcome (ends_ask ref matrix rhs .complete context hstatus hok) ?_
  rw [← htable]
  exact ends_ask ref' matrix' rhs .complete context hstatus' hok'

/-- With the same factors in hand, calls that solve once more end in the same way. -/
theorem Follows.abreast_solve (h : Follows b behaviour factored)
    (h' : Follows b' behaviour factored') {last : Table K}
    (hlast : factored r.backend.inner = some last) (hlast' : factored' r'.backend.inner = some last)
    (htable : Table.ofMatrix matrix' = Table.ofMatrix matrix) (ref ref' : MatrixRef)
    (rhs : Array K) (context : String) :
    Work.Abreast
      (Work.request ⟨observed b, debug⟩ ref matrix rhs .solve context >>= fun _ =>
        Work.solution ⟨observed b, debug⟩)
      (Work.request ⟨observed b', debug'⟩ ref' matrix' rhs .solve context >>= fun _ =>
        Work.solution ⟨observed b', debug'⟩)
      (fun v s v' s' => v' = v ∧ s.solver = r.solver ∧ s'.solver = r'.solver ∧
        SameAsked r.backend r'.backend s.backend s'.backend ∧
        factored s.backend.inner = some last ∧ factored' s'.backend.inner = some last)
      (fun e s e' s' => e' = e ∧ s.solver = r.solver ∧ s'.solver = r'.solver ∧
        SameAsked r.backend r'.backend s.backend s'.backend) r r' := by
  obtain ⟨hstatus, hok⟩ := h.solve ref matrix last rhs r.backend.inner hlast
  obtain ⟨hstatus', hok'⟩ := h'.solve ref' matrix' last rhs r'.backend.inner hlast'
  refine abreast_of_outcome (ends_ask ref matrix rhs .solve context hstatus hok) ?_
  rw [← htable]
  exact ends_ask ref' matrix' rhs .solve context hstatus' hok'

end CentralPath.Backend
