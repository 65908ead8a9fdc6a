/-
  Two whole solves side by side. What an iteration keeps (`Coupled`) is kept by the loop around it:
  both solvers do the same number of iterations, with the same measures after each, conclude in the
  same stage and hand back the same solution (`Coupled.abreast_finish`). Solves that face the same
  problem (`Faces`) come to agreeing first iterates, or are refused together
  (`Coupled.abreast_prepare`, `Coupled.abreast_solveProblem`).
-/
import CentralPath.Proofs.InteriorPoint.Coupled
import CentralPath.Proofs.InteriorPoint.Residuals

namespace CentralPath.InteriorPoint

open Backend (Environment Session Work)
open Backend.Work (Abreast Ends abreast_change abreast_change_bind abreast_report_bind
  abreast_solver_bind ends_bind ends_change ends_lift ends_report ends_solver)
open Newton (Formulation systemFor)
open Problem (Data)
open Sparse (Matrix)

/-! ## Bookkeeping -/

section

variable {σ K : Type} [Field K] {D : Data K} {f : Formulation} {o : Options K} {s s' : Solver K}
  {r : Session (Solver K) σ K} {p : Problem K}

theorem Assembled.of_booked (h : Assembled D f o s) (hb : s.Booked s') : Assembled D f o s' := by
  have hloaded := h.toLoaded.of_booked hb
  obtain ⟨_, _, _, _, rfl⟩ := hb
  exact { h with toLoaded := hloaded }

/-- What a record says of an iteration, whichever solve it belongs to. -/
def Record.content (c : Record K) : Int × Journal.Measures K := (c.iteration, c.measures)

variable [LinearOrder K] [ElementaryFunctions K]

/-- The conditions that are measured from scratch are those of the data at the iterate. -/
theorem Assembled.measureConditions_eq (h : Assembled D f o s) :
    s.measureConditions = .ok ⟨Vector.normOver (D.primalResidual s.x s.y s.lam) s.m,
      Vector.normOver (D.dualResidual s.x s.lam) s.n,
      if s.m = 0 then 0 else D.dualityMeasure s.y s.lam⟩ := by
  obtain ⟨a, ha, hasize, hacoord⟩ := h.jacobian.mulVec_eq (h.ready.x.trans h.n_eq)
  obtain ⟨e, he, hesize, hecoord⟩ := h.mulE_eq (h.ready.lam.trans h.m_eq)
  obtain ⟨g, hg, hgsize, hgcoord⟩ := h.hessian.mulVec_eq (h.ready.x.trans h.n_eq)
  obtain ⟨t, ht, htsize, htcoord⟩ := h.jacobian.mulVec_transposed_eq (h.ready.lam.trans h.m_eq)
  have hy := h.ready.y.trans h.m_eq
  have hb := h.ready.b.trans h.m_eq
  have hc := h.ready.c.trans h.n_eq
  have h₁ : (a.zipWith (· - ·) s.y).size = D.m := by rw [Array.size_zipWith, hasize, hy, Nat.min_self]
  have h₂ : ((a.zipWith (· - ·) s.y).zipWith (· - ·) s.b).size = D.m := by
    rw [Array.size_zipWith, h₁, hb, Nat.min_self]
  have h₃ : (g.zipWith (· - ·) t).size = D.n := by
    rw [Array.size_zipWith, hgsize, htsize, Nat.min_self]
  unfold Solver.measureConditions
  rw [ha, he, hg, ht]
  simp only [bind, Except.bind]
  rw [Vector.zip?_of_size_eq (hasize.trans hy.symm)]
  dsimp only
  rw [Vector.zip?_of_size_eq (h₁.trans hb.symm)]
  dsimp only
  rw [Vector.zip?_of_size_eq (h₂.trans hesize.symm), Vector.zip?_of_size_eq (hgsize.trans htsize.symm)]
  dsimp only
  rw [Vector.zip?_of_size_eq (h₃.trans hc.symm)]
  have hprimal : ((a.zipWith (· - ·) s.y).zipWith (· - ·) s.b).zipWith (· + ·) e =
      D.primalResidual s.x s.y s.lam :=
    h.toLoaded.primalResidual_of_products hasize hesize hacoord hecoord
  have hdual : (g.zipWith (· - ·) t).zipWith (· + ·) s.c = D.dualResidual s.x s.lam := by
    refine h.toLoaded.dualResidual_of_products h₃ fun i hi => ?_
    rw [← hgcoord i hi, ← htcoord i hi]
    exact Vector.coord_sub (hgsize.trans htsize.symm) i
  rw [hprimal, hdual, h.toLoaded.dualityMeasure_eq]
  rfl

/-- Measuring the conditions only adds to the report. -/
theorem Assembled.ends_verifyConditions (h : Assembled D f o r.solver) (report : Bool) :
    Ends (verifyConditions report) (fun _ r' => r'.solver = r.solver ∧ r'.backend = r.backend)
      (fun _ _ => False) r := by
  unfold verifyConditions
  rw [ends_bind, ends_solver, ends_bind, ends_lift, h.measureConditions_eq]
  dsimp only
  split_ifs <;> exact ⟨rfl, rfl⟩

end

variable {σ σ' K : Type} [Field K] {P : Pairing σ σ' K} {t : Tie σ K} {t' : Tie σ' K}
  {k k' : Nat × List (Record K)} {r s : Session (Solver K) σ K} {r' s' : Session (Solver K) σ' K}
  {p : Problem K} {q : Problem.Parts K}

namespace Pairing

/-- Both solvers have done the same number of iterations since their histories were `l` and `l'`, and
what they recorded of these says the same, if they keep records alike. -/
def SameBooks (P : Pairing σ σ' K) (l l' : List (Record K)) (k k' : Nat × List (Record K)) : Prop :=
  k'.1 = k.1 ∧ ∃ a a', k.2 = l ++ a ∧ k'.2 = l' ++ a' ∧
    (P.o'.recordHistory = P.o.recordHistory → a'.map Record.content = a.map Record.content)

theorem Alongside.of_booked (h : P.Alongside t t' k k' r r') (hs : r.solver.Booked s.solver)
    (hb : s.backend = r.backend) (hs' : r'.solver.Booked s'.solver) (hb' : s'.backend = r'.backend) :
    P.Alongside t t' s.solver.book s'.solver.book s s' := by
  have hleft := h.left.of_booked hs
  have hright := h.right.of_booked hs'
  obtain ⟨_, _, _, _, hs⟩ := hs
  obtain ⟨_, _, _, _, hs'⟩ := hs'
  refine { h with
    left := hleft, right := hright, usesE := ?_, tie := ?_, tie' := ?_, book := rfl, book' := rfl }
  · rw [hs, hs']
    exact h.usesE
  · rw [InteriorPoint.tie, hs, hb]
    exact h.tie
  · rw [InteriorPoint.tie, hs', hb']
    exact h.tie'

theorem Twin.of_booked (h : P.Twin t t' k k' r r') (hs : r.solver.Booked s.solver)
    (hb : s.backend = r.backend) (hs' : r'.solver.Booked s'.solver) (hb' : s'.backend = r'.backend) :
    P.Twin t t' s.solver.book s'.solver.book s s' := by
  have halongside := h.toAlongside.of_booked hs hb hs' hb'
  obtain ⟨_, _, _, _, hs⟩ := hs
  obtain ⟨_, _, _, _, hs'⟩ := hs'
  refine { halongside with x := ?_, y := ?_, lam := ?_, rp := ?_, rd := ?_, mu := ?_ } <;>
    rw [hs, hs']
  · exact h.x
  · exact h.y
  · exact h.lam
  · exact h.rp
  · exact h.rd
  · exact h.mu

variable [LinearOrder K] [ElementaryFunctions K]
  {R : Fault K → Session (Solver K) σ K → Fault K → Session (Solver K) σ' K → Prop}

/-! ## Counting and concluding -/

theorem Twin.abreast_countIteration {l l' : List (Record K)} (h : P.Twin t t' k k' r r')
    (hbooks : P.SameBooks l l' k k') :
    Abreast countIteration countIteration (fun _ s _ s' =>
      r.solver.Booked s.solver ∧ s.backend = r.backend ∧
      ∃ k k', P.Twin t t' k k' s s' ∧ P.SameBooks l l' k k') R r r' := by
  refine (ends_countIteration (R := fun _ _ => False)).abreast
    (ends_countIteration (R := fun _ _ => False)) ?_ (fun _ _ _ _ hR => hR.elim)
    (fun _ _ _ _ _ hR => hR.elim) (fun _ _ _ _ hR => hR.elim)
  rintro _ s _ s' ⟨hs, hb⟩ ⟨hs', hb'⟩
  refine ⟨⟨_, _, _, _, hs⟩, hb, _, _,
    h.of_booked ⟨_, _, _, _, hs⟩ hb ⟨_, _, _, _, hs'⟩ hb', ?_⟩
  obtain ⟨hcount, a, a', ha, ha', hsame⟩ := hbooks
  rw [← h.book, ← h.book'] at hcount
  rw [← h.book] at ha
  rw [← h.book'] at ha'
  rw [hs, hs']
  dsimp only [Solver.book, Solver.counted] at hcount ha ha' ⊢
  refine ⟨by rw [hcount], ?_⟩
  rw [h.left.options, h.right.options, ha, ha', hcount, h.measures]
  rcases hrecord : P.o.recordHistory with _ | _ <;> rcases hrecord' : P.o'.recordHistory with _ | _
  · exact ⟨a, a', rfl, rfl, fun _ => hsame (hrecord'.trans hrecord.symm)⟩
  · exact ⟨a, _, rfl, List.append_assoc .., fun h => by cases h⟩
  · exact ⟨_, a', List.append_assoc .., rfl, fun h => by cases h⟩
  · refine ⟨_, _, List.append_assoc .., List.append_assoc .., fun _ => ?_⟩
    rw [List.map_append, List.map_append, hsame (hrecord'.trans hrecord.symm)]
    rfl

/-- Measuring the conditions is never refused. -/
theorem Twin.abreast_verifyConditions (h : P.Twin t t' k k' r r') (report : Bool) :
    Abreast (verifyConditions report) (verifyConditions report) (fun _ s _ s' =>
      P.Twin t t' k k' s s' ∧ r.solver.Booked s.solver ∧ s.backend = r.backend) R r r' := by
  refine (h.left.ends_verifyConditions report).abreast (h.right.ends_verifyConditions report) ?_
    (fun _ _ _ _ hR => hR.elim) (fun _ _ _ _ _ hR => hR.elim) (fun _ _ _ _ hR => hR.elim)
  rintro _ s _ s' ⟨hs, hb⟩ ⟨hs', hb'⟩
  have hbooked : r.solver.Booked s.solver := ⟨_, _, _, _, hs⟩
  have htwin := h.of_booked hbooked hb ⟨_, _, _, _, hs'⟩ hb'
  rw [hs, hs', h.book, h.book'] at htwin
  exact ⟨htwin, hbooked, hb⟩

theorem Twin.abreast_keepBooks (hdebug : P.env'.debug = P.env.debug) {l l' : List (Record K)}
    (h : P.Twin t t' k k' r r') (hbooks : P.SameBooks l l' k k') :
    Abreast (keepBooks P.env) (keepBooks P.env') (fun _ s _ s' =>
      r.solver.Booked s.solver ∧ s.backend = r.backend ∧
      ∃ k k', P.Twin t t' k k' s s' ∧ P.SameBooks l l' k k') R r r' := by
  unfold keepBooks
  refine (h.abreast_countIteration hbooks).bind ?_
  rintro _ s _ s' ⟨hbooked, hb, k₁, k₁', h₁, hbooks₁⟩
  rw [hdebug]
  split_ifs
  · refine (h₁.abreast_verifyConditions true).discard.mono ?_ fun _ _ _ _ hR => hR
    rintro _ u _ u' ⟨h₂, hbooked₂, hb₂⟩
    exact ⟨hbooked.trans hbooked₂, hb₂.trans hb, k₁, k₁', h₂, hbooks₁⟩
  · exact ⟨hbooked, hb, k₁, k₁', h₁, hbooks₁⟩

omit [LinearOrder K] [ElementaryFunctions K] in
/-- Both solvers begin to iterate, with their books open. -/
theorem Agree.begun (h : P.Agree k k' r r') : ∃ k₁ k₁',
    P.Agree k₁ k₁' { r with solver := r.solver.begun } { r' with solver := r'.solver.begun } ∧
      P.SameBooks k.2 k'.2 k₁ k₁' := by
  obtain ⟨t, t', h, hlink⟩ := h
  refine ⟨_, _, ⟨t, t', h.of_booked ⟨_, _, _, _, rfl⟩ rfl ⟨_, _, _, _, rfl⟩ rfl, hlink⟩, rfl, [], [],
    ?_, ?_, fun _ => rfl⟩
  · rw [List.append_nil, ← h.book]
    rfl
  · rw [List.append_nil, ← h.book']
    rfl

/-- The loop around iterations keeps agreement. `I` is what is known of the left run on its own. -/
theorem Coupled.abreast_iterateWithin (hP : P.Coupled) {I : Session (Solver K) σ K → Prop}
    (hgood : ∀ s, I s → P.good s.solver.lam)
    (hstep : ∀ s, I s → Ends (iterate P.env) (fun _ s' => I s') (fun _ _ => True) s)
    (hbooked : ∀ s s', I s → s.solver.Booked s'.solver → s'.backend = s.backend → I s')
    {l l' : List (Record K)} (budget : Nat) (h : P.Agree k k' r r') (hbooks : P.SameBooks l l' k k')
    (hI : I r) :
    Abreast (iterateWithin P.env budget) (iterateWithin P.env' budget)
      (fun _ s _ s' => I s ∧ ∃ k k', P.Agree k k' s s' ∧ P.SameBooks l l' k k') P.Halted r r' := by
  induction budget generalizing r r' k k' with
  | zero => exact ⟨hI, k, k', h, hbooks⟩
  | succ budget ih =>
    have hconverged : r'.solver.isConverged = r.solver.isConverged := by
      obtain ⟨t, t', h, -⟩ := h
      exact h.isConverged
    rw [iterateWithin_succ, iterateWithin_succ, abreast_solver_bind, hconverged]
    split_ifs
    · exact ⟨hI, k, k', h, hbooks⟩
    · refine (((hP.abreast_iterate h (hgood r hI)).and_ends (hstep r hI)).mono
        (fun _ _ _ _ hQ => hQ) fun _ _ _ _ hR => hR.1).bind ?_
      rintro _ r₁ _ r₁' ⟨⟨t, t', h₁, hlink₁⟩, hI₁⟩
      refine (h₁.abreast_keepBooks hP.debug hbooks).bind ?_
      rintro _ r₂ _ r₂' ⟨hbooked₂, hb₂, k₂, k₂', h₂, hbooks₂⟩
      exact ih ⟨t, t', h₂, hlink₁⟩ hbooks₂ (hbooked r₁ r₂ hI₁ hbooked₂ hb₂)

/-- Both solvers conclude in the same way. -/
theorem Twin.abreast_conclude (h : P.Twin t t' k k' r r') :
    Abreast conclude conclude (fun a s a' s' => a' = a ∧ s'.solver.stage = s.solver.stage ∧
      P.Twin t t' k k' s s' ∧ r.solver.Booked s.solver ∧ s.backend = r.backend) R r r' := by
  have hstage : ∀ (stage : Stage) (es es' : List (Journal.Event K)), P.Twin t t' k k'
      { r with solver := { r.solver with stage }, events := es }
      { r' with solver := { r'.solver with stage }, events := es' } := fun _ _ _ =>
    { h with
      left := h.left.of_booked ⟨_, _, _, _, rfl⟩
      right := h.right.of_booked ⟨_, _, _, _, rfl⟩ }
  unfold conclude
  rw [abreast_solver_bind, h.isConverged]
  split_ifs
  · rw [abreast_change_bind, abreast_report_bind]
    exact ⟨rfl, rfl, hstage _ _ _, ⟨_, _, _, _, rfl⟩, rfl⟩
  · rw [abreast_change_bind, abreast_report_bind]
    exact ⟨rfl, rfl, hstage _ _ _, ⟨_, _, _, _, rfl⟩, rfl⟩

/-- The outcomes say the same. Records may differ where not both solvers keep them, and in the number
of the solve that they belong to. -/
def SameOutcome (P : Pairing σ σ' K) (out out' : Outcome K) : Prop :=
  out' = { out with history := out'.history } ∧
    (P.o'.recordHistory = P.o.recordHistory →
      out'.history.map Record.content = out.history.map Record.content)

/-- The deliveries say the same. -/
def SameDelivery (P : Pairing σ σ' K) (d d' : Delivery K) : Prop :=
  P.SameOutcome d.outcome d'.outcome ∧ d'.problem = d.problem

/-- The same solution is handed back. -/
theorem Coupled.abreast_handBack (hP : P.Coupled) {before before' : Solver K} (h : P.Agree k k' r r')
    (hbooks : P.SameBooks before.history before'.history k k') :
    Abreast (handBack p before) (handBack p before')
      (fun d s d' s' => P.SameDelivery d d' ∧ P.Agree k k' s s' ∧ r.solver.Booked s.solver ∧
        s.backend = r.backend) P.Halted r r' := by
  obtain ⟨t, t', h, hlink⟩ := h
  unfold handBack
  dsimp only
  rw [abreast_solver_bind, h.measures]
  refine h.abreast_conclude.bind ?_
  rintro _ r₁ message r₁' ⟨rfl, hstage, h₁, hbooked, hb⟩
  have hhalted := hP.halted h₁.toAlongside hlink
  rw [abreast_solver_bind, h₁.x, h₁.lam]
  refine Abreast.lift_bind rfl (fun head _ => ?_) fun e _ => hhalted e
  refine Abreast.lift_bind rfl (fun multipliers _ => ?_) fun e _ => hhalted e
  refine Abreast.lift_bind rfl (fun received _ => ?_) fun e _ => hhalted e
  refine Abreast.lift_bind h₁.objective (fun value _ => ?_) fun e _ => hhalted e
  refine ⟨⟨⟨?_, ?_⟩, rfl⟩, ⟨t, t', h₁, hlink⟩, hbooked, hb⟩
  · have hcount : r₁'.solver.iterations = r₁.solver.iterations := by
      have hcount := hbooks.1
      rwa [← h₁.book, ← h₁.book'] at hcount
    rw [hstage, hcount, h₁.y]
  · obtain ⟨-, a, a', ha, ha', hsame⟩ := hbooks
    rw [← h₁.book] at ha
    rw [← h₁.book'] at ha'
    dsimp only [Solver.book] at ha ha' ⊢
    rw [ha, ha', List.drop_left, List.drop_left]
    exact hsame

/-- From agreeing first iterates, both solves end with the same outcome, or are refused. -/
theorem Coupled.abreast_finish (hP : P.Coupled) {I : Session (Solver K) σ K → Prop}
    (hgood : ∀ s, I s → P.good s.solver.lam)
    (hstep : ∀ s, I s → Ends (iterate P.env) (fun _ s' => I s') (fun _ _ => True) s)
    (hbooked : ∀ s s', I s → s.solver.Booked s'.solver → s'.backend = s.backend → I s')
    {before before' : Solver K} (h : P.Agree k k' r r') (hhistory : k.2 = before.history)
    (hhistory' : k'.2 = before'.history) (hoptions : before.options = P.o)
    (hoptions' : before'.options = P.o') (hI : I r) :
    Abreast (finish P.env p before) (finish P.env' p before')
      (fun d s d' s' => P.SameDelivery d d' ∧ I s ∧ ∃ k k', P.Agree k k' s s') P.Halted r r' := by
  have hbudget : before'.options.maxIterations = before.options.maxIterations := by
    obtain ⟨t, t', h, -⟩ := h
    obtain ⟨_, _, _, _, _, _, ho⟩ := h.alike
    rw [hoptions, hoptions', ho]
  unfold finish
  rw [abreast_change_bind, hbudget]
  obtain ⟨k₁, k₁', h₁, hbooks₁⟩ := h.begun
  rw [hhistory, hhistory'] at hbooks₁
  refine (hP.abreast_iterateWithin hgood hstep hbooked _ h₁ hbooks₁
    (hbooked r _ hI ⟨_, _, _, _, rfl⟩ rfl)).bind ?_
  rintro _ r₂ _ r₂' ⟨hI₂, k₂, k₂', h₂, hbooks₂⟩
  refine (hP.abreast_handBack h₂ hbooks₂).mono ?_ fun _ _ _ _ hR => hR
  rintro d r₃ d' r₃' ⟨hsame, h₃, hbooked₃, hb₃⟩
  exact ⟨hsame, hbooked r₂ r₃ hI₂ hbooked₃ hb₃, k₂, k₂', h₃⟩

/-! ## From the problem on -/

/-- Two solvers face the same problem, with the data and the formulations of the pairing. Either the
problem is taken on by both or its refusals go together; backends are linked whatever comes of the
Newton matrices; and both solvers use the same parts of iterates that agree there. -/
structure Faces (P : Pairing σ σ' K) (q : Problem.Parts K) (p : Problem K)
    (r : Session (Solver K) σ K) (r' : Session (Solver K) σ' K) : Prop where
  left : r.solver.Usable
  right : r'.solver.Usable
  options : r.solver.options = P.o
  options' : r'.solver.options = P.o'
  alike : P.o.Alike P.o'
  makes : q.Makes p
  data : P.o.data q = P.data
  pos : 0 < P.data.m
  formulation : ∀ f, Newton.System.create (α := K) P.o.formulation P.data.n P.data.m =
    .ok (systemFor f P.data) → f = P.f
  formulation' : ∀ f, Newton.System.create (α := K) P.o'.formulation P.data.n P.data.m =
    .ok (systemFor f P.data) → f = P.f'
  truncate : ∀ a : K, ElementaryFunctions.truncate a ≠ none
  taken : P.o.refusal? p P.data = none ↔ P.o'.refusal? p P.data = none
  refused : ∀ e e', P.o.refusal? p P.data = some e → P.o'.refusal? p P.data = some e' →
    P.refused e e'
  link : ∀ t t', t.backend = r.backend → t'.backend = r'.backend → P.link t t'
  reuse : reuseFor r'.solver P.data.n P.data.m = reuseFor r.solver P.data.n P.data.m
  x : (reuseFor r.solver P.data.n P.data.m).x = true → r'.solver.x = r.solver.x
  lam : (reuseFor r.solver P.data.n P.data.m).lam = true → r'.solver.y = r.solver.y ∧
    r'.solver.lam = r.solver.lam ∧ P.good r.solver.lam

/-- Both works are stopped by faults that go together, wherever they are. -/
def Parted (P : Pairing σ σ' K) (e : Fault K) (r : Session (Solver K) σ K) (e' : Fault K)
    (r' : Session (Solver K) σ' K) : Prop :=
  P.refused e e' ∧ P.link (tie r) (tie r')

omit [LinearOrder K] [ElementaryFunctions K] in
theorem Halted.parted {e e' : Fault K} (h : P.Halted e r e' r') : P.Parted e r e' r' := by
  obtain ⟨hrefused, t, t', k, k', h, hlink⟩ := h
  refine ⟨hrefused, ?_⟩
  rw [h.tie, h.tie']
  exact hlink

namespace Faces

variable (h : P.Faces q p r r')
include h

theorem dimensions : p.unknowns = P.data.n ∧
    p.activeConstraints P.o.skipTangential = (P.data.m : Int) := by
  rw [← h.data]
  exact ⟨h.makes.fit.unknowns, h.makes.fit.activeConstraints⟩

theorem data' : P.o'.data q = P.data := by
  obtain ⟨_, _, _, _, _, _, ho⟩ := h.alike
  rw [← h.data, ho]
  rfl

/-- Both solvers take on the problem, or refuse it. -/
theorem abreast_arrange :
    Abreast (arrange P.env p) (arrange P.env' p) (fun _ s _ s' =>
      P.link (tie s) (tie s') ∧
      P.Alongside (tie s) (tie s') s.solver.book s'.solver.book s s' ∧
      Arranged p P.data P.f r.solver s.solver ∧ Arranged p P.data P.f' r'.solver s'.solver)
      P.Parted r r' := by
  have hleft := ends_arrange (r := r) P.env h.left.toReady h.makes
  have hright := ends_arrange (r := r') P.env' h.right.toReady h.makes
  rw [h.options, h.data] at hleft
  rw [h.options', h.data'] at hright
  refine hleft.abreast hright ?_ ?_ ?_ ?_
  · rintro _ s _ s' ⟨hb, -, f, hf, ha⟩ ⟨hb', -, f', hf', ha'⟩
    obtain rfl := h.formulation f hf
    obtain rfl := h.formulation' f' hf'
    have hs := ha.assembled h.left
    have hs' := ha'.assembled h.right
    rw [h.options] at hs
    rw [h.options'] at hs'
    have hfinds : P.o'.FindsCompliance p ↔ P.o.FindsCompliance p := by
      obtain ⟨_, _, _, _, _, _, ho⟩ := h.alike
      rw [ho]
      exact Iff.rfl
    have huse : s'.solver.usesE = s.solver.usesE := by
      rw [Bool.eq_iff_iff, ha.compliant hs.unlocked, ha'.compliant hs'.unlocked, hs.options,
        hs'.options]
      exact hfinds
    exact ⟨h.link _ _ hb hb', ⟨hs, hs', h.pos, h.alike, huse, rfl, rfl, rfl, rfl⟩, ha, ha'⟩
  · rintro e s e' s' ⟨hb, -, hfault⟩ ⟨hb', -, hfault'⟩
    exact ⟨h.refused e e' (hfault h.left h.truncate) (hfault' h.right h.truncate),
      h.link _ _ hb hb'⟩
  · rintro _ s e' s' ⟨-, hnone, -⟩ ⟨-, -, hfault'⟩
    cases (h.taken.mp hnone).symm.trans (hfault' h.right h.truncate)
  · rintro e s _ s' ⟨-, -, hfault⟩ ⟨-, hnone, -⟩
    cases (h.taken.mpr hnone).symm.trans (hfault h.left h.truncate)

/-- Both solvers come to agreeing first iterates. -/
theorem abreast_prepare (hP : P.Coupled) :
    Abreast (prepare P.env p) (prepare P.env' p) (fun _ s _ s' =>
      ∃ k k', P.Agree k k' s s' ∧ k.2 = r.solver.history ∧ k'.2 = r'.solver.history)
      P.Parted r r' := by
  obtain ⟨hn, hm⟩ := h.dimensions
  have hskip : P.o'.skipTangential = P.o.skipTangential := by
    obtain ⟨_, _, _, _, _, _, ho⟩ := h.alike
    rw [ho]
  have hchoice : P.o'.startingPoint = P.o.startingPoint := by
    obtain ⟨_, _, _, _, _, _, ho⟩ := h.alike
    rw [ho]
  refine Abreast.congr (do
      arrange P.env p
      startWith P.env r.solver.options.startingPoint (reuseFor r.solver p.unknowns
        (p.activeConstraints r.solver.options.skipTangential)))
    (do
      arrange P.env' p
      startWith P.env' r'.solver.options.startingPoint (reuseFor r'.solver p.unknowns
        (p.activeConstraints r'.solver.options.skipTangential))) ?_
    (fun _ _ h => ends_prepare_iff.mpr ((Work.ends_bind _ _).mp h))
    (fun _ _ h => ends_prepare_iff.mpr ((Work.ends_bind _ _).mp h))
  rw [h.options, h.options', hskip, hchoice, hn, hm, h.reuse]
  refine h.abreast_arrange.bind ?_
  rintro _ s _ s' ⟨hlink, hs, ha, ha'⟩
  refine (hP.abreast_startWith hs hlink P.o.startingPoint ?_ ?_).mono ?_
    fun _ _ _ _ hR => hR.parted
  · intro hx
    have hx' : (reuseFor r'.solver P.data.n P.data.m).x = true := by rwa [h.reuse]
    rw [ha.x, ha'.x, allocate_of_reuse_x hx, allocate_of_reuse_x hx']
    exact h.x hx
  · intro hl
    have hl' : (reuseFor r'.solver P.data.n P.data.m).lam = true := by rwa [h.reuse]
    obtain ⟨hy, hlam⟩ := allocate_of_reuse_lam hl
    obtain ⟨hy', hlam'⟩ := allocate_of_reuse_lam hl'
    rw [ha.y, ha'.y, ha.lam, ha'.lam, hy, hlam, hy', hlam']
    exact h.lam hl
  · rintro _ s₁ _ s₁' hs₁
    exact ⟨_, _, hs₁, ha.history, ha'.history⟩

/-- Both solves end with the same outcome, or are refused. -/
theorem abreast_solveProblem (hP : P.Coupled)
    (hgood : ∀ s, Visited P.env p r s → P.good s.solver.lam) :
    Abreast (solveProblem P.env p) (solveProblem P.env' p)
      (fun d s d' s' => P.SameDelivery d d' ∧ P.link (tie s) (tie s')) P.Parted r r' := by
  obtain ⟨-, hm⟩ := h.dimensions
  have hpos := h.pos
  have hskip : P.o'.skipTangential = P.o.skipTangential := by
    obtain ⟨_, _, _, _, _, _, ho⟩ := h.alike
    rw [ho]
  have hactive : p.activeConstraints r.solver.options.skipTangential ≠ 0 := by
    rw [h.options, hm]
    omega
  have hactive' : p.activeConstraints r'.solver.options.skipTangential ≠ 0 := by
    rw [h.options', hskip, hm]
    omega
  refine Abreast.congr (do prepare P.env p; finish P.env p r.solver)
    (do prepare P.env' p; finish P.env' p r'.solver) ?_
    (fun _ _ h => (ends_solveProblem hactive).mpr ((Work.ends_bind _ _).mp h))
    (fun _ _ h => (ends_solveProblem hactive').mpr ((Work.ends_bind _ _).mp h))
  refine ((h.abreast_prepare hP).and_ends (Work.ends_run (prepare P.env p) r)).mono
    (fun _ _ _ _ hQ => hQ) (fun _ _ _ _ hR => hR.1) |>.bind ?_
  rintro _ s _ s' ⟨⟨k, k', hs, hhistory, hhistory'⟩, hrun⟩
  refine (hP.abreast_finish (I := Visited P.env p r) hgood ?_ (fun _ _ hv => hv.booked) hs hhistory
    hhistory' h.options h.options' (.prepared hrun)).mono ?_ fun _ _ _ _ hR => hR.parted
  · intro s₁ hs₁
    refine (Work.ends_run (iterate P.env) s₁).mono ?_ fun _ _ _ => trivial
    intro _ s₂ hrun
    have hs₂ := hs₁.iterated
    rwa [hrun] at hs₂
  · rintro d s₁ d' s₁' ⟨hsame, -, _, _, t, t', hs₁, hlink⟩
    refine ⟨hsame, ?_⟩
    rw [hs₁.tie, hs₁.tie']
    exact hlink

end Faces

end Pairing

/-! ## What two solves come to -/

section

variable [LinearOrder K] [ElementaryFunctions K] {env : Environment σ K} {env' : Environment σ' K}

/-- Solves that end in the same way both return or are both refused. -/
theorem solve_of_abreast {p' : Problem K}
    {Q : Delivery K → Session (Solver K) σ K → Delivery K → Session (Solver K) σ' K → Prop}
    {R : Fault K → Session (Solver K) σ K → Fault K → Session (Solver K) σ' K → Prop}
    (h : Abreast (solveProblem env p) (solveProblem env' p') Q R r r') :
    (∃ d d', solve env p r = ⟨.ok d.outcome, (solve env p r).session, d.problem⟩ ∧
        solve env' p' r' = ⟨.ok d'.outcome, (solve env' p' r').session, d'.problem⟩ ∧
        Q d (solve env p r).session d' (solve env' p' r').session) ∨
      ∃ e e', solve env p r = ⟨.error e, (solve env p r).session, p⟩ ∧
        solve env' p' r' = ⟨.error e', (solve env' p' r').session, p'⟩ ∧
        R e (solve env p r).session e' (solve env' p' r').session := by
  unfold Abreast at h
  unfold solve
  rcases hrun : (solveProblem env p).run.run r with ⟨e | d, s⟩ <;>
    rcases hrun' : (solveProblem env' p').run.run r' with ⟨e' | d', s'⟩ <;>
    rw [hrun, hrun'] at h
  · exact .inr ⟨e, e', rfl, rfl, h⟩
  · exact h.elim
  · exact h.elim
  · exact .inl ⟨d, d', rfl, rfl, h⟩

end

end CentralPath.InteriorPoint
