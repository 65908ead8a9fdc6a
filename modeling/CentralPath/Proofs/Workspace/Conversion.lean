/-
  Conversions of a problem. A conversion reaches three targets by name, stores a block of the problem
  in each, and hands out the linear term and the bounds (`Offers.delivers`). What the targets hold
  afterwards is a matter of the blocks alone, so `conversion_exact` says it for whatever the targets
  held before, matrices or patterns, and for the solution that the problem takes back.
-/
import CentralPath.Proofs.Problem.Blocks
import CentralPath.Proofs.Workspace.Targets

namespace CentralPath

open Problem (Which)
open Sparse (Block Matrix Pattern Target)

/-! ## Conversions by name -/

theorem Sparse.Target.alike_loadBlock {α : Type} [Scalar α] (t : Target α) (b : Block α)
    (hint : Int) : t.Alike (t.loadBlock b hint).2 := by
  cases t <;> trivial

namespace Desk

variable {α : Type} {w w' : Workspace α} {d : Destination} {place : Which → Handle}
  {t : Which → Target α}

/-- The name of the target of a block. -/
def Destination.name (d : Destination) : Which → Option String
  | .hessian => d.hessian
  | .jacobian => d.jacobian
  | .compliance => d.compliance

/-- The names of a destination stand for three different targets. -/
structure Destination.Reaches (d : Destination) (w : Workspace α) (place : Which → Handle)
    (t : Which → Target α) : Prop where
  named : ∀ i, ∃ s, d.name i = some s ∧ w.handle? s = some (place i)
  apart : Function.Injective place
  target?_eq : ∀ i, w.target? (place i) = some (t i)

theorem Destination.Reaches.run_checkTarget (h : d.Reaches w place t) (i : Which) :
    (checkTarget (α := α) (d.name i)).run.run w = (.ok (), w) := by
  obtain ⟨s, hs, hname⟩ := h.named i
  rw [hs]
  exact Desk.run_checkTarget hname (h.target?_eq i)

/-- One of the three targets is changed, and the two others stay. -/
theorem Destination.Reaches.run_changeTarget (h : d.Reaches w place t) (i : Which)
    {f : Target α → Option (Fault α) × Target α} (hf : (f (t i)).1 = none)
    (halike : (t i).Alike (f (t i)).2) :
    ∃ w', (changeTarget (d.name i) f).run.run w = (.ok (), w') ∧ w.Keeps w' (Set.range place) ∧
      d.Reaches w' place (Function.update t i (f (t i)).2) := by
  obtain ⟨s, hs, hname⟩ := h.named i
  obtain ⟨w', hrun, hkeeps, htarget⟩ :=
    Desk.run_changeTarget hname (h.target?_eq i) halike (Set.mem_singleton (place i))
  rw [hf] at hrun
  refine ⟨w', hs ▸ hrun, hkeeps.mono (Set.singleton_subset_iff.mpr ⟨i, rfl⟩), ⟨?_, h.apart, ?_⟩⟩
  · intro j
    obtain ⟨s', hs', hname'⟩ := h.named j
    exact ⟨s', hs', (hkeeps.handle? s').trans hname'⟩
  · intro j
    by_cases hj : j = i
    · subst hj
      rw [Function.update_self, htarget]
    · rw [Function.update_of_ne hj, hkeeps.target?_eq _ fun hin => hj (h.apart hin)]
      exact h.target?_eq j

theorem run_bufferLength (n : Nat) : (bufferLength (α := α) n).run.run w = (.ok n, w) := by
  rw [bufferLength, if_neg (by omega)]
  rfl

variable [Scalar α] {p : Problem α} {name : String} {normalOnly : Bool} {n m : Nat}
  {f b : Array α}

/-- A workspace offers a problem under its name, and a destination for its blocks and vectors. -/
structure Offers (w : Workspace α) (name : String) (d : Destination) (place : Which → Handle)
    (p : Problem α) (n m : Nat) (t : Which → Target α) : Prop where
  problem?_eq : w.problem? name = some p
  reaches : d.Reaches w place t
  linearLength : d.linearLength = some (n : Int)
  boundLength : d.boundLength = some (m : Int)

/-- A conversion ends with vectors, leaves other targets in the places of those that were there,
and changes nothing else. -/
def Delivers (w : Workspace α) (name : String) (d : Destination) (place : Which → Handle)
    (normalOnly : Bool) (f b : Array α) (t : Which → Target α) : Prop :=
  ∃ w', (convert name d normalOnly).run.run w = (.ok (some f, some b), w') ∧
    w.Keeps w' (Set.range place) ∧ d.Reaches w' place t

/-- A conversion stores every block in its target. -/
theorem Offers.delivers (h : Offers w name d place p n m t) (hsub : p.substitute = none)
    (hfault : ∀ i, (Problem.store (p.block normalOnly i) (t i)).1 = none)
    (hf : p.linearFor n = .ok f) (hb : p.boundFor normalOnly m = .ok b) :
    Delivers w name d place normalOnly f b
      fun i => (Problem.store (p.block normalOnly i) (t i)).2 := by
  obtain ⟨w₁, hrun₁, hkeeps₁, hreaches₁⟩ := h.reaches.run_changeTarget .hessian
    (hfault .hessian) (Target.alike_loadBlock ..)
  obtain ⟨w₂, hrun₂, hkeeps₂, hreaches₂⟩ := hreaches₁.run_changeTarget .jacobian
    (f := Problem.store (p.block normalOnly .jacobian)) (hfault .jacobian)
    (Target.alike_loadBlock ..)
  obtain ⟨w₃, hrun₃, hkeeps₃, hreaches₃⟩ := hreaches₂.run_changeTarget .compliance
    (f := Problem.store (p.block normalOnly .compliance)) (hfault .compliance)
    (Target.alike_loadBlock ..)
  have hkept : ∀ s : Target α, p.storeSubstitute s = (none, s) := by
    intro s
    rw [Problem.storeSubstitute, Problem.substituteBlock, hsub]
    rfl
  obtain ⟨w₄, hrun₄, hkeeps₄, hreaches₄⟩ := hreaches₃.run_changeTarget .compliance
    (f := p.storeSubstitute) (by rw [hkept]) (by rw [hkept]; exact Target.Alike.refl _)
  refine ⟨w₄, ?_, hkeeps₁.trans (hkeeps₂.trans (hkeeps₃.trans hkeeps₄)), ?_⟩
  · unfold convert
    rw [h.linearLength, h.boundLength]
    refine (run_bind_of_ok (run_problem h.problem?_eq) _).trans ?_
    refine (run_bind_of_ok (h.reaches.run_checkTarget .hessian) _).trans ?_
    refine (run_bind_of_ok (h.reaches.run_checkTarget .jacobian) _).trans ?_
    refine (run_bind_of_ok (h.reaches.run_checkTarget .compliance) _).trans ?_
    refine (run_bind_of_ok (run_mapM_of_ok (run_bufferLength n)) _).trans ?_
    refine (run_bind_of_ok (run_mapM_of_ok (run_bufferLength m)) _).trans ?_
    refine (run_bind_of_ok hrun₁ _).trans ?_
    refine (run_bind_of_ok hrun₂ _).trans ?_
    refine (run_bind_of_ok hrun₃ _).trans ?_
    refine (run_bind_of_ok (run_mapM_of_ok (run_lift_of_ok hf)) _).trans ?_
    refine (run_bind_of_ok (run_mapM_of_ok (run_lift_of_ok hb)) _).trans ?_
    exact run_bind_of_ok hrun₄ _
  · convert hreaches₄ using 1
    funext i
    cases i
    · rfl
    · rfl
    · show _ = (p.storeSubstitute _).2
      rw [hkept]
      rfl

theorem run_receive {v : Array α} {received : Problem α} (hp : w.problem? name = some p)
    (hv : p.receive v = .ok received) :
    ∃ w', (receive name v).run.run w = (.ok received, w') ∧ w'.problem? name = some received := by
  obtain ⟨k, hname, hk⟩ := Workspace.problem?_eq_some_iff.mp hp
  obtain ⟨hlt, -⟩ := Array.getElem?_eq_some_iff.mp hk
  refine ⟨{ w with problems := w.problems.setIfInBounds k received }, ?_, ?_⟩
  · unfold receive
    refine (run_bind_of_ok (run_problem hp) _).trans ?_
    refine (run_bind_of_ok (run_lift_of_ok hv) _).trans ?_
    exact (run_bind_of_ok (run_problemNumber hname) _).trans rfl
  · exact Workspace.problem?_eq_some_iff.mpr
      ⟨k, hname, Array.getElem?_setIfInBounds_self_of_lt hlt⟩

/-! ## Exact conversions -/

section

variable {K : Type} [Field K] [LinearOrder K] {q : Problem.Parts K} {p : Problem K}
  {w : Workspace K} {name : String} {d : Destination} {place : Which → Handle} {normalOnly : Bool}

/-- Into matrices that obey the storage rules a conversion goes through. -/
theorem Offers.delivers_matrices (hq : q.Makes p) (hG : q.G.InShape) (hA : q.A.InShape)
    {M : Which → Matrix K} (hM : ∀ i, (M i).Sound)
    (h : Offers w name d place p (q.data normalOnly true).n (q.data normalOnly true).m
      fun i => .matrix (M i)) :
    Delivers w name d place normalOnly (Vector.neg q.c) (q.negBounds normalOnly) fun i =>
      .matrix ((M i).loadBlock (p.block normalOnly i) (p.block normalOnly i).entries.length).2 :=
  h.delivers hq.fit.substitute (fun i => (hq.carries_block hG hA (hM i) i _).1) hq.fit.linearFor_eq
    hq.fit.boundFor_eq

/-- Into patterns it always does. -/
theorem Offers.delivers_patterns (hq : q.Makes p) (hG : q.G.InShape) (hA : q.A.InShape)
    {L : Which → Pattern}
    (h : Offers w name d place p (q.data normalOnly true).n (q.data normalOnly true).m
      fun i => .pattern (L i)) :
    Delivers w name d place normalOnly (Vector.neg q.c) (q.negBounds normalOnly) fun i =>
      .pattern ((L i).loadBlock (p.block normalOnly i)).2 :=
  h.delivers hq.fit.substitute
    (fun i => ((L i).records_loadBlock (hq.fit.fault?_block hG hA normalOnly i)).1)
    hq.fit.linearFor_eq hq.fit.boundFor_eq

/-- A conversion writes exactly the blocks of its problem. The problem announces as many constraints
as it has rows in use. Converted into three different matrices that obey the storage rules, it
leaves matrices with the shapes of its blocks, which hold the symmetric part of `G`, the rows in use
of `A`, and the rows and columns in use of `E`, or zero where there is none; the vectors are `-c` and
the negated bounds of those rows. Converted into three patterns and loaded into locked matrices of
their orientations, whatever these hold, its positions are all that later conversions need: these
change the matrices in place, with no shift and no redistribution. Handed unknowns and negated
multipliers of the full lengths, the problem stores the unknowns and the multipliers. -/
theorem conversion_exact (q : Problem.Parts K) (p : Problem K) (hq : q.Makes p)
    (hG : q.G.InShape) (hA : q.A.InShape) (normalOnly : Bool) :
    let D := q.data normalOnly true
    p.activeConstraints normalOnly = D.m ∧
    (∀ (w : Workspace K) name d place (M : Which → Matrix K),
      Offers w name d place p D.n D.m (fun i => .matrix (M i)) → (∀ i, (M i).verify = 0) →
      ∃ M' : Which → Matrix K,
        Delivers w name d place normalOnly (Vector.neg q.c) (q.negBounds normalOnly)
          (fun i => .matrix (M' i)) ∧
        ∀ i, (M' i).Carries (D.rows i) (D.cols i) (D.value i)) ∧
    (∀ (w : Workspace K) name d place (L : Which → Pattern),
      Offers w name d place p D.n D.m (fun i => .pattern (L i)) →
      ∃ L' : Which → Pattern,
        Delivers w name d place normalOnly (Vector.neg q.c) (q.negBounds normalOnly)
          (fun i => .pattern (L' i)) ∧
        ∀ M : Which → Matrix K,
          (∀ i, (M i).locked = true ∧ (M i).orientation = (L i).orientation) →
          ∃ N : Which → Matrix K, (∀ i, (M i).loadPattern (L' i) = .ok (N i)) ∧
            ∀ (w : Workspace K) name d place,
              Offers w name d place p D.n D.m (fun i => .matrix (N i)) →
              ∃ N' : Which → Matrix K,
                Delivers w name d place normalOnly (Vector.neg q.c) (q.negBounds normalOnly)
                  (fun i => .matrix (N' i)) ∧
                ∀ i, (N' i).Carries (D.rows i) (D.cols i) (D.value i) ∧ (N i).InPlace (N' i)) ∧
    ∀ (w : Workspace K) name (x lam : Array K),
      w.problem? name = some p → x.size = D.n → lam.size = q.A.rows →
      ∃ w', (receive name (x ++ Vector.neg lam)).run.run w =
          (.ok { p with x := some x, multipliers := some lam }, w') ∧
        w'.problem? name = some { p with x := some x, multipliers := some lam } := by
  intro D
  have hfit := hq.fit
  refine ⟨hfit.activeConstraints, ?_, ?_, ?_⟩
  · intro w name d place M hoffers hM
    have hsound : ∀ i, (M i).Sound := fun i => Matrix.verify_eq_zero_iff.mp (hM i)
    exact ⟨_, hoffers.delivers_matrices hq hG hA hsound,
      fun i => (hq.carries_block hG hA (hsound i) i _).2⟩
  · intro w name d place L hoffers
    have hrecords := fun i => (L i).records_loadBlock (hfit.fault?_block hG hA normalOnly i)
    refine ⟨_, hoffers.delivers_patterns hq hG hA, fun M hM => ?_⟩
    have hload := fun i => Matrix.exists_loadPattern (m := M i)
      ((hrecords i).2.1.trans (hM i).2.symm)
    choose N hN using hload
    refine ⟨N, fun i => (hN i).1, fun w name d place hoffers => ?_⟩
    have hsound : ∀ i, (N i).Sound := fun i =>
      Matrix.sound_loadPattern (hrecords i).2.2.2.2.inRange (hN i).1
    refine ⟨_, hoffers.delivers_matrices hq hG hA hsound, fun i =>
      ⟨(hq.carries_block hG hA (hsound i) i _).2, ?_⟩⟩
    obtain ⟨-, -, hrows, hcols, hrec⟩ := hrecords i
    exact Matrix.inPlace_loadBlock hrec hrows hcols (hM i).1 (hN i).1 _
  · intro w name x lam hp hx hlam
    refine run_receive hp ?_
    rw [Problem.receive_append (hx.trans hfit.unknowns.symm)
      ((Vector.size_neg lam).trans (hlam.trans hfit.constraints.symm)), Vector.neg_neg_eq]

end

end Desk

/-- A contact of two unknowns with its friction rows. The Hessian is not symmetric, names a position
twice and another with a zero, and the normal row alone is compliant. -/
def slopedContact : Problem.Parts ℚ where
  G := .coordinates 2 2 [⟨0, 0, 1⟩, ⟨0, 1, 3⟩, ⟨0, 0, 2⟩, ⟨1, 1, 0⟩]
  c := #[1, -2]
  A := .dense ⟨3, 2, #[#[1, 0], #[0, 4], #[5, 6]]⟩
  b := #[7, 8, 9]
  E := some (.coordinates 3 3 [⟨0, 0, 2⟩, ⟨0, 0, 3⟩, ⟨1, 0, 8⟩])
  triplets := true

/-- A workspace with a problem, a locked matrix with a number in it, and two empty matrices. -/
def stocked (p : Problem ℚ) : Workspace ℚ :=
  { Workspace.empty with
    names := [("contact", .problem 0), ("G", .matrix 0), ("A", .matrix 1), ("E", .matrix 2)]
    problems := #[p]
    matrices := #[Sparse.lockedPair, .unit, .unit] }

/-- The places of the first three matrices. -/
def inTurn : Which → Handle
  | .hessian => .matrix 0
  | .jacobian => .matrix 1
  | .compliance => .matrix 2

/-- The first three matrices of that workspace. -/
def shelf : Which → Matrix ℚ
  | .hessian => Sparse.lockedPair
  | .jacobian => .unit
  | .compliance => .unit

/-- The numbers arrive whatever was stored before, and the problem then takes a solution. -/
theorem conversion_exact_slopedContact :
    ∃ (p : Problem ℚ) (w w' : Workspace ℚ) (M : Which → Matrix ℚ),
      slopedContact.problem? = .ok p ∧ (∀ i, (shelf i).verify = 0) ∧
      (Desk.convert "contact" ⟨some "G", some "A", some "E", some 2, some 1⟩ true).run.run
        (stocked p) = (.ok (some #[-1, 2], some #[-7]), w) ∧
      (∀ i, w.target? (inTurn i) = some (.matrix (M i))) ∧
      (M .hessian).valueAt 0 0 = 3 ∧ (M .hessian).valueAt 0 1 = 3 / 2 ∧
      (M .jacobian).valueAt 0 0 = 1 ∧ (M .compliance).valueAt 0 0 = 5 ∧
      (Desk.receive "contact" (#[3, 4] ++ Vector.neg #[5, 6, 7])).run.run w =
        (.ok { p with x := some #[3, 4], multipliers := some #[5, 6, 7] }, w') := by
  obtain ⟨p, hp⟩ : ∃ p, slopedContact.problem? = .ok p := ⟨_, rfl⟩
  have hG : slopedContact.G.InShape := by simp [slopedContact, GivenMatrix.InShape]
  have hE : ∀ e, slopedContact.E = some e → e.InShape := by
    rintro _ ⟨⟩
    simp [GivenMatrix.InShape]
  have hverify : ∀ i, (shelf i).verify = 0 := fun i => by cases i <;> decide +kernel
  have hoffers : Desk.Offers (stocked p) "contact" ⟨some "G", some "A", some "E", some 2, some 1⟩
      inTurn p 2 1 (fun i => .matrix (shelf i)) := by
    refine ⟨rfl, ⟨fun i => ?_, fun i j hij => ?_, fun i => ?_⟩, rfl, rfl⟩
    · cases i
      · exact ⟨"G", rfl, rfl⟩
      · exact ⟨"A", rfl, rfl⟩
      · exact ⟨"E", rfl, rfl⟩
    · cases i <;> cases j <;> first | rfl | cases hij
    · cases i <;> rfl
  obtain ⟨-, hmatrices, -, hreceive⟩ := Desk.conversion_exact slopedContact p
    (Problem.Parts.makes_of_problem? hE hp) hG trivial true
  obtain ⟨M, ⟨w, hrun, hkeeps, hreaches⟩, hcarries⟩ := hmatrices _ _ _ _ shelf hoffers hverify
  obtain ⟨w', hreceived, -⟩ := hreceive w "contact" #[3, 4] #[5, 6, 7]
    ((hkeeps.problem? "contact").trans hoffers.problem?_eq) rfl rfl
  have hlinear : Vector.neg slopedContact.c = #[-1, 2] := by decide +kernel
  have hbound : slopedContact.negBounds true = #[-7] := by decide +kernel
  have hvalue : ∀ i (k l : Nat), k < (slopedContact.data true true).rows i →
      l < (slopedContact.data true true).cols i →
      (M i).valueAt k l = (slopedContact.data true true).value i k l :=
    fun i => (hcarries i).valueAt_eq
  rw [hlinear, hbound] at hrun
  refine ⟨p, w, w', M, hp, hverify, hrun, hreaches.target?_eq, ?_, ?_, ?_, ?_, hreceived⟩
  · exact (hvalue .hessian 0 0 (by decide) (by decide)).trans (by decide +kernel)
  · exact (hvalue .hessian 0 1 (by decide) (by decide)).trans (by decide +kernel)
  · exact (hvalue .jacobian 0 0 (by decide) (by decide)).trans (by decide +kernel)
  · exact (hvalue .compliance 0 0 (by decide) (by decide)).trans (by decide +kernel)

end CentralPath
