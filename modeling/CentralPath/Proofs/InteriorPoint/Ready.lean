/-
  What holds of a solver between any two calls: its matrices are sound and its vectors have the
  lengths of its dimensions. Taking on dimensions and loading a problem keep this, also where they
  are refused half-way; a problem that is loaded to the end leaves its blocks in the solver's
  matrices (`ends_loadProblem`).
-/
import CentralPath.InteriorPoint.Solve
import CentralPath.Proofs.Backend.Work
import CentralPath.Proofs.Newton.Updates
import CentralPath.Proofs.Problem.Parts

open CentralPath.Vector (coord)

namespace CentralPath.InteriorPoint

open Backend (Environment Session Work)
open Backend.Work (Ends ends_bind ends_change ends_lift ends_report ends_solver ends_stopAt)
open Problem (Data)
open Sparse (Block Matrix)

theorem ends_assign {σ α : Type} {Q : Unit → Session (Solver α) σ α → Prop}
    {R : Fault α → Session (Solver α) σ α → Prop} {r : Session (Solver α) σ α} (k : Component)
    (f : Solver α → Except (Fault α) (Array α)) :
    Ends (Solver.assign k f) Q R r ↔ match f r.solver with
      | .ok v => Q () { r with solver := r.solver.withComponent k v }
      | .error e => R e r := by
  unfold Solver.assign
  rw [ends_bind, ends_solver, ends_bind, ends_lift]
  cases f r.solver <;> rfl

theorem size_ite_dimension {K : Type} {k l : Nat} {v w : Array K} (hv : v.size = k) (hw : w.size = l) :
    (if l = k then v else w).size = l := by
  split_ifs with h
  · exact hv.trans h.symm
  · exact hw

variable {σ K : Type} [Field K] [LinearOrder K] [ElementaryFunctions K]
  {Q : Unit → Session (Solver K) σ K → Prop} {R : Fault K → Session (Solver K) σ K → Prop}
  {r : Session (Solver K) σ K} {s : Solver K} {p : Problem K} {q : Problem.Parts K}

/-! ## Between calls -/

/-- The matrices are sound and the vectors have the lengths of the dimensions. -/
structure Solver.Ready (s : Solver K) : Prop where
  kkt : s.kkt.Sound
  hessian : s.G.Sound
  jacobian : s.A.Sound
  compliance : s.E.Sound
  x : s.x.size = s.n
  c : s.c.size = s.n
  rd : s.rd.size = s.n
  dx : s.dx.size = s.n
  y : s.y.size = s.m
  lam : s.lam.size = s.m
  b : s.b.size = s.m
  rp : s.rp.size = s.m
  dy : s.dy.size = s.m
  dlam : s.dlam.size = s.m
  yPred : s.yPred.size = s.m
  lamPred : s.lamPred.size = s.m

theorem Solver.ready_create (id : Nat) (options : Options K) : (Solver.create id options).Ready :=
  ⟨Sparse.Matrix.sound_unit, Sparse.Matrix.sound_unit, Sparse.Matrix.sound_unit,
    Sparse.Matrix.sound_unit, rfl, rfl, rfl, rfl, rfl, rfl, rfl, rfl, rfl, rfl, rfl, rfl⟩

/-! ## Dimensions -/

/-- Vectors whose dimension stays are kept, the others are replaced. -/
theorem Solver.allocate_eq (s : Solver K) (n m : Nat) : s.allocate n m = { s with
    n, m
    x := if n = s.n then s.x else Vector.ones n
    c := if n = s.n then s.c else Vector.zeros n
    rd := if n = s.n then s.rd else Vector.zeros n
    dx := if n = s.n then s.dx else Vector.zeros n
    y := if m = s.m then s.y else Vector.ones m
    lam := if m = s.m then s.lam else Vector.ones m
    b := if m = s.m then s.b else Vector.zeros m
    rp := if m = s.m then s.rp else Vector.zeros m
    dy := if m = s.m then s.dy else Vector.zeros m
    dlam := if m = s.m then s.dlam else Vector.zeros m
    yPred := if m = s.m then s.yPred else Vector.zeros m
    lamPred := if m = s.m then s.lamPred else Vector.zeros m } := by
  have hm : (s.resizeUnknowns n).m = s.m := by
    unfold Solver.resizeUnknowns
    split_ifs <;> rfl
  unfold Solver.allocate
  dsimp only
  rw [hm]
  unfold Solver.resizeUnknowns
  split_ifs <;> rfl

theorem Solver.Ready.allocate (h : s.Ready) (n m : Nat) : (s.allocate n m).Ready := by
  rw [s.allocate_eq]
  exact { h with
    x := size_ite_dimension h.x (Vector.size_ones n)
    c := size_ite_dimension h.c (Vector.size_zeros n)
    rd := size_ite_dimension h.rd (Vector.size_zeros n)
    dx := size_ite_dimension h.dx (Vector.size_zeros n)
    y := size_ite_dimension h.y (Vector.size_ones m)
    lam := size_ite_dimension h.lam (Vector.size_ones m)
    b := size_ite_dimension h.b (Vector.size_zeros m)
    rp := size_ite_dimension h.rp (Vector.size_zeros m)
    dy := size_ite_dimension h.dy (Vector.size_zeros m)
    dlam := size_ite_dimension h.dlam (Vector.size_zeros m)
    yPred := size_ite_dimension h.yPred (Vector.size_zeros m)
    lamPred := size_ite_dimension h.lamPred (Vector.size_zeros m) }

/-! ## Loading -/

theorem ends_loadInto (before : Matrix K) (put : Matrix K → Solver K → Solver K) (b : Block K)
    (hint : Int) :
    Ends (loadInto before put b hint) Q R r ↔
      let r' := { r with
        solver := put (before.loadBlock b hint).2 r.solver
        events := r.events ++ Journal.growthEvents before (before.loadBlock b hint).2 }
      match (before.loadBlock b hint).1 with
      | none => Q () r'
      | some e => R e r' := by
  unfold loadInto
  dsimp only
  rw [ends_bind, ends_change, ends_bind, ends_report]
  exact ends_stopAt _

/-- Loading changes the blocks, the vectors that come with them and what is known of compliance. The
block of the constraints has a row for each of them, if it has been touched. -/
def Solver.OnlyProblem (s s' : Solver K) : Prop :=
  ∃ G A E c b usesE diagE, s' = { s with G, A, E, c, b, usesE, diagE } ∧
    E.locked = s.E.locked ∧ (A = s.A ∨ A.rows = s.m)

/-- What refuses the blocks of a problem, in the order in which they are loaded. -/
def Options.blockFault? (o : Options K) (p : Problem K) : Option (Fault K) :=
  p.hessianBlock.fault?.or ((p.jacobianBlock o.skipTangential).fault?.or
    (if o.useCompliance then (p.complianceBlock o.skipTangential).fault? else none))

/-- Compliance is asked for and the problem has some that is not zero. -/
def Options.FindsCompliance (o : Options K) (p : Problem K) : Prop :=
  o.useCompliance = true ∧ ∃ e ∈ (p.complianceBlock o.skipTangential).entries, e.value ≠ 0

theorem ends_loadHessian (h : r.solver.Ready) (value : Nat → Nat → K)
    (hgive : ∀ i j : Nat, i < p.unknowns → j < p.unknowns →
      Sparse.EntriesGive p.hessianBlock.entries i j (value i j)) :
    Ends (loadHessian p)
      (fun _ r' => r'.backend = r.backend ∧ p.hessianBlock.fault? = none ∧
        ∃ G : Matrix K, r'.solver = { r.solver with G } ∧ G.Carries p.unknowns p.unknowns value)
      (fun e r' => r'.backend = r.backend ∧ p.hessianBlock.fault? = some e ∧
        ∃ G : Matrix K, r'.solver = { r.solver with G } ∧ G.Sound) r := by
  have hfault := h.hessian.fault_loadBlock p.hessianBlock p.hessianBlock.entries.length
  unfold loadHessian loadExactly
  rw [ends_bind, ends_solver, ends_loadInto]
  dsimp only
  rw [← hfault]
  split
  · rename_i hnone
    exact ⟨rfl, hnone, _, rfl, h.hessian.carries_loadBlock hnone hgive⟩
  · rename_i e hsome
    exact ⟨rfl, hsome, _, rfl, h.hessian.loadBlock _ _⟩

theorem ends_loadJacobian (h : r.solver.Ready) {rows : Nat} (value : Nat → Nat → K)
    (hrows : (p.jacobianBlock r.solver.options.skipTangential).rows = rows)
    (hgive : ∀ k j : Nat, k < rows → j < p.unknowns → Sparse.EntriesGive
      (p.jacobianBlock r.solver.options.skipTangential).entries k j (value k j)) :
    Ends (loadJacobian p)
      (fun _ r' => r'.backend = r.backend ∧
        (p.jacobianBlock r.solver.options.skipTangential).fault? = none ∧
        ∃ A : Matrix K, r'.solver = { r.solver with A } ∧ A.Carries rows p.unknowns value)
      (fun e r' => r'.backend = r.backend ∧
        (p.jacobianBlock r.solver.options.skipTangential).fault? = some e ∧
        ∃ A : Matrix K, r'.solver = { r.solver with A } ∧ A.Sound ∧ A.rows = rows) r := by
  have hfault := h.jacobian.fault_loadBlock (p.jacobianBlock r.solver.options.skipTangential)
    (p.jacobianBlock r.solver.options.skipTangential).entries.length
  unfold loadJacobian loadExactly
  rw [ends_bind, ends_solver, ends_loadInto]
  dsimp only
  rw [← hfault]
  subst hrows
  split
  · rename_i hnone
    exact ⟨rfl, hnone, _, rfl, h.jacobian.carries_loadBlock hnone hgive⟩
  · rename_i e hsome
    exact ⟨rfl, hsome, _, rfl, h.jacobian.loadBlock _ _, (h.jacobian.shape_loadBlock _ _).1⟩

/-- Where it is asked for, the compliance block is loaded; live slots tell whether there is some. -/
theorem ends_loadCompliance (h : r.solver.Ready) {rows : Nat} (value : Nat → Nat → K)
    (hrows : (p.complianceBlock r.solver.options.skipTangential).rows = rows)
    (hgive : ∀ k l : Nat, k < rows → l < rows → Sparse.EntriesGive
      (p.complianceBlock r.solver.options.skipTangential).entries k l (value k l)) :
    Ends (loadCompliance p)
      (fun _ r' => r'.backend = r.backend ∧ (if r.solver.options.useCompliance then
          (p.complianceBlock r.solver.options.skipTangential).fault? else none) = none ∧
        ∃ E : Matrix K, r'.solver = { r.solver with E } ∧ E.Sound ∧
          E.locked = r.solver.E.locked ∧
          (r.solver.options.useCompliance = true → E.Carries rows rows value ∧
            (E.locked = false → (0 < E.liveCount ↔
              ∃ e ∈ (p.complianceBlock r.solver.options.skipTangential).entries, e.value ≠ 0))))
      (fun e r' => r'.backend = r.backend ∧ (if r.solver.options.useCompliance then
          (p.complianceBlock r.solver.options.skipTangential).fault? else none) = some e ∧
        ∃ E : Matrix K, r'.solver = { r.solver with E } ∧ E.Sound ∧
          E.locked = r.solver.E.locked) r := by
  set b := p.complianceBlock r.solver.options.skipTangential
  have hfault := h.compliance.fault_loadBlock b b.entries.length
  have hlocked := (h.compliance.frame_loadBlock b b.entries.length).2
  unfold loadCompliance loadExactly
  rw [ends_bind, ends_solver]
  subst hrows
  split_ifs with huse
  · rw [ends_loadInto]
    dsimp only
    rw [← hfault]
    split
    · rename_i hnone
      refine ⟨rfl, hnone, _, rfl, h.compliance.loadBlock _ _, hlocked, fun _ => ⟨?_, fun hoff => ?_⟩⟩
      · exact h.compliance.carries_loadBlock hnone hgive
      · exact h.compliance.liveCount_loadBlock_pos_iff (hlocked.symm.trans hoff) hnone
    · rename_i e hsome
      exact ⟨rfl, hsome, _, rfl, h.compliance.loadBlock _ _, hlocked⟩
  · exact ⟨rfl, rfl, r.solver.E, rfl, h.compliance, rfl, fun huse' => absurd huse' huse⟩

/-- The diagonal of a square matrix is read off. -/
theorem diagonal_eq {E : Matrix K} {m : Nat} {value : Nat → Nat → K} (h : E.Carries m m value) :
    ∃ diagE, diagonal E m = .ok diagE ∧ diagE.size = m ∧
      ∀ k, k < m → coord diagE k = value k k := by
  have hmap : ∀ l : List Nat, (∀ j ∈ l, j < m) →
      (l.mapM fun (j : Nat) => E.get j j) = .ok (l.map fun j => value j j) := by
    intro l
    induction l with
    | nil => exact fun _ => rfl
    | cons j js ih =>
      intro hl
      have hj := hl j (List.mem_cons_self ..)
      have hin : E.InShape j j := by
        rw [Matrix.InShape, h.rows_eq, h.cols_eq]
        omega
      rw [List.mapM_cons, h.sound.get_eq hin, h.valueAt_eq j j hj hj,
        ih fun k hk => hl k (List.mem_cons_of_mem _ hk)]
      rfl
  refine ⟨((List.range m).map fun j => value j j).toArray, ?_, ?_, fun k hk => ?_⟩
  · unfold diagonal
    rw [hmap _ fun j hj => List.mem_range.mp hj]
    rfl
  · rw [List.size_toArray, List.length_map, List.length_range]
  · rw [coord, Array.getD_eq_getD_getElem?, List.getElem?_toArray, List.getElem?_map,
      List.getElem?_range hk]
    rfl

/-- Compliance is in use where it is asked for and there is some. -/
theorem ends_adoptCompliance {D : Data K} (hm : r.solver.m = D.m)
    (hE : r.solver.options.useCompliance = true → r.solver.E.Carries D.m D.m D.E)
    (habsent : r.solver.options.useCompliance = false →
      ∀ k l : Nat, k < D.m → l < D.m → D.E k l = 0) {R : Fault K → Session (Solver K) σ K → Prop} :
    Ends adoptCompliance
      (fun _ r' => r'.backend = r.backend ∧ ∃ usesE diagE,
        r'.solver = { r.solver with usesE, diagE } ∧
        usesE = (r.solver.options.useCompliance && decide (0 < r.solver.E.liveCount)) ∧
        Newton.Complies D r'.solver.compliance? ∧ Newton.IsDiagonal D diagE) R r := by
  unfold adoptCompliance
  rw [ends_bind, ends_change, ends_bind, ends_solver]
  dsimp only
  split_ifs with huse hshape
  · rw [Bool.and_eq_true] at huse
    have hcarries := hE huse.1
    rw [hcarries.rows_eq, hcarries.cols_eq, hm] at hshape
    exact absurd hshape (by simp)
  · rw [Bool.and_eq_true] at huse
    have hcarries := hE huse.1
    obtain ⟨diagE, hdiag, hsize, hcoord⟩ := diagonal_eq hcarries
    rw [ends_bind, ends_lift, hm, hdiag]
    refine ⟨rfl, _, _, rfl, rfl, ⟨fun e he => ?_, fun hnone => ?_⟩, hsize, hcoord⟩
    · dsimp only [Solver.compliance?] at he
      rw [if_pos (Bool.and_eq_true_iff.mpr huse)] at he
      obtain rfl := Option.some.inj he
      exact hcarries
    · dsimp only [Solver.compliance?] at hnone
      rw [if_pos (Bool.and_eq_true_iff.mpr huse)] at hnone
      cases hnone
  · have hzero : ∀ k l : Nat, k < D.m → l < D.m → D.E k l = 0 := by
      intro k l hk hl
      rcases hasked : r.solver.options.useCompliance with _ | _
      · exact habsent hasked k l hk hl
      · have hlive : r.solver.E.liveCount = 0 := by
          by_contra hne
          rw [hasked, Bool.true_and, decide_eq_true_eq] at huse
          exact huse (Nat.pos_of_ne_zero hne)
        have hcarries := hE hasked
        rw [← hcarries.valueAt_eq k l hk hl]
        exact hcarries.sound.valueAt_of_liveCount_eq_zero hlive k l
    rw [ends_change]
    refine ⟨rfl, _, _, rfl, rfl, ⟨fun e he => ?_, fun _ => hzero⟩,
      (Vector.size_zeros _).trans hm, fun k hk => ?_⟩
    · dsimp only [Solver.compliance?] at he
      rw [if_neg huse] at he
      cases he
    · rw [Vector.coord_zeros, hzero k k hk hk]

/-- Only a problem that stands in for another one substitutes something for its compliance. -/
theorem ends_loadSubstitute (h : p.substitute = none) :
    Ends (loadSubstitute p) Q R r ↔ Q () r := by
  have hblock : p.substituteBlock = none := by
    rw [Problem.substituteBlock, h]
    rfl
  unfold loadSubstitute
  rw [ends_bind, ends_solver, hblock]
  exact Iff.rfl

/-- The vectors of the linear term and the bounds are those of the data. -/
structure Solver.HasVectors (s : Solver K) (D : Data K) : Prop where
  linear : ∀ i, i < D.n → coord s.c i = D.c i
  bound : ∀ k, k < D.m → coord s.b k = D.b k

/-- The numbers of a problem for a solver with these options. -/
def Options.data (o : Options K) (q : Problem.Parts K) : Data K :=
  q.data o.skipTangential o.useCompliance

/-- A problem is loaded: its numbers are in the solver's matrices and vectors, and compliance is in use
where there is some. -/
structure Solver.HasLoaded (s : Solver K) (p : Problem K) (D : Data K) : Prop where
  ready : s.Ready
  blocks : Newton.Blocks D s.G s.A s.compliance?
  vectors : s.HasVectors D
  diagonal : Newton.IsDiagonal D s.diagE
  compliant : s.E.locked = false → (s.usesE = true ↔ s.options.FindsCompliance p)

/-- The blocks of a problem, one after the other. -/
def loadBlocks (p : Problem K) : Run σ K Unit := do
  loadHessian p
  loadJacobian p
  loadCompliance p

/-- What comes after the blocks, for a solver that had the dimensions and the options of `s`. -/
def loadVectors (p : Problem K) (s : Solver K) : Run σ K Unit := do
  let f ← Work.lift (p.linearFor s.n)
  let bound ← Work.lift (p.boundFor s.options.skipTangential s.m)
  loadSubstitute p
  Solver.assign .c fun s => Vector.fill? s.c.size (Vector.neg f)
  Solver.assign .b fun s => Vector.fill? s.b.size (Vector.neg bound)
  adoptCompliance

theorem ends_loadProblem_iff : Ends (loadProblem p) Q R r ↔
    Ends (loadBlocks p) (fun _ r' => Ends (loadVectors p r.solver) Q R r') R r := by
  unfold loadProblem loadBlocks loadVectors
  simp only [Work.ends_bind_eq]
  rfl

/-- The blocks of a problem are in the solver's matrices. The compliance block is where it was asked
for, and live slots tell whether there is some. -/
structure Solver.HasBlocks (s : Solver K) (p : Problem K) (q : Problem.Parts K) : Prop where
  hessian : s.G.Carries (s.options.data q).n (s.options.data q).n (s.options.data q).G
  jacobian : s.A.Carries (s.options.data q).m (s.options.data q).n (s.options.data q).A
  compliance : s.options.useCompliance = true →
    s.E.Carries (s.options.data q).m (s.options.data q).m (q.data s.options.skipTangential true).E
  live : s.options.useCompliance = true → s.E.locked = false → (0 < s.E.liveCount ↔
    ∃ e ∈ (p.complianceBlock s.options.skipTangential).entries, e.value ≠ 0)

/-- Loading the blocks is refused for one of them, or leaves all of them in the solver. -/
theorem ends_loadBlocks (h : r.solver.Ready) (hq : q.Makes p)
    (hm : r.solver.m = (r.solver.options.data q).m) :
    Ends (loadBlocks p)
      (fun _ r' => r'.backend = r.backend ∧ r.solver.options.blockFault? p = none ∧
        (∃ G A E, r'.solver = { r.solver with G, A, E } ∧ E.locked = r.solver.E.locked) ∧
        r'.solver.Ready ∧ r'.solver.HasBlocks p q)
      (fun e r' => r'.backend = r.backend ∧ r.solver.options.blockFault? p = some e ∧
        r.solver.OnlyProblem r'.solver ∧ r'.solver.Ready) r := by
  have hfit := hq.fit
  set o := r.solver.options with ho
  set D := o.data q with hD
  have hunknowns : p.unknowns = D.n := hfit.unknowns
  have hjrows : (p.jacobianBlock o.skipTangential).rows = D.m :=
    congrArg List.length hfit.activeRows
  have herows : (p.complianceBlock o.skipTangential).rows = D.m :=
    congrArg List.length hfit.activeRows
  unfold loadBlocks
  refine (ends_loadHessian h D.G fun i j hi hj =>
    hfit.hessianBlock_gives (hunknowns ▸ hi) (hunknowns ▸ hj)).bind ?_ ?_
  rotate_left
  · rintro e r₁ ⟨hb, hfault, G, hs, hG⟩
    refine ⟨hb, by rw [Options.blockFault?, hfault]; rfl, ?_, ?_⟩
    · exact ⟨G, _, _, _, _, _, _, hs, rfl, .inl rfl⟩
    · rw [hs]
      exact { h with hessian := hG }
  rintro _ r₁ ⟨hb₁, hfault₁, G, hs₁, hG⟩
  have h₁ : r₁.solver.Ready := by
    rw [hs₁]
    exact { h with hessian := hG.sound }
  have ho₁ : r₁.solver.options = o := by rw [hs₁]
  refine (ends_loadJacobian h₁ D.A (ho₁ ▸ hjrows) fun k j hk hj => ?_).bind ?_ ?_
  · rw [ho₁]
    exact hfit.jacobianBlock_gives hk (hunknowns ▸ hj)
  rotate_left
  · rintro e r₂ ⟨hb, hfault, A, hs, hA, hArows⟩
    rw [ho₁] at hfault
    refine ⟨hb.trans hb₁, by rw [Options.blockFault?, hfault₁, hfault]; rfl, ?_, ?_⟩
    · rw [hs, hs₁]
      exact ⟨G, A, _, _, _, _, _, rfl, rfl, .inr (hArows.trans hm.symm)⟩
    · rw [hs]
      exact { h₁ with jacobian := hA }
  rintro _ r₂ ⟨hb₂, hfault₂, A, hs₂, hA⟩
  rw [ho₁] at hfault₂
  have h₂ : r₂.solver.Ready := by
    rw [hs₂]
    exact { h₁ with jacobian := hA.sound }
  rw [hs₁] at hs₂
  have ho₂ : r₂.solver.options = o := by rw [hs₂]
  refine (ends_loadCompliance h₂ (q.data o.skipTangential true).E (ho₂ ▸ herows)
    fun k l hk hl => ?_).mono ?_ ?_
  · rw [ho₂]
    exact hfit.complianceBlock_gives hq.inShape hk hl
  · rintro _ r₃ ⟨hb₃, hfault₃, E, hs₃, hE, hlocked, hcarries⟩
    rw [ho₂] at hcarries hfault₃
    have h₃ : r₃.solver.Ready := by
      rw [hs₃]
      exact { h₂ with compliance := hE }
    rw [hs₂] at hs₃ hlocked
    refine ⟨hb₃.trans (hb₂.trans hb₁), ?_, ⟨G, A, E, hs₃, hlocked⟩, h₃, ?_⟩
    · rw [Options.blockFault?, hfault₁, hfault₂, hfault₃]
      rfl
    · rw [hs₃]
      exact ⟨hunknowns ▸ hG, hunknowns ▸ hA, fun huse => (hcarries huse).1,
        fun huse => (hcarries huse).2⟩
  · rintro e r₃ ⟨hb, hfault, E, hs, hE, hlocked⟩
    rw [ho₂] at hfault
    refine ⟨hb.trans (hb₂.trans hb₁), by rw [Options.blockFault?, hfault₁, hfault₂, hfault]; rfl,
      ?_, ?_⟩
    · rw [hs₂] at hs hlocked
      exact ⟨G, A, E, _, _, _, _, hs, hlocked, .inr (hA.rows_eq.trans hm.symm)⟩
    · rw [hs]
      exact { h₂ with compliance := hE }

/-- With the blocks in place nothing refuses what comes after them. -/
theorem ends_loadVectors (h : r.solver.Ready) (hblocks : r.solver.HasBlocks p q) (hq : q.Makes p)
    (hn : r.solver.n = (r.solver.options.data q).n)
    (hm : r.solver.m = (r.solver.options.data q).m) :
    Ends (loadVectors p r.solver)
      (fun _ r' => r'.backend = r.backend ∧
        (∃ c b usesE diagE, r'.solver = { r.solver with c, b, usesE, diagE }) ∧
        r'.solver.HasLoaded p (r.solver.options.data q)) R r := by
  have hfit := hq.fit
  set D := r.solver.options.data q with hD
  obtain ⟨f, hf⟩ : ∃ f, p.linearFor D.n = .ok f := hfit.exists_linearFor
  obtain ⟨bound, hbound⟩ : ∃ bound, p.boundFor r.solver.options.skipTangential D.m = .ok bound :=
    hfit.exists_boundFor
  rw [← hn] at hf
  rw [← hm] at hbound
  have hfsize : (Vector.neg f).size = r.solver.c.size := by
    rw [Vector.size_neg, Problem.size_linearFor hf, h.c]
  have hbsize : (Vector.neg bound).size = r.solver.b.size := by
    rw [Vector.size_neg, Problem.size_boundFor hbound, h.b]
  unfold loadVectors
  rw [ends_bind, ends_lift, hf]
  dsimp only
  rw [ends_bind, ends_lift, hbound]
  dsimp only
  rw [ends_bind, ends_loadSubstitute hfit.substitute, ends_bind, ends_assign,
    Vector.fill?_of_size_eq hfsize]
  dsimp only [Solver.withComponent]
  rw [ends_bind, ends_assign]
  dsimp only
  rw [Vector.fill?_of_size_eq hbsize]
  dsimp only [Solver.withComponent]
  have h₁ : Solver.Ready { r.solver with c := Vector.neg f, b := Vector.neg bound } :=
    { h with c := hfsize.trans h.c, b := hbsize.trans h.b }
  refine (ends_adoptCompliance (D := D)
    (r := { r with solver := { r.solver with c := Vector.neg f, b := Vector.neg bound } }) hm
    (fun huse => ?_) fun huse k l _ _ => ?_).mono ?_ fun _ _ hR => hR
  · dsimp only at huse ⊢
    have hEq : D.E = (q.data r.solver.options.skipTangential true).E := by
      rw [hD, Options.data, huse]
    rw [hEq]
    exact hblocks.compliance huse
  · dsimp only at huse
    rw [hD, Options.data, huse]
    exact q.data_E_eq_zero _ k l
  rintro _ r₂ ⟨hb₂, usesE, diagE, hs₂, huses, hcomplies, hdiagonal⟩
  dsimp only at hs₂ huses hb₂
  refine ⟨hb₂, ⟨_, _, _, _, hs₂⟩, ?_, ⟨?_, ?_, hcomplies⟩, ⟨?_, ?_⟩, ?_, ?_⟩
  · rw [hs₂]
    exact { h₁ with }
  · rw [hs₂]
    exact hblocks.hessian
  · rw [hs₂]
    exact hblocks.jacobian
  · intro i _
    rw [hs₂]
    exact hfit.coord_linear hf i
  · intro k hk
    rw [hs₂]
    exact hfit.coord_bound hbound hk
  · rw [hs₂]
    exact hdiagonal
  · rw [hs₂]
    intro hoff
    rw [huses, Bool.and_eq_true, decide_eq_true_eq, Options.FindsCompliance]
    exact and_congr_right fun huse => hblocks.live huse hoff

/-- A problem that is loaded to the end leaves its numbers in the solver. Whether it is refused is a
matter of its blocks. -/
theorem ends_loadProblem (h : r.solver.Ready) (hq : q.Makes p)
    (hn : r.solver.n = (r.solver.options.data q).n)
    (hm : r.solver.m = (r.solver.options.data q).m) :
    Ends (loadProblem p)
      (fun _ r' => r'.backend = r.backend ∧ r.solver.options.blockFault? p = none ∧
        r.solver.OnlyProblem r'.solver ∧ r'.solver.HasLoaded p (r.solver.options.data q))
      (fun e r' => r'.backend = r.backend ∧ r.solver.options.blockFault? p = some e ∧
        r.solver.OnlyProblem r'.solver ∧ r'.solver.Ready) r := by
  rw [ends_loadProblem_iff]
  refine (ends_loadBlocks h hq hm).mono ?_ fun _ _ hR => hR
  rintro _ r₁ ⟨hb₁, hfault, ⟨G, A, E, hs₁, hlocked⟩, h₁, hblocks⟩
  have hsame : (loadVectors p r.solver : Run σ K Unit) = loadVectors p r₁.solver := by
    rw [hs₁]
    rfl
  have ho₁ : r₁.solver.options = r.solver.options := by rw [hs₁]
  have hn₁ : r₁.solver.n = (r₁.solver.options.data q).n := by
    rw [ho₁, ← hn, hs₁]
  have hm₁ : r₁.solver.m = (r₁.solver.options.data q).m := by
    rw [ho₁, ← hm, hs₁]
  have hrows : r₁.solver.A.rows = r₁.solver.m := hblocks.jacobian.rows_eq.trans hm₁.symm
  rw [hsame]
  refine (ends_loadVectors h₁ hblocks hq hn₁ hm₁).mono ?_ fun _ _ hR => hR
  rintro _ r₂ ⟨hb₂, ⟨c, b, usesE, diagE, hs₂⟩, hloaded⟩
  rw [hs₁] at hs₂ hrows
  rw [ho₁] at hloaded
  exact ⟨hb₂.trans hb₁, hfault, ⟨G, A, E, c, b, usesE, diagE, hs₂, hlocked, .inr hrows⟩, hloaded⟩

end CentralPath.InteriorPoint
