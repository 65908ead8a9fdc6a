/-
  A solve up to its system. `arrange` is the part of a solve that comes before the first iterate: it
  takes on the dimensions, loads the problem and assembles the Newton matrix, and it asks nothing of
  the backend. Whatever solves came before, it ends with the data of the problem in every place that
  the rest of a solve reads (`Arranged`), or is refused for a reason that is found in the options
  and the problem alone (`ends_arrange`).
-/
import CentralPath.Proofs.InteriorPoint.Loaded

namespace CentralPath.InteriorPoint

open Backend (Environment Session Work)
open Backend.Work (Ends ends_bind ends_change ends_lift ends_solver)
open Newton (Formulation systemFor)
open Problem (Data)
open Sparse (Matrix)

section

variable {σ α : Type} [Elementary α]

/-- A solve up to its system. -/
def arrange (env : Environment σ α) (p : Problem α) : Run σ α Unit := do
  Work.change fun s => { s with solveCalls := s.solveCalls + 1 }
  let before ← Work.solver
  let n := p.unknowns
  let m := p.activeConstraints before.options.skipTangential
  let sys ← Work.lift (Newton.System.create before.options.formulation n m)
  Work.change fun s => { s with system := some sys }
  allocateFor n m
  loadProblem p
  assembleSystem env sys
  Work.change fun s => { s with stage := .initialized }

end

variable {σ K : Type} [Field K] {r : Session (Solver K) σ K} {f : Formulation} {D : Data K}
  {o : Options K} {s s' : Solver K}

/-! ## Between solves -/

/-- A solver that any problem may follow: it is ready, no block of it is locked, and its Newton
matrix is stored by rows. -/
structure Solver.Usable (s : Solver K) : Prop extends s.Ready where
  unlocked : s.E.locked = false
  byRows : s.kkt.orientation = .byRows

/-- What a problem with `m` constraints leaves of a solver that tried it as `s`, however far it
came. -/
structure Solver.Tried (m : Nat) (s s' : Solver K) : Prop where
  ready : s'.Ready
  jacobian : s'.A = s.A ∨ s'.A.rows = m
  locked : s'.E.locked = s.E.locked
  orientation : s'.kkt.orientation = s.kkt.orientation

omit [Field K] in
theorem Solver.Tried.usable {m : Nat} (h : s.Tried m s') (hs : s.Usable) : s'.Usable :=
  ⟨h.ready, h.locked.trans hs.unlocked, h.orientation.trans hs.byRows⟩

omit [Field K] in
theorem Solver.Tried.of_onlyKkt {m : Nat} {s'' : Solver K} (h : s.Tried m s')
    (hkkt : s'.OnlyKkt s'') (hsound : s''.kkt.Sound) : s.Tried m s'' := by
  obtain ⟨kkt, learned, rfl, horientation⟩ := hkkt
  exact ⟨{ h.ready with kkt := hsound }, h.jacobian, h.locked, horientation.trans h.orientation⟩

/-! ## With a system -/

/-- The problem is loaded and its system assembled, in every matrix that is read later on. -/
structure Assembled (D : Data K) (f : Formulation) (o : Options K) (s : Solver K) : Prop
    extends Loaded D f o s where
  prepared : Newton.Prepared f D s.kkt
  hessian : s.G.Carries D.n D.n D.G
  jacobian : s.A.Carries D.m D.n D.A
  diagonal : Newton.IsDiagonal D s.diagE
  unlocked : s.E.locked = false
  byRows : s.kkt.orientation = .byRows

namespace Assembled

theorem usable (h : Assembled D f o s) : s.Usable := ⟨h.ready, h.unlocked, h.byRows⟩

theorem of_iterate (h : Assembled D f o s) {x y lam rp rd : Array K} (mu : K) (hx : x.size = D.n)
    (hy : y.size = D.m) (hl : lam.size = D.m) (hrp : rp.size = D.m) (hrd : rd.size = D.n) :
    Assembled D f o { s with x, y, lam, rp, rd, mu } :=
  { h with toLoaded := h.toLoaded.of_iterate mu hx hy hl hrp hrd }

theorem of_point (h : Assembled D f o s) {x y lam : Array K} (hx : x.size = D.n) (hy : y.size = D.m)
    (hl : lam.size = D.m) : Assembled D f o { s with x, y, lam } :=
  { h with toLoaded := h.toLoaded.of_point hx hy hl }

theorem of_kkt (h : Assembled D f o s) {kkt : Matrix K} (hkkt : Newton.Prepared f D kkt)
    (horientation : kkt.orientation = .byRows) : Assembled D f o { s with kkt } :=
  { h with
    toLoaded := h.toLoaded.of_kkt hkkt.toHolds, prepared := hkkt, byRows := horientation }

variable [LinearOrder K]

/-- The diagonal of the compliance block, brought to any iterate of the right lengths. -/
theorem assemble (h : Assembled D f o s) :
    (s.kkt.assemble ((systemFor f D).iterateAssembly s.y s.lam s.diagE)).1 = none ∧
      Newton.AtIterate f D s.y s.lam
        (s.kkt.assemble ((systemFor f D).iterateAssembly s.y s.lam s.diagE)).2 ∧
      (s.kkt.assemble ((systemFor f D).iterateAssembly s.y s.lam s.diagE)).2.orientation =
        .byRows := by
  obtain ⟨hnone, -, hat⟩ := h.prepared.assemble h.diagonal (h.ready.y.trans h.m_eq)
    (h.ready.lam.trans h.m_eq)
  exact ⟨hnone, hat, (h.prepared.sound.writeAll _).2.orientation.trans h.byRows⟩

end Assembled

/-! ## Arranging -/

variable [LinearOrder K] [ElementaryFunctions K] {p : Problem K} {q : Problem.Parts K}

/-- The solver when the dimensions of the data are set and its system is chosen. -/
def Solver.dimensioned (s : Solver K) (D : Data K) (f : Formulation) : Solver K :=
  { s with solveCalls := s.solveCalls + 1, system := some (systemFor f D) }.allocate D.n D.m

theorem Solver.dimensioned_eq (s : Solver K) (D : Data K) (f : Formulation) :
    s.dimensioned D f = { s.allocate D.n D.m with
      solveCalls := s.solveCalls + 1, system := some (systemFor f D) } := by
  rw [dimensioned, allocate_eq, allocate_eq]

theorem Solver.Ready.dimensioned (h : s.Ready) (D : Data K) (f : Formulation) :
    (s.dimensioned D f).Ready := by
  have hready : { s with
      solveCalls := s.solveCalls + 1, system := some (systemFor f D) }.Ready := { h with }
  exact hready.allocate D.n D.m

/-- A solver `s` that has taken on the problem as `s'`: the iterate is what the dimensions leave of
it, and nothing is known of an iteration yet. -/
structure Arranged (p : Problem K) (D : Data K) (f : Formulation) (s s' : Solver K) : Prop
    extends s'.HasLoaded p D where
  options : s'.options = s.options
  n_eq : s'.n = D.n
  m_eq : s'.m = D.m
  system : s'.system = some (systemFor f D)
  prepared : Newton.Prepared f D s'.kkt
  x : s'.x = (s.allocate D.n D.m).x
  y : s'.y = (s.allocate D.n D.m).y
  lam : s'.lam = (s.allocate D.n D.m).lam
  id : s'.id = s.id
  history : s'.history = s.history
  locked : s'.E.locked = s.E.locked
  orientation : s'.kkt.orientation = s.kkt.orientation

theorem Arranged.loaded (h : Arranged p D f s s') : Loaded D f s.options s' where
  ready := h.ready
  options := h.options
  n_eq := h.n_eq
  m_eq := h.m_eq
  system := h.system
  kkt := h.prepared.toHolds
  compliance := h.blocks.compliance
  vectors := h.vectors

theorem Arranged.assembled (h : Arranged p D f s s') (hs : s.Usable) :
    Assembled D f s.options s' where
  toLoaded := h.loaded
  prepared := h.prepared
  hessian := h.blocks.hessian
  jacobian := h.blocks.jacobian
  diagonal := h.diagonal
  unlocked := h.locked.trans hs.unlocked
  byRows := h.orientation.trans hs.byRows

theorem Solver.tried_of_onlyProblem (h : (s.dimensioned D f).OnlyProblem s') (hready : s'.Ready) :
    s.Tried D.m s' := by
  obtain ⟨G, A, E, c, b, usesE, diagE, rfl, hlocked, hA⟩ := h
  rw [s.dimensioned_eq, s.allocate_eq] at *
  exact ⟨hready, hA, hlocked, rfl⟩

/-- A problem that is loaded and whose system is assembled has been taken on. -/
theorem Arranged.of_loaded {s₁ s₂ : Solver K} (h : (s.dimensioned D f).OnlyProblem s₁)
    (hloaded : s₁.HasLoaded p D) (hkkt : s₁.OnlyKkt s₂) (hprepared : Newton.Prepared f D s₂.kkt) :
    Arranged p D f s { s₂ with stage := .initialized } := by
  have htried := (Solver.tried_of_onlyProblem h hloaded.ready).of_onlyKkt hkkt hprepared.sound
  obtain ⟨kkt, learned, rfl, -⟩ := hkkt
  obtain ⟨G, A, E, c, b, usesE, diagE, hs₁, -⟩ := h
  rw [s.dimensioned_eq] at hs₁
  exact
    { ready := { htried.ready with }
      blocks := hloaded.blocks
      vectors := { hloaded.vectors with }
      diagonal := hloaded.diagonal
      compliant := hloaded.compliant
      options := by rw [hs₁, s.allocate_eq]
      n_eq := by rw [hs₁, s.allocate_eq]
      m_eq := by rw [hs₁, s.allocate_eq]
      system := by rw [hs₁]
      prepared := hprepared
      x := by rw [hs₁]
      y := by rw [hs₁]
      lam := by rw [hs₁]
      id := by rw [hs₁, s.allocate_eq]
      history := by rw [hs₁, s.allocate_eq]
      locked := htried.locked
      orientation := htried.orientation }

/-- What refuses a problem before there is a system: the formulation, the blocks, or the bound on
shifts. -/
def Options.refusal? (o : Options K) (p : Problem K) (D : Data K) : Option (Fault K) :=
  match Newton.System.create (α := K) o.formulation D.n D.m with
  | .error e => some e
  | .ok _ => (o.blockFault? p).or o.boundFault?

/-- Whatever a solver has seen before, it takes on a problem, or is refused for the reasons that
there are. -/
theorem ends_arrange (env : Environment σ K) (h : r.solver.Ready) (hq : q.Makes p) :
    Ends (arrange env p)
      (fun _ r' => r'.backend = r.backend ∧
        r.solver.options.refusal? p (r.solver.options.data q) = none ∧
        ∃ f, Newton.System.create (α := K) r.solver.options.formulation
            (r.solver.options.data q).n (r.solver.options.data q).m =
              .ok (systemFor f (r.solver.options.data q)) ∧
          Arranged p (r.solver.options.data q) f r.solver r'.solver)
      (fun e r' => r'.backend = r.backend ∧
        r.solver.Tried (r.solver.options.data q).m r'.solver ∧
        (r.solver.Usable → (∀ a : K, ElementaryFunctions.truncate a ≠ none) →
          r.solver.options.refusal? p (r.solver.options.data q) = some e)) r := by
  have hfit := hq.fit
  set D := r.solver.options.data q with hD
  have hn : p.unknowns = D.n := hfit.unknowns
  have hactive : p.activeConstraints r.solver.options.skipTangential = (D.m : Int) :=
    hfit.activeConstraints
  unfold arrange
  rw [ends_bind, ends_change, ends_bind, ends_solver]
  dsimp only
  rw [ends_bind, ends_lift, hactive, hn]
  rcases hsys : Newton.System.create (α := K) r.solver.options.formulation D.n D.m with e | sys
  · refine ⟨rfl, ⟨{ h with }, .inl rfl, rfl, rfl⟩, fun _ _ => ?_⟩
    rw [Options.refusal?, hsys]
  obtain ⟨f, rfl⟩ := Newton.exists_systemFor_of_create hsys
  have hrefusal : r.solver.options.refusal? p D =
      (r.solver.options.blockFault? p).or r.solver.options.boundFault? := by
    rw [Options.refusal?, hsys]
  dsimp only
  rw [ends_bind, ends_change]
  unfold allocateFor
  rw [if_neg (by omega), ends_bind]
  dsimp only
  rw [ends_change, Int.toNat_natCast, ends_bind]
  have hready : (r.solver.dimensioned D f).Ready := h.dimensioned D f
  have hdimensioned : (r.solver.dimensioned D f).options = r.solver.options ∧
      (r.solver.dimensioned D f).n = D.n ∧ (r.solver.dimensioned D f).m = D.m ∧
      (r.solver.dimensioned D f).kkt = r.solver.kkt := by
    rw [r.solver.dimensioned_eq, r.solver.allocate_eq]
    exact ⟨rfl, rfl, rfl, rfl⟩
  obtain ⟨ho, hn₁, hm₁, hk₁⟩ := hdimensioned
  have hload := ends_loadProblem (r := { r with solver := r.solver.dimensioned D f }) hready hq
  dsimp only at hload
  rw [ho, ← hD] at hload
  refine (hload hn₁ hm₁).mono ?_ ?_
  rotate_left
  · rintro e r₂ ⟨hb₂, hfault, honly, hready₂⟩
    refine ⟨hb₂, Solver.tried_of_onlyProblem honly hready₂, fun _ _ => ?_⟩
    rw [hrefusal, hfault]
    rfl
  rintro _ r₂ ⟨hb₂, hblock, honly, hloaded⟩
  have htried := Solver.tried_of_onlyProblem honly hloaded.ready
  have ho₂ : r₂.solver.options = r.solver.options := by
    obtain ⟨G, A, E, c, b, usesE, diagE, hs₂, -⟩ := honly
    rw [hs₂]
    exact ho
  rw [ends_bind]
  refine (ends_assembleSystem env hloaded.ready.kkt hloaded.blocks).mono ?_ ?_
  · rintro _ r₃ ⟨hb₃, hkkt, hprepared, hbound⟩
    rw [ends_change]
    refine ⟨hb₃.trans hb₂, ?_, f, rfl, .of_loaded honly hloaded hkkt hprepared⟩
    rw [hrefusal, hblock, ← ho₂, hbound]
    rfl
  · rintro e r₃ ⟨hb₃, hkkt, hsound, hbound⟩
    refine ⟨hb₃.trans hb₂, htried.of_onlyKkt hkkt hsound, fun hs htruncate => ?_⟩
    rw [hrefusal, hblock, ← ho₂, hbound (htried.orientation.trans hs.byRows) htruncate]
    rfl

end CentralPath.InteriorPoint
