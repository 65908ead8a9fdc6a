/-
  Two solvers with the same problem. They may have different formulations, store their matrices in
  different ways, have different backends and different things behind them. Once their iterates and
  residuals agree (`Twin`), everything that an iteration reads of the one it reads of the other, and
  every step that does not ask the backend keeps them in agreement (`Twin.abreast_takeStep`,
  `Twin.abreast_measurePredictor`).
-/
import CentralPath.Proofs.Backend.Tandem
import CentralPath.Proofs.InteriorPoint.Solving

open CentralPath.Vector (coord)

namespace CentralPath.InteriorPoint

open Backend (Environment Session Work)
open Backend.Work (Abreast Ends abreast_change abreast_change_bind abreast_pure abreast_report
  abreast_solver_bind)
open Newton (Formulation systemFor)
open Newton.System (Direction)
open Problem (Data)
open Sparse (Matrix)

/-! ## Vectors that change -/

/-- The vectors that come with the problem. -/
def Component.given : List Component := [.c, .b, .diagE]

/-- The length of a vector. -/
def Component.dimension (n m : Nat) : Component → Nat
  | .x | .c | .rd | .dx => n
  | .y | .lam | .b | .rp | .dy | .dlam | .yPred | .lamPred | .diagE => m

section

variable {K : Type} [Field K] {D : Data K} {f : Formulation} {o : Options K} {s : Solver K}

theorem Assembled.size_component (h : Assembled D f o s) (part : Component) :
    (s.component part).size = part.dimension D.n D.m := by
  cases part with
  | x => exact h.ready.x.trans h.n_eq
  | c => exact h.ready.c.trans h.n_eq
  | rd => exact h.ready.rd.trans h.n_eq
  | dx => exact h.ready.dx.trans h.n_eq
  | y => exact h.ready.y.trans h.m_eq
  | lam => exact h.ready.lam.trans h.m_eq
  | b => exact h.ready.b.trans h.m_eq
  | rp => exact h.ready.rp.trans h.m_eq
  | dy => exact h.ready.dy.trans h.m_eq
  | dlam => exact h.ready.dlam.trans h.m_eq
  | yPred => exact h.ready.yPred.trans h.m_eq
  | lamPred => exact h.ready.lamPred.trans h.m_eq
  | diagE => exact h.diagonal.size

/-- A vector that does not come with the problem may change. -/
theorem Assembled.withComponent (h : Assembled D f o s) {part : Component}
    (hpart : part ∉ Component.given) {v : Array K} (hv : v.size = part.dimension D.n D.m) :
    Assembled D f o (s.withComponent part v) := by
  have hready : (s.withComponent part v).Ready := by
    cases part with
    | x => exact { h.ready with x := hv.trans h.n_eq.symm }
    | rd => exact { h.ready with rd := hv.trans h.n_eq.symm }
    | dx => exact { h.ready with dx := hv.trans h.n_eq.symm }
    | y => exact { h.ready with y := hv.trans h.m_eq.symm }
    | lam => exact { h.ready with lam := hv.trans h.m_eq.symm }
    | rp => exact { h.ready with rp := hv.trans h.m_eq.symm }
    | dy => exact { h.ready with dy := hv.trans h.m_eq.symm }
    | dlam => exact { h.ready with dlam := hv.trans h.m_eq.symm }
    | yPred => exact { h.ready with yPred := hv.trans h.m_eq.symm }
    | lamPred => exact { h.ready with lamPred := hv.trans h.m_eq.symm }
    | c | b | diagE => exact absurd (by decide) hpart
  cases part with
  | c | b | diagE => exact absurd (by decide) hpart
  | _ => exact { h with ready := hready, vectors := { h.vectors with } }

end

variable {σ σ' K : Type}

/-! ## Side by side -/

/-- Options that lead to the same iterations: the formulation, the storage of the Newton matrix and
the records of a solve may differ. -/
def Options.Alike (o o' : Options K) : Prop :=
  ∃ formulation maxShifts lockPattern learnPattern fullness recordHistory,
    o' = { o with formulation, maxShifts, lockPattern, learnPattern, fullness, recordHistory }

/-- What a solver brings to a call of its backend. -/
structure Tie (σ K : Type) where
  id : Nat
  kkt : Matrix K
  backend : σ

/-- The tie of a session. -/
def tie (r : Session (Solver K) σ K) : Tie σ K := ⟨r.solver.id, r.solver.kkt, r.backend⟩

/-- What a solver keeps about the iterations: how many there were, and the records. -/
def Solver.book (s : Solver K) : Nat × List (Record K) := (s.iterations, s.history)

/-- Two solvers for the same data. `link` is what their ties have in common between solutions, `held`
what they have in common while the factor for a direction is in use, `good` what is asked of
multipliers that a matrix is brought to, and `refused` relates faults that may stop both. -/
structure Pairing (σ σ' K : Type) where
  env : Environment σ K
  env' : Environment σ' K
  data : Data K
  f : Formulation
  f' : Formulation
  o : Options K
  o' : Options K
  link : Tie σ K → Tie σ' K → Prop
  held : Direction K → Array K → Array K → Tie σ K → Tie σ' K → Prop
  good : Array K → Prop
  refused : Fault K → Fault K → Prop

variable [Field K] {P : Pairing σ σ' K} {t : Tie σ K} {t' : Tie σ' K} {k k' : Nat × List (Record K)}
  {r s : Session (Solver K) σ K} {r' s' : Session (Solver K) σ' K}

namespace Pairing

/-- Both solvers have the problem loaded and a system assembled, with the ties and the books
given. -/
structure Alongside (P : Pairing σ σ' K) (t : Tie σ K) (t' : Tie σ' K)
    (k k' : Nat × List (Record K)) (r : Session (Solver K) σ K) (r' : Session (Solver K) σ' K) :
    Prop where
  left : Assembled P.data P.f P.o r.solver
  right : Assembled P.data P.f' P.o' r'.solver
  pos : 0 < P.data.m
  alike : P.o.Alike P.o'
  usesE : r'.solver.usesE = r.solver.usesE
  tie : tie r = t
  tie' : InteriorPoint.tie r' = t'
  book : r.solver.book = k
  book' : r'.solver.book = k'

/-- The iterates and the maintained residuals agree as well. -/
structure Twin (P : Pairing σ σ' K) (t : Tie σ K) (t' : Tie σ' K) (k k' : Nat × List (Record K))
    (r : Session (Solver K) σ K) (r' : Session (Solver K) σ' K) : Prop
    extends P.Alongside t t' k k' r r' where
  x : r'.solver.x = r.solver.x
  y : r'.solver.y = r.solver.y
  lam : r'.solver.lam = r.solver.lam
  rp : r'.solver.rp = r.solver.rp
  rd : r'.solver.rd = r.solver.rd
  mu : r'.solver.mu = r.solver.mu

/-! ## What is read -/

section

variable (h : P.Alongside t t' k k' r r')
include h

theorem Alongside.options : r.solver.options.Alike r'.solver.options := by
  rw [h.left.options, h.right.options]
  exact h.alike

theorem Alongside.n : r'.solver.n = r.solver.n := h.right.n_eq.trans h.left.n_eq.symm

theorem Alongside.m : r'.solver.m = r.solver.m := h.right.m_eq.trans h.left.m_eq.symm

theorem Alongside.size_x : r.solver.x.size = P.data.n := h.left.size_component .x

theorem Alongside.size_y : r.solver.y.size = P.data.m := h.left.size_component .y

theorem Alongside.size_lam : r.solver.lam.size = P.data.m := h.left.size_component .lam

theorem Alongside.size_component (part : Component) :
    (r'.solver.component part).size = (r.solver.component part).size :=
  (h.right.size_component part).trans (h.left.size_component part).symm

theorem Alongside.b : r'.solver.b = r.solver.b := by
  refine Vector.ext_coord (h.size_component .b) fun i hi => ?_
  have hi : i < P.data.m := by
    rw [← h.right.m_eq, ← h.right.ready.b]
    exact hi
  rw [h.right.vectors.bound i hi, h.left.vectors.bound i hi]

theorem Alongside.c : r'.solver.c = r.solver.c := by
  refine Vector.ext_coord (h.size_component .c) fun i hi => ?_
  have hi : i < P.data.n := by
    rw [← h.right.n_eq, ← h.right.ready.c]
    exact hi
  rw [h.right.vectors.linear i hi, h.left.vectors.linear i hi]

theorem Alongside.diagE : r'.solver.diagE = r.solver.diagE := by
  refine Vector.ext_coord (h.size_component .diagE) fun i hi => ?_
  have hi : i < P.data.m := by
    rw [← h.right.diagonal.size]
    exact hi
  rw [h.right.diagonal.coord_eq i hi, h.left.diagonal.coord_eq i hi]

variable [LinearOrder K]

theorem Alongside.mulA [ElementaryFunctions K] (v : Array K) :
    r'.solver.mulA v = r.solver.mulA v := by
  unfold Solver.mulA
  rw [h.left.system?_eq, h.right.system?_eq]
  exact h.left.kkt.mulA_congr h.right.kkt v

theorem Alongside.mulG [ElementaryFunctions K] (v : Array K) :
    r'.solver.mulG v = r.solver.mulG v := by
  unfold Solver.mulG
  rw [h.left.system?_eq, h.right.system?_eq]
  exact h.left.kkt.mulG_congr h.right.kkt v

theorem Alongside.mulVec_compliance (huse : r.solver.usesE = true) (v : Array K) :
    r'.solver.E.mulVec v false = r.solver.E.mulVec v false := by
  have hleft := h.left.compliance
  have hright := h.right.compliance
  rw [Solver.compliance?, if_pos huse] at hleft
  rw [Solver.compliance?, if_pos (h.usesE.trans huse)] at hright
  exact (hleft.carries _ rfl).mulVec_congr (hright.carries _ rfl) v

theorem Alongside.mulVec_hessian (v : Array K) :
    r'.solver.G.mulVec v false = r.solver.G.mulVec v false :=
  h.left.hessian.mulVec_congr h.right.hessian v

end

/-! ## Single steps -/

variable {R : Fault K → Session (Solver K) σ K → Fault K → Session (Solver K) σ' K → Prop}

/-- Events do not matter. -/
theorem Twin.of_events (h : P.Twin t t' k k' r r') (es es' : List (Journal.Event K)) :
    P.Twin t t' k k' { r with events := es } { r' with events := es' } :=
  { h with }

/-- Both solvers take on a point. -/
theorem Alongside.of_point (h : P.Alongside t t' k k' r r') {x y lam x' y' lam' : Array K}
    (hx : x.size = P.data.n) (hy : y.size = P.data.m) (hl : lam.size = P.data.m) (hxx : x' = x)
    (hyy : y' = y) (hll : lam' = lam) :
    P.Alongside t t' k k' { r with solver := { r.solver with x, y, lam } }
      { r' with solver := { r'.solver with x := x', y := y', lam := lam' } } := by
  subst hxx hyy hll
  exact { h with left := h.left.of_point hx hy hl, right := h.right.of_point hx hy hl }

/-- The Newton matrices and the backends of both solvers may change. -/
theorem Twin.of_kkt (h : P.Twin t t' k k' r r') {kkt kkt' : Matrix K}
    (hkkt : Newton.Prepared P.f P.data kkt) (hrows : kkt.orientation = .byRows)
    (hkkt' : Newton.Prepared P.f' P.data kkt') (hrows' : kkt'.orientation = .byRows)
    (hs : s.solver = { r.solver with kkt }) (hs' : s'.solver = { r'.solver with kkt := kkt' }) :
    P.Twin (tie s) (tie s') k k' s s' := by
  have hleft := h.left.of_kkt hkkt hrows
  have hright := h.right.of_kkt hkkt' hrows'
  rw [← hs] at hleft
  rw [← hs'] at hright
  constructor
  · refine ⟨hleft, hright, h.pos, h.alike, ?_, rfl, rfl, ?_, ?_⟩
    · rw [hs, hs']
      exact h.usesE
    · rw [hs]
      exact h.book
    · rw [hs']
      exact h.book'
  all_goals rw [hs, hs']
  · exact h.x
  · exact h.y
  · exact h.lam
  · exact h.rp
  · exact h.rd
  · exact h.mu

theorem Twin.of_backend (h : P.Twin t t' k k' r r') (hs : s.solver = r.solver)
    (hs' : s'.solver = r'.solver) : P.Twin (tie s) (tie s') k k' s s' :=
  h.of_kkt h.left.prepared h.left.byRows h.right.prepared h.right.byRows hs hs'

/-- A vector of both solvers is replaced by the same one. -/
theorem Twin.abreast_assign (h : P.Twin t t' k k' r r') {part : Component}
    (hpart : part ∉ Component.given) {g g' : Solver K → Except (Fault K) (Array K)}
    (hg : g' r'.solver = g r.solver)
    (hsize : ∀ v, g r.solver = .ok v → v.size = (r.solver.component part).size)
    (hR : ∀ e, R e r e r') :
    Abreast (Solver.assign part g) (Solver.assign part g')
      (fun _ s _ s' => P.Twin t t' k k' s s' ∧ ∃ v, s.solver = r.solver.withComponent part v ∧
        s'.solver = r'.solver.withComponent part v) R r r' := by
  unfold Solver.assign
  rw [abreast_solver_bind]
  refine Abreast.lift_bind hg (fun v hv => ?_) fun e _ => hR e
  rw [abreast_change]
  have hvsize := (hsize v hv).trans (h.left.size_component part)
  have hleft := h.left.withComponent hpart hvsize
  have hright := h.right.withComponent hpart hvsize
  refine ⟨?_, v, rfl, rfl⟩
  cases part with
  | c | b | diagE => exact absurd (by decide) hpart
  | x => exact { h with left := hleft, right := hright, x := rfl }
  | y => exact { h with left := hleft, right := hright, y := rfl }
  | lam => exact { h with left := hleft, right := hright, lam := rfl }
  | rp => exact { h with left := hleft, right := hright, rp := rfl }
  | rd => exact { h with left := hleft, right := hright, rd := rfl }
  | dx | dy | dlam | yPred | lamPred => exact { h with left := hleft, right := hright }

variable [LinearOrder K] [ElementaryFunctions K]

section

variable (h : P.Twin t t' k k' r r')
include h

theorem Twin.stepLengths (d : Direction K) (eta : K) :
    r'.solver.stepLengths d eta = r.solver.stepLengths d eta := by
  obtain ⟨_, _, _, _, _, _, ho⟩ := h.options
  unfold Solver.stepLengths
  rw [ho, h.y, h.lam]

theorem Twin.stepFraction : InteriorPoint.stepFraction r'.solver =
    InteriorPoint.stepFraction r.solver := by
  obtain ⟨_, _, _, _, _, _, ho⟩ := h.options
  unfold InteriorPoint.stepFraction
  rw [ho, h.mu, h.m]

theorem Twin.correctorAim (sigma : K) (d : Direction K) :
    InteriorPoint.correctorAim r'.solver sigma d = InteriorPoint.correctorAim r.solver sigma d := by
  obtain ⟨_, _, _, _, _, _, ho⟩ := h.options
  unfold InteriorPoint.correctorAim
  rw [ho, h.mu]

theorem Twin.dualityMeasure : r'.solver.dualityMeasure = r.solver.dualityMeasure := by
  unfold Solver.dualityMeasure
  rw [h.y, h.lam, h.m]

theorem Twin.measures : r'.solver.measures = r.solver.measures := by
  unfold Solver.measures
  rw [h.rp, h.rd, h.mu, h.m, h.n]

theorem Twin.merit : r'.solver.merit = r.solver.merit := by
  unfold Solver.merit
  rw [h.measures, h.m, h.n]

theorem Twin.isConverged : r'.solver.isConverged = r.solver.isConverged := by
  obtain ⟨_, _, _, _, _, _, ho⟩ := h.options
  unfold Solver.isConverged
  rw [h.measures, ho]

theorem Twin.onesFactor? : InteriorPoint.onesFactor? r'.solver =
    InteriorPoint.onesFactor? r.solver := by
  unfold InteriorPoint.onesFactor?
  rw [h.y, h.lam, h.rp, h.rd]

theorem Twin.objective : r'.solver.objective = r.solver.objective := by
  unfold Solver.objective
  rw [h.x, h.c, h.mulVec_hessian]

end

/-- Residuals that are computed at the same point agree. -/
theorem Alongside.abreast_refreshResiduals (h : P.Alongside t t' k k' r r')
    (hx : r'.solver.x = r.solver.x) (hy : r'.solver.y = r.solver.y)
    (hl : r'.solver.lam = r.solver.lam) :
    Abreast refreshResiduals refreshResiduals
      (fun _ s _ s' => P.Twin t t' k k' s s' ∧ s.solver.x = r.solver.x ∧
        s.solver.y = r.solver.y ∧ s.solver.lam = r.solver.lam) R r r' := by
  have hsize := h.left.size_component
  have hsize' := h.right.size_component
  have hleft := h.left.of_iterate (P.data.dualityMeasure r.solver.y r.solver.lam) (hsize .x)
    (hsize .y) (hsize .lam) (P.data.size_primalResidual r.solver.x r.solver.y r.solver.lam)
    (P.data.size_dualResidual r.solver.x r.solver.lam)
  have hright := h.right.of_iterate (P.data.dualityMeasure r'.solver.y r'.solver.lam) (hsize' .x)
    (hsize' .y) (hsize' .lam) (P.data.size_primalResidual r'.solver.x r'.solver.y r'.solver.lam)
    (P.data.size_dualResidual r'.solver.x r'.solver.lam)
  unfold refreshResiduals
  rw [abreast_solver_bind, h.left.updateResiduals_eq, h.right.updateResiduals_eq]
  refine ⟨{ h with
    left := hleft
    right := hright
    x := hx
    y := hy
    lam := hl
    rp := ?_
    rd := ?_
    mu := ?_ }, rfl, rfl, rfl⟩
  · dsimp only [Solver.measured]
    rw [hx, hy, hl]
  · dsimp only [Solver.measured]
    rw [hx, hl]
  · dsimp only [Solver.measured]
    rw [hy, hl]

end Pairing

/-! ## Lengths that are kept -/

section

variable [LinearOrder K] [ElementaryFunctions K] {v a d : Array K} {alpha : K}

theorem size_of_moved {w : Array K} (h : moved v alpha d = .ok w) : w.size = v.size :=
  Vector.size_of_addTo? h

theorem size_of_moved_bind {w : Array K} {image : Except (Fault K) (Array K)}
    (h : (do moved v alpha (← image)) = .ok w) : w.size = v.size := by
  obtain ⟨u, -, h⟩ := Newton.exists_of_bind_eq_ok h
  exact size_of_moved h

theorem size_of_predicted {w kept : Array K} (h : predicted kept v alpha d = .ok w) :
    w.size = kept.size := by
  obtain ⟨u, -, h⟩ := Newton.exists_of_bind_eq_ok h
  exact Vector.size_of_fill? h

/-- Of the vector that is written over, only the length counts. -/
theorem predicted_congr {kept kept' : Array K} (h : kept'.size = kept.size) :
    predicted kept' v alpha d = predicted kept v alpha d := by
  unfold predicted
  rw [h]

theorem size_of_pushed {w : Array K} (h : pushed a d = .ok w) : w.size = a.size := by
  obtain ⟨u, -, h⟩ := Newton.exists_of_bind_eq_ok h
  exact Vector.size_of_fill? h

end

namespace Pairing

variable [LinearOrder K] [ElementaryFunctions K]
  {R : Fault K → Session (Solver K) σ K → Fault K → Session (Solver K) σ' K → Prop}

section

variable (h : P.Twin t t' k k' r r') (d : Direction K) (alphaP alphaD : K)
  (hR : ∀ e s s', P.Twin t t' k k' s s' → R e s e s')
include h hR

/-! ## Taking a step -/

theorem Twin.abreast_advance :
    Abreast (advance d alphaP alphaD) (advance d alphaP alphaD)
      (fun _ s _ s' => P.Twin t t' k k' s s') R r r' := by
  unfold advance
  refine (h.abreast_assign (by decide) (by rw [h.x]) (fun _ hv => size_of_moved hv)
    fun e => hR e _ _ h).bind ?_
  rintro _ r₁ _ r₁' ⟨h₁, -⟩
  refine (h₁.abreast_assign (by decide) (by rw [h₁.y]) (fun _ hv => size_of_moved hv)
    fun e => hR e _ _ h₁).bind ?_
  rintro _ r₂ _ r₂' ⟨h₂, -⟩
  refine (h₂.abreast_assign (by decide) (by rw [h₂.lam]) (fun _ hv => size_of_moved hv)
    fun e => hR e _ _ h₂).bind ?_
  rintro _ r₃ _ r₃' ⟨h₃, -⟩
  refine (h₃.abreast_assign (by decide) (congrArg (Vector.fill? · d.dx) (h₃.size_component .dx))
    (fun _ hv => Vector.size_of_fill? hv) fun e => hR e _ _ h₃).bind ?_
  rintro _ r₄ _ r₄' ⟨h₄, -⟩
  refine (h₄.abreast_assign (by decide) (congrArg (Vector.fill? · d.dy) (h₄.size_component .dy))
    (fun _ hv => Vector.size_of_fill? hv) fun e => hR e _ _ h₄).bind ?_
  rintro _ r₅ _ r₅' ⟨h₅, -⟩
  exact (h₅.abreast_assign (by decide)
    (congrArg (Vector.fill? · d.dlam) (h₅.size_component .dlam))
    (fun _ hv => Vector.size_of_fill? hv) fun e => hR e _ _ h₅).mono
    (fun _ _ _ _ h' => h'.1) fun _ _ _ _ h' => h'

theorem Twin.abreast_shrinkPrimal :
    Abreast (shrinkPrimal d alphaP alphaD) (shrinkPrimal d alphaP alphaD)
      (fun _ s _ s' => P.Twin t t' k k' s s') R r r' := by
  unfold shrinkPrimal
  refine (h.abreast_assign (by decide) (by rw [h.rp]) (fun v hv => ?_) fun e => hR e _ _ h).bind ?_
  · obtain rfl := Except.ok.inj hv
    exact Vector.size_scale _ _
  rintro _ r₁ _ r₁' ⟨h₁, -⟩
  rw [abreast_solver_bind, h₁.usesE]
  split_ifs with hcase
  · have huse := (Bool.and_eq_true_iff.mp hcase).1
    refine (h₁.abreast_assign (by decide) ?_ (fun _ hv => size_of_moved_bind hv)
      fun e => hR e _ _ h₁).mono (fun _ _ _ _ h' => h'.1) fun _ _ _ _ h' => h'
    rw [h₁.mulVec_compliance huse, h₁.rp]
  · exact h₁

theorem Twin.abreast_shrinkDual :
    Abreast (shrinkDual d alphaP alphaD) (shrinkDual d alphaP alphaD)
      (fun _ s _ s' => P.Twin t t' k k' s s') R r r' := by
  unfold shrinkDual
  refine (h.abreast_assign (by decide) (by rw [h.rd]) (fun v hv => ?_) fun e => hR e _ _ h).bind ?_
  · obtain rfl := Except.ok.inj hv
    exact Vector.size_scale _ _
  rintro _ r₁ _ r₁' ⟨h₁, -⟩
  split_ifs
  · refine (h₁.abreast_assign (by decide) ?_ (fun _ hv => size_of_moved_bind hv)
      fun e => hR e _ _ h₁).mono (fun _ _ _ _ h' => h'.1) fun _ _ _ _ h' => h'
    rw [h₁.mulG, h₁.rd]
  · exact h₁

theorem Twin.abreast_takeStep :
    Abreast (takeStep d alphaP alphaD) (takeStep d alphaP alphaD)
      (fun _ s _ s' => P.Twin t t' k k' s s') R r r' := by
  unfold takeStep
  refine (h.abreast_advance d alphaP alphaD hR).bind ?_
  intro _ r₁ _ r₁' h₁
  refine (h₁.abreast_shrinkPrimal d alphaP alphaD hR).bind ?_
  intro _ r₂ _ r₂' h₂
  refine (h₂.abreast_shrinkDual d alphaP alphaD hR).bind ?_
  intro _ r₃ _ r₃' h₃
  have hpos := h₃.pos
  have hm : r₃.solver.m ≠ 0 := by
    rw [h₃.left.m_eq]
    omega
  rw [abreast_solver_bind, h₃.m, if_neg hm, if_neg hm, abreast_change]
  have hsize := h₃.left.size_component
  have hsize' := h₃.right.size_component
  exact { h₃ with
    left := h₃.left.of_iterate _ (hsize .x) (hsize .y) (hsize .lam) (hsize .rp) (hsize .rd)
    right := h₃.right.of_iterate _ (hsize' .x) (hsize' .y) (hsize' .lam) (hsize' .rp) (hsize' .rd)
    mu := h₃.dualityMeasure }

/-! ## Measuring the predictor -/

theorem Twin.abreast_measurePredictor :
    Abreast (measurePredictor d) (measurePredictor d)
      (fun a s a' s' => a' = a ∧ P.Twin t t' k k' s s' ∧ s.solver.y = r.solver.y ∧
        s.solver.lam = r.solver.lam) R r r' := by
  unfold measurePredictor
  rw [abreast_solver_bind]
  refine Abreast.lift_bind (h.stepLengths d 1) ?_ fun e _ => hR e _ _ h
  rintro ⟨alphaP, alphaD⟩ -
  dsimp only
  refine (h.abreast_assign (by decide) ?_ (fun _ hv => size_of_predicted hv)
    fun e => hR e _ _ h).bind ?_
  · rw [h.y]
    exact predicted_congr (h.size_component .yPred)
  rintro _ r₁ _ r₁' ⟨h₁, y, hs₁, hs₁'⟩
  refine (h₁.abreast_assign (by decide) ?_ (fun _ hv => size_of_predicted hv)
    fun e => hR e _ _ h₁).bind ?_
  · rw [h₁.lam]
    exact predicted_congr (h₁.size_component .lamPred)
  rintro _ r₂ _ r₂' ⟨h₂, lam, hs₂, hs₂'⟩
  have hpos := h₂.pos
  have hm : r₂.solver.m ≠ 0 := by
    rw [h₂.left.m_eq]
    omega
  rw [abreast_solver_bind, h₂.m, if_neg hm, if_neg hm]
  refine Abreast.lift ?_ (fun a _ => ⟨rfl, h₂, ?_, ?_⟩) fun e _ => hR e _ _ h₂
  · unfold centring
    rw [h₂.mu, hs₂, hs₂', hs₁, hs₁']
    rfl
  · rw [hs₂, hs₁]
    rfl
  · rw [hs₂, hs₁]
    rfl

end

end Pairing

end CentralPath.InteriorPoint
