/-
  Two solvers with different formulations. With ideal backends, a direction is found in one
  formulation if and only if it is found in the other, and it is the same one; so the solvers agree in
  every iteration as long as no multiplier is zero (`Pairing.coupled_formulations`). Multipliers that
  start in the interior never are (`neverZero_of_interior`).
-/
import CentralPath.Proofs.Backend.Ideal
import CentralPath.Proofs.InteriorPoint.Handled
import CentralPath.Proofs.InteriorPoint.Outcomes
import CentralPath.Proofs.Newton.Elimination

open CentralPath.Vector (coord)

namespace CentralPath.InteriorPoint

open Backend (Environment Exact Ideal Job Session Work)
open Backend.Work (Abreast Ends abreast_change_bind ends_bind ends_lift ends_solver)
open Newton (AtIterate Formulation Linearised Solvable systemFor)
open Newton.System (Aim Direction)
open Problem (Data)
open Sparse (Matrix)

variable {σ σ' K : Type} [Field K] [LinearOrder K] [ElementaryFunctions K] {D : Data K}
  {f : Formulation} {o : Options K} {env : Environment σ K} {env' : Environment σ' K}
  {factored : σ → Option (Matrix K)} {factored' : σ' → Option (Matrix K)}
  {r : Session (Solver K) σ K} {aim : Aim K}

/-! ## One solver with an ideal backend -/

omit [LinearOrder K] [ElementaryFunctions K] in
theorem Assembled.coord_lam_ne_zero (h : Assembled D f o r.solver)
    (hne : ∀ a ∈ r.solver.lam, a ≠ 0) : ∀ k, k < D.m → coord r.solver.lam k ≠ 0 := by
  intro k hk
  rw [← show r.solver.lam.size = D.m from h.size_component .lam] at hk
  rw [Vector.coord_eq_getElem hk]
  exact hne _ (Array.getElem_mem hk)

omit [ElementaryFunctions K] in
theorem Assembled.nonsingular_iff (h : Assembled D f o r.solver)
    (hat : AtIterate f D r.solver.y r.solver.lam r.solver.kkt) (hne : ∀ a ∈ r.solver.lam, a ≠ 0) :
    r.solver.kkt.Nonsingular ↔ Solvable D r.solver.y r.solver.lam :=
  hat.nonsingular_iff (h.size_component .y) (h.size_component .lam) (h.coord_lam_ne_zero hne)

section

variable (h : Assembled D f o r.solver)
  (hat : AtIterate f D r.solver.y r.solver.lam r.solver.kkt) (hne : ∀ a ∈ r.solver.lam, a ≠ 0)
  (ha : aim.Fits D.m)
include h hat hne ha

/-- Where the backend returns the solution of the current matrix, the direction satisfies the
linearised conditions. `S` is what makes it return. -/
theorem Assembled.ends_directionFor {S : Prop} {job : Job}
    (hask : ∀ rhs : Array K, rhs.size = r.solver.kkt.rows → Ends (newtonSolve env rhs job)
      (fun v r' => S ∧ r'.solver = r.solver ∧ factored r'.backend = some r.solver.kkt ∧
        r.solver.kkt.Solves v rhs)
      (fun _ r' => ¬S ∧ r'.solver = r.solver) r) :
    Ends (directionFor env aim job)
      (fun d r' => S ∧ r'.solver = r.solver ∧ factored r'.backend = some r.solver.kkt ∧
        Linearised D r.solver.rp r.solver.rd r.solver.y r.solver.lam aim d)
      (fun _ r' => ¬S ∧ r'.solver = r.solver) r := by
  have hrp : r.solver.rp.size = D.m := h.size_component .rp
  have hrd : r.solver.rd.size = D.n := h.size_component .rd
  have hy : r.solver.y.size = D.m := h.size_component .y
  have hl : r.solver.lam.size = D.m := h.size_component .lam
  have hcoord := h.coord_lam_ne_zero hne
  obtain ⟨rhs, hrhs, hsize⟩ := Newton.exists_rightHandSide hrp hrd hy hl hcoord f ha
  unfold directionFor
  rw [ends_bind, ends_solver, ends_bind, ends_lift, h.system?_eq]
  dsimp only
  rw [ends_bind, ends_lift, hrhs]
  dsimp only
  refine (hask rhs (hsize.trans hat.rows_eq_dimension.1.symm)).bind ?_ fun _ _ hR => hR
  rintro v r₁ ⟨hS, hs₁, hfactored, hsolves⟩
  rw [ends_lift]
  obtain ⟨d, hd, hlinear⟩ := hat.exists_linearised hrp hrd hy hl hcoord h.compliance ha hrhs hsolves
  rw [hd]
  exact ⟨hS, hs₁, hfactored, hlinear⟩

/-- A complete call leads to a direction if and only if the conditions are solvable. -/
theorem Assembled.ends_directionFor_complete (hideal : Ideal env.backend factored) :
    Ends (directionFor env aim .complete)
      (fun d r' => Solvable D r.solver.y r.solver.lam ∧ r'.solver = r.solver ∧
        factored r'.backend = some r.solver.kkt ∧
        Linearised D r.solver.rp r.solver.rd r.solver.y r.solver.lam aim d)
      (fun _ r' => ¬Solvable D r.solver.y r.solver.lam ∧ r'.solver = r.solver) r := by
  refine h.ends_directionFor hat hne ha fun rhs hsize => ?_
  unfold newtonSolve
  rw [ends_bind, ends_solver, ← h.nonsingular_iff hat hne]
  exact hideal.ends_complete _ hsize _

/-- With the factors in hand, a direction is found where the conditions are solvable. -/
theorem Assembled.ends_directionFor_solve (hideal : Ideal env.backend factored)
    (hlast : factored r.backend = some r.solver.kkt)
    (hsolvable : Solvable D r.solver.y r.solver.lam) :
    Ends (directionFor env aim .solve)
      (fun d r' => r'.solver = r.solver ∧ factored r'.backend = some r.solver.kkt ∧
        Linearised D r.solver.rp r.solver.rd r.solver.y r.solver.lam aim d)
      (fun _ _ => False) r := by
  have hns := (h.nonsingular_iff hat hne).mpr hsolvable
  have hask : ∀ rhs : Array K, rhs.size = r.solver.kkt.rows → Ends (newtonSolve env rhs .solve)
      (fun v r' => True ∧ r'.solver = r.solver ∧ factored r'.backend = some r.solver.kkt ∧
        r.solver.kkt.Solves v rhs)
      (fun _ r' => ¬True ∧ r'.solver = r.solver) r := by
    intro rhs hsize
    unfold newtonSolve
    rw [ends_bind, ends_solver]
    exact (hideal.ends_solve _ hlast hns hsize _).mono (fun _ _ hQ => ⟨trivial, hQ⟩)
      fun _ _ hR => hR.elim
  exact (h.ends_directionFor hat hne ha hask).mono (fun _ _ hQ => hQ.2)
    fun _ _ hR => hR.1 trivial

end

/-! ## Two solvers -/

/-- What a session has in hand while the factors for the direction `d` are in use. -/
structure Held (D : Data K) (f : Formulation) (factored : σ → Option (Matrix K)) (d : Direction K)
    (y lam : Array K) (t : Tie σ K) : Prop where
  kkt : AtIterate f D y lam t.kkt
  factored : factored t.backend = some t.kkt
  solvable : Solvable D y lam
  nonzero : ∀ a ∈ lam, a ≠ 0
  sized : d.Sized D.n D.m

/-- Two solvers of which one has the standard formulation and the other one the augmented. They may
be refused for different reasons. -/
def Pairing.formulations (env : Environment σ K) (env' : Environment σ' K)
    (factored : σ → Option (Matrix K)) (factored' : σ' → Option (Matrix K)) (D : Data K)
    (o o' : Options K) : Pairing σ σ' K where
  env
  env'
  data := D
  f := .standard
  f' := .augmented
  o
  o'
  link _ _ := True
  held d y lam t t' := Held D .standard factored d y lam t ∧ Held D .augmented factored' d y lam t'
  good lam := ∀ a ∈ lam, a ≠ 0
  refused _ _ := True

/-- Affine directions that a corrector uses have the right lengths. -/
theorem fits_correctorAim {d : Direction K} {n m : Nat} (hd : d.Sized n m) (s : Solver K) (sigma : K) :
    (correctorAim s sigma d).Fits m := by
  unfold correctorAim
  split_ifs
  · refine ⟨?_, ?_⟩
    · rintro v ⟨⟩
      exact hd.dy
    · rintro v ⟨⟩
      exact hd.dlam
  · refine ⟨?_, ?_⟩
    · rintro v ⟨⟩
    · rintro v ⟨⟩

/-- With ideal backends both formulations lead to the same directions. -/
theorem Pairing.coupled_formulations (hideal : Ideal env.backend factored)
    (hideal' : Ideal env'.backend factored') (hdebug : env'.debug = env.debug) (D : Data K)
    (o o' : Options K) : (Pairing.formulations env env' factored factored' D o o').Coupled where
  debug := hdebug
  refused_refl _ := trivial
  good_ones v a ha := by
    obtain ⟨_, -, rfl⟩ := Array.mem_map.mp ha
    exact one_ne_zero
  link_of_held _ := trivial
  complete := by
    intro t t' k k' r r' h _ hgood
    have ha : (Aim.affine : Aim K).Fits D.m := Aim.fits_affine D.m
    refine h.abreast_updateIterateBlocks.bind ?_
    rintro _ s _ s' ⟨⟨hb, hs⟩, ⟨hb', hs'⟩, htwin, hat, hat'⟩
    have hy : r.solver.y = s.solver.y := by rw [hs]
    have hl : r.solver.lam = s.solver.lam := by rw [hs]
    rw [hy, hl] at hat hat' ⊢
    rw [hl] at hgood
    have hat'' : AtIterate .augmented D s'.solver.y s'.solver.lam s'.solver.kkt := by
      rw [htwin.y, htwin.lam]
      exact hat'
    have hgood' : ∀ a ∈ s'.solver.lam, a ≠ 0 := by
      rw [htwin.lam]
      exact hgood
    refine (htwin.left.ends_directionFor_complete hat hgood ha hideal).abreast
      (htwin.right.ends_directionFor_complete hat'' hgood' ha hideal') ?_ ?_ ?_ ?_
    · rintro d u d' u' ⟨hsolvable, hu, hfactored, hlinear⟩ ⟨-, hu', hfactored', hlinear'⟩
      rw [htwin.rp, htwin.rd, htwin.y, htwin.lam] at hlinear'
      obtain rfl : d' = d := (hsolvable _ _ _ (htwin.left.size_component .rp)
        (htwin.left.size_component .rd) ha).unique hlinear' hlinear
      refine ⟨rfl, by rw [hu], by rw [hu], tie u, tie u', htwin.of_backend hu hu', ?_, ?_⟩
      · rw [tie, hu]
        exact ⟨hat, hfactored, hsolvable, hgood, hlinear.sized⟩
      · rw [tie, hu']
        exact ⟨hat', hfactored', hsolvable, hgood, hlinear.sized⟩
    · rintro e u e' u' ⟨-, hu⟩ ⟨-, hu'⟩
      exact ⟨trivial, _, _, k, k', (htwin.of_backend hu hu').toAlongside, trivial⟩
    · rintro d u e' u' ⟨hsolvable, -⟩ ⟨hnot, -⟩
      rw [htwin.y, htwin.lam] at hnot
      exact hnot hsolvable
    · rintro e u d' u' ⟨hnot, -⟩ ⟨hsolvable, -⟩
      rw [htwin.y, htwin.lam] at hsolvable
      exact hnot hsolvable
  again := by
    rintro t t' k k' r r' affine h ⟨hheld, hheld'⟩ before sigma
    have ha := fits_correctorAim hheld.sized before sigma
    rw [← h.tie] at hheld
    rw [← h.tie', ← h.y, ← h.lam] at hheld'
    refine (h.left.ends_directionFor_solve hheld.kkt hheld.nonzero ha hideal hheld.factored
      hheld.solvable).abreast (h.right.ends_directionFor_solve hheld'.kkt hheld'.nonzero ha hideal'
        hheld'.factored hheld'.solvable) ?_ (fun _ _ _ _ hR => hR.elim)
      (fun _ _ _ _ _ hR => hR.elim) (fun _ _ _ _ hR => hR.elim)
    rintro d u d' u' ⟨hu, -, hlinear⟩ ⟨hu', -, hlinear'⟩
    rw [h.rp, h.rd, h.y, h.lam] at hlinear'
    exact ⟨(hheld.solvable _ _ _ (h.left.size_component .rp) (h.left.size_component .rd)
      ha).unique hlinear' hlinear, _, _, h.of_backend hu hu', trivial⟩

/-! ## Multipliers that are not zero -/

variable {start : Session (Solver K) σ K} {start' : Session (Solver K) σ' K} {p : Problem K}
  {q : Problem.Parts K}

/-- No multiplier that a solve uses is zero, neither in an iterate that it finds nor on its way. -/
structure NeverZero (env : Environment σ K) (p : Problem K) (start : Session (Solver K) σ K) :
    Prop where
  found : start.solver.hasIterate = true → ∀ a ∈ start.solver.lam, a ≠ 0
  visited : ∀ r, Visited env p start r → ∀ a ∈ r.solver.lam, a ≠ 0

section

variable [IsStrictOrderedRing K] (hexact : Exact env.backend factored)
  (hexp : ∀ t : K, 0 < t → ElementaryFunctions.exp (-t) ∈ Set.Ioo 0 1)
  (hready : start.solver.Ready) (hq : q.Makes p)
  (hm : 0 < p.activeConstraints start.solver.options.skipTangential)
  (hfound : start.solver.hasIterate = true → start.solver.Interior)
include hexact hexp hready hq hm hfound

/-- A solve that finds an iterate in the interior, or none, stays in the interior. -/
theorem Visited.interior (h : Visited env p start r) : r.solver.Interior := by
  have hactive : p.activeConstraints start.solver.options.skipTangential =
      ((start.solver.options.data q).m : Int) := hq.fit.activeConstraints
  have hpos : 0 < (start.solver.options.data q).m := by omega
  induction h with
  | prepared hrun =>
    have hends := ends_prepare hexact hready hq hpos
    rw [Ends, hrun] at hends
    obtain ⟨-, -, -, hI | ⟨-, hreuse, hy, hl⟩⟩ := hends
    · exact hI
    · have hx := congrArg Reuse.x hreuse
      simp only [reuseFor, Bool.and_eq_true] at hx
      exact ⟨hy ▸ (hfound hx.1.2).slack, hl ▸ (hfound hx.1.2).multipliers⟩
  | @iterated r₁ h₁ ih =>
    obtain ⟨f, hloaded, hconsistent⟩ := h₁.consistent_of_ready hexact hready hq hpos
    have hy := hloaded.ready.y.trans hloaded.m_eq
    have hl := hloaded.ready.lam.trans hloaded.m_eq
    have hends := ends_iterate hexact hpos hloaded hconsistent
    rw [Ends] at hends
    rcases hrun : (iterate env).run.run r₁ with ⟨_ | _, r₂⟩ <;> rw [hrun] at hends
    · obtain ⟨-, -, hy₂, hl₂⟩ := hends
      exact ⟨hy₂ ▸ ih.slack, hl₂ ▸ ih.multipliers⟩
    · obtain ⟨-, -, hsteps⟩ := hends
      refine hsteps.interior ih hexp ?_ (hloaded.m_eq.symm ▸ hpos) hy hl
      rw [hconsistent.mu]
      exact ih.dualityMeasure_pos hy hl hpos
  | booked _ hsolver _ ih => exact ih.of_booked hsolver

/-- Where a solve starts in the interior or afresh, no multiplier is ever zero. -/
theorem neverZero_of_interior : NeverZero env p start where
  found hiterate a ha := ((hfound hiterate).multipliers a ha).ne'
  visited _ hr a ha := ((hr.interior hexact hexp hready hq hm hfound).multipliers a ha).ne'

end

/-! ## Two solves -/

/-- Neither solver has an iterate to start from, or both have the same one. -/
structure Solver.SameStart (s s' : Solver K) : Prop where
  hasIterate : s'.hasIterate = s.hasIterate
  dimensions : s.hasIterate = true → s'.n = s.n ∧ s'.m = s.m
  iterate : s.hasIterate = true → s'.x = s.x ∧ s'.y = s.y ∧ s'.lam = s.lam

/-- The iterates, their residuals and the number of iterations are the same. -/
structure Solver.SameIterate (s s' : Solver K) : Prop where
  iterations : s'.iterations = s.iterations
  x : s'.x = s.x
  y : s'.y = s.y
  lam : s'.lam = s.lam
  rp : s'.rp = s.rp
  rd : s'.rd = s.rd
  mu : s'.mu = s.mu

/-- A solve up to its iteration number `k`, or up to the one before that converges. -/
def iterations (env : Environment σ K) (p : Problem K) (k : Nat) : Run σ K Unit := do
  prepare env p
  Work.change Solver.begun
  iterateWithin env k

section

variable (hideal : Ideal env.backend factored) (hideal' : Ideal env'.backend factored')
  (hdebug : env'.debug = env.debug) (hstart : Handled env start) (hstart' : Handled env' start')
  (hstandard : start.solver.options.formulation = .standard)
  (haugmented : start'.solver.options = { start.solver.options with formulation := .augmented })
  (hsame : start.solver.SameStart start'.solver) (hne : NeverZero env p start) (hq : q.Makes p)
  (hm : 0 < p.activeConstraints start.solver.options.skipTangential)
  (htruncate : ∀ a : K, ElementaryFunctions.truncate a ≠ none)
include hstart hstart' hstandard haugmented hsame hne hq hm htruncate

/-- Solvers with one iterate to start from face a problem in the same way. -/
theorem faces_formulations :
    (Pairing.formulations env env' factored factored' (start.solver.options.data q)
      start.solver.options start'.solver.options).Faces q p start start' := by
  have hactive : p.activeConstraints start.solver.options.skipTangential =
      ((start.solver.options.data q).m : Int) := hq.fit.activeConstraints
  have hreuse : ∀ (n : Nat) (m : Int), reuseFor start'.solver n m = reuseFor start.solver n m := by
    intro n m
    unfold reuseFor
    rw [haugmented, hsame.hasIterate]
    rcases hiterate : start.solver.hasIterate with _ | _
    · simp only [Bool.and_false, Bool.false_and]
    · rw [(hsame.dimensions hiterate).1, (hsame.dimensions hiterate).2]
  have hfound : ∀ {n : Nat} {m : Int}, (reuseFor start.solver n m).x = true ∨
      (reuseFor start.solver n m).lam = true → start.solver.hasIterate = true := by
    intro n m h
    simp only [reuseFor, Bool.and_eq_true] at h
    exact h.elim (fun h => h.1.2) fun h => h.1.2
  have hrefusal : start'.solver.options.refusal? p (start.solver.options.data q) =
      start.solver.options.refusal? p (start.solver.options.data q) := by
    rw [Options.refusal?, Options.refusal?, hstandard, haugmented]
    rfl
  have hstandard' : ∀ f, Newton.System.create (α := K) start.solver.options.formulation
      (start.solver.options.data q).n (start.solver.options.data q).m =
        .ok (systemFor f (start.solver.options.data q)) → f = .standard := by
    rw [hstandard]
    exact fun f hf => (congrArg Newton.System.formulation (Except.ok.inj hf)).symm
  have haugmented' : ∀ f, Newton.System.create (α := K) start'.solver.options.formulation
      (start.solver.options.data q).n (start.solver.options.data q).m =
        .ok (systemFor f (start.solver.options.data q)) → f = .augmented := by
    rw [haugmented]
    exact fun f hf => (congrArg Newton.System.formulation (Except.ok.inj hf)).symm
  exact
    { left := hstart.usable
      right := hstart'.usable
      options := rfl
      options' := rfl
      alike := ⟨_, _, _, _, _, _, haugmented⟩
      makes := hq
      data := rfl
      pos := Int.ofNat_lt.mp (hactive ▸ hm)
      formulation := hstandard'
      formulation' := haugmented'
      truncate := htruncate
      taken := ⟨hrefusal.trans, hrefusal.symm.trans⟩
      refused := fun _ _ _ _ => trivial
      link := fun _ _ _ _ => trivial
      reuse := hreuse _ _
      x := fun h => (hsame.iterate (hfound (.inl h))).1
      lam := fun h => ⟨(hsame.iterate (hfound (.inr h))).2.1, (hsame.iterate (hfound (.inr h))).2.2,
        hne.found (hfound (.inr h))⟩ }

include hideal hideal' hdebug

/-- Both solves go through the same iterates, or are both refused on the way. -/
theorem abreast_iterations (k : Nat) :
    Abreast (iterations env p k) (iterations env' p k)
      (fun _ s _ s' => s.solver.SameIterate s'.solver) (fun _ _ _ _ => True) start start' := by
  set P := Pairing.formulations env env' factored factored' (start.solver.options.data q)
    start.solver.options start'.solver.options with hPdef
  have hP : P.Coupled := Pairing.coupled_formulations hideal hideal' hdebug _ _ _
  have hfaces : P.Faces q p start start' :=
    faces_formulations hstart hstart' hstandard haugmented hsame hne hq hm htruncate
  unfold iterations
  refine (((hfaces.abreast_prepare hP).and_ends (Work.ends_run (prepare env p) start)).mono
    (fun _ _ _ _ hQ => hQ) (fun _ _ _ _ hR => trivial)).bind ?_
  rintro _ s _ s' ⟨⟨k₁, k₁', hagree, -⟩, hrun⟩
  rw [abreast_change_bind]
  obtain ⟨k₂, k₂', hbegun, hbooks⟩ := hagree.begun
  refine (hP.abreast_iterateWithin (I := Visited env p start) hne.visited ?_
    (fun _ _ hv => hv.booked) k hbegun hbooks
    (Visited.booked (.prepared hrun) ⟨_, _, _, _, rfl⟩ rfl)).mono ?_ fun _ _ _ _ _ => trivial
  · intro s₁ hs₁
    refine (Work.ends_run (iterate env) s₁).mono ?_ fun _ _ _ => trivial
    intro _ s₂ hrun
    have hs₂ := hs₁.iterated
    rwa [hrun] at hs₂
  · rintro _ s₁ _ s₁' ⟨-, k₃, k₃', ⟨t, t', h, -⟩, hbooks⟩
    have hcount := hbooks.1
    rw [← h.book, ← h.book'] at hcount
    exact ⟨hcount, h.x, h.y, h.lam, h.rp, h.rd, h.mu⟩

/-- Both solves hand out the same, or are both refused. -/
theorem solve_formulations :
    (solve env' p start').problem = (solve env p start).problem ∧
      ((∃ e e', (solve env p start).outcome = .error e ∧ (solve env' p start').outcome = .error e') ∨
        ∃ out history, (solve env p start).outcome = .ok out ∧
          (solve env' p start').outcome = .ok { out with history } ∧
          history.map Record.content = out.history.map Record.content) := by
  set P := Pairing.formulations env env' factored factored' (start.solver.options.data q)
    start.solver.options start'.solver.options with hPdef
  have hP : P.Coupled := Pairing.coupled_formulations hideal hideal' hdebug _ _ _
  have hfaces : P.Faces q p start start' :=
    faces_formulations hstart hstart' hstandard haugmented hsame hne hq hm htruncate
  have habreast : Abreast (solveProblem env p) (solveProblem env' p)
      (fun d _ d' _ => P.SameDelivery d d') (fun _ _ _ _ => True) start start' :=
    (hfaces.abreast_solveProblem hP hne.visited).mono (fun _ _ _ _ hQ => hQ.1)
      fun _ _ _ _ _ => trivial
  rcases solve_of_abreast habreast with
    ⟨d, d', hd, hd', ⟨hout, hrecords⟩, hproblem⟩ | ⟨e, e', he, he', -⟩
  · rw [hd, hd']
    refine ⟨hproblem, .inr ⟨d.outcome, d'.outcome.history, rfl, congrArg _ hout, hrecords ?_⟩⟩
    show start'.solver.options.recordHistory = start.solver.options.recordHistory
    rw [haugmented]
  · rw [he, he']
    exact ⟨rfl, .inl ⟨e, e', rfl, rfl⟩⟩

end

end CentralPath.InteriorPoint
