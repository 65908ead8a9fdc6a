/-
  The first iterate in exact arithmetic. Every strategy ends with residuals that are those of the
  data. It ends in the interior as well, unless it is the one that may return to the iterate it was
  given and does so (`ends_startWith`). Two of the strategies ask the backend for one direction; what
  is known of that direction is a parameter (`ends_startWith_of_directions`).
-/
import CentralPath.Proofs.InteriorPoint.Interior

namespace CentralPath.InteriorPoint

section

open Backend (Environment Work)

variable {σ α : Type} [Elementary α]

/-- The slacks of the current point, at least one, and their reciprocals. -/
def reciprocalFromPoint : Run σ α Unit := do
  let s ← Work.solver
  let slack := Vector.sub (← Work.lift (s.mulA s.x)) s.b
  let y := slack.map (Scalar.atLeast 1)
  Work.change fun s => { s with y, lam := y.map (1 / ·) }
  refreshResiduals

/-- One affine step from the slacks of the current point. -/
def affineStepFromPoint (env : Environment σ α) : Run σ α Unit := do
  let s ← Work.solver
  let y := Vector.sub (← Work.lift (s.mulA s.x)) s.b
  Work.change fun s => { s with y }
  refreshResiduals
  let d ← directions env .affine true
  Solver.assign .y fun s => pushed s.y d.dy
  Solver.assign .lam fun s => pushed s.lam d.dlam
  refreshResiduals

/-- Whether a strategy asks the backend for a direction. -/
def StartChoice.asks : StartChoice → Bool
  | .strategy .affineStep | .strategy .affineStepOrPrevious => true
  | _ => false

end

open Backend (Environment Exact Session Work)
open Backend.Work (Ends ends_bind ends_change ends_lift ends_report ends_solver ends_throw)
open Newton (Formulation IsNewton)
open Problem (Data)
open Sparse (Matrix)

variable {σ K : Type} [Field K] [LinearOrder K]
  {r : Session (Solver K) σ K} {f : Formulation} {D : Data K} {o : Options K} {s : Solver K}

/-! ## What the strategies write -/

theorem one_le_atLeast (a : K) : 1 ≤ Scalar.atLeast 1 a := by
  unfold Scalar.atLeast
  split_ifs with h
  · exact le_refl 1
  · exact (not_le.mp h).le

variable [IsStrictOrderedRing K]

theorem pos_constant_one (v : Array K) : ∀ a ∈ Vector.constant 1 v, 0 < a := by
  intro a ha
  obtain ⟨_, -, rfl⟩ := Array.mem_map.mp ha
  exact one_pos

theorem pos_map_mul {v : Array K} (hv : ∀ a ∈ v, 0 < a) {k : K} (hk : 0 < k) :
    ∀ a ∈ v.map (· * k), 0 < a := by
  intro a ha
  obtain ⟨b, hb, rfl⟩ := Array.mem_map.mp ha
  exact mul_pos (hv b hb) hk

variable [ElementaryFunctions K]

/-- A pushed vector has its length, and components of at least one. -/
theorem pushed_eq {v u : Array K} (hu : u.size = v.size) :
    ∃ w, pushed v u = .ok w ∧ w.size = v.size ∧ ∀ a ∈ w, 0 < a := by
  have hsize : ((v.zipWith (· + ·) u).map fun a => Scalar.atLeast 1 (Scalar.abs a)).size =
      v.size := by
    rw [Array.size_map, Array.size_zipWith, hu, Nat.min_self]
  refine ⟨(v.zipWith (· + ·) u).map fun a => Scalar.atLeast 1 (Scalar.abs a), ?_, hsize, ?_⟩
  · unfold pushed
    rw [Vector.zip?_of_size_eq hu.symm]
    exact Vector.fill?_of_size_eq hsize
  · intro a ha
    obtain ⟨b, -, rfl⟩ := Array.mem_map.mp ha
    exact one_pos.trans_le (one_le_atLeast _)

/-- The factor for ones is positive. -/
theorem onesFactor?_pos (hgap : 0 < Vector.dot s.y s.lam) {k : K} (hk : onesFactor? s = some k) :
    0 < k := by
  have htenth : (0 : K) < Scalar.ratio 1 10 := by
    show (0 : K) < ((1 : ℕ) : K) / ((10 : ℕ) : K)
    push_cast
    norm_num
  unfold onesFactor? at hk
  dsimp only at hk
  split_ifs at hk with hlarge
  obtain rfl := Option.some.inj hk
  have hresidual := (div_pos_iff_of_pos_right hgap).mp (htenth.trans hlarge)
  exact div_pos hresidual (mul_pos hgap htenth)

/-! ## What changes -/

omit [Field K] [LinearOrder K] [IsStrictOrderedRing K] [ElementaryFunctions K] in
/-- The iterate and what is measured at it may have changed, nothing else. -/
def Solver.Moved (s s' : Solver K) : Prop :=
  ∃ x y lam rp rd mu, s' = { s with x, y, lam, rp, rd, mu }

omit [Field K] [LinearOrder K] [IsStrictOrderedRing K] [ElementaryFunctions K] in
theorem Solver.Moved.trans {s s' s'' : Solver K} (h : s.Moved s') (h' : s'.Moved s'') :
    s.Moved s'' := by
  obtain ⟨_, _, _, _, _, _, rfl⟩ := h
  obtain ⟨_, _, _, _, _, _, rfl⟩ := h'
  exact ⟨_, _, _, _, _, _, rfl⟩

omit [IsStrictOrderedRing K] in
/-- What an affine step starts from: the unknowns and the multipliers as far as they are used again,
ones in their places otherwise, and the slacks of the unknowns. -/
structure Solver.AtSlacks (reuse : Reuse) (s s' : Solver K) : Prop where
  moved : s.Moved s'
  x : s'.x = (s.withOnesUnless reuse).x
  lam : s'.lam = (s.withOnesUnless reuse).lam
  slack : ∃ u, s.mulA s'.x = .ok u ∧ s'.y = Vector.sub u s.b

namespace Loaded

variable {R : Fault K → Session (Solver K) σ K → Prop}

/-! ## The strategies -/

/-- All three parts of the iterate are constant, with ones or with the factor for ones. -/
theorem ends_startScaledOnes (h : Loaded D f o r.solver) (hm : 0 < D.m) :
    Ends startScaledOnes
      (fun _ r' => (r'.backend = r.backend ∧ r.solver.Moved r'.solver) ∧ Loaded D f o r'.solver ∧
        Consistent D r'.solver ∧ r'.solver.Interior ∧
        ∃ k, (k = 1 ∨ onesFactor? (r.solver.withOnes.measured D) = some k) ∧
          r'.solver.x = Vector.constant k r.solver.x ∧ r'.solver.y = Vector.constant k r.solver.y ∧
          r'.solver.lam = Vector.constant k r.solver.lam) R r := by
  have hx := h.ready.x.trans h.n_eq
  have hy := h.ready.y.trans h.m_eq
  have hl := h.ready.lam.trans h.m_eq
  have h₁ : Loaded D f o r.solver.withOnes :=
    h.of_point ((Vector.size_constant 1 _).trans hx) ((Vector.size_constant 1 _).trans hy)
      ((Vector.size_constant 1 _).trans hl)
  have hinterior : (r.solver.withOnes.measured D).Interior :=
    ⟨pos_constant_one r.solver.y, pos_constant_one r.solver.lam⟩
  unfold startScaledOnes
  rw [ends_bind, ends_change, ends_bind, ends_refreshResiduals_iff h₁, ends_bind, ends_solver]
  dsimp only
  rcases hfactor : onesFactor? (r.solver.withOnes.measured D) with _ | k
  · exact ⟨⟨rfl, _, _, _, _, _, _, rfl⟩, h₁.measured, consistent_measured D _, hinterior, 1, .inl rfl,
      rfl, rfl, rfl⟩
  have hk := onesFactor?_pos (hinterior.dot_pos (h₁.measured.ready.y.trans h₁.m_eq)
    (h₁.measured.ready.lam.trans h₁.m_eq) hm) hfactor
  have hconstant : ∀ v : Array K, (Vector.constant 1 v).map (· * k) = Vector.constant k v := by
    intro v
    simp [Vector.constant]
  have h₂ : Loaded D f o ((r.solver.withOnes.measured D).scaled k) :=
    h₁.measured.of_point (Array.size_map.trans ((Vector.size_constant 1 _).trans hx))
      (Array.size_map.trans ((Vector.size_constant 1 _).trans hy))
      (Array.size_map.trans ((Vector.size_constant 1 _).trans hl))
  dsimp only
  rw [ends_bind, ends_change, ends_refreshResiduals_iff h₂]
  exact ⟨⟨rfl, _, _, _, _, _, _, rfl⟩, h₂.measured, consistent_measured D _,
    ⟨pos_map_mul hinterior.slack hk, pos_map_mul hinterior.multipliers hk⟩, k, .inr rfl,
    hconstant _, hconstant _, hconstant _⟩

theorem ends_reciprocalFromPoint (h : Loaded D f o r.solver) :
    Ends reciprocalFromPoint
      (fun _ r' => (r'.backend = r.backend ∧ r.solver.Moved r'.solver) ∧ Loaded D f o r'.solver ∧
        Consistent D r'.solver ∧ r'.solver.Interior ∧ r'.solver.x = r.solver.x) R r := by
  obtain ⟨u, hu, husize, -⟩ := h.mulA_eq (h.ready.x.trans h.n_eq)
  have hysize : ((Vector.sub u r.solver.b).map (Scalar.atLeast 1)).size = D.m := by
    rw [Array.size_map, Vector.size_sub, husize, h.ready.b, h.m_eq, Nat.min_self]
  have hpos : ∀ a ∈ (Vector.sub u r.solver.b).map (Scalar.atLeast 1), 0 < a := by
    intro a ha
    obtain ⟨b, -, rfl⟩ := Array.mem_map.mp ha
    exact one_pos.trans_le (one_le_atLeast b)
  have hlpos : ∀ a ∈ ((Vector.sub u r.solver.b).map (Scalar.atLeast 1)).map (1 / ·), 0 < a := by
    intro a ha
    obtain ⟨b, hb, rfl⟩ := Array.mem_map.mp ha
    exact one_div_pos.mpr (hpos b hb)
  have h₁ := h.of_point (h.ready.x.trans h.n_eq) hysize
    (Array.size_map.trans hysize : (((Vector.sub u r.solver.b).map (Scalar.atLeast 1)).map
      (1 / ·)).size = D.m)
  unfold reciprocalFromPoint
  rw [ends_bind, ends_solver, ends_bind, ends_lift, hu]
  dsimp only
  rw [ends_bind, ends_change, ends_refreshResiduals_iff h₁]
  exact ⟨⟨rfl, _, _, _, _, _, _, rfl⟩, h₁.measured, consistent_measured D _, ⟨hpos, hlpos⟩, rfl⟩

theorem ends_startReciprocal (h : Loaded D f o r.solver) (reuse : Reuse) :
    Ends (startReciprocal reuse)
      (fun _ r' => (r'.backend = r.backend ∧ r.solver.Moved r'.solver) ∧ Loaded D f o r'.solver ∧
        Consistent D r'.solver ∧ r'.solver.Interior ∧
        r'.solver.x = (r.solver.withOnesUnless reuse).x) R r := by
  unfold startReciprocal Solver.withOnesUnless
  rcases hreuse : reuse.x with _ | _
  · rw [Bool.not_false, if_pos rfl, ends_bind, ends_change]
    refine (ends_reciprocalFromPoint
      (r := { r with solver := { r.solver with x := Vector.constant 1 r.solver.x } })
      (h.of_point ((Vector.size_constant 1 _).trans (h.ready.x.trans h.n_eq))
        (h.ready.y.trans h.m_eq) (h.ready.lam.trans h.m_eq))).mono ?_ fun _ _ hR => hR
    rintro _ r' ⟨⟨hb, hmoved⟩, h'⟩
    exact ⟨⟨hb, Solver.Moved.trans ⟨_, _, _, _, _, _, rfl⟩ hmoved⟩, h'⟩
  · exact h.ends_reciprocalFromPoint

variable {env : Environment σ K} {factored : σ → Option (Matrix K)}
  {P : Session (Solver K) σ K → Prop}

/-- What is known of the one direction that is asked for carries over to the end of the step. -/
theorem ends_affineStepFromPoint (h : Loaded D f o r.solver)
    (hdirections : ∀ r₁ : Session (Solver K) σ K, r₁.backend = r.backend →
      (∃ u rp rd mu, r.solver.mulA r.solver.x = .ok u ∧
        r₁.solver = { r.solver with y := Vector.sub u r.solver.b, rp, rd, mu }) →
      Loaded D f o r₁.solver → Ends (directions env .affine true)
        (fun d r₂ => d.dy.size = D.m ∧ d.dlam.size = D.m ∧ Loaded D f o r₂.solver ∧ P r₂) R r₁) :
    Ends (affineStepFromPoint env)
      (fun _ r' => (∃ r₂ : Session (Solver K) σ K, P r₂ ∧ r'.backend = r₂.backend ∧
          r₂.solver.Moved r'.solver) ∧
        Loaded D f o r'.solver ∧ Consistent D r'.solver ∧ r'.solver.Interior) R r := by
  obtain ⟨u, hu, husize, -⟩ := h.mulA_eq (h.ready.x.trans h.n_eq)
  unfold affineStepFromPoint
  rw [ends_bind, ends_solver, ends_bind, ends_lift]
  rw [hu]
  dsimp only
  rw [ends_bind, ends_change]
  have h₁ : Loaded D f o { r.solver with y := Vector.sub u r.solver.b } :=
    h.of_point (h.ready.x.trans h.n_eq)
      (by rw [Vector.size_sub, husize, h.ready.b, h.m_eq, Nat.min_self])
      (h.ready.lam.trans h.m_eq)
  refine (ends_refreshResiduals
    (r := { r with solver := { r.solver with y := Vector.sub u r.solver.b } }) h₁).bind ?_
    fun _ _ hfalse => hfalse.elim
  rintro _ r₂ ⟨hb₂, ⟨rp, rd, mu, hs₂⟩, h₂, -⟩
  refine (hdirections r₂ hb₂ ⟨u, rp, rd, mu, hu, hs₂⟩ h₂).bind ?_ fun _ _ hR => hR
  rintro d r₃ ⟨hdy, hdlam, h₃, hP⟩
  obtain ⟨y, hy, hysize, hypos⟩ := pushed_eq (hdy.trans (h₃.ready.y.trans h₃.m_eq).symm)
  obtain ⟨lam, hlam, hlsize, hlpos⟩ := pushed_eq (hdlam.trans (h₃.ready.lam.trans h₃.m_eq).symm)
  rw [ends_bind, ends_assign, hy]
  dsimp only [Solver.withComponent]
  rw [ends_bind, ends_assign]
  dsimp only
  rw [hlam]
  dsimp only [Solver.withComponent]
  have h₄ : Loaded D f o { r₃.solver with y, lam } :=
    h₃.of_point (h₃.ready.x.trans h₃.n_eq) (hysize.trans (h₃.ready.y.trans h₃.m_eq))
      (hlsize.trans (h₃.ready.lam.trans h₃.m_eq))
  refine (ends_refreshResiduals (r := { r₃ with solver := { r₃.solver with y, lam } }) h₄).mono ?_
    fun _ _ hfalse => hfalse.elim
  rintro _ r₅ ⟨hb₅, ⟨_, _, _, hs₅⟩, h₅, hc₅⟩
  refine ⟨⟨r₃, hP, hb₅, _, _, _, _, _, _, hs₅⟩, h₅, hc₅, ?_, ?_⟩
  · rw [hs₅]
    exact hypos
  · rw [hs₅]
    exact hlpos

theorem ends_startAffineStep (h : Loaded D f o r.solver) (reuse : Reuse)
    (hdirections : ∀ r₁ : Session (Solver K) σ K, r₁.backend = r.backend →
      r.solver.AtSlacks reuse r₁.solver → Loaded D f o r₁.solver →
      Ends (directions env .affine true)
        (fun d r₂ => d.dy.size = D.m ∧ d.dlam.size = D.m ∧ Loaded D f o r₂.solver ∧ P r₂) R r₁) :
    Ends (startAffineStep env reuse)
      (fun _ r' => (∃ r₂ : Session (Solver K) σ K, P r₂ ∧ r'.backend = r₂.backend ∧
          r₂.solver.Moved r'.solver) ∧
        Loaded D f o r'.solver ∧ Consistent D r'.solver ∧ r'.solver.Interior) R r := by
  have hx := h.ready.x.trans h.n_eq
  have hl := h.ready.lam.trans h.m_eq
  unfold startAffineStep
  rw [ends_bind, ends_change]
  have h₁ : Loaded D f o (r.solver.withOnesUnless reuse) := by
    refine h.of_point ?_ (h.ready.y.trans h.m_eq) ?_
    · split_ifs
      · exact hx
      · exact (Vector.size_constant 1 _).trans hx
    · split_ifs
      · exact hl
      · exact (Vector.size_constant 1 _).trans hl
  refine ends_affineStepFromPoint (r := { r with solver := r.solver.withOnesUnless reuse }) h₁ ?_
  rintro r₂ hb₂ ⟨u, rp, rd, mu, hu, hs₂⟩ h₂
  refine hdirections r₂ hb₂ ⟨⟨_, _, _, _, _, _, hs₂⟩, ?_, ?_, u, ?_, ?_⟩ h₂
  · rw [hs₂]
  · rw [hs₂]
  · rw [hs₂]
    exact hu
  · rw [hs₂]
    rfl

/-- The strategy that may return to the iterate it was given. -/
theorem ends_startAffineStepOrPrevious (h : Loaded D f o r.solver) (reuse : Reuse)
    (hdirections : ∀ r₁ : Session (Solver K) σ K, r₁.backend = r.backend →
      r.solver.AtSlacks reuse r₁.solver → Loaded D f o r₁.solver →
      Ends (directions env .affine true)
        (fun d r₂ => d.dy.size = D.m ∧ d.dlam.size = D.m ∧ Loaded D f o r₂.solver ∧ P r₂) R r₁) :
    Ends (startAffineStepOrPrevious env reuse)
      (fun _ r' => (∃ r₂ : Session (Solver K) σ K, P r₂ ∧ r'.backend = r₂.backend ∧
          r₂.solver.Moved r'.solver) ∧
        Loaded D f o r'.solver ∧ Consistent D r'.solver ∧
        (r'.solver.Interior ∨ reuse = ⟨true, true⟩ ∧ r'.solver.y = r.solver.y ∧
          r'.solver.lam = r.solver.lam)) R r := by
  unfold startAffineStepOrPrevious
  split_ifs with hreuse
  · exact (h.ends_startAffineStep reuse hdirections).mono
      (fun _ _ ⟨hP, h', hc', hI⟩ => ⟨hP, h', hc', .inl hI⟩) fun _ _ hR => hR
  have hboth : reuse = ⟨true, true⟩ := by
    rcases reuse with ⟨_ | _, _ | _⟩ <;> simp_all
  rw [ends_bind, ends_solver]
  refine h.ends_refreshResiduals.bind ?_ fun _ _ hfalse => hfalse.elim
  rintro _ r₁ ⟨hb₁, ⟨rp, rd, mu, hs₁⟩, h₁, -⟩
  rw [ends_bind, ends_solver]
  dsimp only
  refine (h₁.ends_startAffineStep ⟨true, true⟩ (P := P) ?_).bind ?_ fun _ _ hR => hR
  · -- what was measured before the step does not matter to where it starts
    rintro r₂ hb₂ ⟨hmoved, hx, hl, u, hu, hy⟩ h₂
    refine hdirections r₂ (hb₂.trans hb₁) ⟨?_, ?_, ?_, u, ?_, ?_⟩ h₂
    · exact Solver.Moved.trans ⟨_, _, _, _, _, _, hs₁⟩ hmoved
    · rw [hx, hs₁, hboth]
      rfl
    · rw [hl, hs₁, hboth]
      rfl
    · rw [hs₁] at hu
      exact hu
    · rw [hy, hs₁]
  rintro _ r₂ ⟨⟨r₃, hP, hb₂, hmoved⟩, h₂, hc₂, hI₂⟩
  rw [ends_bind, ends_solver]
  split_ifs
  · rw [ends_bind, ends_change]
    have h₃ : Loaded D f o { r₂.solver with
        x := r.solver.x, y := r.solver.y, lam := r.solver.lam } :=
      h₂.of_point (h.ready.x.trans h.n_eq) (h.ready.y.trans h.m_eq) (h.ready.lam.trans h.m_eq)
    refine (ends_refreshResiduals (r := { r₂ with solver := { r₂.solver with
      x := r.solver.x, y := r.solver.y, lam := r.solver.lam } }) h₃).bind ?_
      fun _ _ hfalse => hfalse.elim
    rintro _ r₄ ⟨hb₄, ⟨_, _, _, hs₄⟩, h₄, hc₄⟩
    rw [ends_report]
    refine ⟨⟨r₃, hP, hb₄.trans hb₂, hmoved.trans ⟨_, _, _, _, _, _, hs₄⟩⟩, h₄, hc₄,
      .inr ⟨hboth, ?_, ?_⟩⟩
    · rw [hs₄]
    · rw [hs₄]
  · exact ⟨⟨r₃, hP, hb₂, hmoved⟩, h₂, hc₂, .inl hI₂⟩

/-- Where a strategy ends, by what is known of the direction that it asks for, if it does. -/
theorem ends_startWith_of_directions (h : Loaded D f o r.solver) (hm : 0 < D.m)
    (choice : StartChoice) (reuse : Reuse)
    (hdirections : choice.asks = true → ∀ r₁ : Session (Solver K) σ K, r₁.backend = r.backend →
      r.solver.AtSlacks reuse r₁.solver → Loaded D f o r₁.solver →
      Ends (directions env .affine true)
        (fun d r₂ => d.dy.size = D.m ∧ d.dlam.size = D.m ∧ Loaded D f o r₂.solver ∧ P r₂) R r₁)
    (hother : ∀ name, choice = .other name → R (.startingPointUnknown name) r) :
    Ends (startWith env choice reuse)
      (fun _ r' => (if choice.asks then ∃ r₂ : Session (Solver K) σ K, P r₂ ∧
            r'.backend = r₂.backend ∧ r₂.solver.Moved r'.solver
          else r'.backend = r.backend ∧ r.solver.Moved r'.solver) ∧
        Loaded D f o r'.solver ∧ Consistent D r'.solver ∧
        (r'.solver.Interior ∨ choice = .strategy .affineStepOrPrevious ∧ reuse = ⟨true, true⟩ ∧
          r'.solver.y = r.solver.y ∧ r'.solver.lam = r.solver.lam)) R r := by
  unfold startWith
  split
  · exact (h.ends_startScaledOnes hm).mono
      (fun _ _ ⟨hP, h', hc', hI, _⟩ => ⟨hP, h', hc', .inl hI⟩) fun _ _ hR => hR
  · exact (h.ends_startReciprocal reuse).mono
      (fun _ _ ⟨hP, h', hc', hI, _⟩ => ⟨hP, h', hc', .inl hI⟩) fun _ _ hR => hR
  · exact (h.ends_startAffineStep reuse (hdirections rfl)).mono
      (fun _ _ ⟨hP, h', hc', hI⟩ => ⟨hP, h', hc', .inl hI⟩) fun _ _ hR => hR
  · exact (h.ends_startAffineStepOrPrevious reuse (hdirections rfl)).mono
      (fun _ _ ⟨hP, h', hc', hor⟩ => ⟨hP, h', hc', hor.imp_right fun hkept => ⟨rfl, hkept⟩⟩)
      fun _ _ hR => hR
  · exact hother _ rfl

/-- Where a strategy ends with an exact backend. -/
theorem ends_startWith (hexact : Exact env.backend factored) (hm : 0 < D.m)
    (h : Loaded D f o r.solver) (choice : StartChoice) (reuse : Reuse) :
    Ends (startWith env choice reuse)
      (fun _ r' => Loaded D f o r'.solver ∧ Consistent D r'.solver ∧
        (r'.solver.Interior ∨ choice = .strategy .affineStepOrPrevious ∧ reuse = ⟨true, true⟩ ∧
          r'.solver.y = r.solver.y ∧ r'.solver.lam = r.solver.lam))
      (fun _ r' => Loaded D f o r'.solver) r := by
  refine (h.ends_startWith_of_directions hm choice reuse (P := fun _ => True) ?_
    fun _ _ => h).mono (fun _ _ h' => h'.2) fun _ _ hR => hR
  intro _ r₁ _ _ h₁
  refine (h₁.ends_directions hexact .affine).mono ?_ ?_
  · rintro d r₂ ⟨kkt, hs₂, hkkt, -, hd⟩
    exact ⟨hd.size_dy, hd.size_dlam, hs₂ ▸ h₁.of_kkt hkkt, trivial⟩
  · rintro _ r₂ ⟨kkt, hs₂, hkkt⟩
    rw [hs₂]
    exact h₁.of_kkt hkkt

end Loaded

end CentralPath.InteriorPoint
