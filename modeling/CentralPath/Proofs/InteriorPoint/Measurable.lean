/-
  That the conditions can be measured wherever a solve iterates. Between its calls a solver is `Sized`:
  the blocks are stored soundly and the vectors have lengths that belong together, whatever was refused
  half-way before. A problem that is loaded gives the blocks its shape (`Fitted`), and an iterate at
  which residuals were computed has a component for each unknown (`Measurable`). Nothing that an
  iteration does changes the length of what is measured, so measuring is not refused
  (`Measurable.exists_measures`). No law of arithmetic is used, and nothing is known of the backend.
-/
import CentralPath.Proofs.InteriorPoint.InPlace

namespace CentralPath

/-! ## Lengths of products -/

/-- Vectors of one length are combined to a vector of that length. -/
theorem Vector.exists_zip?_of_size {α : Type} [Scalar α] (f : α → α → α) {a b : Array α} {n : Nat}
    (ha : a.size = n) (hb : b.size = n) : ∃ v, zip? f a b = .ok v ∧ v.size = n := by
  refine ⟨a.zipWith f b, zip?_of_size_eq (ha.trans hb.symm), ?_⟩
  rw [Array.size_zipWith, ha, hb, Nat.min_self]

namespace Sparse.Matrix

variable {α : Type} [Scalar α] {m : Matrix α} {v w : Array α}

/-- A vector with a component for each column, or for each row of the transpose, has a product. -/
theorem Sound.exists_mulVec (h : m.Sound) (transposed : Bool)
    (hv : v.size = if transposed then m.rows else m.cols) :
    ∃ w, m.mulVec v transposed = .ok w ∧ w.size = if transposed then m.cols else m.rows := by
  have hentries := Matrix.storedEntries_of_isCut h.isCut
  refine ⟨product (oriented transposed m.entries) v _, ?_, Array.size_ofFn⟩
  unfold mulVec
  dsimp only
  rw [if_neg (not_not.mpr hv), hentries]
  exact if_pos h.holds_entries

/-- A block has products with vectors of one length only. -/
theorem size_of_mulBlock {rowSpan colSpan : Span} (h : m.mulBlock v rowSpan colSpan false = .ok w) :
    (v.size : Int) = colSpan.length ∧ (w.size : Int) = rowSpan.length := by
  unfold mulBlock at h
  dsimp only at h
  rw [if_neg Bool.false_ne_true] at h
  dsimp only at h
  by_cases hv : (v.size : Int) = colSpan.length
  · rw [if_neg (not_not.mpr hv)] at h
    obtain ⟨entries, -, h⟩ := Newton.exists_of_bind_eq_ok h
    by_cases hlength : rowSpan.length < 0
    · rw [if_pos hlength] at h
      cases h
    · rw [if_neg hlength] at h
      obtain rfl := Except.ok.inj h
      refine ⟨hv, ?_⟩
      unfold product
      rw [Array.size_ofFn]
      omega
  · rw [if_pos hv] at h
    cases h

end Sparse.Matrix

namespace InteriorPoint

open Backend (Environment Session Work)
open Backend.Work (Ends Keeps ends_bind ends_change ends_lift ends_pure ends_report ends_solver
  ends_stopAt keeps_change keeps_change_bind keeps_lift keeps_lift_bind keeps_pure keeps_report
  keeps_report_bind keeps_request keeps_solution keeps_solver_bind keeps_stopAt keeps_throw)
open Newton.System (Direction)
open Sparse (Block Matrix)

variable {σ α : Type}

/-! ## Lengths that belong together -/

/-- The blocks are stored soundly, and the vectors of the constraints have a component for each of
them. -/
structure Solver.Sized (s : Solver α) : Prop extends s.Orderly where
  jacobian : s.A.Sound
  compliance : s.E.Sound
  y : s.y.size = s.m
  lam : s.lam.size = s.m
  b : s.b.size = s.m

/-- The blocks have the shape of the problem that is loaded, and the system is that of the problem. -/
structure Solver.Fitted (s : Solver α) : Prop extends s.Sized where
  hessianShape : s.G.rows = s.n ∧ s.G.cols = s.n
  jacobianShape : s.A.rows = s.m ∧ s.A.cols = s.n
  complianceShape : s.usesE = true → s.E.rows = s.m ∧ s.E.cols = s.m
  system : ∃ sys : Newton.System, s.system = some sys ∧ sys.n = s.n ∧ sys.m = s.m

/-- The point has a component for each unknown as well. -/
structure Solver.Measurable (s : Solver α) : Prop extends s.Fitted where
  x : s.x.size = s.n

section

variable [Elementary α] {s : Solver α}

/-- Compliance, in use or not, adds a vector with a component for each constraint. -/
theorem Solver.Fitted.exists_mulE (h : s.Fitted) : ∃ v, s.mulE s.lam = .ok v ∧ v.size = s.m := by
  unfold Solver.mulE
  split_ifs with huse
  · obtain ⟨hrows, hcols⟩ := h.complianceShape huse
    obtain ⟨v, hv, hsize⟩ := h.compliance.exists_mulVec (v := s.lam) false
      (h.lam.trans hcols.symm)
    exact ⟨v, hv, hsize.trans hrows⟩
  · exact ⟨_, rfl, Array.size_replicate⟩

/-- Where everything fits together, the conditions are measured. -/
theorem Solver.Measurable.exists_measures (h : s.Measurable) :
    ∃ q, s.measureConditions = .ok q := by
  obtain ⟨hrows, hcols⟩ := h.jacobianShape
  obtain ⟨rows, hAx, hAxsize⟩ := h.jacobian.exists_mulVec (v := s.x) false
    (h.x.trans hcols.symm)
  obtain ⟨columns, hATl, hATlsize⟩ := h.jacobian.exists_mulVec (v := s.lam) true
    (h.lam.trans hrows.symm)
  obtain ⟨image, hGx, hGxsize⟩ := h.hessian.exists_mulVec (v := s.x) false
    (h.x.trans h.hessianShape.2.symm)
  obtain ⟨yielding, hEl, hElsize⟩ := h.exists_mulE
  -- the residual of the constraints, then that of the dual condition
  obtain ⟨slack, hslack, hsize₁⟩ := Vector.exists_zip?_of_size (· - ·) (hAxsize.trans hrows) h.y
  obtain ⟨bounded, hbounded, hsize₂⟩ := Vector.exists_zip?_of_size (· - ·) hsize₁ h.b
  obtain ⟨primal, hprimal, -⟩ := Vector.exists_zip?_of_size (· + ·) hsize₂ hElsize
  obtain ⟨gradient, hgradient, hsize₃⟩ := Vector.exists_zip?_of_size (· - ·)
    (hGxsize.trans h.hessianShape.1) (hATlsize.trans hcols)
  obtain ⟨dual, hdual, -⟩ := Vector.exists_zip?_of_size (· + ·) hsize₃ (h.c.trans h.x)
  unfold Solver.measureConditions
  simp only [hAx, hATl, hGx, hEl, hslack, hbounded, hprimal, hgradient, hdual, bind, Except.bind]
  exact ⟨_, rfl⟩

end

/-! ## What keeps the lengths -/

/-- The vectors whose lengths the measures depend on. -/
def Component.measured : List Component := [.x, .y, .lam, .c, .b]

/-- The blocks, the dimensions and the system are the same, and what is measured has the same
lengths. -/
structure Solver.SameShape (s s' : Solver α) : Prop extends s.Framed s' where
  jacobian : s'.A = s.A
  compliance : s'.E = s.E
  usesE : s'.usesE = s.usesE
  system : s'.system = s.system
  n : s'.n = s.n
  m : s'.m = s.m
  y : s'.y.size = s.y.size
  lam : s'.lam.size = s.lam.size
  b : s'.b.size = s.b.size

theorem Solver.sameShape_self (s : Solver α) : s.SameShape s :=
  ⟨⟨rfl, rfl, rfl⟩, rfl, rfl, rfl, rfl, rfl, rfl, rfl, rfl, rfl⟩

instance : IsPreorder (Solver α) Solver.SameShape where
  refl := Solver.sameShape_self
  trans _ _ _ h h' := ⟨trans_of Solver.Framed h.toFramed h'.toFramed,
    h'.jacobian.trans h.jacobian, h'.compliance.trans h.compliance, h'.usesE.trans h.usesE,
    h'.system.trans h.system, h'.n.trans h.n, h'.m.trans h.m, h'.y.trans h.y, h'.lam.trans h.lam,
    h'.b.trans h.b⟩

section

variable {s s' : Solver α}

theorem Solver.Sized.of_sameShape (h : s.Sized) (hs : s.SameShape s') : s'.Sized :=
  ⟨h.toOrderly.of_framed hs.toFramed, hs.jacobian ▸ h.jacobian, hs.compliance ▸ h.compliance,
    hs.y.trans (h.y.trans hs.m.symm), hs.lam.trans (h.lam.trans hs.m.symm),
    hs.b.trans (h.b.trans hs.m.symm)⟩

theorem Solver.Fitted.of_sameShape (h : s.Fitted) (hs : s.SameShape s') : s'.Fitted := by
  refine ⟨h.toSized.of_sameShape hs, ?_, ?_, ?_, ?_⟩
  · rw [hs.hessian, hs.n]
    exact h.hessianShape
  · rw [hs.jacobian, hs.n, hs.m]
    exact h.jacobianShape
  · rw [hs.usesE, hs.compliance, hs.m]
    exact h.complianceShape
  · rw [hs.system, hs.n, hs.m]
    exact h.system

theorem Solver.Measurable.of_sameShape (h : s.Measurable) (hs : s.SameShape s') : s'.Measurable :=
  ⟨h.toFitted.of_sameShape hs, hs.x.trans (h.x.trans hs.n.symm)⟩

/-- A vector that is measured may be written over by one of its length, any other by anything. -/
theorem Solver.sameShape_withComponent {k : Component} {v : Array α}
    (h : k ∈ Component.measured → v.size = (s.component k).size) :
    s.SameShape (s.withComponent k v) := by
  cases k
  case x => exact { s.sameShape_self with x := h (by decide) }
  case y => exact { s.sameShape_self with y := h (by decide) }
  case lam => exact { s.sameShape_self with lam := h (by decide) }
  case c => exact { s.sameShape_self with c := h (by decide) }
  case b => exact { s.sameShape_self with b := h (by decide) }
  all_goals exact ⟨⟨rfl, rfl, rfl⟩, rfl, rfl, rfl, rfl, rfl, rfl, rfl, rfl, rfl⟩

theorem sameShape_assign {k : Component} {g : Solver α → Except (Fault α) (Array α)}
    (h : k ∈ Component.measured → ∀ s v, g s = .ok v → v.size = (s.component k).size) :
    Keeps Solver.SameShape (Solver.assign k g : Run σ α Unit) :=
  keeps_assign fun s v hv => Solver.sameShape_withComponent fun hk => h hk s v hv

theorem Solver.Unmoved.sameShape (h : s.Unmoved s') : s.SameShape s' := by
  obtain ⟨_, _, _, rfl⟩ := h
  exact ⟨⟨rfl, rfl, rfl⟩, rfl, rfl, rfl, rfl, rfl, rfl, rfl, rfl, rfl⟩

end

section

variable [Elementary α]

theorem sameShape_directions (env : Environment σ α) (aim : Newton.System.Aim α) (refactor : Bool) :
    Keeps Solver.SameShape (directions env aim refactor) :=
  (unmoved_directions env aim refactor).mono fun _ _ h => h.sameShape

theorem sameShape_takeStep (d : Direction α) (alphaP alphaD : α) :
    Keeps Solver.SameShape (takeStep d alphaP alphaD : Run σ α Unit) := by
  have hmoved : ∀ (k : Component) (alpha : α) (step : Array α), Keeps Solver.SameShape
      (Solver.assign k fun s => moved (s.component k) alpha step : Run σ α Unit) :=
    fun k alpha step => sameShape_assign fun _ s v hv => Vector.size_of_addTo? hv
  have hother : ∀ {k : Component} {g : Solver α → Except (Fault α) (Array α)},
      k ∉ Component.measured → Keeps Solver.SameShape (Solver.assign k g : Run σ α Unit) :=
    fun hk => sameShape_assign fun h => absurd h hk
  have hadvance : Keeps Solver.SameShape (advance d alphaP alphaD : Run σ α Unit) := by
    unfold advance
    refine (hmoved .x _ _).bind fun _ => (hmoved .y _ _).bind fun _ => ?_
    refine (hmoved .lam _ _).bind fun _ => (hother (by decide)).bind fun _ => ?_
    exact (hother (by decide)).bind fun _ => hother (by decide)
  have hprimal : Keeps Solver.SameShape (shrinkPrimal d alphaP alphaD : Run σ α Unit) := by
    unfold shrinkPrimal
    refine (hother (by decide)).bind fun _ => keeps_solver_bind fun s => ?_
    exact .ite _ (hother (by decide)) (keeps_pure ())
  have hdual : Keeps Solver.SameShape (shrinkDual d alphaP alphaD : Run σ α Unit) := by
    unfold shrinkDual
    exact (hother (by decide)).bind fun _ => .ite _ (hother (by decide)) (keeps_pure ())
  unfold takeStep
  refine hadvance.bind fun _ => hprimal.bind fun _ => hdual.bind fun _ => ?_
  refine keeps_solver_bind fun s => ?_
  split_ifs
  · exact keeps_throw _
  · exact keeps_change fun s => { s.sameShape_self with }

/-- An iteration changes no length that is measured. -/
theorem sameShape_iterate (env : Environment σ α) : Keeps Solver.SameShape (iterate env) := by
  unfold iterate
  refine (sameShape_directions env .affine true).bind fun affine => ?_
  refine keeps_solver_bind fun s => .ite _ ?_ ?_
  · unfold predictorIteration
    refine keeps_solver_bind fun s => keeps_lift_bind fun lengths => ?_
    refine (sameShape_takeStep affine _ _).bind fun _ => ?_
    exact keeps_solver_bind fun s => keeps_report _
  · unfold correctorIteration
    refine keeps_solver_bind fun s => ?_
    refine ((unmoved_measurePredictor affine).mono fun _ _ h => h.sameShape).bind fun sigma => ?_
    refine (sameShape_directions env _ false).bind fun d => keeps_lift_bind fun lengths => ?_
    refine (sameShape_takeStep d _ _).bind fun _ => ?_
    exact keeps_solver_bind fun s => keeps_report _

theorem sameShape_countIteration : Keeps Solver.SameShape (countIteration : Run σ α Unit) := by
  unfold countIteration
  refine keeps_change_bind (fun s => { s.sameShape_self with }) (keeps_solver_bind fun s => ?_)
  exact .ite _ (keeps_change fun s => { s.sameShape_self with }) (keeps_pure ())

theorem sameShape_verifyConditions (report : Bool) :
    Keeps Solver.SameShape (verifyConditions report : Run σ α (Journal.Measures α)) := by
  intro r
  refine (ends_verifyConditions report).mono ?_ ?_
  · rintro _ r' ⟨hs, -⟩
    exact hs ▸ r.solver.sameShape_self
  · rintro _ r' ⟨hs, -⟩
    exact hs ▸ r.solver.sameShape_self

theorem sameShape_keepBooks (env : Environment σ α) : Keeps Solver.SameShape (keepBooks env) := by
  unfold keepBooks
  exact sameShape_countIteration.bind fun _ =>
    .ite _ (sameShape_verifyConditions true).discard (keeps_pure ())

theorem sameShape_iterateWithin (env : Environment σ α) (budget : Nat) :
    Keeps Solver.SameShape (iterateWithin env budget) := by
  induction budget with
  | zero => exact keeps_pure ()
  | succ budget ih =>
    rw [iterateWithin_succ]
    refine keeps_solver_bind fun s => .ite _ (keeps_pure ()) ?_
    exact (sameShape_iterate env).bind fun _ => (sameShape_keepBooks env).bind fun _ => ih

theorem sameShape_handOverIterate (n : Nat) (full : Int) (before : Solver α) :
    Keeps Solver.SameShape (handOverIterate n full before : Run σ α (Handover α)) := by
  have hconclude : Keeps Solver.SameShape (conclude : Run σ α String) := by
    unfold conclude
    refine keeps_solver_bind fun s => .ite _ ?_ ?_
    · exact keeps_change_bind (fun s => { s.sameShape_self with })
        (keeps_report_bind (keeps_pure _))
    · exact keeps_change_bind (fun s => { s.sameShape_self with })
        (keeps_report_bind (keeps_pure _))
  unfold handOverIterate
  refine keeps_solver_bind fun s => hconclude.bind fun message => keeps_solver_bind fun s => ?_
  exact keeps_lift_bind fun head => keeps_lift_bind fun multipliers => keeps_pure _

theorem sameShape_handOverAnswer (n : Nat) (full : Int) (G : Matrix α) (found : Array α) :
    Keeps Solver.SameShape (handOverAnswer n full G found : Run σ α (Handover α)) := by
  unfold handOverAnswer
  refine (sameShape_assign fun _ s v hv => Vector.size_of_fill? hv).bind fun _ => ?_
  refine keeps_change_bind (fun s => { s.sameShape_self with }) (keeps_report_bind ?_)
  exact keeps_solver_bind fun s => keeps_lift_bind fun head => keeps_pure _

/-- Assembling the system changes the Newton matrix only. -/
theorem sameShape_assembleSystem (env : Environment σ α) (sys : Newton.System) :
    Keeps Solver.SameShape (assembleSystem env sys) := by
  have hkkt : ∀ (s : Solver α) kkt patternLearned, s.SameShape { s with kkt, patternLearned } :=
    fun s _ _ => { s.sameShape_self with }
  have hlearn : Keeps Solver.SameShape (learnPattern sys : Run σ α Unit) := by
    unfold learnPattern
    refine keeps_solver_bind fun s => keeps_lift_bind fun fresh => ?_
    refine (keeps_stopAt _).bind fun _ => keeps_lift_bind fun kkt => ?_
    exact keeps_change_bind (fun s => hkkt s _ _) (keeps_report _)
  have hreset : Keeps Solver.SameShape (resetSystem sys : Run σ α Unit) := by
    unfold resetSystem
    refine keeps_solver_bind fun s => keeps_lift_bind fun hint => keeps_lift_bind fun kkt => ?_
    exact keeps_change fun s => hkkt s _ _
  have hfill : Keeps Solver.SameShape (do
      let s ← Work.solver
      let done := s.kkt.writeAll (s.assembly sys)
      Work.change fun s => { s with kkt := done.2 }
      Work.report (Journal.growthEvents s.kkt done.2)
      Work.stopAt done.1
      let kkt := done.2.compress.1
      Work.change fun s => { s with kkt }
      Work.report (Journal.storageEvents env.debug Journal.compressionContext kkt) :
        Run σ α Unit) := by
    refine keeps_solver_bind fun s => ?_
    refine keeps_change_bind (fun s => hkkt s _ _) (keeps_report_bind ?_)
    refine (keeps_stopAt _).bind fun _ => ?_
    exact keeps_change_bind (fun s => hkkt s _ _) (keeps_report _)
  unfold assembleSystem
  refine keeps_solver_bind fun s => keeps_lift_bind fun bounded => ?_
  refine keeps_change_bind (fun s => hkkt s _ _) ?_
  split_ifs
  · exact hlearn.bind fun _ => hfill
  · exact hreset.bind fun _ => hfill

variable {env : Environment σ α} {r : Session (Solver α) σ α}

/-! ## The first iterate -/

/-- Products with `A` are taken of points only, and have a component for each constraint. -/
theorem Solver.Fitted.size_of_mulA {s : Solver α} (h : s.Fitted) {v w : Array α}
    (hw : s.mulA v = .ok w) : v.size = s.n ∧ w.size = s.m := by
  obtain ⟨sys, hsys, hn, hm⟩ := h.system
  unfold Solver.mulA Solver.system? at hw
  rw [hsys] at hw
  obtain ⟨hv, hsize⟩ := Sparse.Matrix.size_of_mulBlock hw
  unfold Sparse.Span.length at hv hsize
  dsimp only at hv hsize
  omega

/-- To compute residuals changes no length. Where it is not refused, the point has a component for each
unknown. -/
theorem ends_refreshResiduals_sameShape :
    Ends refreshResiduals
      (fun _ r' => r.solver.SameShape r'.solver ∧ (r.solver.Fitted → r'.solver.Measurable))
      (fun _ r' => r.solver.SameShape r'.solver) r := by
  unfold refreshResiduals
  rw [ends_bind, ends_solver]
  refine Ends.lift_bind (fun s hs => ?_) fun _ => r.solver.sameShape_self
  unfold Solver.updateResiduals at hs
  obtain ⟨image, himage, hs⟩ := Newton.exists_of_bind_eq_ok hs
  obtain ⟨_, -, hs⟩ := Newton.exists_of_bind_eq_ok hs
  obtain ⟨_, -, hs⟩ := Newton.exists_of_bind_eq_ok hs
  obtain ⟨_, -, hs⟩ := Newton.exists_of_bind_eq_ok hs
  have hshape : r.solver.SameShape s := by
    obtain rfl := Except.ok.inj hs
    exact { r.solver.sameShape_self with }
  refine ⟨hshape, fun h => ⟨h.of_sameShape hshape, ?_⟩⟩
  exact hshape.x.trans ((h.size_of_mulA himage).1.trans hshape.n.symm)

theorem sameShape_refreshResiduals : Keeps Solver.SameShape (refreshResiduals : Run σ α Unit) :=
  fun _ => ends_refreshResiduals_sameShape.mono (fun _ _ h => h.1) fun _ _ h => h

/-- From a solver whose problem is loaded, the work changes no length that is measured, and unless it is
refused it comes to an iterate that can be measured. -/
def ReachesIterate (w : Run σ α Unit) : Prop := ∀ r : Session (Solver α) σ α, r.solver.Fitted →
  Ends w (fun _ r' => r.solver.SameShape r'.solver ∧ r'.solver.Measurable)
    (fun _ r' => r.solver.SameShape r'.solver) r

theorem reachesIterate_refreshResiduals : ReachesIterate (refreshResiduals : Run σ α Unit) :=
  fun _ h => ends_refreshResiduals_sameShape.mono (fun _ _ h' => ⟨h'.1, h'.2 h⟩) fun _ _ h' => h'

omit [Elementary α] in
theorem ReachesIterate.bind {w : Run σ α Unit} {f : Unit → Run σ α Unit} (h : ReachesIterate w)
    (hf : Keeps Solver.SameShape (f ())) : ReachesIterate (w >>= f) := by
  intro r hr
  refine (h r hr).bind (fun _ r₁ h₁ => ?_) fun _ _ h₁ => h₁
  exact (hf r₁).mono (fun _ _ h₂ => ⟨trans_of Solver.SameShape h₁.1 h₂, h₁.2.of_sameShape h₂⟩)
    fun _ _ h₂ => trans_of Solver.SameShape h₁.1 h₂

omit [Elementary α] in
/-- Work before that leaves the lengths alone changes nothing about that. -/
theorem ReachesIterate.after {β : Type} {w : Run σ α β} {f : β → Run σ α Unit}
    (hw : Keeps Solver.SameShape w) (h : ∀ b, ReachesIterate (f b)) : ReachesIterate (w >>= f) := by
  intro r hr
  refine (hw r).bind (fun b r₁ h₁ => ?_) fun _ _ h₁ => h₁
  exact (h b r₁ (hr.of_sameShape h₁)).mono
    (fun _ _ h₂ => ⟨trans_of Solver.SameShape h₁ h₂.1, h₂.2⟩)
    fun _ _ h₂ => trans_of Solver.SameShape h₁ h₂

omit [Elementary α] in
theorem ReachesIterate.change_bind {g : Solver α → Solver α} {f : Unit → Run σ α Unit}
    (hg : ∀ s : Solver α, s.SameShape (g s)) (h : ReachesIterate (f ())) :
    ReachesIterate (Work.change g >>= f) := .after (keeps_change hg) fun _ => h

/-- What starts from the slacks of the point, of which there is one for each constraint. -/
theorem ReachesIterate.slack_bind {g : Array α → Solver α → Solver α} {f : Unit → Run σ α Unit}
    (hg : ∀ (s : Solver α) slack, slack.size = s.y.size → s.lam.size = s.y.size →
      s.SameShape (g slack s)) (h : ReachesIterate (f ())) :
    ReachesIterate (Work.solver >>= fun s => Work.lift (s.mulA s.x) >>= fun image =>
      Work.change (g (Vector.sub image s.b)) >>= f) := by
  intro r hr
  rw [ends_bind, ends_solver]
  refine Ends.lift_bind (fun image himage => ?_) fun _ => r.solver.sameShape_self
  have hsize : (Vector.sub image r.solver.b).size = r.solver.y.size := by
    rw [Vector.sub, Array.size_zipWith, (hr.size_of_mulA himage).2, hr.b, hr.y, Nat.min_self]
  rw [ends_bind, ends_change]
  have h₁ := hg r.solver _ hsize (hr.lam.trans hr.y.symm)
  exact (h { r with solver := g _ r.solver } (hr.of_sameShape h₁)).mono
    (fun _ _ h₂ => ⟨trans_of Solver.SameShape h₁ h₂.1, h₂.2⟩)
    fun _ _ h₂ => trans_of Solver.SameShape h₁ h₂

theorem reachesIterate_startScaledOnes : ReachesIterate (startScaledOnes : Run σ α Unit) := by
  unfold startScaledOnes
  refine .change_bind (fun s => ?_) (reachesIterate_refreshResiduals.bind ?_)
  · exact { s.sameShape_self with
      x := Vector.size_constant .., y := Vector.size_constant .., lam := Vector.size_constant .. }
  refine keeps_solver_bind fun s => ?_
  split
  · exact keeps_pure ()
  · exact keeps_change_bind (fun s => { s.sameShape_self with
      x := Array.size_map .., y := Array.size_map .., lam := Array.size_map .. })
      sameShape_refreshResiduals

theorem reachesIterate_startReciprocal (reuse : Reuse) :
    ReachesIterate (startReciprocal reuse : Run σ α Unit) := by
  have hrest : ReachesIterate (reciprocalFromPoint : Run σ α Unit) := by
    unfold reciprocalFromPoint
    refine ReachesIterate.slack_bind (g := fun (slack : Array α) (s : Solver α) => { s with
      y := slack.map (Scalar.atLeast 1), lam := (slack.map (Scalar.atLeast 1)).map (1 / ·) })
      (fun s slack hslack hlam => ?_) reachesIterate_refreshResiduals
    have hsize : (slack.map (Scalar.atLeast 1)).size = s.y.size := (Array.size_map ..).trans hslack
    exact { s.sameShape_self with
      y := hsize, lam := (Array.size_map ..).trans (hsize.trans hlam.symm) }
  unfold startReciprocal
  split_ifs
  · exact .change_bind (fun s => { s.sameShape_self with x := Vector.size_constant .. }) hrest
  · exact hrest

theorem reachesIterate_startAffineStep (env : Environment σ α) (reuse : Reuse) :
    ReachesIterate (startAffineStep env reuse) := by
  have hpushed : ∀ {a d v : Array α}, pushed a d = .ok v → v.size = a.size := fun hv => by
    unfold pushed at hv
    obtain ⟨_, -, hv⟩ := Newton.exists_of_bind_eq_ok hv
    exact Vector.size_of_fill? hv
  unfold startAffineStep
  refine .change_bind (fun s => ?_) (ReachesIterate.slack_bind (g := fun y s => { s with y })
    (fun s slack hslack _ => { s.sameShape_self with y := hslack })
    (reachesIterate_refreshResiduals.bind ?_))
  · refine { s.sameShape_self with x := ?_, lam := ?_ }
    · exact (apply_ite Array.size ..).trans (by rw [Vector.size_constant, ite_self])
    · exact (apply_ite Array.size ..).trans (by rw [Vector.size_constant, ite_self])
  refine (sameShape_directions env .affine true).bind fun d => ?_
  refine (sameShape_assign fun _ s v hv => hpushed hv).bind fun _ => ?_
  exact (sameShape_assign fun _ s v hv => hpushed hv).bind fun _ => sameShape_refreshResiduals

theorem reachesIterate_startAffineStepOrPrevious (env : Environment σ α) (reuse : Reuse) :
    ReachesIterate (startAffineStepOrPrevious env reuse) := by
  unfold startAffineStepOrPrevious
  split_ifs
  · exact reachesIterate_startAffineStep env reuse
  intro r hr
  rw [ends_bind, ends_solver]
  refine (sameShape_refreshResiduals r).bind (fun _ r₁ h₁ => ?_) fun _ _ h₁ => h₁
  rw [ends_bind, ends_solver]
  refine (reachesIterate_startAffineStep env ⟨true, true⟩ r₁ (hr.of_sameShape h₁)).bind
    (fun _ r₂ h₂ => ?_) fun _ _ h₂ => trans_of Solver.SameShape h₁ h₂
  rw [ends_bind, ends_solver]
  have hshape := trans_of Solver.SameShape h₁ h₂.1
  dsimp only
  split_ifs
  · -- the previous iterate has the lengths of the one that it takes the place of
    have hrestored : r.solver.SameShape { r₂.solver with
        x := r.solver.x, y := r.solver.y, lam := r.solver.lam } :=
      { hshape with x := rfl, y := rfl, lam := rfl }
    have hrest : ReachesIterate (do
        refreshResiduals
        Work.report [.previousKept r₁.solver.merit r₂.solver.merit] : Run σ α Unit) :=
      reachesIterate_refreshResiduals.bind (keeps_report _)
    rw [ends_bind, ends_change]
    exact (hrest _ (hr.of_sameShape hrestored)).mono
      (fun _ _ h₃ => ⟨trans_of Solver.SameShape hrestored h₃.1, h₃.2⟩)
      fun _ _ h₃ => trans_of Solver.SameShape hrestored h₃
  · exact ⟨hshape, h₂.2⟩

/-- Every strategy that is not refused comes to an iterate that can be measured. -/
theorem reachesIterate_startWith (env : Environment σ α) (choice : StartChoice) (reuse : Reuse) :
    ReachesIterate (startWith env choice reuse) := by
  unfold startWith
  split
  · exact reachesIterate_startScaledOnes
  · exact reachesIterate_startReciprocal reuse
  · exact reachesIterate_startAffineStep env reuse
  · exact reachesIterate_startAffineStepOrPrevious env reuse
  · exact fun r _ => r.solver.sameShape_self

/-! ## Loading a problem -/

/-- A block is loaded into sound storage, and takes its shape there. -/
theorem ends_loadInto_sound {before : Matrix α} (h : before.Sound)
    (put : Matrix α → Solver α → Solver α) (b : Block α) (hint : Int) :
    Ends (loadInto before put b hint)
      (fun _ r' => ∃ M : Matrix α, r'.solver = put M r.solver ∧ M.Sound ∧ M.rows = b.rows ∧
        M.cols = b.cols)
      (fun _ r' => ∃ M : Matrix α, r'.solver = put M r.solver ∧ M.Sound) r := by
  have hsound := h.loadBlock b hint
  unfold loadInto
  rw [ends_bind, ends_change, ends_bind, ends_report, ends_stopAt]
  split
  · exact ⟨_, rfl, hsound, h.shape_loadBlock b hint⟩
  · exact ⟨_, rfl, hsound⟩

variable {p : Problem α}

theorem ends_loadHessian_sized (h : r.solver.Sized) :
    Ends (loadHessian p)
      (fun _ r' => ∃ G : Matrix α, r'.solver = { r.solver with G } ∧ G.Sound ∧
        G.rows = p.unknowns ∧ G.cols = p.unknowns)
      (fun _ r' => r'.solver.Sized) r := by
  unfold loadHessian loadExactly
  rw [ends_bind, ends_solver]
  refine (ends_loadInto_sound h.hessian _ _ _).mono (fun _ _ h' => h') ?_
  rintro _ r' ⟨G, hs, hG⟩
  rw [hs]
  exact { h with hessian := hG }

theorem ends_loadJacobian_sized (h : r.solver.Sized) :
    Ends (loadJacobian p)
      (fun _ r' => ∃ A : Matrix α, r'.solver = { r.solver with A } ∧ A.Sound ∧
        A.rows = (p.activeRows r.solver.options.skipTangential).length ∧ A.cols = p.unknowns)
      (fun _ r' => r'.solver.Sized) r := by
  unfold loadJacobian loadExactly
  rw [ends_bind, ends_solver]
  refine (ends_loadInto_sound h.jacobian _ _ _).mono (fun _ _ h' => h') ?_
  rintro _ r' ⟨A, hs, hA⟩
  rw [hs]
  exact { h with jacobian := hA }

/-- Whatever is written into the compliance block, it is stored soundly. -/
theorem ends_compliance_sized (h : r.solver.Sized) (b : Block α) (hint : Int) :
    Ends (loadInto r.solver.E (fun E s => { s with E }) b hint)
      (fun _ r' => ∃ E : Matrix α, r'.solver = { r.solver with E } ∧ E.Sound)
      (fun _ r' => r'.solver.Sized) r := by
  refine (ends_loadInto_sound h.compliance _ b hint).mono ?_ ?_
  · rintro _ r' ⟨E, hs, hE, -⟩
    exact ⟨E, hs, hE⟩
  · rintro _ r' ⟨E, hs, hE⟩
    rw [hs]
    exact { h with compliance := hE }

theorem ends_loadCompliance_sized (h : r.solver.Sized) :
    Ends (loadCompliance p)
      (fun _ r' => ∃ E : Matrix α, r'.solver = { r.solver with E } ∧ E.Sound)
      (fun _ r' => r'.solver.Sized) r := by
  unfold loadCompliance loadExactly
  rw [ends_bind, ends_solver]
  split_ifs
  · exact ends_compliance_sized h _ _
  · exact ⟨r.solver.E, rfl, h.compliance⟩

theorem ends_loadOver_sized (cover : Option (Block α × Int)) (h : r.solver.Sized) :
    Ends (loadOver cover)
      (fun _ r' => ∃ E : Matrix α, r'.solver = { r.solver with E } ∧ E.Sound)
      (fun _ r' => r'.solver.Sized) r := by
  unfold loadOver
  rw [ends_bind, ends_solver]
  split
  · split_ifs
    · exact ends_compliance_sized h _ _
    · exact ⟨r.solver.E, rfl, h.compliance⟩
  · exact ⟨r.solver.E, rfl, h.compliance⟩

/-- A compliance block that comes into use has a row and a column for each constraint. -/
theorem ends_adoptCompliance_sized (h : r.solver.Sized) :
    Ends adoptCompliance
      (fun _ r' => ∃ usesE diagE, r'.solver = { r.solver with usesE, diagE } ∧
        (usesE = true → r.solver.E.rows = r.solver.m ∧ r.solver.E.cols = r.solver.m))
      (fun _ r' => r'.solver.Sized) r := by
  unfold adoptCompliance
  rw [ends_bind, ends_change, ends_bind, ends_solver]
  dsimp only
  have hused : ∀ usesE, { r.solver with usesE }.Sized := fun _ => { h with }
  split_ifs with huse hshape
  · exact hused _
  · rw [not_or, not_not, not_not] at hshape
    refine Ends.lift_bind (fun diagE _ => ?_) fun _ => hused _
    exact ⟨_, _, rfl, fun _ => hshape⟩
  · exact ⟨_, _, rfl, fun huse' => absurd huse' huse⟩

/-- A problem that is loaded has blocks that fit together; one that is refused leaves the lengths in
order. -/
theorem ends_loadOn_fitted (cover : Option (Block α × Int)) (h : r.solver.Sized)
    (hn : r.solver.n = p.unknowns)
    (hsystem : ∃ sys : Newton.System, r.solver.system = some sys ∧ sys.n = r.solver.n ∧
      sys.m = r.solver.m) :
    Ends (loadOn p cover) (fun _ r' => r'.solver.Fitted) (fun _ r' => r'.solver.Sized) r := by
  unfold loadOn
  rw [ends_bind, ends_solver]
  refine (ends_loadHessian_sized h).bind ?_ fun _ _ h' => h'
  rintro _ r₁ ⟨G, hs₁, hG, hGshape⟩
  have h₁ : r₁.solver.Sized := by
    rw [hs₁]
    exact { h with hessian := hG }
  refine (ends_loadJacobian_sized h₁).bind ?_ fun _ _ h' => h'
  rintro _ r₂ ⟨A, hs₂, hA, hAshape⟩
  have h₂ : r₂.solver.Sized := by
    rw [hs₂]
    exact { h₁ with jacobian := hA }
  refine (ends_loadCompliance_sized h₂).bind ?_ fun _ _ h' => h'
  rintro _ r₃ ⟨E, hs₃, hE⟩
  have h₃ : r₃.solver.Sized := by
    rw [hs₃]
    exact { h₂ with compliance := hE }
  refine Ends.lift_bind (fun f _ => ?_) fun _ => h₃
  refine Ends.lift_bind (fun bound hbound => ?_) fun _ => h₃
  refine (ends_loadOver_sized cover h₃).bind ?_ fun _ _ h' => h'
  rintro _ r₄ ⟨E', hs₄, hE'⟩
  have h₄ : r₄.solver.Sized := by
    rw [hs₄]
    exact { h₃ with compliance := hE' }
  -- the vectors are written over by vectors of their lengths
  have hvectors : Keeps Solver.SameShape (do
      Solver.assign .c fun s => Vector.fill? s.c.size (Vector.neg f)
      Solver.assign .b fun s => Vector.fill? s.b.size (Vector.neg bound) : Run σ α Unit) :=
    (sameShape_assign fun _ s v hv => Vector.size_of_fill? hv).bind fun _ =>
      sameShape_assign fun _ s v hv => Vector.size_of_fill? hv
  rw [← bind_assoc]
  refine (hvectors r₄).bind (fun _ r₅ h₅ => ?_) fun _ _ h₅ => h₄.of_sameShape h₅
  refine (ends_adoptCompliance_sized (h₄.of_sameShape h₅)).mono ?_ fun _ _ h' => h'
  rintro _ r₆ ⟨usesE, diagE, hs₆, hcompliance⟩
  have hrows : r.solver.m = (p.activeRows r.solver.options.skipTangential).length := by
    rw [← Problem.size_boundFor hbound, Problem.eq_of_boundFor hbound, Problem.activeNegBound,
      List.size_toArray, List.length_map]
  have hs₂ : r₂.solver = { r.solver with G, A } := by rw [hs₂, hs₁]
  have hs₄ : r₄.solver = { r.solver with G, A, E := E' } := by rw [hs₄, hs₃, hs₂]
  have hA₅ : r₅.solver.A = A := h₅.jacobian.trans (by rw [hs₄])
  have hG₅ : r₅.solver.G = G := h₅.hessian.trans (by rw [hs₄])
  have hn₅ : r₅.solver.n = r.solver.n := h₅.n.trans (by rw [hs₄])
  have hm₅ : r₅.solver.m = r.solver.m := h₅.m.trans (by rw [hs₄])
  have hsystem₅ : r₅.solver.system = r.solver.system := h₅.system.trans (by rw [hs₄])
  rw [hs₁] at hAshape
  rw [hs₆]
  refine ⟨{ h₄.of_sameShape h₅ with }, ?_, ?_, hcompliance, ?_⟩
  · show r₅.solver.G.rows = r₅.solver.n ∧ r₅.solver.G.cols = r₅.solver.n
    rw [hG₅, hn₅, hn]
    exact hGshape
  · show r₅.solver.A.rows = r₅.solver.m ∧ r₅.solver.A.cols = r₅.solver.n
    rw [hA₅, hn₅, hm₅, hn, hrows]
    exact hAshape
  · show ∃ sys : Newton.System, r₅.solver.system = some sys ∧ sys.n = r₅.solver.n ∧
      sys.m = r₅.solver.m
    rw [hsystem₅, hn₅, hm₅]
    exact hsystem

/-! ## Taking on dimensions -/

theorem Solver.sized_create (id : Nat) (options : Options α) : (Solver.create id options).Sized :=
  ⟨Solver.orderly_create id options, Matrix.sound_unit, Matrix.sound_unit, rfl, rfl, rfl⟩

theorem Solver.Sized.resizeUnknowns {s : Solver α} (h : s.Sized) (n : Nat) :
    (s.resizeUnknowns n).Sized := by
  have horderly := h.toOrderly.resizeUnknowns n
  unfold Solver.resizeUnknowns at horderly ⊢
  split_ifs at horderly ⊢
  · exact h
  · exact { h with toOrderly := horderly }

/-- Taken on dimensions come with vectors of their lengths. -/
theorem Solver.Sized.allocate {s : Solver α} (h : s.Sized) (n m : Nat) : (s.allocate n m).Sized := by
  have hresized := h.resizeUnknowns n
  unfold Solver.allocate
  dsimp only
  split_ifs with hm
  · exact { hresized with
      y := hresized.y.trans hm.symm, lam := hresized.lam.trans hm.symm
      b := hresized.b.trans hm.symm }
  · exact { hresized with
      y := Array.size_replicate, lam := Array.size_replicate, b := Array.size_replicate }

theorem Solver.system_allocate (s : Solver α) (n m : Nat) : (s.allocate n m).system = s.system := by
  unfold Solver.allocate Solver.resizeUnknowns
  dsimp only
  split_ifs <;> rfl

/-- A solve with constraints begins to iterate where it can measure, or is refused with its lengths in
order. -/
theorem ends_prepareFor_measurable (env : Environment σ α) (cover : Option (Block α × Int)) (m : Int)
    (before : Solver α) (h : r.solver.Sized) :
    Ends (prepareFor env p cover m before) (fun _ r' => r'.solver.Measurable)
      (fun _ r' => r'.solver.Sized) r := by
  unfold prepareFor
  refine Ends.lift_bind (fun sys hsys => ?_) fun _ => h
  have hsystem : { r.solver with system := some sys }.Sized := { h with }
  have hdims : sys.n = p.unknowns ∧ sys.m = m := by
    unfold Newton.System.create at hsys
    split at hsys <;> cases hsys <;> exact ⟨rfl, rfl⟩
  have hallocate : Ends (allocateFor p.unknowns m)
      (fun _ r' => r'.solver.Sized ∧ r'.solver.n = p.unknowns ∧ r'.solver.system = some sys ∧
        m = r'.solver.m)
      (fun _ r' => r'.solver.Sized)
      { r with solver := { r.solver with system := some sys } } := by
    unfold allocateFor
    split_ifs with hneg
    · exact hsystem.resizeUnknowns _
    · refine ⟨hsystem.allocate _ _, rfl, ?_, (Int.toNat_of_nonneg (Int.not_lt.mp hneg)).symm⟩
      exact Solver.system_allocate _ _ _
  have hrest : ReachesIterate (do
      assembleSystem env sys
      Work.change fun s => { s with stage := .initialized }
      startWith env before.options.startingPoint (reuseFor before p.unknowns m)
      Work.change fun s => { s with hasIterate := true, iterations := 0, stage := .iterating } :
        Run σ α Unit) := by
    refine .after (sameShape_assembleSystem env sys) fun _ => ?_
    refine .change_bind (fun s => { s.sameShape_self with }) ?_
    exact (reachesIterate_startWith env _ _).bind (keeps_change fun s => { s.sameShape_self with })
  rw [ends_bind, ends_change]
  refine hallocate.bind ?_ fun _ _ h₁ => h₁
  rintro _ r₁ ⟨h₁, hn₁, hsystem₁, hm₁⟩
  refine (ends_loadOn_fitted cover h₁ hn₁ ⟨sys, hsystem₁, by omega, by omega⟩).bind
    (fun _ r₂ h₂ => ?_) fun _ _ h₂ => h₂
  exact (hrest r₂ h₂).mono (fun _ _ h₃ => h₃.2) fun _ _ h₃ => h₂.toSized.of_sameShape h₃

/-! ## Whole solves -/

theorem ends_pose_sized (env : Environment σ α) (h : r.solver.Sized) (n : Nat) :
    Ends (pose env p n) (fun _ r' => r'.solver.Sized) (fun _ r' => r'.solver.Sized) r := by
  unfold pose
  rw [ends_bind, ends_change]
  refine (ends_loadHessian_sized (r := { r with solver := r.solver.allocate n 0 })
    (h.allocate n 0)).bind ?_ fun _ _ h' => h'
  rintro _ r₁ ⟨G, hs₁, hG, -⟩
  have h₁ : r₁.solver.Sized := by
    rw [hs₁]
    exact { h.allocate n 0 with hessian := hG }
  refine Ends.lift_bind (fun f _ => ?_) fun _ => h₁
  have hlinear : Keeps Solver.SameShape (Solver.assign .c fun s =>
      Vector.fill? s.c.size (Vector.neg f) : Run σ α Unit) :=
    sameShape_assign fun _ s v hv => Vector.size_of_fill? hv
  refine (hlinear r₁).bind (fun _ r₂ hshape => ?_) fun _ _ hshape => h₁.of_sameShape hshape
  have h₂ := h₁.of_sameShape hshape
  rw [ends_bind, ends_solver, ends_bind, ends_change, ends_bind, ends_report, ends_pure]
  exact { h₂ with hessian := h₂.hessian.compress }

/-- What is handed over or what refuses it, the lengths are in order behind a solve. -/
theorem ends_handOver_sized (env : Environment σ α) (p : Problem α) (terms : Terms α)
    (h : r.solver.Sized) :
    Ends (handOver env p terms) (fun _ r' => r'.solver.Sized) (fun _ r' => r'.solver.Sized) r := by
  have hcounted : { r.solver with solveCalls := r.solver.solveCalls + 1 }.Sized := { h with }
  unfold handOver
  rw [ends_bind, ends_change, ends_bind, ends_solver]
  dsimp only
  split_ifs
  · have hrest : ∀ G : Matrix α, Keeps Solver.SameShape (do
        let s ← Work.solver
        Work.request env (.hessian s.id) G (Vector.neg s.c) .complete "unconstrained system"
        let found ← Work.solution env
        handOverAnswer p.unknowns (terms.count false) G found : Run σ α (Handover α)) := fun G =>
      keeps_solver_bind fun s => (keeps_request env _ _ _ _ _).bind fun _ =>
        (keeps_solution env).bind fun found => sameShape_handOverAnswer _ _ G found
    refine (ends_pose_sized env hcounted _).bind (fun G r₁ h₁ => ?_) fun _ _ h₁ => h₁
    exact (hrest G r₁).mono (fun _ _ h₂ => h₁.of_sameShape h₂) fun _ _ h₂ => h₁.of_sameShape h₂
  · have hrest : ∀ (budget : Nat) (before : Solver α), Keeps Solver.SameShape (do
        iterateWithin env budget
        handOverIterate p.unknowns (terms.count false) before : Run σ α (Handover α)) :=
      fun budget before => (sameShape_iterateWithin env budget).bind fun _ =>
        sameShape_handOverIterate _ _ before
    rw [ends_bind, ends_solver]
    refine (ends_prepareFor_measurable env _ _ _ hcounted).bind (fun _ r₁ h₁ => ?_) fun _ _ h₁ => h₁
    exact (hrest _ _ r₁).mono (fun _ _ h₂ => h₁.toSized.of_sameShape h₂)
      fun _ _ h₂ => h₁.toSized.of_sameShape h₂

theorem ends_solveProblem_sized (env : Environment σ α) (p : Problem α) (h : r.solver.Sized) :
    Ends (solveProblem env p) (fun _ r' => r'.solver.Sized) (fun _ r' => r'.solver.Sized) r := by
  rw [solveProblem_eq_handOver]
  refine (ends_handOver_sized env p _ h).bind (fun hand r₁ h₁ => ?_) fun _ _ h₁ => h₁
  refine Ends.lift_bind (fun problem _ => ?_) fun _ => h₁
  exact Ends.lift_bind (fun outcome _ => h₁) fun _ => h₁

/-- A solve leaves its solver with the lengths in order. -/
theorem Solver.Sized.session_solve (h : r.solver.Sized) (env : Environment σ α) (p : Problem α) :
    (solve env p r).session.solver.Sized :=
  InteriorPoint.session_solve (P := fun r' => r'.solver.Sized) (ends_solveProblem_sized env p h)

/-- Writing over the components of a vector changes no length. -/
theorem Solver.SameShape.of_overwrite {s s' : Solver α} {name : String} {v : Array α}
    (h : s.overwrite name v = .ok s') : s.SameShape s' := by
  obtain ⟨k, w, hw, rfl⟩ := Solver.exists_of_overwrite h
  exact Solver.sameShape_withComponent fun _ => hw

end

end InteriorPoint

end CentralPath
