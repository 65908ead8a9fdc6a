/-
  An iteration along whatever directions the backend comes up with. Nothing is asked of the vectors
  that are handed out: the ratio test alone keeps slacks and multipliers away from zero. A step
  leaves every component the share that its fraction does not take (`Allowed.moved`), the predictor
  is measured at a point that is not negative (`ends_measurePredictor_of_interior`), and wherever an
  iteration is cut short it is cut short in the interior (`ends_iterate_of_poised`).
-/
import CentralPath.Proofs.InteriorPoint.Conversation
import CentralPath.Proofs.InteriorPoint.Division
import CentralPath.Proofs.Newton.Refusals

open CentralPath.Vector (coord)

namespace CentralPath

variable {σ K : Type} [Field K] [LinearOrder K]

/-! ## Vectors of any length -/

namespace Vector

/-- What is written over a vector consists of components of what is written. -/
theorem mem_of_fill? {length : Nat} {a v : Array K} (h : fill? length a = .ok v) :
    ∀ c ∈ v, c ∈ a := by
  obtain ⟨-, rfl⟩ | ⟨-, hone, rfl⟩ := cases_of_fill? h
  · exact fun c hc => hc
  · intro c hc
    rw [Array.getElem?_eq_getElem (by omega), Option.getD_some] at hc
    rw [(Array.mem_replicate.mp hc).2]
    exact Array.getElem_mem _

theorem dot_nonneg [IsStrictOrderedRing K] {u v : Array K} (hu : ∀ a ∈ u, 0 ≤ a)
    (hv : ∀ a ∈ v, 0 ≤ a) : 0 ≤ dot u v := by
  have hproducts : ∀ c ∈ (mul u v).toList, 0 ≤ c := by
    intro c hc
    obtain ⟨i, hi, rfl⟩ := Array.mem_iff_getElem.mp (Array.mem_toList_iff.mp hc)
    have hlt : i < u.size ∧ i < v.size := by simpa [mul] using hi
    have hget : (mul u v)[i] = u[i] * v[i] := Array.getElem_zipWith ..
    rw [hget]
    exact mul_nonneg (hu _ (Array.getElem_mem hlt.1)) (hv _ (Array.getElem_mem hlt.2))
  have hsum : dot u v = (mul u v).toList.sum := by
    rw [dot, ← Array.foldl_toList]
    exact List.sum_eq_foldl.symm
  rw [hsum]
  exact List.sum_nonneg hproducts

end Vector

/-- Every call succeeds, and the backend then hands out whichever vector of the right length it
likes. -/
structure Backend.Obliging {σ α : Type} (b : Backend σ α) : Prop extends b.Answering where
  ok : ∀ (ref : Backend.MatrixRef) (matrix : Sparse.Matrix α) (rhs : Array α) (job : Backend.Job)
    (s : σ), (b.ask ref matrix rhs job s).status = .ok Backend.statusOk

namespace InteriorPoint

open Backend (Environment Job Session Work)
open Backend.Work (Ends ends_bind ends_change ends_lift ends_report ends_solver)
open Newton (Formulation)
open Newton.System (Aim Direction)
open Problem (Data)
open Sparse (Matrix)

/-! ## The ratio test along any direction -/

/-- A step length that the ratio test of a vector allows. Along a direction of another length no
component decreases. -/
structure Allowed (v d : Array K) (eta alpha : K) : Prop where
  nonneg : 0 ≤ alpha
  le_one : alpha ≤ 1
  le : alpha ≤ stepLength v d eta
  fits : v.size = d.size ∨ ∀ a ∈ d, 0 ≤ a

theorem stepLength_le_one [IsStrictOrderedRing K] (v d : Array K) (eta : K) :
    stepLength v d eta ≤ 1 := by
  unfold stepLength
  dsimp only
  split_ifs
  · exact zero_le_one
  · split
    · exact le_refl 1
    · split_ifs with hlt
      · exact hlt.le
      · exact le_refl 1

theorem fits_of_stepLength? {v d : Array K} {eta alpha : K}
    (h : stepLength? v d eta = .ok alpha) : v.size = d.size ∨ ∀ a ∈ d, 0 ≤ a := by
  unfold stepLength? at h
  split_ifs at h with hmiss
  by_cases hsize : v.size = d.size
  · exact Or.inl hsize
  · refine Or.inr fun a ha => not_lt.mp fun hneg => hmiss ⟨hsize, ?_⟩
    rw [Array.any_eq_true']
    exact ⟨a, ha, decide_eq_true hneg⟩

theorem allowed_of_stepLengths [IsStrictOrderedRing K] {equal : Bool}
    {y lam dy dlam : Array K} {eta alphaP alphaD : K}
    (h : stepLengths equal y lam dy dlam eta = .ok (alphaP, alphaD)) :
    Allowed y dy eta alphaP ∧ Allowed lam dlam eta alphaD := by
  obtain ⟨⟨hP0, hP⟩, hD0, hD⟩ := stepLengths_le h
  unfold stepLengths at h
  obtain ⟨primal, hprimal, h⟩ := Newton.exists_of_bind_eq_ok h
  obtain ⟨dual, hdual, -⟩ := Newton.exists_of_bind_eq_ok h
  exact ⟨⟨hP0, hP.trans (stepLength_le_one y dy eta), hP, fits_of_stepLength? hprimal⟩,
    ⟨hD0, hD.trans (stepLength_le_one lam dlam eta), hD, fits_of_stepLength? hdual⟩⟩

/-- Every component has kept the share of itself that a fraction does not take. -/
structure KeepsShare (eta : K) (v w : Array K) : Prop where
  size_eq : w.size = v.size
  share_le : ∀ i, i < v.size → (1 - eta) * coord v i ≤ coord w i

theorem KeepsShare.pos [IsStrictOrderedRing K] {eta : K} {v w : Array K} (h : KeepsShare eta v w)
    (hone : eta < 1) (hpos : ∀ a ∈ v, 0 < a) : ∀ a ∈ w, 0 < a := by
  intro a ha
  obtain ⟨i, hi, rfl⟩ := Array.mem_iff_getElem.mp ha
  have hv : i < v.size := by rwa [← h.size_eq]
  have hshare := h.share_le i hv
  rw [Vector.coord_eq_getElem hv, Vector.coord_eq_getElem hi] at hshare
  exact (mul_pos (sub_pos.mpr hone) (hpos _ (Array.getElem_mem hv))).trans_le hshare

namespace Allowed

variable [IsStrictOrderedRing K] [ElementaryFunctions K] {v d w : Array K} {eta alpha : K}

/-- Every component of a positive vector that is moved keeps its share. -/
theorem moved (h : Allowed v d eta alpha) (heta : 0 ≤ eta) (hpos : ∀ a ∈ v, 0 < a)
    (hw : InteriorPoint.moved v alpha d = .ok w) : KeepsShare eta v w := by
  refine ⟨Vector.size_of_addTo? hw, fun i hi => ?_⟩
  have hvi : 0 < v[i] := hpos _ (Array.getElem_mem hi)
  obtain ⟨u, hfill, rfl⟩ := Vector.exists_of_addTo? hw
  obtain ⟨hsize, rfl⟩ | ⟨hsize, hone, rfl⟩ := Vector.cases_of_fill? hfill <;>
    rw [Vector.size_scale] at hsize
  · have hd : i < d.size := by omega
    rw [Vector.coord_add (by rw [Vector.size_scale, hsize]), Vector.coord_scale,
      Vector.coord_eq_getElem hi, Vector.coord_eq_getElem hd]
    exact share_le_add heta hi hd hvi h.nonneg h.le
  · -- one number for all components, which does not decrease them
    rw [Vector.size_scale] at hone
    have hd : 0 < d.size := by omega
    have hd0 : (0 : K) ≤ d[0] := (h.fits.resolve_left (Ne.symm hsize)) _ (Array.getElem_mem hd)
    have hadded : (0 : K) ≤ alpha * d[0] := mul_nonneg h.nonneg hd0
    have htaken : 0 ≤ eta * v[i] := mul_nonneg heta hvi.le
    have hnumber : (Vector.scale alpha d)[0]?.getD 0 = alpha * d[0] := by
      simp [Vector.scale, hd]
    rw [hnumber, Vector.coord_add Array.size_replicate.symm, Vector.coord_replicate _ hi,
      Vector.coord_eq_getElem hi]
    linarith

/-- Where a positive vector is predicted to go, no component is negative. -/
theorem predicted {kept : Array K} (h : Allowed v d eta alpha) (heta : 0 ≤ eta) (hone : eta ≤ 1)
    (hpos : ∀ a ∈ v, 0 < a) (hw : InteriorPoint.predicted kept v alpha d = .ok w) :
    ∀ a ∈ w, 0 ≤ a := by
  have hsum : (∀ c ∈ d, 0 ≤ c) → ∀ b ∈ v, ∀ c ∈ Vector.scale alpha d, 0 ≤ b + c := by
    intro hd b hb c hc
    obtain ⟨e, he, rfl⟩ := Array.mem_map.mp hc
    exact add_nonneg (hpos b hb).le (mul_nonneg h.nonneg (hd e he))
  have hhead : ∀ u : Array K, u.size = 1 → u[0]?.getD 0 ∈ u := by
    intro u hu
    rw [Array.getElem?_eq_getElem (by omega), Option.getD_some]
    exact Array.getElem_mem _
  unfold InteriorPoint.predicted at hw
  obtain ⟨u, hu, hw⟩ := Newton.exists_of_bind_eq_ok hw
  intro a ha
  have ha := Vector.mem_of_fill? hw a ha
  unfold Vector.zip? at hu
  split_ifs at hu with hsize hfirst hsecond
  · obtain rfl := Except.ok.inj hu
    obtain ⟨i, hi, rfl⟩ := Array.mem_iff_getElem.mp ha
    rw [Vector.size_scale] at hsize
    rw [Array.size_zipWith, Vector.size_scale, hsize, Nat.min_self] at hi
    have hv : i < v.size := by omega
    have hvi : 0 < v[i] := hpos _ (Array.getElem_mem hv)
    have hshare := share_le_add heta hv hi hvi h.nonneg h.le
    have hkept : 0 ≤ (1 - eta) * v[i] := mul_nonneg (sub_nonneg.mpr hone) hvi.le
    rw [Array.getElem_zipWith]
    refine hkept.trans (hshare.trans (le_of_eq ?_))
    simp [Vector.scale]
  · obtain rfl := Except.ok.inj hu
    obtain ⟨c, hc, rfl⟩ := Array.mem_map.mp ha
    have hd := h.fits.resolve_left (by rwa [Vector.size_scale] at hsize)
    exact hsum hd _ (hhead v hfirst) c hc
  · obtain rfl := Except.ok.inj hu
    obtain ⟨b, hb, rfl⟩ := Array.mem_map.mp ha
    have hd := h.fits.resolve_left (by rwa [Vector.size_scale] at hsize)
    exact hsum hd b hb _ (hhead _ hsecond)

end Allowed

/-! ## What refuses an iteration -/

/-- The backend itself refuses a call or the solution, with this fault. -/
def Raises (env : Environment σ K) (e : Fault K) : Prop :=
  (∃ matrix job s, (env.backend.call (fun _ => matrix) job s).status = .error e) ∨
    ∃ s, env.backend.solution s = .error e

/-- The fault is a division by zero only if the backend says so. -/
def NotOwnZero (env : Environment σ K) (e : Fault K) : Prop := e = .divisionByZero → Raises env e

omit [Field K] [LinearOrder K] in
theorem ends_assign_bind {β : Type} {r : Session (Solver K) σ K} {k : Component}
    {g : Solver K → Except (Fault K) (Array K)} {f : Unit → Run σ K β}
    {Q : β → Session (Solver K) σ K → Prop} {R : Fault K → Session (Solver K) σ K → Prop}
    (hf : ∀ v, g r.solver = .ok v →
      Ends (f ()) Q R { r with solver := r.solver.withComponent k v })
    (hR : ∀ e, g r.solver = .error e → R e r) :
    Ends (Solver.assign k g >>= f) Q R r := by
  rw [ends_bind, ends_assign]
  cases hv : g r.solver with
  | ok v => exact hf v hv
  | error e => exact hR e hv

section

variable [ElementaryFunctions K] {env : Environment σ K} {r : Session (Solver K) σ K}

omit [Field K] [LinearOrder K] [ElementaryFunctions K] in
/-- A fault of a computation that no backend has a part in. -/
theorem notOwnZero_of_notByZero {β : Type} {v : Except (Fault K) β} {e : Fault K}
    (h : NotByZero v) (hv : v = .error e) : NotOwnZero env e := by
  rintro rfl
  exact absurd hv h

omit [Field K] [LinearOrder K] [ElementaryFunctions K] in
theorem notByZero_system? (s : Solver K) : NotByZero s.system? := by
  unfold Solver.system?
  split
  · exact notByZero_ok _
  · exact nofun

omit [Field K] [LinearOrder K] [ElementaryFunctions K] in
theorem ends_newtonSolve_any [Elementary K] (rhs : Array K) (job : Job) :
    Ends (newtonSolve env rhs job) (fun _ r' => r'.solver = r.solver)
      (fun e r' => r'.solver = r.solver ∧ NotOwnZero env e) r := by
  unfold newtonSolve
  rw [ends_bind, ends_solver, ends_bind, Backend.Work.ends_request]
  dsimp only
  split
  · split
    · rw [Backend.Work.ends_solution]
      split
      · rfl
      · rename_i _ hsolution
        exact ⟨rfl, fun _ => Or.inr ⟨_, hsolution⟩⟩
    · rename_i hfault
      refine ⟨rfl, ?_⟩
      rintro rfl
      unfold Backend.statusFault? at hfault
      split_ifs at hfault
      cases hfault
  · rename_i _ hstatus
    exact ⟨rfl, fun _ => Or.inl ⟨_, _, _, hstatus⟩⟩

omit [Field K] [LinearOrder K] [ElementaryFunctions K] in
/-- A backend that succeeds at every call has a solution. -/
theorem ends_newtonSolve_of_obliging [Elementary K] (hb : env.backend.Obliging) (rhs : Array K)
    (job : Job) {R : Fault K → Session (Solver K) σ K → Prop} :
    Ends (newtonSolve env rhs job)
      (fun v r' => r'.solver = r.solver ∧ v.size = r.solver.kkt.cols ∧ True) R r := by
  unfold newtonSolve
  have hstatus := hb.ok (.newton r.solver.id) r.solver.kkt rhs job r.backend
  obtain ⟨v, hv, hsize⟩ := hb.solution (.newton r.solver.id) r.solver.kkt rhs job r.backend hstatus
  unfold Backend.ask at hstatus hv
  rw [ends_bind, ends_solver, ends_bind, Backend.Work.ends_request]
  dsimp only
  rw [hstatus]
  show Ends (Work.solution env) _ _ _
  rw [Backend.Work.ends_solution, hv]
  exact ⟨rfl, hsize, trivial⟩

theorem ends_directionFor_any (aim : Aim K) (job : Job) :
    Ends (directionFor env aim job) (fun _ r' => r'.solver = r.solver)
      (fun e r' => r'.solver = r.solver ∧ NotOwnZero env e) r := by
  unfold directionFor
  rw [ends_bind, ends_solver, ends_bind, ends_lift]
  cases hsys : r.solver.system? with
  | error e => exact ⟨rfl, notOwnZero_of_notByZero (notByZero_system? r.solver) hsys⟩
  | ok sys =>
    dsimp only
    rw [ends_bind, ends_lift]
    cases hrhs : sys.rightHandSide r.solver.rp r.solver.rd r.solver.y r.solver.lam aim with
    | error e =>
      exact ⟨rfl, notOwnZero_of_notByZero (sys.notByZero_rightHandSide _ _ _ _ _) hrhs⟩
    | ok rhs =>
      refine (ends_newtonSolve_any rhs job).bind (fun v r₁ hs₁ => ?_) fun _ _ hR => hR
      rw [ends_lift]
      split
      · exact hs₁
      · rename_i hd
        exact ⟨hs₁, notOwnZero_of_notByZero (sys.notByZero_direction _ _ _ _) hd⟩

/-- Whatever a backend does, a direction changes the Newton matrix only. -/
theorem ends_directions_any (aim : Aim K) (refactor : Bool) :
    Ends (directions env aim refactor)
      (fun _ r' => ∃ kkt, r'.solver = { r.solver with kkt })
      (fun e r' => (∃ kkt, r'.solver = { r.solver with kkt }) ∧ NotOwnZero env e) r := by
  have hfor : ∀ (job : Job) (r₁ : Session (Solver K) σ K),
      (∃ kkt, r₁.solver = { r.solver with kkt }) → Ends (directionFor env aim job)
        (fun _ r' => ∃ kkt, r'.solver = { r.solver with kkt })
        (fun e r' => (∃ kkt, r'.solver = { r.solver with kkt }) ∧ NotOwnZero env e) r₁ := by
    rintro job r₁ ⟨kkt, hs₁⟩
    exact (ends_directionFor_any aim job).mono (fun _ _ hs => ⟨kkt, hs.trans hs₁⟩)
      fun _ _ ⟨hs, hfault⟩ => ⟨⟨kkt, hs.trans hs₁⟩, hfault⟩
  cases refactor with
  | false => exact hfor .solve r ⟨r.solver.kkt, rfl⟩
  | true =>
    show Ends (updateIterateBlocks >>= fun _ => directionFor env aim .complete) _ _ r
    refine Ends.bind (P := fun _ r₁ => ∃ kkt, r₁.solver = { r.solver with kkt }) ?_
      (fun _ r₁ hs₁ => hfor .complete r₁ hs₁) fun _ _ hR => hR
    unfold updateIterateBlocks
    rw [ends_bind, ends_solver, ends_bind, ends_lift]
    cases hsys : r.solver.system? with
    | error e =>
      exact ⟨⟨r.solver.kkt, rfl⟩, notOwnZero_of_notByZero (notByZero_system? r.solver) hsys⟩
    | ok sys =>
      dsimp only
      rw [ends_bind, ends_change, ends_bind, ends_report, Backend.Work.ends_stopAt]
      split
      · exact ⟨_, rfl⟩
      · rename_i e hfault
        refine ⟨⟨_, rfl⟩, ?_⟩
        rintro rfl
        exact absurd hfault (r.solver.kkt.assemble_ne (sys.iterateAssembly_stop_ne _ _ _))

variable [IsStrictOrderedRing K] {d : Direction K}

omit [IsStrictOrderedRing K] in
theorem notByZero_stepLengths (s : Solver K) (d : Direction K) (eta : K) :
    NotByZero (s.stepLengths d eta) := by
  have hlength : ∀ v u : Array K, NotByZero (stepLength? v u eta) := by
    intro v u
    unfold stepLength?
    split_ifs
    · exact nofun
    · exact notByZero_ok _
  refine (hlength _ _).bind fun primal => (hlength _ _).bind fun dual => ?_
  split_ifs <;> exact notByZero_ok _

omit [IsStrictOrderedRing K] in
theorem notByZero_predicted (kept v : Array K) (alpha : K) (u : Array K) :
    NotByZero (predicted kept v alpha u) :=
  (Vector.notByZero_zip? _ v _).bind fun _ => Vector.notByZero_fill? _ _

/-- A weight is found wherever there is a duality gap to compare with. -/
theorem exists_centring_nonneg {s : Solver K} {gap : K} (hgap : 0 ≤ gap) (hmu : 0 < s.mu) :
    ∃ sigma, centring gap s = .ok sigma ∧ 0 ≤ sigma := by
  have hshare : 0 ≤ gap / s.mu := div_nonneg hgap hmu.le
  have hne : ¬(s.mu == 0) = true := fun hzero => hmu.ne' (Scalar.beq_iff.mp hzero)
  refine ⟨_, ?_, mul_nonneg (mul_nonneg hshare hshare) hshare⟩
  unfold centring cubedQuotient
  simp [hne]

/-- The predictor is measured where no slack and no multiplier is negative. -/
theorem ends_measurePredictor_of_interior (env : Environment σ K) (hI : r.solver.Interior)
    (hm : r.solver.m ≠ 0) (hmu : 0 < r.solver.mu) :
    Ends (measurePredictor d)
      (fun sigma r' => 0 ≤ sigma ∧ ∃ yPred lamPred, (∀ a ∈ yPred, 0 ≤ a) ∧ (∀ a ∈ lamPred, 0 ≤ a) ∧
        r'.solver = { r.solver with yPred, lamPred })
      (fun e r' => (∃ yPred lamPred, r'.solver = { r.solver with yPred, lamPred }) ∧
        NotOwnZero env e) r := by
  unfold measurePredictor
  rw [ends_bind, ends_solver, ends_bind, ends_lift]
  cases hlengths : r.solver.stepLengths d 1 with
  | error e =>
    exact ⟨⟨_, _, rfl⟩, notOwnZero_of_notByZero (notByZero_stepLengths _ _ _) hlengths⟩
  | ok lengths =>
    obtain ⟨alphaP, alphaD⟩ := lengths
    obtain ⟨hP, hD⟩ := allowed_of_stepLengths hlengths
    dsimp only
    refine ends_assign_bind (fun yPred hy => ?_) fun e he => ?_
    rotate_left
    · exact ⟨⟨_, _, rfl⟩, notOwnZero_of_notByZero (notByZero_predicted _ _ _ _) he⟩
    refine ends_assign_bind (fun lamPred hl => ?_) fun e he => ?_
    rotate_left
    · exact ⟨⟨_, _, rfl⟩, notOwnZero_of_notByZero (notByZero_predicted _ _ _ _) he⟩
    have hypos := hP.predicted zero_le_one le_rfl hI.slack hy
    have hlpos := hD.predicted zero_le_one le_rfl hI.multipliers hl
    obtain ⟨sigma, hsigma, hnonneg⟩ := exists_centring_nonneg
      (s := { r.solver with yPred, lamPred })
      (div_nonneg (Vector.dot_nonneg hypos hlpos) (Nat.cast_nonneg r.solver.m)) hmu
    rw [ends_bind, ends_solver]
    refine (if_neg hm).symm ▸ ?_
    show Ends (Work.lift (centring (Vector.dot yPred lamPred / (r.solver.m : K))
      { r.solver with yPred, lamPred })) _ _ _
    rw [ends_lift, hsigma]
    exact ⟨hnonneg, yPred, lamPred, hypos, hlpos, rfl⟩

/-- What a step leaves of the vectors along which it goes: slacks and multipliers keep their shares,
and nothing that an iteration starts from is touched. -/
theorem ends_advance_of_interior {alphaP alphaD eta : K} (hI : r.solver.Interior) (heta : 0 ≤ eta)
    (hone : eta < 1) (hlengths : r.solver.stepLengths d eta = .ok (alphaP, alphaD)) :
    Ends (advance d alphaP alphaD)
      (fun _ r' => ∃ x y lam dx dy dlam, KeepsShare eta r.solver.y y ∧
        KeepsShare eta r.solver.lam lam ∧ r'.solver = { r.solver with x, y, lam, dx, dy, dlam })
      (fun e r' => r'.solver.Interior ∧ NotOwnZero env e) r := by
  obtain ⟨hP, hD⟩ := allowed_of_stepLengths hlengths
  have hfault : ∀ {v u : Array K} {alpha : K} {e : Fault K}, moved v alpha u = .error e →
      NotOwnZero env e := notOwnZero_of_notByZero (Vector.notByZero_addTo? _ _)
  have hfill : ∀ {k : Nat} {u : Array K} {e : Fault K}, Vector.fill? k u = .error e →
      NotOwnZero env e := notOwnZero_of_notByZero (Vector.notByZero_fill? _ _)
  unfold advance
  refine ends_assign_bind (fun x _ => ?_) fun e he => ⟨hI, hfault he⟩
  refine ends_assign_bind (fun y hy => ?_) fun e he => ⟨⟨hI.slack, hI.multipliers⟩, hfault he⟩
  have hyshare := hP.moved heta hI.slack hy
  have hypos := hyshare.pos hone hI.slack
  refine ends_assign_bind (fun lam hl => ?_) fun e he => ⟨⟨hypos, hI.multipliers⟩, hfault he⟩
  have hlshare := hD.moved heta hI.multipliers hl
  have hlpos := hlshare.pos hone hI.multipliers
  refine ends_assign_bind (fun dx _ => ?_) fun e he => ⟨⟨hypos, hlpos⟩, hfill he⟩
  refine ends_assign_bind (fun dy _ => ?_) fun e he => ⟨⟨hypos, hlpos⟩, hfill he⟩
  rw [ends_assign]
  split
  · rename_i dlam _
    exact ⟨x, y, lam, dx, dy, dlam, hyshare, hlshare, rfl⟩
  · rename_i he
    exact ⟨⟨hypos, hlpos⟩, hfill he⟩

omit [IsStrictOrderedRing K] in
theorem notByZero_product_bind {v : Except (Fault K) (Array K)} (hv : NotByZero v) (u : Array K)
    (alpha : K) : NotByZero (do moved u alpha (← v)) :=
  hv.bind fun _ => Vector.notByZero_addTo? _ _

omit [IsStrictOrderedRing K] in
/-- Carrying the primal residual along touches nothing else. -/
theorem ends_shrinkPrimal_any (env : Environment σ K) {alphaP alphaD : K} :
    Ends (shrinkPrimal d alphaP alphaD) (fun _ r' => ∃ rp, r'.solver = { r.solver with rp })
      (fun e r' => (∃ rp, r'.solver = { r.solver with rp }) ∧ NotOwnZero env e) r := by
  unfold shrinkPrimal
  refine ends_assign_bind (fun rp _ => ?_) fun e he => by cases he
  rw [ends_bind, ends_solver]
  split_ifs
  · rw [ends_assign]
    split
    · exact ⟨_, rfl⟩
    · rename_i he
      exact ⟨⟨rp, rfl⟩, notOwnZero_of_notByZero
        (notByZero_product_bind (Matrix.notByZero_mulVec _ _ _) _ _) he⟩
  · exact ⟨rp, rfl⟩

omit [IsStrictOrderedRing K] in
/-- Nor does carrying the dual residual along. -/
theorem ends_shrinkDual_any (env : Environment σ K) {alphaP alphaD : K} :
    Ends (shrinkDual d alphaP alphaD) (fun _ r' => ∃ rd, r'.solver = { r.solver with rd })
      (fun e r' => (∃ rd, r'.solver = { r.solver with rd }) ∧ NotOwnZero env e) r := by
  unfold shrinkDual
  refine ends_assign_bind (fun rd _ => ?_) fun e he => by cases he
  split_ifs
  · rw [ends_assign]
    split
    · exact ⟨_, rfl⟩
    · rename_i he
      exact ⟨⟨rd, rfl⟩, notOwnZero_of_notByZero
        (notByZero_product_bind ((notByZero_system? _).bind fun _ =>
          Matrix.notByZero_mulBlock _ _ _ _ _) _ _) he⟩
  · exact ⟨rd, rfl⟩

/-- What a step does to slacks and multipliers: every one of them keeps its share, and the duality
measure is that of where they are. -/
structure Solver.Advanced (eta : K) (s s' : Solver K) : Prop where
  slack : KeepsShare eta s.y s'.y
  multipliers : KeepsShare eta s.lam s'.lam
  m_eq : s'.m = s.m
  mu_eq : s'.mu = s'.dualityMeasure

theorem Solver.Advanced.interior {eta : K} {s s' : Solver K} (h : s.Advanced eta s')
    (hone : eta < 1) (hI : s.Interior) : s'.Interior :=
  ⟨h.slack.pos hone hI.slack, h.multipliers.pos hone hI.multipliers⟩

/-- A step along any direction, no longer than the ratio test allows. -/
theorem ends_takeStep_of_interior {alphaP alphaD eta : K} (hI : r.solver.Interior)
    (hm : r.solver.m ≠ 0) (heta : 0 ≤ eta) (hone : eta < 1)
    (hlengths : r.solver.stepLengths d eta = .ok (alphaP, alphaD)) :
    Ends (takeStep d alphaP alphaD)
      (fun _ r' => r.solver.Advanced eta r'.solver ∧
        ∃ x y lam rp rd dx dy dlam mu, r'.solver =
          { r.solver with x, y, lam, rp, rd, dx, dy, dlam, mu })
      (fun e r' => r'.solver.Interior ∧ NotOwnZero env e) r := by
  unfold takeStep
  refine (ends_advance_of_interior hI heta hone hlengths).bind ?_ fun _ _ hR => hR
  rintro _ r₁ ⟨x, y, lam, dx, dy, dlam, hy, hl, hs₁⟩
  have hI₁ : ∀ s : Solver K, s.y = y → s.lam = lam → s.Interior := by
    rintro s rfl rfl
    exact ⟨hy.pos hone hI.slack, hl.pos hone hI.multipliers⟩
  refine (ends_shrinkPrimal_any env).bind ?_ ?_
  rotate_left
  · rintro e r₂ ⟨⟨rp, hs₂⟩, hfault⟩
    exact ⟨hI₁ _ (by rw [hs₂, hs₁]) (by rw [hs₂, hs₁]), hfault⟩
  rintro _ r₂ ⟨rp, hs₂⟩
  refine (ends_shrinkDual_any env).bind ?_ ?_
  rotate_left
  · rintro e r₃ ⟨⟨rd, hs₃⟩, hfault⟩
    exact ⟨hI₁ _ (by rw [hs₃, hs₂, hs₁]) (by rw [hs₃, hs₂, hs₁]), hfault⟩
  rintro _ r₃ ⟨rd, hs₃⟩
  have hs : r₃.solver = { r.solver with x, y, lam, dx, dy, dlam, rp, rd } := by
    rw [hs₃, hs₂, hs₁]
  have hm₃ : r₃.solver.m ≠ 0 := by rwa [hs]
  rw [ends_bind, ends_solver, if_neg hm₃, ends_change, hs]
  exact ⟨⟨hy, hl, rfl, rfl⟩, x, y, lam, rp, rd, dx, dy, dlam, _, rfl⟩

/-! ## One iteration -/

/-- A solver at an iterate from which a step may be taken. -/
structure Solver.Poised (s : Solver K) : Prop extends s.Interior where
  m_pos : 0 < s.m
  size_y : s.y.size = s.m
  size_lam : s.lam.size = s.m
  mu_eq : s.mu = s.dualityMeasure

theorem Solver.Poised.mu_pos {s : Solver K} (h : s.Poised) : 0 < s.mu := by
  rw [h.mu_eq]
  exact div_pos (h.toInterior.dot_pos h.size_y h.size_lam h.m_pos) (Nat.cast_pos.mpr h.m_pos)

/-- After a step another may be taken. -/
theorem Solver.Poised.of_advanced {eta : K} {s s' : Solver K} (h : s.Poised)
    (hs' : s.Advanced eta s') (hone : eta < 1) : s'.Poised where
  toInterior := hs'.interior hone h.toInterior
  m_pos := hs'.m_eq.symm ▸ h.m_pos
  size_y := by rw [hs'.slack.size_eq, h.size_y, hs'.m_eq]
  size_lam := by rw [hs'.multipliers.size_eq, h.size_lam, hs'.m_eq]
  mu_eq := hs'.mu_eq

/-- What an iteration did, and what it says of itself: a step in the interior, by step lengths
between zero and one, toward a target that is not negative. -/
structure Stepped (s : Solver K) (r' : Session (Solver K) σ K) : Prop
    extends s.Advanced (stepFraction s) r'.solver where
  reported : ∃ alphaP ∈ Set.Icc (0 : K) 1, ∃ alphaD ∈ Set.Icc (0 : K) 1,
    if s.options.onlyPredict then
      r'.events.getLast? = some (.predictorStep s.iterations alphaP alphaD r'.solver.mu)
    else (∀ a ∈ r'.solver.yPred, 0 ≤ a) ∧ (∀ a ∈ r'.solver.lamPred, 0 ≤ a) ∧ ∃ sigma, 0 ≤ sigma ∧
      r'.events.getLast? = some (.correctorStep s.iterations sigma alphaP alphaD r'.solver.mu)

theorem ends_predictorIteration_of_poised (env : Environment σ K) (h : r.solver.Poised)
    (heta : 0 ≤ stepFraction r.solver) (hone : stepFraction r.solver < 1)
    (honly : r.solver.options.onlyPredict = true) :
    Ends (predictorIteration d) (fun _ r' => Stepped r.solver r')
      (fun e r' => r'.solver.Interior ∧ NotOwnZero env e) r := by
  unfold predictorIteration
  rw [ends_bind, ends_solver, ends_bind, ends_lift]
  cases hlengths : r.solver.stepLengths d (stepFraction r.solver) with
  | error e =>
    exact ⟨h.toInterior, notOwnZero_of_notByZero (notByZero_stepLengths _ _ _) hlengths⟩
  | ok lengths =>
    obtain ⟨alphaP, alphaD⟩ := lengths
    obtain ⟨hP, hD⟩ := allowed_of_stepLengths hlengths
    dsimp only
    refine (ends_takeStep_of_interior h.toInterior h.m_pos.ne' heta hone hlengths).bind ?_
      fun _ _ hR => hR
    rintro _ r₁ ⟨hadvanced, x, y, lam, rp, rd, dx, dy, dlam, mu, hs₁⟩
    rw [ends_bind, ends_solver, ends_report]
    refine ⟨hadvanced, alphaP, ⟨hP.nonneg, hP.le_one⟩, alphaD, ⟨hD.nonneg, hD.le_one⟩, ?_⟩
    rw [if_pos honly, List.getLast?_append, hs₁]
    rfl

theorem ends_correctorIteration_of_poised (h : r.solver.Poised)
    (heta : 0 ≤ stepFraction r.solver) (hone : stepFraction r.solver < 1)
    (honly : ¬r.solver.options.onlyPredict = true) :
    Ends (correctorIteration env d) (fun _ r' => Stepped r.solver r')
      (fun e r' => r'.solver.Interior ∧ NotOwnZero env e) r := by
  unfold correctorIteration
  rw [ends_bind, ends_solver]
  dsimp only
  refine (ends_measurePredictor_of_interior env h.toInterior h.m_pos.ne' h.mu_pos).bind ?_ ?_
  rotate_left
  · rintro e r₁ ⟨⟨yPred, lamPred, hs₁⟩, hfault⟩
    exact ⟨hs₁ ▸ ⟨h.slack, h.multipliers⟩, hfault⟩
  rintro sigma r₁ ⟨hsigma, yPred, lamPred, hypred, hlpred, hs₁⟩
  refine (ends_directions_any _ false).bind ?_ ?_
  rotate_left
  · rintro e r₂ ⟨⟨kkt, hs₂⟩, hfault⟩
    rw [hs₂, hs₁]
    exact ⟨⟨h.slack, h.multipliers⟩, hfault⟩
  rintro d₂ r₂ ⟨kkt, hs₂⟩
  rw [hs₁] at hs₂
  have hI₂ : r₂.solver.Interior := hs₂ ▸ ⟨h.slack, h.multipliers⟩
  rw [ends_bind, ends_lift]
  cases hlengths : r.solver.stepLengths d₂ (stepFraction r.solver) with
  | error e => exact ⟨hI₂, notOwnZero_of_notByZero (notByZero_stepLengths _ _ _) hlengths⟩
  | ok lengths =>
    obtain ⟨alphaP, alphaD⟩ := lengths
    obtain ⟨hP, hD⟩ := allowed_of_stepLengths hlengths
    have hlengths₂ : r₂.solver.stepLengths d₂ (stepFraction r.solver) = .ok (alphaP, alphaD) := by
      rw [hs₂]
      exact hlengths
    have hm₂ : r₂.solver.m ≠ 0 := by
      rw [hs₂]
      exact h.m_pos.ne'
    dsimp only
    refine (ends_takeStep_of_interior hI₂ hm₂ heta hone hlengths₂).bind ?_ fun _ _ hR => hR
    rintro _ r₃ ⟨hadvanced, x, y, lam, rp, rd, dx, dy, dlam, mu, hs₃⟩
    rw [hs₂] at hadvanced hs₃
    rw [ends_bind, ends_solver, ends_report]
    refine ⟨⟨hadvanced.slack, hadvanced.multipliers, hadvanced.m_eq, hadvanced.mu_eq⟩, alphaP,
      ⟨hP.nonneg, hP.le_one⟩, alphaD, ⟨hD.nonneg, hD.le_one⟩, ?_⟩
    rw [if_neg honly, hs₃]
    refine ⟨hypred, hlpred, sigma, hsigma, ?_⟩
    rw [List.getLast?_append]
    rfl

/-- Whatever directions the backend comes up with, an iteration stays in the interior, and a
division by zero does not refuse it. -/
theorem ends_iterate_of_poised (h : r.solver.Poised) (heta : 0 ≤ stepFraction r.solver)
    (hone : stepFraction r.solver < 1) :
    Ends (iterate env) (fun _ r' => Stepped r.solver r')
      (fun e r' => r'.solver.Interior ∧ NotOwnZero env e) r := by
  unfold iterate
  refine (ends_directions_any _ true).bind ?_ ?_
  rotate_left
  · rintro e r₁ ⟨⟨kkt, hs₁⟩, hfault⟩
    exact ⟨hs₁ ▸ ⟨h.slack, h.multipliers⟩, hfault⟩
  rintro d r₁ ⟨kkt, hs₁⟩
  have h₁ : r₁.solver.Poised :=
    hs₁ ▸ ⟨⟨h.slack, h.multipliers⟩, h.m_pos, h.size_y, h.size_lam, h.mu_eq⟩
  have hfraction : stepFraction r₁.solver = stepFraction r.solver := by
    rw [hs₁]
    rfl
  have hstepped : ∀ r' : Session (Solver K) σ K, Stepped r₁.solver r' → Stepped r.solver r' := by
    intro r' h'
    rw [hs₁] at h'
    exact ⟨⟨h'.slack, h'.multipliers, h'.m_eq, h'.mu_eq⟩, h'.reported⟩
  rw [← hfraction] at heta hone
  rw [ends_bind, ends_solver]
  split_ifs with honly
  · exact (ends_predictorIteration_of_poised env h₁ heta hone honly).mono
      (fun _ r' => hstepped r') fun _ _ hR => hR
  · exact (ends_correctorIteration_of_poised h₁ heta hone honly).mono
      (fun _ r' => hstepped r') fun _ _ hR => hR

/-! ## Directions that are found -/

omit [IsStrictOrderedRing K] in
/-- Where every call succeeds, a direction is found. -/
theorem Assembled.ends_directions_of_obliging {D : Data K} {f : Formulation} {o : Options K}
    (hb : env.backend.Obliging) (h : Assembled D f o r.solver) (hne : ∀ a ∈ r.solver.lam, a ≠ 0)
    {R : Fault K → Session (Solver K) σ K → Prop} :
    Ends (directions env .affine true)
      (fun d r' => d.Sized D.n D.m ∧ Assembled D f o r'.solver ∧
        ∃ kkt, r'.solver = { r.solver with kkt }) R r := by
  obtain ⟨-, hat, hrows⟩ := h.assemble
  show Ends (updateIterateBlocks >>= fun _ => directionFor env .affine .complete) _ _ r
  refine h.ends_updateIterateBlocks.bind ?_ fun _ _ hR => hR
  rintro _ r₁ ⟨-, hs₁⟩
  have h₁ : Assembled D f o r₁.solver := by
    rw [hs₁]
    exact h.of_kkt hat.toPrepared hrows
  have hne₁ : ∀ a ∈ r₁.solver.lam, a ≠ 0 := by rwa [hs₁]
  refine (h₁.ends_directionFor_of_solve (P := fun _ => True) hne₁ (Aim.fits_affine D.m)
    fun rhs => ends_newtonSolve_of_obliging hb rhs .complete).mono ?_ fun _ _ hR => hR
  rintro d r₂ ⟨hs₂, hd, -⟩
  exact ⟨hd, hs₂.symm ▸ h₁, _, hs₂.trans hs₁⟩

/-- In the interior, where every call succeeds, an iteration is not refused. -/
theorem Underway.ends_iterate_of_obliging {D : Data K} {f : Formulation} {o : Options K}
    (hm : 0 < D.m) (hexp : ∀ t : K, 0 < t → ElementaryFunctions.exp (-t) ∈ Set.Ioo 0 1)
    (hb : env.backend.Obliging) (h : Underway D f o r.solver) :
    Ends (iterate env) (fun _ r' => Underway D f o r'.solver) (fun _ _ => False) r := by
  unfold iterate
  refine (h.ends_directions_of_obliging hb fun a ha => (h.interior.multipliers a ha).ne').bind ?_
    fun _ _ hR => hR
  rintro d r₁ ⟨hd, hassembled, kkt, hs₁⟩
  have h₁ : Underway D f o r₁.solver := by
    rw [hs₁] at hassembled ⊢
    exact ⟨hassembled, ⟨h.interior.slack, h.interior.multipliers⟩, h.mu⟩
  rw [ends_bind, ends_solver]
  split_ifs
  · exact (h₁.ends_predictorIteration hm hexp hd).mono (fun _ _ hQ => hQ.2) fun _ _ hR => hR
  · exact (h₁.ends_correctorIteration_of_solve (P := fun _ => True) hm hexp hd
      fun rhs r₂ _ _ => ends_newtonSolve_of_obliging hb rhs .solve).mono (fun _ _ hQ => hQ.1)
      fun _ _ hR => hR

/-- An iteration keeps the iterate strictly in the interior, whatever directions it is given. -/
theorem iterate_interior (env : Environment σ K) (r : Session (Solver K) σ K)
    (h : r.solver.Poised)
    (hexp : ∀ t : K, 0 < t → ElementaryFunctions.exp (-t) ∈ Set.Ioo 0 1) :
    Work.NeverDividesByZero (fun E => @iterate σ K E env) r ∧
    (∀ (d : Direction K) (eta alphaP alphaD : K),
      r.solver.stepLengths d eta = .ok (alphaP, alphaD) →
        alphaP ∈ Set.Icc 0 1 ∧ alphaD ∈ Set.Icc 0 1) ∧
    (0 ≤ stepFraction r.solver ∧ stepFraction r.solver < 1) ∧
    Ends (iterate env)
      (fun _ r' => Stepped r.solver r' ∧ r'.solver.Interior ∧
        r'.solver.mu = r'.solver.dualityMeasure ∧ 0 < r'.solver.mu)
      (fun e r' => r'.solver.Interior ∧ NotOwnZero env e) r ∧
    (∀ (D : Data K) (f : Formulation) (o : Options K), Assembled D f o r.solver →
      env.backend.Obliging → Ends (iterate env) (fun _ _ => True) (fun _ _ => False) r) := by
  obtain ⟨heta, hone⟩ := stepFraction_mem hexp h.mu_pos h.m_pos
  refine ⟨neverDividesByZero_iterate env fun a ha => (h.multipliers a ha).ne', ?_, ⟨heta, hone⟩, ?_,
    ?_⟩
  · intro d eta alphaP alphaD hlengths
    obtain ⟨hP, hD⟩ := allowed_of_stepLengths hlengths
    exact ⟨⟨hP.nonneg, hP.le_one⟩, ⟨hD.nonneg, hD.le_one⟩⟩
  · refine (ends_iterate_of_poised h heta hone).mono ?_ fun _ _ hR => hR
    intro _ r' hstepped
    have h' := h.of_advanced hstepped.toAdvanced hone
    exact ⟨hstepped, h'.toInterior, h'.mu_eq, h'.mu_pos⟩
  · intro D f o hassembled hb
    have hmu : r.solver.mu = D.dualityMeasure r.solver.y r.solver.lam := by
      rw [h.mu_eq, hassembled.toLoaded.dualityMeasure_eq]
    exact (Underway.ends_iterate_of_obliging (hassembled.m_eq ▸ h.m_pos) hexp hb
      ⟨hassembled, h.toInterior, hmu⟩).mono (fun _ _ _ => trivial) fun _ _ hR => hR

end

/-- A backend whose every solution consists of ones. -/
def onesOnly : Environment (Backend.Caprice ℚ) ℚ :=
  ⟨Backend.capricious fun _ => (Backend.statusOk, 1), false⟩

/-- A fresh solver with that backend. -/
def onesStart : Session (Solver ℚ) (Backend.Caprice ℚ) ℚ :=
  ⟨.create 0 .standard, ⟨none, 0, #[]⟩, []⟩

theorem obliging_onesOnly : onesOnly.backend.Obliging :=
  ⟨Backend.answering_capricious fun _ => (Backend.statusOk, 1), fun _ _ _ _ _ => rfl⟩

/-- It is brought to the first iterate of a problem. -/
theorem exists_prepared_onesOnly : ∃ (p : Problem ℚ) (r : Session (Solver ℚ) _ ℚ),
    (halfLine 2 (-2) 0).Makes p ∧ (prepare onesOnly p).run.run onesStart = (.ok (), r) ∧
      (∃ f, Assembled (Options.standard.data (halfLine 2 (-2) 0)) f .standard r.solver) ∧
      r.solver.Poised := by
  have hrun : (do
      let p ← (halfLine 2 (-2) 0).problem?
      let _ ← ((prepare onesOnly p).run.run onesStart).1
      let s := ((prepare onesOnly p).run.run onesStart).2.solver
      pure (decide ((∀ a ∈ s.y, 0 < a) ∧ (∀ a ∈ s.lam, 0 < a) ∧ 0 < s.m ∧ s.y.size = s.m ∧
        s.lam.size = s.m ∧ s.mu = s.dualityMeasure)) :
        Except (Fault ℚ) Bool).toOption = some true := by
    decide +kernel
  obtain ⟨p, hp, hrun⟩ := exists_of_bind_toOption_eq_some hrun
  obtain ⟨_, hok, hrun⟩ := exists_of_bind_toOption_eq_some hrun
  obtain ⟨hy, hl, hm, hysize, hlsize, hmu⟩ := of_decide_eq_true (Option.some.inj hrun)
  have hprepared : (prepare onesOnly p).run.run onesStart =
      (.ok (), ((prepare onesOnly p).run.run onesStart).2) := Prod.ext hok rfl
  have hassembled := Solver.Usable.ends_prepare onesOnly
    (r := onesStart) ⟨Solver.ready_create 0 .standard, rfl, rfl⟩ (makes_halfLine hp)
    (by decide +kernel)
  unfold Ends at hassembled
  rw [hprepared] at hassembled
  exact ⟨p, _, makes_halfLine hp, hprepared, hassembled, ⟨hy, hl⟩, hm, hysize, hlsize, hmu⟩

theorem iterate_interior_onesOnly : ∃ (p : Problem ℚ) (r r' : Session (Solver ℚ) _ ℚ),
    (halfLine 2 (-2) 0).Makes p ∧ (prepare onesOnly p).run.run onesStart = (.ok (), r) ∧
      r.solver.Poised ∧ (iterate onesOnly).run.run r = (.ok (), r') ∧ Stepped r.solver r' := by
  obtain ⟨p, r, hmakes, hprepared, ⟨f, hassembled⟩, hpoised⟩ := exists_prepared_onesOnly
  obtain ⟨-, -, -, hsteps, hreturns⟩ := iterate_interior onesOnly r hpoised exp_neg_mem_Ioo
  have hreturns := hreturns _ f _ hassembled obliging_onesOnly
  unfold Ends at hsteps hreturns
  rcases hiterate : (iterate onesOnly).run.run r with ⟨_ | _, r'⟩
  · rw [hiterate] at hreturns
    exact hreturns.elim
  · rw [hiterate] at hsteps
    exact ⟨p, r, r', hmakes, hprepared, hpoised, hiterate, hsteps.1⟩

end InteriorPoint

end CentralPath
