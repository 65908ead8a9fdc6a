/-
  Solving the normal rows alone. A solve that asks for the normal rows of a problem in triplets is the
  solve of the plain problem of those rows, to the last number and event; the problem in triplets
  receives its multipliers in every third place (`Handled.solve_normalRows`).
-/
import CentralPath.Proofs.InteriorPoint.Formulations
import CentralPath.Proofs.InteriorPoint.Interchange
import CentralPath.Proofs.InteriorPoint.RowChoice
import CentralPath.Proofs.Problem.NormalRows

namespace CentralPath.InteriorPoint

open Backend (Environment Session Work)
open Backend.Work (Abreast Ends abreast_change_bind abreast_lift_ok_bind abreast_report_bind
  abreast_solver_bind)
open Newton (Formulation)
open Problem (Data NormalRows)

variable {σ K : Type}

/-! ## Loading -/

section

variable {α : Type} [Elementary α] {env : Environment σ α} {p p' : Problem α} {k : Nat}
  {normalOnly : Bool} {r : Session (Solver α) σ α}

theorem loadHessian_congr (h : p'.hessianBlock = p.hessianBlock) :
    (loadHessian p' : Run σ α Unit) = loadHessian p := by
  unfold loadHessian
  rw [h]

/-- Nothing stands in for the compliance block of either problem. -/
theorem loadSubstitute_eq (h : p.substitute = none) :
    (loadSubstitute p : Run σ α Unit) = Work.solver >>= fun _ => pure () := by
  unfold loadSubstitute
  rw [Problem.substituteBlock, h]
  rfl

/-- The normal rows of the one problem are loaded as the rows of the other. -/
theorem parallel_loadJacobian (h : p.NormalRows p' k)
    (hskip : r.solver.options.skipTangential = true) :
    Parallel normalOnly (loadJacobian p) (loadJacobian p') r := by
  unfold loadJacobian loadExactly
  refine Parallel.solver_bind ?_
  rw [hskip, h.jacobian]
  refine blind_loadInto ?_ ?_ normalOnly r
  · exact fun _ _ _ => rfl
  · exact fun _ _ => rfl

theorem parallel_loadCompliance (h : p.NormalRows p' k)
    (hskip : r.solver.options.skipTangential = true) :
    Parallel normalOnly (loadCompliance p) (loadCompliance p') r := by
  unfold loadCompliance loadExactly
  refine Parallel.solver_bind ?_
  rw [hskip, h.compliance]
  refine Blind.ite (r.solver.options.useCompliance = true) ?_ (blind_pure ()) normalOnly r
  refine blind_loadInto ?_ ?_
  · exact fun _ _ _ => rfl
  · exact fun _ _ => rfl

theorem parallel_loadProblem (h : p.NormalRows p' k)
    (hskip : r.solver.options.skipTangential = true) :
    Parallel normalOnly (loadProblem p) (loadProblem p') r := by
  unfold loadProblem
  rw [loadHessian_congr h.hessian, loadSubstitute_eq h.substitute, loadSubstitute_eq h.substitute']
  refine Parallel.solver_bind ?_
  refine (blind_loadHessian p normalOnly r).bind fun _ r₁ ho₁ => ?_
  refine (parallel_loadJacobian h (ho₁ ▸ hskip)).bind fun _ r₂ ho₂ => ?_
  refine (parallel_loadCompliance h (ho₂ ▸ ho₁ ▸ hskip)).bind fun _ r₃ ho₃ => ?_
  refine Parallel.lift_bind ?_ fun f => Parallel.lift_bind ?_ fun bound => ?_
  · unfold Problem.linearFor
    rw [h.linear]
    rfl
  · unfold Problem.boundFor
    rw [hskip, h.bound]
    rfl
  · refine Blind.bind (w := Work.solver >>= fun _ => pure ()) ?_ (fun _ => ?_) normalOnly r₃
    · exact blind_solver_bind (fun _ _ => rfl) fun _ => blind_pure ()
    refine (blind_assign fun _ _ => rfl).bind fun _ => (blind_assign fun _ _ => rfl).bind fun _ => ?_
    exact blind_adoptCompliance

/-- Both problems are taken to the same first iterate. -/
theorem parallel_prepare (h : p.NormalRows p' k)
    (hskip : r.solver.options.skipTangential = true) :
    Parallel normalOnly (prepare env p) (prepare env p') r := by
  have hcounted : ∀ s : Solver α,
      p'.activeConstraints (s.choosing normalOnly).options.skipTangential =
        p.activeConstraints true := fun _ => (h.counted' _).trans h.counted.symm
  unfold prepare
  refine Parallel.change_bind (fun _ _ => rfl) (fun _ => rfl) (Parallel.solver_bind ?_)
  dsimp only
  rw [hskip, hcounted, h.unknowns]
  refine Parallel.lift_bind rfl fun sys => ?_
  refine Parallel.change_bind (fun _ _ => rfl) (fun _ => rfl) ?_
  refine (blind_allocateFor _ _ normalOnly _).bind fun _ r₁ ho₁ => ?_
  refine (parallel_loadProblem h (ho₁ ▸ hskip)).bind fun _ r₂ _ => ?_
  refine (blind_assembleSystem env sys normalOnly r₂).bind fun _ r₃ _ => ?_
  refine Parallel.change_bind (fun _ _ => rfl) (fun _ => rfl) ?_
  exact blind_startWith env _ _ normalOnly _

end

variable [Field K] [LinearOrder K] [ElementaryFunctions K] {env : Environment σ K}
  {r start : Session (Solver K) σ K} {p p' : Problem K} {q : Problem.Parts K} {k : Nat}
  {D : Data K} {f : Formulation} {o : Options K} {normalOnly : Bool}

/-! ## Handing back -/

/-- What a problem in triplets and the plain one of its normal rows receive. -/
structure Received (p p' : Problem K) (d d' : Delivery K) : Prop where
  outcome : d'.outcome = d.outcome
  triplets : d.problem = { p with
    x := some d.outcome.x, multipliers := some (Vector.inThirds d.outcome.multipliers) }
  plain : d'.problem = { p' with
    x := some d.outcome.x, multipliers := some d.outcome.multipliers }
  counted : p.constraints = 3 * d.outcome.multipliers.size

omit [ElementaryFunctions K] in
theorem receive_neg {x lam : Array K} (hx : x.size = p.unknowns) (hl : lam.size = p.constraints) :
    p.receive (x ++ Vector.neg lam) =
      .ok { p with x := some x, multipliers := some lam } := by
  rw [Problem.receive_append hx ((Vector.size_neg lam).trans hl), Vector.neg_neg_eq]

/-- All unknowns are handed back. -/
theorem handedUnknowns_eq {x : Array K} {n : Nat} (hx : x.size = n) (full : Nat) :
    handedUnknowns x n (full : Int) = .ok x := by
  unfold handedUnknowns
  rw [if_neg (by omega)]
  exact Vector.fill?_of_size_eq (hx.trans (by omega))

theorem spreadMultipliers_self (lam : Array K) :
    spreadMultipliers lam (lam.size : Int) = .ok (Vector.neg lam) := by
  unfold spreadMultipliers
  exact if_pos rfl

/-- Normal multipliers are spread over the triplets. -/
theorem spreadMultipliers_inThirds {lam : Array K} (hl : 0 < lam.size) :
    spreadMultipliers lam ((3 * lam.size : Nat) : Int) = .ok (Vector.neg (Vector.inThirds lam)) := by
  unfold spreadMultipliers
  rw [if_neg (by omega), if_neg (by omega)]
  refine congrArg Except.ok (Array.ext ?_ fun i hi hi' => ?_)
  · rw [Array.size_ofFn, Vector.size_neg, Vector.inThirds, Array.size_ofFn]
  · simp only [Vector.neg, Vector.inThirds, Array.getElem_ofFn, Array.getElem_map]
    split_ifs
    · rfl
    · exact neg_zero.symm

theorem abreast_handBack (h : p.NormalRows p' k) (hk : 0 < k) (hx : r.solver.x.size = p.unknowns)
    (hl : r.solver.lam.size = k) (before : Solver K) :
    Abreast (handBack p before) (handBack p' (before.choosing normalOnly))
      (fun d s d' s' => Received p p' d d' ∧ s' = choosing normalOnly s)
      (fun e s e' s' => e' = e ∧ s' = choosing normalOnly s) r (choosing normalOnly r) := by
  unfold handBack
  dsimp only
  rw [abreast_solver_bind]
  refine ((Abreast.and_ends (blind_conclude normalOnly r)
    (ends_conclude (R := fun _ _ => True))).mono (fun _ _ _ _ hQ => hQ)
      fun _ _ _ _ hR => hR.1).bind ?_
  rintro message s _ _ ⟨⟨rfl, rfl, -⟩, hs, -⟩
  have hxs : s.solver.x.size = p.unknowns := by rw [hs]; exact hx
  have hls : s.solver.lam.size = k := by rw [hs]; exact hl
  have hfull' : p'.activeConstraints false = (s.solver.lam.size : Int) := by rw [hls, h.counted']
  have hfull : p.activeConstraints false = ((3 * s.solver.lam.size : Nat) : Int) := by
    rw [hls, h.full]
  rw [abreast_solver_bind, hfull, hfull', h.unknowns]
  dsimp only [choosing, Solver.choosing]
  rw [handedUnknowns_eq hxs, handedUnknowns_eq hxs, spreadMultipliers_inThirds (by omega),
    spreadMultipliers_self]
  simp only [abreast_lift_ok_bind]
  rw [receive_neg hxs (by rw [Vector.inThirds, Array.size_ofFn, hls, h.constraints]),
    receive_neg (hxs.trans h.unknowns.symm) (hls.trans h.constraints'.symm),
    abreast_lift_ok_bind]
  refine Abreast.lift_bind rfl (fun objective _ => ?_) fun e _ => ⟨rfl, rfl⟩
  exact ⟨⟨rfl, rfl, rfl, by rw [h.constraints, ← hls]⟩, rfl⟩

/-! ## The whole solve -/

theorem abreast_finish (h : p.NormalRows p' k) (hk : 0 < k) (ha : Assembled D f o r.solver)
    (hn : D.n = p.unknowns) (hm : D.m = k) (before : Solver K) :
    Abreast (finish env p before) (finish env p' (before.choosing normalOnly))
      (fun d s d' s' => Received p p' d d' ∧ s' = choosing normalOnly s)
      (fun e s e' s' => e' = e ∧ s' = choosing normalOnly s) r (choosing normalOnly r) := by
  have hbegun : Assembled D f o
      { r.solver with hasIterate := true, iterations := 0, stage := .iterating } :=
    { ha with toLoaded := ha.toLoaded.of_booked ⟨_, _, _, _, rfl⟩ }
  have hkept : Ends (iterateWithin env before.options.maxIterations.toNat)
      (fun _ s => Assembled D f o s.solver) (fun _ _ => True)
      { r with solver := { r.solver with hasIterate := true, iterations := 0, stage := .iterating } } :=
    ends_iterateWithin (I := fun s => Assembled D f o s.solver) (J := fun _ => True)
      (fun s hs => (hs.ends_iterate env (by omega)).mono (fun _ _ h => h) fun _ _ _ => trivial)
      (fun _ _ hs hbooked _ => hs.of_booked hbooked) (fun _ _ => trivial) _ hbegun
  unfold finish
  rw [abreast_change_bind]
  refine ((Abreast.and_ends (blind_iterateWithin env before.options.maxIterations.toNat normalOnly
    { r with solver := { r.solver with hasIterate := true, iterations := 0, stage := .iterating } })
    hkept).mono (fun _ _ _ _ hQ => hQ) fun _ _ _ _ hR => hR.1).bind ?_
  rintro _ s _ _ ⟨⟨-, rfl, -⟩, hs⟩
  exact abreast_handBack h hk (hs.ready.x.trans (hs.n_eq.trans hn))
    (hs.ready.lam.trans (hs.m_eq.trans hm)) before

theorem pose_congr (h : p.NormalRows p' k) (n : Nat) :
    pose env p' n = pose env p n := by
  unfold pose
  rw [loadHessian_congr h.hessian, Problem.linearFor, h.linear]
  rfl

theorem blind_pose (env : Environment σ K) (p : Problem K) (n : Nat) : Blind (pose env p n) := by
  unfold pose
  refine blind_change_bind (fun s normalOnly => s.allocate_choosing normalOnly n 0)
    (fun s => s.options_allocate n 0) ((blind_loadHessian p).bind fun _ => ?_)
  refine blind_lift_bind fun linear => (blind_assign fun _ _ => rfl).bind fun _ => ?_
  refine blind_solver_bind (fun _ _ => rfl) fun s => ?_
  refine blind_change_bind (fun _ _ => rfl) (fun _ => rfl) ?_
  exact blind_report_bind (blind_pure _)

/-- Without normal rows there are no multipliers to hand back. -/
theorem abreast_settle_rows (h : p.NormalRows p' 0) (hx : r.solver.x.size = p.unknowns)
    (G : Sparse.Matrix K) (found : Array K) :
    Abreast (settle p p.unknowns 0 G found) (settle p' p.unknowns 0 G found)
      (fun d s d' s' => Received p p' d d' ∧ s' = choosing normalOnly s)
      (fun e s e' s' => e' = e ∧ s' = choosing normalOnly s) r (choosing normalOnly r) := by
  unfold settle Solver.assign
  rw [bind_assoc, bind_assoc, abreast_solver_bind, bind_assoc, bind_assoc]
  refine Abreast.lift_bind rfl (fun x hfill => ?_) fun e _ => ⟨rfl, rfl⟩
  have hx : x.size = p.unknowns := (Vector.size_of_fill? hfill).trans hx
  rw [abreast_change_bind, abreast_change_bind, abreast_report_bind, abreast_solver_bind]
  dsimp only [Solver.withComponent]
  have hhead : handedUnknowns x p.unknowns 0 = .ok x := handedUnknowns_eq hx 0
  have hnone : x ++ Vector.zeros (((p.unknowns : Int) + 0).toNat - x.size) =
      x ++ Vector.neg #[] := by
    rw [hx, Int.add_zero, Int.toNat_natCast, Nat.sub_self, Vector.zeros, Vector.neg,
      Array.replicate_zero, Array.map_empty]
  have hsize : (#[] : Array K).size = p.constraints := h.constraints.symm
  have hsize' : (#[] : Array K).size = p'.constraints := h.constraints'.symm
  rw [hhead, abreast_lift_ok_bind, hnone, receive_neg hx hsize,
    receive_neg (hx.trans h.unknowns.symm) hsize', abreast_lift_ok_bind]
  refine Abreast.lift_bind rfl (fun image _ => ?_) fun e _ => ⟨rfl, rfl⟩
  refine Abreast.lift_bind rfl (fun rd _ => ?_) fun e _ => ⟨rfl, rfl⟩
  refine Abreast.lift_bind rfl (fun objective _ => ?_) fun e _ => ⟨rfl, rfl⟩
  exact ⟨⟨rfl, rfl, rfl, h.constraints⟩, rfl⟩

/-- Without normal rows there are no constraints. -/
theorem abreast_solveUnconstrained_rows (h : p.NormalRows p' 0) (hr : r.solver.Ready)
    (hq : q.Makes p) :
    Abreast (solveUnconstrained env p p.unknowns 0) (solveUnconstrained env p' p.unknowns 0)
      (fun d s d' s' => Received p p' d d' ∧ s' = choosing normalOnly s)
      (fun e s e' s' => e' = e ∧ s' = choosing normalOnly s) r (choosing normalOnly r) := by
  rw [solveUnconstrained_eq, solveUnconstrained_eq, pose_congr h]
  refine ((Abreast.and_ends (blind_pose env p p.unknowns normalOnly r)
    (ends_pose env hr hq)).mono (fun _ _ _ _ hQ => hQ) fun _ _ _ _ hR => hR.1).bind ?_
  rintro _ s G _ ⟨⟨rfl, rfl, -⟩, hposed, -⟩
  rw [abreast_solver_bind]
  have hask : Blind (Work.request env (.hessian s.solver.id) G (Vector.neg s.solver.c) .complete
      "unconstrained system" >>= fun _ => Work.solution env) :=
    (blind_request env _ _ _ _ _).bind fun _ => blind_solution env
  have hkept : Ends (Work.request env (.hessian s.solver.id) G (Vector.neg s.solver.c) .complete
      "unconstrained system" >>= fun _ => Work.solution env) (fun _ t => t.solver = s.solver)
      (fun _ _ => True) s := by
    refine (Work.ends_request_solver env _ _ _ _ _).bind ?_ fun _ _ _ => trivial
    intro _ t ht
    rw [Work.ends_solution]
    split
    · exact ht
    · trivial
  refine ((Abreast.and_ends (hask normalOnly s) hkept).mono
    (fun _ _ _ _ hQ => hQ) fun _ _ _ _ hR => hR.1).bind ?_
  rintro _ t found _ ⟨⟨rfl, rfl, -⟩, ht⟩
  refine abreast_settle_rows h ?_ G found
  rw [ht]
  exact hposed.ready.x.trans hposed.n_eq

theorem abreast_solveProblem_rows (hr : r.solver.Usable)
    (hskip : r.solver.options.skipTangential = true) (hq : q.Makes p) (h : p.NormalRows p' k) :
    Abreast (solveProblem env p) (solveProblem env p')
      (fun d s d' s' => Received p p' d d' ∧ s' = choosing normalOnly s)
      (fun e s e' s' => e' = e ∧ s' = choosing normalOnly s) r (choosing normalOnly r) := by
  have hactive : p.activeConstraints r.solver.options.skipTangential = (k : Int) := by
    rw [hskip, h.counted]
  have hactive' : p'.activeConstraints (choosing normalOnly r).solver.options.skipTangential =
      (k : Int) := h.counted' _
  rcases Nat.eq_zero_or_pos k with rfl | hk
  · unfold solveProblem
    rw [abreast_change_bind, abreast_solver_bind]
    dsimp only
    rw [if_pos (by rw [hactive, Nat.cast_zero]), if_pos (by rw [hactive', Nat.cast_zero]), h.full,
      h.counted' false, h.unknowns]
    exact abreast_solveUnconstrained_rows
      (r := { r with solver := { r.solver with solveCalls := r.solver.solveCalls + 1 } }) h
      { hr.toReady with } hq
  have hm : (r.solver.options.data q).m = k := by
    have hcount : p.activeConstraints r.solver.options.skipTangential =
        ((r.solver.options.data q).m : Int) := hq.fit.activeConstraints
    omega
  refine Abreast.congr (do prepare env p; finish env p r.solver)
    (do prepare env p'; finish env p' (r.solver.choosing normalOnly)) ?_
    (fun _ _ h => (ends_solveProblem (by omega)).mpr ((Work.ends_bind _ _).mp h))
    (fun _ _ h => (ends_solveProblem (by omega)).mpr ((Work.ends_bind _ _).mp h))
  refine ((Abreast.and_ends (parallel_prepare h hskip)
    (hr.ends_prepare env hq (by omega))).mono (fun _ _ _ _ hQ => hQ)
      fun _ _ _ _ hR => hR.1).bind ?_
  rintro _ s _ _ ⟨⟨-, rfl, -⟩, f, hs⟩
  exact abreast_finish h hk hs hq.fit.unknowns.symm hm r.solver

/-- Iteration by iteration, the numbers are the same. -/
theorem parallel_iterations (h : p.NormalRows p' k)
    (hskip : start.solver.options.skipTangential = true) (j : Nat) :
    Parallel normalOnly (iterations env p j) (iterations env p' j) start := by
  have hrest : Blind (Work.change Solver.begun >>= fun _ => iterateWithin env j) :=
    blind_change_bind (fun _ _ => rfl) (fun _ => rfl) (blind_iterateWithin env j)
  exact (parallel_prepare h hskip).bind fun _ s _ => hrest normalOnly s

/-- What the solve `a` of a problem in triplets and the solve `a'` of the plain one of its normal rows
have in common: the outcome and the session, which differ in the choice of rows alone. What is refused
leaves both problems as they were. -/
structure Solved.SameRows (p p' : Problem K) (normalOnly : Bool) (a a' : Solved σ K) : Prop where
  outcome : a'.outcome = a.outcome
  session : a'.session = choosing normalOnly a.session
  refused : ∀ e, a.outcome = .error e → a.problem = p ∧ a'.problem = p'
  received : ∀ out, a.outcome = .ok out → Received p p' ⟨out, a.problem⟩ ⟨out, a'.problem⟩

/-- A solve that asks for the normal rows alone is the solve of the plain problem of those rows, which
is accepted: they are the same up to every iteration and come to the same outcome in the same session,
whether the plain problem is asked for its normal rows or not. -/
theorem Handled.solve_normalRows (hstart : Handled env start)
    (hskip : start.solver.options.skipTangential = true) (hq : q.Makes p) (ht : q.triplets = true) :
    (∃ p', q.normal.problem? = .ok p' ∧ q.normal.Makes p') ∧
      ∀ p' normalOnly, q.normal.Makes p' →
        (∀ j, (iterations env p' j).run.run (choosing normalOnly start) =
          ((iterations env p j).run.run start).map id (choosing normalOnly)) ∧
        (solve env p start).SameRows p p' normalOnly (solve env p' (choosing normalOnly start)) := by
  refine ⟨hq.exists_normal ht, fun p' normalOnly hq' => ?_⟩
  obtain ⟨k, hk⟩ := hq.rows_eq ht
  have hrows := hq.normalRows hk ht hq'
  refine ⟨fun j => (parallel_iterations hrows hskip j).run_eq, ?_⟩
  have habreast : Abreast (solveProblem env p) (solveProblem env p')
      (fun d s d' s' => Received p p' d d' ∧ s' = choosing normalOnly s)
      (fun e s e' s' => e' = e ∧ s' = choosing normalOnly s) start (choosing normalOnly start) :=
    abreast_solveProblem_rows hstart.usable hskip hq hrows
  obtain ⟨d, d', ha, ha', hd, hs⟩ | ⟨e, e', ha, ha', rfl, hs⟩ := solve_of_abreast habreast
  · refine ⟨?_, hs, ?_, ?_⟩
    · rw [ha, ha', hd.outcome]
    · intro e he
      rw [ha] at he
      cases he
    · intro out hout
      rw [ha] at hout
      obtain rfl := Except.ok.inj hout
      rw [ha, ha']
      exact ⟨rfl, hd.triplets, hd.plain, hd.counted⟩
  · refine ⟨by rw [ha, ha'], hs, ?_, ?_⟩
    · intro _ _
      rw [ha, ha']
      exact ⟨rfl, rfl⟩
    · intro out hout
      rw [ha] at hout
      cases hout

/-- A contact with one unknown: `x ≥ 1` along its normal, with friction rows and a compliance block
that is coupled. -/
def contact : Problem.Parts ℚ where
  G := .dense ⟨1, 1, #[#[2]]⟩
  c := #[-2]
  A := .dense ⟨3, 1, #[#[1], #[5], #[7]]⟩
  b := #[1, 9, 9]
  E := some (.dense ⟨3, 3, #[#[1, 4, 0], #[4, 2, 6], #[0, 6, 3]]⟩)
  triplets := true

/-- A fresh solver that asks for normal rows alone. -/
def normalStart : Session (Solver ℚ) (Backend.Adapter (Sparse.Matrix ℚ) ℚ) ℚ :=
  choosing true (freshStart .standard)

theorem solve_normalRows_contact : ∃ (p p' : Problem ℚ) (out : Outcome ℚ),
    contact.Makes p ∧ contact.normal.problem? = .ok p' ∧
      (solve cramerEnvironment p normalStart).outcome = .ok out ∧ out.stage = .converged ∧
      0 < out.iterations ∧
      (solve cramerEnvironment p normalStart).SameRows p p' false
        (solve cramerEnvironment p' (choosing false normalStart)) := by
  have hrun : (do
      let p ← contact.problem?
      let out ← (solve cramerEnvironment p normalStart).outcome
      pure (decide (out.stage = .converged ∧ 0 < out.iterations)) :
        Except (Fault ℚ) Bool).toOption = some true := by
    decide +kernel
  obtain ⟨p, hp, hrun⟩ := exists_of_bind_toOption_eq_some hrun
  obtain ⟨out, hout, hrun⟩ := exists_of_bind_toOption_eq_some hrun
  obtain ⟨hconverged, hiterated⟩ := of_decide_eq_true (Option.some.inj hrun)
  have hmakes : contact.Makes p := Problem.Parts.makes_of_problem?
    (fun e he => by obtain rfl := Option.some.inj he; trivial) hp
  obtain ⟨⟨p', hp', hmakes'⟩, hsame⟩ :=
    (Handled.created 0 _ _ [] : Handled cramerEnvironment normalStart).solve_normalRows rfl hmakes rfl
  exact ⟨p, p', out, hmakes, hp', hout, hconverged, hiterated, (hsame p' false hmakes').2⟩

end CentralPath.InteriorPoint
