/-
  Backends that answer alike. With one formulation on both sides, agreeing solvers bring their Newton
  matrices to the same iterate and ask for the same right-hand sides; where the answers are the same,
  so are the directions (`Answers.coupled`).
-/
import CentralPath.Proofs.InteriorPoint.Comparison

namespace CentralPath.InteriorPoint

open Backend (Environment Job Session Work)
open Backend.Work (Abreast Ends abreast_change abreast_change_bind abreast_report_bind
  abreast_solver_bind ends_bind ends_change ends_lift ends_report ends_solver ends_stopAt)
open Newton (Formulation systemFor)
open Problem (Data)
open Sparse (Matrix)

section

variable {σ α : Type} [Elementary α]

/-- The direction from the Newton matrix as it is. -/
def directionFor (env : Environment σ α) (aim : Newton.System.Aim α) (job : Job) :
    Run σ α (Newton.System.Direction α) := do
  let s ← Work.solver
  let sys ← Work.lift s.system?
  let rhs ← Work.lift (sys.rightHandSide s.rp s.rd s.y s.lam aim)
  let solution ← newtonSolve env rhs job
  Work.lift (sys.direction solution s.kkt s.rp s.compliance?)

end

variable {σ σ' K : Type} [Field K] [LinearOrder K] [ElementaryFunctions K]

/-- Bringing an assembled matrix to the iterate is not refused. -/
theorem Assembled.ends_updateIterateBlocks {D : Data K} {f : Formulation} {o : Options K}
    {r : Session (Solver K) σ K} (h : Assembled D f o r.solver)
    {R : Fault K → Session (Solver K) σ K → Prop} :
    Ends updateIterateBlocks (fun _ r' => r'.backend = r.backend ∧ r'.solver = { r.solver with
      kkt := (r.solver.kkt.assemble ((systemFor f D).iterateAssembly r.solver.y r.solver.lam
        r.solver.diagE)).2 }) R r := by
  unfold updateIterateBlocks
  rw [ends_bind, ends_solver, ends_bind, ends_lift, h.system?_eq]
  dsimp only
  rw [ends_bind, ends_change, ends_bind, ends_report, ends_stopAt, h.assemble.1]
  exact ⟨rfl, rfl⟩

variable {P : Pairing σ σ' K} {t : Tie σ K} {t' : Tie σ' K} {k k' : Nat × List (Record K)}
  {r s : Session (Solver K) σ K} {r' s' : Session (Solver K) σ' K}

namespace Pairing

/-- Both matrices are brought to the iterate, and nothing else changes. -/
theorem Twin.abreast_updateIterateBlocks (h : P.Twin t t' k k' r r')
    {R : Fault K → Session (Solver K) σ K → Fault K → Session (Solver K) σ' K → Prop} :
    Abreast updateIterateBlocks updateIterateBlocks (fun _ s _ s' =>
      (s.backend = r.backend ∧ s.solver = { r.solver with
        kkt := (r.solver.kkt.assemble ((systemFor P.f P.data).iterateAssembly r.solver.y
          r.solver.lam r.solver.diagE)).2 }) ∧
      (s'.backend = r'.backend ∧ s'.solver = { r'.solver with
        kkt := (r'.solver.kkt.assemble ((systemFor P.f' P.data).iterateAssembly r.solver.y
          r.solver.lam r.solver.diagE)).2 }) ∧
      P.Twin (tie s) (tie s') k k' s s' ∧
      Newton.AtIterate P.f P.data r.solver.y r.solver.lam s.solver.kkt ∧
      Newton.AtIterate P.f' P.data r.solver.y r.solver.lam s'.solver.kkt) R r r' := by
  obtain ⟨-, hat, hrows⟩ := h.left.assemble
  obtain ⟨-, hat', hrows'⟩ := h.right.assemble
  refine (h.left.ends_updateIterateBlocks (R := fun _ _ => False)).abreast
    (h.right.ends_updateIterateBlocks (R := fun _ _ => False)) ?_
    (fun _ _ _ _ hR => hR.elim) (fun _ _ _ _ _ hR => hR.elim) (fun _ _ _ _ hR => hR.elim)
  rintro _ s _ s' ⟨hb, hs⟩ ⟨hb', hs'⟩
  have htwin := h.of_kkt hat.toPrepared hrows hat'.toPrepared hrows' hs hs'
  rw [h.y, h.lam, h.diagE] at hs'
  rw [h.y, h.lam, h.diagE] at hat'
  refine ⟨⟨hb, hs⟩, ⟨hb', hs'⟩, htwin, ?_, ?_⟩
  · rw [hs]
    exact hat
  · rw [hs']
    exact hat'

/-- The same right-hand side and the same solution lead to the same direction. `S` is what the ties
have in common after the solution. -/
theorem Twin.abreast_directionFor (h : P.Twin t t' k k' r r') (hf : P.f' = P.f)
    (hrefl : ∀ e, P.refused e e) (hlink : P.link t t') (aim : Newton.System.Aim K) (job : Job)
    {S : Tie σ K → Tie σ' K → Prop} (hS : ∀ u u', S u u' → P.link u u')
    (hask : ∀ rhs, Abreast (newtonSolve P.env rhs job) (newtonSolve P.env' rhs job)
      (fun v s v' s' => v' = v ∧ s.solver = r.solver ∧ s'.solver = r'.solver ∧ S (tie s) (tie s'))
      (fun e s e' s' => P.refused e e' ∧ s.solver = r.solver ∧ s'.solver = r'.solver ∧
        P.link (tie s) (tie s')) r r') :
    Abreast (directionFor P.env aim job) (directionFor P.env' aim job)
      (fun d s d' s' => d' = d ∧ s.solver = r.solver ∧ P.Twin (tie s) (tie s') k k' s s' ∧
        S (tie s) (tie s')) P.Halted r r' := by
  have hhalted : ∀ e, P.Halted e r e r' := fun e => ⟨hrefl e, t, t', k, k', h.toAlongside, hlink⟩
  unfold directionFor
  rw [abreast_solver_bind, h.left.system?_eq, h.right.system?_eq, hf]
  refine Abreast.lift_bind rfl (fun sys hsys => ?_) fun e _ => hhalted e
  obtain rfl := Except.ok.inj hsys
  refine Abreast.lift_bind (by rw [h.rp, h.rd, h.y, h.lam]) (fun rhs _ => ?_) fun e _ => hhalted e
  refine ((hask rhs).mono (fun _ _ _ _ hQ => hQ) ?_).bind ?_
  · rintro e s e' s' ⟨hrefused, hs, hs', hlink'⟩
    exact ⟨hrefused, _, _, k, k', (h.of_backend hs hs').toAlongside, hlink'⟩
  rintro _ s solution s' ⟨rfl, hs, hs', hheld⟩
  have hs₁ := h.of_backend hs hs'
  refine Abreast.lift ?_ (fun d _ => ⟨rfl, hs, hs₁, hheld⟩) fun e _ =>
    ⟨hrefl e, _, _, k, k', hs₁.toAlongside, hS _ _ hheld⟩
  have hright := h.right.kkt
  have hsome : r'.solver.compliance?.isSome = r.solver.compliance?.isSome := by
    unfold Solver.compliance?
    rw [h.usesE]
    split_ifs <;> rfl
  rw [hf] at hright
  rw [h.rp]
  exact h.left.kkt.direction_congr hright h.left.compliance h.right.compliance hsome solution
    r.solver.rp

/-- The backends give the same answers wherever both solvers ask the same: the same right-hand side,
and a matrix that was brought to the same iterate. -/
structure Answers (P : Pairing σ σ' K) : Prop where
  debug : P.env'.debug = P.env.debug
  formulation : P.f' = P.f
  refused_refl : ∀ e, P.refused e e
  good_ones : ∀ v : Array K, P.good (Vector.constant 1 v)
  link_of_held : ∀ {d y lam t t'}, P.held d y lam t t' → P.link t t'
  link_assemble : ∀ {t t'} (a : Sparse.Assembly K), P.link t t' →
    P.link { t with kkt := (t.kkt.assemble a).2 } { t' with kkt := (t'.kkt.assemble a).2 }
  complete : ∀ {t t'} (a : Sparse.Assembly K) {y lam : Array K} (rhs : Array K)
    {s : Session (Solver K) σ K} {s' : Session (Solver K) σ' K}, P.link t t' →
    Newton.AtIterate P.f P.data y lam (t.kkt.assemble a).2 →
    Newton.AtIterate P.f P.data y lam (t'.kkt.assemble a).2 →
    tie s = { t with kkt := (t.kkt.assemble a).2 } →
    tie s' = { t' with kkt := (t'.kkt.assemble a).2 } →
    Abreast (newtonSolve P.env rhs .complete) (newtonSolve P.env' rhs .complete)
      (fun v u v' u' => v' = v ∧ u.solver = s.solver ∧ u'.solver = s'.solver ∧
        ∀ d, P.held d y lam (tie u) (tie u'))
      (fun e u e' u' => P.refused e e' ∧ u.solver = s.solver ∧ u'.solver = s'.solver ∧
        P.link (tie u) (tie u')) s s'
  again : ∀ {d y lam} (rhs : Array K) {s : Session (Solver K) σ K} {s' : Session (Solver K) σ' K},
    P.held d y lam (tie s) (tie s') →
    Abreast (newtonSolve P.env rhs .solve) (newtonSolve P.env' rhs .solve)
      (fun v u v' u' => v' = v ∧ u.solver = s.solver ∧ u'.solver = s'.solver ∧
        P.link (tie u) (tie u'))
      (fun e u e' u' => P.refused e e' ∧ u.solver = s.solver ∧ u'.solver = s'.solver ∧
        P.link (tie u) (tie u')) s s'

/-- Backends that answer alike lead to the same directions. -/
theorem Answers.coupled (hP : P.Answers) : P.Coupled where
  debug := hP.debug
  refused_refl := hP.refused_refl
  good_ones := hP.good_ones
  link_of_held := hP.link_of_held
  complete := by
    intro t t' k k' r r' h hlink _
    show Abreast (updateIterateBlocks >>= fun _ => directionFor P.env .affine .complete)
      (updateIterateBlocks >>= fun _ => directionFor P.env' .affine .complete) _ P.Halted r r'
    refine h.abreast_updateIterateBlocks.bind ?_
    rintro _ s _ s' ⟨⟨hb, hs⟩, ⟨hb', hs'⟩, htwin, hat, hat'⟩
    rw [hP.formulation] at hs' hat'
    set a := (systemFor P.f P.data).iterateAssembly r.solver.y r.solver.lam r.solver.diagE
    have htie : tie s = { t with kkt := (t.kkt.assemble a).2 } := by
      rw [← h.tie, tie, hs, hb]
      rfl
    have htie' : tie s' = { t' with kkt := (t'.kkt.assemble a).2 } := by
      rw [← h.tie', tie, hs', hb']
      rfl
    have hlink₁ : P.link (tie s) (tie s') := by
      rw [htie, htie']
      exact hP.link_assemble a hlink
    rw [show s.solver.kkt = (t.kkt.assemble a).2 from congrArg Tie.kkt htie] at hat
    rw [show s'.solver.kkt = (t'.kkt.assemble a).2 from congrArg Tie.kkt htie'] at hat'
    refine (htwin.abreast_directionFor hP.formulation hP.refused_refl hlink₁ .affine .complete
      (S := fun u u' => ∀ d, P.held d r.solver.y r.solver.lam u u')
      (fun _ _ hu => hP.link_of_held (hu ⟨#[], #[], #[]⟩))
      fun rhs => hP.complete a rhs hlink hat hat' htie htie').mono ?_ fun _ _ _ _ hR => hR
    rintro d u d' u' ⟨rfl, hu, htwin', hheld⟩
    refine ⟨rfl, ?_, ?_, _, _, htwin', hheld _⟩
    · rw [hu, hs]
    · rw [hu, hs]
  again := by
    intro t t' k k' r r' affine h hheld before sigma
    show Abreast (directionFor P.env (correctorAim before sigma affine) .solve)
      (directionFor P.env' (correctorAim before sigma affine) .solve) _ P.Halted r r'
    rw [← h.tie, ← h.tie'] at hheld
    have hlink := hP.link_of_held hheld
    rw [h.tie, h.tie'] at hlink
    refine (h.abreast_directionFor hP.formulation hP.refused_refl hlink _ .solve (S := P.link)
      (fun _ _ hu => hu) fun rhs => hP.again rhs hheld).mono ?_ fun _ _ _ _ hR => hR
    rintro d u d' u' ⟨rfl, -, htwin', hlink'⟩
    exact ⟨rfl, _, _, htwin', hlink'⟩

end Pairing

end CentralPath.InteriorPoint
