/-
  A solve that its problem takes part in. `solveInPlace` runs with the problem at hand and changes it
  where the solution is delivered, so that whatever is refused behind that point finds it changed. It
  goes by the numbers of constraints and the compliance that the problem gives out, which need not be
  those that it has. Nothing is refused behind the delivery (`ends_handOver`), and on the problem's own
  terms this is the solve as it is (`run_solveInPlace`).
-/
import CentralPath.Proofs.InteriorPoint.Framed
import CentralPath.Proofs.InteriorPoint.Reachable

namespace CentralPath.InteriorPoint

open Backend (Environment Session Work)
open Backend.Work (Ends ends_bind ends_change ends_lift ends_solver run_bind_of_error run_bind_of_ok
  run_solver_bind)
open Sparse (Block Matrix)

variable {σ α β : Type}

/-! ## A problem at hand -/

/-- A session with a problem at hand. -/
def facing (p : Problem α) (r : Session (Solver α) σ α) : Session (Solver α × Problem α) σ α :=
  ⟨(r.solver, p), r.backend, r.events⟩

/-- Work of the solver alone, which leaves the problem at hand as it is. -/
def alone (w : Run σ α β) : Work (Solver α × Problem α) σ α β :=
  ExceptT.mk fun r =>
    let (b, r') := w.run.run ⟨r.solver.1, r.backend, r.events⟩
    (b, facing r.solver.2 r')

theorem run_alone (w : Run σ α β) (p : Problem α) (r : Session (Solver α) σ α) :
    (alone w).run.run (facing p r) = ((w.run.run r).1, facing p (w.run.run r).2) := rfl

theorem ends_alone {w : Run σ α β} {p : Problem α} {r : Session (Solver α) σ α}
    {Q : β → Session (Solver α × Problem α) σ α → Prop}
    {R : Fault α → Session (Solver α × Problem α) σ α → Prop} :
    Ends (alone w) Q R (facing p r) ↔
      Ends w (fun b r' => Q b (facing p r')) (fun e r' => R e (facing p r')) r := by
  unfold Ends
  rw [run_alone]
  rcases w.run.run r with ⟨_ | _, _⟩ <;> rfl

/-- What a solve hands over: the vector for its problem, and what it comes to once the problem has
taken that. -/
structure Handover (α : Type) where
  vector : Array α
  outcome : Except (Fault α) (Outcome α)

/-- What a problem gives out about itself: the number of its constraints, of the normal ones or of
all, and a block that is written over its compliance, with the room to make for that. -/
structure Terms (α : Type) where
  count : Bool → Int
  compliance : Option (Block α × Int)

/-- The terms of a problem by itself. -/
def Terms.of [Scalar α] (p : Problem α) : Terms α :=
  ⟨p.activeConstraints, p.substituteBlock.map (·, 0)⟩

variable [Elementary α]

/-- Writes over the compliance, where there is something to write and compliance is asked for. -/
def loadOver (cover : Option (Block α × Int)) : Run σ α Unit := do
  let s ← Work.solver
  match cover with
  | some (b, room) =>
    if s.options.useCompliance then
      loadInto s.E (fun E s => { s with E }) b room
  | none => pure ()

/-- Loads a problem and what is written over its compliance. -/
def loadOn (p : Problem α) (cover : Option (Block α × Int)) : Run σ α Unit := do
  let s ← Work.solver
  loadHessian p
  loadJacobian p
  loadCompliance p
  let f ← Work.lift (p.linearFor s.n)
  let bound ← Work.lift (p.boundFor s.options.skipTangential s.m)
  loadOver cover
  Solver.assign .c fun s => Vector.fill? s.c.size (Vector.neg f)
  Solver.assign .b fun s => Vector.fill? s.b.size (Vector.neg bound)
  adoptCompliance

/-- A solve with constraints, which found the solver as `before`, up to the point where it begins to
iterate. -/
def prepareFor (env : Environment σ α) (p : Problem α) (cover : Option (Block α × Int)) (m : Int)
    (before : Solver α) : Run σ α Unit := do
  let n := p.unknowns
  let sys ← Work.lift (Newton.System.create before.options.formulation n m)
  Work.change fun s => { s with system := some sys }
  allocateFor n m
  loadOn p cover
  assembleSystem env sys
  Work.change fun s => { s with stage := .initialized }
  startWith env before.options.startingPoint (reuseFor before n m)
  Work.change fun s => { s with hasIterate := true, iterations := 0, stage := .iterating }

/-- What a solve hands over after its last iteration. -/
def handOverIterate (n : Nat) (full : Int) (before : Solver α) : Run σ α (Handover α) := do
  let q := (← Work.solver).measures
  let message ← conclude
  let s ← Work.solver
  let head ← Work.lift (handedUnknowns s.x n full)
  let multipliers ← Work.lift (spreadMultipliers s.lam full)
  pure ⟨head ++ multipliers, s.objective.map fun objective =>
    { x := s.x
      objective
      stage := s.stage
      message
      iterations := s.iterations
      measures := q
      slack := s.y
      multipliers := s.lam
      history := s.history.drop before.history.length }⟩

/-- What a solve without constraints comes to. -/
def Solver.directOutcome (s : Solver α) (n : Nat) (G : Matrix α) :
    Except (Fault α) (Outcome α) := do
  let rd ← Vector.zip? (· + ·) (← G.mulVec s.x false) s.c
  let objective ← s.objective
  pure
    { x := s.x
      objective
      stage := s.stage
      message := "No constraints; unconstrained minimizer returned"
      iterations := 0
      measures := ⟨0, Vector.normOver rd n, 0⟩
      slack := #[]
      multipliers := #[]
      history := [] }

/-- What a solve without constraints hands over after the answer of the backend. -/
def handOverAnswer (n : Nat) (full : Int) (G : Matrix α) (found : Array α) :
    Run σ α (Handover α) := do
  Solver.assign .x fun s => Vector.fill? s.x.size found
  Work.change fun s => { s with mu := 0, stage := .degenerate, hasIterate := false }
  Work.report [.solvedDirectly n]
  let s ← Work.solver
  let head ← Work.lift (handedUnknowns s.x n full)
  pure ⟨head ++ Vector.zeros ((n + full).toNat - head.size), s.directOutcome n G⟩

/-- A solve up to the point where the solution is delivered. -/
def handOver (env : Environment σ α) (p : Problem α) (terms : Terms α) : Run σ α (Handover α) := do
  Work.change fun s => { s with solveCalls := s.solveCalls + 1 }
  let s ← Work.solver
  let n := p.unknowns
  let m := terms.count s.options.skipTangential
  let full := terms.count false
  if m = 0 then
    let G ← pose env p n
    let s ← Work.solver
    Work.request env (.hessian s.id) G (Vector.neg s.c) .complete "unconstrained system"
    let found ← Work.solution env
    handOverAnswer n full G found
  else
    let before ← Work.solver
    prepareFor env p terms.compliance m before
    iterateWithin env before.options.maxIterations.toNat
    handOverIterate n full before

/-- What is handed over is delivered: the problem at hand changes, and what is refused after that
leaves it changed. -/
def deliver (p : Problem α) (h : Handover α) : Work (Solver α × Problem α) σ α (Outcome α) := do
  let received ← Work.lift (p.receive h.vector)
  Work.change fun (s, _) => (s, received)
  Work.lift h.outcome

/-- A solve of the problem at hand. -/
def solveInPlace (env : Environment σ α) (terms : Terms α) :
    Work (Solver α × Problem α) σ α (Outcome α) := do
  let (_, p) ← Work.solver
  alone (handOver env p terms) >>= deliver p

section

variable {env : Environment σ α} {p : Problem α} {terms : Terms α}
  {r r' : Session (Solver α) σ α}

theorem run_solveInPlace_of_error {e : Fault α}
    (h : (handOver env p terms).run.run r = (.error e, r')) :
    (solveInPlace env terms).run.run (facing p r) = (.error e, facing p r') := by
  have halone : (alone (handOver env p terms)).run.run (facing p r) = (.error e, facing p r') := by
    rw [run_alone, h]
  unfold solveInPlace
  rw [run_solver_bind]
  exact run_bind_of_error halone (deliver p)

theorem run_solveInPlace_of_ok {h : Handover α}
    (hhand : (handOver env p terms).run.run r = (.ok h, r')) :
    (solveInPlace env terms).run.run (facing p r) = (deliver p h).run.run (facing p r') := by
  have halone : (alone (handOver env p terms)).run.run (facing p r) = (.ok h, facing p r') := by
    rw [run_alone, hhand]
  unfold solveInPlace
  rw [run_solver_bind]
  exact run_bind_of_ok halone (deliver p)

end

/-! ## The solve as it is -/

theorem loadProblem_eq_loadOn (p : Problem α) :
    (loadProblem p : Run σ α Unit) = loadOn p (Terms.of p).compliance := by
  have hover : (loadSubstitute p : Run σ α Unit) = loadOver (Terms.of p).compliance := by
    unfold loadSubstitute loadOver Terms.of
    cases p.substituteBlock <;> rfl
  unfold loadProblem loadOn
  rw [hover]

/-- What a solve delivers is what is handed over on the problem's own terms. -/
theorem solveProblem_eq_handOver (env : Environment σ α) (p : Problem α) :
    solveProblem env p = (handOver env p (Terms.of p) >>= fun h =>
      Work.lift (p.receive h.vector) >>= fun problem =>
        Work.lift h.outcome >>= fun outcome => pure ⟨outcome, problem⟩) := by
  unfold solveProblem handOver
  rw [bind_assoc]
  refine bind_congr fun _ => ?_
  rw [bind_assoc]
  refine bind_congr fun s => ?_
  simp only [show (Terms.of p).count = p.activeConstraints from rfl]
  split_ifs
  · rw [solveUnconstrained_eq]
    unfold settle handOverAnswer Solver.directOutcome
    simp only [bind_assoc, pure_bind, Work.lift_bind]
    rfl
  · unfold solveConstrained prepareFor handOverIterate
    simp only [bind_assoc, pure_bind, Work.lift_map_bind, loadProblem_eq_loadOn]

/-! ## What a solve finds -/

/-- The storage of the Hessian is sound, and the linear term is as long as the point. -/
structure Solver.Orderly (s : Solver α) : Prop where
  hessian : s.G.Sound
  c : s.c.size = s.x.size

/-- The Hessian is one for `n` unknowns. -/
structure Solver.Shaped (n : Nat) (s : Solver α) : Prop extends s.Orderly where
  rows : s.G.rows = n
  cols : s.G.cols = n

/-- The point has as many components as there are unknowns, unless a single number was taken for all
components of the linear term. -/
structure Solver.Faces (n : Nat) (s : Solver α) : Prop extends s.Shaped n where
  length : n = s.x.size ∨ n = 1

section

variable {s s' : Solver α} {n : Nat}

omit [Elementary α] in
theorem Solver.Orderly.of_framed (h : s.Orderly) (hs : s.Framed s') : s'.Orderly :=
  ⟨hs.hessian ▸ h.hessian, hs.c.trans (h.c.trans hs.x.symm)⟩

omit [Elementary α] in
theorem Solver.Shaped.of_framed (h : s.Shaped n) (hs : s.Framed s') : s'.Shaped n :=
  ⟨h.toOrderly.of_framed hs, hs.hessian ▸ h.rows, hs.hessian ▸ h.cols⟩

omit [Elementary α] in
theorem Solver.Faces.of_framed (h : s.Faces n) (hs : s.Framed s') : s'.Faces n :=
  ⟨h.toShaped.of_framed hs, hs.x ▸ h.length⟩

theorem Solver.orderly_create (id : Nat) (options : Options α) :
    (Solver.create id options).Orderly := ⟨Matrix.sound_unit, rfl⟩

theorem Solver.Orderly.resizeUnknowns (h : s.Orderly) (n : Nat) : (s.resizeUnknowns n).Orderly := by
  unfold Solver.resizeUnknowns
  split_ifs
  · exact h
  · exact ⟨h.hessian, by rw [Vector.zeros, Vector.ones, Array.size_replicate, Array.size_replicate]⟩

theorem Solver.Orderly.allocate (h : s.Orderly) (n m : Nat) : (s.allocate n m).Orderly := by
  have hresized := h.resizeUnknowns n
  unfold Solver.allocate
  dsimp only
  split_ifs
  · exact ⟨hresized.hessian, hresized.c⟩
  · exact ⟨hresized.hessian, hresized.c⟩

/-- The linear term is written over by one of `n` components. -/
theorem Solver.Shaped.faces_of_fill? (h : s.Shaped n) {f c : Array α} (hf : f.size = n)
    (hc : Vector.fill? s.c.size (Vector.neg f) = .ok c) : { s with c }.Faces n := by
  have hsize := Vector.size_of_fill? hc
  refine ⟨⟨⟨h.hessian, hsize.trans h.c⟩, h.rows, h.cols⟩, ?_⟩
  have hneg : (Vector.neg f).size = n := (Array.size_map ..).trans hf
  rw [h.c] at hc
  obtain ⟨heq, -⟩ | ⟨-, hone, -⟩ := Vector.cases_of_fill? hc
  · exact .inl (hneg.symm.trans heq)
  · exact .inr (hneg.symm.trans hone)

/-- The objective has a value where the point has the right length. -/
theorem Solver.Shaped.exists_objective (h : s.Shaped n) (hx : s.x.size = n) :
    ∃ v, s.objective = .ok v := by
  unfold Solver.objective
  rw [h.hessian.mulVec_eq_product (hx.trans h.cols.symm)]
  refine ⟨_, if_neg ?_⟩
  rw [not_or, not_not, not_not]
  exact ⟨Array.size_ofFn.trans (h.rows.trans hx.symm), h.c⟩

/-- So has the outcome of a solve without constraints. -/
theorem Solver.Shaped.exists_directOutcome (h : s.Shaped n) (hx : s.x.size = n) :
    ∃ out, s.directOutcome n s.G = .ok out ∧ out.x = s.x ∧ out.multipliers = #[] := by
  obtain ⟨objective, hobjective⟩ := h.exists_objective hx
  have himage : (Sparse.product s.G.entries s.x s.G.rows).size = s.c.size :=
    Array.size_ofFn.trans (h.rows.trans (hx.symm.trans h.c.symm))
  unfold Solver.directOutcome
  rw [h.hessian.mulVec_eq_product (hx.trans h.cols.symm)]
  dsimp only [bind, Except.bind]
  rw [Vector.zip?_of_size_eq himage, hobjective]
  exact ⟨_, rfl, rfl, rfl⟩

/-- Where unknowns are handed over, they are those of the point. -/
theorem Solver.Faces.eq_of_handedUnknowns (h : s.Faces n) {full : Int} (hfull : 0 ≤ full)
    {head : Array α} (hhead : handedUnknowns s.x n full = .ok head) :
    s.x.size = n ∧ head = s.x := by
  have hlength := h.length
  unfold handedUnknowns at hhead
  rw [if_neg (by omega), show min n (n + full).toNat = n by omega] at hhead
  obtain hwhole | ⟨hne, hone, -⟩ := Vector.cases_of_fill? hhead
  · exact hwhole
  · omega

end

variable {env : Environment σ α} {p : Problem α} {r : Session (Solver α) σ α}

theorem framed_loadOver (cover : Option (Block α × Int)) :
    Work.Keeps Solver.Framed (loadOver cover : Run σ α Unit) := by
  unfold loadOver
  refine Work.keeps_solver_bind fun s => ?_
  split
  · exact .ite _ (keeps_loadInto fun _ _ => ⟨rfl, rfl, rfl⟩) (Work.keeps_pure ())
  · exact Work.keeps_pure ()

theorem ends_loadHessian_shaped (h : r.solver.Orderly) :
    Ends (loadHessian p) (fun _ r' => r'.solver.Shaped p.unknowns ∧ r'.solver.n = r.solver.n)
      (fun _ r' => r'.solver.Orderly) r := by
  set loaded := (r.solver.G.loadBlock p.hessianBlock p.hessianBlock.entries.length).2
  have hshape := h.hessian.shape_loadBlock p.hessianBlock p.hessianBlock.entries.length
  have hloaded : { r.solver with G := loaded }.Shaped p.unknowns :=
    ⟨⟨h.hessian.loadBlock _ _, h.c⟩, hshape.1, hshape.2⟩
  unfold loadHessian loadExactly loadInto
  rw [ends_bind, ends_solver, ends_bind, ends_change, ends_bind, Work.ends_report,
    Work.ends_stopAt]
  split
  · exact ⟨hloaded, rfl⟩
  · exact hloaded.toOrderly

theorem ends_loadOn (cover : Option (Block α × Int)) (h : r.solver.Orderly)
    (hn : r.solver.n = p.unknowns) :
    Ends (loadOn p cover) (fun _ r' => r'.solver.Faces p.unknowns) (fun _ r' => r'.solver.Orderly)
      r := by
  have hrest : Work.Keeps Solver.Framed (do
      Solver.assign .b fun s => Vector.fill? s.b.size
        (Vector.neg (p.activeNegBound r.solver.options.skipTangential))
      adoptCompliance : Run σ α Unit) :=
    (overlooks_framed.assign (by decide) (by decide)).bind fun _ => overlooks_framed.adoptCompliance
  unfold loadOn
  rw [ends_bind, ends_solver]
  refine (ends_loadHessian_shaped h).bind (fun _ r₁ h₁ => ?_) fun _ _ h₁ => h₁
  refine (overlooks_framed.loadJacobian p r₁).bind (fun _ r₂ h₂ => ?_)
    fun _ _ h₂ => h₁.1.toOrderly.of_framed h₂
  have h₂ := h₁.1.of_framed h₂
  refine (overlooks_framed.loadCompliance p r₂).bind (fun _ r₃ h₃ => ?_)
    fun _ _ h₃ => h₂.toOrderly.of_framed h₃
  have h₃ := h₂.of_framed h₃
  refine Ends.lift_bind (fun f hf => ?_) fun _ => h₃.toOrderly
  refine Ends.lift_bind (fun bound hbound => ?_) fun _ => h₃.toOrderly
  refine (framed_loadOver cover r₃).bind (fun _ r₄ h₄ => ?_) fun _ _ h₄ => h₃.toOrderly.of_framed h₄
  have h₄ := h₃.of_framed h₄
  have hsize : f.size = p.unknowns := (Problem.size_linearFor hf).trans hn
  obtain rfl := Problem.eq_of_boundFor hbound
  unfold Solver.assign at hrest ⊢
  rw [bind_assoc, ends_bind, ends_solver, bind_assoc]
  refine Ends.lift_bind (fun c hc => ?_) fun _ => h₄.toOrderly
  have hfaces := h₄.faces_of_fill? hsize hc
  rw [ends_bind, ends_change]
  exact (hrest _).mono (fun _ _ h₅ => hfaces.of_framed h₅) fun _ _ h₅ => hfaces.toOrderly.of_framed h₅

/-- A solve with constraints begins to iterate with its problem faced. -/
theorem ends_prepareFor (env : Environment σ α) (cover : Option (Block α × Int)) (m : Int)
    (h : r.solver.Orderly) (before : Solver α) :
    Ends (prepareFor env p cover m before) (fun _ r' => r'.solver.Faces p.unknowns)
      (fun _ r' => r'.solver.Orderly) r := by
  unfold prepareFor
  refine Ends.lift_bind (fun sys _ => ?_) fun _ => h
  have hsystem : { r.solver with system := some sys }.Orderly := ⟨h.hessian, h.c⟩
  have hrest : Work.Keeps Solver.Framed (do
      assembleSystem env sys
      Work.change fun s => { s with stage := .initialized }
      startWith env before.options.startingPoint (reuseFor before p.unknowns m)
      Work.change fun s => { s with hasIterate := true, iterations := 0, stage := .iterating } :
        Run σ α Unit) := by
    refine (overlooks_framed.assembleSystem env sys).bind fun _ => ?_
    refine Work.keeps_change_bind (fun _ => ⟨rfl, rfl, rfl⟩) ?_
    exact (overlooks_framed.startWith env _ _).bind fun _ =>
      Work.keeps_change fun _ => ⟨rfl, rfl, rfl⟩
  rw [ends_bind, ends_change]
  have hallocate : Ends (allocateFor p.unknowns m)
      (fun _ r' => r'.solver.Orderly ∧ r'.solver.n = p.unknowns) (fun _ r' => r'.solver.Orderly)
      { r with solver := { r.solver with system := some sys } } := by
    unfold allocateFor
    split_ifs
    · exact hsystem.resizeUnknowns _
    · exact ⟨hsystem.allocate _ _, rfl⟩
  refine hallocate.bind (fun _ r₁ h₁ => ?_) fun _ _ h₁ => h₁
  refine (ends_loadOn cover h₁.1 h₁.2).bind (fun _ r₂ h₂ => ?_) fun _ _ h₂ => h₂
  exact (hrest r₂).mono (fun _ _ h₃ => h₂.of_framed h₃) fun _ _ h₃ => h₂.toOrderly.of_framed h₃

/-- Without constraints the question is put about the problem that is faced. -/
theorem ends_pose_faces (env : Environment σ α) (h : r.solver.Orderly) :
    Ends (pose env p p.unknowns)
      (fun G r' => r'.solver.Faces p.unknowns ∧ r'.solver.G = G) (fun _ r' => r'.solver.Orderly)
      r := by
  unfold pose
  rw [ends_bind, ends_change]
  refine (ends_loadHessian_shaped (r := { r with solver := r.solver.allocate p.unknowns 0 })
    (h.allocate _ _)).bind (fun _ r₁ h₁ => ?_) fun _ _ h₁ => h₁
  refine Ends.lift_bind (fun f hf => ?_) fun _ => h₁.1.toOrderly
  have hsize : f.size = p.unknowns := Problem.size_linearFor hf
  unfold Solver.assign
  rw [bind_assoc, ends_bind, ends_solver, bind_assoc]
  refine Ends.lift_bind (fun c hc => ?_) fun _ => h₁.1.toOrderly
  have hfaces := h₁.1.faces_of_fill? hsize hc
  rw [ends_bind, ends_change, ends_bind, ends_solver]
  dsimp only
  rw [ends_bind, ends_change, ends_bind, Work.ends_report, Work.ends_pure]
  exact ⟨⟨⟨⟨hfaces.hessian.compress, hfaces.c⟩, hfaces.rows, hfaces.cols⟩, hfaces.length⟩, rfl⟩

/-! ## What is delivered -/

/-- The multipliers of `full` constraints: all of them, or the normal ones in every third place. What
is delivered is negated twice, the zeros in between once. -/
def expanded (lam : Array α) (full : Nat) : Array α :=
  if lam.size = full then lam
  else Array.ofFn (n := full) fun i => if i.val % 3 = 0 then (lam[i.val / 3]?).getD (-0) else -0

/-- Where the problem takes what is handed over, nothing is refused any more: the solve has an outcome,
and the problem has received its point and its multipliers. -/
def Handover.Delivers (h : Handover α) (p : Problem α) (full : Int) : Prop :=
  ∀ received, p.receive h.vector = .ok received → full = p.constraints ∧ ∃ out,
    h.outcome = .ok out ∧ received = { p with
      x := some out.x, multipliers := some (expanded out.multipliers p.constraints) }

omit [Elementary α] in
/-- A solution that is taken with its unknowns at the head has the multipliers behind them. -/
theorem eq_of_receive [Scalar α] {head tail : Array α} (hhead : head.size = p.unknowns)
    {received : Problem α} (h : p.receive (head ++ tail) = .ok received) :
    tail.size = p.constraints ∧
      received = { p with x := some head, multipliers := some (Vector.neg tail) } := by
  have hsize := Problem.size_of_receive h
  rw [Array.size_append, hhead] at hsize
  have htail : tail.size = p.constraints := by omega
  rw [Problem.receive_append hhead htail] at h
  exact ⟨htail, (Except.ok.inj h).symm⟩

/-- Zeros are what no multipliers are expanded to. -/
theorem neg_zeros (k : Nat) : Vector.neg (Vector.zeros k : Array α) = expanded #[] k := by
  unfold Vector.neg Vector.zeros expanded
  split_ifs with hk
  · obtain rfl : 0 = k := hk
    rw [Array.replicate_zero, Array.map_empty]
  · refine Array.ext (by rw [Array.size_map, Array.size_replicate, Array.size_ofFn]) fun i hi hi' => ?_
    simp

variable (hneg : ∀ a : α, - -a = a)
include hneg

/-- What is spread over the constraints and negated once more is expanded. -/
theorem neg_of_spreadMultipliers {lam v : Array α} {full : Int}
    (h : spreadMultipliers lam full = .ok v) :
    full = v.size ∧ Vector.neg v = expanded lam v.size := by
  unfold spreadMultipliers at h
  split_ifs at h with hall hthird
  · obtain rfl := Except.ok.inj h
    have hsize : (Vector.neg lam).size = lam.size := Array.size_map ..
    refine ⟨by rw [hsize, hall], ?_⟩
    rw [expanded, if_pos hsize.symm]
    exact Array.ext (by rw [Vector.neg, Array.size_map, hsize]) fun i hi hi' => by
      simp only [Vector.neg, Array.getElem_map, hneg]
  · obtain rfl := Except.ok.inj h
    rw [not_not] at hthird
    rw [Array.size_ofFn]
    refine ⟨hthird, ?_⟩
    rw [expanded, if_neg (by omega)]
    refine Array.ext (by rw [Vector.neg, Array.size_map, Array.size_ofFn, Array.size_ofFn])
      fun i hi hi' => ?_
    rw [Array.size_ofFn] at hi'
    have hplace : i / 3 < lam.size := by omega
    simp only [Vector.neg, Array.getElem_map, Array.getElem_ofFn]
    by_cases hnormal : i % 3 = 0
    · rw [if_pos hnormal, if_pos hnormal, hneg, Array.getD_eq_getD_getElem?,
        Array.getElem?_eq_getElem hplace, Option.getD_some, Option.getD_some]
    · rw [if_neg hnormal, if_neg hnormal]

theorem ends_handOverIterate (h : r.solver.Faces p.unknowns) (full : Int) (before : Solver α) :
    Ends (handOverIterate p.unknowns full before)
      (fun h r' => r'.solver.Orderly ∧ h.Delivers p full) (fun _ r' => r'.solver.Orderly) r := by
  unfold handOverIterate
  rw [ends_bind, ends_solver]
  refine (overlooks_framed.conclude r).bind (fun message r₁ h₁ => ?_)
    fun _ _ h₁ => h.toOrderly.of_framed h₁
  have h₁ := h.of_framed h₁
  rw [ends_bind, ends_solver]
  refine Ends.lift_bind (fun head hhead => ?_) fun _ => h₁.toOrderly
  refine Ends.lift_bind (fun multipliers hspread => ?_) fun _ => h₁.toOrderly
  refine ⟨h₁.toOrderly, fun received hreceive => ?_⟩
  obtain ⟨hfull, hexpanded⟩ := neg_of_spreadMultipliers hneg hspread
  obtain ⟨hx, rfl⟩ := h₁.eq_of_handedUnknowns (by omega) hhead
  obtain ⟨hsize, rfl⟩ := eq_of_receive hx hreceive
  obtain ⟨objective, hobjective⟩ := h₁.exists_objective hx
  refine ⟨by omega, _, by rw [hobjective]; rfl, ?_⟩
  rw [hexpanded, hsize]

omit hneg in
theorem ends_handOverAnswer (h : r.solver.Faces p.unknowns) (full : Int) (found : Array α) :
    Ends (handOverAnswer p.unknowns full r.solver.G found)
      (fun h r' => r'.solver.Orderly ∧ h.Delivers p full) (fun _ r' => r'.solver.Orderly) r := by
  unfold handOverAnswer Solver.assign
  rw [bind_assoc, ends_bind, ends_solver, bind_assoc]
  refine Ends.lift_bind (fun x hx => ?_) fun _ => h.toOrderly
  have hfilled : { r.solver with x, mu := 0, stage := .degenerate, hasIterate := false }.Faces
      p.unknowns := h.of_framed ⟨rfl, Vector.size_of_fill? hx, rfl⟩
  rw [ends_bind, ends_change, ends_bind, ends_change, ends_bind, Work.ends_report, ends_bind,
    ends_solver]
  refine Ends.lift_bind (fun head hhead => ?_) fun _ => hfilled.toOrderly
  refine ⟨hfilled.toOrderly, fun received hreceive => ?_⟩
  -- the problem takes a vector of its own length only, so as many constraints were announced
  have hfull : full = p.constraints := by
    have hsize := Problem.size_of_receive hreceive
    unfold handedUnknowns at hhead
    split_ifs at hhead
    have hhead := Vector.size_of_fill? hhead
    rw [Array.size_append, Vector.zeros, Array.size_replicate] at hsize
    omega
  subst hfull
  obtain ⟨hx, rfl⟩ := hfilled.eq_of_handedUnknowns (by omega) hhead
  obtain ⟨-, rfl⟩ := eq_of_receive hx hreceive
  obtain ⟨out, hout, hx', hmultipliers⟩ := hfilled.exists_directOutcome hx
  refine ⟨rfl, out, hout, ?_⟩
  rw [hx', hmultipliers, ← neg_zeros, hx, show ((p.unknowns : Int) + p.constraints).toNat -
    p.unknowns = p.constraints by omega]

/-- Whatever a solve comes to, the solver is left in order, and nothing is refused behind the
delivery. -/
theorem ends_handOver (env : Environment σ α) (terms : Terms α) (h : r.solver.Orderly) :
    Ends (handOver env p terms) (fun h r' => r'.solver.Orderly ∧ h.Delivers p (terms.count false))
      (fun _ r' => r'.solver.Orderly) r := by
  unfold handOver
  rw [ends_bind, ends_change, ends_bind, ends_solver]
  have hcounted : { r.solver with solveCalls := r.solver.solveCalls + 1 }.Orderly := ⟨h.hessian, h.c⟩
  dsimp only
  split_ifs
  · refine (ends_pose_faces (p := p) env
      (r := { r with solver := { r.solver with solveCalls := r.solver.solveCalls + 1 } })
      hcounted).bind (fun G r₁ h₁ => ?_) fun _ _ h₁ => h₁
    obtain ⟨h₁, rfl⟩ := h₁
    have hask : Work.Keeps Solver.Framed (Work.request env (.hessian r₁.solver.id) r₁.solver.G
        (Vector.neg r₁.solver.c) .complete "unconstrained system" : Run σ α Unit) :=
      Work.keeps_request env _ _ _ _ _
    rw [ends_bind, ends_solver]
    refine (hask r₁).bind (fun _ r₂ h₂ => ?_) fun _ _ h₂ => h₁.toOrderly.of_framed h₂
    have hG := h₂.hessian
    have h₂ := h₁.of_framed h₂
    refine (Work.keeps_solution env r₂).bind (fun found r₃ h₃ => ?_)
      fun _ _ h₃ => h₂.toOrderly.of_framed h₃
    rw [← hG, ← h₃.hessian]
    exact ends_handOverAnswer (h₂.of_framed h₃) _ found
  · rw [ends_bind, ends_solver]
    refine (ends_prepareFor env terms.compliance _ hcounted _).bind (fun _ r₁ h₁ => ?_) fun _ _ h₁ => h₁
    refine (framed_iterateWithin env _ r₁).bind (fun _ r₂ h₂ => ?_)
      fun _ _ h₂ => h₁.toOrderly.of_framed h₂
    exact ends_handOverIterate hneg (h₁.of_framed h₂) _ _

/-- A solve of the problem at hand leaves it as it was, unless it returns: then the problem has received
the point and the multipliers that are reported. -/
theorem ends_solveInPlace (env : Environment σ α) (terms : Terms α) (h : r.solver.Orderly)
    (p : Problem α) :
    Ends (solveInPlace env terms)
      (fun out r' => r'.solver.1.Orderly ∧ terms.count false = p.constraints ∧
        r'.solver.2 = { p with
          x := some out.x, multipliers := some (expanded out.multipliers p.constraints) })
      (fun _ r' => r'.solver.1.Orderly ∧ r'.solver.2 = p) (facing p r) := by
  have hhand : Ends (alone (handOver env p terms))
      (fun h r' => r'.solver.1.Orderly ∧ r'.solver.2 = p ∧ h.Delivers p (terms.count false))
      (fun _ r' => r'.solver.1.Orderly ∧ r'.solver.2 = p) (facing p r) :=
    ends_alone.mpr ((ends_handOver hneg env terms h).mono (fun _ _ h => ⟨h.1, rfl, h.2⟩)
      fun _ _ h => ⟨h, rfl⟩)
  unfold solveInPlace
  rw [ends_bind, ends_solver]
  refine hhand.bind (fun h r₁ ⟨hs, hp, hdelivers⟩ => ?_) fun _ _ h => h
  unfold deliver
  refine Ends.lift_bind (fun received hreceive => ?_) fun _ => ⟨hs, hp⟩
  obtain ⟨hfull, out, hout, rfl⟩ := hdelivers received hreceive
  rw [ends_bind, ends_change, hout]
  exact ⟨hs, hfull, rfl⟩

/-- On its own terms, a problem is solved in place as it is solved. -/
theorem run_solveInPlace (env : Environment σ α) (h : r.solver.Orderly) (p : Problem α) :
    (solveInPlace env (Terms.of p)).run.run (facing p r) =
      ((solve env p r).outcome, facing (solve env p r).problem (solve env p r).session) := by
  have hends := ends_handOver (p := p) hneg env (Terms.of p) h
  rw [solve, solveProblem_eq_handOver]
  unfold Ends at hends
  rcases hw : (handOver env p (Terms.of p)).run.run r with ⟨e | h, r₁⟩ <;> rw [hw] at hends
  · rw [run_solveInPlace_of_error hw, run_bind_of_error hw]
  · rw [run_solveInPlace_of_ok hw, run_bind_of_ok hw]
    unfold deliver
    rcases hreceive : p.receive h.vector with e | received
    · rfl
    · obtain ⟨-, out, hout, -⟩ := hends.2 received hreceive
      rw [hout]
      rfl

end CentralPath.InteriorPoint
