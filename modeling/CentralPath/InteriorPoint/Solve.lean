/-
  A whole solve: load the blocks of the problem, assemble the Newton matrix, build the first
  iterate, iterate, and hand the solution back. Without constraints the Hessian system is solved
  directly.
-/
import CentralPath.InteriorPoint.Iteration
import CentralPath.InteriorPoint.Start

namespace CentralPath.InteriorPoint

open Sparse (Block Matrix Pattern)
open Backend (Environment Session Work)
open Journal (compressionContext growthEvents storageEvents)

variable {σ α : Type} [Elementary α]

/-! ## Loading -/

/-- Loads a block into one of the solver's matrices and reports how often that was
redistributed. -/
def loadInto (before : Matrix α) (put : Matrix α → Solver α → Solver α) (b : Block α)
    (hint : Int) : Run σ α Unit := do
  let (fault, after) := before.loadBlock b hint
  Work.change (put after)
  Work.report (growthEvents before after)
  Work.stopAt fault

/-- Loads a block with room for exactly its entries. -/
def loadExactly (before : Matrix α) (put : Matrix α → Solver α → Solver α) (b : Block α) :
    Run σ α Unit := loadInto before put b b.entries.length

/-- Loads the Hessian. -/
def loadHessian (p : Problem α) : Run σ α Unit := do
  let s ← Work.solver
  loadExactly s.G (fun G s => { s with G }) p.hessianBlock

/-- Loads the constraint rows in use. -/
def loadJacobian (p : Problem α) : Run σ α Unit := do
  let s ← Work.solver
  loadExactly s.A (fun A s => { s with A }) (p.jacobianBlock s.options.skipTangential)

/-- Loads the compliance block, where it is asked for. -/
def loadCompliance (p : Problem α) : Run σ α Unit := do
  let s ← Work.solver
  if s.options.useCompliance then
    loadExactly s.E (fun E s => { s with E }) (p.complianceBlock s.options.skipTangential)

/-- Loads what stands in for the compliance block, where there is such a thing. -/
def loadSubstitute (p : Problem α) : Run σ α Unit := do
  let s ← Work.solver
  match p.substituteBlock with
  | some b =>
    if s.options.useCompliance then
      loadInto s.E (fun E s => { s with E }) b 0
  | none => pure ()

/-- The diagonal of a square matrix. -/
def diagonal (m : Matrix α) (k : Nat) : Except (Fault α) (Array α) :=
  ((List.range k).mapM fun (j : Nat) => m.get j j).map List.toArray

/-- Decides whether compliance is in use and reads off its diagonal. -/
def adoptCompliance : Run σ α Unit := do
  Work.change fun s => { s with usesE := s.options.useCompliance && decide (0 < s.E.liveCount) }
  let s ← Work.solver
  if s.usesE then
    if s.E.rows ≠ s.m ∨ s.E.cols ≠ s.m then
      throw (.complianceBlockUnfit s.E.rows s.E.cols s.m)
    let diagE ← Work.lift (diagonal s.E s.m)
    Work.change fun s => { s with diagE }
  else Work.change fun s => { s with diagE := Vector.zeros s.m }

/-- Loads all blocks and vectors of a problem. -/
def loadProblem (p : Problem α) : Run σ α Unit := do
  let s ← Work.solver
  loadHessian p
  loadJacobian p
  loadCompliance p
  let f ← Work.lift (p.linearFor s.n)
  let bound ← Work.lift (p.boundFor s.options.skipTangential s.m)
  loadSubstitute p
  Solver.assign .c fun s => Vector.fill? s.c.size (Vector.neg f)
  Solver.assign .b fun s => Vector.fill? s.b.size (Vector.neg bound)
  adoptCompliance

/-! ## Assembly -/

/-- The writes that assemble the constant blocks. -/
def Solver.assembly (s : Solver α) (sys : Newton.System) : List (Sparse.Write α) :=
  sys.constantWrites s.G.entries s.A.entries (s.compliance?.map Matrix.entries)

/-- Whether the positions learned for an earlier problem still hold. -/
def Solver.reusesPattern (s : Solver α) (dim : Int) : Bool :=
  s.options.lockPattern && s.patternLearned && (s.kkt.rows : Int) == dim &&
    (s.kkt.cols : Int) == dim

/-- Gives the Newton matrix the positions that an assembly will write. -/
def learnPattern (sys : Newton.System) : Run σ α Unit := do
  let s ← Work.solver
  let fresh ← Work.lift (Pattern.create sys.dim sys.dim .byRows)
  let (fault, pattern) := fresh.writeAll (s.assembly sys)
  Work.stopAt fault
  let kkt ← Work.lift (s.kkt.loadPattern pattern)
  Work.change fun s => { s with kkt, patternLearned := true }
  Work.report [.systemPatternLearned pattern.size]

/-- Resets the Newton matrix with room for the expected number of nonzeros. -/
def resetSystem (sys : Newton.System) : Run σ α Unit := do
  let s ← Work.solver
  let hint ← Work.lift (s.options.capacityHint sys.dim)
  let hint := if s.kkt.rows = sys.dim ∧ s.kkt.cols = sys.dim then max hint s.kkt.usedLength
    else hint
  let kkt ← Work.lift (s.kkt.reset sys.dim sys.dim hint)
  Work.change fun s => { s with kkt }

/-- Assembles the constant blocks of the Newton matrix and compresses it. -/
def assembleSystem (env : Environment σ α) (sys : Newton.System) : Run σ α Unit := do
  let s ← Work.solver
  let bounded ← Work.lift (s.kkt.setShiftBound s.options.maxShifts)
  Work.change fun s => { s with kkt := bounded.setLock s.options.lockPattern }
  if s.options.learnPattern && !s.reusesPattern sys.dim then learnPattern sys
  else resetSystem sys
  let s ← Work.solver
  let (fault, written) := s.kkt.writeAll (s.assembly sys)
  Work.change fun s => { s with kkt := written }
  Work.report (growthEvents s.kkt written)
  Work.stopAt fault
  let kkt := written.compress.1
  Work.change fun s => { s with kkt }
  Work.report (storageEvents env.debug compressionContext kkt)

/-! ## Solving -/

/-- The state of a solve that the problem takes part in: what the problem received so far. -/
structure Delivery (α : Type) where
  outcome : Outcome α
  problem : Problem α

/-- Multipliers of all constraints, negated. Normal multipliers go to every third place. -/
def spreadMultipliers (lam : Array α) (full : Int) : Except (Fault α) (Array α) :=
  if lam.size = full then .ok (Vector.neg lam)
  else if full ≠ 3 * lam.size then .error (.multipliersUnfit lam.size full)
  else .ok <| Array.ofFn (n := 3 * lam.size) fun i =>
    if i.val % 3 = 0 then -(lam.getD (i.val / 3) 0) else 0

/-- The unknowns at the head of a vector that has `full` more components than there are unknowns. -/
def handedUnknowns (x : Array α) (n : Nat) (full : Int) : Except (Fault α) (Array α) :=
  if n + full < 0 then .error .negativeLength else Vector.fill? (min n (n + full).toNat) x

/-- Solves `G x = −c` where no constraint is in use. -/
def solveUnconstrained (env : Environment σ α) (p : Problem α) (n : Nat) (full : Int) :
    Run σ α (Delivery α) := do
  Work.change (·.allocate n 0)
  loadHessian p
  let f ← Work.lift (p.linearFor n)
  Solver.assign .c fun s => Vector.fill? s.c.size (Vector.neg f)
  let G := (← Work.solver).G.compress.1
  Work.change fun s => { s with G }
  Work.report (storageEvents env.debug compressionContext G)
  let s ← Work.solver
  Work.request env (.hessian s.id) G (Vector.neg s.c) .complete "unconstrained system"
  let found ← Work.solution env
  Solver.assign .x fun s => Vector.fill? s.x.size found
  Work.change fun s => { s with mu := 0, stage := .degenerate, hasIterate := false }
  Work.report [.solvedDirectly n]
  let s ← Work.solver
  let head ← Work.lift (handedUnknowns s.x n full)
  let problem ← Work.lift (p.receive (head ++ Vector.zeros ((n + full).toNat - head.size)))
  let rd ← Work.lift (Vector.zip? (· + ·) (← Work.lift (G.mulVec s.x false)) s.c)
  let outcome : Outcome α :=
    { x := s.x
      objective := ← Work.lift s.objective
      stage := s.stage
      message := "No constraints; unconstrained minimizer returned"
      iterations := 0
      measures := ⟨0, Vector.normOver rd n, 0⟩
      slack := #[]
      multipliers := #[]
      history := [] }
  pure ⟨outcome, problem⟩

/-- The record of the iteration just done. -/
def Solver.latestRecord (s : Solver α) : Record α := ⟨s.solveCalls, s.iterations, s.measures⟩

/-- Counts an iteration and records it if records are kept. -/
def countIteration : Run σ α Unit := do
  Work.change fun s => { s with iterations := s.iterations + 1 }
  let s ← Work.solver
  if s.options.recordHistory then
    Work.change fun s => { s with history := s.history ++ [s.latestRecord] }

/-- Iterates until the measures are below their tolerances, `budget` times at most. -/
def iterateWithin (env : Environment σ α) : Nat → Run σ α Unit
  | 0 => pure ()
  | budget + 1 => do
    if (← Work.solver).isConverged then pure ()
    else
      iterate env
      countIteration
      if env.debug then discard <| verifyConditions true
      iterateWithin env budget

/-- Settles the stage after the last iteration and returns its message. -/
def conclude : Run σ α String := do
  let s ← Work.solver
  if s.isConverged then
    Work.change fun s => { s with stage := .converged }
    Work.report [.converged s.iterations s.measures]
    pure "Converged"
  else
    Work.change fun s => { s with stage := .iterationsExhausted }
    Work.report [.notConverged s.iterations s.measures]
    pure "Maximum number of iterations reached"

/-- Which parts of the previous iterate a solve uses again; `s` is the solver before it took on
the problem's dimensions. -/
def reuseFor (s : Solver α) (n : Nat) (m : Int) : Reuse :=
  let warm := s.options.warmStart ||
    s.options.startingPoint == .strategy .affineStepOrPrevious
  ⟨warm && s.hasIterate && n == s.n, warm && s.hasIterate && m == s.m⟩

/-- Takes on the dimensions of a problem. A negative number of constraints is refused once the
unknowns have their room. -/
def allocateFor (n : Nat) (m : Int) : Run σ α Unit := do
  if m < 0 then
    Work.change (·.resizeUnknowns n)
    throw .negativeLength
  Work.change (·.allocate n m.toNat)

/-- Solves a problem with constraints. -/
def solveConstrained (env : Environment σ α) (p : Problem α) (n : Nat) (m full : Int) :
    Run σ α (Delivery α) := do
  let before ← Work.solver
  let sys ← Work.lift (Newton.System.create before.options.formulation n m)
  Work.change fun s => { s with system := some sys }
  allocateFor n m
  loadProblem p
  assembleSystem env sys
  Work.change fun s => { s with stage := .initialized }
  startWith env before.options.startingPoint (reuseFor before n m)
  Work.change fun s => { s with hasIterate := true, iterations := 0, stage := .iterating }
  iterateWithin env before.options.maxIterations.toNat
  let q := (← Work.solver).measures
  let message ← conclude
  let s ← Work.solver
  let head ← Work.lift (handedUnknowns s.x n full)
  let multipliers ← Work.lift (spreadMultipliers s.lam full)
  let problem ← Work.lift (p.receive (head ++ multipliers))
  let outcome : Outcome α :=
    { x := s.x
      objective := ← Work.lift s.objective
      stage := s.stage
      message
      iterations := s.iterations
      measures := q
      slack := s.y
      multipliers := s.lam
      history := s.history.drop before.history.length }
  pure ⟨outcome, problem⟩

/-- Solves a problem and hands the solution back to it. -/
def solveProblem (env : Environment σ α) (p : Problem α) : Run σ α (Delivery α) := do
  Work.change fun s => { s with solveCalls := s.solveCalls + 1 }
  let s ← Work.solver
  let n := p.unknowns
  let m := p.activeConstraints s.options.skipTangential
  let full := p.activeConstraints false
  if m = 0 then solveUnconstrained env p n full
  else solveConstrained env p n m full

/-- The result of a solve: its outcome or what stopped it, everything as it is afterwards, and the
problem, which received a solution unless the solve was stopped. -/
structure Solved (σ α : Type) where
  outcome : Except (Fault α) (Outcome α)
  session : Session (Solver α) σ α
  problem : Problem α

/-- Runs a solve. -/
def solve (env : Environment σ α) (p : Problem α) (start : Session (Solver α) σ α) : Solved σ α :=
  match (solveProblem env p).run.run start with
  | (.ok d, session) => ⟨.ok d.outcome, session, d.problem⟩
  | (.error e, session) => ⟨.error e, session, p⟩

end CentralPath.InteriorPoint
