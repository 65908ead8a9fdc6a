/-
  What callers do at a console. A task is work at the workspace that is put together from the
  operations there (`Desk.IsTask`), and a `Script` is a caller: it has tasks done one after the other,
  throws the debug switch, and works in blocks with the switch thrown for a while. What it does next
  may depend on every answer so far, refusals included. The switch and the storage check that reports
  while it is on are no operations.
-/
import CentralPath.Proofs.Workspace.Employed
import CentralPath.Workspace.Console

namespace CentralPath

namespace Desk

variable {α β γ : Type} [Elementary α]

/-- The work that callers can put together. -/
inductive IsTask : {β : Type} → Desk α β → Prop where
  -- matrices
  | newMatrix (name rows cols o hint) : IsTask (newMatrix name rows cols o hint)
  | newMatrixOf (name table o) : IsTask (newMatrixOf name table o)
  | addRebuilt (name r) : IsTask (addRebuilt name r)
  | copyMatrix (name target) : IsTask (copyMatrix name target)
  | act (name a) : IsTask (act name a)
  | writeAll (name ws) : IsTask (writeAll name ws)
  | accumulate (name other negated) : IsTask (accumulate name other negated)
  | scale (name factor) : IsTask (scale name factor)
  | same (name other) : IsTask (same name other)
  | load (name patternName) : IsTask (load name patternName)
  | edit (name e) : IsTask (edit name e)
  | assemble (name a) : IsTask (assemble name a)
  -- patterns
  | newPattern (name rows cols o) : IsTask (newPattern name rows cols o)
  | record (name positions) : IsTask (record name positions)
  | resetPattern (name rows cols) : IsTask (resetPattern name rows cols)
  | collapsedPattern (name) : IsTask (collapsedPattern name)
  -- Newton systems
  | newSystem (name choice n m) : IsTask (newSystem name choice n m)
  | assembleSystem (name targetName G A E) : IsTask (assembleSystem name targetName G A E)
  | updateSystem (name targetName y lam diagE) : IsTask (updateSystem name targetName y lam diagE)
  | rightHandSide (name rp rd y lam aim) : IsTask (rightHandSide name rp rd y lam aim)
  | direction (name v kkt rp E) : IsTask (direction name v kkt rp E)
  | mulSystemBlock (name block kkt v) : IsTask (mulSystemBlock name block kkt v)
  -- problems
  | newProblem (name G c A b E triplets d) : IsTask (newProblem name G c A b E triplets d)
  | convert (name d normalOnly) : IsTask (convert name d normalOnly)
  | receive (name v) : IsTask (receive name v)
  -- backends
  | addEngine (name e) : IsTask (addEngine name e)
  | bindSystem (name matrix rhs) : IsTask (Desk.bind name matrix rhs)
  | call (name job) : IsTask (call name job)
  | solution (name) : IsTask (solution name)
  | takeCalls (name) : IsTask (takeCalls name)
  -- direct solvers
  | newDirect (name backend learns locks hint) : IsTask (newDirect name backend learns locks hint)
  | setup (name assembly dim) : IsTask (setup name assembly dim)
  | solveDirect (name rhs) : IsTask (solveDirect name rhs)
  | relearnDirect (name) : IsTask (relearnDirect name)
  -- interior-point solvers
  | newInterior (name backend options) : IsTask (newInterior name backend options)
  | solve (name problemName) : IsTask (solve name problemName)
  | iterate (name) : IsTask (iterate name)
  | affineDirections (name) : IsTask (affineDirections name)
  | verifyConditions (name reported) : IsTask (verifyConditions name reported)
  | setOptions (name settings) : IsTask (setOptions name settings)
  | relearnInterior (name) : IsTask (relearnInterior name)
  | overwrite (name vectors) : IsTask (overwrite name vectors)
  -- looking at an object, and what can be computed from it
  | matrix (name) : IsTask (matrix name)
  | pattern (name) : IsTask (pattern name)
  | problem (name) : IsTask (problem name)
  | system (name) : IsTask (system name)
  | engine (name) : IsTask (engine name)
  | direct (name) : IsTask (direct name)
  | interior (name) : IsTask (interior name)
  | compute {β : Type} (v : Except (Fault α) β) : IsTask (lift v)
  | andThen {β γ : Type} {d : Desk α γ} {f : γ → Desk α β} (h : IsTask d)
      (hf : ∀ c, IsTask (f c)) : IsTask (d >>= f)

/-- Every task comes to the same with the debug switch off. -/
theorem IsTask.oblivious {d : Desk α β} (h : IsTask d) : Oblivious d := by
  induction h with
  | newMatrix name rows cols o hint => exact oblivious_newMatrix name rows cols o hint
  | newMatrixOf name table o => exact oblivious_newMatrixOf name table o
  | addRebuilt name r => exact oblivious_addRebuilt name r
  | copyMatrix name target => exact oblivious_copyMatrix name target
  | act name a => exact oblivious_act name a
  | writeAll name ws => exact oblivious_writeAll name ws
  | accumulate name other negated => exact oblivious_accumulate name other negated
  | scale name factor => exact oblivious_scale name factor
  | same name other => exact oblivious_same name other
  | load name patternName => exact oblivious_load name patternName
  | edit name e => exact oblivious_edit name e
  | assemble name a => exact oblivious_assemble name a
  | newPattern name rows cols o => exact oblivious_newPattern name rows cols o
  | record name positions => exact oblivious_record name positions
  | resetPattern name rows cols => exact oblivious_resetPattern name rows cols
  | collapsedPattern name => exact oblivious_collapsedPattern name
  | newSystem name choice n m => exact oblivious_newSystem name choice n m
  | assembleSystem name targetName G A E => exact oblivious_assembleSystem name targetName G A E
  | updateSystem name targetName y lam diagE => exact oblivious_updateSystem name targetName y lam diagE
  | rightHandSide name rp rd y lam aim => exact oblivious_rightHandSide name rp rd y lam aim
  | direction name v kkt rp E => exact oblivious_direction name v kkt rp E
  | mulSystemBlock name block kkt v => exact oblivious_mulSystemBlock name block kkt v
  | newProblem name G c A b E triplets d => exact oblivious_newProblem name G c A b E triplets d
  | convert name d normalOnly => exact oblivious_convert name d normalOnly
  | receive name v => exact oblivious_receive name v
  | addEngine name e => exact oblivious_addEngine name e
  | bindSystem name matrix rhs => exact oblivious_bind name matrix rhs
  | call name job => exact oblivious_call name job
  | solution name => exact oblivious_solution name
  | takeCalls name => exact oblivious_takeCalls name
  | newDirect name backend learns locks hint => exact oblivious_newDirect name backend learns locks hint
  | setup name assembly dim => exact oblivious_setup name assembly dim
  | solveDirect name rhs => exact oblivious_solveDirect name rhs
  | relearnDirect name => exact oblivious_relearnDirect name
  | newInterior name backend options => exact oblivious_newInterior name backend options
  | solve name problemName => exact oblivious_solve name problemName
  | iterate name => exact oblivious_iterate name
  | affineDirections name => exact oblivious_affineDirections name
  | verifyConditions name reported => exact oblivious_verifyConditions name reported
  | setOptions name settings => exact oblivious_setOptions name settings
  | relearnInterior name => exact oblivious_relearnInterior name
  | overwrite name vectors => exact oblivious_overwrite name vectors
  | matrix name => exact oblivious_matrix name
  | pattern name => exact oblivious_pattern name
  | problem name => exact oblivious_problem name
  | system name => exact oblivious_system name
  | engine name => exact oblivious_engine name
  | direct name => exact oblivious_direct name
  | interior name => exact oblivious_interior name
  | compute v => exact oblivious_lift v
  | andThen _ _ ih ihf => exact ih.bind ihf

end Desk

/-- A caller at a console that ends with a `β`. A block is left with any value, so also with a fault
that was met inside it. -/
inductive Script : Type → Type 1 where
  | done {β : Type} (b : β) : Script β
  | perform {β γ : Type} (d : Desk Float γ) (h : d.IsTask)
      (next : Except (Fault Float) γ → Script β) : Script β
  | setDebug {β : Type} (on : Bool) (next : Script β) : Script β
  | reloadDebug {β : Type} (setting : Option String) (next : Script β) : Script β
  | withDebug {β γ : Type} (on : Bool) (body : Script γ) (next : γ → Script β) : Script β

namespace Script

/-- What a caller ends with, and the console behind it. -/
def run {β : Type} : Script β → Console → β × Console
  | done b, c => (b, c)
  | perform d _ next, c =>
    let (answer, c) := c.work d
    (next answer).run c
  | setDebug on next, c => next.run (c.setDebug on)
  | reloadDebug setting next, c => next.run (c.reloadDebug setting)
  | withDebug on body next, c =>
    let (b, c) := c.withDebug on body.run
    (next b).run c

/-- The same caller with the switch left off wherever it is thrown. -/
def unwatched {β : Type} : Script β → Script β
  | done b => done b
  | perform d h next => perform d h fun answer => (next answer).unwatched
  | setDebug _ next => setDebug false next.unwatched
  | reloadDebug _ next => reloadDebug none next.unwatched
  | withDebug _ body next => withDebug false body.unwatched fun b => (next b).unwatched

end Script

end CentralPath
