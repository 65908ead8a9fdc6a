/-
  Assembling the Newton matrix. However the matrix was stored before, and whether its positions are
  learned first or not, an assembly that runs to its end leaves the constant blocks of the data in
  it (`ends_assembleSystem`).
-/
import CentralPath.Proofs.InteriorPoint.Ready

namespace CentralPath.InteriorPoint

open Backend (Environment Session Work)
open Backend.Work (Ends ends_bind ends_change ends_lift ends_report ends_solver ends_stopAt)
open Newton (Formulation systemFor)
open Problem (Data)
open Sparse (Matrix Pattern)

/-- Only the Newton matrix and what is known of its pattern have changed, and the matrix has kept its
orientation. -/
def Solver.OnlyKkt {K : Type} (s s' : Solver K) : Prop :=
  ∃ kkt patternLearned, s' = { s with kkt, patternLearned } ∧ kkt.orientation = s.kkt.orientation

theorem Solver.OnlyKkt.trans {K : Type} {s s' s'' : Solver K} (h : s.OnlyKkt s')
    (h' : s'.OnlyKkt s'') : s.OnlyKkt s'' := by
  obtain ⟨_, _, rfl, ho⟩ := h
  obtain ⟨_, _, rfl, ho'⟩ := h'
  exact ⟨_, _, rfl, ho'.trans ho⟩

variable {σ K : Type} [Field K] [LinearOrder K] [ElementaryFunctions K]
  {r : Session (Solver K) σ K} {f : Formulation} {D : Data K}

/-- A learned pattern gives a cleared matrix of the dimension of the system. Patterns are learned by
rows. -/
theorem ends_learnPattern (hkkt : r.solver.kkt.Sound)
    (hblocks : Newton.Blocks D r.solver.G r.solver.A r.solver.compliance?) :
    Ends (learnPattern (systemFor f D))
      (fun _ r' => r'.backend = r.backend ∧ r.solver.OnlyKkt r'.solver ∧
        Newton.Cleared f D r'.solver.kkt)
      (fun _ r' => r'.backend = r.backend ∧ r.solver.OnlyKkt r'.solver ∧ r'.solver.kkt.Sound ∧
        r.solver.kkt.orientation ≠ .byRows) r := by
  have hdim := Newton.dim_nonneg f D
  obtain ⟨fresh, hfresh⟩ :
      ∃ fresh, Pattern.create (α := K) (systemFor f D).dim (systemFor f D).dim .byRows = .ok fresh :=
    ⟨_, if_neg (by omega)⟩
  unfold learnPattern
  rw [ends_bind, ends_solver, ends_bind, ends_lift, hfresh]
  obtain ⟨hrange, horientation, hrows, hcols⟩ := Pattern.InRange.of_create hfresh
  have hin : ∀ w ∈ r.solver.assembly (systemFor f D),
      0 ≤ w.row ∧ w.row < fresh.rows ∧ 0 ≤ w.col ∧ w.col < fresh.cols := by
    intro w hw
    have := hblocks.inShape hw
    omega
  obtain ⟨hfault, hwritten, hworientation, hwrows, hwcols⟩ := hrange.writeAll hin
  dsimp only
  rw [ends_bind, ends_stopAt, hfault]
  dsimp only
  rw [ends_bind, ends_lift]
  generalize (fresh.writeAll (r.solver.assembly (systemFor f D))).2 = pattern at *
  rcases hload : r.solver.kkt.loadPattern pattern with e | kkt
  · refine ⟨rfl, ⟨_, _, rfl, rfl⟩, hkkt, fun hbyRows => ?_⟩
    rw [Matrix.loadPattern, if_neg (by rw [hworientation, horientation, hbyRows]; simp)] at hload
    cases hload
  · have hsound := Sparse.Matrix.sound_loadPattern hwritten hload
    have hzero := Sparse.Matrix.valueAt_loadPattern hwritten hload
    obtain ⟨-, rfl⟩ := Sparse.Matrix.loadPattern_eq hload
    refine ⟨rfl, ⟨_, _, rfl, rfl⟩, hsound, ?_, ?_, hzero⟩
    · show (pattern.rows : Int) = _
      omega
    · show (pattern.cols : Int) = _
      omega

/-- A reset gives a cleared matrix of the dimension of the system, if there is an integer for the
expected number of nonzeros. -/
theorem ends_resetSystem (hkkt : r.solver.kkt.Sound) :
    Ends (resetSystem (systemFor f D))
      (fun _ r' => r'.backend = r.backend ∧ r.solver.OnlyKkt r'.solver ∧
        Newton.Cleared f D r'.solver.kkt)
      (fun _ r' => r'.backend = r.backend ∧ r.solver.OnlyKkt r'.solver ∧ r'.solver.kkt.Sound ∧
        ∃ a : K, ElementaryFunctions.truncate a = none) r := by
  have hdim := Newton.dim_nonneg f D
  unfold resetSystem
  rw [ends_bind, ends_solver, ends_bind, ends_lift]
  rcases hhint : r.solver.options.capacityHint (systemFor f D).dim with e | hint
  · refine ⟨rfl, ⟨_, _, rfl, rfl⟩, hkkt, ?_⟩
    unfold Options.capacityHint at hhint
    dsimp only at hhint
    generalize (if 0 ≤ (systemFor f D).dim * (systemFor f D).dim then _ else (0 : K)) * _ =
      expected at hhint
    rcases hexpected : ElementaryFunctions.truncate expected with _ | k
    · exact ⟨expected, hexpected⟩
    · rw [show Elementary.truncate expected = some k from hexpected] at hhint
      cases hhint
  dsimp only
  rw [ends_bind, ends_lift]
  generalize (if (r.solver.kkt.rows : Int) = (systemFor f D).dim ∧
    (r.solver.kkt.cols : Int) = (systemFor f D).dim then max hint r.solver.kkt.usedLength
    else hint) = room
  obtain ⟨kkt, hreset⟩ := r.solver.kkt.exists_reset hdim hdim room
  obtain ⟨hrows, hcols⟩ := Sparse.Matrix.shape_of_reset hreset
  rw [hreset]
  exact ⟨rfl, ⟨_, _, rfl, (Sparse.Matrix.frame_of_reset hreset).1⟩, hkkt.reset hreset, hrows, hcols,
    hkkt.valueAt_reset hreset⟩

/-- The second half of an assembly: its writes into a cleared matrix, and the compression. -/
def fillSystem (env : Environment σ K) (sys : Newton.System) : Run σ K Unit := do
  let s ← Work.solver
  let (fault, written) := s.kkt.writeAll (s.assembly sys)
  Work.change fun s => { s with kkt := written }
  Work.report (Journal.growthEvents s.kkt written)
  Work.stopAt fault
  let kkt := written.compress.1
  Work.change fun s => { s with kkt }
  Work.report (Journal.storageEvents env.debug Journal.compressionContext kkt)

theorem ends_fillSystem (env : Environment σ K) (hclear : Newton.Cleared f D r.solver.kkt)
    (hblocks : Newton.Blocks D r.solver.G r.solver.A r.solver.compliance?)
    {R : Fault K → Session (Solver K) σ K → Prop} :
    Ends (fillSystem env (systemFor f D))
      (fun _ r' => r'.backend = r.backend ∧ r.solver.OnlyKkt r'.solver ∧
        Newton.Prepared f D r'.solver.kkt) R r := by
  have hframe := (hclear.sound.writeAll (r.solver.assembly (systemFor f D))).2
  unfold fillSystem
  rw [ends_bind, ends_solver]
  dsimp only
  rw [ends_bind, ends_change, ends_bind, ends_report, ends_bind, ends_stopAt]
  have hfault : (r.solver.kkt.writeAll (r.solver.assembly (systemFor f D))).1 = none :=
    hblocks.fault_assembly hclear
  rw [hfault]
  exact ⟨rfl, ⟨_, _, rfl, (Sparse.Matrix.sameFrame_rebuild _ _).orientation.trans hframe.orientation⟩,
    hblocks.prepared hclear⟩

/-- What refuses the bound on shifts. -/
def Options.boundFault? (o : Options K) : Option (Fault K) :=
  match o.maxShifts with
  | some b => if b < 0 then some (.negativeShiftBound b) else none
  | none => none

/-- An assembly that runs to its end leaves the blocks in the Newton matrix. Where integer parts
exist, only the bound on shifts can refuse it. -/
theorem ends_assembleSystem (env : Environment σ K) (hkkt : r.solver.kkt.Sound)
    (hblocks : Newton.Blocks D r.solver.G r.solver.A r.solver.compliance?) :
    Ends (assembleSystem env (systemFor f D))
      (fun _ r' => r'.backend = r.backend ∧ r.solver.OnlyKkt r'.solver ∧
        Newton.Prepared f D r'.solver.kkt ∧ r.solver.options.boundFault? = none)
      (fun e r' => r'.backend = r.backend ∧ r.solver.OnlyKkt r'.solver ∧ r'.solver.kkt.Sound ∧
        (r.solver.kkt.orientation = .byRows →
          (∀ a : K, ElementaryFunctions.truncate a ≠ none) →
          r.solver.options.boundFault? = some e)) r := by
  unfold assembleSystem
  rw [ends_bind, ends_solver, ends_bind, ends_lift]
  rcases hbound : r.solver.kkt.setShiftBound r.solver.options.maxShifts with e | bounded
  · refine ⟨rfl, ⟨_, _, rfl, rfl⟩, hkkt, fun _ _ => ?_⟩
    unfold Matrix.setShiftBound at hbound
    unfold Options.boundFault?
    split at hbound
    · cases hbound
    · rename_i hsome
      split_ifs at hbound with hneg
      obtain rfl := Except.error.inj hbound
      rw [hsome]
      exact if_pos hneg
  dsimp only
  rw [ends_bind, ends_change]
  obtain ⟨hlocked, horientation, hnone⟩ :
      (bounded.setLock r.solver.options.lockPattern).Sound ∧
        bounded.orientation = r.solver.kkt.orientation ∧
        r.solver.options.boundFault? = none := by
    unfold Matrix.setShiftBound at hbound
    unfold Options.boundFault?
    split at hbound
    · rename_i hno
      obtain rfl := Except.ok.inj hbound
      rw [hno]
      exact ⟨hkkt.of_buffers_eq rfl rfl rfl rfl rfl, rfl, rfl⟩
    · rename_i hsome
      split_ifs at hbound with hneg
      obtain rfl := Except.ok.inj hbound
      rw [hsome]
      exact ⟨hkkt.of_buffers_eq rfl rfl rfl rfl rfl, rfl, if_neg hneg⟩
  set r₁ : Session (Solver K) σ K := { r with
    solver := { r.solver with kkt := bounded.setLock r.solver.options.lockPattern } }
  have h₁ : r.solver.OnlyKkt r₁.solver := ⟨_, _, rfl, horientation⟩
  have hfill : ∀ r₂ : Session (Solver K) σ K, r₂.backend = r.backend →
      r₁.solver.OnlyKkt r₂.solver → Newton.Cleared f D r₂.solver.kkt →
      ∀ R : Fault K → Session (Solver K) σ K → Prop, Ends (fillSystem env (systemFor f D))
        (fun _ r' => r'.backend = r.backend ∧ r.solver.OnlyKkt r'.solver ∧
          Newton.Prepared f D r'.solver.kkt ∧ r.solver.options.boundFault? = none) R r₂ := by
    intro r₂ hb₂ h₂ hclear R
    have hblocks₂ : Newton.Blocks D r₂.solver.G r₂.solver.A r₂.solver.compliance? := by
      obtain ⟨_, _, hs, -⟩ := h₁.trans h₂
      rw [hs]
      exact hblocks
    exact (ends_fillSystem env hclear hblocks₂).mono
      (fun _ _ ⟨hb, h, hp⟩ => ⟨hb.trans hb₂, (h₁.trans h₂).trans h, hp, hnone⟩) fun _ _ hR => hR
  split_ifs
  · refine (ends_learnPattern (r := r₁) hlocked hblocks).bind
      (fun _ r₂ ⟨hb₂, h₂, hclear⟩ => hfill r₂ hb₂ h₂ hclear _) ?_
    rintro e r₂ ⟨hb₂, h₂, hsound, hne⟩
    exact ⟨hb₂, h₁.trans h₂, hsound, fun hbyRows => absurd (horientation.trans hbyRows) hne⟩
  · refine (ends_resetSystem (r := r₁) hlocked).bind
      (fun _ r₂ ⟨hb₂, h₂, hclear⟩ => hfill r₂ hb₂ h₂ hclear _) ?_
    rintro e r₂ ⟨hb₂, h₂, hsound, a, ha⟩
    exact ⟨hb₂, h₁.trans h₂, hsound, fun _ htruncate => absurd ha (htruncate a)⟩

end CentralPath.InteriorPoint
