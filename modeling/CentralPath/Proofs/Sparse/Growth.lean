/-
  The capacity along runs of calls. A run that keeps its buffers passes through the matrices
  `moments`, between its actions and between the writes that an addition makes; `writeTrace` lists all
  writes with the matrix that each of them finds. Only writes redistribute, and a redistribution that
  raises the capacity finds more than half of it filled, so the capacity stays within four times the
  largest number of entries held so far, or where it was at the start (`growth_bounded`).
-/
import CentralPath.Proofs.Sparse.Capacity

namespace CentralPath.Sparse

theorem le_foldr_max {sizes : List Nat} {k : Nat} (h : k ∈ sizes) : k ≤ sizes.foldr max 0 := by
  induction sizes with
  | nil => cases h
  | cons n sizes ih =>
    rw [List.foldr_cons]
    rcases List.mem_cons.mp h with rfl | h
    · exact Nat.le_max_left _ _
    · exact Nat.le_trans (ih h) (Nat.le_max_right _ _)

variable {α : Type} [Scalar α]

/-! ## Writes of a run -/

namespace Matrix

/-- The matrix after a write, refused or not. -/
def wrote (m : Matrix α) (w : Write α) : Matrix α := (m.set w.row w.col w.value w.overwrite).2

/-- Whether a write redistributes the buffer. -/
def regrows (m : Matrix α) (w : Write α) : Bool := decide (m.growthCount < (m.wrote w).growthCount)

/-- The writes that adding another matrix comes down to. -/
def addends (m other : Matrix α) (negated : Bool) : List (Write α) :=
  match m.checkSameShape other, other.storedEntries with
  | none, .ok entries => additions entries negated
  | _, _ => []

/-- Writes up to the first that is refused, each with the matrix that it finds. -/
def steps (m : Matrix α) : List (Write α) → List (Matrix α × Write α)
  | [] => []
  | w :: ws =>
    (m, w) :: match m.set w.row w.col w.value w.overwrite with
      | (none, next) => next.steps ws
      | (some _, _) => []

end Matrix

/-- The writes that an action makes. -/
def Action.writes (m : Matrix α) : Action α → List (Write α)
  | .write w => [w]
  | .accumulate other negated => m.addends other negated
  | .accumulateSelf negated => m.addends m negated
  | _ => []

namespace Matrix

/-- All writes of a run, each with the matrix that it finds. -/
def writeTrace (m : Matrix α) : List (Action α) → List (Matrix α × Write α)
  | [] => []
  | a :: as => m.steps (a.writes m) ++ (m.perform a).matrix.writeTrace as

/-- All matrices that a run passes through: the first one, and those that its writes and its other
actions leave. -/
def moments (m : Matrix α) : List (Action α) → List (Matrix α)
  | [] => [m]
  | a :: as =>
    m :: (m.steps (a.writes m)).map (fun x => x.1.wrote x.2) ++ (m.perform a).matrix.moments as

/-- The largest number of entries that the matrix holds at any point of a run. -/
def peak (m : Matrix α) (actions : List (Action α)) : Nat :=
  ((m.moments actions).map held).foldr max 0

variable {m : Matrix α} {bound : Nat}

theorem performAll_mem_moments (m : Matrix α) (actions : List (Action α)) :
    m.performAll actions ∈ m.moments actions := by
  induction actions generalizing m with
  | nil => exact List.mem_singleton.mpr rfl
  | cons a as ih => exact List.mem_append_right _ (ih _)

/-- An addition makes its writes and does nothing else. -/
theorem accumulate_eq_writeAll (m other : Matrix α) (negated : Bool) :
    (m.accumulate other negated).2 = (m.writeAll (m.addends other negated)).2 := by
  rw [accumulate, addends]
  rcases m.checkSameShape other with _ | e
  · rcases other.storedEntries with e | entries <;> rfl
  · rfl

/-! ## One write -/

/-- A write at a matrix that obeys the storage rules redistributes its buffer for one more entry of
the window it goes to, or leaves the capacity. -/
theorem Sound.wrote_settled_or_redistributed (h : m.Sound) (w : Write α) :
    m.Settled (m.wrote w) ∨ ∃ target t, m.locateWindow? w.row w.col = some (target, t) ∧
      m.Redistributed (m.wrote w) target ∧ (m.wrote w).held = m.held + 1 := by
  by_cases hin : m.InShape w.row w.col
  · obtain ⟨target, t, hp, hw, ht, htb⟩ := exists_locateWindow? hin
    rw [wrote, h.set_eq hp]
    rcases h.write_settled_or_redistributed hw ht htb w.value w.overwrite with hs | hr
    · exact Or.inl hs
    · exact Or.inr ⟨target, t, hp, hr⟩
  · rw [wrote, set_of_not_inShape hin]
    exact Or.inl (Settled.refl m)

/-- More capacity than before means that the entries fill a quarter of it. -/
theorem Sound.capacity_wrote_le (h : m.Sound) {w : Write α} (hheld : (m.wrote w).held ≤ bound) :
    (m.wrote w).capacity ≤ max m.capacity (4 * bound) := by
  rcases h.wrote_settled_or_redistributed w with hs | ⟨target, t, -, hr, hgain⟩
  · rw [hs.capacity]
    exact Nat.le_max_left _ _
  · have := hr.keeps_or_doubles
    omega

theorem Sound.growthCount_wrote (h : m.Sound) (w : Write α) :
    (m.wrote w).growthCount = m.growthCount + if m.regrows w = true then 1 else 0 := by
  have hcount : (m.wrote w).growthCount = m.growthCount ∨
      (m.wrote w).growthCount = m.growthCount + 1 := by
    rcases h.wrote_settled_or_redistributed w with hs | ⟨target, t, -, hr, -⟩
    · exact Or.inl (by rw [growthCount, growthCount, hs.growths])
    · exact Or.inr (by rw [growthCount, growthCount, hr.recorded, Array.size_push])
  have hregrows : m.regrows w = true ↔ m.growthCount < (m.wrote w).growthCount :=
    decide_eq_true_iff
  split_ifs with hgrows <;> rw [hregrows] at hgrows <;> omega

/-! ## Runs of writes -/

/-- After the first write the others follow, unless it is refused. -/
theorem steps_cons (m : Matrix α) (w : Write α) (ws : List (Write α)) :
    (m.steps (w :: ws) = (m, w) :: (m.wrote w).steps ws ∧
      (m.writeAll (w :: ws)).2 = ((m.wrote w).writeAll ws).2) ∨
    (m.steps (w :: ws) = [(m, w)] ∧ (m.writeAll (w :: ws)).2 = m.wrote w) := by
  rw [steps, writeAll, wrote]
  rcases m.set w.row w.col w.value w.overwrite with ⟨_ | e, next⟩
  · exact Or.inl ⟨rfl, rfl⟩
  · exact Or.inr ⟨rfl, rfl⟩

theorem Sound.wrote (h : m.Sound) (w : Write α) : (m.wrote w).Sound :=
  h.set w.row w.col w.value w.overwrite

/-- Along writes every matrix obeys the storage rules. -/
theorem Sound.of_mem_steps (h : m.Sound) {writes : List (Write α)} {x : Matrix α × Write α}
    (hx : x ∈ m.steps writes) : x.1.Sound := by
  induction writes generalizing m with
  | nil => cases hx
  | cons w ws ih =>
    rcases m.steps_cons w ws with ⟨heq, -⟩ | ⟨heq, -⟩
    · rw [heq] at hx
      rcases List.mem_cons.mp hx with rfl | hx
      · exact h
      · exact ih (h.wrote w) hx
    · rw [heq, List.mem_singleton] at hx
      rw [hx]
      exact h

theorem Sound.capacity_writeAll_le (h : m.Sound) {writes : List (Write α)}
    (hheld : ∀ x ∈ m.steps writes, (x.1.wrote x.2).held ≤ bound) :
    (∀ x ∈ m.steps writes, (x.1.wrote x.2).capacity ≤ max m.capacity (4 * bound)) ∧
      (m.writeAll writes).2.capacity ≤ max m.capacity (4 * bound) := by
  induction writes generalizing m with
  | nil => exact ⟨nofun, Nat.le_max_left _ _⟩
  | cons w ws ih =>
    rcases m.steps_cons w ws with ⟨heq, hend⟩ | ⟨heq, hend⟩ <;> rw [heq] at hheld ⊢ <;> rw [hend]
    · have hfirst : (m.wrote w).capacity ≤ max m.capacity (4 * bound) :=
        h.capacity_wrote_le (hheld (m, w) (List.mem_cons_self ..))
      obtain ⟨hrest, hlast⟩ := ih (h.wrote w) fun x hx => hheld x (List.mem_cons_of_mem _ hx)
      refine ⟨fun x hx => ?_, by omega⟩
      rcases List.mem_cons.mp hx with rfl | hx
      · exact hfirst
      · have := hrest x hx
        omega
    · have hfirst := h.capacity_wrote_le (hheld (m, w) (List.mem_singleton.mpr rfl))
      refine ⟨fun x hx => ?_, hfirst⟩
      rw [List.mem_singleton.mp hx]
      exact hfirst

theorem Sound.growthCount_writeAll (h : m.Sound) (writes : List (Write α)) :
    (m.writeAll writes).2.growthCount =
      m.growthCount + (m.steps writes).countP fun x => x.1.regrows x.2 := by
  induction writes generalizing m with
  | nil => rfl
  | cons w ws ih =>
    have hfirst := h.growthCount_wrote w
    rcases m.steps_cons w ws with ⟨heq, hend⟩ | ⟨heq, hend⟩ <;> rw [heq, hend, List.countP_cons]
    · rw [ih (h.wrote w), hfirst]
      exact (Nat.add_assoc ..).trans (congrArg _ (Nat.add_comm ..))
    · rw [hfirst, List.countP_nil, Nat.zero_add]

/-! ## Runs of actions -/

/-- What is gathered of the windows fits in the buffer that they come from. -/
theorem Cut.capacity_rebuild (h : m.Cut) (keep : Slot α → Bool) :
    (m.rebuild keep).1.capacity = m.capacity := by
  have hused : m.usedSlots.length ≤ m.capacity := by
    rw [usedSlots, List.length_take, Array.length_toList]
    exact Nat.min_le_right _ _
  have hgathered : (m.gatheredWindows keep).flatten.length ≤ m.usedSlots.length := by
    rw [h.usedSlots_eq, List.length_flatten, gatheredWindows, List.map_map, List.length_flatMap]
    refine List.sum_le_sum fun w _ => ?_
    exact Nat.le_trans (length_gathered_le _) (List.length_filter_le _ _)
  show ((m.gatheredWindows keep).flatten ++ List.replicate
    (m.capacity - (m.gatheredWindows keep).flatten.length) Slot.free).toArray.size = m.capacity
  rw [List.size_toArray, List.length_append, List.length_replicate]
  omega

/-- Apart from the writes it makes, an action adds nothing to its buffers. -/
theorem Sound.perform_writes (h : m.Sound) {a : Action α} (ha : a.KeepsBuffers) :
    (m.perform a).matrix = (m.writeAll (a.writes m)).2 ∨ (a.writes m = [] ∧
      (m.perform a).matrix.capacity ≤ m.capacity ∧ (m.perform a).matrix.growths = m.growths) := by
  cases a with
  | write w =>
    refine Or.inl ?_
    show (m.set w.row w.col w.value w.overwrite).2 = (m.writeAll [w]).2
    rcases m.steps_cons w [] with ⟨-, hend⟩ | ⟨-, hend⟩ <;> rw [hend] <;> rfl
  | reset rows cols hint => exact ha.elim
  | compress =>
    rw [Matrix.perform, compress?, if_pos h.isCut]
    exact Or.inr ⟨rfl, Nat.le_of_eq (h.cut.capacity_rebuild _), rfl⟩
  | prune threshold =>
    rw [Matrix.perform, prune, if_pos h.isCut]
    split_ifs
    · exact Or.inr ⟨rfl, Nat.le_refl _, rfl⟩
    · exact Or.inr ⟨rfl, Nat.le_of_eq (h.cut.capacity_rebuild _), rfl⟩
  | trim =>
    rw [Matrix.perform, trim?, if_pos h.isCut]
    refine Or.inr ⟨rfl, ?_, rfl⟩
    show m.usedSlots.toArray.size ≤ m.slots.size
    rw [List.size_toArray, usedSlots, List.length_take, Array.length_toList]
    exact Nat.min_le_right _ _
  | lock on => exact Or.inr ⟨rfl, Nat.le_refl _, rfl⟩
  | boundShifts b =>
    rcases b with _ | b
    · exact Or.inr ⟨rfl, Nat.le_refl _, rfl⟩
    · rw [Matrix.perform, setShiftBound]
      split_ifs <;> exact Or.inr ⟨rfl, Nat.le_refl _, rfl⟩
  | load pattern => exact ha.elim
  | accumulate other negated => exact Or.inl (accumulate_eq_writeAll m other negated)
  | accumulateSelf negated => exact Or.inl (accumulate_eq_writeAll m m negated)
  | scale factor =>
    exact Or.inr ⟨rfl, Nat.le_of_eq (revalued_scaleBy m factor).sameTopology.capacity, rfl⟩
  | map f rowSpan colSpan =>
    rw [Matrix.perform, mapValues?, if_pos h.isCut]
    exact Or.inr ⟨rfl,
      Nat.le_of_eq (revalued_mapValues m f rowSpan colSpan).sameTopology.capacity, rfl⟩

theorem Sound.growthCount_perform (h : m.Sound) {a : Action α} (ha : a.KeepsBuffers) :
    (m.perform a).matrix.growthCount =
      m.growthCount + (m.steps (a.writes m)).countP fun x => x.1.regrows x.2 := by
  rcases h.perform_writes ha with heq | ⟨hnone, -, hgrowths⟩
  · rw [heq, h.growthCount_writeAll]
  · rw [hnone, growthCount, growthCount, hgrowths]
    rfl

/-- At no point of a run the capacity is beyond the first one and four times a number of entries that
is never exceeded. -/
theorem Sound.capacity_moments_le (h : m.Sound) {actions : List (Action α)}
    (ha : ∀ a ∈ actions, a.KeepsBuffers) (hheld : ∀ s ∈ m.moments actions, s.held ≤ bound) :
    ∀ s ∈ m.moments actions, s.capacity ≤ max m.capacity (4 * bound) := by
  induction actions generalizing m with
  | nil =>
    intro s hs
    rw [List.mem_singleton.mp hs]
    exact Nat.le_max_left _ _
  | cons a as ih =>
    have hfirst := ha a (List.mem_cons_self ..)
    have hsteps := h.capacity_writeAll_le fun x (hx : x ∈ m.steps (a.writes m)) =>
      hheld _ (List.mem_append_left _ (List.mem_cons_of_mem _ (List.mem_map_of_mem hx)))
    have hnext : (m.perform a).matrix.capacity ≤ max m.capacity (4 * bound) := by
      rcases h.perform_writes hfirst with heq | ⟨-, hle, -⟩
      · rw [heq]
        exact hsteps.2
      · exact Nat.le_trans hle (Nat.le_max_left _ _)
    have hrest := ih (h.perform a hfirst.inRange) (fun a' ha' => ha a' (List.mem_cons_of_mem _ ha'))
      fun s hs => hheld s (List.mem_append_right _ hs)
    intro s hs
    rcases List.mem_append.mp hs with hs | hs
    · rcases List.mem_cons.mp hs with rfl | hs
      · exact Nat.le_max_left _ _
      · obtain ⟨x, hx, rfl⟩ := List.mem_map.mp hs
        exact hsteps.1 x hx
    · have := hrest s hs
      omega

/-- The redistributions of a run are those of its writes. -/
theorem Sound.growthCount_performAll (h : m.Sound) {actions : List (Action α)}
    (ha : ∀ a ∈ actions, a.KeepsBuffers) :
    (m.performAll actions).growthCount =
      m.growthCount + (m.writeTrace actions).countP fun x => x.1.regrows x.2 := by
  induction actions generalizing m with
  | nil => rfl
  | cons a as ih =>
    have hfirst := ha a (List.mem_cons_self ..)
    have hrest := ih (h.perform a hfirst.inRange) fun a' ha' => ha a' (List.mem_cons_of_mem _ ha')
    rw [writeTrace, List.countP_append]
    show ((m.perform a).matrix.performAll as).growthCount = _
    rw [hrest, h.growthCount_perform hfirst]
    omega

theorem Sound.of_mem_writeTrace (h : m.Sound) {actions : List (Action α)}
    (ha : ∀ a ∈ actions, a.KeepsBuffers) {x : Matrix α × Write α} (hx : x ∈ m.writeTrace actions) :
    x.1.Sound := by
  induction actions generalizing m with
  | nil => cases hx
  | cons a as ih =>
    rw [writeTrace] at hx
    rcases List.mem_append.mp hx with hx | hx
    · exact h.of_mem_steps hx
    · exact ih (h.perform a (ha a (List.mem_cons_self ..)).inRange)
        (fun a' ha' => ha a' (List.mem_cons_of_mem _ ha')) hx

/-- Growth is bounded by the content. From buffers that obey the storage rules, at no point of a run
of calls that keep the buffers is the capacity beyond where it was at the start and beyond four times
the largest number of entries held. All redistributions on the way are those of the run's writes, and
each of them keeps or doubles the capacity, for a reason, and shares it out. -/
theorem growth_bounded (m : Matrix α) (h : m.verify = 0) (actions : List (Action α))
    (ha : ∀ a ∈ actions, a.KeepsBuffers) :
    (∀ s ∈ m.moments actions, s.capacity ≤ max m.capacity (4 * m.peak actions)) ∧
      m.performAll actions ∈ m.moments actions ∧
      (m.performAll actions).growthCount =
        m.growthCount + ((m.writeTrace actions).countP fun x => x.1.regrows x.2) ∧
      ∀ x ∈ m.writeTrace actions, x.1.regrows x.2 = true → ∃ target t,
        x.1.locateWindow? x.2.row x.2.col = some (target, t) ∧
          x.1.Redistributed (x.1.wrote x.2) target := by
  have hsound := verify_eq_zero_iff.mp h
  refine ⟨hsound.capacity_moments_le ha fun s hs => le_foldr_max (List.mem_map_of_mem hs),
    performAll_mem_moments m actions, hsound.growthCount_performAll ha, fun x hx hgrows => ?_⟩
  rcases (hsound.of_mem_writeTrace ha hx).wrote_settled_or_redistributed x.2 with
    hs | ⟨target, t, hp, hr, -⟩
  · rw [regrows, decide_eq_true_eq, growthCount, growthCount, hs.growths] at hgrows
    exact absurd hgrows (Nat.lt_irrefl _)
  · exact ⟨target, t, hp, hr⟩

end Matrix

/-- Writes from the last column to the first where entries may not move, and a turnover of what is
stored. -/
def crowding : List (Action ℚ) :=
  [.boundShifts (some 0), .write ⟨0, 2, 5, true⟩, .write ⟨0, 1, 3, true⟩, .lock true,
    .write ⟨0, 0, 7, true⟩, .accumulateSelf false, .lock false, .prune 8, .trim]

/-- From one slot the second and the third of these writes redistribute the buffer. -/
theorem growth_bounded_crowding :
    ((Matrix.empty 1 3 .byRows 1 : Matrix ℚ).verify = 0 ∧ ∀ a ∈ crowding, a.KeepsBuffers) ∧
      (∀ s ∈ (Matrix.empty 1 3 .byRows 1).moments crowding, s.capacity ≤ 4 * 3) ∧
      ((Matrix.empty 1 3 .byRows 1).performAll crowding).growthCount = 2 := by
  have hverify : (Matrix.empty 1 3 .byRows 1 : Matrix ℚ).verify = 0 := by decide +kernel
  have hactions : ∀ a ∈ crowding, a.KeepsBuffers := by
    intro a ha
    simp only [crowding, List.mem_cons, List.not_mem_nil, or_false] at ha
    rcases ha with rfl | rfl | rfl | rfl | rfl | rfl | rfl | rfl | rfl <;> exact True.intro
  obtain ⟨hcapacity, -, hcount, -⟩ := Matrix.growth_bounded _ hverify crowding hactions
  have hpeak : (Matrix.empty 1 3 .byRows 1).peak crowding = 3 := by decide +kernel
  have hfirst : (Matrix.empty 1 3 .byRows 1 : Matrix ℚ).capacity = 1 := by decide +kernel
  have hgrows : ((Matrix.empty 1 3 .byRows 1).writeTrace crowding).countP
      (fun x => x.1.regrows x.2) = 2 := by decide +kernel
  refine ⟨⟨hverify, hactions⟩, fun s hs => ?_, ?_⟩
  · have := hcapacity s hs
    rw [hpeak, hfirst] at this
    exact this
  · rw [hcount, hgrows]
    rfl

end CentralPath.Sparse
