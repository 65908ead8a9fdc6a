/-
  What the checker decides, for any content of the buffers. Each rule has a meaning of its own
  (`Follows`), and the number that comes back is that of the first rule that is broken, in the order
  in which the rules are tested (`verify_eq_code_iff`). All rules together are the storage invariant
  as it is documented, which is about whole windows and not about neighbours
  (`sound_iff_documented`).

  The checker is total, and reads something even where nothing is stored. `guardedVerify?` runs
  through the same rules in the same order, but looks every offset and every slot up, pairs slots
  with the repeated numbers of their windows, and has no answer where one of them is missing. That
  it always answers, and answers the same (`guardedVerify?_eq`), says that each rule guards the
  reads of the rules behind it.
-/
import CentralPath.Proofs.Sparse.Ownership

namespace CentralPath.Sparse

variable {α : Type}

/-! ## Windows as a whole -/

/-- Slots stand in order exactly when entries with increasing indices come first and the rest are
holes. -/
theorem pairwise_before_iff {slots : List (Slot α)} :
    slots.Pairwise Slot.Before ↔ ∃ k, (∀ s ∈ slots.take k, s.isHole = false) ∧
      (slots.take k).Pairwise (fun a b => a.index < b.index) ∧
      ∀ s ∈ slots.drop k, s.isHole = true := by
  constructor
  · intro h
    induction slots with
    | nil => exact ⟨0, by simp, by simp, by simp⟩
    | cons a slots ih =>
      obtain ⟨hfirst, hrest⟩ := List.pairwise_cons.mp h
      cases ha : a.isHole with
      | true =>
        refine ⟨0, by simp, by simp, fun s hs => ?_⟩
        rcases List.mem_cons.mp hs with rfl | hs
        · exact ha
        · exact (hfirst s hs).isHole ha
      | false =>
        obtain ⟨k, hentries, hinc, hholes⟩ := ih hrest
        refine ⟨k + 1, fun s hs => ?_, List.pairwise_cons.mpr ⟨fun s hs => ?_, hinc⟩, hholes⟩
        · rcases List.mem_cons.mp hs with rfl | hs
          · exact ha
          · exact hentries s hs
        · exact (hfirst s (List.mem_of_mem_take hs)).index_lt (hentries s hs)
  · rintro ⟨k, hentries, hinc, hholes⟩
    rw [← List.take_append_drop k slots, List.pairwise_append]
    refine ⟨?_, List.Pairwise.imp_of_mem (fun _ hb _ => Or.inl (hholes _ hb))
      (List.pairwise_of_forall fun _ _ => True.intro), fun a _ b hb => Or.inl (hholes b hb)⟩
    exact hinc.imp_of_mem fun {a b} ha _ hab => Or.inr ⟨hentries a ha, hab⟩

namespace Matrix

variable {m : Matrix α} {v : Violation}

/-! ## Neighbours -/

/-- Two neighbouring slots of one window. -/
structure Adjacent (m : Matrix α) (w i : Nat) (a b : Slot α) : Prop where
  window : w < m.leadingDim
  start_le : m.start w ≤ i
  lt_end : i + 1 < m.start (w + 1)
  left : m.slots[i]? = some a
  right : m.slots[i + 1]? = some b

theorem anyNeighbours_eq_false_iff_adjacent {p : Slot α → Slot α → Bool} :
    m.anyNeighbours p = false ↔ ∀ w i a b, m.Adjacent w i a b → p a b = false := by
  rw [anyNeighbours_eq_false_iff]
  constructor
  · intro h w i a b hab
    have hchain := List.isChain_iff_getElem.mp (h w hab.window) (i - m.start w)
    have hleft := (getElem?_window_sub hab.start_le (Nat.lt_of_succ_lt hab.lt_end)).trans hab.left
    have hright : (m.window w)[i - m.start w + 1]? = some b := by
      rw [getElem?_window, ← Nat.add_assoc, Nat.add_sub_cancel' hab.start_le, if_pos hab.lt_end,
        hab.right]
    obtain ⟨hlt, rfl⟩ := List.getElem?_eq_some_iff.mp hright
    obtain ⟨_, rfl⟩ := List.getElem?_eq_some_iff.mp hleft
    exact hchain hlt
  · intro h w hw
    rw [List.isChain_iff_getElem]
    intro k hk
    have hleft := List.getElem?_eq_getElem (show k < (m.window w).length by omega)
    have hright := List.getElem?_eq_getElem hk
    rw [getElem?_window] at hleft hright
    split at hleft
    · split at hright
      · exact h w (m.start w + k) _ _ ⟨hw, Nat.le_add_right _ _, by assumption, hleft, hright⟩
      · cases hright
    · cases hleft

/-! ## The rules one by one -/

/-- The buffers keep the rule that a violation breaks. -/
def Follows (m : Matrix α) : Violation → Prop
  | .offsetShape => m.lead.size = m.leadingDim + 1 ∧ m.lead[0]? = some 0
  | .offsetOrder => m.lead.toList.Pairwise (· ≤ ·) ∧ m.usedLength ≤ m.capacity
  | .indexRange => ∀ s ∈ m.usedSlots, s.index = hole ∨ 0 ≤ s.index ∧ s.index < m.trailingDim
  | .entryOrder => ∀ w i a b, m.Adjacent w i a b → a.isHole = false → b.isHole = false →
      a.index < b.index
  | .holeOrder => ∀ w i a b, m.Adjacent w i a b → a.isHole = true → b.isHole = true
  | .liveHole => ∀ s ∈ m.usedSlots, s.isHole = true → s.live = false
  | .unwrittenSlot => m.compressed = true → ∀ s ∈ m.usedSlots, s.live = true

/-- The buffers break a rule and keep all rules before it. The rules are numbered downwards. -/
structure FirstBroken (m : Matrix α) (v : Violation) : Prop where
  broken : ¬m.Follows v
  before : ∀ u : Violation, v.code < u.code → m.Follows u

theorem Violation.code_inj {u v : Violation} (h : u.code = v.code) : u = v := by
  cases u <;> cases v <;> first | rfl | cases h

/-- No two rules are the first one that is broken. -/
theorem FirstBroken.unique {u v : Violation} (hu : m.FirstBroken u) (hv : m.FirstBroken v) :
    u = v := by
  rcases Int.lt_trichotomy u.code v.code with hlt | heq | hlt
  · exact absurd (hu.before v hlt) hv.broken
  · exact Violation.code_inj heq
  · exact absurd (hv.before u hlt) hu.broken

/-- The test that the checker makes for a rule. -/
def breaks (m : Matrix α) : Violation → Bool
  | .offsetShape => decide (m.lead.size ≠ m.leadingDim + 1 ∨ m.lead.toList.head? ≠ some 0)
  | .offsetOrder => (m.lead.toList.zip m.lead.toList.tail).any (fun x => decide (x.2 < x.1)) ||
      decide ((m.capacity : Int) < m.usedLength)
  | .indexRange => m.usedSlots.any fun s =>
      decide (s.index < hole) || decide ((m.trailingDim : Int) ≤ s.index)
  | .entryOrder => m.anyNeighbours fun a b => !a.isHole && !b.isHole && decide (b.index ≤ a.index)
  | .holeOrder => m.anyNeighbours fun a b => a.isHole && !b.isHole
  | .liveHole => m.usedSlots.any fun s => s.isHole && s.live
  | .unwrittenSlot => m.compressed && m.usedSlots.any (!·.live)

/-- The rules in the order in which they are tested. -/
def rules : List Violation :=
  [.offsetShape, .offsetOrder, .indexRange, .entryOrder, .holeOrder, .liveHole, .unwrittenSlot]

theorem violation?_eq_find? (m : Matrix α) : m.violation? = rules.find? m.breaks := by
  have htests : m.violation? =
      if m.breaks .offsetShape = true then some .offsetShape
      else if m.breaks .offsetOrder = true then some .offsetOrder
      else if m.breaks .indexRange = true then some .indexRange
      else if m.breaks .entryOrder = true then some .entryOrder
      else if m.breaks .holeOrder = true then some .holeOrder
      else if m.breaks .liveHole = true then some .liveHole
      else if m.breaks .unwrittenSlot = true then some .unwrittenSlot
      else none := by
    simp only [violation?, breaks, decide_eq_true_eq]
    congr
  rw [htests]
  simp only [rules, List.find?_cons, List.find?_nil]
  split_ifs <;> simp only [*]

theorem breaks_eq_false_iff (v : Violation) : m.breaks v = false ↔ m.Follows v := by
  cases v with
  | offsetShape =>
    rw [breaks, Follows, decide_eq_false_iff_not, not_or, not_not, not_not,
      List.head?_eq_getElem?, Array.getElem?_toList]
  | offsetOrder =>
    rw [breaks, Follows, Bool.or_eq_false_iff, decide_eq_false_iff_not, Int.not_lt,
      ← offsetsDecrease_eq_false_iff]
    rfl
  | indexRange =>
    rw [breaks, Follows, List.any_eq_false]
    refine forall₂_congr fun s _ => ?_
    rw [Bool.or_eq_true, decide_eq_true_eq, decide_eq_true_eq, hole]
    omega
  | entryOrder =>
    rw [breaks, Follows, anyNeighbours_eq_false_iff_adjacent]
    refine forall₂_congr fun w i => forall₂_congr fun a b => imp_congr_right fun _ => ?_
    cases a.isHole <;> cases b.isHole <;> simp
  | holeOrder =>
    rw [breaks, Follows, anyNeighbours_eq_false_iff_adjacent]
    refine forall₂_congr fun w i => forall₂_congr fun a b => imp_congr_right fun _ => ?_
    cases a.isHole <;> cases b.isHole <;> simp
  | liveHole =>
    rw [breaks, Follows, List.any_eq_false]
    refine forall₂_congr fun s _ => ?_
    cases s.isHole <;> simp
  | unwrittenSlot =>
    rw [breaks, Follows, Bool.and_eq_false_imp, List.any_eq_false]
    simp

/-- The rules are tested from the largest code down. -/
theorem pairwise_rules : rules.Pairwise fun u v => v.code < u.code := by decide

theorem mem_rules (v : Violation) : v ∈ rules := by cases v <;> decide

/-- What has a larger code than a rule is tested before it. -/
theorem mem_before {u v : Violation} {before behind : List Violation}
    (hsplit : rules = before ++ v :: behind) (hu : v.code < u.code) : u ∈ before := by
  have hpairs := pairwise_rules
  have hmem := mem_rules u
  rw [hsplit] at hpairs hmem
  have hlater := (List.pairwise_append.mp hpairs).2.1
  rcases List.mem_append.mp hmem with hmem | hmem
  · exact hmem
  · rcases List.mem_cons.mp hmem with rfl | hmem
    · exact absurd hu (Int.lt_irrefl _)
    · exact absurd hu (Int.not_lt.mpr (Int.le_of_lt ((List.pairwise_cons.mp hlater).1 u hmem)))

/-- The checker finds nothing exactly when every rule is kept. -/
theorem violation?_eq_none_iff_follows : m.violation? = none ↔ ∀ v, m.Follows v := by
  rw [violation?_eq_find?, List.find?_eq_none]
  constructor
  · intro h v
    rw [← breaks_eq_false_iff, ← Bool.not_eq_true]
    exact h v (mem_rules v)
  · intro h v _
    rw [Bool.not_eq_true, breaks_eq_false_iff]
    exact h v

/-- What the checker finds is the first rule that is broken. -/
theorem violation?_eq_some_iff : m.violation? = some v ↔ m.FirstBroken v := by
  have hfirst : ∀ v, m.violation? = some v → m.FirstBroken v := by
    intro v hv
    rw [violation?_eq_find?, List.find?_eq_some_iff_append] at hv
    obtain ⟨hbroken, before, behind, hsplit, hkept⟩ := hv
    refine ⟨fun hkeeps => ?_, fun u hu => ?_⟩
    · rw [(breaks_eq_false_iff v).mpr hkeeps] at hbroken
      cases hbroken
    · rw [← breaks_eq_false_iff, ← Bool.not_eq_true']
      exact hkept u (mem_before hsplit hu)
  refine ⟨hfirst v, fun h => ?_⟩
  rcases hu : m.violation? with _ | u
  · exact absurd (violation?_eq_none_iff_follows.mp hu v) h.broken
  · rw [(hfirst u hu).unique h]

/-- The number that the checker answers is the code of the first broken rule. -/
theorem verify_eq_code_iff : m.verify = v.code ↔ m.FirstBroken v := by
  rw [← violation?_eq_some_iff, verify]
  rcases m.violation? with _ | u
  · exact ⟨fun h => (by cases v <;> cases h), fun h => (by cases h)⟩
  · exact ⟨fun h => congrArg some (Violation.code_inj h),
      fun h => congrArg Violation.code (Option.some.inj h)⟩

/-! ## The documented invariant -/

/-- The storage invariant in full: offsets that cut the buffer, indices in range, and in every window
first the entries by increasing index and then holes only. -/
structure Documented (m : Matrix α) : Prop where
  size_lead : m.lead.size = m.leadingDim + 1
  origin : m.lead[0]? = some 0
  nondecreasing : m.lead.toList.Pairwise (· ≤ ·)
  inside : m.usedLength ≤ m.capacity
  index_range : ∀ s ∈ m.usedSlots, s.index = hole ∨ 0 ≤ s.index ∧ s.index < m.trailingDim
  windows : ∀ w, w < m.leadingDim → ∃ k, (∀ s ∈ (m.window w).take k, s.isHole = false) ∧
    ((m.window w).take k).Pairwise (fun a b => a.index < b.index) ∧
    ∀ s ∈ (m.window w).drop k, s.isHole = true
  hole_unwritten : ∀ s ∈ m.usedSlots, s.isHole = true → s.live = false
  compressed_written : m.compressed = true → ∀ s ∈ m.usedSlots, s.live = true

theorem sound_iff_documented : m.Sound ↔ m.Documented := by
  constructor
  · intro h
    have hused : ∀ s ∈ m.usedSlots, s.Fits m.trailingDim := fun s hs => by
      obtain ⟨w, hw, hs⟩ := h.cut.mem_usedSlots.mp hs
      exact (h.inOrder w hw).fits s hs
    obtain ⟨hsize, horigin, hpairs, hinside⟩ := isCut_iff_offsets.mp h.isCut
    refine ⟨hsize, horigin, hpairs, hinside, fun s hs => ?_,
      fun w hw => pairwise_before_iff.mp (h.inOrder w hw).ordered, fun s hs => (hused s hs).not_live,
      fun hc s hs => ?_⟩
    · have hge : (-1 : Int) ≤ s.index := (hused s hs).index_ge
      have hlt := (hused s hs).index_lt
      rw [hole]
      omega
    · obtain ⟨w, hw, hs⟩ := h.cut.mem_usedSlots.mp hs
      exact h.written hc w hw s hs
  · intro h
    have hcut : m.Cut := isCut_iff.mp
      (isCut_iff_offsets.mpr ⟨h.size_lead, h.origin, h.nondecreasing, h.inside⟩)
    refine ⟨hcut, fun w hw => ⟨fun s hs => ?_, pairwise_before_iff.mpr (h.windows w hw)⟩,
      fun hc w hw s hs => h.compressed_written hc s (hcut.mem_usedSlots.mpr ⟨w, hw, hs⟩)⟩
    have hs := hcut.mem_usedSlots.mpr ⟨w, hw, hs⟩
    have hrange := h.index_range s hs
    rw [hole] at hrange
    exact ⟨by rw [hole]; omega, by omega, h.hole_unwritten s hs⟩

/-! ## Every read looked up -/

/-- How far the offsets around each window are apart, if all of them are stored. -/
def gaps? (m : Matrix α) : Option (List Int) :=
  (List.range m.leadingDim).mapM fun w => do
    return (← m.lead[w + 1]?) - (← m.lead[w]?)

/-- The slots in front of the last offset, if there are as many. -/
def leadingSlots? (m : Matrix α) : Option (List (Slot α)) := do
  let last ← m.lead[m.leadingDim]?
  if last < 0 then none else (List.range last.toNat).mapM fun i => m.slots[i]?

/-- The number of each window as often as it has slots, if no window has a negative size. -/
def windowNumbers? (m : Matrix α) : Option (List Nat) := do
  let gaps ← m.gaps?
  if gaps.any (· < 0) then none
  else return gaps.zipIdx.flatMap fun (gap, w) => List.replicate gap.toNat w

/-- The leading slots with the number of their window, if there are as many numbers as slots. -/
def numberedSlots? (m : Matrix α) : Option (List (Nat × Slot α)) := do
  let numbers ← m.windowNumbers?
  let slots ← m.leadingSlots?
  if numbers.length = slots.length then return numbers.zip slots else none

/-- Whether some neighbours with one number satisfy `p`. -/
def anyNumbered (p : Slot α → Slot α → Bool) (slots : List (Nat × Slot α)) : Bool :=
  (slots.zip slots.tail).any fun (a, b) => a.1 == b.1 && p a.2 b.2

/-- The test for a rule, without an answer where something that it reads is missing. -/
def test? (m : Matrix α) : Violation → Option Bool
  | .offsetShape =>
    if m.lead.size ≠ m.leadingDim + 1 then some true else m.lead[0]?.map (decide <| · ≠ 0)
  | .offsetOrder => do
    let gaps ← m.gaps?
    let last ← m.lead[m.leadingDim]?
    return gaps.any (· < 0) || decide ((m.capacity : Int) < last)
  | .indexRange => m.leadingSlots?.map fun slots => slots.any fun s =>
      decide (s.index < hole) || decide ((m.trailingDim : Int) ≤ s.index)
  | .entryOrder => m.numberedSlots?.map <| anyNumbered fun a b =>
      !a.isHole && !b.isHole && decide (b.index ≤ a.index)
  | .holeOrder => m.numberedSlots?.map <| anyNumbered fun a b => a.isHole && !b.isHole
  | .liveHole => m.leadingSlots?.map fun slots => slots.any fun s => s.isHole && s.live
  | .unwrittenSlot =>
    if m.compressed then m.leadingSlots?.map fun slots => slots.any (!·.live) else some false

/-- The code of the first rule of a list that is broken, zero if none is. A test without an answer
leaves the run without one. -/
def guarded? (m : Matrix α) : List Violation → Option Int
  | [] => some 0
  | v :: rest => do if ← m.test? v then return v.code else m.guarded? rest

/-- The checker with every read looked up. -/
def guardedVerify? (m : Matrix α) : Option Int := m.guarded? rules

end Matrix

/-- Reads that all have an answer have one together. -/
theorem mapM_eq_some {β γ : Type} {f : β → Option γ} {l : List β} {r : List γ}
    (h : l.map f = r.map some) : l.mapM f = some r := by
  induction l generalizing r with
  | nil =>
    rw [List.map_nil, eq_comm, List.map_eq_nil_iff] at h
    rw [h]
    rfl
  | cons x l ih =>
    obtain ⟨y, r, rfl⟩ : ∃ y t, r = y :: t := by
      cases r with
      | nil => cases h
      | cons y t => exact ⟨y, t, rfl⟩
    rw [List.map_cons, List.map_cons, List.cons.injEq] at h
    rw [List.mapM_cons, h.1, ih h.2]
    rfl

namespace Matrix

variable {m : Matrix α} {v : Violation}

/-- The slots of the first `n` windows, each with the number of its window. -/
def numberedUpTo (m : Matrix α) (n : Nat) : List (Nat × Slot α) :=
  (List.range n).flatMap fun w => (m.window w).map (w, ·)

/-- How far the offsets around a window are apart. -/
def gap (m : Matrix α) (w : Nat) : Int := m.lead[w + 1]?.getD 0 - m.lead[w]?.getD 0

theorem gaps?_eq (hsize : m.lead.size = m.leadingDim + 1) :
    m.gaps? = some ((List.range m.leadingDim).map m.gap) := by
  refine mapM_eq_some ?_
  rw [List.map_map]
  refine List.map_congr_left fun w hw => ?_
  have hw := List.mem_range.mp hw
  rw [Function.comp_apply, gap, Array.getElem?_eq_getElem (show w + 1 < m.lead.size by omega),
    Array.getElem?_eq_getElem (show w < m.lead.size by omega)]
  rfl

/-- A negative gap is a decrease of the offsets. -/
theorem any_gaps_eq (hsize : m.lead.size = m.leadingDim + 1) :
    ((List.range m.leadingDim).map m.gap).any (· < 0) =
      (m.lead.toList.zip m.lead.toList.tail).any fun x => decide (x.2 < x.1) := by
  have hlist : (List.range m.leadingDim).map m.gap =
      (m.lead.toList.zip m.lead.toList.tail).map fun x => x.2 - x.1 := by
    refine List.ext_getElem (by simp; omega) fun w hw _ => ?_
    rw [List.length_map, List.length_range] at hw
    rw [List.getElem_map, List.getElem_map, List.getElem_range, List.getElem_zip,
      List.getElem_tail, gap, Array.getElem?_eq_getElem (show w + 1 < m.lead.size by omega),
      Array.getElem?_eq_getElem (show w < m.lead.size by omega)]
    rfl
  rw [hlist, List.any_map]
  refine congrArg (List.any _) (funext fun x => ?_)
  exact decide_eq_decide.mpr (by show x.2 - x.1 < 0 ↔ x.2 < x.1; omega)

theorem getElem?_leadingDim (hsize : m.lead.size = m.leadingDim + 1) :
    m.lead[m.leadingDim]? = some m.usedLength := by
  rw [usedLength, Array.back?, hsize, Nat.add_sub_cancel,
    Array.getElem?_eq_getElem (show m.leadingDim < m.lead.size by omega), Option.getD_some]

theorem Cut.leadingSlots?_eq (h : m.Cut) : m.leadingSlots? = some m.usedSlots := by
  have hend := h.end_le
  rw [leadingSlots?, h.lead_eq _ (Nat.le_refl _), Option.bind_eq_bind, Option.bind_some,
    if_neg (by omega), Int.toNat_natCast]
  refine mapM_eq_some (List.ext_getElem? fun i => ?_)
  rw [List.getElem?_map, List.getElem?_map, h.getElem?_usedSlots]
  by_cases hi : i < m.start m.leadingDim
  · rw [List.getElem?_range hi, if_pos hi, Option.map_some,
      Array.getElem?_eq_getElem (Nat.lt_of_lt_of_le hi hend), Option.map_some]
  · rw [List.getElem?_eq_none (by rw [List.length_range]; omega), if_neg hi, Option.map_none,
      Option.map_none]

theorem Cut.gap_eq (h : m.Cut) {w : Nat} (hw : w < m.leadingDim) :
    m.gap w = (m.window w).length := by
  have hle : m.start w ≤ m.start (w + 1) := h.start_le_succ w hw
  rw [gap, h.lead_eq (w + 1) hw, h.lead_eq w (Nat.le_of_lt hw), Option.getD_some, Option.getD_some,
    h.length_window hw]
  omega

theorem Cut.windowNumbers?_eq (h : m.Cut) :
    m.windowNumbers? = some ((List.range m.leadingDim).flatMap fun w =>
      List.replicate (m.window w).length w) := by
  have hnone : ((List.range m.leadingDim).map m.gap).any (· < 0) = false := by
    rw [List.any_map, List.any_eq_false]
    intro w hw
    rw [Function.comp_apply, h.gap_eq (List.mem_range.mp hw), decide_eq_true_eq]
    omega
  rw [windowNumbers?, gaps?_eq h.size_lead, Option.bind_eq_bind, Option.bind_some, hnone,
    if_neg Bool.false_ne_true]
  refine congrArg some ?_
  have hzip : ((List.range m.leadingDim).map m.gap).zipIdx =
      (List.range m.leadingDim).map fun w => (m.gap w, w) :=
    List.ext_getElem (by simp) fun w _ _ => by simp
  rw [hzip, List.flatMap_map]
  refine List.flatMap_congr fun w hw => ?_
  show List.replicate (m.gap w).toNat w = _
  rw [h.gap_eq (List.mem_range.mp hw), Int.toNat_natCast]

/-- Numbers repeated as often as a segment is long go along with the segments. -/
theorem zip_replicate_flatMap {β : Type} (f : Nat → List β) (ws : List Nat) :
    (ws.flatMap fun w => List.replicate (f w).length w).zip (ws.flatMap f) =
      ws.flatMap fun w => (f w).map (w, ·) := by
  induction ws with
  | nil => rfl
  | cons w ws ih =>
    have hhead : (List.replicate (f w).length w).zip (f w) = (f w).map (w, ·) :=
      List.ext_getElem (by simp) fun i _ _ => by simp
    rw [List.flatMap_cons, List.flatMap_cons, List.flatMap_cons,
      List.zip_append List.length_replicate, ih, hhead]

theorem Cut.numberedSlots?_eq (h : m.Cut) :
    m.numberedSlots? = some (m.numberedUpTo m.leadingDim) := by
  have hlen : ((List.range m.leadingDim).flatMap fun w =>
      List.replicate (m.window w).length w).length = m.usedSlots.length := by
    rw [h.usedSlots_eq, List.length_flatMap, List.length_flatMap]
    simp
  have hzip : ((List.range m.leadingDim).flatMap fun w =>
      List.replicate (m.window w).length w).zip m.usedSlots = m.numberedUpTo m.leadingDim := by
    rw [h.usedSlots_eq, zip_replicate_flatMap, numberedUpTo]
  rw [numberedSlots?, h.windowNumbers?_eq, h.leadingSlots?_eq, Option.bind_eq_bind,
    Option.bind_some, Option.bind_eq_bind, Option.bind_some, if_pos hlen, hzip]
  rfl

/-- Neighbours with one number are neighbours of one window. -/
theorem anyNumbered_eq (p : Slot α → Slot α → Bool) :
    anyNumbered p (m.numberedUpTo m.leadingDim) = m.anyNeighbours p := by
  have hnumbered : ∀ n, anyNumbered p (m.numberedUpTo n) = false ↔
      ∀ w, w < n → (m.window w).IsChain fun a b => p a b = false := by
    intro n
    let q : Nat × Slot α → Nat × Slot α → Bool := fun a b => a.1 == b.1 && p a.2 b.2
    refine (any_neighbours_eq_false (p := q) _).trans ?_
    induction n with
    | zero => simp [numberedUpTo]
    | succ n ih =>
      have hrow : ((m.window n).map (n, ·)).IsChain
          (fun a b : Nat × Slot α => (a.1 == b.1 && p a.2 b.2) = false) ↔
          (m.window n).IsChain fun a b => p a b = false := by
        simp [List.isChain_map]
      -- a slot of an earlier window has a smaller number
      have hlast : ∀ x ∈ (m.numberedUpTo n).getLast?, ∀ y ∈ ((m.window n).map (n, ·)).head?,
          (x.1 == y.1 && p x.2 y.2) = false := by
        intro x hx y hy
        obtain ⟨w, hw, hxw⟩ := List.mem_flatMap.mp (List.mem_of_getLast? hx)
        obtain ⟨_, _, rfl⟩ := List.mem_map.mp hxw
        obtain ⟨_, _, rfl⟩ := List.mem_map.mp (List.mem_of_head? hy)
        rw [Bool.and_eq_false_imp, beq_iff_eq]
        exact fun hwn => absurd (List.mem_range.mp hw) (by omega)
      have hsplit : m.numberedUpTo (n + 1) = m.numberedUpTo n ++ (m.window n).map (n, ·) := by
        rw [numberedUpTo, List.range_succ, List.flatMap_append, List.flatMap_singleton]
        rfl
      rw [hsplit, List.isChain_append, ih, hrow]
      constructor
      · rintro ⟨hbefore, hrow, -⟩ w hw
        rcases Nat.lt_succ_iff_lt_or_eq.mp hw with hw | rfl
        · exact hbefore w hw
        · exact hrow
      · exact fun h => ⟨fun w hw => h w (by omega), h n (by omega), hlast⟩
  rw [Bool.eq_iff_iff, ← not_iff_not, Bool.not_eq_true, Bool.not_eq_true, hnumbered,
    anyNeighbours_eq_false_iff]

theorem test?_eq (hbefore : ∀ u : Violation, v.code < u.code → m.Follows u) :
    m.test? v = some (m.breaks v) := by
  have hcut : v.code < Violation.offsetOrder.code → m.Cut := fun hv =>
    isCut_iff.mp (isCut_iff_offsets.mpr (and_assoc.mp
      ⟨hbefore .offsetShape (Int.lt_trans hv (by decide)), hbefore .offsetOrder hv⟩))
  cases v with
  | offsetShape =>
    rw [test?, breaks, List.head?_eq_getElem?, Array.getElem?_toList]
    by_cases hsize : m.lead.size = m.leadingDim + 1
    · rw [if_neg (not_not.mpr hsize), Array.getElem?_eq_getElem (by omega), Option.map_some]
      simp [hsize]
    · rw [if_pos hsize]
      simp [hsize]
  | offsetOrder =>
    obtain ⟨hsize, -⟩ := hbefore .offsetShape (by decide)
    rw [test?, gaps?_eq hsize, getElem?_leadingDim hsize, breaks, ← any_gaps_eq hsize]
    rfl
  | indexRange => rw [test?, (hcut (by decide)).leadingSlots?_eq]; rfl
  | entryOrder =>
    rw [test?, (hcut (by decide)).numberedSlots?_eq, Option.map_some, anyNumbered_eq, breaks]
  | holeOrder =>
    rw [test?, (hcut (by decide)).numberedSlots?_eq, Option.map_some, anyNumbered_eq, breaks]
  | liveHole => rw [test?, (hcut (by decide)).leadingSlots?_eq]; rfl
  | unwrittenSlot =>
    rw [test?, (hcut (by decide)).leadingSlots?_eq, Option.map_some, breaks]
    cases m.compressed <;> rfl

theorem guarded?_eq {tested rest : List Violation} (hsplit : rules = tested ++ rest)
    (hkept : ∀ u ∈ tested, m.Follows u) :
    m.guarded? rest = some (((rest.find? m.breaks).map Violation.code).getD 0) := by
  induction rest generalizing tested with
  | nil => rfl
  | cons v rest ih =>
    have htest : m.test? v = some (m.breaks v) :=
      test?_eq fun u hu => hkept u (mem_before hsplit hu)
    rw [guarded?, htest, Option.bind_eq_bind, Option.bind_some, List.find?_cons]
    cases hv : m.breaks v with
    | true => rfl
    | false =>
      refine ih (hsplit.trans (List.append_cons ..)) fun u hu => ?_
      rcases List.mem_append.mp hu with hu | hu
      · exact hkept u hu
      · rw [List.mem_singleton.mp hu]
        exact (breaks_eq_false_iff v).mp hv

theorem guardedVerify?_eq (m : Matrix α) : m.guardedVerify? = some m.verify := by
  rw [verify, violation?_eq_find?]
  exact guarded?_eq (List.nil_append _).symm fun _ hu => absurd hu List.not_mem_nil

end Matrix

end CentralPath.Sparse
