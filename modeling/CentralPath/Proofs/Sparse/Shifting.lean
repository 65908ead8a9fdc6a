/-
  How little an insertion moves. `shifted` is where a slot goes when a certain hole is used up, and
  `entriesMoved` how many entries that moves, so every hole of the buffer has its price. The two
  searches of `Matrix.makeRoom?` are described by the hole that they end at
  (`holeAhead?_eq_some`, `holeBehind?_eq_some`); what `MadeRoom` says of the outcome is then
  proved once for entries that move up and once for entries that move down.

  `Opened` compares windows by their members. Here they are compared as sequences: both sides are in
  order of their index, so equal members make equal sequences (`Opened.residents_eq`).
-/
import CentralPath.Proofs.Sparse.Room

namespace CentralPath.Sparse.Matrix

variable {α : Type} {m opened : Matrix α} {w v d g gap pos slot : Nat} {t : Int}

/-! ## Holes and their price -/

/-- All slots behind the windows are free. -/
def TailFree (m : Matrix α) : Prop :=
  ∀ i, m.start m.leadingDim ≤ i → i < m.capacity → m.holeAt i = true

/-- A hole that room at `pos` may be made with: no further ahead of `pos`, or behind the slot before
it, than entries may be shifted. -/
def InReach (m : Matrix α) (pos gap : Nat) : Prop :=
  m.holeAt gap = true ∧ ∀ s, m.shiftBound = some s →
    (pos ≤ gap ∧ gap ≤ pos + s) ∨ (gap < pos ∧ pos ≤ gap + 1 + s)

/-- Where slot `j` goes when room at `pos` is made with the hole `gap`. -/
def shifted (pos gap j : Nat) : Nat :=
  if pos ≤ j ∧ j < gap then j + 1 else if gap < j ∧ j < pos then j - 1 else j

theorem shifted_ne_iff {j : Nat} :
    shifted pos gap j ≠ j ↔ (pos ≤ j ∧ j < gap) ∨ (gap < j ∧ j < pos) := by
  rw [shifted]
  split_ifs <;> omega

/-- Number of entries that move when room at `pos` is made with the hole `gap`. -/
def entriesMoved (m : Matrix α) (pos gap : Nat) : Nat :=
  ((Finset.range m.capacity).filter fun j => m.holeAt j = false ∧ shifted pos gap j ≠ j).card

/-- A hole is at least as dear as one that moves fewer slots. -/
theorem entriesMoved_mono (h : ∀ j, shifted pos gap j ≠ j → shifted pos g j ≠ j) :
    m.entriesMoved pos gap ≤ m.entriesMoved pos g := by
  refine Finset.card_le_card fun j hj => ?_
  rw [Finset.mem_filter] at hj ⊢
  exact ⟨hj.1, hj.2.1, h j hj.2.2⟩

/-- The first hole from `pos` on costs its distance. -/
theorem entriesMoved_ahead (hgap : pos + d ≤ m.capacity)
    (hfull : ∀ j, pos ≤ j → j < pos + d → m.holeAt j = false) :
    m.entriesMoved pos (pos + d) = d := by
  have hset : ((Finset.range m.capacity).filter fun j =>
      m.holeAt j = false ∧ shifted pos (pos + d) j ≠ j) = Finset.Ico pos (pos + d) := by
    ext j
    rw [Finset.mem_filter, Finset.mem_range, Finset.mem_Ico, shifted_ne_iff]
    constructor
    · omega
    · intro hj
      exact ⟨by omega, hfull j hj.1 hj.2, Or.inl hj⟩
  rw [entriesMoved, hset, Nat.card_Ico]
  omega

/-- The last hole before `pos` costs its distance from the slot before `pos`. -/
theorem entriesMoved_behind (hsize : pos ≤ m.capacity) (hpos : d < pos)
    (hfull : ∀ j, pos - 1 - d < j → j < pos → m.holeAt j = false) :
    m.entriesMoved pos (pos - 1 - d) = d := by
  have hset : ((Finset.range m.capacity).filter fun j =>
      m.holeAt j = false ∧ shifted pos (pos - 1 - d) j ≠ j) = Finset.Ioo (pos - 1 - d) pos := by
    ext j
    rw [Finset.mem_filter, Finset.mem_range, Finset.mem_Ioo, shifted_ne_iff]
    constructor
    · omega
    · intro hj
      exact ⟨by omega, hfull j hj.1 hj.2, Or.inr hj⟩
  rw [entriesMoved, hset, Nat.card_Ioo]
  omega

/-! ## The two searches -/

/-- Holes lie in the buffer, so only the bound of the matrix limits a search for one. -/
theorem le_searchBound_iff (hd : d ≤ m.capacity) :
    d ≤ m.searchBound ↔ ∀ s, m.shiftBound = some s → d ≤ s := by
  rw [searchBound]
  cases m.shiftBound with
  | none => simpa using hd
  | some s => simpa using fun _ => hd

theorem inReach_ahead_iff :
    m.InReach pos (pos + d) ↔ m.holeAt (pos + d) = true ∧ d ≤ m.searchBound := by
  refine and_congr_right fun hhole => ?_
  have hlt : pos + d < m.capacity := lt_size_of_holeAt hhole
  rw [le_searchBound_iff (by omega)]
  exact forall₂_congr fun s _ => by omega

theorem inReach_behind_iff (hsize : pos ≤ m.capacity) (hpos : d < pos) :
    m.InReach pos (pos - 1 - d) ↔ m.holeAt (pos - 1 - d) = true ∧ d ≤ m.searchBound := by
  refine and_congr_right fun _ => ?_
  rw [le_searchBound_iff (by omega)]
  exact forall₂_congr fun s _ => by omega

/-- The search ahead ends at a hole in reach with no hole before it. -/
theorem holeAhead?_eq_some (h : m.holeAhead? pos = some d) :
    m.InReach pos (pos + d) ∧ ∀ j, pos ≤ j → j < pos + d → m.holeAt j = false := by
  obtain ⟨hhole, hd, hnone⟩ := List.find?_range_eq_some.mp h
  rw [List.mem_range, Nat.lt_succ_iff] at hd
  refine ⟨inReach_ahead_iff.mpr ⟨hhole, hd⟩, ?_⟩
  intro j hj hjd
  have := hnone (j - pos) (by omega)
  rwa [show pos + (j - pos) = j by omega, Bool.not_eq_true'] at this

theorem holeAhead?_eq_none_iff :
    m.holeAhead? pos = none ↔ ∀ g, pos ≤ g → ¬m.InReach pos g := by
  rw [holeAhead?, List.find?_range_eq_none]
  constructor
  · intro h g hg hreach
    obtain ⟨d, rfl⟩ := Nat.exists_eq_add_of_le hg
    obtain ⟨hhole, hd⟩ := inReach_ahead_iff.mp hreach
    have := h d (by omega)
    rw [hhole] at this
    cases this
  · intro h d hd
    rw [Bool.not_eq_true', ← Bool.not_eq_true]
    exact fun hhole => h (pos + d) (by omega) (inReach_ahead_iff.mpr ⟨hhole, by omega⟩)

/-- The search behind ends at a hole in reach with no hole between it and `pos`. -/
theorem holeBehind?_eq_some (hsize : pos ≤ m.capacity) (h : m.holeBehind? pos = some d) :
    d < pos ∧ m.InReach pos (pos - 1 - d) ∧
      ∀ j, pos - 1 - d < j → j < pos → m.holeAt j = false := by
  obtain ⟨hhole, hd, hnone⟩ := List.find?_range_eq_some.mp h
  rw [List.mem_range, Nat.lt_succ_iff] at hd
  rw [Bool.and_eq_true, decide_eq_true_eq] at hhole
  refine ⟨hhole.1, (inReach_behind_iff hsize hhole.1).mpr ⟨hhole.2, hd⟩, ?_⟩
  intro j hj hjp
  have := hnone (pos - 1 - j) (by omega)
  rwa [show pos - 1 - (pos - 1 - j) = j by omega, decide_eq_true (by omega), Bool.true_and,
    Bool.not_eq_true'] at this

theorem holeBehind?_eq_none_iff (hsize : pos ≤ m.capacity) :
    m.holeBehind? pos = none ↔ ∀ g, g < pos → ¬m.InReach pos g := by
  rw [holeBehind?, List.find?_range_eq_none]
  constructor
  · intro h g hg hreach
    rw [show g = pos - 1 - (pos - 1 - g) by omega] at hreach
    obtain ⟨hhole, hd⟩ := (inReach_behind_iff hsize (by omega)).mp hreach
    have := h (pos - 1 - g) (by omega)
    rw [hhole, decide_eq_true (by omega)] at this
    cases this
  · intro h d hd
    rw [Bool.not_eq_true', ← Bool.not_eq_true, Bool.and_eq_true, decide_eq_true_eq]
    exact fun hhole => h (pos - 1 - d) (by omega)
      ((inReach_behind_iff hsize hhole.1).mpr ⟨hhole.2, by omega⟩)

/-- No hole ahead is cheaper than the first one. -/
theorem le_entriesMoved_ahead (hfull : ∀ j, pos ≤ j → j < pos + d → m.holeAt j = false)
    (hg : m.InReach pos g) (hle : pos ≤ g) : d ≤ m.entriesMoved pos g := by
  have hlt : g < m.capacity := lt_size_of_holeAt hg.1
  have hbeyond : pos + d ≤ g := by
    by_contra hlt'
    exact Bool.false_ne_true ((hfull g hle (by omega)).symm.trans hg.1)
  calc d = m.entriesMoved pos (pos + d) := (entriesMoved_ahead (by omega) hfull).symm
    _ ≤ m.entriesMoved pos g :=
      entriesMoved_mono fun j hj => by rw [shifted_ne_iff] at hj ⊢; omega

/-- No hole behind is cheaper than the last one. -/
theorem le_entriesMoved_behind (hsize : pos ≤ m.capacity) (hpos : d < pos)
    (hfull : ∀ j, pos - 1 - d < j → j < pos → m.holeAt j = false)
    (hg : m.InReach pos g) (hlt : g < pos) : d ≤ m.entriesMoved pos g := by
  have hbeyond : g ≤ pos - 1 - d := by
    by_contra hlt'
    exact Bool.false_ne_true ((hfull g (by omega) hlt).symm.trans hg.1)
  calc d = m.entriesMoved pos (pos - 1 - d) := (entriesMoved_behind hsize hpos hfull).symm
    _ ≤ m.entriesMoved pos g :=
      entriesMoved_mono fun j hj => by rw [shifted_ne_iff] at hj ⊢; omega

/-! ## Which way entries move -/

/-- Room is refused exactly when no hole is in reach. -/
theorem makeRoom?_eq_none_iff (hsize : pos ≤ m.capacity) :
    m.makeRoom? pos w = none ↔ ∀ g, ¬m.InReach pos g := by
  have hboth : m.makeRoom? pos w = none ↔ m.holeAhead? pos = none ∧ m.holeBehind? pos = none := by
    rw [makeRoom?]
    cases m.holeAhead? pos <;> cases m.holeBehind? pos <;> simp
    split_ifs <;> simp
  rw [hboth, holeAhead?_eq_none_iff, holeBehind?_eq_none_iff hsize]
  constructor
  · rintro ⟨hahead, hbehind⟩ g
    rcases Nat.lt_or_ge g pos with hlt | hge
    · exact hbehind g hlt
    · exact hahead g hge
  · exact fun h => ⟨fun g _ => h g, fun g _ => h g⟩

/-- Entries move up into the first hole ahead, or down into the last one behind if that is
cheaper. -/
theorem makeRoom?_eq_some (hsize : pos ≤ m.capacity)
    (h : m.makeRoom? pos w = some (opened, slot)) :
    (∃ d, opened = m.shiftUp pos d w ∧ slot = pos ∧ m.InReach pos (pos + d) ∧
      (∀ j, pos ≤ j → j < pos + d → m.holeAt j = false) ∧
      ∀ g, m.InReach pos g → g < pos → d ≤ m.entriesMoved pos g) ∨
    ∃ d, d < pos ∧ opened = m.shiftDown pos d w ∧ slot = pos - 1 ∧ m.InReach pos (pos - 1 - d) ∧
      (∀ j, pos - 1 - d < j → j < pos → m.holeAt j = false) ∧
      ∀ g, m.InReach pos g → pos ≤ g → d < m.entriesMoved pos g := by
  obtain ⟨d, hahead, hcheap, heq⟩ | ⟨d, hbehind, hcheap, heq⟩ := cases_of_makeRoom? h
  · obtain ⟨rfl, rfl⟩ := Prod.mk.inj heq
    obtain ⟨hreach, hfull⟩ := holeAhead?_eq_some hahead
    refine Or.inl ⟨d, rfl, rfl, hreach, hfull, fun g hg hlt => ?_⟩
    rcases hbehind : m.holeBehind? slot with _ | d'
    · exact absurd hg ((holeBehind?_eq_none_iff hsize).mp hbehind g hlt)
    · obtain ⟨hpos, -, hfull'⟩ := holeBehind?_eq_some hsize hbehind
      exact Nat.le_trans (hcheap d' hbehind) (le_entriesMoved_behind hsize hpos hfull' hg hlt)
  · obtain ⟨rfl, rfl⟩ := Prod.mk.inj heq
    obtain ⟨hpos, hreach, hfull⟩ := holeBehind?_eq_some hsize hbehind
    refine Or.inr ⟨d, hpos, rfl, rfl, hreach, hfull, fun g hg hge => ?_⟩
    rcases hahead : m.holeAhead? pos with _ | d'
    · exact absurd hg (holeAhead?_eq_none_iff.mp hahead g hge)
    · exact Nat.lt_of_lt_of_le (hcheap d' hahead)
        (le_entriesMoved_ahead (holeAhead?_eq_some hahead).2 hg hge)

/-! ## Entries in sequence -/

/-- The entries of a window in order of their slots, but for the one in slot `skip`. -/
def filledBeside (m : Matrix α) (skip : Option Nat) (v : Nat) : List (Slot α) :=
  (((m.window v).zipIdx (m.start v)).filter fun x => !x.1.isHole && some x.2 != skip).map Prod.fst

/-- Every entry with its window in order of the slots, but for the one in slot `skip`. -/
def residents (m : Matrix α) (skip : Option Nat) : List (Nat × Slot α) :=
  (List.range m.leadingDim).flatMap fun v => (m.filledBeside skip v).map fun s => (v, s)

theorem mem_filledBeside {skip : Option Nat} {s : Slot α} :
    s ∈ m.filledBeside skip v ↔ s.isHole = false ∧
      ∃ i, some i ≠ skip ∧ m.start v ≤ i ∧ i < m.start (v + 1) ∧ m.slots[i]? = some s := by
  simp only [filledBeside, List.mem_map, List.mem_filter, Prod.exists, exists_and_right,
    exists_eq_right, Bool.and_eq_true, Bool.not_eq_true', bne_iff_ne,
    List.mk_mem_zipIdx_iff_le_and_getElem?_sub, getElem?_window]
  constructor
  · rintro ⟨i, ⟨hle, hget⟩, hhole, hskip⟩
    split_ifs at hget with hlt
    rw [show m.start v + (i - m.start v) = i by omega] at hlt hget
    exact ⟨hhole, i, hskip, hle, hlt, hget⟩
  · rintro ⟨hhole, i, hskip, hle, hlt, hget⟩
    refine ⟨i, ⟨hle, ?_⟩, hhole, hskip⟩
    rw [show m.start v + (i - m.start v) = i by omega, if_pos hlt, hget]

/-- Slots in order give entries by their index. -/
theorem filledBeside_increasing {skip : Option Nat}
    (h : ∀ i j a b, m.start v ≤ i → i < j → j < m.start (v + 1) → some i ≠ skip →
      some j ≠ skip → m.slots[i]? = some a → m.slots[j]? = some b → a.Before b) :
    (m.filledBeside skip v).Pairwise fun a b => a.index < b.index := by
  rw [filledBeside, List.pairwise_map, List.pairwise_filter, List.pairwise_iff_getElem]
  intro i j hi hj hij
  simp only [List.getElem_zipIdx, Bool.and_eq_true, Bool.not_eq_true', bne_iff_ne]
  rintro ⟨-, hskipi⟩ ⟨hhole, hskipj⟩
  rw [List.length_zipIdx] at hi hj
  have ha := List.getElem?_eq_getElem hi
  have hb := List.getElem?_eq_getElem hj
  rw [getElem?_window] at ha hb
  split_ifs at ha hb with hiend hjend
  exact (h _ _ _ _ (by omega) (by omega) hjend hskipi hskipj ha hb).index_lt hhole

/-- Opening a slot leaves every other entry in its window and in its place in the sequence. -/
theorem Opened.residents_eq (ho : m.Opened opened w t slot) (h : m.Sound) :
    opened.residents (some slot) = m.residents none := by
  rw [residents, residents, ho.frame.leadingDim]
  refine List.flatMap_congr fun v hv => ?_
  rw [List.mem_range] at hv
  have hirrefl : Std.Irrefl fun a b : Slot α => a.index < b.index := ⟨fun a => Int.lt_irrefl _⟩
  have hafter : (opened.filledBeside (some slot) v).Pairwise fun a b => a.index < b.index :=
    filledBeside_increasing fun i j a b hvi hij hj hi' hj' =>
      ho.ordered v i j a b hv hvi hij hj (fun he => hi' (congrArg some he))
        fun he => hj' (congrArg some he)
  have hbefore : (m.filledBeside none v).Pairwise fun a b => a.index < b.index :=
    filledBeside_increasing fun i j a b hvi hij hj _ _ =>
      pairwise_window_iff.mp (h.inOrder v hv).ordered i j a b hvi hij hj
  refine congrArg _ (hafter.eq_of_mem_iff hbefore fun s => ?_)
  rw [mem_filledBeside, mem_filledBeside]
  refine and_congr_right fun hhole => ?_
  constructor
  · rintro ⟨i, hi, hvi, hiv, hs⟩
    have hmem := (ho.origin v i s hv hvi hiv (fun he => hi (congrArg some he)) hs).2 hhole
    obtain ⟨j, hvj, hjv, hs'⟩ := mem_window_iff.mp hmem
    exact ⟨j, nofun, hvj, hjv, hs'⟩
  · rintro ⟨j, -, hvj, hjv, hs⟩
    obtain ⟨i, hi, hvi, hiv, hs'⟩ := ho.kept v s hv (mem_window_iff.mpr ⟨j, hvj, hjv, hs⟩) hhole
    exact ⟨i, fun he => hi (Option.some.inj he), hvi, hiv, hs'⟩

/-! ## Room that was made -/

/-- What becomes of an offset: it stays, or it lies between the place and the hole and goes where
the slots around it go. -/
def MovesAlong (pos gap : Nat) (a b : Int) : Prop :=
  b = a ∨ (b = a + 1 ∧ pos ≤ a ∧ a ≤ gap) ∨ (b = a - 1 ∧ gap < a ∧ a ≤ pos)

/-- Room for index `t` of window `w` was made at `pos`, with the hole `gap`, by moving as few
entries as possible; the new entry goes to `slot`. -/
structure MadeRoom (m opened : Matrix α) (w : Nat) (t : Int) (pos gap slot : Nat) : Prop
    extends m.Opened opened w t slot where
  inReach : m.InReach pos gap
  least : ∀ g, m.InReach pos g → m.entriesMoved pos gap ≤ m.entriesMoved pos g
  /-- Entries move down only if that is cheaper than to move any up. -/
  upOnTie : gap < pos → ∀ g, m.InReach pos g → pos ≤ g →
    m.entriesMoved pos gap < m.entriesMoved pos g
  bounded : ∀ s, m.shiftBound = some s → m.entriesMoved pos gap ≤ s
  /-- Only the slots between the place and the hole move, each by one. -/
  moved : ∀ j, j ≠ gap → opened.slots[shifted pos gap j]? = m.slots[j]?
  filled : ∀ j, shifted pos gap j ≠ j → m.holeAt j = false
  shifts : opened.shifts = m.shifts + if m.entriesMoved pos gap = 0 then 0 else 1
  offsets : ∀ (k : Nat) (a : Int), m.lead[k]? = some a →
    ∃ b, opened.lead[k]? = some b ∧ MovesAlong pos gap a b
  residents : opened.residents (some slot) = m.residents none
  tailFree : opened.TailFree
  capacity : opened.capacity = m.capacity
  compressed : opened.compressed = m.compressed
  growths : opened.growths = m.growths

/-- The offsets of cut buffers are compared as natural numbers. -/
theorem Cut.exists_movesAlong (h : m.Cut) (h' : opened.Cut) (hdim : opened.leadingDim = m.leadingDim)
    (hall : ∀ k, k ≤ m.leadingDim → MovesAlong pos gap (m.start k) (opened.start k)) {k : Nat} {a : Int}
    (ha : m.lead[k]? = some a) : ∃ b, opened.lead[k]? = some b ∧ MovesAlong pos gap a b := by
  have hk : k ≤ m.leadingDim := by
    have := (Array.getElem?_eq_some_iff.mp ha).1
    have := h.size_lead
    omega
  rw [h.lead_eq k hk] at ha
  cases ha
  exact ⟨_, h'.lead_eq k (by omega), hall k hk⟩

/-- Moving entries up into the first hole ahead makes room at `pos` itself. -/
theorem Sound.madeRoom_shiftUp (h : m.Sound) (hfree : m.TailFree) (hw : w < m.leadingDim)
    (hb : m.Belongs w t pos) (hreach : m.InReach pos (pos + d))
    (hfull : ∀ j, pos ≤ j → j < pos + d → m.holeAt j = false)
    (hbehind : ∀ g, m.InReach pos g → g < pos → d ≤ m.entriesMoved pos g) :
    m.MadeRoom (m.shiftUp pos d w) w t pos (pos + d) pos := by
  have hgap : pos + d < m.slots.size := lt_size_of_holeAt hreach.1
  have hopened := h.opened_shiftUp hw hb hreach.1
  have hmoved : m.entriesMoved pos (pos + d) = d := entriesMoved_ahead (Nat.le_of_lt hgap) hfull
  have hstart : ∀ k, k ≤ m.leadingDim → _ := fun k hk => h.cut.start_shiftUp pos d w hk
  have hend := h.cut.start_mono (show w + 1 ≤ m.leadingDim by omega) (Nat.le_refl _)
  have hposle := hb.le_end
  refine ⟨hopened, hreach, ?_, fun hlt => by omega, ?_, ?_, ?_, ?_, fun _ _ => ?_,
    hopened.residents_eq h, ?_, ?_, rfl, rfl⟩
  · intro g hg
    rw [hmoved]
    rcases Nat.lt_or_ge g pos with hlt | hge
    · exact hbehind g hg hlt
    · exact le_entriesMoved_ahead hfull hg hge
  · intro s hs
    have := hreach.2 s hs
    omega
  · intro j hj
    rw [getElem?_slots_shiftUp hgap, shifted]
    congr 1
    split_ifs <;> omega
  · intro j hj
    rw [shifted_ne_iff] at hj
    exact hfull j (by omega) (by omega)
  · rw [hmoved]
    rfl
  · refine h.cut.exists_movesAlong hopened.cut rfl fun k hk => ?_
    rw [hstart k hk, MovesAlong]
    split_ifs with hmove
    · have := h.cut.start_mono (show w + 1 ≤ k by omega) hk
      omega
    · exact Or.inl rfl
  · -- the hole is the first slot of the tail, or the tail stays where it is
    intro i hi hlt
    rw [show (m.shiftUp pos d w).leadingDim = m.leadingDim from rfl, hstart _ (Nat.le_refl _)] at hi
    rw [Matrix.capacity, shiftUp, Array.size_mapIdx] at hlt
    have hfirst : m.start m.leadingDim ≤ pos + d → m.start m.leadingDim = pos + d := by
      intro hle
      by_contra hne
      have := hfree (m.start m.leadingDim) (Nat.le_refl _) (by rw [Matrix.capacity]; omega)
      rw [hfull _ (by omega) (by omega)] at this
      cases this
    rw [holeAt, getElem?_slots_shiftUp hgap, if_neg (by split_ifs at hi <;> omega)]
    exact hfree i (by split_ifs at hi <;> omega) hlt
  · rw [Matrix.capacity, shiftUp, Array.size_mapIdx]
    rfl

/-- Moving entries down into the last hole behind makes room in the slot before `pos`. -/
theorem Sound.madeRoom_shiftDown (h : m.Sound) (hfree : m.TailFree) (hw : w < m.leadingDim)
    (hb : m.Belongs w t pos) (hpos : d < pos) (hreach : m.InReach pos (pos - 1 - d))
    (hfull : ∀ j, pos - 1 - d < j → j < pos → m.holeAt j = false)
    (hahead : ∀ g, m.InReach pos g → pos ≤ g → d < m.entriesMoved pos g) :
    m.MadeRoom (m.shiftDown pos d w) w t pos (pos - 1 - d) (pos - 1) := by
  have hposle := hb.le_end
  have hend := h.cut.start_mono (show w + 1 ≤ m.leadingDim by omega) (Nat.le_refl _)
  have hsize : pos ≤ m.slots.size :=
    Nat.le_trans hposle (h.cut.start_le_capacity (show w + 1 ≤ m.leadingDim by omega))
  have hopened := h.opened_shiftDown hw hb hpos hreach.1
  have hmoved : m.entriesMoved pos (pos - 1 - d) = d := entriesMoved_behind hsize hpos hfull
  have hstart : ∀ k, k ≤ m.leadingDim → _ := fun k hk => h.cut.start_shiftDown d w hpos hk
  refine ⟨hopened, hreach, ?_, ?_, ?_, ?_, ?_, ?_, fun _ _ => ?_,
    hopened.residents_eq h, ?_, ?_, rfl, rfl⟩
  · intro g hg
    rw [hmoved]
    rcases Nat.lt_or_ge g pos with hlt | hge
    · exact le_entriesMoved_behind hsize hpos hfull hg hlt
    · exact Nat.le_of_lt (hahead g hg hge)
  · intro _ g hg hge
    rw [hmoved]
    exact hahead g hg hge
  · intro s hs
    have := hreach.2 s hs
    omega
  · intro j hj
    rw [getElem?_slots_shiftDown hsize, shifted]
    congr 1
    split_ifs <;> omega
  · intro j hj
    rw [shifted_ne_iff] at hj
    exact hfull j (by omega) (by omega)
  · rw [hmoved]
    rfl
  · refine h.cut.exists_movesAlong hopened.cut rfl fun k hk => ?_
    rw [hstart k hk, MovesAlong]
    split_ifs with hmove
    · have := h.cut.start_mono hmove.1 (show w ≤ m.leadingDim by omega)
      have := hb.start_le
      omega
    · exact Or.inl rfl
  · intro i hi hlt
    rw [show (m.shiftDown pos d w).leadingDim = m.leadingDim from rfl, hstart _ (Nat.le_refl _),
      if_neg (by omega)] at hi
    rw [Matrix.capacity, shiftDown, Array.size_mapIdx] at hlt
    rw [holeAt, getElem?_slots_shiftDown hsize, if_neg (by omega)]
    exact hfree i hi hlt
  · rw [Matrix.capacity, shiftDown, Array.size_mapIdx]
    rfl

/-- Where an index finds no slot and no hole at its place, room is made unless every hole is out of
reach, and then by moving as little as possible. -/
theorem makeRoom?_moves_least (h : m.verify = 0) (hfree : m.TailFree) (hw : w < m.leadingDim)
    (hplace : m.locate w t = .crowded pos) :
    (m.makeRoom? pos w = none ↔ ∀ g, ¬m.InReach pos g) ∧
      ∀ opened slot, m.makeRoom? pos w = some (opened, slot) →
        ∃ gap, m.MadeRoom opened w t pos gap slot := by
  have hsound := verify_eq_zero_iff.mp h
  have hb : m.Belongs w t pos := by
    have := hsound.locate_spec hw t
    rwa [hplace] at this
  have hsize : pos ≤ m.capacity :=
    Nat.le_trans hb.le_end (hsound.cut.start_le_capacity (show w + 1 ≤ m.leadingDim by omega))
  refine ⟨makeRoom?_eq_none_iff hsize, ?_⟩
  intro opened slot hroom
  rcases makeRoom?_eq_some hsize hroom with
    ⟨d, rfl, hslot, hreach, hfull, hbehind⟩ | ⟨d, hpos, rfl, hslot, hreach, hfull, hahead⟩
  · rw [hslot]
    exact ⟨pos + d, hsound.madeRoom_shiftUp hfree hw hb hreach hfull hbehind⟩
  · rw [hslot]
    exact ⟨pos - 1 - d, hsound.madeRoom_shiftDown hfree hw hb hpos hreach hfull hahead⟩

/-- Three rows, the middle one full, with a hole on either side of it and one behind all rows. -/
def hemmed : Matrix ℚ where
  rows := 3
  cols := 4
  orientation := .byRows
  lead := #[0, 1, 3, 5]
  slots := #[⟨hole, 0, false⟩, ⟨1, 4, true⟩, ⟨3, 5, true⟩, ⟨0, 6, true⟩, ⟨hole, 0, false⟩,
    ⟨hole, 0, false⟩]
  shiftBound := some 1
  locked := false
  lockBroken := false
  compressed := false
  shifts := 0
  growths := #[]

/-- The second column of the middle row has its place at the third slot. The hole behind is one entry
away and the first one ahead two, so the entry of column one goes down. -/
theorem makeRoom?_moves_least_hemmed :
    hemmed.verify = 0 ∧ hemmed.TailFree ∧ hemmed.locate 1 2 = .crowded 2 ∧
      (hemmed.makeRoom? 2 1).map Prod.snd = some 1 ∧
      ∃ opened gap, hemmed.makeRoom? 2 1 = some (opened, 1) ∧ hemmed.MadeRoom opened 1 2 2 gap 1 := by
  have hverify : hemmed.verify = 0 := by decide +kernel
  have hplace : hemmed.locate 1 2 = .crowded 2 := by decide +kernel
  have hslot : (hemmed.makeRoom? 2 1).map Prod.snd = some 1 := by decide +kernel
  have hfree : hemmed.TailFree := by
    intro i hlo hhi
    have hstart : hemmed.start hemmed.leadingDim = 5 := by decide +kernel
    have hcapacity : hemmed.capacity = 6 := by decide +kernel
    obtain rfl : i = 5 := by omega
    decide +kernel
  refine ⟨hverify, hfree, hplace, hslot, ?_⟩
  obtain ⟨⟨opened, slot⟩, hroom, rfl⟩ := Option.map_eq_some_iff.mp hslot
  obtain ⟨gap, hmade⟩ :=
    (makeRoom?_moves_least hverify hfree (by decide +kernel) hplace).2 opened _ hroom
  exact ⟨opened, gap, hroom, hmade⟩

end CentralPath.Sparse.Matrix
