/-
  Matrices out of arrays. Arrays that fit together are the buffers of a matrix with unsorted
  windows (`Arrays.buffers`), and what an import writes are the entries of that matrix; so it
  leaves a matrix with the offsets of the arrays and their windows in order (`ofArrays_holds`). The
  arrays of a compressed matrix are in order already, and come back slot by slot. Of the text of
  the numbers it is asked only that every number that is written is a word that reads back as some
  number; of sums only that zero adds nothing.
-/
import CentralPath.Proofs.Sparse.Columns
import CentralPath.Proofs.Sparse.Restoring

namespace CentralPath.Sparse

variable {α : Type}

/-- A live slot with an index and a value. -/
def Slot.ofPair (p : Int × α) : Slot α := ⟨p.1, p.2, true⟩

/-- A live slot at the index of another one, with its value as `q` has it. -/
def Slot.mapValue (q : α → α) (s : Slot α) : Slot α := ⟨s.index, q s.value, true⟩

/-! ## Windows by their offsets -/

namespace Matrix

variable {m : Matrix α} {w : Nat}

theorem Cut.length_usedSlots (h : m.Cut) : m.usedSlots.length = m.start m.leadingDim := by
  rw [usedSlots, h.usedCount_eq, List.length_take, Array.length_toList]
  exact Nat.min_eq_left h.end_le

/-- A window is what lies between its offsets. -/
theorem Cut.pieceAt_usedSlots (h : m.Cut) (hw : w < m.leadingDim) :
    pieceAt m.lead.toList m.usedSlots w = m.window w := by
  have hoffset : ∀ i, i ≤ m.leadingDim → m.lead.toList.getD i 0 = (m.start i : Int) := by
    intro i hi
    rw [List.getD_eq_getElem?_getD, Array.getElem?_toList, h.lead_eq i hi, Option.getD_some]
  have hlength := h.length_usedSlots
  have hstep := h.start_le_succ w hw
  have hend := h.start_le_end (show w + 1 ≤ m.leadingDim from hw)
  rw [pieceAt, hoffset w (Nat.le_of_lt hw), hoffset (w + 1) hw,
    slice_of_le (by omega) (by omega), usedSlots, h.usedCount_eq,
    List.take_take, Nat.min_eq_left hend, window, Array.toList_extract,
    List.extract_eq_take_drop, List.drop_take]

end Matrix

namespace Arrays

/-- The indices and values of a window. -/
def window (a : Arrays α) (w : Nat) : List (Int × α) := pieceAt a.lead (a.trail.zip a.values) w

/-- The arrays with every value as `q` has it. -/
def mapValues (q : α → α) (a : Arrays α) : Arrays α := { a with values := a.values.map q }

/-- Arrays that belong together: offsets that do not decrease and, in every window, distinct indices
below a bound, which is a dimension. The indices of a window may be in any order. -/
structure Fit (a : Arrays α) (bound : Int) : Prop where
  bound_nonneg : 0 ≤ bound
  consistent : a.consistent = true
  nondecreasing : a.lead.Pairwise (· ≤ ·)
  inRange : ∀ t ∈ a.trail, 0 ≤ t ∧ t < bound
  distinct : ∀ w, w < a.lead.length - 1 → ((a.window w).map Prod.fst).Nodup

/-- The matrix that has the arrays for its buffers. -/
def buffers (a : Arrays α) (orientation : Orientation) (bound : Nat) : Matrix α :=
  { rows := match orientation with
      | .byRows => a.lead.length - 1
      | .byColumns => bound
    cols := match orientation with
      | .byRows => bound
      | .byColumns => a.lead.length - 1
    orientation
    lead := a.lead.toArray
    slots := ((a.trail.zip a.values).map Slot.ofPair).toArray
    shiftBound := none, locked := false, lockBroken := false, compressed := false
    shifts := 0, growths := #[] }

section

variable {a : Arrays α} {bound : Int} {w : Nat} (orientation : Orientation) (n : Nat)

@[simp] theorem leadingDim_buffers : (a.buffers orientation n).leadingDim = a.lead.length - 1 := by
  cases orientation <;> rfl

@[simp] theorem trailingDim_buffers : (a.buffers orientation n).trailingDim = n := by
  cases orientation <;> rfl

theorem lead_buffers : (a.buffers orientation n).lead = a.lead.toArray := rfl

theorem slots_buffers : (a.buffers orientation n).slots =
    ((a.trail.zip a.values).map Slot.ofPair).toArray := rfl

theorem consistent_iff : a.consistent = true ↔ a.lead.head? = some 0 ∧
    a.lead.getLast? = some (a.trail.length : Int) ∧ a.trail.length = a.values.length := by
  rw [consistent, Bool.and_eq_true, Bool.and_eq_true, beq_iff_eq, beq_iff_eq, beq_iff_eq,
    and_assoc]

theorem length_lead_pos (h : a.consistent = true) : 0 < a.lead.length := by
  have hhead := (consistent_iff.mp h).1
  cases hlead : a.lead with
  | nil => rw [hlead] at hhead; cases hhead
  | cons k ks => exact Nat.succ_pos _

theorem cut_buffers (h : a.consistent = true) (hmono : a.lead.Pairwise (· ≤ ·)) :
    (a.buffers orientation n).Cut ∧
      (a.buffers orientation n).usedSlots = (a.trail.zip a.values).map Slot.ofPair := by
  have hpos := length_lead_pos h
  obtain ⟨hhead, hlast, hlength⟩ := consistent_iff.mp h
  have hused : (a.buffers orientation n).usedLength = a.trail.length := by
    rw [Matrix.usedLength, lead_buffers, List.back?_toArray, hlast, Option.getD_some]
  have hcapacity : (a.buffers orientation n).capacity = a.trail.length := by
    rw [Matrix.capacity, slots_buffers, List.size_toArray, List.length_map, List.length_zip,
      ← hlength, Nat.min_self]
  have hcut : (a.buffers orientation n).Cut := by
    refine Matrix.isCut_iff.mp (Matrix.isCut_iff_offsets.mpr ⟨?_, ?_, hmono, ?_⟩)
    · rw [leadingDim_buffers, lead_buffers, List.size_toArray]
      omega
    · rw [lead_buffers, List.getElem?_toArray, ← List.head?_eq_getElem?, hhead]
    · rw [hused, hcapacity]
  refine ⟨hcut, ?_⟩
  rw [Matrix.usedSlots, Matrix.usedCount, hused, hcapacity, endPoint_of_le le_rfl, ← hcapacity]
  exact List.take_length

theorem window_buffers (h : a.consistent = true) (hmono : a.lead.Pairwise (· ≤ ·))
    (hw : w < a.lead.length - 1) :
    (a.buffers orientation n).window w = (a.window w).map Slot.ofPair := by
  obtain ⟨hcut, hused⟩ := cut_buffers orientation n h hmono
  rw [← hcut.pieceAt_usedSlots (by rwa [leadingDim_buffers]), hused, pieceAt_map]
  rfl

/-- Arrays that fit are buffers with unsorted windows. -/
theorem Fit.unsorted (h : a.Fit bound) : (a.buffers orientation bound.toNat).Unsorted := by
  obtain ⟨hcut, hused⟩ := cut_buffers orientation bound.toNat h.consistent h.nondecreasing
  have hwindow : ∀ w, w < (a.buffers orientation bound.toNat).leadingDim →
      (a.buffers orientation bound.toNat).window w = (a.window w).map Slot.ofPair := fun w hw =>
    window_buffers _ _ h.consistent h.nondecreasing (leadingDim_buffers orientation _ ▸ hw)
  refine ⟨hcut, fun w hw s hs => ?_, fun w hw s hs => ?_, fun w hw => ?_⟩
  · rw [hwindow w hw] at hs
    obtain ⟨p, -, rfl⟩ := List.mem_map.mp hs
    rfl
  · have hmem := hcut.mem_usedSlots.mpr ⟨w, hw, hs⟩
    rw [hused] at hmem
    obtain ⟨p, hp, rfl⟩ := List.mem_map.mp hmem
    rw [trailingDim_buffers, Int.toNat_of_nonneg h.bound_nonneg]
    exact h.inRange p.1 (List.of_mem_zip hp).1
  · have hlead := length_lead_pos h.consistent
    rw [leadingDim_buffers] at hw
    rw [hwindow w (by rwa [leadingDim_buffers]), List.map_map]
    exact h.distinct w (by omega)

/-! ## Writes -/

theorem zip_flatMap {β γ δ : Type} {l : List β} {f : β → List γ} {g : β → List δ}
    (h : ∀ x ∈ l, (f x).length = (g x).length) :
    (l.flatMap f).zip (l.flatMap g) = l.flatMap fun x => (f x).zip (g x) := by
  induction l with
  | nil => rfl
  | cons x xs ih =>
    rw [List.flatMap_cons, List.flatMap_cons, List.flatMap_cons,
      List.zip_append (h x (List.mem_cons_self ..)),
      ih fun y hy => h y (List.mem_cons_of_mem _ hy)]

/-- The indices and values are those of the windows, one window behind another. -/
theorem zip_eq (h : a.consistent = true) (hmono : a.lead.Pairwise (· ≤ ·)) :
    a.trail.zip a.values = (List.range (a.lead.length - 1)).flatMap a.window := by
  obtain ⟨hcut, hused⟩ := cut_buffers .byRows 0 h hmono
  have hinj : Function.Injective (Slot.ofPair : Int × α → Slot α) := by
    intro p p' heq
    exact Prod.ext (congrArg Slot.index heq) (congrArg Slot.value heq)
  refine List.map_injective_iff.mpr hinj ?_
  rw [← hused, hcut.usedSlots_eq, leadingDim_buffers, List.map_flatMap]
  exact List.flatMap_congr fun w hw => window_buffers _ _ h hmono (List.mem_range.mp hw)

/-- Neighbouring offsets with the number of their window. -/
theorem neighbours_eq (h : a.consistent = true) (hmono : a.lead.Pairwise (· ≤ ·)) :
    (a.lead.zip a.lead.tail).zipIdx = (List.range (a.lead.length - 1)).map fun w =>
      ((((a.buffers .byRows 0).start w : Int), ((a.buffers .byRows 0).start (w + 1) : Int)),
        w) := by
  have hcut := (cut_buffers .byRows 0 h hmono).1
  have hoffset : ∀ i (hi : i < a.lead.length),
      a.lead[i] = ((a.buffers .byRows 0).start i : Int) := by
    intro i hi
    have := hcut.lead_eq i (by rw [leadingDim_buffers]; omega)
    rw [lead_buffers, List.getElem?_toArray, List.getElem?_eq_getElem hi] at this
    exact Option.some.inj this
  apply List.ext_getElem
  · rw [List.length_zipIdx, List.length_zip, List.length_tail, List.length_map, List.length_range]
    omega
  · intro i hi hi'
    rw [List.length_map, List.length_range] at hi'
    rw [List.getElem_zipIdx, List.getElem_zip, List.getElem_tail, List.getElem_map,
      List.getElem_range, hoffset i (by omega), hoffset (i + 1) (by omega), Nat.zero_add]

/-- Each window has its number as often as it has indices. -/
theorem windowNumbers_eq (h : a.consistent = true) (hmono : a.lead.Pairwise (· ≤ ·)) :
    a.windowNumbers = (List.range (a.lead.length - 1)).flatMap fun w =>
      List.replicate (a.window w).length (w : Int) := by
  have hcut := (cut_buffers .byRows 0 h hmono).1
  rw [windowNumbers, neighbours_eq h hmono, List.flatMap_map]
  refine List.flatMap_congr fun w hw => ?_
  have hw := List.mem_range.mp hw
  have hlength := hcut.length_window (w := w) (by rwa [leadingDim_buffers])
  rw [window_buffers _ _ h hmono hw, List.length_map] at hlength
  rw [hlength]
  exact congrArg (List.replicate · (w : Int)) (Int.toNat_sub _ _)

/-- The writes of an import are the entries of the buffers. -/
theorem writes_eq (h : a.consistent = true) (hmono : a.lead.Pairwise (· ≤ ·)) :
    a.writes orientation = Matrix.storing (a.buffers orientation n).entries := by
  have hentries : ∀ w, w < a.lead.length - 1 → (a.buffers orientation n).windowEntries w =
      (a.window w).map fun p => (a.buffers orientation n).entryOf w (.ofPair p) := by
    intro w hw
    have hlive : (a.window w).filter ((·.live) ∘ Slot.ofPair) = a.window w :=
      List.filter_eq_self.mpr fun p _ => rfl
    rw [Matrix.windowEntries, window_buffers _ _ h hmono hw, List.filter_map, List.map_map, hlive]
    rfl
  have hnumber : ∀ w : Nat, (List.replicate (a.window w).length (w : Int)).zip (a.window w) =
      (a.window w).map fun p => ((w : Int), p) := by
    intro w
    have hzip := List.zip_map' (f := fun _ : Int × α => (w : Int)) (g := id) (l := a.window w)
    rwa [List.map_const', List.map_id] at hzip
  rw [writes, windowNumbers_eq h hmono, zip_eq h hmono,
    zip_flatMap fun w _ => List.length_replicate, List.map_flatMap, Matrix.storing,
    Matrix.entries, leadingDim_buffers, List.map_flatMap]
  refine List.flatMap_congr fun w hw => ?_
  rw [hnumber, hentries w (List.mem_range.mp hw), List.map_map, List.map_map]
  refine List.map_congr_left fun p _ => ?_
  cases orientation <;> rfl

end

end Arrays

/-! ## Imports -/

namespace Matrix

section

variable [Scalar α] {a : Arrays α} {trailingDim : Option Int}

/-- An import starts from an empty matrix of the shape that the buffers have. -/
theorem freshMatrix_eq (h : a.Fit (trailingDim.getD a.neededDim)) (directory : String)
    (orientation : Orientation) : a.freshMatrix directory orientation trailingDim =
      .ok (empty (a.buffers orientation (trailingDim.getD a.neededDim).toNat).rows
        (a.buffers orientation (trailingDim.getD a.neededDim).toNat).cols orientation
        a.values.length) := by
  have hpos := Arrays.length_lead_pos h.consistent
  have hdecrease : ((a.lead.zip a.lead.tail).any fun p => decide (p.2 < p.1)) = false :=
    (any_neighbours_eq_false (p := fun x y : Int => decide (y < x)) a.lead).mpr
      (h.nondecreasing.isChain.imp fun x y hxy => decide_eq_false (Int.not_lt.mpr hxy))
  have hleading : ¬(a.lead.length : Int) - 1 < 0 := by omega
  have htrailing : ¬trailingDim.getD a.neededDim < 0 := Int.not_lt.mpr h.bound_nonneg
  have htoNat : ((a.lead.length : Int) - 1).toNat = a.lead.length - 1 := by omega
  have hproceed : ¬(!true) = true := Bool.false_ne_true
  rw [Arrays.freshMatrix, h.consistent]
  cases orientation
  · dsimp only
    rw [if_neg hproceed, create, if_neg (not_or.mpr ⟨hleading, htrailing⟩), htoNat, hdecrease]
    rfl
  · dsimp only
    rw [if_neg hproceed, create, if_neg (not_or.mpr ⟨htrailing, hleading⟩), htoNat, hdecrease]
    rfl

/-- Arrays that fit are taken in: their entries are written again and compressed. -/
theorem ofArrays_eq (h : a.Fit (trailingDim.getD a.neededDim)) (directory : String)
    (orientation : Orientation) (lock : Bool) :
    ofArrays a directory orientation trailingDim lock =
      let buffers := a.buffers orientation (trailingDim.getD a.neededDim).toNat
      .ok ⟨buffers.rewritten a.values.length,
        (buffers.restored a.values.length).setLock lock⟩ := by
  set b := a.buffers orientation (trailingDim.getD a.neededDim).toNat with hb
  have hrun : ((empty b.rows b.cols orientation a.values.length).setLock true).writeAll
      (a.writes orientation) = (none, b.rewritten a.values.length) := by
    rw [Arrays.writes_eq _ _ h.consistent h.nondecreasing]
    exact Prod.ext ((h.unsorted orientation).fault_rewritten a.values.length) rfl
  rw [ofArrays, freshMatrix_eq h, ← hb]
  dsimp only [bind, Except.bind]
  rw [hrun]
  rfl

/-- A compressed matrix stores what the arrays hold, each window in order. -/
structure Holds (m : Matrix α) (a : Arrays α) (orientation : Orientation) (bound : Int) : Prop where
  verify : m.verify = 0
  compressed : m.compressed = true
  orientation : m.orientation = orientation
  leadingDim : m.leadingDim = a.lead.length - 1
  trailingDim : m.trailingDim = bound
  lead : m.lead.toList = a.lead
  perm : ∀ w, w < m.leadingDim → (m.window w).Perm ((a.window w).map Slot.ofPair)
  increasing : ∀ w, w < m.leadingDim → (m.window w).Pairwise fun s s' => s.index < s'.index

omit [Scalar α] in
theorem Arranged.holds {m : Matrix α} {orientation : Orientation} {bound : Int} (h : a.Fit bound)
    (harranged : (a.buffers orientation bound.toNat).Arranged m) : m.Holds a orientation bound := by
  have hdim := harranged.leadingDim
  have hleading : m.leadingDim = a.lead.length - 1 := hdim.trans (Arrays.leadingDim_buffers ..)
  refine ⟨verify_eq_zero_iff.mpr harranged.sound, harranged.compressed, harranged.orientation,
    hleading, ?_, ?_, fun w hw => ?_,
    fun w hw => harranged.sound.increasing_of_compressed harranged.compressed hw⟩
  · rw [harranged.trailingDim, Arrays.trailingDim_buffers, Int.toNat_of_nonneg h.bound_nonneg]
  · rw [harranged.lead, Arrays.lead_buffers]
  · rw [← Arrays.window_buffers _ _ h.consistent h.nondecreasing (hleading ▸ hw)]
    exact harranged.perm w (hdim ▸ hw)

/-- Arrays that fit are imported, the indices of a window in any order. -/
theorem ofArrays_holds (hzero : ∀ x : α, 0 + x = x) (h : a.Fit (trailingDim.getD a.neededDim))
    (directory : String) (orientation : Orientation) (lock : Bool) :
    ∃ r, ofArrays a directory orientation trailingDim lock = .ok r ∧
      r.finished.locked = lock ∧
      r.finished.Holds a orientation (trailingDim.getD a.neededDim) :=
  ⟨_, ofArrays_eq h directory orientation lock, rfl,
    (((h.unsorted orientation).arranged_restored hzero a.values.length).setLock lock).holds h⟩

end

/-! ## The arrays of a matrix -/

variable {m m' : Matrix α} {q : α → α} {w : Nat}

theorem zip_arrays (m : Matrix α) (q : α → α) :
    (m.arrays.mapValues q).trail.zip (m.arrays.mapValues q).values =
      m.usedSlots.map fun s => (s.index, q s.value) := by
  rw [Arrays.mapValues, arrays, List.map_map]
  exact List.zip_map'

theorem window_arrays (h : m.Cut) (q : α → α) (hw : w < m.leadingDim) :
    (m.arrays.mapValues q).window w = (m.window w).map fun s => (s.index, q s.value) := by
  rw [Arrays.window, zip_arrays, pieceAt_map]
  exact congrArg _ (h.pieceAt_usedSlots hw)

theorem consistent_arrays (h : m.Cut) (q : α → α) :
    (m.arrays.mapValues q).consistent = true := by
  have hfirst := h.lead_eq 0 (Nat.zero_le _)
  have hlast := h.lead_eq m.leadingDim le_rfl
  rw [h.start_zero] at hfirst
  refine Arrays.consistent_iff.mpr ⟨?_, ?_, ?_⟩
  · rw [Arrays.mapValues, arrays, List.head?_eq_getElem?, Array.getElem?_toList, hfirst]
    rfl
  · rw [Arrays.mapValues, arrays, List.getLast?_eq_getElem?, Array.length_toList, h.size_lead,
      Nat.add_sub_cancel, Array.getElem?_toList, hlast, List.length_map, h.length_usedSlots]
  · rw [Arrays.mapValues, arrays, List.length_map, List.length_map, List.length_map]

/-- The arrays of a compressed matrix fit together, whatever the values are. -/
theorem Sound.fit_arrays (h : m.Sound) (hc : m.compressed = true) (q : α → α) :
    (m.arrays.mapValues q).Fit m.trailingDim := by
  have hdim : (m.arrays.mapValues q).lead.length = m.leadingDim + 1 := by
    rw [Arrays.mapValues, arrays, Array.length_toList, h.cut.size_lead]
  refine ⟨Int.natCast_nonneg _, consistent_arrays h.cut q,
    (isCut_iff_offsets.mp (isCut_iff.mpr h.cut)).2.2.1, fun t ht => ?_, fun w hw => ?_⟩
  · obtain ⟨s, hs, rfl⟩ := List.mem_map.mp ht
    obtain ⟨w, hw, hs⟩ := h.cut.mem_usedSlots.mp hs
    exact h.index_range hw hs (h.written hc w hw s hs)
  · have hw : w < m.leadingDim := by omega
    rw [window_arrays h.cut q hw, List.map_map]
    exact List.pairwise_map.mpr ((h.increasing_of_compressed hc hw).imp Int.ne_of_lt)

/-- A compressed matrix has the shape, the offsets and the indices of another one, and its values as
`q` leaves them. -/
structure Copies (m : Matrix α) (q : α → α) (m' : Matrix α) : Prop where
  verify : m'.verify = 0
  compressed : m'.compressed = true
  rows : m'.rows = m.rows
  cols : m'.cols = m.cols
  orientation : m'.orientation = m.orientation
  lead : m'.lead = m.lead
  usedSlots : m'.usedSlots = m.usedSlots.map (.mapValue q)

/-- A matrix that holds the arrays of a compressed one has them slot by slot. -/
theorem Holds.copies (h : m.Sound) (hc : m.compressed = true)
    (hm' : m'.Holds (m.arrays.mapValues q) m.orientation m.trailingDim) : m.Copies q m' := by
  have hsound' := verify_eq_zero_iff.mp hm'.verify
  have hleading : m'.leadingDim = m.leadingDim := by
    rw [hm'.leadingDim, Arrays.mapValues, arrays, Array.length_toList, h.cut.size_lead,
      Nat.add_sub_cancel]
  have htrailing : m'.trailingDim = m.trailingDim := Int.ofNat_inj.mp hm'.trailingDim
  have hshape : m'.rows = m.rows ∧ m'.cols = m.cols := by
    rw [Matrix.leadingDim, Matrix.leadingDim, hm'.orientation] at hleading
    rw [Matrix.trailingDim, Matrix.trailingDim, hm'.orientation] at htrailing
    cases horient : m.orientation
    · rw [horient] at hleading htrailing
      exact ⟨hleading, htrailing⟩
    · rw [horient] at hleading htrailing
      exact ⟨htrailing, hleading⟩
  have hwindow : ∀ w, w < m.leadingDim → m'.window w = (m.window w).map (.mapValue q) := by
    intro w hw
    have hw' : w < m'.leadingDim := hleading.symm ▸ hw
    have hperm := hm'.perm w hw'
    rw [window_arrays h.cut q hw, List.map_map] at hperm
    refine hperm.eq_of_pairwise (fun a b _ _ hab hba => absurd hba (Int.lt_asymm hab))
      (hm'.increasing w hw') ?_
    exact List.pairwise_map.mpr (h.increasing_of_compressed hc hw)
  refine ⟨hm'.verify, hm'.compressed, hshape.1, hshape.2, hm'.orientation,
    Array.toList_inj.mp hm'.lead, ?_⟩
  rw [hsound'.cut.usedSlots_eq, h.cut.usedSlots_eq, hleading, List.map_flatMap]
  exact List.flatMap_congr fun w hw => hwindow w (List.mem_range.mp hw)

/-! ## There and back -/

/-- A matrix that obeys the storage rules still represents the same after its arrays have been
exported. Where every exported number is a word that reads back, an offset or index as itself and a
value as `q` has it, the files are imported as a compressed matrix that copies the exported one,
with or without the lock. Whatever arrays fit are imported, the indices of a window in any order:
what comes to be stored is exactly what the arrays hold. -/
theorem arrays_round_trip [Scalar α] (hzero : ∀ x : α, 0 + x = x) :
    (∀ (m : Matrix α) (print : α → String) (read? : List Char → Option α) (q : α → α),
      m.verify = 0 →
        m.compress? = .ok m.compress ∧ m.compress.1.rows = m.rows ∧ m.compress.1.cols = m.cols ∧
        m.compress.1.orientation = m.orientation ∧
        (∀ row col, m.compress.1.get row col = m.get row col) ∧
        ∀ (file? : String → Option String) (directory : String) (lock : Bool),
          m.compress.1.arrays.Exported print file? →
          (∀ v ∈ m.compress.1.arrays.values, ReadsBack read? (print v) (q v)) →
          (∀ n ∈ m.compress.1.arrays.lead ++ m.compress.1.arrays.trail,
            ReadsBack readIndex? (toString n) n) →
          ∃ listings r, readColumns read? directory file? = .ok listings ∧
            ofListings listings directory m.orientation (some m.trailingDim) lock = .ok r ∧
            r.finished.locked = lock ∧ m.compress.1.Copies q r.finished) ∧
    ∀ (a : Arrays α) (directory : String) (orientation : Orientation) (trailingDim : Option Int)
      (lock : Bool), a.Fit (trailingDim.getD a.neededDim) →
        ∃ r, ofListings ⟨.list a.values, .list a.lead, .list a.trail⟩ directory orientation
            trailingDim lock = .ok r ∧
          r.finished.locked = lock ∧
          r.finished.Holds a orientation (trailingDim.getD a.neededDim) := by
  refine ⟨fun m print read? q hverify => ?_, fun a directory orientation trailingDim lock h =>
    ofArrays_holds hzero h directory orientation lock⟩
  have hsound := verify_eq_zero_iff.mp hverify
  have hcompressed := hsound.compress
  refine ⟨if_pos hsound.isCut, rfl, rfl, rfl, fun row col => ?_,
    fun file? directory lock hfiles hvalues hindices => ?_⟩
  · exact (hsound.get_eq_get_iff hcompressed rfl rfl).mpr
      (hsound.valueAt_compress_of_zero_add hzero row col)
  · have hfit : (m.compress.1.arrays.mapValues q).Fit
        ((some (m.trailingDim : Int)).getD (m.compress.1.arrays.mapValues q).neededDim) :=
      hcompressed.fit_arrays rfl q
    obtain ⟨r, hr, hlock, hholds⟩ := ofArrays_holds hzero hfit directory m.orientation lock
    exact ⟨_, r, hfiles.readColumns_eq hvalues hindices directory, hr, hlock,
      hholds.copies hcompressed rfl⟩

/-- Three columns under a lock, with a reserved slot, a stored zero, a hole and an empty window. -/
def drafted : Matrix ℚ :=
  { rows := 3, cols := 3, orientation := .byColumns
    lead := #[0, 3, 3, 4]
    slots := #[⟨0, 5 / 2, true⟩, ⟨2, 0, false⟩, .free, ⟨1, 0, true⟩]
    shiftBound := none, locked := true, lockBroken := false, compressed := false
    shifts := 0, growths := #[] }

/-- Only the whole part of a number is written. -/
def printWhole (v : ℚ) : String := toString v.floor

def readWhole? (cs : List Char) : Option ℚ := (readIndex? cs).map Int.cast

/-- The files of the columns, with whole parts for values. -/
def draftedFiles (name : String) : Option String :=
  let texts := drafted.compress.1.arrays.columns printWhole
  if name = valuesFile then some texts.1
  else if name = leadFile then some texts.2.1
  else if name = trailFile then some texts.2.2
  else none

/-- The reserved slot and the stored zero come back without the lock as well. -/
theorem arrays_round_trip_drafted :
    drafted.verify = 0 ∧
      (∃ listings r, readColumns readWhole? "run" draftedFiles = .ok listings ∧
        ofListings listings "run" .byColumns (some 3) false = .ok r ∧ r.finished.locked = false ∧
        r.finished.lead = #[0, 2, 2, 3] ∧
        r.finished.usedSlots = [⟨0, 2, true⟩, ⟨2, 0, true⟩, ⟨1, 0, true⟩]) ∧
      ∃ r, ofListings (⟨.list [7, 0, 3], .list [0, 2, 2, 3], .list [4, 1, 0]⟩ : Listings ℚ) "run"
          .byRows none true = .ok r ∧
        r.finished.Holds ⟨[7, 0, 3], [0, 2, 2, 3], [4, 1, 0]⟩ .byRows 5 := by
  have hverify : drafted.verify = 0 := by decide +kernel
  have hwhole : ∀ v ∈ drafted.compress.1.arrays.values, 0 ≤ v.floor ∧ v.floor < Nat.pow 2 63 := by
    decide +kernel
  have hwords : ∀ n ∈ drafted.compress.1.arrays.lead ++ drafted.compress.1.arrays.trail,
      0 ≤ n ∧ n < Nat.pow 2 63 := by
    decide +kernel
  have hlead : drafted.compress.1.lead = #[0, 2, 2, 3] := by decide +kernel
  have hslots : drafted.compress.1.usedSlots.map (Slot.mapValue fun v => (v.floor : ℚ)) =
      [⟨0, 2, true⟩, ⟨2, 0, true⟩, ⟨1, 0, true⟩] := by
    decide +kernel
  have hfiles : drafted.compress.1.arrays.Exported printWhole draftedFiles :=
    ⟨by rw [draftedFiles, if_pos rfl],
      by rw [draftedFiles, if_neg (by decide), if_pos rfl],
      by rw [draftedFiles, if_neg (by decide), if_neg (by decide), if_pos rfl]⟩
  have hfit : (⟨[7, 0, 3], [0, 2, 2, 3], [4, 1, 0]⟩ : Arrays ℚ).Fit 5 :=
    ⟨by decide, by decide, by decide, by decide, by decide⟩
  obtain ⟨hback, hany⟩ := arrays_round_trip (α := ℚ) zero_add
  obtain ⟨-, -, -, -, -, himport⟩ := hback drafted printWhole readWhole?
    (fun v => (v.floor : ℚ)) hverify
  obtain ⟨listings, r, hread, hr, hlock, hcopies⟩ := himport draftedFiles "run" false hfiles
    (fun v hv => (readsBack_toString (hwhole v hv).1 (hwhole v hv).2).map _)
    (fun n hn => readsBack_toString (hwords n hn).1 (hwords n hn).2)
  obtain ⟨r', hr', -, hholds⟩ := hany _ "run" .byRows none true hfit
  exact ⟨hverify, ⟨listings, r, hread, hr, hlock, hcopies.lead.trans hlead,
    hcopies.usedSlots.trans hslots⟩, r', hr', hholds⟩

end Matrix

end CentralPath.Sparse
