/-
  The whole Newton matrix, from its assembly through every update. `Prepared f D kkt` adds to the
  constant blocks what is between them: zeros, and the places that wait for an iterate, which own a
  slot. An assembly into a cleared matrix establishes it (`Blocks.prepared`), since the placeholders
  are not zero and so survive compression without the lock. An update then hits slots that exist:
  it moves nothing, and what it leaves is the documented block matrix of its iterate
  (`Prepared.assemble`, `AtIterate.represents`). `assembled_represents` is the whole history of a
  Newton matrix: one assembly, one compression, any number of updates.
-/
import CentralPath.Proofs.Newton.Blocks
import CentralPath.Proofs.Newton.Step
import CentralPath.Proofs.Sparse.Ownership
import CentralPath.Proofs.Sparse.Table

open CentralPath.Vector (coord)

namespace CentralPath.Sparse.Matrix

/-- Writes that are not refused are followed by the next ones. -/
theorem writeAll_append {α : Type} [Scalar α] {m : Matrix α} {writes : List (Write α)}
    (h : (m.writeAll writes).1 = none) (more : List (Write α)) :
    m.writeAll (writes ++ more) = (m.writeAll writes).2.writeAll more := by
  induction writes generalizing m with
  | nil => rfl
  | cons w ws ih =>
    rw [writeAll] at h
    rw [List.cons_append, writeAll, writeAll]
    rcases hset : m.set w.row w.col w.value w.overwrite with ⟨_ | e, next⟩ <;> rw [hset] at h
    · exact ih h
    · cases h

/-- What does not read as zero is stored. -/
theorem owns_of_valueAt_ne_zero {α : Type} [Zero α] {m : Matrix α} {row col : Int}
    (h : m.valueAt row col ≠ 0) : m.Owns row col := by
  by_contra hnot
  exact h (valueAt_of_slotOf?_eq_none (not_owns_iff.mp hnot))

end CentralPath.Sparse.Matrix

namespace CentralPath.Newton

open Problem (Data)
open Sparse (Assembly Matrix Table Write WritesGive)

variable {K : Type} [Field K]

/-! ## The documented matrix -/

/-- The number in row `i` and column `j` of the Newton matrix at the iterate `(y, λ)`. -/
def blockEntry (f : Formulation) (D : Data K) (y lam : Array K) (i j : Nat) : K :=
  match f with
  | .standard =>
    if i < D.n then
      if j < D.n then D.G i j else if j < D.n + D.m then 0 else -D.A (j - D.n - D.m) i
    else if i < D.n + D.m then
      if j < D.n then D.A (i - D.n) j
      else if j < D.n + D.m then if i = j then -1 else 0
      else D.E (i - D.n) (j - D.n - D.m)
    else
      if j < D.n then 0
      else if j < D.n + D.m then if i = j + D.m then coord lam (j - D.n) else 0
      else if i = j then coord y (i - D.n - D.m) else 0
  | .augmented =>
    if i < D.n then if j < D.n then D.G i j else -D.A (j - D.n) i
    else
      if j < D.n then D.A (i - D.n) j
      else
        (if i = j then coord y (i - D.n) / coord lam (i - D.n) else 0) + D.E (i - D.n) (j - D.n)

/-- The Newton matrix at an iterate as a table of numbers. -/
def blockTable (f : Formulation) (D : Data K) (y lam : Array K) : Table K :=
  ⟨dimension f D, dimension f D, fun row col => blockEntry f D y lam row.toNat col.toNat⟩

/-- The vector is the diagonal of the compliance block of the data. -/
structure IsDiagonal (D : Data K) (diagE : Array K) : Prop where
  size : diagE.size = D.m
  coord_eq : ∀ k : Nat, k < D.m → coord diagE k = D.E k k

/-! ## Between the constant blocks -/

/-- A matrix that carries the constant blocks, zeros where the formulation has them, and a slot in
every place that an update writes. -/
structure Prepared (f : Formulation) (D : Data K) (kkt : Matrix K) : Prop
    extends Holds f D kkt where
  idle : f = .standard → ∀ k j : Nat, k < D.m → j < D.n → kkt.valueAt (D.n + D.m + k) j = 0
  uncoupled : f = .standard → ∀ k l : Nat, k < D.m → l < D.m → k ≠ l →
    kkt.valueAt (D.n + D.m + k) (D.n + l) = 0 ∧ kkt.valueAt (D.n + D.m + k) (D.n + D.m + l) = 0
  coupling : f = .augmented → ∀ k l : Nat, k < D.m → l < D.m → k ≠ l →
    kkt.valueAt (D.n + k) (D.n + l) = D.E k l
  complementarity_owned : f = .standard → ∀ k : Nat, k < D.m →
    kkt.Owns (D.n + D.m + k) (D.n + k) ∧ kkt.Owns (D.n + D.m + k) (D.n + D.m + k)
  ratio_owned : f = .augmented → ∀ k : Nat, k < D.m → kkt.Owns (D.n + k) (D.n + k)

/-- A matrix that carries all blocks at the iterate `(y, λ)`. -/
structure AtIterate (f : Formulation) (D : Data K) (y lam : Array K) (kkt : Matrix K) : Prop
    extends Prepared f D kkt where
  multipliers : f = .standard → ∀ k : Nat, k < D.m →
    kkt.valueAt (D.n + D.m + k) (D.n + k) = coord lam k
  slacks : f = .standard → ∀ k : Nat, k < D.m →
    kkt.valueAt (D.n + D.m + k) (D.n + D.m + k) = coord y k
  ratios : f = .augmented → ∀ k : Nat, k < D.m →
    kkt.valueAt (D.n + k) (D.n + k) = coord y k / coord lam k + D.E k k

variable {f : Formulation} {D : Data K} {kkt : Matrix K} {y lam diagE : Array K}

/-! The rows of blocks, one lemma for each: a column is split by the block it falls in. -/

theorem AtIterate.valueAt_stationarity (h : AtIterate .standard D y lam kkt) {i j : Nat}
    (hi : i < D.n) (hj : j < D.n + (D.m + D.m)) :
    kkt.valueAt i j = blockEntry .standard D y lam i j := by
  simp only [blockEntry, if_pos hi]
  split_ifs with hjn hjm
  · exact h.hessian i j hi hjn
  · obtain ⟨k, rfl⟩ := Nat.exists_eq_add_of_le (Nat.le_of_not_lt hjn)
    exact_mod_cast h.vacant rfl i k hi (by omega)
  · have htransposed := h.transposed
    rw [show (systemFor Formulation.standard D).multiplierOffset = D.n + D.m from rfl]
      at htransposed
    obtain ⟨k, rfl⟩ := Nat.exists_eq_add_of_le (Nat.le_of_not_lt hjm)
    rw [show D.n + D.m + k - D.n - D.m = k by omega]
    exact_mod_cast htransposed i k hi (by omega)

theorem AtIterate.valueAt_feasibility (h : AtIterate .standard D y lam kkt) {k j : Nat}
    (hk : k < D.m) (hj : j < D.n + (D.m + D.m)) :
    kkt.valueAt (D.n + k) j = blockEntry .standard D y lam (D.n + k) j := by
  simp only [blockEntry, if_neg (show ¬D.n + k < D.n by omega),
    if_pos (show D.n + k < D.n + D.m by omega), Nat.add_sub_cancel_left]
  split_ifs with hjn hjm hij
  · exact_mod_cast h.jacobian k j hk hjn
  · subst hij
    have := h.slack rfl k k hk hk
    rw [if_pos rfl] at this
    exact_mod_cast this
  · obtain ⟨l, rfl⟩ := Nat.exists_eq_add_of_le (Nat.le_of_not_lt hjn)
    have := h.slack rfl k l hk (by omega)
    rw [if_neg (by omega)] at this
    exact_mod_cast this
  · obtain ⟨l, rfl⟩ := Nat.exists_eq_add_of_le (Nat.le_of_not_lt hjm)
    rw [show D.n + D.m + l - D.n - D.m = l by omega]
    exact_mod_cast h.compliance rfl k l hk (by omega)

theorem AtIterate.valueAt_complementarity (h : AtIterate .standard D y lam kkt) {k j : Nat}
    (hk : k < D.m) (hj : j < D.n + (D.m + D.m)) :
    kkt.valueAt (D.n + D.m + k) j = blockEntry .standard D y lam (D.n + D.m + k) j := by
  simp only [blockEntry, if_neg (show ¬D.n + D.m + k < D.n by omega),
    if_neg (show ¬D.n + D.m + k < D.n + D.m by omega),
    show D.n + D.m + k - D.n - D.m = k by omega]
  split_ifs with hjn hjm hij hij
  · exact_mod_cast h.idle rfl k j hk hjn
  · obtain ⟨l, rfl⟩ := Nat.exists_eq_add_of_le (Nat.le_of_not_lt hjn)
    obtain rfl : k = l := by omega
    rw [Nat.add_sub_cancel_left]
    exact_mod_cast h.multipliers rfl k hk
  · obtain ⟨l, rfl⟩ := Nat.exists_eq_add_of_le (Nat.le_of_not_lt hjn)
    exact_mod_cast (h.uncoupled rfl k l hk (by omega) (by omega)).1
  · subst hij
    exact_mod_cast h.slacks rfl k hk
  · obtain ⟨l, rfl⟩ := Nat.exists_eq_add_of_le (Nat.le_of_not_lt hjm)
    exact_mod_cast (h.uncoupled rfl k l hk (by omega) (by omega)).2

theorem AtIterate.valueAt_stationarity_augmented (h : AtIterate .augmented D y lam kkt)
    {i j : Nat} (hi : i < D.n) (hj : j < D.n + D.m) :
    kkt.valueAt i j = blockEntry .augmented D y lam i j := by
  simp only [blockEntry, if_pos hi]
  split_ifs with hjn
  · exact h.hessian i j hi hjn
  · have htransposed := h.transposed
    rw [show (systemFor Formulation.augmented D).multiplierOffset = D.n from rfl] at htransposed
    obtain ⟨k, rfl⟩ := Nat.exists_eq_add_of_le (Nat.le_of_not_lt hjn)
    rw [Nat.add_sub_cancel_left]
    exact_mod_cast htransposed i k hi (by omega)

theorem AtIterate.valueAt_eliminated (h : AtIterate .augmented D y lam kkt) {k j : Nat}
    (hk : k < D.m) (hj : j < D.n + D.m) :
    kkt.valueAt (D.n + k) j = blockEntry .augmented D y lam (D.n + k) j := by
  simp only [blockEntry, if_neg (show ¬D.n + k < D.n by omega), Nat.add_sub_cancel_left]
  split_ifs with hjn hij
  · exact_mod_cast h.jacobian k j hk hjn
  · subst hij
    rw [Nat.add_sub_cancel_left]
    exact_mod_cast h.ratios rfl k hk
  · obtain ⟨l, rfl⟩ := Nat.exists_eq_add_of_le (Nat.le_of_not_lt hjn)
    rw [Nat.add_sub_cancel_left, zero_add]
    exact_mod_cast h.coupling rfl k l hk (by omega) (by omega)

/-- The blocks make up the table. -/
theorem AtIterate.valueAt_eq (h : AtIterate f D y lam kkt) {i j : Nat} (hi : i < dimension f D)
    (hj : j < dimension f D) : kkt.valueAt i j = blockEntry f D y lam i j := by
  cases f with
  | standard =>
    rw [dimension] at hi hj
    rcases Nat.lt_or_ge i D.n with hin | hin
    · exact h.valueAt_stationarity hin hj
    rcases Nat.lt_or_ge i (D.n + D.m) with him | him
    · obtain ⟨k, rfl⟩ := Nat.exists_eq_add_of_le hin
      exact_mod_cast h.valueAt_feasibility (by omega) hj
    · obtain ⟨k, rfl⟩ := Nat.exists_eq_add_of_le him
      exact_mod_cast h.valueAt_complementarity (by omega) hj
  | augmented =>
    rw [dimension] at hi hj
    rcases Nat.lt_or_ge i D.n with hin | hin
    · exact h.valueAt_stationarity_augmented hin hj
    · obtain ⟨k, rfl⟩ := Nat.exists_eq_add_of_le hin
      exact_mod_cast h.valueAt_eliminated (by omega) hj

/-- A matrix at an iterate represents the documented matrix of the iterate. -/
theorem AtIterate.represents (h : AtIterate f D y lam kkt) :
    kkt.Represents (blockTable f D y lam) := by
  obtain ⟨hrows, hcols⟩ := h.rows_eq_dimension
  refine h.sound.represents hrows hcols fun row col hin => ?_
  obtain ⟨hr, hr', hc, hc'⟩ := hin
  obtain ⟨i, rfl⟩ := Int.eq_ofNat_of_zero_le hr
  obtain ⟨j, rfl⟩ := Int.eq_ofNat_of_zero_le hc
  rw [hrows] at hr'
  rw [hcols] at hc'
  exact h.valueAt_eq (Int.ofNat_lt.mp hr') (Int.ofNat_lt.mp hc')

/-- The numbers in the blocks of a problem whose vectors do not matter. -/
def blockData (n m : Nat) (G A : Matrix K) (E : Option (Matrix K)) : Data K where
  n
  m
  G i j := G.valueAt i j
  A k j := A.valueAt k j
  E k l := (E.map fun e => e.valueAt k l).getD 0
  c _ := 0
  b _ := 0

theorem blocks_blockData {n m : Nat} {G A : Matrix K} {E : Option (Matrix K)}
    (hG : G.Sound ∧ G.rows = n ∧ G.cols = n)
    (hA : A.Sound ∧ A.rows = m ∧ A.cols = n)
    (hE : ∀ e, E = some e → e.Sound ∧ e.rows = m ∧ e.cols = m) :
    Blocks (blockData n m G A E) G A E where
  hessian := ⟨hG.1, hG.2.1, hG.2.2, fun _ _ _ _ => rfl⟩
  jacobian := ⟨hA.1, hA.2.1, hA.2.2, fun _ _ _ _ => rfl⟩
  compliance :=
    { carries := by
        rintro e rfl
        obtain ⟨hsound, hrows, hcols⟩ := hE e rfl
        exact ⟨hsound, hrows, hcols, fun _ _ _ _ => rfl⟩
      absent := by
        rintro rfl k l - -
        rfl }

variable [LinearOrder K] {G A : Matrix K} {E : Option (Matrix K)} {w : Write K}

/-! ## The assembly -/

/-- An assembly into a cleared matrix, compressed, has the values that its writes give. -/
theorem Blocks.valueAt_assembly (h : Blocks D G A E) {m : Matrix K} (hm : Cleared f D m)
    {row col : Int} {v : K} (hgive : WritesGive
      ((systemFor f D).constantWrites G.entries A.entries (E.map Matrix.entries)) row col v) :
    (m.writeAll ((systemFor f D).constantWrites G.entries A.entries
      (E.map Matrix.entries))).2.compress.1.valueAt row col = v := by
  rw [(hm.sound.writeAll _).1.valueAt_compress]
  refine hm.sound.valueAt_writeAll_of_gives (fun w hw => ?_) hgive (hm.valueAt_eq_zero row col)
  rw [Matrix.InShape, hm.rows_eq, hm.cols_eq]
  exact ⟨h.inShape hw, (h.placed hw).1⟩

/-- No write of the assembly is refused. -/
theorem Blocks.fault_assembly (h : Blocks D G A E) {m : Matrix K} (hm : Cleared f D m) :
    (m.writeAll
      ((systemFor f D).constantWrites G.entries A.entries (E.map Matrix.entries))).1 = none := by
  refine hm.sound.writeAll_fault fun w hw => ?_
  rw [Matrix.InShape, hm.rows_eq, hm.cols_eq]
  exact h.inShape hw

/-- Positions at which nothing is written. -/
theorem Blocks.gives_zero (h : Blocks D G A E) {row col : Int}
    (hnone : ∀ w, Placed f D G.entries A.entries ((E.map Matrix.entries).getD []) w →
      ¬(w.row = row ∧ w.col = col)) :
    WritesGive ((systemFor f D).constantWrites G.entries A.entries (E.map Matrix.entries))
      row col 0 :=
  ⟨fun w hw hr hc => absurd ⟨hr, hc⟩ (hnone w (h.placed hw).2), fun hne => absurd rfl hne⟩

theorem Blocks.gives_coupling (h : Blocks D G A E) (hf : f = .augmented) {k l : Nat} (hk : k < D.m)
    (hl : l < D.m) (hkl : k ≠ l) :
    WritesGive ((systemFor f D).constantWrites G.entries A.entries (E.map Matrix.entries)) (D.n + k)
      (D.n + l) (D.E k l) := by
  have hoff : (systemFor f D).multiplierOffset = D.n := by subst hf; rfl
  have hgive := h.compliance.gives hk hl
  refine ⟨?_, fun hne => ?_⟩
  · intro w hw hr hc
    cases (h.placed hw).2 with
    | compliance e he hrow hcol hvalue =>
      exact hvalue.trans (hgive.value e he (by omega) (by omega))
    | slack hf' => exact absurd (hf.symm.trans hf') (by decide)
    | complementarity hf' => exact absurd (hf.symm.trans hf') (by decide)
    | hessian | transposed | jacobian | ratio => omega
  · obtain ⟨e, he, hr, hc⟩ := hgive.exists_entry hne
    refine ⟨_, mem_constantWrites_iff.mpr (.inr (.inr (.inr (.inl ⟨e, he, rfl⟩)))),
      congrArg ((D.n : Int) + ·) hr, ?_⟩
    show (systemFor f D).multiplierOffset + e.col = D.n + l
    rw [hoff, hc]

/-- Placeholders of one place agree, and they are not zero. -/
theorem placeholder_value (hw : w ∈ (systemFor f D).placeholderWrites) :
    w.value ≠ 0 ∧ ∀ w' ∈ (systemFor f D).placeholderWrites, w'.row = w.row → w'.col = w.col →
      w'.value = w.value := by
  obtain ⟨q, hq, hcase⟩ := mem_placeholderWrites_iff.mp hw
  have hq : q < D.m := hq
  cases f with
  | standard =>
    have hone : (-1 : K) ≠ 0 := neg_ne_zero.mpr one_ne_zero
    refine ⟨by rcases hcase with rfl | rfl | rfl <;> first | exact hone | exact one_ne_zero, ?_⟩
    intro w' hw' hr hc
    obtain ⟨p, hp, hcase'⟩ := mem_placeholderWrites_iff.mp hw'
    have hp : p < D.m := hp
    have hn : (systemFor Formulation.standard D).n = D.n := rfl
    have hm : (systemFor Formulation.standard D).m = D.m := rfl
    rw [hn, hm] at hcase hcase'
    -- the places of −I and of the complementarity rows are apart
    rcases hcase with rfl | rfl | rfl <;> rcases hcase' with rfl | rfl | rfl <;>
      first
      | rfl
      | simp only [System.put] at hr hc
        omega
  | augmented =>
    obtain rfl := hcase
    refine ⟨one_ne_zero, fun w' hw' _ _ => ?_⟩
    obtain ⟨p, -, rfl⟩ := mem_placeholderWrites_iff.mp hw'
    rfl

/-- After the assembly every placeholder owns a slot, with or without the lock. -/
theorem Blocks.owns_placeholder (h : Blocks D G A E) {m : Matrix K} (hm : Cleared f D m)
    (hw : w ∈ (systemFor f D).placeholderWrites) :
    (m.writeAll ((systemFor f D).constantWrites G.entries A.entries
      (E.map Matrix.entries))).2.compress.1.Owns w.row w.col := by
  have hin : ∀ w' ∈ (systemFor f D).constantWrites G.entries A.entries (E.map Matrix.entries),
      m.InShape w'.row w'.col ∧ w'.overwrite = true := by
    intro w' hw'
    rw [Matrix.InShape, hm.rows_eq, hm.cols_eq]
    exact ⟨h.inShape hw', (h.placed hw').1⟩
  apply Matrix.owns_of_valueAt_ne_zero
  rw [(hm.sound.writeAll _).1.valueAt_compress]
  rw [System.constantWrites] at hin ⊢
  set blocks := System.hessianWrites G.entries ++ (systemFor f D).jacobianWrites A.entries ++
    (systemFor f D).complianceWrites ((E.map Matrix.entries).getD [])
  obtain ⟨hsound, hframe⟩ := hm.sound.writeAll blocks
  have hfault : (m.writeAll blocks).1 = none :=
    hm.sound.writeAll_fault fun w' hw' => (hin w' (List.mem_append_left _ hw')).1
  -- the placeholders come last, so nothing is written over them
  rw [Matrix.writeAll_append hfault,
    hsound.valueAt_writeAll_of_agree (v := w.value) (fun w' hw' => ?_) (placeholder_value hw).2
      fun hnone => absurd ⟨rfl, rfl⟩ (hnone w hw)]
  · exact (placeholder_value hw).1
  · rw [hframe.inShape]
    exact hin w' (List.mem_append_right _ hw')

/-- The assembly prepares the matrix for updates. -/
theorem Blocks.prepared (h : Blocks D G A E) {m : Matrix K} (hm : Cleared f D m) :
    Prepared f D (m.writeAll ((systemFor f D).constantWrites G.entries A.entries
      (E.map Matrix.entries))).2.compress.1 := by
  have hoff := n_le_multiplierOffset f D
  have howned : ∀ w : Write K, w ∈ (systemFor f D).placeholderWrites → _ :=
    fun _ hw => h.owns_placeholder hm hw
  refine
    { toHolds := holds_of_assembly h hm
      idle := fun hf k j hk hj => h.valueAt_assembly hm (h.gives_zero fun w hw => ?_)
      uncoupled := fun hf k l hk hl hkl => ?_
      coupling := fun hf k l hk hl hkl => h.valueAt_assembly hm (h.gives_coupling hf hk hl hkl)
      complementarity_owned := fun hf k hk => ?_
      ratio_owned := fun hf k hk => ?_ }
  · have hoff : (systemFor f D).multiplierOffset = D.n + D.m := by subst hf; rfl
    cases hw with
    | hessian | transposed | jacobian | compliance | slack | complementarity | ratio => omega
  · have hoff : (systemFor f D).multiplierOffset = D.n + D.m := by subst hf; rfl
    refine ⟨h.valueAt_assembly hm (h.gives_zero fun w hw => ?_),
      h.valueAt_assembly hm (h.gives_zero fun w hw => ?_)⟩
    all_goals
      cases hw with
      | hessian | transposed | jacobian | compliance | slack | complementarity | ratio => omega
  · subst hf
    exact ⟨howned (System.put _ _ 1) (mem_placeholderWrites_iff.mpr ⟨k, hk, .inr (.inl rfl)⟩),
      howned (System.put _ _ 1) (mem_placeholderWrites_iff.mpr ⟨k, hk, .inr (.inr rfl)⟩)⟩
  · subst hf
    exact howned (System.put _ _ 1) (mem_placeholderWrites_iff.mpr ⟨k, hk, rfl⟩)

/-! ## Updates -/

/-- The quotients of `y` by `λ`, with the diagonal of `E`. -/
theorem slackRatios_eq {m : Nat} (hy : y.size = m) (hl : lam.size = m) (hd : diagE.size = m) :
    ∃ ratios, System.slackRatios y lam diagE = .ok ratios ∧ ratios.size = m ∧
      ∀ q, q < m → coord ratios q = coord y q / coord lam q + coord diagE q := by
  obtain ⟨quotient, hquotient, hqsize, hqcoord⟩ := Vector.exists_zip? (· / ·) hy hl
  obtain ⟨ratios, hratios, hsize, hcoord⟩ := Vector.exists_zip? (· + ·) hqsize hd
  refine ⟨ratios, ?_, hsize, fun q hq => ?_⟩
  · rw [System.slackRatios, hquotient]
    exact hratios
  · rw [hcoord q hq, hqcoord q hq]

/-- What an update to an iterate of the right lengths writes: `λ` and `y` into the complementarity
rows, or their quotients with the diagonal of `E`. -/
theorem iterateAssembly_eq (hy : y.size = D.m) (hl : lam.size = D.m) (hd : diagE.size = D.m) :
    ((systemFor f D).iterateAssembly y lam diagE).stop = none ∧
      ∀ w, w ∈ ((systemFor f D).iterateAssembly y lam diagE).writes ↔ ∃ q : Nat, q < D.m ∧
        match f with
        | .standard => w = System.put (D.n + D.m + q) (D.n + q) (coord lam q) ∨
            w = System.put (D.n + D.m + q) (D.n + D.m + q) (coord y q)
        | .augmented =>
            w = System.put (D.n + q) (D.n + q) (coord y q / coord lam q + coord diagE q) := by
  have hbound : ∀ k : Nat, k = D.m → (systemFor f D).shortage? (α := K) k = none := by
    intro k hk
    rw [System.shortage?, if_neg]
    rw [hk]
    exact lt_irrefl _
  cases f with
  | standard =>
    refine ⟨hbound _ (by rw [hy, hl, Nat.min_self]), fun w => ?_⟩
    have hrange : min (systemFor Formulation.standard D).m.toNat (min lam.size (y.size + 1)) =
        D.m := by
      rw [hl, hy]
      exact (Nat.min_eq_left (Nat.le_min.mpr ⟨Nat.le_refl _, Nat.le_succ _⟩))
    show w ∈ (systemFor Formulation.standard D).complementarityWrites y lam ↔ _
    rw [System.complementarityWrites, hrange, List.mem_flatMap]
    refine exists_congr fun q => ?_
    rw [List.mem_range]
    refine and_congr_right fun hq => ?_
    rw [if_pos (by rwa [hy]), List.mem_cons, List.mem_singleton]
    rfl
  | augmented =>
    obtain ⟨ratios, hratios, hsize, hcoord⟩ := slackRatios_eq hy hl hd
    have hassembly : (systemFor Formulation.augmented D).iterateAssembly y lam diagE =
        ⟨(systemFor Formulation.augmented D).diagonalWrites ratios,
          (systemFor Formulation.augmented D).shortage? ratios.size⟩ := by
      rw [System.iterateAssembly]
      dsimp only [systemFor]
      rw [hratios]
    rw [hassembly]
    refine ⟨hbound _ hsize, fun w => ?_⟩
    have hrange : min (systemFor Formulation.augmented D).m.toNat ratios.size = D.m := by
      rw [hsize]
      exact Nat.min_self _
    dsimp only
    rw [System.diagonalWrites, hrange, List.mem_map]
    refine exists_congr fun q => ?_
    rw [List.mem_range]
    refine and_congr_right fun hq => ?_
    rw [← hcoord q hq]
    exact ⟨Eq.symm, Eq.symm⟩

section

variable (hd : IsDiagonal D diagE) (hy : y.size = D.m) (hl : lam.size = D.m)
include hd hy hl

/-- The places that an update writes to are places of the matrix. -/
theorem Prepared.owns_update (h : Prepared f D kkt) {w : Sparse.Write K}
    (hw : w ∈ ((systemFor f D).iterateAssembly y lam diagE).writes) :
    kkt.Owns w.row w.col ∧ w.overwrite = true := by
  obtain ⟨q, hq, hcase⟩ := ((iterateAssembly_eq hy hl hd.size).2 w).mp hw
  cases f with
  | standard =>
    rcases hcase with rfl | rfl
    · exact ⟨(h.complementarity_owned rfl q hq).1, rfl⟩
    · exact ⟨(h.complementarity_owned rfl q hq).2, rfl⟩
  | augmented =>
    obtain rfl := hcase
    exact ⟨h.ratio_owned rfl q hq, rfl⟩

/-- A place that the update writes, always with the same value, has that value. -/
theorem Prepared.valueAt_update (h : Prepared f D kkt) {w : Sparse.Write K}
    (hw : w ∈ ((systemFor f D).iterateAssembly y lam diagE).writes)
    (hagree : ∀ w' ∈ ((systemFor f D).iterateAssembly y lam diagE).writes,
      w'.row = w.row → w'.col = w.col → w'.value = w.value) :
    (kkt.assemble ((systemFor f D).iterateAssembly y lam diagE)).2.valueAt w.row w.col = w.value :=
  h.sound.valueAt_writeAll_of_agree
    (fun _ hw' => ⟨(h.owns_update hd hy hl hw').1.inShape, (h.owns_update hd hy hl hw').2⟩) hagree
    fun hnone => absurd ⟨rfl, rfl⟩ (hnone w hw)

omit hd hy hl in
/-- Any other place keeps its own. -/
theorem Prepared.valueAt_update_of_untouched (h : Prepared f D kkt) {row col : Int}
    (hw : ∀ w ∈ ((systemFor f D).iterateAssembly y lam diagE).writes,
      ¬(w.row = row ∧ w.col = col)) :
    (kkt.assemble ((systemFor f D).iterateAssembly y lam diagE)).2.valueAt row col =
      kkt.valueAt row col :=
  h.sound.valueAt_writeAll_of_untouched hw

/-- An update brings a prepared matrix of the standard formulation to its iterate. -/
theorem Prepared.atIterate_standard (h : Prepared .standard D kkt) :
    AtIterate .standard D y lam
      (kkt.assemble ((systemFor .standard D).iterateAssembly y lam diagE)).2 := by
  have hmem := (iterateAssembly_eq (f := .standard) hy hl hd.size).2
  have howns : ∀ row col, kkt.Owns row col →
      (kkt.assemble ((systemFor .standard D).iterateAssembly y lam diagE)).2.Owns row col :=
    fun _ _ ho => h.sound.owns_writeAll _ ho
  refine
    { toHolds := h.toHolds.assemble y lam diagE
      idle := fun _ k j hk hj =>
        (h.valueAt_update_of_untouched fun w hw hpos => ?_).trans (h.idle rfl k j hk hj)
      uncoupled := fun _ k l hk hl hkl => ⟨?_, ?_⟩
      coupling := fun hf => by cases hf
      complementarity_owned := fun hf k hk =>
        ⟨howns _ _ (h.complementarity_owned hf k hk).1,
          howns _ _ (h.complementarity_owned hf k hk).2⟩
      ratio_owned := fun hf => by cases hf
      multipliers := fun _ k hk => h.valueAt_update hd hy hl (w := System.put _ _ (coord lam k))
        ((hmem _).mpr ⟨k, hk, .inl rfl⟩) fun w hw hr hc => ?_
      slacks := fun _ k hk => h.valueAt_update hd hy hl (w := System.put _ _ (coord y k))
        ((hmem _).mpr ⟨k, hk, .inr rfl⟩) fun w hw hr hc => ?_
      ratios := fun hf => by cases hf }
  · obtain ⟨q, hq, rfl | rfl⟩ := (hmem w).mp hw <;> simp only [System.put] at hpos <;> omega
  · rw [h.valueAt_update_of_untouched fun w hw hpos => ?_]
    · exact (h.uncoupled rfl k l hk hl hkl).1
    · obtain ⟨q, hq, rfl | rfl⟩ := (hmem w).mp hw <;> simp only [System.put] at hpos <;> omega
  · rw [h.valueAt_update_of_untouched fun w hw hpos => ?_]
    · exact (h.uncoupled rfl k l hk hl hkl).2
    · obtain ⟨q, hq, rfl | rfl⟩ := (hmem w).mp hw <;> simp only [System.put] at hpos <;> omega
  · obtain ⟨q, hq, rfl | rfl⟩ := (hmem w).mp hw <;> simp only [System.put] at hr hc ⊢
    · rw [show q = k by omega]
    · omega
  · obtain ⟨q, hq, rfl | rfl⟩ := (hmem w).mp hw <;> simp only [System.put] at hr hc ⊢
    · omega
    · rw [show q = k by omega]

/-- An update brings a prepared matrix of the augmented formulation to its iterate. -/
theorem Prepared.atIterate_augmented (h : Prepared .augmented D kkt) :
    AtIterate .augmented D y lam
      (kkt.assemble ((systemFor .augmented D).iterateAssembly y lam diagE)).2 := by
  have hmem := (iterateAssembly_eq (f := .augmented) hy hl hd.size).2
  refine
    { toHolds := h.toHolds.assemble y lam diagE
      idle := fun hf => by cases hf
      uncoupled := fun hf => by cases hf
      coupling := fun _ k l hk hl hkl =>
        (h.valueAt_update_of_untouched fun w hw hpos => ?_).trans (h.coupling rfl k l hk hl hkl)
      complementarity_owned := fun hf => by cases hf
      ratio_owned := fun hf k hk => h.sound.owns_writeAll _ (h.ratio_owned hf k hk)
      multipliers := fun hf => by cases hf
      slacks := fun hf => by cases hf
      ratios := fun _ k hk => ?_ }
  · obtain ⟨q, hq, rfl⟩ := (hmem w).mp hw
    simp only [System.put] at hpos
    omega
  · rw [← hd.coord_eq k hk]
    refine h.valueAt_update hd hy hl (w := System.put _ _ _) ((hmem _).mpr ⟨k, hk, rfl⟩)
      fun w hw hr hc => ?_
    obtain ⟨q, hq, rfl⟩ := (hmem w).mp hw
    simp only [System.put] at hr ⊢
    rw [show q = k by omega]

/-- An update of a prepared matrix is not refused, hits existing slots only, and brings the matrix
to its iterate. -/
theorem Prepared.assemble (h : Prepared f D kkt) :
    (kkt.assemble ((systemFor f D).iterateAssembly y lam diagE)).1 = none ∧
      kkt.InPlace (kkt.assemble ((systemFor f D).iterateAssembly y lam diagE)).2 ∧
      AtIterate f D y lam (kkt.assemble ((systemFor f D).iterateAssembly y lam diagE)).2 := by
  refine ⟨?_, h.sound.inPlace_writeAll fun w hw => (h.owns_update hd hy hl hw).1, ?_⟩
  · show (kkt.writeAll ((systemFor f D).iterateAssembly y lam diagE).writes).1.or
      ((systemFor f D).iterateAssembly y lam diagE).stop = none
    rw [h.sound.writeAll_fault fun w hw => (h.owns_update hd hy hl hw).1.inShape,
      (iterateAssembly_eq hy hl hd.size).1]
    rfl
  · cases f with
    | standard => exact h.atIterate_standard hd hy hl
    | augmented => exact h.atIterate_augmented hd hy hl

end

/-! ## Any number of updates -/

/-- Brings a matrix to iterates, one after another. -/
def bring (s : System) (diagE : Array K) (kkt : Matrix K) (iterates : List (Array K × Array K)) :
    Matrix K :=
  iterates.foldl (fun kkt p => (kkt.assemble (s.iterateAssembly p.1 p.2 diagE)).2) kkt

/-- Updates leave a prepared matrix prepared, in the same slots. -/
theorem Prepared.bring (h : Prepared f D kkt) (hd : IsDiagonal D diagE)
    {iterates : List (Array K × Array K)}
    (hsizes : ∀ p ∈ iterates, p.1.size = D.m ∧ p.2.size = D.m) :
    Prepared f D (bring (systemFor f D) diagE kkt iterates) ∧
      kkt.InPlace (bring (systemFor f D) diagE kkt iterates) := by
  induction iterates generalizing kkt with
  | nil => exact ⟨h, Matrix.InPlace.refl kkt⟩
  | cons p ps ih =>
    obtain ⟨hy, hl⟩ := hsizes p (List.mem_cons_self ..)
    obtain ⟨-, hplace, hnext⟩ := h.assemble hd hy hl
    obtain ⟨hlast, hplace'⟩ := ih hnext.toPrepared fun p' hp' =>
      hsizes p' (List.mem_cons_of_mem _ hp')
    exact ⟨hlast, hplace.trans hplace'⟩

/-- The Newton matrix that is handed over. Take sound blocks `G`, `A` and, if there is one, `E`, and
a sound target of the dimension of the system that reads as zero, whatever slots it has. Assembly
and compression are not refused, and after any number of updates the products with the blocks are
those of `A`, `G` and `−Aᵀ`. The next update is not refused either, moves nothing, and leaves the
documented matrix of its iterate. -/
theorem assembled_represents (f : Formulation) (n m : Nat) (G A target : Matrix K)
    (E : Option (Matrix K)) (diagE : Array K) (hG : G.verify = 0 ∧ G.rows = n ∧ G.cols = n)
    (hA : A.verify = 0 ∧ A.rows = m ∧ A.cols = n)
    (hE : ∀ e, E = some e → e.verify = 0 ∧ e.rows = m ∧ e.cols = m)
    (hd : IsDiagonal (blockData n m G A E) diagE)
    (htarget : target.verify = 0 ∧ (target.rows : Int) = (System.mk f n m).dim ∧
      (target.cols : Int) = (System.mk f n m).dim)
    (hzero : ∀ row col, target.InShape row col → target.get row col = .ok 0)
    (iterates : List (Array K × Array K)) (hsizes : ∀ p ∈ iterates, p.1.size = m ∧ p.2.size = m) :
    let s : System := ⟨f, n, m⟩
    let D := blockData n m G A E
    let written := target.writeAll (s.constantWrites G.entries A.entries (E.map Matrix.entries))
    let kkt := bring s diagE written.2.compress.1 iterates
    written.1 = none ∧
    (∀ x : Array K, x.size = n → ∃ u, s.mulA kkt x = .ok u ∧ u.size = m ∧
      ∀ k, k < m → coord u k = ∑ j ∈ Finset.range n, A.valueAt k j * coord x j) ∧
    (∀ x : Array K, x.size = n → ∃ u, s.mulG kkt x = .ok u ∧ u.size = n ∧
      ∀ i, i < n → coord u i = ∑ j ∈ Finset.range n, G.valueAt i j * coord x j) ∧
    (∀ v : Array K, v.size = m → ∃ u, s.mulNegAT kkt v = .ok u ∧ u.size = n ∧
      ∀ i, i < n → coord u i = -∑ k ∈ Finset.range m, A.valueAt k i * coord v k) ∧
    ∀ y lam : Array K, y.size = m → lam.size = m →
      (kkt.assemble (s.iterateAssembly y lam diagE)).1 = none ∧
      kkt.InPlace (kkt.assemble (s.iterateAssembly y lam diagE)).2 ∧
      (kkt.assemble (s.iterateAssembly y lam diagE)).2.capacity = kkt.capacity ∧
      (kkt.assemble (s.iterateAssembly y lam diagE)).2.verify = 0 ∧
      (kkt.assemble (s.iterateAssembly y lam diagE)).2.Represents (blockTable f D y lam) := by
  simp only [Matrix.verify_eq_zero_iff] at hG hA hE htarget ⊢
  have hblocks := blocks_blockData hG hA hE
  have hcleared : Cleared f (blockData n m G A E) target := by
    refine ⟨htarget.1, htarget.2.1, htarget.2.2, fun row col => ?_⟩
    by_cases hin : target.InShape row col
    · have := hzero row col hin
      rw [htarget.1.get_eq hin] at this
      exact Except.ok.inj this
    · exact Matrix.valueAt_of_not_inShape hin
  obtain ⟨hprepared, -⟩ := (hblocks.prepared hcleared).bring hd hsizes
  refine ⟨hblocks.fault_assembly hcleared, fun x hx => hprepared.mulA_eq hx,
    fun x hx => hprepared.mulG_eq hx, fun v hv => hprepared.mulNegAT_eq hv, fun y lam hy hl => ?_⟩
  obtain ⟨hfault, hplace, hat⟩ := hprepared.assemble hd hy hl
  exact ⟨hfault, hplace, hplace.capacity, hat.sound, hat.represents⟩

/-- A matrix with one number in it. -/
def single (v : ℚ) : Matrix ℚ := ((Matrix.empty 1 1 .byRows 1).set 0 0 v true).2

/-- One unknown and one constraint with compliance, whose diagonal place the augmented formulation
shares with its placeholder: the second update of a fresh matrix. -/
theorem assembled_represents_single :
    let s : System := ⟨.augmented, 1, 1⟩
    let kkt := bring s #[5] ((Matrix.empty 2 2 .byRows 3 : Matrix ℚ).writeAll
      (s.constantWrites (single 2).entries (single 3).entries
        (some (single 5).entries))).2.compress.1 [(#[1], #[2])]
    ((single 2).verify = 0 ∧ (single 3).verify = 0 ∧ (single 5).verify = 0) ∧
      kkt.InPlace (kkt.assemble (s.iterateAssembly #[4] #[8] #[5])).2 ∧
      (kkt.assemble (s.iterateAssembly #[4] #[8] #[5])).2.Represents
        (blockTable .augmented (blockData 1 1 (single 2) (single 3) (some (single 5)))
          #[4] #[8]) := by
  have hsingle : ∀ v : ℚ, (single v).verify = 0 ∧ (single v).rows = 1 ∧ (single v).cols = 1 := by
    intro v
    have h : (Matrix.empty 1 1 .byRows 1 : Matrix ℚ).Sound := Sparse.Matrix.sound_withFreshBuffers _ 1
    have hframe := h.sameFrame_set 0 0 v true
    exact ⟨Matrix.verify_eq_zero_iff.mpr (h.set 0 0 v true), hframe.rows, hframe.cols⟩
  have htarget : (Matrix.empty 2 2 .byRows 3 : Matrix ℚ).Sound :=
    Sparse.Matrix.sound_withFreshBuffers _ 3
  have h := assembled_represents .augmented 1 1 (single 2) (single 3)
    (Matrix.empty 2 2 .byRows 3) (some (single 5)) #[5] (hsingle 2) (hsingle 3)
    (by rintro e ⟨⟩; exact hsingle 5) ⟨rfl, fun k hk => ?_⟩
    ⟨Matrix.verify_eq_zero_iff.mpr htarget, rfl, rfl⟩
    (fun row col hin => by
      rw [htarget.get_eq hin]
      exact congrArg Except.ok (Sparse.Matrix.valueAt_withFreshBuffers _ 3 row col))
    [(#[1], #[2])] (by decide)
  · obtain ⟨-, -, -, -, hupdate⟩ := h
    obtain ⟨-, hplace, -, -, hrepresents⟩ := hupdate #[4] #[8] rfl rfl
    exact ⟨⟨(hsingle 2).1, (hsingle 3).1, (hsingle 5).1⟩, hplace, hrepresents⟩
  · obtain rfl : k = 0 := Nat.lt_one_iff.mp hk
    decide +kernel

end CentralPath.Newton
