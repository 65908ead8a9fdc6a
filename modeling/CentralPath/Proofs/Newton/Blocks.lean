/-
  The blocks of an assembled Newton matrix. `Holds f D kkt` says that the matrix carries `G`, `−Aᵀ`
  and `A` of the data in their places, and in the standard formulation the whole middle row of
  blocks. An assembly into a cleared matrix establishes it (`holds_of_assembly`), and bringing the
  matrix to an iterate keeps it (`Holds.assemble`), since that writes other places only.
-/
import CentralPath.Newton.System
import CentralPath.Proofs.Problem.Parts
import CentralPath.Proofs.Sparse.Products

open CentralPath.Vector (coord)

namespace CentralPath.Newton

open Problem (Data)
open Sparse (Entry Matrix Write WritesGive)

variable {K : Type}

/-- The system for data in a formulation. -/
def systemFor (f : Formulation) (D : Data K) : System := ⟨f, D.n, D.m⟩

/-- A system that is set up for the dimensions of the data is one for the data. -/
theorem exists_systemFor_of_create {D : Data K} {choice : Choice} {sys : System}
    (h : System.create (α := K) choice D.n D.m = .ok sys) : ∃ f, sys = systemFor f D := by
  unfold System.create at h
  split at h
  · exact ⟨.standard, (Except.ok.inj h).symm⟩
  · exact ⟨.augmented, (Except.ok.inj h).symm⟩
  · cases h
  · cases h

theorem n_le_multiplierOffset (f : Formulation) (D : Data K) :
    (D.n : Int) ≤ (systemFor f D).multiplierOffset := by
  cases f <;> simp [System.multiplierOffset, systemFor]

theorem multiplierOffset_add_eq_dim (f : Formulation) (D : Data K) :
    (systemFor f D).multiplierOffset + D.m = (systemFor f D).dim := by
  cases f with
  | standard =>
    simp only [System.multiplierOffset, System.dim, systemFor]
    omega
  | augmented => rfl

theorem dim_nonneg (f : Formulation) (D : Data K) : 0 ≤ (systemFor f D).dim := by
  have hoff := n_le_multiplierOffset f D
  have hdim := multiplierOffset_add_eq_dim f D
  omega

/-- A matrix that carries the constant blocks of the data. -/
structure Holds [Zero K] [One K] [Neg K] (f : Formulation) (D : Data K) (kkt : Matrix K) :
    Prop where
  sound : kkt.Sound
  rows_eq : (kkt.rows : Int) = (systemFor f D).dim
  cols_eq : (kkt.cols : Int) = (systemFor f D).dim
  hessian : ∀ i j : Nat, i < D.n → j < D.n → kkt.valueAt i j = D.G i j
  transposed : ∀ i k : Nat, i < D.n → k < D.m →
    kkt.valueAt i ((systemFor f D).multiplierOffset + k) = -D.A k i
  jacobian : ∀ k j : Nat, k < D.m → j < D.n → kkt.valueAt (D.n + k) j = D.A k j
  vacant : f = .standard → ∀ i k : Nat, i < D.n → k < D.m → kkt.valueAt i (D.n + k) = 0
  slack : f = .standard → ∀ k l : Nat, k < D.m → l < D.m →
    kkt.valueAt (D.n + k) (D.n + l) = if k = l then -1 else 0
  compliance : f = .standard → ∀ k l : Nat, k < D.m → l < D.m →
    kkt.valueAt (D.n + k) (D.n + D.m + l) = D.E k l

/-- A matrix of the dimension of the system that reads as zero. -/
structure Cleared [Zero K] (f : Formulation) (D : Data K) (m : Matrix K) : Prop where
  sound : m.Sound
  rows_eq : (m.rows : Int) = (systemFor f D).dim
  cols_eq : (m.cols : Int) = (systemFor f D).dim
  valueAt_eq_zero : ∀ row col, m.valueAt row col = 0

/-- A compliance block that carries that of the data, which may be left out where it is zero. -/
structure Complies [Zero K] (D : Data K) (E : Option (Matrix K)) : Prop where
  carries : ∀ e, E = some e → e.Carries D.m D.m D.E
  absent : E = none → ∀ k l : Nat, k < D.m → l < D.m → D.E k l = 0

theorem Complies.gives [Zero K] {D : Data K} {E : Option (Matrix K)} {k l : Nat}
    (h : Complies D E) (hk : k < D.m) (hl : l < D.m) :
    Sparse.EntriesGive ((E.map Matrix.entries).getD []) k l (D.E k l) := by
  rcases hE : E with _ | e
  · rw [h.absent hE k l hk hl]
    exact ⟨fun e he => absurd he List.not_mem_nil, fun hne => absurd rfl hne⟩
  · exact (h.carries e hE).gives hk hl

/-- The blocks of the data as matrices. -/
structure Blocks [Zero K] (D : Data K) (G A : Matrix K) (E : Option (Matrix K)) : Prop where
  hessian : G.Carries D.n D.n D.G
  jacobian : A.Carries D.m D.n D.A
  compliance : Complies D E

/-! ## Writes -/

section

variable [Scalar K] {s : System} {G A : List (Entry K)} {E : Option (List (Entry K))} {w : Write K}

theorem mem_constantWrites_iff :
    w ∈ s.constantWrites G A E ↔
      (∃ e ∈ G, w = System.put e.row e.col e.value) ∨
      (∃ e ∈ A, w = System.put e.col (s.multiplierOffset + e.row) (-e.value)) ∨
      (∃ e ∈ A, w = System.put (s.n + e.row) e.col e.value) ∨
      (∃ e ∈ E.getD [], w = System.put (s.n + e.row) (s.multiplierOffset + e.col) e.value) ∨
      w ∈ s.placeholderWrites := by
  simp only [System.constantWrites, System.hessianWrites, System.jacobianWrites,
    System.complianceWrites, List.mem_append, List.mem_map, List.mem_flatMap, List.mem_cons,
    List.not_mem_nil, or_false]
  constructor
  · rintro (((⟨e, he, rfl⟩ | ⟨e, he, rfl | rfl⟩) | ⟨e, he, rfl⟩) | h)
    · exact .inl ⟨e, he, rfl⟩
    · exact .inr (.inl ⟨e, he, rfl⟩)
    · exact .inr (.inr (.inl ⟨e, he, rfl⟩))
    · exact .inr (.inr (.inr (.inl ⟨e, he, rfl⟩)))
    · exact .inr (.inr (.inr (.inr h)))
  · rintro (⟨e, he, rfl⟩ | ⟨e, he, rfl⟩ | ⟨e, he, rfl⟩ | ⟨e, he, rfl⟩ | h)
    · exact .inl (.inl (.inl ⟨e, he, rfl⟩))
    · exact .inl (.inl (.inr ⟨e, he, .inl rfl⟩))
    · exact .inl (.inl (.inr ⟨e, he, .inr rfl⟩))
    · exact .inl (.inr ⟨e, he, rfl⟩)
    · exact .inr h

/-- A placeholder stands in the rows and columns behind the unknowns. -/
theorem mem_placeholderWrites_iff : w ∈ s.placeholderWrites ↔ ∃ j : Nat, j < s.m.toNat ∧
    match s.formulation with
    | .standard => w = System.put (s.n + j) (s.n + j) (-1) ∨
        w = System.put (s.n + s.m + j) (s.n + j) 1 ∨
        w = System.put (s.n + s.m + j) (s.n + s.m + j) 1
    | .augmented => w = System.put (s.n + j) (s.n + j) 1 := by
  simp only [System.placeholderWrites, List.mem_flatMap, List.mem_range]
  refine exists_congr fun j => and_congr_right fun _ => ?_
  cases s.formulation <;> simp

end

variable [Field K] [LinearOrder K] {f : Formulation} {D : Data K} {G A : Matrix K}
  {E : Option (Matrix K)} {w : Write K} {i j k l : Nat}

/-- Where a write of the assembly goes. -/
inductive Placed (f : Formulation) (D : Data K) (G A : List (Entry K)) (E : List (Entry K))
    (w : Write K) : Prop
  | hessian (e : Entry K) (mem : e ∈ G) (row : w.row = e.row) (col : w.col = e.col)
      (value : w.value = e.value) (row_nonneg : 0 ≤ e.row) (row_lt : e.row < D.n)
      (col_nonneg : 0 ≤ e.col) (col_lt : e.col < D.n)
  | transposed (e : Entry K) (mem : e ∈ A) (row : w.row = e.col)
      (col : w.col = (systemFor f D).multiplierOffset + e.row) (value : w.value = -e.value)
      (row_nonneg : 0 ≤ e.row) (row_lt : e.row < D.m) (col_nonneg : 0 ≤ e.col) (col_lt : e.col < D.n)
  | jacobian (e : Entry K) (mem : e ∈ A) (row : w.row = D.n + e.row) (col : w.col = e.col)
      (value : w.value = e.value) (row_nonneg : 0 ≤ e.row) (row_lt : e.row < D.m)
      (col_nonneg : 0 ≤ e.col) (col_lt : e.col < D.n)
  | compliance (e : Entry K) (mem : e ∈ E) (row : w.row = D.n + e.row)
      (col : w.col = (systemFor f D).multiplierOffset + e.col) (value : w.value = e.value)
      (row_nonneg : 0 ≤ e.row) (row_lt : e.row < D.m) (col_nonneg : 0 ≤ e.col) (col_lt : e.col < D.m)
  | slack (formulation : f = .standard) (q : Nat) (bound : q < D.m) (row : w.row = D.n + q)
      (col : w.col = D.n + q) (value : w.value = -1)
  | complementarity (formulation : f = .standard) (q : Nat) (bound : q < D.m)
      (row : w.row = D.n + D.m + q) (col : w.col = D.n + q ∨ w.col = D.n + D.m + q)
  | ratio (formulation : f = .augmented) (q : Nat) (bound : q < D.m) (row : w.row = D.n + q)
      (col : w.col = D.n + q)

theorem Blocks.placed (h : Blocks D G A E)
    (hw : w ∈ (systemFor f D).constantWrites G.entries A.entries (E.map Matrix.entries)) :
    w.overwrite = true ∧ Placed f D G.entries A.entries ((E.map Matrix.entries).getD []) w := by
  rcases mem_constantWrites_iff.mp hw with
    ⟨e, he, rfl⟩ | ⟨e, he, rfl⟩ | ⟨e, he, rfl⟩ | ⟨e, he, rfl⟩ | hplace
  · obtain ⟨hr, hr', hc, hc'⟩ := h.hessian.inShape he
    exact ⟨rfl, .hessian e he rfl rfl rfl hr hr' hc hc'⟩
  · obtain ⟨hr, hr', hc, hc'⟩ := h.jacobian.inShape he
    exact ⟨rfl, .transposed e he rfl rfl rfl hr hr' hc hc'⟩
  · obtain ⟨hr, hr', hc, hc'⟩ := h.jacobian.inShape he
    exact ⟨rfl, .jacobian e he rfl rfl rfl hr hr' hc hc'⟩
  · rcases hE : E with _ | b
    · rw [hE] at he
      cases he
    · rw [hE] at he
      obtain ⟨hr, hr', hc, hc'⟩ := (h.compliance.carries b hE).inShape he
      exact ⟨rfl, .compliance e he rfl rfl rfl hr hr' hc hc'⟩
  · obtain ⟨q, hq, hcase⟩ := mem_placeholderWrites_iff.mp hplace
    have hq : q < D.m := hq
    cases f with
    | standard =>
      rcases hcase with rfl | rfl | rfl
      · exact ⟨rfl, .slack rfl q hq rfl rfl rfl⟩
      · exact ⟨rfl, .complementarity rfl q hq rfl (.inl rfl)⟩
      · exact ⟨rfl, .complementarity rfl q hq rfl (.inr rfl)⟩
    | augmented =>
      obtain rfl := hcase
      exact ⟨rfl, .ratio rfl q hq rfl rfl⟩

/-- The assembly writes inside the system. -/
theorem Blocks.inShape (h : Blocks D G A E)
    (hw : w ∈ (systemFor f D).constantWrites G.entries A.entries (E.map Matrix.entries)) :
    0 ≤ w.row ∧ w.row < (systemFor f D).dim ∧ 0 ≤ w.col ∧ w.col < (systemFor f D).dim := by
  have hoff := n_le_multiplierOffset f D
  have hdim := multiplierOffset_add_eq_dim f D
  cases (h.placed hw).2 with
  | hessian | transposed | jacobian | compliance => omega
  | slack hf | complementarity hf | ratio hf =>
    subst hf
    simp only [System.multiplierOffset, System.dim, systemFor] at hoff hdim ⊢
    omega

/-! ## The assembled values -/

section

variable (h : Blocks D G A E)
include h

theorem Blocks.gives_hessian (hi : i < D.n) (hj : j < D.n) :
    WritesGive ((systemFor f D).constantWrites G.entries A.entries (E.map Matrix.entries)) i j
      (D.G i j) := by
  have hoff := n_le_multiplierOffset f D
  have hgive := h.hessian.gives hi hj
  refine ⟨?_, fun hne => ?_⟩
  · intro w hw hr hc
    cases (h.placed hw).2 with
    | hessian e he hrow hcol hvalue =>
      exact hvalue.trans (hgive.value e he (hrow.symm.trans hr) (hcol.symm.trans hc))
    | transposed | jacobian | compliance | slack | complementarity | ratio => omega
  · obtain ⟨e, he, hr, hc⟩ := hgive.exists_entry hne
    exact ⟨_, mem_constantWrites_iff.mpr (.inl ⟨e, he, rfl⟩), hr, hc⟩

theorem Blocks.gives_transposed (hi : i < D.n) (hk : k < D.m) :
    WritesGive ((systemFor f D).constantWrites G.entries A.entries (E.map Matrix.entries)) i
      ((systemFor f D).multiplierOffset + k) (-D.A k i) := by
  have hoff := n_le_multiplierOffset f D
  have hgive := h.jacobian.gives hk hi
  refine ⟨?_, fun hne => ?_⟩
  · intro w hw hr hc
    cases (h.placed hw).2 with
    | transposed e he hrow hcol hvalue =>
      rw [hvalue, hgive.value e he (by omega) (by omega)]
    | hessian | jacobian | compliance | slack | complementarity | ratio => omega
  · obtain ⟨e, he, hr, hc⟩ := hgive.exists_entry (neg_ne_zero.mp hne)
    exact ⟨_, mem_constantWrites_iff.mpr (.inr (.inl ⟨e, he, rfl⟩)), hc,
      congrArg ((systemFor f D).multiplierOffset + ·) hr⟩

theorem Blocks.gives_jacobian (hk : k < D.m) (hj : j < D.n) :
    WritesGive ((systemFor f D).constantWrites G.entries A.entries (E.map Matrix.entries)) (D.n + k)
      j (D.A k j) := by
  have hoff := n_le_multiplierOffset f D
  have hgive := h.jacobian.gives hk hj
  refine ⟨?_, fun hne => ?_⟩
  · intro w hw hr hc
    cases (h.placed hw).2 with
    | jacobian e he hrow hcol hvalue =>
      exact hvalue.trans (hgive.value e he (by omega) (by omega))
    | hessian | transposed | compliance | slack | complementarity | ratio => omega
  · obtain ⟨e, he, hr, hc⟩ := hgive.exists_entry hne
    exact ⟨_, mem_constantWrites_iff.mpr (.inr (.inr (.inl ⟨e, he, rfl⟩))),
      congrArg ((D.n : Int) + ·) hr, hc⟩

theorem Blocks.gives_vacant (hf : f = .standard) (hi : i < D.n) (hk : k < D.m) :
    WritesGive ((systemFor f D).constantWrites G.entries A.entries (E.map Matrix.entries)) i
      (D.n + k) 0 := by
  have hoff : (systemFor f D).multiplierOffset = D.n + D.m := by subst hf; rfl
  refine ⟨fun w hw hr hc => ?_, fun hne => absurd rfl hne⟩
  cases (h.placed hw).2 with
  | hessian | transposed | jacobian | compliance | slack | complementarity | ratio => omega

theorem Blocks.gives_slack (hf : f = .standard) (hk : k < D.m) (hl : l < D.m) :
    WritesGive ((systemFor f D).constantWrites G.entries A.entries (E.map Matrix.entries)) (D.n + k)
      (D.n + l) (if k = l then -1 else 0) := by
  have hoff : (systemFor f D).multiplierOffset = D.n + D.m := by subst hf; rfl
  refine ⟨?_, fun hne => ?_⟩
  · intro w hw hr hc
    cases (h.placed hw).2 with
    | slack _ q _ hrow hcol hvalue => rw [hvalue, if_pos (by omega)]
    | ratio hf' => exact absurd (hf.symm.trans hf') (by decide)
    | hessian | transposed | jacobian | compliance | complementarity => omega
  · have hkl : k = l := by
      by_contra hkl
      exact hne (if_neg hkl)
    subst hkl hf
    exact ⟨_, mem_constantWrites_iff.mpr (.inr (.inr (.inr (.inr
      (mem_placeholderWrites_iff.mpr ⟨k, hk, .inl rfl⟩))))), rfl, rfl⟩

theorem Blocks.gives_compliance (hf : f = .standard) (hk : k < D.m) (hl : l < D.m) :
    WritesGive ((systemFor f D).constantWrites G.entries A.entries (E.map Matrix.entries)) (D.n + k)
      (D.n + D.m + l) (D.E k l) := by
  have hoff : (systemFor f D).multiplierOffset = D.n + D.m := by subst hf; rfl
  have hgive := h.compliance.gives hk hl
  refine ⟨?_, fun hne => ?_⟩
  · intro w hw hr hc
    cases (h.placed hw).2 with
    | compliance e he hrow hcol hvalue =>
      exact hvalue.trans (hgive.value e he (by omega) (by omega))
    | hessian | transposed | jacobian | slack | complementarity | ratio => omega
  · obtain ⟨e, he, hr, hc⟩ := hgive.exists_entry hne
    refine ⟨_, mem_constantWrites_iff.mpr (.inr (.inr (.inr (.inl ⟨e, he, rfl⟩)))),
      congrArg ((D.n : Int) + ·) hr, ?_⟩
    show (systemFor f D).multiplierOffset + e.col = D.n + D.m + l
    rw [hoff, hc]

/-- An assembly into a cleared matrix leaves the blocks in their places. -/
theorem holds_of_assembly {m : Matrix K} (hm : Cleared f D m) :
    Holds f D (m.writeAll
      ((systemFor f D).constantWrites G.entries A.entries (E.map Matrix.entries))).2.compress.1 := by
  set writes := (systemFor f D).constantWrites G.entries A.entries (E.map Matrix.entries)
  obtain ⟨hsound, hframe⟩ := hm.sound.writeAll writes
  have hin : ∀ w ∈ writes, m.InShape w.row w.col ∧ w.overwrite = true := by
    intro w hw
    rw [Matrix.InShape, hm.rows_eq, hm.cols_eq]
    exact ⟨h.inShape hw, (h.placed hw).1⟩
  have hvalue : ∀ row col v, WritesGive writes row col v →
      (m.writeAll writes).2.compress.1.valueAt row col = v := by
    intro row col v hgive
    rw [hsound.valueAt_compress]
    exact hm.sound.valueAt_writeAll_of_gives hin hgive (hm.valueAt_eq_zero row col)
  refine
    { sound := hsound.compress
      rows_eq := ?_
      cols_eq := ?_
      hessian := fun i j hi hj => hvalue _ _ _ (h.gives_hessian hi hj)
      transposed := fun i k hi hk => hvalue _ _ _ (h.gives_transposed hi hk)
      jacobian := fun k j hk hj => hvalue _ _ _ (h.gives_jacobian hk hj)
      vacant := fun hf i k hi hk => hvalue _ _ _ (h.gives_vacant hf hi hk)
      slack := fun hf k l hk hl => hvalue _ _ _ (h.gives_slack hf hk hl)
      compliance := fun hf k l hk hl => hvalue _ _ _ (h.gives_compliance hf hk hl) }
  · exact (congrArg Nat.cast hframe.rows).trans hm.rows_eq
  · exact (congrArg Nat.cast hframe.cols).trans hm.cols_eq

end

/-! ## Iterates -/

/-- Bringing the system to an iterate writes behind the unknowns only, and in the standard
formulation into the complementarity rows only. -/
theorem mem_iterateAssembly {y lam diagE : Array K}
    (hw : w ∈ ((systemFor f D).iterateAssembly y lam diagE).writes) :
    (D.n : Int) ≤ w.row ∧ (D.n : Int) ≤ w.col ∧
      (f = .standard → (D.n : Int) + D.m ≤ w.row) := by
  cases f with
  | standard =>
    obtain ⟨q, -, hq⟩ := List.mem_flatMap.mp hw
    rcases List.mem_cons.mp hq with rfl | hq
    · exact ⟨by simp only [System.put, systemFor]; omega, by simp only [System.put, systemFor]; omega,
        fun _ => by simp only [System.put, systemFor]; omega⟩
    · split_ifs at hq
      · obtain rfl := List.mem_singleton.mp hq
        exact ⟨by simp only [System.put, systemFor]; omega,
          by simp only [System.put, systemFor]; omega,
          fun _ => by simp only [System.put, systemFor]; omega⟩
      · cases hq
  | augmented =>
    rw [System.iterateAssembly] at hw
    dsimp only [systemFor] at hw
    split at hw
    · cases hw
    · obtain ⟨q, -, rfl⟩ := List.mem_map.mp hw
      exact ⟨by simp only [System.put]; omega, by simp only [System.put]; omega,
        fun hf => by cases hf⟩

/-- Bringing the system to an iterate keeps the constant blocks, also where it is refused. -/
theorem Holds.assemble {kkt : Matrix K} (h : Holds f D kkt) (y lam diagE : Array K) :
    Holds f D (kkt.assemble ((systemFor f D).iterateAssembly y lam diagE)).2 := by
  have hoff := n_le_multiplierOffset f D
  obtain ⟨hsound, hframe⟩ :=
    h.sound.writeAll ((systemFor f D).iterateAssembly y lam diagE).writes
  have hkept : ∀ row col : Int, (row < D.n ∨ col < D.n ∨ f = .standard ∧ row < D.n + D.m) →
      (kkt.assemble ((systemFor f D).iterateAssembly y lam diagE)).2.valueAt row col =
        kkt.valueAt row col := by
    intro row col hplace
    refine h.sound.valueAt_writeAll_of_untouched fun w hw hpos => ?_
    obtain ⟨hr, hc, hstandard⟩ := mem_iterateAssembly hw
    rcases hplace with hlt | hlt | ⟨hf, hlt⟩
    · omega
    · omega
    · have := hstandard hf
      omega
  refine
    { sound := hsound
      rows_eq := (congrArg Nat.cast hframe.rows).trans h.rows_eq
      cols_eq := (congrArg Nat.cast hframe.cols).trans h.cols_eq
      hessian := fun i j hi hj => (hkept _ _ ?_).trans (h.hessian i j hi hj)
      transposed := fun i k hi hk => (hkept _ _ ?_).trans (h.transposed i k hi hk)
      jacobian := fun k j hk hj => (hkept _ _ ?_).trans (h.jacobian k j hk hj)
      vacant := fun hf i k hi hk => (hkept _ _ ?_).trans (h.vacant hf i k hi hk)
      slack := fun hf k l hk hl => (hkept _ _ ?_).trans (h.slack hf k l hk hl)
      compliance := fun hf k l hk hl => (hkept _ _ ?_).trans (h.compliance hf k l hk hl) }
  · exact .inl (by omega)
  · exact .inl (by omega)
  · exact .inr (.inl (by omega))
  · exact .inl (by omega)
  · exact .inr (.inr ⟨hf, by omega⟩)
  · exact .inr (.inr ⟨hf, by omega⟩)

/-! ## Products -/

section

variable {kkt : Matrix K} {v : Array K} (h : Holds f D kkt)
include h

theorem Holds.mulA_eq (hv : v.size = D.n) : ∃ u, (systemFor f D).mulA kkt v = .ok u ∧
    u.size = D.m ∧ ∀ k, k < D.m → coord u k = ∑ j ∈ Finset.range D.n, D.A k j * coord v j := by
  obtain ⟨u, hu, hsize, hcoord⟩ := h.sound.mulBlock_eq D.n 0 D.m hv
  refine ⟨u, ?_, hsize, fun k hk => ?_⟩
  · rw [zero_add] at hu
    exact hu
  · rw [hcoord k hk]
    refine Finset.sum_congr rfl fun j hj => ?_
    rw [zero_add, h.jacobian k j hk (Finset.mem_range.mp hj)]

theorem Holds.mulG_eq (hv : v.size = D.n) : ∃ u, (systemFor f D).mulG kkt v = .ok u ∧
    u.size = D.n ∧ ∀ i, i < D.n → coord u i = ∑ j ∈ Finset.range D.n, D.G i j * coord v j := by
  obtain ⟨u, hu, hsize, hcoord⟩ := h.sound.mulBlock_eq 0 0 D.n hv
  refine ⟨u, ?_, hsize, fun i hi => ?_⟩
  · rw [zero_add] at hu
    exact hu
  · rw [hcoord i hi]
    refine Finset.sum_congr rfl fun j hj => ?_
    rw [zero_add, zero_add, h.hessian i j hi (Finset.mem_range.mp hj)]

theorem Holds.mulNegAT_eq (hv : v.size = D.m) : ∃ u, (systemFor f D).mulNegAT kkt v = .ok u ∧
    u.size = D.n ∧ ∀ i, i < D.n → coord u i = -∑ k ∈ Finset.range D.m, D.A k i * coord v k := by
  obtain ⟨u, hu, hsize, hcoord⟩ :=
    h.sound.mulBlock_eq 0 (systemFor f D).multiplierOffset D.n hv
  refine ⟨u, ?_, hsize, fun i hi => ?_⟩
  · rw [zero_add] at hu
    exact hu
  · rw [hcoord i hi, ← Finset.sum_neg_distrib]
    refine Finset.sum_congr rfl fun k hk => ?_
    rw [zero_add, h.transposed i k hi (Finset.mem_range.mp hk), neg_mul]

end

end CentralPath.Newton
