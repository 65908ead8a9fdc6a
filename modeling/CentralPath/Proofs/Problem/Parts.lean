/-
  A problem in numbers. `Parts` is what a problem is made from, and `Parts.data` the numbers that
  the optimality conditions are about: the symmetric part of the Hessian, the rows in use of the
  constraints, and the compliance block where it counts. The blocks that a problem hands out carry
  those numbers.
-/
import CentralPath.Proofs.Problem.Given
import CentralPath.Proofs.Vector

open CentralPath.Vector (coord)

namespace CentralPath.Problem

open Sparse (EntriesGive Entry)

/-- What a problem is made from. -/
structure Parts (K : Type) where
  G : GivenMatrix K
  c : Array K
  A : GivenMatrix K
  b : Array K
  E : Option (GivenMatrix K)
  triplets : Bool

/-- The numbers of a problem: minimise `½ xᵀ G x + cᵀ x` subject to `A x + E λ ≥ b`, where `λ` are
the multipliers. -/
structure Data (K : Type) where
  n : Nat
  m : Nat
  G : Nat → Nat → K
  A : Nat → Nat → K
  E : Nat → Nat → K
  c : Nat → K
  b : Nat → K

variable {K : Type}

/-! ## Rows in use -/

namespace Parts

/-- The constraint rows in use: all of them, or every third. -/
def rows (q : Parts K) (normalOnly : Bool) : List Nat :=
  if normalOnly && q.triplets then (List.range q.A.rows).filter (· % 3 == 0)
  else List.range q.A.rows

theorem lt_of_mem_rows {q : Parts K} {normalOnly : Bool} {row : Nat}
    (h : row ∈ q.rows normalOnly) : row < q.A.rows := by
  rw [rows] at h
  split_ifs at h
  · exact List.mem_range.mp (List.mem_of_mem_filter h)
  · exact List.mem_range.mp h

theorem nodup_rows (q : Parts K) (normalOnly : Bool) : (q.rows normalOnly).Nodup := by
  rw [rows]
  split_ifs
  · exact List.nodup_range.filter _
  · exact List.nodup_range

theorem getElem?_rows {q : Parts K} {normalOnly : Bool} {k : Nat}
    (hk : k < (q.rows normalOnly).length) :
    (q.rows normalOnly)[k]? = some ((q.rows normalOnly).getD k 0) := by
  rw [List.getD_eq_getElem _ _ hk, List.getElem?_eq_getElem hk]

theorem getD_rows_lt {q : Parts K} {normalOnly : Bool} {k : Nat}
    (hk : k < (q.rows normalOnly).length) : (q.rows normalOnly).getD k 0 < q.A.rows :=
  lt_of_mem_rows (List.mem_of_getElem? (getElem?_rows hk))

/-- A row in use has one place among the rows in use. -/
theorem idxOf?_rows_eq_some_iff {q : Parts K} {normalOnly : Bool} {row l : Nat} :
    (q.rows normalOnly).idxOf? row = some l ↔ (q.rows normalOnly)[l]? = some row := by
  rw [List.idxOf?_eq_some_iff, List.getElem?_eq_some_iff]
  constructor
  · rintro ⟨hl, hget, -⟩
    exact ⟨hl, hget⟩
  · rintro ⟨hl, hget⟩
    refine ⟨hl, hget, fun j hj hsame => ?_⟩
    have := ((q.nodup_rows normalOnly).getElem_inj_iff).mp (hsame.trans hget.symm)
    omega

end Parts

/-! ## Buffers -/

/-- The linear term is handed out in the length that was asked for. -/
theorem size_linearFor {p : Problem K} {length : Nat} {f : Array K}
    (hf : p.linearFor length = .ok f) : f.size = length := by
  rw [linearFor] at hf
  split_ifs at hf with hlength
  rw [← Except.ok.inj hf, not_not.mp hlength]

theorem size_boundFor [Scalar K] {p : Problem K} {normalOnly : Bool} {length : Nat} {f : Array K}
    (hf : p.boundFor normalOnly length = .ok f) : f.size = length := by
  rw [boundFor] at hf
  split_ifs at hf with hlength
  rw [← Except.ok.inj hf, not_not.mp hlength]

theorem eq_of_linearFor {p : Problem K} {length : Nat} {f : Array K}
    (hf : p.linearFor length = .ok f) : f = p.negLinear := by
  rw [linearFor] at hf
  split_ifs at hf
  exact (Except.ok.inj hf).symm

theorem eq_of_boundFor [Scalar K] {p : Problem K} {normalOnly : Bool} {length : Nat} {f : Array K}
    (hf : p.boundFor normalOnly length = .ok f) : f = p.activeNegBound normalOnly := by
  rw [boundFor] at hf
  split_ifs at hf
  exact (Except.ok.inj hf).symm

variable [Field K]

/-! ## Residuals -/

namespace Data

/-- `A x − y − b + E λ`. -/
def primalResidual (D : Data K) (x y lam : Array K) : Array K :=
  Array.ofFn (n := D.m) fun k =>
    ∑ j ∈ Finset.range D.n, D.A k j * coord x j - coord y k - D.b k +
      ∑ l ∈ Finset.range D.m, D.E k l * coord lam l

/-- `G x − Aᵀ λ + c`. -/
def dualResidual (D : Data K) (x lam : Array K) : Array K :=
  Array.ofFn (n := D.n) fun i =>
    ∑ j ∈ Finset.range D.n, D.G i j * coord x j - ∑ k ∈ Finset.range D.m, D.A k i * coord lam k +
      D.c i

/-- `y · λ / m`. -/
def dualityMeasure (D : Data K) (y lam : Array K) : K :=
  (∑ k ∈ Finset.range D.m, coord y k * coord lam k) / D.m

theorem size_primalResidual (D : Data K) (x y lam : Array K) :
    (D.primalResidual x y lam).size = D.m := Array.size_ofFn

theorem size_dualResidual (D : Data K) (x lam : Array K) :
    (D.dualResidual x lam).size = D.n := Array.size_ofFn

theorem coord_primalResidual (D : Data K) (x y lam : Array K) {k : Nat} (hk : k < D.m) :
    coord (D.primalResidual x y lam) k =
      ∑ j ∈ Finset.range D.n, D.A k j * coord x j - coord y k - D.b k +
        ∑ l ∈ Finset.range D.m, D.E k l * coord lam l :=
  Vector.coord_ofFn (fun k => ∑ j ∈ Finset.range D.n, D.A k j * coord x j - coord y k - D.b k +
    ∑ l ∈ Finset.range D.m, D.E k l * coord lam l) hk

theorem coord_dualResidual (D : Data K) (x lam : Array K) {i : Nat} (hi : i < D.n) :
    coord (D.dualResidual x lam) i =
      ∑ j ∈ Finset.range D.n, D.G i j * coord x j -
        ∑ k ∈ Finset.range D.m, D.A k i * coord lam k + D.c i :=
  Vector.coord_ofFn (fun i => ∑ j ∈ Finset.range D.n, D.G i j * coord x j -
    ∑ k ∈ Finset.range D.m, D.A k i * coord lam k + D.c i) hi

end Data

variable [LinearOrder K]

/-! ## Making a problem -/

/-- The shapes of parts fit together. -/
theorem shapeFault?_eq_none_iff {α : Type} {G A : GivenMatrix α} {c b : Array α}
    {E : Option (GivenMatrix α)} {triplets : Bool} : shapeFault? G A c b E triplets = none ↔
      c.size = G.rows ∧ (A.rows ≠ 0 → A.cols = G.rows) ∧ b.size = A.rows ∧
        (∀ e, E = some e → e.rows = A.rows ∧ e.cols = A.rows) ∧
        (triplets = true → A.rows % 3 = 0) := by
  unfold shapeFault?
  dsimp only
  cases E with
  | none => grind
  | some e => grind

/-- A problem is made from parts whose shapes fit together, none of which is refused by itself. -/
theorem exists_of_create {G A : GivenMatrix K} {c b : Array K} {E : Option (GivenMatrix K)}
    {triplets : Bool} {p : Problem K} (h : create G c A b E triplets = .ok p) :
    ∃ G' A' E', hessianOf G = .ok G' ∧ A.planar = .ok A' ∧ E.mapM GivenMatrix.planar = .ok E' ∧
      shapeFault? G' A' c b E' triplets = none ∧
      p =
        { unknowns := G'.rows
          constraints := A'.rows
          hessian := G'.entries
          jacobian := A'.entries
          compliance := E'.map GivenMatrix.entries
          negLinear := Vector.neg c
          negBound := Vector.neg b
          triplets
          announced := none, substitute := none, x := none, multipliers := none } := by
  rw [create] at h
  rcases hG : hessianOf G with e | G' <;> rw [hG] at h
  · cases h
  rcases hA : A.planar with e | A' <;> rw [hA] at h
  · cases h
  rcases hE : E.mapM GivenMatrix.planar with e | E' <;> rw [hE] at h
  · cases h
  simp only [bind, Except.bind] at h
  split at h
  · cases h
  · rename_i hshape
    exact ⟨G', A', E', rfl, rfl, rfl, hshape, (Except.ok.inj h).symm⟩

/-! ## The numbers of a problem -/

namespace Parts

/-- The numbers of a problem for a solve that asks for the normal rows only or for all, and that
counts compliance or does not. -/
def data (q : Parts K) (normalOnly compliant : Bool) : Data K where
  n := q.c.size
  m := (q.rows normalOnly).length
  G i j := (q.G.table.get i j + q.G.table.get j i) / 2
  A k j := q.A.table.get ((q.rows normalOnly).getD k 0) j
  E k l :=
    match q.E with
    | some e =>
      if compliant then e.table.get ((q.rows normalOnly).getD k 0) ((q.rows normalOnly).getD l 0)
      else 0
    | none => 0
  c := coord q.c
  b k := coord q.b ((q.rows normalOnly).getD k 0)

/-- The bounds of the rows in use, negated. -/
def negBounds (q : Parts K) (normalOnly : Bool) : Array K :=
  ((q.rows normalOnly).map fun i => -coord q.b i).toArray

/-- Compliance that does not count is zero. -/
theorem data_E_eq_zero (q : Parts K) (normalOnly : Bool) (k l : Nat) :
    (q.data normalOnly false).E k l = 0 := by
  unfold data
  dsimp only
  cases q.E <;> rfl

/-- The problem was made from these parts, and was handed solutions since at most. -/
structure Makes (q : Parts K) (p : Problem K) : Prop where
  inShape : ∀ e, q.E = some e → e.InShape
  created : ∃ p₀, Problem.create q.G q.c q.A q.b q.E q.triplets = .ok p₀ ∧
    p = { p₀ with x := p.x, multipliers := p.multipliers }

/-- The problem that is made from these parts. -/
def problem? (q : Parts K) : Except (Fault K) (Problem K) :=
  Problem.create q.G q.c q.A q.b q.E q.triplets

theorem makes_of_problem? {q : Parts K} {p : Problem K} (hshape : ∀ e, q.E = some e → e.InShape)
    (h : q.problem? = .ok p) : q.Makes p := ⟨hshape, p, h, rfl⟩

/-- What the accepted parts of a problem fit together to. -/
structure Fit (q : Parts K) (p : Problem K) : Prop where
  unknowns : p.unknowns = q.c.size
  constraints : p.constraints = q.A.rows
  triplets : p.triplets = q.triplets
  announced : p.announced = none
  substitute : p.substitute = none
  negLinear : p.negLinear = Vector.neg q.c
  negBound : p.negBound = Vector.neg q.b
  hessian : ∀ i j, i < q.c.size → j < q.c.size →
    EntriesGive p.hessian i j ((q.G.table.get i j + q.G.table.get j i) / 2)
  hessianShape : q.G.InShape → ∀ e ∈ p.hessian,
    ∃ i j : Nat, i < q.c.size ∧ j < q.c.size ∧ e.row = i ∧ e.col = j
  jacobian : p.jacobian = q.A.entries
  cols : q.A.rows ≠ 0 → q.A.cols = q.c.size
  bound : q.b.size = q.A.rows
  compliance : p.compliance = q.E.map GivenMatrix.entries
  complianceShape : ∀ e, q.E = some e → e.rows = q.A.rows ∧ e.cols = q.A.rows

/-- Parts that are accepted have fitting shapes. -/
theorem Fit.of_create {q : Parts K} {p : Problem K}
    (h : Problem.create q.G q.c q.A q.b q.E q.triplets = .ok p) : q.Fit p := by
  obtain ⟨G, A, E, hG, hA, hE, hshape, rfl⟩ := exists_of_create h
  obtain ⟨hArows, hAcols, hAentries⟩ := GivenMatrix.planar_eq hA
  obtain ⟨hEentries, hEshape⟩ := GivenMatrix.mapM_planar_eq hE
  obtain ⟨hc, hcols, hb, hsquare, -⟩ := shapeFault?_eq_none_iff.mp hshape
  have hgive := hessianOf_entriesGive hG
  refine
    { unknowns := hc.symm
      constraints := hArows
      triplets := rfl
      announced := rfl
      substitute := rfl
      negLinear := rfl
      negBound := rfl
      hessian := fun i j hi hj => mean_eq (K := K) _ _ ▸ hgive i j (hc ▸ hi) (hc ▸ hj)
      hessianShape := fun hshapeG e he => ?_
      jacobian := hAentries
      cols := fun hne => ?_
      bound := hb.trans hArows
      compliance := hEentries
      complianceShape := fun e he => ?_ }
  · obtain ⟨hinside, hsquare⟩ := hessianOf_inShape hG hshapeG
    obtain ⟨i, j, hi, hj, hrow, hcol⟩ := hinside.of_mem_entries he
    exact ⟨i, j, hc ▸ hi, hc ▸ hsquare ▸ hj, hrow, hcol⟩
  · rw [← hAcols, hc]
    exact hcols fun hzero => hne (hArows.symm.trans hzero)
  · obtain ⟨e', he', hrows, hcols⟩ := hEshape e he
    obtain ⟨hrows', hcols'⟩ := hsquare e' he'
    exact ⟨hrows.symm.trans (hrows'.trans hArows), hcols.symm.trans (hcols'.trans hArows)⟩

theorem Makes.fit {q : Parts K} {p : Problem K} (h : q.Makes p) : q.Fit p := by
  obtain ⟨p₀, hcreate, hp⟩ := h.created
  have hfit := Fit.of_create hcreate
  rw [hp]
  exact ⟨hfit.unknowns, hfit.constraints, hfit.triplets, hfit.announced, hfit.substitute,
    hfit.negLinear, hfit.negBound, hfit.hessian, hfit.hessianShape, hfit.jacobian, hfit.cols, hfit.bound,
    hfit.compliance, hfit.complianceShape⟩

/-! ## The blocks that a problem hands out -/

namespace Fit

variable {q : Parts K} {p : Problem K} {normalOnly compliant : Bool} {i j k l : Nat}

theorem activeRows (h : q.Fit p) : p.activeRows normalOnly = q.rows normalOnly := by
  rw [Problem.activeRows, rows, h.constraints, h.triplets]

theorem activeConstraints (h : q.Fit p) :
    p.activeConstraints normalOnly = ((q.data normalOnly compliant).m : Int) := by
  rw [Problem.activeConstraints, data, h.announced]
  cases normalOnly
  · rw [if_neg Bool.false_ne_true, h.activeRows]
    rfl
  · rw [if_pos rfl, h.activeRows]

theorem hessianBlock_gives (h : q.Fit p) (hi : i < (q.data normalOnly compliant).n)
    (hj : j < (q.data normalOnly compliant).n) :
    EntriesGive p.hessianBlock.entries i j ((q.data normalOnly compliant).G i j) :=
  h.hessian i j hi hj

/-- An entry of the block of rows in use is an entry of its row. -/
theorem mem_jacobianBlock_iff (h : q.Fit p) {e : Entry K} :
    e ∈ (p.jacobianBlock normalOnly).entries ↔
      ∃ (k row : Nat) (f : Entry K), (q.rows normalOnly)[k]? = some row ∧ f ∈ p.jacobian ∧
        f.row = row ∧ e = ⟨k, f.col, f.value⟩ := by
  simp only [Problem.jacobianBlock, h.activeRows, List.mem_flatMap, List.mem_map, List.mem_filter,
    beq_iff_eq]
  constructor
  · rintro ⟨⟨row, k⟩, hk, f, ⟨hf, hrow⟩, rfl⟩
    exact ⟨k, row, f, List.mem_zipIdx_iff_getElem?.mp hk, hf, hrow, rfl⟩
  · rintro ⟨k, row, f, hk, hf, hrow, rfl⟩
    exact ⟨(row, k), List.mem_zipIdx_iff_getElem?.mpr hk, f, ⟨hf, hrow⟩, rfl⟩

theorem jacobianBlock_gives (h : q.Fit p) (hk : k < (q.data normalOnly compliant).m)
    (hj : j < (q.data normalOnly compliant).n) :
    EntriesGive (p.jacobianBlock normalOnly).entries k j ((q.data normalOnly compliant).A k j) := by
  have hk : k < (q.rows normalOnly).length := hk
  have hrow := getD_rows_lt hk
  have hcols := h.cols (by omega)
  have hgive := q.A.entriesGive hrow (show j < q.A.cols from hcols ▸ hj)
  refine ⟨?_, fun hne => ?_⟩
  · intro e he hr hc
    obtain ⟨k', row, f, hk', hf, hfrow, rfl⟩ := h.mem_jacobianBlock_iff.mp he
    have hkk : (k' : Int) = k := hr
    obtain rfl : k' = k := by omega
    obtain rfl := Option.some.inj ((getElem?_rows hk).symm.trans hk')
    exact hgive.value f (h.jacobian ▸ hf) hfrow hc
  · obtain ⟨f, hf, hfrow, hfcol⟩ := hgive.exists_entry hne
    exact ⟨⟨k, f.col, f.value⟩, h.mem_jacobianBlock_iff.mpr
      ⟨k, _, f, getElem?_rows hk, h.jacobian ▸ hf, hfrow, rfl⟩, rfl, hfcol⟩

/-- An entry of the compliance block stands where its row and its column are in use. -/
theorem mem_complianceBlock_iff (h : q.Fit p) {e : Entry K} :
    e ∈ (p.complianceBlock normalOnly).entries ↔
      ∃ (k row l : Nat) (f : Entry K), (q.rows normalOnly)[k]? = some row ∧
        f ∈ p.compliance.getD [] ∧ f.row = row ∧
        (q.rows normalOnly)[l]? = some f.col.toNat ∧ e = ⟨k, l, f.value⟩ := by
  simp only [Problem.complianceBlock, h.activeRows, List.mem_flatMap, List.mem_filterMap,
    List.mem_filter, beq_iff_eq, Option.map_eq_some_iff, idxOf?_rows_eq_some_iff]
  constructor
  · rintro ⟨⟨row, k⟩, hk, f, ⟨hf, hrow⟩, l, hl, rfl⟩
    exact ⟨k, row, l, f, List.mem_zipIdx_iff_getElem?.mp hk, hf, hrow, hl, rfl⟩
  · rintro ⟨k, row, l, f, hk, hf, hrow, hl, rfl⟩
    exact ⟨(row, k), List.mem_zipIdx_iff_getElem?.mpr hk, f, ⟨hf, hrow⟩, l, hl, rfl⟩

theorem complianceBlock_gives (h : q.Fit p) (hshape : ∀ e, q.E = some e → e.InShape)
    (hk : k < (q.data normalOnly true).m) (hl : l < (q.data normalOnly true).m) :
    EntriesGive (p.complianceBlock normalOnly).entries k l ((q.data normalOnly true).E k l) := by
  have hk : k < (q.rows normalOnly).length := hk
  have hl : l < (q.rows normalOnly).length := hl
  have hvalue : (q.data normalOnly true).E k l = match q.E with
      | some e => e.table.get ((q.rows normalOnly).getD k 0) ((q.rows normalOnly).getD l 0)
      | none => 0 := rfl
  rw [hvalue]
  rcases hE : q.E with _ | g
  · refine ⟨fun e he => ?_, fun hne => absurd rfl hne⟩
    obtain ⟨_, _, _, f, -, hf, -⟩ := h.mem_complianceBlock_iff.mp he
    rw [h.compliance, hE] at hf
    cases hf
  · obtain ⟨hrows, hcols⟩ := h.complianceShape g hE
    have hmem : ∀ f, f ∈ p.compliance.getD [] ↔ f ∈ g.entries := by
      intro f
      rw [h.compliance, hE]
      rfl
    have hgive := g.entriesGive (i := (q.rows normalOnly).getD k 0)
      (j := (q.rows normalOnly).getD l 0) (by rw [hrows]; exact getD_rows_lt hk)
      (by rw [hcols]; exact getD_rows_lt hl)
    refine ⟨?_, fun hne => ?_⟩
    · intro e he hr hc
      obtain ⟨k', row, l', f, hk', hf, hfrow, hl', rfl⟩ := h.mem_complianceBlock_iff.mp he
      have hkk : (k' : Int) = k := hr
      have hll : (l' : Int) = l := hc
      obtain rfl : k' = k := by omega
      obtain rfl : l' = l := by omega
      obtain rfl := Option.some.inj ((getElem?_rows hk).symm.trans hk')
      have hcol := Option.some.inj ((getElem?_rows hl).symm.trans hl')
      -- the column of the entry names a place of its own, not one counted from elsewhere
      obtain ⟨_, j, -, -, -, hj⟩ := (hshape g hE).of_mem_entries ((hmem f).mp hf)
      exact hgive.value f ((hmem f).mp hf) hfrow (by omega)
    · obtain ⟨f, hf, hfrow, hfcol⟩ := hgive.exists_entry hne
      refine ⟨⟨k, l, f.value⟩, h.mem_complianceBlock_iff.mpr
        ⟨k, _, l, f, getElem?_rows hk, (hmem f).mpr hf, hfrow, ?_, rfl⟩, rfl, rfl⟩
      rw [getElem?_rows hl, hfcol, Int.toNat_natCast]

/-- Entries of the rows in use stand in their block, if those that were given are in shape. -/
theorem jacobianBlock_inShape (h : q.Fit p) (hA : q.A.InShape) {e : Entry K}
    (he : e ∈ (p.jacobianBlock normalOnly).entries) :
    ∃ k j : Nat, k < (q.rows normalOnly).length ∧ j < q.c.size ∧ e.row = k ∧ e.col = j := by
  obtain ⟨k, row, f, hk, hf, -, rfl⟩ := h.mem_jacobianBlock_iff.mp he
  have hrow := lt_of_mem_rows (List.mem_of_getElem? hk)
  obtain ⟨_, j, -, hj, -, hcol⟩ := hA.of_mem_entries (h.jacobian ▸ hf)
  exact ⟨k, j, (List.getElem?_eq_some_iff.mp hk).1, h.cols (by omega) ▸ hj, rfl, hcol⟩

/-- Entries of the compliance block always stand in it. -/
theorem complianceBlock_inShape (h : q.Fit p) {e : Entry K}
    (he : e ∈ (p.complianceBlock normalOnly).entries) :
    ∃ k l : Nat, k < (q.rows normalOnly).length ∧ l < (q.rows normalOnly).length ∧ e.row = k ∧
      e.col = l := by
  obtain ⟨k, _, l, _, hk, -, -, hl, rfl⟩ := h.mem_complianceBlock_iff.mp he
  exact ⟨k, l, (List.getElem?_eq_some_iff.mp hk).1, (List.getElem?_eq_some_iff.mp hl).1, rfl, rfl⟩

/-- The linear term is handed out for as many numbers as there are unknowns. -/
theorem linearFor_eq (h : q.Fit p) :
    p.linearFor (q.data normalOnly compliant).n = .ok (Vector.neg q.c) := by
  rw [Problem.linearFor, h.negLinear]
  exact if_neg (not_not.mpr (Vector.size_neg q.c).symm)

theorem exists_linearFor (h : q.Fit p) :
    ∃ f, p.linearFor (q.data normalOnly compliant).n = .ok f := ⟨_, h.linearFor_eq⟩

/-- The bounds are handed out for as many numbers as there are rows in use. -/
theorem boundFor_eq (h : q.Fit p) :
    p.boundFor normalOnly (q.data normalOnly compliant).m = .ok (q.negBounds normalOnly) := by
  have hbound : p.activeNegBound normalOnly = q.negBounds normalOnly := by
    rw [activeNegBound, negBounds, h.activeRows, h.negBound]
    exact congrArg List.toArray (List.map_congr_left fun i _ => Vector.coord_neg q.b i)
  have hsize : (q.negBounds normalOnly).size = (q.data normalOnly compliant).m :=
    (List.size_toArray ..).trans (List.length_map ..)
  rw [boundFor, hbound]
  exact if_neg (not_not.mpr hsize.symm)

theorem exists_boundFor (h : q.Fit p) :
    ∃ f, p.boundFor normalOnly (q.data normalOnly compliant).m = .ok f := ⟨_, h.boundFor_eq⟩

theorem coord_linear (h : q.Fit p) {length : Nat} {f : Array K} (hf : p.linearFor length = .ok f)
    (i : Nat) : coord (Vector.neg f) i = (q.data normalOnly compliant).c i := by
  rw [eq_of_linearFor hf, h.negLinear, Vector.coord_neg, Vector.coord_neg, neg_neg]
  rfl

theorem coord_bound (h : q.Fit p) {length : Nat} {f : Array K}
    (hf : p.boundFor normalOnly length = .ok f) (hk : k < (q.data normalOnly compliant).m) :
    coord (Vector.neg f) k = (q.data normalOnly compliant).b k := by
  obtain rfl := eq_of_boundFor hf
  have hk : k < (q.rows normalOnly).length := hk
  have hget : coord (p.activeNegBound normalOnly) k =
      coord p.negBound ((q.rows normalOnly).getD k 0) := by
    rw [coord, activeNegBound, h.activeRows, Array.getD_eq_getD_getElem?, List.getElem?_toArray,
      List.getElem?_map, getElem?_rows hk]
    rfl
  rw [Vector.coord_neg, hget, h.negBound, Vector.coord_neg, neg_neg]
  rfl

end Fit

end Parts

/-! ## Solutions -/

section

variable {α : Type} [Scalar α] {p : Problem α}

/-- A solution that is taken has a component for every unknown and every constraint. -/
theorem size_of_receive {v : Array α} {received : Problem α} (h : p.receive v = .ok received) :
    v.size = p.unknowns + p.constraints := by
  unfold receive at h
  dsimp only at h
  split_ifs at h with hsize
  exact not_not.mp hsize

/-- Unknowns and negated multipliers are told apart. -/
theorem receive_append {head tail : Array α} (hhead : head.size = p.unknowns)
    (htail : tail.size = p.constraints) :
    p.receive (head ++ tail) =
      .ok { p with x := some head, multipliers := some (Vector.neg tail) } := by
  have hsize : (head ++ tail).size = p.unknowns + p.constraints := by
    rw [Array.size_append, hhead, htail]
  have hleft : (head ++ tail).extract 0 p.unknowns = head := by
    rw [← hhead, Array.extract_append_left, Array.extract_size]
  have hright : (head ++ tail).extract p.unknowns (head ++ tail).size = tail := by
    rw [Array.extract_append, ← hhead]
    simp
  unfold receive
  dsimp only
  rw [if_neg (not_not.mpr hsize), hleft, hright]

end

end CentralPath.Problem
