/-
  The normal rows of a problem in triplets. Every third row of the constraints and of the bounds, and
  every third row and column of the compliance block, make up a plain problem (`Parts.normal`). It is
  accepted wherever the problem in triplets is (`Parts.Makes.exists_normal`), and hands out what that
  one hands out when its normal rows alone are asked for (`Parts.Makes.normalRows`).
-/
import CentralPath.Proofs.Problem.Thirds

namespace CentralPath

namespace Problem

variable {α : Type} [Scalar α]

/-- The plain problem `p'` hands out what `p` does when `k` normal rows alone are asked for, whether it
is asked for them alone or not. -/
structure NormalRows (p p' : Problem α) (k : Nat) : Prop where
  unknowns : p'.unknowns = p.unknowns
  constraints : p.constraints = 3 * k
  constraints' : p'.constraints = k
  counted : p.activeConstraints true = k
  full : p.activeConstraints false = ((3 * k : Nat) : Int)
  counted' : ∀ normalOnly, p'.activeConstraints normalOnly = k
  hessian : p'.hessianBlock = p.hessianBlock
  jacobian : ∀ normalOnly, p'.jacobianBlock normalOnly = p.jacobianBlock true
  compliance : ∀ normalOnly, p'.complianceBlock normalOnly = p.complianceBlock true
  linear : p'.negLinear = p.negLinear
  bound : ∀ normalOnly, p'.activeNegBound normalOnly = p.activeNegBound true
  substitute : p.substitute = none
  substitute' : p'.substitute = none

namespace Parts

/-- The parts of the plain problem of the normal rows. -/
def normal (q : Parts α) : Parts α where
  G := q.G
  c := q.c
  A := q.A.thirdRows
  b := Vector.thirds q.b
  E := q.E.map fun e => e.thirdRows.thirdCols
  triplets := false

section

variable {K : Type} {q : Parts K} {k : Nat}

theorem rows_of_triplets (ht : q.triplets = true) (hk : q.A.rows = 3 * k) :
    q.rows true = (List.range k).map (3 * ·) := by
  rw [rows, ht, hk]
  exact filter_range_three_mul k

theorem rows_normal_jacobian [Scalar K] (hk : q.A.rows = 3 * k) : q.normal.A.rows = k := by
  show q.A.thirdRows.rows = k
  rw [GivenMatrix.rows_thirdRows]
  omega

theorem rows_normal [Scalar K] (hk : q.A.rows = 3 * k) (normalOnly : Bool) :
    q.normal.rows normalOnly = (List.range k).map id := by
  rw [rows, rows_normal_jacobian hk, List.map_id]
  exact if_neg (by rw [Bool.and_eq_true]; exact fun h => Bool.noConfusion h.2)

end

variable {K : Type} [Field K] [LinearOrder K] {q : Parts K} {p p' : Problem K} {k : Nat}

/-- The block of rows in use, row by row. -/
theorem Fit.jacobianBlock_eq (h : q.Fit p) {normalOnly : Bool} {f : Nat → Nat}
    (hf : q.rows normalOnly = (List.range k).map f) :
    p.jacobianBlock normalOnly = ⟨k, p.unknowns, (List.range k).flatMap fun (i : Nat) =>
      (q.A.storedRow (f i)).map fun e => ⟨i, e.1, e.2⟩⟩ := by
  have hrows : ∀ i < k, f i < q.A.rows := fun i hi =>
    lt_of_mem_rows (hf ▸ List.mem_map_of_mem (List.mem_range.mpr hi))
  unfold Problem.jacobianBlock
  rw [h.activeRows, hf]
  dsimp only
  rw [zipIdx_map_range, List.length_map, List.length_range, List.flatMap_map, h.jacobian]
  refine congrArg (Sparse.Block.mk k p.unknowns) (List.flatMap_congr fun i hi => ?_)
  dsimp only
  rw [GivenMatrix.filter_entries _ (hrows i (List.mem_range.mp hi)), List.map_map]
  rfl

/-- The compliance block, row by row; only columns that are in use stay. -/
theorem Fit.complianceBlock_eq (h : q.Fit p) {normalOnly : Bool} {f : Nat → Nat}
    (hf : q.rows normalOnly = (List.range k).map f) :
    p.complianceBlock normalOnly = ⟨k, k, (List.range k).flatMap fun (i : Nat) =>
      match q.E with
      | none => []
      | some E => (E.storedRow (f i)).filterMap fun e =>
        ((q.rows normalOnly).idxOf? e.1.toNat).map fun (l : Nat) => ⟨i, l, e.2⟩⟩ := by
  have hrows : ∀ i < k, f i < q.A.rows := fun i hi =>
    lt_of_mem_rows (hf ▸ List.mem_map_of_mem (List.mem_range.mpr hi))
  unfold Problem.complianceBlock
  rw [h.activeRows, hf]
  dsimp only
  rw [zipIdx_map_range, List.length_map, List.length_range, List.flatMap_map, h.compliance, ← hf]
  refine congrArg (Sparse.Block.mk k k) (List.flatMap_congr fun i hi => ?_)
  have hi := hrows i (List.mem_range.mp hi)
  rcases hE : q.E with _ | E
  · rfl
  rw [← (h.complianceShape E hE).1] at hi
  dsimp only [Option.map_some, Option.getD_some]
  rw [GivenMatrix.filter_entries _ hi, List.filterMap_map]
  rfl

/-- The bounds of the rows in use. -/
theorem Fit.activeNegBound_eq (h : q.Fit p) {normalOnly : Bool} {f : Nat → Nat}
    (hf : q.rows normalOnly = (List.range k).map f) :
    p.activeNegBound normalOnly =
      ((List.range k).map fun i => (Vector.neg q.b).getD (f i) 0).toArray := by
  rw [Problem.activeNegBound, h.activeRows, hf, h.negBound, List.map_map]
  rfl

/-- Among the rows in triplets, a column has the place that its third has among the normal rows. -/
theorem idxOf?_rows_of_triplets (ht : q.triplets = true) (hk : q.A.rows = 3 * k) {j : Int}
    (hj : 0 ≤ j) (normalOnly : Bool) :
    (q.rows true).idxOf? j.toNat =
      (third? j).bind fun c => (q.normal.rows normalOnly).idxOf? c.toNat := by
  have hplace : ∀ (f : Nat → Nat) (l n : Nat),
      ((List.range k).map f)[l]? = some n ↔ l < k ∧ f l = n := by
    intro f l n
    rw [List.getElem?_map, Option.map_eq_some_iff]
    simp only [List.getElem?_eq_some_iff, List.length_range, List.getElem_range]
    constructor
    · rintro ⟨_, ⟨hl, rfl⟩, hn⟩
      exact ⟨hl, hn⟩
    · rintro ⟨hl, hn⟩
      exact ⟨l, ⟨hl, rfl⟩, hn⟩
  have hnormal : ∀ n l, (q.normal.rows normalOnly).idxOf? n = some l ↔ l < k ∧ l = n := by
    intro n l
    rw [idxOf?_rows_eq_some_iff, rows_normal hk, hplace, id]
  refine Option.ext fun l => ?_
  rw [idxOf?_rows_eq_some_iff, rows_of_triplets ht hk, hplace, Option.bind_eq_some_iff]
  simp only [third?_eq_some_iff, hnormal]
  constructor
  · rintro ⟨hl, hn⟩
    exact ⟨l, by omega, hl, (Int.toNat_natCast l).symm⟩
  · rintro ⟨c, rfl, hl, hc⟩
    exact ⟨hl, by omega⟩

/-- Parts that fit together are accepted. -/
theorem exists_problem? {G A : GivenMatrix K} {E : Option (GivenMatrix K)}
    (hG : Problem.hessianOf q.G = .ok G) (hA : q.A.planar = .ok A)
    (hE : q.E.mapM GivenMatrix.planar = .ok E)
    (hshape : Problem.shapeFault? G A q.c q.b E q.triplets = none) : ∃ p, q.problem? = .ok p := by
  rw [problem?, Problem.create, hG, hA, hE]
  simp only [bind, Except.bind]
  rw [hshape]
  exact ⟨_, rfl⟩

/-- A problem in triplets has three rows for every normal row. -/
theorem Makes.rows_eq (hq : q.Makes p) (ht : q.triplets = true) : ∃ k, q.A.rows = 3 * k := by
  obtain ⟨p₀, hcreate, -⟩ := hq.created
  obtain ⟨G, A, E, -, hA, -, hshape, -⟩ := exists_of_create hcreate
  obtain ⟨-, -, -, -, hthree⟩ := shapeFault?_eq_none_iff.mp hshape
  have hthree := hthree ht
  exact ⟨A.rows / 3, by rw [← (GivenMatrix.planar_eq hA).1]; omega⟩

/-- The parts of the normal rows are accepted where the parts in triplets are. -/
theorem Makes.exists_normal (hq : q.Makes p) (ht : q.triplets = true) :
    ∃ p', q.normal.problem? = .ok p' ∧ q.normal.Makes p' := by
  obtain ⟨k, hk⟩ := hq.rows_eq ht
  have hfit := hq.fit
  obtain ⟨p₀, hcreate, hp⟩ := hq.created
  obtain ⟨G, A, E, hG, -, -, -, rfl⟩ := exists_of_create hcreate
  have hn : G.rows = q.c.size := by
    rw [← hfit.unknowns, hp]
  have hA' : q.normal.A.planar = .ok q.normal.A :=
    (GivenMatrix.planar_thirds (show q.A.rows ≠ 1 by omega)).1
  have hE' : q.normal.E.mapM GivenMatrix.planar = .ok q.normal.E := by
    show (q.E.map fun e => e.thirdRows.thirdCols).mapM GivenMatrix.planar =
      .ok (q.E.map fun e => e.thirdRows.thirdCols)
    rcases hcompliance : q.E with _ | e
    · rfl
    · have hrows := (hfit.complianceShape e hcompliance).1
      rw [Option.map_some, Option.mapM_some,
        (GivenMatrix.planar_thirds (show e.rows ≠ 1 by omega)).2]
      rfl
  have hshape' : Problem.shapeFault? G q.normal.A q.c q.normal.b q.normal.E false = none := by
    have hrows : q.normal.A.rows = k := rows_normal_jacobian hk
    refine shapeFault?_eq_none_iff.mpr ⟨hn.symm, fun hne => ?_, ?_, ?_, fun hf => by cases hf⟩
    · show q.A.thirdRows.cols = G.rows
      rw [GivenMatrix.cols_thirdRows, hn]
      exact hfit.cols (by omega)
    · rw [hrows]
      show (Vector.thirds q.b).size = k
      rw [Vector.size_thirds, hfit.bound]
      omega
    · intro e he
      obtain ⟨g, hg, rfl⟩ := Option.map_eq_some_iff.mp he
      obtain ⟨hgrows, hgcols⟩ := hfit.complianceShape g hg
      rw [GivenMatrix.rows_thirdCols, GivenMatrix.cols_thirdCols, GivenMatrix.rows_thirdRows,
        GivenMatrix.cols_thirdRows, hrows]
      omega
  obtain ⟨p', hp'⟩ := exists_problem? (q := q.normal) hG hA' hE' hshape'
  refine ⟨p', hp', makes_of_problem? (fun e he => ?_) hp'⟩
  obtain ⟨g, hg, rfl⟩ := Option.map_eq_some_iff.mp he
  exact (hq.inShape g hg).thirds

/-- The Hessian does not depend on the rows. -/
theorem Makes.hessianBlock_normal (hq : q.Makes p) (hq' : q.normal.Makes p') :
    p'.hessianBlock = p.hessianBlock := by
  obtain ⟨p₀, hcreate, hp⟩ := hq.created
  obtain ⟨p₀', hcreate', hp'⟩ := hq'.created
  obtain ⟨G, _, _, hG, -, -, -, rfl⟩ := exists_of_create hcreate
  obtain ⟨G', _, _, hG', -, -, -, rfl⟩ := exists_of_create hcreate'
  obtain rfl : G = G' := Except.ok.inj (hG.symm.trans hG')
  rw [hp, hp', Problem.hessianBlock, Problem.hessianBlock]

/-- The compliance between the normal rows is that of the plain problem, entry by entry: of a row
that stays, the entries in the columns that stay, each moved to its place among them. -/
theorem Makes.complianceBlock_normal (hq : q.Makes p) (hk : q.A.rows = 3 * k)
    (ht : q.triplets = true) (hq' : q.normal.Makes p') (normalOnly : Bool) :
    p'.complianceBlock normalOnly = p.complianceBlock true := by
  have hfit := hq.fit
  rw [hfit.complianceBlock_eq (rows_of_triplets ht hk),
    hq'.fit.complianceBlock_eq (rows_normal hk normalOnly)]
  refine congrArg (Sparse.Block.mk k k) (List.flatMap_congr fun i hi => ?_)
  have hi : 3 * i < q.A.rows := by
    have := List.mem_range.mp hi
    omega
  rw [show q.normal.E = q.E.map fun e => e.thirdRows.thirdCols from rfl]
  rcases hE : q.E with _ | E
  · rfl
  obtain ⟨hErows, hEcols⟩ := hfit.complianceShape E hE
  dsimp only [Option.map_some, id]
  rw [GivenMatrix.storedRow_thirdCols (k := k) _ (by rw [GivenMatrix.rows_thirdRows]; omega)
      (by rw [GivenMatrix.cols_thirdRows, hEcols, hk]),
    GivenMatrix.storedRow_thirdRows _ (hErows ▸ hi), List.filterMap_filterMap]
  refine List.filterMap_congr fun e he => ?_
  rw [idxOf?_rows_of_triplets ht hk ((hq.inShape E hE).nonneg_of_mem_storedRow (hErows ▸ hi) he)
    normalOnly, Option.map_bind]
  unfold thirdStored?
  rcases third? e.1 with _ | c <;> rfl

/-- The plain problem of the normal rows hands out what the one in triplets hands out when it is asked
for the normal rows alone. -/
theorem Makes.normalRows (hq : q.Makes p) (hk : q.A.rows = 3 * k) (ht : q.triplets = true)
    (hq' : q.normal.Makes p') : p.NormalRows p' k := by
  have hfit := hq.fit
  have hfit' := hq'.fit
  have hrows := rows_of_triplets ht hk
  have hrows' := rows_normal (K := K) hk
  have hthird : ∀ i < k, 3 * i < q.A.rows := fun i hi => by omega
  have hactive : ∀ normalOnly, p.activeConstraints normalOnly = ((q.rows normalOnly).length : Int) :=
    fun normalOnly => show _ = ((q.data normalOnly true).m : Int) from hfit.activeConstraints
  have hactive' : ∀ normalOnly,
      p'.activeConstraints normalOnly = ((q.normal.rows normalOnly).length : Int) :=
    fun normalOnly => show _ = ((q.normal.data normalOnly true).m : Int) from hfit'.activeConstraints
  refine
    { unknowns := hfit'.unknowns.trans hfit.unknowns.symm
      constraints := hfit.constraints.trans hk
      constraints' := hfit'.constraints.trans (rows_normal_jacobian hk)
      counted := ?_
      full := ?_
      counted' := fun normalOnly => ?_
      hessian := hq.hessianBlock_normal hq'
      jacobian := fun normalOnly => ?_
      compliance := fun normalOnly => hq.complianceBlock_normal hk ht hq' normalOnly
      linear := hfit'.negLinear.trans hfit.negLinear.symm
      bound := fun normalOnly => ?_
      substitute := hfit.substitute
      substitute' := hfit'.substitute }
  · rw [hactive, hrows, List.length_map, List.length_range]
  · rw [hactive]
    show ((List.range q.A.rows).length : Int) = (3 * k : Nat)
    rw [List.length_range, hk]
  · rw [hactive', hrows', List.length_map, List.length_range]
  · rw [hfit.jacobianBlock_eq hrows, hfit'.jacobianBlock_eq (hrows' normalOnly), hfit.unknowns,
      hfit'.unknowns]
    refine congrArg (Sparse.Block.mk k _) (List.flatMap_congr fun i hi => ?_)
    rw [id, ← GivenMatrix.storedRow_thirdRows _ (hthird i (List.mem_range.mp hi))]
    rfl
  · rw [hfit.activeNegBound_eq hrows, hfit'.activeNegBound_eq (hrows' normalOnly)]
    refine congrArg List.toArray (List.map_congr_left fun i hi => ?_)
    have hi := hthird i (List.mem_range.mp hi)
    have hthirds := Vector.getD_thirds (v := q.b) (i := i) (hfit.bound ▸ hi)
    have hneg : ∀ (v : Array K) (j : Nat), (Vector.neg v).getD j 0 = -v.getD j 0 := Vector.coord_neg
    rw [hneg, hneg]
    exact congrArg _ hthirds

end Parts

end Problem

end CentralPath
