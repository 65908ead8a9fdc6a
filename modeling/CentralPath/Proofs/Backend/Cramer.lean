/-
  Cramer's rule as a backend. It takes the determinant of the matrix for a factorization and solves by
  quotients of determinants. In exact arithmetic it is ideal (`ideal_cramer`), and what it answers is a
  matter of what the matrix represents (`follows_cramer`).
-/
import CentralPath.Backend.Adapter
import CentralPath.Proofs.Backend.Determined
import CentralPath.Proofs.Backend.Ideal

open CentralPath.Vector (coord)

namespace CentralPath.Backend

open Sparse (Table)

variable {K : Type} [Field K]

/-! ## Determinants -/

/-- Numbers as a matrix of a given shape. -/
def grid (rows cols : Nat) (value : Int → Int → K) : Matrix (Fin rows) (Fin cols) K :=
  .of fun i j => value i j

/-- The components of a vector. -/
def components (n : Nat) (v : Array K) : Fin n → K := fun i => coord v i

theorem components_ofFn {n : Nat} (u : Fin n → K) : components n (Array.ofFn u) = u := by
  funext i
  rw [components, Vector.coord_eq_getElem (by rw [Array.size_ofFn]; exact i.isLt),
    Array.getElem_ofFn]

/-- Vectors of one length with the same components are the same. -/
theorem eq_of_components_eq {n : Nat} {v w : Array K} (hv : v.size = n) (hw : w.size = n)
    (h : components n v = components n w) : v = w :=
  Vector.ext_coord (hv.trans hw.symm) fun i hi => congrFun h ⟨i, hv ▸ hi⟩

variable {m : Sparse.Matrix K} {v rhs : Array K} {rows cols : Nat}

/-- A system in terms of its matrix. -/
theorem solves_iff (hr : m.rows = rows) (hc : m.cols = cols) : m.Solves v rhs ↔
    v.size = cols ∧ rhs.size = rows ∧
      (grid rows cols m.valueAt).mulVec (components cols v) = components rows rhs := by
  subst hr hc
  have hrow : ∀ i : Fin m.rows, (grid m.rows m.cols m.valueAt).mulVec (components m.cols v) i =
      ∑ j ∈ Finset.range m.cols, m.valueAt i j * coord v j := fun i =>
    (Finset.sum_range fun j : Nat => m.valueAt i j * coord v j).symm
  constructor
  · intro h
    refine ⟨h.size, h.size_rhs, funext fun i => ?_⟩
    rw [hrow]
    exact h.row i i.isLt
  · rintro ⟨hsize, hrhs, h⟩
    refine ⟨hsize, hrhs, fun i hi => ?_⟩
    rw [← hrow ⟨i, hi⟩, h]
    rfl

/-- A nonsingular matrix multiplies one to one and onto. -/
theorem bijective_of_nonsingular (h : m.Nonsingular) :
    Function.Bijective (grid m.rows m.cols m.valueAt).mulVec := by
  have hsolves : ∀ u : Fin m.cols → K, m.Solves (Array.ofFn u)
      (Array.ofFn ((grid m.rows m.cols m.valueAt).mulVec u)) := fun u =>
    (solves_iff rfl rfl).mpr ⟨Array.size_ofFn, Array.size_ofFn, by
      rw [components_ofFn, components_ofFn]⟩
  constructor
  · intro u w huw
    have hw := hsolves w
    rw [← huw] at hw
    have heq := (h _ Array.size_ofFn).unique (hsolves u) hw
    rw [← components_ofFn u, heq, components_ofFn]
  · intro b
    obtain ⟨v, hv, -⟩ := h (Array.ofFn b) Array.size_ofFn
    obtain ⟨-, -, hb⟩ := (solves_iff rfl rfl).mp hv
    rw [components_ofFn] at hb
    exact ⟨_, hb⟩

/-- The quotients of determinants. -/
def cramerSolution (n : Nat) (value : Int → Int → K) (rhs : Array K) : Array K :=
  Array.ofFn fun i : Fin n =>
    (grid n n value).cramer (components n rhs) i / (grid n n value).det

/-- They are the solution where the determinant is not zero. -/
theorem solves_cramerSolution (hc : m.cols = m.rows)
    (hdet : (grid m.rows m.rows m.valueAt).det ≠ 0) (hsize : rhs.size = m.rows) :
    m.Solves (cramerSolution m.rows m.valueAt rhs) rhs := by
  refine (solves_iff rfl hc).mpr ⟨Array.size_ofFn, hsize, ?_⟩
  set g := grid m.rows m.rows m.valueAt
  have hscaled : components m.rows (cramerSolution m.rows m.valueAt rhs) =
      g.det⁻¹ • g.cramer (components m.rows rhs) := by
    unfold cramerSolution
    rw [components_ofFn]
    funext i
    rw [Pi.smul_apply, smul_eq_mul, div_eq_inv_mul]
  rw [hscaled, Matrix.mulVec_smul, Matrix.mulVec_cramer, smul_smul, inv_mul_cancel₀ hdet, one_smul]

/-- Nonsingular systems are the square ones with a determinant that is not zero. -/
theorem nonsingular_iff_det :
    m.Nonsingular ↔ m.rows = m.cols ∧ (grid m.rows m.rows m.valueAt).det ≠ 0 := by
  constructor
  · intro h
    have hbijective := bijective_of_nonsingular h
    have hsquare : m.cols = m.rows := by
      have hfinrank := (LinearEquiv.ofBijective (grid m.rows m.cols m.valueAt).mulVecLin
        hbijective).finrank_eq
      rwa [Module.finrank_fin_fun, Module.finrank_fin_fun] at hfinrank
    rw [hsquare] at hbijective
    refine ⟨hsquare.symm, fun hdet => ?_⟩
    obtain ⟨u, hne, hu⟩ := Matrix.exists_mulVec_eq_zero_iff.mpr hdet
    exact hne (hbijective.1 (hu.trans (Matrix.mulVec_zero _).symm))
  · rintro ⟨hsquare, hdet⟩ rhs hsize
    refine ⟨_, solves_cramerSolution hsquare.symm hdet hsize, fun w hw => ?_⟩
    obtain ⟨hwsize, -, hw⟩ := (solves_iff rfl hsquare.symm).mp hw
    obtain ⟨hvsize, -, hv⟩ :=
      (solves_iff rfl hsquare.symm).mp (solves_cramerSolution hsquare.symm hdet hsize)
    refine eq_of_components_eq hwsize hvsize ?_
    have hzero := Matrix.eq_zero_of_mulVec_eq_zero hdet
      (v := components m.rows w - components m.rows (cramerSolution m.rows m.valueAt rhs))
      (by rw [Matrix.mulVec_sub, hw, hv, sub_self])
    exact sub_eq_zero.mp hzero

/-! ## The backend -/

variable [LinearOrder K]

/-- What Cramer's rule answers. -/
def cramerAnswer (rows cols : Nat) (value : Int → Int → K) (rhs : Array K) : Answer K :=
  if rows ≠ cols then ⟨.error .systemUnfit, .error .noSolution⟩
  else if (grid rows rows value).det = 0 then ⟨.ok statusSingular, .error .noSolution⟩
  else if rhs.size ≠ rows then ⟨.error .systemUnfit, .error .noSolution⟩
  else ⟨.ok statusOk, .ok (cramerSolution rows value rhs)⟩

/-- The kernel that solves by Cramer's rule. The factor is the matrix itself. -/
def cramerKernel : Kernel (Sparse.Matrix K) K where
  name := "CramerAdapter"
  factorize
    | .stored m =>
      if m.rows ≠ m.cols then .error .systemUnfit
      else if (grid m.rows m.rows m.valueAt).det = 0 then .ok (.failed statusSingular [])
      else .ok (.factored m)
    | .given _ => .error .systemUnfit
  solve m rhs :=
    if rhs.size ≠ m.rows then .error .systemUnfit
    else .ok (cramerSolution m.rows m.valueAt rhs)

/-- The matrix that can be used for another solution. -/
def cramerFactor (s : Adapter (Sparse.Matrix K) K) : Option (Sparse.Matrix K) :=
  s.factor.filter fun m => decide (m.rows = m.cols ∧ (grid m.rows m.rows m.valueAt).det ≠ 0)

theorem cramerFactor_eq_some_iff {s : Adapter (Sparse.Matrix K) K} : cramerFactor s = some m ↔
    s.factor = some m ∧ m.rows = m.cols ∧ (grid m.rows m.rows m.valueAt).det ≠ 0 := by
  rw [cramerFactor, Option.filter_eq_some_iff, decide_eq_true_eq]

/-- An answer succeeds exactly for a nonsingular system and a right-hand side of its length. -/
theorem status_cramerAnswer_iff :
    (cramerAnswer m.rows m.cols m.valueAt rhs).status = .ok statusOk ↔
      m.Nonsingular ∧ rhs.size = m.rows := by
  rw [nonsingular_iff_det, cramerAnswer]
  split_ifs with hsquare hdet hsize
  · simp [hsquare]
  · simp [hdet, statusSingular, statusOk]
  · simp [hsize]
  · exact ⟨fun _ => ⟨⟨not_not.mp hsquare, hdet⟩, not_not.mp hsize⟩, fun _ => rfl⟩

/-- A success holds the solution. -/
theorem solution_cramerAnswer (h : (cramerAnswer m.rows m.cols m.valueAt rhs).status = .ok statusOk) :
    (cramerAnswer m.rows m.cols m.valueAt rhs).solution =
      .ok (cramerSolution m.rows m.valueAt rhs) := by
  obtain ⟨hns, hsize⟩ := status_cramerAnswer_iff.mp h
  obtain ⟨hsquare, hdet⟩ := nonsingular_iff_det.mp hns
  rw [cramerAnswer, if_neg (not_not.mpr hsquare), if_neg hdet, if_neg (not_not.mpr hsize)]

theorem isFinite_vector (v : Array K) : Vector.isFinite v = true := by
  rw [Vector.isFinite, Array.all_eq_true]
  exact fun i _ => Scalar.isFinite_eq _

theorem factorize_cramer (m : Sparse.Matrix K) (s : Adapter (Sparse.Matrix K) K) :
    s.factorize cramerKernel (.stored m) =
      if m.rows ≠ m.cols then ⟨s, .error .systemUnfit, []⟩
      else if (grid m.rows m.rows m.valueAt).det = 0 then
        ⟨{ s with factor := none }, .ok statusSingular, []⟩
      else ⟨{ s with factor := some m }, .ok statusOk, []⟩ := by
  unfold Adapter.factorize
  dsimp only [cramerKernel]
  split_ifs <;> rfl

theorem solve_cramer (bound : Option (Binding K)) (m : Sparse.Matrix K) (rhs : Array K)
    (solution : Option (Array K)) :
    Adapter.solve cramerKernel ⟨bound, rhs, some m, solution⟩ =
      if rhs.size ≠ m.rows then ⟨⟨bound, rhs, some m, solution⟩, .error .systemUnfit, []⟩
      else ⟨⟨bound, rhs, some m, some (cramerSolution m.rows m.valueAt rhs)⟩, .ok statusOk, []⟩ := by
  unfold Adapter.solve
  dsimp only [cramerKernel]
  split_ifs
  · rfl
  · dsimp only
    rw [if_pos (isFinite_vector _)]

/-- A complete call gives the answer for its matrix, and keeps that as the factor if it succeeds. -/
theorem ask_cramer_complete (ref : MatrixRef) (m : Sparse.Matrix K) (rhs : Array K)
    (s : Adapter (Sparse.Matrix K) K) :
    (cramerKernel.backend.ask ref m rhs .complete s).status =
        (cramerAnswer m.rows m.cols m.valueAt rhs).status ∧
      ((cramerKernel.backend.ask ref m rhs .complete s).status = .ok statusOk →
        cramerFactor (cramerKernel.backend.ask ref m rhs .complete s).state = some m ∧
        cramerKernel.backend.solution (cramerKernel.backend.ask ref m rhs .complete s).state =
          (cramerAnswer m.rows m.cols m.valueAt rhs).solution) := by
  unfold ask cramerAnswer
  dsimp only [Kernel.backend, Adapter.call, Binding.resolve, Job.phases, Adapter.runPhases,
    Adapter.runPhase]
  rw [if_pos rfl, factorize_cramer]
  split_ifs with hsquare hdet hsize
  · exact ⟨rfl, fun h => nomatch h⟩
  · exact ⟨rfl, fun h => nomatch h⟩
  · dsimp only
    rw [if_pos rfl, solve_cramer, if_pos hsize]
    exact ⟨rfl, fun h => nomatch h⟩
  · dsimp only
    rw [if_pos rfl, solve_cramer, if_neg hsize]
    exact ⟨rfl, fun _ => ⟨cramerFactor_eq_some_iff.mpr ⟨rfl, not_not.mp hsquare, hdet⟩, rfl⟩⟩

/-- A call that solves once more gives the answer for the factor. -/
theorem ask_cramer_solve (ref : MatrixRef) (matrix : Sparse.Matrix K) (rhs : Array K)
    {s : Adapter (Sparse.Matrix K) K} (h : cramerFactor s = some m) :
    (cramerKernel.backend.ask ref matrix rhs .solve s).status =
        (cramerAnswer m.rows m.cols m.valueAt rhs).status ∧
      ((cramerKernel.backend.ask ref matrix rhs .solve s).status = .ok statusOk →
        cramerFactor (cramerKernel.backend.ask ref matrix rhs .solve s).state = some m ∧
        cramerKernel.backend.solution (cramerKernel.backend.ask ref matrix rhs .solve s).state =
          (cramerAnswer m.rows m.cols m.valueAt rhs).solution) := by
  obtain ⟨hfactor, hsquare, hdet⟩ := cramerFactor_eq_some_iff.mp h
  rcases s with ⟨bound, old, factor, solution⟩
  obtain rfl : factor = some m := hfactor
  unfold ask cramerAnswer
  dsimp only [Kernel.backend, Adapter.call, Binding.resolve, Job.phases, Adapter.runPhases,
    Adapter.runPhase]
  rw [if_neg (not_not.mpr hsquare), if_neg hdet, solve_cramer]
  split_ifs with hsize
  · exact ⟨rfl, fun h => nomatch h⟩
  · dsimp only
    rw [if_pos rfl]
    exact ⟨rfl, fun _ => ⟨cramerFactor_eq_some_iff.mpr ⟨rfl, hsquare, hdet⟩, rfl⟩⟩

/-- Cramer's rule solves every nonsingular system and no other. -/
theorem ideal_cramer : Ideal (cramerKernel (K := K)).backend cramerFactor where
  complete ref m rhs s := by
    obtain ⟨hstatus, hok⟩ := ask_cramer_complete ref m rhs s
    refine ⟨hstatus ▸ status_cramerAnswer_iff, fun h => ?_⟩
    obtain ⟨hfactor, hsolution⟩ := hok h
    rw [hstatus] at h
    obtain ⟨hns, hsize⟩ := status_cramerAnswer_iff.mp h
    obtain ⟨hsquare, hdet⟩ := nonsingular_iff_det.mp hns
    exact ⟨hfactor, _, hsolution.trans (solution_cramerAnswer h),
      solves_cramerSolution hsquare.symm hdet hsize⟩
  solve ref matrix m rhs s hlast := by
    obtain ⟨hstatus, hok⟩ := ask_cramer_solve ref matrix rhs hlast
    refine ⟨hstatus ▸ status_cramerAnswer_iff, fun h => ?_⟩
    obtain ⟨hfactor, hsolution⟩ := hok h
    rw [hstatus] at h
    obtain ⟨hns, hsize⟩ := status_cramerAnswer_iff.mp h
    obtain ⟨hsquare, hdet⟩ := nonsingular_iff_det.mp hns
    exact ⟨hfactor, _, hsolution.trans (solution_cramerAnswer h),
      solves_cramerSolution hsquare.symm hdet hsize⟩

/-! ## What it depends on -/

/-- The behaviour of Cramer's rule. -/
def cramerBehaviour : Behaviour K := fun _ t rhs => cramerAnswer t.rows t.cols t.value rhs

/-- The table of the matrix that can be used for another solution. -/
def cramerTable (s : Adapter (Sparse.Matrix K) K) : Option (Table K) :=
  ((cramerFactor s).filter fun m => m.verify == 0).map Table.ofMatrix

/-- The answer is a matter of the numbers inside the shape. -/
theorem cramerAnswer_congr {value value' : Int → Int → K}
    (h : ∀ i j : Nat, i < rows → j < rows → value' i j = value i j) (rhs : Array K) :
    cramerAnswer rows rows value' rhs = cramerAnswer rows rows value rhs := by
  have hgrid : grid rows rows value' = grid rows rows value := by
    ext i j
    exact h i j i.isLt j.isLt
  unfold cramerAnswer cramerSolution
  rw [hgrid]

theorem cramerAnswer_ofMatrix (hm : m.Sound) (rhs : Array K) :
    cramerAnswer m.rows m.cols (Table.ofMatrix m).value rhs =
      cramerAnswer m.rows m.cols m.valueAt rhs := by
  by_cases hsquare : m.rows = m.cols
  · rw [← hsquare]
    refine cramerAnswer_congr (fun i j hi hj => hm.value_ofMatrix ?_) rhs
    rw [Sparse.Matrix.InShape, ← hsquare]
    omega
  · rw [cramerAnswer, cramerAnswer, if_pos hsquare, if_pos hsquare]

theorem cramerTable_eq {s : Adapter (Sparse.Matrix K) K} (h : cramerFactor s = some m)
    (hm : m.Sound) : cramerTable s = some (.ofMatrix m) := by
  rw [cramerTable, h, Option.filter_some, Sparse.Matrix.verify_eq_zero_iff.mpr hm]
  rfl

/-- The answers of Cramer's rule depend on what the matrices represent. -/
theorem follows_cramer : Follows (cramerKernel (K := K)).backend cramerBehaviour cramerTable where
  complete ref m rhs s hm := by
    obtain ⟨hstatus, hok⟩ := ask_cramer_complete ref m rhs s
    have hanswer : cramerBehaviour .complete (.ofMatrix m) rhs =
        cramerAnswer m.rows m.cols m.valueAt rhs := cramerAnswer_ofMatrix hm rhs
    rw [hanswer]
    exact ⟨hstatus, fun h => ⟨cramerTable_eq (hok h).1 hm, (hok h).2⟩⟩
  solve ref matrix last rhs s hlast := by
    obtain ⟨m, hm, rfl⟩ := Option.map_eq_some_iff.mp hlast
    obtain ⟨hfactor, hsound⟩ := Option.filter_eq_some_iff.mp hm
    have hsound : m.Sound := Sparse.Matrix.verify_eq_zero_iff.mp (beq_iff_eq.mp hsound)
    obtain ⟨hstatus, hok⟩ := ask_cramer_solve ref matrix rhs hfactor
    have hanswer : cramerBehaviour .solve (.ofMatrix m) rhs =
        cramerAnswer m.rows m.cols m.valueAt rhs := cramerAnswer_ofMatrix hsound rhs
    rw [hanswer]
    exact ⟨hstatus, fun h => ⟨cramerTable_eq (hok h).1 hsound, (hok h).2⟩⟩

end CentralPath.Backend
