/-
  Directions from assembled systems. Both formulations are assembled from the same blocks, each into
  its own matrix, and brought to the same iterate. Then one matrix is singular if and only if the other
  is, and for any residuals and any aim a direction solves the one system if and only if it solves the
  other and has the `Δy` that is read off there (`assembled_directions`).
-/
import CentralPath.Proofs.Newton.Elimination

open CentralPath.Vector (coord)

namespace CentralPath.Newton

open Problem (Data)
open Sparse (Matrix)

variable {K : Type} [Field K] {n m : Nat} {G A : Matrix K} {E : Option (Matrix K)}
  {diagE y lam rp rd : Array K} {f : Formulation}

/-- Sound blocks of the shapes that `n` unknowns and `m` constraints ask for, and the diagonal of
`E`. -/
structure FitTogether (n m : Nat) (G A : Matrix K) (E : Option (Matrix K)) (diagE : Array K) :
    Prop where
  hessian : G.verify = 0 ∧ G.rows = n ∧ G.cols = n
  jacobian : A.verify = 0 ∧ A.rows = m ∧ A.cols = n
  compliance : ∀ e, E = some e → e.verify = 0 ∧ e.rows = m ∧ e.cols = m
  diagonal : IsDiagonal (blockData n m G A E) diagE

/-- A sound matrix of the dimension of the system that reads as zero, whatever slots it has. -/
structure System.Blank (s : System) (target : Matrix K) : Prop where
  verify : target.verify = 0
  rows : (target.rows : Int) = s.dim
  cols : (target.cols : Int) = s.dim
  zero : ∀ row col, target.InShape row col → target.get row col = .ok 0

theorem FitTogether.blocks (h : FitTogether n m G A E diagE) :
    Blocks (blockData n m G A E) G A E := by
  refine blocks_blockData ?_ ?_ fun e he => ?_
  · exact ⟨Matrix.verify_eq_zero_iff.mp h.hessian.1, h.hessian.2⟩
  · exact ⟨Matrix.verify_eq_zero_iff.mp h.jacobian.1, h.jacobian.2⟩
  · exact ⟨Matrix.verify_eq_zero_iff.mp (h.compliance e he).1, (h.compliance e he).2⟩

theorem System.Blank.cleared {D : Data K} {target : Matrix K} (h : (systemFor f D).Blank target) :
    Cleared f D target := by
  have hsound := Matrix.verify_eq_zero_iff.mp h.verify
  refine ⟨hsound, h.rows, h.cols, fun row col => ?_⟩
  by_cases hin : target.InShape row col
  · have := h.zero row col hin
    rw [hsound.get_eq hin] at this
    exact Except.ok.inj this
  · exact Matrix.valueAt_of_not_inShape hin

variable [LinearOrder K]

/-- An empty matrix of the dimension of the system reads as zero. -/
theorem System.blank_empty {s : System} {k : Nat} (hk : s.dim = k) (hint : Int) :
    s.Blank (Matrix.empty k k .byRows hint : Matrix K) := by
  have hsound : (Matrix.empty k k .byRows hint : Matrix K).Sound :=
    Matrix.sound_withFreshBuffers _ hint
  refine ⟨Matrix.verify_eq_zero_iff.mpr hsound, hk.symm, hk.symm, fun row col hin => ?_⟩
  rw [hsound.get_eq hin]
  exact congrArg Except.ok (Matrix.valueAt_withFreshBuffers _ hint row col)

/-- The blocks assembled into a matrix, compressed, and brought to the iterate `(y, λ)`. -/
def System.assembledAt (s : System) (target G A : Matrix K) (E : Option (Matrix K))
    (diagE y lam : Array K) : Matrix K :=
  ((target.writeAll (s.constantWrites G.entries A.entries
    (E.map Matrix.entries))).2.compress.1.assemble (s.iterateAssembly y lam diagE)).2

/-- The assembled matrix is at its iterate. -/
theorem FitTogether.atIterate (h : FitTogether n m G A E diagE) {target : Matrix K}
    (htarget : (System.mk f n m).Blank target) (hy : y.size = m) (hl : lam.size = m) :
    AtIterate f (blockData n m G A E) y lam
      ((System.mk f n m).assembledAt target G A E diagE y lam) := by
  have hcleared := System.Blank.cleared (D := blockData n m G A E) htarget
  obtain ⟨-, -, hat⟩ := (h.blocks.prepared hcleared).assemble h.diagonal hy hl
  exact hat

/-- Matrices of the standard and of the augmented system for `n` unknowns and `m` constraints that
lead to the same directions: one is singular if and only if the other is, and a direction solves the
standard system if and only if it solves the augmented one and has the `Δy` that is read off there.
Either way it is the direction that is read off. -/
structure SameDirections (n m : Nat) (kkt kkt' : Matrix K) (E : Option (Matrix K))
    (rp rd y lam : Array K) (aim : System.Aim K) : Prop where
  nonsingular : kkt.Nonsingular ↔ kkt'.Nonsingular
  solves : ∃ rhs rhs', (System.mk .standard n m).rightHandSide rp rd y lam aim = .ok rhs ∧
    (System.mk .augmented n m).rightHandSide rp rd y lam aim = .ok rhs' ∧
    ∀ dx dy dlam : Array K, dx.size = n → dy.size = m → dlam.size = m →
      (kkt.Solves (dx ++ (dy ++ dlam)) rhs ↔ kkt'.Solves (dx ++ dlam) rhs' ∧
        (System.mk .augmented n m).direction (dx ++ dlam) kkt' rp E = .ok ⟨dx, dy, dlam⟩) ∧
      (System.mk .standard n m).direction (dx ++ (dy ++ dlam)) kkt rp E = .ok ⟨dx, dy, dlam⟩

/-- The assembled systems of both formulations have the same directions. -/
theorem assembled_directions {target target' : Matrix K} (h : FitTogether n m G A E diagE)
    (htarget : (System.mk .standard n m).Blank target)
    (htarget' : (System.mk .augmented n m).Blank target') (hy : y.size = m) (hl : lam.size = m)
    (hne : ∀ a ∈ lam, a ≠ 0) (hrp : rp.size = m) (hrd : rd.size = n) {aim : System.Aim K}
    (ha : aim.Fits m) :
    SameDirections n m ((System.mk .standard n m).assembledAt target G A E diagE y lam)
      ((System.mk .augmented n m).assembledAt target' G A E diagE y lam) E rp rd y lam aim := by
  set D := blockData n m G A E
  have hat : AtIterate .standard D y lam
      ((System.mk .standard n m).assembledAt target G A E diagE y lam) := h.atIterate htarget hy hl
  have hat' : AtIterate .augmented D y lam
      ((System.mk .augmented n m).assembledAt target' G A E diagE y lam) :=
    h.atIterate htarget' hy hl
  have hcoord : ∀ k, k < D.m → coord lam k ≠ 0 := by
    intro k hk
    have hk : k < lam.size := hl.symm ▸ hk
    rw [Vector.coord_eq_getElem hk]
    exact hne _ (Array.getElem_mem hk)
  refine ⟨(hat.nonsingular_iff hy hl hcoord).trans (hat'.nonsingular_iff hy hl hcoord).symm, ?_⟩
  obtain ⟨rhs, hrhs, -⟩ := exists_rightHandSide (D := D) hrp hrd hy hl hcoord .standard ha
  obtain ⟨rhs', hrhs', -⟩ := exists_rightHandSide (D := D) hrp hrd hy hl hcoord .augmented ha
  refine ⟨rhs, rhs', hrhs, hrhs', fun dx dy dlam hdx hdy hdl => ?_⟩
  have hd : (System.Direction.mk dx dy dlam).Sized D.n D.m := ⟨hdx, hdy, hdl⟩
  exact ⟨hat.solves_iff hat' h.blocks.compliance hd hrp hrd hy hl hcoord ha hrhs hrhs',
    direction_unknowns_standard hd E⟩

theorem verify_single (v : ℚ) : (single v).verify = 0 ∧ (single v).rows = 1 ∧ (single v).cols = 1 := by
  have hsound : (Matrix.empty 1 1 .byRows 1 : Matrix ℚ).Sound := Matrix.sound_withFreshBuffers _ 1
  have hframe := hsound.sameFrame_set 0 0 v true
  exact ⟨Matrix.verify_eq_zero_iff.mpr (hsound.set 0 0 v true), hframe.rows, hframe.cols⟩

/-- The blocks of one unknown with one compliant constraint. -/
theorem fitTogether_single : FitTogether 1 1 (single 2) (single 3) (some (single 5)) #[5] where
  hessian := verify_single 2
  jacobian := verify_single 3
  compliance := by
    rintro e ⟨⟩
    exact verify_single 5
  diagonal := by
    refine ⟨rfl, fun k hk => ?_⟩
    obtain rfl : k = 0 := Nat.lt_one_iff.mp hk
    decide +kernel

end CentralPath.Newton
