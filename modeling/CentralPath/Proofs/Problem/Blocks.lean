/-
  The blocks of a problem. There are three of them (`Which`); their entries stand in their shapes and
  give the numbers of the problem, so that a matrix that a block is stored in holds those numbers,
  whatever it held before (`Makes.carries_block`). A pattern that a block went to has recorded the
  positions of its entries, and a locked matrix that loads the pattern owns those and no others: its
  reset keeps them, and the block is stored in place (`inPlace_loadBlock`).
-/
import CentralPath.Proofs.Problem.Parts
import CentralPath.Proofs.Sparse.Learning

namespace CentralPath

open Sparse (Block EntriesGive Matrix WritesFit)

/-! ## Learned blocks -/

namespace Sparse

variable {α : Type} {b : Block α}

/-- The writes of a block that nothing refuses fit its shape. -/
theorem Block.writesFit_of_fault? (h : b.fault? = none) : WritesFit b.rows b.cols b.writes := by
  intro w hw
  obtain ⟨e, he, rfl⟩ := List.mem_map.mp hw
  have := List.findSome?_eq_none_iff.mp h e he
  split_ifs at this with hin
  exact hin

/-- A block is recorded whatever the pattern held before. -/
theorem Pattern.records_loadBlock (p : Pattern) (h : b.fault? = none) :
    (p.loadBlock b).1 = none ∧ (p.loadBlock b).2.orientation = p.orientation ∧
      (p.loadBlock b).2.rows = b.rows ∧ (p.loadBlock b).2.cols = b.cols ∧
      (p.loadBlock b).2.Records b.writes := by
  have hwrites : Lesson.writes (b.writes.map .write) = b.writes := by
    rw [Lesson.writes, List.filterMap_map]
    exact List.filterMap_some
  have hempty : p.loadBlock b = (empty b.rows b.cols p.orientation).learn (b.writes.map .write) := by
    rw [learn_map_write, Pattern.loadBlock, reset, create, if_neg (by omega)]
    rfl
  have hfit : WritesFit b.rows b.cols (Lesson.writes (b.writes.map .write)) := by
    rw [hwrites]
    exact Block.writesFit_of_fault? h
  have hlearn := learn_empty p.orientation hfit
  rw [hwrites, ← hempty] at hlearn
  exact hlearn

namespace Matrix

variable [Scalar α] {m loaded : Matrix α} {p : Pattern}

/-- A locked matrix that has loaded the positions of a block takes the block in place. -/
theorem inPlace_loadBlock (hp : p.Records b.writes) (hrows : p.rows = b.rows)
    (hcols : p.cols = b.cols) (hlock : m.locked = true) (hload : m.loadPattern p = .ok loaded)
    (hint : Int) : loaded.InPlace (loaded.loadBlock b hint).2 := by
  have hsound := sound_loadPattern hp.inRange hload
  obtain ⟨hr, hc, hlocked, hbroken, hcompressed⟩ : loaded.rows = b.rows ∧ loaded.cols = b.cols ∧
      loaded.locked = true ∧ loaded.lockBroken = false ∧ loaded.compressed = false := by
    obtain ⟨-, rfl⟩ := loadPattern_eq hload
    exact ⟨hrows, hcols, hlock, rfl, rfl⟩
  have hreset : loaded.reset b.rows b.cols hint =
      .ok { loaded with slots := loaded.slots.map Slot.cleared, compressed := false } := by
    rw [← hr, ← hc]
    exact reset_of_locked hlocked hbroken hint
  have hcleared := revalued_cleared loaded
  have htop := hcleared.sameTopology
  have hplace := (hcleared.sound hsound).inPlace_writeAll fun w hw =>
    (htop.owns_iff hcleared.frame.locateWindow?_eq).mpr
      ((owns_loadPattern_iff hp hload w.row w.col).mpr ⟨w, hw, rfl, rfl⟩)
  rw [loadBlock, hreset]
  exact InPlace.trans ⟨htop, rfl, rfl, hcompressed.symm⟩ hplace

end Matrix

end Sparse

/-! ## The blocks of a problem -/

namespace Problem

/-- The blocks that a problem hands out. -/
inductive Which where
  | hessian
  | jacobian
  | compliance
  deriving DecidableEq

variable {α K : Type}

/-- A block that a problem hands out. -/
def block [Scalar α] (p : Problem α) (normalOnly : Bool) : Which → Block α
  | .hessian => p.hessianBlock
  | .jacobian => p.jacobianBlock normalOnly
  | .compliance => p.complianceBlock normalOnly

namespace Data

/-- Number of rows of a block. -/
def rows (D : Data K) : Which → Nat
  | .hessian => D.n
  | .jacobian => D.m
  | .compliance => D.m

/-- Number of columns of a block. -/
def cols (D : Data K) : Which → Nat
  | .hessian => D.n
  | .jacobian => D.n
  | .compliance => D.m

/-- The numbers of a block. -/
def value (D : Data K) : Which → Nat → Nat → K
  | .hessian => D.G
  | .jacobian => D.A
  | .compliance => D.E

end Data

namespace Parts

variable [Field K] [LinearOrder K] {q : Parts K} {p : Problem K} {normalOnly : Bool}

namespace Fit

theorem shape_block (h : q.Fit p) (normalOnly : Bool) (i : Which) :
    (p.block normalOnly i).rows = (q.data normalOnly true).rows i ∧
      (p.block normalOnly i).cols = (q.data normalOnly true).cols i := by
  have hrows : (p.activeRows normalOnly).length = (q.data normalOnly true).m :=
    congrArg List.length h.activeRows
  cases i with
  | hessian => exact ⟨h.unknowns, h.unknowns⟩
  | jacobian => exact ⟨hrows, h.unknowns⟩
  | compliance => exact ⟨hrows, hrows⟩

/-- Nothing refuses the blocks of matrices whose entries are in shape. -/
theorem fault?_block (h : q.Fit p) (hG : q.G.InShape) (hA : q.A.InShape) (normalOnly : Bool)
    (i : Which) :
    (p.block normalOnly i).fault? = none := by
  obtain ⟨hrows, hcols⟩ := h.shape_block normalOnly i
  refine Block.fault?_eq_none fun e he => ?_
  rw [hrows, hcols]
  cases i with
  | hessian => exact h.hessianShape hG e he
  | jacobian => exact h.jacobianBlock_inShape hA he
  | compliance => exact h.complianceBlock_inShape he

/-- The entries of the blocks give the numbers of the problem. -/
theorem block_gives (h : q.Fit p) (hE : ∀ e, q.E = some e → e.InShape) (i : Which) {k l : Nat}
    (hk : k < (q.data normalOnly true).rows i) (hl : l < (q.data normalOnly true).cols i) :
    EntriesGive (p.block normalOnly i).entries k l ((q.data normalOnly true).value i k l) := by
  cases i with
  | hessian => exact h.hessianBlock_gives hk hl
  | jacobian => exact h.jacobianBlock_gives hk hl
  | compliance => exact h.complianceBlock_gives hE hk hl

end Fit

namespace Makes

variable (hq : q.Makes p) (hG : q.G.InShape) (hA : q.A.InShape)
include hq hG hA

/-- Whatever a matrix held before, it holds the numbers of a block once that is stored in it. -/
theorem carries_block {m : Matrix K} (hm : m.Sound) (i : Which) (hint : Int) :
    (m.loadBlock (p.block normalOnly i) hint).1 = none ∧
      (m.loadBlock (p.block normalOnly i) hint).2.Carries ((q.data normalOnly true).rows i)
        ((q.data normalOnly true).cols i) ((q.data normalOnly true).value i) := by
  have hfit := hq.fit
  have hfault : (m.loadBlock (p.block normalOnly i) hint).1 = none :=
    (hm.fault_loadBlock _ hint).trans (hfit.fault?_block hG hA normalOnly i)
  obtain ⟨hrows, hcols⟩ := hfit.shape_block normalOnly i
  refine ⟨hfault, hrows ▸ hcols ▸ hm.carries_loadBlock hfault fun k l hk hl => ?_⟩
  exact hfit.block_gives hq.inShape i (hrows ▸ hk) (hcols ▸ hl)

end Makes

end Parts

end Problem

end CentralPath
