/-
  What an assembly writes into: a matrix, or a pattern that records the positions only. Both take
  the same blocks and the same writes.
-/
import CentralPath.Sparse.Access
import CentralPath.Sparse.Pattern

namespace CentralPath.Sparse

/-- Records the positions of writes in order up to the first that is refused. -/
def Pattern.writeAll {α : Type} (p : Pattern) : List (Write α) → Option (Fault α) × Pattern
  | [] => (none, p)
  | w :: ws =>
    match p.record w.row w.col with
    | .ok next => next.writeAll ws
    | .error e => (some e, p)

/-- What a caller does to fill a matrix: writes in order, and what stops it behind them. -/
structure Assembly (α : Type) where
  writes : List (Write α)
  stop : Option (Fault α)

namespace Assembly

variable {α : Type}

/-- An assembly that runs to its end. -/
def ofWrites (writes : List (Write α)) : Assembly α := ⟨writes, none⟩

/-- An assembly that stops before its first write. -/
def refused (e : Fault α) : Assembly α := ⟨[], some e⟩

end Assembly

/-- Runs an assembly on a matrix. -/
def Matrix.assemble {α : Type} [Scalar α] (m : Matrix α) (a : Assembly α) :
    Option (Fault α) × Matrix α :=
  let (fault, written) := m.writeAll a.writes
  (fault.or a.stop, written)

/-- Runs an assembly on a pattern. -/
def Pattern.assemble {α : Type} (p : Pattern) (a : Assembly α) : Option (Fault α) × Pattern :=
  let (fault, recorded) := p.writeAll a.writes
  (fault.or a.stop, recorded)

/-- A block to be stored: its shape and its entries. -/
structure Block (α : Type) where
  rows : Nat
  cols : Nat
  entries : List (Entry α)

namespace Block

variable {α : Type}

/-- The writes that store the block. -/
def writes (b : Block α) : List (Write α) :=
  b.entries.map fun e => ⟨e.row, e.col, e.value, true⟩

end Block

/-- Resets a matrix to the shape of a block, with room for its entries, and stores them. -/
def Matrix.loadBlock {α : Type} [Scalar α] (m : Matrix α) (b : Block α) (hint : Int) :
    Option (Fault α) × Matrix α :=
  match m.reset b.rows b.cols hint with
  | .ok fresh => fresh.writeAll b.writes
  | .error e => (some e, m)

/-- Resets a pattern to the shape of a block and records its positions. -/
def Pattern.loadBlock {α : Type} (p : Pattern) (b : Block α) : Option (Fault α) × Pattern :=
  match p.reset (α := α) b.rows b.cols with
  | .ok fresh => fresh.writeAll b.writes
  | .error e => (some e, p)

/-- A matrix or a pattern. -/
inductive Target (α : Type) where
  | matrix (m : Matrix α)
  | pattern (p : Pattern)

namespace Target

variable {α : Type} [Scalar α]

/-- Runs an assembly. -/
def assemble (t : Target α) (a : Assembly α) : Option (Fault α) × Target α :=
  match t with
  | matrix m => let (e, m) := m.assemble a; (e, .matrix m)
  | pattern p => let (e, p) := p.assemble a; (e, .pattern p)

/-- Resets to the shape of a block and stores it. -/
def loadBlock (t : Target α) (b : Block α) (hint : Int) : Option (Fault α) × Target α :=
  match t with
  | matrix m => let (e, m) := m.loadBlock b hint; (e, .matrix m)
  | pattern p => let (e, p) := p.loadBlock b; (e, .pattern p)

end Target

end CentralPath.Sparse
