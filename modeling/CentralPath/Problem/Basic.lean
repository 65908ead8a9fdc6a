/-
  A contact problem: minimise `½ xᵀ G x + cᵀ x` subject to `A x ≥ b`, with an optional compliance
  block `E` that relaxes the constraints. The Hessian is symmetrised when the problem is made, and
  the linear term and the bounds are kept with their signs flipped. Constraint rows may come in
  triplets of one normal and two tangential rows, of which the normal ones can be asked for alone.
-/
import CentralPath.Fault.Message
import CentralPath.Problem.Given
import CentralPath.Problem.Target

namespace CentralPath

open Sparse (Entry Block Dense)

/-- A contact problem and the solution it was handed last. -/
structure Problem (α : Type) where
  unknowns : Nat
  constraints : Nat
  /-- Entries of the symmetric part of `G`. -/
  hessian : List (Entry α)
  /-- Entries of `A`. -/
  jacobian : List (Entry α)
  /-- Entries of `E`, if there is one. -/
  compliance : Option (List (Entry α))
  /-- `-c`. -/
  negLinear : Array α
  /-- `-b`. -/
  negBound : Array α
  triplets : Bool
  /-- The number of constraints that the problem announces, where it is not its own. -/
  announced : Option Int
  /-- A table that is handed out in place of the compliance block, where there is one. -/
  substitute : Option (Dense α)
  x : Option (Array α)
  multipliers : Option (Array α)

namespace Problem

variable {α : Type} [Scalar α]

/-- The first shape that does not fit, in the order in which they are looked at. -/
def shapeFault? (G A : GivenMatrix α) (c b : Array α) (E : Option (GivenMatrix α))
    (triplets : Bool) : Option (Fault α) :=
  let n := G.rows
  let m := A.rows
  if c.size ≠ n then some (.linearTermUnfit c.size n)
  else if m ≠ 0 ∧ A.cols ≠ n then some (.constraintColumnsUnfit A.cols n)
  else if b.size ≠ m then some (.boundUnfit b.size m)
  else
    match E with
    | some e =>
      if e.rows ≠ m ∨ e.cols ≠ m then some (.complianceUnfit m e.rows e.cols)
      else if triplets ∧ m % 3 ≠ 0 then some (.tripletsIncomplete m)
      else none
    | none => if triplets ∧ m % 3 ≠ 0 then some (.tripletsIncomplete m) else none

/-- The symmetric part of a Hessian: its first two axes have to agree, and it has no more of
them. -/
def hessianOf (G : GivenMatrix α) : Except (Fault α) (GivenMatrix α) :=
  match G.shape with
  | rows :: cols :: _ =>
    if rows ≠ cols then .error (.hessianNotSquare G.shape)
    else symmetricPart G >>= GivenMatrix.planar
  | _ => .error (.hessianNotSquare G.shape)

/-- Makes a problem from its parts, unless their shapes do not fit together. -/
def create (G : GivenMatrix α) (c : Array α) (A : GivenMatrix α) (b : Array α)
    (E : Option (GivenMatrix α)) (triplets : Bool) : Except (Fault α) (Problem α) := do
  let G ← hessianOf G
  let A ← A.planar
  let E ← E.mapM GivenMatrix.planar
  match shapeFault? G A c b E triplets with
  | some e => .error e
  | none =>
    pure {
      unknowns := G.rows
      constraints := A.rows
      hessian := G.entries
      jacobian := A.entries
      compliance := E.map GivenMatrix.entries
      negLinear := Vector.neg c
      negBound := Vector.neg b
      triplets
      announced := none, substitute := none, x := none, multipliers := none }

/-- The constraint rows in use: all of them, or every third. -/
def activeRows (p : Problem α) (normalOnly : Bool) : List Nat :=
  if normalOnly && p.triplets then (List.range p.constraints).filter (· % 3 == 0)
  else List.range p.constraints

/-- The number of constraints that a solver is told. -/
def activeConstraints (p : Problem α) (normalOnly : Bool) : Int :=
  if normalOnly then (p.activeRows true).length
  else p.announced.getD (p.activeRows false).length

/-- The Hessian block. -/
def hessianBlock (p : Problem α) : Block α := ⟨p.unknowns, p.unknowns, p.hessian⟩

/-- The active rows of `A`. -/
def jacobianBlock (p : Problem α) (normalOnly : Bool) : Block α :=
  let rows := p.activeRows normalOnly
  ⟨rows.length, p.unknowns, rows.zipIdx.flatMap fun (row, k) =>
    (p.jacobian.filter (·.row == (row : Int))).map fun e => ⟨k, e.col, e.value⟩⟩

/-- The active rows and columns of `E`, empty without compliance. -/
def complianceBlock (p : Problem α) (normalOnly : Bool) : Block α :=
  let rows := p.activeRows normalOnly
  ⟨rows.length, rows.length, rows.zipIdx.flatMap fun (row, k) =>
    ((p.compliance.getD []).filter (·.row == (row : Int))).filterMap fun e =>
      (rows.idxOf? e.col.toNat).map fun (l : Nat) => ⟨k, l, e.value⟩⟩

/-- The block that takes the place of the compliance block, every element of it. -/
def substituteBlock (p : Problem α) : Option (Block α) :=
  p.substitute.map fun d =>
    ⟨d.rows, d.cols, (List.range d.rows).flatMap fun (i : Nat) =>
      (List.range d.cols).map fun (j : Nat) => ⟨i, j, d.get i j⟩⟩

/-- The active part of `-b`. -/
def activeNegBound (p : Problem α) (normalOnly : Bool) : Array α :=
  ((p.activeRows normalOnly).map fun i => p.negBound.getD i 0).toArray

/-- Stores a block with room for exactly its entries. -/
def store (b : Block α) (t : Sparse.Target α) : Option (Fault α) × Sparse.Target α :=
  t.loadBlock b b.entries.length

/-- Writes the substitute over the compliance block, where there is one. -/
def storeSubstitute (p : Problem α) (t : Sparse.Target α) :
    Option (Fault α) × Sparse.Target α :=
  match p.substituteBlock with
  | some b => t.loadBlock b 0
  | none => (none, t)

/-- The linear term for a buffer of the given length. -/
def linearFor (p : Problem α) (length : Nat) : Except (Fault α) (Array α) :=
  if length ≠ p.negLinear.size then .error (.bufferUnfit "f" length p.negLinear.size)
  else .ok p.negLinear

/-- The bounds for a buffer of the given length. -/
def boundFor (p : Problem α) (normalOnly : Bool) (length : Nat) : Except (Fault α) (Array α) :=
  let bound := p.activeNegBound normalOnly
  if length ≠ bound.size then .error (.bufferUnfit "b" length bound.size) else .ok bound

/-- Takes a solution as unknowns followed by negated multipliers. -/
def receive (p : Problem α) (v : Array α) : Except (Fault α) (Problem α) :=
  let expected := p.unknowns + p.constraints
  if v.size ≠ expected then .error (.solutionUnfit v.size expected)
  else .ok { p with
    x := some (v.extract 0 p.unknowns)
    multipliers := some (Vector.neg (v.extract p.unknowns v.size)) }

end Problem

/-- A one-line description. -/
def Problem.describe {α : Type} (p : Problem α) : String :=
  s!"QPDescriptor(n={p.unknowns}, m={p.constraints}, " ++
    s!"compliance={flagText p.compliance.isSome}, contact_triplets={flagText p.triplets})"

end CentralPath
