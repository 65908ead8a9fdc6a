/-
  The vectors of the solver by name, and writing over one of them.
-/
import CentralPath.Backend.Session
import CentralPath.InteriorPoint.State

namespace CentralPath.InteriorPoint

/-- A vector of the solver. -/
inductive Component where
  | x | y | lam | c | b | rp | rd | dx | dy | dlam | yPred | lamPred | diagE
  deriving Repr, DecidableEq

namespace Component

/-- All vectors. -/
def all : List Component := [x, y, lam, c, b, rp, rd, dx, dy, dlam, yPred, lamPred, diagE]

/-- The name that a vector is reported under. -/
def name : Component → String
  | x => "x"
  | y => "y"
  | lam => "lam"
  | c => "c"
  | b => "b"
  | rp => "rp"
  | rd => "rd"
  | dx => "dx"
  | dy => "dy"
  | dlam => "dlam"
  | yPred => "y_pred"
  | lamPred => "lam_pred"
  | diagE => "E_diag"

/-- The vector of a name. -/
def ofName? (s : String) : Option Component := all.find? (·.name == s)

end Component

namespace Solver

variable {α : Type}

/-- Reads a vector. -/
def component (s : Solver α) : Component → Array α
  | .x => s.x
  | .y => s.y
  | .lam => s.lam
  | .c => s.c
  | .b => s.b
  | .rp => s.rp
  | .rd => s.rd
  | .dx => s.dx
  | .dy => s.dy
  | .dlam => s.dlam
  | .yPred => s.yPred
  | .lamPred => s.lamPred
  | .diagE => s.diagE

/-- Replaces a vector. -/
def withComponent (s : Solver α) (k : Component) (v : Array α) : Solver α :=
  match k with
  | .x => { s with x := v }
  | .y => { s with y := v }
  | .lam => { s with lam := v }
  | .c => { s with c := v }
  | .b => { s with b := v }
  | .rp => { s with rp := v }
  | .rd => { s with rd := v }
  | .dx => { s with dx := v }
  | .dy => { s with dy := v }
  | .dlam => { s with dlam := v }
  | .yPred => { s with yPred := v }
  | .lamPred => { s with lamPred := v }
  | .diagE => { s with diagE := v }

variable {σ : Type}

/-- Puts a vector that is computed from the solver in the place of one of its own. Nothing changes
where the computation is refused. -/
def assign (k : Component) (f : Solver α → Except (Fault α) (Array α)) :
    Backend.Work (Solver α) σ α Unit := do
  let v ← Backend.Work.lift (f (← Backend.Work.solver))
  Backend.Work.change (·.withComponent k v)

variable [Scalar α]

/-- Writes over a vector, keeping its length. -/
def overwrite (s : Solver α) (name : String) (v : Array α) : Except (Fault α) (Solver α) := do
  match Component.ofName? name with
  | none => throw (.vectorUnknown name)
  | some k => pure (s.withComponent k (← Vector.fill? (s.component k).size v))

end Solver

end CentralPath.InteriorPoint
