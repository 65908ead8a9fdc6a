/-
  The wording of faults. A fault that names what was wrong has a message; one that any arithmetic
  on vectors can raise has none. Numbers are written in the plain style and names are quoted.
-/
import CentralPath.Fault
import CentralPath.Decimal.Layout
import CentralPath.Text.Quoted

namespace CentralPath

open Decimal (render)
open Text (quoted)

/-- A pair in parentheses. -/
def pairText {β : Type} [ToString β] (a b : β) : String := s!"({a}, {b})"

/-- A shape in parentheses; a single axis keeps its comma. -/
def shapeText : List Nat → String
  | [k] => s!"({k},)"
  | ks => "(" ++ String.intercalate ", " (ks.map toString) ++ ")"

/-- A truth value as a word. -/
def flagText (b : Bool) : String := if b then "True" else "False"

/-- The message of a failed linear solve. -/
def linearSolveText (context : String) (status : Int) : String :=
  (if context.isEmpty then "" else context ++ ": ") ++ s!"linear solve failed (status={status})"

/-- The wording of a fault, if it has one. -/
def Fault.message : Fault Float → Option String
  | positionOutside row col rows cols =>
    some s!"index {pairText row col} out of range for shape {pairText rows cols}"
  | negativeDimensions rows cols =>
    some s!"dimensions must be non-negative, got {pairText rows cols}"
  | shiftOptionNegative bound => some s!"max_shifts must be non-negative, got {bound}"
  | negativeShiftBound bound => some s!"max_shifts must be non-negative, got {bound}"
  | negativeThreshold t => some s!"threshold must be non-negative, got {render t}"
  | orientationsDiffer => some "learner and matrix must use the same storage orientation"
  | vectorUnfit length rows cols =>
    some s!"vector of length {length} incompatible with matrix of shape {pairText rows cols}"
  | blockVectorUnfit length r0 r1 c0 c1 =>
    some s!"vector of length {length} incompatible with block [{r0}:{r1}, {c0}:{c1}]"
  | shapesDiffer rows cols otherRows otherCols =>
    some s!"matrix shapes differ: {pairText rows cols} vs {pairText otherRows otherCols}"
  | notTwoDimensional shape => some s!"dense must be 2D, got shape {shapeText shape}"
  | fileMissing path => some s!"CSR3 array file not found: {path}"
  | arraysInconsistent directory => some s!"inconsistent CSR3 arrays in {directory}"
  | normalFormulation =>
    some "the perturbed KKT system cannot be solved with the NORMAL method"
  | formulationUnknown name => some s!"unknown KKT method {quoted name}"
  | hessianNotSquare shape => some s!"G must be square, got shape {shapeText shape}"
  | linearTermUnfit length expected => some s!"c has length {length}, expected {expected}"
  | constraintColumnsUnfit cols expected => some s!"A has {cols} columns, expected {expected}"
  | boundUnfit length expected => some s!"b has length {length}, expected {expected}"
  | complianceUnfit expected rows cols =>
    some s!"E must have shape {pairText expected expected}, got {pairText rows cols}"
  | tripletsIncomplete m =>
    some s!"contact triplet layout needs a multiple of 3 constraints, got {m}"
  | bufferUnfit name length expected =>
    some s!"{name} buffer has length {length}, expected {expected}"
  | solutionUnfit length expected =>
    some s!"solution vector has length {length}, expected {expected}"
  | noSolution => some "no solution available; run a SOLVE job first"
  | linearSolveFailed context status _ => some (linearSolveText context status)
  | rightHandSideUnfit length expected => some s!"rhs has length {length}, expected {expected}"
  | formulationInvalid name => some s!"kkt_method must be a KKTMethod, got {quoted name}"
  | startingPointInvalid name => some s!"starting_point must be a StartingPoint, got {quoted name}"
  | negativeIterations count => some s!"max_iterations must be non-negative, got {count}"
  | toleranceNotPositive name value => some s!"{name} must be positive, got {render value}"
  | fullnessOutside value => some s!"fullness must be in (0, 1], got {render value}"
  | optionsTwice => some "pass either config or keyword options, not both"
  | complianceBlockUnfit rows cols expected =>
    some s!"E has shape {pairText rows cols}, expected {pairText expected expected}"
  | multipliersUnfit normal full =>
    some s!"cannot expand {normal} normal multipliers into {full} contact rows"
  | _ => none

end CentralPath
