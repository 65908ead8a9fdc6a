/-
  What can go wrong, by cause. Every operation that can be refused returns one of these values;
  its wording is in `CentralPath.Fault.Message`. `Fault.category` sorts the causes by the kind of
  mistake behind them.
-/

namespace CentralPath

/-- The cause of a refused operation. -/
inductive Fault (α : Type) where
  /-- A position outside the matrix. -/
  | positionOutside (row col : Int) (rows cols : Nat)
  | negativeDimensions (rows cols : Int)
  | negativeShiftBound (bound : Int)
  | negativeThreshold (threshold : α)
  /-- A recorded pattern that runs along the other index than the matrix. -/
  | orientationsDiffer
  /-- A vector that does not fit a whole matrix. -/
  | vectorUnfit (length rows cols : Nat)
  /-- A vector that does not fit the block `[r0, r1) × [c0, c1)`. -/
  | blockVectorUnfit (length : Nat) (r0 r1 c0 c1 : Int)
  | shapesDiffer (rows cols otherRows otherCols : Nat)
  /-- Dense data with another number of axes than two. -/
  | notTwoDimensional (shape : List Nat)
  /-- An array with more axes than its use has room for. -/
  | tooManyAxes
  /-- A result of negative length. -/
  | negativeLength
  /-- A stored entry outside the shape where a product or dense table needs it inside. -/
  | entryOutside
  /-- A stored entry outside the shape where a matrix is converted. -/
  | entryUnfit
  /-- Window offsets that decrease. -/
  | offsetsDecrease
  /-- An operand that is not a matrix, or a factor that is not a number. -/
  | operandMissing
  /-- A leading index that names no list of a pattern. -/
  | recordOutside
  /-- Vectors of lengths that cannot be combined. -/
  | lengthsDiffer
  /-- A vector too short for the component asked for. -/
  | componentMissing
  | fileMissing (path : String)
  | arraysInconsistent (directory : String)
  | numberUnreadable
  /-- A number of digits below zero or beyond all bounds. -/
  | precisionUnfit
  /-- The normal equations, which cannot represent the perturbed system. -/
  | normalFormulation
  | formulationUnknown (name : String)
  /-- A Hessian whose first two axes differ. -/
  | hessianNotSquare (shape : List Nat)
  | linearTermUnfit (length expected : Nat)
  | constraintColumnsUnfit (cols expected : Nat)
  | boundUnfit (length expected : Nat)
  | complianceUnfit (expected rows cols : Nat)
  | tripletsIncomplete (constraints : Nat)
  | bufferUnfit (name : String) (length expected : Nat)
  | solutionUnfit (length expected : Nat)
  /-- No solve has succeeded yet. -/
  | noSolution
  /-- A right-hand side or a matrix that a sparse elimination refuses. -/
  | systemUnfit
  /-- A right-hand side or a matrix that a dense elimination refuses. -/
  | denseSystemUnfit
  /-- A backend reported a status other than zero. -/
  | linearSolveFailed (context : String) (status : Int) (job : Option String)
  | rightHandSideUnfit (length expected : Nat)
  | formulationInvalid (name : String)
  | startingPointInvalid (name : String)
  | startingPointUnknown (name : String)
  | negativeIterations (count : Int)
  | toleranceNotPositive (name : String) (value : α)
  | shiftOptionNegative (bound : Int)
  | fullnessOutside (value : α)
  /-- Both a finished configuration and single options. -/
  | optionsTwice
  | optionUnknown (name : String)
  /-- A compliance block of another shape than `m × m`. -/
  | complianceBlockUnfit (rows cols expected : Nat)
  | multipliersUnfit (normal : Nat) (full : Int)
  /-- An iteration before any problem was loaded. -/
  | noProblem
  /-- A name that belongs to no vector of a solver. -/
  | vectorUnknown (name : String)
  /-- A description that needs the name of a formulation that has none. -/
  | formulationUnnamed (name : String)
  /-- A record format without a placeholder. -/
  | formatUnfit
  /-- A name that no object goes by. -/
  | objectMissing (name : String)
  | divisionByZero
  | overflow
  /-- A NaN where an integer is needed. -/
  | noInteger
  deriving Repr, DecidableEq

namespace Fault

/-- The kind of mistake behind a fault. -/
inductive Category where
  | index
  | value
  | dimension
  | configuration
  | operand
  | key
  | attribute
  | file
  | run
  | linearSolve
  | zeroDivision
  | overflow
  | object
  deriving Repr, DecidableEq

/-- The category of each cause. -/
def category {α : Type} : Fault α → Category
  | positionOutside .. => .index
  | negativeDimensions .. => .value
  | negativeShiftBound _ => .value
  | negativeThreshold _ => .value
  | orientationsDiffer => .value
  | vectorUnfit .. => .dimension
  | blockVectorUnfit .. => .dimension
  | shapesDiffer .. => .dimension
  | notTwoDimensional _ => .value
  | tooManyAxes => .operand
  | negativeLength => .value
  | entryOutside => .index
  | entryUnfit => .value
  | offsetsDecrease => .value
  | operandMissing => .operand
  | recordOutside => .index
  | lengthsDiffer => .value
  | componentMissing => .index
  | fileMissing _ => .file
  | arraysInconsistent _ => .value
  | numberUnreadable => .value
  | precisionUnfit => .value
  | normalFormulation => .configuration
  | formulationUnknown _ => .configuration
  | hessianNotSquare .. => .dimension
  | linearTermUnfit .. => .dimension
  | constraintColumnsUnfit .. => .dimension
  | boundUnfit .. => .dimension
  | complianceUnfit .. => .dimension
  | tripletsIncomplete _ => .dimension
  | bufferUnfit .. => .dimension
  | solutionUnfit .. => .dimension
  | noSolution => .run
  | systemUnfit => .value
  | denseSystemUnfit => .run
  | linearSolveFailed .. => .linearSolve
  | rightHandSideUnfit .. => .dimension
  | formulationInvalid _ => .configuration
  | startingPointInvalid _ => .configuration
  | startingPointUnknown _ => .key
  | negativeIterations _ => .configuration
  | toleranceNotPositive .. => .configuration
  | shiftOptionNegative _ => .configuration
  | fullnessOutside _ => .configuration
  | optionsTwice => .operand
  | optionUnknown _ => .operand
  | complianceBlockUnfit .. => .dimension
  | multipliersUnfit .. => .dimension
  | noProblem => .attribute
  | vectorUnknown _ => .attribute
  | formulationUnnamed _ => .attribute
  | formatUnfit => .value
  | objectMissing _ => .object
  | divisionByZero => .zeroDivision
  | overflow => .overflow
  | noInteger => .value

end Fault

end CentralPath
