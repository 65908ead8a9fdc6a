/-
  What a linear-solve backend can be asked to do. A job is a sequence of phases.
-/

namespace CentralPath.Backend

/-- One phase of a linear solve. -/
inductive Phase where
  | analyze
  | factorize
  | solve
  deriving Repr, DecidableEq

/-- A request to a backend. -/
inductive Job where
  | analyze
  | factorize
  | solve
  | analyzeFactorize
  | factorizeSolve
  | complete
  deriving Repr, DecidableEq

namespace Phase

/-- The word for a phase. -/
def name : Phase → String
  | analyze => "analyze"
  | factorize => "factorize"
  | solve => "solve"

end Phase

namespace Job

/-- The phases of a job in order. -/
def phases : Job → List Phase
  | analyze => [.analyze]
  | factorize => [.factorize]
  | solve => [.solve]
  | analyzeFactorize => [.analyze, .factorize]
  | factorizeSolve => [.factorize, .solve]
  | complete => [.analyze, .factorize, .solve]

/-- The name of a job as reports give it. -/
def name : Job → String
  | analyze => "ANALYZE"
  | factorize => "FACTORIZE"
  | solve => "SOLVE"
  | analyzeFactorize => "ANALYZE_FACTORIZE"
  | factorizeSolve => "FACTORIZE_SOLVE"
  | complete => "COMPLETE"

/-- All jobs. -/
def all : List Job :=
  [analyze, factorize, solve, analyzeFactorize, factorizeSolve, complete]

end Job

end CentralPath.Backend
