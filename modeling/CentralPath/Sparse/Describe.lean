/-
  One-line descriptions of matrices and patterns.
-/
import CentralPath.Fault.Message
import CentralPath.Sparse.Pattern

namespace CentralPath.Sparse

/-- Whether windows are rows. -/
def Orientation.isByRows : Orientation → Bool
  | byRows => true
  | byColumns => false

/-- The shape, the orientation, and what the buffers are like. -/
def Matrix.describe {α : Type} (m : Matrix α) : String :=
  s!"CSR3Matrix(shape={pairText m.rows m.cols}, row_major={flagText m.orientation.isByRows}, " ++
    s!"nnz={m.liveCount}, capacity={m.capacity}, compressed={flagText m.compressed}, " ++
    s!"locked={flagText m.locked})"

/-- The shape, the orientation, and the number of positions. -/
def Pattern.describe (p : Pattern) : String :=
  s!"SparsityPatternLearner(shape={pairText p.rows p.cols}, " ++
    s!"row_major={flagText p.orientation.isByRows}, nnz={p.size})"

end CentralPath.Sparse
