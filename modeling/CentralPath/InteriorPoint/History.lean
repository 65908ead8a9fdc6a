/-
  The history of a solver as comma-separated text: a header, then one line per iteration. Lines end
  in a carriage return and a line feed, numbers are written with the fewest digits that read back.
-/
import CentralPath.InteriorPoint.State

namespace CentralPath.InteriorPoint

/-- The column names. -/
def historyHeader : List String := ["solve_call", "iteration", "rp_nnorm", "rd_nnorm", "mu"]

/-- One line of text. -/
def historyLine (fields : List String) : String := String.intercalate "," fields ++ "\r\n"

/-- The fields of a record. -/
def Record.fields (r : Record Float) : List String :=
  [toString r.solveCall, toString r.iteration, Decimal.render r.measures.primal,
    Decimal.render r.measures.dual, Decimal.render r.measures.mu]

/-- The text of a history. -/
def historyText (records : List (Record Float)) : String :=
  String.join ((historyHeader :: records.map Record.fields).map historyLine)

end CentralPath.InteriorPoint
