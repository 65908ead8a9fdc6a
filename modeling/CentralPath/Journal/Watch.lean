/-
  What a matrix gives cause to report. Redistributions are read off its record of growths; the
  storage rules are looked at after a compression, and only while debug checks are on.
-/
import CentralPath.Journal.Event
import CentralPath.Sparse.Validity

namespace CentralPath.Journal

open Sparse (Matrix)

variable {α : Type}

/-- The redistributions that a matrix went through between two states. -/
def growthEvents (before after : Matrix α) : List (Event α) :=
  ((after.growths.toList).drop before.growths.size).map .storageRedistributed

/-- The report on a matrix after `context`, made only while debug checks are on. -/
def storageEvents (debug : Bool) (context : String) (m : Matrix α) : List (Event α) :=
  if debug && m.verify != 0 then [.storageViolated context m.verify] else []

/-- What the check after a compression calls it. -/
def compressionContext : String := "compression"

/-- What the check after a pruning calls it. -/
def pruningContext : String := "prune"

end CentralPath.Journal
