/-
  Which rows of a sparse system belong together. Rows with an entry in the same column are coupled,
  and so are rows that are coupled to a third one. An elimination never carries anything from one
  group of coupled rows into another, not even where it meets an infinite number.
-/
import CentralPath.Sparse.Basic

namespace CentralPath.Backend

open Sparse (Entry)

/-- Puts rows and everything coupled to one of them into one group. A group is known by a number. -/
def couple (groups : Array Nat) (rows : List Nat) : Array Nat :=
  let met := rows.filterMap (groups[·]?)
  match met.min? with
  | none => groups
  | some least => groups.map fun g => if met.contains g then least else g

/-- The rows that have an entry in each column. -/
def rowsByColumn {α : Type} (cols : Nat) (entries : List (Entry α)) : Array (List Nat) :=
  entries.foldl (fun lists e => lists.modify e.col.toNat (e.row.toNat :: ·))
    (Array.replicate cols [])

/-- The group of each row: the least row that it is coupled to. -/
def coupledGroups {α : Type} (rows cols : Nat) (entries : List (Entry α)) : Array Nat :=
  (rowsByColumn cols entries).foldl couple (Array.range rows)

theorem size_couple (groups : Array Nat) (rows : List Nat) :
    (couple groups rows).size = groups.size := by
  simp only [couple]
  split <;> simp

end CentralPath.Backend
