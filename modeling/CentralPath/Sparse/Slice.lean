/-
  Places and ranges in a list, given by integers. A negative number counts from the end of the list.
  A place outside the list is none; an end of a range outside the list is moved to the nearer end.
-/

namespace CentralPath.Sparse

variable {β : Type}

/-- The place that a number names among a given count of places. A negative number counts from the
end. -/
def placeIn? (count : Nat) (i : Int) : Option Nat :=
  if 0 ≤ i ∧ i < count then some i.toNat
  else if -(count : Int) ≤ i ∧ i < 0 then some ((count : Int) + i).toNat
  else none

/-- The number of places before an end of a range. -/
def endPoint (count : Nat) (i : Int) : Nat :=
  if 0 ≤ i then min i.toNat count else ((count : Int) + i).toNat

/-- The elements of a range. -/
def slice (xs : List β) (low high : Int) : List β :=
  (xs.take (endPoint xs.length high)).drop (endPoint xs.length low)

/-- Elements for a given number of places: as many as there are places, or a single one for all of
them. -/
def spread? (width : Nat) (source : List β) : Option (List β) :=
  if source.length = width then some source
  else
    match source with
    | [a] => some (List.replicate width a)
    | _ => none

/-- Writes elements over those of a range. None when their numbers do not fit. -/
def overlay? (xs : List β) (low high : Int) (source : List β) : Option (List β) :=
  let first := endPoint xs.length low
  let width := endPoint xs.length high - first
  (spread? width source).map fun ys => xs.take first ++ ys ++ xs.drop (first + width)

theorem endPoint_of_le {count k : Nat} (h : k ≤ count) : endPoint count (k : Int) = k := by
  simp [endPoint, h]

/-- Ends inside the list, given by natural numbers, cut out what lies between them. -/
theorem slice_of_le {xs : List β} {low high : Nat} (hl : low ≤ xs.length)
    (hh : high ≤ xs.length) : slice xs (low : Int) (high : Int) = (xs.take high).drop low := by
  simp [slice, endPoint_of_le hl, endPoint_of_le hh]

end CentralPath.Sparse
