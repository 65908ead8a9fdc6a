/-
  Finite sets of indices as strictly increasing lists. `distinctSorted` turns any list of indices
  into the set of its members; `insertIndex` adds one.
-/

namespace CentralPath.Sparse

/-- Adds an index to a strictly increasing list. -/
def insertIndex (i : Int) : List Int → List Int
  | [] => [i]
  | j :: js => if i < j then i :: j :: js else if i = j then j :: js else j :: insertIndex i js

/-- The members of a list in increasing order, each once. -/
def distinctSorted (is : List Int) : List Int := is.foldr insertIndex []

theorem mem_insertIndex {i j : Int} {js : List Int} :
    i ∈ insertIndex j js ↔ i = j ∨ i ∈ js := by
  induction js with
  | nil => simp [insertIndex]
  | cons k ks ih =>
    simp only [insertIndex]
    split
    · simp
    · split
      · simp_all
      · simp only [List.mem_cons, ih]; grind

@[simp] theorem mem_distinctSorted {i : Int} {is : List Int} : i ∈ distinctSorted is ↔ i ∈ is := by
  induction is with
  | nil => simp [distinctSorted]
  | cons j js ih =>
    have : distinctSorted (j :: js) = insertIndex j (distinctSorted js) := rfl
    rw [this, mem_insertIndex, ih, List.mem_cons]

theorem pairwise_insertIndex {i : Int} {js : List Int} (h : js.Pairwise (· < ·)) :
    (insertIndex i js).Pairwise (· < ·) := by
  induction js with
  | nil => simp [insertIndex]
  | cons k ks ih =>
    have hk := List.pairwise_cons.mp h
    simp only [insertIndex]
    split
    · rename_i hik
      refine List.pairwise_cons.mpr ⟨?_, h⟩
      intro x hx
      rcases List.mem_cons.mp hx with rfl | hx
      · exact hik
      · exact Int.lt_trans hik (hk.1 x hx)
    · split
      · exact h
      · refine List.pairwise_cons.mpr ⟨?_, ih hk.2⟩
        intro x hx
        rcases mem_insertIndex.mp hx with rfl | hx
        · omega
        · exact hk.1 x hx

/-- The sorted list is strictly increasing. -/
theorem pairwise_distinctSorted (is : List Int) : (distinctSorted is).Pairwise (· < ·) := by
  induction is with
  | nil => simp [distinctSorted]
  | cons j js ih => exact pairwise_insertIndex ih

end CentralPath.Sparse
