/-
  Vectors in exact arithmetic, read component by component. `coord a i` is component `i` of `a` and
  zero behind the end, so that the operations on vectors of one length act on components without a
  bound on the index, and a scalar product is a sum over the length.
-/
import CentralPath.Vector
import CentralPath.Proofs.Scalar.OrderedField

namespace CentralPath.Vector

@[simp] theorem size_constant {K : Type} (k : K) (a : Array K) : (constant k a).size = a.size :=
  Array.size_map ..

/-- Of a vector that is replaced by a constant, only the length counts. -/
theorem constant_congr {K : Type} {k : K} {a b : Array K} (h : a.size = b.size) :
    constant k a = constant k b := by
  rw [constant, constant, Array.map_const', Array.map_const', h]

/-- What is written over a vector has its length, or is one number for all of it. -/
theorem cases_of_fill? {K : Type} [Scalar K] {length : Nat} {a v : Array K}
    (h : fill? length a = .ok v) :
    a.size = length ∧ v = a ∨
      a.size ≠ length ∧ a.size = 1 ∧ v = Array.replicate length (a[0]?.getD 0) := by
  unfold fill? at h
  split_ifs at h with hsize hone
  · exact .inl ⟨hsize, (Except.ok.inj h).symm⟩
  · exact .inr ⟨hsize, hone, (Except.ok.inj h).symm⟩

/-- What is written over a vector has its length. -/
theorem size_of_fill? {K : Type} [Scalar K] {length : Nat} {a v : Array K}
    (h : fill? length a = .ok v) : v.size = length := by
  obtain ⟨hsize, rfl⟩ | ⟨-, -, rfl⟩ := cases_of_fill? h
  · exact hsize
  · exact Array.size_replicate

theorem exists_of_addTo? {K : Type} [Scalar K] {a d v : Array K} (h : addTo? a d = .ok v) :
    ∃ u, fill? a.size d = .ok u ∧ v = add a u := by
  unfold addTo? at h
  rcases hfill : fill? a.size d with e | u <;> rw [hfill] at h
  · cases h
  · exact ⟨u, rfl, (Except.ok.inj h).symm⟩

/-- A vector that another one is added to keeps its length. -/
theorem size_of_addTo? {K : Type} [Scalar K] {a d v : Array K} (h : addTo? a d = .ok v) :
    v.size = a.size := by
  obtain ⟨u, hfill, rfl⟩ := exists_of_addTo? h
  rw [add, Array.size_zipWith, size_of_fill? hfill, Nat.min_self]

/-! ## Parts -/

/-- A vector of a length in two parts. -/
theorem exists_append {K : Type} {v : Array K} {n k : Nat} (h : v.size = n + k) :
    ∃ a b : Array K, v = a ++ b ∧ a.size = n ∧ b.size = k := by
  refine ⟨v.extract 0 n, v.extract n v.size, ?_, ?_, ?_⟩
  · rw [Array.extract_append_extract, Nat.min_eq_left (Nat.zero_le n),
      Nat.max_eq_right (by omega), Array.extract_size]
  · rw [Array.size_extract]
    omega
  · rw [Array.size_extract]
    omega

/-- The range that a middle part takes up. -/
theorem range_append_middle {K : Type} (a b c : Array K) :
    range (a ++ (b ++ c)) a.size ((a.size + b.size : ℕ) : Int) = b := by
  rw [range, Sparse.slice_of_le (by rw [Array.length_toList, Array.size_append]; omega)
    (by rw [Array.length_toList, Array.size_append, Array.size_append]; omega)]
  simp [List.take_append]

theorem range_append_left {K : Type} (a b : Array K) : range (a ++ b) 0 a.size = a := by
  have h := range_append_middle #[] a b
  rw [Array.empty_append] at h
  rwa [Array.size_empty, Nat.zero_add] at h

theorem range_append_right {K : Type} (a b : Array K) : range (a ++ b) a.size (a ++ b).size = b := by
  have h := range_append_middle a b #[]
  rwa [Array.append_empty, ← Array.size_append] at h

/-! ## Components -/

/-- Component `i`, zero behind the end. -/
def coord {K : Type} [Zero K] (a : Array K) (i : Nat) : K := a.getD i 0

section

variable {K : Type} [Zero K] {a b : Array K} {i : Nat}

theorem coord_eq_getElem (h : i < a.size) : coord a i = a[i] := by
  rw [coord, Array.getD_eq_getD_getElem?, Array.getElem?_eq_getElem h, Option.getD_some]

theorem coord_of_size_le (h : a.size ≤ i) : coord a i = 0 := by
  rw [coord, Array.getD_eq_getD_getElem?, Array.getElem?_eq_none h, Option.getD_none]

/-- Vectors of one length with the same components are equal. -/
theorem ext_coord (hsize : a.size = b.size) (h : ∀ i, i < a.size → coord a i = coord b i) :
    a = b := by
  apply Array.ext hsize
  intro i ha hb
  rw [← coord_eq_getElem ha, ← coord_eq_getElem hb, h i ha]

/-- Results that are vectors with the same components are the same. -/
theorem ok_eq_of_coord {a b : Except (Fault K) (Array K)} {n : Nat} {value : Nat → K}
    (ha : ∃ u, a = .ok u ∧ u.size = n ∧ ∀ i, i < n → coord u i = value i)
    (hb : ∃ u, b = .ok u ∧ u.size = n ∧ ∀ i, i < n → coord u i = value i) : b = a := by
  obtain ⟨u, rfl, hu, hucoord⟩ := ha
  obtain ⟨v, rfl, hv, hvcoord⟩ := hb
  congr 1
  refine ext_coord (hv.trans hu.symm) fun i hi => ?_
  rw [hv] at hi
  rw [hucoord i hi, hvcoord i hi]

theorem coord_map {f : K → K} (hf : f 0 = 0) (a : Array K) (i : Nat) :
    coord (a.map f) i = f (coord a i) := by
  by_cases h : i < a.size
  · rw [coord_eq_getElem (by rwa [Array.size_map]), coord_eq_getElem h, Array.getElem_map]
  · rw [coord_of_size_le (by rw [Array.size_map]; omega), coord_of_size_le (by omega), hf]

theorem coord_map_of_lt (f : K → K) (h : i < a.size) : coord (a.map f) i = f (coord a i) := by
  rw [coord_eq_getElem (by rwa [Array.size_map]), coord_eq_getElem h, Array.getElem_map]

theorem coord_zipWith {f : K → K → K} (hf : f 0 0 = 0) (h : a.size = b.size) (i : Nat) :
    coord (a.zipWith f b) i = f (coord a i) (coord b i) := by
  by_cases hi : i < a.size
  · rw [coord_eq_getElem (by rw [Array.size_zipWith]; omega), coord_eq_getElem hi,
      coord_eq_getElem (by omega), Array.getElem_zipWith]
  · rw [coord_of_size_le (by rw [Array.size_zipWith]; omega), coord_of_size_le (by omega),
      coord_of_size_le (by omega), hf]

theorem coord_ofFn {n : Nat} (f : Nat → K) (h : i < n) :
    coord (Array.ofFn (n := n) fun k => f k) i = f i := by
  rw [coord_eq_getElem (by rwa [Array.size_ofFn]), Array.getElem_ofFn]

theorem coord_replicate {n : Nat} (k : K) (h : i < n) : coord (Array.replicate n k) i = k := by
  rw [coord_eq_getElem (by rwa [Array.size_replicate]), Array.getElem_replicate]

theorem coord_append_left (h : i < a.size) (b : Array K) : coord (a ++ b) i = coord a i := by
  rw [coord_eq_getElem (by rw [Array.size_append]; omega), coord_eq_getElem h,
    Array.getElem_append_left h]

theorem coord_append_right (h : a.size ≤ i) (b : Array K) :
    coord (a ++ b) i = coord b (i - a.size) := by
  by_cases hb : i < a.size + b.size
  · rw [coord_eq_getElem (by rwa [Array.size_append]), coord_eq_getElem (by omega),
      Array.getElem_append_right h]
  · rw [coord_of_size_le (by rw [Array.size_append]; omega), coord_of_size_le (by omega)]

/-- Values are the components of two vectors in a row if they are those of one after the other. -/
theorem forall_eq_coord_append {value : Nat → K} :
    (∀ i, i < (a ++ b).size → value i = coord (a ++ b) i) ↔
      (∀ i, i < a.size → value i = coord a i) ∧
        ∀ k, k < b.size → value (a.size + k) = coord b k := by
  rw [Array.size_append]
  constructor
  · intro h
    refine ⟨fun i hi => ?_, fun k hk => ?_⟩
    · rw [h i (by omega), coord_append_left hi]
    · rw [h (a.size + k) (by omega), coord_append_right (by omega), Nat.add_sub_cancel_left]
  · rintro ⟨hleft, hright⟩ i hi
    by_cases hia : i < a.size
    · rw [hleft i hia, coord_append_left hia]
    · obtain ⟨k, rfl⟩ := Nat.exists_eq_add_of_le (Nat.le_of_not_lt hia)
      rw [hright k (by omega), coord_append_right (by omega), Nat.add_sub_cancel_left]

/-- A range inside a vector has the components between its ends. -/
theorem range_of_le (a : Array K) (low high : Nat) (hl : low ≤ high) (hh : high ≤ a.size) :
    (range a low high).size = high - low ∧
      ∀ i, i < high - low → coord (range a low high) i = coord a (low + i) := by
  have hsize : (range a low high).size = high - low := by
    rw [range, Sparse.slice_of_le (by rw [Array.length_toList]; omega)
      (by rwa [Array.length_toList]), List.size_toArray, List.length_drop, List.length_take,
      Array.length_toList, Nat.min_eq_left hh]
  refine ⟨hsize, fun i hi => ?_⟩
  rw [coord, coord, range, Sparse.slice_of_le (by rw [Array.length_toList]; omega)
    (by rwa [Array.length_toList]), Array.getD_eq_getD_getElem?, Array.getD_eq_getD_getElem?,
    List.getElem?_toArray, List.getElem?_drop, List.getElem?_take, if_pos (by omega),
    Array.getElem?_toList]

end

variable {K : Type} [Field K] [LinearOrder K] {a b : Array K} {n : Nat}

/-! ## Sizes -/

@[simp] theorem size_add (a b : Array K) : (add a b).size = min a.size b.size :=
  Array.size_zipWith ..

@[simp] theorem size_sub (a b : Array K) : (sub a b).size = min a.size b.size :=
  Array.size_zipWith ..

@[simp] theorem size_neg (a : Array K) : (neg a).size = a.size := Array.size_map ..

@[simp] theorem size_scale (k : K) (a : Array K) : (scale k a).size = a.size := Array.size_map ..

@[simp] theorem size_zeros (n : Nat) : (zeros n : Array K).size = n := Array.size_replicate ..

@[simp] theorem size_ones (n : Nat) : (ones n : Array K).size = n := Array.size_replicate ..

/-! ## Components of sums -/

/-- Vectors of one length are combined component by component. -/
theorem exists_zip? (f : K → K → K) (ha : a.size = n) (hb : b.size = n) :
    ∃ v, zip? f a b = .ok v ∧ v.size = n ∧ ∀ i, i < n → coord v i = f (coord a i) (coord b i) := by
  refine ⟨a.zipWith f b, zip?_of_size_eq (ha.trans hb.symm), ?_, fun i hi => ?_⟩
  · rw [Array.size_zipWith, ha, hb, Nat.min_self]
  · rw [coord_eq_getElem (by rw [Array.size_zipWith]; omega), coord_eq_getElem (by omega),
      coord_eq_getElem (by omega), Array.getElem_zipWith]

theorem coord_add (h : a.size = b.size) (i : Nat) : coord (add a b) i = coord a i + coord b i :=
  coord_zipWith (add_zero 0) h i

theorem coord_sub (h : a.size = b.size) (i : Nat) : coord (sub a b) i = coord a i - coord b i :=
  coord_zipWith (sub_zero 0) h i

theorem coord_neg (a : Array K) (i : Nat) : coord (neg a) i = -coord a i := coord_map neg_zero a i

theorem coord_scale (k : K) (a : Array K) (i : Nat) : coord (scale k a) i = k * coord a i :=
  coord_map (mul_zero k) a i

theorem coord_zeros (n i : Nat) : coord (zeros n : Array K) i = 0 := by
  by_cases h : i < n
  · exact coord_replicate 0 h
  · exact coord_of_size_le (by rw [size_zeros]; omega)

theorem neg_neg_eq (a : Array K) : neg (neg a) = a := by
  refine ext_coord (by rw [size_neg, size_neg]) fun i _ => ?_
  rw [coord_neg, coord_neg, neg_neg]

/-- The scalar product is the sum of the products of components. -/
theorem dot_eq_sum (ha : a.size = n) (hb : b.size = n) :
    dot a b = ∑ i ∈ Finset.range n, coord a i * coord b i := by
  have hsize : (mul a b).size = n := by rw [mul, Array.size_zipWith, ha, hb, Nat.min_self]
  have hsum : ∀ v : Array K, v.foldl (· + ·) 0 = ∑ i ∈ Finset.range v.size, coord v i := by
    intro v
    rw [← Array.foldl_toList, ← List.sum_eq_foldl, ← Fin.sum_univ_eq_sum_range, ← Array.length_toList,
      ← Fin.sum_univ_getElem]
    exact Finset.sum_congr rfl fun i _ => by
      rw [coord_eq_getElem (by simp)]
      rfl
  rw [dot]
  refine (hsum _).trans ?_
  rw [hsize]
  exact Finset.sum_congr rfl fun i _ =>
    coord_zipWith (f := (· * ·)) (mul_zero 0) (ha.trans hb.symm) i

end CentralPath.Vector
