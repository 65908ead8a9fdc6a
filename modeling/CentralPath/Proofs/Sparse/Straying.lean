/-
  Assemblies that leave the shape. A pattern refuses a row that it has no list for and reads a negative
  one from the end of its lists, as indices go, but of a column it checks nothing. One that was given
  columns of its shape only is in range and can be loaded (`Pattern.inRange_writeAll`); any other may
  hand slots to a matrix that break the storage rules. The matrix can still be written then: whatever
  state its buffers are in, its orientation stays (`Matrix.orientation_writeAll`), so that a later
  pattern can be loaded over it.
-/
import CentralPath.Problem.Target
import CentralPath.Proofs.Sparse.Recording

namespace CentralPath.Sparse

/-! ## Patterns -/

namespace Pattern

variable {α : Type} {p next : Pattern} {row col : Int} {writes : List (Write α)}

/-- Recording changes the lists only. -/
theorem shape_writeAll (p : Pattern) (writes : List (Write α)) :
    (p.writeAll writes).2.orientation = p.orientation ∧ (p.writeAll writes).2.rows = p.rows ∧
      (p.writeAll writes).2.cols = p.cols := by
  induction writes generalizing p with
  | nil => exact ⟨rfl, rfl, rfl⟩
  | cons w ws ih =>
    rw [writeAll, record_eq]
    rcases p.listIndex? (p.placeOf w.row w.col).1 with _ | k
    · exact ⟨rfl, rfl, rfl⟩
    · exact ih _

/-- A column of the shape keeps the pattern in range, whatever row it is recorded for. -/
theorem InRange.record (hp : p.InRange) (ho : p.orientation = .byRows)
    (hcol : 0 ≤ col ∧ col < p.cols) (h : p.record (α := α) row col = .ok next) : next.InRange := by
  have hplace : p.placeOf row col = (row, col) := by rw [placeOf, ho]
  have hbound : p.trailingDim = p.cols := by rw [trailingDim, ho]
  rw [record_eq, hplace] at h
  rcases hk : p.listIndex? row with _ | k <;> rw [hk] at h
  · cases h
  obtain rfl := Except.ok.inj h
  exact hp.append (hbound ▸ hcol) k

/-- Writes whose columns are those of the shape leave a pattern in range, up to the first that is
refused. -/
theorem inRange_writeAll (hp : p.InRange) (ho : p.orientation = .byRows)
    (hcols : ∀ w ∈ writes, 0 ≤ w.col ∧ w.col < p.cols) : (p.writeAll writes).2.InRange := by
  induction writes generalizing p with
  | nil => exact hp
  | cons w ws ih =>
    rw [writeAll]
    rcases hrecord : p.record (α := α) w.row w.col with e | next
    · exact hp
    · have hnext := hp.record ho (hcols w (List.mem_cons_self ..)) hrecord
      obtain ⟨ho', -, hc'⟩ : next.orientation = p.orientation ∧ next.rows = p.rows ∧
          next.cols = p.cols := by
        have hshape := shape_writeAll p [w]
        rw [writeAll, hrecord] at hshape
        exact hshape
      exact ih hnext (ho'.trans ho) fun v hv => hc' ▸ hcols v (List.mem_cons_of_mem _ hv)

end Pattern

/-! ## Matrices in any state -/

namespace Matrix

variable {α : Type}

theorem orientation_atSlot (m : Matrix α) (p : Int) {f : Nat → Matrix α}
    (hf : ∀ i, (f i).orientation = m.orientation) :
    (m.atSlot p f).2.orientation = m.orientation := by
  rw [atSlot]
  split
  · exact hf _
  · rfl

theorem orientation_shiftUpUncut {m moved : Matrix α} {pos gap : Int} {w : Nat}
    (h : m.shiftUpUncut pos gap w = .ok moved) : moved.orientation = m.orientation := by
  unfold shiftUpUncut at h
  split_ifs at h with hmove
  · rcases hslots : m.moved (pos + 1) (gap + 1) pos with e | slots <;> rw [hslots] at h
    · cases h
    · cases h
      rfl
  · cases h
    rfl

theorem orientation_shiftDownUncut {m moved : Matrix α} {pos gap : Int} {w : Nat}
    (h : m.shiftDownUncut pos gap w = .ok moved) : moved.orientation = m.orientation := by
  unfold shiftDownUncut at h
  split_ifs at h with hmove
  · rcases hslots : m.moved gap (pos - 1) (gap + 1) with e | slots <;> rw [hslots] at h
    · cases h
    · cases h
      rfl
  · cases h
    rfl

variable [Scalar α]

theorem orientation_openSlot (m : Matrix α) (w : Nat) (spot : Place Nat) :
    (m.openSlot w spot).1.orientation = m.orientation := by
  cases spot with
  | found i => rfl
  | vacant i => rfl
  | crowded i =>
    rw [openSlot, makeRoom?]
    split
    · rfl
    · rfl
    · rfl
    · split_ifs
      · rfl
      · rfl

theorem orientation_write (m : Matrix α) (w : Nat) (t : Int) (v : α) (overwrite : Bool) :
    (m.write w t v overwrite).orientation = m.orientation := by
  unfold write
  split
  · rfl
  · split_ifs
    · rfl
    · exact orientation_openSlot m w _

theorem orientation_openSlotUncut {m opened : Matrix α} {w : Nat} {spot : Place Int} {p : Int}
    (h : m.openSlotUncut w spot = .ok (opened, p)) : opened.orientation = m.orientation := by
  have hmap : ∀ {x : Except (Fault α) (Matrix α)} {q : Int}, x.map (·, q) = .ok (opened, p) →
      x = .ok opened := by
    rintro (e | moved) q h
    · cases h
    · rw [(Prod.mk.inj (Except.ok.inj h)).1]
  unfold openSlotUncut at h
  split at h
  · cases h
    rfl
  · cases h
    rfl
  · dsimp only at h
    split at h
    · rw [redistributeUncut] at h
      split at h
      · cases h
      · split_ifs at h
        cases h
        rfl
    · exact orientation_shiftUpUncut (hmap h)
    · exact orientation_shiftDownUncut (hmap h)
    · split_ifs at h
      · exact orientation_shiftUpUncut (hmap h)
      · exact orientation_shiftDownUncut (hmap h)

theorem orientation_writeUncut (m : Matrix α) (w : Nat) (t : Int) (v : α) (overwrite : Bool) :
    (m.writeUncut w t v overwrite).2.orientation = m.orientation := by
  unfold writeUncut
  split
  · rfl
  · exact orientation_atSlot m _ fun _ => rfl
  · split_ifs
    · rfl
    · split
      · rfl
      · rename_i hopen
        refine Eq.trans (orientation_atSlot _ _ fun i => ?_) (orientation_openSlotUncut hopen)
        rfl

theorem orientation_set (m : Matrix α) (row col : Int) (v : α) (overwrite : Bool) :
    (m.set row col v overwrite).2.orientation = m.orientation := by
  unfold set
  split
  · rfl
  · split_ifs
    · exact orientation_write m _ _ _ _
    · exact orientation_writeUncut m _ _ _ _

/-- Writes never turn a matrix, whatever state its buffers are in. -/
theorem orientation_writeAll (m : Matrix α) (writes : List (Write α)) :
    (m.writeAll writes).2.orientation = m.orientation := by
  induction writes generalizing m with
  | nil => rfl
  | cons w ws ih =>
    have hset := orientation_set m w.row w.col w.value w.overwrite
    rw [writeAll]
    rcases hout : m.set w.row w.col w.value w.overwrite with ⟨_ | e, next⟩ <;> rw [hout] at hset
    · exact (ih next).trans hset
    · exact hset

end Matrix

end CentralPath.Sparse
