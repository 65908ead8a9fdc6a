/-
  Nothing below the solvers is refused for a division by zero. Matrices refuse positions, offsets and
  lengths, vectors refuse lengths, and the Newton system passes their refusals on; the fault itself is
  left to those who divide.
-/
import CentralPath.Newton.System
import Mathlib

namespace CentralPath

variable {α β γ : Type}

/-- What is computed is not refused for a division by zero. -/
def NotByZero (v : Except (Fault α) β) : Prop := v ≠ .error .divisionByZero

theorem notByZero_ok (b : β) : NotByZero (.ok b : Except (Fault α) β) := nofun

theorem NotByZero.bind {v : Except (Fault α) β} {f : β → Except (Fault α) γ} (h : NotByZero v)
    (hf : ∀ b, NotByZero (f b)) : NotByZero (v >>= f) := by
  rcases v with e | b
  · exact fun he => h (congrArg Except.error (Except.error.inj he))
  · exact hf b

theorem NotByZero.map {v : Except (Fault α) β} (h : NotByZero v) (f : β → γ) : NotByZero (v.map f) := by
  rcases v with e | b
  · exact fun he => h (congrArg Except.error (Except.error.inj he))
  · exact notByZero_ok (f b)

namespace Vector

variable [Scalar α]

theorem notByZero_zip? (f : α → α → α) (a b : Array α) : NotByZero (zip? f a b) := by
  unfold zip? NotByZero
  grind

theorem notByZero_fill? (length : Nat) (a : Array α) : NotByZero (fill? length a) := by
  unfold fill? NotByZero
  grind

theorem notByZero_addTo? (a d : Array α) : NotByZero (addTo? a d) :=
  (notByZero_fill? a.size d).map _

end Vector

namespace Sparse

/-! ## Matrices -/

namespace Matrix

theorem sharingFault?_ne (m : Matrix α) : m.sharingFault? ≠ some .divisionByZero := by
  unfold sharingFault?
  grind

theorem notByZero_storedEntries (m : Matrix α) : NotByZero m.storedEntries := by
  have := m.sharingFault?_ne
  unfold storedEntries NotByZero
  grind

theorem notByZero_locateUncut (m : Matrix α) (w : Nat) (t : Int) : NotByZero (m.locateUncut w t) := by
  unfold locateUncut NotByZero
  grind

theorem notByZero_moved (m : Matrix α) (low high source : Int) :
    NotByZero (m.moved low high source) := by
  unfold moved NotByZero
  grind

theorem notByZero_shiftUpUncut (m : Matrix α) (pos gap : Int) (w : Nat) :
    NotByZero (m.shiftUpUncut pos gap w) := by
  unfold shiftUpUncut
  split_ifs
  · exact (m.notByZero_moved _ _ _).bind fun _ => notByZero_ok _
  · exact notByZero_ok _

theorem notByZero_shiftDownUncut (m : Matrix α) (pos gap : Int) (w : Nat) :
    NotByZero (m.shiftDownUncut pos gap w) := by
  unfold shiftDownUncut
  split_ifs
  · exact (m.notByZero_moved _ _ _).bind fun _ => notByZero_ok _
  · exact notByZero_ok _

theorem notByZero_redistributeUncut [Zero α] (m : Matrix α) (w : Nat) :
    NotByZero (m.redistributeUncut w) := by
  have := m.sharingFault?_ne
  unfold redistributeUncut NotByZero
  grind

theorem notByZero_openSlotUncut [Zero α] (m : Matrix α) (w : Nat) (spot : Place Int) :
    NotByZero (m.openSlotUncut w spot) := by
  unfold openSlotUncut
  have hup := fun p gap => (m.notByZero_shiftUpUncut p gap w).map (·, p)
  have hdown := fun p gap => (m.notByZero_shiftDownUncut p gap w).map (·, p - 1)
  have hredistribute := m.notByZero_redistributeUncut w
  rcases spot with p | p | p
  · exact notByZero_ok _
  · exact notByZero_ok _
  · dsimp only
    split
    · exact hredistribute
    · exact hup p _
    · exact hdown p _
    · split_ifs
      · exact hup p _
      · exact hdown p _

theorem atSlot_ne (m : Matrix α) (p : Int) (f : Nat → Matrix α) :
    (m.atSlot p f).1 ≠ some .divisionByZero := by
  unfold atSlot slotNumber
  grind

variable [Scalar α]

theorem writeUncut_ne (m : Matrix α) (w : Nat) (t : Int) (v : α) (overwrite : Bool) :
    (m.writeUncut w t v overwrite).1 ≠ some .divisionByZero := by
  have hlocate := m.notByZero_locateUncut w t
  have hopen := m.notByZero_openSlotUncut w
  unfold writeUncut NotByZero at *
  grind [atSlot_ne]

theorem set_ne (m : Matrix α) (row col : Int) (v : α) (overwrite : Bool) :
    (m.set row col v overwrite).1 ≠ some .divisionByZero := by
  unfold set outside
  grind [writeUncut_ne]

theorem writeAll_ne (m : Matrix α) (writes : List (Write α)) :
    (m.writeAll writes).1 ≠ some .divisionByZero := by
  induction writes generalizing m with
  | nil => exact nofun
  | cons w ws ih =>
    have hset := m.set_ne w.row w.col w.value w.overwrite
    rw [writeAll]
    rcases hout : m.set w.row w.col w.value w.overwrite with ⟨_ | e, next⟩ <;> rw [hout] at hset
    · exact ih next
    · exact hset

theorem assemble_ne (m : Matrix α) {a : Assembly α} (h : a.stop ≠ some .divisionByZero) :
    (m.assemble a).1 ≠ some .divisionByZero := by
  have hwrites := m.writeAll_ne a.writes
  unfold assemble
  rcases hout : m.writeAll a.writes with ⟨_ | e, written⟩ <;> rw [hout] at hwrites
  · exact h
  · exact hwrites

theorem notByZero_mulVec (m : Matrix α) (v : Array α) (transposed : Bool) :
    NotByZero (m.mulVec v transposed) := by
  have hentries : ∀ entries, NotByZero (m.mulEntries entries v transposed) := by
    intro entries
    unfold mulEntries strayProduct NotByZero
    grind
  unfold mulVec
  by_cases hsize : v.size ≠ (if transposed then m.rows else m.cols)
  · dsimp only
    rw [if_pos hsize]
    exact nofun
  · dsimp only
    rw [if_neg hsize]
    exact m.notByZero_storedEntries.bind hentries

theorem notByZero_mulBlock (m : Matrix α) (v : Array α) (rowSpan colSpan : Span)
    (transposed : Bool) : NotByZero (m.mulBlock v rowSpan colSpan transposed) := by
  have hblock : ∀ (inner outer : Int), NotByZero (do
      if (v.size : Int) ≠ inner then
        throw (.blockVectorUnfit v.size rowSpan.low rowSpan.high colSpan.low colSpan.high)
      let block := blockOf (← m.storedEntries) rowSpan colSpan
      if outer < 0 then throw .negativeLength
      pure (product (oriented transposed block) v outer.toNat)) := by
    intro inner outer
    by_cases hsize : (v.size : Int) ≠ inner
    · rw [if_pos hsize]
      exact nofun
    · rw [if_neg hsize]
      refine m.notByZero_storedEntries.bind fun entries => ?_
      by_cases hlength : outer < 0
      · rw [if_pos hlength]
        exact nofun
      · rw [if_neg hlength]
        exact notByZero_ok _
  cases transposed
  · exact hblock colSpan.length rowSpan.length
  · exact hblock rowSpan.length colSpan.length

end Matrix

end Sparse

namespace Newton.System

/-! ## The Newton system -/

variable [Scalar α] (s : System)

theorem notByZero_slackRatios (y lam diagE : Array α) : NotByZero (slackRatios y lam diagE) := by
  unfold slackRatios
  exact (Vector.notByZero_zip? _ y lam).bind fun ratios => Vector.notByZero_zip? _ ratios diagE

/-- An assembly at an iterate stops for lengths only. -/
theorem iterateAssembly_stop_ne (y lam diagE : Array α) :
    (s.iterateAssembly y lam diagE).stop ≠ some .divisionByZero := by
  have hshort : ∀ length, s.shortage? length ≠ some (.divisionByZero : Fault α) := by
    intro length
    unfold shortage?
    grind
  have hratios := notByZero_slackRatios y lam diagE
  unfold iterateAssembly NotByZero at *
  rcases s.formulation with _ | _
  · exact hshort _
  · cases hdiag : slackRatios y lam diagE with
    | error e => exact fun he => hratios (hdiag.trans (congrArg Except.error (Option.some.inj he)))
    | ok diag => exact hshort _

theorem notByZero_secondOrder? (aim : Aim α) : NotByZero aim.secondOrder? := by
  unfold Aim.secondOrder?
  split
  · exact (Vector.notByZero_zip? _ _ _).map some
  · exact notByZero_ok none

theorem notByZero_rightHandSide (rp rd y lam : Array α) (aim : Aim α) :
    NotByZero (s.rightHandSide rp rd y lam aim) := by
  unfold rightHandSide
  rcases s.formulation with _ | _
  · refine (Vector.notByZero_zip? _ y lam).bind fun gap => ?_
    refine (notByZero_secondOrder? aim).bind fun product => ?_
    rcases product with _ | product
    · exact notByZero_ok _
    · exact (Vector.notByZero_zip? _ gap product).bind fun _ => notByZero_ok _
  · refine (Vector.notByZero_zip? _ (Vector.neg rp) y).bind fun base => ?_
    split_ifs
    on_goal 1 => refine (notByZero_ok base).bind fun centred => ?_
    on_goal 2 => refine (Vector.notByZero_zip? _ base _).bind fun centred => ?_
    -- wherever the centred part comes from, the product is taken off it
    all_goals
      refine (notByZero_secondOrder? aim).bind fun product => ?_
      rcases product with _ | product
      · exact notByZero_ok _
      · refine (Vector.notByZero_zip? _ product lam).bind fun ratios => ?_
        exact (Vector.notByZero_zip? _ centred ratios).bind fun _ => notByZero_ok _

theorem notByZero_direction (solution : Array α) (kkt : Sparse.Matrix α) (rp : Array α)
    (E : Option (Sparse.Matrix α)) : NotByZero (s.direction solution kkt rp E) := by
  unfold direction
  rcases s.formulation with _ | _
  · exact notByZero_ok _
  · refine (kkt.notByZero_mulBlock _ _ _ _).bind fun image => ?_
    refine (Vector.notByZero_zip? _ image rp).bind fun slack => ?_
    rcases E with _ | E
    · exact notByZero_ok _
    · refine (E.notByZero_mulVec _ _).bind fun flow => ?_
      exact (Vector.notByZero_addTo? slack flow).bind fun _ => notByZero_ok _

end Newton.System

end CentralPath
