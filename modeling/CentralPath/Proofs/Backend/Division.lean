/-
  Division by zero. A field has a quotient for every denominator, where a program stops or goes on
  with an infinity. Work that never divides by zero cannot tell: with any other quotients in the place
  of those by zero it runs to the same end. This is what `NeverDividesByZero` says of work over any
  arithmetic, and it is put together along the program. The work is a function of the arithmetic, so
  every quotient in it is exchanged, in whatever function it stands.
-/
import CentralPath.Proofs.Backend.Work
import CentralPath.Proofs.Scalar.OrderedField

namespace CentralPath

/-- The same arithmetic with other quotients. -/
@[reducible] def Elementary.withQuotient {α : Type} (E : Elementary α) (quotient : α → α → α) :
    Elementary α :=
  { E with div := quotient }

variable {K : Type} [Field K]

/-- The quotients are those of the field as far as no denominator is zero. -/
def IsQuotient (quotient : K → K → K) : Prop := ∀ a b, b ≠ 0 → quotient a b = a / b

namespace Backend.Work

variable [LinearOrder K] [ElementaryFunctions K] {ς σ β γ : Type} {r : Session ς σ K}

/-- The arithmetic of the field. -/
@[reducible] def fieldArithmetic (K : Type) [Field K] [LinearOrder K] [ElementaryFunctions K] :
    Elementary K := inferInstance

/-- From session `r` the work never divides by zero: whatever such quotients are taken to be, it
runs to the same end. -/
def NeverDividesByZero (w : Elementary K → Work ς σ K β) (r : Session ς σ K) : Prop :=
  ∀ quotient, IsQuotient quotient →
    (w ((fieldArithmetic K).withQuotient quotient)).run.run r = (w (fieldArithmetic K)).run.run r

/-- Work is free of such quotients where it is the same work. -/
theorem neverDividesByZero_of_eq {w : Elementary K → Work ς σ K β}
    (h : ∀ quotient, IsQuotient quotient →
      w ((fieldArithmetic K).withQuotient quotient) = w (fieldArithmetic K)) :
    NeverDividesByZero w r := by
  intro quotient hquotient
  rw [h quotient hquotient]

/-- So is work after work, if it is from wherever the first part ends. -/
theorem NeverDividesByZero.bind {w : Elementary K → Work ς σ K γ}
    {f : Elementary K → γ → Work ς σ K β} (h : NeverDividesByZero w r)
    (hf : Ends (w (fieldArithmetic K)) (fun c r' => NeverDividesByZero (fun E => f E c) r')
      (fun _ _ => True) r) :
    NeverDividesByZero (fun E => w E >>= f E) r := by
  intro quotient hquotient
  have hw := h quotient hquotient
  unfold Ends at hf
  rcases hrun : (w (fieldArithmetic K)).run.run r with ⟨e | c, r'⟩
  · rw [run_bind_of_error hrun, run_bind_of_error (hw.trans hrun)]
  · rw [hrun] at hf
    rw [run_bind_of_ok hrun, run_bind_of_ok (hw.trans hrun)]
    exact hf quotient hquotient

/-- So is work after work, if it is from every session. -/
theorem NeverDividesByZero.seq {w : Elementary K → Work ς σ K γ}
    {f : Elementary K → γ → Work ς σ K β} (h : NeverDividesByZero w r)
    (hf : ∀ c r', NeverDividesByZero (fun E => f E c) r') :
    NeverDividesByZero (fun E => w E >>= f E) r := by
  refine h.bind ?_
  exact (ends_run (w (fieldArithmetic K)) r).mono (fun c r' _ => hf c r') fun _ _ _ => trivial

theorem NeverDividesByZero.solver_bind {f : Elementary K → ς → Work ς σ K β}
    (h : NeverDividesByZero (fun E => f E r.solver) r) :
    NeverDividesByZero (fun E => solver >>= f E) r := h

/-- A value on the way is one that both arithmetics agree on. -/
theorem NeverDividesByZero.value {v : Elementary K → γ} {f : Elementary K → γ → Work ς σ K β}
    (hv : ∀ quotient, IsQuotient quotient →
      v ((fieldArithmetic K).withQuotient quotient) = v (fieldArithmetic K))
    (hf : NeverDividesByZero (fun E => f E (v (fieldArithmetic K))) r) :
    NeverDividesByZero (fun E => f E (v E)) r := by
  intro quotient hquotient
  have hrun := hf quotient hquotient
  dsimp only at hrun ⊢
  rw [hv quotient hquotient]
  exact hrun

/-- Both arithmetics have the same order. -/
theorem NeverDividesByZero.ite_lt {a b : K} {w w' : Elementary K → Work ς σ K β}
    (h : a < b → NeverDividesByZero w r) (h' : ¬a < b → NeverDividesByZero w' r) :
    NeverDividesByZero (fun E =>
      @ite _ (E.toScalar.toLT.lt a b) (E.toScalar.decLt a b) (w E) (w' E)) r := by
  intro quotient hquotient
  show (if a < b then w ((fieldArithmetic K).withQuotient quotient)
    else w' ((fieldArithmetic K).withQuotient quotient)).run.run r =
      (if a < b then w (fieldArithmetic K) else w' (fieldArithmetic K)).run.run r
  split_ifs with hlt
  · exact h hlt quotient hquotient
  · exact h' hlt quotient hquotient

theorem NeverDividesByZero.lift_bind {v : Elementary K → Except (Fault K) γ}
    {f : Elementary K → γ → Work ς σ K β}
    (hv : ∀ quotient, IsQuotient quotient →
      v ((fieldArithmetic K).withQuotient quotient) = v (fieldArithmetic K))
    (hf : ∀ c, v (fieldArithmetic K) = .ok c → NeverDividesByZero (fun E => f E c) r) :
    NeverDividesByZero (fun E => lift (v E) >>= f E) r := by
  have hlift := neverDividesByZero_of_eq (w := fun E => (lift (v E) : Work ς σ K γ)) (r := r)
    fun quotient hquotient => by rw [hv quotient hquotient]
  refine hlift.bind ?_
  rw [ends_lift]
  rcases hc : v (fieldArithmetic K) with e | c
  · trivial
  · exact hf c hc

theorem NeverDividesByZero.change_bind {g : Elementary K → ς → ς}
    {f : Elementary K → Unit → Work ς σ K β}
    (hg : ∀ quotient, IsQuotient quotient →
      g ((fieldArithmetic K).withQuotient quotient) r.solver = g (fieldArithmetic K) r.solver)
    (hf : NeverDividesByZero (fun E => f E ())
      { r with solver := g (fieldArithmetic K) r.solver }) :
    NeverDividesByZero (fun E => change (g E) >>= f E) r := by
  intro quotient hquotient
  rw [run_change_bind, run_change_bind, hg quotient hquotient]
  exact hf quotient hquotient

end Backend.Work

end CentralPath
