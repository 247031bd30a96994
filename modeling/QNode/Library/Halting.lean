import Mathlib.Logic.Function.Iterate
import Mathlib.Order.WellFounded

/-!
# Machines that halt

A machine does one step after the other until it is in a final state.
-/

namespace Halting

variable {σ α : Type} {step : σ → σ} {Final : σ → Prop} {I : σ → Prop}

/-- A machine halts if every step that does not end it makes a well-founded measure smaller. -/
theorem exists_final {r : α → α → Prop} (hr : WellFounded r) (measure : σ → α)
    (hstep : ∀ s, ¬ Final s → Final (step s) ∨ r (measure (step s)) (measure s)) (s : σ) :
    ∃ n, Final (step^[n] s) := by
  induction hs : measure s using hr.induction generalizing s with
  | h m ih =>
    by_cases hfinal : Final s
    · exact ⟨0, hfinal⟩
    · rcases hstep s hfinal with hend | hless
      · exact ⟨1, hend⟩
      · obtain ⟨n, hn⟩ := ih (measure (step s)) (hs ▸ hless) (step s) rfl
        exact ⟨n + 1, hn⟩

-- An invariant holds after any number of steps.
theorem iterate_keeps (hstep : ∀ s, I s → I (step s)) {s : σ} (hs : I s) (n : Nat) :
    I (step^[n] s) := by
  induction n with
  | zero => exact hs
  | succ n ih =>
    rw [Function.iterate_succ_apply']
    exact hstep _ ih

end Halting
