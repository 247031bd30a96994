import Mathlib.Algebra.BigOperators.Group.Finset.Basic
import Mathlib.Algebra.Order.BigOperators.Group.Finset
import Mathlib.Data.Nat.Cast.Order.Basic
import Mathlib.Logic.Function.Basic

/-!
# Ledgers

The first `n` of a sequence of accounts, and what they hold together.  A counter that is kept for the total,
such as a reference count, is right as long as every change of an account is a change of the counter.
-/

namespace Ledger

open Finset Function

variable {τ : Type} {n : Nat} {f : τ → Nat} {g h : Nat → τ}

/-- What the accounts below `n` hold. -/
def total (n : Nat) (f : τ → Nat) (g : Nat → τ) : Nat := ∑ i ∈ range n, f (g i)

theorem total_succ : total (n + 1) f g = total n f g + f (g n) := sum_range_succ _ n

theorem total_congr (hgh : ∀ i < n, f (g i) = f (h i)) : total n f g = total n f h :=
  sum_congr rfl fun i hi ↦ hgh i (mem_range.mp hi)

-- One account changes, and the total by as much.
theorem total_update {i : Nat} (hi : i < n) (v : τ) :
    total n f (update g i v) + f (g i) = total n f g + f v := by
  have hmem : i ∈ range n := mem_range.mpr hi
  have hold := add_sum_erase (range n) (fun j ↦ f (g j)) hmem
  have hnew := add_sum_erase (range n) (fun j ↦ f (update g i v j)) hmem
  have hrest : ∑ j ∈ (range n).erase i, f (update g i v j) = ∑ j ∈ (range n).erase i, f (g j) := by
    apply sum_congr rfl
    intro j hj
    rw [update_of_ne (ne_of_mem_erase hj)]
  rw [update_self, hrest] at hnew
  rw [total, total, ← hold, ← hnew]
  omega

-- Accounts beyond the bound are not counted.
theorem total_update_of_le {i : Nat} (hi : n ≤ i) (v : τ) :
    total n f (update g i v) = total n f g := by
  apply total_congr
  intro j hj
  rw [update_of_ne (Nat.ne_of_lt (Nat.lt_of_lt_of_le hj hi))]

theorem le_total {i : Nat} (hi : i < n) : f (g i) ≤ total n f g :=
  single_le_sum_of_canonicallyOrdered (f := fun j ↦ f (g j)) (mem_range.mpr hi)

theorem exists_of_total_pos (hpos : 0 < total n f g) : ∃ i < n, 0 < f (g i) := by
  by_contra hnone
  have hzero : total n f g = 0 := by
    apply sum_eq_zero
    intro i hi
    by_contra hne
    exact hnone ⟨i, mem_range.mp hi, Nat.pos_of_ne_zero hne⟩
  omega

-- A total of at most one belongs to one account.
theorem eq_of_total_le_one (hone : total n f g ≤ 1) {i j : Nat} (hi : i < n) (hj : j < n)
    (hfi : 0 < f (g i)) (hfj : 0 < f (g j)) : i = j := by
  by_contra hne
  have hmem : j ∈ (range n).erase i := mem_erase.mpr ⟨Ne.symm hne, mem_range.mpr hj⟩
  have hsum := add_sum_erase (range n) (fun k ↦ f (g k)) (mem_range.mpr hi)
  have hle := single_le_sum_of_canonicallyOrdered (f := fun k ↦ f (g k)) hmem
  have htotal : total n f g = ∑ k ∈ range n, f (g k) := rfl
  omega

end Ledger
