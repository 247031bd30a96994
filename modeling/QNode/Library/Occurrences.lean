import Mathlib.Order.Bounds.Defs
import QNode.Library.Splice

/-!
# Occurrences of one list in another

A search from a position answers the first place at which something holds, or -1.
-/

open Splice

namespace Occurrences

/-- `r` is the first place from `start` on at which `P` holds, or -1 if there is none. -/
def IsFirst (P : Nat → Prop) (start : Nat) (r : Int) : Prop :=
  (∃ i : Nat, r = i ∧ IsLeast {i | start ≤ i ∧ P i} i) ∨ (r = -1 ∧ ∀ i, start ≤ i → ¬ P i)

/-- The place as a number. -/
def placeOf : Option Nat → Int
  | some i => i
  | none => -1

section

variable {P : Nat → Prop} {start : Nat} {r r' : Int}

theorem IsFirst.unique (h : IsFirst P start r) (h' : IsFirst P start r') : r = r' := by
  rcases h with ⟨i, rfl, hleast⟩ | ⟨rfl, hnone⟩
  · rcases h' with ⟨j, rfl, hleast'⟩ | ⟨rfl, hnone'⟩
    · have hij := hleast.2 hleast'.1
      have hji := hleast'.2 hleast.1
      omega
    · exact absurd hleast.1.2 (hnone' i hleast.1.1)
  · rcases h' with ⟨j, rfl, hleast'⟩ | ⟨rfl, hnone'⟩
    · exact absurd hleast'.1.2 (hnone j hleast'.1.1)
    · rfl

theorem IsFirst.nonneg_iff (h : IsFirst P start r) : 0 ≤ r ↔ ∃ i, start ≤ i ∧ P i := by
  rcases h with ⟨i, rfl, hleast⟩ | ⟨rfl, hnone⟩
  · exact iff_of_true (Int.natCast_nonneg i) ⟨i, hleast.1⟩
  · exact iff_of_false (by decide) fun ⟨i, hi, hP⟩ ↦ hnone i hi hP

theorem IsFirst.le (h : IsFirst P start r) {n : Nat} (hn : ∀ i, P i → i ≤ n) : r ≤ n := by
  rcases h with ⟨i, rfl, hleast⟩ | ⟨rfl, -⟩
  · exact Int.ofNat_le.mpr (hn i hleast.1.2)
  · omega

-- Looking at one place after the other, where nothing is found from `stop` on.
theorem isFirst_find {p : Nat → Bool} {stop : Nat} (h : ∀ i, P i ↔ i < stop ∧ p i) :
    IsFirst P start (placeOf ((List.range' start (stop - start)).find? p)) := by
  cases hfind : (List.range' start (stop - start)).find? p with
  | some i =>
    obtain ⟨hp, hmem, hbefore⟩ := List.find?_range'_eq_some.mp hfind
    rw [List.mem_range'_1] at hmem
    refine .inl ⟨i, rfl, ⟨hmem.1, (h i).mpr ⟨by omega, hp⟩⟩, ?_⟩
    rintro j ⟨hstart, hP⟩
    refine Nat.le_of_not_lt fun hlt ↦ ?_
    have hnot := hbefore j hstart hlt
    rw [((h j).mp hP).2] at hnot
    cases hnot
  | none =>
    rw [List.find?_range'_eq_none] at hfind
    refine .inr ⟨rfl, fun i hstart hP ↦ ?_⟩
    obtain ⟨hstop, hp⟩ := (h i).mp hP
    have hnot := hfind i hstart (by omega)
    rw [hp] at hnot
    cases hnot

end

section

variable {α : Type} {text pattern : List α}

def OccursAt (text pattern : List α) (i : Nat) : Prop :=
  i + pattern.length ≤ text.length ∧ slice text i pattern.length = pattern

theorem occursAt_nil {i : Nat} : OccursAt text [] i ↔ i ≤ text.length := by
  rw [OccursAt, List.length_nil, Nat.add_zero, and_iff_left]
  exact List.take_zero

theorem occursAt_singleton {x : α} {i : Nat} : OccursAt text [x] i ↔ text[i]? = some x := by
  unfold OccursAt slice
  rw [List.length_singleton, List.take_one, List.head?_drop]
  constructor
  · rintro ⟨-, hhead⟩
    cases hx : text[i]? with
    | none =>
      rw [hx] at hhead
      cases hhead
    | some y =>
      rw [hx] at hhead
      rw [List.singleton_inj.mp hhead]
  · intro hx
    rw [hx]
    exact ⟨(List.getElem?_eq_some_iff.mp hx).1, rfl⟩

end

end Occurrences
