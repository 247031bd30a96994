import Mathlib.Algebra.Group.Nat.Defs
import Mathlib.Data.List.Nodup

/-!
# The last index with a property

The greatest index below a bound that has a property.  A list whose elements point back to the previous
element of their class, and a head for each class, give it for every property that implies a class: it is
found by following the links from the head.
-/

namespace LastIndex

/-- The greatest index below `n` that satisfies `p`. -/
def lastBelow (p : Nat → Bool) : Nat → Option Nat
  | 0 => none
  | n + 1 => if p n then some n else lastBelow p n

theorem lastBelow_succ_pos {p : Nat → Bool} {n : Nat} (h : p n) : lastBelow p (n + 1) = some n := by
  rw [lastBelow, if_pos h]

theorem lastBelow_succ_neg {p : Nat → Bool} {n : Nat} (h : ¬ p n) :
    lastBelow p (n + 1) = lastBelow p n := by
  rw [lastBelow, if_neg h]

theorem lastBelow_congr {p q : Nat → Bool} {n : Nat} (h : ∀ i < n, p i = q i) :
    lastBelow p n = lastBelow q n := by
  induction n with
  | zero => rfl
  | succ n ih =>
    rw [lastBelow, lastBelow, h n (Nat.lt_succ_self n), ih fun i hi ↦ h i (Nat.lt_succ_of_lt hi)]

theorem lastBelow_eq_none_iff {p : Nat → Bool} {n : Nat} :
    lastBelow p n = none ↔ ∀ i < n, ¬ p i := by
  induction n with
  | zero => simp [lastBelow]
  | succ n ih =>
    by_cases hp : p n
    · rw [lastBelow_succ_pos hp]
      exact iff_of_false (Option.some_ne_none n) fun h ↦ h n (Nat.lt_succ_self n) hp
    · rw [lastBelow_succ_neg hp, ih]
      refine ⟨fun h i hi ↦ ?_, fun h i hi ↦ h i (Nat.lt_succ_of_lt hi)⟩
      by_cases heq : i = n
      · rw [heq]
        exact hp
      · exact h i (by omega)

theorem lastBelow_eq_some {p : Nat → Bool} {n i : Nat} (h : lastBelow p n = some i) :
    i < n ∧ p i := by
  induction n with
  | zero => cases h
  | succ n ih =>
    rw [lastBelow] at h
    split at h
    · next hp =>
      cases h
      exact ⟨Nat.lt_succ_self _, hp⟩
    · have hlast := ih h
      exact ⟨Nat.lt_succ_of_lt hlast.1, hlast.2⟩

/-- Follow links from a head to an index that satisfies `p`, for at most `fuel` of them. -/
def walk (p : Nat → Bool) (next : Nat → Option Nat) : Nat → Option Nat → Option Nat
  | 0, _ => none
  | _ + 1, none => none
  | fuel + 1, some i => if p i then some i else walk p next fuel (next i)

-- Links within a class lead to the last index with a property of that class.
theorem walk_eq_lastBelow {p : Nat → Bool} {cls : Nat → Bool} {next : Nat → Option Nat} {n : Nat}
    (hcls : ∀ i < n, p i → cls i) (hnext : ∀ i < n, cls i → next i = lastBelow cls i)
    (fuel : Nat) (hfuel : n ≤ fuel) : walk p next fuel (lastBelow cls n) = lastBelow p n := by
  induction n generalizing fuel with
  | zero =>
    cases fuel with
    | zero => rfl
    | succ fuel => rfl
  | succ n ih =>
    have hrest := fun (f : Nat) (hf : n ≤ f) ↦ ih (fun i hi ↦ hcls i (Nat.lt_succ_of_lt hi))
      (fun i hi ↦ hnext i (Nat.lt_succ_of_lt hi)) f hf
    by_cases hc : cls n
    · rw [lastBelow_succ_pos hc]
      cases fuel with
      | zero => omega
      | succ fuel =>
        rw [walk]
        by_cases hp : p n
        · rw [if_pos hp, lastBelow_succ_pos hp]
        · rw [if_neg hp, lastBelow_succ_neg hp, hnext n (Nat.lt_succ_self n) hc]
          exact hrest fuel (by omega)
    · rw [lastBelow_succ_neg hc, lastBelow_succ_neg fun hp ↦ hc (hcls n (Nat.lt_succ_self n) hp)]
      exact hrest fuel (by omega)

end LastIndex
