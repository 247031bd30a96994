import Mathlib.Data.List.Defs

/-!
# Handles that are acquired, read and released

A run is seen as the accesses it makes to its handles, in order.  It is disciplined when every handle it
acquires is released once and is not read after that.
-/

namespace Handles

inductive Access (η : Type)
  | acquire (h : η)
  | read (h : η)
  | release (h : η)
  deriving DecidableEq, Repr

variable {η : Type} [DecidableEq η]

def Access.acquired : Access η → Option η
  | .acquire h => some h
  | _ => none

def acquired (tr : List (Access η)) : List η := tr.filterMap Access.acquired

/-- What follows the first release of a handle. -/
def afterRelease (h : η) : List (Access η) → List (Access η)
  | [] => []
  | e :: tr => if e = .release h then tr else afterRelease h tr

def Disciplined (tr : List (Access η)) : Prop :=
  ∀ h ∈ acquired tr, tr.count (.release h) = 1 ∧ .read h ∉ afterRelease h tr

instance (tr : List (Access η)) : Decidable (Disciplined tr) :=
  inferInstanceAs (Decidable (∀ h ∈ acquired tr, _))

theorem disciplined_nil : Disciplined ([] : List (Access η)) := by
  intro h hmem
  cases hmem

omit [DecidableEq η] in
theorem acquired_append (tr tr' : List (Access η)) :
    acquired (tr ++ tr') = acquired tr ++ acquired tr' :=
  List.filterMap_append

theorem afterRelease_append {h : η} {tr : List (Access η)} (hreleased : .release h ∈ tr)
    (tr' : List (Access η)) : afterRelease h (tr ++ tr') = afterRelease h tr ++ tr' := by
  induction tr with
  | nil => cases hreleased
  | cons e tr ih =>
    rw [List.cons_append, afterRelease, afterRelease]
    by_cases he : e = .release h
    · rw [if_pos he, if_pos he]
    · rw [if_neg he, if_neg he]
      exact ih ((List.mem_cons.mp hreleased).resolve_left (Ne.symm he))

-- A handle that is read once it is released.
theorem not_disciplined_of_read {h : η} {tr : List (Access η)} (hacquired : h ∈ acquired tr)
    (hreleased : .release h ∈ tr) (tr' : List (Access η)) :
    ¬ Disciplined (tr ++ .read h :: tr') := by
  intro hall
  have hmem : h ∈ acquired (tr ++ .read h :: tr') := by
    rw [acquired_append]
    exact List.mem_append_left _ hacquired
  apply (hall h hmem).2
  rw [afterRelease_append hreleased]
  exact List.mem_append_right _ List.mem_cons_self

-- A run that stops before it releases a handle.
theorem not_disciplined_of_held {h : η} {tr : List (Access η)} (hacquired : h ∈ acquired tr)
    (hheld : .release h ∉ tr) : ¬ Disciplined tr := by
  intro hall
  have hcount := (hall h hacquired).1
  rw [List.count_eq_zero_of_not_mem hheld] at hcount
  cases hcount

end Handles
