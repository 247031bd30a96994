import Mathlib.Data.List.Basic

/-!
# Loops over a list that changes

A loop goes over a list by index while its body changes the list.  It is on course when what it has
visited and what lies ahead of it hold the elements that were there when it began, once and in order.
Elements added at the end are visited too; an element taken out moves those behind it towards the loop.
-/

namespace LiveLoop

variable {β : Type}

theorem drop_eraseIdx_below {l : List β} {i k : Nat} (hk : k < i) (hlen : k < l.length) :
    (l.eraseIdx k).drop i = l.drop (i + 1) := by
  have htake : (l.take k).length = k := by
    rw [List.length_take]
    omega
  rw [List.eraseIdx_eq_take_drop_succ, List.drop_append, List.drop_eq_nil_of_le (by omega), htake,
    List.nil_append, List.drop_drop]
  congr 1
  omega

theorem drop_eraseIdx_above {l : List β} {i k : Nat} (hk : i ≤ k) (hlen : k < l.length) :
    l.drop i = (l.drop i).take (k - i) ++ l[k] :: l.drop (k + 1) ∧
      (l.eraseIdx k).drop i = (l.drop i).take (k - i) ++ l.drop (k + 1) := by
  have hrest : (l.drop i).drop (k - i) = l[k] :: l.drop (k + 1) := by
    rw [List.drop_drop, Nat.add_sub_cancel' hk, List.drop_eq_getElem_cons hlen]
  refine ⟨by rw [← hrest, List.take_append_drop], ?_⟩
  have htake : (l.take k).length = k := by
    rw [List.length_take]
    omega
  rw [List.eraseIdx_eq_take_drop_succ, List.drop_append, htake, Nat.sub_eq_zero_of_le hk,
    List.drop_zero, List.drop_take]

variable [DecidableEq β]

def OnCourse (began visited ahead : List β) : Prop :=
  (visited ++ ahead).filter (· ∈ began) = began

variable {began visited ahead : List β}

theorem onCourse_start (l : List β) : OnCourse l [] l := by
  show l.filter (· ∈ l) = l
  rw [List.filter_eq_self]
  exact fun x hx ↦ decide_eq_true hx

theorem onCourse_visit_iff {x : β} :
    OnCourse began (visited ++ [x]) ahead ↔ OnCourse began visited (x :: ahead) := by
  unfold OnCourse
  rw [List.append_assoc, List.singleton_append]

theorem onCourse_end_iff :
    OnCourse began visited [] ↔ visited.filter (· ∈ began) = began := by
  unfold OnCourse
  rw [List.append_nil]

theorem onCourse_push_iff {x : β} (hx : x ∉ began) :
    OnCourse began visited (ahead ++ [x]) ↔ OnCourse began visited ahead := by
  unfold OnCourse
  rw [← List.append_assoc, List.filter_append, List.filter_singleton, decide_eq_false hx]
  simp

-- Of a loop that is on course an element may be taken away if it was not there at the beginning.
theorem OnCourse.remove_iff {x : β} {before after : List β}
    (h : OnCourse began visited (before ++ x :: after)) :
    OnCourse began visited (before ++ after) ↔ x ∉ began := by
  have hsplit : ∀ l : List β, (visited ++ (before ++ l)).filter (· ∈ began) =
      (visited ++ before).filter (· ∈ began) ++ l.filter (· ∈ began) := by
    intro l
    rw [← List.append_assoc, List.filter_append]
  unfold OnCourse at h ⊢
  rw [hsplit] at h ⊢
  constructor
  · intro hafter hx
    have hlen := congrArg List.length (h.trans hafter.symm)
    rw [List.filter_cons_of_pos (by simpa using hx), List.length_append, List.length_append,
      List.length_cons] at hlen
    omega
  · intro hx
    rw [List.filter_cons_of_neg (by simpa using hx)] at h
    exact h

/-- The element that a loop loses when the element at index `k` is taken out, `i` being the index that
the loop looks at next: the one that slips below `i`, or the one taken out. -/
def lost (l : List β) (i k : Nat) : Option β := if k < i then l[i]? else l[k]?

-- What taking an element out does to a loop on course.
theorem OnCourse.eraseIdx_iff {l : List β} {i k : Nat} (hlen : k < l.length)
    (h : OnCourse began visited (l.drop i)) :
    OnCourse began visited ((l.eraseIdx k).drop i) ↔ ∀ x ∈ lost l i k, x ∉ began := by
  unfold lost
  by_cases hk : k < i
  · rw [if_pos hk, drop_eraseIdx_below hk hlen]
    by_cases hi : i < l.length
    · rw [List.drop_eq_getElem_cons hi] at h
      have hremove : OnCourse began visited ([] ++ l.drop (i + 1)) ↔ l[i] ∉ began :=
        OnCourse.remove_iff h
      simpa [List.getElem?_eq_getElem hi] using hremove
    · have hnil : l.drop i = [] := List.drop_eq_nil_of_le (Nat.le_of_not_lt hi)
      have hnil' : l.drop (i + 1) = [] := List.drop_eq_nil_of_le (by omega)
      rw [hnil] at h
      rw [hnil', List.getElem?_eq_none (Nat.le_of_not_lt hi)]
      exact iff_of_true h (by simp)
  · have hle := Nat.le_of_not_lt hk
    obtain ⟨hdrop, herase⟩ := drop_eraseIdx_above hle hlen
    rw [hdrop] at h
    rw [if_neg hk, herase, h.remove_iff, List.getElem?_eq_getElem hlen]
    simp

end LiveLoop
