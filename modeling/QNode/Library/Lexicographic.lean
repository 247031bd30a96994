/-!
# Comparison by the sign of an integer

Lists have the lexicographic order.  A comparison of two lists of one length is extended to all lists
by a comparison of the lengths.
-/

namespace Lexicographic

/-- The sign of `n` is the order of `a` and `b`. -/
structure Orders {β : Type} [LT β] (n : Int) (a b : β) : Prop where
  neg_iff : n < 0 ↔ a < b
  zero_iff : n = 0 ↔ a = b
  pos_iff : 0 < n ↔ b < a

namespace Orders

variable {β : Type} [LT β] {a b c : β} {m n : Int}

theorem sign_neg (h : Orders m a b) (h' : Orders n b a) : m.sign = -n.sign := by
  rcases Int.lt_trichotomy m 0 with hm | hm | hm
  · rw [Int.sign_eq_neg_one_of_neg hm, Int.sign_eq_one_of_pos (h'.pos_iff.mpr (h.neg_iff.mp hm))]
  · rw [hm, h'.zero_iff.mpr (h.zero_iff.mp hm).symm]
    rfl
  · rw [Int.sign_eq_one_of_pos hm, Int.sign_eq_neg_one_of_neg (h'.neg_iff.mpr (h.pos_iff.mp hm))]
    rfl

theorem sign_eq (h : Orders m a b) (h' : Orders n a b) : m.sign = n.sign := by
  rcases Int.lt_trichotomy m 0 with hm | hm | hm
  · rw [Int.sign_eq_neg_one_of_neg hm, Int.sign_eq_neg_one_of_neg (h'.neg_iff.mpr (h.neg_iff.mp hm))]
  · rw [hm, h'.zero_iff.mpr (h.zero_iff.mp hm)]
  · rw [Int.sign_eq_one_of_pos hm, Int.sign_eq_one_of_pos (h'.pos_iff.mpr (h.pos_iff.mp hm))]

theorem nonpos_iff (h : Orders n a b) : n ≤ 0 ↔ a < b ∨ a = b := by
  rw [← h.neg_iff, ← h.zero_iff]
  omega

theorem nonpos_trans [Trans (α := β) (β := β) (γ := β) (· < ·) (· < ·) (· < ·)] {k : Int}
    (hab : Orders m a b) (hbc : Orders n b c) (hac : Orders k a c) (hm : m ≤ 0) (hn : n ≤ 0) :
    k ≤ 0 := by
  rw [hac.nonpos_iff]
  rcases hab.nonpos_iff.mp hm with hlt | rfl
  · rcases hbc.nonpos_iff.mp hn with hlt' | rfl
    · exact .inl (Trans.trans hlt hlt')
    · exact .inl hlt
  · exact hbc.nonpos_iff.mp hn

section

variable [Std.Asymm (α := β) (· < ·)]

theorem of_lt (hn : n < 0) (h : a < b) : Orders n a b where
  neg_iff := iff_of_true hn h
  zero_iff := iff_of_false (by omega) fun heq ↦ Std.Asymm.asymm a b h (heq ▸ h)
  pos_iff := iff_of_false (by omega) (Std.Asymm.asymm a b h)

theorem of_eq (a : β) : Orders 0 a a where
  neg_iff := iff_of_false (by omega) fun h ↦ Std.Asymm.asymm a a h h
  zero_iff := iff_of_true rfl rfl
  pos_iff := iff_of_false (by omega) fun h ↦ Std.Asymm.asymm a a h h

theorem of_gt (hn : 0 < n) (h : b < a) : Orders n a b where
  neg_iff := iff_of_false (by omega) (Std.Asymm.asymm b a h)
  zero_iff := iff_of_false (by omega) fun heq ↦ Std.Asymm.asymm b a h (heq ▸ h)
  pos_iff := iff_of_true hn h

end

end Orders

/-! ## Lists of different lengths -/

variable {α : Type} [LT α]

theorem append_lt_append {p q : List α} (hlen : p.length = q.length) (h : p < q) (r s : List α) :
    p ++ r < q ++ s := by
  induction p generalizing q with
  | nil =>
    rw [List.length_nil] at hlen
    rw [List.length_eq_zero_iff.mp hlen.symm] at h
    exact absurd h (List.not_lt_nil [])
  | cons x p ih =>
    cases q with
    | nil => cases hlen
    | cons y q =>
      rw [List.cons_append, List.cons_append, List.cons_lt_cons_iff]
      rw [List.cons_lt_cons_iff] at h
      rcases h with hxy | ⟨hxy, hpq⟩
      · exact .inl hxy
      · exact .inr ⟨hxy, ih (Nat.succ.inj hlen) hpq⟩

theorem lt_of_take_lt_take {a b : List α} {k : Nat} (ha : k ≤ a.length) (hb : k ≤ b.length)
    (h : a.take k < b.take k) : a < b := by
  have hlen : (a.take k).length = (b.take k).length := by
    rw [List.length_take, List.length_take]
    omega
  have happend := append_lt_append hlen h (a.drop k) (b.drop k)
  rw [List.take_append_drop, List.take_append_drop] at happend
  exact happend

/-- The result of a comparison of the common length, or else the order of the lengths. -/
def tieBreak (n : Int) (l l' : Nat) : Int :=
  if n = 0 then (if l > l' then 1 else 0) - (if l < l' then 1 else 0) else n

theorem lt_of_take_eq {a b : List α} (h : a = b.take a.length) (hlen : a.length < b.length) : a < b :=
  List.lt_iff_exists.mpr (.inl ⟨h, hlen⟩)

variable [Std.Asymm (α := α) (· < ·)]

theorem orders_tieBreak {n : Int} {a b : List α}
    (h : Orders n (a.take (min a.length b.length)) (b.take (min a.length b.length))) :
    Orders (tieBreak n a.length b.length) a b := by
  unfold tieBreak
  rcases Int.lt_trichotomy n 0 with hn | hn | hn
  · rw [if_neg (by omega)]
    exact .of_lt hn (lt_of_take_lt_take (by omega) (by omega) (h.neg_iff.mp hn))
  · have hcommon := h.zero_iff.mp hn
    rw [if_pos hn]
    rcases Nat.lt_trichotomy a.length b.length with hlt | heq | hgt
    · rw [Nat.min_eq_left (by omega), List.take_length] at hcommon
      rw [if_neg (by omega), if_pos hlt]
      exact .of_lt (by omega) (lt_of_take_eq hcommon hlt)
    · rw [← heq, Nat.min_self, List.take_length, heq, List.take_length] at hcommon
      rw [if_neg (by omega), if_neg (by omega), hcommon]
      exact .of_eq b
    · rw [Nat.min_eq_right (by omega), List.take_length] at hcommon
      rw [if_pos hgt, if_neg (by omega)]
      exact .of_gt (by omega) (lt_of_take_eq hcommon.symm hgt)
  · rw [if_neg (by omega)]
    exact .of_gt hn (lt_of_take_lt_take (by omega) (by omega) (h.pos_iff.mp hn))

end Lexicographic
