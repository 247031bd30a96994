import Mathlib.Data.Nat.Notation
import Mathlib.Order.Defs.LinearOrder

/-!
# Mirroring the blocks of a list in place

A list is cut into blocks of `k` elements and each block is reversed by exchanging its ends, then
the positions next to them, and so on inwards.
-/

namespace Mirror

variable {α : Type}

/-- Exchange the elements at two positions. -/
def exchange (l : List α) (a b : Nat) : List α :=
  match l[a]?, l[b]? with
  | some x, some y => (l.set a y).set b x
  | _, _ => l

/-- Exchange `n` pairs of a block of `k` elements, from its ends inwards. -/
def mirrorEnds (k n start : Nat) (l : List α) : List α :=
  (List.range n).foldl (fun l j ↦ exchange l (start + j) (start + k - 1 - j)) l

/-- Mirror the first `m` blocks of `k` elements. -/
def mirrorBlocks (k m : Nat) (l : List α) : List α :=
  (List.range' 0 m k).foldl (fun l start ↦ mirrorEnds k (k / 2) start l) l

/-- The position that mirrors `x` in its block. -/
def mirror (k x : Nat) : Nat := x / k * k + (k - 1 - x % k)

theorem mirror_block {k q r : Nat} (hr : r < k) : mirror k (q * k + r) = q * k + (k - 1 - r) := by
  have hk : 0 < k := by omega
  rw [mirror, Nat.mul_comm q k, Nat.mul_add_div hk, Nat.mul_add_mod, Nat.div_eq_of_lt hr,
    Nat.mod_eq_of_lt hr, Nat.add_zero, Nat.mul_comm]

theorem mirror_mirror {k : Nat} (hk : 0 < k) (x : Nat) : mirror k (mirror k x) = x := by
  have hmod := Nat.mod_lt x hk
  have hdiv := Nat.div_add_mod x k
  rw [Nat.mul_comm] at hdiv
  have hmirror : mirror k x = x / k * k + (k - 1 - x % k) := rfl
  rw [hmirror, mirror_block (by omega)]
  omega

theorem mirror_lt {k m x : Nat} (hx : x < m * k) : mirror k x < m * k := by
  have hk : 0 < k := Nat.pos_of_mul_pos_left (Nat.zero_lt_of_lt hx)
  have hblock : x / k < m := Nat.div_lt_of_lt_mul (by rw [Nat.mul_comm]; exact hx)
  have hnext : x / k * k + k ≤ m * k := by
    rw [← Nat.succ_mul]
    exact Nat.mul_le_mul_right k hblock
  have hmod := Nat.mod_lt x hk
  unfold mirror
  omega

theorem length_exchange (l : List α) (a b : Nat) : (exchange l a b).length = l.length := by
  unfold exchange
  split
  · rw [List.length_set, List.length_set]
  · rfl

theorem getElem?_exchange {l : List α} {a b : Nat} (ha : a < l.length) (hb : b < l.length) (x : Nat) :
    (exchange l a b)[x]? = if x = a then l[b]? else if x = b then l[a]? else l[x]? := by
  rw [exchange, List.getElem?_eq_getElem ha, List.getElem?_eq_getElem hb]
  dsimp only
  by_cases hxb : b = x
  · subst hxb
    rw [List.getElem?_set_self (by rw [List.length_set]; exact hb)]
    by_cases hab : b = a
    · simp only [hab, if_true]
    · rw [if_neg hab, if_pos rfl]
  · rw [List.getElem?_set_ne hxb, if_neg (Ne.symm hxb)]
    by_cases hxa : a = x
    · subst hxa
      rw [List.getElem?_set_self ha, if_pos rfl]
    · rw [List.getElem?_set_ne hxa, if_neg (Ne.symm hxa)]

section

variable {k n m start : Nat} {l : List α}

theorem mirrorEnds_succ :
    mirrorEnds k (n + 1) start l =
      exchange (mirrorEnds k n start l) (start + n) (start + k - 1 - n) := by
  rw [mirrorEnds, List.range_succ, List.foldl_append]
  rfl

theorem length_mirrorEnds : (mirrorEnds k n start l).length = l.length := by
  induction n with
  | zero => rfl
  | succ n ih => rw [mirrorEnds_succ, length_exchange, ih]

-- The pairs exchanged so far are the outer positions of the block.
theorem getElem?_mirrorEnds (hn : n ≤ k / 2) (hfit : start + k ≤ l.length) (x : Nat) :
    (mirrorEnds k n start l)[x]? =
      if start ≤ x ∧ x < start + k ∧ (x < start + n ∨ start + k ≤ x + n) then
        l[2 * start + k - 1 - x]?
      else l[x]? := by
  induction n generalizing x with
  | zero =>
    rw [if_neg (by omega)]
    rfl
  | succ n ih =>
    have hprev := ih (by omega)
    rw [mirrorEnds_succ, getElem?_exchange (by rw [length_mirrorEnds]; omega)
      (by rw [length_mirrorEnds]; omega)]
    -- the two positions exchanged now have not been exchanged before
    by_cases hlow : x = start + n
    · rw [if_pos hlow, hprev, if_neg (by omega), if_pos (by omega)]
      congr 1
      omega
    · by_cases hhigh : x = start + k - 1 - n
      · rw [if_neg hlow, if_pos hhigh, hprev, if_neg (by omega), if_pos (by omega)]
        congr 1
        omega
      · rw [if_neg hlow, if_neg hhigh, hprev]
        congr 1
        apply propext
        omega

-- Half of the pairs are enough: the middle of an odd block mirrors itself.
theorem getElem?_mirrorEnds_half (hfit : start + k ≤ l.length) (x : Nat) :
    (mirrorEnds k (k / 2) start l)[x]? =
      if start ≤ x ∧ x < start + k then l[2 * start + k - 1 - x]? else l[x]? := by
  rw [getElem?_mirrorEnds (Nat.le_refl _) hfit]
  by_cases hin : start ≤ x ∧ x < start + k
  · rw [if_pos hin]
    by_cases houter : x < start + k / 2 ∨ start + k ≤ x + k / 2
    · rw [if_pos ⟨hin.1, hin.2, houter⟩]
    · rw [if_neg (by omega)]
      congr 1
      omega
  · rw [if_neg hin, if_neg (by omega)]

theorem mirrorBlocks_succ :
    mirrorBlocks k (m + 1) l = mirrorEnds k (k / 2) (m * k) (mirrorBlocks k m l) := by
  rw [mirrorBlocks, List.range'_concat, List.foldl_append, Nat.zero_add, Nat.mul_comm]
  rfl

theorem length_mirrorBlocks : (mirrorBlocks k m l).length = l.length := by
  induction m with
  | zero => rfl
  | succ m ih => rw [mirrorBlocks_succ, length_mirrorEnds, ih]

-- The blocks passed so far are mirrored and the others are as they were.
theorem getElem?_mirrorBlocks (hfit : m * k ≤ l.length) (x : Nat) :
    (mirrorBlocks k m l)[x]? = if x < m * k then l[mirror k x]? else l[x]? := by
  induction m generalizing x with
  | zero =>
    rw [if_neg (by omega)]
    rfl
  | succ m ih =>
    rw [Nat.succ_mul] at hfit ⊢
    have hprev := ih (by omega)
    rw [mirrorBlocks_succ, getElem?_mirrorEnds_half (by rw [length_mirrorBlocks]; omega)]
    by_cases hin : m * k ≤ x ∧ x < m * k + k
    · have hmirror := mirror_block (q := m) (show x - m * k < k by omega)
      rw [Nat.add_sub_cancel' hin.1] at hmirror
      rw [if_pos hin, if_pos hin.2, hprev, if_neg (by omega), hmirror]
      congr 1
      omega
    · rw [if_neg hin, hprev]
      congr 1
      apply propext
      omega

-- Mirroring the blocks of a list twice gives the list back.
theorem mirrorBlocks_mirrorBlocks (hfit : m * k ≤ l.length) :
    mirrorBlocks k m (mirrorBlocks k m l) = l := by
  apply List.ext_getElem?
  intro x
  rw [getElem?_mirrorBlocks (by rw [length_mirrorBlocks]; exact hfit), getElem?_mirrorBlocks hfit,
    getElem?_mirrorBlocks hfit]
  by_cases hx : x < m * k
  · have hk : 0 < k := Nat.pos_of_mul_pos_left (Nat.zero_lt_of_lt hx)
    rw [if_pos hx, if_pos (mirror_lt hx), mirror_mirror hk]
  · rw [if_neg hx, if_neg hx]

end

end Mirror
