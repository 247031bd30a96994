import Mathlib.Algebra.Group.Nat.Defs

/-!
# Numbers as lists of bits

The bits of a number, most significant first, and the bytes that a list of bits fills.
-/

namespace Bits

/-- The low `k` bits of a number. -/
def bits : Nat → Nat → List Bool
  | 0, _ => []
  | k + 1, v => v.testBit k :: bits k v

def ofBits (l : List Bool) : Nat := l.foldl (fun n b ↦ 2 * n + b.toNat) 0

/-- The bytes of a list of bits; a last part of fewer than eight bits is left out. -/
def bytes : List Bool → List UInt8
  | a :: b :: c :: d :: e :: f :: g :: h :: rest =>
    UInt8.ofNat (ofBits [a, b, c, d, e, f, g, h]) :: bytes rest
  | _ => []

-- What holds of the numbers below 256 holds of every byte.
theorem forall_byte {P : UInt8 → Prop} (h : ∀ i : Fin 256, P (UInt8.ofNat i)) (c : UInt8) : P c := by
  have hc := h ⟨c.toNat, c.toNat_lt⟩
  rw [UInt8.ofNat_toNat] at hc
  exact hc

@[simp] theorem length_bits (k v : Nat) : (bits k v).length = k := by
  induction k with
  | zero => rfl
  | succ k ih => rw [bits, List.length_cons, ih]

theorem bits_add (m n v : Nat) : bits (m + n) v = bits m (v / 2 ^ n) ++ bits n v := by
  induction m with
  | zero => rw [Nat.zero_add, bits, List.nil_append]
  | succ m ih =>
    rw [Nat.succ_add, bits, bits, ih, Nat.testBit_div_two_pow, List.cons_append]

theorem bits_mod (k v : Nat) : bits k (v % 2 ^ k) = bits k v := by
  have hlow : ∀ j ≤ k, bits j (v % 2 ^ k) = bits j v := by
    intro j hj
    induction j with
    | zero => rfl
    | succ j ih =>
      rw [bits, bits, ih (by omega), Nat.testBit_mod_two_pow, decide_eq_true (by omega),
        Bool.true_and]
  exact hlow k (Nat.le_refl k)

theorem bits_concat {m n a b : Nat} (hb : b < 2 ^ n) :
    bits (m + n) (a * 2 ^ n + b) = bits m a ++ bits n b := by
  have hlow := bits_mod n (a * 2 ^ n + b)
  rw [Nat.mul_add_mod_self_right, Nat.mod_eq_of_lt hb] at hlow
  rw [bits_add, ← hlow, Nat.add_comm (a * 2 ^ n), Nat.add_mul_div_right _ _ (Nat.two_pow_pos n),
    Nat.div_eq_of_lt hb, Nat.zero_add]

theorem foldl_bits (k v n : Nat) :
    (bits k v).foldl (fun n b ↦ 2 * n + b.toNat) n = n * 2 ^ k + v % 2 ^ k := by
  induction k generalizing n with
  | zero => simp [bits, Nat.mod_one]
  | succ k ih =>
    rw [bits, List.foldl_cons, ih, Nat.mod_pow_succ, Nat.toNat_testBit, Nat.add_mul, Nat.pow_succ,
      Nat.mul_comm (v / 2 ^ k % 2), Nat.mul_comm (2 ^ k) 2, ← Nat.mul_assoc, Nat.mul_comm n 2]
    omega

theorem ofBits_bits (k v : Nat) : ofBits (bits k v) = v % 2 ^ k := by
  rw [ofBits, foldl_bits, Nat.zero_mul, Nat.zero_add]

-- The first eight bits fill a byte.
theorem bytes_bits_add (n v : Nat) (rest : List Bool) :
    bytes (bits (8 + n) v ++ rest) = UInt8.ofNat (v / 2 ^ n) :: bytes (bits n v ++ rest) := by
  have hvalue : UInt8.ofNat (ofBits (bits 8 (v / 2 ^ n))) = UInt8.ofNat (v / 2 ^ n) := by
    rw [ofBits_bits]
    apply UInt8.toNat_inj.mp
    simp
  rw [bits_add, List.append_assoc, ← hvalue]
  rfl

theorem length_bytes (l : List Bool) : (bytes l).length = l.length / 8 := by
  fun_induction bytes l with
  | case1 a b c d e f g h rest ih =>
    simp only [List.length_cons, ih]
    omega
  | case2 l hshort =>
    match l with
    | [] | [_] | [_, _] | [_, _, _] | [_, _, _, _] | [_, _, _, _, _] | [_, _, _, _, _, _]
    | [_, _, _, _, _, _, _] => simp
    | a :: b :: c :: d :: e :: f :: g :: h :: rest => exact absurd rfl (hshort a b c d e f g h rest)

theorem bytes_short {l : List Bool} (h : l.length < 8) : bytes l = [] := by
  apply List.eq_nil_of_length_eq_zero
  rw [length_bytes]
  omega

end Bits
