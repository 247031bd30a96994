import Mathlib.Data.Nat.Digits.Defs

/-!
# Numbers as lists of bytes

The value of a list of bytes, least significant first, and the bytes of a number.
-/

namespace Octets

def value (bytes : List UInt8) : Nat := Nat.ofDigits 256 (bytes.map UInt8.toNat)

/-- The low `n` bytes of a number, least significant first. -/
def split (v n : Nat) : List UInt8 := (List.range n).map fun i ↦ UInt8.ofNat (v / 256 ^ i)

@[simp] theorem length_split (v n : Nat) : (split v n).length = n := by
  rw [split, List.length_map, List.length_range]

theorem getElem?_split {v n i : Nat} (h : i < n) :
    (split v n)[i]? = some (UInt8.ofNat (v / 256 ^ i % 256)) := by
  rw [split, List.getElem?_map, List.getElem?_range h, Option.map_some, Option.some.injEq]
  apply UInt8.toNat_inj.mp
  rw [UInt8.toNat_ofNat', UInt8.toNat_ofNat']
  exact (Nat.mod_mod _ 256).symm

-- The digits below a place do not depend on what lies above it.
theorem digit_mod (v : Nat) {n i : Nat} (h : i < n) :
    v % 256 ^ n / 256 ^ i % 256 = v / 256 ^ i % 256 := by
  have hpow : 256 ^ n = 256 ^ i * 256 ^ (n - i) := by
    rw [← Nat.pow_add, Nat.add_sub_cancel' (by omega)]
  have hdvd : 256 ∣ 256 ^ (n - i) := dvd_pow_self 256 (by omega)
  rw [hpow, Nat.mod_mul_right_div_self, Nat.mod_mod_of_dvd _ hdvd]

theorem value_append (bytes bytes' : List UInt8) :
    value (bytes ++ bytes') = value bytes + 256 ^ bytes.length * value bytes' := by
  rw [value, List.map_append, Nat.ofDigits_append, List.length_map]
  rfl

theorem value_singleton (b : UInt8) : value [b] = b.toNat := Nat.ofDigits_singleton

theorem value_lt (bytes : List UInt8) : value bytes < 256 ^ bytes.length := by
  rw [← List.length_map UInt8.toNat]
  apply Nat.ofDigits_lt_base_pow_length (by decide)
  intro d hd
  obtain ⟨b, -, rfl⟩ := List.mem_map.mp hd
  exact b.toNat_lt

theorem value_split (v n : Nat) : value (split v n) = v % 256 ^ n := by
  induction n with
  | zero => rw [Nat.pow_zero, Nat.mod_one]; rfl
  | succ n ih =>
    have hlast : split v (n + 1) = split v n ++ [UInt8.ofNat (v / 256 ^ n)] := by
      rw [split, List.range_succ, List.map_append]
      rfl
    rw [hlast, value_append, ih, length_split, value_singleton, UInt8.toNat_ofNat',
      Nat.mod_pow_succ (x := v) (b := 256)]

-- Horner's rule, most significant byte first.
theorem foldl_value (bytes : List UInt8) (n : Nat) :
    bytes.foldl (fun n b ↦ 256 * n + b.toNat) n = 256 ^ bytes.length * n + value bytes.reverse := by
  induction bytes generalizing n with
  | nil => simp [value]
  | cons b bytes ih =>
    rw [List.foldl_cons, ih, List.reverse_cons, value_append, value_singleton, List.length_reverse,
      List.length_cons, Nat.mul_add, ← Nat.mul_assoc, Nat.pow_succ]
    omega

end Octets
