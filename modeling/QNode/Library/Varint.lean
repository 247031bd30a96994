import Mathlib.Algebra.Group.Int.Defs
import Mathlib.Algebra.Group.Nat.Defs

/-!
# Numbers of variable length

A number as bytes of seven bits each, least significant first, where every byte but the last has its
high bit set.  A reader takes a bounded number of bytes.  A signed number is folded into an unsigned one
whose lowest bit is the sign.
-/

namespace Varint

def encode (n : Nat) : List UInt8 :=
  if n < 128 then [UInt8.ofNat n] else UInt8.ofNat (n % 128 + 128) :: encode (n / 128)
termination_by n
decreasing_by omega

/-- The number in the first bytes, at most `k` of them, and the bytes after it. -/
def decode : Nat → List UInt8 → Option (Nat × List UInt8)
  | 0, _ => none
  | _ + 1, [] => none
  | k + 1, b :: rest =>
    if b < 128 then some (b.toNat, rest)
    else (decode k rest).map fun p ↦ (b.toNat % 128 + 128 * p.1, p.2)

theorem encode_small {n : Nat} (h : n < 128) : encode n = [UInt8.ofNat n] := by
  rw [encode, if_pos h]

theorem encode_large {n : Nat} (h : ¬ n < 128) :
    encode n = UInt8.ofNat (n % 128 + 128) :: encode (n / 128) := by
  rw [encode, if_neg h]

theorem toNat_digit {n : Nat} (h : n < 256) : (UInt8.ofNat n).toNat = n := by
  rw [UInt8.toNat_ofNat']
  exact Nat.mod_eq_of_lt h

theorem lt_128_iff {b : UInt8} : b < 128 ↔ b.toNat < 128 := by
  rw [UInt8.lt_iff_toNat_lt]
  rfl

-- The induction is on the number of bytes that may be read; the number has that many digits.
theorem decode_encode {k n : Nat} (h : n < 128 ^ (k + 1)) (rest : List UInt8) :
    decode (k + 1) (encode n ++ rest) = some (n, rest) := by
  induction k generalizing n with
  | zero =>
    have hn : n < 128 := by simpa using h
    have hdigit := toNat_digit (show n < 256 by omega)
    rw [encode_small hn, List.cons_append, List.nil_append, decode,
      if_pos (lt_128_iff.mpr (by omega)), hdigit]
  | succ k ih =>
    by_cases hn : n < 128
    · have hdigit := toNat_digit (show n < 256 by omega)
      rw [encode_small hn, List.cons_append, List.nil_append, decode,
        if_pos (lt_128_iff.mpr (by omega)), hdigit]
    · have hdigit := toNat_digit (show n % 128 + 128 < 256 by omega)
      have hrest : n / 128 < 128 ^ (k + 1) := by
        apply Nat.div_lt_of_lt_mul
        rw [Nat.mul_comm, ← Nat.pow_succ]
        exact h
      rw [encode_large hn, List.cons_append, decode,
        if_neg (by rw [lt_128_iff, hdigit]; omega), ih hrest, Option.map_some, hdigit,
        Option.some.injEq, Prod.mk.injEq]
      exact ⟨by omega, rfl⟩

/-! ## Signs -/

def fold (x : Int) : Nat := if 0 ≤ x then 2 * x.toNat else 2 * (-x).toNat - 1

def unfold (n : Nat) : Int := if n % 2 = 0 then n / 2 else -(n / 2 + 1 : Int)

theorem unfold_fold (x : Int) : unfold (fold x) = x := by
  unfold unfold fold
  split <;> split <;> omega

end Varint
