import Mathlib.Algebra.Group.Int.Defs
import Mathlib.Algebra.Group.Nat.Defs

/-!
# Machine words

Conversions between mathematical integers and the fixed-width integers of a C program compiled
with wrapping signed arithmetic: `size_t` is 64 bits wide and unsigned, `int64_t` and `int32_t`
are signed.
-/

namespace Word

/-- Conversion of an integer to `size_t`. -/
def sizeT (x : Int) : Nat := (x % 2 ^ 64).toNat

/-- Conversion of an integer to `int32_t`. -/
def int32 (x : Int) : Int := Int.bmod x (2 ^ 32)

theorem sizeT_lt (x : Int) : sizeT x < 2 ^ 64 := by
  unfold sizeT
  omega

theorem sizeT_natCast {n : Nat} (h : n < 2 ^ 64) : sizeT n = n := by
  unfold sizeT
  omega

theorem sizeT_of_nonneg {x : Int} (h0 : 0 ≤ x) (h : x < 2 ^ 64) : sizeT x = x.toNat := by
  unfold sizeT
  omega

-- A negative difference becomes a huge unsigned length.
theorem sizeT_of_neg {x : Int} (h0 : x < 0) (h : -2 ^ 64 ≤ x) :
    sizeT x = (x + 2 ^ 64).toNat := by
  unfold sizeT
  omega

theorem sizeT_of_wrap {x : Int} (h0 : 2 ^ 64 ≤ x) (h : x < 2 ^ 65) :
    sizeT x = (x - 2 ^ 64).toNat := by
  unfold sizeT
  omega

theorem sizeT_le_self {n : Nat} : sizeT n ≤ n := by
  unfold sizeT
  omega

theorem int32_of_range {x : Int} (h0 : 0 ≤ x) (h : x < 2 ^ 31) : int32 x = x := by
  unfold int32
  rw [Int.bmod_def]
  omega

-- A conversion to `size_t` on the way to `int32_t` changes nothing.
theorem int32_sizeT (x : Int) : int32 (sizeT x % 2 ^ 32 : Nat) = int32 x := by
  have hmod : ((sizeT x % 2 ^ 32 : Nat) : Int) = x % 2 ^ 32 := by
    unfold sizeT
    omega
  rw [hmod]
  exact Int.emod_bmod x (2 ^ 32)

-- A conversion keeps an unsigned 32-bit number precisely if its top bit is clear.
theorem int32_eq_self_iff {x : Int} (h0 : 0 ≤ x) : int32 x = x ↔ x < 2 ^ 31 := by
  unfold int32
  rw [Int.bmod_def]
  omega

end Word
