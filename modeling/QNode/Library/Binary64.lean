import Mathlib.Algebra.Group.Nat.Defs

/-!
# Double-precision numbers

A double is a word of 64 bits: a sign, eleven bits of exponent and 52 bits of fraction.  Only its
integer part matters here, and what that is modulo a power of two.
-/

/-- A double, as the word that stores it. -/
structure Binary64 where
  bits : UInt64
  deriving DecidableEq, Repr

namespace Binary64

def negative (d : Binary64) : Prop := 2 ^ 63 ≤ d.bits.toNat

instance (d : Binary64) : Decidable d.negative := inferInstanceAs (Decidable (2 ^ 63 ≤ _))

def exponent (d : Binary64) : Nat := d.bits.toNat / 2 ^ 52 % 2 ^ 11

def fraction (d : Binary64) : Nat := d.bits.toNat % 2 ^ 52

def IsFinite (d : Binary64) : Prop := d.exponent ≠ 2047

instance (d : Binary64) : Decidable d.IsFinite := inferInstanceAs (Decidable (_ ≠ _))

def IsNaN (d : Binary64) : Prop := d.exponent = 2047 ∧ d.fraction ≠ 0

instance (d : Binary64) : Decidable d.IsNaN := inferInstanceAs (Decidable (_ ∧ _))

/-- The fraction with the leading bit, which is 1 but for the smallest exponent. -/
def significand (d : Binary64) : Nat := if d.exponent = 0 then d.fraction else 2 ^ 52 + d.fraction

/-- The integer part of the magnitude of a finite double, which is the significand times
`2 ^ (max e 1 - 1075)`. -/
def truncAbs (d : Binary64) : Nat := d.significand * 2 ^ max d.exponent 1 / 2 ^ 1075

/-- A finite double rounded toward zero. -/
def trunc (d : Binary64) : Int := if d.negative then -d.truncAbs else d.truncAbs

def infinity : Binary64 := ⟨0x7ff0000000000000⟩

variable {d : Binary64}

theorem exponent_lt (d : Binary64) : d.exponent < 2 ^ 11 := Nat.mod_lt _ (Nat.two_pow_pos 11)

-- A double that is large enough is an integer.
theorem truncAbs_of_large (h : 1075 ≤ d.exponent) :
    d.truncAbs = d.significand * 2 ^ (d.exponent - 1075) := by
  have hmax : max d.exponent 1 = (d.exponent - 1075) + 1075 := by omega
  rw [truncAbs, hmax, Nat.pow_add, ← Nat.mul_assoc, Nat.mul_div_cancel _ (Nat.two_pow_pos 1075)]

theorem two_pow_dvd_trunc {k : Nat} (h : 1075 + k ≤ d.exponent) : ((2 ^ k : Nat) : Int) ∣ d.trunc := by
  have hpow : (2 ^ k : Nat) ∣ 2 ^ (d.exponent - 1075) := Nat.pow_dvd_pow 2 (by omega)
  have habs : ((2 ^ k : Nat) : Int) ∣ (d.truncAbs : Int) := by
    rw [truncAbs_of_large (by omega)]
    exact Int.natCast_dvd_natCast.mpr (Nat.dvd_mul_left_of_dvd hpow _)
  unfold trunc
  split
  · exact (Int.dvd_neg.mpr habs)
  · exact habs

end Binary64
