import Mathlib.Algebra.Group.Int.Defs
import QNode.Library.Binary64

/-!
# Numbers and their conversion

A Number is a small integer or a double.  The conversion to 64 bits works on the word of the double: it
drops what does not fit, where a saturating conversion would answer the nearest bound.
-/

namespace QNode.Engine

inductive JsNumber
  | int (n : Int32)
  | float64 (d : Binary64)
  deriving DecidableEq, Repr

/-- `(int64_t)d`, for a double in range. -/
def castInt64 (d : Binary64) : Int64 := Int64.ofInt d.trunc

/-- `(uint64_t)1 << 52` -/
def bit52 : UInt64 := (1 : UInt64) <<< (52 : UInt64)

/-- `JS_ToInt64Free` for a Number. -/
def jsToInt64Free : JsNumber → Int64
  | .int n => n.toInt64
  | .float64 d =>
    let u := d.bits
    let e := ((u >>> 52) &&& 0x7ff).toNat
    if e ≤ 1023 + 62 then castInt64 d
    else if e ≤ 1023 + 62 + 53 then
      -- the remainder modulo 2^64
      let v := u &&& (bit52 - 1) ||| bit52
      let ret := (v <<< UInt64.ofNat ((e - 1023) - 52)).toInt64
      if u >>> 63 ≠ 0 then -ret else ret
    else 0

/-- The integer part of a Number, if it is finite. -/
def JsNumber.trunc : JsNumber → Option Int
  | .int n => some n.toInt
  | .float64 d => if d.IsFinite then some d.trunc else none

namespace JsNumber

/-- What a Number that is not finite stands for as a bound: NaN for 0, an infinity for the end of the
range of exact integers. -/
def extreme : JsNumber → Int
  | .int _ => 0
  | .float64 d => if d.IsNaN then 0 else if d.negative then -2 ^ 53 else 2 ^ 53

/-- The integer part, clamped to the range of exact integers. -/
def saturated (x : JsNumber) : Int :=
  match x.trunc with
  | some n => max (-2 ^ 53) (min (2 ^ 53) n)
  | none => x.extreme

/-- The Number lies above the range of exact integers. -/
def IsLarge (x : JsNumber) : Prop :=
  match x.trunc with
  | some n => 2 ^ 53 < n
  | none => 0 < x.extreme

/-- The Number lies below the range of exact integers. -/
def IsSmall (x : JsNumber) : Prop :=
  match x.trunc with
  | some n => n < -2 ^ 53
  | none => x.extreme < 0

end JsNumber

section

variable (d : Binary64)

theorem toNat_exponent : ((d.bits >>> 52) &&& 0x7ff).toNat = d.exponent := by
  rw [UInt64.toNat_and, UInt64.toNat_shiftRight]
  show d.bits.toNat >>> 52 &&& (2 ^ 11 - 1) = d.exponent
  rw [Nat.and_two_pow_sub_one_eq_mod, Nat.shiftRight_eq_div_pow, Binary64.exponent]

theorem sign_iff : d.bits >>> 63 ≠ 0 ↔ d.negative := by
  have hlt := d.bits.toNat_lt
  have hshift : (d.bits >>> 63).toNat = d.bits.toNat / 2 ^ 63 := by
    rw [UInt64.toNat_shiftRight]
    exact Nat.shiftRight_eq_div_pow _ _
  have hzero : d.bits >>> 63 = 0 ↔ d.bits.toNat / 2 ^ 63 = 0 := by
    rw [← hshift, ← UInt64.toNat_inj]
    rfl
  unfold Binary64.negative
  rw [Ne, hzero]
  omega

theorem toNat_significand (h : d.exponent ≠ 0) :
    (d.bits &&& (bit52 - 1) ||| bit52).toNat = d.significand := by
  rw [UInt64.toNat_or, UInt64.toNat_and]
  show (d.bits.toNat &&& (2 ^ 52 - 1)) ||| 2 ^ 52 * 1 = d.significand
  rw [Nat.and_two_pow_sub_one_eq_mod, Nat.or_comm,
    ← Nat.two_pow_add_eq_or_of_lt (Nat.mod_lt _ (Nat.two_pow_pos 52)), Binary64.significand, if_neg h]
  rfl

-- The word computed is the integer part modulo `2 ^ 64`.
theorem shifted_eq (hlow : 1085 < d.exponent) (hhigh : d.exponent ≤ 1138) :
    ((d.bits &&& (bit52 - 1) ||| bit52) <<<
      UInt64.ofNat ((d.exponent - 1023) - 52)).toInt64 = Int64.ofNat d.truncAbs := by
  have hshift : d.exponent - 1023 - 52 = d.exponent - 1075 := by omega
  have hword : d.bits &&& (bit52 - 1) ||| bit52 = UInt64.ofNat d.significand := by
    rw [← toNat_significand d (by omega), UInt64.ofNat_toNat]
  rw [hword, hshift, ← UInt64.ofNat_shiftLeft _ _ (by omega), UInt64.toInt64_ofNat',
    Binary64.truncAbs_of_large (by omega), Nat.shiftLeft_eq]

theorem ofInt_eq_zero {n : Int} (h : ((2 ^ 64 : Nat) : Int) ∣ n) : Int64.ofInt n = 0 := by
  apply Int64.toInt_inj.mp
  have hzero : n % (Int64.size : Nat) = 0 := Int.emod_eq_zero_of_dvd h
  rw [Int64.toInt_ofInt, ← Int.emod_bmod, hzero]
  rfl

/-- The conversion keeps the low 64 bits of the integer part, and has 0 for what is not finite. -/
theorem jsToInt64Free_eq (x : JsNumber) :
    jsToInt64Free x = match x.trunc with
      | some n => Int64.ofInt n
      | none => 0 := by
  cases x with
  | int n =>
    show n.toInt64 = Int64.ofInt n.toInt
    rw [← Int32.toInt_toInt64, Int64.ofInt_toInt]
  | float64 d =>
    have hlt := d.exponent_lt
    have hfinite : d.exponent ≤ 2046 → JsNumber.trunc (.float64 d) = some d.trunc := by
      intro h
      exact if_pos (by unfold Binary64.IsFinite; omega)
    simp only [jsToInt64Free, toNat_exponent]
    by_cases hfast : d.exponent ≤ 1023 + 62
    · rw [if_pos hfast, hfinite (by omega)]
      rfl
    · by_cases hmid : d.exponent ≤ 1023 + 62 + 53
      · rw [if_neg hfast, if_pos hmid, hfinite (by omega), shifted_eq d (by omega) (by omega)]
        show _ = Int64.ofInt d.trunc
        unfold Binary64.trunc
        by_cases hneg : d.negative
        · rw [if_pos ((sign_iff d).mpr hneg), if_pos hneg, Int64.ofInt_neg]
          rfl
        · rw [if_neg (mt (sign_iff d).mp hneg), if_neg hneg]
          rfl
      · rw [if_neg hfast, if_neg hmid]
        by_cases hall : d.exponent = 2047
        · have hnone : JsNumber.trunc (.float64 d) = none := if_neg (not_not_intro hall)
          rw [hnone]
        · rw [hfinite (by omega)]
          exact (ofInt_eq_zero (Binary64.two_pow_dvd_trunc (by omega))).symm

/-- A Number in range is converted to its integer part, and all others are clamped to one of the ends. -/
theorem JsNumber.saturated_cases (x : JsNumber) :
    (x.IsLarge ∧ ¬ x.IsSmall ∧ x.saturated = 2 ^ 53) ∨
      (¬ x.IsLarge ∧ x.IsSmall ∧ x.saturated = -2 ^ 53) ∨
      (¬ x.IsLarge ∧ ¬ x.IsSmall ∧ x.saturated = (jsToInt64Free x).toInt) := by
  have hconverted := jsToInt64Free_eq x
  unfold JsNumber.IsLarge JsNumber.IsSmall JsNumber.saturated
  cases htrunc : x.trunc with
  | some n =>
    rw [htrunc] at hconverted
    dsimp only at hconverted ⊢
    by_cases hlarge : 2 ^ 53 < n
    · exact .inl ⟨hlarge, by omega, by omega⟩
    by_cases hsmall : n < -2 ^ 53
    · exact .inr (.inl ⟨hlarge, hsmall, by omega⟩)
    · refine .inr (.inr ⟨hlarge, hsmall, ?_⟩)
      rw [hconverted, Int64.toInt_ofInt_of_le (by omega) (by omega)]
      omega
  | none =>
    rw [htrunc] at hconverted
    dsimp only at hconverted ⊢
    have hextreme : x.extreme = 0 ∨ x.extreme = -2 ^ 53 ∨ x.extreme = 2 ^ 53 := by
      unfold JsNumber.extreme
      split
      · exact .inl rfl
      split
      · exact .inl rfl
      split
      · exact .inr (.inl rfl)
      · exact .inr (.inr rfl)
    have hzero : (jsToInt64Free x).toInt = 0 := by rw [hconverted]; rfl
    omega

end

end QNode.Engine
