import QNode.Library.Bits
import QNode.Library.Varint

/-!
# Numbers in a message

A message holds unsigned 32-bit numbers, and signed ones folded into them, as bytes of seven bits.
-/

namespace QNode.Core

def dbufPutLeb128 (v : UInt32) : List UInt8 :=
  let a := v &&& 0x7f
  let v' := v >>> 7
  if v' ≠ 0 then (a ||| 0x80).toUInt8 :: dbufPutLeb128 v' else [a.toUInt8]
termination_by v.toNat
decreasing_by
  have hne : v'.toNat ≠ 0 := fun h ↦ ‹v' ≠ 0› (UInt32.toNat_inj.mp h)
  have hv : v'.toNat = v.toNat / 128 := by
    rw [show v' = v >>> 7 from rfl, UInt32.toNat_shiftRight]
    exact Nat.shiftRight_eq_div_pow _ _
  rw [show (v >>> 7).toNat = v.toNat / 128 from hv]
  omega

def dbufPutSleb128 (v1 : Int32) : List UInt8 :=
  let v := v1.toUInt32
  dbufPutLeb128 (((2 : UInt32) * v) ^^^ -(v >>> 31))

/-- The loop of `get_leb128`: `n` bytes may still be read, and the next one is byte `i`. -/
def getLeb128Loop : Nat → UInt32 → Nat → List UInt8 → Option (UInt32 × List UInt8)
  | 0, _, _, _ => none
  | _ + 1, _, _, [] => none
  | n + 1, v, i, a :: ptr =>
    let v := v ||| ((a.toUInt32 &&& 0x7f) <<< UInt32.ofNat (i * 7))
    if a.toUInt32 &&& 0x80 = 0 then some (v, ptr) else getLeb128Loop n v (i + 1) ptr

/-- The number at the start of a buffer and what follows it; `none` for the return value -1. -/
def getLeb128 (buf : List UInt8) : Option (UInt32 × List UInt8) := getLeb128Loop 5 0 0 buf

def getSleb128 (buf : List UInt8) : Option (Int32 × List UInt8) :=
  (getLeb128 buf).map fun p ↦ (((p.1 >>> 1) ^^^ -(p.1 &&& 1)).toInt32, p.2)

/-! ## The words behind the bytes -/

theorem toNat_shiftRight_seven (v : UInt32) : (v >>> 7).toNat = v.toNat / 128 := by
  rw [UInt32.toNat_shiftRight]
  exact Nat.shiftRight_eq_div_pow _ _

theorem toNat_low_seven (v : UInt32) : (v &&& 0x7f).toNat = v.toNat % 128 := by
  rw [UInt32.toNat_and]
  exact Nat.and_two_pow_sub_one_eq_mod v.toNat 7

theorem high_bit_eq_zero_iff (a : UInt8) : a.toUInt32 &&& 0x80 = 0 ↔ a < 128 := by
  have hbit := Bits.forall_byte (P := fun a ↦ a.toNat &&& 0x80 = 0 ↔ a.toNat < 128)
    (by decide +kernel) a
  rw [← UInt32.toNat_inj, UInt32.toNat_and, UInt8.toNat_toUInt32, Varint.lt_128_iff]
  exact hbit

theorem dbufPutLeb128_eq (v : UInt32) : dbufPutLeb128 v = Varint.encode v.toNat := by
  fun_induction dbufPutLeb128 v with
  | case1 v a v' h ih =>
    have hdiv : v'.toNat = v.toNat / 128 := toNat_shiftRight_seven v
    have hne : v'.toNat ≠ 0 := fun h' ↦ h (UInt32.toNat_inj.mp h')
    have hlow : a.toNat = v.toNat % 128 := toNat_low_seven v
    have hdigit : (a ||| 0x80).toUInt8 = UInt8.ofNat (v.toNat % 128 + 128) := by
      apply UInt8.toNat_inj.mp
      have hor : (a ||| 0x80).toNat = v.toNat % 128 + 128 := by
        rw [UInt32.toNat_or, hlow, Nat.or_comm]
        exact (Nat.two_pow_add_eq_or_of_lt (i := 7) (Nat.mod_lt _ (by decide)) 1).symm.trans
          (Nat.add_comm _ _)
      rw [UInt32.toNat_toUInt8, hor, UInt8.toNat_ofNat']
    rw [ih, Varint.encode_large (n := v.toNat) (by omega), hdigit, hdiv]
  | case2 v a v' h =>
    have hdiv : v'.toNat = v.toNat / 128 := toNat_shiftRight_seven v
    have hzero : v'.toNat = 0 := by
      have hv : v' = 0 := by simpa using h
      rw [hv]
      rfl
    have hlow : a.toNat = v.toNat % 128 := toNat_low_seven v
    rw [Varint.encode_small (by omega)]
    congr 1
    apply UInt8.toNat_inj.mp
    rw [UInt32.toNat_toUInt8, UInt8.toNat_ofNat']
    omega

-- Seven bits more, above those that have been read.
theorem toNat_or_shifted {v : UInt32} {i : Nat} (hi : i < 5) (hv : v.toNat < 2 ^ (i * 7)) (a : UInt8) :
    v ||| ((a.toUInt32 &&& 0x7f) <<< UInt32.ofNat (i * 7)) =
      UInt32.ofNat (v.toNat + a.toNat % 128 * 2 ^ (i * 7)) := by
  have hlow : (a.toUInt32 &&& 0x7f).toNat = a.toNat % 128 := by
    rw [toNat_low_seven, UInt8.toNat_toUInt32]
  have hshift : (UInt32.ofNat (i * 7)).toNat % 32 = i * 7 := by
    rw [UInt32.toNat_ofNat']
    omega
  have hsplit : 2 ^ 32 = 2 ^ (i * 7) * 2 ^ (32 - i * 7) := by
    rw [← Nat.pow_add, Nat.add_sub_cancel' (by omega)]
  apply UInt32.toNat_inj.mp
  rw [UInt32.toNat_or, UInt32.toNat_shiftLeft, hlow, hshift, UInt32.toNat_ofNat',
    Nat.shiftLeft_eq, Nat.mul_comm, hsplit, Nat.mul_mod_mul_left, Nat.or_comm,
    ← Nat.two_pow_add_eq_or_of_lt hv, Nat.add_comm v.toNat, ← hsplit]
  have hmod : a.toNat % 128 % 2 ^ (32 - i * 7) < 2 ^ (32 - i * 7) := Nat.mod_lt _ (Nat.two_pow_pos _)
  have hsum : 2 ^ (i * 7) * (a.toNat % 128 % 2 ^ (32 - i * 7)) + v.toNat < 2 ^ 32 := by
    calc 2 ^ (i * 7) * (a.toNat % 128 % 2 ^ (32 - i * 7)) + v.toNat
        < 2 ^ (i * 7) * (a.toNat % 128 % 2 ^ (32 - i * 7)) + 2 ^ (i * 7) :=
          Nat.add_lt_add_left hv _
      _ = 2 ^ (i * 7) * (a.toNat % 128 % 2 ^ (32 - i * 7) + 1) := (Nat.mul_succ _ _).symm
      _ ≤ 2 ^ (i * 7) * 2 ^ (32 - i * 7) := Nat.mul_le_mul_left _ hmod
      _ = 2 ^ 32 := hsplit.symm
  have hdvd : 2 ^ 32 * (a.toNat % 128 / 2 ^ (32 - i * 7)) +
      (2 ^ (i * 7) * (a.toNat % 128 % 2 ^ (32 - i * 7)) + v.toNat) =
      2 ^ (i * 7) * (a.toNat % 128) + v.toNat := by
    rw [hsplit, Nat.mul_assoc, ← Nat.add_assoc, ← Nat.mul_add, Nat.div_add_mod]
  rw [← hdvd, Nat.mul_add_mod, Nat.mod_eq_of_lt hsum]

-- The loop reads what the codec reads, cut off at 32 bits.
theorem getLeb128Loop_eq {n i : Nat} (hn : n + i = 5) {v : UInt32} (hv : v.toNat < 2 ^ (i * 7))
    (buf : List UInt8) :
    getLeb128Loop n v i buf = (Varint.decode n buf).map fun p ↦
      (UInt32.ofNat (v.toNat + p.1 * 2 ^ (i * 7)), p.2) := by
  induction n generalizing i v buf with
  | zero => rfl
  | succ n ih =>
    cases buf with
    | nil => rfl
    | cons a ptr =>
      have hor := toNat_or_shifted (show i < 5 by omega) hv a
      rw [getLeb128Loop, Varint.decode]
      by_cases ha : a < 128
      · have hlt := Varint.lt_128_iff.mp ha
        rw [if_pos ((high_bit_eq_zero_iff a).mpr ha), if_pos ha, hor, Nat.mod_eq_of_lt hlt, Option.map_some]
      · rw [if_neg (mt (high_bit_eq_zero_iff a).mp ha), if_neg ha, hor, Option.map_map]
        cases n with
        | zero => rfl
        | succ n =>
          have hpow : 2 ^ ((i + 1) * 7) = 128 * 2 ^ (i * 7) := by
            rw [Nat.succ_mul, Nat.pow_add, Nat.mul_comm]
          have hmod : a.toNat % 128 < 128 := Nat.mod_lt _ (by decide)
          have hnext : v.toNat + a.toNat % 128 * 2 ^ (i * 7) < 2 ^ ((i + 1) * 7) := by
            have hle := Nat.mul_le_mul_right (2 ^ (i * 7)) (Nat.succ_le_of_lt hmod)
            rw [Nat.succ_mul] at hle
            omega
          have hword : 2 ^ ((i + 1) * 7) ≤ 2 ^ 32 := Nat.pow_le_pow_right (by decide) (by omega)
          have hnat : (UInt32.ofNat (v.toNat + a.toNat % 128 * 2 ^ (i * 7))).toNat =
              v.toNat + a.toNat % 128 * 2 ^ (i * 7) := by
            rw [UInt32.toNat_ofNat']
            exact Nat.mod_eq_of_lt (by omega)
          rw [ih (by omega) (by rw [hnat]; exact hnext), hnat]
          congr 1
          funext p
          dsimp only [Function.comp_apply]
          rw [hpow, Nat.add_mul, ← Nat.add_assoc, Nat.mul_comm 128 p.1, Nat.mul_assoc]

theorem getLeb128_eq (buf : List UInt8) :
    getLeb128 buf = (Varint.decode 5 buf).map fun p ↦ (UInt32.ofNat p.1, p.2) := by
  rw [getLeb128, getLeb128Loop_eq rfl (Nat.zero_lt_one)]
  congr 1
  funext p
  simp

theorem getLeb128_dbufPutLeb128 (v : UInt32) (rest : List UInt8) :
    getLeb128 (dbufPutLeb128 v ++ rest) = some (v, rest) := by
  have hlt : v.toNat < 128 ^ 5 := Nat.lt_trans v.toNat_lt (by decide)
  rw [getLeb128_eq, dbufPutLeb128_eq, Varint.decode_encode hlt, Option.map_some, UInt32.ofNat_toNat]

/-! ## Signs -/

theorem xor_neg_one (x : UInt32) : (x ^^^ -1).toNat = 2 ^ 32 - 1 - x.toNat := by
  have hones : (-1 : UInt32) = ~~~ 0 := by decide
  rw [hones, UInt32.xor_not, UInt32.xor_zero, UInt32.toNat_not]
  rfl

theorem toInt_eq (v : Int32) :
    v.toInt = if v.toUInt32.toNat < 2 ^ 31 then (v.toUInt32.toNat : Int)
      else v.toUInt32.toNat - 2 ^ 32 := by
  show v.toUInt32.toBitVec.toInt = _
  rw [BitVec.toInt_eq_toNat_cond]
  have hlt := v.toUInt32.toNat_lt
  have hnat : v.toUInt32.toBitVec.toNat = v.toUInt32.toNat := rfl
  rw [hnat]
  split <;> split <;> omega

theorem toNat_sign (v : UInt32) : (v >>> 31).toNat = if v.toNat < 2 ^ 31 then 0 else 1 := by
  have hlt := v.toNat_lt
  have hdiv : (v >>> 31).toNat = v.toNat / 2 ^ 31 := by
    rw [UInt32.toNat_shiftRight]
    exact Nat.shiftRight_eq_div_pow _ _
  rw [hdiv]
  split <;> omega

theorem toNat_two_mul (v : UInt32) : ((2 : UInt32) * v).toNat = 2 * v.toNat % 2 ^ 32 :=
  UInt32.toNat_mul 2 v

-- The sign goes to the lowest bit.
theorem toNat_folded (v : Int32) :
    (((2 : UInt32) * v.toUInt32) ^^^ -(v.toUInt32 >>> 31)).toNat = Varint.fold v.toInt := by
  have hlt := v.toUInt32.toNat_lt
  have hsign := toNat_sign v.toUInt32
  have hdouble := toNat_two_mul v.toUInt32
  rw [Varint.fold, toInt_eq]
  by_cases hpos : v.toUInt32.toNat < 2 ^ 31
  · rw [if_pos hpos] at hsign
    have hzero : v.toUInt32 >>> 31 = 0 := UInt32.toNat_inj.mp hsign
    rw [hzero, UInt32.neg_zero, UInt32.xor_zero, hdouble, if_pos hpos, if_pos (by omega)]
    omega
  · rw [if_neg hpos] at hsign
    have hone : v.toUInt32 >>> 31 = 1 := UInt32.toNat_inj.mp hsign
    rw [hone, xor_neg_one, hdouble, if_neg hpos, if_neg (by omega)]
    omega

theorem toInt_unfolded (w : UInt32) :
    ((w >>> 1) ^^^ -(w &&& 1)).toInt32.toInt = Varint.unfold w.toNat := by
  have hlt := w.toNat_lt
  have hhalf : (w >>> 1).toNat = w.toNat / 2 := by
    rw [UInt32.toNat_shiftRight]
    exact Nat.shiftRight_eq_div_pow _ _
  have hbit : (w &&& 1).toNat = w.toNat % 2 := by
    rw [UInt32.toNat_and]
    exact Nat.and_one_is_mod _
  rw [Varint.unfold, toInt_eq]
  by_cases heven : w.toNat % 2 = 0
  · have hzero : w &&& 1 = 0 := UInt32.toNat_inj.mp (hbit.trans heven)
    have hword : (w >>> 1 ^^^ -(w &&& 1)).toInt32.toUInt32.toNat = w.toNat / 2 := by
      rw [hzero, UInt32.neg_zero, UInt32.xor_zero]
      exact hhalf
    rw [hword, if_pos (by omega), if_pos heven]
    omega
  · have hodd : w.toNat % 2 = 1 := by omega
    have hone : w &&& 1 = 1 := UInt32.toNat_inj.mp (hbit.trans hodd)
    have hword : (w >>> 1 ^^^ -(w &&& 1)).toInt32.toUInt32.toNat = 2 ^ 32 - 1 - w.toNat / 2 := by
      rw [hone, ← hhalf]
      exact xor_neg_one _
    rw [hword, if_neg (by omega), if_neg heven]
    omega

theorem getSleb128_dbufPutSleb128 (v : Int32) (rest : List UInt8) :
    getSleb128 (dbufPutSleb128 v ++ rest) = some (v, rest) := by
  rw [getSleb128, dbufPutSleb128, getLeb128_dbufPutLeb128, Option.map_some, Option.some.injEq,
    Prod.mk.injEq]
  refine ⟨Int32.toInt_inj.mp ?_, rfl⟩
  rw [toInt_unfolded, toNat_folded, Varint.unfold_fold]

end QNode.Core
