import Mathlib.Data.List.Basic
import Mathlib.Tactic.IntervalCases
import QNode.Core.Leb128
import QNode.Library.Octets

/-!
# Strings and big integers in a message

A string is its length, with a bit for the width of its code units, and the units.  A big integer is the
shortest two's complement of its limbs.  The reader takes each back from the front of a buffer.
-/

namespace QNode.Core

inductive JSError
  | syntaxError (message : String)
  | typeError (message : String)
  | rangeError (message : String)
  | internalError (message : String)
  deriving DecidableEq, Repr

def bcReadErrorEnd : JSError := .syntaxError "read after the end of the buffer"

/-- A reader takes a value from the front of a buffer or throws. -/
abbrev Reader (α : Type) := List UInt8 → Except JSError (α × List UInt8)

def bcGetU8 : Reader UInt8
  | [] => .error bcReadErrorEnd
  | b :: ptr => .ok (b, ptr)

def bcPutU64 (v : UInt64) : List UInt8 := Octets.split v.toNat 8

def bcGetU64 : Reader UInt64 := fun ptr ↦
  if ptr.length < 8 then .error bcReadErrorEnd
  else .ok (UInt64.ofNat (Octets.value (ptr.take 8)), ptr.drop 8)

def bcGetLeb128 : Reader UInt32 := fun ptr ↦
  match getLeb128 ptr with
  | none => .error bcReadErrorEnd
  | some p => .ok p

def bcGetSleb128 : Reader Int32 := fun ptr ↦
  match getSleb128 ptr with
  | none => .error bcReadErrorEnd
  | some p => .ok p

/-! ## Strings -/

/-- `JS_STRING_LEN_MAX` -/
def jsStringLenMax : Nat := 2 ^ 30 - 1

/-- A string stores its code units in one byte each as long as they all fit. -/
structure JSString where
  isWideChar : Bool
  units : List UInt16
  len_le : units.length ≤ jsStringLenMax
  narrow : isWideChar = false → ∀ c ∈ units, c < 256
  deriving DecidableEq

def bcPutU16 (v : UInt16) : List UInt8 := Octets.split v.toNat 2

def jsWriteString (p : JSString) : List UInt8 :=
  dbufPutLeb128 ((UInt32.ofNat p.units.length <<< 1) ||| (if p.isWideChar then 1 else 0)) ++
    if p.isWideChar then p.units.flatMap bcPutU16 else p.units.map UInt16.toUInt8

/-- `n` code units of two bytes. -/
def str16 : Nat → List UInt8 → List UInt16
  | 0, _ => []
  | n + 1, bytes => UInt16.ofNat (Octets.value (bytes.take 2)) :: str16 n (bytes.drop 2)

theorem length_str16 (n : Nat) (bytes : List UInt8) : (str16 n bytes).length = n := by
  induction n generalizing bytes with
  | zero => rfl
  | succ n ih => rw [str16, List.length_cons, ih]

theorem toUInt16_lt (b : UInt8) : b.toUInt16 < 256 := by
  rw [UInt16.lt_iff_toNat_lt, UInt8.toNat_toUInt16]
  exact b.toNat_lt

/-- The string object that the reader fills with the bytes of a string of `len` units. -/
def fillString (isWideChar : Bool) (len : Nat) (hlen : len ≤ jsStringLenMax) (bytes : List UInt8) :
    JSString :=
  match isWideChar with
  | true => ⟨true, str16 len bytes, by rw [length_str16]; exact hlen, fun h ↦ by cases h⟩
  | false => ⟨false, (bytes.take len).map UInt8.toUInt16,
      by rw [List.length_map, List.length_take]; omega, fun _ c hc ↦ by
        obtain ⟨b, -, rfl⟩ := List.mem_map.mp hc
        exact toUInt16_lt b⟩

/-- `JS_ReadString` after the length. -/
def readUnits (isWideChar : Bool) (len : Nat) : Reader JSString := fun ptr ↦
  if hlen : len ≤ jsStringLenMax then
    let size := if isWideChar then 2 * len else len
    if ptr.length < size then .error bcReadErrorEnd
    else .ok (fillString isWideChar len hlen (ptr.take size), ptr.drop size)
  else .error (.internalError "string too long")

def jsReadString : Reader JSString := fun ptr ↦ do
  let (v, ptr) ← bcGetLeb128 ptr
  readUnits (v &&& 1 != 0) (v >>> 1).toNat ptr

/-! ## Big integers -/

def jsLimbBits : Nat := 64

/-- `JS_BIGINT_MAX_SIZE`, in limbs. -/
def jsBigIntMaxSize : Nat := 1024 * 1024 / jsLimbBits

/-- The limbs of a big integer in two's complement, least significant first; a short big integer has one. -/
abbrev Limbs := List UInt64

def Limbs.Sized (tab : Limbs) : Prop := tab ≠ [] ∧ tab.length ≤ jsBigIntMaxSize

/-- The loop over the bytes of the last limb; `shift` is `8 * k`. -/
def trimLoop (v : UInt64) : Nat → Nat → Nat
  | 0, len => len
  | k + 1, len =>
    let shift := 8 * (k + 1)
    let b := (v >>> UInt64.ofNat shift) &&& 0xff
    if b ≠ 0x00 ∧ b ≠ 0xff then len
    else if b &&& 1 ≠ (v >>> UInt64.ofNat (shift - 1)) &&& 1 then len
    else trimLoop v k (len - 1)

/-- The length in bytes of the two's complement representation. -/
def bigIntByteLen (tab : Limbs) : Nat :=
  if tab = [0] then 0 else trimLoop (tab.getLastD 0) 7 (tab.length * 8)

/-- `JS_WriteBigInt` after its tag. -/
def jsWriteBigInt (tab : Limbs) : List UInt8 :=
  let len := bigIntByteLen tab
  dbufPutLeb128 (UInt32.ofNat len) ++ ((tab.take (len / 8)).flatMap bcPutU64 ++
    Octets.split (tab.getLastD 0).toNat (len % 8))

/-- `n` limbs -/
def readLimbs : Nat → Reader Limbs
  | 0, ptr => .ok ([], ptr)
  | n + 1, ptr => do
    let (v, ptr) ← bcGetU64 ptr
    let (tab, ptr) ← readLimbs n ptr
    return (v :: tab, ptr)

/-- `(js_slimb_t)(v << shift) >> shift` -/
def extendSign (v : UInt64) (shift : Nat) : UInt64 :=
  ⟨((v <<< UInt64.ofNat shift).toBitVec.sshiftRight shift)⟩

/-- The last limb of `n` bytes. -/
def readLastLimb (n : Nat) : Reader UInt64 := fun ptr ↦
  if ptr.length < n then .error bcReadErrorEnd
  else .ok (extendSign (UInt64.ofNat (Octets.value (ptr.take n))) (jsLimbBits - n * 8), ptr.drop n)

def jsReadBigInt : Reader Limbs := fun ptr ↦ do
  let (v, ptr) ← bcGetLeb128 ptr
  let len := v.toNat
  if len = 0 then return ([0], ptr)
  else if (len - 1) / 8 + 1 > jsBigIntMaxSize then
    .error (.rangeError "BigInt is too large to allocate")
  else do
    let (tab, ptr) ← readLimbs (len / 8) ptr
    if len % 8 = 0 then return (tab, ptr)
    else
      let (v, ptr) ← readLastLimb (len % 8) ptr
      return (tab ++ [v], ptr)

/-! ## Round trips -/

theorem split_append (v n : Nat) (rest : List UInt8) :
    (Octets.split v n ++ rest).take n = Octets.split v n ∧
      (Octets.split v n ++ rest).drop n = rest := by
  have hlen := Octets.length_split v n
  exact ⟨List.take_left' hlen, List.drop_left' hlen⟩

theorem bcGetLeb128_put (v : UInt32) (rest : List UInt8) :
    bcGetLeb128 (dbufPutLeb128 v ++ rest) = .ok (v, rest) := by
  rw [bcGetLeb128, getLeb128_dbufPutLeb128]

theorem bcGetSleb128_put (v : Int32) (rest : List UInt8) :
    bcGetSleb128 (dbufPutSleb128 v ++ rest) = .ok (v, rest) := by
  rw [bcGetSleb128, getSleb128_dbufPutSleb128]

theorem bcGetU64_put (v : UInt64) (rest : List UInt8) :
    bcGetU64 (bcPutU64 v ++ rest) = .ok (v, rest) := by
  obtain ⟨htake, hdrop⟩ := split_append v.toNat 8 rest
  have hlen : ¬ (Octets.split v.toNat 8 ++ rest).length < 8 := by
    rw [List.length_append, Octets.length_split]
    omega
  rw [bcGetU64, bcPutU64, if_neg hlen, htake, hdrop, Octets.value_split,
    Nat.mod_eq_of_lt (show v.toNat < 256 ^ 8 from v.toNat_lt), UInt64.ofNat_toNat]

theorem str16_put (units : List UInt16) :
    str16 units.length (units.flatMap bcPutU16) = units := by
  induction units with
  | nil => rfl
  | cons c units ih =>
    obtain ⟨htake, hdrop⟩ := split_append c.toNat 2 (units.flatMap bcPutU16)
    rw [List.length_cons, List.flatMap_cons, str16, bcPutU16, htake, hdrop, Octets.value_split,
      Nat.mod_eq_of_lt (show c.toNat < 256 ^ 2 from c.toNat_lt), UInt16.ofNat_toNat]
    exact congrArg _ ih

theorem length_flatMap_bcPutU16 (units : List UInt16) :
    (units.flatMap bcPutU16).length = 2 * units.length := by
  induction units with
  | nil => rfl
  | cons c units ih =>
    rw [List.flatMap_cons, List.length_append, ih, bcPutU16, Octets.length_split, List.length_cons]
    omega

theorem narrow_put {units : List UInt16} (h : ∀ c ∈ units, c < 256) :
    (units.map UInt16.toUInt8).map UInt8.toUInt16 = units := by
  rw [List.map_map]
  apply (List.map_congr_left fun c hc ↦ ?_).trans (List.map_id units)
  apply UInt16.toNat_inj.mp
  have hlt := UInt16.lt_iff_toNat_lt.mp (h c hc)
  rw [Function.comp_apply, UInt8.toNat_toUInt16, UInt16.toNat_toUInt8]
  exact Nat.mod_eq_of_lt hlt

-- The length and the width of a string in one number.
theorem stringHeader {len : Nat} (hlen : len ≤ jsStringLenMax) (wide : Bool) :
    let v := (UInt32.ofNat len <<< 1) ||| (if wide then 1 else 0)
    (v &&& 1 != 0) = wide ∧ (v >>> 1).toNat = len := by
  have hmax : len < 2 ^ 30 := Nat.lt_of_le_of_lt hlen (by decide)
  have hnat : (UInt32.ofNat len).toNat = len := by
    rw [UInt32.toNat_ofNat']
    exact Nat.mod_eq_of_lt (by omega)
  have hshift : (UInt32.ofNat len <<< 1).toNat = 2 ^ 1 * len := by
    rw [UInt32.toNat_shiftLeft, hnat]
    show len <<< 1 % 2 ^ 32 = _
    rw [Nat.shiftLeft_eq, Nat.mul_comm]
    exact Nat.mod_eq_of_lt (by omega)
  have hbit : (if wide then (1 : UInt32) else 0).toNat = wide.toNat := by
    cases wide with
    | true => rfl
    | false => rfl
  have hle := Bool.toNat_le wide
  have hword : ((UInt32.ofNat len <<< 1) ||| (if wide then 1 else 0)).toNat =
      2 ^ 1 * len + wide.toNat := by
    rw [UInt32.toNat_or, hshift, hbit]
    exact (Nat.two_pow_add_eq_or_of_lt (by omega) len).symm
  constructor
  · have hlow : ((UInt32.ofNat len <<< 1 ||| (if wide then 1 else 0)) &&& 1).toNat = wide.toNat := by
      rw [UInt32.toNat_and, hword]
      show _ &&& 1 = _
      rw [Nat.and_one_is_mod]
      omega
    cases wide with
    | true =>
      rw [bne_iff_ne]
      exact fun h ↦ Nat.one_ne_zero (hlow.symm.trans (congrArg UInt32.toNat h))
    | false =>
      rw [bne_eq_false_iff_eq]
      exact UInt32.toNat_inj.mp hlow
  · rw [UInt32.toNat_shiftRight, hword]
    show _ >>> 1 = _
    rw [Nat.shiftRight_eq_div_pow]
    omega

theorem jsReadString_write (p : JSString) (rest : List UInt8) :
    jsReadString (jsWriteString p ++ rest) = .ok (p, rest) := by
  obtain ⟨isWideChar, units, hlen, hnarrow⟩ := p
  obtain ⟨hwide, hunits⟩ := stringHeader hlen isWideChar
  rw [jsWriteString, List.append_assoc, jsReadString, bcGetLeb128_put]
  simp only [bind, Except.bind]
  rw [hwide, hunits, readUnits, dif_pos hlen]
  cases isWideChar with
  | true =>
    have hbytes := length_flatMap_bcPutU16 units
    simp only [if_true]
    rw [if_neg (by rw [List.length_append]; omega), List.take_left' hbytes, List.drop_left' hbytes]
    simp only [fillString, str16_put]
  | false =>
    have hbytes : (units.map UInt16.toUInt8).length = units.length := List.length_map _
    simp only [Bool.false_eq_true, if_false]
    rw [if_neg (by rw [List.length_append]; omega), List.take_left' hbytes, List.drop_left' hbytes]
    simp only [fillString, List.take_of_length_le (Nat.le_of_eq hbytes), narrow_put (hnarrow rfl)]

/-! ## The last limb -/

/-- The limb as a signed number fits into `n` bytes. -/
def FitsBytes (v : UInt64) (n : Nat) : Prop :=
  -2 ^ (8 * n - 1) ≤ v.toBitVec.toInt ∧ v.toBitVec.toInt < 2 ^ (8 * n - 1)

theorem toInt_limb (v : UInt64) : v.toBitVec.toInt =
    if 2 * v.toNat < 2 ^ 64 then (v.toNat : Int) else v.toNat - 2 ^ 64 :=
  BitVec.toInt_eq_toNat_cond v.toBitVec

-- A byte is not needed precisely if it only repeats the sign.
theorem fitsBytes_pred_iff {v : UInt64} {k : Nat} (hk : k < 7) (h : FitsBytes v (k + 2)) :
    FitsBytes v (k + 1) ↔
      (v.toNat / 2 ^ (8 * (k + 1)) % 256 = 0 ∨ v.toNat / 2 ^ (8 * (k + 1)) % 256 = 255) ∧
        v.toNat / 2 ^ (8 * (k + 1)) % 256 % 2 = v.toNat / 2 ^ (8 * (k + 1) - 1) % 2 := by
  have hlt := v.toNat_lt
  unfold FitsBytes at h ⊢
  rw [toInt_limb] at h ⊢
  by_cases hpos : 2 * v.toNat < 2 ^ 64
  · rw [if_pos hpos] at h ⊢
    interval_cases k <;> norm_num at h ⊢ <;> omega
  · rw [if_neg hpos] at h ⊢
    interval_cases k <;> norm_num at h ⊢ <;> omega

theorem trim_condition (v : UInt64) {k : Nat} (hk : k < 7) :
    ((v >>> UInt64.ofNat (8 * (k + 1))) &&& 0xff).toNat = v.toNat / 2 ^ (8 * (k + 1)) % 256 ∧
      ((v >>> UInt64.ofNat (8 * (k + 1) - 1)) &&& 1).toNat = v.toNat / 2 ^ (8 * (k + 1) - 1) % 2 := by
  have hshift : ∀ n < 64, (v >>> UInt64.ofNat n).toNat = v.toNat / 2 ^ n := by
    intro n hn
    rw [UInt64.toNat_shiftRight, UInt64.toNat_ofNat', Nat.mod_eq_of_lt (show n < 2 ^ 64 by omega),
      Nat.mod_eq_of_lt hn, Nat.shiftRight_eq_div_pow]
  constructor
  · rw [UInt64.toNat_and, hshift _ (by omega)]
    exact Nat.and_two_pow_sub_one_eq_mod _ 8
  · rw [UInt64.toNat_and, hshift _ (by omega)]
    exact Nat.and_one_is_mod _

-- The loop stops at the least number of bytes that hold the limb.
theorem trimLoop_spec {v : UInt64} {k : Nat} (hk : k ≤ 7) (h : FitsBytes v (k + 1)) (base : Nat) :
    ∃ n, 1 ≤ n ∧ n ≤ k + 1 ∧ trimLoop v k (base + (k + 1)) = base + n ∧ FitsBytes v n ∧
      (n = 1 ∨ ¬ FitsBytes v (n - 1)) := by
  induction k with
  | zero => exact ⟨1, Nat.le_refl 1, Nat.le_refl 1, rfl, h, .inl rfl⟩
  | succ k ih =>
    obtain ⟨hbyte, hbit⟩ := trim_condition v (show k < 7 by omega)
    have hiff := fitsBytes_pred_iff (show k < 7 by omega) h
    have hstop : ¬ FitsBytes v (k + 1) → ∃ n, 1 ≤ n ∧ n ≤ k + 1 + 1 ∧
        base + (k + 1 + 1) = base + n ∧ FitsBytes v n ∧ (n = 1 ∨ ¬ FitsBytes v (n - 1)) :=
      fun hnot ↦ ⟨k + 2, by omega, Nat.le_refl _, rfl, h, .inr hnot⟩
    rw [trimLoop]
    split
    · next hb =>
      apply hstop
      intro hfit
      obtain ⟨hends, -⟩ := hiff.mp hfit
      rw [Ne, Ne, ← UInt64.toNat_inj, ← UInt64.toNat_inj, hbyte] at hb
      exact hends.elim hb.1 hb.2
    · next hb =>
      split
      · next hparity =>
        apply hstop
        intro hfit
        obtain ⟨-, hsame⟩ := hiff.mp hfit
        rw [Ne, ← UInt64.toNat_inj, UInt64.toNat_and, hbyte, hbit] at hparity
        exact hparity ((Nat.and_one_is_mod _).trans hsame)
      · next hparity =>
        have hends : v.toNat / 2 ^ (8 * (k + 1)) % 256 = 0 ∨
            v.toNat / 2 ^ (8 * (k + 1)) % 256 = 255 := by
          rw [Ne, Ne, ← UInt64.toNat_inj, ← UInt64.toNat_inj, hbyte] at hb
          exact (not_and_or.mp hb).imp Decidable.not_not.mp Decidable.not_not.mp
        have hsame : v.toNat / 2 ^ (8 * (k + 1)) % 256 % 2 =
            v.toNat / 2 ^ (8 * (k + 1) - 1) % 2 := by
          rw [Ne, ← UInt64.toNat_inj, UInt64.toNat_and, hbyte, hbit, Decidable.not_not] at hparity
          exact (Nat.and_one_is_mod _).symm.trans hparity
        obtain ⟨n, hpos, hle, hloop, hfit, hleast⟩ := ih (by omega) (hiff.mpr ⟨hends, hsame⟩)
        exact ⟨n, hpos, by omega, hloop, hfit, hleast⟩

-- The bytes that hold a limb give it back.
theorem extendSign_mod {v : UInt64} {n : Nat} (hpos : 1 ≤ n) (hn : n < 8) (h : FitsBytes v n) :
    extendSign (UInt64.ofNat (v.toNat % 256 ^ n)) (jsLimbBits - n * 8) = v := by
  have hlt := v.toNat_lt
  apply UInt64.toBitVec_inj.mp
  apply BitVec.eq_of_toInt_eq
  have hshifted : (UInt64.ofNat (v.toNat % 256 ^ n) <<< UInt64.ofNat (jsLimbBits - n * 8)).toNat =
      v.toNat % 256 ^ n * 2 ^ (64 - n * 8) := by
    have hsplit : 2 ^ 64 = 256 ^ n * 2 ^ (64 - n * 8) := by
      rw [show 256 = 2 ^ 8 from rfl, ← Nat.pow_mul, ← Nat.pow_add]
      congr 1
      omega
    have hword : v.toNat % 256 ^ n < 2 ^ 64 := Nat.lt_of_le_of_lt (Nat.mod_le _ _) hlt
    rw [UInt64.toNat_shiftLeft, UInt64.toNat_ofNat', Nat.mod_eq_of_lt hword, UInt64.toNat_ofNat',
      Nat.mod_eq_of_lt (show jsLimbBits - n * 8 < 2 ^ 64 by unfold jsLimbBits; omega),
      Nat.mod_eq_of_lt (show jsLimbBits - n * 8 < 64 by unfold jsLimbBits; omega),
      Nat.shiftLeft_eq]
    apply Nat.mod_eq_of_lt
    rw [hsplit]
    exact Nat.mul_lt_mul_of_pos_right (Nat.mod_lt _ (Nat.pow_pos (by decide))) (Nat.two_pow_pos _)
  rw [extendSign, BitVec.toInt_sshiftRight, toInt_limb, hshifted, Int.shiftRight_eq_div_pow]
  unfold FitsBytes at h
  rw [toInt_limb] at h ⊢
  by_cases hsign : 2 * v.toNat < 2 ^ 64
  · rw [if_pos hsign] at h ⊢
    interval_cases n <;> norm_num [jsLimbBits] at h ⊢ <;> omega
  · rw [if_neg hsign] at h ⊢
    interval_cases n <;> norm_num [jsLimbBits] at h ⊢ <;> omega

theorem readLimbs_put (tab : Limbs) (rest : List UInt8) :
    readLimbs tab.length (tab.flatMap bcPutU64 ++ rest) = .ok (tab, rest) := by
  induction tab with
  | nil => rfl
  | cons v tab ih =>
    rw [List.flatMap_cons, List.append_assoc, List.length_cons, readLimbs, bcGetU64_put]
    simp only [bind, Except.bind, ih]
    rfl

theorem readLastLimb_put {v : UInt64} {n : Nat} (hpos : 1 ≤ n) (hn : n < 8) (h : FitsBytes v n)
    (rest : List UInt8) : readLastLimb n (Octets.split v.toNat n ++ rest) = .ok (v, rest) := by
  obtain ⟨htake, hdrop⟩ := split_append v.toNat n rest
  have hlen : ¬ (Octets.split v.toNat n ++ rest).length < n := by
    rw [List.length_append, Octets.length_split]
    omega
  rw [readLastLimb, if_neg hlen, htake, hdrop, Octets.value_split, extendSign_mod hpos hn h]

-- The length that is written counts the full limbs below the last one and its bytes that are needed.
theorem bigIntByteLen_eq {init : Limbs} {v : UInt64} (h : init ++ [v] ≠ [0]) :
    ∃ n, 1 ≤ n ∧ n ≤ 8 ∧ bigIntByteLen (init ++ [v]) = 8 * init.length + n ∧ FitsBytes v n ∧
      (n = 1 ∨ ¬ FitsBytes v (n - 1)) := by
  have hlt := v.toNat_lt
  have hfull : FitsBytes v (7 + 1) := by
    unfold FitsBytes
    rw [toInt_limb]
    norm_num
    split <;> omega
  obtain ⟨n, hpos, hle, hloop, hfit, hleast⟩ :=
    trimLoop_spec (Nat.le_refl 7) hfull (8 * init.length)
  refine ⟨n, hpos, hle, ?_, hfit, hleast⟩
  rw [bigIntByteLen, if_neg h, List.getLastD_concat, List.length_append, List.length_singleton,
    ← hloop]
  congr 1
  omega

theorem jsReadBigInt_write {tab : Limbs} (h : tab.Sized) (rest : List UInt8) :
    jsReadBigInt (jsWriteBigInt tab ++ rest) = .ok (tab, rest) := by
  by_cases hzero : tab = [0]
  · subst hzero
    have hlen : bigIntByteLen [0] = 0 := rfl
    rw [jsWriteBigInt, hlen, List.append_assoc, jsReadBigInt, bcGetLeb128_put]
    rfl
  · obtain ⟨hne, hmax⟩ := h
    obtain ⟨init, v, rfl⟩ : ∃ init v, tab = init ++ [v] :=
      ⟨_, _, (List.dropLast_append_getLast hne).symm⟩
    obtain ⟨n, hpos, hle, hlen, hfit, -⟩ := bigIntByteLen_eq hzero
    rw [List.length_append, List.length_singleton] at hmax
    have hword : (UInt32.ofNat (8 * init.length + n)).toNat = 8 * init.length + n := by
      have hsmall : jsBigIntMaxSize = 16384 := rfl
      rw [UInt32.toNat_ofNat']
      exact Nat.mod_eq_of_lt (by omega)
    rw [jsWriteBigInt, hlen, List.getLastD_concat, List.append_assoc, List.append_assoc, jsReadBigInt,
      bcGetLeb128_put]
    simp only [bind, Except.bind, hword]
    rw [if_neg (by omega), if_neg (by omega)]
    by_cases hn : n = 8
    · -- the last limb is written like the others
      have hdiv : (8 * init.length + n) / 8 = (init ++ [v]).length := by
        rw [List.length_append, List.length_singleton]
        omega
      have hmod : (8 * init.length + n) % 8 = 0 := by omega
      rw [hdiv, hmod, List.take_length, readLimbs_put]
      rfl
    · have hdiv : (8 * init.length + n) / 8 = init.length := by omega
      have hmod : (8 * init.length + n) % 8 = n := by omega
      rw [hdiv, hmod, List.take_left, readLimbs_put]
      dsimp only
      rw [if_neg (by omega), readLastLimb_put hpos (by omega) hfit]
      rfl

end QNode.Core
