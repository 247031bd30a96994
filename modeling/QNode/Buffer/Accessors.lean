import QNode.Buffer.Copy
import QNode.Library.Octets

/-!
# The unsigned accessors

One pair of functions serves every width and both orders of bytes; a number packs the two.  What is
read is what the bytes are worth, up to the conversion of the result to `int32_t`.
-/

open QNode.Engine Word Splice

namespace QNode.Buffer

inductive UIntAccessor
  | uint8 | uint16BE | uint16LE | uint32BE | uint32LE
  deriving DecidableEq, Repr

namespace UIntAccessor

/-- The width and the order of bytes that the name promises. -/
def bits : UIntAccessor → Nat
  | uint8 => 8
  | uint16BE | uint16LE => 16
  | uint32BE | uint32LE => 32

def bigEndian : UIntAccessor → Bool
  | uint16BE | uint32BE => true
  | uint8 | uint16LE | uint32LE => false

/-- `bits<<4 | big_endian`, as `js_buffer_init` registers the accessor. -/
def magic : UIntAccessor → Nat
  | uint8 => 8 <<< 4
  | uint16BE => (16 <<< 4) ||| 1
  | uint16LE => (16 <<< 4) ||| 0
  | uint32BE => (32 <<< 4) ||| 1
  | uint32LE => (32 <<< 4) ||| 0

def read (acc : UIntAccessor) : Heap → JsArg → List JsArg → Ran Int :=
  jsBufferReadUInt (acc.magic >>> 4) (acc.magic &&& 1 ≠ 0)

def write (acc : UIntAccessor) : Heap → JsArg → List JsArg → Ran Unit :=
  jsBufferWriteUInt (acc.magic >>> 4) (acc.magic &&& 1 ≠ 0)

theorem read_eq (acc : UIntAccessor) : acc.read = jsBufferReadUInt acc.bits acc.bigEndian := by
  cases acc <;> rfl

theorem write_eq (acc : UIntAccessor) : acc.write = jsBufferWriteUInt acc.bits acc.bigEndian := by
  cases acc <;> rfl

theorem bits_cases (acc : UIntAccessor) : acc.bits = 8 ∨ acc.bits = 16 ∨ acc.bits = 32 := by
  cases acc <;> decide

theorem two_pow_bits_le (acc : UIntAccessor) : 2 ^ acc.bits ≤ 2 ^ 32 := by
  rcases acc.bits_cases with hbits | hbits | hbits <;> rw [hbits] <;> decide

/-- What bytes are worth in the order of the accessor. -/
def value (acc : UIntAccessor) (bytes : List UInt8) : Nat :=
  Octets.value (if acc.bigEndian then bytes.reverse else bytes)

end UIntAccessor

/-! ## The loops -/

theorem joinBytes_eq {bytes : List UInt8} (h : bytes.length ≤ 8) :
    joinBytes bytes = Octets.value bytes.reverse := by
  have hstep : ∀ (rest : List UInt8) (k val : Nat), val < 256 ^ k → k + rest.length ≤ 8 →
      rest.foldl (fun val b ↦ ((val <<< 8) ||| b.toNat) % 2 ^ 64) val =
        rest.foldl (fun n b ↦ 256 * n + b.toNat) val := by
    intro rest
    induction rest with
    | nil => exact fun _ _ _ _ ↦ rfl
    | cons b rest ih =>
      intro k val hval hlen
      have hb : b.toNat < 2 ^ 8 := b.toNat_lt
      have hjoin : (val <<< 8) ||| b.toNat = 256 * val + b.toNat := by
        rw [← Nat.shiftLeft_add_eq_or_of_lt hb, Nat.shiftLeft_eq, Nat.mul_comm]
      have hnext : 256 * val + b.toNat < 256 ^ (k + 1) := by
        rw [Nat.pow_succ]
        omega
      have hbound : 256 ^ (k + 1) ≤ 256 ^ 8 := by
        apply Nat.pow_le_pow_right (by decide)
        rw [List.length_cons] at hlen
        omega
      rw [List.foldl_cons, List.foldl_cons, hjoin, Nat.mod_eq_of_lt (by omega)]
      apply ih (k + 1) _ hnext
      rw [List.length_cons] at hlen
      omega
  have hfold := hstep bytes 0 0 (by decide) (by omega)
  rw [joinBytes, hfold, Octets.foldl_value, Nat.mul_zero, Nat.zero_add]

theorem splitBytes_eq (v n : Nat) : splitBytes v n = Octets.split v n := by
  apply List.map_congr_left
  intro i _
  have hmask : (v >>> (8 * i)) &&& 0xFF = v / 256 ^ i % 256 := by
    rw [show 0xFF = 2 ^ 8 - 1 from rfl, Nat.and_two_pow_sub_one_eq_mod, Nat.shiftRight_eq_div_pow,
      Nat.pow_mul]
  rw [hmask]
  apply UInt8.toNat_inj.mp
  rw [UInt8.toNat_ofNat', UInt8.toNat_ofNat']
  exact Nat.mod_mod _ 256

namespace UIntAccessor

section

variable (acc : UIntAccessor) {heap : Heap} (this : LiveView heap) {offset : Nat}

theorem value_lt {bytes : List UInt8} (h : bytes.length = acc.bits / 8) :
    acc.value bytes < 2 ^ acc.bits := by
  have hlt : ∀ l : List UInt8, l.length = bytes.length → Octets.value l < 2 ^ acc.bits := by
    intro l hl
    have hvalue := Octets.value_lt l
    rw [hl, h, show 256 = 2 ^ 8 from rfl, ← Nat.pow_mul] at hvalue
    have hwidth : 8 * (acc.bits / 8) = acc.bits := by
      rcases acc.bits_cases with hbits | hbits | hbits <;> rw [hbits]
    rw [hwidth] at hvalue
    exact hvalue
  unfold value
  split
  · exact hlt _ List.length_reverse
  · exact hlt _ rfl

variable (v off : Int64)

/-- The range check of the accessors fails. -/
def OutOfRange : Prop := off.toInt < 0 ∨ off.toInt + (acc.bits / 8 : Nat) > this.length

instance : Decidable (acc.OutOfRange this off) := inferInstanceAs (Decidable (_ ∨ _))

-- No sum of an offset and a width wraps far enough to pass the check.
theorem check_iff :
    off.toInt < 0 ∨ sizeT (off.toInt + (acc.bits / 8 : Nat)) > this.length ↔
      acc.OutOfRange this off := by
  have hwidth : acc.bits / 8 ≤ 4 := by
    rcases acc.bits_cases with hbits | hbits | hbits <;> rw [hbits] <;> decide
  have htop := off.toInt_lt
  unfold OutOfRange
  by_cases hneg : off.toInt < 0
  · simp only [hneg, true_or]
  · rw [sizeT_of_nonneg (by omega) (by omega)]
    omega

-- The argument of an accessor that passes its range check.
theorem inRange (hin : offset + acc.bits / 8 ≤ this.length) :
    (Int64.ofNat offset).toInt = offset ∧ ¬ acc.OutOfRange this (Int64.ofNat offset) := by
  have hshort := this.toView.length_lt
  have hoffset : (Int64.ofNat offset).toInt = offset := by
    rw [Int64.toInt_ofNat_of_lt]
    omega
  unfold OutOfRange
  omega

-- What is read is the value of the bytes as an `int32_t`.
theorem read_call :
    acc.read heap this.toView.arg [.number off] =
      if acc.OutOfRange this off then ⟨.throw (.rangeError "out of range"), heap, []⟩
      else ⟨.ok (int32 (acc.value (this.toView.read heap off.toInt.toNat (acc.bits / 8)) : Nat)),
        heap, [this.toView.access heap off.toInt.toNat (acc.bits / 8)]⟩ := by
  have hinside := this.inside
  have harg : jsToInt64Or heap (argAt [.number off] 0) 0 = (off.toInt, heap) := rfl
  rw [read_eq, jsBufferReadUInt, this.getBytes]
  dsimp only
  rw [harg]
  dsimp only
  simp only [check_iff]
  by_cases hout : acc.OutOfRange this off
  · rw [if_pos hout, if_pos hout]
  · rw [if_neg hout, if_neg hout]
    unfold OutOfRange at hout
    have hlen : (this.toView.read heap off.toInt.toNat (acc.bits / 8)).length = acc.bits / 8 :=
      View.read_length (by omega)
    have hwidth : acc.bits ≤ 32 := by
      rcases acc.bits_cases with hbits | hbits | hbits <;> omega
    have hjoin : joinBytes (if acc.bigEndian then this.toView.read heap off.toInt.toNat (acc.bits / 8)
          else (this.toView.read heap off.toInt.toNat (acc.bits / 8)).reverse) =
        acc.value (this.toView.read heap off.toInt.toNat (acc.bits / 8)) := by
      unfold value
      split
      · exact joinBytes_eq (by omega)
      · rw [joinBytes_eq (by rw [List.length_reverse]; omega), List.reverse_reverse]
    have hmask : acc.value (this.toView.read heap off.toInt.toNat (acc.bits / 8)) &&& 0xFFFFFFFF =
        acc.value (this.toView.read heap off.toInt.toNat (acc.bits / 8)) := by
      have hlt := acc.value_lt hlen
      have hmore := acc.two_pow_bits_le
      rw [show 0xFFFFFFFF = 2 ^ 32 - 1 from rfl, Nat.and_two_pow_sub_one_eq_mod]
      exact Nat.mod_eq_of_lt (by omega)
    rw [if_pos hwidth, hjoin, hmask]

theorem read_result (hin : offset + acc.bits / 8 ≤ this.length) :
    (acc.read heap this.toView.arg [.number (Int64.ofNat offset)]).result =
      .ok (int32 (acc.value (this.toView.read heap offset (acc.bits / 8)) : Nat)) := by
  obtain ⟨hoffset, hcheck⟩ := acc.inRange this hin
  rw [read_call, if_neg hcheck, hoffset, Int.toNat_natCast]

end

end UIntAccessor

/-! ## Reading back -/

section

variable {heap : Heap}

theorem View.write_byteLength {v : View} {start : Nat} {src : List UInt8} (b : Nat) :
    (v.write heap start src b).byteLength = (heap b).byteLength := by
  by_cases hfit : v.offset + start + src.length ≤ (heap v.buffer).byteLength
  · by_cases hb : b = v.buffer
    · subst hb
      rw [ArrayBuffer.byteLength, View.write_buffer hfit, length_splice hfit]
      rfl
    · rw [View.write_other hb]
  · rw [View.write, dif_neg hfit]

theorem View.write_detached {v : View} {start : Nat} {src : List UInt8} (b : Nat) :
    (v.write heap start src b).detached = (heap b).detached := by
  by_cases hfit : v.offset + start + src.length ≤ (heap v.buffer).byteLength
  · by_cases hb : b = v.buffer
    · subst hb
      rw [View.write, dif_pos hfit, Function.update_self]
      exact Option.isNone_map
    · rw [View.write_other hb]
  · rw [View.write, dif_neg hfit]

/-- A write leaves every live view alive. -/
def LiveView.afterWrite (w : LiveView heap) (v : View) (start : Nat) (src : List UInt8) :
    LiveView (v.write heap start src) where
  toView := w.toView
  attached := (View.write_detached w.buffer).trans w.attached
  inside := by
    rw [View.write_byteLength]
    exact w.inside

theorem LiveView.read_write (this : LiveView heap) {start : Nat} {src : List UInt8}
    (h : start + src.length ≤ this.length) :
    this.toView.read (this.toView.write heap start src) start src.length = src := by
  have hinside := this.inside
  have hblock : (heap this.buffer).byteLength = (heap this.buffer).data.length := rfl
  rw [View.read, View.write_buffer (by omega)]
  exact slice_splice (by omega)

theorem ArrayBuffer.eq_of_bytes {abuf abuf' : ArrayBuffer} (h : abuf.bytes = abuf'.bytes) :
    abuf = abuf' := by
  cases abuf with
  | mk bytes bounded =>
    cases h
    rfl

-- Writing the old bytes back undoes a write.
theorem View.write_restore {v : View} {start : Nat} {src : List UInt8}
    (h : v.offset + start + src.length ≤ (heap v.buffer).byteLength) :
    v.write (v.write heap start src) start (v.read heap start src.length) = heap := by
  have hread : (v.read heap start src.length).length = src.length := View.read_length h
  ext b
  by_cases hb : b = v.buffer
  · subst hb
    apply ArrayBuffer.eq_of_bytes
    rw [View.write, dif_pos (by rw [View.write_byteLength, hread]; exact h), Function.update_self]
    show (v.write heap start src v.buffer).bytes.map
      (splice · (v.offset + start) (v.read heap start src.length)) = _
    rw [View.write, dif_pos h, Function.update_self]
    show ((heap v.buffer).bytes.map (splice · (v.offset + start) src)).map _ = _
    cases hbytes : (heap v.buffer).bytes with
    | none => rfl
    | some block =>
      have hdata : (heap v.buffer).data = block := by rw [ArrayBuffer.data, hbytes, Option.getD_some]
      rw [ArrayBuffer.byteLength, hdata] at h
      show some (splice (splice block _ src) _ (slice (heap v.buffer).data _ _)) = some block
      rw [hdata, splice_splice_slice h]
  · rw [View.write_other hb, View.write_other hb]

namespace UIntAccessor

variable (acc : UIntAccessor) (this : LiveView heap) (offset : Nat)

/-- The bytes that represent a number in the order of the accessor. -/
def bytes (acc : UIntAccessor) (v : Nat) : List UInt8 :=
  if acc.bigEndian then (Octets.split v (acc.bits / 8)).reverse else Octets.split v (acc.bits / 8)

theorem length_bytes (v : Nat) : (acc.bytes v).length = acc.bits / 8 := by
  unfold bytes
  split
  · rw [List.length_reverse, Octets.length_split]
  · exact Octets.length_split v _

theorem value_bytes_mod (v : Nat) : acc.value (acc.bytes v) = v % 2 ^ acc.bits := by
  have hsplit : Octets.value (Octets.split v (acc.bits / 8)) = v % 2 ^ acc.bits := by
    have hwidth : 8 * (acc.bits / 8) = acc.bits := by
      rcases acc.bits_cases with hbits | hbits | hbits <;> rw [hbits]
    rw [Octets.value_split, show 256 = 2 ^ 8 from rfl, ← Nat.pow_mul, hwidth]
  unfold value bytes
  split
  · rw [List.reverse_reverse, hsplit]
  · exact hsplit

theorem value_bytes {v : Nat} (hv : v < 2 ^ acc.bits) : acc.value (acc.bytes v) = v := by
  rw [value_bytes_mod, Nat.mod_eq_of_lt hv]

theorem write_call (v off : Int64) :
    acc.write heap this.toView.arg [.number v, .number off] =
      if acc.OutOfRange this off then ⟨.throw (.rangeError "out of range"), heap, []⟩
      else ⟨.ok (), this.toView.write heap off.toInt.toNat (acc.bytes (sizeT v.toInt)),
        [this.toView.access heap off.toInt.toNat (acc.bits / 8)]⟩ := by
  rw [write_eq, jsBufferWriteUInt, this.getBytes]
  dsimp only
  rw [if_neg (by simp), show argAt [.number v, .number off] 0 = .number v from rfl,
    show argAt [.number v, .number off] 1 = .number off from rfl, jsToInt64, jsToInt64]
  dsimp only
  simp only [check_iff, splitBytes_eq]
  rfl

variable {offset}

theorem write_run (hin : offset + acc.bits / 8 ≤ this.length) {v : Nat} (hv : v < 2 ^ acc.bits) :
    ∃ accesses, acc.write heap this.toView.arg
        [.number (Int64.ofNat v), .number (Int64.ofNat offset)] =
      ⟨.ok (), this.toView.write heap offset (acc.bytes v), accesses⟩ := by
  obtain ⟨hoffset, hcheck⟩ := acc.inRange this hin
  have hval : (Int64.ofNat v).toInt = v := by
    have hsmall := acc.two_pow_bits_le
    rw [Int64.toInt_ofNat_of_lt]
    omega
  have hsize : sizeT v = v := by
    have hsmall := acc.two_pow_bits_le
    exact sizeT_natCast (by omega)
  rw [write_call, if_neg hcheck, hval, hoffset, hsize, Int.toNat_natCast]
  exact ⟨_, rfl⟩

variable (offset)

/-- What is written is read back as the same number. -/
def ReadsBack (v : Nat) : Prop :=
  let written := acc.write heap this.toView.arg
    [.number (Int64.ofNat v), .number (Int64.ofNat offset)]
  written.result = .ok () ∧
    (acc.read written.heap this.toView.arg [.number (Int64.ofNat offset)]).result = .ok (v : Int)

/-- The bytes in the buffer that an accessor reads. -/
def content : List UInt8 := this.toView.read heap offset (acc.bits / 8)

/-- What is read is the value of the bytes, a number of the accessor's width. -/
def ReadsValue : Prop :=
  acc.value (acc.content this offset) < 2 ^ acc.bits ∧
    (acc.read heap this.toView.arg [.number (Int64.ofNat offset)]).result =
      .ok (acc.value (acc.content this offset) : Int)

variable {offset}

theorem small_iff {v : Nat} (hv : v < 2 ^ acc.bits) : acc.bits < 32 ∨ v < 2 ^ 31 ↔ v < 2 ^ 31 := by
  have hbound : acc.bits < 32 → 2 ^ acc.bits ≤ 2 ^ 31 := by
    intro hbits
    exact Nat.pow_le_pow_right (by decide) (by omega)
  omega

/-- An unsigned accessor gives a number back, and reads the value of the bytes, precisely if it has
fewer than 32 bits or the number has a clear top bit. -/
theorem unsigned_iff (hin : offset + acc.bits / 8 ≤ this.length) {v : Nat} (hv : v < 2 ^ acc.bits) :
    (acc.ReadsBack this offset v ↔ acc.bits < 32 ∨ v < 2 ^ 31) ∧
      (acc.ReadsValue this offset ↔
        acc.bits < 32 ∨ acc.value (acc.content this offset) < 2 ^ 31) := by
  have hint : ∀ n : Nat, Outcome.ok (int32 n) = Outcome.ok (n : Int) ↔ n < 2 ^ 31 := by
    intro n
    rw [Outcome.ok.injEq, int32_eq_self_iff (Int.natCast_nonneg n)]
    omega
  have hinside := this.inside
  constructor
  · obtain ⟨accesses, hrun⟩ := acc.write_run this hin hv
    have hread := acc.read_result (this.afterWrite this.toView offset (acc.bytes v)) hin
    have hback := this.read_write
      (show offset + (acc.bytes v).length ≤ this.length by rw [acc.length_bytes]; exact hin)
    rw [acc.length_bytes] at hback
    rw [show (this.afterWrite this.toView offset (acc.bytes v)).toView = this.toView from rfl, hback,
      acc.value_bytes hv] at hread
    rw [acc.small_iff hv, ReadsBack, hrun]
    dsimp only
    rw [hread, hint, and_iff_right rfl]
  · have hvalue : acc.value (acc.content this offset) < 2 ^ acc.bits :=
      acc.value_lt (View.read_length (by omega))
    rw [acc.small_iff hvalue, ReadsValue, and_iff_right hvalue, acc.read_result this hin]
    exact hint _

theorem unsigned_uint16BE :
    ((uint16BE.ReadsBack
          (⟨⟨0, 0, 4, false, by decide⟩, rfl, by decide⟩ : LiveView (storeOf [0, 0, 0, 0] (by decide)))
          2 0xABCD ↔ 16 < 32 ∨ 0xABCD < 2 ^ 31) ∧
      (uint16BE.ReadsValue
          (⟨⟨0, 0, 4, false, by decide⟩, rfl, by decide⟩ : LiveView (storeOf [0, 0, 0, 0] (by decide)))
          2 ↔
        16 < 32 ∨ uint16BE.value (uint16BE.content
          (⟨⟨0, 0, 4, false, by decide⟩, rfl, by decide⟩ : LiveView (storeOf [0, 0, 0, 0] (by decide)))
          2) < 2 ^ 31)) :=
  uint16BE.unsigned_iff
    (⟨⟨0, 0, 4, false, by decide⟩, rfl, by decide⟩ : LiveView (storeOf [0, 0, 0, 0] (by decide))) (by decide) (by decide)

/-- Four bytes of 255: `writeUInt32BE(0xFFFFFFFF, 0)` is read back as -1, and so are these bytes. -/
theorem uint32_top_bit :
    ¬ ∀ (acc : UIntAccessor) (heap : Heap) (this : LiveView heap) (offset v : Nat),
      offset + acc.bits / 8 ≤ this.length → v < 2 ^ acc.bits →
      acc.ReadsBack this offset v ∧ acc.ReadsValue this offset := by
  intro h
  have hboth := h uint32BE (storeOf [255, 255, 255, 255] (by decide))
    ⟨⟨0, 0, 4, false, by decide⟩, rfl, by decide⟩ 0 0xFFFFFFFF (by decide) (by decide)
  have hvalue := hboth.2.2
  revert hvalue
  decide

end UIntAccessor

end

end QNode.Buffer
