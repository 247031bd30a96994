import QNode.Buffer.Accessors

/-!
# The writers

Seven methods write an integer of one, two or four bytes.  All of them go through one routine, so
what each leaves in the Buffer follows from one equation about it: the digits of the number to base
256, in the order of the writer, and nothing else changed.
-/

open QNode.Engine Word Splice

namespace QNode.Buffer

inductive Writer
  | writeUInt8 | writeUInt16BE | writeUInt16LE | writeUInt32BE | writeUInt32LE
  | writeInt32BE | writeInt32LE
  deriving DecidableEq, Repr

namespace Writer

/-- The width and the order of bytes that the name promises. -/
def bits : Writer → Nat
  | writeUInt8 => 8
  | writeUInt16BE | writeUInt16LE => 16
  | writeUInt32BE | writeUInt32LE | writeInt32BE | writeInt32LE => 32

def bigEndian : Writer → Bool
  | writeUInt16BE | writeUInt32BE | writeInt32BE => true
  | writeUInt8 | writeUInt16LE | writeUInt32LE | writeInt32LE => false

def width (w : Writer) : Nat := w.bits / 8

/-- `bits<<4 | big_endian`, as `js_buffer_init` registers the writer. -/
def magic : Writer → Nat
  | writeUInt8 => 8 <<< 4
  | writeUInt16BE => (16 <<< 4) ||| 1
  | writeUInt16LE => (16 <<< 4) ||| 0
  | writeUInt32BE | writeInt32BE => (32 <<< 4) ||| 1
  | writeUInt32LE | writeInt32LE => (32 <<< 4) ||| 0

def call (w : Writer) : Heap → JsArg → List JsArg → Ran Unit :=
  jsBufferWriteUInt (w.magic >>> 4) (w.magic &&& 1 ≠ 0)

/-- The writer of the same width in the other order. -/
def opposite : Writer → Writer
  | writeUInt8 => writeUInt8
  | writeUInt16BE => writeUInt16LE
  | writeUInt16LE => writeUInt16BE
  | writeUInt32BE => writeUInt32LE
  | writeUInt32LE => writeUInt32BE
  | writeInt32BE => writeInt32LE
  | writeInt32LE => writeInt32BE

end Writer

def readInt32BE : Heap → JsArg → List JsArg → Ran Int :=
  jsBufferReadUInt (((32 <<< 4) ||| 1) >>> 4) (((32 <<< 4) ||| 1) &&& 1 ≠ 0)

def readInt32LE : Heap → JsArg → List JsArg → Ran Int :=
  jsBufferReadUInt (((32 <<< 4) ||| 0) >>> 4) (((32 <<< 4) ||| 0) &&& 1 ≠ 0)

namespace Writer

/-- The reader of signed numbers in the order of a writer. -/
def readInt32 (w : Writer) : Heap → JsArg → List JsArg → Ran Int :=
  if w.bigEndian then readInt32BE else readInt32LE

-- The signed writers are registered with the numbers of the unsigned ones.
def accessor : Writer → UIntAccessor
  | writeUInt8 => .uint8
  | writeUInt16BE => .uint16BE
  | writeUInt16LE => .uint16LE
  | writeUInt32BE | writeInt32BE => .uint32BE
  | writeUInt32LE | writeInt32LE => .uint32LE

theorem call_eq (w : Writer) : w.call = w.accessor.write := by
  cases w <;> rfl

theorem accessor_bits (w : Writer) : w.accessor.bits = w.bits := by
  cases w <;> rfl

theorem accessor_bigEndian (w : Writer) : w.accessor.bigEndian = w.bigEndian := by
  cases w <;> rfl

theorem readInt32_eq {w : Writer} (h : w.bits = 32) : w.readInt32 = w.accessor.read := by
  cases w <;> first | rfl | cases h

/-- The byte at position `i` of what a writer should store: a digit of `v mod 2^bits` to base 256,
the most significant one first in big-endian order. -/
def digit (w : Writer) (v : Int) (i : Nat) : UInt8 :=
  UInt8.ofNat ((v % 2 ^ w.bits).toNat / 256 ^ (if w.bigEndian then w.width - 1 - i else i) % 256)

-- The conversion to `uint64_t` keeps every digit of the width.
theorem sizeT_mod (w : Writer) (v : Int) : sizeT v % 256 ^ w.width = (v % 2 ^ w.bits).toNat := by
  cases w <;> simp only [width, bits, sizeT] <;> omega

theorem bytes_getElem? (w : Writer) (v : Int) {i : Nat} (hi : i < w.width) :
    (w.accessor.bytes (sizeT v))[i]? = some (w.digit v i) := by
  have hdigit : ∀ j < w.width, (Octets.split (sizeT v) w.width)[j]? =
      some (UInt8.ofNat ((v % 2 ^ w.bits).toNat / 256 ^ j % 256)) := by
    intro j hj
    rw [Octets.getElem?_split hj, ← w.sizeT_mod v, Octets.digit_mod _ hj]
  unfold UIntAccessor.bytes digit
  rw [accessor_bits, accessor_bigEndian, show w.bits / 8 = w.width from rfl]
  split
  next =>
    rw [List.getElem?_reverse (by rw [Octets.length_split]; exact hi), Octets.length_split]
    exact hdigit _ (by omega)
  next => exact hdigit i hi

variable (w : Writer) {heap : Heap} (this : LiveView heap) (v off : Int64)

/-- `this.writeX(v, off)` -/
def run : Ran Unit := w.call heap this.toView.arg [.number v, .number off]

/-- The `n` bytes at `off` do not all lie in the Buffer. -/
def OutOfRange : Prop := off.toInt < 0 ∨ off.toInt + w.width > this.length

theorem accessor_outOfRange : w.accessor.OutOfRange this off ↔ w.OutOfRange this off := by
  rw [UIntAccessor.OutOfRange, accessor_bits]
  exact Iff.rfl

-- Where the range check passes, the call is one write of the digits.
theorem run_inRange (h : ¬ w.OutOfRange this off) :
    w.run this v off =
      ⟨.ok (), this.toView.write heap off.toInt.toNat (w.accessor.bytes (sizeT v.toInt)),
        [this.toView.access heap off.toInt.toNat w.width]⟩ := by
  rw [run, call_eq, UIntAccessor.write_call, if_neg (mt (w.accessor_outOfRange this off).mp h),
    accessor_bits]
  rfl

theorem run_outOfRange (h : w.OutOfRange this off) :
    w.run this v off = ⟨.throw (.rangeError "out of range"), heap, []⟩ := by
  rw [run, call_eq, UIntAccessor.write_call, if_pos ((w.accessor_outOfRange this off).mpr h)]

theorem length_bytes (n : Nat) : (w.accessor.bytes n).length = w.width := by
  rw [UIntAccessor.length_bytes, accessor_bits]
  rfl

theorem bytes_inside (h : ¬ w.OutOfRange this off) :
    off.toInt.toNat + (w.accessor.bytes (sizeT v.toInt)).length ≤ this.length := by
  unfold OutOfRange at h
  rw [length_bytes]
  omega

-- The bytes a writer leaves in its range.
theorem run_read (h : ¬ w.OutOfRange this off) :
    this.toView.read (w.run this v off).heap off.toInt.toNat w.width =
      w.accessor.bytes (sizeT v.toInt) := by
  have hback := this.read_write (w.bytes_inside this v off h)
  rw [length_bytes] at hback
  rw [run_inRange w this v off h]
  exact hback

theorem bytes_opposite (n : Nat) : w.opposite.accessor.bytes n = (w.accessor.bytes n).reverse := by
  cases w with
  | writeUInt8 => rfl
  | writeUInt16BE | writeUInt32BE | writeInt32BE => exact List.reverse_reverse _ |>.symm
  | writeUInt16LE | writeUInt32LE | writeInt32LE => rfl

theorem opposite_outOfRange (h : ¬ w.OutOfRange this off) :
    ¬ w.opposite.OutOfRange this off := by
  cases w <;> exact h

/-- What a writer promises of a call in range: the digits of the value are stored at the offset, and
no other byte of any buffer changes. -/
structure Stored (ran : Ran Unit) : Prop where
  returns : ran.result = .ok ()
  stored : ∀ i < w.width,
    this.toView.byteAt ran.heap (off.toInt.toNat + i) = some (w.digit v.toInt i)
  kept : ∀ b j, ¬ (b = this.buffer ∧ this.offset + off.toInt.toNat ≤ j ∧
      j < this.offset + off.toInt.toNat + w.width) →
    (ran.heap b).data[j]? = (heap b).data[j]?

theorem run_stored (h : ¬ w.OutOfRange this off) : w.Stored this v off (w.run this v off) := by
  have hinside := this.inside
  have hfit := w.bytes_inside this v off h
  rw [run_inRange w this v off h]
  constructor
  case returns => rfl
  case stored =>
    intro i hi
    rw [View.write_inside (by omega) (by rw [length_bytes]; exact hi), bytes_getElem? w _ hi]
  case kept =>
    intro b j hout
    rw [← w.length_bytes (sizeT v.toInt)] at hout
    exact View.write_outside (by omega) hout

-- A signed reader gives the value back modulo 2^32.
theorem run_readInt32 (h : ¬ w.OutOfRange this off) (hbits : w.bits = 32) :
    (w.readInt32 (w.run this v off).heap this.toView.arg [.number off]).result =
      .ok (int32 v.toInt) := by
  have hread := w.accessor.read_call
    (this.afterWrite this.toView off.toInt.toNat (w.accessor.bytes (sizeT v.toInt))) off
  have hcheck := mt (w.accessor_outOfRange
    (this.afterWrite this.toView off.toInt.toNat (w.accessor.bytes (sizeT v.toInt))) off).mp h
  have hback := w.run_read this v off h
  rw [run_inRange w this v off h] at hback ⊢
  rw [accessor_bits, if_neg hcheck] at hread
  rw [readInt32_eq hbits]
  apply (congrArg Ran.result hread).trans
  show Outcome.ok (int32 (w.accessor.value (this.toView.read _ off.toInt.toNat w.width) : Nat)) = _
  rw [hback, UIntAccessor.value_bytes_mod, accessor_bits, hbits, int32_sizeT]

end Writer

end QNode.Buffer
