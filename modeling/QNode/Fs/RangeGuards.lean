import QNode.Buffer.Accessors
import QNode.Buffer.FromArrayBuffer
import QNode.Fs.Promises

/-!
# The guards of a range

Every function that takes an offset and a length checks them with one comparison of wrapped sums.  None
of the wrapped sums and differences passes where the integers do not.
-/

open QNode.Buffer QNode.Engine QNode.Fs.CStrings Word

namespace QNode.Fs

/-- The functions with such a guard, with their length: `FileHandle.read` has the rest of the buffer for
a missing one, `FileHandle.write` for a negative one as well, and the accessors have the width of their
number. -/
inductive Guard
  | read (length : Option Int64)
  | write (length : Option Int64)
  | bufferFrom (length : Int64)
  | accessor (width : Nat) (fits : width < 2 ^ 63)

namespace Guard

/-- The length that the code works with. -/
def checked (size : Nat) (offset : Int64) : Guard → Int
  | read length => numberOr length (restLength size offset.toInt)
  | write length =>
    if numberOr length (-1) < 0 then restLength size offset.toInt else numberOr length (-1)
  | bufferFrom length => length.toInt
  | accessor width _ => width

/-- The comparison, for a buffer of `size` bytes. -/
def Passes (size : Nat) (offset : Int64) : Guard → Prop
  | accessor width _ => ¬ (offset.toInt < 0 ∨ sizeT (offset.toInt + width) > size)
  | guard =>
    ¬ (offset.toInt < 0 ∨ guard.checked size offset < 0 ∨
      sizeT (offset.toInt + guard.checked size offset) > size)

/-- The length that is meant. -/
def length (size : Nat) (offset : Int64) : Guard → Int
  | read none | write none => size - offset.toInt
  | read (some length) => length.toInt
  | write (some length) => if length.toInt < 0 then size - offset.toInt else length.toInt
  | bufferFrom length => length.toInt
  | accessor width _ => width

/-- The guard decides whether a call with a buffer of this size goes on. -/
def Decides (size : Nat) (offset : Int64) : Guard → Prop
  | read length => ∀ position,
    ((∃ r, jsFsFhReadRequest (.arrayBuffer size (some offset) length position) = .ok r) ↔
      (read length).Passes size offset) ∧
    ((∃ r, jsFsFhReadRequest (.options (.arrayBuffer size) (some offset) length position) = .ok r) ↔
      (read length).Passes size offset)
  | write length => ∀ (bytes : List UInt8) position, bytes.length = size →
    ((∃ r, jsFsFhWriteRequest (.arrayBuffer bytes (some offset) length position) = .ok r) ↔
      (write length).Passes size offset)
  | bufferFrom length => ∀ (heap : Heap) (buffer : Nat), (heap buffer).detached = false →
    (heap buffer).byteLength = size → ∀ value,
    ((∃ v, (jsBufferFromArrayBuffer heap buffer [value, .number offset, .number length]).result =
      .ok v) ↔ (bufferFrom length).Passes size offset)
  | accessor width fits => ∀ (heap : Heap) (this : LiveView heap), this.length = size →
    ∀ bits bigEndian, bits / 8 = width →
    ((∃ n, (jsBufferReadUInt bits bigEndian heap this.toView.arg [.number offset]).result = .ok n) ↔
      (accessor width fits).Passes size offset) ∧
    ∀ value, ((∃ u, (jsBufferWriteUInt bits bigEndian heap this.toView.arg
      [.number value, .number offset]).result = .ok u) ↔ (accessor width fits).Passes size offset)

/-- The guard passes precisely the ranges that lie in a buffer of this size, and decides. -/
structure Exact (guard : Guard) (size : Nat) (offset : Int64) : Prop where
  passes_iff : guard.Passes size offset ↔
    0 ≤ offset.toInt ∧ 0 ≤ guard.length size offset ∧
      offset.toInt + guard.length size offset ≤ size
  decides : guard.Decides size offset

/-! ## The comparisons -/

section

variable {size : Nat} {offset : Int64}

-- A sum of two signed words does not wrap past `2 ^ 64`.
theorem sum_passes_iff {length : Int} (hlow : -2 ^ 63 ≤ length) (hhigh : length < 2 ^ 63) :
    ¬ (offset.toInt < 0 ∨ length < 0 ∨ sizeT (offset.toInt + length) > size) ↔
      0 ≤ offset.toInt ∧ 0 ≤ length ∧ offset.toInt + length ≤ size := by
  have htop := offset.toInt_lt
  by_cases hsigns : 0 ≤ offset.toInt ∧ 0 ≤ length
  · rw [sizeT_of_nonneg (by omega) (by omega)]
    omega
  · omega

theorem restLength_range (size : Nat) (offset : Int) :
    -2 ^ 63 ≤ restLength size offset ∧ restLength size offset < 2 ^ 63 := by
  unfold restLength toInt64
  rw [Int.bmod_def]
  omega

-- The rest is exact unless the offset is negative, and such an offset does not pass.
theorem restLength_exact (hsize : size ≤ 2 ^ 53) (hoffset : 0 ≤ offset.toInt) :
    restLength size offset.toInt = size - offset.toInt := by
  have htop := offset.toInt_lt
  unfold restLength toInt64
  rw [Int.bmod_def]
  omega

theorem checked_range (guard : Guard) (size : Nat) (offset : Int64) :
    -2 ^ 63 ≤ guard.checked size offset ∧ guard.checked size offset < 2 ^ 63 := by
  have hrest := restLength_range size offset.toInt
  have hword : ∀ n : Int64, -2 ^ 63 ≤ n.toInt ∧ n.toInt < 2 ^ 63 := fun n ↦ ⟨n.le_toInt, n.toInt_lt⟩
  cases guard with
  | read length =>
    cases length with
    | none => exact hrest
    | some length => exact hword length
  | write length =>
    show -2 ^ 63 ≤ (if _ then _ else _) ∧ (if _ then _ else _) < (2 ^ 63 : Int)
    split
    · exact hrest
    · cases length with
      | none => exact ⟨by decide, by decide⟩
      | some length => exact hword length
  | bufferFrom length => exact hword length
  | accessor width fits =>
    show -2 ^ 63 ≤ (width : Int) ∧ (width : Int) < 2 ^ 63
    omega

theorem checked_eq (hsize : size ≤ 2 ^ 53) (hoffset : 0 ≤ offset.toInt) (guard : Guard) :
    guard.checked size offset = guard.length size offset := by
  have hrest := restLength_exact hsize hoffset
  cases guard with
  | read length =>
    cases length with
    | none => exact hrest
    | some length => rfl
  | write length =>
    cases length with
    | none => exact hrest
    | some length =>
      show (if length.toInt < 0 then _ else length.toInt) = if length.toInt < 0 then _ else length.toInt
      rw [hrest]
  | bufferFrom length => rfl
  | accessor width fits => rfl

theorem passes_iff (hsize : size ≤ 2 ^ 53) (guard : Guard) :
    guard.Passes size offset ↔ 0 ≤ offset.toInt ∧ 0 ≤ guard.length size offset ∧
      offset.toInt + guard.length size offset ≤ size := by
  have hrange := guard.checked_range size offset
  have hsum : guard.Passes size offset ↔
      ¬ (offset.toInt < 0 ∨ guard.checked size offset < 0 ∨
        sizeT (offset.toInt + guard.checked size offset) > size) := by
    cases guard with
    | read length | write length | bufferFrom length => exact Iff.rfl
    | accessor width fits =>
      show ¬ (offset.toInt < 0 ∨ sizeT (offset.toInt + width) > size) ↔
        ¬ (offset.toInt < 0 ∨ (width : Int) < 0 ∨ sizeT (offset.toInt + width) > size)
      omega
  rw [hsum, sum_passes_iff hrange.1 hrange.2]
  by_cases hoffset : 0 ≤ offset.toInt
  · rw [checked_eq hsize hoffset]
  · exact iff_of_false (fun h ↦ hoffset h.1) fun h ↦ hoffset h.1

/-! ## The functions -/

theorem read_decides (length : Option Int64) : (read length).Decides size offset := by
  intro position
  have hpasses : readFits size (some offset) length ↔ (read length).Passes size offset := by
    show decide _ = true ↔ _
    rw [decide_eq_true_iff]
    exact Iff.rfl
  exact ⟨(readRequest_isOk _).trans hpasses, (readRequest_isOk _).trans hpasses⟩

theorem write_decides (length : Option Int64) : (write length).Decides size offset := by
  rintro bytes position rfl
  refine (writeRequest_isOk _).trans ?_
  show decide _ = true ↔ _
  rw [decide_eq_true_iff]
  exact Iff.rfl

theorem bufferFrom_decides (length : Int64) : (bufferFrom length).Decides size offset := by
  rintro heap buffer hlive rfl value
  have hrun : jsBufferFromArrayBuffer heap buffer [value, .number offset, .number length] =
      fromRange heap buffer offset.toInt (some length.toInt) := by
    show _ = jsBufferFromArrayBuffer heap buffer [_, .number (Int64.ofInt offset.toInt),
      .number (Int64.ofInt length.toInt)]
    rw [Int64.ofInt_toInt, Int64.ofInt_toInt]
    rfl
  have hexact : ∀ n : Int64, converted n.toInt = n.toInt :=
    fun n ↦ converted_of_range n.le_toInt n.toInt_lt
  have hpasses : (bufferFrom length).Passes (heap buffer).byteLength offset ↔
      InRange (heap buffer).byteLength (converted offset.toInt)
        (some (lengthOf (heap buffer).byteLength (some length.toInt))) := by
    rw [inRange_some, lengthOf, hexact, hexact]
    exact sum_passes_iff length.le_toInt length.toInt_lt
  rw [hrun, hpasses]
  rcases fromRange_cases offset.toInt (some length.toInt) hlive with ⟨hin, v, hv, -⟩ | ⟨hout, hthrow⟩
  · exact iff_of_true ⟨v, hv⟩ hin
  · refine iff_of_false ?_ hout
    rintro ⟨v, hv⟩
    cases hthrow.symm.trans hv

-- A call that refuses exactly where its guard says so.
theorem guarded_ok_iff {α : Type} {refuses : Prop} [Decidable refuses] {refused accepted : Ran α}
    (hrefused : ∀ value, refused.result ≠ .ok value) (haccepted : ∃ value, accepted.result = .ok value) :
    (∃ value, (if refuses then refused else accepted).result = .ok value) ↔ ¬ refuses := by
  by_cases hout : refuses
  · rw [if_pos hout]
    exact iff_of_false (fun ⟨value, hvalue⟩ ↦ hrefused value hvalue) (not_not_intro hout)
  · rw [if_neg hout]
    exact iff_of_true haccepted hout

theorem accessor_decides (width : Nat) (fits : width < 2 ^ 63) :
    (accessor width fits).Decides size offset := by
  rintro heap this rfl bits bigEndian rfl
  have hpasses : (accessor (bits / 8) fits).Passes this.length offset ↔
      ¬ (offset.toInt < 0 ∨ sizeT (offset.toInt + (bits / 8 : Nat)) > this.length) := Iff.rfl
  have hoffset : jsToInt64Or heap (argAt [.number offset] 0) 0 = (offset.toInt, heap) := rfl
  constructor
  · rw [hpasses, jsBufferReadUInt, this.getBytes]
    dsimp only
    rw [hoffset]
    dsimp only
    refine guarded_ok_iff ?_ ⟨_, rfl⟩
    intro _ hthrow
    cases hthrow
  · intro value
    have hval : jsToInt64 heap (argAt [.number value, .number offset] 0) = (value.toInt, heap) := rfl
    have hoff : jsToInt64 heap (argAt [.number value, .number offset] 1) = (offset.toInt, heap) := rfl
    rw [hpasses, jsBufferWriteUInt, this.getBytes]
    dsimp only
    rw [if_neg (by simp), hval]
    dsimp only
    rw [hoff]
    dsimp only
    refine guarded_ok_iff ?_ ⟨_, rfl⟩
    intro _ hthrow
    cases hthrow

end

end Guard

/-- No guard is passed by a wrapped sum or difference. -/
theorem guards_exact (guard : Guard) (size : Nat) (hsize : size ≤ 2 ^ 53) (offset : Int64) :
    guard.Exact size offset := by
  refine ⟨Guard.passes_iff hsize guard, ?_⟩
  cases guard with
  | read length => exact Guard.read_decides length
  | write length => exact Guard.write_decides length
  | bufferFrom length => exact Guard.bufferFrom_decides length
  | accessor width fits => exact Guard.accessor_decides width fits

/-- A write of a negative length from offset 3 of a buffer of eight bytes. -/
theorem guards_exact_rest : 8 ≤ 2 ^ 53 ∧ (Guard.write (some (-1))).Exact 8 3 :=
  ⟨by decide, guards_exact (.write (some (-1))) 8 (by decide) 3⟩

end QNode.Fs
