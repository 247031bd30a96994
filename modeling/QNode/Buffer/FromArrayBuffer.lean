import QNode.Buffer.Subarray
import QNode.Engine.Numbers

/-!
# Buffers that show an ArrayBuffer

Without a length `Buffer.from` takes the length of the whole ArrayBuffer and not what is left of it after
the offset, so that every offset but 0 is refused.
-/

open QNode.Engine Word

namespace QNode.Buffer

/-! ## Integers as arguments -/

/-- A Number as an argument that is converted to 64 bits. -/
def JsArg.ofJsNumber (x : JsNumber) : JsArg := .number (jsToInt64Free x)

/-- An integer as an argument; it is any Number with this value. -/
def JsArg.ofInteger (n : Int) : JsArg := .number (Int64.ofInt n)

/-- What is left of an integer after the conversion. -/
def converted (n : Int) : Int := Int.bmod n (2 ^ 64)

theorem toInt_ofInt (n : Int) : (Int64.ofInt n).toInt = converted n := Int64.toInt_ofInt

theorem converted_range (n : Int) : -2 ^ 63 ≤ converted n ∧ converted n < 2 ^ 63 := by
  unfold converted
  rw [Int.bmod_def]
  omega

theorem converted_of_range {n : Int} (hlow : -2 ^ 63 ≤ n) (hhigh : n < 2 ^ 63) : converted n = n := by
  unfold converted
  rw [Int.bmod_def]
  omega

theorem converted_eq_zero_iff (n : Int) : converted n = 0 ↔ 2 ^ 64 ∣ n := by
  unfold converted
  rw [Int.bmod_def]
  omega

/-! ## The range of an ArrayBuffer -/

/-- Where the range of an ArrayBuffer of `n` bytes stops that an offset and perhaps a length select. -/
def stopOf (n : Nat) (off : Int) : Option Int → Int
  | none => n
  | some len => off + len

/-- The range lies inside the ArrayBuffer. -/
def InRange (n : Nat) (off : Int) (len : Option Int) : Prop :=
  0 ≤ off ∧ off ≤ stopOf n off len ∧ stopOf n off len ≤ n

theorem inRange_none {n : Nat} {off : Int} : InRange n off none ↔ 0 ≤ off ∧ off ≤ n := by
  show 0 ≤ off ∧ off ≤ (n : Int) ∧ (n : Int) ≤ n ↔ _
  omega

theorem inRange_some {n : Nat} {off len : Int} :
    InRange n off (some len) ↔ 0 ≤ off ∧ 0 ≤ len ∧ off + len ≤ n := by
  show 0 ≤ off ∧ off ≤ off + len ∧ off + len ≤ n ↔ _
  omega

-- What lies in range is converted exactly.
theorem converted_of_inRange {n : Nat} {off len : Int} (hn : n < 2 ^ 31)
    (h : InRange n off (some len)) : converted off = off ∧ converted len = len := by
  have hin := inRange_some.mp h
  exact ⟨converted_of_range (by omega) (by omega), converted_of_range (by omega) (by omega)⟩

section

variable (heap : Heap) (buffer : Nat) (off : Int) (len : Option Int)

/-- `Buffer.from(ab, off)` or `Buffer.from(ab, off, len)`; the ArrayBuffer is the first argument. -/
def fromRange : Ran View :=
  jsBufferFromArrayBuffer heap buffer
    (.object none (fun heap ↦ (heap, none)) :: .ofInteger off :: (len.map JsArg.ofInteger).toList)

/-- The call succeeds for the ranges inside the ArrayBuffer and throws a RangeError for all others, and
its result shows the bytes of the range, whatever becomes of them. -/
structure ShowsRange : Prop where
  succeeds_iff : (∃ v, (fromRange heap buffer off len).result = .ok v) ↔
    InRange (heap buffer).byteLength off len
  range : ∀ v, (fromRange heap buffer off len).result = .ok v →
    v.buffer = buffer ∧ (v.offset : Int) = off ∧
      (v.offset + v.length : Nat) = stopOf (heap buffer).byteLength off len
  refuses : ¬ InRange (heap buffer).byteLength off len →
    ∃ message, (fromRange heap buffer off len).result = .throw (.rangeError message)

/-- The length that the code works with. -/
def lengthOf (n : Nat) : Option Int → Int
  | none => n
  | some len => converted len

variable {heap buffer}

theorem fromRange_eq (hlive : (heap buffer).detached = false) :
    fromRange heap buffer off len =
      if converted off < 0 ∨ lengthOf (heap buffer).byteLength len < 0 ∨
          sizeT (converted off + lengthOf (heap buffer).byteLength len) > (heap buffer).byteLength then
        ⟨.throw (.rangeError "invalid offset/length"), heap, []⟩
      else ⟨newUint8Array heap buffer (converted off).toNat
        (lengthOf (heap buffer).byteLength len).toNat, heap, []⟩ := by
  rw [fromRange, jsBufferFromArrayBuffer, hlive, if_neg Bool.false_ne_true, ← toInt_ofInt]
  cases len with
  | none => rfl
  | some len =>
    rw [lengthOf, ← toInt_ofInt]
    rfl

-- What the code accepts, with the length it works with.
theorem fromRange_cases (hlive : (heap buffer).detached = false) :
    (InRange (heap buffer).byteLength (converted off) (some (lengthOf (heap buffer).byteLength len)) ∧
      ∃ v, (fromRange heap buffer off len).result = .ok v ∧ v.buffer = buffer ∧
        (v.offset : Int) = converted off ∧ (v.length : Int) = lengthOf (heap buffer).byteLength len) ∨
    (¬ InRange (heap buffer).byteLength (converted off)
        (some (lengthOf (heap buffer).byteLength len)) ∧
      (fromRange heap buffer off len).result = .throw (.rangeError "invalid offset/length")) := by
  have hoff := converted_range off
  have hshort := (heap buffer).byteLength_le
  have hlen : -2 ^ 63 ≤ lengthOf (heap buffer).byteLength len ∧
      lengthOf (heap buffer).byteLength len < 2 ^ 63 := by
    cases len with
    | none =>
      show -2 ^ 63 ≤ ((heap buffer).byteLength : Int) ∧ ((heap buffer).byteLength : Int) < 2 ^ 63
      omega
    | some len => exact converted_range len
  have haccept : (converted off < 0 ∨ lengthOf (heap buffer).byteLength len < 0 ∨
      sizeT (converted off + lengthOf (heap buffer).byteLength len) > (heap buffer).byteLength) ↔
      ¬ InRange (heap buffer).byteLength (converted off)
        (some (lengthOf (heap buffer).byteLength len)) := by
    rw [inRange_some]
    by_cases hsigns : 0 ≤ converted off ∧ 0 ≤ lengthOf (heap buffer).byteLength len
    · rw [sizeT_of_nonneg (by omega) (by omega)]
      omega
    · omega
  rw [fromRange_eq off len hlive]
  by_cases hin : InRange (heap buffer).byteLength (converted off)
      (some (lengthOf (heap buffer).byteLength len))
  · left
    have hfits := inRange_some.mp hin
    rw [if_neg (mt haccept.mp (not_not_intro hin)), newUint8Array, hlive, if_neg Bool.false_ne_true,
      dif_pos (by omega)]
    exact ⟨hin, _, rfl, rfl, Int.toNat_of_nonneg (by omega), Int.toNat_of_nonneg (by omega)⟩
  · right
    rw [if_pos (haccept.mpr hin)]
    exact ⟨hin, rfl⟩

/-- The inputs for which the call does what it should: without a length the offset is 0, or neither in
range nor a multiple of `2 ^ 64`; with one, the two do not become a range by losing their high bits. -/
def Unwrapped (n : Nat) (off : Int) : Option Int → Prop
  | none => off = 0 ∨ (¬ (0 ≤ off ∧ off ≤ n) ∧ ¬ 2 ^ 64 ∣ off)
  | some len => InRange n (converted off) (some (converted len)) → InRange n off (some len)

variable {off len}

theorem showsRange_of_ok {v : View} (h : (fromRange heap buffer off len).result = .ok v) :
    ShowsRange heap buffer off len ↔ InRange (heap buffer).byteLength off len ∧
      v.buffer = buffer ∧ (v.offset : Int) = off ∧
        (v.offset + v.length : Nat) = stopOf (heap buffer).byteLength off len := by
  constructor
  · intro hshows
    exact ⟨hshows.succeeds_iff.mp ⟨v, h⟩, hshows.range v h⟩
  · rintro ⟨hin, hrange⟩
    refine ⟨iff_of_true ⟨v, h⟩ hin, ?_, fun hout ↦ absurd hin hout⟩
    intro v' hv'
    obtain rfl := Outcome.ok.inj (h.symm.trans hv')
    exact hrange

theorem showsRange_of_throw {message : String}
    (h : (fromRange heap buffer off len).result = .throw (.rangeError message)) :
    ShowsRange heap buffer off len ↔ ¬ InRange (heap buffer).byteLength off len := by
  have hnone : ∀ v, (fromRange heap buffer off len).result ≠ .ok v := by
    intro v hv
    cases h.symm.trans hv
  constructor
  · intro hshows hin
    obtain ⟨v, hv⟩ := hshows.succeeds_iff.mpr hin
    exact hnone v hv
  · intro hout
    exact ⟨iff_of_false (fun ⟨v, hv⟩ ↦ hnone v hv) hout, fun v hv ↦ absurd hv (hnone v),
      fun _ ↦ ⟨message, h⟩⟩

theorem not_showsRange_of_detached (hgone : (heap buffer).detached = true) :
    ¬ ShowsRange heap buffer off len := by
  have hrun : (fromRange heap buffer off len).result =
      .throw (.typeError "Buffer.from(): invalid argument type") := by
    rw [fromRange, jsBufferFromArrayBuffer, if_pos hgone]
  intro h
  by_cases hin : InRange (heap buffer).byteLength off len
  · obtain ⟨v, hv⟩ := h.succeeds_iff.mpr hin
    cases hrun.symm.trans hv
  · obtain ⟨message, hthrow⟩ := h.refuses hin
    cases hrun.symm.trans hthrow

variable (heap buffer off len)

/-- `Buffer.from` shows what it should of an ArrayBuffer precisely if that is not detached and the offset
and the length are among the inputs above. -/
theorem showsRange_iff :
    ShowsRange heap buffer off len ↔
      (heap buffer).detached = false ∧ Unwrapped (heap buffer).byteLength off len := by
  cases hlive : (heap buffer).detached with
  | true => exact iff_of_false (not_showsRange_of_detached hlive) fun h ↦ nomatch h.1
  | false =>
    rw [and_iff_right rfl]
    have hshort := (heap buffer).byteLength_le
    rcases fromRange_cases off len hlive with ⟨hin, v, hv, hbuffer, hoffset, hlength⟩ | ⟨hout, hthrow⟩
    · rw [showsRange_of_ok hv, and_iff_right hbuffer, hoffset]
      cases len with
      | none =>
        have hlen : lengthOf (heap buffer).byteLength none = (heap buffer).byteLength := rfl
        have hin' := inRange_some.mp hin
        rw [hlen] at hin' hlength
        have hzero : converted off = 0 := by omega
        show _ ∧ _ = off ∧ ((v.offset + v.length : Nat) : Int) = (heap buffer).byteLength ↔
          off = 0 ∨ _
        rw [inRange_none, or_iff_left fun h ↦ h.2 ((converted_eq_zero_iff off).mp hzero)]
        omega
      | some len =>
        constructor
        · intro h _
          exact h.1
        · intro h
          have hexact := converted_of_inRange hshort (h hin)
          refine ⟨h hin, hexact.1, ?_⟩
          rw [Int.natCast_add, hoffset, hlength, hexact.1]
          exact congrArg (off + ·) hexact.2
    · rw [showsRange_of_throw hthrow]
      cases len with
      | none =>
        have hnonzero : converted off ≠ 0 := by
          intro hzero
          apply hout
          rw [hzero, inRange_some]
          show (0 : Int) ≤ 0 ∧ (0 : Int) ≤ (heap buffer).byteLength ∧
            (0 : Int) + (heap buffer).byteLength ≤ (heap buffer).byteLength
          omega
        have hdvd := mt (converted_eq_zero_iff off).mpr hnonzero
        show _ ↔ off = 0 ∨ _
        rw [inRange_none, and_iff_left hdvd, or_iff_right]
        rintro rfl
        exact hdvd (Int.dvd_zero _)
      | some len =>
        refine iff_of_true ?_ fun h ↦ absurd h hout
        intro hin
        have hexact := converted_of_inRange hshort hin
        apply hout
        show InRange _ (converted off) (some (converted len))
        rw [hexact.1, hexact.2]
        exact hin

end

/-- `Buffer.from(new ArrayBuffer(8), 4)` throws. -/
theorem from_offset_refused :
    ¬ ∀ (heap : Heap) (buffer : Nat) (off : Int) (len : Option Int),
      (heap buffer).detached = false → ShowsRange heap buffer off len := by
  intro h
  have hshows := h (storeOf (List.replicate 8 0) (by decide)) 0 4 none rfl
  obtain ⟨v, hv⟩ := hshows.succeeds_iff.mpr (inRange_none.mpr (by decide))
  have hthrow : (fromRange (storeOf (List.replicate 8 0) (by decide)) 0 4 none).result =
    .throw (.rangeError "invalid offset/length") := rfl
  cases hthrow.symm.trans hv

end QNode.Buffer
