import QNode.Buffer.Conversions
import QNode.Buffer.From
import QNode.Buffer.IndexOf
import QNode.Buffer.WriteText

/-!
# Calls with an empty text

Four calls decode a text into a block they ask the allocator for, which asserts that the size is not
zero.  A text that decodes to nothing, such as the empty one, asks for a block of no bytes.
-/

open QNode.Engine Occurrences

namespace QNode.Buffer

/-- The calls that take a text, with their arguments beside the text and the encoding. -/
inductive TextCall
  | fromString
  | byteLength
  | write (offset length : JsArg)
  | indexOf (byteOffset : JsArg)

namespace TextCall

variable {heap : Heap} (this : LiveView heap) (text : JsString) (parsed : Int64) (enc : JsArg)

def run : TextCall → Outcome Returned
  | fromString => (jsBufferFrom heap (.string text) [.string text parsed, enc]).result.map .buffer
  | byteLength => (jsBufferByteLength heap (.string text) [.string text parsed, enc]).map
      fun (n : Nat) ↦ .number n
  | write offset length =>
    (jsBufferWrite heap this.toView.arg [.string text parsed, offset, length, enc]).result.map .number
  | indexOf byteOffset =>
    (jsBufferIndexOf heap this.toView.arg [.string text parsed, byteOffset, enc]).map .number

/-- What a call should answer for the empty text: an empty Buffer, a length or count of 0, and the
first place where nothing occurs. -/
def Nothing : TextCall → Returned → Prop
  | fromString, answer => answer = .buffer (.fresh [])
  | byteLength, answer => answer = .number 0
  | write _ _, answer => answer = .number 0
  | indexOf byteOffset, answer => ∃ r, answer = .number r ∧
      IsFirst (OccursAt (this.toView.content heap) []) (clampLow (numberArg byteOffset 0)).toNat r

/-- No block of zero bytes is asked for, and the empty text has an answer in every encoding that is
not refused. -/
structure Survives (call : TextCall) : Prop where
  noAbort : call.run this text parsed enc ≠ .abort
  answers : text = [] → encodingOf enc ≠ .unknown →
    ∃ answer, call.run this text parsed enc = .ok answer ∧ call.Nothing this answer

/-- The calls that measure a text without decoding it. -/
def MeasuresOnly (call : TextCall) : Prop :=
  call = byteLength ∧ encodingOf enc ∈ [.utf8, .ascii, .latin1]

/-! ## The calls -/

-- What each call makes of the decoder's result.
theorem run_abort_iff (call : TextCall) (h : ¬ call.MeasuresOnly enc) :
    call.run this text parsed enc = .abort ↔
      jsBufferStringToBytes (jsToCStringLen text) (encodingOf enc) = .abort := by
  cases call with
  | fromString =>
    show ((jsBufferFromString text (encodingName enc)).map NewBuffer.fresh).map Returned.buffer =
      .abort ↔ _
    rw [jsBufferFromString, encodingName_id]
    cases jsBufferStringToBytes (jsToCStringLen text) (encodingOf enc) with
    | ok decoded => cases decoded <;> simp [Outcome.map]
    | throw e => simp [Outcome.map]
    | abort => simp [Outcome.map]
  | byteLength =>
    have hcoded : ¬ (encodingOf enc = .utf8 ∨ encodingOf enc = .ascii ∨ encodingOf enc = .latin1) := by
      intro hplain
      exact h ⟨rfl, by simpa using hplain⟩
    show (jsBufferByteLengthString text (encodingName enc)).map (fun (n : Nat) ↦ Returned.number n) =
      .abort ↔ _
    rw [jsBufferByteLengthString, encodingName_id, if_neg hcoded]
    cases jsBufferStringToBytes (jsToCStringLen text) (encodingOf enc) with
    | ok decoded => cases decoded <;> simp [Outcome.map]
    | throw e => simp [Outcome.map]
    | abort => simp [Outcome.map]
  | write offset length =>
    have htext : argAt [.string text parsed, offset, length, enc] 0 = .string text parsed := rfl
    have henc : argAt [.string text parsed, offset, length, enc] 3 = enc := rfl
    rw [run, jsBufferWrite, htext, henc]
    dsimp only
    cases jsBufferStringToBytes (jsToCStringLen text) (encodingOf enc) with
    | ok decoded =>
      cases decoded with
      | none => simp [Outcome.map]
      | some bytes =>
        dsimp only
        rw [this.getBytes]
        dsimp only
        split <;> simp [Outcome.map]
    | throw e => simp [Outcome.map]
    | abort => simp [Outcome.map]
  | indexOf byteOffset =>
    rw [run, jsBufferIndexOf, if_neg (by simp), this.getBytes]
    show (jsBufferIndexOfString _ text (clampLow (numberArg byteOffset 0)) (encodingName enc)).map
      Returned.number = .abort ↔ _
    rw [jsBufferIndexOfString, encodingName_id]
    cases jsBufferStringToBytes (jsToCStringLen text) (encodingOf enc) with
    | ok decoded => cases decoded <;> simp [Outcome.map]
    | throw e => simp [Outcome.map]
    | abort => simp [Outcome.map]

theorem run_measured (h : encodingOf enc ∈ [.utf8, .ascii, .latin1]) :
    byteLength.run this text parsed enc = .ok (.number (jsToCStringLen text).length) := by
  show (jsBufferByteLengthString text (encodingName enc)).map (fun (n : Nat) ↦ Returned.number n) = _
  rw [jsBufferByteLengthString, encodingName_id, if_pos (by simpa using h)]
  rfl

theorem decodeText_nil {enc : Encoding} (h : enc ≠ .unknown) : decodeText [] enc = some [] := by
  cases enc with
  | utf8 | ascii | latin1 | hex | base64 | base64url => rfl
  | unknown => exact absurd rfl h

end TextCall

end QNode.Buffer
