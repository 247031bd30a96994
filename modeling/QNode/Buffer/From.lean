import QNode.Buffer.Search
import QNode.Buffer.Subarray
import QNode.Engine.Utf8

/-!
# Buffer.from and Buffer.byteLength

`Buffer.from` tries its argument as a string, an ArrayBuffer, a typed array and an array, in this
order; `Buffer.byteLength` tries the first three.
-/

open QNode.Engine Word Splice

namespace QNode.Buffer

/-- `js_buffer_create`: the bytes of a new Buffer.  The allocation itself is taken to succeed. -/
def jsBufferCreate (size : Nat) : Outcome (List UInt8) :=
  if size > 2 ^ 53 - 1 then .throw (.rangeError "invalid array index")
  else if size > maxByteLength then .throw (.rangeError "invalid array buffer length")
  else .ok (List.replicate size 0)

/-- The argument that `Buffer.from` and `Buffer.byteLength` examine. -/
inductive Source
  | string (text : JsString)
  | arrayBuffer (buffer : Nat)
  | typedArray (ta : View)
  | array (elements : List JsArg)

/-- An encoding argument counts only if it is a string. -/
def encodingName : JsArg → Option String
  | .string enc _ => some (cString (jsToCStringLen enc))
  | _ => none

/-- The loop over the elements of an array.  An element that cannot be converted leaves the byte
zero; its exception is not looked at. -/
def fromElements (heap : Heap) : List JsArg → List UInt8 × Heap
  | [] => ([], heap)
  | v :: rest =>
    let (byte, heap) := jsToInt64Or heap v 0
    let (bytes, heap) := fromElements heap rest
    (UInt8.ofNat (sizeT byte) :: bytes, heap)

/-- The array branch of `js_buffer_from`. -/
def jsBufferFromArray (heap : Heap) (elements : List JsArg) : Ran (List UInt8) :=
  match jsBufferCreate elements.length with
  | .ok _ => ⟨.ok (fromElements heap elements).1, (fromElements heap elements).2, []⟩
  | .throw e => ⟨.throw e, heap, []⟩
  | .abort => ⟨.abort, heap, []⟩

/-- The typed array branch; the new Buffer has the length of the view.  A typed array whose bytes
are gone is taken for an array, and its `length` is 0. -/
def jsBufferFromTypedArray (heap : Heap) (ta : View) : Ran (List UInt8) :=
  match jsBufferGetBytes heap ta.arg with
  | some src =>
    ⟨.ok (splice (List.replicate src.length 0) 0 (src.read heap 0 src.length)), heap,
      [src.access heap 0 src.length]⟩
  | none => jsBufferFromArray heap []

def Ran.map {α β : Type} (f : α → β) (ran : Ran α) : Ran β :=
  ⟨ran.result.map f, ran.heap, ran.accesses⟩

/-- `js_buffer_from`; `argv` is the whole argument list, of which `value` is the first. -/
def jsBufferFrom (heap : Heap) (value : Source) (argv : List JsArg) : Ran NewBuffer :=
  match value with
  | .string text => Ran.map .fresh ⟨jsBufferFromString text (encodingName (argAt argv 1)), heap, []⟩
  | .arrayBuffer buffer => Ran.map .view (jsBufferFromArrayBuffer heap buffer argv)
  | .typedArray ta => Ran.map .fresh (jsBufferFromTypedArray heap ta)
  | .array elements => Ran.map .fresh (jsBufferFromArray heap elements)

def jsBufferByteLength (heap : Heap) (value : Source) (argv : List JsArg) : Outcome Nat :=
  match value with
  | .string text => jsBufferByteLengthString text (encodingName (argAt argv 1))
  | .arrayBuffer buffer =>
    if (heap buffer).detached then .throw (.typeError "cannot determine byte length")
    else .ok (heap buffer).byteLength
  | .typedArray ta =>
    match jsBufferGetBytes heap ta.arg with
    | some p => .ok p.length
    | none => .throw (.typeError "cannot determine byte length")
  | .array _ => .throw (.typeError "cannot determine byte length")

def NewBuffer.length : NewBuffer → Nat
  | .fresh bytes => bytes.length
  | .view v => v.length

/-- `byteLength` succeeds for the arguments for which `from` does, with the length of the Buffer. -/
structure Measures (heap : Heap) (value : Source) (argv : List JsArg) : Prop where
  succeeds_iff : (∃ n, jsBufferByteLength heap value argv = .ok n) ↔
    ∃ buf, (jsBufferFrom heap value argv).result = .ok buf
  length_eq : ∀ buf, (jsBufferFrom heap value argv).result = .ok buf →
    jsBufferByteLength heap value argv = .ok buf.length

section

variable (heap : Heap)

theorem measures_of_ok {value : Source} {argv : List JsArg} {buf : NewBuffer}
    (hfrom : (jsBufferFrom heap value argv).result = .ok buf)
    (hlength : jsBufferByteLength heap value argv = .ok buf.length) : Measures heap value argv := by
  constructor
  · exact iff_of_true ⟨_, hlength⟩ ⟨_, hfrom⟩
  · intro buf' hfrom'
    rw [hfrom, Outcome.ok.injEq] at hfrom'
    rw [← hfrom', hlength]

theorem measures_of_fail {value : Source} {argv : List JsArg}
    (hfrom : ∀ buf, (jsBufferFrom heap value argv).result ≠ .ok buf)
    (hlength : ∀ n, jsBufferByteLength heap value argv ≠ .ok n) : Measures heap value argv := by
  constructor
  · exact iff_of_false (fun h ↦ h.elim hlength) fun h ↦ h.elim hfrom
  · intro buf hfrom'
    exact absurd hfrom' (hfrom buf)

-- The text encodings are measured without being copied, the others by decoding.
theorem string_measures {text : JsString} (htext : text ≠ []) (argv : List JsArg) :
    Measures heap (.string text) argv := by
  have hpos : (jsToCStringLen text).length ≠ 0 :=
    mt List.length_eq_zero_iff.mp (jsToCStringLen_ne_nil htext)
  have hfrom : (jsBufferFrom heap (.string text) argv).result =
      (jsBufferFromString text (encodingName (argAt argv 1))).map .fresh := rfl
  have hlength : jsBufferByteLength heap (.string text) argv =
      jsBufferByteLengthString text (encodingName (argAt argv 1)) := rfl
  by_cases henc : getEncodingId (encodingName (argAt argv 1)) = .utf8 ∨
      getEncodingId (encodingName (argAt argv 1)) = .ascii ∨
      getEncodingId (encodingName (argAt argv 1)) = .latin1
  · have hbytes : jsBufferStringToBytes (jsToCStringLen text)
        (getEncodingId (encodingName (argAt argv 1))) = .ok (some (jsToCStringLen text)) := by
      rcases henc with henc | henc | henc <;> rw [henc] <;> exact withBlock_pos hpos _
    rw [jsBufferByteLengthString, if_pos henc] at hlength
    rw [jsBufferFromString, hbytes] at hfrom
    exact measures_of_ok heap hfrom hlength
  · rw [jsBufferByteLengthString, if_neg henc] at hlength
    rw [jsBufferFromString] at hfrom
    cases hbytes : jsBufferStringToBytes (jsToCStringLen text)
        (getEncodingId (encodingName (argAt argv 1))) with
    | ok decoded =>
      rw [hbytes] at hfrom hlength
      cases decoded with
      | some bytes => exact measures_of_ok heap hfrom hlength
      | none =>
        apply measures_of_fail
        · intro buf hok
          cases hfrom.symm.trans hok
        · intro n hok
          cases hlength.symm.trans hok
    | throw e =>
      rw [hbytes] at hfrom hlength
      apply measures_of_fail
      · intro buf hok
        cases hfrom.symm.trans hok
      · intro n hok
        cases hlength.symm.trans hok
    | abort =>
      rw [hbytes] at hfrom hlength
      apply measures_of_fail
      · intro buf hok
        cases hfrom.symm.trans hok
      · intro n hok
        cases hlength.symm.trans hok

theorem arrayBuffer_measures (buffer : Nat) : Measures heap (.arrayBuffer buffer) [] := by
  have hfrom : (jsBufferFrom heap (.arrayBuffer buffer) []).result =
      (jsBufferFromArrayBuffer heap buffer []).result.map NewBuffer.view := rfl
  cases hbytes : (heap buffer).bytes with
  | none =>
    have hgone : (heap buffer).detached = true := by rw [ArrayBuffer.detached, hbytes]; rfl
    apply measures_of_fail
    · simp [hfrom, jsBufferFromArrayBuffer, hgone, Outcome.map]
    · simp [jsBufferByteLength, hgone]
  | some bytes =>
    have hlive : (heap buffer).detached = false := by rw [ArrayBuffer.detached, hbytes]; rfl
    have hdata : (heap buffer).data = bytes := by rw [ArrayBuffer.data, hbytes, Option.getD_some]
    obtain ⟨v, hv, -, hlen⟩ := fromArrayBuffer_whole hbytes
    rw [hv] at hfrom
    apply measures_of_ok heap hfrom
    show (if (heap buffer).detached then _ else Outcome.ok (heap buffer).byteLength) = _
    rw [hlive, if_neg Bool.false_ne_true, ArrayBuffer.byteLength, hdata]
    exact congrArg Outcome.ok hlen.symm

theorem typedArray_measures {ta : View} (hlive : typedArrayIsOob heap ta = false) :
    Measures heap (.typedArray ta) [] := by
  have hbytes := getBytes_of_inBounds hlive
  have hfrom : (jsBufferFrom heap (.typedArray ta) []).result =
      .ok (.fresh (splice (List.replicate ta.length 0) 0 (ta.read heap 0 ta.length))) := by
    rw [jsBufferFrom, Ran.map, jsBufferFromTypedArray, hbytes]
    rfl
  apply measures_of_ok heap hfrom
  rw [jsBufferByteLength, hbytes]
  show Outcome.ok ta.length = .ok (splice _ 0 (ta.read heap 0 ta.length)).length
  rw [length_splice, List.length_replicate]
  rw [Nat.zero_add, List.length_replicate, View.read, slice, List.length_take]
  exact Nat.min_le_left _ _

-- A typed array whose bytes are gone has no length, but a Buffer is made of it.
theorem not_typedArray_measures {ta : View} (hgone : typedArrayIsOob heap ta = true) :
    ¬ Measures heap (.typedArray ta) [] := by
  intro h
  have hbytes : jsBufferGetBytes heap ta.arg = none := if_pos hgone
  have hfrom : (jsBufferFrom heap (.typedArray ta) []).result = .ok (.fresh []) := by
    rw [jsBufferFrom, Ran.map, jsBufferFromTypedArray, hbytes]
    rfl
  have hlength := h.length_eq _ hfrom
  rw [jsBufferByteLength, hbytes] at hlength
  cases hlength

end

end QNode.Buffer
