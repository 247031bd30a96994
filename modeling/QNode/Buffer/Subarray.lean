import QNode.Buffer.Safety

/-!
# slice and subarray

Both methods select the same range by the same rules, but they decide differently whether the first
argument counts.
-/

open QNode.Engine Word Splice

namespace QNode.Buffer

/-- A Buffer that a method returns: with a store of its own, or a view of a store that exists. -/
inductive NewBuffer
  | fresh (bytes : List UInt8)
  | view (v : View)

def View.content (v : View) (heap : Heap) : List UInt8 := v.read heap 0 v.length

def NewBuffer.content (heap : Heap) : NewBuffer → List UInt8
  | .fresh bytes => bytes
  | .view v => v.content heap

/-- `new Uint8Array(buffer, offset, length)`, for an offset and a length that are indices. -/
def newUint8Array (heap : Heap) (buffer offset length : Nat) : Outcome View :=
  if (heap buffer).detached then .throw (.typeError "ArrayBuffer is detached")
  else if h : offset + length ≤ (heap buffer).byteLength then
    .ok ⟨buffer, offset, length, false, h.trans (heap buffer).bounded⟩
  else .throw (.rangeError "invalid length")

/-- The ArrayBuffer branch of `js_buffer_from`; a detached one is taken for an array without length. -/
def jsBufferFromArrayBuffer (heap : Heap) (buffer : Nat) (argv : List JsArg) : Ran View :=
  if (heap buffer).detached then
    ⟨.throw (.typeError "Buffer.from(): invalid argument type"), heap, []⟩
  else
    let abLen := (heap buffer).byteLength
    let (offset, heap) := jsToInt64Or heap (argAt argv 1) 0
    let (length, heap) := jsToInt64Or heap (argAt argv 2) abLen
    if offset < 0 ∨ length < 0 ∨ sizeT (offset + length) > abLen then
      ⟨.throw (.rangeError "invalid offset/length"), heap, []⟩
    else ⟨newUint8Array heap buffer offset.toNat length.toNat, heap, []⟩

/-- `JS_GetTypedArrayBuffer` -/
def jsGetTypedArrayBuffer (heap : Heap) (obj : JsArg) : Option View :=
  match obj.view with
  | none => none
  | some ta => if typedArrayIsOob heap ta then none else some ta

def jsBufferSubarray (heap : Heap) (this : JsArg) (argv : List JsArg) : Ran NewBuffer :=
  match jsGetTypedArrayBuffer heap this with
  | none => ⟨.throw (.typeError "not a Buffer"), heap, []⟩
  | some ta =>
    let (start, heap) := jsToInt64Or heap (argAt argv 0) 0
    let (stop, heap) := jsToInt64Or heap (argAt argv 1) ta.length
    let start := clampLow (fromEnd start ta.length)
    let stop := clampHigh (fromEnd stop ta.length) ta.length
    if start ≥ stop then ⟨.ok (.fresh []), heap, []⟩
    else
      let subLen := sizeT (stop - start)
      match newUint8Array heap ta.buffer (sizeT (ta.offset + start)) subLen with
      | .ok v => ⟨.ok (.view v), heap, []⟩
      | .throw e => ⟨.throw e, heap, []⟩
      | .abort => ⟨.abort, heap, []⟩

-- `Buffer.from(arrayBuffer)` shows the whole content.
theorem fromArrayBuffer_whole {heap : Heap} {b : Nat} {c : List UInt8} (hbytes : (heap b).bytes = some c) :
    ∃ v : LiveView heap, (jsBufferFromArrayBuffer heap b []).result = .ok v.toView ∧
      v.toView.content heap = c ∧ v.length = c.length := by
  have hdata : (heap b).data = c := by rw [ArrayBuffer.data, hbytes, Option.getD_some]
  have hlen : (heap b).byteLength = c.length := congrArg List.length hdata
  have hlive : (heap b).detached = false := by rw [ArrayBuffer.detached, hbytes]; rfl
  have hbound : 0 + c.length ≤ maxByteLength := by
    rw [Nat.zero_add, ← hlen]
    exact (heap b).bounded
  have hinside : 0 + c.length ≤ (heap b).byteLength := by
    rw [Nat.zero_add, hlen]
  refine ⟨⟨⟨b, 0, c.length, false, hbound⟩, hlive, hinside⟩, ?_, ?_, rfl⟩
  · unfold maxByteLength at hbound
    have hsize : sizeT ((0 : Int) + (c.length : Nat)) = c.length := by
      rw [Int.zero_add, sizeT_natCast (by omega)]
    have hfirst : jsToInt64Or heap (argAt [] 1) 0 = (0, heap) := rfl
    have hsecond : jsToInt64Or heap (argAt [] 2) c.length = ((c.length : Int), heap) := rfl
    rw [jsBufferFromArrayBuffer, hlive, if_neg Bool.false_ne_true, hlen]
    dsimp only
    rw [hfirst]
    dsimp only
    rw [hsecond]
    dsimp only
    rw [hsize, if_neg (by omega), newUint8Array, hlive, if_neg Bool.false_ne_true,
      Int.toNat_natCast, Int.toNat_zero, dif_pos hinside]
  · show ((heap b).data.drop (0 + 0)).take c.length = c
    rw [hdata]
    exact List.take_length

-- `toString` with an encoding alone decodes the whole content.
theorem toString_whole {heap : Heap} (v : LiveView heap) (enc : JsString) (n : Int64) :
    (jsBufferToString heap v.toView.arg [.string enc n]).result =
      if v.length = 0 then .ok []
      else jsBufferBytesToString (v.toView.content heap) (encodingOf (.string enc n)) := by
  have hshort := v.toView.length_lt
  have hfirst : jsToInt64Or heap (argAt [.string enc n] 1) 0 = (0, heap) := rfl
  have hsecond : jsToInt64Or heap (argAt [.string enc n] 2) v.length = ((v.length : Int), heap) :=
    rfl
  have hlow : clampLow 0 = 0 := rfl
  have hhigh : clampHigh v.length v.length = v.length := if_neg (by omega)
  rw [jsBufferToString, v.getBytes]
  dsimp only
  rw [hfirst]
  dsimp only
  rw [hsecond]
  dsimp only
  rw [hlow, hhigh]
  by_cases hempty : v.length = 0
  · rw [if_pos (by omega), if_pos hempty]
  · rw [if_neg (by omega), if_neg hempty, Int.sub_zero, sizeT_natCast (by omega)]
    rfl

/-! ## Arguments that are numbers or missing -/

def JsArg.ofNumber : Option Int64 → JsArg
  | none => .undefined
  | some n => .number n

def numberArgs (args : List (Option Int64)) : List JsArg := args.map JsArg.ofNumber

theorem argAt_numberArgs (args : List (Option Int64)) (i : Nat) :
    argAt (numberArgs args) i = JsArg.ofNumber (args.getD i none) := by
  rw [argAt, numberArgs, List.getD_eq_getElem?_getD, List.getD_eq_getElem?_getD, List.getElem?_map]
  cases args[i]? <;> rfl

theorem isUndefined_ofNumber (arg : Option Int64) :
    (JsArg.ofNumber arg).isUndefined ↔ arg = none := by
  cases arg <;> simp [JsArg.ofNumber, JsArg.isUndefined]

theorem jsToInt64Or_ofNumber (heap : Heap) (arg : Option Int64) (default : Int) :
    jsToInt64Or heap (JsArg.ofNumber arg) default = ((arg.map Int64.toInt).getD default, heap) := by
  cases arg <;> rfl

theorem jsToInt64_ofNumber (heap : Heap) (arg : Option Int64) :
    jsToInt64 heap (JsArg.ofNumber arg) = ((arg.map Int64.toInt).getD 0, heap) := by
  cases arg <;> rfl

/-- The range of a Buffer of `len` bytes that two numbers select. -/
def rangeStart (args : List (Option Int64)) (len : Nat) : Int :=
  clampLow (fromEnd (((args.getD 0 none).map Int64.toInt).getD 0) len)

def rangeStop (args : List (Option Int64)) (len : Nat) : Int :=
  clampHigh (fromEnd (((args.getD 1 none).map Int64.toInt).getD len) len) len

theorem rangeStart_nonneg (args : List (Option Int64)) (len : Nat) : 0 ≤ rangeStart args len :=
  clampLow_nonneg _

theorem rangeStop_le (args : List (Option Int64)) (len : Nat) : rangeStop args len ≤ len :=
  clampHigh_le _ len

theorem rangeStop_missing {args : List (Option Int64)} (h : args.getD 1 none = none) (len : Nat) :
    rangeStop args len = len := by
  rw [rangeStop, h, Option.map_none, Option.getD_none, fromEnd, if_neg (by omega), clampHigh,
    if_neg (by omega)]

/-- The start that `slice` uses. -/
def sliceStart (args : List (Option Int64)) (len : Nat) : Int :=
  if args.getD 1 none = none then 0 else rangeStart args len

section

variable {heap : Heap} {this : View}

theorem attached_of_inBounds (hlive : typedArrayIsOob heap this = false) :
    (heap this.buffer).detached = false := by
  cases hdetached : (heap this.buffer).detached with
  | false => rfl
  | true => simp [typedArrayIsOob, hdetached] at hlive

theorem getBytes_of_inBounds (hlive : typedArrayIsOob heap this = false) :
    jsBufferGetBytes heap this.arg = some this := by
  show (if typedArrayIsOob heap this then none
    else if (heap this.buffer).detached then none else some this) = some this
  rw [hlive, attached_of_inBounds hlive]
  rfl

theorem jsBufferSlice_number (hlive : typedArrayIsOob heap this = false)
    (args : List (Option Int64)) :
    jsBufferSlice heap this.arg (numberArgs args) =
      if sliceStart args this.length ≥ rangeStop args this.length then ⟨.ok [], heap, []⟩
      else
        let len := sizeT (rangeStop args this.length - sliceStart args this.length)
        ⟨.ok (this.read heap (sliceStart args this.length).toNat len), heap,
          [this.access heap (sliceStart args this.length).toNat len]⟩ := by
  have hstart : (if (numberArgs args).length ≥ 1 ∧ ¬ (argAt (numberArgs args) 1).isUndefined
        then jsToInt64 heap (argAt (numberArgs args) 0) else (0, heap)) =
      (if args.getD 1 none = none then 0 else ((args.getD 0 none).map Int64.toInt).getD 0, heap) := by
    rw [argAt_numberArgs, argAt_numberArgs, jsToInt64_ofNumber]
    by_cases hmissing : args.getD 1 none = none
    · rw [if_neg (fun h ↦ h.2 ((isUndefined_ofNumber _).mpr hmissing)), if_pos hmissing]
    · have hlen : (numberArgs args).length ≥ 1 := by
        cases args with
        | nil => exact absurd rfl hmissing
        | cons arg args => simp [numberArgs]
      rw [if_pos ⟨hlen, fun h ↦ hmissing ((isUndefined_ofNumber _).mp h)⟩, if_neg hmissing]
  have hclamp : clampLow (fromEnd (if args.getD 1 none = none then 0
        else ((args.getD 0 none).map Int64.toInt).getD 0) this.length) =
      sliceStart args this.length := by
    unfold sliceStart
    split <;> rfl
  rw [jsBufferSlice, getBytes_of_inBounds hlive]
  dsimp only
  rw [hstart]
  dsimp only
  rw [argAt_numberArgs, jsToInt64Or_ofNumber, hclamp]
  rfl

theorem jsBufferSubarray_number (hlive : typedArrayIsOob heap this = false)
    (args : List (Option Int64)) :
    jsBufferSubarray heap this.arg (numberArgs args) =
      if rangeStart args this.length ≥ rangeStop args this.length then ⟨.ok (.fresh []), heap, []⟩
      else match newUint8Array heap this.buffer (sizeT (this.offset + rangeStart args this.length))
          (sizeT (rangeStop args this.length - rangeStart args this.length)) with
      | .ok v => ⟨.ok (.view v), heap, []⟩
      | .throw e => ⟨.throw e, heap, []⟩
      | .abort => ⟨.abort, heap, []⟩ := by
  have hget : jsGetTypedArrayBuffer heap this.arg = some this := by
    show (if typedArrayIsOob heap this then none else some this) = _
    rw [hlive]
    rfl
  rw [jsBufferSubarray, hget]
  dsimp only
  rw [argAt_numberArgs, argAt_numberArgs, jsToInt64Or_ofNumber]
  dsimp only
  rw [jsToInt64Or_ofNumber]
  rfl

/-! ## The same bytes -/

variable (heap this)

/-- Two methods agree: both refuse the Buffer for the same reason, or the one returns a copy, made of
bytes of the store, of what the other one shows. -/
def SameBytes (copy : Ran (List UInt8)) (shown : Ran NewBuffer) : Prop :=
  match copy.result, shown.result with
  | .ok bytes, .ok buf => Safe copy ∧ bytes = buf.content shown.heap
  | .throw e, .throw e' => e = e'
  | _, _ => False

/-- The numbers for which `slice` and `subarray` agree: a second one is given, or the first one
selects all bytes; and the store still has the bytes selected. -/
def SliceAgrees (args : List (Option Int64)) : Prop :=
  typedArrayIsOob heap this = true ∨
    Spares heap this (rangeStart args this.length) (rangeStop args this.length) ∧
      (args.getD 1 none = none → rangeStart args this.length = 0 ∨ this.length = 0)

variable {heap this}

-- A range that is not empty is shown if the store has it, and refused otherwise.
theorem subarray_range {args : List (Option Int64)} (hlive : typedArrayIsOob heap this = false)
    (hrange : rangeStart args this.length < rangeStop args this.length) :
    (Covers heap this (rangeStop args this.length) ∧
      ∃ v, jsBufferSubarray heap this.arg (numberArgs args) = ⟨.ok (.view v), heap, []⟩ ∧
        v.content heap = this.read heap (rangeStart args this.length).toNat
          (sizeT (rangeStop args this.length - rangeStart args this.length))) ∨
    (¬ Covers heap this (rangeStop args this.length) ∧
      (jsBufferSubarray heap this.arg (numberArgs args)).result =
        .throw (.rangeError "invalid length")) := by
  have hstart := rangeStart_nonneg args this.length
  have hstop := rangeStop_le args this.length
  have hbound := this.bounded
  unfold maxByteLength at hbound
  have hoffset : sizeT (this.offset + rangeStart args this.length) =
      this.offset + (rangeStart args this.length).toNat := by
    rw [sizeT_of_nonneg (by omega) (by omega)]
    omega
  have hlen : sizeT (rangeStop args this.length - rangeStart args this.length) =
      (rangeStop args this.length - rangeStart args this.length).toNat :=
    sizeT_of_nonneg (by omega) (by omega)
  have hfit : Covers heap this (rangeStop args this.length) ↔
      this.offset + (rangeStart args this.length).toNat +
        (rangeStop args this.length - rangeStart args this.length).toNat ≤
          (heap this.buffer).byteLength := by
    unfold Covers
    omega
  rw [jsBufferSubarray_number hlive, if_neg (by omega), hoffset, hlen, newUint8Array,
    if_neg (by rw [attached_of_inBounds hlive]; exact Bool.false_ne_true)]
  by_cases hcovers : Covers heap this (rangeStop args this.length)
  · left
    rw [dif_pos (hfit.mp hcovers)]
    exact ⟨hcovers, _, rfl, rfl⟩
  · right
    rw [dif_neg (mt hfit.mpr hcovers)]
    exact ⟨hcovers, rfl⟩

-- What `slice` copies, if the store has it.
theorem slice_range (args : List (Option Int64)) (hlive : typedArrayIsOob heap this = false)
    (hrange : sliceStart args this.length < rangeStop args this.length) :
    (jsBufferSlice heap this.arg (numberArgs args)).result =
        .ok (this.read heap (sliceStart args this.length).toNat
          (sizeT (rangeStop args this.length - sliceStart args this.length))) ∧
      (Safe (jsBufferSlice heap this.arg (numberArgs args)) ↔
        Covers heap this (rangeStop args this.length)) := by
  have hstart : 0 ≤ sliceStart args this.length := by
    unfold sliceStart
    split
    · exact Int.le_refl 0
    · exact rangeStart_nonneg args this.length
  have hstop := rangeStop_le args this.length
  have hbound := this.bounded
  unfold maxByteLength at hbound
  rw [jsBufferSlice_number hlive, if_neg (by omega)]
  refine ⟨rfl, ?_⟩
  have hlen : sliceStart args this.length +
      (sizeT (rangeStop args this.length - sliceStart args this.length) : Int) =
        rangeStop args this.length := by
    rw [sizeT_of_nonneg (by omega) (by omega)]
    omega
  rw [safe_single, access_inStore_iff heap this hstart hlen]
  exact or_iff_right (by omega)

theorem sliceStart_missing {args : List (Option Int64)} (h : args.getD 1 none = none) (len : Nat) :
    sliceStart args len = 0 :=
  if_pos h

theorem sliceStart_given {args : List (Option Int64)} (h : args.getD 1 none ≠ none) (len : Nat) :
    sliceStart args len = rangeStart args len :=
  if_neg h

theorem sameBytes_ok {copy : Ran (List UInt8)} {shown : Ran NewBuffer} {bytes : List UInt8}
    {buf : NewBuffer} (hcopy : copy.result = .ok bytes) (hshown : shown.result = .ok buf) :
    SameBytes copy shown ↔ Safe copy ∧ bytes = buf.content shown.heap := by
  rw [SameBytes, hcopy, hshown]

-- With the same range, the two differ only if the store has lost a part of it.
theorem sameBytes_of_start {args : List (Option Int64)} (hlive : typedArrayIsOob heap this = false)
    (hstart : sliceStart args this.length = rangeStart args this.length) :
    SameBytes (jsBufferSlice heap this.arg (numberArgs args))
        (jsBufferSubarray heap this.arg (numberArgs args)) ↔
      Spares heap this (rangeStart args this.length) (rangeStop args this.length) := by
  by_cases hrange : rangeStart args this.length < rangeStop args this.length
  · obtain ⟨hslice, hsafe⟩ := slice_range args hlive (by rw [hstart]; exact hrange)
    rcases subarray_range hlive hrange with ⟨hcovers, v, hsub, hcontent⟩ | ⟨hcovers, hsub⟩
    · rw [sameBytes_ok hslice (congrArg Ran.result hsub), hsafe, hsub, NewBuffer.content, hcontent,
        hstart]
      exact iff_of_true ⟨hcovers, rfl⟩ (.inr hcovers)
    · rw [SameBytes, hslice, hsub]
      exact iff_of_false id (not_or.mpr ⟨by omega, hcovers⟩)
  · rw [jsBufferSlice_number hlive, jsBufferSubarray_number hlive, hstart, if_pos (by omega),
      if_pos (by omega)]
    exact iff_of_true ⟨safe_none _ _, rfl⟩ (.inl (by omega))

-- Without a second number `slice` copies all bytes.
theorem not_sameBytes_of_missing {args : List (Option Int64)}
    (hlive : typedArrayIsOob heap this = false) (hmissing : args.getD 1 none = none)
    (hstart : rangeStart args this.length ≠ 0) (hlen : this.length ≠ 0) :
    ¬ SameBytes (jsBufferSlice heap this.arg (numberArgs args))
      (jsBufferSubarray heap this.arg (numberArgs args)) := by
  have hzero := sliceStart_missing hmissing this.length
  have hstop := rangeStop_missing hmissing this.length
  have hnonneg := rangeStart_nonneg args this.length
  have hbound := this.bounded
  unfold maxByteLength at hbound
  obtain ⟨hslice, hsafe⟩ := slice_range args hlive (by omega)
  have hall : Covers heap this (rangeStop args this.length) →
      (this.read heap (sliceStart args this.length).toNat
        (sizeT (rangeStop args this.length - sliceStart args this.length))).length = this.length := by
    intro hcovers
    unfold Covers at hcovers
    rw [hzero, sizeT_of_nonneg (by omega) (by omega), View.read_length (by omega)]
    omega
  by_cases hrange : rangeStart args this.length < rangeStop args this.length
  · rcases subarray_range hlive hrange with ⟨hcovers, v, hsub, hcontent⟩ | ⟨-, hsub⟩
    · rw [sameBytes_ok hslice (congrArg Ran.result hsub), hsub, NewBuffer.content, hcontent]
      rintro ⟨-, hbytes⟩
      have hshort := congrArg List.length hbytes
      unfold Covers at hcovers
      rw [hall hcovers, sizeT_of_nonneg (by omega) (by omega), View.read_length (by omega)] at hshort
      omega
    · rw [SameBytes, hslice, hsub]
      exact id
  · have hsub : (jsBufferSubarray heap this.arg (numberArgs args)).result = .ok (.fresh []) := by
      rw [jsBufferSubarray_number hlive, if_pos (by omega)]
    rw [sameBytes_ok hslice hsub]
    rintro ⟨hsafe', hbytes⟩
    have hnone := congrArg List.length hbytes
    rw [hall (hsafe.mp hsafe')] at hnone
    exact hlen hnone

/-- For every Buffer, whatever has become of its store, and all numbers: the two methods agree
precisely if the store has the range and, without a second number, the first selects everything. -/
theorem slice_subarray_iff (heap : Heap) (this : View) (args : List (Option Int64)) :
    SameBytes (jsBufferSlice heap this.arg (numberArgs args))
        (jsBufferSubarray heap this.arg (numberArgs args)) ↔
      SliceAgrees heap this args := by
  unfold SliceAgrees
  cases hoob : typedArrayIsOob heap this with
  | true =>
    have hslice : jsBufferGetBytes heap this.arg = none := by
      show (if typedArrayIsOob heap this then none
        else if (heap this.buffer).detached then none else some this) = none
      rw [hoob]
      rfl
    have hsub : jsGetTypedArrayBuffer heap this.arg = none := by
      show (if typedArrayIsOob heap this then none else some this) = none
      rw [hoob]
      rfl
    rw [SameBytes, jsBufferSlice, jsBufferSubarray, hslice, hsub]
    exact iff_of_true rfl (.inl rfl)
  | false =>
    rw [or_iff_right Bool.false_ne_true]
    by_cases hmissing : args.getD 1 none = none
    · by_cases hall : rangeStart args this.length = 0 ∨ this.length = 0
      · have hempty : this.length = 0 →
            (SameBytes (jsBufferSlice heap this.arg (numberArgs args))
                (jsBufferSubarray heap this.arg (numberArgs args)) ↔
              Spares heap this (rangeStart args this.length) (rangeStop args this.length)) := by
          intro hlen
          have hstart := rangeStart_nonneg args this.length
          have hstop := rangeStop_missing hmissing this.length
          rw [jsBufferSlice_number hoob, jsBufferSubarray_number hoob,
            sliceStart_missing hmissing, if_pos (by omega), if_pos (by omega)]
          exact iff_of_true ⟨safe_none _ _, rfl⟩ (.inl (by omega))
        rw [and_iff_left fun _ ↦ hall]
        rcases hall with hstart | hlen
        · exact sameBytes_of_start hoob ((sliceStart_missing hmissing _).trans hstart.symm)
        · exact hempty hlen
      · rw [not_or] at hall
        exact iff_of_false (not_sameBytes_of_missing hoob hmissing hall.1 hall.2)
          fun h ↦ not_or.mpr hall (h.2 hmissing)
    · rw [sameBytes_of_start hoob (sliceStart_given hmissing this.length)]
      exact (and_iff_left fun h ↦ absurd h hmissing).symm

/-- A Buffer of three bytes: `slice(1)` copies all of them and `subarray(1)` shows the last two. -/
theorem slice_ignores_start :
    ¬ ∀ (heap : Heap) (this : LiveView heap) (args : List (Option Int64)), args.length ≤ 2 →
      SameBytes (jsBufferSlice heap this.toView.arg (numberArgs args))
        (jsBufferSubarray heap this.toView.arg (numberArgs args)) := by
  intro h
  have hsame := h (storeOf [1, 2, 3] (by decide)) ⟨⟨0, 0, 3, false, by decide⟩, rfl, by decide⟩
    [some 1] (by decide)
  have hbytes := hsame.2
  revert hbytes
  decide

end

end QNode.Buffer
