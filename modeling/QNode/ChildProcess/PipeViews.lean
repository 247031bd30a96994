import QNode.Buffer.Accessors
import QNode.Buffer.Concat
import QNode.ChildProcess.Decoding
import QNode.ChildProcess.Launch

/-!
# Typed arrays handed to a pipe and to the decoder

`_writePipe`, the `input` of `spawnSync` and `_decodeOutput` take the bytes of a typed array in two calls.
The first returns its ArrayBuffer, and the second the start and the length of that, so that offset and
length of the typed array are lost.
-/

open QNode.Engine QNode.Buffer Splice

namespace QNode.ChildProcess

/-- A typed array with elements of `2 ^ sizeLog2` bytes. -/
structure TypedArray extends View where
  sizeLog2 : Nat

/-- An object with bytes; SharedArrayBuffers are among the ArrayBuffers. -/
inductive Binary
  | arrayBuffer (b : Nat)
  | typedArray (v : TypedArray)

inductive PipeData
  | undefined
  | string (text : JsString)
  | binary (object : Binary)
  | other

/-! ## Bytes and where they are -/

inductive Origin
  -- a byte of the encoding of a string
  | text (byte : UInt8)
  | stored (buffer index : Nat)
  deriving DecidableEq

def Origin.byte (heap : Heap) : Origin → Option UInt8
  | .text byte => some byte
  | .stored buffer index => (heap buffer).data[index]?

def bytesAt (heap : Heap) (origins : List Origin) : List UInt8 := origins.filterMap (Origin.byte heap)

/-- A pointer into the store of an ArrayBuffer and a length. -/
structure Span where
  buffer : Nat
  start : Nat
  len : Nat

def Span.origins (s : Span) : List Origin := (List.range' s.start s.len).map (Origin.stored s.buffer)

def Span.bytes (heap : Heap) (s : Span) : List UInt8 := slice (heap s.buffer).data s.start s.len

section

variable (heap : Heap)

/-- `js_typed_array_get_byteLength` -/
def TypedArray.byteLength (v : TypedArray) : Nat :=
  if typedArrayIsOob heap v.toView then 0
  else if v.trackRab then (((heap v.buffer).byteLength - v.offset) >>> v.sizeLog2) <<< v.sizeLog2
  else v.length

def TypedArray.span (v : TypedArray) : Span := ⟨v.buffer, v.offset, v.byteLength heap⟩

def wholeBuffer (b : Nat) : Span := ⟨b, 0, (heap b).byteLength⟩

/-- The bytes of an object as JavaScript sees them. -/
def Binary.span : Binary → Span
  | .arrayBuffer b => wholeBuffer heap b
  | .typedArray v => v.span heap

/-! ## The engine -/

/-- The ArrayBuffer of a typed array, and the length recorded in it. -/
def jsGetTypedArrayBuffer : PipeData → Option (PipeData × Nat)
  | .binary (.typedArray v) =>
    if typedArrayIsOob heap v.toView then none else some (.binary (.arrayBuffer v.buffer), v.length)
  | _ => none

def jsGetArrayBuffer : PipeData → Option Span
  | .binary (.arrayBuffer b) => if (heap b).detached then none else some (wholeBuffer heap b)
  | _ => none

/-! ## The three routines -/

/-- `data` and `len` in `_writePipe` and `_decodeOutput`: the second call overwrites the length of the
first. -/
def dataAndLen (data : PipeData) : Option Span :=
  match jsGetTypedArrayBuffer heap data with
  | some (ab, _) => jsGetArrayBuffer heap ab
  | none => jsGetArrayBuffer heap data

/-- How a routine ends, and the bytes it has handed on. -/
structure Used (α : Type) where
  result : Outcome α
  origins : List Origin

/-- `_writePipe` on a pipe that takes up to `cut` bytes, none if `write` fails. -/
def writePipe (cut : Nat) (data : PipeData) : Used Nat :=
  let write (origins : List Origin) : Used Nat := ⟨.ok (origins.take cut).length, origins.take cut⟩
  match data with
  | .string text => write ((jsToCStringLen text).map .text)
  | data =>
    match dataAndLen heap data with
    | some span => write span.origins
    | none => ⟨.throw (.typeError "data must be string or ArrayBuffer"), []⟩

/-- `write` of `child.stdin`; `none` is a pipe that has been closed. -/
def Writable.write (pipe : Option Nat) (data : PipeData) : Used Bool :=
  match pipe with
  | none => ⟨.ok false, []⟩
  | some cut => ⟨(writePipe heap cut data).result.map fun n ↦ decide (0 < n), (writePipe heap cut data).origins⟩

/-- What `spawnSync` writes of the option `input`; a child without a pipe takes nothing. -/
def writeInput (pipe : Option Nat) (input : PipeData) : List Origin :=
  let write (origins : List Origin) : List Origin := origins.take (pipe.getD 0)
  match input with
  | .undefined => []
  | .string text => write ((jsToCStringLen text).map .text)
  | input =>
    match jsGetTypedArrayBuffer heap input with
    | some (ab, _) =>
      match jsGetArrayBuffer heap ab with
      | some span => write span.origins
      | none => []
    | none =>
      match jsGetArrayBuffer heap input with
      | some span => write span.origins
      | none => []

/-- `_decodeOutput`; `newString` makes a string of bytes. -/
def decodeObject (newString : List UInt8 → Outcome JsString) (data : PipeData) : Used JsString :=
  match dataAndLen heap data with
  | some span => ⟨newString (span.bytes heap), span.origins⟩
  | none => ⟨.throw (.typeError "expected ArrayBuffer"), []⟩

end

inductive BytesCall
  | write (pipe : Option Nat)
  | input (pipe : Option Nat)
  | decode (newString : List UInt8 → Outcome JsString)

/-- How many bytes the pipe takes; the decoder takes all of them. -/
def BytesCall.cut : BytesCall → Option Nat
  | .write pipe | .input pipe => some (pipe.getD 0)
  | .decode _ => none

def BytesCall.upTo (call : BytesCall) (origins : List Origin) : List Origin :=
  match call.cut with
  | some cut => origins.take cut
  | none => origins

/-- How many of `n` bytes are taken. -/
def BytesCall.count (call : BytesCall) (n : Nat) : Nat :=
  match call.cut with
  | some cut => min cut n
  | none => n

section

variable (heap : Heap)

def BytesCall.used (data : PipeData) : BytesCall → List Origin
  | .write pipe => (Writable.write heap pipe data).origins
  | .input pipe => writeInput heap pipe data
  | .decode newString => (decodeObject heap newString data).origins

/-! ## What is expected -/

/-- The heaps differ only in bytes outside the typed array. -/
structure AgreeOn (v : TypedArray) (heap heap' : Heap) : Prop where
  byteLength : ∀ b, (heap' b).byteLength = (heap b).byteLength
  detached : ∀ b, (heap' b).detached = (heap b).detached
  bytes : (v.span heap').bytes heap' = (v.span heap).bytes heap

variable (call : BytesCall) (v : TypedArray)

/-- No byte outside the typed array has an effect on those that are used. -/
def Confined : Prop :=
  ∀ heap', AgreeOn v heap heap' →
    bytesAt heap' (call.used heap' (.binary (.typedArray v))) =
      bytesAt heap (call.used heap (.binary (.typedArray v)))

/-- A call uses the first bytes of the typed array, as many as are taken, and depends on no others. -/
structure ViewUsed : Prop where
  origins : call.used heap (.binary (.typedArray v)) = call.upTo (v.span heap).origins
  confined : Confined heap call v

/-- The typed array has no bytes any more or all those of its ArrayBuffer, or the pipe takes no more than
it has, from the start of the ArrayBuffer. -/
def ReachesNoFurther : Prop :=
  typedArrayIsOob heap v.toView = true ∨ (heap v.buffer).byteLength = v.byteLength heap ∨
    ∃ cut ∈ call.cut, cut = 0 ∨ v.offset = 0 ∧ cut ≤ v.byteLength heap

end

section

variable {heap heap' : Heap} {call : BytesCall} {v : TypedArray} {b n n' start start' : Nat}

/-! ## Spans -/

theorem take_origins (s : Span) (k : Nat) :
    s.origins.take k = (Span.mk s.buffer s.start (min k s.len)).origins := by
  rw [Span.origins, Span.origins, ← List.map_take]
  rcases Nat.le_total s.len k with h | h
  · rw [List.take_range'_of_length_le h, Nat.min_eq_right h]
  · rw [List.take_range'_of_length_ge h, Nat.min_eq_left h]

theorem upTo_origins (s : Span) :
    call.upTo s.origins = (Span.mk s.buffer s.start (call.count s.len)).origins := by
  unfold BytesCall.upTo BytesCall.count
  cases call.cut with
  | none => rfl
  | some cut => exact take_origins s cut

theorem bytesAt_origins (s : Span) : bytesAt heap s.origins = s.bytes heap := by
  obtain ⟨b, start, len⟩ := s
  unfold bytesAt Span.origins Span.bytes slice
  dsimp only
  induction len generalizing start with
  | zero => rw [List.take_zero, List.range'_zero, List.map_nil, List.filterMap_nil]
  | succ len ih =>
    rw [List.range'_succ, List.map_cons]
    by_cases h : start < (heap b).data.length
    · have hbyte : Origin.byte heap (.stored b start) = some (heap b).data[start] :=
        List.getElem?_eq_getElem h
      rw [List.filterMap_cons_some hbyte, ih, List.drop_eq_getElem_cons h, List.take_succ_cons]
    · have hbyte : Origin.byte heap (.stored b start) = none :=
        List.getElem?_eq_none (Nat.le_of_not_lt h)
      rw [List.filterMap_cons_none hbyte, ih, List.drop_eq_nil_of_le (by omega),
        List.drop_eq_nil_of_le (by omega), List.take_nil, List.take_nil]

theorem count_le (n : Nat) : call.count n ≤ n := by
  unfold BytesCall.count
  split
  next => exact Nat.min_le_right _ _
  next => exact Nat.le_refl n

theorem bytesAt_upTo (s : Span) :
    bytesAt heap (call.upTo s.origins) = (s.bytes heap).take (call.count s.len) := by
  rw [upTo_origins, bytesAt_origins]
  show ((heap s.buffer).data.drop s.start).take _ = (((heap s.buffer).data.drop s.start).take _).take _
  rw [List.take_take, Nat.min_eq_left (count_le s.len)]

theorem origins_inj :
    (Span.mk b start n).origins = (Span.mk b start' n').origins ↔ n = n' ∧ (n = 0 ∨ start = start') := by
  have hinj : Function.Injective (Origin.stored b) := fun _ _ h ↦ (Origin.stored.inj h).2
  show (List.range' start n).map _ = (List.range' start' n').map _ ↔ _
  rw [hinj.list_map.eq_iff, List.range'_inj]

/-! ## Typed arrays -/

theorem TypedArray.byteLength_dead (h : typedArrayIsOob heap v.toView = true) : v.byteLength heap = 0 :=
  if_pos h

theorem TypedArray.byteLength_fits (h : typedArrayIsOob heap v.toView = false) :
    v.offset + v.byteLength heap ≤ (heap v.buffer).byteLength := by
  have hfits := QNode.Buffer.byteLength_fits h
  have hround : v.byteLength heap ≤ v.toView.byteLength heap := by
    rw [TypedArray.byteLength, View.byteLength, h, if_neg Bool.false_ne_true, if_neg Bool.false_ne_true]
    split
    next =>
      rw [Nat.shiftLeft_eq, Nat.shiftRight_eq_div_pow]
      exact Nat.div_mul_le_self _ _
    next => exact Nat.le_refl _
  omega

/-! ## What the routines use -/

theorem used_buffer (heap : Heap) (call : BytesCall) (b : Nat) :
    call.used heap (.binary (.arrayBuffer b)) = call.upTo (wholeBuffer heap b).origins := by
  cases hgone : (heap b).detached with
  | false =>
    rcases call with (_ | cut) | pipe | newString <;>
      simp [BytesCall.used, BytesCall.upTo, BytesCall.cut, Writable.write, writePipe, writeInput,
        decodeObject, dataAndLen, jsGetTypedArrayBuffer, jsGetArrayBuffer, hgone]
  | true =>
    have hbytes : (heap b).bytes = none := Option.isNone_iff_eq_none.mp hgone
    have hempty : (wholeBuffer heap b).origins = [] := by
      simp [Span.origins, wholeBuffer, ArrayBuffer.byteLength, ArrayBuffer.data, hbytes]
    rw [hempty]
    rcases call with (_ | cut) | pipe | newString <;>
      simp [BytesCall.used, BytesCall.upTo, BytesCall.cut, Writable.write, writePipe, writeInput,
        decodeObject, dataAndLen, jsGetTypedArrayBuffer, jsGetArrayBuffer, hgone]

theorem used_dead (h : typedArrayIsOob heap v.toView = true) :
    call.used heap (.binary (.typedArray v)) = [] := by
  rcases call with (_ | cut) | pipe | newString <;>
    simp [BytesCall.used, Writable.write, writePipe, writeInput, decodeObject, dataAndLen,
      jsGetTypedArrayBuffer, jsGetArrayBuffer, h]

/-- A typed array is as good as its ArrayBuffer. -/
theorem used_live (h : typedArrayIsOob heap v.toView = false) :
    call.used heap (.binary (.typedArray v)) = call.used heap (.binary (.arrayBuffer v.buffer)) := by
  rcases call with (_ | cut) | pipe | newString <;>
    simp [BytesCall.used, Writable.write, writePipe, writeInput, decodeObject, dataAndLen,
      jsGetTypedArrayBuffer, jsGetArrayBuffer, h]

-- The string is made of the bytes that are used.
theorem decodeObject_result {newString : List UInt8 → Outcome JsString} {data : PipeData}
    {span : Span} (h : dataAndLen heap data = some span) :
    (decodeObject heap newString data).result =
      newString (bytesAt heap (BytesCall.used heap data (.decode newString))) := by
  unfold BytesCall.used decodeObject
  rw [h]
  exact congrArg newString (bytesAt_origins span).symm

/-- An ArrayBuffer read from a pipe is decoded as it is. -/
theorem decodeObject_chunk {chunk : List UInt8} (h : (heap b).bytes = some chunk) :
    (decodeObject heap decodeOutput (.binary (.arrayBuffer b))).result = decodeOutput chunk := by
  have hlive : (heap b).detached = false := by rw [ArrayBuffer.detached, h]; rfl
  have hdata : (heap b).data = chunk := by rw [ArrayBuffer.data, h, Option.getD_some]
  have hspan : dataAndLen heap (.binary (.arrayBuffer b)) = some (wholeBuffer heap b) := by
    show (if (heap b).detached then none else some (wholeBuffer heap b)) = some (wholeBuffer heap b)
    rw [hlive, if_neg Bool.false_ne_true]
  rw [decodeObject_result hspan, used_buffer]
  show decodeOutput (bytesAt heap (wholeBuffer heap b).origins) = decodeOutput chunk
  rw [bytesAt_origins, Span.bytes, wholeBuffer, ArrayBuffer.byteLength, hdata, slice, List.drop_zero,
    List.take_length]

/-! ## Which typed arrays are used as they should be -/

-- The whole store against a part of it that lies inside.
theorem count_whole_iff {size o : Nat} (h : o + n ≤ size) :
    (call.count size = call.count n ∧ (call.count size = 0 ∨ 0 = o)) ↔
      size = n ∨ ∃ cut ∈ call.cut, cut = 0 ∨ o = 0 ∧ cut ≤ n := by
  unfold BytesCall.count
  cases call.cut with
  | none =>
    simp only [Option.mem_def, reduceCtorEq, false_and, exists_false, or_false]
    omega
  | some cut =>
    simp only [Option.mem_def, Option.some.injEq, exists_eq_left']
    omega

theorem origins_iff :
    call.used heap (.binary (.typedArray v)) = call.upTo (v.span heap).origins ↔
      ReachesNoFurther heap call v := by
  unfold ReachesNoFurther
  rw [upTo_origins]
  cases hoob : typedArrayIsOob heap v.toView with
  | true =>
    apply iff_of_true _ (.inl rfl)
    have hcount : call.count 0 = 0 := Nat.le_zero.mp (count_le 0)
    rw [used_dead hoob, TypedArray.span, TypedArray.byteLength_dead hoob, hcount]
    rfl
  | false =>
    rw [used_live hoob, used_buffer, upTo_origins, or_iff_right Bool.false_ne_true,
      ← count_whole_iff (TypedArray.byteLength_fits hoob)]
    exact origins_inj

/-! ## Heaps that agree on a typed array -/

section

variable (hsize : (heap' v.buffer).byteLength = (heap v.buffer).byteLength)
  (hdetached : (heap' v.buffer).detached = (heap v.buffer).detached)

include hsize hdetached

theorem isOob_congr : typedArrayIsOob heap' v.toView = typedArrayIsOob heap v.toView := by
  unfold typedArrayIsOob
  dsimp only
  rw [hsize, hdetached]

theorem TypedArray.byteLength_congr : v.byteLength heap' = v.byteLength heap := by
  unfold TypedArray.byteLength
  rw [isOob_congr hsize hdetached, hsize]

end

theorem AgreeOn.isOob (h : AgreeOn v heap heap') :
    typedArrayIsOob heap' v.toView = typedArrayIsOob heap v.toView :=
  isOob_congr (h.byteLength _) (h.detached _)

theorem AgreeOn.viewLength (h : AgreeOn v heap heap') : v.byteLength heap' = v.byteLength heap :=
  TypedArray.byteLength_congr (h.byteLength _) (h.detached _)

theorem AgreeOn.reaches_iff (h : AgreeOn v heap heap') :
    ReachesNoFurther heap' call v ↔ ReachesNoFurther heap call v := by
  unfold ReachesNoFurther
  rw [h.isOob, h.byteLength, h.viewLength]

theorem confined_of_reaches (h : ReachesNoFurther heap call v) : Confined heap call v := by
  intro heap' hagree
  rw [origins_iff.mpr h, origins_iff.mpr (hagree.reaches_iff.mpr h), bytesAt_upTo, bytesAt_upTo,
    hagree.bytes]
  show (_ : List UInt8).take (call.count (v.byteLength heap')) = _
  rw [hagree.viewLength]
  rfl

-- A byte that is used and lies outside.
theorem exists_outside {size o : Nat} (hfits : o + n ≤ size)
    (h : ¬ (size = n ∨ ∃ cut ∈ call.cut, cut = 0 ∨ o = 0 ∧ cut ≤ n)) :
    ∃ p < call.count size, p < o ∨ o + n ≤ p := by
  refine ⟨if o = 0 then n else 0, ?_⟩
  unfold BytesCall.count
  cases hcut : call.cut with
  | none =>
    rw [hcut] at h
    simp only [Option.mem_def, reduceCtorEq, false_and, exists_false, or_false] at h
    dsimp only
    split <;> omega
  | some cut =>
    rw [hcut] at h
    simp only [Option.mem_def, Option.some.injEq, exists_eq_left'] at h
    dsimp only
    split <;> omega

/-- The start of a store. -/
def storeStart (b : Nat) : View := ⟨b, 0, 0, false, Nat.zero_le _⟩

-- Changing one byte outside the typed array.
theorem agreeOn_write {p : Nat} (x : UInt8) (hp : p < (heap v.buffer).byteLength)
    (hout : p < v.offset ∨ v.offset + v.byteLength heap ≤ p) :
    AgreeOn v heap ((storeStart v.buffer).write heap p [x]) := by
  have hshape : ∀ b, ((storeStart v.buffer).write heap p [x] b).byteLength = (heap b).byteLength :=
    fun b ↦ View.write_byteLength b
  have hdetached : ∀ b, ((storeStart v.buffer).write heap p [x] b).detached = (heap b).detached :=
    fun b ↦ View.write_detached b
  refine ⟨hshape, hdetached, ?_⟩
  have hlen : v.byteLength ((storeStart v.buffer).write heap p [x]) = v.byteLength heap :=
    TypedArray.byteLength_congr (hshape _) (hdetached _)
  have hfit : (storeStart v.buffer).offset + p + [x].length ≤ (heap (storeStart v.buffer).buffer).byteLength := by
    show 0 + p + 1 ≤ (heap v.buffer).byteLength
    omega
  rw [TypedArray.span, TypedArray.span, hlen]
  show slice _ _ _ = slice _ _ _
  apply List.ext_getElem?
  intro i
  by_cases hi : i < v.byteLength heap
  · rw [getElem?_slice hi, getElem?_slice hi]
    apply View.write_outside hfit
    rintro ⟨-, hlow, hhigh⟩
    change 0 + p ≤ v.offset + i at hlow
    change v.offset + i < 0 + p + 1 at hhigh
    omega
  · have hnone : ∀ block : List UInt8, (slice block v.offset (v.byteLength heap))[i]? = none := by
      intro block
      apply List.getElem?_eq_none
      rw [slice, List.length_take]
      omega
    rw [hnone, hnone]

theorem getElem?_upTo_whole {p : Nat} (h : p < call.count (heap b).byteLength) :
    (bytesAt heap (call.upTo (wholeBuffer heap b).origins))[p]? = (heap b).data[p]? := by
  rw [upTo_origins, bytesAt_origins]
  show (slice (heap b).data 0 (call.count (heap b).byteLength))[p]? = _
  rw [getElem?_slice h, Nat.zero_add]

theorem reaches_of_confined (h : Confined heap call v) : ReachesNoFurther heap call v := by
  by_contra hfar
  obtain ⟨hlive, hfar⟩ := not_or.mp hfar
  rw [Bool.not_eq_true] at hlive
  obtain ⟨p, hp, hout⟩ := exists_outside (TypedArray.byteLength_fits hlive) hfar
  have hstore : p < (heap v.buffer).data.length := hp.trans_le (count_le _)
  obtain ⟨x, hx⟩ : ∃ x, x ≠ (heap v.buffer).data[p] := ⟨(heap v.buffer).data[p] + 1, by simp⟩
  -- the heaps differ in the byte at `p` only
  have hagree := agreeOn_write x hstore hout
  have hfit : 0 + p + [x].length ≤ (heap v.buffer).byteLength := by
    rw [Nat.zero_add]
    exact hstore
  have hnew : ((storeStart v.buffer).write heap p [x] v.buffer).data[p]? = some x := by
    have hinside := View.write_inside (v := storeStart v.buffer) hfit (Nat.lt_succ_self 0)
    rwa [View.byteAt, Nat.add_zero, storeStart, Nat.zero_add] at hinside
  have hsame := congrArg (·[p]?) (h _ hagree)
  rw [used_live (hagree.isOob.trans hlive), used_live hlive, used_buffer, used_buffer,
    getElem?_upTo_whole hp, getElem?_upTo_whole (by rw [hagree.byteLength]; exact hp), hnew,
    List.getElem?_eq_getElem hstore] at hsame
  exact hx (Option.some.inj hsame)

/-- A byte outside a typed array leaves the process precisely if it is not used as it should be. -/
theorem confined_iff : Confined heap call v ↔ ReachesNoFurther heap call v :=
  ⟨reaches_of_confined, confined_of_reaches⟩

end

/-! ## Typed arrays and ArrayBuffers -/

/-- A typed array is written or decoded as it should be, with no effect of other bytes, precisely if it has
no bytes, has all those of its ArrayBuffer, or starts where that does and the pipe takes no more than it has.
An ArrayBuffer always is. -/
theorem view_bytes_kept_iff (heap : Heap) (call : BytesCall) :
    (∀ v, ViewUsed heap call v ↔ ReachesNoFurther heap call v) ∧
      ∀ b, call.used heap (.binary (.arrayBuffer b)) = call.upTo (wholeBuffer heap b).origins := by
  refine ⟨fun v ↦ ?_, used_buffer heap call⟩
  constructor
  · intro h
    exact origins_iff.mp h.origins
  · intro h
    exact ⟨origins_iff.mpr h, confined_of_reaches h⟩

def secretText : List UInt8 := Launch.ascii "secret!"

theorem secretText_bounded : secretText.length ≤ maxByteLength := by decide

def secretHeap : Heap := fun _ ↦ ⟨some secretText, secretText_bounded⟩

theorem middle_bounded : 2 + 2 ≤ maxByteLength := by decide

/-- `subarray(2, 4)` -/
def middle : TypedArray := ⟨⟨0, 2, 2, false, middle_bounded⟩, 0⟩

/-- All of `secret!` is written, not the two bytes of the typed array. -/
theorem subarray_write_leaks :
    (middle.span secretHeap).bytes secretHeap = Launch.ascii "cr" ∧
      bytesAt secretHeap (BytesCall.used secretHeap (.binary (.typedArray middle)) (.write (some 64))) =
        Launch.ascii "secret!" ∧
      ¬ ViewUsed secretHeap (.write (some 64)) middle := by
  refine ⟨by decide, by decide, ?_⟩
  intro h
  exact absurd h.origins (by decide)

end QNode.ChildProcess
