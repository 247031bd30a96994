import QNode.Core.Writer

/-!
# Reading a message

`JS_ReadObject` with the flags that the receiver of a message gives it.  The objects that it makes are new
ones at the end of the heap.
-/

namespace QNode.Core

/-- How reading ends without a value: by an exception, or at the null pointer that stands for a typed
array whose buffer is still being read. -/
inductive ReadFailure
  | throw (error : JSError)
  | nullObject
  deriving DecidableEq, Repr

/-- `ptr` is what lies between the read pointer and the end of the buffer of `bufLen` bytes.  `sabDups` are
the shared array buffers whose reference count has been incremented. -/
structure BCReaderState where
  ptr : List UInt8
  bufLen : Nat
  idxToAtom : List JSAtom
  objects : List (Option Ptr)
  heap : Heap
  sabDups : List UInt64

namespace BCReaderState

def pos (s : BCReaderState) : Nat := s.bufLen - s.ptr.length

/-- `BC_add_object_ref1` -/
def addRef (s : BCReaderState) (p : Option Ptr) : BCReaderState :=
  { s with objects := s.objects ++ [p] }

/-- A new object; its address is the length of the heap. -/
def alloc (s : BCReaderState) (obj : JSObject) : BCReaderState :=
  { s with heap := s.heap ++ [obj] }

/-- `BC_add_object_ref` for a new object. -/
def newObject (s : BCReaderState) (obj : JSObject) : BCReaderState :=
  (s.alloc obj).addRef (some s.heap.length)

@[simp] theorem newObject_ptr (s : BCReaderState) (obj : JSObject) :
    (s.newObject obj).ptr = s.ptr := rfl

@[simp] theorem newObject_objects (s : BCReaderState) (obj : JSObject) :
    (s.newObject obj).objects = s.objects ++ [some s.heap.length] := rfl

@[simp] theorem newObject_heap (s : BCReaderState) (obj : JSObject) :
    (s.newObject obj).heap = s.heap ++ [obj] := rfl

@[simp] theorem newObject_idxToAtom (s : BCReaderState) (obj : JSObject) :
    (s.newObject obj).idxToAtom = s.idxToAtom := rfl

@[simp] theorem newObject_sabDups (s : BCReaderState) (obj : JSObject) :
    (s.newObject obj).sabDups = s.sabDups := rfl

/-- `JS_DefinePropertyValueUint32` for the index after the last element. -/
def defineElement (s : BCReaderState) (p : Ptr) (val : JSValue) : BCReaderState :=
  match s.heap[p]? with
  | some (.fastArray values _) =>
    { s with heap := s.heap.set p (.fastArray (values ++ [val]) (values.length + 1)) }
  | _ => s

/-- `JS_DefinePropertyValue` on a plain object, with `JS_PROP_C_W_E`. -/
def defineProperty (s : BCReaderState) (p : Ptr) (atom : ShapeAtom) (val : JSValue) :
    BCReaderState :=
  match s.heap[p]? with
  | some (.object props) =>
    let pr : JSProperty := ⟨atom, true, some val⟩
    let props := match props.findIdx? fun q ↦ q.atom == atom with
      | some i => props.set i pr
      | none => props ++ [pr]
    { s with heap := s.heap.set p (.object props) }
  | _ => s

end BCReaderState

def fail {α : Type} (e : JSError) : Except ReadFailure α := .error (.throw e)

/-- Read from the front of the buffer. -/
def pull {α : Type} (r : Reader α) (s : BCReaderState) : Except ReadFailure (α × BCReaderState) :=
  match r s.ptr with
  | .ok (a, ptr) => .ok (a, { s with ptr := ptr })
  | .error e => fail e

/-- An even number is an index into the table of atoms, after the null atom. -/
def bcIdxToAtom (s : BCReaderState) (idx : Nat) : Except ReadFailure ShapeAtom :=
  if idx < firstAtom then .ok .null
  else
    match s.idxToAtom[idx - firstAtom]? with
    | some atom => .ok (.visible atom)
    | none => fail (.syntaxError s!"invalid atom index (pos={s.pos})")

def bcGetAtom (s : BCReaderState) : Except ReadFailure (ShapeAtom × BCReaderState) := do
  let (v, s) ← pull bcGetLeb128 s
  if v.toNat % 2 = 1 then
    return (.visible (.taggedInt ⟨v.toNat / 2, by have := v.toNat_lt; omega⟩), s)
  else
    let atom ← bcIdxToAtom s (v.toNat / 2)
    return (atom, s)

/-- The maximal length of a buffer, `none` for the length -1. -/
def readMaxByteLength (v : UInt32) : Option Nat := if v = -1 then none else some v.toNat

def int32Max : Nat := 2 ^ 31 - 1

/-- The lengths that `js_array_buffer_constructor3` accepts. -/
def checkLengths (len : Nat) (maxLen : Option Nat) : Except ReadFailure Unit :=
  if len > int32Max then fail (.rangeError "invalid array buffer length")
  else
    match maxLen with
    | some n => if n > int32Max then fail (.rangeError "invalid max array buffer length")
      else .ok ()
    | none => .ok ()

/-- `js_array_buffer_constructor3` for a block that is not allocated here. -/
def checkExternal (len : Nat) (maxLen : Option Nat) : Except ReadFailure Unit :=
  match maxLen with
  | some _ => fail (.internalError
      "resizable ArrayBuffers not supported for externally managed buffers")
  | none => checkLengths len none

/-- The two lengths of an array buffer. -/
def readLengths (s : BCReaderState) :
    Except ReadFailure (Nat × Option Nat × BCReaderState) := do
  let (byteLength, s) ← pull bcGetLeb128 s
  let (maxByteLength, s) ← pull bcGetLeb128 s
  if maxByteLength < byteLength then fail (.typeError "invalid array buffer")
  else return (byteLength.toNat, readMaxByteLength maxByteLength, s)

def jsReadArrayBuffer (s : BCReaderState) : Except ReadFailure (JSValue × BCReaderState) := do
  let (byteLength, maxByteLength, s) ← readLengths s
  if s.ptr.length < byteLength then fail bcReadErrorEnd
  else
    checkLengths byteLength maxByteLength
    let p := s.heap.length
    let s := s.newObject (.arrayBuffer (some (s.ptr.take byteLength)) maxByteLength)
    return (.object p, { s with ptr := s.ptr.drop byteLength })

def jsReadSharedArrayBuffer (s : BCReaderState) : Except ReadFailure (JSValue × BCReaderState) := do
  let (byteLength, maxByteLength, s) ← readLengths s
  let (data, s) ← pull bcGetU64 s
  checkExternal byteLength maxByteLength
  let p := s.heap.length
  let s := s.newObject (.sharedArrayBuffer data byteLength maxByteLength)
  return (.object p, { s with sabDups := s.sabDups ++ [data] })

/-- What `js_typed_array_constructor` makes of a buffer, an offset and a length. -/
def jsTypedArrayConstructor (s : BCReaderState) (arrayTag : Nat) (p : Ptr) (offset len : Nat) :
    Except ReadFailure (JSValue × BCReaderState) :=
  match (s.heap.getD p .other).bufferLength with
  | none => fail (.typeError "ArrayBuffer object expected")
  | some byteLength =>
    if offset % 2 ^ typedArraySizeLog2 arrayTag ≠ 0 then fail (.rangeError "invalid offset")
    else if offset + len * 2 ^ typedArraySizeLog2 arrayTag > byteLength then
      fail (.rangeError "invalid length")
    else .ok (.object s.heap.length, s.alloc (.typedArray arrayTag len offset false p))

section

-- `JS_ReadObjectRec`, with less room on the stack
variable (readRec : BCReaderState → Except ReadFailure (JSValue × BCReaderState))

/-- The loop of `JS_ReadArray`, over the `n` elements that are left. -/
def readElements (p : Ptr) : Nat → BCReaderState → Except ReadFailure BCReaderState
  | 0, s => .ok s
  | n + 1, s => do
    let (val, s) ← readRec s
    readElements p n (s.defineElement p val)

def jsReadArray (s : BCReaderState) : Except ReadFailure (JSValue × BCReaderState) := do
  let p := s.heap.length
  let (len, s) ← pull bcGetLeb128 (s.newObject (.fastArray [] 0))
  let s ← readElements readRec p len.toNat s
  return (.object p, s)

/-- The loop of `JS_ReadObjectTag`, over the `n` properties that are left. -/
def readProps (p : Ptr) : Nat → BCReaderState → Except ReadFailure BCReaderState
  | 0, s => .ok s
  | n + 1, s => do
    let (atom, s) ← bcGetAtom s
    let (val, s) ← readRec s
    readProps p n (s.defineProperty p atom val)

def jsReadObjectTag (s : BCReaderState) : Except ReadFailure (JSValue × BCReaderState) := do
  let p := s.heap.length
  let (propCount, s) ← pull bcGetLeb128 (s.newObject (.object []))
  let s ← readProps readRec p propCount.toNat s
  return (.object p, s)

/-- A template is an array with one value more, its property `raw`, which the model leaves out. -/
def jsReadTemplate (s : BCReaderState) : Except ReadFailure (JSValue × BCReaderState) := do
  let (obj, s) ← jsReadArray readRec s
  let (_, s) ← readRec s
  return (obj, s)

def jsReadTypedArray (s : BCReaderState) : Except ReadFailure (JSValue × BCReaderState) := do
  let (arrayTag, s) ← pull bcGetU8 s
  if arrayTag.toNat ≥ jsTypedArrayCount then fail (.typeError "invalid typed array")
  else
    let (len, s) ← pull bcGetLeb128 s
    let (offset, s) ← pull bcGetLeb128 s
    let idx := s.objects.length
    let (arrayBuffer, s) ← readRec (s.addRef none)
    match arrayBuffer with
    | .object p =>
      let (obj, s) ← jsTypedArrayConstructor s arrayTag.toNat p offset.toNat len.toNat
      return (obj, { s with objects := s.objects.set idx (some (s.heap.length - 1)) })
    | _ => fail (.typeError "ArrayBuffer object expected")

def jsReadDate (s : BCReaderState) : Except ReadFailure (JSValue × BCReaderState) := do
  let (val, s) ← readRec s
  if val.isNumber then return (.object s.heap.length, s.newObject (.date val))
  else fail (.typeError "Number tag expected for date")

def jsReadObjectValue (s : BCReaderState) : Except ReadFailure (JSValue × BCReaderState) := do
  let (val, s) ← readRec s
  match val with
  | .null | .undefined | .other _ => fail (.typeError "cannot convert to object")
  | .object p => return (.object p, s.addRef (some p))
  | val => return (.object s.heap.length, s.newObject (.objectValue val))

end

def jsReadReference (s : BCReaderState) : Except ReadFailure (JSValue × BCReaderState) := do
  let (val, s) ← pull bcGetLeb128 s
  match s.objects[val.toNat]? with
  | none => fail (.syntaxError
      s!"invalid object reference ({val.toNat} >= {s.objects.length})")
  | some none => .error .nullObject
  | some (some p) => return (.object p, s)

/-- The switch over the tag, after it has been read. -/
def jsReadTagged (readRec : BCReaderState → Except ReadFailure (JSValue × BCReaderState))
    (tag : BCTag) (s : BCReaderState) : Except ReadFailure (JSValue × BCReaderState) :=
  match tag with
  | .null => .ok (.null, s)
  | .undefined => .ok (.undefined, s)
  | .boolFalse => .ok (.bool false, s)
  | .boolTrue => .ok (.bool true, s)
  | .int32 => do
    let (n, s) ← pull bcGetSleb128 s
    return (.int n, s)
  | .float64 => do
    let (u, s) ← pull bcGetU64 s
    return (.float64 u, s)
  | .string => do
    let (p, s) ← pull jsReadString s
    return (.string p, s)
  | .object => jsReadObjectTag readRec s
  | .array => jsReadArray readRec s
  | .templateObject => jsReadTemplate readRec s
  | .typedArray => jsReadTypedArray readRec s
  | .arrayBuffer => jsReadArrayBuffer s
  | .sharedArrayBuffer => jsReadSharedArrayBuffer s
  | .date => jsReadDate readRec s
  | .objectValue => jsReadObjectValue readRec s
  | .bigInt => do
    let (tab, s) ← pull jsReadBigInt s
    return (.bigInt tab, s)
  | .objectReference => jsReadReference s

/-- `stack` is the number of nested calls that the stack has room for. -/
def jsReadObjectRec : Nat → BCReaderState → Except ReadFailure (JSValue × BCReaderState)
  | 0, _ => fail (.internalError "stack overflow")
  | stack + 1, s => do
    let (tag, s) ← pull bcGetU8 s
    match BCTag.ofUInt8 tag with
    | some tag => jsReadTagged (jsReadObjectRec stack) tag s
    | none => fail (.syntaxError s!"invalid tag (tag={tag.toNat} pos={s.pos})")

/-- `n` atoms -/
def readAtoms : Nat → BCReaderState → Except ReadFailure BCReaderState
  | 0, s => .ok s
  | n + 1, s => do
    let (p, s) ← pull jsReadString s
    readAtoms n { s with idxToAtom := s.idxToAtom ++ [jsNewAtomStr p] }

def jsReadObjectAtoms (s : BCReaderState) : Except ReadFailure BCReaderState := do
  let (v8, s) ← pull bcGetU8 s
  if v8 ≠ bcVersion then
    fail (.syntaxError s!"invalid version ({v8.toNat} expected={bcVersion.toNat})")
  else
    let (count, s) ← pull bcGetLeb128 s
    readAtoms count.toNat s

/-- The value that a message holds, and the state of the reader after it. -/
def jsReadObject (heap : Heap) (stack : Nat) (buf : List UInt8) :
    Except ReadFailure (JSValue × BCReaderState) := do
  let s ← jsReadObjectAtoms ⟨buf, buf.length, [], [], heap, []⟩
  jsReadObjectRec stack s

end QNode.Core
