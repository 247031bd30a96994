import Mathlib.Logic.Function.Basic
import QNode.Core.Objects

/-!
# Writing a message

`JS_WriteObject2` with the flags that `postMessage` gives it: no byte code, shared array buffers by their
address, objects met before by their number.
-/

namespace QNode.Core

/-- `JS_ATOM_MAX` -/
def jsAtomMax : Nat := 2 ^ 30 - 1

/-- What the writer reads of its runtime: where an object lies, the table of atoms, and which of them are
stored in two bytes a unit although they would fit into one. -/
structure Runtime where
  address : Ptr → UInt64
  atomArray : List AtomText
  wideAtom : List UInt16 → Bool
  size_le : atomArray.length ≤ jsAtomMax

/-- The string of an atom. -/
def Runtime.atomString (rt : Runtime) (text : AtomText) : JSString where
  isWideChar := rt.wideAtom text.units || text.units.any (fun c ↦ !decide (c < 256))
  units := text.units
  len_le := text.len_le
  narrow := by
    intro h c hc
    obtain ⟨-, hany⟩ := Bool.or_eq_false_iff.mp h
    have hc' := List.any_eq_false.mp hany c hc
    simpa using hc'

/-- `atomToIdx` is 0 for an atom that is not in the table yet.  `pending` is an exception thrown by a call
whose return code is ignored. -/
structure BCWriterState where
  dbuf : List UInt8
  atomToIdx : AtomText → Nat
  idxToAtom : List AtomText
  sabTab : List UInt64
  objectList : JSObjectList
  pending : Option JSError

def BCWriterState.init : BCWriterState := ⟨[], fun _ ↦ 0, [], [], JSObjectList.init, none⟩

def BCWriterState.put (s : BCWriterState) (bytes : List UInt8) : BCWriterState :=
  { s with dbuf := s.dbuf ++ bytes }

def BCWriterState.putTag (s : BCWriterState) (tag : BCTag) : BCWriterState := s.put [tag.toUInt8]

def BCWriterState.putLeb128 (s : BCWriterState) (n : Nat) : BCWriterState :=
  s.put (dbufPutLeb128 (UInt32.ofNat n))

/-- `first_atom`, without byte code. -/
def firstAtom : Nat := 1

def bcAtomToIdx (s : BCWriterState) (text : AtomText) : Nat × BCWriterState :=
  if s.atomToIdx text ≠ 0 then (s.atomToIdx text, s)
  else
    let v := s.idxToAtom.length + firstAtom
    (v, { s with
      idxToAtom := s.idxToAtom ++ [text]
      atomToIdx := Function.update s.atomToIdx text v })

def bcPutAtom (s : BCWriterState) : JSAtom → BCWriterState
  | .taggedInt n => s.putLeb128 (n.val * 2 + 1)
  | .string text => (bcAtomToIdx s text).2.putLeb128 ((bcAtomToIdx s text).1 * 2)

def errOnlyValues : JSError := .typeError "only value properties are supported"

/-- The element of an array that is not fast. -/
def slotValue (props : List JSProperty) (i : Nat) : Except JSError JSValue :=
  match props.find? fun pr ↦ pr.atom == .visible (jsNewAtomUInt32 i) with
  | none => .ok .undefined
  | some pr =>
    if pr.enumerable then
      match pr.value with
      | none => .error errOnlyValues
      | some v => .ok v
    else .ok .undefined

/-- The elements that `JS_WriteArray` writes, in order; it stops at one that it cannot write. -/
def arraySlots : JSObject → List (Except JSError JSValue)
  | .fastArray values length =>
    values.map .ok ++ List.replicate (length - values.length) (.ok .undefined)
  | .slowArray props length => (List.range length).map (slotValue props)
  | _ => []

def arrayLength : JSObject → Nat
  | .fastArray _ length => length
  | .slowArray _ length => length
  | _ => 0

/-- The properties that `JS_WriteObjectTag` looks at. -/
def writtenProps (props : List JSProperty) : List JSProperty :=
  props.filter fun pr ↦ pr.enumerable && match pr.atom with
    | .visible _ => true
    | _ => false

section

-- `JS_WriteObjectRec`, with less room on the stack
variable (writeRec : JSValue → BCWriterState → Except JSError BCWriterState)

def jsWriteSlots : List (Except JSError JSValue) → BCWriterState → Except JSError BCWriterState
  | [], s => .ok s
  | slot :: slots, s => do
    let v ← slot
    let s ← writeRec v s
    jsWriteSlots slots s

/-- The second pass of `JS_WriteObjectTag`. -/
def jsWriteProps : List JSProperty → BCWriterState → Except JSError BCWriterState
  | [], s => .ok s
  | pr :: props, s =>
    match pr.atom, pr.value with
    | .visible atom, some v => do
      let s ← writeRec v (bcPutAtom s atom)
      jsWriteProps props s
    | _, _ => .error errOnlyValues

def jsWriteArray (obj : JSObject) (s : BCWriterState) : Except JSError BCWriterState :=
  jsWriteSlots writeRec (arraySlots obj) ((s.putTag .array).putLeb128 (arrayLength obj))

def jsWriteObjectTag (props : List JSProperty) (s : BCWriterState) : Except JSError BCWriterState :=
  if (writtenProps props).any fun pr ↦ pr.value.isNone then .error errOnlyValues
  else
    jsWriteProps writeRec (writtenProps props)
      ((s.putTag .object).putLeb128 (writtenProps props).length)

def jsWriteTypedArray (arrayTag count offset : Nat) (buffer : Ptr) (s : BCWriterState) :
    Except JSError BCWriterState :=
  writeRec (.object buffer)
    ((((s.putTag .typedArray).put [UInt8.ofNat arrayTag]).putLeb128 count).putLeb128 offset)

def jsWriteArrayBuffer (data : Option (List UInt8)) (maxByteLength : Option Nat)
    (s : BCWriterState) : Except JSError BCWriterState :=
  match data with
  | none => .error (.typeError "ArrayBuffer is detached")
  | some bytes => .ok ((((s.putTag .arrayBuffer).putLeb128 bytes.length).put
      (dbufPutLeb128 (maxByteLengthWord maxByteLength))).put bytes)

def jsWriteSharedArrayBuffer (data : UInt64) (byteLength : Nat) (maxByteLength : Option Nat)
    (s : BCWriterState) : BCWriterState :=
  let s := (((s.putTag .sharedArrayBuffer).putLeb128 byteLength).put
    (dbufPutLeb128 (maxByteLengthWord maxByteLength))).put (bcPutU64 data)
  { s with sabTab := s.sabTab ++ [data] }

/-- The switch over the class of an object that is met for the first time. -/
def jsWriteNewObject (obj : JSObject) (s : BCWriterState) : Except JSError BCWriterState :=
  match obj with
  | .fastArray _ _ => jsWriteArray writeRec obj s
  | .slowArray _ _ => jsWriteArray writeRec obj s
  | .object props => jsWriteObjectTag writeRec props s
  | .arrayBuffer data maxByteLength => jsWriteArrayBuffer data maxByteLength s
  | .sharedArrayBuffer data byteLength maxByteLength =>
    .ok (jsWriteSharedArrayBuffer data byteLength maxByteLength s)
  | .date data => writeRec data (s.putTag .date)
  | .objectValue data => writeRec data (s.putTag .objectValue)
  | .typedArray arrayTag count offset _ buffer =>
    jsWriteTypedArray writeRec arrayTag count offset buffer s
  | .other => .error (.typeError "unsupported object class")

end

/-- `stack` is the number of nested calls that the stack has room for. -/
def jsWriteObjectRec (rt : Runtime) (heap : Heap) :
    Nat → JSValue → BCWriterState → Except JSError BCWriterState
  | 0, _, _ => .error (.internalError "stack overflow")
  | stack + 1, obj, s =>
    match obj with
    | .null => .ok (s.putTag .null)
    | .undefined => .ok (s.putTag .undefined)
    | .bool b => .ok (s.putTag (if b then .boolTrue else .boolFalse))
    | .int n => .ok ((s.putTag .int32).put (dbufPutSleb128 n))
    | .float64 u => .ok ((s.putTag .float64).put (bcPutU64 u))
    | .string p => .ok ((s.putTag .string).put (jsWriteString p))
    | .stringRope p =>
      -- the return code of the call for the flat string is ignored
      match jsWriteObjectRec rt heap stack (.string p) s with
      | .ok s => .ok s
      | .error e => .ok { s with pending := some e }
    | .bigInt tab => .ok ((s.putTag .bigInt).put (jsWriteBigInt tab))
    | .object p =>
      match jsObjectListFind rt.address s.objectList p with
      | some idx => .ok ((s.putTag .objectReference).putLeb128 idx)
      | none =>
        jsWriteNewObject (jsWriteObjectRec rt heap stack) (heap.getD p .other)
          { s with objectList := jsObjectListAdd rt.address s.objectList p }
    | .other tag => .error (.internalError s!"unsupported tag ({tag})")

/-- The version, the atoms, then what has been written. -/
def jsWriteObjectAtoms (rt : Runtime) (s : BCWriterState) : List UInt8 :=
  bcVersion :: (dbufPutLeb128 (UInt32.ofNat s.idxToAtom.length) ++
    (s.idxToAtom.flatMap (fun text ↦ jsWriteString (rt.atomString text)) ++ s.dbuf))

/-- The data of a message, its table of shared array buffers, and an exception left pending. -/
structure Written where
  data : List UInt8
  sabTab : List UInt64
  pending : Option JSError
  deriving DecidableEq

def jsWriteObject2 (rt : Runtime) (heap : Heap) (stack : Nat) (obj : JSValue) :
    Except JSError Written := do
  let s ← jsWriteObjectRec rt heap stack obj .init
  return ⟨jsWriteObjectAtoms rt s, s.sabTab, s.pending⟩

end QNode.Core
