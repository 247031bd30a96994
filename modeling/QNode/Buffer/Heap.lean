import Mathlib.Logic.Function.Basic
import QNode.Engine.Strings
import QNode.Library.Splice

/-!
# ArrayBuffers, views and the arguments of a native method

The heap maps ArrayBuffers to their bytes.  Converting an argument to a number may run user code,
so a conversion is a function on heaps.  A native method keeps raw pointers into the heap; each use
of one is an access, recorded with the length the store has at that moment.
-/

open QNode.Engine Splice

namespace QNode.Buffer

def maxByteLength : Nat := 2 ^ 31 - 1

/-- An ArrayBuffer; `bytes` is `none` once it is detached. -/
structure ArrayBuffer where
  bytes : Option (List UInt8)
  bounded : (bytes.getD []).length ≤ maxByteLength

def ArrayBuffer.data (abuf : ArrayBuffer) : List UInt8 := abuf.bytes.getD []

def ArrayBuffer.byteLength (abuf : ArrayBuffer) : Nat := abuf.data.length

def ArrayBuffer.detached (abuf : ArrayBuffer) : Bool := abuf.bytes.isNone

abbrev Heap := Nat → ArrayBuffer

/-- A typed array: its ArrayBuffer, the offset and length in bytes recorded when it was created, and
whether it tracks the length of a resizable buffer.  The recorded length of a tracking array is
not updated when the buffer is resized. -/
structure View where
  buffer : Nat
  offset : Nat
  length : Nat
  trackRab : Bool
  bounded : offset + length ≤ maxByteLength

def typedArrayIsOob (heap : Heap) (ta : View) : Bool :=
  let abuf := heap ta.buffer
  if abuf.detached then true
  else if ta.offset > abuf.byteLength then true
  else if ta.trackRab then false
  else decide (abuf.byteLength < ta.offset + ta.length)

/-! ## Arguments -/

inductive JsArg
  | undefined
  | number (n : Int64)
  -- a string, with the number it parses to
  | string (text : JsString) (n : Int64)
  -- an object, the typed array it is, if any, and what its `valueOf` does and returns or throws
  | object (view : Option View) (valueOf : Heap → Heap × Option Int64)

def JsArg.isUndefined : JsArg → Bool
  | .undefined => true
  | _ => false

def JsArg.view : JsArg → Option View
  | .object view _ => view
  | _ => none

/-- Missing arguments are padded with `undefined`. -/
def argAt (argv : List JsArg) (i : Nat) : JsArg := argv.getD i .undefined

/-- `JS_ToInt64` with its return code ignored: an exception leaves 0. -/
def jsToInt64 (heap : Heap) : JsArg → Int × Heap
  | .undefined => (0, heap)
  | .number n => (n.toInt, heap)
  | .string _ n => (n.toInt, heap)
  | .object _ valueOf => (((valueOf heap).2.map Int64.toInt).getD 0, (valueOf heap).1)

/-- `if (!JS_IsUndefined(arg)) JS_ToInt64(ctx, &x, arg)` for an `x` that holds `default`. -/
def jsToInt64Or (heap : Heap) (arg : JsArg) (default : Int) : Int × Heap :=
  if arg.isUndefined then (default, heap) else jsToInt64 heap arg

/-- `js_buffer_get_bytes`: the pointer is the view itself, and its length the recorded one. -/
def jsBufferGetBytes (heap : Heap) (buf : JsArg) : Option View :=
  match buf.view with
  | none => none
  | some ta =>
    if typedArrayIsOob heap ta then none
    else if (heap ta.buffer).detached then none
    else some ta

/-! ## Accesses through a view -/

/-- An access of `len` bytes from index `start` of a view, and the byte length of the store then. -/
structure Access where
  view : View
  start : Nat
  len : Nat
  storeLen : Nat

def View.access (v : View) (heap : Heap) (start len : Nat) : Access :=
  ⟨v, start, len, (heap v.buffer).byteLength⟩

/-- Every byte accessed lies in the store. -/
def Access.InStore (a : Access) : Prop := ∀ i < a.len, a.view.offset + a.start + i < a.storeLen

/-- Every byte accessed lies in the view. -/
def Access.InView (a : Access) : Prop := ∀ i < a.len, a.start + i < a.view.length

theorem Access.inStore_iff (a : Access) :
    a.InStore ↔ a.len = 0 ∨ a.view.offset + a.start + a.len ≤ a.storeLen := by
  unfold Access.InStore
  constructor
  · intro h
    by_cases hlen : a.len = 0
    · exact .inl hlen
    · have hlast := h (a.len - 1) (by omega)
      right
      omega
  · intro h i hi
    omega

theorem Access.inView_iff (a : Access) :
    a.InView ↔ a.len = 0 ∨ a.start + a.len ≤ a.view.length := by
  unfold Access.InView
  constructor
  · intro h
    by_cases hlen : a.len = 0
    · exact .inl hlen
    · have hlast := h (a.len - 1) (by omega)
      right
      omega
  · intro h i hi
    omega

def View.byteAt (v : View) (heap : Heap) (i : Nat) : Option UInt8 :=
  (heap v.buffer).data[v.offset + i]?

def View.read (v : View) (heap : Heap) (start len : Nat) : List UInt8 :=
  slice (heap v.buffer).data (v.offset + start) len

def ArrayBuffer.overwrite (abuf : ArrayBuffer) (start : Nat) (src : List UInt8)
    (h : start + src.length ≤ abuf.byteLength) : ArrayBuffer where
  bytes := abuf.bytes.map (splice · start src)
  bounded := by
    have hbound := abuf.bounded
    cases hbytes : abuf.bytes with
    | none => exact Nat.zero_le _
    | some block =>
      simp only [ArrayBuffer.byteLength, ArrayBuffer.data, hbytes, Option.getD_some] at h hbound
      simp only [Option.map_some, Option.getD_some, length_splice h]
      exact hbound

/-- What a write leaves behind.  Outside the store its effect is undefined and the heap is kept. -/
def View.write (v : View) (heap : Heap) (start : Nat) (src : List UInt8) : Heap :=
  if h : v.offset + start + src.length ≤ (heap v.buffer).byteLength then
    Function.update heap v.buffer ((heap v.buffer).overwrite (v.offset + start) src h)
  else heap

/-- How a native method ends: its result, the heap it leaves and the accesses it made. -/
structure Ran (α : Type) where
  result : Outcome α
  heap : Heap
  accesses : List Access

end QNode.Buffer
