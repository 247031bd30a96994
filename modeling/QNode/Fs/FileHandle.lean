import QNode.Engine.Strings
import QNode.Library.Words

/-!
# The methods of a FileHandle

A call fetches the descriptor, works out from its arguments what to transfer, and then makes its system
calls with the descriptor fetched.  An argument that is not a number is taken for missing.
-/

open QNode.Engine Word

namespace QNode.Fs

/-- How a call ends before its first system call: with an exception, or in a write through a null
pointer. -/
inductive Refusal
  | throws (error : JsError)
  | crashes
  deriving DecidableEq, Repr

def defaultBufferSize : Nat := 16384

/-- The property `buffer` of an options object, with the size of an ArrayBuffer that is not detached. -/
inductive BufferProperty
  | undefined
  | arrayBuffer (size : Nat)
  | other

/-- The arguments of `read`. -/
inductive ReadArgs
  | missing
  | arrayBuffer (size : Nat) (offset length position : Option Int64)
  | options (buffer : BufferProperty) (offset length position : Option Int64)
  | other

/-- The arguments of `write`; a string comes as its UTF-8. -/
inductive WriteArgs
  | missing
  | string (text : List UInt8) (position : Option Int64)
  | arrayBuffer (bytes : List UInt8) (offset length position : Option Int64)
  | options (bytes : List UInt8)
  | other

/-- What a call transfers: `len` bytes at index `offset` of its buffer, from a position unless it is
negative. -/
structure ReadRequest where
  offset : Nat
  len : Nat
  position : Int
  deriving DecidableEq, Repr

structure WriteRequest where
  bytes : List UInt8
  position : Int
  deriving DecidableEq, Repr

def toInt64 (x : Int) : Int := Int.bmod x (2 ^ 64)

/-- `(int64_t)(buf_size - offset)` -/
def restLength (bufSize : Nat) (offset : Int) : Int := toInt64 (bufSize - offset)

def rangeFits (bufSize : Nat) (offset length : Int) : Bool :=
  ¬ (offset < 0 ∨ length < 0 ∨ sizeT (offset + length) > bufSize)

def numberOr (arg : Option Int64) (default : Int) : Int := (arg.map Int64.toInt).getD default

/-- The checks of `js_fs_fh_read` on the numbers of a call. -/
def readRange (bufSize : Nat) (offset length position : Option Int64) : Except Refusal ReadRequest :=
  let offset := numberOr offset 0
  let length := numberOr length (restLength bufSize offset)
  if rangeFits bufSize offset length then .ok ⟨offset.toNat, length.toNat, numberOr position (-1)⟩
  else .error (.throws (.rangeError "invalid offset/length"))

def jsFsFhReadRequest : ReadArgs → Except Refusal ReadRequest
  | .missing => .ok ⟨0, defaultBufferSize, -1⟩
  | .arrayBuffer size offset length position => readRange size offset length position
  | .options (.arrayBuffer size) offset length position => readRange size offset length position
  | .options .undefined offset length position => readRange defaultBufferSize offset length position
  | .options .other _ _ _ => .error (.throws (.typeError "invalid buffer"))
  | .other => .error (.throws (.typeError "argument must be ArrayBuffer or options"))

def jsFsFhWriteRequest : WriteArgs → Except Refusal WriteRequest
  | .missing => .error (.throws (.typeError "need buffer or string argument"))
  | .string text position => .ok ⟨text, numberOr position (-1)⟩
  | .arrayBuffer bytes offset length position =>
    let offset := numberOr offset 0
    let length := numberOr length (-1)
    let length := if length < 0 then restLength bytes.length offset else length
    if rangeFits bytes.length offset length then
      .ok ⟨(bytes.drop offset.toNat).take length.toNat, numberOr position (-1)⟩
    else .error (.throws (.rangeError "invalid offset/length"))
  -- an object in second place is asked for its ArrayBuffer with no place for the size
  | .options _ => .error .crashes
  | .other => .error (.throws (.typeError "argument must be string or ArrayBuffer"))

end QNode.Fs
