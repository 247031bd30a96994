import QNode.Buffer.Encoding
import QNode.Buffer.Heap
import QNode.Library.Words

/-!
# The Buffer methods that convert arguments

Each method fetches its pointers first, converts its arguments next and clamps them against the
lengths it fetched.  `Uint8Array` is the intrinsic constructor, so building a result Buffer runs no
user code.
-/

open QNode.Engine Word

namespace QNode.Buffer

/-- A C string ends at its first NUL. -/
def cString (bytes : List UInt8) : String :=
  String.ofList ((bytes.takeWhile (· ≠ 0)).map fun b ↦ Char.ofNat b.toNat)

def encodingOf : JsArg → Encoding
  | .string enc _ => getEncodingId (some (cString (jsToCStringLen enc)))
  | _ => .utf8

def clampLow (n : Int) : Int := if n < 0 then 0 else n

def clampHigh (n : Int) (len : Nat) : Int := if n > len then len else n

/-- A negative index counts from the end. -/
def fromEnd (n : Int) (len : Nat) : Int := if n < 0 then n + len else n

def jsBufferToString (heap : Heap) (this : JsArg) (argv : List JsArg) : Ran JsString :=
  let encoding := encodingOf (argAt argv 0)
  match jsBufferGetBytes heap this with
  | none => ⟨.throw (.typeError "not a Buffer"), heap, []⟩
  | some p =>
    let (start, heap) := jsToInt64Or heap (argAt argv 1) 0
    let (stop, heap) := jsToInt64Or heap (argAt argv 2) p.length
    let start := clampLow start
    let stop := clampHigh stop p.length
    if start ≥ stop then ⟨.ok [], heap, []⟩
    else
      let len := sizeT (stop - start)
      ⟨jsBufferBytesToString (p.read heap start.toNat len) encoding, heap,
        -- an unknown encoding is refused before a byte is read
        if encoding = .unknown then [] else [p.access heap start.toNat len]⟩

/-- The result is the content of the new Buffer, a block of its own that only this call writes. -/
def jsBufferSlice (heap : Heap) (this : JsArg) (argv : List JsArg) : Ran (List UInt8) :=
  match jsBufferGetBytes heap this with
  | none => ⟨.throw (.typeError "not a Buffer"), heap, []⟩
  | some src =>
    -- the second argument decides whether the first one is converted
    let (start, heap) :=
      if argv.length ≥ 1 ∧ ¬ (argAt argv 1).isUndefined then jsToInt64 heap (argAt argv 0)
      else (0, heap)
    let (stop, heap) := jsToInt64Or heap (argAt argv 1) src.length
    let start := clampLow (fromEnd start src.length)
    let stop := clampHigh (fromEnd stop src.length) src.length
    if start ≥ stop then ⟨.ok [], heap, []⟩
    else
      let sliceLen := sizeT (stop - start)
      ⟨.ok (src.read heap start.toNat sliceLen), heap, [src.access heap start.toNat sliceLen]⟩

def jsBufferWrite (heap : Heap) (this : JsArg) (argv : List JsArg) : Ran Int :=
  match argAt argv 0 with
  | .string text _ =>
    match jsBufferStringToBytes (jsToCStringLen text) (encodingOf (argAt argv 3)) with
    | .abort => ⟨.abort, heap, []⟩
    | .throw e => ⟨.throw e, heap, []⟩
    | .ok none => ⟨.throw (.typeError "encoding failed"), heap, []⟩
    | .ok (some bytes) =>
      match jsBufferGetBytes heap this with
      | none => ⟨.throw (.typeError "not a Buffer"), heap, []⟩
      | some dst =>
        let (offset, heap) := jsToInt64Or heap (argAt argv 1) 0
        let (length, heap) := jsToInt64Or heap (argAt argv 2) bytes.length
        if offset < 0 ∨ offset.toNat ≥ dst.length then ⟨.ok 0, heap, []⟩
        else
          let toWrite := if sizeT length < bytes.length then sizeT length else bytes.length
          -- strings are short enough for this sum not to wrap
          let toWrite :=
            if offset.toNat + toWrite > dst.length then dst.length - offset.toNat else toWrite
          ⟨.ok (int32 toWrite), dst.write heap offset.toNat (bytes.take toWrite),
            [dst.access heap offset.toNat toWrite]⟩
  | _ => ⟨.throw (.typeError "string required"), heap, []⟩

/-- The number of bytes `js_buffer_copy` passes to `memmove`, from clamped arguments. -/
def copyLen (tgtLen : Nat) (tgtStart srcStart srcEnd : Int) : Nat :=
  let copyLen := sizeT (srcEnd - srcStart)
  if sizeT (tgtStart + copyLen) > tgtLen then sizeT (tgtLen - tgtStart) else copyLen

/-- `js_buffer_copy` once the arguments are converted. -/
def copyRange (heap : Heap) (src tgt : View) (tgtStart srcStart srcEnd : Int) : Ran Int :=
  let srcStart := clampLow srcStart
  let srcEnd := clampHigh srcEnd src.length
  let tgtStart := clampLow tgtStart
  let len := copyLen tgt.length tgtStart srcStart srcEnd
  if len > 0 then
    ⟨.ok (int32 len), tgt.write heap tgtStart.toNat (src.read heap srcStart.toNat len),
      [src.access heap srcStart.toNat len, tgt.access heap tgtStart.toNat len]⟩
  else ⟨.ok (int32 len), heap, []⟩

def jsBufferCopy (heap : Heap) (this : JsArg) (argv : List JsArg) : Ran Int :=
  if argv.length < 1 then ⟨.throw (.typeError "target required"), heap, []⟩
  else
    match jsBufferGetBytes heap this, jsBufferGetBytes heap (argAt argv 0) with
    | some src, some tgt =>
      let (tgtStart, heap) := jsToInt64Or heap (argAt argv 1) 0
      let (srcStart, heap) := jsToInt64Or heap (argAt argv 2) 0
      let (srcEnd, heap) := jsToInt64Or heap (argAt argv 3) src.length
      copyRange heap src tgt tgtStart srcStart srcEnd
    | _, _ => ⟨.throw (.typeError "arguments must be Buffers"), heap, []⟩

/-- The loop of `readUInt` over the bytes in the order it visits them. -/
def joinBytes (bytes : List UInt8) : Nat :=
  bytes.foldl (fun val b ↦ ((val <<< 8) ||| b.toNat) % 2 ^ 64) 0

def jsBufferReadUInt (bits : Nat) (bigEndian : Bool) (heap : Heap) (this : JsArg)
    (argv : List JsArg) : Ran Int :=
  match jsBufferGetBytes heap this with
  | none => ⟨.throw (.typeError "not a Buffer"), heap, []⟩
  | some p =>
    let (offset, heap) := jsToInt64Or heap (argAt argv 0) 0
    let nbytes := bits / 8
    if offset < 0 ∨ sizeT (offset + nbytes) > p.length then
      ⟨.throw (.rangeError "out of range"), heap, []⟩
    else
      let bytes := p.read heap offset.toNat nbytes
      let val := joinBytes (if bigEndian then bytes else bytes.reverse)
      ⟨.ok (if bits ≤ 32 then int32 ((val &&& 0xFFFFFFFF : Nat)) else Int.bmod val (2 ^ 64)), heap,
        [p.access heap offset.toNat nbytes]⟩

/-- The low `n` bytes of a number, least significant first. -/
def splitBytes (uval n : Nat) : List UInt8 :=
  (List.range n).map fun i ↦ UInt8.ofNat ((uval >>> (8 * i)) &&& 0xFF)

def jsBufferWriteUInt (bits : Nat) (bigEndian : Bool) (heap : Heap) (this : JsArg)
    (argv : List JsArg) : Ran Unit :=
  match jsBufferGetBytes heap this with
  | none => ⟨.throw (.typeError "not a Buffer"), heap, []⟩
  | some p =>
    if argv.length < 2 then ⟨.throw (.typeError "need value and offset"), heap, []⟩
    else
      let (val, heap) := jsToInt64 heap (argAt argv 0)
      let (offset, heap) := jsToInt64 heap (argAt argv 1)
      let nbytes := bits / 8
      if offset < 0 ∨ sizeT (offset + nbytes) > p.length then
        ⟨.throw (.rangeError "out of range"), heap, []⟩
      else
        let bytes := splitBytes (sizeT val) nbytes
        ⟨.ok (), p.write heap offset.toNat (if bigEndian then bytes.reverse else bytes),
          [p.access heap offset.toNat nbytes]⟩

end QNode.Buffer
