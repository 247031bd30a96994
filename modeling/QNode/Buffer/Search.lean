import QNode.Buffer.Methods

/-!
# Looking up text in a Buffer

The string branches of `byteLength` and `indexOf`.
-/

open QNode.Engine

namespace QNode.Buffer

/-- The string branch of `js_buffer_byteLength`. -/
def jsBufferByteLengthString (str : JsString) (enc : Option String) : Outcome Nat :=
  let encoding := getEncodingId enc
  let str := jsToCStringLen str
  if encoding = .utf8 ∨ encoding = .ascii ∨ encoding = .latin1 then .ok str.length
  else
    match jsBufferStringToBytes str encoding with
    | .ok (some bytes) => .ok bytes.length
    | .ok none => .throw (.typeError "failed to compute byte length")
    | .throw e => .throw e
    | .abort => .abort

/-- The search of `js_buffer_indexOf` for a needle of bytes. -/
def searchBytes (buf needle : List UInt8) (offset : Nat) : Int :=
  if needle.length = 0 then offset
  else if needle.length ≤ buf.length then
    match (List.range' offset (buf.length + 1 - needle.length - offset)).find? fun i ↦
        (buf.drop i).take needle.length = needle with
    | some i => i
    | none => -1
  else -1

/-- The string branch of `js_buffer_indexOf`, on the bytes of the Buffer. -/
def jsBufferIndexOfString (buf : List UInt8) (str : JsString) (offset : Int) (enc : Option String) :
    Outcome Int :=
  match jsBufferStringToBytes (jsToCStringLen str) (getEncodingId enc) with
  | .ok (some needle) => .ok (searchBytes buf needle (clampLow offset).toNat)
  | .ok none => .ok (-1)
  | .throw e => .throw e
  | .abort => .abort

end QNode.Buffer
