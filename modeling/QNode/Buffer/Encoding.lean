import Mathlib.Data.List.DropRight
import QNode.Engine.Strings
import QNode.Engine.Values
import QNode.Library.Sextets

/-!
# Text encodings of a Buffer

Conversion between the bytes of a Buffer and JavaScript strings: UTF-8, hexadecimal and the two
base64 alphabets.  Text that C code works on is the list of its bytes.
-/

open QNode.Engine Sextets

namespace QNode.Buffer

inductive Encoding
  | utf8 | ascii | latin1 | hex | base64 | base64url | unknown
  deriving DecidableEq, Repr

def getEncodingId : Option String → Encoding
  | none => .utf8
  | some enc =>
    if enc = "utf8" ∨ enc = "utf-8" ∨ enc = "UTF8" ∨ enc = "UTF-8" then .utf8
    else if enc = "ascii" ∨ enc = "ASCII" then .ascii
    else if enc = "latin1" ∨ enc = "binary" ∨ enc = "Latin1" ∨ enc = "BINARY" then .latin1
    else if enc = "hex" ∨ enc = "HEX" then .hex
    else if enc = "base64" ∨ enc = "BASE64" then .base64
    else if enc = "base64url" ∨ enc = "BASE64URL" then .base64url
    else .unknown

def charCode (c : Char) : UInt8 := UInt8.ofNat c.toNat

def charCodes (s : String) : List UInt8 := s.toList.map charCode

/-! ## Base64 -/

def b64Table : List UInt8 :=
  charCodes "ABCDEFGHIJKLMNOPQRSTUVWXYZabcdefghijklmnopqrstuvwxyz0123456789+/"

def b64urlTable : List UInt8 :=
  charCodes "ABCDEFGHIJKLMNOPQRSTUVWXYZabcdefghijklmnopqrstuvwxyz0123456789-_"

def b64DecodeChar (c : UInt8) : Int :=
  if charCode 'A' ≤ c ∧ c ≤ charCode 'Z' then c.toNat - (charCode 'A').toNat
  else if charCode 'a' ≤ c ∧ c ≤ charCode 'z' then c.toNat - (charCode 'a').toNat + 26
  else if charCode '0' ≤ c ∧ c ≤ charCode '9' then c.toNat - (charCode '0').toNat + 52
  else if c = charCode '+' ∨ c = charCode '-' then 62
  else if c = charCode '/' ∨ c = charCode '_' then 63
  else -1

def pad : UInt8 := charCode '='

/-- One turn of the encoder's loop: `b` and `c` are absent past the end of the input. -/
def base64EncodeGroup (table : List UInt8) (a : UInt8) (b c : Option UInt8) : List UInt8 :=
  let triple := pack8 a.toNat (b.getD 0).toNat (c.getD 0).toNat
  [table.getD (sextet triple 18) 0, table.getD (sextet triple 12) 0,
    if b.isSome then table.getD (sextet triple 6) 0 else pad,
    if c.isSome then table.getD (sextet triple 0) 0 else pad]

def base64EncodeGroups (table : List UInt8) : List UInt8 → List UInt8
  | [] => []
  | [a] => base64EncodeGroup table a none none
  | [a, b] => base64EncodeGroup table a (some b) none
  | a :: b :: c :: src => base64EncodeGroup table a (some b) (some c) ++ base64EncodeGroups table src

def base64Table (urlSafe : Bool) : List UInt8 := if urlSafe then b64urlTable else b64Table

/-- The text `js_buffer_base64_encode` writes, without its terminating NUL. -/
def base64EncodeText (src : List UInt8) (urlSafe : Bool) : List UInt8 :=
  base64EncodeGroups (base64Table urlSafe) src

def jsBufferBase64Encode (src : List UInt8) (urlSafe : Bool) : Outcome JsString :=
  jsNewStringLen (base64EncodeText src urlSafe)

/-- One turn of the decoder's loop.  A missing third or fourth character counts as -1, which is
also the value of an invalid one. -/
def base64DecodeGroup (a : UInt8) (b c d : Option UInt8) : Option (List UInt8) :=
  let a := b64DecodeChar a
  let b := (b.map b64DecodeChar).getD 0
  let c := (c.map b64DecodeChar).getD (-1)
  let d := (d.map b64DecodeChar).getD (-1)
  if a < 0 ∨ b < 0 then none
  else
    let triple := pack6 a.toNat b.toNat (if c ≥ 0 then c.toNat else 0) (if d ≥ 0 then d.toNat else 0)
    some ([UInt8.ofNat (octet triple 16)] ++
      (if c ≥ 0 then [UInt8.ofNat (octet triple 8)] else []) ++
      (if d ≥ 0 then [UInt8.ofNat (octet triple 0)] else []))

def base64DecodeGroups : List UInt8 → Option (List UInt8)
  | [] => some []
  | [a] => base64DecodeGroup a none none none
  | [a, b] => base64DecodeGroup a (some b) none none
  | [a, b, c] => base64DecodeGroup a (some b) (some c) none
  | a :: b :: c :: d :: src => do
    let group ← base64DecodeGroup a (some b) (some c) (some d)
    let rest ← base64DecodeGroups src
    return group ++ rest

/-- `while (len > 0 && src[len - 1] == '=') len--` -/
def stripPadding (src : List UInt8) : List UInt8 := src.rdropWhile (· == pad)

/-- `js_buffer_base64_decode`; `ok none` is its NULL result. -/
def jsBufferBase64Decode (src : List UInt8) : Outcome (Option (List UInt8)) :=
  let src := stripPadding src
  let allocSize := (src.length * 3 + 3) / 4
  withBlock allocSize (.ok (base64DecodeGroups src))

/-! ## Hexadecimal -/

def hexChars : List UInt8 := charCodes "0123456789abcdef"

def hexEncodeText (src : List UInt8) : List UInt8 :=
  src.flatMap fun b =>
    [hexChars.getD ((b.toNat >>> 4) &&& 0xF) 0, hexChars.getD (b.toNat &&& 0xF) 0]

def jsBufferHexEncode (src : List UInt8) : Outcome JsString := jsNewStringLen (hexEncodeText src)

def hexDigit (ch : UInt8) : Option Nat :=
  if charCode '0' ≤ ch ∧ ch ≤ charCode '9' then some (ch.toNat - (charCode '0').toNat)
  else if charCode 'a' ≤ ch ∧ ch ≤ charCode 'f' then some (ch.toNat - (charCode 'a').toNat + 10)
  else if charCode 'A' ≤ ch ∧ ch ≤ charCode 'F' then some (ch.toNat - (charCode 'A').toNat + 10)
  else none

def hexDecodePairs : List UInt8 → Option (List UInt8)
  | a :: b :: src => do
    let hi ← hexDigit a
    let lo ← hexDigit b
    let rest ← hexDecodePairs src
    return UInt8.ofNat ((hi <<< 4) ||| lo) :: rest
  | _ => some []

def jsBufferHexDecode (src : List UInt8) : Outcome (Option (List UInt8)) :=
  if src.length % 2 ≠ 0 then .ok none
  else withBlock (src.length / 2) (.ok (hexDecodePairs src))

/-! ## Strings and bytes -/

def jsBufferStringToBytes (str : List UInt8) : Encoding → Outcome (Option (List UInt8))
  | .utf8 | .ascii | .latin1 => withBlock str.length (.ok (some str))
  | .hex => jsBufferHexDecode str
  | .base64 | .base64url => jsBufferBase64Decode str
  | .unknown => .ok none

def jsBufferBytesToString (buf : List UInt8) : Encoding → Outcome JsString
  | .utf8 | .ascii | .latin1 => jsNewStringLen buf
  | .hex => jsBufferHexEncode buf
  | .base64 => jsBufferBase64Encode buf false
  | .base64url => jsBufferBase64Encode buf true
  | .unknown => .throw (.typeError "unsupported encoding")

/-- The string branch of `js_buffer_from`: the content of the new Buffer. -/
def jsBufferFromString (str : JsString) (enc : Option String) : Outcome (List UInt8) :=
  match jsBufferStringToBytes (jsToCStringLen str) (getEncodingId enc) with
  | .ok (some bytes) => .ok bytes
  | .ok none => .throw (.typeError "failed to decode string")
  | .throw e => .throw e
  | .abort => .abort

end QNode.Buffer
