import Mathlib.Algebra.Group.Nat.Defs
import Mathlib.Data.List.TakeWhile
import QNode.Engine.Values

/-!
# JavaScript strings and UTF-8 text

A JavaScript string is the list of its UTF-16 code units.  The engine builds one from UTF-8 bytes
and hands one to C code as UTF-8 bytes.  Malformed input is replaced and unpaired surrogates are
kept, so only the length of a string can make a conversion fail.
-/

namespace QNode.Engine

abbrev JsString := List UInt16

/-- `unicode_to_utf8`, for code points below `2^31`. -/
def unicodeToUtf8 (c : Nat) : List UInt8 :=
  let tail (k : Nat) : UInt8 := UInt8.ofNat (((c >>> k) &&& 0x3f) ||| 0x80)
  if c < 0x80 then [UInt8.ofNat c]
  else if c < 0x800 then [UInt8.ofNat ((c >>> 6) ||| 0xc0), tail 0]
  else if c < 0x10000 then [UInt8.ofNat ((c >>> 12) ||| 0xe0), tail 6, tail 0]
  else if c < 0x00200000 then [UInt8.ofNat ((c >>> 18) ||| 0xf0), tail 12, tail 6, tail 0]
  else if c < 0x04000000 then
    [UInt8.ofNat ((c >>> 24) ||| 0xf8), tail 18, tail 12, tail 6, tail 0]
  else [UInt8.ofNat ((c >>> 30) ||| 0xfc), tail 24, tail 18, tail 12, tail 6, tail 0]

def isHiSurrogate (c : UInt16) : Bool := c.toNat >>> 10 == 0xD800 >>> 10

def isLoSurrogate (c : UInt16) : Bool := c.toNat >>> 10 == 0xDC00 >>> 10

def fromSurrogate (hi lo : UInt16) : Nat :=
  0x10000 + 0x400 * (hi.toNat - 0xD800) + (lo.toNat - 0xDC00)

/-- `JS_ToCStringLen`: the bytes C code sees.  An unmatched surrogate is encoded as it stands. -/
def jsToCStringLen : JsString → List UInt8
  | [] => []
  | [c] => unicodeToUtf8 c.toNat
  | c :: c1 :: rest =>
    if isHiSurrogate c && isLoSurrogate c1 then
      unicodeToUtf8 (fromSurrogate c c1) ++ jsToCStringLen rest
    else unicodeToUtf8 c.toNat ++ jsToCStringLen (c1 :: rest)

/-- The number of continuation bytes, the mask of the first byte and the least code point that a
first byte announces. -/
def utf8Form (c : UInt8) : Option (Nat × Nat × Nat) :=
  if 0xc0 ≤ c ∧ c ≤ 0xdf then some (1, 0x1f, 0x80)
  else if 0xe0 ≤ c ∧ c ≤ 0xef then some (2, 0xf, 0x800)
  else if 0xf0 ≤ c ∧ c ≤ 0xf7 then some (3, 0x7, 0x10000)
  else if 0xf8 ≤ c ∧ c ≤ 0xfb then some (4, 0x3, 0x00200000)
  else if 0xfc ≤ c ∧ c ≤ 0xfd then some (5, 0x1, 0x04000000)
  else none

def isContinuation (b : UInt8) : Bool := 0x80 ≤ b && b < 0xc0

/-- `unicode_from_utf8`: a code point and the bytes after it, `none` for the error code -1. -/
def unicodeFromUtf8 : List UInt8 → Option (Nat × List UInt8)
  | [] => none
  | c :: p =>
    if c < 0x80 then some (c.toNat, p)
    else do
      let (l, mask, min) ← utf8Form c
      if p.length < l then none
      else if (p.take l).all isContinuation then
        let code := (p.take l).foldl (fun acc b => (acc <<< 6) ||| (b.toNat &&& 0x3f))
          (c.toNat &&& mask)
        if code < min then none else some (code, p.drop l)
      else none

/-- What `JS_NewStringLen` skips after a malformed sequence: stray continuation bytes, and one more
byte with the continuation bytes that follow it. -/
def skipInvalid (p : List UInt8) : List UInt8 :=
  ((p.dropWhile isContinuation).drop 1).dropWhile isContinuation

def newStringFrom : Nat → List UInt8 → JsString
  | 0, _ => []
  | _, [] => []
  | n + 1, b :: p =>
    if b < 128 then b.toUInt16 :: newStringFrom n p
    else match unicodeFromUtf8 (b :: p) with
      | some (c, next) =>
        if c < 0x10000 then UInt16.ofNat c :: newStringFrom n next
        else if c ≤ 0x10FFFF then
          UInt16.ofNat ((c >>> 10) - (0x10000 >>> 10) + 0xD800) ::
            UInt16.ofNat ((c &&& 0x3FF) ||| 0xDC00) :: newStringFrom n next
        else 0xfffd :: newStringFrom n (skipInvalid (b :: p))
      | none => 0xfffd :: newStringFrom n (skipInvalid (b :: p))

def jsStringLenMax : Nat := 2 ^ 30 - 1

def countAscii (p : List UInt8) : Nat := (p.takeWhile (· < 128)).length

/-- Every turn of the loop consumes a byte, so the length is enough fuel. -/
def jsNewStringLen (p : List UInt8) : Outcome JsString :=
  if countAscii p > jsStringLenMax then .throw (.internalError "string too long")
  else .ok (newStringFrom p.length p)

theorem jsNewStringLen_eq_ok {p : List UInt8} {s : JsString} :
    jsNewStringLen p = .ok s ↔ countAscii p ≤ jsStringLenMax ∧ newStringFrom p.length p = s := by
  unfold jsNewStringLen
  by_cases hlong : countAscii p > jsStringLenMax
  · rw [if_pos hlong]
    exact iff_of_false (fun h ↦ nomatch h) fun h ↦ absurd h.1 (Nat.not_le_of_lt hlong)
  · rw [if_neg hlong, Outcome.ok.injEq]
    exact (and_iff_right (Nat.le_of_not_lt hlong)).symm

/-! ## ASCII text -/

def Ascii (p : List UInt8) : Prop := ∀ b ∈ p, b < 128

theorem newStringFrom_ascii {p : List UInt8} (h : Ascii p) {n : Nat} (hn : p.length ≤ n) :
    newStringFrom n p = p.map UInt8.toUInt16 := by
  induction p generalizing n with
  | nil => cases n <;> rfl
  | cons b p ih =>
    cases n with
    | zero => simp at hn
    | succ n =>
      rw [newStringFrom, if_pos (h b List.mem_cons_self), List.map_cons,
        ih (fun c hc ↦ h c (List.mem_cons_of_mem b hc)) (by simpa using hn)]

theorem countAscii_ascii {p : List UInt8} (h : Ascii p) : countAscii p = p.length := by
  rw [countAscii, List.takeWhile_eq_self_iff.mpr fun b hb ↦ decide_eq_true (h b hb)]

theorem jsNewStringLen_ascii {p : List UInt8} (h : Ascii p) (hlen : p.length ≤ jsStringLenMax) :
    jsNewStringLen p = .ok (p.map UInt8.toUInt16) := by
  rw [jsNewStringLen, countAscii_ascii h, if_neg (Nat.not_lt.mpr hlen),
    newStringFrom_ascii h (Nat.le_refl _)]

theorem jsNewStringLen_ascii_long {p : List UInt8} (h : Ascii p) (hlen : jsStringLenMax < p.length) :
    jsNewStringLen p = .throw (.internalError "string too long") := by
  rw [jsNewStringLen, countAscii_ascii h, if_pos hlen]

theorem unicodeToUtf8_ascii {b : UInt8} (h : b < 128) :
    unicodeToUtf8 b.toUInt16.toNat = [b] := by
  have hb : b.toNat < 0x80 := h
  rw [UInt8.toNat_toUInt16, unicodeToUtf8]
  simp only [hb, if_true, UInt8.ofNat_toNat]

theorem isHiSurrogate_ascii {b : UInt8} : isHiSurrogate b.toUInt16 = false := by
  have hb := b.toNat_lt
  have hshift : b.toNat >>> 10 = 0 := by
    rw [Nat.shiftRight_eq_div_pow]
    omega
  rw [isHiSurrogate, UInt8.toNat_toUInt16, hshift]
  rfl

-- C code reads ASCII text back byte for byte.
theorem jsToCStringLen_ascii {p : List UInt8} (h : Ascii p) :
    jsToCStringLen (p.map UInt8.toUInt16) = p := by
  induction p with
  | nil => rfl
  | cons b p ih =>
    have hb := unicodeToUtf8_ascii (h b List.mem_cons_self)
    cases p with
    | nil => rw [List.map_cons, List.map_nil, jsToCStringLen, hb]
    | cons c p =>
      have hrest := ih fun x hx ↦ h x (List.mem_cons_of_mem b hx)
      rw [List.map_cons] at hrest
      rw [List.map_cons, List.map_cons, jsToCStringLen, isHiSurrogate_ascii, Bool.false_and,
        if_neg Bool.false_ne_true, hb, hrest]
      rfl

end QNode.Engine
