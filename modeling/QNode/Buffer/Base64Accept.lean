import Mathlib.Data.List.Basic
import QNode.Buffer.Base64
import QNode.Buffer.Search
import QNode.Engine.Utf8
import QNode.Library.Bits

/-!
# What the base64 decoder accepts

The decoder looks for invalid characters in the first two places of a group of four only: in the
other two an invalid character counts as a missing one.
-/

open QNode.Engine Sextets Bits

namespace QNode.Buffer

/-- The codes of the characters in the two alphabets. -/
def base64Alphabet : List Nat := (b64Table ++ b64urlTable).map UInt8.toNat

/-- The place of a character in its alphabet. -/
def sextetValue (code : Nat) : Nat := base64Alphabet.idxOf code % 64

/-- The bytes of a text in base64, `none` for any other text. -/
def decodedBase64 (s : JsString) : Option (List UInt8) :=
  let text := s.rdropWhile (· == pad.toUInt16)
  if (∀ code ∈ text.map UInt16.toNat, code ∈ base64Alphabet) ∧ text.length % 4 ≠ 1 then
    some (bytes (text.flatMap fun c ↦ bits 6 (sextetValue c.toNat)))
  else none

/-- The decoder, and with it every function that calls it, reads a text as base64. -/
structure ReadsBase64 (urlSafe : Bool) (s : JsString) : Prop where
  decoder : jsBufferStringToBytes (jsToCStringLen s) (getEncodingId (some (base64Name urlSafe))) =
    .ok (decodedBase64 s)
  from_iff : ∀ b, jsBufferFromString s (some (base64Name urlSafe)) = .ok b ↔
    decodedBase64 s = some b
  byteLength_iff : ∀ n, jsBufferByteLengthString s (some (base64Name urlSafe)) = .ok n ↔
    ∃ b, decodedBase64 s = some b ∧ b.length = n
  write_iff : ∀ heap this argv enc parsed parsedEnc,
    encodingOf (.string enc parsedEnc) = getEncodingId (some (base64Name urlSafe)) →
    argAt argv 3 = .string enc parsedEnc → argAt argv 0 = .string s parsed →
    ((jsBufferWrite heap this argv).result = .throw (.typeError "encoding failed") ↔
      decodedBase64 s = none)
  indexOf_eq : ∀ buf offset, jsBufferIndexOfString buf s offset (some (base64Name urlSafe)) =
    .ok (match decodedBase64 s with
      | some b => searchBytes buf b (clampLow offset).toNat
      | none => -1)

/-- Some character in the first or second place of a group is in neither alphabet. -/
def Misplaced (text : List UInt8) : Prop :=
  ∃ i c, i % 4 < 2 ∧ text[i]? = some c ∧ c.toNat ∉ base64Alphabet

/-- The texts that the decoder gets right. -/
def Base64Clear (s : JsString) : Prop :=
  let text := stripPadding (jsToCStringLen s)
  text ≠ [] ∧
    ((∀ c ∈ text, c.toNat ∈ base64Alphabet) ∧ text.length % 4 ≠ 1 ∨ Misplaced text)

/-! ## Characters -/

set_option maxRecDepth 4096 in
theorem base64Alphabet_eq : base64Alphabet =
    (List.range' 65 26 ++ List.range' 97 26 ++ List.range' 48 10 ++ [43, 47] ++
      (List.range' 65 26 ++ List.range' 97 26 ++ List.range' 48 10 ++ [45, 95])) := by
  decide +kernel

theorem b64DecodeChar_neg_iff (c : UInt8) : b64DecodeChar c < 0 ↔ c.toNat ∉ base64Alphabet := by
  rw [base64Alphabet_eq]
  revert c
  apply forall_byte
  decide +kernel

theorem b64DecodeChar_eq (c : UInt8) (h : c.toNat ∈ base64Alphabet) :
    b64DecodeChar c = sextetValue c.toNat := by
  unfold sextetValue
  rw [base64Alphabet_eq] at h ⊢
  revert c
  apply forall_byte
  decide +kernel

theorem sextetValue_lt (code : Nat) : sextetValue code < 64 := Nat.mod_lt _ (by decide)

/-! ## Groups -/

theorem base64DecodeGroup_none_iff (a : UInt8) (b c d : Option UInt8) :
    base64DecodeGroup a b c d = none ↔
      a.toNat ∉ base64Alphabet ∨ ∃ b' ∈ b, b'.toNat ∉ base64Alphabet := by
  have hb : (b.map b64DecodeChar).getD 0 < 0 ↔ ∃ b' ∈ b, b'.toNat ∉ base64Alphabet := by
    cases b with
    | none => simp
    | some b => simp [b64DecodeChar_neg_iff]
  rw [← hb, ← b64DecodeChar_neg_iff, base64DecodeGroup]
  split
  next hneg => simp [hneg]
  next hneg => simp [hneg]

/-- The bits of a text in base64. -/
def sextetBits (text : List UInt8) : List Bool := text.flatMap fun c ↦ bits 6 (sextetValue c.toNat)

theorem sextetBits_cons (c : UInt8) (text : List UInt8) :
    sextetBits (c :: text) = bits 6 (sextetValue c.toNat) ++ sextetBits text :=
  List.flatMap_cons

section Group

variable {a b c d : UInt8} (ha : a.toNat ∈ base64Alphabet) (hb : b.toNat ∈ base64Alphabet)
  (hc : c.toNat ∈ base64Alphabet)

include ha hb in
-- The last four bits of a group of two are dropped.
theorem base64DecodeGroup_sextets_two :
    base64DecodeGroup a (some b) none none = some (bytes (sextetBits [a, b])) := by
  have hy := sextetValue_lt b.toNat
  rw [base64DecodeGroup_two (b64DecodeChar_eq a ha) (b64DecodeChar_eq b hb), ofNat_octet,
    pack6_eq hy (by decide) (by decide)]
  have hbits : sextetBits [a, b] =
      bits (8 + 4) (sextetValue a.toNat * 2 ^ 6 + sextetValue b.toNat) ++ [] := by
    rw [bits_concat (m := 6) (n := 6) hy, sextetBits_cons, sextetBits_cons, List.append_assoc]
    rfl
  have hbyte : (sextetValue a.toNat * 262144 + sextetValue b.toNat * 4096 + 0 * 64 + 0) / 2 ^ 16 =
      (sextetValue a.toNat * 2 ^ 6 + sextetValue b.toNat) / 2 ^ 4 := by
    omega
  rw [hbits, bytes_bits_add, bytes_short (by simp), hbyte]

include ha hb hc in
-- Of a group of three the last two bits are dropped.
theorem base64DecodeGroup_sextets_three :
    base64DecodeGroup a (some b) (some c) none = some (bytes (sextetBits [a, b, c])) := by
  have hy := sextetValue_lt b.toNat
  have hz := sextetValue_lt c.toNat
  rw [base64DecodeGroup_three (b64DecodeChar_eq a ha) (b64DecodeChar_eq b hb)
    (b64DecodeChar_eq c hc), ofNat_octet, ofNat_octet, pack6_eq hy hz (by decide)]
  have hbits : sextetBits [a, b, c] =
      bits (8 + (8 + 2)) ((sextetValue a.toNat * 2 ^ 6 + sextetValue b.toNat) * 2 ^ 6 +
        sextetValue c.toNat) ++ [] := by
    rw [bits_concat (m := 12) (n := 6) hz, bits_concat (m := 6) (n := 6) hy, sextetBits_cons,
      sextetBits_cons, sextetBits_cons, List.append_assoc, List.append_assoc]
    rfl
  have hbyte : ∀ k, (sextetValue a.toNat * 262144 + sextetValue b.toNat * 4096 +
      sextetValue c.toNat * 64 + 0) / 2 ^ (k + 6) =
        ((sextetValue a.toNat * 2 ^ 6 + sextetValue b.toNat) * 2 ^ 6 + sextetValue c.toNat) / 2 ^ k := by
    intro k
    rw [Nat.pow_add, Nat.mul_comm (2 ^ k), ← Nat.div_div_eq_div_mul]
    congr 1
    omega
  rw [hbits, bytes_bits_add, bytes_bits_add, bytes_short (by simp), hbyte 10, hbyte 2]

include ha hb hc in
-- A full group fills three bytes, whatever comes after it.
theorem base64DecodeGroup_sextets (hd : d.toNat ∈ base64Alphabet) (text : List UInt8) :
    (base64DecodeGroup a (some b) (some c) (some d)).map (· ++ bytes (sextetBits text)) =
      some (bytes (sextetBits (a :: b :: c :: d :: text))) := by
  rw [base64DecodeGroup_full (b64DecodeChar_eq a ha) (b64DecodeChar_eq b hb)
    (b64DecodeChar_eq c hc) (b64DecodeChar_eq d hd), Option.map_some, ← bytes_word,
    bits_pack6 (sextetValue_lt _) (sextetValue_lt _) (sextetValue_lt _), sextetBits_cons,
    sextetBits_cons, sextetBits_cons, sextetBits_cons]
  simp only [List.append_assoc]

end Group

/-! ## Texts without padding -/

theorem misplaced_group {a b c d : UInt8} {text : List UInt8} :
    Misplaced (a :: b :: c :: d :: text) ↔
      (a.toNat ∉ base64Alphabet ∨ b.toNat ∉ base64Alphabet) ∨ Misplaced text := by
  constructor
  · rintro ⟨i, x, hi, hx, hbad⟩
    match i with
    | 0 =>
      obtain rfl : a = x := by simpa using hx
      exact .inl (.inl hbad)
    | 1 =>
      obtain rfl : b = x := by simpa using hx
      exact .inl (.inr hbad)
    | i + 4 => exact .inr ⟨i, x, by omega, by simpa using hx, hbad⟩
  · rintro ((hbad | hbad) | ⟨i, x, hi, hx, hbad⟩)
    · exact ⟨0, a, by decide, rfl, hbad⟩
    · exact ⟨1, b, by decide, rfl, hbad⟩
    · exact ⟨i + 4, x, by omega, by simpa using hx, hbad⟩

-- In the last group the first two places are all that count.
theorem misplaced_short {text : List UInt8} (h : text.length ≤ 3) :
    Misplaced text ↔ ∃ c ∈ text.take 2, c.toNat ∉ base64Alphabet := by
  constructor
  · rintro ⟨i, c, hi, hc, hbad⟩
    have hlt := (List.getElem?_eq_some_iff.mp hc).1
    refine ⟨c, ?_, hbad⟩
    apply List.mem_of_getElem? (i := i)
    rw [List.getElem?_take_of_lt (by omega), hc]
  · rintro ⟨c, hc, hbad⟩
    obtain ⟨i, hi⟩ := List.getElem?_of_mem hc
    have hlt := (List.getElem?_eq_some_iff.mp hi).1
    rw [List.length_take] at hlt
    rw [List.getElem?_take_of_lt (by omega)] at hi
    exact ⟨i, c, by omega, hi, hbad⟩

-- The decoder rejects a text for a character in the first two places of a group, and only so.
theorem base64DecodeGroups_none_iff (text : List UInt8) :
    base64DecodeGroups text = none ↔ Misplaced text := by
  fun_induction base64DecodeGroups text with
  | case1 => simp [misplaced_short]
  | case2 a => simp [misplaced_short, base64DecodeGroup_none_iff]
  | case3 a b => simp [misplaced_short, base64DecodeGroup_none_iff]
  | case4 a b c => simp [misplaced_short, base64DecodeGroup_none_iff]
  | case5 a b c d text ih =>
    rw [misplaced_group, ← ih]
    have hgroup := base64DecodeGroup_none_iff a (some b) (some c) (some d)
    rw [show (∃ b' ∈ some b, b'.toNat ∉ base64Alphabet) ↔ b.toNat ∉ base64Alphabet by simp] at hgroup
    rw [← hgroup]
    cases base64DecodeGroup a (some b) (some c) (some d) with
    | none => simp
    | some group => cases base64DecodeGroups text <;> simp

theorem base64DecodeGroups_valid {text : List UInt8} (h : ∀ c ∈ text, c.toNat ∈ base64Alphabet)
    (hlen : text.length % 4 ≠ 1) : base64DecodeGroups text = some (bytes (sextetBits text)) := by
  fun_induction base64DecodeGroups text with
  | case1 => rfl
  | case2 a => simp at hlen
  | case3 a b =>
    apply base64DecodeGroup_sextets_two
    · simp [h]
    · simp [h]
  | case4 a b c =>
    apply base64DecodeGroup_sextets_three
    · simp [h]
    · simp [h]
    · simp [h]
  | case5 a b c d text ih =>
    have hshorter : text.length % 4 ≠ 1 := by
      simp only [List.length_cons] at hlen
      omega
    rw [ih (fun x hx ↦ h x (by simp [hx])) hshorter,
      ← base64DecodeGroup_sextets (h a (by simp)) (h b (by simp)) (h c (by simp)) (h d (by simp))]
    cases base64DecodeGroup a (some b) (some c) (some d) <;> rfl

/-! ## Strings -/

/-- What the bytes of a text without padding stand for. -/
def decodedBytes (text : List UInt8) : Option (List UInt8) :=
  if (∀ code ∈ text.map UInt8.toNat, code ∈ base64Alphabet) ∧ text.length % 4 ≠ 1 then
    some (bytes (sextetBits text))
  else none

theorem decodedBytes_none {text : List UInt8} {c : UInt8} (hc : c ∈ text)
    (hbad : c.toNat ∉ base64Alphabet) : decodedBytes text = none :=
  if_neg fun hclear ↦ hbad (hclear.1 _ (List.mem_map_of_mem hc))

-- What is not stripped stays.
theorem mem_rdropWhile {α : Type} {p : α → Bool} {x : α} {l : List α} (hx : x ∈ l)
    (hp : p x = false) : x ∈ l.rdropWhile p := by
  rw [← List.rdropWhile_append_rtakeWhile (p := p) (l := l)] at hx
  rcases List.mem_append.mp hx with hkept | hdropped
  · exact hkept
  · exact absurd (hp.symm.trans (List.mem_rtakeWhile_imp hdropped)) Bool.false_ne_true

set_option maxRecDepth 4096 in
theorem base64Alphabet_ascii : ∀ code ∈ base64Alphabet, code < 128 := by
  rw [base64Alphabet_eq]
  decide

theorem rdropWhile_map {α β : Type} (f : α → β) (p : β → Bool) (l : List α) :
    (l.map f).rdropWhile p = (l.rdropWhile (p ∘ f)).map f := by
  rw [List.rdropWhile, List.rdropWhile, ← List.map_reverse, List.dropWhile_map, List.map_reverse]

theorem decodedBase64_ascii (p : List UInt8) :
    decodedBase64 (p.map UInt8.toUInt16) = decodedBytes (stripPadding p) := by
  have hpad : ((· == pad.toUInt16) ∘ UInt8.toUInt16) = (· == pad) := by
    funext c
    apply Bool.eq_iff_iff.mpr
    simp [← UInt16.toNat_inj, ← UInt8.toNat_inj]
  rw [decodedBase64, rdropWhile_map, hpad, decodedBytes, stripPadding, sextetBits]
  simp only [List.forall_mem_map, UInt8.toNat_toUInt16, List.length_map, List.flatMap_map]

-- The decoder works on UTF-8, and outside ASCII there is no base64.
theorem decodedBase64_eq (s : JsString) :
    decodedBase64 s = decodedBytes (stripPadding (jsToCStringLen s)) := by
  by_cases hascii : Ascii (jsToCStringLen s)
  · rw [← decodedBase64_ascii, ← eq_map_of_ascii hascii]
  · have hbyte : ∃ b ∈ jsToCStringLen s, ¬ b < 128 := by
      simpa [Ascii] using hascii
    have hunit : ∃ c ∈ s, ¬ c.toNat < 128 := by
      by_contra hall
      apply hascii
      apply ascii_jsToCStringLen
      simpa using hall
    obtain ⟨b, hb, hblarge⟩ := hbyte
    obtain ⟨c, hc, hclarge⟩ := hunit
    have hbpad : (b == pad) = false := by
      apply beq_false_of_ne
      rintro rfl
      exact hblarge (by decide)
    have hcpad : (c == pad.toUInt16) = false := by
      apply beq_false_of_ne
      rintro rfl
      exact hclarge (by decide)
    have hstays : b ∈ stripPadding (jsToCStringLen s) := mem_rdropWhile (p := (· == pad)) hb hbpad
    have hkept : c ∈ s.rdropWhile (· == pad.toUInt16) := mem_rdropWhile hc hcpad
    rw [decodedBytes_none hstays fun h ↦ hblarge (base64Alphabet_ascii _ h), decodedBase64]
    apply if_neg
    rintro ⟨hclear, -⟩
    exact hclarge (base64Alphabet_ascii _ (hclear _ (List.mem_map_of_mem hkept)))

-- The decoder against its purpose, on a text without padding.
theorem base64DecodeGroups_eq_iff (text : List UInt8) :
    base64DecodeGroups text = decodedBytes text ↔
      (∀ c ∈ text, c.toNat ∈ base64Alphabet) ∧ text.length % 4 ≠ 1 ∨ Misplaced text := by
  by_cases hclear : (∀ c ∈ text, c.toNat ∈ base64Alphabet) ∧ text.length % 4 ≠ 1
  · rw [base64DecodeGroups_valid hclear.1 hclear.2, decodedBytes,
      if_pos (hclear.imp_left List.forall_mem_map.mpr)]
    exact iff_of_true rfl (.inl hclear)
  · rw [decodedBytes, if_neg (hclear ∘ And.imp_left List.forall_mem_map.mp),
      base64DecodeGroups_none_iff, or_iff_right hclear]

/-! ## The decoder and its callers -/

theorem jsBufferStringToBytes_base64 (urlSafe : Bool) (str : List UInt8) :
    jsBufferStringToBytes str (getEncodingId (some (base64Name urlSafe))) =
      jsBufferBase64Decode str := by
  cases urlSafe with
  | false => rfl
  | true => rfl

theorem jsBufferBase64Decode_eq_iff (s : JsString) :
    jsBufferBase64Decode (jsToCStringLen s) = .ok (decodedBase64 s) ↔ Base64Clear s := by
  rw [decodedBase64_eq, jsBufferBase64Decode, Base64Clear, ← base64DecodeGroups_eq_iff, withBlock]
  by_cases hempty : stripPadding (jsToCStringLen s) = []
  · simp [hempty]
  · have hpos := List.length_pos_iff.mpr hempty
    rw [if_neg (by omega), Outcome.ok.injEq, and_iff_right hempty]

-- What a caller makes of the decoder's result shows whether the result is right.
theorem ReadsBase64.of_decoder {urlSafe : Bool} {s : JsString}
    (h : jsBufferStringToBytes (jsToCStringLen s) (getEncodingId (some (base64Name urlSafe))) =
      .ok (decodedBase64 s)) : ReadsBase64 urlSafe s where
  decoder := h
  from_iff b := by
    rw [jsBufferFromString, h]
    cases decodedBase64 s <;> simp
  byteLength_iff n := by
    have hcoded : ∀ u, ¬ (getEncodingId (some (base64Name u)) = .utf8 ∨
        getEncodingId (some (base64Name u)) = .ascii ∨
        getEncodingId (some (base64Name u)) = .latin1) := by
      decide
    rw [jsBufferByteLengthString, if_neg (hcoded urlSafe), h]
    cases decodedBase64 s <;> simp
  write_iff heap this argv enc parsed parsedEnc henc hargEnc hargText := by
    rw [jsBufferWrite, hargText]
    dsimp only
    rw [hargEnc, henc, h]
    cases decodedBase64 s with
    | none => simp
    | some b =>
      dsimp only
      cases jsBufferGetBytes heap this with
      | none => simp
      | some dst =>
        dsimp only
        split <;> simp
  indexOf_eq buf offset := by
    rw [jsBufferIndexOfString, h]
    cases decodedBase64 s <;> rfl

/-- Text is read as base64 says precisely if it is not empty apart from its padding and is either
valid, or invalid in the first or second place of some group of four. -/
theorem readsBase64_iff (urlSafe : Bool) (s : JsString) : ReadsBase64 urlSafe s ↔ Base64Clear s := by
  rw [← jsBufferBase64Decode_eq_iff, ← jsBufferStringToBytes_base64 urlSafe]
  constructor
  · intro h
    exact h.decoder
  · intro h
    exact .of_decoder h

/-- `SG?s` is decoded, to two bytes. -/
theorem base64_invalid_accepted : ¬ ∀ urlSafe s, ReadsBase64 urlSafe s := by
  intro h
  have hdecoded := (h false ([83, 71, 63, 115] : JsString)).decoder
  revert hdecoded
  decide +kernel

end QNode.Buffer
