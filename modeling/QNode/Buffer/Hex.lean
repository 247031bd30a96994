import QNode.Buffer.Subarray
import QNode.Engine.Utf8
import QNode.Library.Bits

/-!
# Hexadecimal text

The decoder accepts pairs of digits in either case, the encoder writes lower case.  Both directions
of the round trip go pair by pair.
-/

open QNode.Engine Bits

namespace QNode.Buffer

/-- The codes of the hexadecimal digits in either case. -/
def hexAlphabet : List Nat := "0123456789abcdefABCDEF".toList.map Char.toNat

/-- `toLowerCase` of a string of ASCII characters. -/
def toLowerCase (s : JsString) : JsString := s.map fun c ↦ if 65 ≤ c ∧ c ≤ 90 then c + 32 else c

/-! ## Digits -/

theorem hexAlphabet_eq :
    hexAlphabet = List.range' 48 10 ++ List.range' 97 6 ++ List.range' 65 6 := by
  decide

theorem hexDigit_isSome_iff (c : UInt8) : (hexDigit c).isSome ↔ c.toNat ∈ hexAlphabet := by
  rw [hexAlphabet_eq]
  revert c
  apply forall_byte
  decide +kernel

theorem hexAlphabet_ascii {c : UInt8} (h : c.toNat ∈ hexAlphabet) : c < 128 := by
  rw [hexAlphabet_eq] at h
  revert c
  apply forall_byte
  decide +kernel

theorem hexDigit_hexChars {v : Nat} (hv : v < 16) : hexDigit (hexChars.getD v 0) = some v := by
  have hall : ∀ i : Fin 16, hexDigit (hexChars.getD i 0) = some (i : Nat) := by
    decide
  exact hall ⟨v, hv⟩

theorem hexChars_mem {v : Nat} (hv : v < 16) : hexChars.getD v 0 < 128 := by
  have hall : ∀ i : Fin 16, hexChars.getD i 0 < 128 := by
    decide
  exact hall ⟨v, hv⟩

-- The digit of a value is the lower-case form of any digit with that value.
theorem hexChars_hexDigit {c : UInt8} {v : Nat} (h : hexDigit c = some v) :
    v < 16 ∧ [(hexChars.getD v 0).toUInt16] = toLowerCase [c.toUInt16] := by
  have hall : ∀ c : UInt8, ∀ v ∈ hexDigit c,
      v < 16 ∧ [(hexChars.getD v 0).toUInt16] = toLowerCase [c.toUInt16] := by
    apply forall_byte
    decide +kernel
  exact hall c v h

/-! ## Pairs -/

theorem high_lt (b : UInt8) : (b.toNat >>> 4) &&& 0xF < 16 := by
  rw [show 0xF = 2 ^ 4 - 1 from rfl, Nat.and_two_pow_sub_one_eq_mod]
  exact Nat.mod_lt _ (by decide)

theorem low_lt (b : UInt8) : b.toNat &&& 0xF < 16 := by
  rw [show 0xF = 2 ^ 4 - 1 from rfl, Nat.and_two_pow_sub_one_eq_mod]
  exact Nat.mod_lt _ (by decide)

theorem join_halves (b : UInt8) :
    UInt8.ofNat ((((b.toNat >>> 4) &&& 0xF) <<< 4) ||| (b.toNat &&& 0xF)) = b := by
  revert b
  apply forall_byte
  decide +kernel

theorem halves_join {hi lo : Nat} (hhi : hi < 16) (hlo : lo < 16) :
    ((UInt8.ofNat ((hi <<< 4) ||| lo)).toNat >>> 4) &&& 0xF = hi ∧
      (UInt8.ofNat ((hi <<< 4) ||| lo)).toNat &&& 0xF = lo := by
  have hall : ∀ i j : Fin 16,
      ((UInt8.ofNat (((i : Nat) <<< 4) ||| j)).toNat >>> 4) &&& 0xF = i ∧
        (UInt8.ofNat (((i : Nat) <<< 4) ||| j)).toNat &&& 0xF = j := by
    decide +kernel
  exact hall ⟨hi, hhi⟩ ⟨lo, hlo⟩

theorem hexDecodePairs_cons {a b : UInt8} {src bytes : List UInt8} :
    hexDecodePairs (a :: b :: src) = some bytes ↔
      ∃ hi lo rest, hexDigit a = some hi ∧ hexDigit b = some lo ∧
        hexDecodePairs src = some rest ∧ bytes = UInt8.ofNat ((hi <<< 4) ||| lo) :: rest := by
  rw [hexDecodePairs]
  cases hexDigit a with
  | none => simp
  | some hi =>
    cases hexDigit b with
    | none => simp
    | some lo =>
      cases hexDecodePairs src with
      | none => simp
      | some rest => simp [eq_comm]

theorem length_hexEncodeText (src : List UInt8) : (hexEncodeText src).length = 2 * src.length := by
  induction src with
  | nil => rfl
  | cons b src ih =>
    rw [hexEncodeText, List.flatMap_cons, List.length_append, ← hexEncodeText, ih, List.length_cons]
    show 2 + 2 * src.length = 2 * (src.length + 1)
    omega

theorem hexEncodeText_ascii (src : List UInt8) : Ascii (hexEncodeText src) := by
  intro c hc
  obtain ⟨b, -, hb⟩ := List.mem_flatMap.mp hc
  rw [List.mem_cons, List.mem_singleton] at hb
  rcases hb with rfl | rfl
  · exact hexChars_mem (high_lt b)
  · exact hexChars_mem (low_lt b)

-- Decoding undoes encoding.
theorem hexDecodePairs_encode (src : List UInt8) : hexDecodePairs (hexEncodeText src) = some src := by
  induction src with
  | nil => rfl
  | cons b src ih =>
    apply hexDecodePairs_cons.mpr
    exact ⟨_, _, src, hexDigit_hexChars (high_lt b), hexDigit_hexChars (low_lt b), ih,
      by rw [join_halves]⟩

-- A text without a first pair and of even length is empty.
theorem eq_nil_of_even {text : List UInt8} (heven : text.length % 2 = 0)
    (hpair : ∀ a b src, text = a :: b :: src → False) : text = [] := by
  cases text with
  | nil => rfl
  | cons a rest =>
    cases rest with
    | nil => simp at heven
    | cons b src => exact absurd rfl (hpair a b src)

-- Encoding what was decoded gives the text in lower case.
theorem hexEncodeText_decoded {text bytes : List UInt8} (heven : text.length % 2 = 0)
    (h : hexDecodePairs text = some bytes) :
    (hexEncodeText bytes).map UInt8.toUInt16 = toLowerCase (text.map UInt8.toUInt16) := by
  induction text using hexDecodePairs.induct generalizing bytes with
  | case1 a b text ih =>
    obtain ⟨hi, lo, rest, ha, hb, hrest, rfl⟩ := hexDecodePairs_cons.mp h
    have heven' : text.length % 2 = 0 := by
      rw [List.length_cons, List.length_cons] at heven
      omega
    obtain ⟨hhi, hahi⟩ := hexChars_hexDigit ha
    obtain ⟨hlo, hblo⟩ := hexChars_hexDigit hb
    obtain ⟨hhigh, hlow⟩ := halves_join hhi hlo
    have hpair : hexEncodeText (UInt8.ofNat ((hi <<< 4) ||| lo) :: rest) =
        hexChars.getD hi 0 :: hexChars.getD lo 0 :: hexEncodeText rest := by
      rw [hexEncodeText, List.flatMap_cons, hhigh, hlow]
      rfl
    rw [hpair, List.map_cons, List.map_cons, ih heven' hrest]
    show [(hexChars.getD hi 0).toUInt16] ++ ([(hexChars.getD lo 0).toUInt16] ++ _) = _
    rw [hahi, hblo]
    rfl
  | case2 text hpair =>
    rw [eq_nil_of_even heven hpair] at h ⊢
    rw [← Option.some.inj h]
    rfl

-- A text of pairs is decoded precisely if all its characters are digits.
theorem hexDecodePairs_isSome_iff {text : List UInt8} (heven : text.length % 2 = 0) :
    (∃ bytes, hexDecodePairs text = some bytes) ↔ ∀ c ∈ text, c.toNat ∈ hexAlphabet := by
  induction text using hexDecodePairs.induct with
  | case1 a b text ih =>
    have heven' : text.length % 2 = 0 := by
      rw [List.length_cons, List.length_cons] at heven
      omega
    rw [List.forall_mem_cons, List.forall_mem_cons, ← ih heven', ← hexDigit_isSome_iff,
      ← hexDigit_isSome_iff, Option.isSome_iff_exists, Option.isSome_iff_exists]
    constructor
    · intro h
      obtain ⟨bytes, hbytes⟩ := h
      obtain ⟨hi, lo, rest, ha, hb, hrest, -⟩ := hexDecodePairs_cons.mp hbytes
      exact ⟨⟨hi, ha⟩, ⟨lo, hb⟩, ⟨rest, hrest⟩⟩
    · intro h
      obtain ⟨⟨hi, ha⟩, ⟨lo, hb⟩, ⟨rest, hrest⟩⟩ := h
      exact ⟨_, hexDecodePairs_cons.mpr ⟨hi, lo, rest, ha, hb, hrest, rfl⟩⟩
  | case2 text hpair =>
    rw [eq_nil_of_even heven hpair]
    exact iff_of_true ⟨[], rfl⟩ fun c hc ↦ absurd hc List.not_mem_nil

/-! ## Buffers -/

-- `Buffer.from(s, 'hex')` for a string that is not empty.
theorem jsBufferFromString_hex {s : JsString} (hs : s ≠ []) (bytes : List UInt8) :
    jsBufferFromString s (some "hex") = .ok bytes ↔
      (jsToCStringLen s).length % 2 = 0 ∧ hexDecodePairs (jsToCStringLen s) = some bytes := by
  have hpos : (jsToCStringLen s).length ≠ 0 := mt List.length_eq_zero_iff.mp (jsToCStringLen_ne_nil hs)
  have hdecode : jsBufferStringToBytes (jsToCStringLen s) (getEncodingId (some "hex")) =
      jsBufferHexDecode (jsToCStringLen s) := rfl
  rw [jsBufferFromString, hdecode, jsBufferHexDecode]
  by_cases heven : (jsToCStringLen s).length % 2 = 0
  · rw [if_neg (not_not_intro heven), withBlock_pos (by omega), and_iff_right heven]
    cases hexDecodePairs (jsToCStringLen s) with
    | none => simp
    | some decoded => simp
  · rw [if_pos heven]
    apply iff_of_false
    · intro h
      cases h
    · intro h
      exact heven h.1

/-- The string `hex`. -/
def hexName : JsString := [104, 101, 120]

-- `toString('hex')` of a Buffer that is not empty.
theorem toString_hex {heap : Heap} (this : LiveView heap) (hlen : this.length ≠ 0) :
    (jsBufferToString heap this.toView.arg [.string hexName 0]).result =
      jsNewStringLen (hexEncodeText (this.toView.content heap)) := by
  have hname : encodingOf (.string hexName 0) = .hex := by
    decide
  rw [toString_whole, if_neg hlen, hname]
  rfl

theorem length_content {heap : Heap} (this : LiveView heap) :
    (this.toView.content heap).length = this.length :=
  this.length_read

/-- For a string `s` that is not empty and a Buffer: `s` is accepted as hexadecimal text precisely
if it has an even number of bytes, all of them digits; what a Buffer with bytes in it writes, if it
fits a string, is read back as its bytes; and a Buffer made of `s` writes `s` in lower case. -/
theorem hex_round_trip {s : JsString} (hs : s ≠ []) {heap : Heap} (this : LiveView heap) :
    ((∃ bytes, jsBufferFromString s (some "hex") = .ok bytes) ↔
        (jsToCStringLen s).length % 2 = 0 ∧ ∀ c ∈ jsToCStringLen s, c.toNat ∈ hexAlphabet) ∧
      (this.length ≠ 0 → 2 * this.length ≤ jsStringLenMax →
        ∃ text, (jsBufferToString heap this.toView.arg [.string hexName 0]).result = .ok text ∧
          jsBufferFromString text (some "hex") = .ok (this.toView.content heap)) ∧
      (s.length ≤ jsStringLenMax →
        jsBufferFromString s (some "hex") = .ok (this.toView.content heap) →
        (jsBufferToString heap this.toView.arg [.string hexName 0]).result =
          .ok (toLowerCase s)) := by
  constructor
  · simp only [jsBufferFromString_hex hs, exists_and_left]
    constructor
    · intro h
      exact ⟨h.1, (hexDecodePairs_isSome_iff h.1).mp h.2⟩
    · intro h
      exact ⟨h.1, (hexDecodePairs_isSome_iff h.1).mpr h.2⟩
  constructor
  · intro hlen hshort
    have hascii := hexEncodeText_ascii (this.toView.content heap)
    have htext : (hexEncodeText (this.toView.content heap)).length = 2 * this.length := by
      rw [length_hexEncodeText, length_content]
    refine ⟨(hexEncodeText (this.toView.content heap)).map UInt8.toUInt16, ?_, ?_⟩
    · rw [toString_hex this hlen, jsNewStringLen_ascii hascii (by omega)]
    · apply (jsBufferFromString_hex _ _).mpr
      · rw [jsToCStringLen_ascii hascii, hexDecodePairs_encode, htext]
        exact ⟨Nat.mul_mod_right 2 _, rfl⟩
      · apply List.ne_nil_of_length_pos
        rw [List.length_map, htext]
        omega
  · intro hshort hfrom
    obtain ⟨heven, hdecoded⟩ := (jsBufferFromString_hex hs _).mp hfrom
    have hdigits := (hexDecodePairs_isSome_iff heven).mp ⟨_, hdecoded⟩
    have hmap := eq_map_of_ascii fun c hc ↦ hexAlphabet_ascii (hdigits c hc)
    have hlower := hexEncodeText_decoded heven hdecoded
    have hlength := congrArg List.length hlower
    rw [← hmap] at hlower hlength
    rw [List.length_map, length_hexEncodeText, length_content, toLowerCase, List.length_map]
      at hlength
    have hpos := List.length_pos_of_ne_nil hs
    rw [toString_hex this (by omega), jsNewStringLen_ascii (hexEncodeText_ascii _)
      (by rw [length_hexEncodeText, length_content]; omega), hlower]

theorem hex_round_trip_ab :
    ((∃ bytes, jsBufferFromString [65, 98] (some "hex") = .ok bytes) ↔
        (jsToCStringLen [65, 98]).length % 2 = 0 ∧
          ∀ c ∈ jsToCStringLen [65, 98], c.toNat ∈ hexAlphabet) ∧
      ((1 : Nat) ≠ 0 → 2 * 1 ≤ jsStringLenMax →
        ∃ text, (jsBufferToString (storeOf [0xAB] (by decide))
            (View.arg ⟨0, 0, 1, false, by decide⟩) [.string hexName 0]).result = .ok text ∧
          jsBufferFromString text (some "hex") = .ok [0xAB]) ∧
      ([65, 98].length ≤ jsStringLenMax →
        jsBufferFromString [65, 98] (some "hex") = .ok [0xAB] →
        (jsBufferToString (storeOf [0xAB] (by decide)) (View.arg ⟨0, 0, 1, false, by decide⟩)
          [.string hexName 0]).result = .ok (toLowerCase [65, 98])) :=
  hex_round_trip (by decide)
    (⟨⟨0, 0, 1, false, by decide⟩, rfl, by decide⟩ : LiveView (storeOf [0xAB] (by decide)))

/-- A Buffer of 2^29 bytes has a text that is longer than the longest string. -/
theorem hex_text_too_long :
    ¬ ∀ (heap : Heap) (this : LiveView heap), this.length ≠ 0 →
      ∃ text, (jsBufferToString heap this.toView.arg [.string hexName 0]).result = .ok text ∧
        jsBufferFromString text (some "hex") = .ok (this.toView.content heap) := by
  intro h
  have hsize : (List.replicate (2 ^ 29) (0 : UInt8)).length ≤ maxByteLength := by
    rw [List.length_replicate]
    decide
  have hinside : 0 + 2 ^ 29 ≤ (storeOf (List.replicate (2 ^ 29) 0) hsize 0).byteLength := by
    show 0 + 2 ^ 29 ≤ (List.replicate (2 ^ 29) (0 : UInt8)).length
    rw [List.length_replicate]
    decide
  let this : LiveView (storeOf (List.replicate (2 ^ 29) 0) hsize) :=
    ⟨⟨0, 0, 2 ^ 29, false, by decide⟩, rfl, hinside⟩
  have hlen : this.length = 2 ^ 29 := rfl
  obtain ⟨text, htext, -⟩ := h _ this (by rw [hlen]; decide)
  rw [toString_hex this (by rw [hlen]; decide), jsNewStringLen_ascii_long (hexEncodeText_ascii _)] at htext
  · cases htext
  · rw [length_hexEncodeText, length_content, hlen]
    decide

end QNode.Buffer
