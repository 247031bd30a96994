import Mathlib.Data.List.Chain
import QNode.Engine.Strings
import QNode.Library.Bits

/-!
# Code points and their encodings

Decoding undoes encoding, one code point at a time, and a string is the list of its code points.
-/

namespace QNode.Engine

/-! ## The bytes of a code point -/

theorem or_lead {x m k : Nat} (h : x < 2 ^ k) : x ||| 2 ^ k * m = 2 ^ k * m + x := by
  rw [Nat.or_comm, ← Nat.two_pow_add_eq_or_of_lt h]

theorem tail_eq (c k : Nat) : ((c >>> k) &&& 0x3f) ||| 0x80 = 128 + c / 2 ^ k % 64 := by
  have hlow : c / 2 ^ k % 64 < 2 ^ 6 := Nat.mod_lt _ (by decide)
  rw [Nat.shiftRight_eq_div_pow, show 0x3f = 2 ^ 6 - 1 from rfl, Nat.and_two_pow_sub_one_eq_mod]
  exact or_lead (m := 2) hlow

theorem unicodeToUtf8_two {c : Nat} (hlow : 0x80 ≤ c) (hhigh : c < 0x800) :
    unicodeToUtf8 c = [UInt8.ofNat (192 + c / 64), UInt8.ofNat (128 + c % 64)] := by
  have hlead : (c >>> 6) ||| 0xc0 = 192 + c / 64 := by
    rw [Nat.shiftRight_eq_div_pow]
    exact or_lead (k := 6) (m := 3) (by omega)
  rw [unicodeToUtf8, if_neg (by omega), if_pos hhigh, hlead]
  simp only [tail_eq, Nat.pow_zero, Nat.div_one]

theorem unicodeToUtf8_three {c : Nat} (hlow : 0x800 ≤ c) (hhigh : c < 0x10000) :
    unicodeToUtf8 c =
      [UInt8.ofNat (224 + c / 4096), UInt8.ofNat (128 + c / 64 % 64), UInt8.ofNat (128 + c % 64)] := by
  have hlead : (c >>> 12) ||| 0xe0 = 224 + c / 4096 := by
    rw [Nat.shiftRight_eq_div_pow]
    exact or_lead (k := 5) (m := 7) (by omega)
  rw [unicodeToUtf8, if_neg (by omega), if_neg (by omega), if_pos hhigh, hlead]
  simp only [tail_eq, Nat.pow_zero, Nat.div_one, Nat.reducePow]

theorem unicodeToUtf8_four {c : Nat} (hlow : 0x10000 ≤ c) (hhigh : c ≤ 0x10FFFF) :
    unicodeToUtf8 c =
      [UInt8.ofNat (240 + c / 262144), UInt8.ofNat (128 + c / 4096 % 64),
        UInt8.ofNat (128 + c / 64 % 64), UInt8.ofNat (128 + c % 64)] := by
  have hlead : (c >>> 18) ||| 0xf0 = 240 + c / 262144 := by
    rw [Nat.shiftRight_eq_div_pow]
    exact or_lead (k := 4) (m := 15) (by omega)
  rw [unicodeToUtf8, if_neg (by omega), if_neg (by omega), if_neg (by omega), if_pos (by omega), hlead]
  simp only [tail_eq, Nat.pow_zero, Nat.div_one, Nat.reducePow]

/-! ## Decoding one code point -/

theorem isContinuation_tail {r : Nat} (hr : r < 64) : isContinuation (UInt8.ofNat (128 + r)) := by
  have hbyte : (UInt8.ofNat (128 + r)).toNat = 128 + r := by
    rw [UInt8.toNat_ofNat']
    omega
  simp only [isContinuation, Bool.and_eq_true, decide_eq_true_eq, UInt8.le_iff_toNat_le,
    UInt8.lt_iff_toNat_lt, hbyte]
  exact ⟨Nat.le_add_right 128 r, Nat.add_lt_add_left hr 128⟩

theorem join_tail (acc : Nat) {r : Nat} (hr : r < 64) :
    (acc <<< 6) ||| ((UInt8.ofNat (128 + r)).toNat &&& 0x3f) = acc * 64 + r := by
  have hlow : (UInt8.ofNat (128 + r)).toNat &&& 0x3f = r := by
    rw [UInt8.toNat_ofNat', show 0x3f = 2 ^ 6 - 1 from rfl, Nat.and_two_pow_sub_one_eq_mod]
    omega
  rw [hlow, ← Nat.shiftLeft_add_eq_or_of_lt (show r < 2 ^ 6 from hr), Nat.shiftLeft_eq]

-- What the decoder makes of a first byte and the right number of continuation bytes.
theorem unicodeFromUtf8_cons {b : UInt8} {tail rest : List UInt8} {mask min : Nat}
    (hb : ¬ b < 0x80) (hform : utf8Form b = some (tail.length, mask, min))
    (htail : tail.all isContinuation) :
    unicodeFromUtf8 (b :: (tail ++ rest)) =
      let code := tail.foldl (fun acc b ↦ (acc <<< 6) ||| (b.toNat &&& 0x3f)) (b.toNat &&& mask)
      if code < min then none else some (code, rest) := by
  have hlen : ¬ (tail ++ rest).length < tail.length := by simp
  rw [unicodeFromUtf8, if_neg hb, hform]
  simp only [bind, Option.bind, if_neg hlen, List.take_left, List.drop_left, htail, if_true]

-- The same for a first byte that holds the bits `q` of the code point after its mark.
theorem unicodeFromUtf8_lead (l min : Nat) {mark q : Nat} {tail rest : List UInt8} (hmark : 192 ≤ mark)
    (hbyte : mark + q < 256) (hq : (mark + q) % 2 ^ l = q)
    (hform : utf8Form (UInt8.ofNat (mark + q)) = some (tail.length, 2 ^ l - 1, min))
    (htail : tail.all isContinuation) :
    unicodeFromUtf8 (UInt8.ofNat (mark + q) :: (tail ++ rest)) =
      let code := tail.foldl (fun acc b ↦ (acc <<< 6) ||| (b.toNat &&& 0x3f)) q
      if code < min then none else some (code, rest) := by
  have hnat : (UInt8.ofNat (mark + q)).toNat = mark + q := by
    rw [UInt8.toNat_ofNat']
    omega
  have hb : ¬ UInt8.ofNat (mark + q) < 0x80 := by
    rw [UInt8.lt_iff_toNat_lt, hnat]
    exact Nat.not_lt.mpr (by simp; omega)
  rw [unicodeFromUtf8_cons hb hform htail, hnat, Nat.and_two_pow_sub_one_eq_mod, hq]

theorem utf8Form_eq (b : UInt8) :
    utf8Form b =
      if 192 ≤ b.toNat ∧ b.toNat ≤ 223 then some (1, 0x1f, 0x80)
      else if 224 ≤ b.toNat ∧ b.toNat ≤ 239 then some (2, 0xf, 0x800)
      else if 240 ≤ b.toNat ∧ b.toNat ≤ 247 then some (3, 0x7, 0x10000)
      else if 248 ≤ b.toNat ∧ b.toNat ≤ 251 then some (4, 0x3, 0x00200000)
      else if 252 ≤ b.toNat ∧ b.toNat ≤ 253 then some (5, 0x1, 0x04000000)
      else none :=
  rfl

-- Decoding undoes encoding.
theorem unicodeFromUtf8_unicodeToUtf8 {c : Nat} (hc : c ≤ 0x10FFFF) (rest : List UInt8) :
    unicodeFromUtf8 (unicodeToUtf8 c ++ rest) = some (c, rest) := by
  have htail : ∀ n, isContinuation (UInt8.ofNat (128 + n % 64)) :=
    fun n ↦ isContinuation_tail (Nat.mod_lt n (by decide))
  have hjoin : ∀ acc n, (acc <<< 6) ||| ((UInt8.ofNat (128 + n % 64)).toNat &&& 0x3f) =
      acc * 64 + n % 64 :=
    fun acc n ↦ join_tail acc (Nat.mod_lt n (by decide))
  by_cases h1 : c < 0x80
  · have hnat : (UInt8.ofNat c).toNat = c := by
      rw [UInt8.toNat_ofNat']
      omega
    have hlow : UInt8.ofNat c < 0x80 := by
      rw [UInt8.lt_iff_toNat_lt, hnat]
      exact h1
    rw [unicodeToUtf8, if_pos h1, List.cons_append, unicodeFromUtf8, if_pos hlow, hnat]
    rfl
  by_cases h2 : c < 0x800
  · have hnat : (UInt8.ofNat (192 + c / 64)).toNat = 192 + c / 64 := by
      rw [UInt8.toNat_ofNat']
      omega
    rw [unicodeToUtf8_two (by omega) h2, List.cons_append,
      unicodeFromUtf8_lead 5 0x80 (by decide) (by omega) (by omega)]
    · simp only [List.foldl_cons, List.foldl_nil, hjoin]
      rw [if_neg (by omega)]
      congr 2
      omega
    · rw [utf8Form_eq, hnat, if_pos (by omega)]
      rfl
    · simp only [List.all_cons, List.all_nil, htail, Bool.and_self]
  by_cases h3 : c < 0x10000
  · have hnat : (UInt8.ofNat (224 + c / 4096)).toNat = 224 + c / 4096 := by
      rw [UInt8.toNat_ofNat']
      omega
    rw [unicodeToUtf8_three (by omega) h3, List.cons_append,
      unicodeFromUtf8_lead 4 0x800 (by decide) (by omega) (by omega)]
    · simp only [List.foldl_cons, List.foldl_nil, hjoin]
      rw [if_neg (by omega)]
      congr 2
      omega
    · rw [utf8Form_eq, hnat, if_neg (by omega), if_pos (by omega)]
      rfl
    · simp only [List.all_cons, List.all_nil, htail, Bool.and_self]
  · have hnat : (UInt8.ofNat (240 + c / 262144)).toNat = 240 + c / 262144 := by
      rw [UInt8.toNat_ofNat']
      omega
    rw [unicodeToUtf8_four (by omega) hc, List.cons_append,
      unicodeFromUtf8_lead 3 0x10000 (by decide) (by omega) (by omega)]
    · simp only [List.foldl_cons, List.foldl_nil, hjoin]
      rw [if_neg (by omega)]
      congr 2
      omega
    · rw [utf8Form_eq, hnat, if_neg (by omega), if_neg (by omega), if_pos (by omega)]
      rfl
    · simp only [List.all_cons, List.all_nil, htail, Bool.and_self]

-- Only an ASCII code point is encoded in ASCII.
theorem ascii_unicodeToUtf8 {c : Nat} (hc : c ≤ 0x10FFFF) (h : Ascii (unicodeToUtf8 c)) : c < 0x80 := by
  by_contra hlarge
  obtain ⟨n, tail, hn, hbytes⟩ : ∃ n tail, 192 ≤ n ∧ n < 256 ∧ unicodeToUtf8 c = UInt8.ofNat n :: tail := by
    by_cases h2 : c < 0x800
    · exact ⟨_, _, by omega, by omega, unicodeToUtf8_two (by omega) h2⟩
    by_cases h3 : c < 0x10000
    · exact ⟨_, _, by omega, by omega, unicodeToUtf8_three (by omega) h3⟩
    · exact ⟨_, _, by omega, by omega, unicodeToUtf8_four (by omega) hc⟩
  have hlead := h (UInt8.ofNat n) (by rw [hbytes.2]; exact List.mem_cons_self)
  rw [UInt8.lt_iff_toNat_lt, UInt8.toNat_ofNat'] at hlead
  have hsmall : n % 2 ^ 8 < 128 := hlead
  omega

/-! ## Strings as code points -/

/-- The code points of a string; a surrogate without its partner counts as one. -/
def codePoints : JsString → List Nat
  | [] => []
  | [c] => [c.toNat]
  | c :: c1 :: rest =>
    if isHiSurrogate c && isLoSurrogate c1 then fromSurrogate c c1 :: codePoints rest
    else c.toNat :: codePoints (c1 :: rest)

theorem jsToCStringLen_eq (s : JsString) :
    jsToCStringLen s = (codePoints s).flatMap unicodeToUtf8 := by
  fun_induction codePoints s with
  | case1 => rfl
  | case2 c => simp [jsToCStringLen]
  | case3 c c1 rest hpair ih => rw [jsToCStringLen, if_pos hpair, ih, List.flatMap_cons]
  | case4 c c1 rest hpair ih => rw [jsToCStringLen, if_neg hpair, ih, List.flatMap_cons]

theorem isHiSurrogate_iff (c : UInt16) : isHiSurrogate c ↔ 0xD800 ≤ c.toNat ∧ c.toNat < 0xDC00 := by
  rw [isHiSurrogate, beq_iff_eq, Nat.shiftRight_eq_div_pow]
  show c.toNat / 1024 = 54 ↔ _
  omega

theorem isLoSurrogate_iff (c : UInt16) : isLoSurrogate c ↔ 0xDC00 ≤ c.toNat ∧ c.toNat < 0xE000 := by
  rw [isLoSurrogate, beq_iff_eq, Nat.shiftRight_eq_div_pow]
  show c.toNat / 1024 = 55 ↔ _
  omega

theorem codePoints_le (s : JsString) : ∀ c ∈ codePoints s, c ≤ 0x10FFFF := by
  fun_induction codePoints s with
  | case1 => simp
  | case2 c =>
    have hc := c.toNat_lt
    simp
    omega
  | case3 c c1 rest hpair ih =>
    rw [Bool.and_eq_true, isHiSurrogate_iff, isLoSurrogate_iff] at hpair
    rw [List.forall_mem_cons]
    refine ⟨?_, ih⟩
    unfold fromSurrogate
    omega
  | case4 c c1 rest hpair ih =>
    have hc := c.toNat_lt
    rw [List.forall_mem_cons]
    exact ⟨by omega, ih⟩

theorem map_unicodeToUtf8 {c : UInt16} (h : Ascii (unicodeToUtf8 c.toNat)) :
    (unicodeToUtf8 c.toNat).map UInt8.toUInt16 = [c] := by
  have hc := c.toNat_lt
  have hsmall := ascii_unicodeToUtf8 (by omega) h
  rw [unicodeToUtf8, if_pos hsmall, List.map_cons, List.map_nil]
  congr 1
  apply UInt16.toNat_inj.mp
  rw [UInt8.toNat_toUInt16, UInt8.toNat_ofNat']
  omega

-- A string whose UTF-8 is ASCII is that text.
theorem eq_map_of_ascii {s : JsString} (h : Ascii (jsToCStringLen s)) :
    s = (jsToCStringLen s).map UInt8.toUInt16 := by
  fun_induction jsToCStringLen s with
  | case1 => rfl
  | case2 c => exact (map_unicodeToUtf8 h).symm
  | case3 c c1 rest hpair ih =>
    rw [Bool.and_eq_true, isHiSurrogate_iff, isLoSurrogate_iff] at hpair
    have hsmall := ascii_unicodeToUtf8 (by unfold fromSurrogate; omega)
      (fun b hb ↦ h b (List.mem_append_left _ hb))
    unfold fromSurrogate at hsmall
    omega
  | case4 c c1 rest hpair ih =>
    rw [List.map_append, map_unicodeToUtf8 fun b hb ↦ h b (List.mem_append_left _ hb),
      ← ih fun b hb ↦ h b (List.mem_append_right _ hb)]
    rfl

theorem jsToCStringLen_ne_nil {s : JsString} (hs : s ≠ []) : jsToCStringLen s ≠ [] := by
  intro h
  have hmap := eq_map_of_ascii (s := s) (by rw [h]; intro b hb; cases hb)
  rw [h] at hmap
  exact hs hmap

theorem ascii_jsToCStringLen {s : JsString} (h : ∀ c ∈ s, c.toNat < 128) :
    Ascii (jsToCStringLen s) := by
  have hs : s = (s.map UInt16.toUInt8).map UInt8.toUInt16 := by
    rw [List.map_map]
    symm
    apply (List.map_congr_left _).trans (List.map_id s)
    intro c hc
    apply UInt16.toNat_inj.mp
    have hsmall := h c hc
    rw [Function.comp, UInt8.toNat_toUInt16, UInt16.toNat_toUInt8, id]
    omega
  have hascii : Ascii (s.map UInt16.toUInt8) := by
    intro b hb
    obtain ⟨c, hc, rfl⟩ := List.mem_map.mp hb
    rw [UInt8.lt_iff_toNat_lt, UInt16.toNat_toUInt8]
    exact Nat.lt_of_le_of_lt (Nat.mod_le _ _) (h c hc)
  rw [hs, jsToCStringLen_ascii hascii]
  exact hascii

/-! ## ASCII bytes of a string -/

-- An ASCII byte encodes itself only.
theorem mem_unicodeToUtf8_ascii {b : UInt8} (hb : b < 128) {c : Nat} (hc : c ≤ 0x10FFFF) :
    b ∈ unicodeToUtf8 c ↔ c = b.toNat := by
  have hsmall : b.toNat < 128 := hb
  have hhigh : ∀ n, 128 ≤ n → n < 256 → b ≠ UInt8.ofNat n := by
    intro n hlow hhigh heq
    have hnat := congrArg UInt8.toNat heq
    rw [UInt8.toNat_ofNat'] at hnat
    omega
  have htail : ∀ n, b ≠ UInt8.ofNat (128 + n % 64) := fun n ↦ hhigh _ (by omega) (by omega)
  by_cases h1 : c < 0x80
  · rw [unicodeToUtf8, if_pos h1, List.mem_singleton]
    constructor
    · intro heq
      rw [heq, UInt8.toNat_ofNat']
      omega
    · intro heq
      rw [heq, UInt8.ofNat_toNat]
  have hne : c ≠ b.toNat := by omega
  by_cases h2 : c < 0x800
  · rw [unicodeToUtf8_two (by omega) h2]
    simp only [List.mem_cons, List.not_mem_nil, htail, hhigh (192 + c / 64) (by omega) (by omega), hne,
      or_self]
  by_cases h3 : c < 0x10000
  · rw [unicodeToUtf8_three (by omega) h3]
    simp only [List.mem_cons, List.not_mem_nil, htail, hhigh (224 + c / 4096) (by omega) (by omega), hne,
      or_self]
  · rw [unicodeToUtf8_four (by omega) hc]
    simp only [List.mem_cons, List.not_mem_nil, htail, hhigh (240 + c / 262144) (by omega) (by omega), hne,
      or_self]

theorem mem_codePoints_ascii {n : Nat} (hn : n < 128) (s : JsString) :
    n ∈ codePoints s ↔ UInt16.ofNat n ∈ s := by
  have hunit : ∀ c : UInt16, n = c.toNat ↔ UInt16.ofNat n = c := by
    intro c
    rw [← UInt16.toNat_inj, UInt16.toNat_ofNat', Nat.mod_eq_of_lt (by omega)]
  fun_induction codePoints s with
  | case1 => simp
  | case2 c => rw [List.mem_singleton, List.mem_singleton, hunit]
  | case3 c c1 rest hpair ih =>
    -- neither the code point of a pair nor its halves are ASCII
    rw [Bool.and_eq_true, isHiSurrogate_iff, isLoSurrogate_iff] at hpair
    have hpoint : n ≠ fromSurrogate c c1 := by
      unfold fromSurrogate
      omega
    have hhi : UInt16.ofNat n ≠ c := fun heq ↦ by
      have hnat := (hunit c).mpr heq
      omega
    have hlo : UInt16.ofNat n ≠ c1 := fun heq ↦ by
      have hnat := (hunit c1).mpr heq
      omega
    simp only [List.mem_cons, hpoint, hhi, hlo, false_or, ih]
  | case4 c c1 rest hpair ih =>
    rw [List.mem_cons, List.mem_cons, hunit]
    exact or_congr_right ih

theorem mem_jsToCStringLen_ascii {b : UInt8} (hb : b < 128) (s : JsString) :
    b ∈ jsToCStringLen s ↔ b.toUInt16 ∈ s := by
  have hunit : UInt16.ofNat b.toNat = b.toUInt16 := by
    apply UInt16.toNat_inj.mp
    rw [UInt16.toNat_ofNat', UInt8.toNat_toUInt16]
    have hlt := b.toNat_lt
    omega
  have hsmall : b.toNat < 128 := hb
  rw [jsToCStringLen_eq, List.mem_flatMap, ← hunit, ← mem_codePoints_ascii hsmall]
  constructor
  · rintro ⟨c, hmem, hbyte⟩
    rw [← (mem_unicodeToUtf8_ascii hb (codePoints_le s c hmem)).mp hbyte]
    exact hmem
  · intro hmem
    exact ⟨b.toNat, hmem, (mem_unicodeToUtf8_ascii hb (codePoints_le s _ hmem)).mpr rfl⟩

/-! ## Text that a string keeps -/

/-- The first half of a surrogate pair before the second one, each encoded on its own. -/
def SplitPair (c d : Nat) : Prop := (0xD800 ≤ c ∧ c < 0xDC00) ∧ 0xDC00 ≤ d ∧ d < 0xE000

/-- Bytes that encode code points, none of them a pair of surrogates encoded one by one. -/
def Utf8Text (p : List UInt8) : Prop :=
  ∃ cs : List Nat, p = cs.flatMap unicodeToUtf8 ∧ (∀ c ∈ cs, c ≤ 0x10FFFF) ∧
    cs.IsChain fun c d ↦ ¬ SplitPair c d

/-- The code units of a code point. -/
def codeUnits (c : Nat) : JsString :=
  if c < 0x10000 then [UInt16.ofNat c]
  else [UInt16.ofNat ((c >>> 10) - (0x10000 >>> 10) + 0xD800),
    UInt16.ofNat ((c &&& 0x3FF) ||| 0xDC00)]

theorem codeUnits_pair {c : Nat} (hlow : 0x10000 ≤ c) (hhigh : c ≤ 0x10FFFF) :
    ∃ hi lo, codeUnits c = [hi, lo] ∧ hi.toNat = 0xD800 + (c - 0x10000) / 1024 ∧
      lo.toNat = 0xDC00 + c % 1024 := by
  have hmask : (c &&& 0x3FF) ||| 0xDC00 = 0xDC00 + c % 1024 := by
    rw [show 0x3FF = 2 ^ 10 - 1 from rfl, Nat.and_two_pow_sub_one_eq_mod]
    exact or_lead (k := 10) (m := 55) (Nat.mod_lt c (by decide))
  have hshift : (c >>> 10) - (0x10000 >>> 10) + 0xD800 = 0xD800 + (c - 0x10000) / 1024 := by
    rw [Nat.shiftRight_eq_div_pow, Nat.shiftRight_eq_div_pow]
    omega
  rw [codeUnits, if_neg (by omega), hmask, hshift]
  refine ⟨_, _, rfl, ?_, ?_⟩
  · rw [UInt16.toNat_ofNat']
    omega
  · rw [UInt16.toNat_ofNat']
    omega

-- Only a code point in the second half of the surrogates starts like one.
theorem codeUnits_head {c : Nat} (hc : c ≤ 0x10FFFF) :
    ∃ u us, codeUnits c = u :: us ∧
      (0xDC00 ≤ u.toNat ∧ u.toNat < 0xE000 → 0xDC00 ≤ c ∧ c < 0xE000) := by
  by_cases hbmp : c < 0x10000
  · refine ⟨_, _, if_pos hbmp, ?_⟩
    rw [UInt16.toNat_ofNat']
    omega
  · obtain ⟨hi, lo, hunits, hhi, -⟩ := codeUnits_pair (Nat.le_of_not_lt hbmp) hc
    refine ⟨hi, [lo], hunits, ?_⟩
    omega

theorem unicodeToUtf8_ne_nil (c : Nat) : unicodeToUtf8 c ≠ [] := by
  unfold unicodeToUtf8
  dsimp only
  repeat' split
  all_goals exact List.cons_ne_nil _ _

-- The string of encoded code points is made of their code units.
theorem newStringFrom_codePoints {cs : List Nat} (h : ∀ c ∈ cs, c ≤ 0x10FFFF) {n : Nat}
    (hn : (cs.flatMap unicodeToUtf8).length ≤ n) :
    newStringFrom n (cs.flatMap unicodeToUtf8) = cs.flatMap codeUnits := by
  induction cs generalizing n with
  | nil => cases n <;> rfl
  | cons c cs ih =>
    rw [List.forall_mem_cons] at h
    have hnext := unicodeFromUtf8_unicodeToUtf8 h.1 (cs.flatMap unicodeToUtf8)
    rw [List.flatMap_cons, List.length_append] at hn
    rw [List.flatMap_cons, List.flatMap_cons]
    obtain ⟨b, tail, hbytes⟩ := List.exists_cons_of_ne_nil (unicodeToUtf8_ne_nil c)
    rw [hbytes, List.length_cons] at hn
    rw [hbytes, List.cons_append] at hnext ⊢
    obtain ⟨m, rfl⟩ : ∃ m, n = m + 1 := ⟨n - 1, by omega⟩
    have hrest := ih h.2 (n := m) (by omega)
    by_cases hb : b < 128
    · rw [unicodeFromUtf8, if_pos hb, Option.some.injEq, Prod.mk.injEq,
        List.append_left_eq_self] at hnext
      obtain ⟨rfl, rfl⟩ := hnext
      have hunit : codeUnits b.toNat = [b.toUInt16] := by
        have hlt := b.toNat_lt
        rw [codeUnits, if_pos (by omega)]
        congr 1
        apply UInt16.toNat_inj.mp
        rw [UInt16.toNat_ofNat', UInt8.toNat_toUInt16]
        omega
      rw [newStringFrom, if_pos hb, List.nil_append, hrest, hunit]
      rfl
    · rw [newStringFrom, if_neg hb, hnext]
      dsimp only
      rw [codeUnits]
      by_cases hbmp : c < 0x10000
      · rw [if_pos hbmp, if_pos hbmp, hrest]
        rfl
      · rw [if_neg hbmp, if_neg hbmp, if_pos h.1, hrest]
        rfl

-- The code points of their code units, unless two of them make a pair.
theorem codePoints_codeUnits {cs : List Nat} (h : ∀ c ∈ cs, c ≤ 0x10FFFF)
    (hsplit : cs.IsChain fun c d ↦ ¬ SplitPair c d) : codePoints (cs.flatMap codeUnits) = cs := by
  induction cs with
  | nil => rfl
  | cons c cs ih =>
    rw [List.forall_mem_cons] at h
    have hrest := ih h.2 hsplit.tail
    rw [List.flatMap_cons]
    by_cases hbmp : c < 0x10000
    · have hunit : codeUnits c = [UInt16.ofNat c] := if_pos hbmp
      have hnat : (UInt16.ofNat c).toNat = c := by
        rw [UInt16.toNat_ofNat']
        omega
      rw [hunit, List.singleton_append]
      cases cs with
      | nil => rw [List.flatMap_nil, codePoints, hnat]
      | cons d ds =>
        obtain ⟨u, us, hunits, hu⟩ := codeUnits_head (h.2 d List.mem_cons_self)
        rw [List.flatMap_cons, hunits, List.cons_append] at hrest ⊢
        have hpair : ¬ (isHiSurrogate (UInt16.ofNat c) && isLoSurrogate u) := by
          rw [Bool.and_eq_true, isHiSurrogate_iff, isLoSurrogate_iff, hnat]
          rintro ⟨hhi, hlo⟩
          exact (List.isChain_cons_cons.mp hsplit).1 ⟨hhi, hu hlo⟩
        rw [codePoints, if_neg hpair, hnat, hrest]
    · obtain ⟨hi, lo, hunits, hhi, hlo⟩ := codeUnits_pair (Nat.le_of_not_lt hbmp) h.1
      have hpair : isHiSurrogate hi && isLoSurrogate lo := by
        rw [Bool.and_eq_true, isHiSurrogate_iff, isLoSurrogate_iff]
        omega
      have hcode : fromSurrogate hi lo = c := by
        unfold fromSurrogate
        omega
      rw [hunits, List.cons_append, List.cons_append, List.nil_append, codePoints, if_pos hpair,
        hcode, hrest]

theorem codePoints_head {u : UInt16} {rest : JsString} {d : Nat}
    (h : (codePoints (u :: rest)).head? = some d) : d = u.toNat ∨ 0x10000 ≤ d := by
  cases rest with
  | nil =>
    left
    exact (Option.some.inj h).symm
  | cons u1 rest =>
    unfold codePoints at h
    split at h
    next =>
      right
      rw [← Option.some.inj h]
      unfold fromSurrogate
      omega
    next =>
      left
      exact (Option.some.inj h).symm

-- The code points of a string are never a pair split in two.
theorem codePoints_isChain (s : JsString) : (codePoints s).IsChain fun c d ↦ ¬ SplitPair c d := by
  fun_induction codePoints s with
  | case1 => exact .nil
  | case2 c => exact .singleton _
  | case3 c c1 rest hpair ih =>
    rw [Bool.and_eq_true, isHiSurrogate_iff, isLoSurrogate_iff] at hpair
    apply ih.cons
    intro d hd hsplit
    unfold fromSurrogate SplitPair at hsplit
    omega
  | case4 c c1 rest hpair ih =>
    apply ih.cons
    intro d hd hsplit
    apply hpair
    rw [Bool.and_eq_true, isHiSurrogate_iff, isLoSurrogate_iff]
    unfold SplitPair at hsplit
    rcases codePoints_head hd with rfl | hlarge
    · exact hsplit
    · omega

/-- A string keeps exactly the bytes that are UTF-8 text. -/
theorem jsToCStringLen_newString_iff (p : List UInt8) :
    jsToCStringLen (newStringFrom p.length p) = p ↔ Utf8Text p := by
  constructor
  · intro h
    refine ⟨codePoints (newStringFrom p.length p), ?_, codePoints_le _, codePoints_isChain _⟩
    rw [← jsToCStringLen_eq, h]
  · rintro ⟨cs, rfl, hle, hsplit⟩
    rw [newStringFrom_codePoints hle (Nat.le_refl _), jsToCStringLen_eq,
      codePoints_codeUnits hle hsplit]

/-! ## Strings without a NUL -/

-- A sequence of several bytes gives no small code point.
theorem unicodeFromUtf8_large {b : UInt8} {p next : List UInt8} {c : Nat} (hb : ¬ b < 128)
    (h : unicodeFromUtf8 (b :: p) = some (c, next)) : 128 ≤ c ∧ next ⊆ p := by
  have hform : ∀ {l mask min : Nat}, utf8Form b = some (l, mask, min) → 128 ≤ min := by
    intro l mask min hform
    unfold utf8Form at hform
    repeat' split at hform
    all_goals
      cases hform
      all_goals decide
  rw [unicodeFromUtf8, if_neg hb] at h
  obtain ⟨⟨l, mask, min⟩, hsome, h⟩ := Option.bind_eq_some_iff.mp h
  have hmin := hform hsome
  dsimp only at h
  split at h
  · cases h
  · split at h
    · split at h
      · cases h
      · obtain ⟨rfl, rfl⟩ := Prod.mk.inj (Option.some.inj h)
        exact ⟨by omega, List.drop_subset _ _⟩
    · cases h

theorem zero_not_mem_codeUnits {c : Nat} (hpos : 0 < c) (hc : c ≤ 0x10FFFF) :
    (0 : UInt16) ∉ codeUnits c := by
  intro hzero
  by_cases hbmp : c < 0x10000
  · rw [codeUnits, if_pos hbmp, List.mem_singleton] at hzero
    have hnat := congrArg UInt16.toNat hzero
    rw [UInt16.toNat_ofNat'] at hnat
    change 0 = c % 65536 at hnat
    omega
  · obtain ⟨hi, lo, hunits, hhi, hlo⟩ := codeUnits_pair (Nat.le_of_not_lt hbmp) hc
    rw [hunits] at hzero
    have hne : ∀ u : UInt16, 0 < u.toNat → (0 : UInt16) ≠ u := by
      rintro u hu rfl
      exact absurd hu (by decide)
    rcases List.mem_cons.mp hzero with h | h
    · exact hne hi (by omega) h
    · exact hne lo (by omega) (List.mem_singleton.mp h)

theorem zero_not_mem_newStringFrom {n : Nat} {p : List UInt8} (hp : (0 : UInt8) ∉ p) :
    (0 : UInt16) ∉ newStringFrom n p := by
  induction n generalizing p with
  | zero => exact List.not_mem_nil
  | succ n ih =>
    cases p with
    | nil => exact List.not_mem_nil
    | cons b p =>
      have hrest : ∀ q, q ⊆ p → (0 : UInt16) ∉ newStringFrom n q :=
        fun q hq ↦ ih fun h ↦ hp (List.mem_cons_of_mem b (hq h))
      have hskip : (0 : UInt16) ∉ 0xfffd :: newStringFrom n (skipInvalid (b :: p)) := by
        rw [List.mem_cons, not_or]
        refine ⟨by decide, ih fun h ↦ hp ?_⟩
        exact (((List.dropWhile_sublist _).trans (List.drop_sublist _ _)).trans
          (List.dropWhile_sublist _)).subset h
      rw [newStringFrom]
      by_cases hb : b < 128
      · rw [if_pos hb, List.mem_cons, not_or]
        refine ⟨fun h ↦ hp ?_, hrest p (List.Subset.refl p)⟩
        have hzero : b = 0 := by
          have hnat := congrArg UInt16.toNat h
          rw [UInt8.toNat_toUInt16] at hnat
          exact UInt8.toNat_inj.mp hnat.symm
        rw [hzero]
        exact List.mem_cons_self
      · rw [if_neg hb]
        cases hdecode : unicodeFromUtf8 (b :: p) with
        | none => exact hskip
        | some found =>
          obtain ⟨c, next⟩ := found
          obtain ⟨hlarge, hnext⟩ := unicodeFromUtf8_large hb hdecode
          have hunits := zero_not_mem_codeUnits (c := c) (by omega)
          have htail := hrest next hnext
          dsimp only
          unfold codeUnits at hunits
          by_cases hbmp : c < 0x10000
          · have hunit := hunits (by omega)
            rw [if_pos hbmp] at hunit ⊢
            rw [List.mem_cons, not_or]
            exact ⟨fun h ↦ hunit (List.mem_singleton.mpr h), htail⟩
          · rw [if_neg hbmp] at hunits ⊢
            by_cases hc : c ≤ 0x10FFFF
            · have hpair := hunits hc
              rw [if_pos hc]
              simp only [List.mem_cons, List.not_mem_nil, or_false, not_or] at hpair ⊢
              exact ⟨hpair.1, hpair.2, htail⟩
            · rw [if_neg hc]
              exact hskip

end QNode.Engine
