import QNode.Buffer.Encoding

/-!
# The base64 round trip

The encoder emits groups of four characters; without the padding of its last group the text is
`base64Body`.  Decoding the body, one group at a time, gives the bytes back.
-/

open QNode.Engine Sextets

namespace QNode.Buffer

variable (urlSafe : Bool)

theorem b64DecodeChar_table {v : Nat} (hv : v < 64) :
    b64DecodeChar ((base64Table urlSafe).getD v 0) = v := by
  have hall : ∀ (u : Bool) (i : Fin 64), b64DecodeChar ((base64Table u).getD i 0) = (i : Nat) := by
    decide +kernel
  exact hall urlSafe ⟨v, hv⟩

theorem base64Table_getD {v : Nat} (hv : v < 64) :
    (base64Table urlSafe).getD v 0 ∈ base64Table urlSafe := by
  have hall : ∀ (u : Bool) (i : Fin 64), (base64Table u).getD i 0 ∈ base64Table u := by
    decide +kernel
  exact hall urlSafe ⟨v, hv⟩

theorem base64Table_text : ∀ c ∈ base64Table urlSafe, c < 128 ∧ c ≠ pad := by
  revert urlSafe
  decide +kernel

/-! ## One group -/

section Group

variable {a b c d : UInt8} {x y z w : Nat}

theorem base64DecodeGroup_full (ha : b64DecodeChar a = x) (hb : b64DecodeChar b = y)
    (hc : b64DecodeChar c = z) (hd : b64DecodeChar d = w) :
    base64DecodeGroup a (some b) (some c) (some d) =
      some [UInt8.ofNat (octet (pack6 x y z w) 16), UInt8.ofNat (octet (pack6 x y z w) 8),
        UInt8.ofNat (octet (pack6 x y z w) 0)] := by
  have hnonneg : ∀ n : Nat, ¬ (n : Int) < 0 := by omega
  simp only [base64DecodeGroup, Option.map_some, Option.getD_some, ha, hb, hc, hd, hnonneg, or_self,
    if_false, ge_iff_le, Int.natCast_nonneg, if_true, Int.toNat_natCast, List.cons_append,
    List.nil_append]

theorem base64DecodeGroup_three (ha : b64DecodeChar a = x) (hb : b64DecodeChar b = y)
    (hc : b64DecodeChar c = z) :
    base64DecodeGroup a (some b) (some c) none =
      some [UInt8.ofNat (octet (pack6 x y z 0) 16), UInt8.ofNat (octet (pack6 x y z 0) 8)] := by
  have hnonneg : ∀ n : Nat, ¬ (n : Int) < 0 := by omega
  simp only [base64DecodeGroup, Option.map_some, Option.map_none, Option.getD_some,
    Option.getD_none, ha, hb, hc, hnonneg, or_self, if_false, ge_iff_le, Int.natCast_nonneg,
    if_true, Int.toNat_natCast, List.cons_append, List.nil_append,
    show ¬ (0 : Int) ≤ -1 by decide, List.append_nil]

theorem base64DecodeGroup_two (ha : b64DecodeChar a = x) (hb : b64DecodeChar b = y) :
    base64DecodeGroup a (some b) none none = some [UInt8.ofNat (octet (pack6 x y 0 0) 16)] := by
  have hnonneg : ∀ n : Nat, ¬ (n : Int) < 0 := by omega
  simp only [base64DecodeGroup, Option.map_some, Option.map_none, Option.getD_some,
    Option.getD_none, ha, hb, hnonneg, or_self, if_false, ge_iff_le, Int.toNat_natCast,
    List.append_nil, show ¬ (0 : Int) ≤ -1 by decide]

end Group

/-! ## The text without padding -/

def base64Body : List UInt8 → List UInt8
  | [] => []
  | [a] =>
    let w := pack8 a.toNat 0 0
    [(base64Table urlSafe).getD (sextet w 18) 0, (base64Table urlSafe).getD (sextet w 12) 0]
  | [a, b] =>
    let w := pack8 a.toNat b.toNat 0
    [(base64Table urlSafe).getD (sextet w 18) 0, (base64Table urlSafe).getD (sextet w 12) 0,
      (base64Table urlSafe).getD (sextet w 6) 0]
  | a :: b :: c :: src =>
    let w := pack8 a.toNat b.toNat c.toNat
    [(base64Table urlSafe).getD (sextet w 18) 0, (base64Table urlSafe).getD (sextet w 12) 0,
      (base64Table urlSafe).getD (sextet w 6) 0, (base64Table urlSafe).getD (sextet w 0) 0] ++
      base64Body src

def padCount (n : Nat) : Nat := (3 - n % 3) % 3

theorem base64EncodeText_eq (src : List UInt8) :
    base64EncodeText src urlSafe =
      base64Body urlSafe src ++ List.replicate (padCount src.length) pad := by
  unfold base64EncodeText
  induction src using base64Body.induct with
  | case1 => rfl
  | case2 a => rfl
  | case3 a b => rfl
  | case4 a b c src ih =>
    have hpad : padCount (a :: b :: c :: src).length = padCount src.length := by
      simp only [padCount, List.length_cons]
      omega
    rw [base64EncodeGroups, ih, hpad]
    rfl

theorem base64Body_mem (src : List UInt8) : ∀ c ∈ base64Body urlSafe src, c ∈ base64Table urlSafe := by
  have hget : ∀ w k, (base64Table urlSafe).getD (sextet w k) 0 ∈ base64Table urlSafe :=
    fun w k ↦ base64Table_getD urlSafe (sextet_lt w k)
  induction src using base64Body.induct with
  | case1 => simp [base64Body]
  | case2 a =>
    intro x hx
    simp only [base64Body, List.mem_cons, List.not_mem_nil, or_false] at hx
    rcases hx with rfl | rfl <;> exact hget _ _
  | case3 a b =>
    intro x hx
    simp only [base64Body, List.mem_cons, List.not_mem_nil, or_false] at hx
    rcases hx with rfl | rfl | rfl <;> exact hget _ _
  | case4 a b c src ih =>
    intro x hx
    rw [base64Body] at hx
    rcases List.mem_append.mp hx with hx | hx
    · simp only [List.mem_cons, List.not_mem_nil, or_false] at hx
      rcases hx with rfl | rfl | rfl | rfl <;> exact hget _ _
    · exact ih x hx

theorem base64EncodeText_length (src : List UInt8) :
    (base64EncodeText src urlSafe).length = 4 * ((src.length + 2) / 3) := by
  unfold base64EncodeText
  induction src using base64Body.induct with
  | case1 => rfl
  | case2 a =>
    rw [base64EncodeGroups]
    simp only [base64EncodeGroup, List.length_cons, List.length_nil]
  | case3 a b =>
    rw [base64EncodeGroups]
    simp only [base64EncodeGroup, List.length_cons, List.length_nil]
  | case4 a b c src ih =>
    rw [base64EncodeGroups, List.length_append, ih]
    simp only [base64EncodeGroup, List.length_cons, List.length_nil]
    omega

theorem base64EncodeText_ascii (src : List UInt8) : Ascii (base64EncodeText src urlSafe) := by
  intro c hc
  rw [base64EncodeText_eq] at hc
  rcases List.mem_append.mp hc with hc | hc
  · exact (base64Table_text urlSafe c (base64Body_mem urlSafe src c hc)).1
  · rw [(List.mem_replicate.mp hc).2]
    decide

/-! ## Decoding the body -/

theorem base64DecodeGroups_body (src : List UInt8) :
    base64DecodeGroups (base64Body urlSafe src) = some src := by
  have hget : ∀ w k, b64DecodeChar ((base64Table urlSafe).getD (sextet w k) 0) = sextet w k :=
    fun w k ↦ b64DecodeChar_table urlSafe (sextet_lt w k)
  induction src using base64Body.induct with
  | case1 => rfl
  | case2 a =>
    have ha := a.toNat_lt
    have hbyte := (octet_pack8 ha (show 0 < 256 by decide) (show 0 < 256 by decide)).1
    rw [base64Body, base64DecodeGroups,
      base64DecodeGroup_two (hget _ _) (hget _ _), octet_pack6_short, hbyte, UInt8.ofNat_toNat]
  | case3 a b =>
    obtain ⟨hhi, hlo, -⟩ := octet_pack8 a.toNat_lt b.toNat_lt (show 0 < 256 by decide)
    have hkeep := octet_pack6_medium (pack8 a.toNat b.toNat 0)
    rw [base64Body, base64DecodeGroups,
      base64DecodeGroup_three (hget _ _) (hget _ _) (hget _ _), hkeep.1, hkeep.2, hhi, hlo,
      UInt8.ofNat_toNat, UInt8.ofNat_toNat]
  | case4 a b c src ih =>
    obtain ⟨h16, h8, h0⟩ := octet_pack8 a.toNat_lt b.toNat_lt c.toNat_lt
    have hword := pack6_sextets (pack8_lt a.toNat_lt b.toNat_lt c.toNat_lt)
    rw [base64Body, List.cons_append, List.cons_append, List.cons_append, List.cons_append,
      List.nil_append, base64DecodeGroups,
      base64DecodeGroup_full (hget _ _) (hget _ _) (hget _ _) (hget _ _), hword, h16, h8, h0, ih,
      UInt8.ofNat_toNat, UInt8.ofNat_toNat, UInt8.ofNat_toNat]
    rfl

-- Trailing padding goes, and nothing else.
theorem rdropWhile_replicate {α : Type} {p : α → Bool} {x : α} {l : List α} (hx : p x = true)
    (hl : ∀ y ∈ l, p y = false) (k : Nat) : (l ++ List.replicate k x).rdropWhile p = l := by
  induction k with
  | zero =>
    rw [List.replicate_zero, List.append_nil, List.rdropWhile_eq_self_iff]
    intro hne
    rw [hl _ (List.getLast_mem hne)]
    exact Bool.false_ne_true
  | succ k ih =>
    rw [List.replicate_succ', ← List.append_assoc, List.rdropWhile_concat_pos _ _ _ hx, ih]

theorem stripPadding_body (src : List UInt8) (k : Nat) :
    stripPadding (base64Body urlSafe src ++ List.replicate k pad) = base64Body urlSafe src := by
  apply rdropWhile_replicate (p := fun c ↦ c == pad) (beq_self_eq_true pad)
  intro c hc
  exact beq_false_of_ne (base64Table_text urlSafe c (base64Body_mem urlSafe src c hc)).2

theorem base64Body_ne_nil {src : List UInt8} (h : src ≠ []) : base64Body urlSafe src ≠ [] := by
  match src with
  | [a] => exact List.cons_ne_nil _ _
  | [a, b] => exact List.cons_ne_nil _ _
  | a :: b :: c :: src => exact List.cons_ne_nil _ _

-- The decoder undoes the encoder, whatever number of padding characters is left.
theorem jsBufferBase64Decode_body {src : List UInt8} (h : src ≠ []) (k : Nat) :
    jsBufferBase64Decode (base64Body urlSafe src ++ List.replicate k pad) = .ok (some src) := by
  have hpos : 0 < (base64Body urlSafe src).length :=
    List.length_pos_iff.mpr (base64Body_ne_nil urlSafe h)
  rw [jsBufferBase64Decode, stripPadding_body, withBlock_pos (by omega), base64DecodeGroups_body]

/-! ## Through JavaScript strings -/

def base64Name (urlSafe : Bool) : String := if urlSafe then "base64url" else "base64"

theorem jsBufferBytesToString_base64 (b : List UInt8) :
    jsBufferBytesToString b (getEncodingId (some (base64Name urlSafe))) =
      jsNewStringLen (base64EncodeText b urlSafe) := by
  cases urlSafe with
  | false => rfl
  | true => rfl

-- Any part of the padding may be missing, and either decoder reads either alphabet.
theorem jsBufferFromString_base64 {b : List UInt8} (hb : b ≠ []) (e : Bool) (k : Nat) :
    jsBufferFromString ((base64Body urlSafe b ++ List.replicate k pad).map UInt8.toUInt16)
      (some (base64Name e)) = .ok b := by
  have hascii : Ascii (base64Body urlSafe b ++ List.replicate k pad) := by
    intro c hc
    rcases List.mem_append.mp hc with hc | hc
    · exact (base64Table_text urlSafe c (base64Body_mem urlSafe b c hc)).1
    · rw [(List.mem_replicate.mp hc).2]
      decide
  have hdecode : ∀ s, jsBufferStringToBytes s (getEncodingId (some (base64Name e))) =
      jsBufferBase64Decode s := by
    intro s
    cases e with
    | false => rfl
    | true => rfl
  rw [jsBufferFromString, jsToCStringLen_ascii hascii, hdecode,
    jsBufferBase64Decode_body urlSafe hb]

/-- The round trip of a Buffer through base64 text: for as long as the text fits a string, it has
the expected length and alphabet, and decoding it gives the bytes back, with all, some or none of
its padding. -/
theorem base64_round_trip (b : List UInt8) (hlen : 4 * ((b.length + 2) / 3) ≤ jsStringLenMax) :
    ∃ body k, k ≤ 2 ∧
      jsBufferBytesToString b (getEncodingId (some (base64Name urlSafe))) =
        .ok ((body ++ List.replicate k pad).map UInt8.toUInt16) ∧
      (body ++ List.replicate k pad).length = 4 * ((b.length + 2) / 3) ∧
      (∀ c ∈ body, c ∈ base64Table urlSafe) ∧
      (b ≠ [] → ∀ e j, j ≤ k →
        jsBufferFromString ((body ++ List.replicate j pad).map UInt8.toUInt16)
          (some (base64Name e)) = .ok b) := by
  refine ⟨base64Body urlSafe b, padCount b.length, ?_, ?_, ?_, base64Body_mem urlSafe b, ?_⟩
  · unfold padCount
    omega
  · rw [jsBufferBytesToString_base64, ← base64EncodeText_eq]
    exact jsNewStringLen_ascii (base64EncodeText_ascii urlSafe b)
      (by rw [base64EncodeText_length]; exact hlen)
  · rw [← base64EncodeText_eq, base64EncodeText_length]
  · intro hb e j _
    exact jsBufferFromString_base64 urlSafe hb e j

theorem base64_round_trip_hello :
    ∃ body k, k ≤ 2 ∧
      jsBufferBytesToString [72, 101, 108, 108, 111] (getEncodingId (some (base64Name false))) =
        .ok ((body ++ List.replicate k pad).map UInt8.toUInt16) ∧
      (body ++ List.replicate k pad).length = 8 ∧
      (∀ c ∈ body, c ∈ base64Table false) ∧
      ([72, 101, 108, 108, 111] ≠ ([] : List UInt8) → ∀ e j, j ≤ k →
        jsBufferFromString ((body ++ List.replicate j pad).map UInt8.toUInt16)
          (some (base64Name e)) = .ok [72, 101, 108, 108, 111]) :=
  base64_round_trip false [72, 101, 108, 108, 111] (by decide)

/-- A text longer than the longest string is refused, so a Buffer of that size has no base64. -/
theorem base64_text_too_long :
    ¬ ∀ b : List UInt8, ∃ s, jsBufferBytesToString b (getEncodingId (some "base64")) = .ok s := by
  intro h
  obtain ⟨s, hs⟩ := h (List.replicate 805306366 0)
  have htext : jsStringLenMax < (base64EncodeText (List.replicate 805306366 0) false).length := by
    rw [base64EncodeText_length, List.length_replicate]
    decide
  have hthrow := jsNewStringLen_ascii_long (base64EncodeText_ascii false _) htext
  have hcall := jsBufferBytesToString_base64 false (List.replicate 805306366 0)
  rw [hthrow] at hcall
  cases hcall.symm.trans hs

end QNode.Buffer
