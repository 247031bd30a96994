import QNode.Buffer.Decode
import QNode.Buffer.Subarray

/-!
# write

The number of bytes is the least of three, two of them computed in unsigned words: a negative length
becomes a huge one there and does not bound anything.
-/

open QNode.Engine Word

namespace QNode.Buffer

/-! ## How long a decoded text is -/

theorem length_unicodeToUtf8_le {c : Nat} (hc : c ≤ 0x10FFFF) : (unicodeToUtf8 c).length ≤ 4 := by
  unfold unicodeToUtf8
  dsimp only
  split
  · simp
  split
  · simp
  split
  · simp
  rw [if_pos (by omega)]
  simp

theorem length_codePoints_le (s : JsString) : (codePoints s).length ≤ s.length := by
  fun_induction codePoints s with
  | case1 => exact Nat.le_refl 0
  | case2 c => exact Nat.le_refl 1
  | case3 c c1 rest hpair ih =>
    rw [List.length_cons, List.length_cons, List.length_cons]
    omega
  | case4 c c1 rest hpair ih =>
    rw [List.length_cons, List.length_cons]
    exact Nat.succ_le_succ ih

theorem length_jsToCStringLen_le (s : JsString) : (jsToCStringLen s).length ≤ 4 * s.length := by
  have hflat : ∀ cs : List Nat, (∀ c ∈ cs, c ≤ 0x10FFFF) →
      (cs.flatMap unicodeToUtf8).length ≤ 4 * cs.length := by
    intro cs hcs
    induction cs with
    | nil => exact Nat.le_refl 0
    | cons c cs ih =>
      have hc := length_unicodeToUtf8_le (hcs c List.mem_cons_self)
      have hrest := ih fun d hd ↦ hcs d (List.mem_cons_of_mem c hd)
      rw [List.flatMap_cons, List.length_append, List.length_cons]
      omega
  rw [jsToCStringLen_eq]
  exact (hflat _ (codePoints_le s)).trans (Nat.mul_le_mul_left 4 (length_codePoints_le s))

theorem length_hexDecodePairs_le {str w : List UInt8} (h : hexDecodePairs str = some w) :
    w.length ≤ str.length := by
  fun_induction hexDecodePairs str generalizing w with
  | case1 a b src ih =>
    cases hhi : hexDigit a <;> cases hlo : hexDigit b <;> cases hrest : hexDecodePairs src <;>
      simp [hhi, hlo, hrest] at h
    have hle := ih hrest
    rw [← h, List.length_cons, List.length_cons, List.length_cons]
    omega
  | case2 str hpair =>
    rw [← Option.some.inj h]
    exact Nat.zero_le _

theorem length_base64DecodeGroup_le {a : UInt8} {b c d : Option UInt8} {w : List UInt8}
    (h : base64DecodeGroup a b c d = some w) :
    w.length ≤ 1 + c.toList.length + d.toList.length := by
  have hchar : ∀ (p : Option UInt8) (x : UInt8),
      (if (p.map b64DecodeChar).getD (-1) ≥ 0 then [x] else []).length ≤ p.toList.length := by
    intro p x
    cases p with
    | none => exact Nat.le_refl 0
    | some p =>
      split
      · exact Nat.le_refl 1
      · exact Nat.zero_le 1
  unfold base64DecodeGroup at h
  dsimp only at h
  split at h
  · cases h
  · rw [← Option.some.inj h, List.length_append, List.length_append, List.length_singleton]
    exact Nat.add_le_add (Nat.add_le_add_left (hchar c _) 1) (hchar d _)

theorem length_base64DecodeGroups_le {str w : List UInt8} (h : base64DecodeGroups str = some w) :
    w.length ≤ str.length := by
  fun_induction base64DecodeGroups str generalizing w with
  | case1 =>
    rw [← Option.some.inj h]
  | case2 a => exact length_base64DecodeGroup_le h
  | case3 a b => exact (length_base64DecodeGroup_le h).trans (Nat.le_succ 1)
  | case4 a b c => exact (length_base64DecodeGroup_le h).trans (Nat.le_succ 2)
  | case5 a b c d src ih =>
    cases hgroup : base64DecodeGroup a (some b) (some c) (some d) with
    | none => simp [hgroup] at h
    | some group =>
      cases hrest : base64DecodeGroups src with
      | none => simp [hgroup, hrest] at h
      | some rest =>
        have happend : group ++ rest = w := by simpa [hgroup, hrest] using h
        have hfirst : group.length ≤ 3 := length_base64DecodeGroup_le hgroup
        have hle := ih hrest
        rw [← happend, List.length_append, List.length_cons, List.length_cons, List.length_cons,
          List.length_cons]
        omega

theorem length_decodeText_le {str w : List UInt8} {enc : Encoding}
    (h : decodeText str enc = some w) : w.length ≤ str.length := by
  cases enc with
  | utf8 | ascii | latin1 => rw [← Option.some.inj h]
  | unknown => cases h
  | base64 | base64url =>
    have hstrip : (stripPadding str).length ≤ str.length :=
      (List.rdropWhile_prefix (· == pad) str).length_le
    exact (length_base64DecodeGroups_le h).trans hstrip
  | hex =>
    by_cases hodd : str.length % 2 ≠ 0
    · simp [decodeText, hodd] at h
    · simp only [decodeText, if_neg hodd] at h
      exact length_hexDecodePairs_le h

/-! ## What the method promises -/

/-- A string and the bytes it stands for in an encoding. -/
structure EncodedText where
  text : JsString
  -- the number the string parses to, which nothing here depends on
  parsed : Int64
  enc : JsArg
  bytes : List UInt8
  decodes : decodeText (jsToCStringLen text) (encodingOf enc) = some bytes
  bounded : text.length ≤ jsStringLenMax

namespace EncodedText

theorem length_bytes_lt (t : EncodedText) : t.bytes.length < 2 ^ 32 := by
  have hbytes := length_decodeText_le t.decodes
  have htext := length_jsToCStringLen_le t.text
  have hbound := t.bounded
  unfold jsStringLenMax at hbound
  omega

/-- The length that is asked for; without one, all of the text. -/
def asked (t : EncodedText) (len : Option Int64) : Int :=
  (len.map Int64.toInt).getD t.bytes.length

theorem asked_range (t : EncodedText) (len : Option Int64) :
    -2 ^ 63 ≤ t.asked len ∧ t.asked len < 2 ^ 63 := by
  have hbytes := t.length_bytes_lt
  cases len with
  | none =>
    show -2 ^ 63 ≤ (t.bytes.length : Int) ∧ (t.bytes.length : Int) < 2 ^ 63
    omega
  | some n => exact ⟨n.le_toInt, n.toInt_lt⟩

variable {heap : Heap} (t : EncodedText) (b : LiveView heap) (off : Int64) (len : Option Int64)

def run : Ran Int :=
  jsBufferWrite heap b.toView.arg [.string t.text t.parsed, .number off, JsArg.ofNumber len, t.enc]

/-- The number of bytes that there should be written. -/
def count : Nat :=
  (min (max (t.asked len) 0) (min t.bytes.length (b.length - off.toInt))).toNat

/-- From an offset outside the Buffer nothing is written; from one inside, as many bytes as were asked
for and the text and the Buffer have, and every other byte of the heap is kept. -/
structure Written : Prop where
  outside : off.toInt < 0 ∨ b.length ≤ off.toInt →
    (t.run b off len).result = .ok 0 ∧ (t.run b off len).heap = heap
  returns : 0 ≤ off.toInt → off.toInt < b.length → (t.run b off len).result = .ok (t.count b off len)
  stored : 0 ≤ off.toInt → off.toInt < b.length → ∀ i < t.count b off len,
    b.toView.byteAt (t.run b off len).heap (off.toInt.toNat + i) = t.bytes[i]?
  kept : 0 ≤ off.toInt → off.toInt < b.length → ∀ c j,
    ¬ (c = b.buffer ∧ b.offset + off.toInt.toNat ≤ j ∧
      j < b.offset + off.toInt.toNat + t.count b off len) →
    ((t.run b off len).heap c).data[j]? = (heap c).data[j]?

/-- The number of bytes that are written. -/
def toWrite : Nat :=
  let toWrite := if sizeT (t.asked len) < t.bytes.length then sizeT (t.asked len) else t.bytes.length
  if off.toInt.toNat + toWrite > b.length then b.length - off.toInt.toNat else toWrite

theorem run_args : argAt [.string t.text t.parsed, .number off, JsArg.ofNumber len, t.enc] 0 =
      .string t.text t.parsed ∧
    argAt [.string t.text t.parsed, .number off, JsArg.ofNumber len, t.enc] 3 = t.enc := ⟨rfl, rfl⟩

theorem run_abort (hnil : t.bytes = []) : t.run b off len = ⟨.abort, heap, []⟩ := by
  have hdecodes := t.decodes
  rw [hnil] at hdecodes
  have habort : jsBufferStringToBytes (jsToCStringLen t.text) (encodingOf t.enc) = .abort := by
    rw [jsBufferStringToBytes_eq, if_pos hdecodes]
  obtain ⟨hargs, henc⟩ := t.run_args off len
  rw [run, jsBufferWrite, hargs, henc]
  dsimp only
  rw [habort]

theorem run_of_bytes (hsome : t.bytes ≠ []) :
    t.run b off len =
      if off.toInt < 0 ∨ off.toInt.toNat ≥ b.length then ⟨.ok 0, heap, []⟩
      else ⟨.ok (int32 (t.toWrite b off len)),
        b.toView.write heap off.toInt.toNat (t.bytes.take (t.toWrite b off len)),
        [b.toView.access heap off.toInt.toNat (t.toWrite b off len)]⟩ := by
  have hdecodes : jsBufferStringToBytes (jsToCStringLen t.text) (encodingOf t.enc) =
      .ok (some t.bytes) := by
    rw [jsBufferStringToBytes_eq, t.decodes, if_neg (mt Option.some.inj hsome)]
  have hfirst : jsToInt64Or heap
      (argAt [.string t.text t.parsed, .number off, JsArg.ofNumber len, t.enc] 1) 0 =
        (off.toInt, heap) := rfl
  have hsecond : jsToInt64Or heap
      (argAt [.string t.text t.parsed, .number off, JsArg.ofNumber len, t.enc] 2) t.bytes.length =
        (t.asked len, heap) := jsToInt64Or_ofNumber heap len t.bytes.length
  obtain ⟨hargs, henc⟩ := t.run_args off len
  rw [run, jsBufferWrite, hargs, henc]
  dsimp only
  rw [hdecodes]
  dsimp only
  rw [b.getBytes]
  dsimp only
  rw [hfirst]
  dsimp only
  rw [hsecond]
  rfl

variable {t b off len}

variable (t len) in
theorem toWrite_fits (hin : 0 ≤ off.toInt) (hlt : off.toInt < b.length) :
    off.toInt.toNat + t.toWrite b off len ≤ b.length ∧ t.toWrite b off len ≤ t.bytes.length := by
  unfold toWrite
  dsimp only
  split <;> split <;> omega

-- For a length that is not negative the words do not differ from the numbers.
theorem toWrite_eq_count (hin : 0 ≤ off.toInt) (hlt : off.toInt < b.length) (hlen : 0 ≤ t.asked len) :
    t.toWrite b off len = t.count b off len := by
  have hrange := t.asked_range len
  have hsize : (sizeT (t.asked len) : Int) = t.asked len := by
    rw [sizeT_of_nonneg hlen (by omega)]
    omega
  unfold toWrite count
  dsimp only
  split <;> split <;> omega

-- A negative length asks for everything.
theorem toWrite_of_neg (hin : 0 ≤ off.toInt) (hlt : off.toInt < b.length) (hlen : t.asked len < 0)
    (hsome : t.bytes ≠ []) : 0 < t.toWrite b off len ∧ t.count b off len = 0 := by
  have hrange := t.asked_range len
  have hsize : sizeT (t.asked len) = (t.asked len + 2 ^ 64).toNat :=
    sizeT_of_neg hlen (by omega)
  have hbytes := t.length_bytes_lt
  have hpos := List.length_pos_iff.mpr hsome
  unfold toWrite count
  dsimp only
  rw [hsize]
  split <;> split <;> omega

theorem written_of_count (hsome : t.bytes ≠ [])
    (hcount : 0 ≤ off.toInt → off.toInt < b.length → t.toWrite b off len = t.count b off len) :
    t.Written b off len := by
  have hrun := t.run_of_bytes b off len hsome
  have hinside := b.inside
  have hshort := b.toView.length_lt
  have hwrite : ∀ (_ : 0 ≤ off.toInt) (_ : off.toInt < b.length), t.run b off len =
      ⟨.ok (t.count b off len),
        b.toView.write heap off.toInt.toNat (t.bytes.take (t.count b off len)),
        [b.toView.access heap off.toInt.toNat (t.count b off len)]⟩ := by
    intro hin hlt
    have hfits := toWrite_fits t len hin hlt
    rw [hcount hin hlt] at hfits
    rw [hrun, if_neg (by omega), hcount hin hlt, int32_of_range (by omega) (by omega)]
  have hlength : ∀ (_ : 0 ≤ off.toInt) (_ : off.toInt < b.length),
      (t.bytes.take (t.count b off len)).length = t.count b off len ∧
        off.toInt.toNat + t.count b off len ≤ b.length := by
    intro hin hlt
    have hfits := toWrite_fits t len hin hlt
    rw [hcount hin hlt] at hfits
    rw [List.length_take]
    omega
  constructor
  · intro hout
    rw [hrun, if_pos (by omega)]
    exact ⟨rfl, rfl⟩
  · intro hin hlt
    rw [hwrite hin hlt]
  · intro hin hlt i hi
    obtain ⟨htake, hfits⟩ := hlength hin hlt
    rw [hwrite hin hlt, View.write_inside (by rw [htake]; omega) (by rw [htake]; exact hi),
      List.getElem?_take_of_lt hi]
  · intro hin hlt c j hout
    obtain ⟨htake, hfits⟩ := hlength hin hlt
    rw [hwrite hin hlt]
    exact View.write_outside (by rw [htake]; omega) (by rw [htake]; exact hout)

variable (t b off len)

end EncodedText

/-- The text `ab` as UTF-8. -/
def EncodedText.ab : EncodedText :=
  ⟨[97, 98], 0, .undefined, [97, 98], by decide, by decide⟩

end QNode.Buffer
