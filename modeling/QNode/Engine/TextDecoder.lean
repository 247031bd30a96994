import QNode.Engine.Utf8
import QNode.Library.Decoders

/-!
# The decoder of UTF-8 text

`JS_NewStringLen` as a decoder that takes one character, or one run of bytes that make none, at a
time.
-/

namespace QNode.Engine

def replacement : UInt16 := 0xfffd

/-- The character that a first byte and the bytes after it make. -/
def character (b : UInt8) (p : List UInt8) : Option (Nat × List UInt8) :=
  (unicodeFromUtf8 (b :: p)).filter fun r ↦ r.1 ≤ 0x10FFFF

def textStep (b : UInt8) (p : List UInt8) : JsString × List UInt8 :=
  if b < 128 then ([b.toUInt16], p)
  else match character b p with
    | some (c, next) => (codeUnits c, next)
    | none => ([replacement], skipInvalid (b :: p))

/-! ## One character -/

theorem utf8Form_length {b : UInt8} {l mask min : Nat} (h : utf8Form b = some (l, mask, min)) :
    (l = 1 ∧ mask = 0x1f ∨ l = 2 ∧ mask = 0xf ∨ 3 ≤ l) ∧ isContinuation b = false := by
  rw [utf8Form_eq] at h
  have hcont : isContinuation b = false ↔ ¬(128 ≤ b.toNat ∧ b.toNat < 192) := by
    simp only [isContinuation, Bool.and_eq_false_iff, decide_eq_false_iff_not, UInt8.le_iff_toNat_le,
      UInt8.lt_iff_toNat_lt, UInt8.reduceToNat]
    omega
  rw [hcont]
  repeat' split at h
  all_goals simp only [Option.some.injEq, Prod.mk.injEq, reduceCtorEq] at h
  all_goals omega

-- What a character is made of: the announced number of continuation bytes.
theorem unicodeFromUtf8_eq_some {b : UInt8} (hb : ¬b < 128) {p next : List UInt8} {c : Nat} :
    unicodeFromUtf8 (b :: p) = some (c, next) ↔ ∃ l mask min, utf8Form b = some (l, mask, min) ∧
      l ≤ p.length ∧ (p.take l).all isContinuation ∧
      c = (p.take l).foldl (fun acc b ↦ (acc <<< 6) ||| (b.toNat &&& 0x3f)) (b.toNat &&& mask) ∧
      min ≤ c ∧ next = p.drop l := by
  rw [unicodeFromUtf8, if_neg hb]
  cases hform : utf8Form b with
  | none => simp
  | some form =>
    obtain ⟨l, mask, min⟩ := form
    simp only [bind, Option.bind, Option.some.injEq, Prod.mk.injEq]
    by_cases hlen : p.length < l
    · rw [if_pos hlen]
      apply iff_of_false (by simp)
      rintro ⟨_, _, _, ⟨rfl, -, -⟩, hle, -⟩
      omega
    rw [if_neg hlen]
    by_cases hall : (p.take l).all isContinuation = true
    · rw [if_pos hall, Option.ite_none_left_eq_some, Option.some.injEq, Prod.mk.injEq]
      constructor
      · rintro ⟨hmin, rfl, rfl⟩
        exact ⟨l, mask, min, ⟨rfl, rfl, rfl⟩, by omega, hall, rfl, by omega, rfl⟩
      · rintro ⟨_, _, _, ⟨rfl, rfl, rfl⟩, -, -, rfl, hmin, rfl⟩
        exact ⟨by omega, rfl, rfl⟩
    · rw [if_neg hall]
      apply iff_of_false (by simp)
      rintro ⟨_, _, _, ⟨rfl, -, -⟩, -, hall', -⟩
      exact hall hall'

-- More bytes do not change a character that is there already.
theorem unicodeFromUtf8_append {b : UInt8} (hb : ¬b < 128) {p next : List UInt8} {c : Nat}
    (h : unicodeFromUtf8 (b :: p) = some (c, next)) (v : List UInt8) :
    unicodeFromUtf8 (b :: (p ++ v)) = some (c, next ++ v) := by
  obtain ⟨l, mask, min, hform, hlen, hall, hc, hmin, rfl⟩ := (unicodeFromUtf8_eq_some hb).mp h
  apply (unicodeFromUtf8_eq_some hb).mpr
  refine ⟨l, mask, min, hform, ?_, ?_, ?_, hmin, ?_⟩
  · rw [List.length_append]
    exact Nat.le_add_right_of_le hlen
  · rw [List.take_append_of_le_length hlen]
    exact hall
  · rw [List.take_append_of_le_length hlen]
    exact hc
  · rw [List.drop_append_of_le_length hlen]

-- A character does not depend on the bytes after it.
theorem unicodeFromUtf8_of_append {b : UInt8} (hb : ¬b < 128) {p v r : List UInt8} {c : Nat}
    (h : unicodeFromUtf8 (b :: (p ++ v)) = some (c, r ++ v)) :
    unicodeFromUtf8 (b :: p) = some (c, r) := by
  obtain ⟨l, mask, min, hform, hlen, hall, hc, hmin, hnext⟩ := (unicodeFromUtf8_eq_some hb).mp h
  have hle : l ≤ p.length := by
    have hlength := congrArg List.length hnext
    rw [List.length_append, List.length_drop, List.length_append] at hlength
    rw [List.length_append] at hlen
    omega
  rw [List.take_append_of_le_length hle] at hall hc
  rw [List.drop_append_of_le_length hle] at hnext
  exact (unicodeFromUtf8_eq_some hb).mpr
    ⟨l, mask, min, hform, hle, hall, hc, hmin, List.append_cancel_right hnext⟩

theorem character_eq_some {b : UInt8} {p next : List UInt8} {c : Nat} :
    character b p = some (c, next) ↔ unicodeFromUtf8 (b :: p) = some (c, next) ∧ c ≤ 0x10FFFF := by
  rw [character, Option.filter_eq_some_iff]
  simp

theorem character_append {b : UInt8} (hb : ¬b < 128) {p next : List UInt8} {c : Nat}
    (h : character b p = some (c, next)) (v : List UInt8) :
    character b (p ++ v) = some (c, next ++ v) := by
  obtain ⟨h, hc⟩ := character_eq_some.mp h
  exact character_eq_some.mpr ⟨unicodeFromUtf8_append hb h v, hc⟩

theorem character_of_append {b : UInt8} (hb : ¬b < 128) {p v r : List UInt8} {c : Nat}
    (h : character b (p ++ v) = some (c, r ++ v)) : character b p = some (c, r) := by
  obtain ⟨h, hc⟩ := character_eq_some.mp h
  exact character_eq_some.mpr ⟨unicodeFromUtf8_of_append hb h, hc⟩

/-! ## What is skipped -/

theorem dropWhile_of_append {q : UInt8 → Bool} {p v r : List UInt8}
    (h : (p ++ v).dropWhile q = r ++ v) : p.dropWhile q = r := by
  induction p with
  | nil =>
    have hlen := (List.dropWhile_suffix (l := v) q).length_le
    rw [List.nil_append] at h
    rw [h, List.length_append] at hlen
    exact (List.eq_nil_of_length_eq_zero (by omega)).symm
  | cons a p ih =>
    rw [List.cons_append, List.dropWhile_cons] at h
    rw [List.dropWhile_cons]
    split at h
    · next hq => rw [if_pos hq, ih h]
    · next hq =>
      rw [if_neg hq]
      exact List.append_cancel_right h

theorem skipInvalid_suffix (b : UInt8) (p : List UInt8) : skipInvalid (b :: p) <:+ p := by
  unfold skipInvalid
  apply (List.dropWhile_suffix _).trans
  rw [List.dropWhile_cons]
  split
  · exact (List.drop_suffix 1 _).trans (List.dropWhile_suffix _)
  · exact List.suffix_rfl

theorem skipInvalid_of_append {b : UInt8} {p v r : List UInt8}
    (h : skipInvalid (b :: (p ++ v)) = r ++ v) : skipInvalid (b :: p) = r := by
  unfold skipInvalid at h ⊢
  rw [List.dropWhile_cons] at h ⊢
  by_cases hb : isContinuation b = true
  · rw [if_pos hb] at h ⊢
    -- the skipped run of continuation bytes may end inside `p` or reach its end
    cases hp : p.dropWhile isContinuation with
    | nil =>
      have hrun : (p ++ v).dropWhile isContinuation = v.dropWhile isContinuation := by
        rw [List.dropWhile_append, hp, List.isEmpty_nil, if_pos rfl]
      rw [hrun] at h
      have hlen := (((List.dropWhile_suffix isContinuation).trans (List.drop_suffix 1 _)).trans
        (List.dropWhile_suffix (l := v) isContinuation)).length_le
      rw [h, List.length_append] at hlen
      exact (List.eq_nil_of_length_eq_zero (by omega)).symm
    | cons y t =>
      have hrun : (p ++ v).dropWhile isContinuation = y :: (t ++ v) := by
        rw [List.dropWhile_append, hp, List.isEmpty_cons, if_neg Bool.false_ne_true, List.cons_append]
      rw [hrun] at h
      exact dropWhile_of_append h
  · rw [if_neg hb] at h ⊢
    exact dropWhile_of_append h

/-! ## The decoder -/

theorem textStep_ascii {b : UInt8} (hb : b < 128) (p : List UInt8) :
    textStep b p = ([b.toUInt16], p) := if_pos hb

theorem textStep_some {b : UInt8} (hb : ¬b < 128) {p next : List UInt8} {c : Nat}
    (h : character b p = some (c, next)) : textStep b p = (codeUnits c, next) := by
  rw [textStep, if_neg hb, h]

theorem textStep_none {b : UInt8} (hb : ¬b < 128) {p : List UInt8} (h : character b p = none) :
    textStep b p = ([replacement], skipInvalid (b :: p)) := by
  rw [textStep, if_neg hb, h]

theorem character_suffix {b : UInt8} (hb : ¬b < 128) {p next : List UInt8} {c : Nat}
    (h : character b p = some (c, next)) : next <:+ p := by
  obtain ⟨l, _, _, -, -, -, -, -, rfl⟩ :=
    (unicodeFromUtf8_eq_some hb).mp (character_eq_some.mp h).1
  exact List.drop_suffix l p

theorem textStep_suffix (b : UInt8) (p : List UInt8) : (textStep b p).2 <:+ p := by
  by_cases hb : b < 128
  · rw [textStep_ascii hb]
  cases h : character b p with
  | none =>
    rw [textStep_none hb h]
    exact skipInvalid_suffix b p
  | some r =>
    rw [textStep_some hb h]
    exact character_suffix hb h

def textDecoder : Decoder UInt8 UInt16 where
  step := textStep
  suffix := textStep_suffix

theorem newStringFrom_cons (n : Nat) (b : UInt8) (p : List UInt8) :
    newStringFrom (n + 1) (b :: p) = (textStep b p).1 ++ newStringFrom n (textStep b p).2 := by
  rw [newStringFrom]
  by_cases hb : b < 128
  · rw [if_pos hb, textStep_ascii hb]
    rfl
  rw [if_neg hb]
  cases h : unicodeFromUtf8 (b :: p) with
  | none =>
    have hnone : character b p = none := by rw [character, h, Option.filter_none]
    rw [textStep_none hb hnone]
    rfl
  | some r =>
    obtain ⟨c, next⟩ := r
    dsimp only
    by_cases hc : c ≤ 0x10FFFF
    · rw [textStep_some hb (character_eq_some.mpr ⟨h, hc⟩), codeUnits]
      by_cases hbmp : c < 0x10000
      · rw [if_pos hbmp, if_pos hbmp]
        rfl
      · rw [if_neg hbmp, if_neg hbmp, if_pos hc]
        rfl
    · have hnone : character b p = none := by
        rw [character, h, Option.filter_some_neg (by simpa using hc)]
      rw [textStep_none hb hnone, if_neg (by omega), if_neg hc]
      rfl

theorem newStringFrom_eq_decode {n : Nat} {p : List UInt8} (hn : p.length ≤ n) :
    newStringFrom n p = textDecoder.decode p := by
  induction n generalizing p with
  | zero =>
    rw [List.eq_nil_of_length_eq_zero (Nat.le_zero.mp hn), Decoder.decode_nil]
    rfl
  | succ n ih =>
    cases p with
    | nil =>
      rw [Decoder.decode_nil]
      rfl
    | cons b p =>
      have hlen := (textStep_suffix b p).length_le
      rw [List.length_cons] at hn
      rw [newStringFrom_cons, Decoder.decode_cons, ih (by omega)]
      rfl

theorem textDecoder_local : textDecoder.Local := by
  intro b u v r h
  show textStep b u = ((textStep b (u ++ v)).1, r)
  replace h : (textStep b (u ++ v)).2 = r ++ v := h
  by_cases hb : b < 128
  · rw [textStep_ascii hb] at h
    rw [textStep_ascii hb, textStep_ascii hb, List.append_cancel_right h]
  cases hwhole : character b (u ++ v) with
  | some whole =>
    obtain ⟨c, next⟩ := whole
    rw [textStep_some hb hwhole] at h ⊢
    rw [show next = r ++ v from h] at hwhole
    rw [textStep_some hb (character_of_append hb hwhole)]
  | none =>
    have hnone : character b u = none := by
      rw [Option.eq_none_iff_forall_not_mem]
      intro part hpart
      rw [character_append hb hpart v] at hwhole
      simp at hwhole
    rw [textStep_none hb hwhole] at h ⊢
    rw [textStep_none hb hnone, skipInvalid_of_append h]

theorem textDecoder_marked : textDecoder.Marked replacement := by
  intro b u v h
  show replacement ∈ (textStep b u).1
  replace h : ¬v <:+ (textStep b (u ++ v)).2 := h
  by_cases hb : b < 128
  · rw [textStep_ascii hb] at h
    exact absurd (List.suffix_append u v) h
  cases hpart : character b u with
  | none =>
    rw [textStep_none hb hpart]
    exact List.mem_singleton_self _
  | some part =>
    rw [textStep_some hb (character_append hb hpart v)] at h
    exact absurd (List.suffix_append _ v) h

theorem join_lt {acc k : Nat} (h : acc < 2 ^ k) (b : UInt8) :
    (acc <<< 6) ||| (b.toNat &&& 0x3f) < 2 ^ (k + 6) := by
  apply Nat.or_lt_two_pow
  · rw [Nat.shiftLeft_eq, Nat.pow_add]
    exact Nat.mul_lt_mul_of_pos_right h (by decide)
  · have hlow : b.toNat &&& 0x3f < 2 ^ 6 := Nat.and_lt_two_pow _ (by decide)
    exact Nat.lt_of_lt_of_le hlow (Nat.pow_le_pow_right (by decide) (Nat.le_add_left 6 k))

-- A character of more than one byte has fewer code units than bytes.
theorem character_shrinks {b : UInt8} (hb : ¬b < 128) {p next : List UInt8} {c : Nat}
    (h : character b p = some (c, next)) :
    (codeUnits c).length + next.length < p.length + 1 ∧ next ≠ p := by
  obtain ⟨l, mask, min, hform, hlen, -, hc, -, rfl⟩ :=
    (unicodeFromUtf8_eq_some hb).mp (character_eq_some.mp h).1
  have hl := (utf8Form_length hform).1
  have hnext : (p.drop l).length = p.length - l := List.length_drop
  have hne : p.drop l ≠ p := by
    intro heq
    have hlength := congrArg List.length heq
    omega
  refine ⟨?_, hne⟩
  by_cases hbmp : c < 0x10000
  · have hone : (codeUnits c).length = 1 := by rw [codeUnits, if_pos hbmp]; rfl
    omega
  · have htwo : (codeUnits c).length = 2 := by rw [codeUnits, if_neg hbmp]; rfl
    have hlong : 3 ≤ l := by
      by_contra hshort
      have hmask : ∀ k, mask = 2 ^ k - 1 → b.toNat &&& mask < 2 ^ k := by
        intro k hk
        rw [hk]
        exact Nat.and_lt_two_pow _ (by have := Nat.two_pow_pos k; omega)
      rcases hl with ⟨rfl, hmask1⟩ | ⟨rfl, hmask2⟩ | hl
      · obtain ⟨x, hx⟩ := List.length_eq_one_iff.mp (List.length_take_of_le hlen)
        rw [hx] at hc
        have hjoin := join_lt (hmask 5 hmask1) x
        simp only [List.foldl_cons, List.foldl_nil] at hc
        omega
      · obtain ⟨x, y, hxy⟩ := List.length_eq_two.mp (List.length_take_of_le hlen)
        rw [hxy] at hc
        have hjoin := join_lt (join_lt (hmask 4 hmask2) x) y
        simp only [List.foldl_cons, List.foldl_nil] at hc
        omega
      · exact hshort hl
    omega

theorem textDecoder_shrinking : textDecoder.Shrinking := by
  constructor
  · intro b
    show (textStep b []).1.length = 1
    by_cases hb : b < 128
    · rw [textStep_ascii hb]
      rfl
    cases h : character b [] with
    | none =>
      rw [textStep_none hb h]
      rfl
    | some r =>
      have hshrink := character_shrinks hb h
      exact absurd (List.suffix_nil.mp (character_suffix hb h)) hshrink.2
  · intro b p hne
    show (textStep b p).1.length + (textStep b p).2.length < p.length + 1
    replace hne : (textStep b p).2 ≠ p := hne
    by_cases hb : b < 128
    · rw [textStep_ascii hb] at hne
      exact absurd rfl hne
    cases h : character b p with
    | none =>
      rw [textStep_none hb h] at hne ⊢
      have hsuffix := skipInvalid_suffix b p
      have hlen : (skipInvalid (b :: p)).length ≠ p.length := fun heq ↦ hne (hsuffix.eq_of_length heq)
      have hle := hsuffix.length_le
      show 1 + (skipInvalid (b :: p)).length < p.length + 1
      omega
    | some r =>
      rw [textStep_some hb h]
      exact (character_shrinks hb h).1

/-- The next byte is not taken together with this one. -/
def StandsAlone (b next : UInt8) : Prop :=
  b < 128 ∨ isContinuation b = false ∧ isContinuation next = false

-- A character of more than one byte goes on with a continuation byte.
theorem character_continues {b : UInt8} {p : List UInt8} {r : Nat × List UInt8} (hb : ¬ b < 128)
    (h : character b p = some r) : ∃ y ∈ p.head?, isContinuation y = true := by
  obtain ⟨l, mask, min, hform, hlen, hall, -⟩ :=
    (unicodeFromUtf8_eq_some hb).mp (character_eq_some.mp h).1
  have hl := (utf8Form_length hform).1
  cases p with
  | nil =>
    rw [List.length_nil] at hlen
    omega
  | cons y t =>
    obtain ⟨k, rfl⟩ : ∃ k, l = k + 1 := ⟨l - 1, by omega⟩
    rw [List.take_succ_cons, List.all_cons, Bool.and_eq_true] at hall
    exact ⟨y, rfl, hall.1⟩

-- Only the first byte is skipped if neither of the first two is a continuation byte.
theorem skipInvalid_one_iff (b y : UInt8) (t : List UInt8) :
    skipInvalid (b :: y :: t) = y :: t ↔ isContinuation b = false ∧ isContinuation y = false := by
  rw [skipInvalid, List.dropWhile_cons]
  cases hcont : isContinuation b with
  | true =>
    rw [if_pos rfl]
    apply iff_of_false _ (by simp)
    intro heq
    have houter := List.length_dropWhile_le isContinuation (List.drop 1 ((y :: t).dropWhile isContinuation))
    have hinner := List.length_dropWhile_le isContinuation (y :: t)
    rw [heq, List.length_drop, List.length_cons] at houter
    rw [List.length_cons] at hinner
    omega
  | false =>
    rw [if_neg Bool.false_ne_true, List.drop_one, List.tail_cons, List.dropWhile_cons]
    cases hy : isContinuation y with
    | false => simp
    | true =>
      rw [if_pos rfl]
      apply iff_of_false _ (by simp)
      intro heq
      have hle := List.length_dropWhile_le isContinuation t
      rw [heq, List.length_cons] at hle
      omega

theorem textStep_one_iff (b : UInt8) (p : List UInt8) :
    (textDecoder.step b p).2 = p ↔ ∀ next ∈ p.head?, StandsAlone b next := by
  show (textStep b p).2 = p ↔ _
  by_cases hb : b < 128
  · rw [textStep_ascii hb]
    exact iff_of_true rfl fun _ _ ↦ .inl hb
  have halone : ∀ next, StandsAlone b next ↔ isContinuation b = false ∧ isContinuation next = false :=
    fun next ↦ or_iff_right hb
  cases h : character b p with
  | some r =>
    rw [textStep_some hb h]
    apply iff_of_false (character_shrinks hb h).2
    intro hhead
    obtain ⟨y, hy, hcont⟩ := character_continues hb h
    rw [((halone y).mp (hhead y hy)).2] at hcont
    exact Bool.false_ne_true hcont
  | none =>
    rw [textStep_none hb h]
    show skipInvalid (b :: p) = p ↔ _
    cases p with
    | nil => exact iff_of_true (List.suffix_nil.mp (skipInvalid_suffix b [])) fun _ h ↦ by simp at h
    | cons y t => simp [skipInvalid_one_iff, halone]

end QNode.Engine
