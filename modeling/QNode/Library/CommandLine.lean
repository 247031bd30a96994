import Mathlib.Data.List.Forall2
import Mathlib.Data.List.Induction

/-!
# Splitting a command line

The rules of the Microsoft C runtime: blanks outside quotes separate the arguments; before a quote two
backslashes give one, and one that is left over makes the quote literal; every other quote turns quoting
on or off, every other backslash is literal.  Splitting loses a backslash at each quote that has one
before it.
-/

namespace CommandLine

def quote : UInt8 := 34

def backslash : UInt8 := 92

def blank (c : UInt8) : Bool := c = 32 || c = 9

/-- `word` is the argument being read, without the `slashes` backslashes read last. -/
structure Splitter where
  args : List (List UInt8)
  word : Option (List UInt8)
  slashes : Nat
  quoted : Bool
deriving DecidableEq

namespace Splitter

/-- Between two arguments. -/
def between (args : List (List UInt8)) : Splitter := ⟨args, none, 0, false⟩

/-- The argument being read when no quote follows. -/
def plain (p : Splitter) : Option (List UInt8) :=
  if p.slashes = 0 then p.word else some (p.word.getD [] ++ List.replicate p.slashes backslash)

def finish (p : Splitter) : List (List UInt8) := p.args ++ p.plain.toList

def step (p : Splitter) (c : UInt8) : Splitter :=
  if c = backslash then { p with slashes := p.slashes + 1 }
  else if c = quote then
    let word := p.word.getD [] ++ List.replicate (p.slashes / 2) backslash
    if p.slashes % 2 = 0 then ⟨p.args, some word, 0, !p.quoted⟩
    else ⟨p.args, some (word ++ [quote]), 0, p.quoted⟩
  else if blank c && !p.quoted then between p.finish
  else ⟨p.args, some (p.plain.getD [] ++ [c]), 0, p.quoted⟩

def read (p : Splitter) (line : List UInt8) : Splitter := line.foldl step p

end Splitter

def split (line : List UInt8) : List (List UInt8) := ((Splitter.between []).read line).finish

namespace Splitter

variable {p : Splitter} {c : UInt8}

theorem read_append (p : Splitter) (line line' : List UInt8) :
    p.read (line ++ line') = (p.read line).read line' := List.foldl_append

/-! ## What is lost -/

/-- All that has been read, with the arguments put together. -/
def text (p : Splitter) : List UInt8 := p.finish.flatten

theorem text_eq_plain (p : Splitter) : p.text = p.args.flatten ++ p.plain.getD [] := by
  unfold text finish
  rw [List.flatten_append]
  cases p.plain with
  | none => rfl
  | some word => exact congrArg _ (List.append_nil word)

theorem plain_getD (p : Splitter) :
    p.plain.getD [] = p.word.getD [] ++ List.replicate p.slashes backslash := by
  unfold plain
  by_cases h : p.slashes = 0
  · rw [if_pos h, h, List.replicate_zero, List.append_nil]
  · rw [if_neg h]
    rfl

theorem text_eq (p : Splitter) : p.text =
    p.args.flatten ++ (p.word.getD [] ++ List.replicate p.slashes backslash) := by
  rw [text_eq_plain, plain_getD]

/-- A backslash weighs two, as the one that is left over before a quote is lost and the quote kept. -/
def weight (text : List UInt8) : Nat := 2 * text.count backslash + text.count quote

theorem weight_append (text text' : List UInt8) :
    weight (text ++ text') = weight text + weight text' := by
  unfold weight
  rw [List.count_append, List.count_append]
  omega

theorem weight_replicate (n : Nat) : weight (List.replicate n backslash) = 2 * n := by
  unfold weight
  rw [List.count_replicate_self, List.count_replicate, if_neg (by decide)]
  omega

theorem weight_nil : weight [] = 0 := rfl

theorem weight_other (hslash : c ≠ backslash) (hquote : c ≠ quote) : weight [c] = 0 := by
  unfold weight
  rw [List.count_singleton, List.count_singleton, if_neg (by simpa using hslash),
    if_neg (by simpa using hquote)]

-- A quote costs one for each backslash before it.
theorem step_weight (p : Splitter) (c : UInt8) : weight (p.step c).text =
    weight p.text + (if c = backslash then 2 else 0) - if c = quote then p.slashes else 0 := by
  have htext := p.text_eq
  have hne : backslash ≠ quote := by decide
  unfold step
  by_cases hslash : c = backslash
  · rw [if_pos hslash, if_pos hslash, if_neg (fun h ↦ hne (hslash.symm.trans h)), text_eq, htext]
    simp only [weight_append, weight_replicate]
    omega
  · by_cases hquote : c = quote
    · rw [if_neg hslash, if_pos hquote, if_neg hslash, if_pos hquote]
      by_cases heven : p.slashes % 2 = 0
      · rw [if_pos heven, text_eq, htext]
        simp only [weight_append, weight_replicate, weight_nil, Option.getD_some, List.replicate_zero]
        omega
      · have hlast : weight [quote] = 1 := by decide
        rw [if_neg heven, text_eq, htext]
        simp only [weight_append, weight_replicate, weight_nil, Option.getD_some, List.replicate_zero,
          hlast]
        omega
    · rw [if_neg hslash, if_neg hquote, if_neg hslash, if_neg hquote]
      by_cases hblank : blank c && !p.quoted
      · rw [if_pos hblank, text_eq_plain (between _)]
        show weight (p.finish.flatten ++ []) = weight p.text + 0 - 0
        rw [List.append_nil]
        rfl
      · rw [if_neg hblank, text_eq_plain]
        show weight (p.args.flatten ++ (p.plain.getD [] ++ [c])) = weight p.text + 0 - 0
        rw [text_eq_plain p]
        simp only [weight_append, weight_other hslash hquote]
        omega

theorem read_weight (p : Splitter) (line : List UInt8) :
    weight (p.read line).text ≤ weight p.text + 2 * line.count backslash := by
  induction line generalizing p with
  | nil => exact Nat.le_refl _
  | cons c line ih =>
    have hrest := ih (p.step c)
    have hstep := p.step_weight c
    rw [List.count_cons]
    show weight ((p.step c).read line).text ≤ _
    by_cases hslash : c = backslash
    · rw [if_pos hslash] at hstep
      rw [if_pos (by simpa using hslash)]
      omega
    · rw [if_neg hslash] at hstep
      rw [if_neg (by simpa using hslash)]
      omega

-- A quote with a backslash before it loses weight.
theorem read_weight_lt (p : Splitter) (front back : List UInt8) :
    weight (p.read (front ++ backslash :: quote :: back)).text <
      weight p.text + 2 * (front ++ backslash :: quote :: back).count backslash := by
  let p' := (p.read front).step backslash
  have hslashes : 0 < p'.slashes := by
    show 0 < ((p.read front).step backslash).slashes
    unfold step
    rw [if_pos rfl]
    exact Nat.succ_pos _
  have hfront := read_weight p front
  have hslash := step_weight (p.read front) backslash
  have hquote := step_weight p' quote
  have hback := read_weight (p'.step quote) back
  rw [if_pos rfl, if_neg (by decide)] at hslash hquote
  change weight p'.text = _ at hslash
  rw [read_append, List.count_append, List.count_cons_self, List.count_cons_of_ne (by decide)]
  show weight ((p'.step quote).read back).text < _
  have hle : p'.slashes ≤ weight p'.text := by
    have htext := p'.text_eq
    rw [htext]
    simp only [weight_append, weight_replicate]
    omega
  omega

/-! ## What is kept -/

/-- `line`, between two arguments or at the end, is read as the argument `arg`. -/
def Spells (line arg : List UInt8) : Prop := ∀ args,
  ((between args).read line).quoted = false ∧ ((between args).read line).finish = args ++ [arg]

/-- From `p` to `p'` the characters of `line` were read as they are. -/
structure Verbatim (p p' : Splitter) (line : List UInt8) : Prop where
  args : p'.args = p.args
  quoted : p'.quoted = p.quoted
  plain : p'.plain.getD [] = p.plain.getD [] ++ line
  word : p.plain.isSome ∨ line ≠ [] → p'.plain.isSome
  slashes : p.slashes = 0 → line.getLast? ≠ some backslash → p'.slashes = 0

theorem Verbatim.refl (p : Splitter) : Verbatim p p [] where
  args := rfl
  quoted := rfl
  plain := (List.append_nil _).symm
  word h := h.resolve_right fun hne ↦ hne rfl
  slashes h _ := h

theorem Verbatim.step {p' : Splitter} {line : List UInt8} (h : Verbatim p p' line)
    (hquote : c ≠ quote) (hblank : p.quoted ∨ ¬ blank c) : Verbatim p (p'.step c) (line ++ [c]) := by
  have hc : ¬ (blank c && !p'.quoted) := by
    rw [h.quoted]
    rcases hblank with hq | hb
    · simp [hq]
    · simp [hb]
  have hplain := p'.plain_getD
  rw [h.plain] at hplain
  unfold Splitter.step
  by_cases hslash : c = backslash
  · subst hslash
    rw [if_pos rfl]
    refine ⟨h.args, h.quoted, ?_, ?_, ?_⟩
    · rw [plain_getD, List.replicate_succ', ← List.append_assoc, ← hplain, List.append_assoc]
    · intro _
      unfold Splitter.plain
      rw [if_neg (Nat.succ_ne_zero _)]
      rfl
    · intro _ hlast
      rw [List.getLast?_concat] at hlast
      exact absurd rfl hlast
  · rw [if_neg hslash, if_neg hquote, if_neg hc]
    refine ⟨h.args, h.quoted, ?_, fun _ ↦ rfl, fun _ _ ↦ rfl⟩
    show p'.plain.getD [] ++ [c] = _
    rw [h.plain, List.append_assoc]

theorem verbatim_read {line : List UInt8} (hquote : quote ∉ line)
    (hblank : p.quoted ∨ ∀ c ∈ line, ¬ blank c) : Verbatim p (p.read line) line := by
  induction line using List.reverseRecOn with
  | nil => exact Verbatim.refl p
  | append_singleton line c ih =>
    rw [read_append]
    have hline := ih (fun h ↦ hquote (List.mem_append_left _ h))
      (hblank.imp_right fun h c hc ↦ h c (List.mem_append_left _ hc))
    apply hline.step
    · rintro rfl
      exact hquote (List.mem_append_right _ List.mem_cons_self)
    · exact hblank.imp_right fun h ↦ h c (List.mem_append_right _ List.mem_cons_self)

theorem finish_eq {arg : List UInt8} (hword : p.plain.isSome) (harg : p.plain.getD [] = arg) :
    p.finish = p.args ++ [arg] := by
  obtain ⟨word, hsome⟩ := Option.isSome_iff_exists.mp hword
  rw [hsome] at harg
  unfold finish
  rw [hsome, ← harg]
  rfl

theorem Spells.literal {arg : List UInt8} (hne : arg ≠ []) (hquote : quote ∉ arg)
    (hblank : ∀ c ∈ arg, ¬ blank c) : Spells arg arg := by
  intro args
  have hread := verbatim_read (p := between args) hquote (.inr hblank)
  refine ⟨hread.quoted, ?_⟩
  rw [finish_eq (hread.word (.inr hne)) hread.plain, hread.args]
  rfl

-- Between quotes blanks are literal; a backslash at the end would make the closing quote literal.
theorem Spells.quoted {arg : List UInt8} (hquote : quote ∉ arg)
    (hlast : arg.getLast? ≠ some backslash) : Spells (quote :: arg ++ [quote]) arg := by
  intro args
  let opened : Splitter := ⟨args, some [], 0, true⟩
  have hread := verbatim_read (p := opened) hquote (.inl rfl)
  have hslashes := hread.slashes rfl hlast
  have hplain := hread.plain
  rw [plain_getD, hslashes] at hplain
  have hopened : (between args).step quote = opened := by
    unfold step
    rw [if_neg (by decide), if_pos rfl]
    simp [between, opened]
  have hclosed : (between args).read (quote :: arg ++ [quote]) =
      ⟨(opened.read arg).args, some ((opened.read arg).word.getD []), 0,
        !(opened.read arg).quoted⟩ := by
    show ((between args).step quote).read (arg ++ [quote]) = _
    rw [hopened, read_append]
    show (opened.read arg).step quote = _
    unfold step
    rw [if_neg (by decide), if_pos rfl, hslashes, if_pos rfl]
    show Splitter.mk _ (some (_ ++ [])) _ _ = _
    rw [List.append_nil]
  rw [hclosed]
  constructor
  · show (!(opened.read arg).quoted) = false
    rw [hread.quoted]
    rfl
  · have hword : (opened.read arg).word.getD [] = arg := by
      rw [← List.append_nil (Option.getD _ _)]
      exact hplain
    show (opened.read arg).args ++ [_] = _
    rw [hread.args, hword]

theorem read_intercalate {lines args : List (List UInt8)} {sep : UInt8} (hsep : blank sep)
    (h : List.Forall₂ Spells lines args) (before : List (List UInt8)) :
    ((between before).read ([sep].intercalate lines)).finish = before ++ args := by
  induction h generalizing before with
  | nil => rfl
  | @cons line arg lines args hline hrest ih =>
    obtain ⟨hquoted, hfinish⟩ := hline before
    cases lines with
    | nil =>
      cases hrest
      rw [List.intercalate_singleton]
      exact hfinish
    | cons line' lines =>
      have hstep : ((between before).read line).step sep = between (before ++ [arg]) := by
        have hslash : sep ≠ backslash := by
          rintro rfl
          exact absurd hsep (by decide)
        have hquote : sep ≠ quote := by
          rintro rfl
          exact absurd hsep (by decide)
        unfold step
        rw [if_neg hslash, if_neg hquote, if_pos (by rw [hsep, hquoted]; rfl), hfinish]
      rw [List.intercalate_cons_cons, List.append_assoc, read_append]
      show ((((between before).read line).step sep).read
        ([sep].intercalate (line' :: lines))).finish = _
      rw [hstep, ih, List.append_assoc]
      rfl

end Splitter

theorem split_intercalate {lines args : List (List UInt8)} {sep : UInt8} (hsep : blank sep)
    (h : List.Forall₂ Splitter.Spells lines args) : split ([sep].intercalate lines) = args :=
  Splitter.read_intercalate hsep h []

theorem split_weight (line : List UInt8) :
    2 * (split line).flatten.count backslash + (split line).flatten.count quote ≤
      2 * line.count backslash := by
  have h := Splitter.read_weight (Splitter.between []) line
  rwa [show Splitter.weight (Splitter.between []).text = 0 from rfl, Nat.zero_add] at h

theorem split_weight_lt (front back : List UInt8) :
    2 * (split (front ++ backslash :: quote :: back)).flatten.count backslash +
        (split (front ++ backslash :: quote :: back)).flatten.count quote <
      2 * (front ++ backslash :: quote :: back).count backslash := by
  have h := Splitter.read_weight_lt (Splitter.between []) front back
  rwa [show Splitter.weight (Splitter.between []).text = 0 from rfl, Nat.zero_add] at h

end CommandLine
