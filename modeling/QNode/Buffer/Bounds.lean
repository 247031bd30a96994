import QNode.Buffer.IndexOf
import QNode.Buffer.SharedViews

/-!
# When two numbers mean the same bound

Each method converts its bounds and clamps them in its own way.  For every place of a bound among the
arguments it is told exactly which two 64-bit numbers select the same bytes there, whatever the other
arguments are.
-/

open QNode.Engine Word

namespace QNode.Buffer

/-! ## fill -/

/-- The byte that `fill` writes: the first one of a text, or the low byte of a number. -/
def fillByte : JsArg → UInt8
  | .string text _ => (jsToCStringLen text).headD 0
  | .number v => lowByte v
  | _ => 0

def jsBufferFill (heap : Heap) (this : JsArg) (argv : List JsArg) : Ran Unit :=
  if argv.length < 1 then ⟨.throw (.typeError "value required"), heap, []⟩
  else
    match jsBufferGetBytes heap this with
    | none => ⟨.throw (.typeError "not a Buffer"), heap, []⟩
    | some dst =>
      let start := clampLow (numberArg (argAt argv 1) 0)
      let stop := clampHigh (numberArg (argAt argv 2) dst.length) dst.length
      if start < stop then
        let len := sizeT (stop - start)
        ⟨.ok (), dst.write heap start.toNat (List.replicate len (fillByte (argAt argv 0))),
          [dst.access heap start.toNat len]⟩
      else ⟨.ok (), heap, []⟩

/-! ## Ranges and their effect -/

section

variable {α : Type} {n : Nat} {effect : Int → Int → α}

/-- All ranges that are empty have one effect. -/
def Collapses (effect : Int → Int → α) : Prop :=
  ∀ a z a' z' : Int, z ≤ a → z' ≤ a' → effect a z = effect a' z'

/-- A range of the `n` bytes that is not empty has an effect of its own. -/
def Tells (n : Nat) (effect : Int → Int → α) : Prop :=
  ∀ a z a' z' : Int, 0 ≤ a → a < z → z ≤ n → 0 ≤ a' → z' ≤ n → effect a z = effect a' z' →
    a = a' ∧ z = z'

/-- Two starts that select the same bytes with every stop. -/
def SameStart (n : Nat) (a a' : Int) : Prop := a = a' ∨ (n ≤ a ∧ n ≤ a')

/-- Two stops that select the same bytes with every start. -/
def SameStop (z z' : Int) : Prop := z = z' ∨ (z ≤ 0 ∧ z' ≤ 0)

theorem Collapses.start (h : Collapses effect) {a a' z : Int} (hsame : SameStart n a a')
    (hz : z ≤ n) : effect a z = effect a' z := by
  rcases hsame with rfl | ⟨ha, ha'⟩
  · rfl
  · exact h _ _ _ _ (hz.trans ha) (hz.trans ha')

theorem Collapses.stop (h : Collapses effect) {a z z' : Int} (hsame : SameStop z z') (ha : 0 ≤ a) :
    effect a z = effect a z' := by
  rcases hsame with rfl | ⟨hz, hz'⟩
  · rfl
  · exact h _ _ _ _ (hz.trans ha) (hz'.trans ha)

theorem Tells.sameStart (h : Tells n effect) {a a' : Int} (ha : 0 ≤ a) (ha' : 0 ≤ a')
    (heffect : effect a n = effect a' n) : SameStart n a a' := by
  by_cases hlt : a < n
  · exact .inl (h a n a' n ha hlt (Int.le_refl _) ha' (Int.le_refl _) heffect).1
  · by_cases hlt' : a' < n
    · exact .inl (h a' n a n ha' hlt' (Int.le_refl _) ha (Int.le_refl _) heffect.symm).1.symm
    · exact .inr ⟨Int.not_lt.mp hlt, Int.not_lt.mp hlt'⟩

theorem Tells.sameStop (h : Tells n effect) {z z' : Int} (hz : z ≤ n) (hz' : z' ≤ n)
    (heffect : effect 0 z = effect 0 z') : SameStop z z' := by
  by_cases hpos : 0 < z
  · exact .inl (h 0 z 0 z' (Int.le_refl _) hpos hz (Int.le_refl _) hz' heffect).2
  · by_cases hpos' : 0 < z'
    · exact .inl (h 0 z' 0 z (Int.le_refl _) hpos' hz' (Int.le_refl _) hz heffect.symm).2.symm
    · exact .inr ⟨Int.not_lt.mp hpos, Int.not_lt.mp hpos'⟩

end

-- The bytes that a call touches tell its range.
theorem tells_of_accesses {α : Type} {n : Nat} {effect : Int → Int → Ran α} (heap : Heap) (p : View)
    (hn : n < 2 ^ 31)
    (h : ∀ a z, (effect a z).accesses =
      if a < z then [p.access heap a.toNat (sizeT (z - a))] else []) : Tells n effect := by
  intro a z a' z' ha hlt hz ha' hz' heffect
  have haccesses := congrArg Ran.accesses heffect
  rw [h, h, if_pos hlt] at haccesses
  by_cases hlt' : a' < z'
  · rw [if_pos hlt', List.cons.injEq, and_iff_left rfl] at haccesses
    have hstart : a.toNat = a'.toNat := congrArg Access.start haccesses
    have hlen : sizeT (z - a) = sizeT (z' - a') := congrArg Access.len haccesses
    rw [sizeT_of_nonneg (by omega) (by omega), sizeT_of_nonneg (by omega) (by omega)] at hlen
    omega
  · rw [if_neg hlt'] at haccesses
    cases haccesses

/-! ## The methods, once their bounds are clamped -/

section

variable (this : View) (enc value : JsArg) (heap : Heap) (a z : Int)

def toStringRange : Ran JsString :=
  if a ≥ z then ⟨.ok [], heap, []⟩
  else
    let len := sizeT (z - a)
    ⟨jsBufferBytesToString (this.read heap a.toNat len) (encodingOf enc), heap,
      if encodingOf enc = .unknown then [] else [this.access heap a.toNat len]⟩

def sliceRange : Ran (List UInt8) :=
  if a ≥ z then ⟨.ok [], heap, []⟩
  else
    let len := sizeT (z - a)
    ⟨.ok (this.read heap a.toNat len), heap, [this.access heap a.toNat len]⟩

def subarrayRange : Ran NewBuffer :=
  if a ≥ z then ⟨.ok (.fresh []), heap, []⟩
  else
    match newUint8Array heap this.buffer (sizeT (this.offset + a)) (sizeT (z - a)) with
    | .ok v => ⟨.ok (.view v), heap, []⟩
    | .throw e => ⟨.throw e, heap, []⟩
    | .abort => ⟨.abort, heap, []⟩

def fillRange : Ran Unit :=
  if a < z then
    let len := sizeT (z - a)
    ⟨.ok (), this.write heap a.toNat (List.replicate len (fillByte value)),
      [this.access heap a.toNat len]⟩
  else ⟨.ok (), heap, []⟩

theorem toStringRange_collapses : Collapses (toStringRange this enc heap) := by
  intro a z a' z' h h'
  rw [toStringRange, toStringRange, if_pos h, if_pos h']

theorem sliceRange_collapses : Collapses (sliceRange this heap) := by
  intro a z a' z' h h'
  rw [sliceRange, sliceRange, if_pos h, if_pos h']

theorem subarrayRange_collapses : Collapses (subarrayRange this heap) := by
  intro a z a' z' h h'
  rw [subarrayRange, subarrayRange, if_pos h, if_pos h']

theorem fillRange_collapses : Collapses (fillRange this value heap) := by
  intro a z a' z' h h'
  rw [fillRange, fillRange, if_neg (Int.not_lt.mpr h), if_neg (Int.not_lt.mpr h')]

theorem toStringRange_tells : Tells this.length (toStringRange this .undefined heap) := by
  refine tells_of_accesses heap this this.length_lt fun a z ↦ ?_
  unfold toStringRange
  by_cases h : a < z
  · rw [if_neg (Int.not_le.mpr h), if_pos h]
    rfl
  · rw [if_pos (Int.not_lt.mp h), if_neg h]

theorem sliceRange_tells : Tells this.length (sliceRange this heap) := by
  refine tells_of_accesses heap this this.length_lt fun a z ↦ ?_
  unfold sliceRange
  by_cases h : a < z
  · rw [if_neg (Int.not_le.mpr h), if_pos h]
  · rw [if_pos (Int.not_lt.mp h), if_neg h]

theorem fillRange_tells : Tells this.length (fillRange this value heap) := by
  refine tells_of_accesses heap this this.length_lt fun a z ↦ ?_
  unfold fillRange
  by_cases h : a < z
  · rw [if_pos h, if_pos h]
  · rw [if_neg h, if_neg h]

variable {heap} in
theorem subarrayRange_tells (b : LiveView heap) : Tells b.length (subarrayRange b.toView heap) := by
  have hshort := b.toView.length_lt
  have hinside := b.inside
  have hbound := (heap b.buffer).byteLength_le
  have hrun : ∀ a z : Int, 0 ≤ a → a < z → z ≤ b.length → ∃ v,
      subarrayRange b.toView heap a z = ⟨.ok (.view v), heap, []⟩ ∧
        (v.offset : Int) = b.offset + a ∧ (v.length : Int) = z - a := by
    intro a z ha hlt hz
    have hoffset : sizeT (b.offset + a) = b.offset + a.toNat := by
      rw [sizeT_of_nonneg (by omega) (by omega)]
      omega
    have hlength : sizeT (z - a) = (z - a).toNat := sizeT_of_nonneg (by omega) (by omega)
    rw [subarrayRange, if_neg (Int.not_le.mpr hlt), hoffset, hlength, newUint8Array, b.attached,
      if_neg Bool.false_ne_true, dif_pos (by omega)]
    refine ⟨_, rfl, ?_, Int.toNat_of_nonneg (by omega)⟩
    show ((b.offset + a.toNat : Nat) : Int) = b.offset + a
    omega
  intro a z a' z' ha hlt hz ha' hz' heffect
  obtain ⟨v, hv, hoffset, hlength⟩ := hrun a z ha hlt hz
  by_cases hlt' : a' < z'
  · obtain ⟨v', hv', hoffset', hlength'⟩ := hrun a' z' ha' hlt' hz'
    rw [hv, hv'] at heffect
    obtain rfl := NewBuffer.view.inj (Outcome.ok.inj (congrArg Ran.result heffect))
    omega
  · rw [hv, subarrayRange, if_pos (Int.not_lt.mp hlt')] at heffect
    cases congrArg Ran.result heffect

end

/-! ## The methods -/

section

variable {heap : Heap} (this : LiveView heap) (value enc : JsArg) (s e : JsArg)

theorem toString_eq :
    jsBufferToString heap this.toView.arg [enc, s, e] =
      toStringRange this.toView enc
        (jsToInt64Or (jsToInt64Or heap s 0).2 e this.length).2 (clampLow (jsToInt64Or heap s 0).1)
        (clampHigh (jsToInt64Or (jsToInt64Or heap s 0).2 e this.length).1 this.length) := by
  rw [jsBufferToString, this.getBytes]
  rfl

theorem slice_eq (given : e.isUndefined = false) :
    jsBufferSlice heap this.toView.arg [s, e] =
      sliceRange this.toView (jsToInt64 (jsToInt64 heap s).2 e).2
        (clampLow (fromEnd (jsToInt64 heap s).1 this.length))
        (clampHigh (fromEnd (jsToInt64 (jsToInt64 heap s).2 e).1 this.length) this.length) := by
  have hgiven : (argAt [s, e] 1).isUndefined = false := given
  rw [jsBufferSlice, this.getBytes]
  simp only [jsToInt64Or, hgiven, Bool.false_eq_true, not_false_eq_true, and_true, if_false,
    if_pos (show [s, e].length ≥ 1 by simp)]
  rfl

theorem slice_undefined (missing : e.isUndefined = true) (s' : JsArg) :
    jsBufferSlice heap this.toView.arg [s, e] = jsBufferSlice heap this.toView.arg [s', e] := by
  have hmissing : ∀ s, (argAt [s, e] 1).isUndefined = true := fun _ ↦ missing
  rw [jsBufferSlice, jsBufferSlice, this.getBytes]
  simp only [jsToInt64Or, hmissing, not_true, and_false, if_false]
  rfl

theorem subarray_eq :
    jsBufferSubarray heap this.toView.arg [s, e] =
      subarrayRange this.toView
        (jsToInt64Or (jsToInt64Or heap s 0).2 e this.length).2
        (clampLow (fromEnd (jsToInt64Or heap s 0).1 this.length))
        (clampHigh (fromEnd (jsToInt64Or (jsToInt64Or heap s 0).2 e this.length).1 this.length)
          this.length) := by
  have hget : jsGetTypedArrayBuffer heap this.toView.arg = some this.toView := by
    show (if typedArrayIsOob heap this.toView then none else some this.toView) = _
    rw [this.inBounds]
    rfl
  rw [jsBufferSubarray, hget]
  rfl

theorem fill_eq :
    jsBufferFill heap this.toView.arg [value, s, e] =
      fillRange this.toView value heap (clampLow (numberArg s 0))
        (clampHigh (numberArg e this.length) this.length) := by
  rw [jsBufferFill, if_neg (by simp), this.getBytes]
  rfl

theorem copy_eq (target tgtStart srcStart srcEnd : JsArg) :
    jsBufferCopy heap this.toView.arg [target, tgtStart, srcStart, srcEnd] =
      match jsBufferGetBytes heap target with
      | none => ⟨.throw (.typeError "arguments must be Buffers"), heap, []⟩
      | some tgt =>
        let t := jsToInt64Or heap tgtStart 0
        let s := jsToInt64Or t.2 srcStart 0
        let e := jsToInt64Or s.2 srcEnd this.length
        copyRange e.2 this.toView tgt t.1 s.1 e.1 := by
  have htarget : argAt [target, tgtStart, srcStart, srcEnd] 0 = target := rfl
  rw [jsBufferCopy, if_neg (by simp), this.getBytes, htarget]
  cases jsBufferGetBytes heap target <;> rfl

end

/-! ## The places of a bound -/

inductive Bound
  | start
  | stop

/-- Where a method takes a bound: the ends of a range, the offset of a search, and the target start and
the source range of a copy. -/
inductive Place
  | toString (bound : Bound)
  | slice (bound : Bound)
  | subarray (bound : Bound)
  | fill (bound : Bound)
  | indexOf
  | copyTarget
  | copySource (bound : Bound)

/-- Two arguments have the same effect at a place, whatever the other arguments are: the result, the
heap that is left and the bytes that are touched. -/
def SameEffect (heap : Heap) (this : View) (x y : JsArg) : Place → Prop
  | .toString .start => ∀ enc stop,
      jsBufferToString heap this.arg [enc, x, stop] = jsBufferToString heap this.arg [enc, y, stop]
  | .toString .stop => ∀ enc start,
      jsBufferToString heap this.arg [enc, start, x] = jsBufferToString heap this.arg [enc, start, y]
  | .slice .start => ∀ stop,
      jsBufferSlice heap this.arg [x, stop] = jsBufferSlice heap this.arg [y, stop]
  | .slice .stop => ∀ start,
      jsBufferSlice heap this.arg [start, x] = jsBufferSlice heap this.arg [start, y]
  | .subarray .start => ∀ stop,
      jsBufferSubarray heap this.arg [x, stop] = jsBufferSubarray heap this.arg [y, stop]
  | .subarray .stop => ∀ start,
      jsBufferSubarray heap this.arg [start, x] = jsBufferSubarray heap this.arg [start, y]
  | .fill .start => ∀ value stop,
      jsBufferFill heap this.arg [value, x, stop] = jsBufferFill heap this.arg [value, y, stop]
  | .fill .stop => ∀ value start,
      jsBufferFill heap this.arg [value, start, x] = jsBufferFill heap this.arg [value, start, y]
  | .indexOf => ∀ value enc,
      jsBufferIndexOf heap this.arg [value, x, enc] = jsBufferIndexOf heap this.arg [value, y, enc]
  | .copyTarget => ∀ target srcStart srcEnd,
      jsBufferCopy heap this.arg [target, x, srcStart, srcEnd] =
        jsBufferCopy heap this.arg [target, y, srcStart, srcEnd]
  | .copySource .start => ∀ target tgtStart srcEnd,
      jsBufferCopy heap this.arg [target, tgtStart, x, srcEnd] =
        jsBufferCopy heap this.arg [target, tgtStart, y, srcEnd]
  | .copySource .stop => ∀ target tgtStart srcStart,
      jsBufferCopy heap this.arg [target, tgtStart, srcStart, x] =
        jsBufferCopy heap this.arg [target, tgtStart, srcStart, y]

/-- No view has a byte. -/
def NoBytes (heap : Heap) : Prop := ∀ v : View, typedArrayIsOob heap v = false → v.length = 0

/-- Two numbers mean the same bound of a Buffer of `n` bytes. -/
def SameBound (heap : Heap) (n : Nat) (a b : Int) : Place → Prop
  | .toString .start | .fill .start => SameStart n (clampLow a) (clampLow b)
  | .toString .stop | .fill .stop => SameStop (clampHigh a n) (clampHigh b n)
  | .slice .start | .subarray .start =>
    SameStart n (clampLow (fromEnd a n)) (clampLow (fromEnd b n))
  | .slice .stop | .subarray .stop =>
    SameStop (clampHigh (fromEnd a n) n) (clampHigh (fromEnd b n) n)
  | .indexOf | .copyTarget | .copySource .start => clampLow a = clampLow b
  -- into a target of no bytes the end of the source changes nothing
  | .copySource .stop => clampHigh a n = clampHigh b n ∨ NoBytes heap

theorem jsToInt64Or_number (heap : Heap) (n : Int64) (default : Int) :
    jsToInt64Or heap (.number n) default = (n.toInt, heap) := rfl

theorem jsToInt64Or_undefined (heap : Heap) (default : Int) :
    jsToInt64Or heap .undefined default = (default, heap) := rfl

theorem jsToInt64_number (heap : Heap) (n : Int64) : jsToInt64 heap (.number n) = (n.toInt, heap) := rfl

theorem clampHigh_self (n : Nat) : clampHigh n n = n := if_neg (by omega)

theorem fromEnd_natCast (k n : Nat) : fromEnd k n = k := if_neg (by omega)

section

variable {heap : Heap} (this : LiveView heap) (a b : Int64)

theorem toString_sameEffect (bound : Bound) :
    SameEffect heap this.toView (.number a) (.number b) (.toString bound) ↔
      SameBound heap this.length a.toInt b.toInt (.toString bound) := by
  cases bound with
  | start =>
    constructor
    · intro h
      have heffect := h .undefined .undefined
      simp only [toString_eq, jsToInt64Or_number, jsToInt64Or_undefined, clampHigh_self] at heffect
      exact (toStringRange_tells this.toView heap).sameStart (clampLow_nonneg _) (clampLow_nonneg _)
        heffect
    · intro h enc stop
      simp only [toString_eq, jsToInt64Or_number]
      exact (toStringRange_collapses _ _ _).start h (clampHigh_le _ _)
  | stop =>
    constructor
    · intro h
      have heffect := h .undefined .undefined
      simp only [toString_eq, jsToInt64Or_number, jsToInt64Or_undefined] at heffect
      exact (toStringRange_tells this.toView heap).sameStop (clampHigh_le _ _) (clampHigh_le _ _)
        heffect
    · intro h enc start
      simp only [toString_eq, jsToInt64Or_number]
      exact (toStringRange_collapses _ _ _).stop h (clampLow_nonneg _)

theorem fill_sameEffect (bound : Bound) :
    SameEffect heap this.toView (.number a) (.number b) (.fill bound) ↔
      SameBound heap this.length a.toInt b.toInt (.fill bound) := by
  cases bound with
  | start =>
    constructor
    · intro h
      have heffect := h .undefined .undefined
      simp only [fill_eq, numberArg, clampHigh_self] at heffect
      exact (fillRange_tells this.toView .undefined heap).sameStart (clampLow_nonneg _)
        (clampLow_nonneg _) heffect
    · intro h value stop
      simp only [fill_eq]
      exact (fillRange_collapses _ _ _).start h (clampHigh_le _ _)
  | stop =>
    constructor
    · intro h
      have heffect := h .undefined .undefined
      simp only [fill_eq, numberArg] at heffect
      exact (fillRange_tells this.toView .undefined heap).sameStop (clampHigh_le _ _) (clampHigh_le _ _)
        heffect
    · intro h value start
      simp only [fill_eq]
      exact (fillRange_collapses _ _ _).stop h (clampLow_nonneg _)

theorem subarray_sameEffect (bound : Bound) :
    SameEffect heap this.toView (.number a) (.number b) (.subarray bound) ↔
      SameBound heap this.length a.toInt b.toInt (.subarray bound) := by
  cases bound with
  | start =>
    constructor
    · intro h
      have heffect := h .undefined
      simp only [subarray_eq, jsToInt64Or_number, jsToInt64Or_undefined, fromEnd_natCast,
        clampHigh_self] at heffect
      exact (subarrayRange_tells this).sameStart (clampLow_nonneg _) (clampLow_nonneg _) heffect
    · intro h stop
      simp only [subarray_eq, jsToInt64Or_number]
      exact (subarrayRange_collapses _ _).start h (clampHigh_le _ _)
  | stop =>
    constructor
    · intro h
      have heffect := h .undefined
      simp only [subarray_eq, jsToInt64Or_number, jsToInt64Or_undefined] at heffect
      exact (subarrayRange_tells this).sameStop (clampHigh_le _ _) (clampHigh_le _ _) heffect
    · intro h start
      simp only [subarray_eq, jsToInt64Or_number]
      exact (subarrayRange_collapses _ _).stop h (clampLow_nonneg _)

theorem slice_sameEffect (bound : Bound) :
    SameEffect heap this.toView (.number a) (.number b) (.slice bound) ↔
      SameBound heap this.length a.toInt b.toInt (.slice bound) := by
  have hgiven : ∀ n, (JsArg.number n).isUndefined = false := fun _ ↦ rfl
  cases bound with
  | start =>
    constructor
    · intro h
      have hshort := this.toView.length_lt
      have heffect := h (.number (Int64.ofNat this.length))
      simp only [slice_eq _ _ _ (hgiven _), jsToInt64_number,
        Int64.toInt_ofNat_of_lt (show this.length < 2 ^ 63 by omega), fromEnd_natCast,
        clampHigh_self] at heffect
      exact (sliceRange_tells this.toView heap).sameStart (clampLow_nonneg _) (clampLow_nonneg _)
        heffect
    · intro h stop
      cases hstop : stop.isUndefined with
      | true => exact slice_undefined this _ _ hstop _
      | false =>
        simp only [slice_eq _ _ _ hstop, jsToInt64_number]
        exact (sliceRange_collapses _ _).start h (clampHigh_le _ _)
  | stop =>
    constructor
    · intro h
      have heffect := h (.number 0)
      simp only [slice_eq _ _ _ (hgiven _), jsToInt64_number] at heffect
      exact (sliceRange_tells this.toView heap).sameStop (clampHigh_le _ _) (clampHigh_le _ _) heffect
    · intro h start
      simp only [slice_eq _ _ _ (hgiven _), jsToInt64_number]
      exact (sliceRange_collapses _ _).stop h (clampLow_nonneg _)

/-! ## indexOf -/

theorem nowhere_bounded {heap : Heap} (this : LiveView heap) : this.offset + 0 ≤ maxByteLength := by
  have hbound := this.bounded
  omega

theorem nowhere_present {heap : Heap} (this : LiveView heap) :
    typedArrayIsOob heap ⟨this.buffer, this.offset, 0, false, nowhere_bounded this⟩ = false := by
  have hinside := this.inside
  simp only [typedArrayIsOob, this.attached, Bool.false_eq_true, if_false,
    if_neg (by omega : ¬ this.offset > (heap this.buffer).byteLength)]
  exact decide_eq_false (by omega)

theorem nowhere_upToDate {heap : Heap} (this : LiveView heap) :
    View.UpToDate ⟨this.buffer, this.offset, 0, false, nowhere_bounded this⟩ heap :=
  upToDate_of_untracked rfl

/-- A view of no bytes at the place of a Buffer. -/
def LiveView.nowhere {heap : Heap} (this : LiveView heap) : ByteView heap where
  buffer := this.buffer
  offset := this.offset
  length := 0
  trackRab := false
  bounded := nowhere_bounded this
  present := nowhere_present this
  upToDate := nowhere_upToDate this

-- Nothing is found wherever the search starts.
theorem indexOf_nowhere (off : Int64) :
    jsBufferIndexOf heap this.toView.arg [this.nowhere.toView.arg, .number off, .undefined] =
      .ok (clampLow off.toInt) := by
  have hbytes : this.nowhere.toView.bytes heap = [] := by
    rw [this.nowhere.bytes_eq]
    rfl
  have hrun := indexOf_view this off this.nowhere
  rw [hbytes, ← clampLow_eq_max] at hrun
  refine hrun.trans ?_
  show Outcome.ok (((clampLow off.toInt).toNat : Nat) : Int) = _
  rw [Int.toNat_of_nonneg (clampLow_nonneg _)]

theorem indexOf_sameEffect :
    SameEffect heap this.toView (.number a) (.number b) .indexOf ↔
      SameBound heap this.length a.toInt b.toInt .indexOf := by
  constructor
  · intro h
    have heffect := h this.nowhere.toView.arg .undefined
    rw [indexOf_nowhere, indexOf_nowhere] at heffect
    exact Outcome.ok.inj heffect
  · intro h value enc
    have ha : numberArg (argAt [value, .number a, enc] 1) 0 = a.toInt := rfl
    have hb : numberArg (argAt [value, .number b, enc] 1) 0 = b.toInt := rfl
    have hsame : clampLow a.toInt = clampLow b.toInt := h
    rw [jsBufferIndexOf, jsBufferIndexOf, ha, hb, hsame]
    rfl

/-! ## copy -/

-- The ranges that are copied tell the starts if there is something to copy, and always the length.
theorem copyRange_tells {heap : Heap} {src tgt : View} {t s e t' s' e' : Int}
    (h : copyRange heap src tgt t s e = copyRange heap src tgt t' s' e') :
    copyLen tgt.length (clampLow t) (clampLow s) (clampHigh e src.length) =
        copyLen tgt.length (clampLow t') (clampLow s') (clampHigh e' src.length) ∧
      (0 < copyLen tgt.length (clampLow t) (clampLow s) (clampHigh e src.length) →
        clampLow t = clampLow t' ∧ clampLow s = clampLow s') := by
  have haccesses : ∀ t s e, (copyRange heap src tgt t s e).accesses =
      if copyLen tgt.length (clampLow t) (clampLow s) (clampHigh e src.length) > 0 then
        [src.access heap (clampLow s).toNat
          (copyLen tgt.length (clampLow t) (clampLow s) (clampHigh e src.length)),
        tgt.access heap (clampLow t).toNat
          (copyLen tgt.length (clampLow t) (clampLow s) (clampHigh e src.length))]
      else [] := by
    intro t s e
    unfold copyRange
    dsimp only
    split <;> rfl
  have hboth := congrArg Ran.accesses h
  have ht := clampLow_nonneg t
  have hs := clampLow_nonneg s
  have ht' := clampLow_nonneg t'
  have hs' := clampLow_nonneg s'
  rw [haccesses, haccesses] at hboth
  by_cases hpos : copyLen tgt.length (clampLow t) (clampLow s) (clampHigh e src.length) > 0
  · by_cases hpos' : copyLen tgt.length (clampLow t') (clampLow s') (clampHigh e' src.length) > 0
    · rw [if_pos hpos, if_pos hpos', List.cons.injEq, List.cons.injEq] at hboth
      obtain ⟨hsrc, htgt, -⟩ := hboth
      have hsrc' := congrArg Access.start hsrc
      have htgt' := congrArg Access.start htgt
      refine ⟨congrArg Access.len hsrc, fun _ ↦ ?_⟩
      simp only [View.access] at hsrc' htgt'
      omega
    · rw [if_pos hpos, if_neg hpos'] at hboth
      cases hboth
  · by_cases hpos' : copyLen tgt.length (clampLow t') (clampLow s') (clampHigh e' src.length) > 0
    · rw [if_neg hpos, if_pos hpos'] at hboth
      cases hboth
    · exact ⟨by omega, fun h ↦ absurd h hpos⟩

-- With no byte in the target the length comes from the target start alone.
theorem copyLen_empty (t s e : Int) : copyLen 0 t s e = sizeT (-t) := by
  unfold copyLen sizeT
  dsimp only
  split <;> omega

-- Two ends of the source that are copied alike into a target with a byte are one.
theorem copyLen_stop {m : Nat} {e e' : Int} (hm : 0 < m) (hm' : m < 2 ^ 31) (hlow : -2 ^ 63 ≤ e)
    (hhigh : e' < 2 ^ 31) (hlt : e < e') :
    ∃ t s : Int, 0 ≤ t ∧ t < 2 ^ 63 ∧ 0 ≤ s ∧ s < 2 ^ 31 ∧ copyLen m t s e ≠ copyLen m t s e' := by
  by_cases hpos : 0 ≤ e'
  · refine ⟨0, e', by omega, by omega, hpos, hhigh, ?_⟩
    have hzero : copyLen m 0 e' e' = 0 := by
      rw [copyLen_ordered (Int.le_refl _) (Int.le_refl _) (by omega) (by omega) hm']
      omega
    rw [hzero]
    rcases copyLen_reversed_beyond (Int.le_refl 0) hlt (by omega) (by omega) hm' (by omega) hlow with
      hlen | ⟨hlen, -, -⟩
    · rw [hlen]
      exact (Nat.sub_pos_of_lt (show (0 : Int).toNat < m from hm)).ne'
    · exact hlen.ne'
  · refine ⟨-e', 0, by omega, by omega, by omega, by omega, ?_⟩
    have hcopy : sizeT (e' - 0) = (e' + 2 ^ 64).toNat := by
      rw [Int.sub_zero]
      exact sizeT_of_neg (by omega) (by omega)
    have hsum : sizeT (-e' + ((e' + 2 ^ 64).toNat : Nat)) = 0 := by
      unfold sizeT
      omega
    have hlen' : copyLen m (-e') 0 e' = (e' + 2 ^ 64).toNat := by
      simp only [copyLen, hcopy, hsum, Nat.not_lt_zero, gt_iff_lt, if_false]
    have hcopy' : sizeT (e - 0) = (e + 2 ^ 64).toNat := by
      rw [Int.sub_zero]
      exact sizeT_of_neg (by omega) (by omega)
    have hsum' : sizeT (-e' + ((e + 2 ^ 64).toNat : Nat)) = (-e' + e + 2 ^ 64).toNat := by
      rw [Int.toNat_of_nonneg (by omega), ← Int.add_assoc]
      exact sizeT_of_nonneg (by omega) (by omega)
    have hlen : copyLen m (-e') 0 e = sizeT (m - -e') := by
      simp only [copyLen, hcopy', hsum']
      rw [if_pos (by omega)]
    rw [hlen, hlen']
    unfold sizeT
    omega

theorem inBounds_of_getBytes {heap : Heap} {arg : JsArg} {v : View}
    (h : jsBufferGetBytes heap arg = some v) : typedArrayIsOob heap v = false := by
  unfold jsBufferGetBytes at h
  split at h
  · cases h
  · next ta _ =>
    by_cases hoob : typedArrayIsOob heap ta = true
    · rw [if_pos hoob] at h
      cases h
    · rw [if_neg hoob] at h
      split at h
      · cases h
      · rw [← Option.some.inj h]
        exact eq_false_of_ne_true hoob

-- A call of `copy` with a view and three numbers.
theorem copy_numbers {tgt : View} (hlive : typedArrayIsOob heap tgt = false) (t s e : Int64) :
    jsBufferCopy heap this.toView.arg [tgt.arg, .number t, .number s, .number e] =
      copyRange heap this.toView tgt t.toInt s.toInt e.toInt := by
  rw [copy_eq, getBytes_of_inBounds hlive]
  rfl

theorem copyTarget_sameEffect :
    SameEffect heap this.toView (.number a) (.number b) .copyTarget ↔
      SameBound heap this.length a.toInt b.toInt .copyTarget := by
  have hshort := this.toView.length_lt
  constructor
  · intro h
    have heffect := h this.toView.arg (.number 0) (.number (Int64.ofNat this.length))
    rw [copy_numbers this this.inBounds, copy_numbers this this.inBounds,
      Int64.toInt_ofNat_of_lt (by omega)] at heffect
    have htells := copyRange_tells heffect
    have htells' := copyRange_tells heffect.symm
    rw [clampHigh_self] at htells htells'
    -- anywhere but at the end of the target something is copied
    have hpos : ∀ t : Int64, clampLow t.toInt ≠ this.length →
        0 < copyLen this.length (clampLow t.toInt) (clampLow (0 : Int64).toInt) this.length := by
      intro t hne
      have hlow := clampLow_nonneg t.toInt
      have hhigh := clampLow_lt t.toInt_lt
      have hzero : clampLow (0 : Int64).toInt = 0 := rfl
      rw [hzero]
      by_cases hpast : this.length < clampLow t.toInt
      · have hhuge := copyLen_past (s := 0) (e := this.length) hpast hhigh
        omega
      · rw [copyLen_ordered hlow (by omega) (by omega) (by omega) hshort]
        omega
    show clampLow a.toInt = clampLow b.toInt
    by_cases hend : clampLow a.toInt = this.length
    · by_cases hend' : clampLow b.toInt = this.length
      · rw [hend, hend']
      · exact (htells'.2 (hpos b hend')).1.symm
    · exact (htells.2 (hpos a hend)).1
  · intro h target srcStart srcEnd
    have hsame : clampLow a.toInt = clampLow b.toInt := h
    simp only [copy_eq, jsToInt64Or_number]
    cases jsBufferGetBytes heap target with
    | none => rfl
    | some tgt => simp only [copyRange, hsame]

theorem copySourceStart_sameEffect :
    SameEffect heap this.toView (.number a) (.number b) (.copySource .start) ↔
      SameBound heap this.length a.toInt b.toInt (.copySource .start) := by
  have hshort := this.toView.length_lt
  constructor
  · intro h
    have heffect := h this.toView.arg (.number (Int64.ofNat (this.length + 1))) (.number 0)
    rw [copy_numbers this this.inBounds, copy_numbers this this.inBounds,
      Int64.toInt_ofNat_of_lt (by omega)] at heffect
    have hpast : clampLow ((this.length + 1 : Nat) : Int) = this.length + 1 := if_neg (by omega)
    have hpos : 2 ^ 63 ≤ copyLen this.length (clampLow ((this.length + 1 : Nat) : Int))
        (clampLow a.toInt) (clampHigh (0 : Int64).toInt this.length) :=
      copyLen_past (by omega) (by omega)
    exact ((copyRange_tells heffect).2 (by omega)).2
  · intro h target tgtStart srcEnd
    have hsame : clampLow a.toInt = clampLow b.toInt := h
    simp only [copy_eq, jsToInt64Or_number]
    cases jsBufferGetBytes heap target with
    | none => rfl
    | some tgt => simp only [copyRange, hsame]

theorem copySourceStop_sameEffect :
    SameEffect heap this.toView (.number a) (.number b) (.copySource .stop) ↔
      SameBound heap this.length a.toInt b.toInt (.copySource .stop) := by
  have hshort := this.toView.length_lt
  constructor
  · intro h
    show _ = _ ∨ NoBytes heap
    by_contra hne
    rw [not_or] at hne
    obtain ⟨hne, hbytes⟩ := hne
    unfold NoBytes at hbytes
    rw [not_forall] at hbytes
    obtain ⟨tgt, htgt⟩ := hbytes
    rw [Classical.not_imp] at htgt
    obtain ⟨hlive, hlen⟩ := htgt
    have hsame : ∀ t s : Int, 0 ≤ t → t < 2 ^ 63 → 0 ≤ s → s < 2 ^ 31 →
        copyLen tgt.length t s (clampHigh a.toInt this.length) =
          copyLen tgt.length t s (clampHigh b.toInt this.length) := by
      intro t s ht ht' hs hs'
      have heffect := h tgt.arg (.number (Int64.ofInt t)) (.number (Int64.ofInt s))
      rw [copy_numbers this hlive, copy_numbers this hlive,
        Int64.toInt_ofInt_of_le (by omega) ht', Int64.toInt_ofInt_of_le (by omega) (by omega)]
        at heffect
      have hlen := (copyRange_tells heffect).1
      rw [clampLow, clampLow, if_neg (by omega), if_neg (by omega)] at hlen
      exact hlen
    have hrange : ∀ x : Int64, -2 ^ 63 ≤ clampHigh x.toInt this.length ∧
        clampHigh x.toInt this.length < 2 ^ 31 := by
      intro x
      have hle := clampHigh_le x.toInt this.length
      exact ⟨le_clampHigh x.le_toInt _, by omega⟩
    rcases Int.lt_or_gt_of_ne hne with hlt | hlt
    · obtain ⟨t, s, ht, ht', hs, hs', hdiffer⟩ := copyLen_stop (Nat.pos_of_ne_zero hlen) tgt.length_lt
        (hrange a).1 (hrange b).2 hlt
      exact hdiffer (hsame t s ht ht' hs hs')
    · obtain ⟨t, s, ht, ht', hs, hs', hdiffer⟩ := copyLen_stop (Nat.pos_of_ne_zero hlen) tgt.length_lt
        (hrange b).1 (hrange a).2 hlt
      exact hdiffer (hsame t s ht ht' hs hs').symm
  · intro h target tgtStart srcStart
    simp only [copy_eq, jsToInt64Or_number]
    cases htarget : jsBufferGetBytes heap target with
    | none => rfl
    | some tgt =>
      rcases (show _ = _ ∨ NoBytes heap from h) with hsame | hnone
      · simp only [copyRange, hsame]
      · simp only [copyRange, hnone tgt (inBounds_of_getBytes htarget), copyLen_empty]

/-- Two numbers have the same effect at a place precisely if they mean the same bound there. -/
theorem sameEffect_iff (place : Place) :
    SameEffect heap this.toView (.number a) (.number b) place ↔
      SameBound heap this.length a.toInt b.toInt place := by
  cases place with
  | toString bound => exact toString_sameEffect this a b bound
  | slice bound => exact slice_sameEffect this a b bound
  | subarray bound => exact subarray_sameEffect this a b bound
  | fill bound => exact fill_sameEffect this a b bound
  | indexOf => exact indexOf_sameEffect this a b
  | copyTarget => exact copyTarget_sameEffect this a b
  | copySource bound =>
    cases bound with
    | start => exact copySourceStart_sameEffect this a b
    | stop => exact copySourceStop_sameEffect this a b

end

end QNode.Buffer
