import QNode.Buffer.Compare
import QNode.Buffer.Decode
import QNode.Library.Occurrences

/-!
# indexOf and includes

The search takes a byte, a text or a view, each with a loop or a branch of its own.  The branch for a
needle of no bytes answers the offset without a look at the length of the Buffer.
-/

open QNode.Engine Word Splice Occurrences

namespace QNode.Buffer

/-- `if (JS_IsNumber(arg)) JS_ToInt64(ctx, &x, arg)` for an `x` that holds `default`. -/
def numberArg (arg : JsArg) (default : Int) : Int :=
  match arg with
  | .number n => n.toInt
  | _ => default

/-- `(uint8_t)(val & 0xFF)` for the `val` of `JS_ToInt32`. -/
def lowByte (n : Int64) : UInt8 := UInt8.ofNat (int32 n.toInt % 256).toNat

/-- The search for a single byte. -/
def searchByte (buf : List UInt8) (byte : UInt8) (offset : Nat) : Int :=
  placeOf ((List.range' offset (buf.length - offset)).find? fun i ↦ buf[i]? = some byte)

def jsBufferIndexOf (heap : Heap) (this : JsArg) (argv : List JsArg) : Outcome Int :=
  if argv.length < 1 then .ok (-1)
  else
    match jsBufferGetBytes heap this with
    | none => .ok (-1)
    | some p =>
      let buf := p.read heap 0 p.length
      let offset := clampLow (numberArg (argAt argv 1) 0)
      match argAt argv 0 with
      | .number val => .ok (searchByte buf (lowByte val) offset.toNat)
      | .string text _ => jsBufferIndexOfString buf text offset (encodingName (argAt argv 2))
      | value =>
        match jsBufferGetBytes heap value with
        | none => .ok (-1)
        | some needle => .ok (searchBytes buf (needle.read heap 0 needle.length) offset.toNat)

def jsBufferIncludes (heap : Heap) (this : JsArg) (argv : List JsArg) : Outcome Bool :=
  (jsBufferIndexOf heap this argv).map fun v ↦ 0 ≤ v

/-! ## What is searched for -/

/-- A byte, a text that decodes to some bytes, or a view. -/
inductive Needle (heap : Heap)
  | byte (b : UInt8)
  | text (s : JsString) (parsed : Int64) (enc : JsArg) (bytes : List UInt8)
    (decodes : decodeText (jsToCStringLen s) (encodingOf enc) = some bytes)
  | view (v : ByteView heap)

namespace Needle

variable {heap : Heap}

def bytes : Needle heap → List UInt8
  | byte b => [b]
  | text _ _ _ bytes _ => bytes
  | view v => v.toView.bytes heap

/-- The arguments of a search from an offset. -/
def argv (offset : Int64) : Needle heap → List JsArg
  | byte b => [.number (Int64.ofNat b.toNat), .number offset]
  | text s parsed enc _ _ => [.string s parsed, .number offset, enc]
  | view v => [v.toView.arg, .number offset]

def isView : Needle heap → Bool
  | view _ => true
  | _ => false

/-- `indexOf` answers the first occurrence that does not start before the offset, `includes` tells
whether there is one, and neither answers a place past the end. -/
structure Found (this : LiveView heap) (needle : Needle heap) (offset : Int64) : Prop where
  indexOf : ∃ r, jsBufferIndexOf heap this.toView.arg (needle.argv offset) = .ok r ∧
    IsFirst (OccursAt (this.toView.content heap) needle.bytes) (max 0 offset.toInt).toNat r
  includes : ∃ b, jsBufferIncludes heap this.toView.arg (needle.argv offset) = .ok b ∧
    (b = true ↔ ∃ i, (max 0 offset.toInt).toNat ≤ i ∧
      OccursAt (this.toView.content heap) needle.bytes i)
  inside : ∀ r, jsBufferIndexOf heap this.toView.arg (needle.argv offset) = .ok r → r ≤ this.length

end Needle

/-! ## The loops -/

theorem searchByte_isFirst (buf : List UInt8) (byte : UInt8) (offset : Nat) :
    IsFirst (OccursAt buf [byte]) offset (searchByte buf byte offset) := by
  apply isFirst_find
  intro i
  rw [occursAt_singleton, decide_eq_true_iff]
  constructor
  · intro h
    exact ⟨(List.getElem?_eq_some_iff.mp h).1, h⟩
  · exact And.right

theorem searchBytes_isFirst {buf needle : List UInt8} (h : needle ≠ []) (offset : Nat) :
    IsFirst (OccursAt buf needle) offset (searchBytes buf needle offset) := by
  have hlen : needle.length ≠ 0 := mt List.length_eq_zero_iff.mp h
  rw [searchBytes, if_neg hlen]
  by_cases hfits : needle.length ≤ buf.length
  · rw [if_pos hfits]
    have hplace : ∀ i, OccursAt buf needle i ↔ i < buf.length + 1 - needle.length ∧
        decide ((buf.drop i).take needle.length = needle) = true := by
      intro i
      unfold OccursAt slice
      rw [decide_eq_true_iff]
      refine and_congr_left fun _ ↦ ?_
      omega
    have hloop : IsFirst (OccursAt buf needle) offset _ := isFirst_find hplace
    unfold placeOf at hloop
    exact hloop
  · rw [if_neg hfits]
    refine .inr ⟨rfl, fun i _ hoccurs ↦ ?_⟩
    have hinside := hoccurs.1
    omega

-- Nothing occurs everywhere up to the end.
theorem isFirst_nil_iff (buf : List UInt8) (offset : Nat) :
    IsFirst (OccursAt buf []) offset offset ↔ offset ≤ buf.length := by
  constructor
  · intro h
    have hle := h.le fun i hi ↦ occursAt_nil.mp hi
    omega
  · intro h
    refine .inl ⟨offset, rfl, ⟨Nat.le_refl offset, occursAt_nil.mpr h⟩, ?_⟩
    rintro j ⟨hj, -⟩
    exact hj

theorem lowByte_byte (b : UInt8) : lowByte (Int64.ofNat b.toNat) = b := by
  have hb := b.toNat_lt
  have hval : (Int64.ofNat b.toNat).toInt = b.toNat := by
    rw [Int64.toInt_ofNat_of_lt]
    omega
  rw [lowByte, hval, int32_of_range (by omega) (by omega), Int.emod_eq_of_lt (by omega) (by omega),
    Int.toNat_natCast, UInt8.ofNat_toNat]

/-! ## The method -/

section

variable {heap : Heap} (this : LiveView heap) (offset : Int64)

theorem indexOf_byte (b : UInt8) :
    jsBufferIndexOf heap this.toView.arg ((Needle.byte b : Needle heap).argv offset) =
      .ok (searchByte (this.toView.content heap) b (max 0 offset.toInt).toNat) := by
  rw [Needle.argv, jsBufferIndexOf, if_neg (by simp), this.getBytes, ← clampLow_eq_max]
  show Outcome.ok (searchByte _ (lowByte (Int64.ofNat b.toNat)) _) = _
  rw [lowByte_byte]
  rfl

theorem indexOf_view (v : ByteView heap) :
    jsBufferIndexOf heap this.toView.arg ((Needle.view v).argv offset) =
      .ok (searchBytes (this.toView.content heap) (v.toView.bytes heap)
        (max 0 offset.toInt).toNat) := by
  rw [Needle.argv, jsBufferIndexOf, if_neg (by simp), this.getBytes, ← clampLow_eq_max, v.bytes_eq]
  show (match jsBufferGetBytes heap v.toView.arg with
    | none => Outcome.ok (-1)
    | some needle => .ok (searchBytes _ (needle.read heap 0 needle.length) _)) = _
  rw [getBytes_of_inBounds v.present]
  rfl

theorem encodingName_id (enc : JsArg) : getEncodingId (encodingName enc) = encodingOf enc := by
  cases enc <;> rfl

theorem indexOf_text (s : JsString) (parsed : Int64) (enc : JsArg) (w : List UInt8)
    (hw : decodeText (jsToCStringLen s) (encodingOf enc) = some w) :
    jsBufferIndexOf heap this.toView.arg
        ((Needle.text s parsed enc w hw : Needle heap).argv offset) =
      if w = [] then .abort
      else .ok (searchBytes (this.toView.content heap) w (max 0 offset.toInt).toNat) := by
  rw [Needle.argv, jsBufferIndexOf, if_neg (by simp), this.getBytes, ← clampLow_eq_max]
  show jsBufferIndexOfString (this.toView.content heap) s (clampLow offset.toInt)
    (encodingName enc) = _
  have hclamp : clampLow (clampLow offset.toInt) = clampLow offset.toInt :=
    if_neg (Int.not_lt.mpr (clampLow_nonneg _))
  rw [jsBufferIndexOfString, encodingName_id, jsBufferStringToBytes_eq, hw, hclamp]
  by_cases hnil : w = []
  · rw [if_pos (congrArg some hnil), if_pos hnil]
  · rw [if_neg (mt Option.some.inj hnil), if_neg hnil]

variable {this offset}

theorem Needle.found_of_ok {needle : Needle heap} {r : Int}
    (hrun : jsBufferIndexOf heap this.toView.arg (needle.argv offset) = .ok r)
    (hfirst : IsFirst (OccursAt (this.toView.content heap) needle.bytes)
      (max 0 offset.toInt).toNat r) : needle.Found this offset where
  indexOf := ⟨r, hrun, hfirst⟩
  includes := by
    refine ⟨decide (0 ≤ r), ?_, ?_⟩
    · rw [jsBufferIncludes, hrun]
      rfl
    · rw [decide_eq_true_iff, hfirst.nonneg_iff]
  inside := by
    intro r' hr'
    obtain rfl := Outcome.ok.inj (hrun.symm.trans hr')
    have hlen : (this.toView.content heap).length = this.length := this.length_read
    rw [← hlen]
    refine hfirst.le fun i hi ↦ ?_
    have hinside := hi.1
    omega

theorem Needle.found_iff_of_ok {needle : Needle heap} {r : Int}
    (hrun : jsBufferIndexOf heap this.toView.arg (needle.argv offset) = .ok r) :
    needle.Found this offset ↔ IsFirst (OccursAt (this.toView.content heap) needle.bytes)
      (max 0 offset.toInt).toNat r := by
  constructor
  · intro h
    obtain ⟨r', hr', hfirst⟩ := h.indexOf
    obtain rfl := Outcome.ok.inj (hrun.symm.trans hr')
    exact hfirst
  · exact found_of_ok hrun

variable (this offset)

end

end QNode.Buffer
