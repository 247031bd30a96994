import QNode.Buffer.Subarray

/-!
# Views of views

What `subarray` returns shows a range of the Buffer it was called on, and a range of such a range is
the range with the two starts added.
-/

open QNode.Engine Word

namespace QNode.Buffer

/-- The place in a Buffer of `len` bytes that a relative index means. -/
def relativeIndex (n : Int) (len : Nat) : Nat :=
  if n < 0 then (max (n + len) 0).toNat else (min n len).toNat

theorem relativeIndex_le (n : Int) (len : Nat) : relativeIndex n len ≤ len := by
  unfold relativeIndex
  split <;> omega

theorem relativeIndex_natCast {k len : Nat} (h : k ≤ len) : relativeIndex k len = k := by
  rw [relativeIndex, if_neg (by omega)]
  omega

/-- One view shows the bytes of another from `start` on: byte by byte in every heap, and what is
written through either is read through the other as long as the store has the bytes. -/
structure Shows (b v : View) (start stop : Nat) : Prop where
  buffer : v.buffer = b.buffer
  offset : v.offset = b.offset + start
  length : v.length = stop - start
  within : b.offset ≤ v.offset ∧ v.offset + v.length ≤ b.offset + b.length
  element : ∀ heap i, v.byteAt heap i = b.byteAt heap (start + i)
  seen : ∀ heap k src, b.offset + b.length ≤ (heap b.buffer).byteLength →
    k + src.length ≤ v.length → ∀ i < src.length,
      b.byteAt (v.write heap k src) (start + (k + i)) = src[i]? ∧
        v.byteAt (b.write heap (start + k) src) (k + i) = src[i]?

/-- `this.subarray(s, e)` -/
def subarrayOf (heap : Heap) (this : View) (s e : Int64) : Ran NewBuffer :=
  jsBufferSubarray heap this.arg [.number s, .number e]

/-- A view is the Buffer that a call returned: the very view, or one of a store with its bytes. -/
def NewBuffer.IsView (heap : Heap) (v : View) : NewBuffer → Prop
  | .fresh bytes => v.length = bytes.length ∧ v.content heap = bytes
  | .view w => v = w

section

variable {heap : Heap} {b v : View} {start stop : Nat}

theorem shows_of_range (hbuffer : v.buffer = b.buffer) (hoffset : v.offset = b.offset + start)
    (hlength : v.length = stop - start) (hstart : start ≤ stop) (hstop : stop ≤ b.length) :
    Shows b v start stop := by
  have helement : ∀ heap i, v.byteAt heap i = b.byteAt heap (start + i) := by
    intro heap i
    rw [View.byteAt, View.byteAt, hbuffer, hoffset, Nat.add_assoc]
  refine ⟨hbuffer, hoffset, hlength, by omega, helement, ?_⟩
  intro heap k src hstore hfits i hi
  constructor
  · rw [← helement]
    exact View.write_inside (by rw [hbuffer]; omega) hi
  · rw [helement, ← Nat.add_assoc]
    exact View.write_inside (by omega) hi

/-- The range of a view from `start` to `stop`, as a view. -/
def View.range (b : View) (start stop : Nat) (hstart : start ≤ stop) (hstop : stop ≤ b.length) :
    View where
  buffer := b.buffer
  offset := b.offset + start
  length := stop - start
  trackRab := false
  bounded := by
    have hbound := b.bounded
    omega

theorem View.range_range {a z a' z' : Nat} (ha : a ≤ z) (hz : z ≤ b.length) (ha' : a' ≤ z')
    (hz' : z' ≤ (b.range a z ha hz).length) :
    (b.range a z ha hz).range a' z' ha' hz' =
      b.range (a + a') (a + z') (Nat.add_le_add_left ha' a)
        (by have hlen : (b.range a z ha hz).length = z - a := rfl; omega) := by
  have hoffset : b.offset + a + a' = b.offset + (a + a') := Nat.add_assoc _ _ _
  have hlength : z' - a' = a + z' - (a + a') := by omega
  simp only [View.range, hoffset, hlength]

variable (b : LiveView heap) (s e : Int64)

-- The code clamps each bound on one side only; where the range is not empty the other side is free.
theorem range_iff :
    rangeStart [some s, some e] b.length < rangeStop [some s, some e] b.length ↔
      relativeIndex s.toInt b.length < relativeIndex e.toInt b.length := by
  show clampLow (fromEnd s.toInt b.length) < clampHigh (fromEnd e.toInt b.length) b.length ↔ _
  unfold clampLow clampHigh fromEnd relativeIndex
  grind

theorem range_eq (h : relativeIndex s.toInt b.length < relativeIndex e.toInt b.length) :
    rangeStart [some s, some e] b.length = relativeIndex s.toInt b.length ∧
      rangeStop [some s, some e] b.length = relativeIndex e.toInt b.length := by
  show clampLow (fromEnd s.toInt b.length) = _ ∧ clampHigh (fromEnd e.toInt b.length) b.length = _
  revert h
  unfold clampLow clampHigh fromEnd relativeIndex
  grind

theorem subarrayOf_eq :
    subarrayOf heap b.toView s e =
      if h : relativeIndex s.toInt b.length < relativeIndex e.toInt b.length then
        ⟨.ok (.view (b.toView.range _ _ h.le (relativeIndex_le e.toInt b.length))), heap, []⟩
      else ⟨.ok (.fresh []), heap, []⟩ := by
  have hargs : [JsArg.number s, .number e] = numberArgs [some s, some e] := rfl
  rw [subarrayOf, hargs, jsBufferSubarray_number b.inBounds]
  by_cases h : relativeIndex s.toInt b.length < relativeIndex e.toInt b.length
  · obtain ⟨hstart, hstop⟩ := range_eq b s e h
    have hle := relativeIndex_le e.toInt b.length
    have hinside := b.inside
    have hshort := (heap b.buffer).byteLength_le
    have hoffset : sizeT ((b.offset : Int) + (relativeIndex s.toInt b.length : Nat)) =
        b.offset + relativeIndex s.toInt b.length := by
      rw [sizeT_of_nonneg (by omega) (by omega)]
      omega
    have hlength : sizeT ((relativeIndex e.toInt b.length : Int) - (relativeIndex s.toInt b.length : Nat)) =
        relativeIndex e.toInt b.length - relativeIndex s.toInt b.length := by
      rw [sizeT_of_nonneg (by omega) (by omega)]
      omega
    rw [dif_pos h, if_neg (mt Int.not_lt.mpr (not_not_intro ((range_iff b s e).mpr h))), hstart,
      hstop, hoffset, hlength, newUint8Array, b.attached, if_neg Bool.false_ne_true,
      dif_pos (by omega)]
    rfl
  · rw [dif_neg h, if_pos (Int.not_lt.mp (mt (range_iff b s e).mp h))]

end

/-- What `subarray` promises, for the bounds that relative indices mean.  The second call of a nested
pair may be made in any later heap that has the bytes. -/
structure SharesRanges {heap : Heap} (b : LiveView heap) : Prop where
  empty : ∀ s e : Int64, relativeIndex e.toInt b.length ≤ relativeIndex s.toInt b.length →
    subarrayOf heap b.toView s e = ⟨.ok (.fresh []), heap, []⟩
  shared : ∀ s e : Int64, relativeIndex s.toInt b.length < relativeIndex e.toInt b.length →
    ∃ v : LiveView heap, subarrayOf heap b.toView s e = ⟨.ok (.view v.toView), heap, []⟩ ∧
      Shows b.toView v.toView (relativeIndex s.toInt b.length) (relativeIndex e.toInt b.length)
  nested : ∀ (s e s' e' : Int64) (buf : NewBuffer), (subarrayOf heap b.toView s e).result = .ok buf →
    ∀ (later : Heap) (b' v : LiveView later), b'.toView = b.toView → buf.IsView later v.toView →
      (subarrayOf later v.toView s' e').result =
        (subarrayOf later b'.toView
          (Int64.ofNat (relativeIndex s.toInt b.length + relativeIndex s'.toInt v.length))
          (Int64.ofNat (relativeIndex s.toInt b.length + relativeIndex e'.toInt v.length))).result

section

variable {heap : Heap} (b : LiveView heap)

theorem relativeIndex_ofNat {k len : Nat} (hlen : len < 2 ^ 31) (h : k ≤ len) :
    relativeIndex (Int64.ofNat k).toInt len = k := by
  rw [Int64.toInt_ofNat_of_lt (by omega)]
  exact relativeIndex_natCast h

variable {b} in
theorem subarrayOf_range {s e : Int64} {a z : Nat} (ha : relativeIndex s.toInt b.length = a)
    (hz : relativeIndex e.toInt b.length = z) (h : a < z) (hle : z ≤ b.length) :
    subarrayOf heap b.toView s e = ⟨.ok (.view (b.toView.range a z h.le hle)), heap, []⟩ := by
  subst ha hz
  rw [subarrayOf_eq, dif_pos h]

variable {b} in
theorem subarrayOf_empty {s e : Int64} {a z : Nat} (ha : relativeIndex s.toInt b.length = a)
    (hz : relativeIndex e.toInt b.length = z) (h : z ≤ a) :
    subarrayOf heap b.toView s e = ⟨.ok (.fresh []), heap, []⟩ := by
  subst ha hz
  rw [subarrayOf_eq, dif_neg (Nat.not_lt.mpr h)]

-- A range of what a call returned, by the bounds of both calls.
theorem nested_eq {later : Heap} (b' v : LiveView later) (hb : b'.toView = b.toView)
    (s e s' e' : Int64) {buf : NewBuffer} (hbuf : (subarrayOf heap b.toView s e).result = .ok buf)
    (hview : buf.IsView later v.toView) :
    (subarrayOf later v.toView s' e').result =
      (subarrayOf later b'.toView
        (Int64.ofNat (relativeIndex s.toInt b.length + relativeIndex s'.toInt v.length))
        (Int64.ofNat (relativeIndex s.toInt b.length + relativeIndex e'.toInt v.length))).result := by
  have hshort := b.toView.length_lt
  have hlen : b'.length = b.length := congrArg View.length hb
  have hs := relativeIndex_le s.toInt b.length
  have he := relativeIndex_le e.toInt b.length
  have hs' := relativeIndex_le s'.toInt v.length
  have he' := relativeIndex_le e'.toInt v.length
  have hfirst : ∀ k ≤ v.length, relativeIndex s.toInt b.length + v.length ≤ b.length →
      relativeIndex (Int64.ofNat (relativeIndex s.toInt b.length + k)).toInt b'.length =
        relativeIndex s.toInt b.length + k := by
    intro k hk hv
    rw [hlen]
    exact relativeIndex_ofNat hshort (by omega)
  rw [subarrayOf_eq] at hbuf
  by_cases hne : relativeIndex s.toInt b.length < relativeIndex e.toInt b.length
  · rw [dif_pos hne, Outcome.ok.injEq] at hbuf
    rw [← hbuf] at hview
    have hv : v.toView = b.toView.range _ _ hne.le he := hview
    have hvlen : v.length = relativeIndex e.toInt b.length - relativeIndex s.toInt b.length :=
      congrArg View.length hv
    have ha := hfirst _ hs' (by omega)
    have hz := hfirst _ he' (by omega)
    by_cases hinner : relativeIndex s'.toInt v.length < relativeIndex e'.toInt v.length
    · rw [subarrayOf_range rfl rfl hinner he', subarrayOf_range ha hz (by omega) (by omega)]
      simp only [hv, hb, View.range_range]
    · rw [subarrayOf_empty rfl rfl (Nat.not_lt.mp hinner), subarrayOf_empty ha hz (by omega)]
  · rw [dif_neg hne, Outcome.ok.injEq] at hbuf
    rw [← hbuf] at hview
    have hvlen : v.length = 0 := hview.1
    rw [subarrayOf_empty rfl rfl (by omega),
      subarrayOf_empty (hfirst _ hs' (by omega)) (hfirst _ he' (by omega)) (by omega)]

/-- Every Buffer shares its ranges, and the ranges of its ranges are its own. -/
theorem subarray_shares : SharesRanges b := by
  constructor
  · intro s e h
    exact subarrayOf_empty rfl rfl h
  · intro s e h
    have hinside := b.inside
    have hle := relativeIndex_le e.toInt b.length
    refine ⟨⟨b.toView.range _ _ h.le hle, b.attached, ?_⟩, ?_, ?_⟩
    · show b.offset + relativeIndex s.toInt b.length +
        (relativeIndex e.toInt b.length - relativeIndex s.toInt b.length) ≤ _
      exact (by omega : _ ≤ b.offset + b.length).trans hinside
    · exact subarrayOf_range rfl rfl h hle
    · exact shows_of_range rfl rfl rfl h.le hle
  · intro s e s' e' buf hbuf later b' v hb hview
    exact nested_eq b b' v hb s e s' e' hbuf hview

end

end QNode.Buffer
