import QNode.Buffer.Methods

/-!
# What `copy` copies

The length passed to `memmove` is the size of the clamped range only if the range is not reversed
and the target start is not past the end.  The results here say what the length is in every case,
and from it when `copy` does what its callers expect.
-/

open QNode.Engine Word Splice

namespace QNode.Buffer

/-! ## The length -/

section Length

variable {tgtLen : Nat} {t s e : Int}

theorem copyLen_ordered (ht : 0 ≤ t) (hse : s ≤ e) (hfit : t ≤ tgtLen) (hlen : e - s < 2 ^ 31)
    (htgt : tgtLen < 2 ^ 31) :
    copyLen tgtLen t s e = (min (e - s) (tgtLen - t)).toNat := by
  have hcopy : sizeT (e - s) = (e - s).toNat := sizeT_of_nonneg (by omega) (by omega)
  have hrest : sizeT (tgtLen - t) = (tgtLen - t).toNat := sizeT_of_nonneg (by omega) (by omega)
  have hsum : sizeT (t + ((e - s).toNat : Nat)) = (t + (e - s)).toNat := by
    rw [Int.toNat_of_nonneg (by omega)]
    exact sizeT_of_nonneg (by omega) (by omega)
  simp only [copyLen, hcopy, hsum, hrest]
  split <;> omega

-- Past the end of the target the remaining length is negative, and huge as a `size_t`.
theorem copyLen_past (hpast : tgtLen < t) (ht : t < 2 ^ 63) : 2 ^ 63 ≤ copyLen tgtLen t s e := by
  have hrest : sizeT (tgtLen - t) = (tgtLen - t + 2 ^ 64).toNat := sizeT_of_neg (by omega) (by omega)
  have hcopy := sizeT_lt (e - s)
  simp only [copyLen, hrest]
  split
  next => omega
  next hsum =>
    unfold sizeT at hsum ⊢
    omega

-- A reversed range whose wrapped length does not wrap the sum back is copied as it is.
theorem copyLen_reversed_within (hse : e < s) (hback : s - e ≤ t) (hfit : t ≤ tgtLen)
    (htgt : tgtLen < 2 ^ 31) : 2 ^ 63 ≤ copyLen tgtLen t s e := by
  have hcopy : sizeT (e - s) = (e - s + 2 ^ 64).toNat := sizeT_of_neg (by omega) (by omega)
  have hsum : sizeT (t + ((e - s + 2 ^ 64).toNat : Nat)) = (t + (e - s)).toNat := by
    rw [Int.toNat_of_nonneg (by omega), show t + (e - s + 2 ^ 64) = t + (e - s) + 2 ^ 64 by omega,
      sizeT_of_wrap (by omega) (by omega), Int.add_sub_cancel]
  simp only [copyLen, hcopy, hsum, if_neg (by omega : ¬ (t + (e - s)).toNat > tgtLen)]
  omega

-- Any other reversed range is taken to reach the end of the target, unless the source start lies
-- past any store.
theorem copyLen_reversed_beyond (ht : 0 ≤ t) (hse : e < s) (hback : t < s - e) (hfit : t ≤ tgtLen)
    (htgt : tgtLen < 2 ^ 31) (hs : s < 2 ^ 63) (he : -2 ^ 63 ≤ e) :
    copyLen tgtLen t s e = tgtLen - t.toNat ∨
      (0 < copyLen tgtLen t s e ∧ 2 ^ 62 ≤ s ∧ t < tgtLen) := by
  have hcopy : sizeT (e - s) = (e - s + 2 ^ 64).toNat := sizeT_of_neg (by omega) (by omega)
  have hsum : sizeT (t + ((e - s + 2 ^ 64).toNat : Nat)) = (t + (e - s + 2 ^ 64)).toNat := by
    rw [Int.toNat_of_nonneg (by omega)]
    exact sizeT_of_nonneg (by omega) (by omega)
  have hrest : sizeT (tgtLen - t) = (tgtLen - t).toNat := sizeT_of_nonneg (by omega) (by omega)
  simp only [copyLen, hcopy, hsum, hrest]
  split
  next => exact .inl (by omega)
  next hsmall => exact .inr ⟨by omega, by omega, by omega⟩

end Length

/-! ## Reads and writes through a view -/

theorem ArrayBuffer.byteLength_le (abuf : ArrayBuffer) : abuf.byteLength < 2 ^ 31 := by
  have hbound := abuf.bounded
  show abuf.data.length < 2 ^ 31
  unfold maxByteLength at hbound
  unfold ArrayBuffer.data
  omega

theorem View.length_lt (v : View) : v.length < 2 ^ 31 := by
  have hbound := v.bounded
  unfold maxByteLength at hbound
  omega

theorem ArrayBuffer.overwrite_data (abuf : ArrayBuffer) (start : Nat) (src : List UInt8)
    (h : start + src.length ≤ abuf.byteLength) :
    (abuf.overwrite start src h).data = splice abuf.data start src := by
  cases hbytes : abuf.bytes with
  | some block => simp only [ArrayBuffer.data, ArrayBuffer.overwrite, hbytes, Option.map_some,
      Option.getD_some]
  | none =>
    simp only [ArrayBuffer.byteLength, ArrayBuffer.data, hbytes, Option.getD_none,
      List.length_nil] at h
    have hsrc : src = [] := List.length_eq_zero_iff.mp (by omega)
    simp only [ArrayBuffer.data, ArrayBuffer.overwrite, hbytes, Option.map_none, Option.getD_none,
      splice, hsrc, List.take_nil, List.drop_nil, List.append_nil]

section Write

variable {heap : Heap} {v : View} {start : Nat} {src : List UInt8}

theorem View.write_buffer (h : v.offset + start + src.length ≤ (heap v.buffer).byteLength) :
    (v.write heap start src v.buffer).data = splice (heap v.buffer).data (v.offset + start) src := by
  rw [View.write, dif_pos h, Function.update_self, ArrayBuffer.overwrite_data]

theorem View.write_other {b : Nat} (hb : b ≠ v.buffer) : v.write heap start src b = heap b := by
  unfold View.write
  split
  next => rw [Function.update_of_ne hb]
  next => rfl

-- A write changes the bytes it writes and no other byte of the heap.
theorem View.write_outside (h : v.offset + start + src.length ≤ (heap v.buffer).byteLength)
    {b j : Nat}
    (hout : ¬ (b = v.buffer ∧ v.offset + start ≤ j ∧ j < v.offset + start + src.length)) :
    (v.write heap start src b).data[j]? = (heap b).data[j]? := by
  have hstart : v.offset + start ≤ (heap v.buffer).data.length := by
    have hlen : (heap v.buffer).byteLength = (heap v.buffer).data.length := rfl
    omega
  by_cases hb : b = v.buffer
  · subst hb
    rw [View.write_buffer h]
    by_cases hj : j < v.offset + start
    · exact getElem?_splice_below hstart hj
    · exact getElem?_splice_above hstart (by omega)
  · rw [View.write_other hb]

theorem View.write_inside (h : v.offset + start + src.length ≤ (heap v.buffer).byteLength) {i : Nat}
    (hi : i < src.length) : v.byteAt (v.write heap start src) (start + i) = src[i]? := by
  have hstart : v.offset + start ≤ (heap v.buffer).data.length := by
    have hlen : (heap v.buffer).byteLength = (heap v.buffer).data.length := rfl
    omega
  rw [View.byteAt, View.write_buffer h, ← Nat.add_assoc]
  exact getElem?_splice_inside hstart hi

theorem View.read_length {len : Nat} (h : v.offset + start + len ≤ (heap v.buffer).byteLength) :
    (v.read heap start len).length = len :=
  length_slice h

theorem View.read_getElem? {len i : Nat} (hi : i < len) :
    (v.read heap start len)[i]? = v.byteAt heap (start + i) := by
  rw [View.read, getElem?_slice hi, View.byteAt, Nat.add_assoc]

end Write

/-! ## The method -/

/-- A view of a live store that it lies inside of. -/
structure LiveView (heap : Heap) extends View where
  attached : (heap buffer).detached = false
  inside : offset + length ≤ (heap buffer).byteLength

/-- A Buffer as an argument; none of the methods converts it. -/
def View.arg (v : View) : JsArg := .object (some v) fun heap ↦ (heap, none)

theorem LiveView.inBounds {heap : Heap} (v : LiveView heap) :
    typedArrayIsOob heap v.toView = false := by
  have hinside := v.inside
  simp only [typedArrayIsOob, v.attached, Bool.false_eq_true, if_false,
    if_neg (by omega : ¬ v.offset > (heap v.buffer).byteLength)]
  split
  · rfl
  · exact decide_eq_false (by omega)

theorem LiveView.getBytes {heap : Heap} (v : LiveView heap) :
    jsBufferGetBytes heap v.toView.arg = some v.toView := by
  show (if typedArrayIsOob heap v.toView then none
    else if (heap v.buffer).detached then none else some v.toView) = some v.toView
  rw [v.inBounds, v.attached]
  rfl

theorem LiveView.length_read {heap : Heap} (v : LiveView heap) :
    (v.toView.read heap 0 v.length).length = v.length := by
  have hinside := v.inside
  exact View.read_length (by omega)

/-- What `copy` promises: with the clamped arguments it returns the number `n` of bytes of the
common range, touches nothing outside the two views, moves the old source bytes to the target and
changes no other byte. -/
structure CopyKept (heap : Heap) (src tgt : View) (t s e : Int) (n : Nat) (run : Ran Int) :
    Prop where
  returns : run.result = .ok n
  touches : ∀ a ∈ run.accesses, a.InView
  copied : ∀ i < n, tgt.byteAt run.heap (t.toNat + i) = src.byteAt heap (s.toNat + i)
  kept : ∀ b j, ¬ (b = tgt.buffer ∧ tgt.offset + t.toNat ≤ j ∧ j < tgt.offset + t.toNat + n) →
    (run.heap b).data[j]? = (heap b).data[j]?

/-- The number of bytes `copy` should copy. -/
def commonLength (tgt : View) (t s e : Int) : Nat :=
  (max 0 (min (e - s) (tgt.length - t))).toNat

/-- The clamped arguments `copy` gets right: an ordered range and a target start inside the target;
or a reversed range with the start exactly at the end, reversed by more than the target's length. -/
def CopyAllowed (tgt : View) (t s e : Int) : Prop :=
  (s ≤ e ∧ t ≤ tgt.length) ∨ (e < s ∧ t = tgt.length ∧ tgt.length < s - e)

theorem clampLow_nonneg (n : Int) : 0 ≤ clampLow n := by
  unfold clampLow
  split <;> omega

theorem clampLow_eq_max (n : Int) : clampLow n = max 0 n := by
  unfold clampLow
  split <;> omega

theorem clampHigh_eq_min (n : Int) (len : Nat) : clampHigh n len = min n len := by
  unfold clampHigh
  split <;> omega

theorem clampLow_lt {n : Int} (h : n < 2 ^ 63) : clampLow n < 2 ^ 63 := by
  rw [clampLow_eq_max]
  omega

theorem clampHigh_le (n : Int) (len : Nat) : clampHigh n len ≤ len := by
  rw [clampHigh_eq_min]
  omega

theorem le_clampHigh {n : Int} (h : -2 ^ 63 ≤ n) (len : Nat) : -2 ^ 63 ≤ clampHigh n len := by
  rw [clampHigh_eq_min]
  omega

section Method

variable {heap : Heap} (src tgt : LiveView heap)

-- The body of `copy` after clamping, for a length inside both views.
theorem copyRange_inside {t s e : Int} {n : Nat}
    (hlen : copyLen tgt.length (clampLow t) (clampLow s) (clampHigh e src.length) = n)
    (hsrc : (clampLow s).toNat + n ≤ src.length ∨ n = 0)
    (htgt : (clampLow t).toNat + n ≤ tgt.length ∨ n = 0) :
    CopyKept heap src.toView tgt.toView (clampLow t) (clampLow s) (clampHigh e src.length) n
      (copyRange heap src.toView tgt.toView t s e) := by
  have hs := src.inside
  have ht := tgt.inside
  have hshort := tgt.toView.length_lt
  by_cases hn : n = 0
  · have hrun : copyRange heap src.toView tgt.toView t s e = ⟨.ok 0, heap, []⟩ := by
      simp only [copyRange, hlen, hn]
      rfl
    rw [hrun]
    refine ⟨by rw [hn]; rfl, ?_, ?_, ?_⟩
    · intro a ha
      cases ha
    · intro i hi
      omega
    · intro b j _
      rfl
  · have hread : (src.read heap (clampLow s).toNat n).length = n := View.read_length (by omega)
    have hrun : copyRange heap src.toView tgt.toView t s e =
        ⟨.ok n, tgt.write heap (clampLow t).toNat (src.read heap (clampLow s).toNat n),
          [src.access heap (clampLow s).toNat n, tgt.access heap (clampLow t).toNat n]⟩ := by
      simp only [copyRange, hlen, if_pos (Nat.pos_of_ne_zero hn),
        int32_of_range (x := n) (by omega) (by omega)]
    rw [hrun]
    refine ⟨rfl, ?_, ?_, ?_⟩
    · intro a ha
      rw [Access.inView_iff]
      rcases List.mem_cons.mp ha with rfl | ha
      · show n = 0 ∨ (clampLow s).toNat + n ≤ src.length
        omega
      · rw [List.mem_singleton.mp ha]
        show n = 0 ∨ (clampLow t).toNat + n ≤ tgt.length
        omega
    · intro i hi
      rw [View.write_inside (by rw [hread]; omega) (by rw [hread]; exact hi), View.read_getElem? hi]
    · intro b j hout
      exact View.write_outside (by rw [hread]; omega) (by rw [hread]; exact hout)

theorem jsBufferCopy_live (tStart sStart sEnd : Int64) :
    jsBufferCopy heap src.toView.arg
        [tgt.toView.arg, .number tStart, .number sStart, .number sEnd] =
      copyRange heap src.toView tgt.toView tStart.toInt sStart.toInt sEnd.toInt := by
  have htgt : jsBufferGetBytes heap
      (argAt [tgt.toView.arg, .number tStart, .number sStart, .number sEnd] 0) = some tgt.toView :=
    tgt.getBytes
  rw [jsBufferCopy, if_neg (by simp), src.getBytes, htgt]
  rfl

theorem copyRange_kept {t s e : Int} (hstop : s < 2 ^ 63) (hebot : -2 ^ 63 ≤ e)
    (h : CopyAllowed tgt.toView (clampLow t) (clampLow s) (clampHigh e src.length)) :
    CopyKept heap src.toView tgt.toView (clampLow t) (clampLow s) (clampHigh e src.length)
      (commonLength tgt.toView (clampLow t) (clampLow s) (clampHigh e src.length))
      (copyRange heap src.toView tgt.toView t s e) := by
  have ht := clampLow_nonneg t
  have hs := clampLow_nonneg s
  have he := clampHigh_le e src.length
  have hsrc := src.toView.length_lt
  have htgt := tgt.toView.length_lt
  rcases h with ⟨hse, hfit⟩ | ⟨hse, hend, hfar⟩
  · have hlen := copyLen_ordered ht hse hfit (by omega) htgt
    apply copyRange_inside src tgt
    · rw [hlen, commonLength, Int.max_eq_right (by omega)]
    · unfold commonLength
      omega
    · unfold commonLength
      omega
  · -- the wrapped length runs past the target and is cut down to nothing
    have hzero : commonLength tgt.toView (clampLow t) (clampLow s) (clampHigh e src.length) = 0 := by
      unfold commonLength
      omega
    rw [hzero]
    have hstop' := clampLow_lt hstop
    have hebot' := le_clampHigh hebot src.length
    apply copyRange_inside src tgt
    · rcases copyLen_reversed_beyond ht hse (by omega) (by omega) htgt hstop' hebot' with
        hlen | ⟨-, -, hlt⟩
      · rw [hlen]
        omega
      · omega
    · exact .inr rfl
    · exact .inr rfl

theorem copyRange_result (t s e : Int) :
    (copyRange heap src.toView tgt.toView t s e).result =
      .ok (int32 (copyLen tgt.length (clampLow t) (clampLow s) (clampHigh e src.length))) := by
  unfold copyRange
  dsimp only
  split <;> rfl

-- If `memmove` is called at all, both of its ranges are recorded.
theorem copyRange_inView {t s e : Int}
    (h : ∀ a ∈ (copyRange heap src.toView tgt.toView t s e).accesses, a.InView) :
    copyLen tgt.length (clampLow t) (clampLow s) (clampHigh e src.length) = 0 ∨
      ((clampLow s).toNat + copyLen tgt.length (clampLow t) (clampLow s) (clampHigh e src.length) ≤
          src.length ∧
        (clampLow t).toNat + copyLen tgt.length (clampLow t) (clampLow s) (clampHigh e src.length) ≤
          tgt.length) := by
  by_cases hlen : copyLen tgt.length (clampLow t) (clampLow s) (clampHigh e src.length) = 0
  · exact .inl hlen
  · right
    simp only [copyRange, if_pos (Nat.pos_of_ne_zero hlen), List.mem_cons, List.not_mem_nil,
      or_false, forall_eq_or_imp, forall_eq, Access.inView_iff, View.access, hlen, false_or] at h
    exact h

theorem copyAllowed_of_kept {t s e : Int} (htop : t < 2 ^ 63) (hstop : s < 2 ^ 63)
    (hebot : -2 ^ 63 ≤ e)
    (h : CopyKept heap src.toView tgt.toView (clampLow t) (clampLow s) (clampHigh e src.length)
      (commonLength tgt.toView (clampLow t) (clampLow s) (clampHigh e src.length))
      (copyRange heap src.toView tgt.toView t s e)) :
    CopyAllowed tgt.toView (clampLow t) (clampLow s) (clampHigh e src.length) := by
  have ht := clampLow_nonneg t
  have hs := clampLow_nonneg s
  have hsrc := src.toView.length_lt
  have htgt := tgt.toView.length_lt
  have hinside := copyRange_inView src tgt h.touches
  have hreturns := h.returns
  rw [copyRange_result, Outcome.ok.injEq] at hreturns
  have htop' := clampLow_lt htop
  have hstop' := clampLow_lt hstop
  have hebot' := le_clampHigh hebot src.length
  by_cases hfit : clampLow t ≤ tgt.length
  · by_cases hse : clampLow s ≤ clampHigh e src.length
    · exact .inl ⟨hse, hfit⟩
    · by_cases hback : clampLow s - clampHigh e src.length ≤ clampLow t
      · have hhuge := copyLen_reversed_within (by omega) hback hfit htgt
        omega
      · rcases copyLen_reversed_beyond ht (by omega) (by omega) hfit htgt hstop' hebot' with
          hlen | ⟨hpos, hfar, -⟩
        · -- what is copied is not what is returned unless it is nothing
          have hnone : commonLength tgt.toView (clampLow t) (clampLow s)
              (clampHigh e src.length) = 0 := by
            unfold commonLength
            omega
          rw [hlen, hnone, int32_of_range (by omega) (by omega)] at hreturns
          exact .inr ⟨by omega, by omega, by omega⟩
        · omega
  · have hhuge : 2 ^ 63 ≤
        copyLen tgt.length (clampLow t) (clampLow s) (clampHigh e src.length) :=
      copyLen_past (by omega) htop'
    omega

end Method

/-! ## The failure -/

/-- A store of `bytes` at every address. -/
def storeOf (bytes : List UInt8) (h : bytes.length ≤ maxByteLength) : Heap := fun _ ↦ ⟨some bytes, h⟩

end QNode.Buffer
