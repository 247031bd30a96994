import QNode.Buffer.Copy

/-!
# Accesses after user code has run

A conversion may detach, transfer or shrink the store behind a pointer the method already holds.
For each method the results say exactly when its accesses stay inside the store: when the range
the method selects is empty, or the store that the conversions leave behind still reaches its end.
-/

open QNode.Engine Word

namespace QNode.Buffer

/-- The store, as `heap` has it, reaches index `stop` of the view. -/
def Covers (heap : Heap) (v : View) (stop : Int) : Prop :=
  v.offset + stop ≤ (heap v.buffer).byteLength

/-- The view's bytes from `start` to `stop` are none or all in the store. -/
def Spares (heap : Heap) (v : View) (start stop : Int) : Prop := stop ≤ start ∨ Covers heap v stop

theorem access_inStore_iff (heap : Heap) (v : View) {start stop : Int} {len : Nat}
    (hstart : 0 ≤ start) (hlen : start + len = stop) :
    (v.access heap start.toNat len).InStore ↔ Spares heap v start stop := by
  rw [Access.inStore_iff]
  show len = 0 ∨ v.offset + start.toNat + len ≤ (heap v.buffer).byteLength ↔ _
  unfold Spares Covers
  omega

-- The access to a range that was clamped and found not to be empty.
theorem range_inStore_iff (heap : Heap) (v : View) (start : Int) {stop : Int}
    (hne : clampLow start < clampHigh stop v.length) :
    (v.access heap (clampLow start).toNat
        (sizeT (clampHigh stop v.length - clampLow start))).InStore ↔
      Spares heap v (clampLow start) (clampHigh stop v.length) := by
  have hlow := clampLow_nonneg start
  have hlen := v.length_lt
  have hhigh := clampHigh_le stop v.length
  apply access_inStore_iff heap v hlow
  rw [sizeT_of_nonneg (by omega) (by omega)]
  omega

/-! ## One condition for each method -/

def ToStringSpared (heap : Heap) (this : JsArg) (argv : List JsArg) : Prop :=
  match jsBufferGetBytes heap this with
  | none => True
  | some p =>
    let (start, heap) := jsToInt64Or heap (argAt argv 1) 0
    let (stop, heap) := jsToInt64Or heap (argAt argv 2) p.length
    encodingOf (argAt argv 0) = .unknown ∨
      Spares heap p (clampLow start) (clampHigh stop p.length)

def SliceSpared (heap : Heap) (this : JsArg) (argv : List JsArg) : Prop :=
  match jsBufferGetBytes heap this with
  | none => True
  | some src =>
    let (start, heap) :=
      if argv.length ≥ 1 ∧ ¬ (argAt argv 1).isUndefined then jsToInt64 heap (argAt argv 0)
      else (0, heap)
    let (stop, heap) := jsToInt64Or heap (argAt argv 1) src.length
    Spares heap src (clampLow (fromEnd start src.length))
      (clampHigh (fromEnd stop src.length) src.length)

/-- The bytes that `write` encodes its first argument to. -/
def encodedArg (argv : List JsArg) : Option (List UInt8) :=
  match argAt argv 0 with
  | .string text _ =>
    match jsBufferStringToBytes (jsToCStringLen text) (encodingOf (argAt argv 3)) with
    | .ok bytes => bytes
    | _ => none
  | _ => none

def WriteSpared (heap : Heap) (this : JsArg) (argv : List JsArg) : Prop :=
  match encodedArg argv, jsBufferGetBytes heap this with
  | some bytes, some dst =>
    let (offset, heap) := jsToInt64Or heap (argAt argv 1) 0
    let (length, heap) := jsToInt64Or heap (argAt argv 2) bytes.length
    0 ≤ offset → offset < dst.length →
      Spares heap dst offset (min (offset + min (sizeT length) bytes.length) dst.length)
  | _, _ => True

/-- Both ranges of a copy of `n` bytes. -/
def SparesBoth (heap : Heap) (src tgt : View) (s t : Int) (n : Int) : Prop :=
  Spares heap src s (s + n) ∧ Spares heap tgt t (t + n)

/-- A target start past the end, or a reversed range that is not wrapped past the target, makes
the copy reach beyond any store.  Any other reversed range copies up to the end of the target. -/
def CopySpared (heap : Heap) (this : JsArg) (argv : List JsArg) : Prop :=
  match jsBufferGetBytes heap this, jsBufferGetBytes heap (argAt argv 0) with
  | some src, some tgt =>
    let (tgtStart, heap) := jsToInt64Or heap (argAt argv 1) 0
    let (srcStart, heap) := jsToInt64Or heap (argAt argv 2) 0
    let (srcEnd, heap) := jsToInt64Or heap (argAt argv 3) src.length
    let s := clampLow srcStart
    let e := clampHigh srcEnd src.length
    let t := clampLow tgtStart
    t ≤ tgt.length ∧
      if s ≤ e then SparesBoth heap src tgt s t (min (e - s) (tgt.length - t))
      else t < s - e ∧ SparesBoth heap src tgt s t (tgt.length - t)
  | _, _ => True

def ReadUIntSpared (bits : Nat) (heap : Heap) (this : JsArg) (argv : List JsArg) : Prop :=
  match jsBufferGetBytes heap this with
  | none => True
  | some p =>
    let (offset, heap) := jsToInt64Or heap (argAt argv 0) 0
    0 ≤ offset → sizeT (offset + (bits / 8 : Nat)) ≤ p.length →
      Spares heap p offset (offset + (bits / 8 : Nat))

def WriteUIntSpared (bits : Nat) (heap : Heap) (this : JsArg) (argv : List JsArg) : Prop :=
  match jsBufferGetBytes heap this with
  | none => True
  | some p =>
    argv.length ≥ 2 →
      let (_, heap) := jsToInt64 heap (argAt argv 0)
      let (offset, heap) := jsToInt64 heap (argAt argv 1)
      0 ≤ offset → sizeT (offset + (bits / 8 : Nat)) ≤ p.length →
        Spares heap p offset (offset + (bits / 8 : Nat))

/-- All accesses of a run are inside their stores. -/
def Safe {α : Type} (run : Ran α) : Prop := ∀ a ∈ run.accesses, a.InStore

theorem safe_none {α : Type} (result : Outcome α) (heap : Heap) : Safe ⟨result, heap, []⟩ :=
  fun _ ha ↦ nomatch ha

theorem safe_single {α : Type} (result : Outcome α) (heap : Heap) (a : Access) :
    Safe ⟨result, heap, [a]⟩ ↔ a.InStore := by
  simp only [Safe, List.mem_singleton, forall_eq]

section

variable (heap : Heap) (this : JsArg) (argv : List JsArg)

theorem toString_safe_iff :
    Safe (jsBufferToString heap this argv) ↔ ToStringSpared heap this argv := by
  unfold jsBufferToString ToStringSpared
  cases hget : jsBufferGetBytes heap this with
  | none => simp [safe_none]
  | some p =>
    dsimp only
    cases jsToInt64Or heap (argAt argv 1) 0 with | mk start heap =>
    dsimp only
    cases jsToInt64Or heap (argAt argv 2) p.length with | mk stop heap =>
    dsimp only
    by_cases hempty : clampLow start ≥ clampHigh stop p.length
    · rw [if_pos hempty]
      exact iff_of_true (safe_none _ _) (.inr (.inl hempty))
    · rw [if_neg hempty]
      by_cases hunknown : encodingOf (argAt argv 0) = .unknown
      · rw [if_pos hunknown]
        exact iff_of_true (safe_none _ _) (.inl hunknown)
      · rw [if_neg hunknown, safe_single, range_inStore_iff heap p start (by omega)]
        exact (or_iff_right hunknown).symm

theorem slice_safe_iff : Safe (jsBufferSlice heap this argv) ↔ SliceSpared heap this argv := by
  unfold jsBufferSlice SliceSpared
  cases hget : jsBufferGetBytes heap this with
  | none => simp [safe_none]
  | some src =>
    dsimp only
    cases (if argv.length ≥ 1 ∧ ¬ (argAt argv 1).isUndefined then jsToInt64 heap (argAt argv 0)
      else (0, heap)) with | mk start heap =>
    dsimp only
    cases jsToInt64Or heap (argAt argv 1) src.length with | mk stop heap =>
    dsimp only
    by_cases hempty : clampLow (fromEnd start src.length) ≥
        clampHigh (fromEnd stop src.length) src.length
    · rw [if_pos hempty]
      exact iff_of_true (safe_none _ _) (.inl hempty)
    · rw [if_neg hempty, safe_single, range_inStore_iff heap src _ (by omega)]

theorem write_safe_iff : Safe (jsBufferWrite heap this argv) ↔ WriteSpared heap this argv := by
  unfold jsBufferWrite WriteSpared encodedArg
  cases argAt argv 0 with
  | undefined => simp [safe_none]
  | number n => simp [safe_none]
  | object view valueOf => simp [safe_none]
  | string text n =>
    dsimp only
    cases jsBufferStringToBytes (jsToCStringLen text) (encodingOf (argAt argv 3)) with
    | abort => simp [safe_none]
    | throw e => simp [safe_none]
    | ok r =>
      cases r with
      | none => simp [safe_none]
      | some bytes =>
        cases jsBufferGetBytes heap this with
        | none => simp [safe_none]
        | some dst =>
          dsimp only
          cases jsToInt64Or heap (argAt argv 1) 0 with | mk offset heap =>
          dsimp only
          cases jsToInt64Or heap (argAt argv 2) bytes.length with | mk length heap =>
          dsimp only
          by_cases hout : offset < 0 ∨ offset.toNat ≥ dst.length
          · rw [if_pos hout]
            refine iff_of_true (safe_none _ _) fun hlow hhigh ↦ ?_
            omega
          · have hstop : offset + (if offset.toNat +
                  (if sizeT length < bytes.length then sizeT length else bytes.length) > dst.length
                then dst.length - offset.toNat
                else if sizeT length < bytes.length then sizeT length else bytes.length : Nat) =
                min (offset + min (sizeT length) bytes.length) dst.length := by
              split <;> split <;> omega
            rw [if_neg hout, safe_single, access_inStore_iff heap dst (by omega) hstop]
            constructor
            · intro h _ _
              exact h
            · intro h
              exact h (by omega) (by omega)

-- The accesses of a copy are those of the length it computed.
theorem copyRange_safe_iff_length (src tgt : View) (t s e : Int) :
    Safe (copyRange heap src tgt t s e) ↔
      SparesBoth heap src tgt (clampLow s) (clampLow t)
        (copyLen tgt.length (clampLow t) (clampLow s) (clampHigh e src.length)) := by
  have hs := clampLow_nonneg s
  have ht := clampLow_nonneg t
  unfold copyRange SparesBoth
  dsimp only
  by_cases hlen : copyLen tgt.length (clampLow t) (clampLow s) (clampHigh e src.length) > 0
  · rw [if_pos hlen]
    simp only [Safe, List.mem_cons, List.not_mem_nil, or_false, forall_eq_or_imp, forall_eq]
    rw [access_inStore_iff heap src hs rfl, access_inStore_iff heap tgt ht rfl]
  · rw [if_neg hlen]
    exact iff_of_true (safe_none _ _) ⟨.inl (by omega), .inl (by omega)⟩

-- No store is as large as a wrapped length.
theorem not_sparesBoth_huge (src tgt : View) {s t : Int} {n : Int} (hpos : 0 < n)
    (hhuge : 2 ^ 62 ≤ s + n) : ¬ SparesBoth heap src tgt s t n := by
  have hstore := (heap src.buffer).byteLength_le
  rintro ⟨hsrc, -⟩
  unfold Spares Covers at hsrc
  omega

theorem copyRange_safe_iff (src tgt : View) {t s e : Int} (htop : t < 2 ^ 63) (hstop : s < 2 ^ 63)
    (hebot : -2 ^ 63 ≤ e) :
    Safe (copyRange heap src tgt t s e) ↔
      clampLow t ≤ tgt.length ∧
        if clampLow s ≤ clampHigh e src.length then
          SparesBoth heap src tgt (clampLow s) (clampLow t)
            (min (clampHigh e src.length - clampLow s) (tgt.length - clampLow t))
        else clampLow t < clampLow s - clampHigh e src.length ∧
          SparesBoth heap src tgt (clampLow s) (clampLow t) (tgt.length - clampLow t) := by
  have hs := clampLow_nonneg s
  have ht := clampLow_nonneg t
  have hsrc := src.length_lt
  have htgt := tgt.length_lt
  have he := clampHigh_le e src.length
  have htop' := clampLow_lt htop
  have hstop' := clampLow_lt hstop
  have hebot' := le_clampHigh hebot src.length
  rw [copyRange_safe_iff_length]
  by_cases hfit : clampLow t ≤ tgt.length
  · by_cases hse : clampLow s ≤ clampHigh e src.length
    · rw [if_pos hse, copyLen_ordered ht hse hfit (by omega) htgt, Int.toNat_of_nonneg (by omega)]
      exact (and_iff_right hfit).symm
    · rw [if_neg hse]
      by_cases hback : clampLow s - clampHigh e src.length ≤ clampLow t
      · have hhuge := copyLen_reversed_within (by omega) hback hfit htgt
        apply iff_of_false
        · exact not_sparesBoth_huge heap src tgt (by omega) (by omega)
        · exact fun h ↦ absurd h.2.1 (by omega)
      · rcases copyLen_reversed_beyond ht (by omega) (by omega) hfit htgt hstop' hebot' with
          hlen | ⟨hpos, hfar, hlt⟩
        · have hcast : ((tgt.length - (clampLow t).toNat : Nat) : Int) =
              tgt.length - clampLow t := by omega
          rw [hlen, hcast]
          constructor
          · intro h
            exact ⟨hfit, by omega, h⟩
          · intro h
            exact h.2.2
        · apply iff_of_false
          · exact not_sparesBoth_huge heap src tgt (by omega) (by omega)
          · exact fun h ↦ not_sparesBoth_huge heap src tgt (by omega) (by omega) h.2.2
  · have hhuge : 2 ^ 63 ≤
        copyLen tgt.length (clampLow t) (clampLow s) (clampHigh e src.length) :=
      copyLen_past (by omega) htop'
    apply iff_of_false
    · exact not_sparesBoth_huge heap src tgt (by omega) (by omega)
    · exact fun h ↦ absurd h.1 hfit

theorem jsToInt64Or_range (heap : Heap) (arg : JsArg) {default : Int} (hlow : -2 ^ 63 ≤ default)
    (hhigh : default < 2 ^ 63) :
    -2 ^ 63 ≤ (jsToInt64Or heap arg default).1 ∧ (jsToInt64Or heap arg default).1 < 2 ^ 63 := by
  cases arg with
  | undefined => exact ⟨hlow, hhigh⟩
  | number n => exact ⟨n.le_toInt, n.toInt_lt⟩
  | string text n => exact ⟨n.le_toInt, n.toInt_lt⟩
  | object view valueOf =>
    show -2 ^ 63 ≤ ((valueOf heap).2.map Int64.toInt).getD 0 ∧
      ((valueOf heap).2.map Int64.toInt).getD 0 < 2 ^ 63
    cases (valueOf heap).2 with
    | none => decide
    | some n => exact ⟨n.le_toInt, n.toInt_lt⟩

theorem copy_safe_iff : Safe (jsBufferCopy heap this argv) ↔ CopySpared heap this argv := by
  unfold jsBufferCopy CopySpared
  dsimp only
  by_cases hargc : argv.length < 1
  · have hnone : argv = [] := List.length_eq_zero_iff.mp (by omega)
    rw [if_pos hargc, hnone]
    exact iff_of_true (safe_none _ _) (by cases jsBufferGetBytes heap this <;> trivial)
  · rw [if_neg hargc]
    cases jsBufferGetBytes heap this with
    | none => exact iff_of_true (safe_none _ _) trivial
    | some src =>
      cases jsBufferGetBytes heap (argAt argv 0) with
      | none => exact iff_of_true (safe_none _ _) trivial
      | some tgt =>
        have hlen := src.length_lt
        have ht := jsToInt64Or_range heap (argAt argv 1) (show -2 ^ 63 ≤ 0 by decide) (by decide)
        cases htgt : jsToInt64Or heap (argAt argv 1) 0 with | mk tgtStart heap =>
        rw [htgt] at ht
        dsimp only
        have hs := jsToInt64Or_range heap (argAt argv 2) (show -2 ^ 63 ≤ 0 by decide) (by decide)
        cases hsrc : jsToInt64Or heap (argAt argv 2) 0 with | mk srcStart heap =>
        rw [hsrc] at hs
        dsimp only
        have he := jsToInt64Or_range heap (argAt argv 3)
          (show -2 ^ 63 ≤ (src.length : Int) by omega) (by omega)
        cases hend : jsToInt64Or heap (argAt argv 3) src.length with | mk srcEnd heap =>
        rw [hend] at he
        exact copyRange_safe_iff heap src tgt ht.2 hs.2 he.1

theorem readUInt_safe_iff (bits : Nat) (bigEndian : Bool) :
    Safe (jsBufferReadUInt bits bigEndian heap this argv) ↔ ReadUIntSpared bits heap this argv := by
  unfold jsBufferReadUInt ReadUIntSpared
  cases hget : jsBufferGetBytes heap this with
  | none => simp [safe_none]
  | some p =>
    dsimp only
    cases jsToInt64Or heap (argAt argv 0) 0 with | mk offset heap =>
    dsimp only
    by_cases hrange : offset < 0 ∨ sizeT (offset + (bits / 8 : Nat)) > p.length
    · rw [if_pos hrange]
      exact iff_of_true (safe_none _ _) fun _ _ ↦ absurd hrange (by omega)
    · rw [if_neg hrange, safe_single, access_inStore_iff heap p (by omega) rfl]
      constructor
      · intro h _ _
        exact h
      · intro h
        exact h (by omega) (by omega)

theorem writeUInt_safe_iff (bits : Nat) (bigEndian : Bool) :
    Safe (jsBufferWriteUInt bits bigEndian heap this argv) ↔ WriteUIntSpared bits heap this argv := by
  unfold jsBufferWriteUInt WriteUIntSpared
  cases hget : jsBufferGetBytes heap this with
  | none => simp [safe_none]
  | some p =>
    by_cases hargc : argv.length < 2
    · dsimp only
      rw [if_pos hargc]
      exact iff_of_true (safe_none _ _) fun h ↦ absurd h (by omega)
    · dsimp only
      rw [if_neg hargc]
      cases jsToInt64 heap (argAt argv 0) with | mk val heap =>
      dsimp only
      cases jsToInt64 heap (argAt argv 1) with | mk offset heap =>
      dsimp only
      by_cases hrange : offset < 0 ∨ sizeT (offset + (bits / 8 : Nat)) > p.length
      · rw [if_pos hrange]
        exact iff_of_true (safe_none _ _) fun _ _ _ ↦ absurd hrange (by omega)
      · rw [if_neg hrange, safe_single, access_inStore_iff heap p (by omega) rfl]
        constructor
        · intro h _ _ _
          exact h
        · intro h
          exact h (by omega) (by omega) (by omega)

end

/-! ## Any method -/

inductive Method
  | toString | slice | write | copy
  | readUInt (bits : Nat) (bigEndian : Bool)
  | writeUInt (bits : Nat) (bigEndian : Bool)

def Method.accesses (heap : Heap) (this : JsArg) (argv : List JsArg) : Method → List Access
  | .toString => (jsBufferToString heap this argv).accesses
  | .slice => (jsBufferSlice heap this argv).accesses
  | .write => (jsBufferWrite heap this argv).accesses
  | .copy => (jsBufferCopy heap this argv).accesses
  | .readUInt bits bigEndian => (jsBufferReadUInt bits bigEndian heap this argv).accesses
  | .writeUInt bits bigEndian => (jsBufferWriteUInt bits bigEndian heap this argv).accesses

def Method.Spared (heap : Heap) (this : JsArg) (argv : List JsArg) : Method → Prop
  | .toString => ToStringSpared heap this argv
  | .slice => SliceSpared heap this argv
  | .write => WriteSpared heap this argv
  | .copy => CopySpared heap this argv
  | .readUInt bits _ => ReadUIntSpared bits heap this argv
  | .writeUInt bits _ => WriteUIntSpared bits heap this argv

/-- `valueOf` returns 0 after detaching every store. -/
def detaching : JsArg := .object none fun _ ↦ (fun _ ↦ ⟨none, by decide⟩, some 0)

end QNode.Buffer
