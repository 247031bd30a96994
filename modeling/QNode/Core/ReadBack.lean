import QNode.Core.Transfer

/-!
# Reading values back

The reader takes a value without objects, a reference and an array buffer as the writer put them.  Whether a
stretch of a message is read at all depends on its objects only.
-/

namespace QNode.Core

open BCReaderState

variable {rt : Runtime} {heap : Heap} {s s' : BCWriterState} {r : BCReaderState}
  {rest : List UInt8}

/-! ## Values without objects -/

theorem pull_ok {α : Type} {f : Reader α} {bytes : List UInt8} {a : α}
    (hf : f (bytes ++ rest) = .ok (a, rest)) (hptr : r.ptr = bytes ++ rest) :
    pull f r = .ok (a, { r with ptr := rest }) := by
  rw [pull, hptr, hf]

theorem pull_leb128 (v : UInt32) (hptr : r.ptr = dbufPutLeb128 v ++ rest) :
    pull bcGetLeb128 r = .ok (v, { r with ptr := rest }) :=
  pull_ok (bcGetLeb128_put v rest) hptr

theorem readObjectRec_tag {k : Nat} (tag : BCTag) (hptr : r.ptr = tag.toUInt8 :: rest) :
    jsReadObjectRec (k + 1) r = jsReadTagged (jsReadObjectRec k) tag { r with ptr := rest } := by
  have htag : pull bcGetU8 r = .ok (tag.toUInt8, { r with ptr := rest }) := by
    rw [pull, hptr]
    rfl
  rw [jsReadObjectRec, htag]
  simp only [bind, Except.bind, BCTag.ofUInt8_toUInt8]

theorem put_put (s : BCWriterState) (bytes bytes' : List UInt8) :
    (s.put bytes).put bytes' = s.put (bytes ++ bytes') := by
  rw [BCWriterState.put, BCWriterState.put, BCWriterState.put, List.append_assoc]

theorem putTag_put (s : BCWriterState) (tag : BCTag) (bytes : List UInt8) :
    (s.putTag tag).put bytes = s.put (tag.toUInt8 :: bytes) := put_put s _ _

def JSValue.isScalar : JSValue → Bool
  | .object _ | .other _ => false
  | _ => true

-- A value without objects is written in one stretch, and read whatever the reader has read before.
theorem scalar_roundtrip {stack : Nat} {v : JSValue} (hscalar : v.isScalar) (hsized : v.Sized)
    (h : jsWriteObjectRec rt heap stack v s = .ok s') (hpending : s'.pending = none) :
    ∃ bytes, s' = s.put bytes ∧ ∀ k ≥ stack, ∀ (r : BCReaderState) rest, r.ptr = bytes ++ rest →
      jsReadObjectRec k r = .ok (v.transfer id, { r with ptr := rest }) := by
  induction stack generalizing v with
  | zero => cases h
  | succ stack ih =>
    -- a tag, and the bytes that the reader for it takes
    have hread : ∀ (tag : BCTag) (bytes : List UInt8) (x : JSValue),
        (∀ k (t : BCReaderState) rest, t.ptr = bytes ++ rest →
          jsReadTagged (jsReadObjectRec k) tag t = .ok (x, { t with ptr := rest })) →
        ∃ bytes', (s.putTag tag).put bytes = s.put bytes' ∧ ∀ k ≥ stack + 1,
          ∀ (r : BCReaderState) rest, r.ptr = bytes' ++ rest →
            jsReadObjectRec k r = .ok (x, { r with ptr := rest }) := by
      intro tag bytes x hstep
      refine ⟨_, putTag_put s tag bytes, ?_⟩
      intro k hk r rest hptr
      obtain ⟨n, rfl⟩ : ∃ n, k = n + 1 := ⟨k - 1, by omega⟩
      rw [readObjectRec_tag tag hptr, hstep n _ rest rfl]
    have hplain : ∀ (tag : BCTag) (x : JSValue),
        (∀ k (t : BCReaderState), jsReadTagged (jsReadObjectRec k) tag t = .ok (x, t)) →
        ∃ bytes', s.putTag tag = s.put bytes' ∧ ∀ k ≥ stack + 1,
          ∀ (r : BCReaderState) rest, r.ptr = bytes' ++ rest →
            jsReadObjectRec k r = .ok (x, { r with ptr := rest }) := by
      intro tag x hstep
      refine ⟨_, rfl, ?_⟩
      intro k hk r rest hptr
      obtain ⟨n, rfl⟩ : ∃ n, k = n + 1 := ⟨k - 1, by omega⟩
      rw [readObjectRec_tag tag hptr, hstep n]
      rfl
    cases v with
    | null =>
      cases h
      exact hplain .null _ fun _ _ ↦ rfl
    | undefined =>
      cases h
      exact hplain .undefined _ fun _ _ ↦ rfl
    | bool b =>
      cases h
      cases b with
      | true => exact hplain .boolTrue _ fun _ _ ↦ rfl
      | false => exact hplain .boolFalse _ fun _ _ ↦ rfl
    | int n =>
      cases h
      refine hread .int32 _ _ fun k t rest ht ↦ ?_
      rw [jsReadTagged, pull_ok (bcGetSleb128_put n rest) ht]
      rfl
    | float64 u =>
      cases h
      refine hread .float64 _ _ fun k t rest ht ↦ ?_
      rw [jsReadTagged, pull_ok (bcGetU64_put u rest) ht]
      rfl
    | string p =>
      cases h
      refine hread .string _ _ fun k t rest ht ↦ ?_
      rw [jsReadTagged, pull_ok (jsReadString_write p rest) ht]
      rfl
    | stringRope p =>
      rw [jsWriteObjectRec] at h
      cases hflat : jsWriteObjectRec rt heap stack (.string p) s with
      | error e =>
        rw [hflat] at h
        cases h
        cases hpending
      | ok t =>
        rw [hflat] at h
        cases h
        obtain ⟨bytes, hbytes, hrest⟩ := ih (v := .string p) rfl trivial hflat
        exact ⟨bytes, hbytes, fun k hk ↦ hrest k (Nat.le_of_succ_le hk)⟩
    | bigInt tab =>
      cases h
      refine hread .bigInt _ _ fun k t rest ht ↦ ?_
      rw [jsReadTagged, pull_ok (jsReadBigInt_write hsized rest) ht]
      rfl
    | object p => cases hscalar
    | other tag => cases hscalar

theorem transfer_scalar {v : JSValue} (hscalar : v.isScalar) (μ : Ptr → Ptr) :
    v.transfer μ = v.transfer id := by
  cases v with
  | object p => cases hscalar
  | _ => rfl

/-! ## References -/

theorem WriterInv.length_objs_lt (h : WriterInv rt heap s) (hsize : heap.length < 2 ^ 31) :
    s.objs.length < 2 ^ 31 := by
  have hsubset : s.objs ⊆ List.range heap.length := fun p hp ↦ List.mem_range.mpr (h.bounded p hp)
  have hle := (List.subperm_of_subset h.nodup hsubset).length_le
  rw [List.length_range] at hle
  omega

theorem toNat_ofNat_lt {n : Nat} (h : n < 2 ^ 32) : (UInt32.ofNat n).toNat = n := by
  rw [UInt32.toNat_ofNat']
  exact Nat.mod_eq_of_lt h

-- A number that is written is read as the object that has it.
theorem reference_roundtrip {k idx : Nat} {a : Ptr} (hidx : idx < 2 ^ 32)
    (ha : r.objects[idx]? = some (some a))
    (hptr : r.ptr = BCTag.objectReference.toUInt8 :: (dbufPutLeb128 (UInt32.ofNat idx) ++ rest)) :
    jsReadObjectRec (k + 1) r = .ok (.object a, { r with ptr := rest }) := by
  rw [readObjectRec_tag .objectReference hptr, jsReadTagged, jsReadReference, pull_leb128 _ rfl]
  simp only [bind, Except.bind, toNat_ofNat_lt hidx, ha]
  rfl

/-! ## Array buffers -/

theorem maxByteLengthWord_roundtrip {maxByteLength : Option Nat}
    (h : ∀ n ∈ maxByteLength, n ≤ int32Max) :
    readMaxByteLength (maxByteLengthWord maxByteLength) = maxByteLength := by
  cases maxByteLength with
  | none => rfl
  | some n =>
    have hn : n ≤ 2 ^ 31 - 1 := h n rfl
    have hnat : (UInt32.ofNat n).toNat = n := toNat_ofNat_lt (by omega)
    have hne : UInt32.ofNat n ≠ -1 := by
      intro heq
      rw [heq] at hnat
      have hones : (-1 : UInt32).toNat = 2 ^ 32 - 1 := rfl
      omega
    rw [maxByteLengthWord, readMaxByteLength, if_neg hne, hnat]

-- The lengths of a buffer are read as they were written.
theorem lengths_roundtrip {byteLength : Nat} {maxByteLength : Option Nat}
    (hlen : byteLength ≤ int32Max) (hmax : ∀ n ∈ maxByteLength, byteLength ≤ n ∧ n ≤ int32Max)
    (hptr : r.ptr = dbufPutLeb128 (UInt32.ofNat byteLength) ++
      (dbufPutLeb128 (maxByteLengthWord maxByteLength) ++ rest)) :
    readLengths r = .ok (byteLength, maxByteLength, { r with ptr := rest }) := by
  have hnat : (UInt32.ofNat byteLength).toNat = byteLength := by
    apply toNat_ofNat_lt
    unfold int32Max at hlen
    omega
  have hnot : ¬ maxByteLengthWord maxByteLength < UInt32.ofNat byteLength := by
    rw [UInt32.lt_iff_toNat_lt, hnat]
    cases maxByteLength with
    | none =>
      have hones : (maxByteLengthWord none).toNat = 2 ^ 32 - 1 := rfl
      unfold int32Max at hlen
      omega
    | some n =>
      obtain ⟨hle, hn⟩ := hmax n rfl
      rw [maxByteLengthWord, toNat_ofNat_lt (by unfold int32Max at hn; omega)]
      omega
  rw [readLengths, pull_leb128 _ hptr]
  simp only [bind, Except.bind]
  rw [pull_leb128 _ rfl]
  simp only []
  rw [if_neg hnot, hnat, maxByteLengthWord_roundtrip fun n hn ↦ (hmax n hn).2]
  rfl

theorem checkLengths_ok {byteLength : Nat} {maxByteLength : Option Nat}
    (hlen : byteLength ≤ int32Max) (hmax : ∀ n ∈ maxByteLength, n ≤ int32Max) :
    checkLengths byteLength maxByteLength = .ok () := by
  unfold checkLengths
  rw [if_neg (Nat.not_lt_of_le hlen)]
  cases maxByteLength with
  | none => rfl
  | some n => exact if_neg (Nat.not_lt_of_le (hmax n rfl))

theorem arrayBuffer_roundtrip {k : Nat} {bytes : List UInt8} {maxByteLength : Option Nat}
    (hlen : bytes.length ≤ int32Max) (hmax : ∀ n ∈ maxByteLength, bytes.length ≤ n ∧ n ≤ int32Max)
    (hptr : r.ptr = BCTag.arrayBuffer.toUInt8 :: (dbufPutLeb128 (UInt32.ofNat bytes.length) ++
      (dbufPutLeb128 (maxByteLengthWord maxByteLength) ++ (bytes ++ rest)))) :
    jsReadObjectRec (k + 1) r = .ok (.object r.heap.length,
      { r.newObject (.arrayBuffer (some bytes) maxByteLength) with ptr := rest }) := by
  rw [readObjectRec_tag .arrayBuffer hptr, jsReadTagged, jsReadArrayBuffer,
    lengths_roundtrip hlen hmax rfl]
  simp only [bind, Except.bind]
  rw [if_neg (by rw [List.length_append]; omega), checkLengths_ok hlen fun n hn ↦ (hmax n hn).2,
    List.take_left, newObject_ptr, List.drop_left]
  rfl

theorem sharedArrayBuffer_roundtrip {k : Nat} {data : UInt64} {byteLength : Nat}
    {maxByteLength : Option Nat} (hlen : byteLength ≤ int32Max)
    (hmax : ∀ n ∈ maxByteLength, byteLength ≤ n ∧ n ≤ int32Max)
    (hptr : r.ptr = BCTag.sharedArrayBuffer.toUInt8 :: (dbufPutLeb128 (UInt32.ofNat byteLength) ++
      (dbufPutLeb128 (maxByteLengthWord maxByteLength) ++ (bcPutU64 data ++ rest)))) :
    jsReadObjectRec (k + 1) r =
      match maxByteLength with
      | none => .ok (.object r.heap.length, { r.newObject (.sharedArrayBuffer data byteLength none)
          with ptr := rest, sabDups := r.sabDups ++ [data] })
      | some _ => fail (.internalError
          "resizable ArrayBuffers not supported for externally managed buffers") := by
  rw [readObjectRec_tag .sharedArrayBuffer hptr, jsReadTagged, jsReadSharedArrayBuffer,
    lengths_roundtrip hlen hmax rfl]
  simp only [bind, Except.bind]
  rw [pull_ok (bcGetU64_put data rest) rfl]
  cases maxByteLength with
  | none =>
    have hcheck : checkLengths byteLength none = .ok () :=
      checkLengths_ok hlen (by intro n hn; cases hn)
    simp only [checkExternal, hcheck]
    rfl
  | some n => rfl

/-! ## Outcomes -/

/-- The outcome of reading what was written from `s` to `s'`: a result if all objects on the way are
readable, an exception otherwise. -/
def Yields {α : Type} (heap : Heap) (s s' : BCWriterState) (out : Except ReadFailure α)
    (good : α → Prop) : Prop :=
  ((∀ q ∈ s'.objs.drop s.objs.length, Readable heap q) → ∃ x, out = .ok x ∧ good x) ∧
  ((∃ q ∈ s'.objs.drop s.objs.length, ¬ Readable heap q) → ∃ e, out = .error (.throw e))

section

variable {α β : Type} {t u : BCWriterState} {out : Except ReadFailure α} {good good' : α → Prop}

theorem Yields.same {x : α} (hobjs : s'.objs = s.objs) (hgood : good x) :
    Yields heap s s' (.ok x) good := by
  have hnone : s'.objs.drop s.objs.length = [] := hobjs ▸ List.drop_length
  constructor
  · intro _
    exact ⟨x, rfl, hgood⟩
  · rintro ⟨q, hq, -⟩
    rw [hnone] at hq
    cases hq

theorem Yields.mono (h : Yields heap s s' out good) (hgood : ∀ x, good x → good' x) :
    Yields heap s s' out good' := by
  refine ⟨fun hall ↦ ?_, h.2⟩
  obtain ⟨x, hx, hx'⟩ := h.1 hall
  exact ⟨x, hx, hgood x hx'⟩

-- The first object that is not readable decides.
theorem Yields.bind {f : α → Except ReadFailure β} {good'' : β → Prop}
    (h : Yields heap s t out good) (hst : s.objs <+: t.objs) (htu : t.objs <+: u.objs)
    (hnext : ∀ x, good x → Yields heap t u (f x) good'') :
    Yields heap s u (out >>= f) good'' := by
  have hdrop : u.objs.drop s.objs.length =
      t.objs.drop s.objs.length ++ u.objs.drop t.objs.length := by
    obtain ⟨more, hmore⟩ := htu
    rw [← hmore, List.drop_append_of_le_length hst.length_le, List.drop_left]
  rw [Yields, hdrop]
  constructor
  · intro hall
    obtain ⟨x, hx, hgood⟩ := h.1 fun q hq ↦ hall q (List.mem_append_left _ hq)
    rw [hx]
    exact (hnext x hgood).1 fun q hq ↦ hall q (List.mem_append_right _ hq)
  · rintro ⟨q, hq, hnot⟩
    by_cases hall : ∀ q ∈ t.objs.drop s.objs.length, Readable heap q
    · obtain ⟨x, hx, hgood⟩ := h.1 hall
      rcases List.mem_append.mp hq with hq | hq
      · exact absurd (hall q hq) hnot
      · rw [hx]
        exact (hnext x hgood).2 ⟨q, hq, hnot⟩
    · obtain ⟨e, he⟩ := h.2 (by simpa using hall)
      rw [he]
      exact ⟨e, rfl⟩

-- A readable object has been put into the list before.
theorem Yields.newObject {s₀ : BCWriterState} {p : Ptr} (h : Yields heap s₀ s' out good)
    (hadd : s₀.objs = s.objs ++ [p]) (hpre : s₀.objs <+: s'.objs) (hp : Readable heap p) :
    Yields heap s s' out good := by
  have hfirst : Yields heap s s₀ (.ok ()) fun _ ↦ True := by
    refine ⟨fun _ ↦ ⟨(), rfl, trivial⟩, ?_⟩
    rintro ⟨q, hq, hnot⟩
    rw [hadd, List.drop_left, List.mem_singleton] at hq
    exact absurd hp (hq ▸ hnot)
  exact hfirst.bind (f := fun _ ↦ out) (hadd ▸ List.prefix_append _ _) hpre fun _ _ ↦ h

end

/-! ## References and buffers -/

/-- What was written from `s` to `s'` is the object `p`, and `read` answers the object with its number. -/
def ReadsObject (heap : Heap) (p : Ptr) (s s' : BCWriterState) (rest : List UInt8) (r : BCReaderState)
    (read : BCReaderState → Except ReadFailure (JSValue × BCReaderState)) : Prop :=
  Yields heap s s' (read r) fun x ↦ After heap (fun _ ↦ False) s s' rest r x.2 ∧
    ∃ (a : Ptr) (i : Nat), x.1 = .object a ∧ s'.objs[i]? = some p ∧
      x.2.objects[i]? = some (some a)

-- An object that has been read already.
theorem reads_reference {p : Ptr} {idx k : Nat} (hs : WriterInv rt heap s)
    (hsize : heap.length < 2 ^ 31) (hfind : jsObjectListFind rt.address s.objectList p = some idx)
    (hcount : r.objects.length = s.objs.length) (hsettled : r.objects[idx]? ≠ some none)
    (hptr : r.ptr = BCTag.objectReference.toUInt8 :: (dbufPutLeb128 (UInt32.ofNat idx) ++ rest)) :
    ReadsObject heap p s ((s.putTag .objectReference).putLeb128 idx) rest r
      (jsReadObjectRec (k + 1)) := by
  have hp := hs.consistent.jsObjectListFind_eq_some hfind
  have hidx : idx < s.objs.length := (List.getElem?_eq_some_iff.mp hp).1
  have hlen := hs.length_objs_lt hsize
  obtain ⟨a, ha⟩ : ∃ a, r.objects[idx]? = some (some a) := by
    cases hget : r.objects[idx]? with
    | none => exact absurd (List.getElem?_eq_none_iff.mp hget) (by omega)
    | some slot =>
      cases slot with
      | none => exact absurd hget hsettled
      | some a => exact ⟨a, rfl⟩
  rw [ReadsObject, reference_roundtrip (by omega) ha hptr]
  refine Yields.same rfl ⟨?_, a, idx, rfl, hp, ha⟩
  exact After.still rfl hcount rfl rfl rfl rfl (List.append_nil _).symm (List.append_nil _).symm

/-- The state of the writer once a new object has been put into the list. -/
def BCWriterState.addObject (rt : Runtime) (s : BCWriterState) (p : Ptr) : BCWriterState :=
  { s with objectList := jsObjectListAdd rt.address s.objectList p }

-- A new object that is read in one piece, and always the same whatever is read with it.
theorem reads_newObject (obj : JSObject) {p : Ptr} {sabs : List UInt64} {k : Nat}
    (hs : WriterInv rt heap s) (hnew : p ∉ s.objs) (hlt : p < heap.length)
    (hobjs : s'.objs = (s.addObject rt p).objs) (hsabs : s'.sabTab = s.sabTab ++ sabs)
    (hcount : r.objects.length = s.objs.length)
    (hclone : ∀ μ, (heap.getD p .other).clone μ = obj) (hreadable : Readable heap p)
    (hread : jsReadObjectRec k r = .ok (.object r.heap.length,
      { r.newObject obj with ptr := rest, sabDups := r.sabDups ++ sabs })) :
    ReadsObject heap p s s' rest r (jsReadObjectRec k) := by
  obtain ⟨-, hadd⟩ := hs.add hnew hlt
  have hobjs' : s'.objs = s.objs ++ [p] := hobjs.trans hadd
  have hlast : s'.objs[s.objs.length]? = some p := by
    rw [hobjs']
    exact List.getElem?_concat_length
  have hfirst : (r.newObject obj).objects[s.objs.length]? = some (some r.heap.length) := by
    rw [newObject_objects, ← hcount]
    exact List.getElem?_concat_length
  have hcount' : (r.newObject obj).objects.length = (s.addObject rt p).objs.length := by
    rw [newObject_objects, ← hobjs, hobjs', List.length_append, List.length_append, hcount]
    rfl
  have hstill : After heap (fun q ↦ q = r.heap.length) (s.addObject rt p) s' rest
      (r.newObject obj)
      { r.newObject obj with ptr := rest, sabDups := r.sabDups ++ sabs } :=
    After.still rfl hcount' hobjs rfl rfl rfl hsabs rfl
  have hpre : (s.addObject rt p).objs <+: s'.objs := hobjs ▸ List.prefix_rfl
  rw [ReadsObject, hread]
  refine (Yields.same hobjs ⟨?_, r.heap.length, s.objs.length, rfl, hlast, hfirst⟩).newObject
    hadd hpre hreadable
  apply hstill.newObject hcount hadd rfl rfl rfl rfl rfl hpre
  intro μ _
  rw [hclone μ]
  exact List.getElem?_concat_length

-- An array buffer, met before or not; it may belong to a view that is still being read.
theorem buffer_roundtrip {stack n : Nat} {b : Ptr} (hvalid : ValidHeap rt heap)
    (hs : WriterInv rt heap s) (hb : (heap.getD b .other).bufferLength = some n)
    (h : jsWriteObjectRec rt heap stack (.object b) s = .ok s') :
    ∃ bytes, s'.dbuf = s.dbuf ++ bytes ∧ ∀ k ≥ stack, ∀ (r : BCReaderState) rest,
      r.ptr = bytes ++ rest → r.objects.length = s.objs.length →
      (∀ i : Nat, s.objs[i]? = some b → r.objects[i]? ≠ some none) →
        ReadsObject heap b s s' rest r (jsReadObjectRec k) := by
  cases stack with
  | zero => cases h
  | succ stack =>
    rw [jsWriteObjectRec] at h
    cases hfind : jsObjectListFind rt.address s.objectList b with
    | some idx =>
      rw [hfind] at h
      cases h
      refine ⟨_, (congrArg BCWriterState.dbuf (putTag_put s _ _)).trans rfl, ?_⟩
      intro k hk r rest hptr hcount hsettled
      obtain ⟨k, rfl⟩ : ∃ m, k = m + 1 := ⟨k - 1, by omega⟩
      exact reads_reference hs hvalid.size hfind hcount
        (hsettled idx (hs.consistent.jsObjectListFind_eq_some hfind)) hptr
    | none =>
      rw [hfind] at h
      have hnew : b ∉ s.objs := (hs.consistent.jsObjectListFind_eq_none_iff b).mp hfind
      have hlt : b < heap.length := by
        by_contra hge
        rw [List.getD_eq_default _ _ (Nat.le_of_not_lt hge)] at hb
        cases hb
      have hmem : heap.getD b .other ∈ heap := by
        rw [List.getD_eq_getElem _ _ hlt]
        exact List.getElem_mem hlt
      have hobj := hvalid.objects _ hmem
      cases hclass : heap.getD b .other with
      | arrayBuffer data maxByteLength =>
        rw [hclass] at h hobj
        cases data with
        | none => cases h
        | some bytes =>
          cases h
          obtain ⟨hlen, hmax⟩ := hobj bytes rfl
          refine ⟨BCTag.arrayBuffer.toUInt8 :: (dbufPutLeb128 (UInt32.ofNat bytes.length) ++
            (dbufPutLeb128 (maxByteLengthWord maxByteLength) ++ bytes)), ?_, ?_⟩
          · simp [BCWriterState.putTag, BCWriterState.putLeb128, BCWriterState.put]
          intro k hk r rest hptr hcount _
          obtain ⟨k, rfl⟩ : ∃ m, k = m + 1 := ⟨k - 1, by omega⟩
          have hread := arrayBuffer_roundtrip (k := k) hlen hmax (by simpa using hptr)
          refine reads_newObject (.arrayBuffer (some bytes) maxByteLength) hs hnew hlt rfl
            (List.append_nil _).symm hcount ?_ ?_ ?_
          · intro μ
            rw [hclass]
            rfl
          · rw [Readable, hclass]
            trivial
          · rw [hread, List.append_nil]
            rfl
      | sharedArrayBuffer data byteLength maxByteLength =>
        rw [hclass] at h hobj
        cases h
        obtain ⟨hlen, hmax⟩ := hobj
        refine ⟨BCTag.sharedArrayBuffer.toUInt8 :: (dbufPutLeb128 (UInt32.ofNat byteLength) ++
          (dbufPutLeb128 (maxByteLengthWord maxByteLength) ++ bcPutU64 data)), ?_, ?_⟩
        · simp [BCWriterState.putTag, BCWriterState.putLeb128, BCWriterState.put,
            jsWriteSharedArrayBuffer]
        intro k hk r rest hptr hcount _
        obtain ⟨k, rfl⟩ : ∃ m, k = m + 1 := ⟨k - 1, by omega⟩
        have hread := sharedArrayBuffer_roundtrip (k := k) hlen hmax (by simpa using hptr)
        cases maxByteLength with
        | none =>
          refine reads_newObject (.sharedArrayBuffer data byteLength none) hs hnew hlt rfl
            rfl hcount ?_ ?_ hread
          · intro μ
            rw [hclass]
            rfl
          · rw [Readable, hclass]
        | some m =>
          have hobjs : (s.addObject rt b).objs = s.objs ++ [b] := (hs.add hnew hlt).2
          have hnot : ¬ Readable heap b := by
            rw [Readable, hclass]
            intro hm
            cases hm
          constructor
          · intro hall
            refine absurd (hall b ?_) hnot
            show b ∈ (s.addObject rt b).objs.drop s.objs.length
            rw [hobjs, List.drop_left]
            exact List.mem_singleton_self b
          · intro _
            exact ⟨_, hread⟩
      | _ =>
        rw [hclass] at hb
        cases hb

end QNode.Core
