import QNode.Core.Reached
import QNode.Core.RoundTrip

/-!
# Messages

A message that has been written is read as the clone of its value, unless one of its objects is a shared
buffer that can grow or a view beyond its buffer: then the receiver gets an exception.
-/

namespace QNode.Core

open BCReaderState

variable {rt : Runtime} {heap : Heap} {s s' : BCWriterState} {r : BCReaderState}
  {rest : List UInt8}

/-! ## Each class of objects -/

theorem ValidHeap.valid (h : ValidHeap rt heap) {p : Ptr} (hp : p < heap.length) :
    (heap.getD p .other).Valid heap := by
  apply h.objects
  rw [List.getD_eq_getElem _ _ hp]
  exact List.getElem_mem hp

-- The steps of the reader for a view, up to its buffer and from there.
theorem jsReadTypedArray_eq
    (readRec : BCReaderState → Except ReadFailure (JSValue × BCReaderState))
    {arrayTag count offset : Nat} (htag : arrayTag < jsTypedArrayCount) (hcount : count < 2 ^ 32)
    (hoffset : offset < 2 ^ 32)
    (hptr : r.ptr = UInt8.ofNat arrayTag :: (dbufPutLeb128 (UInt32.ofNat count) ++
      (dbufPutLeb128 (UInt32.ofNat offset) ++ rest))) :
    jsReadTypedArray readRec r = readRec ({ r with ptr := rest }.addRef none) >>= fun x ↦
      match x.1 with
      | .object a => jsTypedArrayConstructor x.2 arrayTag a offset count >>= fun y ↦
          .ok (y.1, { y.2 with
            objects := y.2.objects.set r.objects.length (some (y.2.heap.length - 1)) })
      | _ => fail (.typeError "ArrayBuffer object expected") := by
  have htag' : (UInt8.ofNat arrayTag).toNat = arrayTag := by
    rw [UInt8.toNat_ofNat']
    unfold jsTypedArrayCount at htag
    omega
  have hu8 : pull bcGetU8 r = .ok (UInt8.ofNat arrayTag, { r with
      ptr := dbufPutLeb128 (UInt32.ofNat count) ++
        (dbufPutLeb128 (UInt32.ofNat offset) ++ rest) }) := by
    rw [pull, hptr]
    rfl
  rw [jsReadTypedArray, hu8]
  simp only [bind, Except.bind, htag', if_neg (Nat.not_le_of_lt htag)]
  rw [pull_leb128 _ rfl]
  simp only []
  rw [pull_leb128 _ rfl]
  simp only [toNat_ofNat_lt hcount, toNat_ofNat_lt hoffset]
  rfl

theorem reads_typedArray {k stack arrayTag count offset : Nat} {trackRab : Bool}
    {buffer p : Ptr} {bytes : List UInt8} (hvalid : ValidHeap rt heap) (hlt : p < heap.length)
    (hp : heap.getD p .other = .typedArray arrayTag count offset trackRab buffer)
    {s₁ : BCWriterState} (hs₁ : WriterInv rt heap s₁) (hadd : s₁.objs = s.objs ++ [p])
    (hsab : s₁.sabTab = s.sabTab) (h : jsWriteObjectRec rt heap stack (.object buffer) s₁ = .ok s')
    (hbytes : s'.dbuf = s₁.dbuf ++ bytes) (hk : k ≥ stack)
    (hptr : r.ptr = UInt8.ofNat arrayTag :: (dbufPutLeb128 (UInt32.ofNat count) ++
      (dbufPutLeb128 (UInt32.ofNat offset) ++ (bytes ++ rest))))
    (hbefore : Before heap s s' r) (hsettled : Settled r) :
    Yields heap s s' (jsReadTypedArray (jsReadObjectRec k) r) fun x ↦
      After heap (fun _ ↦ False) s s' rest r x.2 ∧
        ∀ μ, Agrees μ s'.objs x.2.objects → x.1 = (JSValue.object p).transfer μ := by
  have hview := hvalid.valid hlt
  rw [hp] at hview
  obtain ⟨htag, hcount, hoffset, haligned, hbuffer⟩ := hview
  obtain ⟨n, hn⟩ := Option.isSome_iff_exists.mp hbuffer
  have hreadable : Readable heap p ↔ offset + count * 2 ^ typedArraySizeLog2 arrayTag ≤ n := by
    rw [Readable, hp]
    constructor
    · exact fun hall ↦ hall n hn
    · intro hle m hm
      rw [hn, Option.some_inj] at hm
      exact hm ▸ hle
  obtain ⟨hinv, hgrows⟩ := grower_writeObjectRec hvalid.names stack (.object buffer) s₁ s' hs₁ h
  -- the buffer is not the view itself, so its number is settled
  have hsettled' : ∀ i : Nat, s₁.objs[i]? = some buffer →
      ({ r with ptr := bytes ++ rest }.addRef none).objects[i]? ≠ some none := by
    intro i hi ha
    have ha' : (r.objects ++ [none])[i]? = some none := ha
    by_cases hlt' : i < r.objects.length
    · rw [List.getElem?_append_left hlt'] at ha'
      exact hsettled i ha'
    · rw [hadd, List.getElem?_append_right (hbefore.count ▸ Nat.le_of_not_lt hlt')] at hi
      rw [List.mem_singleton.mp (List.mem_of_getElem? hi), hp] at hn
      cases hn
  obtain ⟨bytes', hbytes', hread⟩ := buffer_roundtrip hvalid hs₁ hn h
  rw [hbytes, List.append_cancel_left_eq] at hbytes'
  have hbuf := hread k hk ({ r with ptr := bytes ++ rest }.addRef none) rest (hbytes' ▸ rfl)
    (hbefore.addRef hadd _).count hsettled'
  -- what the constructor finds
  have hfound : ∀ (a : Ptr) (i : Nat) (r₂ : BCReaderState),
      After heap (fun _ ↦ False) s₁ s' rest ({ r with ptr := bytes ++ rest }.addRef none) r₂ →
      s'.objs[i]? = some buffer → r₂.objects[i]? = some (some a) →
      (r₂.heap.getD a .other).bufferLength = some n := by
    intro a i r₂ hafter hi ha
    have hthen := (hbefore.addRef hadd (bytes ++ rest)).step hafter hgrows.objs hinv.nodup
      (fun q hq ↦ hq.elim)
    exact (hthen.buffers i buffer a n hi ha hn).2
  rw [jsReadTypedArray_eq _ htag hcount hoffset hptr]
  by_cases hfits : offset + count * 2 ^ typedArraySizeLog2 arrayTag ≤ n
  · refine Yields.newObject ?_ hadd hgrows.objs (hreadable.mpr hfits)
    refine Yields.bind hbuf hgrows.objs List.prefix_rfl ?_
    rintro ⟨x, r₂⟩ ⟨hafter, a, i, hx, hi, ha⟩
    dsimp only at hx hi ha hafter ⊢
    rw [hx]
    dsimp only
    rw [jsTypedArrayConstructor_eq (hfound a i r₂ hafter hi ha) haligned,
      if_neg (Nat.not_lt_of_le hfits)]
    have hlast : (r₂.alloc (.typedArray arrayTag count offset false a)).heap.length - 1 =
        r₂.heap.length := by
      show (r₂.heap ++ [_]).length - 1 = r₂.heap.length
      rw [List.length_append]
      rfl
    have hnone : r₂.objects[r.objects.length]? = some none :=
      getElem?_mono hafter.objects List.getElem?_concat_length
    have hself : (r₂.objects.set r.objects.length (some r₂.heap.length))[r.objects.length]? =
        some (some r₂.heap.length) :=
      List.getElem?_set_self (List.getElem?_eq_some_iff.mp hnone).1
    refine Yields.same rfl ⟨?_, ?_⟩
    · rw [hlast]
      refine After.settle hafter rfl rfl rfl rfl hadd hsab hbefore.count hgrows.objs ?_
      intro μ hμ
      have hne : i ≠ r.objects.length := by
        intro heq
        rw [heq, hnone, Option.some_inj] at ha
        cases ha
      rw [hp, JSObject.clone, hμ i buffer a hi ((List.getElem?_set_ne (Ne.symm hne)).trans ha)]
    · intro μ hμ
      have hμ' : Agrees μ s'.objs (r₂.objects.set r.objects.length (some r₂.heap.length)) := by
        rw [← hlast]
        exact hμ
      have hfirst : s'.objs[r.objects.length]? = some p := by
        apply getElem?_mono hgrows.objs
        rw [hadd, hbefore.count]
        exact List.getElem?_concat_length
      rw [JSValue.transfer, hμ' _ p _ hfirst hself]
  · constructor
    · intro hall
      refine absurd (hreadable.mp (hall p ?_)) hfits
      obtain ⟨more, hmore⟩ := hgrows.objs
      rw [← hmore, hadd, List.append_assoc, List.drop_left]
      exact List.mem_cons_self
    · intro _
      by_cases hall : ∀ q ∈ s'.objs.drop s₁.objs.length, Readable heap q
      · obtain ⟨⟨x, r₂⟩, hok, hafter, a, i, hx, hi, ha⟩ := hbuf.1 hall
        dsimp only at hx hi ha hafter
        rw [hok]
        simp only [bind, Except.bind, hx]
        rw [jsTypedArrayConstructor_eq (hfound a i r₂ hafter hi ha) haligned,
          if_pos (Nat.lt_of_not_le hfits)]
        exact ⟨_, rfl⟩
      · obtain ⟨e, he⟩ := hbuf.2 (by simpa using hall)
        rw [he]
        exact ⟨e, rfl⟩

-- After the tag the reader for it goes on.
theorem reads_tagged {k : Nat} {v : JSValue} (tag : BCTag) {ptr : List UInt8}
    (h : ReadsValue heap v s s' rest { r with ptr := ptr } (jsReadTagged (jsReadObjectRec k) tag))
    (hptr : r.ptr = tag.toUInt8 :: ptr) :
    ReadsValue heap v s s' rest r (jsReadObjectRec (k + 1)) := by
  rw [ReadsValue, readObjectRec_tag tag hptr]
  refine Yields.mono h ?_
  rintro x ⟨hafter, hvalue⟩
  exact ⟨hafter.moved rfl, hvalue⟩

section

variable {writeRec : JSValue → BCWriterState → Except JSError BCWriterState}
  {readRec : BCReaderState → Except ReadFailure (JSValue × BCReaderState)}
  (hmirror : Mirrors rt heap writeRec readRec) (hgrow : ∀ v, Grower rt heap (writeRec v))

include hmirror hgrow

theorem reads_array {s₁ : BCWriterState} {obj : JSObject} {p : Ptr} {bytes : List UInt8}
    (hp : heap.getD p .other = obj) (hlen : (arraySlots obj).length = arrayLength obj)
    (hlt : arrayLength obj < 2 ^ 32) (hsized : ∀ v, .ok v ∈ arraySlots obj → v.Sized)
    (hclone : ∀ μ, obj.clone μ =
      .fastArray ((arraySlots obj).map (transferSlot μ)) (arrayLength obj))
    (hreadable : Readable heap p) (hs₁ : WriterInv rt heap s₁) (hadd : s₁.objs = s.objs ++ [p])
    (hsab : s₁.sabTab = s.sabTab) (h : jsWriteSlots writeRec (arraySlots obj) s₁ = .ok s')
    (hpending : s'.pending = none) (hbytes : s'.dbuf = s₁.dbuf ++ bytes)
    (hptr : r.ptr = dbufPutLeb128 (UInt32.ofNat (arrayLength obj)) ++ (bytes ++ rest))
    (hbefore : Before heap s s' r) (hsettled : Settled r) :
    ReadsValue heap (.object p) s s' rest r (jsReadArray readRec) := by
  obtain ⟨-, hgrows⟩ := grower_slots hgrow (arraySlots obj) s₁ s' hs₁ h
  have hclone' := hclone id
  have hnone : (heap.getD p .other).bufferLength = none := by
    rw [hp, ← bufferLength_clone id, hclone']
    rfl
  have hstep : jsReadArray readRec r =
      readElements readRec r.heap.length (arraySlots obj).length
        { r.newObject (.fastArray [] 0) with ptr := bytes ++ rest } >>= fun t ↦
          Except.ok (JSValue.object r.heap.length, t) := by
    rw [jsReadArray, pull_leb128 (r := r.newObject (.fastArray [] 0)) _ hptr]
    simp only [bind, Except.bind, toNat_ofNat_lt hlt, hlen]
    rfl
  rw [ReadsValue, hstep]
  refine reads_filled hadd hsab hgrows.objs hbefore.count hreadable ?_
  refine Yields.mono (reads_slots hmirror hgrow r.heap.length (arraySlots obj) s₁ s' bytes hsized hs₁
    h hpending hbytes _ rest [] rfl (hbefore.newObject hadd hnone _ _) (hsettled.newObject _ _)
    List.getElem?_concat_length) ?_
  rintro r' ⟨hafter, hcontent⟩
  refine ⟨hafter, fun μ hμ ↦ ?_⟩
  rw [hcontent μ hμ, hp, hclone μ, ← hlen]
  simp

theorem reads_plainObject {s₁ : BCWriterState} {props : List JSProperty} {p : Ptr}
    {bytes : List UInt8} (hp : heap.getD p .other = .object props)
    (hlt : (writtenProps props).length < 2 ^ 32)
    (hnodup : ((writtenProps props).map JSProperty.atom).Nodup)
    (hsized : ∀ pr ∈ writtenProps props, ∀ v ∈ pr.value, v.Sized)
    (hnames : ∀ pr ∈ writtenProps props, ∀ text, pr.atom = .visible (.string text) →
      text ∈ rt.atomArray)
    (hs₁ : WriterInv rt heap s₁) (hadd : s₁.objs = s.objs ++ [p])
    (hsab : s₁.sabTab = s.sabTab) (h : jsWriteProps writeRec (writtenProps props) s₁ = .ok s')
    (hpending : s'.pending = none) (hbytes : s'.dbuf = s₁.dbuf ++ bytes)
    (hptr : r.ptr = dbufPutLeb128 (UInt32.ofNat (writtenProps props).length) ++ (bytes ++ rest))
    (hbefore : Before heap s s' r) (hsettled : Settled r) :
    ReadsValue heap (.object p) s s' rest r (jsReadObjectTag readRec) := by
  obtain ⟨-, hgrows⟩ := grower_props hgrow (writtenProps props) hnames s₁ s' hs₁ h
  have hnone : (heap.getD p .other).bufferLength = none := by
    rw [hp]
    rfl
  have hreadable : Readable heap p := by
    rw [Readable, hp]
    trivial
  have hstep : jsReadObjectTag readRec r =
      readProps readRec r.heap.length (writtenProps props).length
        { r.newObject (.object []) with ptr := bytes ++ rest } >>= fun t ↦
          Except.ok (JSValue.object r.heap.length, t) := by
    rw [jsReadObjectTag, pull_leb128 (r := r.newObject (.object [])) _ hptr]
    simp only [bind, Except.bind, toNat_ofNat_lt hlt]
    rfl
  rw [ReadsValue, hstep]
  refine reads_filled hadd hsab hgrows.objs hbefore.count hreadable ?_
  refine Yields.mono (reads_props hmirror hgrow r.heap.length (writtenProps props) s₁ s' bytes hsized
    hnames hs₁ h hpending hbytes _ rest [] rfl (hbefore.newObject hadd hnone _ _)
    (hsettled.newObject _ _) List.getElem?_concat_length hnodup) ?_
  rintro r' ⟨hafter, hcontent⟩
  refine ⟨hafter, fun μ hμ ↦ ?_⟩
  rw [hcontent μ hμ, hp]
  rfl

end

/-! ## All values -/

theorem arraySlots_sized {obj : JSObject} (h : obj.Valid heap) {v : JSValue}
    (hv : .ok v ∈ arraySlots obj) : v.Sized := by
  cases obj with
  | fastArray values length =>
    rcases List.mem_append.mp hv with hv | hv
    · obtain ⟨w, hw, heq⟩ := List.mem_map.mp hv
      rw [← Except.ok.inj heq]
      exact h.2.2 w hw
    · rw [Except.ok.inj (List.eq_of_mem_replicate hv)]
      trivial
  | slowArray props length =>
    obtain ⟨i, -, hi⟩ := List.mem_map.mp hv
    rw [slotValue] at hi
    split at hi
    · rw [← Except.ok.inj hi]
      trivial
    · next pr hfind =>
      split at hi
      · split at hi
        · cases hi
        · next w hw =>
          rw [← Except.ok.inj hi]
          exact h.2 pr (List.mem_of_find?_eq_some hfind) w hw
      · rw [← Except.ok.inj hi]
        trivial
  | _ => cases hv

theorem arraySlots_length {values : List JSValue} {length : Nat} (h : values.length ≤ length) :
    (arraySlots (.fastArray values length)).length = length := by
  rw [arraySlots, List.length_append, List.length_map, List.length_replicate]
  omega

-- A value that was written after the tag of the object that holds it.
theorem reads_boxed {stack k : Nat} {data : JSValue} (tag : BCTag) (obj : JSObject) {p : Ptr}
    {bytes : List UInt8} (hk : stack ≤ k) (hscalar : data.isScalar) (hsized : data.Sized)
    (hs : WriterInv rt heap s) (hnew : p ∉ s.objs) (hlt : p < heap.length)
    (hclone : ∀ μ, (heap.getD p .other).clone μ = obj) (hreadable : Readable heap p)
    (h : jsWriteObjectRec rt heap stack data ((s.addObject rt p).putTag tag) = .ok s')
    (hpending : s'.pending = none) (hbytes : s'.dbuf = s.dbuf ++ bytes)
    (hread : ∀ t, jsReadObjectRec k t = .ok (data.transfer id, { t with ptr := rest }) →
      jsReadTagged (jsReadObjectRec k) tag t =
        .ok (.object t.heap.length, { t.newObject obj with ptr := rest }))
    (hptr : r.ptr = bytes ++ rest) (hcount : r.objects.length = s.objs.length) :
    ReadsObject heap p s s' rest r (jsReadObjectRec (k + 1)) := by
  obtain ⟨bytes', heq, hscan⟩ := scalar_roundtrip hscalar hsized h hpending
  have hput : bytes = tag.toUInt8 :: bytes' := by
    have hdbuf : s'.dbuf = s.dbuf ++ (tag.toUInt8 :: bytes') := by
      rw [heq, putTag_put]
      rfl
    exact List.append_cancel_left (hbytes.symm.trans hdbuf)
  rw [hput] at hptr
  refine reads_newObject obj hs hnew hlt (by rw [heq]; rfl)
    (by rw [heq]; exact (List.append_nil _).symm) hcount hclone hreadable ?_
  rw [readObjectRec_tag tag hptr, hread _ (hscan k hk _ rest rfl), List.append_nil]
  rfl

-- An object that is met for the first time, by its class.
theorem reads_object {stack k : Nat} {p : Ptr} {bytes : List UInt8} (hvalid : ValidHeap rt heap)
    (hk : stack ≤ k)
    (hmirror : Mirrors rt heap (jsWriteObjectRec rt heap stack) (jsReadObjectRec k))
    (hs : WriterInv rt heap s) (hnew : p ∉ s.objs)
    (h : jsWriteNewObject (jsWriteObjectRec rt heap stack) (heap.getD p .other)
      (s.addObject rt p) = .ok s')
    (hpending : s'.pending = none) (hbytes : s'.dbuf = s.dbuf ++ bytes)
    (hptr : r.ptr = bytes ++ rest) (hbefore : Before heap s s' r) (hsettled : Settled r) :
    ReadsValue heap (.object p) s s' rest r (jsReadObjectRec (k + 1)) := by
  have hlt : p < heap.length := by
    by_contra hge
    rw [List.getD_eq_default _ _ (Nat.le_of_not_lt hge)] at h
    cases h
  have hobj := hvalid.valid hlt
  have hgrow := grower_writeObjectRec hvalid.names stack
  obtain ⟨hinv, hadd⟩ : WriterInv rt heap (s.addObject rt p) ∧
      (s.addObject rt p).objs = s.objs ++ [p] := hs.add hnew hlt
  -- what comes after the tag and the bytes of the writer itself
  have hrest : ∀ (tag : BCTag) (own : List UInt8) {s₁ : BCWriterState},
      s₁.dbuf = s.dbuf ++ (tag.toUInt8 :: own) → Grows s₁ s' →
      ∃ more, s'.dbuf = s₁.dbuf ++ more ∧ r.ptr = tag.toUInt8 :: (own ++ (more ++ rest)) := by
    intro tag own s₁ hown hgrows
    obtain ⟨more, hmore⟩ := hgrows.dbuf
    refine ⟨more, hmore.symm, ?_⟩
    rw [← hmore, hown, List.append_assoc] at hbytes
    rw [hptr, ← List.append_cancel_left hbytes]
    simp
  -- an array of either kind
  have harray : ∀ obj, heap.getD p .other = obj → (arraySlots obj).length = arrayLength obj →
      arrayLength obj < 2 ^ 32 → Readable heap p →
      (∀ μ, obj.clone μ =
        .fastArray ((arraySlots obj).map (transferSlot μ)) (arrayLength obj)) →
      jsWriteArray (jsWriteObjectRec rt heap stack) obj (s.addObject rt p) = .ok s' →
      ReadsValue heap (.object p) s s' rest r (jsReadObjectRec (k + 1)) := by
    intro obj hp hlen hsmall hreadable hclone h
    have hinv' := (hinv.put [BCTag.array.toUInt8]).put
      (dbufPutLeb128 (UInt32.ofNat (arrayLength obj)))
    obtain ⟨-, hgrows⟩ := grower_slots hgrow (arraySlots obj) _ s' hinv' h
    obtain ⟨more, hmore, hptr'⟩ := hrest .array (dbufPutLeb128 (UInt32.ofNat (arrayLength obj)))
      (by rw [put_put]; rfl) hgrows
    exact reads_tagged .array (reads_array hmirror hgrow hp hlen hsmall
      (fun v hv ↦ arraySlots_sized (hp ▸ hobj) hv) hclone hreadable hinv' hadd rfl h hpending hmore
      rfl (hbefore.moved rfl _) hsettled) hptr'
  cases hp : heap.getD p .other with
  | fastArray values length =>
    rw [hp] at h hobj
    have hlen := arraySlots_length hobj.1
    exact harray _ hp hlen hobj.2.1 (by rw [Readable, hp]; trivial) (fun μ ↦ rfl) h
  | slowArray props length =>
    rw [hp] at h hobj
    have hlen : (arraySlots (.slowArray props length)).length = length := by
      rw [arraySlots, List.length_map, List.length_range]
    exact harray _ hp hlen hobj.1 (by rw [Readable, hp]; trivial) (fun μ ↦ rfl) h
  | object props =>
    rw [hp] at h hobj
    obtain ⟨hsmall, hnodup, hsized⟩ := hobj
    rw [jsWriteNewObject, jsWriteObjectTag] at h
    split at h
    · cases h
    · have hmem : ∀ pr ∈ writtenProps props, pr ∈ props :=
        fun pr hpr ↦ (List.mem_filter.mp hpr).1
      have hnames : ∀ pr ∈ writtenProps props, ∀ text, pr.atom = .visible (.string text) →
          text ∈ rt.atomArray := by
        intro pr hpr
        apply hvalid.names props _ pr (hmem pr hpr)
        rw [← hp, List.getD_eq_getElem _ _ hlt]
        exact List.getElem_mem hlt
      have hinv' := (hinv.put [BCTag.object.toUInt8]).put
        (dbufPutLeb128 (UInt32.ofNat (writtenProps props).length))
      obtain ⟨-, hgrows⟩ := grower_props hgrow (writtenProps props) hnames _ s' hinv' h
      obtain ⟨more, hmore, hptr'⟩ := hrest .object
        (dbufPutLeb128 (UInt32.ofNat (writtenProps props).length))
        (by rw [put_put]; rfl) hgrows
      have hfew : (writtenProps props).length < 2 ^ 32 :=
        Nat.lt_of_le_of_lt (List.length_filter_le _ _) hsmall
      exact reads_tagged .object (reads_plainObject hmirror hgrow hp hfew hnodup
        (fun pr hpr ↦ hsized pr (hmem pr hpr)) hnames hinv' hadd rfl h hpending hmore rfl
        (hbefore.moved rfl _) hsettled) hptr'
  | typedArray arrayTag count offset trackRab buffer =>
    rw [hp] at h
    have hinv' := (((hinv.put [BCTag.typedArray.toUInt8]).put [UInt8.ofNat arrayTag]).put
      (dbufPutLeb128 (UInt32.ofNat count))).put (dbufPutLeb128 (UInt32.ofNat offset))
    obtain ⟨-, hgrows⟩ := hgrow (.object buffer) _ s' hinv' h
    obtain ⟨more, hmore, hptr'⟩ := hrest .typedArray (UInt8.ofNat arrayTag ::
        (dbufPutLeb128 (UInt32.ofNat count) ++ dbufPutLeb128 (UInt32.ofNat offset)))
      (by simp [BCWriterState.put, BCWriterState.addObject]) hgrows
    refine reads_tagged .typedArray ?_ hptr'
    exact reads_typedArray hvalid hlt hp hinv' hadd rfl h hmore hk (by simp)
      (hbefore.moved rfl _) hsettled
  | arrayBuffer data maxByteLength =>
    have hsome : (heap.getD p .other).bufferLength = some (data.getD []).length := by rw [hp]; rfl
    have hwrite : jsWriteObjectRec rt heap (stack + 1) (.object p) s = .ok s' := by
      rw [jsWriteObjectRec, (hs.consistent.jsObjectListFind_eq_none_iff p).mpr hnew]
      exact h
    obtain ⟨bytes', hbytes', hread⟩ := buffer_roundtrip hvalid hs hsome hwrite
    rw [hbytes, List.append_cancel_left_eq] at hbytes'
    exact (hread (k + 1) (Nat.succ_le_succ hk) r rest (hbytes' ▸ hptr) hbefore.count
      (fun i _ ↦ hsettled i)).readsValue
  | sharedArrayBuffer data byteLength maxByteLength =>
    have hsome : (heap.getD p .other).bufferLength = some byteLength := by rw [hp]; rfl
    have hwrite : jsWriteObjectRec rt heap (stack + 1) (.object p) s = .ok s' := by
      rw [jsWriteObjectRec, (hs.consistent.jsObjectListFind_eq_none_iff p).mpr hnew]
      exact h
    obtain ⟨bytes', hbytes', hread⟩ := buffer_roundtrip hvalid hs hsome hwrite
    rw [hbytes, List.append_cancel_left_eq] at hbytes'
    exact (hread (k + 1) (Nat.succ_le_succ hk) r rest (hbytes' ▸ hptr) hbefore.count
      (fun i _ ↦ hsettled i)).readsValue
  | date data =>
    rw [hp] at h hobj
    have hnumber : data.isNumber := hobj
    have hscalar : data.isScalar := by
      cases data <;> first | rfl | cases hnumber
    have hsized : data.Sized := by
      cases data <;> trivial
    refine (reads_boxed .date (.date (data.transfer id)) hk hscalar hsized hs hnew hlt
      ?_ ?_ h hpending hbytes ?_ hptr hbefore.count).readsValue
    · intro μ
      rw [hp, JSObject.clone, transfer_scalar hscalar μ]
    · rw [Readable, hp]
      trivial
    · intro t ht
      have hnumber' : (data.transfer id).isNumber := by
        rw [← hnumber]
        cases data <;> rfl
      rw [jsReadTagged, jsReadDate, ht]
      simp only [bind, Except.bind, hnumber', if_true]
      rfl
  | objectValue data =>
    rw [hp] at h hobj
    obtain ⟨hprimitive, hsized⟩ := hobj
    have hscalar : data.isScalar := by
      cases data <;> first | rfl | cases hprimitive
    refine (reads_boxed .objectValue (.objectValue (data.transfer id)) hk hscalar
      hsized hs hnew hlt ?_ ?_ h hpending hbytes ?_ hptr hbefore.count).readsValue
    · intro μ
      rw [hp, JSObject.clone, transfer_scalar hscalar μ]
    · rw [Readable, hp]
      trivial
    · intro t ht
      rw [jsReadTagged, jsReadObjectValue, ht]
      cases data <;> first | rfl | cases hprimitive
  | other =>
    rw [hp] at h
    cases h

-- By induction on the room that the writer has on the stack.
theorem mirrors_objectRec (hvalid : ValidHeap rt heap) (stack k : Nat) (hk : stack ≤ k) :
    Mirrors rt heap (jsWriteObjectRec rt heap stack) (jsReadObjectRec k) := by
  induction stack generalizing k with
  | zero =>
    intro v s s' bytes _ _ h
    cases h
  | succ stack ih =>
    obtain ⟨k, rfl⟩ : ∃ m, k = m + 1 := ⟨k - 1, by omega⟩
    have hk' : stack ≤ k := Nat.le_of_succ_le_succ hk
    intro v s s' bytes hsized hs h hpending hbytes r rest hptr hbefore hsettled
    by_cases hscalar : v.isScalar
    · obtain ⟨bytes', heq, hread⟩ := scalar_roundtrip hscalar hsized h hpending
      have hsame : bytes = bytes' := by
        rw [heq] at hbytes
        exact (List.append_cancel_left hbytes).symm
      rw [ReadsValue, hread (k + 1) hk r rest (hsame ▸ hptr), heq]
      refine Yields.same rfl ⟨?_, fun μ _ ↦ (transfer_scalar hscalar μ).symm⟩
      exact After.still rfl hbefore.count rfl rfl rfl rfl (List.append_nil _).symm
        (List.append_nil _).symm
    · cases v with
      | object p =>
        rw [jsWriteObjectRec] at h
        cases hfind : jsObjectListFind rt.address s.objectList p with
        | some idx =>
          rw [hfind] at h
          cases h
          have hput : bytes = BCTag.objectReference.toUInt8 ::
              dbufPutLeb128 (UInt32.ofNat idx) := by
            have hdbuf := congrArg BCWriterState.dbuf
              (putTag_put s .objectReference (dbufPutLeb128 (UInt32.ofNat idx)))
            exact List.append_cancel_left (hbytes.symm.trans hdbuf)
          rw [hput] at hptr
          exact (reads_reference hs hvalid.size hfind hbefore.count (hsettled idx) hptr).readsValue
        | none =>
          rw [hfind] at h
          have hnew := (hs.consistent.jsObjectListFind_eq_none_iff p).mp hfind
          exact reads_object hvalid hk' (ih k hk') hs hnew h hpending hbytes hptr hbefore hsettled
      | other tag => cases h
      | _ => exact absurd rfl hscalar

/-! ## The whole message -/

theorem jsNewAtomStr_atomString (rt : Runtime) (text : AtomText) :
    jsNewAtomStr (rt.atomString text) = .string text := by
  unfold jsNewAtomStr
  split
  · next n hn =>
    have hnone : atomIndex (rt.atomString text).units = none := text.not_index
    rw [hnone] at hn
    cases hn
  · rfl

theorem readAtoms_write (rt : Runtime) (texts : List AtomText) (r : BCReaderState)
    (hptr : r.ptr = texts.flatMap (fun text ↦ jsWriteString (rt.atomString text)) ++ rest) :
    readAtoms texts.length r =
      .ok { r with ptr := rest, idxToAtom := r.idxToAtom ++ texts.map JSAtom.string } := by
  induction texts generalizing r with
  | nil =>
    have hptr' : r.ptr = rest := hptr
    rw [List.map_nil, List.append_nil, ← hptr']
    rfl
  | cons text texts ih =>
    rw [List.flatMap_cons, List.append_assoc] at hptr
    rw [List.length_cons, readAtoms, pull_ok (jsReadString_write (rt.atomString text) _) hptr]
    simp only [bind, Except.bind, jsNewAtomStr_atomString]
    rw [ih _ rfl, List.map_cons, List.append_assoc]
    rfl

-- The reader finds the atoms of the writer, and then the value.
theorem jsReadObject_eq {heap' : Heap} {k : Nat} (hs : WriterInv rt heap s) :
    jsReadObject heap' k (jsWriteObjectAtoms rt s) =
      jsReadObjectRec k ⟨s.dbuf, (jsWriteObjectAtoms rt s).length, s.idxToAtom.map .string, [], heap',
        []⟩ := by
  have hlen : (UInt32.ofNat s.idxToAtom.length).toNat = s.idxToAtom.length := by
    apply toNat_ofNat_lt
    have hle := hs.length_idxToAtom_le
    unfold jsAtomMax at hle
    omega
  have hversion : ∀ r : BCReaderState, r.ptr = jsWriteObjectAtoms rt s →
      jsReadObjectAtoms r =
        .ok { r with ptr := s.dbuf, idxToAtom := r.idxToAtom ++ s.idxToAtom.map .string } := by
    intro r hptr
    have hu8 : pull bcGetU8 r = .ok (bcVersion, { r with
        ptr := dbufPutLeb128 (UInt32.ofNat s.idxToAtom.length) ++
          (s.idxToAtom.flatMap (fun text ↦ jsWriteString (rt.atomString text)) ++ s.dbuf) }) := by
      rw [pull, hptr]
      rfl
    rw [jsReadObjectAtoms, hu8]
    simp only [bind, Except.bind]
    rw [if_neg (not_not_intro rfl), pull_leb128 _ rfl]
    simp only [hlen]
    rw [readAtoms_write rt s.idxToAtom _ rfl]
  rw [jsReadObject, hversion _ rfl]
  rfl

/-- What the receiver has: the value, with a clone of every object that it reaches; its own objects as they
were; and one more reference to each shared buffer that the sender has counted. -/
def Received (heap heap' : Heap) (v : JSValue) (w : Written) (x : JSValue) (r : BCReaderState) : Prop :=
  ∃ μ : Ptr → Ptr, x = v.transfer μ ∧
    (∀ p, Reaches heap v p → heap'.length ≤ μ p ∧
      r.heap[μ p]? = some ((heap.getD p .other).clone μ)) ∧
    (∀ p q, Reaches heap v p → Reaches heap v q → μ p = μ q → p = q) ∧
    (∀ q < heap'.length, r.heap[q]? = heap'[q]?) ∧ r.ptr = [] ∧ r.sabDups = w.sabTab

-- From the description of the stretch to that of the message.
theorem received {w : Written} {heap' : Heap} {v x : JSValue} {r r' : BCReaderState}
    (hs : WriterInv rt heap s) (hobjs : ∀ q, q ∈ s.objs ↔ Reaches heap v q) (hr : r.heap = heap')
    (hempty : r.objects = []) (hdups : r.sabDups = []) (hw : w.sabTab = s.sabTab)
    (hafter : After heap (fun _ ↦ False) .init s [] r r')
    (hx : ∀ μ, Agrees μ s.objs r'.objects → x = v.transfer μ) : Received heap heap' v w x r' := by
  obtain ⟨μ, hμ⟩ := exists_agrees hs.nodup r'.objects
  have hlow : ∀ i, r.objects.length ≤ i := fun i ↦ by rw [hempty]; exact Nat.zero_le i
  -- every object of the message has a number and a new address
  have hnumber : ∀ p, Reaches heap v p → ∃ i : Nat, s.objs[i]? = some p ∧
      r'.objects[i]? = some (some (μ p)) ∧ heap'.length ≤ μ p := by
    intro p hp
    obtain ⟨i, hi⟩ := List.getElem?_of_mem ((hobjs p).mpr hp)
    have hlt : i < r'.objects.length := by
      rw [hafter.count]
      exact (List.getElem?_eq_some_iff.mp hi).1
    obtain ⟨a, ha, hle, -⟩ := hafter.fresh i (hlow i) hlt
    have heq := hμ i p a hi ha
    exact ⟨i, hi, heq ▸ ha, heq ▸ hr ▸ hle⟩
  refine ⟨μ, hx μ hμ, ?_, ?_, ?_, hafter.ptr, ?_⟩
  · intro p hp
    obtain ⟨i, hi, ha, hle⟩ := hnumber p hp
    exact ⟨hle, hafter.contents μ hμ i p (μ p) (hlow i) hi ha⟩
  · intro p q hp hq heq
    obtain ⟨i, hi, ha, -⟩ := hnumber p hp
    obtain ⟨j, hj, hb, -⟩ := hnumber q hq
    have hij := hafter.distinct i j (μ p) (hlow i) (hlow j) ha (heq ▸ hb)
    rw [hij, hj, Option.some_inj] at hi
    exact hi.symm
  · intro q hq
    rw [← hr] at hq ⊢
    exact hafter.kept q hq id
  · obtain ⟨sabs, htab, hsabs⟩ := hafter.sabs
    rw [hsabs, hdups, hw, htab]
    rfl

-- Both outcomes of reading a message.
theorem message_outcome {stack k : Nat} {v : JSValue} {w : Written} (hvalid : ValidHeap rt heap)
    (hv : v.Sized) (h : jsWriteObject2 rt heap stack v = .ok w) (hpending : w.pending = none)
    (hk : stack ≤ k) (heap' : Heap) :
    ((∀ p, Reaches heap v p → Readable heap p) →
      ∃ x r, jsReadObject heap' k w.data = .ok (x, r) ∧ Received heap heap' v w x r) ∧
    ((∃ p, Reaches heap v p ∧ ¬ Readable heap p) →
      ∃ e, jsReadObject heap' k w.data = .error (.throw e)) := by
  rw [jsWriteObject2] at h
  cases hwrite : jsWriteObjectRec rt heap stack v .init with
  | error e =>
    rw [hwrite] at h
    cases h
  | ok s =>
    rw [hwrite] at h
    cases h
    obtain ⟨hinv, -⟩ := grower_writeObjectRec hvalid.names stack v .init s writerInv_init hwrite
    have hobjs := mem_objs_iff hvalid.names hwrite hpending
    have hatoms : ∀ (i : Nat) (text : AtomText), s.idxToAtom[i]? = some text →
        (s.idxToAtom.map JSAtom.string)[i]? = some (.string text) := by
      intro i text hi
      rw [List.getElem?_map, hi]
      rfl
    rw [jsReadObject_eq hinv]
    have hread := mirrors_objectRec hvalid stack k hk v .init s s.dbuf hv writerInv_init hwrite hpending
      rfl ⟨s.dbuf, (jsWriteObjectAtoms rt s).length, s.idxToAtom.map .string, [], heap', []⟩ []
      (List.append_nil _).symm
      ⟨rfl, hatoms, by intro i p a n hp; cases hp⟩ (by intro i hi; cases hi)
    have hnew : s.objs.drop BCWriterState.init.objs.length = s.objs := rfl
    constructor
    · intro hall
      obtain ⟨⟨x, r⟩, hok, hafter, hx⟩ := hread.1 fun q hq ↦ hall q ((hobjs q).mp hq)
      exact ⟨x, r, hok, received hinv hobjs rfl rfl rfl rfl hafter hx⟩
    · rintro ⟨p, hp, hnot⟩
      exact hread.2 ⟨p, (hobjs p).mpr hp, hnot⟩

-- The reader may have more room on its stack than the writer had.
theorem message_received {stack k : Nat} {v : JSValue} {w : Written} (hvalid : ValidHeap rt heap)
    (hv : v.Sized) (h : jsWriteObject2 rt heap stack v = .ok w) (hpending : w.pending = none)
    (hk : stack ≤ k) (heap' : Heap) (hreadable : ∀ p, Reaches heap v p → Readable heap p) :
    ∃ x r, jsReadObject heap' k w.data = .ok (x, r) ∧ Received heap heap' v w x r :=
  (message_outcome hvalid hv h hpending hk heap').1 hreadable

/-- A runtime without atoms. -/
def bareRuntime : Runtime := ⟨fun p ↦ UInt64.ofNat p, [], fun _ ↦ false, by decide⟩

/-- An object whose property 0 is the object itself. -/
def selfHolder : Heap := [.object [⟨.visible (.taggedInt 0), true, some (.object 0)⟩]]

theorem validHeap_selfHolder : ValidHeap bareRuntime selfHolder := by
  refine ⟨?_, ?_, by decide⟩
  · intro obj hobj
    rw [List.mem_singleton.mp hobj]
    refine ⟨by decide, by decide, ?_⟩
    intro pr hpr v hv
    rw [List.mem_singleton.mp hpr] at hv
    cases hv
    trivial
  · intro props hprops pr hpr text htext
    cases List.mem_singleton.mp hprops
    rw [List.mem_singleton.mp hpr] at htext
    cases htext

theorem message_received_selfHolder :
    ∃ x r, jsReadObject [] 2 [5, 0, 8, 1, 1, 19, 0] = .ok (x, r) ∧
      Received selfHolder [] (.object 0) ⟨[5, 0, 8, 1, 1, 19, 0], [], none⟩ x r := by
  refine message_received (k := 2) (w := ⟨[5, 0, 8, 1, 1, 19, 0], [], none⟩) (v := .object 0)
    validHeap_selfHolder
    trivial (by decide +kernel : jsWriteObject2 bareRuntime selfHolder 2 _ = _) rfl (Nat.le_refl 2)
    [] ?_
  intro p _
  match p with
  | 0 => trivial
  | _ + 1 => trivial

/-- A view at offset 2 of a buffer that has been shrunk to one byte. -/
def shrunkHeap : Heap := [.typedArray 2 0 2 false 1, .arrayBuffer (some [7]) (some 4)]

theorem validHeap_shrunkHeap : ValidHeap bareRuntime shrunkHeap := by
  refine ⟨?_, ?_, by decide⟩
  · intro obj hobj
    rcases List.mem_cons.mp hobj with hview | hbuffer
    · rw [hview]
      exact ⟨by decide, by decide, by decide, by decide, by decide⟩
    · rw [List.mem_singleton.mp hbuffer]
      intro bytes hbytes
      cases hbytes
      refine ⟨by decide, ?_⟩
      intro n hn
      cases hn
      exact ⟨by decide, by decide⟩
  · intro props hprops
    cases hprops with
    | tail _ hprops => cases List.mem_singleton.mp hprops

end QNode.Core
