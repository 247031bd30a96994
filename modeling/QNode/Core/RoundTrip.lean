import QNode.Core.ReadBack

/-!
# What is written can be read

The reader takes from a message what the writer put into it.  The induction is on the room that the writer
had on the stack; the reader needs no more.
-/

namespace QNode.Core

open BCReaderState

variable {rt : Runtime} {heap : Heap} {s s' : BCWriterState} {r : BCReaderState}
  {rest : List UInt8}

/-- What was written from `s` to `s'` is the value `v`, and `read` answers what arrives of it. -/
def ReadsValue (heap : Heap) (v : JSValue) (s s' : BCWriterState) (rest : List UInt8)
    (r : BCReaderState)
    (read : BCReaderState → Except ReadFailure (JSValue × BCReaderState)) : Prop :=
  Yields heap s s' (read r) fun x ↦ After heap (fun _ ↦ False) s s' rest r x.2 ∧
    ∀ μ, Agrees μ s'.objs x.2.objects → x.1 = v.transfer μ

/-- `read` takes back what `write` writes. -/
def Mirrors (rt : Runtime) (heap : Heap)
    (write : JSValue → BCWriterState → Except JSError BCWriterState)
    (read : BCReaderState → Except ReadFailure (JSValue × BCReaderState)) : Prop :=
  ∀ v s s' bytes, v.Sized → WriterInv rt heap s → write v s = .ok s' → s'.pending = none →
    s'.dbuf = s.dbuf ++ bytes → ∀ r rest, r.ptr = bytes ++ rest → Before heap s s' r → Settled r →
      ReadsValue heap v s s' rest r read

theorem ReadsObject.readsValue {p : Ptr}
    {read : BCReaderState → Except ReadFailure (JSValue × BCReaderState)}
    (h : ReadsObject heap p s s' rest r read) : ReadsValue heap (.object p) s s' rest r read := by
  refine Yields.mono h ?_
  rintro ⟨x, r'⟩ ⟨hafter, a, i, hx, hp, ha⟩
  refine ⟨hafter, fun μ hμ ↦ ?_⟩
  rw [JSValue.transfer, hμ i p a hp ha]
  exact hx

/-! ## Reading into an object -/

theorem After.moved {own : Ptr → Prop} {s₀ : BCWriterState} {r' : BCReaderState} {ptr : List UInt8}
    (h : After heap own s₀ s' rest { r with ptr := ptr } r') (hsab : s₀.sabTab = s.sabTab) :
    After heap own s s' rest r r' :=
  ⟨h.ptr, h.atoms, h.objects, h.count, h.fresh, h.distinct, h.size, h.kept, h.contents, hsab ▸ h.sabs⟩

theorem Before.moved {t u : BCWriterState} (h : Before heap s u r) (hobjs : t.objs = s.objs)
    (ptr : List UInt8) : Before heap t u { r with ptr := ptr } := by
  refine ⟨?_, h.atoms, ?_⟩
  · rw [hobjs]
    exact h.count
  · rw [hobjs]
    exact h.buffers

-- The object `a` gets a new content.
theorem After.define {r' : BCReaderState} {a : Ptr}
    (h : After heap (fun _ ↦ False) s s' rest r r') (ha : a < r.heap.length) (obj : JSObject) :
    After heap (fun q ↦ q = a) s s' rest r { r' with heap := r'.heap.set a obj } where
  ptr := h.ptr
  atoms := h.atoms
  objects := h.objects
  count := h.count
  fresh := by
    intro i hle hlt
    rw [List.length_set]
    exact h.fresh i hle hlt
  distinct := h.distinct
  size := by
    rw [List.length_set]
    exact h.size
  kept := by
    intro q hq hne
    rw [List.getElem?_set_ne (Ne.symm hne)]
    exact h.kept q hq id
  contents := by
    intro μ hμ i p b hle hp hb
    obtain ⟨b', hb', hlow, -⟩ := h.fresh i hle (List.getElem?_eq_some_iff.mp hb).1
    have heq : b = b' := Option.some_inj.mp (Option.some_inj.mp (hb.symm.trans hb'))
    have hne : a ≠ b := by
      rw [heq]
      exact Nat.ne_of_lt (Nat.lt_of_lt_of_le ha hlow)
    rw [List.getElem?_set_ne hne]
    exact h.contents μ hμ i p b hle hp hb
  sabs := h.sabs

-- The state of the writer between two values.
theorem split_dbuf {bytes : List UInt8} {t : BCWriterState} (hst : Grows s t) (hts : Grows t s')
    (hbytes : s'.dbuf = s.dbuf ++ bytes) :
    ∃ first second, bytes = first ++ second ∧ t.dbuf = s.dbuf ++ first ∧
      s'.dbuf = t.dbuf ++ second := by
  obtain ⟨first, hfirst⟩ := hst.dbuf
  obtain ⟨second, hsecond⟩ := hts.dbuf
  refine ⟨first, second, ?_, hfirst.symm, hsecond.symm⟩
  rw [← hsecond, ← hfirst, List.append_assoc] at hbytes
  exact (List.append_cancel_left hbytes).symm

/-! ## Names -/

theorem bcGetAtom_index {n : Fin (2 ^ 31)}
    (hptr : r.ptr = dbufPutLeb128 (UInt32.ofNat (n.val * 2 + 1)) ++ rest) :
    bcGetAtom r = .ok (.visible (.taggedInt n), { r with ptr := rest }) := by
  have hnat : (UInt32.ofNat (n.val * 2 + 1)).toNat = n.val * 2 + 1 := toNat_ofNat_lt (by omega)
  have hodd : (n.val * 2 + 1) % 2 = 1 := by omega
  have hhalf : (n.val * 2 + 1) / 2 = n.val := by omega
  rw [bcGetAtom, pull_leb128 _ hptr]
  simp only [bind, Except.bind, pure, Except.pure, hnat, hodd, hhalf, if_true]

theorem bcGetAtom_number {idx : Nat} {text : AtomText} (hpos : 0 < idx) (hidx : idx < 2 ^ 31)
    (htext : r.idxToAtom[idx - firstAtom]? = some (.string text))
    (hptr : r.ptr = dbufPutLeb128 (UInt32.ofNat (idx * 2)) ++ rest) :
    bcGetAtom r = .ok (.visible (.string text), { r with ptr := rest }) := by
  have hnat : (UInt32.ofNat (idx * 2)).toNat = idx * 2 := toNat_ofNat_lt (by omega)
  have heven : ¬ idx * 2 % 2 = 1 := by omega
  have hhalf : idx * 2 / 2 = idx := by omega
  have hnull : ¬ idx < firstAtom := Nat.not_lt_of_le hpos
  rw [bcGetAtom, pull_leb128 _ hptr]
  simp only [bind, Except.bind, hnat, hhalf, if_neg heven, bcIdxToAtom, if_neg hnull, htext]
  rfl

-- The name that is read is the one that was written.
theorem bcGetAtom_put {atom : JSAtom} {bytes : List UInt8} (hs : WriterInv rt heap s)
    (hatom : ∀ text, atom = .string text → text ∈ rt.atomArray)
    (hbytes : (bcPutAtom s atom).dbuf = s.dbuf ++ bytes)
    (hatoms : ∀ (i : Nat) text, (bcPutAtom s atom).idxToAtom[i]? = some text →
      r.idxToAtom[i]? = some (.string text))
    (hptr : r.ptr = bytes ++ rest) :
    bcGetAtom r = .ok (.visible atom, { r with ptr := rest }) := by
  cases atom with
  | taggedInt n =>
    rw [← List.append_cancel_left hbytes] at hptr
    exact bcGetAtom_index hptr
  | string text =>
    obtain ⟨hinv, -, hdbuf, -, -, hpos, hget⟩ := hs.bcAtomToIdx (hatom text rfl)
    have hlen := hinv.length_idxToAtom_le
    have hlt := (List.getElem?_eq_some_iff.mp hget).1
    have hidx : (bcAtomToIdx s text).1 < 2 ^ 31 := by
      unfold jsAtomMax at hlen
      unfold firstAtom at hlt
      omega
    have hput : (bcPutAtom s (.string text)).dbuf =
        s.dbuf ++ dbufPutLeb128 (UInt32.ofNat ((bcAtomToIdx s text).1 * 2)) := by
      rw [← hdbuf]
      rfl
    rw [hput] at hbytes
    rw [← List.append_cancel_left hbytes] at hptr
    exact bcGetAtom_number hpos hidx (hatoms _ text hget) hptr

/-! ## Elements and properties -/

section

variable {writeRec : JSValue → BCWriterState → Except JSError BCWriterState}
  {readRec : BCReaderState → Except ReadFailure (JSValue × BCReaderState)}
  (hmirror : Mirrors rt heap writeRec readRec) (hgrow : ∀ v, Grower rt heap (writeRec v))

include hmirror hgrow

-- The elements are appended one after the other to the array at `a`.
theorem reads_slots (a : Ptr) (slots : List (Except JSError JSValue)) :
    ∀ s s' bytes, (∀ v, .ok v ∈ slots → v.Sized) → WriterInv rt heap s →
      jsWriteSlots writeRec slots s = .ok s' → s'.pending = none → s'.dbuf = s.dbuf ++ bytes →
      ∀ (r : BCReaderState) rest done, r.ptr = bytes ++ rest → Before heap s s' r → Settled r →
        r.heap[a]? = some (.fastArray done done.length) →
        Yields heap s s' (readElements readRec a slots.length r) fun r' ↦
          After heap (fun q ↦ q = a) s s' rest r r' ∧ ∀ μ, Agrees μ s'.objs r'.objects →
            r'.heap[a]? = some (.fastArray (done ++ slots.map (transferSlot μ))
              (done.length + slots.length)) := by
  induction slots with
  | nil =>
    intro s s' bytes _ _ h _ hbytes r rest done hptr hbefore _ hcontent
    cases h
    have hnil : bytes = [] := List.self_eq_append_right.mp hbytes
    rw [hnil] at hptr
    refine Yields.same rfl ⟨?_, fun μ _ ↦ ?_⟩
    · exact After.still hptr hbefore.count rfl rfl rfl rfl (List.append_nil _).symm
        (List.append_nil _).symm
    · rw [List.map_nil, List.append_nil]
      exact hcontent
  | cons slot slots ih =>
    intro s s' bytes hsized hs h hpending hbytes r rest done hptr hbefore hsettled hcontent
    cases slot with
    | error e => cases h
    | ok v =>
      cases hw : writeRec v s with
      | error e =>
        simp only [jsWriteSlots, bind, Except.bind, hw] at h
        cases h
      | ok t =>
        simp only [jsWriteSlots, bind, Except.bind, hw] at h
        obtain ⟨ht, hst⟩ := hgrow v s t hs hw
        obtain ⟨hs', hts⟩ := grower_slots hgrow slots t s' ht h
        obtain ⟨first, second, rfl, hfirst, hsecond⟩ := split_dbuf hst hts hbytes
        rw [List.append_assoc] at hptr
        have hread := hmirror v s t first (hsized v List.mem_cons_self) hs hw
          (hts.pending hpending) hfirst r (second ++ rest) hptr (hbefore.mono hts.atoms) hsettled
        refine Yields.bind hread hst.objs hts.objs ?_
        rintro ⟨val, r₁⟩ ⟨hafter, hval⟩
        have ha : a < r.heap.length := (List.getElem?_eq_some_iff.mp hcontent).1
        have ha' : a < r₁.heap.length := Nat.lt_of_lt_of_le ha hafter.size
        have hdefine : r₁.defineElement a val =
            { r₁ with heap := r₁.heap.set a (.fastArray (done ++ [val]) (done.length + 1)) } := by
          rw [defineElement, hafter.kept a ha id, hcontent]
        have hafter' := hafter.define ha (.fastArray (done ++ [val]) (done.length + 1))
        rw [← hdefine] at hafter'
        have hown : ∀ q, q = a → (r.heap.getD q .other).bufferLength = none := by
          intro q hq
          rw [hq, List.getD_eq_getElem?_getD, hcontent]
          rfl
        have hcontent' : (r₁.defineElement a val).heap[a]? =
            some (.fastArray (done ++ [val]) (done ++ [val]).length) := by
          rw [hdefine, List.length_append]
          exact List.getElem?_set_self ha'
        refine Yields.mono (ih t s' second (fun v hv ↦ hsized v (List.mem_cons_of_mem _ hv)) ht h
          hpending hsecond _ rest (done ++ [val]) hafter'.ptr
          (hbefore.step hafter' hst.objs ht.nodup hown) (hsettled.step hafter') hcontent') ?_
        rintro r' ⟨hlast, hgood⟩
        refine ⟨hafter'.trans hlast (fun q hq ↦ hq ▸ ha) hts.objs, fun μ hμ ↦ ?_⟩
        have hval' : val = v.transfer μ := by
          have hμ' := hμ.of_prefix hts.objs hlast.objects
          rw [hdefine] at hμ'
          exact hval μ hμ'
        have hlen : (done ++ [val]).length + slots.length = done.length + (slots.length + 1) := by
          rw [List.length_append, List.length_singleton]
          omega
        rw [hgood μ hμ, hlen, hval', List.append_assoc]
        rfl

-- The properties are added one after the other to the object at `a`; their names are new to it.
theorem reads_props (a : Ptr) (props : List JSProperty) :
    ∀ s s' bytes, (∀ pr ∈ props, ∀ v ∈ pr.value, v.Sized) →
      (∀ pr ∈ props, ∀ text, pr.atom = .visible (.string text) → text ∈ rt.atomArray) →
      WriterInv rt heap s → jsWriteProps writeRec props s = .ok s' → s'.pending = none →
      s'.dbuf = s.dbuf ++ bytes →
      ∀ (r : BCReaderState) rest (done : List JSProperty), r.ptr = bytes ++ rest →
        Before heap s s' r → Settled r → r.heap[a]? = some (.object done) →
        (done.map JSProperty.atom ++ props.map JSProperty.atom).Nodup →
        Yields heap s s' (readProps readRec a props.length r) fun r' ↦
          After heap (fun q ↦ q = a) s s' rest r r' ∧ ∀ μ, Agrees μ s'.objs r'.objects →
            r'.heap[a]? = some (.object (done ++ props.map (JSProperty.transfer μ))) := by
  induction props with
  | nil =>
    intro s s' bytes _ _ _ h _ hbytes r rest done hptr hbefore _ hcontent _
    cases h
    have hnil : bytes = [] := List.self_eq_append_right.mp hbytes
    rw [hnil] at hptr
    refine Yields.same rfl ⟨?_, fun μ _ ↦ ?_⟩
    · exact After.still hptr hbefore.count rfl rfl rfl rfl (List.append_nil _).symm
        (List.append_nil _).symm
    · rw [List.map_nil, List.append_nil]
      exact hcontent
  | cons pr props ih =>
    intro s s' bytes hsized hnames hs h hpending hbytes r rest done hptr hbefore hsettled hcontent
      hnodup
    rw [jsWriteProps] at h
    split at h
    · next atom v hatom hv =>
      have hname : ∀ text, atom = .string text → text ∈ rt.atomArray :=
        fun text heq ↦ hnames pr List.mem_cons_self text (heq ▸ hatom)
      obtain ⟨hput, hgrows⟩ := hs.bcPutAtom hname
      cases hw : writeRec v (bcPutAtom s atom) with
      | error e =>
        simp only [bind, Except.bind, hw] at h
        cases h
      | ok t =>
        simp only [bind, Except.bind, hw] at h
        have hnames' : ∀ q ∈ props, ∀ text, q.atom = .visible (.string text) →
            text ∈ rt.atomArray := fun q hq ↦ hnames q (List.mem_cons_of_mem pr hq)
        obtain ⟨ht, hst⟩ := hgrow v _ t hput hw
        obtain ⟨hs', hts⟩ := grower_props hgrow props hnames' t s' ht h
        obtain ⟨name, bytes', rfl, hnamed, hbytes'⟩ := split_dbuf hgrows (hst.trans hts) hbytes
        obtain ⟨first, second, rfl, hfirst, hsecond⟩ := split_dbuf hst hts hbytes'
        rw [List.append_assoc, List.append_assoc] at hptr
        have hget := bcGetAtom_put hs hname hnamed
          (fun i text hi ↦ hbefore.atoms i text (getElem?_mono (hst.trans hts).atoms hi)) hptr
        have hobjs := hs.objs_bcPutAtom hname
        have hsab := hs.sabTab_bcPutAtom hname
        have hread := hmirror v _ t first (hsized pr List.mem_cons_self v hv) hput hw
          (hts.pending hpending) hfirst { r with ptr := first ++ (second ++ rest) } (second ++ rest) rfl
          ((hbefore.mono hts.atoms).moved hobjs _) hsettled
        have hsobjs : s.objs <+: t.objs := hobjs ▸ hst.objs
        have hread' : Yields heap s t
            (readRec { r with ptr := first ++ (second ++ rest) }) fun x ↦
              After heap (fun _ ↦ False) s t (second ++ rest) r x.2 ∧
                ∀ μ, Agrees μ t.objs x.2.objects → x.1 = v.transfer μ := by
          rw [Yields, ← hobjs]
          refine Yields.mono hread ?_
          rintro x ⟨hx, hvalue⟩
          exact ⟨hx.moved hsab, hvalue⟩
        have hstep : readProps readRec a (pr :: props).length r =
            readRec { r with ptr := first ++ (second ++ rest) } >>= fun x ↦
              readProps readRec a props.length (x.2.defineProperty a (.visible atom) x.1) := by
          rw [List.length_cons, readProps, hget]
          rfl
        rw [hstep]
        refine Yields.bind hread' hsobjs hts.objs ?_
        rintro ⟨val, r₁⟩ ⟨hafter, hval⟩
        have ha : a < r.heap.length := (List.getElem?_eq_some_iff.mp hcontent).1
        have ha' : a < r₁.heap.length := Nat.lt_of_lt_of_le ha hafter.size
        have habsent : done.findIdx? (fun q ↦ q.atom == .visible atom) = none := by
          rw [List.findIdx?_eq_none_iff]
          intro q hq
          rw [beq_eq_false_iff_ne]
          exact List.disjoint_of_nodup_append hnodup (List.mem_map_of_mem hq) ∘ fun heq ↦ by
            rw [heq, List.map_cons, hatom]
            exact List.mem_cons_self
        have hdefine : r₁.defineProperty a (.visible atom) val =
            { r₁ with heap := r₁.heap.set a (.object (done ++ [⟨.visible atom, true, some val⟩])) } := by
          rw [defineProperty, hafter.kept a ha id, hcontent]
          simp only [habsent]
        have hafter' := hafter.define ha (.object (done ++ [⟨.visible atom, true, some val⟩]))
        rw [← hdefine] at hafter'
        have hown : ∀ q, q = a → (r.heap.getD q .other).bufferLength = none := by
          intro q hq
          rw [hq, List.getD_eq_getElem?_getD, hcontent]
          rfl
        have hcontent' : (r₁.defineProperty a (.visible atom) val).heap[a]? =
            some (.object (done ++ [⟨.visible atom, true, some val⟩])) := by
          rw [hdefine]
          exact List.getElem?_set_self ha'
        have hnodup' : ((done ++ [JSProperty.mk (.visible atom) true (some val)]).map
            JSProperty.atom ++ props.map JSProperty.atom).Nodup := by
          rw [List.map_append, List.append_assoc]
          rw [List.map_cons, hatom] at hnodup
          exact hnodup
        refine Yields.mono (ih t s' second (fun q hq ↦ hsized q (List.mem_cons_of_mem _ hq)) hnames'
          ht h hpending hsecond _ rest _ hafter'.ptr (hbefore.step hafter' hsobjs ht.nodup hown)
          (hsettled.step hafter') hcontent' hnodup') ?_
        rintro r' ⟨hlast, hgood⟩
        refine ⟨hafter'.trans hlast (fun q hq ↦ hq ▸ ha) hts.objs, fun μ hμ ↦ ?_⟩
        have hval' : val = v.transfer μ := by
          have hμ' := hμ.of_prefix hts.objs hlast.objects
          rw [hdefine] at hμ'
          exact hval μ hμ'
        have hpr : pr.transfer μ = ⟨.visible atom, true, some val⟩ := by
          rw [JSProperty.transfer, hatom, hv, hval']
          rfl
        rw [hgood μ hμ, List.append_assoc, List.map_cons, hpr]
        rfl
    · cases h

end

/-! ## New objects -/

theorem Before.newObject {s₀ : BCWriterState} {p : Ptr} (h : Before heap s s' r)
    (hadd : s₀.objs = s.objs ++ [p]) (hp : (heap.getD p .other).bufferLength = none)
    (obj : JSObject) (ptr : List UInt8) :
    Before heap s₀ s' { r.newObject obj with ptr := ptr } := by
  refine ⟨?_, h.atoms, ?_⟩
  · rw [hadd, List.length_append, ← h.count, List.length_singleton]
    exact List.length_append
  · intro i q a n hq ha hlen
    rw [hadd] at hq
    have ha' : (r.objects ++ [some r.heap.length])[i]? = some (some a) := ha
    by_cases hi : i < s.objs.length
    · rw [List.getElem?_append_left hi] at hq
      rw [List.getElem?_append_left (h.count.symm ▸ hi)] at ha'
      obtain ⟨hlt, hbuffer⟩ := h.buffers i q a n hq ha' hlen
      refine ⟨?_, ?_⟩
      · show a < (r.heap ++ [obj]).length
        rw [List.length_append]
        exact Nat.lt_add_right _ hlt
      · show ((r.heap ++ [obj]).getD a .other).bufferLength = some n
        rw [List.getD_append _ _ _ _ hlt]
        exact hbuffer
    · rw [List.getElem?_append_right (Nat.le_of_not_lt hi)] at hq
      have hmem := List.mem_of_getElem? hq
      rw [List.mem_singleton.mp hmem, hp] at hlen
      cases hlen

theorem Settled.newObject (h : Settled r) (obj : JSObject) (ptr : List UInt8) :
    Settled { r.newObject obj with ptr := ptr } := by
  intro i hi
  have hi' : (r.objects ++ [some r.heap.length])[i]? = some none := hi
  by_cases hlt : i < r.objects.length
  · rw [List.getElem?_append_left hlt] at hi'
    exact h i hi'
  · rw [List.getElem?_append_right (Nat.le_of_not_lt hlt)] at hi'
    have hmem := List.mem_of_getElem? hi'
    cases List.mem_singleton.mp hmem

-- An object that is made empty, put into the list and filled while its content is read.
theorem reads_filled {s₀ : BCWriterState} {p : Ptr} {obj : JSObject} {ptr : List UInt8}
    {fill : BCReaderState → Except ReadFailure BCReaderState} (hadd : s₀.objs = s.objs ++ [p])
    (hsab : s₀.sabTab = s.sabTab) (hpre : s₀.objs <+: s'.objs)
    (hcount : r.objects.length = s.objs.length) (hreadable : Readable heap p)
    (hfill : Yields heap s₀ s' (fill { r.newObject obj with ptr := ptr }) fun r' ↦
      After heap (fun q ↦ q = r.heap.length) s₀ s' rest { r.newObject obj with ptr := ptr } r' ∧
        ∀ μ, Agrees μ s'.objs r'.objects →
          r'.heap[r.heap.length]? = some ((heap.getD p .other).clone μ)) :
    Yields heap s s' (fill { r.newObject obj with ptr := ptr } >>= fun t ↦
        Except.ok (JSValue.object r.heap.length, t)) fun x ↦
      After heap (fun _ ↦ False) s s' rest r x.2 ∧
        ∀ μ, Agrees μ s'.objs x.2.objects → x.1 = (JSValue.object p).transfer μ := by
  refine Yields.newObject ?_ hadd hpre hreadable
  refine Yields.bind hfill hpre List.prefix_rfl ?_
  rintro r' ⟨hafter, hcontent⟩
  refine Yields.same rfl ⟨hafter.newObject hcount hadd hsab rfl rfl rfl rfl hpre hcontent, ?_⟩
  intro μ hμ
  have hp : s'.objs[s.objs.length]? = some p := by
    apply getElem?_mono hpre
    rw [hadd]
    exact List.getElem?_concat_length
  have ha : r'.objects[s.objs.length]? = some (some r.heap.length) := by
    apply getElem?_mono hafter.objects
    rw [← hcount]
    exact List.getElem?_concat_length
  rw [JSValue.transfer, hμ _ p _ hp ha]

/-! ## Views -/

-- A view gets its place in the list before its buffer is read, and its object after.
theorem After.settle {s₁ : BCWriterState} {r₁ r₂ : BCReaderState} {p : Ptr} {obj : JSObject}
    (h : After heap (fun _ ↦ False) s₁ s' rest r₁ r₂) (hobjects : r₁.objects = r.objects ++ [none])
    (hheap : r₁.heap = r.heap) (hatoms : r₁.idxToAtom = r.idxToAtom)
    (hdups : r₁.sabDups = r.sabDups) (hadd : s₁.objs = s.objs ++ [p]) (hsab : s₁.sabTab = s.sabTab)
    (hcount : r.objects.length = s.objs.length) (hpre : s₁.objs <+: s'.objs)
    (hclone : ∀ μ, Agrees μ s'.objs (r₂.objects.set r.objects.length (some r₂.heap.length)) →
      (heap.getD p .other).clone μ = obj) :
    After heap (fun _ ↦ False) s s' rest r { r₂ with
      heap := r₂.heap ++ [obj]
      objects := r₂.objects.set r.objects.length (some r₂.heap.length) } := by
  have hlen : r₁.objects.length = r.objects.length + 1 := by rw [hobjects, List.length_append]; rfl
  have hnone : r₂.objects[r.objects.length]? = some none := by
    apply getElem?_mono h.objects
    rw [hobjects]
    exact List.getElem?_concat_length
  have hidx : r.objects.length < r₂.objects.length := (List.getElem?_eq_some_iff.mp hnone).1
  have hself : (r₂.objects.set r.objects.length (some r₂.heap.length))[r.objects.length]? =
      some (some r₂.heap.length) := List.getElem?_set_self hidx
  have hother : ∀ i, i ≠ r.objects.length →
      (r₂.objects.set r.objects.length (some r₂.heap.length))[i]? = r₂.objects[i]? :=
    fun i hi ↦ List.getElem?_set_ne (Ne.symm hi)
  have hsize : r.heap.length ≤ r₂.heap.length := hheap ▸ h.size
  have hgrown : (r₂.heap ++ [obj]).length = r₂.heap.length + 1 := by rw [List.length_append]; rfl
  -- the objects made while the buffer was read are older
  have holder : ∀ i a, r.objects.length < i → r₂.objects[i]? = some (some a) →
      r.heap.length ≤ a ∧ a < r₂.heap.length := by
    intro i a hi ha
    obtain ⟨b, hb, hlow, hhigh⟩ := h.fresh i (by omega) (List.getElem?_eq_some_iff.mp ha).1
    rw [ha, Option.some_inj, Option.some_inj] at hb
    rw [hb]
    exact ⟨hheap ▸ hlow, hhigh⟩
  refine ⟨h.ptr, h.atoms.trans hatoms, ?_, ?_, ?_, ?_, ?_, ?_, ?_, ?_⟩
  · obtain ⟨more, hmore⟩ := h.objects
    show r.objects <+: r₂.objects.set r.objects.length (some r₂.heap.length)
    rw [← hmore, hobjects, List.append_assoc, List.set_append_right _ _ (Nat.le_refl _)]
    exact List.prefix_append _ _
  · show (r₂.objects.set r.objects.length (some r₂.heap.length)).length = s'.objs.length
    rw [List.length_set]
    exact h.count
  · intro i hle hi
    dsimp only at hi ⊢
    rw [List.length_set] at hi
    rw [hgrown]
    by_cases heq : i = r.objects.length
    · exact ⟨r₂.heap.length, heq ▸ hself, hsize, Nat.lt_succ_self _⟩
    · obtain ⟨a, ha, hlow, hhigh⟩ := h.fresh i (by omega) hi
      exact ⟨a, (hother i heq).trans ha, hheap ▸ hlow, Nat.lt_succ_of_lt hhigh⟩
  · intro i j a hi hj hia hja
    dsimp only at hia hja
    by_cases hi' : i = r.objects.length
    · by_cases hj' : j = r.objects.length
      · rw [hi', hj']
      · rw [hi', hself, Option.some_inj, Option.some_inj] at hia
        rw [hother j hj', ← hia] at hja
        exact absurd (holder j _ (by omega) hja).2 (Nat.lt_irrefl _)
    · rw [hother i hi'] at hia
      by_cases hj' : j = r.objects.length
      · rw [hj', hself, Option.some_inj, Option.some_inj] at hja
        rw [← hja] at hia
        exact absurd (holder i _ (by omega) hia).2 (Nat.lt_irrefl _)
      · rw [hother j hj'] at hja
        exact h.distinct i j a (by omega) (by omega) hia hja
  · show r.heap.length ≤ (r₂.heap ++ [obj]).length
    omega
  · intro q hq _
    show (r₂.heap ++ [obj])[q]? = r.heap[q]?
    rw [List.getElem?_append_left (Nat.lt_of_lt_of_le hq hsize), h.kept q (hheap ▸ hq) id, hheap]
  · intro μ hμ i q a hle hq ha
    show (r₂.heap ++ [obj])[a]? = some ((heap.getD q .other).clone μ)
    dsimp only at ha hμ
    by_cases hi : i = r.objects.length
    · have hp : s'.objs[i]? = some p := by
        apply getElem?_mono hpre
        rw [hi, hadd, hcount]
        exact List.getElem?_concat_length
      rw [hp, Option.some_inj] at hq
      rw [hi, hself, Option.some_inj, Option.some_inj] at ha
      rw [← hq, ← ha, hclone μ hμ]
      exact List.getElem?_concat_length
    · rw [hother i hi] at ha
      have hμ' : Agrees μ s'.objs r₂.objects := by
        intro j x b hx hb
        have hne : j ≠ r.objects.length := by
          intro heq
          rw [heq, hnone, Option.some_inj] at hb
          cases hb
        exact hμ j x b hx ((hother j hne).trans hb)
      rw [List.getElem?_append_left (holder i a (by omega) ha).2]
      exact h.contents μ hμ' i q a (by omega) hq ha
  · obtain ⟨sabs, hw, hr⟩ := h.sabs
    exact ⟨sabs, by rw [hw, hsab], by rw [← hdups]; exact hr⟩

-- The place of a view whose buffer is still to be read.
theorem Before.addRef {s₁ : BCWriterState} {p : Ptr} (h : Before heap s s' r)
    (hadd : s₁.objs = s.objs ++ [p]) (ptr : List UInt8) :
    Before heap s₁ s' ({ r with ptr := ptr }.addRef none) := by
  refine ⟨?_, h.atoms, ?_⟩
  · rw [hadd, List.length_append, ← h.count, List.length_singleton]
    exact List.length_append
  · intro i q a n hq ha hlen
    have ha' : (r.objects ++ [none])[i]? = some (some a) := ha
    rw [hadd] at hq
    by_cases hi : i < s.objs.length
    · rw [List.getElem?_append_left hi] at hq
      rw [List.getElem?_append_left (h.count.symm ▸ hi)] at ha'
      exact h.buffers i q a n hq ha' hlen
    · rw [List.getElem?_append_right (h.count ▸ Nat.le_of_not_lt hi)] at ha'
      have hmem := List.mem_of_getElem? ha'
      cases List.mem_singleton.mp hmem

theorem jsTypedArrayConstructor_eq {arrayTag offset len n : Nat} {a : Ptr}
    (hbuffer : (r.heap.getD a .other).bufferLength = some n)
    (haligned : offset % 2 ^ typedArraySizeLog2 arrayTag = 0) :
    jsTypedArrayConstructor r arrayTag a offset len =
      if offset + len * 2 ^ typedArraySizeLog2 arrayTag > n then fail (.rangeError "invalid length")
      else .ok (.object r.heap.length, r.alloc (.typedArray arrayTag len offset false a)) := by
  rw [jsTypedArrayConstructor, hbuffer]
  exact if_neg (not_not_intro haligned)

end QNode.Core
