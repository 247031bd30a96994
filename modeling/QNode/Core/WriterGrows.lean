import Mathlib.Data.List.GetD
import Mathlib.Data.List.Perm.Subperm
import QNode.Core.Writer

/-!
# What the writer adds

Whatever is written, the bytes, atoms, objects and shared buffers of the writer are only added to, and its
tables stay consistent: an atom has one number and an object is in the list once.
-/

namespace QNode.Core

/-- The objects written or being written. -/
def BCWriterState.objs (s : BCWriterState) : List Ptr := s.objectList.objs

structure WriterInv (rt : Runtime) (heap : Heap) (s : BCWriterState) : Prop where
  consistent : Consistent rt.address s.objectList
  nodup : s.objs.Nodup
  bounded : ∀ p ∈ s.objs, p < heap.length
  atoms : ∀ text v, s.atomToIdx text = v → v ≠ 0 → s.idxToAtom[v - firstAtom]? = some text
  numbered : ∀ (i : Nat) text, s.idxToAtom[i]? = some text → s.atomToIdx text = i + firstAtom
  known : ∀ text ∈ s.idxToAtom, text ∈ rt.atomArray

/-- The names of the properties of plain objects are atoms of the runtime. -/
def NamesKnown (rt : Runtime) (heap : Heap) : Prop :=
  ∀ props, JSObject.object props ∈ heap → ∀ pr ∈ props, ∀ text,
    pr.atom = .visible (.string text) → text ∈ rt.atomArray

/-- Everything in `s` is still there in `s'`. -/
structure Grows (s s' : BCWriterState) : Prop where
  dbuf : s.dbuf <+: s'.dbuf
  atoms : s.idxToAtom <+: s'.idxToAtom
  objs : s.objs <+: s'.objs
  sabTab : s.sabTab <+: s'.sabTab
  pending : s'.pending = none → s.pending = none

theorem Grows.refl (s : BCWriterState) : Grows s s :=
  ⟨List.prefix_rfl, List.prefix_rfl, List.prefix_rfl, List.prefix_rfl, id⟩

theorem Grows.trans {s t u : BCWriterState} (h : Grows s t) (h' : Grows t u) : Grows s u :=
  ⟨h.dbuf.trans h'.dbuf, h.atoms.trans h'.atoms, h.objs.trans h'.objs, h.sabTab.trans h'.sabTab,
    fun hp ↦ h.pending (h'.pending hp)⟩

theorem Grows.put (s : BCWriterState) (bytes : List UInt8) : Grows s (s.put bytes) :=
  ⟨List.prefix_append _ _, List.prefix_rfl, List.prefix_rfl, List.prefix_rfl, id⟩

variable {rt : Runtime} {heap : Heap} {s s' : BCWriterState}

theorem WriterInv.put (h : WriterInv rt heap s) (bytes : List UInt8) :
    WriterInv rt heap (s.put bytes) :=
  ⟨h.consistent, h.nodup, h.bounded, h.atoms, h.numbered, h.known⟩

theorem writerInv_init : WriterInv rt heap .init := by
  refine ⟨consistent_init, List.nodup_nil, ?_, ?_, ?_, ?_⟩
  · intro p hp
    cases hp
  · intro text v hv hne
    exact absurd hv.symm hne
  · intro i text hi
    cases hi
  · intro text htext
    cases htext

-- An object that is not in the list yet.
theorem WriterInv.add (h : WriterInv rt heap s) {p : Ptr} (hp : p ∉ s.objs)
    (hlt : p < heap.length) :
    WriterInv rt heap { s with objectList := jsObjectListAdd rt.address s.objectList p } ∧
      ({ s with objectList := jsObjectListAdd rt.address s.objectList p } : BCWriterState).objs =
        s.objs ++ [p] := by
  obtain ⟨hconsistent, hobjs⟩ := h.consistent.jsObjectListAdd p
  refine ⟨⟨hconsistent, ?_, ?_, h.atoms, h.numbered, h.known⟩, hobjs⟩
  · rw [BCWriterState.objs, hobjs]
    exact List.nodup_append.mpr ⟨h.nodup, List.nodup_singleton p, fun a ha b hb ↦ by
      rw [List.mem_singleton.mp hb]
      exact fun hab ↦ hp (hab ▸ ha)⟩
  · intro q hq
    rw [BCWriterState.objs, hobjs] at hq
    rcases List.mem_append.mp hq with hq | hq
    · exact h.bounded q hq
    · rw [List.mem_singleton.mp hq]
      exact hlt

-- The number of an atom is its place in the table.
theorem WriterInv.bcAtomToIdx (h : WriterInv rt heap s) {text : AtomText}
    (htext : text ∈ rt.atomArray) :
    WriterInv rt heap (bcAtomToIdx s text).2 ∧ Grows s (bcAtomToIdx s text).2 ∧
      (bcAtomToIdx s text).2.dbuf = s.dbuf ∧ (bcAtomToIdx s text).2.objs = s.objs ∧
      (bcAtomToIdx s text).2.sabTab = s.sabTab ∧ 0 < (bcAtomToIdx s text).1 ∧
      (bcAtomToIdx s text).2.idxToAtom[(bcAtomToIdx s text).1 - firstAtom]? = some text := by
  unfold Core.bcAtomToIdx
  by_cases hseen : s.atomToIdx text ≠ 0
  · rw [if_pos hseen]
    exact ⟨h, Grows.refl s, rfl, rfl, rfl, Nat.pos_of_ne_zero hseen, h.atoms text _ rfl hseen⟩
  · rw [if_neg hseen]
    have hlast : (s.idxToAtom ++ [text])[s.idxToAtom.length + firstAtom - firstAtom]? = some text := by
      rw [Nat.add_sub_cancel]
      exact List.getElem?_concat_length
    refine ⟨⟨h.consistent, h.nodup, h.bounded, ?_, ?_, ?_⟩, ?_, rfl, rfl, rfl, Nat.succ_pos _, hlast⟩
    · intro text' v hv hne
      dsimp only at hv ⊢
      by_cases heq : text' = text
      · subst heq
        rw [Function.update_self] at hv
        rw [← hv]
        exact hlast
      · rw [Function.update_of_ne heq] at hv
        have hold := h.atoms text' v hv hne
        obtain ⟨hlt, -⟩ := List.getElem?_eq_some_iff.mp hold
        rw [List.getElem?_append_left hlt]
        exact hold
    · intro i text' hi
      dsimp only at hi ⊢
      by_cases hlt : i < s.idxToAtom.length
      · rw [List.getElem?_append_left hlt] at hi
        have hold := h.numbered i text' hi
        have hne : text' ≠ text := by
          intro heq
          rw [heq] at hold
          rw [hold] at hseen
          exact hseen (Nat.succ_ne_zero i)
        rw [Function.update_of_ne hne]
        exact hold
      · rw [List.getElem?_append_right (Nat.le_of_not_lt hlt)] at hi
        obtain ⟨hzero, hget⟩ := List.getElem?_eq_some_iff.mp hi
        have hi' : i = s.idxToAtom.length := by
          rw [List.length_singleton] at hzero
          omega
        rw [hi', Nat.sub_self, List.getElem?_cons_zero, Option.some_inj] at hi
        rw [← hi, Function.update_self, hi']
    · intro text' htext'
      rcases List.mem_append.mp htext' with hold | hnew
      · exact h.known text' hold
      · rw [List.mem_singleton.mp hnew]
        exact htext
    · exact ⟨List.prefix_rfl, List.prefix_append _ _, List.prefix_rfl, List.prefix_rfl, id⟩

theorem WriterInv.bcPutAtom (h : WriterInv rt heap s) {atom : JSAtom}
    (hatom : ∀ text, atom = .string text → text ∈ rt.atomArray) :
    WriterInv rt heap (bcPutAtom s atom) ∧ Grows s (bcPutAtom s atom) := by
  cases atom with
  | taggedInt n => exact ⟨h.put _, Grows.put s _⟩
  | string text =>
    obtain ⟨hinv, hgrows, -⟩ := h.bcAtomToIdx (hatom text rfl)
    exact ⟨hinv.put _, hgrows.trans (Grows.put _ _)⟩

theorem WriterInv.objs_bcPutAtom {atom : JSAtom} (h : WriterInv rt heap s)
    (hatom : ∀ text, atom = .string text → text ∈ rt.atomArray) :
    (Core.bcPutAtom s atom).objs = s.objs := by
  cases atom with
  | taggedInt n => rfl
  | string text => exact (h.bcAtomToIdx (hatom text rfl)).2.2.2.1

theorem WriterInv.sabTab_bcPutAtom {atom : JSAtom} (h : WriterInv rt heap s)
    (hatom : ∀ text, atom = .string text → text ∈ rt.atomArray) :
    (Core.bcPutAtom s atom).sabTab = s.sabTab := by
  cases atom with
  | taggedInt n => rfl
  | string text => exact (h.bcAtomToIdx (hatom text rfl)).2.2.2.2.1

-- Every atom is in the table of the writer once.
theorem WriterInv.length_idxToAtom_le (h : WriterInv rt heap s) :
    s.idxToAtom.length ≤ jsAtomMax := by
  have hnodup : s.idxToAtom.Nodup := by
    rw [List.nodup_iff_getElem?_ne_getElem?]
    intro i j hij hj heq
    obtain ⟨text, htext⟩ : ∃ text, s.idxToAtom[j]? = some text := ⟨_, List.getElem?_eq_getElem hj⟩
    have hi := h.numbered i text (heq.trans htext)
    rw [h.numbered j text htext] at hi
    omega
  exact Nat.le_trans (List.subperm_of_subset hnodup h.known).length_le rt.size_le

/-! ## Every value -/

/-- A writer keeps the invariant and only adds to its state. -/
def Grower (rt : Runtime) (heap : Heap)
    (write : BCWriterState → Except JSError BCWriterState) : Prop :=
  ∀ s s', WriterInv rt heap s → write s = .ok s' → WriterInv rt heap s' ∧ Grows s s'

section

variable {writeRec : JSValue → BCWriterState → Except JSError BCWriterState}
  (hrec : ∀ v, Grower rt heap (writeRec v))

include hrec

theorem grower_slots (slots : List (Except JSError JSValue)) :
    Grower rt heap (jsWriteSlots writeRec slots) := by
  induction slots with
  | nil =>
    intro s s' hs h
    cases h
    exact ⟨hs, Grows.refl s⟩
  | cons slot slots ih =>
    intro s s' hs h
    cases slot with
    | error e => cases h
    | ok v =>
      cases hw : writeRec v s with
      | error e =>
        simp only [jsWriteSlots, bind, Except.bind, hw] at h
        cases h
      | ok t =>
        simp only [jsWriteSlots, bind, Except.bind, hw] at h
        obtain ⟨ht, hgrows⟩ := hrec v s t hs hw
        obtain ⟨hs', hgrows'⟩ := ih t s' ht h
        exact ⟨hs', hgrows.trans hgrows'⟩

theorem grower_props (props : List JSProperty)
    (hnames : ∀ pr ∈ props, ∀ text, pr.atom = .visible (.string text) → text ∈ rt.atomArray) :
    Grower rt heap (jsWriteProps writeRec props) := by
  induction props with
  | nil =>
    intro s s' hs h
    cases h
    exact ⟨hs, Grows.refl s⟩
  | cons pr props ih =>
    intro s s' hs h
    rw [jsWriteProps] at h
    split at h
    · next atom v hatom hv =>
      have hname : ∀ text, atom = .string text → text ∈ rt.atomArray :=
        fun text heq ↦ hnames pr List.mem_cons_self text (heq ▸ hatom)
      obtain ⟨hput, hgrows⟩ := hs.bcPutAtom hname
      cases hw : writeRec v (bcPutAtom s atom) with
      | error e =>
        simp only [bind, Except.bind, hw] at h
        cases h
      | ok t =>
        simp only [bind, Except.bind, hw] at h
        obtain ⟨ht, hgrows'⟩ := hrec v _ t hput hw
        obtain ⟨hs', hgrows''⟩ := ih (fun q hq ↦ hnames q (List.mem_cons_of_mem pr hq)) t s' ht h
        exact ⟨hs', hgrows.trans (hgrows'.trans hgrows'')⟩
    · cases h

theorem grower_newObject (hnames : NamesKnown rt heap) (obj : JSObject) (hobj : obj ∈ heap) :
    Grower rt heap (jsWriteNewObject writeRec obj) := by
  intro s s' hs h
  have hput : ∀ bytes, Grower rt heap fun s ↦ .ok (s.put bytes) := by
    intro bytes s s' hs h
    cases h
    exact ⟨hs.put bytes, Grows.put s bytes⟩
  -- a writer that starts with some bytes of its own
  have hafter : ∀ {write bytes}, Grower rt heap write →
      ∀ {s s'}, WriterInv rt heap s → write (s.put bytes) = .ok s' →
        WriterInv rt heap s' ∧ Grows s s' := by
    intro write bytes hwrite s s' hs h
    obtain ⟨hs', hgrows⟩ := hwrite _ _ (hs.put bytes) h
    exact ⟨hs', (Grows.put s bytes).trans hgrows⟩
  have harray : jsWriteArray writeRec obj s = .ok s' → WriterInv rt heap s' ∧ Grows s s' := by
    intro h
    obtain ⟨hs', hgrows⟩ := hafter (grower_slots hrec _) (hs.put _) h
    exact ⟨hs', (Grows.put s _).trans hgrows⟩
  cases obj with
  | fastArray values length => exact harray h
  | slowArray props length => exact harray h
  | object props =>
    rw [jsWriteNewObject, jsWriteObjectTag] at h
    split at h
    · cases h
    · have hwritten : ∀ pr ∈ writtenProps props, ∀ text, pr.atom = .visible (.string text) →
          text ∈ rt.atomArray := fun pr hpr ↦ hnames props hobj pr (List.mem_filter.mp hpr).1
      obtain ⟨hs', hgrows⟩ := hafter (grower_props hrec _ hwritten) (hs.put _) h
      exact ⟨hs', (Grows.put s _).trans hgrows⟩
  | arrayBuffer data maxByteLength =>
    cases data with
    | none => cases h
    | some bytes =>
      cases h
      exact ⟨(((hs.put _).put _).put _).put _, (((Grows.put s _).trans (Grows.put _ _)).trans
        (Grows.put _ _)).trans (Grows.put _ _)⟩
  | sharedArrayBuffer data byteLength maxByteLength =>
    cases h
    have hs' := (((hs.put [BCTag.sharedArrayBuffer.toUInt8]).put
      (dbufPutLeb128 (UInt32.ofNat byteLength))).put
      (dbufPutLeb128 (maxByteLengthWord maxByteLength))).put (bcPutU64 data)
    have hgrows : Grows s _ := (((Grows.put s [BCTag.sharedArrayBuffer.toUInt8]).trans
      (Grows.put _ (dbufPutLeb128 (UInt32.ofNat byteLength)))).trans
      (Grows.put _ (dbufPutLeb128 (maxByteLengthWord maxByteLength)))).trans
      (Grows.put _ (bcPutU64 data))
    exact ⟨⟨hs'.consistent, hs'.nodup, hs'.bounded, hs'.atoms, hs'.numbered, hs'.known⟩,
      ⟨hgrows.dbuf, hgrows.atoms, hgrows.objs, List.prefix_append _ _, hgrows.pending⟩⟩
  | typedArray arrayTag count offset trackRab buffer =>
    obtain ⟨hs', hgrows⟩ := hafter (hrec _) (((hs.put _).put _).put _) h
    exact ⟨hs', ((Grows.put s _).trans ((Grows.put _ _).trans (Grows.put _ _))).trans hgrows⟩
  | date data => exact hafter (hrec data) hs h
  | objectValue data => exact hafter (hrec data) hs h
  | other => cases h

end

-- By induction on the room on the stack.
theorem grower_writeObjectRec (hnames : NamesKnown rt heap) (stack : Nat) (v : JSValue) :
    Grower rt heap (jsWriteObjectRec rt heap stack v) := by
  induction stack generalizing v with
  | zero =>
    intro s s' hs h
    cases h
  | succ stack ih =>
    intro s s' hs h
    have hscalar : ∀ tag bytes, s' = (s.putTag tag).put bytes →
        WriterInv rt heap s' ∧ Grows s s' := by
      intro tag bytes heq
      rw [heq]
      exact ⟨(hs.put _).put _, (Grows.put s _).trans (Grows.put _ _)⟩
    cases v with
    | null =>
      cases h
      exact ⟨hs.put _, Grows.put s _⟩
    | undefined =>
      cases h
      exact ⟨hs.put _, Grows.put s _⟩
    | bool b =>
      cases h
      exact ⟨hs.put _, Grows.put s _⟩
    | int n => exact hscalar _ _ (Except.ok.inj h).symm
    | float64 u => exact hscalar _ _ (Except.ok.inj h).symm
    | string p => exact hscalar _ _ (Except.ok.inj h).symm
    | stringRope p =>
      rw [jsWriteObjectRec] at h
      cases hflat : jsWriteObjectRec rt heap stack (.string p) s with
      | ok t =>
        rw [hflat] at h
        cases h
        exact ih _ s _ hs hflat
      | error e =>
        rw [hflat] at h
        cases h
        exact ⟨⟨hs.consistent, hs.nodup, hs.bounded, hs.atoms, hs.numbered, hs.known⟩,
          ⟨List.prefix_rfl, List.prefix_rfl, List.prefix_rfl, List.prefix_rfl, fun hp ↦ by cases hp⟩⟩
    | bigInt tab => exact hscalar _ _ (Except.ok.inj h).symm
    | object p =>
      rw [jsWriteObjectRec] at h
      split at h
      · exact hscalar _ _ (Except.ok.inj h).symm
      · next hfind =>
        have hnew : p ∉ s.objs := (hs.consistent.jsObjectListFind_eq_none_iff p).mp hfind
        have hlt : p < heap.length := by
          by_contra hge
          rw [List.getD_eq_default _ _ (Nat.le_of_not_lt hge)] at h
          cases h
        obtain ⟨hadd, hobjs⟩ := hs.add hnew hlt
        have hobj : heap.getD p .other ∈ heap := by
          rw [List.getD_eq_getElem _ _ hlt]
          exact List.getElem_mem hlt
        obtain ⟨hs', hgrows⟩ := grower_newObject ih hnames _ hobj _ _ hadd h
        refine ⟨hs', ⟨hgrows.dbuf, hgrows.atoms, ?_, hgrows.sabTab, hgrows.pending⟩⟩
        exact (hobjs ▸ List.prefix_append s.objs [p]).trans hgrows.objs
    | other tag => cases h

end QNode.Core
