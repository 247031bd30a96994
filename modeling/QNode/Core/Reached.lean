import QNode.Core.WriterGrows

/-!
# The objects of a message

The objects that the writer puts into its list are those that the value reaches: through elements,
enumerable properties and buffers.
-/

namespace QNode.Core

variable {rt : Runtime} {heap : Heap}

/-- The values that the writer goes on to from an object. -/
def JSObject.children : JSObject → List JSValue
  | .fastArray values length => (arraySlots (.fastArray values length)).filterMap Except.toOption
  | .slowArray props length => (arraySlots (.slowArray props length)).filterMap Except.toOption
  | .object props => (writtenProps props).filterMap JSProperty.value
  | .typedArray _ _ _ _ buffer => [.object buffer]
  | .date data => [data]
  | .objectValue data => [data]
  | _ => []

inductive Reaches (heap : Heap) : JSValue → Ptr → Prop
  | self (p : Ptr) : Reaches heap (.object p) p
  | step {p q : Ptr} {c : JSValue} : c ∈ (heap.getD p .other).children → Reaches heap c q →
      Reaches heap (.object p) q

/-- What was written from `s` to `s'` are the values `vs`: they are in the list, with the children of all that
is new in it, and nothing else is. -/
structure Covers (heap : Heap) (vs : List JSValue) (s s' : BCWriterState) : Prop where
  objs : s.objs <+: s'.objs
  mem : ∀ p, .object p ∈ vs → p ∈ s'.objs
  closed : ∀ q ∈ s'.objs, q ∉ s.objs → ∀ p, .object p ∈ (heap.getD q .other).children →
    p ∈ s'.objs
  reached : ∀ q ∈ s'.objs, q ∉ s.objs → ∃ v ∈ vs, Reaches heap v q

variable {s t s' : BCWriterState} {v : JSValue} {vs : List JSValue}

theorem Covers.of_objs_eq (hobjs : s'.objs = s.objs) (hmem : ∀ p, .object p ∈ vs → p ∈ s.objs) :
    Covers heap vs s s' := by
  refine ⟨hobjs ▸ List.prefix_rfl, ?_, ?_, ?_⟩
  · intro p hp
    rw [hobjs]
    exact hmem p hp
  · intro q hq hnot
    exact absurd (hobjs ▸ hq) hnot
  · intro q hq hnot
    exact absurd (hobjs ▸ hq) hnot

theorem Covers.cons (h : Covers heap [v] s t) (h' : Covers heap vs t s') :
    Covers heap (v :: vs) s s' := by
  refine ⟨h.objs.trans h'.objs, ?_, ?_, ?_⟩
  · intro p hp
    rcases List.mem_cons.mp hp with hp | hp
    · exact h'.objs.subset (h.mem p (List.mem_singleton.mpr hp))
    · exact h'.mem p hp
  · intro q hq hnot p hp
    by_cases hold : q ∈ t.objs
    · exact h'.objs.subset (h.closed q hold hnot p hp)
    · exact h'.closed q hq hold p hp
  · intro q hq hnot
    by_cases hold : q ∈ t.objs
    · obtain ⟨w, hw, hreaches⟩ := h.reached q hold hnot
      exact ⟨w, List.mem_cons.mpr (Or.inl (List.mem_singleton.mp hw)), hreaches⟩
    · obtain ⟨w, hw, hreaches⟩ := h'.reached q hq hold
      exact ⟨w, List.mem_cons_of_mem v hw, hreaches⟩

theorem Covers.of_objs {s₀ : BCWriterState} (h : Covers heap vs s₀ s') (hobjs : s₀.objs = s.objs) :
    Covers heap vs s s' := by
  refine ⟨hobjs ▸ h.objs, h.mem, ?_, ?_⟩
  · rw [← hobjs]
    exact h.closed
  · rw [← hobjs]
    exact h.reached

-- An object with its children.
theorem Covers.object {s₀ : BCWriterState} {p : Ptr}
    (h : Covers heap (heap.getD p .other).children s₀ s') (hadd : s₀.objs = s.objs ++ [p]) :
    Covers heap [.object p] s s' := by
  have hself : p ∈ s'.objs := by
    apply h.objs.subset
    rw [hadd]
    exact List.mem_append_right _ (List.mem_singleton_self p)
  -- what is new is the object itself, or new after it
  have hnew : ∀ q ∉ s.objs, q = p ∨ q ∉ s₀.objs := by
    intro q hnot
    rw [hadd, List.mem_append, List.mem_singleton]
    tauto
  refine ⟨(hadd ▸ List.prefix_append _ _ : s.objs <+: s₀.objs).trans h.objs, ?_, ?_, ?_⟩
  · intro q hq
    cases List.mem_singleton.mp hq
    exact hself
  · intro q hq hnot c hc
    rcases hnew q hnot with rfl | hnot
    · exact h.mem c hc
    · exact h.closed q hq hnot c hc
  · intro q hq hnot
    refine ⟨_, List.mem_singleton_self _, ?_⟩
    rcases hnew q hnot with rfl | hnot
    · exact .self q
    · obtain ⟨c, hc, hreaches⟩ := h.reached q hq hnot
      exact .step hc hreaches

/-! ## Every value -/

/-- A writer of the values `vs`, as long as no exception is pending. -/
def Coverer (rt : Runtime) (heap : Heap) (vs : List JSValue)
    (write : BCWriterState → Except JSError BCWriterState) : Prop :=
  ∀ s s', WriterInv rt heap s → write s = .ok s' → s'.pending = none → Covers heap vs s s'

section

variable {writeRec : JSValue → BCWriterState → Except JSError BCWriterState}
  (hcover : ∀ v, Coverer rt heap [v] (writeRec v)) (hgrow : ∀ v, Grower rt heap (writeRec v))

include hcover hgrow

theorem coverer_slots (slots : List (Except JSError JSValue)) :
    Coverer rt heap (slots.filterMap Except.toOption) (jsWriteSlots writeRec slots) := by
  induction slots with
  | nil =>
    intro s s' _ h _
    cases h
    exact Covers.of_objs_eq rfl (by intro p hp; cases hp)
  | cons slot slots ih =>
    intro s s' hs h hpending
    cases slot with
    | error e => cases h
    | ok v =>
      cases hw : writeRec v s with
      | error e =>
        simp only [jsWriteSlots, bind, Except.bind, hw] at h
        cases h
      | ok t =>
        simp only [jsWriteSlots, bind, Except.bind, hw] at h
        obtain ⟨ht, -⟩ := hgrow v s t hs hw
        obtain ⟨-, hts⟩ := grower_slots hgrow slots t s' ht h
        exact (hcover v s t hs hw (hts.pending hpending)).cons (ih t s' ht h hpending)

theorem coverer_props (props : List JSProperty)
    (hnames : ∀ pr ∈ props, ∀ text, pr.atom = .visible (.string text) → text ∈ rt.atomArray) :
    Coverer rt heap (props.filterMap JSProperty.value) (jsWriteProps writeRec props) := by
  induction props with
  | nil =>
    intro s s' _ h _
    cases h
    exact Covers.of_objs_eq rfl (by intro p hp; cases hp)
  | cons pr props ih =>
    intro s s' hs h hpending
    rw [jsWriteProps] at h
    split at h
    · next atom v hatom hv =>
      have hname : ∀ text, atom = .string text → text ∈ rt.atomArray :=
        fun text heq ↦ hnames pr List.mem_cons_self text (heq ▸ hatom)
      obtain ⟨hput, -⟩ := hs.bcPutAtom hname
      cases hw : writeRec v (bcPutAtom s atom) with
      | error e =>
        simp only [bind, Except.bind, hw] at h
        cases h
      | ok t =>
        simp only [bind, Except.bind, hw] at h
        have hnames' : ∀ q ∈ props, ∀ text, q.atom = .visible (.string text) →
            text ∈ rt.atomArray := fun q hq ↦ hnames q (List.mem_cons_of_mem pr hq)
        obtain ⟨ht, -⟩ := hgrow v _ t hput hw
        obtain ⟨-, hts⟩ := grower_props hgrow props hnames' t s' ht h
        rw [List.filterMap_cons_some hv]
        exact ((hcover v _ t hput hw (hts.pending hpending)).of_objs
          (hs.objs_bcPutAtom hname)).cons (ih hnames' t s' ht h hpending)
    · cases h

theorem coverer_newObject (hnames : NamesKnown rt heap) (obj : JSObject) (hobj : obj ∈ heap) :
    Coverer rt heap obj.children (jsWriteNewObject writeRec obj) := by
  intro s s' hs h hpending
  have harray : ∀ obj, jsWriteArray writeRec obj s = .ok s' →
      Covers heap ((arraySlots obj).filterMap Except.toOption) s s' := by
    intro obj h
    exact (coverer_slots hcover hgrow _ _ _ ((hs.put _).put _) h hpending).of_objs rfl
  cases obj with
  | fastArray values length => exact harray _ h
  | slowArray props length => exact harray _ h
  | object props =>
    rw [jsWriteNewObject, jsWriteObjectTag] at h
    split at h
    · cases h
    · have hwritten : ∀ pr ∈ writtenProps props, ∀ text, pr.atom = .visible (.string text) →
          text ∈ rt.atomArray := fun pr hpr ↦ hnames props hobj pr (List.mem_filter.mp hpr).1
      exact (coverer_props hcover hgrow _ hwritten _ _ ((hs.put _).put _) h hpending).of_objs rfl
  | arrayBuffer data maxByteLength =>
    cases data with
    | none => cases h
    | some bytes =>
      cases h
      exact Covers.of_objs_eq rfl (by intro p hp; cases hp)
  | sharedArrayBuffer data byteLength maxByteLength =>
    cases h
    exact Covers.of_objs_eq rfl (by intro p hp; cases hp)
  | typedArray arrayTag count offset trackRab buffer =>
    exact (hcover _ _ _ ((((hs.put _).put _).put _).put _) h hpending).of_objs rfl
  | date data => exact (hcover _ _ _ (hs.put _) h hpending).of_objs rfl
  | objectValue data => exact (hcover _ _ _ (hs.put _) h hpending).of_objs rfl
  | other => cases h

end

-- By induction on the room on the stack.
theorem coverer_writeObjectRec (hnames : NamesKnown rt heap) (stack : Nat) (v : JSValue) :
    Coverer rt heap [v] (jsWriteObjectRec rt heap stack v) := by
  induction stack generalizing v with
  | zero =>
    intro s s' _ h
    cases h
  | succ stack ih =>
    intro s s' hs h hpending
    have hscalar : (∀ p, v ≠ .object p) → s'.objs = s.objs → Covers heap [v] s s' := by
      intro hv hobjs
      refine Covers.of_objs_eq hobjs fun p hp ↦ ?_
      exact absurd (List.mem_singleton.mp hp).symm (hv p)
    cases v with
    | object p =>
      rw [jsWriteObjectRec] at h
      cases hfind : jsObjectListFind rt.address s.objectList p with
      | some idx =>
        rw [hfind] at h
        cases h
        refine Covers.of_objs_eq rfl fun q hq ↦ ?_
        cases List.mem_singleton.mp hq
        exact List.mem_of_getElem? (hs.consistent.jsObjectListFind_eq_some hfind)
      | none =>
        rw [hfind] at h
        have hnew : p ∉ s.objs := (hs.consistent.jsObjectListFind_eq_none_iff p).mp hfind
        have hlt : p < heap.length := by
          by_contra hge
          rw [List.getD_eq_default _ _ (Nat.le_of_not_lt hge)] at h
          cases h
        obtain ⟨hadd, hobjs⟩ := hs.add hnew hlt
        have hobj : heap.getD p .other ∈ heap := by
          rw [List.getD_eq_getElem _ _ hlt]
          exact List.getElem_mem hlt
        exact (coverer_newObject ih (grower_writeObjectRec hnames stack) hnames _ hobj _ _ hadd h
          hpending).object hobjs
    | stringRope p =>
      refine hscalar (by intro q hq; cases hq) ?_
      rw [jsWriteObjectRec] at h
      cases hflat : jsWriteObjectRec rt heap stack (.string p) s with
      | error e =>
        rw [hflat] at h
        cases h
        rfl
      | ok t =>
        rw [hflat] at h
        cases h
        cases stack with
        | zero => cases hflat
        | succ stack =>
          cases hflat
          rfl
    | other tag => cases h
    | _ =>
      refine hscalar (by intro q hq; cases hq) ?_
      cases h
      rfl

-- The list of a finished message.
theorem mem_objs_iff (hnames : NamesKnown rt heap) {stack : Nat}
    (h : jsWriteObjectRec rt heap stack v .init = .ok s') (hpending : s'.pending = none) (q : Ptr) :
    q ∈ s'.objs ↔ Reaches heap v q := by
  have hcovers := coverer_writeObjectRec hnames stack v .init s' writerInv_init h hpending
  constructor
  · intro hq
    obtain ⟨w, hw, hreaches⟩ := hcovers.reached q hq List.not_mem_nil
    rw [← List.mem_singleton.mp hw]
    exact hreaches
  · intro hq
    -- the list is closed under children
    have hclosed : ∀ (c : JSValue) (x : Ptr), Reaches heap c x → (∀ p, c = .object p → p ∈ s'.objs) →
        x ∈ s'.objs := by
      intro c x hreaches
      induction hreaches with
      | self p => exact fun hp ↦ hp p rfl
      | step hc _ ih =>
        intro hp
        refine ih fun r hr ↦ ?_
        exact hcovers.closed _ (hp _ rfl) List.not_mem_nil r (hr ▸ hc)
    exact hclosed v q hq fun p hp ↦ hcovers.mem p (List.mem_singleton.mpr hp.symm)

end QNode.Core
