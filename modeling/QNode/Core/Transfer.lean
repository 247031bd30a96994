import QNode.Core.Reader
import QNode.Core.WriterGrows

/-!
# What a message transfers

The objects of a message are numbered on both sides.  What the reader makes of the object with a number is
the clone of the object written under it, with every pointer sent to the object of the same number.  A
stretch of reading is described by what it adds, and stretches compose.
-/

namespace QNode.Core

/-! ## Clones -/

/-- A value with its pointers sent along `μ`; a rope arrives flat. -/
def JSValue.transfer (μ : Ptr → Ptr) : JSValue → JSValue
  | .object p => .object (μ p)
  | .stringRope p => .string p
  | v => v

def transferSlot (μ : Ptr → Ptr) : Except JSError JSValue → JSValue
  | .ok v => v.transfer μ
  | .error _ => .undefined

def JSProperty.transfer (μ : Ptr → Ptr) (pr : JSProperty) : JSProperty :=
  ⟨pr.atom, true, pr.value.map (JSValue.transfer μ)⟩

/-- What arrives of an object.  Arrays arrive fast, with `undefined` for what they do not hold; objects with
their enumerable properties that have a string for a name; views do not track their buffer any more. -/
def JSObject.clone (μ : Ptr → Ptr) : JSObject → JSObject
  | .fastArray values length =>
    .fastArray ((arraySlots (.fastArray values length)).map (transferSlot μ)) length
  | .slowArray props length =>
    .fastArray ((arraySlots (.slowArray props length)).map (transferSlot μ)) length
  | .object props => .object ((writtenProps props).map (JSProperty.transfer μ))
  | .typedArray arrayTag count offset _ buffer => .typedArray arrayTag count offset false (μ buffer)
  | .date data => .date (data.transfer μ)
  | .objectValue data => .objectValue (data.transfer μ)
  | obj => obj

/-! ## Heaps of the engine -/

def JSValue.Sized : JSValue → Prop
  | .bigInt tab => tab.Sized
  | _ => True

/-- What the object of a primitive value holds. -/
def JSValue.isPrimitive : JSValue → Bool
  | .null | .undefined | .object _ | .other _ => false
  | _ => true

/-- The lengths and places that the engine keeps within bounds; the names of the properties of an object
are different. -/
def JSObject.Valid (heap : Heap) : JSObject → Prop
  | .fastArray values length => values.length ≤ length ∧ length < 2 ^ 32 ∧ ∀ v ∈ values, v.Sized
  | .slowArray props length => length < 2 ^ 32 ∧ ∀ pr ∈ props, ∀ v ∈ pr.value, v.Sized
  | .object props => props.length < 2 ^ 32 ∧ ((writtenProps props).map JSProperty.atom).Nodup ∧
      ∀ pr ∈ props, ∀ v ∈ pr.value, v.Sized
  | .typedArray arrayTag count offset _ buffer => arrayTag < jsTypedArrayCount ∧ count < 2 ^ 32 ∧
      offset < 2 ^ 32 ∧ offset % 2 ^ typedArraySizeLog2 arrayTag = 0 ∧
      (heap.getD buffer .other).bufferLength.isSome
  | .arrayBuffer data maxByteLength => ∀ bytes ∈ data, bytes.length ≤ int32Max ∧
      ∀ n ∈ maxByteLength, bytes.length ≤ n ∧ n ≤ int32Max
  | .sharedArrayBuffer _ byteLength maxByteLength => byteLength ≤ int32Max ∧
      ∀ n ∈ maxByteLength, byteLength ≤ n ∧ n ≤ int32Max
  | .date data => data.isNumber
  | .objectValue data => data.isPrimitive ∧ data.Sized
  | .other => True

structure ValidHeap (rt : Runtime) (heap : Heap) : Prop where
  objects : ∀ obj ∈ heap, obj.Valid heap
  names : NamesKnown rt heap
  size : heap.length < 2 ^ 31

/-- The objects that the reader accepts: no shared buffer that can grow, no view beyond its buffer. -/
def Readable (heap : Heap) (p : Ptr) : Prop :=
  match heap.getD p .other with
  | .sharedArrayBuffer _ _ maxByteLength => maxByteLength = none
  | .typedArray arrayTag count offset _ buffer =>
    ∀ n, (heap.getD buffer .other).bufferLength = some n →
      offset + count * 2 ^ typedArraySizeLog2 arrayTag ≤ n
  | _ => True

/-! ## The numbering -/

/-- `μ` sends the object written under a number to the object read under it. -/
def Agrees (μ : Ptr → Ptr) (objs : List Ptr) (objects : List (Option Ptr)) : Prop :=
  ∀ (i : Nat) (p a : Ptr), objs[i]? = some p → objects[i]? = some (some a) → μ p = a

theorem exists_agrees {objs : List Ptr} (h : objs.Nodup) (objects : List (Option Ptr)) :
    ∃ μ, Agrees μ objs objects := by
  refine ⟨fun p ↦ (objects[objs.idxOf p]?.join).getD 0, fun i p a hp ha ↦ ?_⟩
  obtain ⟨hlt, hget⟩ := List.getElem?_eq_some_iff.mp hp
  have hidx : objs.idxOf p = i := by
    rw [← hget]
    exact h.idxOf_getElem i hlt
  show (objects[objs.idxOf p]?.join).getD 0 = a
  rw [hidx, ha]
  rfl

theorem getElem?_mono {α : Type} {l l' : List α} (h : l <+: l') {i : Nat} {a : α}
    (ha : l[i]? = some a) : l'[i]? = some a := by
  obtain ⟨t, rfl⟩ := h
  rw [List.getElem?_append_left (List.getElem?_eq_some_iff.mp ha).1]
  exact ha

theorem Agrees.of_prefix {μ : Ptr → Ptr} {objs objs' : List Ptr}
    {objects objects' : List (Option Ptr)} (h : Agrees μ objs' objects') (hobjs : objs <+: objs')
    (hobjects : objects <+: objects') : Agrees μ objs objects :=
  fun i p a hp ha ↦ h i p a (getElem?_mono hobjs hp) (getElem?_mono hobjects ha)

/-- The reader is where the writer was before it wrote: as many objects, the atoms of the message at hand, and
a buffer of the right length for every buffer. -/
structure Before (heap : Heap) (s s' : BCWriterState) (r : BCReaderState) : Prop where
  count : r.objects.length = s.objs.length
  atoms : ∀ (i : Nat) (text : AtomText), s'.idxToAtom[i]? = some text → r.idxToAtom[i]? = some (JSAtom.string text)
  buffers : ∀ (i : Nat) (p a : Ptr) (n : Nat), s.objs[i]? = some p → r.objects[i]? = some (some a) →
    (heap.getD p .other).bufferLength = some n →
      a < r.heap.length ∧ (r.heap.getD a .other).bufferLength = some n

/-- What reading adds where the writer went from `s` to `s'`; of the old objects it changes those of `own` at
most. -/
structure After (heap : Heap) (own : Ptr → Prop) (s s' : BCWriterState) (rest : List UInt8)
    (r r' : BCReaderState) : Prop where
  ptr : r'.ptr = rest
  atoms : r'.idxToAtom = r.idxToAtom
  objects : r.objects <+: r'.objects
  count : r'.objects.length = s'.objs.length
  fresh : ∀ i, r.objects.length ≤ i → i < r'.objects.length →
    ∃ a, r'.objects[i]? = some (some a) ∧ r.heap.length ≤ a ∧ a < r'.heap.length
  distinct : ∀ i j a, r.objects.length ≤ i → r.objects.length ≤ j →
    r'.objects[i]? = some (some a) → r'.objects[j]? = some (some a) → i = j
  size : r.heap.length ≤ r'.heap.length
  kept : ∀ q < r.heap.length, ¬ own q → r'.heap[q]? = r.heap[q]?
  contents : ∀ μ, Agrees μ s'.objs r'.objects → ∀ i p a, r.objects.length ≤ i →
    s'.objs[i]? = some p → r'.objects[i]? = some (some a) →
      r'.heap[a]? = some ((heap.getD p .other).clone μ)
  sabs : ∃ sabs, s'.sabTab = s.sabTab ++ sabs ∧ r'.sabDups = r.sabDups ++ sabs

section

variable {heap : Heap} {own : Ptr → Prop} {s t u : BCWriterState} {r r₁ r₂ : BCReaderState}
  {rest rest' : List UInt8}

-- No object was written.
theorem After.still (hptr : r₁.ptr = rest) (hcount : r.objects.length = s.objs.length)
    (hobjs : t.objs = s.objs) (hobjects : r₁.objects = r.objects) (hheap : r₁.heap = r.heap)
    (hatoms : r₁.idxToAtom = r.idxToAtom) {sabs : List UInt64} (hsabs : t.sabTab = s.sabTab ++ sabs)
    (hdups : r₁.sabDups = r.sabDups ++ sabs) : After heap own s t rest r r₁ where
  ptr := hptr
  atoms := hatoms
  objects := hobjects ▸ List.prefix_rfl
  count := by rw [hobjects, hobjs, hcount]
  fresh := fun i hle hlt ↦ by
    rw [hobjects] at hlt
    exact absurd hlt (Nat.not_lt_of_le hle)
  distinct := fun i j a hle _ hi _ ↦ by
    rw [hobjects] at hi
    exact absurd (List.getElem?_eq_some_iff.mp hi).1 (Nat.not_lt_of_le hle)
  size := by rw [hheap]
  kept := fun _ _ _ ↦ by rw [hheap]
  contents := fun μ _ i p a hle _ hi ↦ by
    rw [hobjects] at hi
    exact absurd (List.getElem?_eq_some_iff.mp hi).1 (Nat.not_lt_of_le hle)
  sabs := ⟨sabs, hsabs, hdups⟩

-- A new object, and what is read while it is filled.
theorem After.newObject {s₀ : BCWriterState} {r₀ : BCReaderState} {p : Ptr} {obj : JSObject}
    (h : After heap (fun q ↦ q = r.heap.length) s₀ t rest r₀ r₁)
    (hcount : r.objects.length = s.objs.length) (hobjs : s₀.objs = s.objs ++ [p])
    (hsab : s₀.sabTab = s.sabTab) (hobjects : r₀.objects = r.objects ++ [some r.heap.length])
    (hheap : r₀.heap = r.heap ++ [obj]) (hatoms : r₀.idxToAtom = r.idxToAtom)
    (hdups : r₀.sabDups = r.sabDups) (hpre : s₀.objs <+: t.objs)
    (hcontent : ∀ μ, Agrees μ t.objs r₁.objects →
      r₁.heap[r.heap.length]? = some ((heap.getD p .other).clone μ)) :
    After heap (fun _ ↦ False) s t rest r r₁ := by
  have hlen : r₀.heap.length = r.heap.length + 1 := by rw [hheap, List.length_append]; rfl
  have hlen' : r₀.objects.length = r.objects.length + 1 := by rw [hobjects, List.length_append]; rfl
  have hfirst : r₁.objects[r.objects.length]? = some (some r.heap.length) := by
    apply getElem?_mono h.objects
    rw [hobjects]
    exact List.getElem?_concat_length
  have hsize : r.heap.length < r₁.heap.length := by
    have hle := h.size
    omega
  -- what comes later is newer
  have hlater : ∀ i a, r.objects.length < i → r₁.objects[i]? = some (some a) → r.heap.length < a := by
    intro i a hi ha
    obtain ⟨b, hb, hlow, -⟩ := h.fresh i (by omega) (List.getElem?_eq_some_iff.mp ha).1
    rw [ha, Option.some_inj, Option.some_inj] at hb
    rw [hb]
    exact Nat.lt_of_lt_of_le (Nat.lt_of_lt_of_eq (Nat.lt_succ_self _) hlen.symm) hlow
  refine ⟨h.ptr, h.atoms.trans hatoms, ?_, h.count, ?_, ?_, Nat.le_of_lt hsize, ?_, ?_, ?_⟩
  · exact (hobjects ▸ List.prefix_append _ _ : r.objects <+: r₀.objects).trans h.objects
  · intro i hle hlt
    by_cases hi : i = r.objects.length
    · exact ⟨r.heap.length, hi ▸ hfirst, Nat.le_refl _, hsize⟩
    · obtain ⟨a, ha, hlow, hhigh⟩ := h.fresh i (by omega) hlt
      exact ⟨a, ha, by omega, hhigh⟩
  · intro i j a hi hj hia hja
    by_cases hi' : i = r.objects.length
    · by_cases hj' : j = r.objects.length
      · rw [hi', hj']
      · rw [hi', hfirst, Option.some_inj, Option.some_inj] at hia
        have hlt := hlater j a (by omega) hja
        omega
    · by_cases hj' : j = r.objects.length
      · rw [hj', hfirst, Option.some_inj, Option.some_inj] at hja
        have hlt := hlater i a (by omega) hia
        omega
      · exact h.distinct i j a (by omega) (by omega) hia hja
  · intro q hq _
    rw [h.kept q (by omega) (Nat.ne_of_lt hq), hheap, List.getElem?_append_left hq]
  · intro μ hμ i q a hle hq ha
    by_cases hi : i = r.objects.length
    · rw [hi, hfirst, Option.some_inj, Option.some_inj] at ha
      have hp : t.objs[r.objects.length]? = some p := by
        apply getElem?_mono hpre
        rw [hobjs, hcount]
        exact List.getElem?_concat_length
      rw [hi, hp, Option.some_inj] at hq
      rw [← ha, ← hq]
      exact hcontent μ hμ
    · exact h.contents μ hμ i q a (by omega) hq ha
  · obtain ⟨sabs, hw, hr⟩ := h.sabs
    exact ⟨sabs, by rw [hw, hsab], by rw [hr, hdups]⟩

theorem After.trans (h : After heap own s t rest r r₁) (h' : After heap own t u rest' r₁ r₂)
    (hown : ∀ q, own q → q < r.heap.length) (hobjs : t.objs <+: u.objs) :
    After heap own s u rest' r r₂ where
  ptr := h'.ptr
  atoms := h'.atoms.trans h.atoms
  objects := h.objects.trans h'.objects
  count := h'.count
  fresh := by
    intro i hle hlt
    by_cases hi : i < r₁.objects.length
    · obtain ⟨a, ha, hlow, hhigh⟩ := h.fresh i hle hi
      exact ⟨a, getElem?_mono h'.objects ha, hlow, Nat.lt_of_lt_of_le hhigh h'.size⟩
    · obtain ⟨a, ha, hlow, hhigh⟩ := h'.fresh i (Nat.le_of_not_lt hi) hlt
      exact ⟨a, ha, Nat.le_trans h.size hlow, hhigh⟩
  distinct := by
    -- an object of the first stretch lies below those of the second
    have hmixed : ∀ i j a, r.objects.length ≤ i → i < r₁.objects.length → r₁.objects.length ≤ j →
        r₂.objects[i]? = some (some a) → r₂.objects[j]? ≠ some (some a) := by
      intro i j a hle hi hj hia hja
      obtain ⟨a', ha', -, hhigh⟩ := h.fresh i hle hi
      have heq := getElem?_mono h'.objects ha'
      obtain ⟨b, hb, hlow, -⟩ := h'.fresh j hj (List.getElem?_eq_some_iff.mp hja).1
      rw [hia, Option.some_inj, Option.some_inj] at heq
      rw [hja, Option.some_inj, Option.some_inj] at hb
      rw [← heq] at hhigh
      rw [← hb] at hlow
      exact absurd hhigh (Nat.not_lt_of_le hlow)
    intro i j a hi hj hia hja
    by_cases hi' : i < r₁.objects.length
    · by_cases hj' : j < r₁.objects.length
      · obtain ⟨b, hb, -, -⟩ := h.fresh i hi hi'
        obtain ⟨c, hc, -, -⟩ := h.fresh j hj hj'
        have hib := getElem?_mono h'.objects hb
        have hjc := getElem?_mono h'.objects hc
        rw [hia, Option.some_inj, Option.some_inj] at hib
        rw [hja, Option.some_inj, Option.some_inj] at hjc
        exact h.distinct i j a hi hj (hib ▸ hb) (hjc ▸ hc)
      · exact absurd hja (hmixed i j a hi hi' (Nat.le_of_not_lt hj') hia)
    · by_cases hj' : j < r₁.objects.length
      · exact absurd hia (hmixed j i a hj hj' (Nat.le_of_not_lt hi') hja)
      · exact h'.distinct i j a (Nat.le_of_not_lt hi') (Nat.le_of_not_lt hj') hia hja
  size := Nat.le_trans h.size h'.size
  kept := fun q hq hnot ↦ (h'.kept q (Nat.lt_of_lt_of_le hq h.size) hnot).trans (h.kept q hq hnot)
  contents := by
    intro μ hμ i p a hle hp ha
    by_cases hi : i < r₁.objects.length
    · obtain ⟨b, hb, hlow, hhigh⟩ := h.fresh i hle hi
      have heq := getElem?_mono h'.objects hb
      rw [ha, Option.some_inj, Option.some_inj] at heq
      rw [← heq] at hb hlow hhigh
      have hp' : t.objs[i]? = some p := by
        rw [h.count] at hi
        obtain ⟨q, hq⟩ : ∃ q, t.objs[i]? = some q := ⟨_, List.getElem?_eq_getElem hi⟩
        rw [hq, ← getElem?_mono hobjs hq, hp]
      rw [h'.kept a hhigh fun ho ↦ absurd (hown a ho) (Nat.not_lt_of_le hlow)]
      exact h.contents μ (hμ.of_prefix hobjs h'.objects) i p a hle hp' hb
    · exact h'.contents μ hμ i p a (Nat.le_of_not_lt hi) hp ha
  sabs := by
    obtain ⟨sabs, hw, hr⟩ := h.sabs
    obtain ⟨sabs', hw', hr'⟩ := h'.sabs
    exact ⟨sabs ++ sabs', by rw [hw', hw, List.append_assoc], by rw [hr', hr, List.append_assoc]⟩

theorem bufferLength_clone (μ : Ptr → Ptr) (obj : JSObject) :
    (obj.clone μ).bufferLength = obj.bufferLength := by
  cases obj <;> rfl

-- Where one stretch ends the next one may begin.
theorem Before.step (hbefore : Before heap s u r) (h : After heap own s t rest r r₁)
    (hobjs : s.objs <+: t.objs) (hnodup : t.objs.Nodup)
    (hown : ∀ q, own q → (r.heap.getD q .other).bufferLength = none) : Before heap t u r₁ where
  count := h.count
  atoms := by
    rw [h.atoms]
    exact hbefore.atoms
  buffers := by
    intro i p a n hp ha hlen
    by_cases hi : i < r.objects.length
    · have ha' : r.objects[i]? = some (some a) := by
        rw [List.getElem?_eq_getElem hi, ← getElem?_mono h.objects (List.getElem?_eq_getElem hi), ha]
      have hp' : s.objs[i]? = some p := by
        rw [hbefore.count] at hi
        rw [List.getElem?_eq_getElem hi, ← getElem?_mono hobjs (List.getElem?_eq_getElem hi), hp]
      obtain ⟨hlt, hbuffer⟩ := hbefore.buffers i p a n hp' ha' hlen
      have hnot : ¬ own a := fun ho ↦ by
        rw [hown a ho] at hbuffer
        cases hbuffer
      refine ⟨Nat.lt_of_lt_of_le hlt h.size, ?_⟩
      rw [List.getD_eq_getElem?_getD, h.kept a hlt hnot, ← List.getD_eq_getElem?_getD]
      exact hbuffer
    · obtain ⟨b, hb, -, hlt⟩ := h.fresh i (Nat.le_of_not_lt hi) (List.getElem?_eq_some_iff.mp ha).1
      rw [ha, Option.some_inj, Option.some_inj] at hb
      obtain ⟨μ, hμ⟩ := exists_agrees hnodup r₁.objects
      refine ⟨hb ▸ hlt, ?_⟩
      rw [List.getD_eq_getElem?_getD, h.contents μ hμ i p a (Nat.le_of_not_lt hi) hp ha,
        Option.getD_some, bufferLength_clone]
      exact hlen

theorem Before.mono (h : Before heap s u r) (hatoms : t.idxToAtom <+: u.idxToAtom) :
    Before heap s t r :=
  ⟨h.count, fun i text ht ↦ h.atoms i text (getElem?_mono hatoms ht), h.buffers⟩

/-- No number stands for a view that is still being read. -/
def Settled (r : BCReaderState) : Prop := ∀ i : Nat, r.objects[i]? ≠ some none

theorem Settled.step (hsettled : Settled r) (h : After heap own s t rest r r₁) : Settled r₁ := by
  intro i hi
  by_cases hlt : i < r.objects.length
  · apply hsettled i
    rw [List.getElem?_eq_getElem hlt, ← getElem?_mono h.objects (List.getElem?_eq_getElem hlt), hi]
  · obtain ⟨a, ha, -⟩ := h.fresh i (Nat.le_of_not_lt hlt) (List.getElem?_eq_some_iff.mp hi).1
    rw [hi] at ha
    cases ha

end

end QNode.Core
