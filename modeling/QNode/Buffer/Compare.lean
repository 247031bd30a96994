import QNode.Buffer.Concat
import QNode.Library.Lexicographic

/-!
# compare and equals

Three functions compare the bytes of two views: with `memcmp` as far as the shorter one goes, and then
by the lengths.  Like `concat` they take the length of a view from `js_buffer_get_bytes`, which for a
view that tracks a resizable buffer is the length it was created with.
-/

open QNode.Engine Splice Lexicographic

namespace QNode.Buffer

/-- `memcmp` of two blocks of one length, which answers any number of the right sign. -/
structure Memcmp where
  call : List UInt8 → List UInt8 → Int
  orders : ∀ p q, p.length = q.length → Orders (call p q) p q

/-- The common part of the two comparisons. -/
def compareBytes (memcmp : Memcmp) (heap : Heap) (p1 p2 : View) : Int :=
  let minLen := if p1.length < p2.length then p1.length else p2.length
  let cmp := memcmp.call (p1.read heap 0 minLen) (p2.read heap 0 minLen)
  if cmp = 0 then
    (if p1.length > p2.length then 1 else 0) - (if p1.length < p2.length then 1 else 0)
  else cmp

def jsBufferCompareStatic (memcmp : Memcmp) (heap : Heap) (argv : List JsArg) : Outcome Int :=
  if argv.length < 2 then .throw (.typeError "need two buffers")
  else
    match jsBufferGetBytes heap (argAt argv 0), jsBufferGetBytes heap (argAt argv 1) with
    | some p1, some p2 => .ok (compareBytes memcmp heap p1 p2)
    | _, _ => .throw (.typeError "arguments must be Buffers")

def jsBufferEquals (memcmp : Memcmp) (heap : Heap) (this : JsArg) (argv : List JsArg) : Bool :=
  if argv.length < 1 then false
  else
    match jsBufferGetBytes heap this, jsBufferGetBytes heap (argAt argv 0) with
    | some p1, some p2 =>
      p1.length = p2.length &&
        memcmp.call (p1.read heap 0 p1.length) (p2.read heap 0 p1.length) = 0
    | _, _ => false

def jsBufferCompareInst (memcmp : Memcmp) (heap : Heap) (this : JsArg) (argv : List JsArg) :
    Outcome Int :=
  if argv.length < 1 then .throw (.typeError "argument required")
  else
    match jsBufferGetBytes heap this, jsBufferGetBytes heap (argAt argv 0) with
    | some p1, some p2 => .ok (compareBytes memcmp heap p1 p2)
    | _, _ => .throw (.typeError "arguments must be Buffers")

/-! ## What the functions promise -/

/-- A view whose bytes are there and that has the length it was created with. -/
structure ByteView (heap : Heap) extends View where
  present : typedArrayIsOob heap toView = false
  upToDate : toView.UpToDate heap

/-- The comparisons of three views follow the order of their bytes, whatever numbers the calls of
`memcmp` answer. -/
structure Compares (heap : Heap) (a b c : View) : Prop where
  sign : ∀ memcmp, ∃ n, jsBufferCompareStatic memcmp heap [a.arg, b.arg] = .ok n ∧
    Orders n (a.bytes heap) (b.bytes heap)
  swap : ∀ memcmp memcmp' m n, jsBufferCompareStatic memcmp heap [a.arg, b.arg] = .ok m →
    jsBufferCompareStatic memcmp' heap [b.arg, a.arg] = .ok n → m.sign = -n.sign
  trans : ∀ memcmp memcmp' memcmp'' m n k, jsBufferCompareStatic memcmp heap [a.arg, b.arg] = .ok m →
    jsBufferCompareStatic memcmp' heap [b.arg, c.arg] = .ok n →
    jsBufferCompareStatic memcmp'' heap [a.arg, c.arg] = .ok k → m ≤ 0 → n ≤ 0 → k ≤ 0
  equals_iff : ∀ memcmp memcmp', jsBufferEquals memcmp heap a.arg [b.arg] = true ↔
    jsBufferCompareStatic memcmp' heap [a.arg, b.arg] = .ok 0
  equals_bytes : ∀ memcmp, jsBufferEquals memcmp heap a.arg [b.arg] = true ↔
    a.bytes heap = b.bytes heap
  inst : ∀ memcmp memcmp' m n, jsBufferCompareStatic memcmp heap [a.arg, b.arg] = .ok m →
    jsBufferCompareInst memcmp' heap a.arg [b.arg] = .ok n → m.sign = n.sign

/-! ## The functions on views -/

section

variable {heap : Heap}

theorem Memcmp.self (memcmp : Memcmp) (p : List UInt8) : memcmp.call p p = 0 :=
  (memcmp.orders p p rfl).zero_iff.mpr rfl

/-- `memcmp` that answers -1, 0 or 1. -/
def Memcmp.unit : Memcmp where
  call p q := if p < q then -1 else if q < p then 1 else 0
  orders p q _ := by
    by_cases hlt : p < q
    · rw [if_pos hlt]
      exact .of_lt (by decide) hlt
    · by_cases hgt : q < p
      · rw [if_neg hlt, if_pos hgt]
        exact .of_gt (by decide) hgt
      · rw [if_neg hlt, if_neg hgt, List.le_antisymm (List.not_lt.mp hgt) (List.not_lt.mp hlt)]
        exact .of_eq q

theorem ByteView.length_eq (v : ByteView heap) : v.length = v.toView.byteLength heap :=
  v.upToDate v.present

theorem ByteView.bytes_eq (v : ByteView heap) : v.toView.bytes heap = v.toView.read heap 0 v.length := by
  rw [View.bytes, v.length_eq]

theorem ByteView.length_bytes (v : ByteView heap) : (v.toView.bytes heap).length = v.length := by
  rw [length_viewBytes, v.length_eq]

variable {a b : View}

theorem compareStatic_present (memcmp : Memcmp) (ha : typedArrayIsOob heap a = false)
    (hb : typedArrayIsOob heap b = false) :
    jsBufferCompareStatic memcmp heap [a.arg, b.arg] = .ok (compareBytes memcmp heap a b) := by
  rw [jsBufferCompareStatic, if_neg (by simp)]
  show (match jsBufferGetBytes heap a.arg, jsBufferGetBytes heap b.arg with
    | some p1, some p2 => Outcome.ok (compareBytes memcmp heap p1 p2)
    | _, _ => .throw (.typeError "arguments must be Buffers")) = _
  rw [getBytes_of_inBounds ha, getBytes_of_inBounds hb]

theorem compareInst_present (memcmp : Memcmp) (ha : typedArrayIsOob heap a = false)
    (hb : typedArrayIsOob heap b = false) :
    jsBufferCompareInst memcmp heap a.arg [b.arg] = .ok (compareBytes memcmp heap a b) := by
  rw [jsBufferCompareInst, if_neg (by simp)]
  show (match jsBufferGetBytes heap a.arg, jsBufferGetBytes heap b.arg with
    | some p1, some p2 => Outcome.ok (compareBytes memcmp heap p1 p2)
    | _, _ => .throw (.typeError "arguments must be Buffers")) = _
  rw [getBytes_of_inBounds ha, getBytes_of_inBounds hb]

-- Both comparisons answer by the order of the bytes.
theorem compareBytes_orders (memcmp : Memcmp) (a b : ByteView heap) :
    Orders (compareBytes memcmp heap a.toView b.toView) (a.toView.bytes heap)
      (b.toView.bytes heap) := by
  have hmin : (if a.length < b.length then a.length else b.length) =
      min (a.toView.bytes heap).length (b.toView.bytes heap).length := by
    rw [a.length_bytes, b.length_bytes]
    split <;> omega
  have hread : ∀ v : ByteView heap, min (a.toView.bytes heap).length (b.toView.bytes heap).length ≤
      v.length → v.toView.read heap 0 (min (a.toView.bytes heap).length (b.toView.bytes heap).length) =
        (v.toView.bytes heap).take
          (min (a.toView.bytes heap).length (b.toView.bytes heap).length) := by
    intro v hv
    rw [v.bytes_eq]
    exact read_take hv
  have ha := hread a (by rw [a.length_bytes]; exact Nat.min_le_left _ _)
  have hb := hread b (by rw [b.length_bytes]; exact Nat.min_le_right _ _)
  have hprefix := memcmp.orders
    ((a.toView.bytes heap).take (min (a.toView.bytes heap).length (b.toView.bytes heap).length))
    ((b.toView.bytes heap).take (min (a.toView.bytes heap).length (b.toView.bytes heap).length))
    (by rw [List.length_take, List.length_take]; omega)
  have htie := orders_tieBreak hprefix
  rw [a.length_bytes, b.length_bytes] at htie
  rw [compareBytes, hmin, ha, hb, a.length_bytes, b.length_bytes]
  exact htie

theorem equals_bytes_iff (memcmp : Memcmp) (a b : ByteView heap) :
    jsBufferEquals memcmp heap a.toView.arg [b.toView.arg] = true ↔
      a.toView.bytes heap = b.toView.bytes heap := by
  have hrun : jsBufferEquals memcmp heap a.toView.arg [b.toView.arg] =
      (decide (a.length = b.length) && decide (memcmp.call (a.toView.read heap 0 a.length)
        (b.toView.read heap 0 a.length) = 0)) := by
    rw [jsBufferEquals, if_neg (by simp)]
    show (match jsBufferGetBytes heap a.toView.arg, jsBufferGetBytes heap b.toView.arg with
      | some p1, some p2 => decide (p1.length = p2.length) &&
          decide (memcmp.call (p1.read heap 0 p1.length) (p2.read heap 0 p1.length) = 0)
      | _, _ => false) = _
    rw [getBytes_of_inBounds a.present, getBytes_of_inBounds b.present]
  rw [hrun, Bool.and_eq_true, decide_eq_true_iff, decide_eq_true_iff]
  constructor
  · rintro ⟨hlen, hcmp⟩
    rw [hlen, ← b.bytes_eq, ← hlen, ← a.bytes_eq] at hcmp
    exact (memcmp.orders _ _ (by rw [a.length_bytes, b.length_bytes, hlen])).zero_iff.mp hcmp
  · intro hbytes
    have hlen : a.length = b.length := by rw [← a.length_bytes, ← b.length_bytes, hbytes]
    refine ⟨hlen, ?_⟩
    rw [← a.bytes_eq, hlen, ← b.bytes_eq, hbytes]
    exact memcmp.self _

theorem compares_of_upToDate (a b c : ByteView heap) : Compares heap a.toView b.toView c.toView := by
  have hcall : ∀ (memcmp : Memcmp) (v w : ByteView heap) (n : Int),
      jsBufferCompareStatic memcmp heap [v.toView.arg, w.toView.arg] = .ok n →
        Orders n (v.toView.bytes heap) (w.toView.bytes heap) := by
    intro memcmp v w n hn
    rw [compareStatic_present memcmp v.present w.present, Outcome.ok.injEq] at hn
    rw [← hn]
    exact compareBytes_orders memcmp v w
  constructor
  · intro memcmp
    exact ⟨_, compareStatic_present memcmp a.present b.present, compareBytes_orders memcmp a b⟩
  · intro memcmp memcmp' m n hm hn
    exact (hcall memcmp a b m hm).sign_neg (hcall memcmp' b a n hn)
  · intro memcmp memcmp' memcmp'' m n k hm hn hk
    exact (hcall memcmp a b m hm).nonpos_trans (hcall memcmp' b c n hn) (hcall memcmp'' a c k hk)
  · intro memcmp memcmp'
    rw [equals_bytes_iff, compareStatic_present memcmp' a.present b.present, Outcome.ok.injEq]
    exact (compareBytes_orders memcmp' a b).zero_iff.symm
  · intro memcmp
    exact equals_bytes_iff memcmp a b
  · intro memcmp memcmp' m n hm hn
    rw [compareInst_present memcmp' a.present b.present, Outcome.ok.injEq] at hn
    rw [← hn]
    exact (hcall memcmp a b m hm).sign_eq (compareBytes_orders memcmp' a b)

theorem upToDate_of_untracked {v : View} (h : v.trackRab = false) : v.UpToDate heap := by
  intro hoob
  rw [View.byteLength, hoob, h]
  rfl

theorem fixed_bounded {v : View} (hlive : typedArrayIsOob heap v = false) :
    v.offset + v.byteLength heap ≤ maxByteLength :=
  (byteLength_fits hlive).trans (heap v.buffer).bounded

theorem fixed_present {v : View} (hlive : typedArrayIsOob heap v = false) :
    typedArrayIsOob heap ⟨v.buffer, v.offset, v.byteLength heap, false, fixed_bounded hlive⟩ = false := by
  have hfits := byteLength_fits hlive
  simp only [typedArrayIsOob, attached_of_inBounds hlive, Bool.false_eq_true, if_false,
    if_neg (by omega : ¬ v.offset > (heap v.buffer).byteLength)]
  exact decide_eq_false (by omega)

theorem fixed_upToDate {v : View} (hlive : typedArrayIsOob heap v = false) :
    View.UpToDate ⟨v.buffer, v.offset, v.byteLength heap, false, fixed_bounded hlive⟩ heap :=
  upToDate_of_untracked rfl

/-- A view of a fixed length of the bytes that a view has. -/
def View.fixed (v : View) (hlive : typedArrayIsOob heap v = false) : ByteView heap where
  buffer := v.buffer
  offset := v.offset
  length := v.byteLength heap
  trackRab := false
  bounded := fixed_bounded hlive
  present := fixed_present hlive
  upToDate := fixed_upToDate hlive

end

end QNode.Buffer
