import QNode.Buffer.Accessors
import QNode.Library.Mirror

/-!
# swap16, swap32 and swap64

One routine mirrors the elements of a Buffer in place.  Reading an element after the swap in one
order of bytes is reading it before the swap in the other.
-/

open QNode.Engine Word Splice Mirror

namespace QNode.Buffer

/-- The outer loop visits each element, the inner one exchanges `elem_size / 2` pairs of it. -/
def jsBufferSwap (elemSize : Nat) (heap : Heap) (this : JsArg) : Ran Unit :=
  match jsBufferGetBytes heap this with
  | none => ⟨.throw (.typeError "not a Buffer"), heap, []⟩
  | some p =>
    let len := p.length
    if len % elemSize ≠ 0 then
      ⟨.throw (.rangeError s!"Buffer size must be a multiple of {elemSize}"), heap, []⟩
    else
      ⟨.ok (), p.write heap 0 (mirrorBlocks elemSize (len / elemSize) (p.read heap 0 len)),
        [p.access heap 0 len]⟩

inductive Swap
  | swap16 | swap32 | swap64
  deriving DecidableEq, Repr

namespace Swap

/-- The size of an element in bytes, as `js_buffer_init` registers the method. -/
def magic : Swap → Nat
  | swap16 => 2
  | swap32 => 4
  | swap64 => 8

def call (s : Swap) : Heap → JsArg → Ran Unit := jsBufferSwap s.magic

variable (s : Swap) {heap : Heap} (this : LiveView heap)

/-- The bytes of a Buffer with every element mirrored. -/
def swapped : List UInt8 :=
  mirrorBlocks s.magic (this.length / s.magic) (this.toView.read heap 0 this.length)

theorem call_odd (h : ¬ s.magic ∣ this.length) :
    s.call heap this.toView.arg =
      ⟨.throw (.rangeError s!"Buffer size must be a multiple of {s.magic}"), heap, []⟩ := by
  rw [call, jsBufferSwap, this.getBytes]
  dsimp only
  rw [if_pos (mt Nat.dvd_of_mod_eq_zero h)]

theorem call_even (h : s.magic ∣ this.length) :
    s.call heap this.toView.arg =
      ⟨.ok (), this.toView.write heap 0 (s.swapped this),
        [this.toView.access heap 0 this.length]⟩ := by
  rw [call, jsBufferSwap, this.getBytes]
  dsimp only
  rw [if_neg (by rw [Nat.mod_eq_zero_of_dvd h]; decide)]
  rfl

theorem length_swapped : (s.swapped this).length = this.length := by
  rw [swapped, length_mirrorBlocks, this.length_read]

theorem swapped_fits :
    this.offset + 0 + (s.swapped this).length ≤ (heap this.buffer).byteLength := by
  have hinside := this.inside
  rw [length_swapped]
  omega

/-- The Buffer after the swap. -/
def after : LiveView (this.toView.write heap 0 (s.swapped this)) :=
  this.afterWrite this.toView 0 (s.swapped this)

theorem blocks_fit (h : s.magic ∣ this.length) :
    this.length / s.magic * s.magic = this.length := Nat.div_mul_cancel h

-- Every position now holds what its mirror image held.
theorem byteAt_swapped (h : s.magic ∣ this.length) {x : Nat} (hx : x < this.length) :
    this.toView.byteAt (this.toView.write heap 0 (s.swapped this)) x =
      this.toView.byteAt heap (mirror s.magic x) := by
  have hblocks := s.blocks_fit this h
  have hmirror : mirror s.magic x < this.length := by
    rw [← hblocks] at hx ⊢
    exact mirror_lt hx
  have hinside := View.write_inside (s.swapped_fits this)
    (show x < (s.swapped this).length by rw [length_swapped]; exact hx)
  rw [Nat.zero_add] at hinside
  rw [hinside, swapped, getElem?_mirrorBlocks (by rw [this.length_read, hblocks]),
    hblocks, if_pos hx, View.read_getElem? hmirror, Nat.zero_add]

-- Swapping twice writes the old bytes back.
theorem swapped_after (h : s.magic ∣ this.length) :
    s.swapped (s.after this) = this.toView.read heap 0 this.length := by
  have hblocks := s.blocks_fit this h
  have hback := this.read_write
    (show 0 + (s.swapped this).length ≤ this.length by rw [length_swapped, Nat.zero_add])
  rw [length_swapped] at hback
  show mirrorBlocks s.magic (this.length / s.magic)
    (this.toView.read (this.toView.write heap 0 (s.swapped this)) 0 this.length) = _
  rw [hback, swapped]
  exact mirrorBlocks_mirrorBlocks (by rw [this.length_read, hblocks])

theorem call_call (h : s.magic ∣ this.length) :
    (s.call (s.call heap this.toView.arg).heap this.toView.arg).heap = heap := by
  have hagain := s.call_even (s.after this) h
  have hrestore := View.write_restore (s.swapped_fits this)
  rw [length_swapped] at hrestore
  rw [call_even s this h]
  apply (congrArg Ran.heap hagain).trans
  show this.toView.write (this.toView.write heap 0 (s.swapped this)) 0 (s.swapped (s.after this)) =
    heap
  rw [swapped_after s this h, hrestore]

-- An element read after the swap is the element read before it with its bytes reversed.
theorem read_element (h : s.magic ∣ this.length) {off : Nat} (halign : s.magic ∣ off)
    (hoff : off + s.magic ≤ this.length) :
    this.toView.read (this.toView.write heap 0 (s.swapped this)) off s.magic =
      (this.toView.read heap off s.magic).reverse := by
  have hinside := this.inside
  have hlen : (this.toView.read heap off s.magic).length = s.magic := View.read_length (by omega)
  obtain ⟨q, rfl⟩ := halign
  apply List.ext_getElem?
  intro i
  by_cases hi : i < s.magic
  · have hmirror := mirror_block (q := q) hi
    rw [Nat.mul_comm] at hmirror
    rw [View.read_getElem? hi, byteAt_swapped s this h (by omega), hmirror,
      List.getElem?_reverse (by rw [hlen]; exact hi), hlen, View.read_getElem? (by omega)]
  · rw [List.getElem?_eq_none (by rw [View.read_length (by rw [View.write_byteLength]; omega)]; omega),
      List.getElem?_eq_none (by rw [List.length_reverse, hlen]; omega)]

-- The two orders of bytes change places.
theorem read_swapped (h : s.magic ∣ this.length) {be le : UIntAccessor} (hbe : be.bits = 8 * s.magic)
    (hle : le.bits = 8 * s.magic) (hbig : be.bigEndian = true) (hlittle : le.bigEndian = false)
    {off : Int64} (halign : (s.magic : Int) ∣ off.toInt) :
    (be.read (s.call heap this.toView.arg).heap this.toView.arg [.number off]).result =
      (le.read heap this.toView.arg [.number off]).result := by
  have hwidth : 8 * s.magic / 8 = s.magic := Nat.mul_div_cancel_left _ (by decide)
  have hafter := be.read_call (s.after this) off
  have hbefore := le.read_call this off
  have hiff : be.OutOfRange (s.after this) off ↔ le.OutOfRange this off := by
    rw [UIntAccessor.OutOfRange, UIntAccessor.OutOfRange, hbe, hle]
    exact Iff.rfl
  rw [call_even s this h]
  by_cases hout : le.OutOfRange this off
  · rw [if_pos (hiff.mpr hout)] at hafter
    rw [hbefore, if_pos hout]
    apply (congrArg Ran.result hafter).trans
    rfl
  · rw [if_neg (mt hiff.mp hout)] at hafter
    rw [hbefore, if_neg hout]
    apply (congrArg Ran.result hafter).trans
    rw [UIntAccessor.OutOfRange, hle, hwidth] at hout
    have halign' : s.magic ∣ off.toInt.toNat := by
      rw [← Int.natCast_dvd_natCast, Int.toNat_of_nonneg (by omega)]
      exact halign
    have helement := s.read_element this h halign' (by omega)
    show Outcome.ok (int32 (be.value (this.toView.read (this.toView.write heap 0 (s.swapped this))
      off.toInt.toNat (be.bits / 8)) : Nat)) = _
    rw [hbe, hle, hwidth, helement, UIntAccessor.value, UIntAccessor.value, hbig, hlittle,
      if_pos rfl, List.reverse_reverse]
    rfl

end Swap

end QNode.Buffer
