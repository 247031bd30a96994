import QNode.Buffer.Concat
import QNode.Engine.Numbers
import QNode.Fs.Positions

/-!
# The forms of read and write

The methods of a FileHandle take their numbers one by one or in an options object.  Which form a call
has is found out by trial: an argument is asked for its ArrayBuffer first, and an object without one is
taken for options.  The objects here have no properties of their own with the names of options.
-/

open FileTree QNode.Engine QNode.Buffer Word

namespace QNode.Fs

/-- Offset, length and position of a call, each a number or left out. -/
structure Numbers where
  offset : Option JsNumber
  length : Option JsNumber
  position : Option JsNumber

inductive BufferArg
  | arrayBuffer (b : Nat)
  | typedArray (v : View)

/-- `JS_GetArrayBuffer`: the size of an ArrayBuffer that is not detached. -/
def jsGetArrayBuffer (heap : Heap) : BufferArg → Option Nat
  | .arrayBuffer b => if (heap b).detached then none else some (heap b).byteLength
  | .typedArray _ => none

/-- The value as the property `buffer` of an options object. -/
def BufferArg.property (heap : Heap) (buffer : BufferArg) : BufferProperty :=
  match jsGetArrayBuffer heap buffer with
  | some size => .arrayBuffer size
  | none => .other

/-- What an argument of `read` that is no ArrayBuffer has for options: a typed array has properties
`buffer` and `length`, a detached ArrayBuffer none. -/
def BufferArg.asOptions (heap : Heap) : BufferArg → ReadArgs
  | .arrayBuffer _ => .options .undefined none none none
  | .typedArray v =>
    .options (BufferArg.property heap (.arrayBuffer v.buffer)) none (some (Int64.ofNat (v.byteLength heap))) none

inductive CallForm
  | positional
  | options
  deriving DecidableEq, Repr

/-- The store that `read(2)` writes to. -/
inductive Store
  | given (b : Nat)
  | fresh
  deriving DecidableEq, Repr

section

variable (heap : Heap) (form : CallForm) (buffer : BufferArg) (numbers : Numbers)

def readArgs : ReadArgs :=
  let offset := numbers.offset.map jsToInt64Free
  let length := numbers.length.map jsToInt64Free
  let position := numbers.position.map jsToInt64Free
  match form with
  | .positional =>
    match jsGetArrayBuffer heap buffer with
    | some size => .arrayBuffer size offset length position
    | none => buffer.asOptions heap
  | .options => .options (buffer.property heap) offset length position

def readStore : Store :=
  match buffer with
  | .typedArray v => .given v.buffer
  | .arrayBuffer b => if form = .positional ∧ (heap b).detached then .fresh else .given b

/-- The arguments of `write` for an ArrayBuffer. -/
def writeArgs (b : Nat) : WriteArgs :=
  if (heap b).detached then .other
  else match form with
    | .positional =>
      .arrayBuffer (heap b).data (numbers.offset.map jsToInt64Free) (numbers.length.map jsToInt64Free)
        (numbers.position.map jsToInt64Free)
    | .options => .options (heap b).data

end

/-- What a call of `read` that gets as far as its system calls does: the bytes are put at an index of a
store. -/
structure Reading where
  store : Store
  index : Nat
  reply : Reply
  deriving DecidableEq, Repr

/-- A handle of an open file, as long as its `_fd` is not negative. -/
structure OpenHandle where
  file : OpenedFile
  h : Nat
  isOpen : Bool

section

variable (heap : Heap) (s : OpenHandle) (form : CallForm) (numbers : Numbers) (fate : Fate)

def readCall (buffer : BufferArg) : Except Refusal Reading × OpenedFile :=
  if s.isOpen = false then (.error (.throws (.typeError "filehandle is closed")), s.file)
  else match jsFsFhReadRequest (readArgs heap form buffer numbers) with
    | .error refusal => (.error refusal, s.file)
    | .ok request =>
      let done := sysRead (lseekTo s.file s.h request.position fate) s.h request.len fate
      (.ok ⟨readStore heap form buffer, request.offset, done.1⟩, done.2)

def writeCall (b : Nat) : Except Refusal Reply × OpenedFile :=
  if s.isOpen = false then (.error (.throws (.typeError "filehandle is closed")), s.file)
  else match jsFsFhWriteRequest (writeArgs heap form numbers b) with
    | .error refusal => (.error refusal, s.file)
    | .ok request =>
      let done := sysWrite (lseekTo s.file s.h request.position fate) s.h request.bytes fate
      (.ok done.1, done.2)

end

/-! ## The two forms -/

section

variable (heap : Heap) (s : OpenHandle) (b : Nat) (numbers : Numbers) (fate : Fate)

/-- What is expected of the two forms of a call with one ArrayBuffer. -/
structure FormsAgree : Prop where
  write : writeCall heap s .options numbers fate b = writeCall heap s .positional numbers fate b
  read : readCall heap s .options numbers fate (.arrayBuffer b) =
    readCall heap s .positional numbers fate (.arrayBuffer b)
  /-- No null pointer is used. -/
  safe : ∀ form, (writeCall heap s form numbers fate b).1 ≠ .error .crashes ∧
    (readCall heap s form numbers fate (.arrayBuffer b)).1 ≠ .error .crashes

end

section

variable {heap : Heap} {s : OpenHandle} {b : Nat} {numbers : Numbers} {fate : Fate}

-- The two forms of a read agree as long as there are bytes.
theorem readCall_attached (h : (heap b).detached = false) :
    readCall heap s .options numbers fate (.arrayBuffer b) =
      readCall heap s .positional numbers fate (.arrayBuffer b) := by
  have hsize : jsGetArrayBuffer heap (.arrayBuffer b) = some (heap b).byteLength := by
    rw [jsGetArrayBuffer, h]
    rfl
  have hrequest : jsFsFhReadRequest (readArgs heap .options (.arrayBuffer b) numbers) =
      jsFsFhReadRequest (readArgs heap .positional (.arrayBuffer b) numbers) := by
    unfold readArgs BufferArg.property
    rw [hsize]
    rfl
  have hstore : readStore heap .options (.arrayBuffer b) = readStore heap .positional (.arrayBuffer b) := by
    simp [readStore, h]
  unfold readCall
  rw [hrequest, hstore]

theorem writeCall_options_crashes (hopen : s.isOpen) (h : (heap b).detached = false) :
    (writeCall heap s .options numbers fate b).1 = .error .crashes := by
  unfold writeCall writeArgs
  rw [if_neg (by simp [hopen]), h]
  rfl

-- A detached ArrayBuffer in first place of a read is an empty options object.
theorem readCall_detached (hopen : s.isOpen) (h : (heap b).detached) :
    readCall heap s .options numbers fate (.arrayBuffer b) ≠
      readCall heap s .positional numbers fate (.arrayBuffer b) := by
  have hnone : jsGetArrayBuffer heap (.arrayBuffer b) = none := by
    rw [jsGetArrayBuffer, h]
    rfl
  have hrefused : (readCall heap s .options numbers fate (.arrayBuffer b)).1 =
      .error (.throws (.typeError "invalid buffer")) := by
    unfold readCall readArgs BufferArg.property
    rw [if_neg (by simp [hopen]), hnone]
    rfl
  have hreads : ∃ reading, (readCall heap s .positional numbers fate (.arrayBuffer b)).1 = .ok reading := by
    unfold readCall readArgs
    rw [if_neg (by simp [hopen]), hnone]
    exact ⟨_, rfl⟩
  intro heq
  obtain ⟨reading, hreading⟩ := hreads
  rw [heq, hreading] at hrefused
  cases hrefused

end

/-- The expectation is met only on a closed handle, where all calls throw. -/
theorem callForms_agree_iff (heap : Heap) (s : OpenHandle) (b : Nat) (numbers : Numbers) (fate : Fate) :
    FormsAgree heap s b numbers fate ↔ s.isOpen = false := by
  constructor
  · intro h
    by_contra hclosed
    have hopen : s.isOpen := by simpa using hclosed
    cases hdetached : (heap b).detached with
    | true => exact readCall_detached hopen hdetached h.read
    | false => exact (h.safe .options).1 (writeCall_options_crashes hopen hdetached)
  · intro hclosed
    have hwrite : ∀ form, writeCall heap s form numbers fate b =
        (.error (.throws (.typeError "filehandle is closed")), s.file) := fun _ ↦ if_pos hclosed
    have hread : ∀ form, readCall heap s form numbers fate (.arrayBuffer b) =
        (.error (.throws (.typeError "filehandle is closed")), s.file) := fun _ ↦ if_pos hclosed
    refine ⟨?_, ?_, fun form ↦ ⟨?_, ?_⟩⟩
    · rw [hwrite, hwrite]
    · rw [hread, hread]
    · rw [hwrite]
      exact nofun
    · rw [hread]
      exact nofun

/-- Eight bytes, all zero. -/
def eightZeros : ArrayBuffer := ⟨some (List.replicate 8 0), by decide⟩

/-- A handle at the start of a file. -/
def openHandleOn (content : List UInt8) : OpenHandle := ⟨⟨content, fun _ ↦ 0, fun _ ↦ false⟩, 0, true⟩

/-- `write(b, {})` goes through a null pointer. -/
theorem writeOptions_crash : ¬ FormsAgree (fun _ ↦ eightZeros) (openHandleOn []) 0 ⟨none, none, none⟩
    ⟨true, .ok 8⟩ :=
  fun h ↦ (h.safe .options).1 (writeCall_options_crashes rfl rfl)

/-! ## Typed arrays -/

section

variable (heap : Heap) (s : OpenHandle) (v : View) (off len pos : JsNumber) (fate : Fate)

/-- What is expected of a read into a typed array: a transfer starts at the position, or where the handle
stands if that is negative, and its byte `j` goes to element `off + j`, one of `off..off + len`. -/
def IntoView (call : Except Refusal Reading) : Prop :=
  ∀ store index start bytes, call = .ok ⟨store, index, .fulfilled start bytes⟩ →
    start = (if 0 ≤ (jsToInt64Free pos).toInt then (jsToInt64Free pos).toInt.toNat
      else s.file.position s.h) ∧
    ∀ j < bytes.length, store = .given v.buffer ∧
      (index + j : Int) = v.offset + ((jsToInt64Free off).toInt + j) ∧
      0 ≤ (jsToInt64Free off).toInt ∧ j < (jsToInt64Free len).toInt ∧
      (jsToInt64Free off).toInt + j < v.byteLength heap

/-- Both forms of the call for a view. -/
def ViewKept : Prop :=
  ∀ form, IntoView heap s v off len pos
    (readCall heap s form ⟨some off, some len, some pos⟩ fate (.typedArray v)).1

/-- How many bytes there are from where the handle stands, up to the length of the view. -/
def plainCount (count : Nat) : Nat :=
  min count (min (v.byteLength heap) (s.file.content.length - s.file.position s.h))

/-- The call fails, or it is for the current position, and if there are bytes to transfer, for the first
elements of a view from the start of its store. -/
def ViewSafe : Prop :=
  s.isOpen = false ∨ (heap v.buffer).detached ∨ (∃ err, fate.transfer = .error err) ∨
    ∃ count, fate.transfer = .ok count ∧
      ((jsToInt64Free pos).toInt < 0 ∨ (jsToInt64Free pos).toInt = s.file.position s.h) ∧
      (plainCount heap s v count = 0 ∨ v.offset = 0 ∧ (jsToInt64Free off).toInt = 0 ∧
        plainCount heap s v count ≤ (jsToInt64Free len).toInt)

end

section

variable {heap : Heap} {s : OpenHandle} {v : View} {numbers : Numbers} {fate : Fate} {off len pos : JsNumber}

theorem intoView_refused {refusal : Refusal} : IntoView heap s v off len pos (.error refusal) := nofun

theorem intoView_rejected {store : Store} {index : Nat} {err : Errno} :
    IntoView heap s v off len pos (.ok ⟨store, index, .rejected err⟩) := nofun

-- As a property `buffer` a typed array is refused.
theorem readCall_view_options :
    ∃ refusal, (readCall heap s .options numbers fate (.typedArray v)).1 = .error refusal := by
  unfold readCall
  split
  · exact ⟨_, rfl⟩
  · exact ⟨_, rfl⟩

theorem view_le_store : v.byteLength heap ≤ (heap v.buffer).byteLength := by
  cases hoob : typedArrayIsOob heap v with
  | true =>
    rw [byteLength_dead hoob]
    exact Nat.zero_le _
  | false => exact Nat.le_trans (Nat.le_add_left _ _) (byteLength_fits hoob)

theorem readRange_view {size n : Nat} (hle : n ≤ size) (hsize : size ≤ maxByteLength) :
    readRange size none (some (Int64.ofNat n)) none = .ok ⟨0, n, -1⟩ := by
  have hlen : numberOr (some (Int64.ofNat n)) (restLength size (numberOr none 0)) = n := by
    unfold maxByteLength at hsize
    exact Int64.toInt_ofNat_of_lt (by omega)
  have hfits : rangeFits size (numberOr none 0) n = true := by
    have hsum : sizeT (numberOr none 0 + n) = n := by
      unfold maxByteLength at hsize
      exact (congrArg sizeT (Int.zero_add (n : Int))).trans (sizeT_natCast (by omega))
    unfold rangeFits
    rw [hsum, decide_eq_true_iff]
    simp [numberOr]
    omega
  unfold readRange
  dsimp only
  rw [hlen, if_pos hfits]
  rfl

/-- In first place it is taken for options, which read as many bytes as it has elements from where the
handle stands to the start of its store. -/
theorem readCall_view (hopen : s.isOpen) (h : (heap v.buffer).detached = false) :
    (readCall heap s .positional numbers fate (.typedArray v)).1 =
      .ok ⟨.given v.buffer, 0, (sysRead s.file s.h (v.byteLength heap) fate).1⟩ := by
  have hsize : jsGetArrayBuffer heap (.arrayBuffer v.buffer) = some (heap v.buffer).byteLength := by
    rw [jsGetArrayBuffer, h]
    rfl
  have hrequest : jsFsFhReadRequest (readArgs heap .positional (.typedArray v) numbers) =
      .ok ⟨0, v.byteLength heap, -1⟩ := by
    rw [← readRange_view view_le_store (heap v.buffer).bounded]
    show jsFsFhReadRequest (.options (BufferArg.property heap (.arrayBuffer v.buffer)) _ _ _) = _
    rw [BufferArg.property, hsize]
    rfl
  unfold readCall
  rw [if_neg (by simp [hopen]), hrequest]
  rfl

theorem readCall_view_detached (h : (heap v.buffer).detached) :
    ∃ refusal, (readCall heap s .positional numbers fate (.typedArray v)).1 = .error refusal := by
  have hnone : jsGetArrayBuffer heap (.arrayBuffer v.buffer) = none := by
    rw [jsGetArrayBuffer, h]
    rfl
  have hrequest : jsFsFhReadRequest (readArgs heap .positional (.typedArray v) numbers) =
      .error (.throws (.typeError "invalid buffer")) := by
    show jsFsFhReadRequest (.options (BufferArg.property heap (.arrayBuffer v.buffer)) _ _ _) = _
    rw [BufferArg.property, hnone]
    rfl
  unfold readCall
  split
  · exact ⟨_, rfl⟩
  · rw [hrequest]
    exact ⟨_, rfl⟩

theorem sysRead_fulfilled {count n : Nat} (h : fate.transfer = .ok count) :
    ∃ bytes, (sysRead s.file s.h n fate).1 = .fulfilled (s.file.position s.h) bytes ∧
      bytes.length = min count (min n (s.file.content.length - s.file.position s.h)) := by
  unfold sysRead
  rw [h]
  exact ⟨_, rfl, length_transferred _ _ _ _⟩

-- What becomes of a transfer of some bytes to the start of the store.
theorem intoView_start_iff {start : Nat} {bytes : List UInt8} (hlen : bytes.length ≤ v.byteLength heap) :
    IntoView heap s v off len pos (.ok ⟨.given v.buffer, 0, .fulfilled start bytes⟩) ↔
      start = (if 0 ≤ (jsToInt64Free pos).toInt then (jsToInt64Free pos).toInt.toNat
        else s.file.position s.h) ∧
      (bytes.length = 0 ∨ v.offset = 0 ∧ (jsToInt64Free off).toInt = 0 ∧
        bytes.length ≤ (jsToInt64Free len).toInt) := by
  unfold IntoView
  constructor
  · intro h
    obtain ⟨hstart, hplace⟩ := h _ 0 start bytes rfl
    refine ⟨hstart, ?_⟩
    by_cases hnone : bytes.length = 0
    · exact .inl hnone
    · obtain ⟨-, hfirst, hoff, -, -⟩ := hplace 0 (Nat.pos_of_ne_zero hnone)
      obtain ⟨-, -, -, hlast, -⟩ := hplace (bytes.length - 1) (by omega)
      exact .inr ⟨by omega, by omega, by omega⟩
  · rintro ⟨hstart, hplace⟩ store index start' bytes' heq
    obtain ⟨rfl, rfl, hreply⟩ := Reading.mk.inj (Except.ok.inj heq)
    obtain ⟨rfl, rfl⟩ := Reply.fulfilled.inj hreply
    refine ⟨hstart, fun j hj ↦ ?_⟩
    rcases hplace with hnone | ⟨hoffset, hoff, hbound⟩
    · omega
    · exact ⟨rfl, by omega, by omega, by omega, by omega⟩

end

/-- The expectation is met precisely if the call fails, or the position given is where the handle stands
(or none is), and no byte is transferred or the first elements of a view from the start of its store are
asked for. -/
theorem readView_kept_iff (heap : Heap) (s : OpenHandle) (v : View) (off len pos : JsNumber) (fate : Fate) :
    ViewKept heap s v off len pos fate ↔ ViewSafe heap s v off len pos fate := by
  have hforms : ViewKept heap s v off len pos fate ↔ IntoView heap s v off len pos
      (readCall heap s .positional ⟨some off, some len, some pos⟩ fate (.typedArray v)).1 := by
    refine ⟨fun h ↦ h .positional, fun h form ↦ ?_⟩
    cases form with
    | positional => exact h
    | options =>
      obtain ⟨refusal, hrefused⟩ := @readCall_view_options heap s v ⟨some off, some len, some pos⟩ fate
      rw [hrefused]
      exact intoView_refused
  rw [hforms]
  by_cases hclosed : s.isOpen = false
  · rw [readCall, if_pos hclosed]
    exact iff_of_true intoView_refused (.inl hclosed)
  by_cases hdetached : (heap v.buffer).detached
  · obtain ⟨refusal, hrefused⟩ := readCall_view_detached hdetached
    rw [hrefused]
    exact iff_of_true intoView_refused (.inr (.inl hdetached))
  rw [readCall_view (by simpa using hclosed) (by simpa using hdetached)]
  unfold ViewSafe
  rw [or_iff_right hclosed, or_iff_right hdetached]
  cases hfate : fate.transfer with
  | error err =>
    rw [sysRead, hfate]
    exact iff_of_true intoView_rejected (.inl ⟨err, rfl⟩)
  | ok count =>
    obtain ⟨bytes, hreply, hlen⟩ := @sysRead_fulfilled s fate count (v.byteLength heap) hfate
    have hplain : bytes.length = plainCount heap s v count := hlen
    rw [hreply, intoView_start_iff (by omega), hplain]
    simp only [reduceCtorEq, exists_false, false_or, Except.ok.injEq, exists_eq_left']
    refine and_congr_left' ?_
    split <;> omega

/-- The last four of eight bytes. -/
def lastFour : View := ⟨0, 4, 4, false, by decide⟩

/-- `read(v, 0, 4, 0)` of a view of the last four bytes of a store changes the first four. -/
theorem readView_misplaced : ¬ ViewKept (fun _ ↦ eightZeros) (openHandleOn [97, 98, 99, 100]) lastFour
    (.int 0) (.int 4) (.int 0) ⟨true, .ok 4⟩ := by
  intro h
  obtain ⟨-, hplace⟩ := h .positional (.given 0) 0 0 [97, 98, 99, 100] (by decide)
  obtain ⟨-, hindex, -⟩ := hplace 0 (by decide)
  revert hindex
  decide

end QNode.Fs
