import QNode.Fs.FileHandle
import QNode.Library.FileTree
import QNode.Library.Runs
import QNode.Library.Splice

/-!
# Positions in an open file

Each handle has a current position in the file, which `lseek` sets and every transfer moves.  A call with
a position seeks first and then transfers like any other; whether the seek succeeded is not looked at.
-/

open FileTree Splice

namespace QNode.Fs

/-- A regular file and the open handles on it: their positions, and whether they append. -/
@[ext]
structure OpenedFile where
  content : List UInt8
  position : Nat → Nat
  appends : Nat → Bool

namespace OpenedFile

def moveTo (s : OpenedFile) (h pos : Nat) : OpenedFile :=
  { s with position := Function.update s.position h pos }

@[simp] theorem moveTo_position (s : OpenedFile) (h pos : Nat) : (s.moveTo h pos).position h = pos :=
  Function.update_self ..

theorem moveTo_position_ne {s : OpenedFile} {h h' pos : Nat} (hne : h' ≠ h) :
    (s.moveTo h pos).position h' = s.position h' :=
  Function.update_of_ne hne ..

end OpenedFile

/-- How a call ends: without a system call, with a rejected promise, or with the bytes it transferred
and where in the file they are. -/
inductive Reply
  | refused
  | rejected (errno : Errno)
  | fulfilled (start : Nat) (bytes : List UInt8)
  deriving DecidableEq, Repr

/-- What the system does with a call: whether a seek succeeds, and the error of the transfer or the most
bytes that it transfers. -/
structure Fate where
  seeks : Bool
  transfer : Except Errno Nat

/-- `lseek(fd, position, SEEK_SET)` if there is a position. -/
def lseekTo (s : OpenedFile) (h : Nat) (position : Int) (fate : Fate) : OpenedFile :=
  if position ≥ 0 ∧ fate.seeks then s.moveTo h position.toNat else s

def sysRead (s : OpenedFile) (h n : Nat) (fate : Fate) : Reply × OpenedFile :=
  match fate.transfer with
  | .error err => (.rejected err, s)
  | .ok count =>
    let bytes := (slice s.content (s.position h) n).take count
    (.fulfilled (s.position h) bytes, s.moveTo h (s.position h + bytes.length))

/-- A file after bytes are written at a position, which may be past its end. -/
def overwrite (content : List UInt8) (start : Nat) (bytes : List UInt8) : List UInt8 :=
  splice (content ++ List.replicate (start - content.length) 0) start bytes

def sysWrite (s : OpenedFile) (h : Nat) (data : List UInt8) (fate : Fate) : Reply × OpenedFile :=
  match fate.transfer with
  | .error err => (.rejected err, s)
  | .ok count =>
    let bytes := data.take count
    let start := if s.appends h ∧ bytes ≠ [] then s.content.length else s.position h
    (.fulfilled start bytes,
      { s with content := if bytes = [] then s.content else overwrite s.content start bytes }.moveTo h
        (start + bytes.length))

/-- A call of `read` or `write` on one of the handles. -/
inductive Transfer
  | read (h : Nat) (args : ReadArgs) (fate : Fate)
  | write (h : Nat) (args : WriteArgs) (fate : Fate)

namespace Transfer

def handle : Transfer → Nat
  | read h _ _ | write h _ _ => h

def isRead : Transfer → Bool
  | read _ _ _ => true
  | write _ _ _ => false

/-- The position given to a call that gets as far as its system calls. -/
def position : Transfer → Option Nat
  | read _ args _ =>
    match jsFsFhReadRequest args with
    | .ok request => if request.position ≥ 0 then some request.position.toNat else none
    | .error _ => none
  | write _ args _ =>
    match jsFsFhWriteRequest args with
    | .ok request => if request.position ≥ 0 then some request.position.toNat else none
    | .error _ => none

/-- The call with its system calls. -/
def perform (s : OpenedFile) : Transfer → Reply × OpenedFile
  | read h args fate =>
    match jsFsFhReadRequest args with
    | .error _ => (.refused, s)
    | .ok request => sysRead (lseekTo s h request.position fate) h request.len fate
  | write h args fate =>
    match jsFsFhWriteRequest args with
    | .error _ => (.refused, s)
    | .ok request => sysWrite (lseekTo s h request.position fate) h request.bytes fate

end Transfer

def stepTransfer (s : OpenedFile) (e : Transfer) : Option OpenedFile := some (e.perform s).2

/-! ## What a position promises -/

/-- A call with a position transfers bytes there, or its promise is rejected, and the current position of
its handle is what it was. -/
def PositionKept (s : OpenedFile) (e : Transfer) (s' : OpenedFile) : Prop :=
  ∀ p, e.position = some p →
    (∀ start bytes, (e.perform s).1 = .fulfilled start bytes → start = p) ∧
      s'.position e.handle = s.position e.handle

/-- When a transfer at position `p` ends where the handle stood before: `k` is the number of bytes that
it transfers, and `placed` says that it takes place there. -/
def EndsInPlace (pos p k : Nat) (placed : Prop) : Prop := placed ∧ p + k = pos

/-- A read at position `p` that keeps the promise.  A failed one may not have sought to another position;
a successful one ends at the current position, and the seek succeeds or is not needed. -/
def ReadInPlace (s : OpenedFile) (h p len : Nat) (fate : Fate) : Prop :=
  match fate.transfer with
  | .error _ => fate.seeks → p = s.position h
  | .ok count =>
    EndsInPlace (s.position h) p (min count (min len (s.content.length - p)))
      (fate.seeks ∨ p = s.position h)

/-- The same for a write.  Where the handle appends, the bytes go to the end of the file. -/
def WriteInPlace (s : OpenedFile) (h p len : Nat) (fate : Fate) : Prop :=
  match fate.transfer with
  | .error _ => fate.seeks → p = s.position h
  | .ok count =>
    EndsInPlace (s.position h) p (min count len)
      (if s.appends h ∧ min count len ≠ 0 then p = s.content.length
        else fate.seeks ∨ p = s.position h)

/-- The calls that keep the promise: those without a position, and those that end in place. -/
def PositionSafe (s : OpenedFile) (e : Transfer) : Prop :=
  ∀ p, e.position = some p →
    match e with
    | .read h args fate =>
      ∀ request, jsFsFhReadRequest args = .ok request → ReadInPlace s h p request.len fate
    | .write h args fate =>
      ∀ request, jsFsFhWriteRequest args = .ok request →
        WriteInPlace s h p request.bytes.length fate

/-- What a position-less read on a handle returns, and from where. -/
def plainRead (h : Nat) (s : OpenedFile) (e : Transfer) : Option (Nat × List UInt8) :=
  match (e.perform s).1 with
  | .fulfilled start bytes =>
    if e.handle = h ∧ e.isRead ∧ e.position = none then some (start, bytes) else none
  | _ => none

/-- What the position-less reads on a handle return in a run. -/
def plainReads (h : Nat) : OpenedFile → List Transfer → List (Nat × List UInt8)
  | _, [] => []
  | s, e :: es => (plainRead h s e).toList ++ plainReads h (e.perform s).2 es

/-- Pieces of a file, each of which begins where the one before ends. -/
def Contiguous : Nat → List (Nat × List UInt8) → Prop
  | _, [] => True
  | pos, (start, bytes) :: rest => start = pos ∧ Contiguous (pos + bytes.length) rest

/-- No call of the run moves the handle on by a write without a position. -/
def OnlyReadsMove (h : Nat) (es : List Transfer) : Prop :=
  ∀ e ∈ es, e.handle = h → e.position = none → e.isRead

/-- What a run promises of the calls with a position and of the position-less reads beside them.  While
the file is only read, these return a stretch of its content, the same without the calls in between. -/
structure PositionsIndependent (s : OpenedFile) (es : List Transfer) : Prop where
  kept : Runs.Along stepTransfer PositionKept s es
  contiguous : ∀ h, OnlyReadsMove h es → Contiguous (s.position h) (plainReads h s es)
  stretch : ∀ h, (∀ e ∈ es, e.isRead) →
    (plainReads h s es).flatMap Prod.snd =
      slice s.content (s.position h) ((plainReads h s es).flatMap Prod.snd).length
  unaffected : ∀ h, (∀ e ∈ es, e.isRead) →
    plainReads h s es = plainReads h s (es.filter fun e ↦ e.position = none)

/-! ## One call -/

section

variable {s : OpenedFile} {h n p : Nat} {data : List UInt8} {fate : Fate} {position : Int}

theorem lseekTo_position (hposition : position = p) :
    (lseekTo s h position fate).position h = if fate.seeks then p else s.position h := by
  subst hposition
  unfold lseekTo
  by_cases hseeks : fate.seeks
  · rw [if_pos ⟨Int.natCast_nonneg p, hseeks⟩, if_pos hseeks, OpenedFile.moveTo_position,
      Int.toNat_natCast]
  · rw [if_neg (fun h ↦ hseeks h.2), if_neg hseeks]

theorem lseekTo_content : (lseekTo s h position fate).content = s.content := by
  unfold lseekTo
  split <;> rfl

theorem lseekTo_appends : (lseekTo s h position fate).appends = s.appends := by
  unfold lseekTo
  split <;> rfl

theorem length_transferred (content : List UInt8) (start n count : Nat) :
    ((slice content start n).take count).length = min count (min n (content.length - start)) := by
  rw [List.length_take, slice, List.length_take, List.length_drop]

theorem fulfilled_at_iff {start : Nat} {bytes : List UInt8} :
    (∀ start' bytes', Reply.fulfilled start bytes = .fulfilled start' bytes' → start' = p) ↔
      start = p := by
  constructor
  · intro hall
    exact hall start bytes rfl
  · intro hstart start' bytes' heq
    rw [Reply.fulfilled.injEq] at heq
    exact heq.1.symm.trans hstart

-- A transfer of `k` bytes from where the seek leads; `k` may depend on where that is.
theorem sought_iff {pos : Nat} (k : Nat → Nat) :
    ((if fate.seeks then p else pos) = p ∧
      (if fate.seeks then p else pos) + k (if fate.seeks then p else pos) = pos) ↔
    EndsInPlace pos p (k p) (fate.seeks ∨ p = pos) := by
  unfold EndsInPlace
  by_cases hseeks : fate.seeks
  · simp [hseeks]
  · rw [if_neg hseeks]
    constructor
    · rintro ⟨rfl, hend⟩
      exact ⟨.inr rfl, hend⟩
    · rintro ⟨hseek | rfl, hend⟩
      · exact absurd hseek hseeks
      · exact ⟨rfl, hend⟩

theorem lseekTo_kept_iff (hposition : position = p) :
    (lseekTo s h position fate).position h = s.position h ↔ (fate.seeks → p = s.position h) := by
  rw [lseekTo_position hposition]
  by_cases hseeks : fate.seeks
  · simp [hseeks]
  · simp [hseeks]

theorem sysRead_kept_iff (hposition : position = p) :
    ((∀ start bytes, (sysRead (lseekTo s h position fate) h n fate).1 = .fulfilled start bytes →
        start = p) ∧
      (sysRead (lseekTo s h position fate) h n fate).2.position h = s.position h) ↔
    ReadInPlace s h p n fate := by
  unfold sysRead ReadInPlace
  cases fate.transfer with
  | error err =>
    simp only [reduceCtorEq, false_implies, implies_true, true_and]
    exact lseekTo_kept_iff hposition
  | ok count =>
    dsimp only
    rw [fulfilled_at_iff, OpenedFile.moveTo_position, length_transferred, lseekTo_content,
      lseekTo_position hposition]
    exact sought_iff fun start ↦ min count (min n (s.content.length - start))

theorem sysWrite_kept_iff (hposition : position = p) :
    ((∀ start bytes, (sysWrite (lseekTo s h position fate) h data fate).1 = .fulfilled start bytes →
        start = p) ∧
      (sysWrite (lseekTo s h position fate) h data fate).2.position h = s.position h) ↔
    WriteInPlace s h p data.length fate := by
  unfold sysWrite WriteInPlace
  cases fate.transfer with
  | error err =>
    simp only [reduceCtorEq, false_implies, implies_true, true_and]
    exact lseekTo_kept_iff hposition
  | ok count =>
    have hempty : data.take count ≠ [] ↔ min count data.length ≠ 0 := by
      rw [← List.length_take, ne_eq, ne_eq, List.length_eq_zero_iff]
    dsimp only
    rw [fulfilled_at_iff, OpenedFile.moveTo_position, List.length_take, lseekTo_appends,
      lseekTo_content, lseekTo_position hposition]
    simp only [hempty]
    by_cases hend : s.appends h ∧ min count data.length ≠ 0
    · rw [if_pos hend, if_pos hend]
      constructor
      · rintro ⟨rfl, hkept⟩
        exact ⟨rfl, hkept⟩
      · rintro ⟨rfl, hkept⟩
        exact ⟨rfl, hkept⟩
    · rw [if_neg hend, if_neg hend]
      exact sought_iff fun _ ↦ min count data.length

theorem position_of_request {request : Int} {p : Nat}
    (h : (if request ≥ 0 then some request.toNat else none) = some p) : request = p := by
  split at h
  case isTrue hnonneg =>
    rw [← Option.some.inj h, Int.toNat_of_nonneg hnonneg]
  case isFalse => exact absurd h (by simp)

end

theorem positionKept_iff (s : OpenedFile) (e : Transfer) :
    PositionKept s e (e.perform s).2 ↔ PositionSafe s e := by
  refine forall_congr' fun p ↦ imp_congr_right fun hp ↦ ?_
  cases e with
  | read h args fate =>
    unfold Transfer.position at hp
    unfold Transfer.perform
    dsimp only at hp ⊢
    cases hrequest : jsFsFhReadRequest args with
    | error refusal => simp [hrequest] at hp
    | ok request =>
      rw [hrequest] at hp
      simp only [Except.ok.injEq, forall_eq']
      exact sysRead_kept_iff (position_of_request hp)
  | write h args fate =>
    unfold Transfer.position at hp
    unfold Transfer.perform
    dsimp only at hp ⊢
    cases hrequest : jsFsFhWriteRequest args with
    | error refusal => simp [hrequest] at hp
    | ok request =>
      rw [hrequest] at hp
      simp only [Except.ok.injEq, forall_eq']
      exact sysWrite_kept_iff (position_of_request hp)

/-! ## Position-less reads -/

section

variable {s s' : OpenedFile} {h : Nat} {e : Transfer} {es : List Transfer}

theorem sysRead_cases (s : OpenedFile) (h n : Nat) (fate : Fate) :
    (∃ err, sysRead s h n fate = (.rejected err, s)) ∨
    ∃ bytes, bytes = slice s.content (s.position h) bytes.length ∧
      sysRead s h n fate =
        (.fulfilled (s.position h) bytes, s.moveTo h (s.position h + bytes.length)) := by
  unfold sysRead
  cases fate.transfer with
  | error err => exact .inl ⟨err, rfl⟩
  | ok count =>
    refine .inr ⟨_, ?_, rfl⟩
    rw [length_transferred, slice, slice, List.take_take, List.take_eq_take_iff, List.length_drop]
    omega

theorem lseekTo_position_ne {h' : Nat} {position : Int} {fate : Fate} (hne : h' ≠ h) :
    (lseekTo s h position fate).position h' = s.position h' := by
  unfold lseekTo
  split
  · exact OpenedFile.moveTo_position_ne hne
  · rfl

theorem sysRead_position_ne {h' n : Nat} {fate : Fate} (hne : h' ≠ h) :
    (sysRead s h n fate).2.position h' = s.position h' := by
  unfold sysRead
  split
  · rfl
  · exact OpenedFile.moveTo_position_ne hne

theorem sysWrite_position_ne {h' : Nat} {data : List UInt8} {fate : Fate} (hne : h' ≠ h) :
    (sysWrite s h data fate).2.position h' = s.position h' := by
  unfold sysWrite
  split
  · rfl
  · exact OpenedFile.moveTo_position_ne hne

-- A call moves no other handle.
theorem perform_position_ne (hne : h ≠ e.handle) :
    (e.perform s).2.position h = s.position h := by
  cases e with
  | read h' args fate =>
    unfold Transfer.perform
    dsimp only
    split
    · rfl
    · exact (sysRead_position_ne hne).trans (lseekTo_position_ne hne)
  | write h' args fate =>
    unfold Transfer.perform
    dsimp only
    split
    · rfl
    · exact (sysWrite_position_ne hne).trans (lseekTo_position_ne hne)

theorem sysRead_keeps {n : Nat} {fate : Fate} : (sysRead s h n fate).2.content = s.content ∧
    (sysRead s h n fate).2.appends = s.appends := by
  unfold sysRead
  split <;> exact ⟨rfl, rfl⟩

-- A read changes nothing but positions.
theorem perform_keeps (hread : e.isRead) :
    (e.perform s).2.content = s.content ∧ (e.perform s).2.appends = s.appends := by
  cases e with
  | write h' args fate => exact absurd hread (by simp [Transfer.isRead])
  | read h' args fate =>
    unfold Transfer.perform
    dsimp only
    split
    · exact ⟨rfl, rfl⟩
    · exact ⟨sysRead_keeps.1.trans lseekTo_content, sysRead_keeps.2.trans lseekTo_appends⟩

theorem lseekTo_of_neg {position : Int} {fate : Fate} (hneg : ¬ position ≥ 0) :
    lseekTo s h position fate = s :=
  if_neg fun hseek ↦ hneg hseek.1

-- A read without a position, with the place and the bytes when it succeeds.
theorem perform_plain_read (hread : e.isRead) (hnone : e.position = none) :
    (e.perform s).2 = s ∧ (∀ start bytes, (e.perform s).1 ≠ .fulfilled start bytes) ∨
    ∃ bytes, (e.perform s).1 = .fulfilled (s.position e.handle) bytes ∧
      bytes = slice s.content (s.position e.handle) bytes.length ∧
      (e.perform s).2 = s.moveTo e.handle (s.position e.handle + bytes.length) := by
  cases e with
  | write h' args fate => exact absurd hread (by simp [Transfer.isRead])
  | read h' args fate =>
    unfold Transfer.position at hnone
    unfold Transfer.perform
    dsimp only [Transfer.handle] at hnone ⊢
    cases hrequest : jsFsFhReadRequest args with
    | error refusal => exact .inl ⟨rfl, by simp⟩
    | ok request =>
      rw [hrequest] at hnone
      dsimp only at hnone ⊢
      have hneg : ¬ request.position ≥ 0 := by
        intro hnonneg
        rw [if_pos hnonneg] at hnone
        exact Option.some_ne_none _ hnone
      rw [lseekTo_of_neg hneg]
      obtain ⟨err, hread⟩ | ⟨bytes, hbytes, hread⟩ := sysRead_cases s h' request.len fate
      · rw [hread]
        exact .inl ⟨rfl, by simp⟩
      · rw [hread]
        exact .inr ⟨bytes, rfl, hbytes, rfl⟩

-- What a kept call does to the handle, if only reads without a position may move it.
theorem plainRead_cases (hkept : PositionKept s e (e.perform s).2)
    (hreads : e.handle = h → e.position = none → e.isRead) :
    (plainRead h s e = none ∧ (e.perform s).2.position h = s.position h) ∨
    ∃ bytes, plainRead h s e = some (s.position h, bytes) ∧
      (e.isRead → bytes = slice s.content (s.position h) bytes.length) ∧
      (e.perform s).2.position h = s.position h + bytes.length := by
  by_cases hmoves : e.handle = h ∧ e.position = none
  · obtain ⟨rfl, hnone⟩ := hmoves
    have hread := hreads rfl hnone
    obtain ⟨hstate, hreply⟩ | ⟨bytes, hreply, hbytes, hstate⟩ := perform_plain_read hread hnone
    · refine .inl ⟨?_, by rw [hstate]⟩
      unfold plainRead
      split
      · exact absurd ‹_› (hreply _ _)
      · rfl
    · refine .inr ⟨bytes, ?_, fun _ ↦ hbytes, by rw [hstate, OpenedFile.moveTo_position]⟩
      rw [plainRead, hreply]
      exact if_pos ⟨rfl, hread, hnone⟩
  · refine .inl ⟨?_, ?_⟩
    · unfold plainRead
      split
      · exact if_neg fun hall ↦ hmoves ⟨hall.1, hall.2.2⟩
      · rfl
    · by_cases hhandle : e.handle = h
      · cases hp : e.position with
        | none => exact absurd ⟨hhandle, hp⟩ hmoves
        | some p =>
          subst hhandle
          exact (hkept p hp).2
      · exact perform_position_ne (Ne.symm hhandle)

-- A kept read with a position leaves everything as it was.
theorem perform_kept_read {p : Nat} (hkept : PositionKept s e (e.perform s).2) (hread : e.isRead)
    (hp : e.position = some p) : (e.perform s).2 = s := by
  ext1
  · exact (perform_keeps hread).1
  · funext h
    by_cases hhandle : h = e.handle
    · subst hhandle
      exact (hkept p hp).2
    · exact perform_position_ne hhandle
  · exact (perform_keeps hread).2

theorem plainRead_of_position {p : Nat} (hp : e.position = some p) : plainRead h s e = none := by
  unfold plainRead
  split
  · refine if_neg fun hall ↦ ?_
    rw [hall.2.2] at hp
    exact Option.some_ne_none p hp.symm
  · rfl

end

/-! ## Runs -/

section

variable {s : OpenedFile} {h : Nat} {e : Transfer} {es : List Transfer}

theorem along_cons (hrun : Runs.Along stepTransfer PositionKept s (e :: es)) :
    PositionKept s e (e.perform s).2 ∧ Runs.Along stepTransfer PositionKept (e.perform s).2 es := by
  obtain ⟨s', hstep, hkept, hrest⟩ := hrun
  obtain rfl : (e.perform s).2 = s' := Option.some.inj hstep
  exact ⟨hkept, hrest⟩

theorem contiguous_plainReads (hrun : Runs.Along stepTransfer PositionKept s es)
    (hreads : OnlyReadsMove h es) : Contiguous (s.position h) (plainReads h s es) := by
  induction es generalizing s with
  | nil => trivial
  | cons e es ih =>
    obtain ⟨hkept, hrest⟩ := along_cons hrun
    have hall := ih hrest fun e' he' ↦ hreads e' (List.mem_cons_of_mem e he')
    unfold plainReads
    obtain ⟨hnone, hpos⟩ | ⟨bytes, hsome, -, hpos⟩ :=
      plainRead_cases hkept (hreads e List.mem_cons_self)
    · rw [hpos] at hall
      rw [hnone]
      exact hall
    · rw [hpos] at hall
      rw [hsome]
      exact ⟨rfl, hall⟩

theorem plainReads_stretch (hrun : Runs.Along stepTransfer PositionKept s es)
    (hreads : ∀ e ∈ es, e.isRead) :
    (plainReads h s es).flatMap Prod.snd =
      slice s.content (s.position h) ((plainReads h s es).flatMap Prod.snd).length := by
  induction es generalizing s with
  | nil => simp [plainReads, slice]
  | cons e es ih =>
    obtain ⟨hkept, hrest⟩ := along_cons hrun
    have hread := hreads e List.mem_cons_self
    have hall := ih hrest fun e' he' ↦ hreads e' (List.mem_cons_of_mem e he')
    rw [(perform_keeps hread).1] at hall
    unfold plainReads
    obtain ⟨hnone, hpos⟩ | ⟨bytes, hsome, hbytes, hpos⟩ :=
      plainRead_cases (h := h) hkept (fun _ _ ↦ hread)
    · rw [hpos] at hall
      rw [hnone]
      exact hall
    · rw [hpos] at hall
      rw [hsome, Option.toList_some, List.cons_append, List.nil_append, List.flatMap_cons,
        List.length_append, ← slice_append, ← hall, ← hbytes hread]

theorem plainReads_filter (hrun : Runs.Along stepTransfer PositionKept s es)
    (hreads : ∀ e ∈ es, e.isRead) :
    plainReads h s es = plainReads h s (es.filter fun e ↦ e.position = none) := by
  induction es generalizing s with
  | nil => rfl
  | cons e es ih =>
    obtain ⟨hkept, hrest⟩ := along_cons hrun
    have hall := ih hrest fun e' he' ↦ hreads e' (List.mem_cons_of_mem e he')
    cases hp : e.position with
    | none =>
      rw [List.filter_cons_of_pos (by simp [hp]), plainReads, plainReads, hall]
    | some p =>
      rw [perform_kept_read hkept (hreads e List.mem_cons_self) hp] at hall
      rw [List.filter_cons_of_neg (by simp [hp]), plainReads, plainRead_of_position hp,
        perform_kept_read hkept (hreads e List.mem_cons_self) hp, hall]
      rfl

end

/-- A run keeps what positions promise exactly if each of its calls with a position ends where its
handle stands. -/
theorem positionsIndependent_iff (s : OpenedFile) (es : List Transfer) :
    PositionsIndependent s es ↔ Runs.Guarded stepTransfer PositionSafe s es := by
  have hexact : Runs.Along stepTransfer PositionKept s es ↔
      Runs.Guarded stepTransfer PositionSafe s es := by
    apply Runs.along_iff_guarded (I := fun _ ↦ True) _ _ trivial
    · intro s e _ hsafe
      exact ⟨_, rfl, (positionKept_iff s e).mpr hsafe, trivial⟩
    · intro s e s' _ hstep hkept
      obtain rfl : (e.perform s).2 = s' := Option.some.inj hstep
      exact (positionKept_iff s e).mp hkept
  rw [← hexact]
  constructor
  · exact PositionsIndependent.kept
  · intro hrun
    exact {
      kept := hrun
      contiguous := fun h hreads ↦ contiguous_plainReads hrun hreads
      stretch := fun h hreads ↦ plainReads_stretch hrun hreads
      unaffected := fun h hreads ↦ plainReads_filter hrun hreads }

/-- After a read of one byte at position 2, `read()` starts at byte 3 of the file. -/
theorem position_moved :
    let s : OpenedFile := ⟨[1, 2, 3, 4], fun _ ↦ 0, fun _ ↦ false⟩
    let es : List Transfer := [.read 0 (.arrayBuffer 1 (some 0) (some 1) (some 2)) ⟨true, .ok 1⟩,
      .read 0 .missing ⟨true, .ok 16384⟩]
    plainReads 0 s es = [(3, [4])] ∧ ¬ PositionsIndependent s es := by
  intro s es
  have hreads : plainReads 0 s es = [(3, [4])] := by decide +kernel
  refine ⟨hreads, fun hall ↦ ?_⟩
  have hplace := hall.contiguous 0 (by simp [OnlyReadsMove, es, Transfer.isRead])
  rw [hreads] at hplace
  exact absurd hplace.1 (by decide)

end QNode.Fs
