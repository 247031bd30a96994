import QNode.ChildProcess.StandardStreams

/-!
# What a call leaves open

`create_process` opens up to six descriptors before the call that can fail, on Windows with three more
handles, and looks at none of the results.  What it owes the parent is a set of open numbers that has not
changed, or has grown by what it returns.
-/

open DescriptorTable

namespace QNode.ChildProcess

/-! ## The answers of the host -/

structure ProcessHandles where
  process : Nat
  thread : Nat
  deriving DecidableEq, Repr

/-- What the host answers to the calls of one `create_process`: the pipes it makes where it is asked for
them, and what comes of `fork`; on Windows also whether there is memory for the command line, the handle
of `NUL`, and what comes of `CreateProcess`. -/
inductive Answers
  | unix (pipes : Pipes) (forks : Bool)
  | windows (pipes : Pipes) (cmdline : Bool) (nul : Option Nat) (process : Option ProcessHandles)

def Answers.pipes : Answers → Pipes
  | .unix pipes _ => pipes
  | .windows pipes _ _ _ => pipes

/-! ## create_process -/

/-- `CPRawResult` with the return code, and the table of the parent. -/
structure Created where
  rc : Int
  fds : StdStream → Option Nat
  handle : Option Nat
  parent : Descriptors

def Pipes.only (asked : StdStream → Bool) (pipes : Pipes) : Pipes where
  stdin := if asked .stdin then pipes.stdin else none
  stdout := if asked .stdout then pipes.stdout else none
  stderr := if asked .stderr then pipes.stderr else none

def Created.failed (parent : Descriptors) : Created := ⟨-1, fun _ ↦ none, none, parent⟩

def openHandle (t : Descriptors) : Option Nat → Option Descriptors
  | none => some t
  | some handle => t.openAt handle .other

section

variable (t : Descriptors) (child : Nat) (asked : StdStream → Bool)

def createUnix (pipes : Pipes) (forks : Bool) : Option Created :=
  let pipes := pipes.only asked
  (openPipes t child pipes).map fun u ↦
    if forks then ⟨0, rawResult pipes, none, parentDescriptors u pipes⟩ else .failed u

/-- A handle that was not opened is NULL and not closed; for `NUL` it is another value, for which
`CloseHandle` does nothing. -/
def createWindows (pipes : Pipes) (cmdline : Bool) (nul : Option Nat)
    (process : Option ProcessHandles) : Option Created :=
  if !cmdline then some (.failed t)
  else
    let pipes := pipes.only asked
    let nul := if StdStream.all.all asked then none else nul
    (openPipes t child pipes).bind fun t₁ ↦
      (openHandle t₁ nul).bind fun t₂ ↦
        (openHandle t₂ (process.map ProcessHandles.process)).bind fun t₃ ↦
          (openHandle t₃ (process.map ProcessHandles.thread)).map fun t₄ ↦
            let t₅ := closeFd (parentDescriptors t₄ pipes) nul
            match process with
            | none => .failed t₅
            | some handles => ⟨0, rawResult pipes, some handles.process, t₅.close handles.thread⟩

/-- `none` if a number is handed out that is not free. -/
def createProcess : Answers → Option Created
  | .unix pipes forks => createUnix t child asked pipes forks
  | .windows pipes cmdline nul process => createWindows t child asked pipes cmdline nul process

/-- What a call owes the parent: as many open numbers as before if it fails, and otherwise in addition
only those it returns, among them the end of each pipe that is asked for; and a failure if one of these
pipes is not made. -/
structure Balanced (pipes : Pipes) (c : Created) : Prop where
  failed : c.rc < 0 → c.parent.opens = t.opens
  grown : 0 ≤ c.rc → c.parent.opens = t.opens ∪ {fd | c.handle = some fd ∨ ∃ s, c.fds s = some fd}
  new : ∀ fd, (c.handle = some fd ∨ ∃ s, c.fds s = some fd) → fd ∉ t.opens
  valid : 0 ≤ c.rc → ∀ s, asked s = true →
    ∃ fd, c.fds s = some fd ∧ c.parent fd = some (.pipe ⟨child, s, !s.written⟩)
  reported : (∃ s, asked s = true ∧ pipes.of s = none) → c.rc < 0

end

/-- All pipes that are asked for are made if the call goes on to make the process, and none of them if it
does not. -/
def AllOrNone (asked : StdStream → Bool) (pipes : Pipes) (succeeds : Bool) : Prop :=
  ∀ s, asked s = true → (pipes.of s).isSome = succeeds

def Answers.Clean (asked : StdStream → Bool) : Answers → Prop
  | .unix pipes forks => AllOrNone asked pipes forks
  | .windows pipes cmdline _ process => cmdline = true → AllOrNone asked pipes process.isSome

/-! ## The ends of the pipes -/

section

variable {t u : Descriptors} {child fd : Nat} {asked : StdStream → Bool} {pipes : Pipes}

/-- The numbers of the ends that go to the child, and of those that the parent keeps. -/
def Pipes.ownEnds (pipes : Pipes) : Set Nat := {fd | ∃ s p, pipes.of s = some p ∧ fd = p.own s}

def Pipes.otherEnds (pipes : Pipes) : Set Nat := {fd | ∃ s p, pipes.of s = some p ∧ fd = p.other s}

theorem PipeFds.own_or_other (p : PipeFds) (s : StdStream) :
    fd = p.read ∨ fd = p.write ↔ fd = p.own s ∨ fd = p.other s := by
  cases s with
  | stdin => exact Iff.rfl
  | stdout | stderr => exact or_comm

theorem openPipe_free {s : StdStream} {fds : Option PipeFds} (hopen : openPipe t child s fds = some u) :
    ∀ p ∈ fds, t p.read = none ∧ t p.write = none := by
  rintro p rfl
  obtain ⟨t₁, hread, hwrite⟩ := Option.bind_eq_some_iff.mp hopen
  have hfree := (Table.openAt_eq_some_iff.mp hwrite).1
  refine ⟨(Table.openAt_eq_some_iff.mp hread).1, ?_⟩
  cases hold : t p.write with
  | none => rfl
  | some entry =>
    rw [Table.openAt_keeps hread hold] at hfree
    cases hfree

-- Every end had a number that was free.
theorem openPipes_free (hopen : openPipes t child pipes = some u) (s : StdStream) :
    ∀ p ∈ pipes.of s, t p.read = none ∧ t p.write = none := by
  obtain ⟨t₁, hin, hopen⟩ := Option.bind_eq_some_iff.mp hopen
  obtain ⟨t₂, hout, herr⟩ := Option.bind_eq_some_iff.mp hopen
  have hback : ∀ {t t' : Descriptors} {s fds fd}, openPipe t child s fds = some t' →
      t' fd = none → t fd = none := by
    intro t t' s fds fd hmake hfree
    cases hold : t fd with
    | none => rfl
    | some entry =>
      rw [(openPipe_cases hmake).1 fd entry hold] at hfree
      cases hfree
  intro p hp
  cases s with
  | stdin => exact openPipe_free hin p hp
  | stdout =>
    obtain ⟨hread, hwrite⟩ := openPipe_free hout p hp
    exact ⟨hback hin hread, hback hin hwrite⟩
  | stderr =>
    obtain ⟨hread, hwrite⟩ := openPipe_free herr p hp
    exact ⟨hback hin (hback hout hread), hback hin (hback hout hwrite)⟩

theorem mem_opens_openPipes (hopen : openPipes t child pipes = some u) (fd : Nat) :
    fd ∈ u.opens ↔ fd ∈ t.opens ∨ fd ∈ pipes.ownEnds ∨ fd ∈ pipes.otherEnds := by
  have hopened := openPipes_opened hopen
  rw [Table.mem_opens, Table.mem_opens]
  constructor
  · rintro ⟨entry, h⟩
    rcases hopened.entries fd entry h with hold | ⟨s, p, hp, hnew⟩
    · exact .inl ⟨entry, hold⟩
    · have hend : fd = p.read ∨ fd = p.write := hnew.imp And.left And.left
      exact .inr (((p.own_or_other s).mp hend).imp (⟨s, p, hp, ·⟩) (⟨s, p, hp, ·⟩))
  · rintro (⟨entry, hold⟩ | ⟨s, p, hp, rfl⟩ | ⟨s, p, hp, rfl⟩)
    · exact ⟨entry, hopened.keeps fd entry hold⟩
    · exact ⟨_, hopened.own_entry hp⟩
    · exact ⟨_, hopened.other_entry hp⟩

theorem not_mem_opens_of_end (hopen : openPipes t child pipes = some u)
    (h : fd ∈ pipes.ownEnds ∨ fd ∈ pipes.otherEnds) : fd ∉ t.opens := by
  obtain ⟨s, p, hp, hend⟩ : ∃ s p, pipes.of s = some p ∧ (fd = p.own s ∨ fd = p.other s) := by
    rcases h with ⟨s, p, hp, h⟩ | ⟨s, p, hp, h⟩
    · exact ⟨s, p, hp, .inl h⟩
    · exact ⟨s, p, hp, .inr h⟩
  obtain ⟨hread, hwrite⟩ := openPipes_free hopen s p hp
  rcases (p.own_or_other s).mpr hend with rfl | rfl
  · exact not_not_intro hread
  · exact not_not_intro hwrite

theorem ownEnds_empty (h : ∀ fd, fd ∉ pipes.otherEnds) (fd : Nat) : fd ∉ pipes.ownEnds := by
  rintro ⟨s, p, hp, -⟩
  exact h _ ⟨s, p, hp, rfl⟩

theorem not_own_and_other (hopen : openPipes t child pipes = some u) (hown : fd ∈ pipes.ownEnds) :
    fd ∉ pipes.otherEnds := by
  rintro ⟨s', p', hp', hother⟩
  obtain ⟨s, p, hp, rfl⟩ := hown
  exact (openPipes_opened hopen).own_not_other hp (mem_other.mpr ⟨s', p', hp', hother⟩)

-- What was open before, the ends of the child and those of the parent have no number in common.
theorem ends_disjoint (hopen : openPipes t child pipes = some u) (fd : Nat) :
    (fd ∈ pipes.ownEnds ∨ fd ∈ pipes.otherEnds → fd ∉ t.opens) ∧
      (fd ∈ pipes.ownEnds → fd ∉ pipes.otherEnds) :=
  ⟨not_mem_opens_of_end hopen, not_own_and_other hopen⟩

theorem mem_opens_closeFd {number : Option Nat} :
    fd ∈ (closeFd t number).opens ↔ fd ∈ t.opens ∧ number ≠ some fd := by
  cases number with
  | none => exact (and_iff_left (Option.some_ne_none fd).symm).symm
  | some x =>
    rw [closeFd, Table.opens_close, Set.mem_sdiff, Set.mem_singleton_iff, Ne, Option.some.injEq,
      eq_comm (a := fd)]

theorem closeFd_of_ne {number : Option Nat} (h : number ≠ some fd) : closeFd t number fd = t fd := by
  cases number with
  | none => rfl
  | some x => exact Table.close_of_ne fun heq ↦ h (congrArg some heq.symm)

theorem not_mem_ownEnds : fd ∉ pipes.ownEnds ↔ pipes.stdin.map PipeFds.read ≠ some fd ∧
    pipes.stdout.map PipeFds.write ≠ some fd ∧ pipes.stderr.map PipeFds.write ≠ some fd := by
  constructor
  · intro hnot
    have hend : ∀ s {p}, pipes.of s = some p → fd ≠ p.own s :=
      fun s p hp heq ↦ hnot ⟨s, p, hp, heq⟩
    refine ⟨fun h ↦ ?_, fun h ↦ ?_, fun h ↦ ?_⟩
    · obtain ⟨p, hp, heq⟩ := Option.map_eq_some_iff.mp h
      exact hend .stdin hp heq.symm
    · obtain ⟨p, hp, heq⟩ := Option.map_eq_some_iff.mp h
      exact hend .stdout hp heq.symm
    · obtain ⟨p, hp, heq⟩ := Option.map_eq_some_iff.mp h
      exact hend .stderr hp heq.symm
  · rintro ⟨hin, hout, herr⟩ ⟨s, p, hp, rfl⟩
    cases s with
    | stdin => exact hin (congrArg (Option.map PipeFds.read) hp)
    | stdout => exact hout (congrArg (Option.map PipeFds.write) hp)
    | stderr => exact herr (congrArg (Option.map PipeFds.write) hp)

theorem parentDescriptors_of_not_own (h : fd ∉ pipes.ownEnds) : parentDescriptors t pipes fd = t fd := by
  obtain ⟨hin, hout, herr⟩ := not_mem_ownEnds.mp h
  rw [parentDescriptors, closeFd_of_ne herr, closeFd_of_ne hout, closeFd_of_ne hin]

theorem mem_opens_parentDescriptors :
    fd ∈ (parentDescriptors t pipes).opens ↔ fd ∈ t.opens ∧ fd ∉ pipes.ownEnds := by
  rw [parentDescriptors, mem_opens_closeFd, mem_opens_closeFd, mem_opens_closeFd, not_mem_ownEnds,
    and_assoc, and_assoc]

theorem mem_opens_openHandle {number : Option Nat} (hopen : openHandle t number = some u) (fd : Nat) :
    (number = some fd → fd ∉ t.opens) ∧ (fd ∈ u.opens ↔ fd ∈ t.opens ∨ number = some fd) := by
  cases number with
  | none =>
    obtain rfl := Option.some.inj hopen
    exact ⟨fun h ↦ (nomatch h), (or_iff_left (Option.some_ne_none fd).symm).symm⟩
  | some x =>
    obtain ⟨hfree, hopens⟩ := Table.opens_openAt hopen
    rw [hopens, Set.mem_insert_iff, Option.some.injEq, or_comm, eq_comm (a := fd)]
    refine ⟨?_, Iff.rfl⟩
    rintro rfl
    exact hfree

theorem rawResult_eq (pipes : Pipes) (s : StdStream) :
    rawResult pipes s = (pipes.of s).map fun p ↦ p.other s := by
  cases s <;> rfl

theorem mem_otherEnds : fd ∈ pipes.otherEnds ↔ ∃ s, rawResult pipes s = some fd := by
  constructor
  · rintro ⟨s, p, hp, rfl⟩
    exact ⟨s, by rw [rawResult_eq, hp, Option.map_some]⟩
  · rintro ⟨s, hs⟩
    rw [rawResult_eq] at hs
    obtain ⟨p, hp, rfl⟩ := Option.map_eq_some_iff.mp hs
    exact ⟨s, p, hp, rfl⟩

/-! ## The balance of the two platforms -/

theorem only_of (asked : StdStream → Bool) (pipes : Pipes) (s : StdStream) :
    (pipes.only asked).of s = if asked s then pipes.of s else none := by
  cases s <;> rfl

theorem of_only {s : StdStream} {p : PipeFds} (h : (pipes.only asked).of s = some p) :
    asked s = true ∧ pipes.of s = some p := by
  rw [only_of] at h
  exact Option.ite_none_right_eq_some.mp h

-- A failed call balances if it has made none of its pipes.
theorem otherEnds_empty_iff (asked : StdStream → Bool) (pipes : Pipes) :
    (∀ fd, fd ∉ (pipes.only asked).otherEnds) ↔ AllOrNone asked pipes false := by
  constructor
  · intro h s hs
    cases hp : pipes.of s with
    | none => rfl
    | some p =>
      refine absurd ⟨s, p, ?_, rfl⟩ (h (p.other s))
      rw [only_of, if_pos hs, hp]
  · rintro h fd ⟨s, p, hp, -⟩
    obtain ⟨hs, hp⟩ := of_only hp
    have hnone := h s hs
    rw [hp] at hnone
    cases hnone

theorem failed_rc (c : Descriptors) : (Created.failed c).rc < 0 := show (-1 : Int) < 0 by decide

theorem Balanced.of_same {c : Descriptors} (hsame : c.opens = t.opens) :
    Balanced t child asked pipes (.failed c) where
  failed := fun _ ↦ hsame
  grown := fun h ↦ absurd (failed_rc c) (Int.not_lt.mpr h)
  new := by rintro fd (h | ⟨s, h⟩) <;> cases h
  valid := fun h ↦ absurd (failed_rc c) (Int.not_lt.mpr h)
  reported := fun _ ↦ failed_rc c

/-- A call that fails balances if it made no pipe; what it keeps open are the parent's ends, at least. -/
theorem balanced_failed_iff {c : Descriptors} (hkept : ∀ fd, fd ∈ (pipes.only asked).otherEnds →
      fd ∈ c.opens ∧ fd ∉ t.opens)
    (hnone : (∀ fd, fd ∉ (pipes.only asked).otherEnds) → c.opens = t.opens) :
    Balanced t child asked pipes (.failed c) ↔ AllOrNone asked pipes false := by
  rw [← otherEnds_empty_iff]
  constructor
  · intro hbalanced fd hfd
    obtain ⟨hopen, hfree⟩ := hkept fd hfd
    have hsame : c.opens = t.opens := hbalanced.failed (failed_rc c)
    rw [hsame] at hopen
    exact hfree hopen
  · exact fun hempty ↦ .of_same (hnone hempty)

/-- A call that succeeds balances if it made all its pipes. -/
theorem balanced_created_iff {c : Descriptors} {handle : Option Nat}
    (hgrown : ∀ fd, fd ∈ c.opens ↔ fd ∈ t.opens ∨ handle = some fd ∨ fd ∈ (pipes.only asked).otherEnds)
    (hnew : ∀ fd, handle = some fd ∨ fd ∈ (pipes.only asked).otherEnds → fd ∉ t.opens)
    (hends : ∀ s p, (pipes.only asked).of s = some p →
      c (p.other s) = some (.pipe ⟨child, s, !s.written⟩)) :
    Balanced t child asked pipes ⟨0, rawResult (pipes.only asked), handle, c⟩ ↔
      AllOrNone asked pipes true := by
  have hnot : ¬ (0 : Int) < 0 := by decide
  constructor
  · intro hbalanced s hs
    cases hp : pipes.of s with
    | some p => rfl
    | none => exact absurd (hbalanced.reported ⟨s, hs, hp⟩) hnot
  · intro hall
    refine ⟨fun h ↦ absurd h hnot, fun _ ↦ ?_, fun fd h ↦ ?_, fun _ s hs ↦ ?_, ?_⟩
    · ext fd
      rw [hgrown fd, mem_otherEnds]
      rfl
    · rw [← mem_otherEnds] at h
      exact hnew fd h
    · obtain ⟨p, hp⟩ := Option.isSome_iff_exists.mp (hall s hs)
      have hof : (pipes.only asked).of s = some p := by rw [only_of, if_pos hs, hp]
      refine ⟨p.other s, ?_, hends s p hof⟩
      show rawResult (pipes.only asked) s = _
      rw [rawResult_eq, hof, Option.map_some]
    · rintro ⟨s, hs, hp⟩
      have hsome := hall s hs
      rw [hp] at hsome
      cases hsome

theorem createUnix_balanced_iff {forks : Bool} {c : Created}
    (h : createUnix t child asked pipes forks = some c) :
    Balanced t child asked pipes c ↔ AllOrNone asked pipes forks := by
  obtain ⟨u, hopen, rfl⟩ := Option.map_eq_some_iff.mp h
  have hopens := mem_opens_openPipes hopen
  cases forks with
  | false =>
    rw [if_neg Bool.false_ne_true]
    apply balanced_failed_iff
    · intro fd hfd
      exact ⟨(hopens fd).mpr (.inr (.inr hfd)), not_mem_opens_of_end hopen (.inr hfd)⟩
    · intro hempty
      ext fd
      rw [hopens]
      exact or_iff_left (not_or.mpr ⟨ownEnds_empty hempty fd, hempty fd⟩)
  | true =>
    rw [if_pos rfl]
    apply balanced_created_iff
    · intro fd
      obtain ⟨hfree, hapart⟩ := ends_disjoint hopen fd
      rw [mem_opens_parentDescriptors, hopens]
      tauto
    · rintro fd (hnone | hfd)
      · cases hnone
      · exact not_mem_opens_of_end hopen (.inr hfd)
    · intro s p hp
      rw [parentDescriptors_of_not_own fun hown ↦ not_own_and_other hopen hown ⟨s, p, hp, rfl⟩]
      exact (openPipes_opened hopen).other_entry hp

theorem openHandle_keeps {number : Option Nat} {entry : Entry} (hopen : openHandle t number = some u)
    (h : t fd = some entry) : u fd = some entry := by
  cases number with
  | none =>
    obtain rfl := Option.some.inj hopen
    exact h
  | some x => exact Table.openAt_keeps hopen h

theorem createWindows_balanced_iff {nul : Option Nat} {process : Option ProcessHandles} {c : Created}
    (h : createWindows t child asked pipes true nul process = some c) :
    Balanced t child asked pipes c ↔ AllOrNone asked pipes process.isSome := by
  obtain ⟨t₁, hopen, h⟩ := Option.bind_eq_some_iff.mp h
  obtain ⟨t₂, hnul, h⟩ := Option.bind_eq_some_iff.mp h
  obtain ⟨t₃, hprocess, h⟩ := Option.bind_eq_some_iff.mp h
  obtain ⟨t₄, hthread, rfl⟩ := Option.map_eq_some_iff.mp h
  have hend := mem_opens_openPipes hopen
  generalize (if StdStream.all.all asked then none else nul) = nul' at hnul
  -- `NUL`, the process and the thread open one number each, all of them free before
  cases process with
  | none =>
    obtain rfl := Option.some.inj hprocess
    obtain rfl := Option.some.inj hthread
    have hleft : ∀ fd, fd ∈ (closeFd (parentDescriptors t₂ (pipes.only asked)) nul').opens ↔
        fd ∈ t.opens ∨ fd ∈ (pipes.only asked).otherEnds := by
      intro fd
      obtain ⟨hfree, hapart⟩ := ends_disjoint hopen fd
      obtain ⟨hnew, hmem⟩ := mem_opens_openHandle hnul fd
      rw [hend] at hmem hnew
      rw [mem_opens_closeFd, mem_opens_parentDescriptors, hmem]
      grind
    apply balanced_failed_iff
    · intro fd hfd
      exact ⟨(hleft fd).mpr (.inr hfd), not_mem_opens_of_end hopen (.inr hfd)⟩
    · intro hempty
      ext fd
      exact (hleft fd).trans (or_iff_left (hempty fd))
  | some handles =>
    change Balanced t child asked pipes ⟨0, rawResult (pipes.only asked), some handles.process,
      closeFd (closeFd (parentDescriptors t₄ (pipes.only asked)) nul') (some handles.thread)⟩ ↔ _
    apply balanced_created_iff
    · intro fd
      obtain ⟨hfree, hapart⟩ := ends_disjoint hopen fd
      obtain ⟨hnew₂, hmem₂⟩ := mem_opens_openHandle hnul fd
      obtain ⟨hnew₃, hmem₃⟩ := mem_opens_openHandle hprocess fd
      obtain ⟨hnew₄, hmem₄⟩ := mem_opens_openHandle hthread fd
      rw [hend] at hmem₂ hnew₂
      rw [hmem₂] at hmem₃ hnew₃
      rw [hmem₃] at hmem₄ hnew₄
      rw [mem_opens_closeFd, mem_opens_closeFd, mem_opens_parentDescriptors, hmem₄]
      grind
    · rintro fd (hhandle | hfd) hold
      · refine (mem_opens_openHandle hprocess fd).1 hhandle ?_
        exact (mem_opens_openHandle hnul fd).2.mpr (.inl ((hend fd).mpr (.inl hold)))
      · exact not_mem_opens_of_end hopen (.inr hfd) hold
    · intro s p hp
      have hentry := (openPipes_opened hopen).other_entry hp
      have hentry₃ := openHandle_keeps hprocess (openHandle_keeps hnul hentry)
      have hthread_ne : some handles.thread ≠ some (p.other s) := fun heq ↦
        (mem_opens_openHandle hthread _).1 heq (Table.mem_opens.mpr ⟨_, hentry₃⟩)
      have hnul_ne : nul' ≠ some (p.other s) := fun heq ↦
        (mem_opens_openHandle hnul _).1 heq (Table.mem_opens.mpr ⟨_, hentry⟩)
      rw [closeFd_of_ne hthread_ne, closeFd_of_ne hnul_ne,
        parentDescriptors_of_not_own fun hown ↦ not_own_and_other hopen hown ⟨s, p, hp, rfl⟩]
      exact openHandle_keeps hthread hentry₃

/-- A call leaves the parent balanced precisely if the process is made and all the pipes asked for are,
or neither the process nor any of them is. -/
theorem createProcess_balanced_iff (t : Descriptors) (child : Nat) (asked : StdStream → Bool)
    (answers : Answers) (c : Created) (h : createProcess t child asked answers = some c) :
    Balanced t child asked answers.pipes c ↔ answers.Clean asked := by
  cases answers with
  | unix pipes forks => exact createUnix_balanced_iff h
  | windows pipes cmdline nul process =>
    cases cmdline with
    | false =>
      obtain rfl := Option.some.inj h
      exact iff_of_true (.of_same rfl) fun h ↦ nomatch h
    | true =>
      apply (createWindows_balanced_iff h).trans
      exact ⟨fun hall _ ↦ hall, fun hall ↦ hall rfl⟩

end

/-! ## A fork that fails -/

/-- A parent with its three standard descriptors. -/
def standardTable : Descriptors := fun fd ↦ if fd ≤ 2 then some .other else none

def allPiped (_ : StdStream) : Bool := true

def failedFork : Answers := .unix ⟨some ⟨3, 4⟩, some ⟨5, 6⟩, some ⟨7, 8⟩⟩ false

theorem failedFork_isSome : (createProcess standardTable 0 allPiped failedFork).isSome := rfl

def afterFailedFork : Created := (createProcess standardTable 0 allPiped failedFork).get failedFork_isSome

theorem createProcess_balanced_failedFork :
    Balanced standardTable 0 allPiped failedFork.pipes afterFailedFork ↔ failedFork.Clean allPiped :=
  createProcess_balanced_iff standardTable 0 allPiped failedFork afterFailedFork
    (Option.some_get _).symm

/-- The six descriptors stay open. -/
theorem createProcess_leaks :
    ¬ ∀ (t : Descriptors) (child : Nat) (asked : StdStream → Bool) (answers : Answers) (c : Created),
      createProcess t child asked answers = some c → Balanced t child asked answers.pipes c := by
  intro h
  have hbalanced := h standardTable 0 allPiped failedFork afterFailedFork (Option.some_get _).symm
  have hsame := hbalanced.failed (show (-1 : Int) < 0 by decide)
  have hopen : 4 ∈ afterFailedFork.parent.opens := Table.mem_opens.mpr ⟨_, rfl⟩
  rw [hsame] at hopen
  exact hopen rfl

end QNode.ChildProcess
