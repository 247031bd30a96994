import QNode.Library.DescriptorTable
import QNode.Library.Runs

/-!
# The descriptors of parent and children

`create_process` makes up to three pipes, forks, and closes in each process the ends that belong to the
other.  A fork copies the whole table of the parent, and `exec` keeps it, since `pipe` sets no
close-on-exec flag.
-/

open DescriptorTable

namespace QNode.ChildProcess

inductive StdStream
  | stdin | stdout | stderr
  deriving DecidableEq, Repr

/-- An end of one of the pipes made for a child; children are numbered by the calls of
`create_process`. -/
structure PipeEnd where
  child : Nat
  stream : StdStream
  writes : Bool
  deriving DecidableEq, Repr

inductive Entry
  | pipe (pipeEnd : PipeEnd)
  | other
  deriving DecidableEq, Repr

abbrev Descriptors := Table Entry

/-- What `pipe` returns. -/
structure PipeFds where
  read : Nat
  write : Nat
  deriving DecidableEq, Repr

/-- The pipes of one call.  A pipe that is not asked for, or that `pipe` could not make, has -1 for both
numbers, with which every later call fails. -/
structure Pipes where
  stdin : Option PipeFds
  stdout : Option PipeFds
  stderr : Option PipeFds
  deriving DecidableEq, Repr

def Pipes.of (pipes : Pipes) : StdStream → Option PipeFds
  | .stdin => pipes.stdin
  | .stdout => pipes.stdout
  | .stderr => pipes.stderr

/-! ## create_process -/

/-- `pipe` gets two numbers that are free. -/
def openPipe (t : Descriptors) (child : Nat) (stream : StdStream) : Option PipeFds → Option Descriptors
  | none => some t
  | some fds =>
    (t.openAt fds.read (.pipe ⟨child, stream, false⟩)).bind fun t₁ ↦
      t₁.openAt fds.write (.pipe ⟨child, stream, true⟩)

def openPipes (t : Descriptors) (child : Nat) (pipes : Pipes) : Option Descriptors :=
  (openPipe t child .stdin pipes.stdin).bind fun t₁ ↦
    (openPipe t₁ child .stdout pipes.stdout).bind fun t₂ ↦ openPipe t₂ child .stderr pipes.stderr

/-- `dup2` of the child's end and `close` of the other one. -/
def redirect (t : Descriptors) (dst : Nat) : Option (Nat × Nat) → Descriptors
  | none => t
  | some (own, others) => (t.dup2 own dst).close others

def closeAbove (t : Descriptors) (fd : Nat) : Descriptors := if fd > 2 then t.close fd else t

def closeUnused (t : Descriptors) : Option PipeFds → Descriptors
  | none => t
  | some fds => closeAbove (closeAbove t fds.read) fds.write

/-- The table of the child when it comes to `exec`. -/
def childDescriptors (t : Descriptors) (pipes : Pipes) : Descriptors :=
  let t₁ := redirect t 0 (pipes.stdin.map fun fds ↦ (fds.read, fds.write))
  let t₂ := redirect t₁ 1 (pipes.stdout.map fun fds ↦ (fds.write, fds.read))
  let t₃ := redirect t₂ 2 (pipes.stderr.map fun fds ↦ (fds.write, fds.read))
  closeUnused (closeUnused (closeUnused t₃ pipes.stdin) pipes.stdout) pipes.stderr

/-- A number that `create_process` redirects in the child. -/
def Redirected (pipes : Pipes) (fd : Nat) : Prop :=
  fd = 0 ∧ pipes.stdin.isSome ∨ fd = 1 ∧ pipes.stdout.isSome ∨ fd = 2 ∧ pipes.stderr.isSome

/-- `close`, which fails for -1. -/
def closeFd (t : Descriptors) : Option Nat → Descriptors
  | none => t
  | some fd => t.close fd

def parentDescriptors (t : Descriptors) (pipes : Pipes) : Descriptors :=
  closeFd (closeFd (closeFd t (pipes.stdin.map PipeFds.read)) (pipes.stdout.map PipeFds.write))
    (pipes.stderr.map PipeFds.write)

/-- The fields `stdin_fd`, `stdout_fd` and `stderr_fd` of the result. -/
def rawResult (pipes : Pipes) : StdStream → Option Nat
  | .stdin => pipes.stdin.map PipeFds.write
  | .stdout => pipes.stdout.map PipeFds.read
  | .stderr => pipes.stderr.map PipeFds.read

/-! ## The system -/

/-- A running child, or a process that descends from it. -/
structure Process where
  child : Nat
  leader : Bool
  table : Descriptors

/-- What a process does to its table; it may fork and exit. -/
inductive ProcessAction
  | opens (fd : Nat)
  | closes (fd : Nat)
  | dups (src dst : Nat)
  | forks
  | exits

/-- The parent with its children: the calls of `create_process` so far, those that succeeded, the
descriptors `_fd` in their objects, and the processes that run. -/
structure Family where
  calls : Nat
  created : Nat → Bool
  fds : Nat → StdStream → Option Nat
  parent : Descriptors
  processes : List Process

inductive FamilyEvent
  | spawn (pipes : Pipes) (forks : Bool)
  | stdinEnd (child : Nat)
  | poll (child : Nat)
  | parentOpens (fd : Nat)
  | parentCloses (fd : Nat)
  | acts (process : Nat) (action : ProcessAction)

namespace Family

/-- A parent that has made no child yet; some other descriptors are open. -/
def start (others : Nat → Bool) : Family where
  calls := 0
  created := fun _ ↦ false
  fds := fun _ _ ↦ none
  parent := fun fd ↦ if others fd then some .other else none
  processes := []

/-- The parent and the new child after a fork, which copied the table `t`. -/
def forked (s : Family) (pipes : Pipes) (t : Descriptors) : Family where
  calls := s.calls + 1
  created := Function.update s.created s.calls true
  fds := Function.update s.fds s.calls (rawResult pipes)
  parent := parentDescriptors t pipes
  processes := ⟨s.calls, true, childDescriptors t pipes⟩ :: s.processes

/-- A failed `fork` leaves the pipes open. -/
def createProcess (s : Family) (pipes : Pipes) (forks : Bool) : Option Family :=
  (openPipes s.parent s.calls pipes).map fun t ↦
    if forks then s.forked pipes t else { s with calls := s.calls + 1, parent := t }

/-- `_closePipe` of a stream that is open, which becomes -1. -/
def closeStream (s : Family) (child : Nat) (stream : StdStream) : Family :=
  { s with
    parent := closeFd s.parent (s.fds child stream)
    fds := Function.update s.fds child (Function.update (s.fds child) stream none) }

def closeAll (s : Family) (child : Nat) : Family :=
  ((s.closeStream child .stdin).closeStream child .stdout).closeStream child .stderr

def exited (s : Family) (child : Nat) : Bool :=
  ¬ s.processes.any fun p ↦ p.child = child ∧ p.leader

def act (s : Family) (i : Nat) (p : Process) : ProcessAction → Option Family
  | .opens fd =>
    (p.table.openAt fd .other).map fun t ↦
      { s with processes := s.processes.set i { p with table := t } }
  | .closes fd => some { s with processes := s.processes.set i { p with table := p.table.close fd } }
  | .dups src dst =>
    some { s with processes := s.processes.set i { p with table := p.table.dup2 src dst } }
  | .forks => some { s with processes := s.processes ++ [{ p with leader := false }] }
  | .exits => some { s with processes := s.processes.eraseIdx i }

def step (s : Family) : FamilyEvent → Option Family
  | .spawn pipes forks => s.createProcess pipes forks
  | .stdinEnd child => some (s.closeStream child .stdin)
  | .poll child => some (if s.exited child then s.closeAll child else s)
  | .parentOpens fd => (s.parent.openAt fd .other).map fun t ↦ { s with parent := t }
  | .parentCloses fd =>
    if s.parent fd = some .other then some { s with parent := s.parent.close fd } else none
  | .acts i action => s.processes[i]?.bind fun p ↦ s.act i p action

/-! ## Separate pipes -/

/-- Nobody holds the write end of a child's stdin, so that reads from it see the end of the file. -/
def SeesEndOfFile (s : Family) (child : Nat) : Prop :=
  ¬ s.parent.Has (.pipe ⟨child, .stdin, true⟩) ∧
    ∀ p ∈ s.processes, ¬ p.table.Has (.pipe ⟨child, .stdin, true⟩)

/-- The processes of a child hold no pipe of another one, and a child whose stdin the parent has closed
sees its end. -/
structure PipesSeparate (s : Family) : Prop where
  own : ∀ p ∈ s.processes, ∀ pipeEnd, p.table.Has (.pipe pipeEnd) → pipeEnd.child = p.child
  endOfFile : ∀ child, s.created child → s.fds child .stdin = none → s.SeesEndOfFile child

def KeepsSeparate (s : Family) (e : FamilyEvent) : Prop := ∀ s', s.step e = some s' → s'.PipesSeparate

/-- A fork finds no pipe of an earlier call in the parent's table, but where the child redirects it. -/
def ForksAlone (s : Family) : FamilyEvent → Prop
  | .spawn pipes true =>
    ∀ t, openPipes s.parent s.calls pipes = some t →
      ∀ fd pipeEnd, s.parent fd = some (.pipe pipeEnd) → Redirected pipes fd
  | _ => True

end Family

/-! ## What pipe() adds -/

section

variable {t u : Descriptors} {child fd : Nat} {stream : StdStream} {entry : Entry}

/-- A table after the pipes in `fds` were made for a child: the old entries and the new ones. -/
structure Opened (t : Descriptors) (child : Nat) (fds : StdStream → Option PipeFds) (u : Descriptors) :
    Prop where
  keeps : ∀ fd entry, t fd = some entry → u fd = some entry
  opened : ∀ stream, ∀ p ∈ fds stream, u p.read = some (.pipe ⟨child, stream, false⟩) ∧
    u p.write = some (.pipe ⟨child, stream, true⟩)
  entries : ∀ fd entry, u fd = some entry → t fd = some entry ∨
    ∃ stream, ∃ p ∈ fds stream, fd = p.read ∧ entry = .pipe ⟨child, stream, false⟩ ∨
      fd = p.write ∧ entry = .pipe ⟨child, stream, true⟩

theorem openPipe_cases {fds : Option PipeFds} (hopen : openPipe t child stream fds = some u) :
    (∀ fd entry, t fd = some entry → u fd = some entry) ∧
    (∀ p ∈ fds, u p.read = some (.pipe ⟨child, stream, false⟩) ∧
      u p.write = some (.pipe ⟨child, stream, true⟩)) ∧
    ∀ fd entry, u fd = some entry → t fd = some entry ∨
      ∃ p ∈ fds, fd = p.read ∧ entry = .pipe ⟨child, stream, false⟩ ∨
        fd = p.write ∧ entry = .pipe ⟨child, stream, true⟩ := by
  cases fds with
  | none =>
    obtain rfl := Option.some.inj hopen
    exact ⟨fun _ _ h ↦ h, fun p hp ↦ absurd hp (by simp), fun _ _ h ↦ .inl h⟩
  | some p =>
    obtain ⟨t₁, hread, hwrite⟩ := Option.bind_eq_some_iff.mp hopen
    refine ⟨fun fd entry h ↦ Table.openAt_keeps hwrite (Table.openAt_keeps hread h), ?_, fun fd entry h ↦ ?_⟩
    · intro p' hp
      obtain rfl := Option.some.inj hp
      exact ⟨Table.openAt_keeps hwrite (Table.openAt_new hread), Table.openAt_new hwrite⟩
    · obtain h | hnew := Table.openAt_entries hwrite h
      · obtain h | hnew := Table.openAt_entries hread h
        · exact .inl h
        · exact .inr ⟨p, rfl, .inl hnew⟩
      · exact .inr ⟨p, rfl, .inr hnew⟩

theorem openPipes_opened {pipes : Pipes} (hopen : openPipes t child pipes = some u) :
    Opened t child pipes.of u := by
  obtain ⟨t₁, hin, hopen⟩ := Option.bind_eq_some_iff.mp hopen
  obtain ⟨t₂, hout, herr⟩ := Option.bind_eq_some_iff.mp hopen
  obtain ⟨kin, oin, ein⟩ := openPipe_cases hin
  obtain ⟨kout, oout, eout⟩ := openPipe_cases hout
  obtain ⟨kerr, oerr, eerr⟩ := openPipe_cases herr
  refine ⟨fun fd entry h ↦ kerr fd entry (kout fd entry (kin fd entry h)), ?_, ?_⟩
  · intro stream p hp
    cases stream with
    | stdin =>
      obtain ⟨hread, hwrite⟩ := oin p hp
      exact ⟨kerr _ _ (kout _ _ hread), kerr _ _ (kout _ _ hwrite)⟩
    | stdout =>
      obtain ⟨hread, hwrite⟩ := oout p hp
      exact ⟨kerr _ _ hread, kerr _ _ hwrite⟩
    | stderr => exact oerr p hp
  · intro fd entry h
    obtain h | hnew := eerr fd entry h
    · obtain h | hnew := eout fd entry h
      · obtain h | hnew := ein fd entry h
        · exact .inl h
        · exact .inr ⟨.stdin, hnew⟩
      · exact .inr ⟨.stdout, hnew⟩
    · exact .inr ⟨.stderr, hnew⟩

end

/-! ## The child's table -/

section

variable {t u : Descriptors} {child fd dst : Nat} {entry : Entry} {fds : Option PipeFds}
  {ends : PipeFds → Nat × Nat} {pipes : Pipes}

/-- A pipe of the child itself is open under the number. -/
def OwnAt (t : Descriptors) (child fd : Nat) : Prop :=
  ∃ pipeEnd, t fd = some (.pipe pipeEnd) ∧ pipeEnd.child = child

theorem of_closeAbove (h : closeAbove t dst fd = some entry) : t fd = some entry := by
  unfold closeAbove at h
  split at h
  · exact (Table.of_close h).2
  · exact h

theorem of_closeUnused (h : closeUnused t fds fd = some entry) : t fd = some entry := by
  cases fds with
  | none => exact h
  | some p => exact of_closeAbove (of_closeAbove h)

theorem closeAbove_of_ne (h : fd ≠ dst) : closeAbove t dst fd = t fd := by
  unfold closeAbove
  split
  · exact Table.close_of_ne h
  · rfl

theorem closeUnused_of_ne (h : ∀ p ∈ fds, fd ≠ p.read ∧ fd ≠ p.write) :
    closeUnused t fds fd = t fd := by
  cases fds with
  | none => rfl
  | some p =>
    obtain ⟨hread, hwrite⟩ := h p rfl
    exact (closeAbove_of_ne hwrite).trans (closeAbove_of_ne hread)

theorem redirect_of_ne (hdst : ¬ (fd = dst ∧ fds.isSome)) (h : ∀ p ∈ fds, fd ≠ (ends p).2) :
    redirect t dst (fds.map ends) fd = t fd := by
  cases fds with
  | none => rfl
  | some p => exact (Table.close_of_ne (h p rfl)).trans (Table.dup2_of_ne fun heq ↦ hdst ⟨heq, rfl⟩)

theorem has_of_redirect (h : (redirect t dst (fds.map ends)).Has entry) : t.Has entry := by
  cases fds with
  | none => exact h
  | some p => exact Table.Has.of_dup2 (Table.Has.of_close h)

-- A pipe of the child stays under its number or is replaced by one of the child.
theorem OwnAt.redirect (h : OwnAt t child fd) (hown : ∀ p ∈ fds, OwnAt t child (ends p).1)
    (hne : ∀ p ∈ fds, fd ≠ (ends p).2) : OwnAt (redirect t dst (fds.map ends)) child fd := by
  cases fds with
  | none => exact h
  | some p =>
    have hclose := Table.close_of_ne (t := t.dup2 (ends p).1 dst) (hne p rfl)
    obtain ⟨pipeEnd, hfd, hchild⟩ := h
    obtain ⟨ownEnd, hsrc, hsrcChild⟩ := hown p rfl
    by_cases hdst : fd = dst
    · subst hdst
      exact ⟨ownEnd, hclose.trans (Table.dup2_self hsrc), hsrcChild⟩
    · exact ⟨pipeEnd, hclose.trans ((Table.dup2_of_ne hdst).trans hfd), hchild⟩

-- A pipe of another child was there before, and is not redirected.
theorem of_redirect {pipeEnd : PipeEnd} (hown : ∀ p ∈ fds, OwnAt t child (ends p).1)
    (h : redirect t dst (fds.map ends) fd = some (.pipe pipeEnd)) (hchild : pipeEnd.child ≠ child) :
    t fd = some (.pipe pipeEnd) ∧ ¬ (fd = dst ∧ fds.isSome) := by
  cases fds with
  | none => exact ⟨h, by simp⟩
  | some p =>
    obtain ⟨-, h⟩ := Table.of_close h
    obtain ⟨ownEnd, hsrc, hsrcChild⟩ := hown p rfl
    have hne : fd ≠ dst := by
      rintro rfl
      rw [Table.dup2_self hsrc, Option.some.injEq, Entry.pipe.injEq] at h
      exact hchild (h ▸ hsrcChild)
    rw [Table.dup2_of_ne hne] at h
    exact ⟨h, fun hdst ↦ hne hdst.1⟩

-- The ends of two streams have different numbers.
theorem Opened.ne {numbers : StdStream → Option PipeFds} {p p' : PipeFds}
    (hopen : Opened t child numbers u) (stream stream' : StdStream) (hp : p ∈ numbers stream)
    (hp' : p' ∈ numbers stream') (hne : stream ≠ stream') :
    p.write ≠ p'.write ∧ p.write ≠ p'.read := by
  have hwrite := (hopen.opened stream p hp).2
  obtain ⟨hread', hwrite'⟩ := hopen.opened stream' p' hp'
  constructor
  · intro heq
    rw [heq, hwrite'] at hwrite
    simp only [Option.some.injEq, Entry.pipe.injEq, PipeEnd.mk.injEq] at hwrite
    exact hne hwrite.2.1.symm
  · intro heq
    rw [heq, hread'] at hwrite
    simp only [Option.some.injEq, Entry.pipe.injEq, PipeEnd.mk.injEq] at hwrite
    exact hne hwrite.2.1.symm

theorem Opened.own_read {p : PipeFds} (hopen : Opened t child pipes.of u) (stream : StdStream)
    (hp : p ∈ pipes.of stream) : OwnAt u child p.read :=
  ⟨_, (hopen.opened stream p hp).1, rfl⟩

theorem Opened.own_write {p : PipeFds} (hopen : Opened t child pipes.of u) (stream : StdStream)
    (hp : p ∈ pipes.of stream) : OwnAt u child p.write :=
  ⟨_, (hopen.opened stream p hp).2, rfl⟩

-- The number of a pipe of another child is none of those of the new pipes.
theorem Opened.foreign_ne {pipeEnd : PipeEnd} (hopen : Opened t child pipes.of u)
    (hfd : u fd = some (.pipe pipeEnd)) (hchild : pipeEnd.child ≠ child) (stream : StdStream) :
    ∀ p ∈ pipes.of stream, fd ≠ p.read ∧ fd ≠ p.write := by
  intro p hp
  obtain ⟨hread, hwrite⟩ := hopen.opened stream p hp
  constructor
  · rintro rfl
    rw [hread, Option.some.injEq, Entry.pipe.injEq] at hfd
    exact hchild (congrArg PipeEnd.child hfd).symm
  · rintro rfl
    rw [hwrite, Option.some.injEq, Entry.pipe.injEq] at hfd
    exact hchild (congrArg PipeEnd.child hfd).symm

-- The three redirections find their sources open.
theorem Opened.sources (hopen : Opened t child pipes.of u) :
    let t₁ := redirect u 0 (pipes.stdin.map fun fds ↦ (fds.read, fds.write))
    let t₂ := redirect t₁ 1 (pipes.stdout.map fun fds ↦ (fds.write, fds.read))
    (∀ p ∈ pipes.stdin, OwnAt u child p.read) ∧ (∀ p ∈ pipes.stdout, OwnAt t₁ child p.write) ∧
      ∀ p ∈ pipes.stderr, OwnAt t₂ child p.write := by
  intro t₁ t₂
  have hin : ∀ p ∈ pipes.stdin, OwnAt u child p.read := fun p hp ↦ hopen.own_read .stdin hp
  have hstep (stream : StdStream) (hne : stream ≠ .stdin) :
      ∀ p ∈ pipes.of stream, OwnAt t₁ child p.write := by
    intro p hp
    apply (hopen.own_write stream hp).redirect hin
    exact fun p' hp' ↦ (hopen.ne stream .stdin hp hp' hne).1
  have hout : ∀ p ∈ pipes.stdout, OwnAt t₁ child p.write := hstep .stdout (by decide)
  refine ⟨hin, hout, fun p hp ↦ ?_⟩
  apply (hstep .stderr (by decide) p hp).redirect hout
  exact fun p' hp' ↦ (hopen.ne .stderr .stdout hp hp' (by decide)).2

-- Of the pipes of other children, a child holds those of the parent that it does not redirect.
theorem Opened.child_iff {pipeEnd : PipeEnd} (hopen : Opened t child pipes.of u)
    (hchild : pipeEnd.child ≠ child) :
    childDescriptors u pipes fd = some (.pipe pipeEnd) ↔
      t fd = some (.pipe pipeEnd) ∧ ¬ Redirected pipes fd := by
  obtain ⟨hin, hout, herr⟩ := hopen.sources
  constructor
  · intro h
    have h₃ := of_closeUnused (of_closeUnused (of_closeUnused h))
    obtain ⟨h₂, hnot₂⟩ := of_redirect herr h₃ hchild
    obtain ⟨h₁, hnot₁⟩ := of_redirect hout h₂ hchild
    obtain ⟨h₀, hnot₀⟩ := of_redirect hin h₁ hchild
    obtain hold | ⟨stream, p, hp, hnew | hnew⟩ := hopen.entries fd _ h₀
    · exact ⟨hold, not_or.mpr ⟨hnot₀, not_or.mpr ⟨hnot₁, hnot₂⟩⟩⟩
    · exact absurd (congrArg PipeEnd.child (Entry.pipe.inj hnew.2)) hchild
    · exact absurd (congrArg PipeEnd.child (Entry.pipe.inj hnew.2)) hchild
  · rintro ⟨hold, hnot⟩
    have h₀ := hopen.keeps fd _ hold
    have hne₀ : ∀ p ∈ pipes.stdin, fd ≠ p.read ∧ fd ≠ p.write := hopen.foreign_ne h₀ hchild .stdin
    have hne₁ : ∀ p ∈ pipes.stdout, fd ≠ p.read ∧ fd ≠ p.write := hopen.foreign_ne h₀ hchild .stdout
    have hne₂ : ∀ p ∈ pipes.stderr, fd ≠ p.read ∧ fd ≠ p.write := hopen.foreign_ne h₀ hchild .stderr
    obtain ⟨hnot₀, hnot⟩ := not_or.mp hnot
    obtain ⟨hnot₁, hnot₂⟩ := not_or.mp hnot
    unfold childDescriptors
    rw [closeUnused_of_ne hne₂, closeUnused_of_ne hne₁, closeUnused_of_ne hne₀,
      redirect_of_ne hnot₂ fun p hp ↦ (hne₂ p hp).1, redirect_of_ne hnot₁ fun p hp ↦ (hne₁ p hp).1,
      redirect_of_ne hnot₀ fun p hp ↦ (hne₀ p hp).2, h₀]

-- A child closes the write end of its stdin.
theorem Opened.child_write (hopen : Opened t child pipes.of u)
    (hfresh : ¬ t.Has (.pipe ⟨child, .stdin, true⟩)) :
    ¬ (childDescriptors u pipes).Has (.pipe ⟨child, .stdin, true⟩) := by
  rintro ⟨fd, hfd⟩
  have hafter := of_closeUnused (of_closeUnused (of_closeUnused hfd))
  obtain ⟨x, hx⟩ := has_of_redirect (has_of_redirect ⟨fd, hafter⟩)
  -- before it is closed the end has one number only
  have honly (y : Nat) (hy : u y = some (.pipe ⟨child, .stdin, true⟩)) :
      ∃ p ∈ pipes.stdin, y = p.write := by
    obtain hold | ⟨stream, p, hp, ⟨-, hnew⟩ | ⟨hwrite, hnew⟩⟩ := hopen.entries y _ hy
    · exact absurd ⟨y, hold⟩ hfresh
    · simp at hnew
    · obtain rfl : StdStream.stdin = stream := by
        simpa using hnew
      exact ⟨p, hp, hwrite⟩
  cases hstdin : pipes.stdin with
  | none =>
    rw [hstdin] at hx
    obtain ⟨p, hp, -⟩ := honly x hx
    rw [hstdin] at hp
    exact nomatch hp
  | some p =>
    rw [hstdin] at hx
    obtain ⟨hne, hx⟩ := Table.of_close hx
    obtain hx | ⟨-, hsrc⟩ := Table.of_dup2 hx
    · obtain ⟨p', hp', rfl⟩ := honly x hx
      obtain rfl := Option.some.inj (hstdin.symm.trans hp')
      exact hne rfl
    · have hread := (hopen.opened .stdin p hstdin).1
      rw [hread] at hsrc
      simp at hsrc

end

/-! ## The invariant -/

/-- A process with at most the pipe ends of another one, and of the same child. -/
def Process.Within (q p : Process) : Prop :=
  q.child = p.child ∧ ∀ pipeEnd, q.table.Has (.pipe pipeEnd) → p.table.Has (.pipe pipeEnd)

theorem Process.within_self (p : Process) : p.Within p := ⟨rfl, fun _ h ↦ h⟩

namespace Family

/-- Separate pipes, and where the write ends of the children's stdin are: in no process of the child,
and in the parent under the number in its object. -/
structure Coherent (s : Family) : Prop where
  own : ∀ p ∈ s.processes, ∀ pipeEnd, p.table.Has (.pipe pipeEnd) → pipeEnd.child = p.child
  noOwnWrite : ∀ p ∈ s.processes, ¬ p.table.Has (.pipe ⟨p.child, .stdin, true⟩)
  parentWrite : ∀ child fd, s.created child →
    s.parent fd = some (.pipe ⟨child, .stdin, true⟩) → s.fds child .stdin = some fd
  numbered : ∀ pipeEnd, s.parent.Has (.pipe pipeEnd) → pipeEnd.child < s.calls
  createdBefore : ∀ child, s.created child → child < s.calls

theorem coherent_start (others : Nat → Bool) : (start others).Coherent := by
  have hnone (fd : Nat) (pipeEnd : PipeEnd) : (start others).parent fd ≠ some (.pipe pipeEnd) := by
    show (if others fd then some Entry.other else none) ≠ some (.pipe pipeEnd)
    split <;> simp
  exact {
    own := fun p hp ↦ absurd hp List.not_mem_nil
    noOwnWrite := fun p hp ↦ absurd hp List.not_mem_nil
    parentWrite := fun child fd hcreated ↦ absurd hcreated Bool.false_ne_true
    numbered := fun pipeEnd ⟨fd, hfd⟩ ↦ absurd hfd (hnone fd pipeEnd)
    createdBefore := fun child hcreated ↦ absurd hcreated Bool.false_ne_true }

section

variable {s s' : Family} {child fd i : Nat} {p : Process} {pipes : Pipes}

theorem Coherent.separate (hs : s.Coherent) : s.PipesSeparate where
  own := hs.own
  endOfFile := by
    intro child hcreated hclosed
    constructor
    · rintro ⟨fd, hfd⟩
      have hopen := hs.parentWrite child fd hcreated hfd
      rw [hclosed] at hopen
      exact nomatch hopen
    · intro p hp hhas
      obtain rfl : child = p.child := hs.own p hp _ hhas
      exact hs.noOwnWrite p hp hhas

-- What only takes pipe ends away keeps the invariant.
theorem Coherent.narrow (hs : s.Coherent) (hcalls : s'.calls = s.calls)
    (hcreated : s'.created = s.created)
    (hparent : ∀ fd pipeEnd, s'.parent fd = some (.pipe pipeEnd) →
      s.parent fd = some (.pipe pipeEnd))
    (hfds : ∀ child fd, s'.parent fd = some (.pipe ⟨child, .stdin, true⟩) →
      s.fds child .stdin = some fd → s'.fds child .stdin = some fd)
    (hprocesses : ∀ q ∈ s'.processes, ∃ p ∈ s.processes, q.Within p) : s'.Coherent where
  own := by
    intro q hq pipeEnd hhas
    obtain ⟨p, hp, hchild, hends⟩ := hprocesses q hq
    rw [hchild]
    exact hs.own p hp pipeEnd (hends pipeEnd hhas)
  noOwnWrite := by
    intro q hq hhas
    obtain ⟨p, hp, hchild, hends⟩ := hprocesses q hq
    rw [hchild] at hhas
    exact hs.noOwnWrite p hp (hends _ hhas)
  parentWrite := by
    intro child fd hc hfd
    rw [hcreated] at hc
    exact hfds child fd hfd (hs.parentWrite child fd hc (hparent fd _ hfd))
  numbered := by
    rintro pipeEnd ⟨fd, hfd⟩
    rw [hcalls]
    exact hs.numbered pipeEnd ⟨fd, hparent fd _ hfd⟩
  createdBefore := by
    intro child hc
    rw [hcreated] at hc
    rw [hcalls]
    exact hs.createdBefore child hc

theorem of_closeFd {t : Descriptors} {number : Option Nat} {entry : Entry}
    (h : closeFd t number fd = some entry) : number ≠ some fd ∧ t fd = some entry := by
  cases number with
  | none => exact ⟨by simp, h⟩
  | some x =>
    obtain ⟨hne, h⟩ := Table.of_close h
    exact ⟨fun heq ↦ hne (Option.some.inj heq).symm, h⟩

theorem Coherent.closeStream (hs : s.Coherent) (child : Nat) (stream : StdStream) :
    (s.closeStream child stream).Coherent := by
  refine hs.narrow rfl rfl (fun fd pipeEnd h ↦ (of_closeFd h).2) ?_ fun q hq ↦ ⟨q, hq, q.within_self⟩
  intro child' fd hfd hnumber
  have hne := (of_closeFd hfd).1
  show Function.update s.fds child (Function.update (s.fds child) stream none) child' .stdin = some fd
  by_cases hchild : child' = child
  · subst hchild
    rw [Function.update_self]
    by_cases hstream : StdStream.stdin = stream
    · subst hstream
      exact absurd hnumber hne
    · rw [Function.update_of_ne hstream]
      exact hnumber
  · rw [Function.update_of_ne hchild]
    exact hnumber

theorem Coherent.closeAll (hs : s.Coherent) (child : Nat) : (s.closeAll child).Coherent :=
  ((hs.closeStream child .stdin).closeStream child .stdout).closeStream child .stderr

-- An action of a process brings no pipe end that it did not have.
theorem act_processes {action : ProcessAction} (hp : s.processes[i]? = some p)
    (hact : s.act i p action = some s') : ∀ q ∈ s'.processes, ∃ p ∈ s.processes, q.Within p := by
  have hmem : p ∈ s.processes := List.mem_of_getElem? hp
  have hset {t : Descriptors} (ht : ∀ pipeEnd, t.Has (.pipe pipeEnd) → p.table.Has (.pipe pipeEnd)) :
      ∀ q ∈ s.processes.set i { p with table := t }, ∃ p ∈ s.processes, q.Within p := by
    intro q hq
    obtain hq | rfl := List.mem_or_eq_of_mem_set hq
    · exact ⟨q, hq, q.within_self⟩
    · exact ⟨p, hmem, rfl, ht⟩
  cases action with
  | opens fd =>
    obtain ⟨t, hopen, rfl⟩ := Option.map_eq_some_iff.mp hact
    refine hset fun pipeEnd hhas ↦ ?_
    obtain hnew | hold := Table.Has.of_openAt hopen hhas
    · exact nomatch hnew
    · exact hold
  | closes fd =>
    obtain rfl := Option.some.inj hact
    exact hset fun pipeEnd ↦ Table.Has.of_close
  | dups src dst =>
    obtain rfl := Option.some.inj hact
    exact hset fun pipeEnd ↦ Table.Has.of_dup2
  | forks =>
    obtain rfl := Option.some.inj hact
    intro q hq
    obtain hq | hq := List.mem_append.mp hq
    · exact ⟨q, hq, q.within_self⟩
    · obtain rfl := List.mem_singleton.mp hq
      exact ⟨p, hmem, rfl, fun _ h ↦ h⟩
  | exits =>
    obtain rfl := Option.some.inj hact
    intro q hq
    exact ⟨q, List.mem_of_mem_eraseIdx hq, q.within_self⟩

theorem act_frame {action : ProcessAction} (hact : s.act i p action = some s') :
    s'.calls = s.calls ∧ s'.created = s.created ∧ s'.parent = s.parent ∧ s'.fds = s.fds := by
  cases action with
  | opens fd =>
    obtain ⟨t, -, rfl⟩ := Option.map_eq_some_iff.mp hact
    exact ⟨rfl, rfl, rfl, rfl⟩
  | closes fd | dups src dst | forks | exits =>
    obtain rfl := Option.some.inj hact
    exact ⟨rfl, rfl, rfl, rfl⟩

theorem Coherent.act {action : ProcessAction} (hs : s.Coherent) (hp : s.processes[i]? = some p)
    (hact : s.act i p action = some s') : s'.Coherent := by
  obtain ⟨hcalls, hcreated, hparent, hfds⟩ := act_frame hact
  refine hs.narrow hcalls hcreated ?_ ?_ (act_processes hp hact)
  · rw [hparent]
    exact fun _ _ h ↦ h
  · rw [hfds]
    exact fun _ _ _ h ↦ h

/-! ## Spawning -/

theorem of_parentDescriptors {t : Descriptors} {entry : Entry}
    (h : parentDescriptors t pipes fd = some entry) : t fd = some entry :=
  (of_closeFd (of_closeFd (of_closeFd h).2).2).2

-- No pipe of the next call exists before it.
theorem Coherent.fresh (hs : s.Coherent) (pipeEnd : PipeEnd) (hchild : pipeEnd.child = s.calls) :
    ¬ s.parent.Has (.pipe pipeEnd) := by
  intro hhas
  have := hs.numbered pipeEnd hhas
  omega

theorem Coherent.not_created (hs : s.Coherent) : ¬ s.created s.calls := by
  intro hcreated
  have := hs.createdBefore s.calls hcreated
  omega

theorem Coherent.numbered_opened {t : Descriptors} {pipeEnd : PipeEnd} (hs : s.Coherent)
    (hopen : Opened s.parent s.calls pipes.of t) (h : t fd = some (.pipe pipeEnd)) :
    pipeEnd.child < s.calls + 1 := by
  obtain hold | ⟨stream, q, -, ⟨-, hnew⟩ | ⟨-, hnew⟩⟩ := hopen.entries fd _ h
  · exact Nat.lt_succ_of_lt (hs.numbered pipeEnd ⟨fd, hold⟩)
  · rw [Entry.pipe.inj hnew]
    exact Nat.lt_succ_self _
  · rw [Entry.pipe.inj hnew]
    exact Nat.lt_succ_self _

-- The write ends after the pipes of a call were made: the old ones and the new one.
theorem Coherent.write_opened {t : Descriptors} (hs : s.Coherent)
    (hopen : Opened s.parent s.calls pipes.of t) (h : t fd = some (.pipe ⟨child, .stdin, true⟩)) :
    (s.created child → s.fds child .stdin = some fd) ∧
      (child = s.calls → rawResult pipes .stdin = some fd) := by
  obtain hold | ⟨stream, q, hq, ⟨-, hnew⟩ | ⟨hwrite, hnew⟩⟩ := hopen.entries fd _ h
  · refine ⟨fun hcreated ↦ hs.parentWrite child fd hcreated hold, fun hchild ↦ ?_⟩
    exact absurd ⟨fd, hold⟩ (hs.fresh _ hchild)
  · simp at hnew
  · simp only [Entry.pipe.injEq, PipeEnd.mk.injEq, and_true] at hnew
    obtain ⟨rfl, rfl⟩ := hnew
    refine ⟨fun hcreated ↦ absurd hcreated hs.not_created, fun _ ↦ ?_⟩
    show Option.map PipeFds.write pipes.stdin = some fd
    rw [show pipes.stdin = some q from hq, hwrite]
    rfl

theorem Coherent.forkFailed {t : Descriptors} (hs : s.Coherent)
    (hopen : Opened s.parent s.calls pipes.of t) :
    Coherent { s with calls := s.calls + 1, parent := t } where
  own := hs.own
  noOwnWrite := hs.noOwnWrite
  parentWrite := fun _ _ hcreated hfd ↦ (hs.write_opened hopen hfd).1 hcreated
  numbered := fun _ ⟨_, hfd⟩ ↦ hs.numbered_opened hopen hfd
  createdBefore := fun child hcreated ↦ Nat.lt_succ_of_lt (hs.createdBefore child hcreated)

-- The new child holds pipes of its own only, exactly if the parent had no others where they survive.
theorem own_child_iff {t : Descriptors} (hs : s.Coherent)
    (hopen : Opened s.parent s.calls pipes.of t) :
    (∀ pipeEnd, (childDescriptors t pipes).Has (.pipe pipeEnd) → pipeEnd.child = s.calls) ↔
      ∀ fd pipeEnd, s.parent fd = some (.pipe pipeEnd) → Redirected pipes fd := by
  constructor
  · intro hown fd pipeEnd hfd
    have hchild : pipeEnd.child ≠ s.calls := fun heq ↦ hs.fresh pipeEnd heq ⟨fd, hfd⟩
    by_contra hnot
    exact hchild (hown pipeEnd ⟨fd, (hopen.child_iff hchild).mpr ⟨hfd, hnot⟩⟩)
  · rintro halone pipeEnd ⟨fd, hfd⟩
    by_contra hchild
    obtain ⟨hold, hnot⟩ := (hopen.child_iff hchild).mp hfd
    exact hnot (halone fd pipeEnd hold)

theorem Coherent.forked {t : Descriptors} (hs : s.Coherent)
    (hopen : Opened s.parent s.calls pipes.of t)
    (halone : ∀ fd pipeEnd, s.parent fd = some (.pipe pipeEnd) → Redirected pipes fd) :
    (s.forked pipes t).Coherent where
  own := by
    intro p hp
    obtain rfl | hp := List.mem_cons.mp hp
    · exact (own_child_iff hs hopen).mpr halone
    · exact hs.own p hp
  noOwnWrite := by
    intro p hp
    obtain rfl | hp := List.mem_cons.mp hp
    · exact hopen.child_write (hs.fresh _ rfl)
    · exact hs.noOwnWrite p hp
  parentWrite := by
    intro child fd hcreated hfd
    obtain ⟨hold, hnew⟩ := hs.write_opened hopen (of_parentDescriptors hfd)
    show Function.update s.fds s.calls (rawResult pipes) child .stdin = some fd
    by_cases hchild : child = s.calls
    · subst hchild
      rw [Function.update_self]
      exact hnew rfl
    · have hcreated : Function.update s.created s.calls true child := hcreated
      rw [Function.update_of_ne hchild] at hcreated ⊢
      exact hold hcreated
  numbered := fun _ ⟨_, hfd⟩ ↦ hs.numbered_opened hopen (of_parentDescriptors hfd)
  createdBefore := by
    intro child hcreated
    have hcreated : Function.update s.created s.calls true child := hcreated
    show child < s.calls + 1
    by_cases hchild : child = s.calls
    · omega
    · rw [Function.update_of_ne hchild] at hcreated
      have := hs.createdBefore child hcreated
      omega

/-! ## Steps and runs -/

theorem Coherent.step {e : FamilyEvent} (hs : s.Coherent) (halone : s.ForksAlone e)
    (hstep : s.step e = some s') : s'.Coherent := by
  cases e with
  | spawn pipes forks =>
    obtain ⟨t, hopen, rfl⟩ := Option.map_eq_some_iff.mp hstep
    cases forks with
    | true => exact hs.forked (openPipes_opened hopen) (halone t hopen)
    | false => exact hs.forkFailed (openPipes_opened hopen)
  | stdinEnd child =>
    obtain rfl := Option.some.inj hstep
    exact hs.closeStream child .stdin
  | poll child =>
    obtain rfl := Option.some.inj hstep
    split
    · exact hs.closeAll child
    · exact hs
  | parentOpens fd =>
    obtain ⟨t, hopen, rfl⟩ := Option.map_eq_some_iff.mp hstep
    refine hs.narrow rfl rfl ?_ (fun _ _ _ h ↦ h) fun q hq ↦ ⟨q, hq, q.within_self⟩
    intro x pipeEnd hx
    obtain hold | ⟨-, hnew⟩ := Table.openAt_entries hopen hx
    · exact hold
    · exact nomatch hnew
  | parentCloses fd =>
    obtain ⟨-, hnext⟩ := Option.ite_none_right_eq_some.mp hstep
    obtain rfl := Option.some.inj hnext
    refine hs.narrow rfl rfl (fun x pipeEnd hx ↦ (Table.of_close hx).2) (fun _ _ _ h ↦ h) ?_
    exact fun q hq ↦ ⟨q, hq, q.within_self⟩
  | acts i action =>
    obtain ⟨p, hp, hact⟩ := Option.bind_eq_some_iff.mp hstep
    exact hs.act hp hact

theorem Coherent.keeps_iff (hs : s.Coherent) (e : FamilyEvent) :
    s.KeepsSeparate e ↔ s.ForksAlone e := by
  constructor
  · intro hkeeps
    cases e with
    | spawn pipes forks =>
      cases forks with
      | false => trivial
      | true =>
        intro t hopen
        have hsep := hkeeps (s.forked pipes t) (by
          rw [Family.step, createProcess, hopen]
          rfl)
        exact (own_child_iff hs (openPipes_opened hopen)).mp (hsep.own _ List.mem_cons_self)
    | _ => trivial
  · intro halone s' hstep
    exact (hs.step halone hstep).separate

end

/-- Separate pipes are kept in a run exactly if each fork finds no pipe of an earlier child in the
parent's table, but where the new child redirects it. -/
theorem keepsSeparate_iff (others : Nat → Bool) (es : List FamilyEvent) :
    Runs.Guarded step KeepsSeparate (start others) es ↔
      Runs.Guarded step ForksAlone (start others) es := by
  apply Runs.guarded_iff_guarded (fun s e (hs : s.Coherent) ↦ hs.keeps_iff e) _
    (coherent_start others)
  intro s e s' hs hkeeps hstep
  exact hs.step ((hs.keeps_iff e).mp hkeeps) hstep

/-- The second of two children inherits the write end of the first one's stdin, and the first sees no end
after `stdin.end()`. -/
theorem stdin_kept_open :
    ¬ Runs.Guarded step KeepsSeparate (start fun fd ↦ fd ≤ 2)
      [.spawn ⟨some ⟨3, 4⟩, some ⟨5, 6⟩, some ⟨7, 8⟩⟩ true,
        .spawn ⟨some ⟨3, 6⟩, some ⟨8, 9⟩, some ⟨10, 11⟩⟩ true, .stdinEnd 0] := by
  intro hrun
  have hend := (((hrun.2 _ rfl).2 _ rfl).1 _ rfl).endOfFile 0 rfl rfl
  exact hend.2 _ List.mem_cons_self ⟨4, rfl⟩

end Family

end QNode.ChildProcess
