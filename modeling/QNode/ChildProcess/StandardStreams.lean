import Mathlib.Data.List.Pairwise
import QNode.ChildProcess.Descriptors

/-!
# The standard streams of a child at exec

The child of `create_process` duplicates its ends of the pipes to 0, 1 and 2, one after another, and
closes the others.  Where the parent has some of these numbers closed, `pipe` hands them out, and a step
may then destroy an end that a later step needs, or one that an earlier step has put in place.
-/

open DescriptorTable

namespace QNode.ChildProcess

/-! ## The pipes of a call -/

def StdStream.all : List StdStream := [.stdin, .stdout, .stderr]

def StdStream.number : StdStream → Nat
  | .stdin => 0
  | .stdout => 1
  | .stderr => 2

/-- The child writes to the stream. -/
def StdStream.written : StdStream → Bool
  | .stdin => false
  | .stdout | .stderr => true

/-- `pipe`, which opens the two lowest numbers that are free, if there are two below the limit. -/
def makePipe (limit : Nat) (t : Descriptors) (child : Nat) (stream : StdStream) :
    Option (PipeFds × Descriptors) :=
  (t.lowest limit).bind fun read ↦
    let t₁ : Descriptors := Function.update t read (some (.pipe ⟨child, stream, false⟩))
    (t₁.lowest limit).map fun write ↦
      (⟨read, write⟩, Function.update t₁ write (some (.pipe ⟨child, stream, true⟩)))

def askPipe (limit : Nat) (t : Descriptors) (child : Nat) (stream : StdStream) (asked : Bool) :
    Option (Option PipeFds × Descriptors) :=
  if asked then (makePipe limit t child stream).map fun made ↦ (some made.1, made.2)
  else some (none, t)

/-- The pipes of the streams that are asked for, if all of them can be made, and the table with them. -/
def makePipes (limit : Nat) (t : Descriptors) (child : Nat) (asked : StdStream → Bool) :
    Option (Pipes × Descriptors) :=
  (askPipe limit t child .stdin (asked .stdin)).bind fun stdin ↦
    (askPipe limit stdin.2 child .stdout (asked .stdout)).bind fun stdout ↦
      (askPipe limit stdout.2 child .stderr (asked .stderr)).map fun stderr ↦
        (⟨stdin.1, stdout.1, stderr.1⟩, stderr.2)

/-! ## What the child has -/

/-- What a child has at `exec`: the ends of its pipes at their numbers, at the other standard numbers what
the parent had there, and its pipes nowhere else. -/
structure StreamsKept (t : Descriptors) (child : Nat) (asked : StdStream → Bool) (v : Descriptors) :
    Prop where
  piped : ∀ s, asked s = true → v s.number = some (.pipe ⟨child, s, s.written⟩)
  unpiped : ∀ s, asked s = false → v s.number = t s.number
  alone : ∀ fd pipeEnd, v fd = some (.pipe pipeEnd) → pipeEnd.child = child →
    ∃ s, asked s = true ∧ fd = s.number

/-- Where the ends of a pipe are, if it is at 0, 1 or 2. -/
structure LowEnds where
  own : Option Nat
  other : Option Nat
  dst : Nat
  deriving DecidableEq, Repr

/-- The numbers among 0, 1 and 2 that are free. -/
def freeLow (t : Descriptors) : List Nat := [0, 1, 2].filter fun fd ↦ (t fd).isNone

/-- The pipes of some streams take the free numbers in turn, the read end of each before its write end. -/
def lowEnds : List Nat → List StdStream → List LowEnds
  | _, [] => []
  | free, s :: ss =>
    (if s.written then ⟨free[1]?, free[0]?, s.number⟩ else ⟨free[0]?, free[1]?, s.number⟩) ::
      lowEnds (free.drop 2) ss

/-- No end of the parent is at the number of the same or an earlier stream, no end of the child at that of
an earlier one, and an end of the child at one of the three numbers is at that of a piped stream. -/
def Harmless (es : List LowEnds) : Prop :=
  (∀ e ∈ es, e.other ≠ some e.dst) ∧
    es.Pairwise (fun e e' ↦ e'.other ≠ some e.dst ∧ e'.own ≠ some e.dst) ∧
    ∀ e ∈ es, ∀ x ∈ e.own, ∃ e' ∈ es, e'.dst = x

instance (es : List LowEnds) : Decidable (Harmless es) := inferInstanceAs (Decidable (_ ∧ _ ∧ _))

/-! ## The redirections -/

/-- The child's end, and the parent's. -/
def PipeFds.own (fds : PipeFds) (s : StdStream) : Nat := if s.written then fds.write else fds.read

def PipeFds.other (fds : PipeFds) (s : StdStream) : Nat := if s.written then fds.read else fds.write

def Pipes.redirections (pipes : Pipes) : List Table.Redirection :=
  StdStream.all.filterMap fun s ↦
    (pipes.of s).map fun fds ↦ ⟨fds.own s, fds.other s, s.number⟩

section

variable {t u : Descriptors} {child fd : Nat} {pipes : Pipes} {r : Table.Redirection}

theorem StdStream.mem_all (s : StdStream) : s ∈ StdStream.all := by
  cases s <;> decide

theorem StdStream.number_le (s : StdStream) : s.number ≤ 2 := by
  cases s <;> decide

theorem StdStream.number_inj {s s' : StdStream} (h : s.number = s'.number) : s = s' := by
  cases s <;> cases s' <;> first | rfl | exact absurd h (by decide)

theorem mem_redirections : r ∈ pipes.redirections ↔
    ∃ s fds, pipes.of s = some fds ∧ r = ⟨fds.own s, fds.other s, s.number⟩ := by
  unfold Pipes.redirections
  rw [List.mem_filterMap]
  constructor
  · rintro ⟨s, -, h⟩
    obtain ⟨fds, hfds, rfl⟩ := Option.map_eq_some_iff.mp h
    exact ⟨s, fds, hfds, rfl⟩
  · rintro ⟨s, fds, hfds, rfl⟩
    exact ⟨s, s.mem_all, by rw [hfds, Option.map_some]⟩

theorem childDescriptors_eq (t : Descriptors) (pipes : Pipes) :
    childDescriptors t pipes = closeUnused (closeUnused (closeUnused
      (t.redirectAll pipes.redirections) pipes.stdin) pipes.stdout) pipes.stderr := by
  obtain ⟨stdin, stdout, stderr⟩ := pipes
  cases stdin <;> cases stdout <;> cases stderr <;> rfl

theorem closeAbove_low (t : Descriptors) (dst : Nat) (h : fd ≤ 2) : closeAbove t dst fd = t fd := by
  unfold closeAbove
  split
  next hhigh => exact Table.close_of_ne (by omega)
  next => rfl

theorem closeUnused_low (t : Descriptors) (fds : Option PipeFds) (h : fd ≤ 2) :
    closeUnused t fds fd = t fd := by
  cases fds with
  | none => rfl
  | some p => exact (closeAbove_low _ _ h).trans (closeAbove_low _ _ h)

theorem childDescriptors_low (h : fd ≤ 2) :
    childDescriptors u pipes fd = u.redirectAll pipes.redirections fd := by
  rw [childDescriptors_eq, closeUnused_low _ _ h, closeUnused_low _ _ h, closeUnused_low _ _ h]

-- What is open at a number above 2 is none of the ends.
theorem of_closeUnused_high {entry : Entry} {fds : Option PipeFds} (hfd : 2 < fd)
    (h : closeUnused t fds fd = some entry) : ∀ p ∈ fds, fd ≠ p.read ∧ fd ≠ p.write := by
  rintro p rfl
  have hclose : ∀ {t' : Descriptors} {dst : Nat}, closeAbove t' dst fd = some entry → fd ≠ dst := by
    rintro t' dst h rfl
    rw [closeAbove, if_pos hfd, Table.close_self] at h
    cases h
  exact ⟨hclose (of_closeAbove h), hclose h⟩

theorem of_childDescriptors_high {entry : Entry} (hfd : 2 < fd)
    (h : childDescriptors u pipes fd = some entry) :
    u fd = some entry ∧ ∀ s, ∀ p ∈ pipes.of s, fd ≠ p.read ∧ fd ≠ p.write := by
  rw [childDescriptors_eq] at h
  have hout := of_closeUnused h
  have hin := of_closeUnused hout
  refine ⟨?_, fun s ↦ ?_⟩
  · have hkept := of_closeUnused hin
    have hdst : fd ∉ pipes.redirections.map Table.Redirection.dst := by
      intro hmem
      obtain ⟨r, hr, rfl⟩ := List.mem_map.mp hmem
      obtain ⟨s, fds, -, rfl⟩ := mem_redirections.mp hr
      exact Nat.not_lt_of_le s.number_le hfd
    rw [Table.redirectAll_other hdst] at hkept
    exact (Option.ite_none_left_eq_some.mp hkept).2
  · cases s with
    | stdin => exact of_closeUnused_high hfd hin
    | stdout => exact of_closeUnused_high hfd hout
    | stderr => exact of_closeUnused_high hfd h

/-! ## The ends after pipe() -/

theorem Opened.own_entry (hopen : Opened t child pipes.of u) {s : StdStream} {fds : PipeFds}
    (hfds : pipes.of s = some fds) : u (fds.own s) = some (.pipe ⟨child, s, s.written⟩) := by
  obtain ⟨hread, hwrite⟩ := hopen.opened s fds hfds
  cases s with
  | stdin => exact hread
  | stdout | stderr => exact hwrite

theorem Opened.other_entry (hopen : Opened t child pipes.of u) {s : StdStream} {fds : PipeFds}
    (hfds : pipes.of s = some fds) : u (fds.other s) = some (.pipe ⟨child, s, !s.written⟩) := by
  obtain ⟨hread, hwrite⟩ := hopen.opened s fds hfds
  cases s with
  | stdin => exact hwrite
  | stdout | stderr => exact hread

-- With no pipe of the child before the call, its pipes are at the numbers that `pipe` returned.
theorem Opened.at_end (hopen : Opened t child pipes.of u)
    (hfresh : ∀ pipeEnd, t.Has (.pipe pipeEnd) → pipeEnd.child ≠ child) {pipeEnd : PipeEnd}
    (hfd : u fd = some (.pipe pipeEnd)) (hchild : pipeEnd.child = child) :
    ∃ s fds, pipes.of s = some fds ∧
      (fd = fds.own s ∧ pipeEnd = ⟨child, s, s.written⟩ ∨
        fd = fds.other s ∧ pipeEnd = ⟨child, s, !s.written⟩) := by
  rcases hopen.entries fd _ hfd with hold | ⟨s, fds, hfds, hnew⟩
  · exact absurd hchild (hfresh pipeEnd ⟨fd, hold⟩)
  · refine ⟨s, fds, hfds, ?_⟩
    rcases hnew with ⟨hread, hentry⟩ | ⟨hwrite, hentry⟩
    · cases s with
      | stdin => exact .inl ⟨hread, Entry.pipe.inj hentry⟩
      | stdout | stderr => exact .inr ⟨hread, Entry.pipe.inj hentry⟩
    · cases s with
      | stdin => exact .inr ⟨hwrite, Entry.pipe.inj hentry⟩
      | stdout | stderr => exact .inl ⟨hwrite, Entry.pipe.inj hentry⟩

theorem Opened.sources_open (hopen : Opened t child pipes.of u)
    (hfresh : ∀ pipeEnd, t.Has (.pipe pipeEnd) → pipeEnd.child ≠ child) :
    Table.Sources u pipes.redirections := by
  intro r hr
  obtain ⟨s, fds, hfds, rfl⟩ := mem_redirections.mp hr
  refine ⟨_, hopen.own_entry hfds, fun x hx ↦ ?_⟩
  obtain ⟨s', fds', hfds', ⟨hown, hentry⟩ | ⟨hother, hentry⟩⟩ := hopen.at_end hfresh hx rfl
  · obtain rfl : s = s' := congrArg PipeEnd.stream hentry
    obtain rfl := Option.some.inj (hfds.symm.trans hfds')
    exact hown
  · obtain rfl : s = s' := congrArg PipeEnd.stream hentry
    have hwrites : s.written = !s.written := congrArg PipeEnd.writes hentry
    cases s <;> cases hwrites

theorem Opened.separate (hopen : Opened t child pipes.of u) : Table.Separate pipes.redirections := by
  have hstreams : StdStream.all.Pairwise (· ≠ ·) := by decide
  refine List.pairwise_filterMap.mpr (hstreams.imp ?_)
  intro s s' hne r hr r' hr'
  obtain ⟨fds, hfds, rfl⟩ := Option.map_eq_some_iff.mp hr
  obtain ⟨fds', hfds', rfl⟩ := Option.map_eq_some_iff.mp hr'
  have hown' := hopen.own_entry hfds'
  refine ⟨fun hdst ↦ hne (StdStream.number_inj hdst), fun hown ↦ ?_, fun hother ↦ ?_⟩
  · have hentry := hopen.own_entry hfds
    rw [show fds.own s = fds'.own s' from hown, hown'] at hentry
    exact hne (congrArg PipeEnd.stream (Entry.pipe.inj (Option.some.inj hentry))).symm
  · have hentry := hopen.other_entry hfds
    rw [show fds.other s = fds'.own s' from hother, hown'] at hentry
    exact hne (congrArg PipeEnd.stream (Entry.pipe.inj (Option.some.inj hentry))).symm

theorem mem_dst : fd ∈ pipes.redirections.map Table.Redirection.dst ↔
    ∃ s, (pipes.of s).isSome ∧ fd = s.number := by
  rw [List.mem_map]
  constructor
  · rintro ⟨r, hr, rfl⟩
    obtain ⟨s, fds, hfds, rfl⟩ := mem_redirections.mp hr
    exact ⟨s, by rw [hfds]; rfl, rfl⟩
  · rintro ⟨s, hs, rfl⟩
    obtain ⟨fds, hfds⟩ := Option.isSome_iff_exists.mp hs
    exact ⟨_, mem_redirections.mpr ⟨s, fds, hfds, rfl⟩, rfl⟩

theorem mem_other : fd ∈ pipes.redirections.map Table.Redirection.other ↔
    ∃ s fds, pipes.of s = some fds ∧ fd = fds.other s := by
  rw [List.mem_map]
  constructor
  · rintro ⟨r, hr, rfl⟩
    obtain ⟨s, fds, hfds, rfl⟩ := mem_redirections.mp hr
    exact ⟨s, fds, hfds, rfl⟩
  · rintro ⟨s, fds, hfds, rfl⟩
    exact ⟨_, mem_redirections.mpr ⟨s, fds, hfds, rfl⟩, rfl⟩

theorem Opened.own_not_other (hopen : Opened t child pipes.of u) {s : StdStream} {fds : PipeFds}
    (hfds : pipes.of s = some fds) :
    fds.own s ∉ pipes.redirections.map Table.Redirection.other := by
  intro hmem
  obtain ⟨s', fds', hfds', heq⟩ := mem_other.mp hmem
  have hentry := hopen.own_entry hfds
  rw [heq, hopen.other_entry hfds'] at hentry
  have hend := Entry.pipe.inj (Option.some.inj hentry)
  obtain rfl : s' = s := congrArg PipeEnd.stream hend
  have hwrites : (!s'.written) = s'.written := congrArg PipeEnd.writes hend
  cases s' <;> cases hwrites

-- Every end of the child at a standard number is overwritten.
def NoneLeft (pipes : Pipes) : Prop :=
  ∀ r ∈ pipes.redirections, r.own ≤ 2 → ∃ r' ∈ pipes.redirections, r'.dst = r.own

theorem NoneLeft.mem_dst (hleft : NoneLeft pipes) (hopen : Opened t child pipes.of u)
    (hfresh : ∀ pipeEnd, t.Has (.pipe pipeEnd) → pipeEnd.child ≠ child) (hlow : fd ≤ 2)
    {pipeEnd : PipeEnd} (hfd : u fd = some (.pipe pipeEnd)) (hchild : pipeEnd.child = child)
    (hother : fd ∉ pipes.redirections.map Table.Redirection.other) :
    fd ∈ pipes.redirections.map Table.Redirection.dst := by
  obtain ⟨s, fds, hfds, ⟨rfl, -⟩ | ⟨heq, -⟩⟩ := hopen.at_end hfresh hfd hchild
  · obtain ⟨r', hr', heq⟩ := hleft _ (mem_redirections.mpr ⟨s, fds, hfds, rfl⟩) hlow
    exact List.mem_map.mpr ⟨r', hr', heq⟩
  · exact absurd (mem_other.mpr ⟨s, fds, hfds, heq⟩) hother

-- A number that is not redirected to ends up as the parent had it.
theorem NoneLeft.unpiped (hleft : NoneLeft pipes) (hopen : Opened t child pipes.of u)
    (hfresh : ∀ pipeEnd, t.Has (.pipe pipeEnd) → pipeEnd.child ≠ child) (hlow : fd ≤ 2)
    (hdst : fd ∉ pipes.redirections.map Table.Redirection.dst) :
    childDescriptors u pipes fd = t fd := by
  rw [childDescriptors_low hlow, Table.redirectAll_other hdst]
  by_cases hother : fd ∈ pipes.redirections.map Table.Redirection.other
  · rw [if_pos hother]
    obtain ⟨s, fds, hfds, rfl⟩ := mem_other.mp hother
    cases ht : t (fds.other s) with
    | none => rfl
    | some entry =>
      have hkept := hopen.keeps _ _ ht
      rw [hopen.other_entry hfds] at hkept
      obtain rfl := Option.some.inj hkept
      exact absurd rfl (hfresh _ ⟨_, ht⟩)
  · rw [if_neg hother]
    cases ht : t fd with
    | some entry => exact hopen.keeps _ _ ht
    | none =>
      cases hu : u fd with
      | none => rfl
      | some entry =>
        rcases hopen.entries fd entry hu with hold | ⟨s, p, -, ⟨-, rfl⟩ | ⟨-, rfl⟩⟩
        · rw [ht] at hold
          cases hold
        · exact absurd (hleft.mem_dst hopen hfresh hlow hu rfl hother) hdst
        · exact absurd (hleft.mem_dst hopen hfresh hlow hu rfl hother) hdst

theorem NoneLeft.alone (hleft : NoneLeft pipes) (hopen : Opened t child pipes.of u)
    (hfresh : ∀ pipeEnd, t.Has (.pipe pipeEnd) → pipeEnd.child ≠ child) {pipeEnd : PipeEnd}
    (hfd : childDescriptors u pipes fd = some (.pipe pipeEnd)) (hchild : pipeEnd.child = child) :
    fd ∈ pipes.redirections.map Table.Redirection.dst := by
  by_cases hlow : fd ≤ 2
  · by_contra hdst
    rw [childDescriptors_low hlow, Table.redirectAll_other hdst] at hfd
    obtain ⟨hother, hfd⟩ := Option.ite_none_left_eq_some.mp hfd
    exact hdst (hleft.mem_dst hopen hfresh hlow hfd hchild hother)
  · obtain ⟨hfd, hnot⟩ := of_childDescriptors_high (Nat.lt_of_not_le hlow) hfd
    obtain ⟨s, fds, hfds, ⟨heq, -⟩ | ⟨heq, -⟩⟩ := hopen.at_end hfresh hfd hchild
    · obtain ⟨hread, hwrite⟩ := hnot s fds hfds
      cases s with
      | stdin => exact absurd heq hread
      | stdout | stderr => exact absurd heq hwrite
    · obtain ⟨hread, hwrite⟩ := hnot s fds hfds
      cases s with
      | stdin => exact absurd heq hwrite
      | stdout | stderr => exact absurd heq hread

/-- For any free numbers, the streams of the child are right precisely if the redirections do not disturb
each other and overwrite each end of the child that is at a standard number. -/
theorem Opened.streams_iff {asked : StdStream → Bool} (hopen : Opened t child pipes.of u)
    (hfresh : ∀ pipeEnd, t.Has (.pipe pipeEnd) → pipeEnd.child ≠ child)
    (hasked : ∀ s, asked s = (pipes.of s).isSome) :
    StreamsKept t child asked (childDescriptors u pipes) ↔
      Table.Undisturbed pipes.redirections ∧ NoneLeft pipes := by
  rw [← Table.redirectAll_iff (hopen.sources_open hfresh) hopen.separate]
  constructor
  · intro hkept
    refine ⟨fun r hr ↦ ?_, fun r hr hlow ↦ ?_⟩
    · obtain ⟨s, fds, hfds, rfl⟩ := mem_redirections.mp hr
      have hpiped := hkept.piped s (by rw [hasked, hfds]; rfl)
      rw [childDescriptors_low s.number_le] at hpiped
      exact hpiped.trans (hopen.own_entry hfds).symm
    · obtain ⟨s, fds, hfds, rfl⟩ := mem_redirections.mp hr
      rw [← List.mem_map]
      by_contra hdst
      have hentry : childDescriptors u pipes (fds.own s) = some (.pipe ⟨child, s, s.written⟩) := by
        rw [childDescriptors_low hlow, Table.redirectAll_other hdst, if_neg (hopen.own_not_other hfds),
          hopen.own_entry hfds]
      obtain ⟨s', hs', heq⟩ := hkept.alone _ _ hentry rfl
      exact hdst (mem_dst.mpr ⟨s', (hasked s').symm.trans hs', heq⟩)
  · rintro ⟨hfinal, hleft⟩
    refine ⟨fun s hs ↦ ?_, fun s hs ↦ ?_, fun fd pipeEnd hfd hchild ↦ ?_⟩
    · rw [hasked] at hs
      obtain ⟨fds, hfds⟩ := Option.isSome_iff_exists.mp hs
      rw [childDescriptors_low s.number_le]
      exact (hfinal _ (mem_redirections.mpr ⟨s, fds, hfds, rfl⟩)).trans (hopen.own_entry hfds)
    · apply hleft.unpiped hopen hfresh s.number_le
      intro hmem
      obtain ⟨s', hs', heq⟩ := mem_dst.mp hmem
      rw [← hasked, ← StdStream.number_inj heq, hs] at hs'
      cases hs'
    · obtain ⟨s, hs, heq⟩ := mem_dst.mp (hleft.alone hopen hfresh hfd hchild)
      exact ⟨s, (hasked s).trans hs, heq⟩

end

/-! ## The lowest free numbers -/

section

variable {limit fd child : Nat} {t u : Descriptors}

def lowNumber (fd : Nat) : Option Nat := if fd ≤ 2 then some fd else none

theorem lowNumber_eq_some {x : Nat} (hx : x ≤ 2) : lowNumber fd = some x ↔ fd = x := by
  unfold lowNumber
  split
  next => rw [Option.some.injEq]
  next hhigh => exact iff_of_false (fun h ↦ nomatch h) (by omega)

theorem mem_lowNumber {x : Nat} : x ∈ lowNumber fd ↔ fd ≤ 2 ∧ x = fd := by
  unfold lowNumber
  split
  next hlow => simp [hlow, eq_comm]
  next hhigh => simp [hhigh]

/-- The lowest free number is the first of those among 0, 1 and 2, and takes it from them. -/
theorem freeLow_of_lowest (h : t.lowest limit = some fd) (entry : Entry) :
    (freeLow t)[0]? = lowNumber fd ∧
      freeLow (Function.update t fd (some entry)) = (freeLow t).drop 1 := by
  obtain ⟨hfree, hbelow⟩ := Table.of_lowest h
  have hopen : ∀ x < fd, (t x).isNone = false := by
    intro x hx
    rw [Option.isNone_eq_false_iff, Option.isSome_iff_ne_none]
    exact hbelow x hx
  unfold freeLow lowNumber
  match fd with
  | 0 => simp [hfree, List.filter_cons]
  | 1 => simp [hfree, hopen 0, List.filter_cons]
  | 2 => simp [hfree, hopen 0, hopen 1]
  | fd + 3 => simp [hopen 0, hopen 1, hopen 2]

theorem makePipe_low {stream : StdStream} {fds : PipeFds}
    (h : makePipe limit t child stream = some (fds, u)) :
    openPipe t child stream (some fds) = some u ∧ lowNumber fds.read = (freeLow t)[0]? ∧
      lowNumber fds.write = (freeLow t)[1]? ∧ freeLow u = (freeLow t).drop 2 := by
  obtain ⟨read, hread, h⟩ := Option.bind_eq_some_iff.mp h
  obtain ⟨write, hwrite, heq⟩ := Option.map_eq_some_iff.mp h
  obtain ⟨rfl, rfl⟩ := Prod.mk.inj heq
  obtain ⟨hfirst, hdrop⟩ := freeLow_of_lowest hread (.pipe ⟨child, stream, false⟩)
  obtain ⟨hsecond, hdrop'⟩ := freeLow_of_lowest hwrite (.pipe ⟨child, stream, true⟩)
  refine ⟨?_, hfirst.symm, ?_, ?_⟩
  · rw [openPipe, Table.openAt_eq_some_iff.mpr ⟨(Table.of_lowest hread).1, rfl⟩, Option.bind_some]
    exact Table.openAt_eq_some_iff.mpr ⟨(Table.of_lowest hwrite).1, rfl⟩
  · rw [← hsecond, hdrop, List.getElem?_drop]
  · rw [hdrop', hdrop, List.drop_drop]

def lowEnd (r : Table.Redirection) : LowEnds := ⟨lowNumber r.own, lowNumber r.other, r.dst⟩

/-- The ends of a stream, if it has a pipe. -/
def streamEnds (s : StdStream) (made : Option PipeFds) : List LowEnds :=
  (made.map fun fds ↦ lowEnd ⟨fds.own s, fds.other s, s.number⟩).toList

def askedStream (s : StdStream) (asked : Bool) : List StdStream := if asked then [s] else []

-- A stream takes its numbers from the free ones and leaves the others to the next streams.
theorem askPipe_low {s : StdStream} {asked : Bool} {made : Option PipeFds}
    (h : askPipe limit t child s asked = some (made, u)) (next : List StdStream) :
    openPipe t child s made = some u ∧ asked = made.isSome ∧
      streamEnds s made ++ lowEnds (freeLow u) next = lowEnds (freeLow t) (askedStream s asked ++ next) := by
  cases asked with
  | false =>
    obtain ⟨rfl, rfl⟩ := Prod.mk.inj (Option.some.inj h)
    exact ⟨rfl, rfl, rfl⟩
  | true =>
    obtain ⟨⟨fds, u'⟩, hmade, heq⟩ := Option.map_eq_some_iff.mp h
    obtain ⟨rfl, rfl⟩ := Prod.mk.inj heq
    obtain ⟨hopen, hread, hwrite, hdrop⟩ := makePipe_low hmade
    refine ⟨hopen, rfl, ?_⟩
    show lowEnd _ :: lowEnds (freeLow u') next = lowEnds (freeLow t) (s :: next)
    rw [lowEnds, ← hread, ← hwrite, ← hdrop]
    cases s <;> rfl

-- The low numbers of the ends are those that the free numbers give.
theorem makePipes_low {asked : StdStream → Bool} {pipes : Pipes}
    (h : makePipes limit t child asked = some (pipes, u)) :
    openPipes t child pipes = some u ∧ (∀ s, asked s = (pipes.of s).isSome) ∧
      pipes.redirections.map lowEnd = lowEnds (freeLow t) (StdStream.all.filter asked) := by
  obtain ⟨⟨stdin, t₁⟩, hin, h⟩ := Option.bind_eq_some_iff.mp h
  obtain ⟨⟨stdout, t₂⟩, hout, h⟩ := Option.bind_eq_some_iff.mp h
  obtain ⟨⟨stderr, t₃⟩, herr, heq⟩ := Option.map_eq_some_iff.mp h
  obtain ⟨rfl, rfl⟩ := Prod.mk.inj heq
  obtain ⟨oerr, aerr, lerr⟩ := askPipe_low herr []
  obtain ⟨oout, aout, lout⟩ := askPipe_low hout (askedStream .stderr (asked .stderr) ++ [])
  obtain ⟨oin, ain, lin⟩ := askPipe_low hin
    (askedStream .stdout (asked .stdout) ++ (askedStream .stderr (asked .stderr) ++ []))
  refine ⟨?_, ?_, ?_⟩
  · rw [openPipes, oin, Option.bind_some, oout, Option.bind_some, oerr]
  · intro s
    cases s with
    | stdin => exact ain
    | stdout => exact aout
    | stderr => exact aerr
  · have hstreams : StdStream.all.filter asked = askedStream .stdin (asked .stdin) ++
        (askedStream .stdout (asked .stdout) ++ (askedStream .stderr (asked .stderr) ++ [])) := by
      unfold StdStream.all askedStream
      cases hstdin : asked .stdin <;> cases hstdout : asked .stdout <;> cases hstderr : asked .stderr <;>
        simp [hstdin, hstdout, hstderr]
    rw [hstreams, ← lin, ← lout, ← lerr]
    cases stdin <;> cases stdout <;> cases stderr <;> rfl

/-! ## Which streams are right -/

theorem harmless_iff (pipes : Pipes) :
    Harmless (pipes.redirections.map lowEnd) ↔
      Table.Undisturbed pipes.redirections ∧ NoneLeft pipes := by
  have hdst : ∀ r ∈ pipes.redirections, r.dst ≤ 2 := by
    intro r hr
    obtain ⟨s, fds, -, rfl⟩ := mem_redirections.mp hr
    exact s.number_le
  have hne : ∀ r ∈ pipes.redirections, ∀ fd, lowNumber fd ≠ some r.dst ↔ fd ≠ r.dst :=
    fun r hr fd ↦ not_congr (lowNumber_eq_some (hdst r hr))
  unfold Harmless Table.Undisturbed
  rw [List.forall_mem_map, List.pairwise_map, List.forall_mem_map, and_assoc]
  refine and_congr ?_ (and_congr ?_ ?_)
  · exact forall₂_congr fun r hr ↦ hne r hr r.other
  · apply List.Pairwise.iff_of_mem
    intro r r' hr _
    exact and_congr (hne r hr r'.other) (hne r hr r'.own)
  · refine forall₂_congr fun r _ ↦ ?_
    constructor
    · intro h hlow
      obtain ⟨e, he, heq⟩ := h r.own (mem_lowNumber.mpr ⟨hlow, rfl⟩)
      obtain ⟨r', hr', rfl⟩ := List.mem_map.mp he
      exact ⟨r', hr', heq⟩
    · intro h x hx
      obtain ⟨hlow, rfl⟩ := mem_lowNumber.mp hx
      obtain ⟨r', hr', heq⟩ := h hlow
      exact ⟨lowEnd r', List.mem_map_of_mem hr', heq⟩

/-- When the child comes to `exec`, its streams are right precisely if the pipes find the low numbers that
are free harmless. -/
theorem child_streams_iff (limit : Nat) (t : Descriptors) (child : Nat) (asked : StdStream → Bool)
    (pipes : Pipes) (u : Descriptors)
    (hfresh : ∀ pipeEnd, t.Has (.pipe pipeEnd) → pipeEnd.child ≠ child)
    (hpipes : makePipes limit t child asked = some (pipes, u)) :
    StreamsKept t child asked (childDescriptors u pipes) ↔
      Harmless (lowEnds (freeLow t) (StdStream.all.filter asked)) := by
  obtain ⟨hopen, hasked, hlow⟩ := makePipes_low hpipes
  rw [(openPipes_opened hopen).streams_iff hfresh hasked, ← hlow, harmless_iff]

end

/-! ## A parent without stdout -/

/-- The parent has 0 and 2 open. -/
def withoutStdout : Descriptors := fun fd ↦ if fd = 0 ∨ fd = 2 then some .other else none

def onlyStdout (s : StdStream) : Bool := s = .stdout

theorem withoutStdout_fresh (pipeEnd : PipeEnd) (h : withoutStdout.Has (.pipe pipeEnd)) :
    pipeEnd.child ≠ 0 := by
  obtain ⟨fd, hfd⟩ := h
  exact nomatch (Option.ite_none_right_eq_some.mp hfd).2

/-- The two ends of the pipe are at 1 and 3. -/
def stdoutPipe : Pipes := ⟨none, some ⟨1, 3⟩, none⟩

def stdoutPiped : Descriptors :=
  Function.update (Function.update withoutStdout 1 (some (.pipe ⟨0, .stdout, false⟩))) 3
    (some (.pipe ⟨0, .stdout, true⟩))

theorem makePipes_withoutStdout :
    makePipes 16 withoutStdout 0 onlyStdout = some (stdoutPipe, stdoutPiped) := rfl

theorem child_streams_withoutStdout :
    StreamsKept withoutStdout 0 onlyStdout (childDescriptors stdoutPiped stdoutPipe) ↔
      Harmless (lowEnds (freeLow withoutStdout) (StdStream.all.filter onlyStdout)) :=
  child_streams_iff 16 withoutStdout 0 onlyStdout stdoutPipe stdoutPiped withoutStdout_fresh
    makePipes_withoutStdout

/-- The child duplicates 3 to 1 and then closes 1, which was the read end. -/
theorem child_without_stdout :
    ¬ ∀ (limit : Nat) (t : Descriptors) (child : Nat) (asked : StdStream → Bool) (pipes : Pipes)
      (u : Descriptors), (∀ pipeEnd, t.Has (.pipe pipeEnd) → pipeEnd.child ≠ child) →
      makePipes limit t child asked = some (pipes, u) →
      StreamsKept t child asked (childDescriptors u pipes) := by
  intro h
  have hkept := h 16 withoutStdout 0 onlyStdout stdoutPipe stdoutPiped withoutStdout_fresh
    makePipes_withoutStdout
  have hclosed : childDescriptors stdoutPiped stdoutPipe 1 = none := rfl
  have hopen := hkept.piped .stdout rfl
  rw [show StdStream.stdout.number = 1 from rfl, hclosed] at hopen
  cases hopen

end QNode.ChildProcess
