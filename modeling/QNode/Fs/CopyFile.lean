import Mathlib.Data.List.TakeDrop
import Mathlib.Order.Monotone.Basic
import QNode.Fs.Files
import QNode.Library.HardLinks

/-!
# copyFileSync

The copy opens both files, the second for writing, and then goes round a loop of `fread` and `fwrite`.
A file may have several names, so that both may be the same; what the C library and the system make of
each call is given from outside.
-/

open FileTree

namespace QNode.Fs

abbrev Disk : Type := Volume Name (List UInt8)

def copyBufSize : Nat := 8192

/-- What becomes of the calls of one copy.  Counted from the first round of the loop: how many bytes
`fread` delivers at most before an error, how many `fwrite` takes at most, and how many of the bytes
taken before are in the file; and how many more the flush of `fclose` adds. -/
structure CopyStdio where
  deniedSrc : Option Errno
  deniedDest : Option Errno
  fread : Nat → Nat
  fwrite : Nat → Nat
  stored : Nat → Nat
  flushed : Nat
  writeErrno : Errno
  stored_mono : Monotone stored

section

variable (disk : Disk) (cwd : Loc Name)

/-- The number of the file that a path leads to. -/
def fileIdAt (path : List UInt8) : Option Nat :=
  match locate disk.files cwd true path (parsePath path).full with
  | .error _ => none
  | .ok ℓ =>
    match disk.names.lookup ℓ with
    | some (.file i) => some i
    | _ => none

def createNamed (ℓ : Loc Name) : Disk :=
  match ℓ with
  | [] => disk
  | n :: parent => disk.create n parent []

/-- `fopen` on a disk: the number of the file, or none for a directory, and the disk after it. -/
def fopenNamed (denied : Option Errno) (path : List UInt8) (mode : FopenMode) :
    Except Errno (Option Nat × Disk) :=
  match denied with
  | some err => .error err
  | none =>
    match openFile disk.files cwd path mode.flags with
    | .error err => .error err
    | .ok (ℓ, _) =>
      match disk.names.lookup ℓ with
      | none => .ok (some disk.next, createNamed disk ℓ)
      | some (.file i) => .ok (some i, if hasFlag mode.flags oTrunc then disk.store i [] else disk)
      | some _ => .ok (none, disk)

end

/-- The loop between two rounds: how far `src` is read, and what `fwrite` has taken. -/
structure Copying where
  disk : Disk
  round : Nat
  pos : Nat
  taken : List UInt8

/-- What can be read from a stream: the file, or nothing from a directory. -/
def readable (disk : Disk) (id : Option Nat) : List UInt8 := (id.map disk.contents).getD []

section

variable (io : CopyStdio) (fsrc fdest : Option Nat)

def storeTo (disk : Disk) (content : List UInt8) : Disk :=
  match fdest with
  | none => disk
  | some i => disk.store i content

def Copying.fread (s : Copying) : List UInt8 :=
  ((readable s.disk fsrc).drop s.pos).take (min copyBufSize (io.fread s.round))

def Copying.fwrite (s : Copying) (buf : List UInt8) : Copying where
  disk := storeTo fdest s.disk ((s.taken ++ buf.take (io.fwrite s.round)).take (io.stored (s.round + 1)))
  round := s.round + 1
  pos := s.pos + buf.length
  taken := s.taken ++ buf.take (io.fwrite s.round)

/-- `while ((n = fread(buf, 1, sizeof(buf), fsrc)) > 0)`: an error of `fread` ends it like the end of
the file. -/
def copyLoop : Nat → Copying → Option (Except Errno Unit × Copying)
  | 0, _ => none
  | fuel + 1, s =>
    let buf := s.fread io fsrc
    if buf.length = 0 then some (.ok (), s)
    else if io.fwrite s.round < buf.length then some (.error io.writeErrno, s.fwrite io fdest buf)
    else copyLoop fuel (s.fwrite io fdest buf)

/-- `fclose(fdest)`, whose result is not looked at. -/
def Copying.fclose (s : Copying) : Disk :=
  storeTo fdest s.disk (s.taken.take (io.stored s.round + io.flushed))

end

def jsFsCopyFileSync (io : CopyStdio) (fuel : Nat) (disk : Disk) (cwd : Loc Name) (src dest : List UInt8) :
    Option (Except FsError Unit × Disk) :=
  match fopenNamed disk cwd io.deniedSrc src .rb with
  | .error err => some (.error (jsFsThrowError err src "open"), disk)
  | .ok (fsrc, disk) =>
    match fopenNamed disk cwd io.deniedDest dest .wb with
    | .error err => some (.error (jsFsThrowError err dest "open"), disk)
    | .ok (fdest, disk) =>
      match copyLoop io fsrc fdest fuel ⟨disk, 0, 0, []⟩ with
      | none => none
      | some (.error err, s) => some (.error (jsFsThrowError err dest "write"), s.fclose io fdest)
      | some (.ok (), s) => some (.ok (), s.fclose io fdest)

/-! ## Where paths lead on a disk -/

section

variable {disk disk' : Disk} {cwd : Loc Name} {path content : List UInt8} {i : Nat}

theorem fileIdAt_eq_some_iff : fileIdAt disk cwd path = some i ↔
    ∃ ℓ, locate disk.files cwd true path (parsePath path).full = .ok ℓ ∧
      disk.names.lookup ℓ = some (.file i) := by
  unfold fileIdAt
  cases locate disk.files cwd true path (parsePath path).full with
  | error err => simp
  | ok ℓ =>
    dsimp only
    constructor
    · intro h
      split at h
      next j hfile =>
        obtain rfl := Option.some.inj h
        exact ⟨ℓ, rfl, hfile⟩
      next => cases h
    · rintro ⟨found, hfound, hfile⟩
      obtain rfl := Except.ok.inj hfound
      rw [hfile]

theorem fileAt_files_iff : fileAt disk.files cwd path = some content ↔
    ∃ i, fileIdAt disk cwd path = some i ∧ disk.contents i = content := by
  rw [fileAt_eq_some_iff]
  constructor
  · rintro ⟨ℓ, hlocate, hfile⟩
    obtain ⟨i, hname, hcontent⟩ := Volume.lookup_files_file.mp hfile
    exact ⟨i, fileIdAt_eq_some_iff.mpr ⟨ℓ, hlocate, hname⟩, hcontent⟩
  · rintro ⟨i, hid, hcontent⟩
    obtain ⟨ℓ, hlocate, hname⟩ := fileIdAt_eq_some_iff.mp hid
    exact ⟨ℓ, hlocate, Volume.lookup_files_file.mpr ⟨i, hname, hcontent⟩⟩

-- The contents do not matter for it.
theorem fileIdAt_of_names (hnames : disk'.names = disk.names) (h : fileIdAt disk cwd path = some i) :
    fileIdAt disk' cwd path = some i := by
  obtain ⟨ℓ, hlocate, hname⟩ := fileIdAt_eq_some_iff.mp h
  refine fileIdAt_eq_some_iff.mpr ⟨ℓ, locate_sameShape (Volume.files_sameShape hnames).symm hlocate, ?_⟩
  rw [hnames]
  exact hname

-- What `open` opens is new, or there and no link.
theorem openFile_cases {fs fs' : FileSystem} {flags : Nat} {ℓ : Loc Name}
    (h : openFile fs cwd path flags = .ok (ℓ, fs')) :
    openTarget fs cwd flags path = .ok ℓ ∧ (hasFlag flags oCreat ∧ fs.lookup ℓ = none ∨
      ¬ (hasFlag flags oCreat ∧ hasFlag flags oExcl) ∧ ((∃ old, fs.lookup ℓ = some (.file old)) ∨
        fs.lookup ℓ = some .dir ∧ ¬ (hasFlag flags oCreat ∨ opensForWriting flags))) := by
  unfold openFile at h
  split at h
  next => cases h
  next found htarget =>
    split at h
    next hnone =>
      split at h
      next hcreat =>
        obtain ⟨rfl, -⟩ := Prod.mk.inj (Except.ok.inj h)
        exact ⟨htarget, .inl ⟨hcreat, hnone⟩⟩
      next => cases h
    next node hnode =>
      split at h
      next => cases h
      next hexcl =>
        cases node with
        | link target => cases h
        | file old =>
          obtain ⟨rfl, -⟩ := Prod.mk.inj (Except.ok.inj h)
          exact ⟨htarget, .inr ⟨hexcl, .inl ⟨old, hnode⟩⟩⟩
        | dir =>
          dsimp only at h
          split at h
          next => cases h
          next hread =>
            obtain ⟨rfl, -⟩ := Prod.mk.inj (Except.ok.inj h)
            exact ⟨htarget, .inr ⟨hexcl, .inr ⟨hnode, hread⟩⟩⟩

theorem fopenNamed_eq_ok {denied : Option Errno} {mode : FopenMode} {id : Option Nat}
    (h : fopenNamed disk cwd denied path mode = .ok (id, disk')) :
    ∃ ℓ, openTarget disk.files cwd mode.flags path = .ok ℓ ∧
      (hasFlag mode.flags oCreat ∧ disk.names.lookup ℓ = none ∧ id = some disk.next ∧
          disk' = createNamed disk ℓ ∨
        ∃ i, disk.names.lookup ℓ = some (.file i) ∧ fileIdAt disk cwd path = some i ∧ id = some i ∧
          disk' = if hasFlag mode.flags oTrunc then disk.store i [] else disk) ∨
      ¬ (hasFlag mode.flags oCreat ∨ opensForWriting mode.flags) ∧ fileIdAt disk cwd path = none ∧
        id = none ∧ disk' = disk := by
  unfold fopenNamed at h
  split at h
  next => cases h
  next =>
    split at h
    next => cases h
    next ℓ fs hopen =>
      obtain ⟨htarget, ⟨hcreat, hnone⟩ | ⟨hexcl, ⟨old, hfile⟩ | ⟨hdir, hread⟩⟩⟩ := openFile_cases hopen
      · have hnew := Tree.lookup_map_none.mp hnone
        rw [hnew] at h
        obtain ⟨rfl, rfl⟩ := Prod.mk.inj (Except.ok.inj h)
        exact ⟨ℓ, .inl ⟨htarget, .inl ⟨hcreat, hnew, rfl, rfl⟩⟩⟩
      · obtain ⟨i, hname, -⟩ := Volume.lookup_files_file.mp hfile
        rw [hname] at h
        obtain ⟨rfl, rfl⟩ := Prod.mk.inj (Except.ok.inj h)
        have hlocate := locate_of_openTarget htarget hfile hexcl
        exact ⟨ℓ, .inl ⟨htarget, .inr ⟨i, hname, fileIdAt_eq_some_iff.mpr ⟨ℓ, hlocate, hname⟩, rfl, rfl⟩⟩⟩
      · have hname := Tree.lookup_map_dir.mp hdir
        rw [hname] at h
        obtain ⟨rfl, rfl⟩ := Prod.mk.inj (Except.ok.inj h)
        have hlocate := locate_of_openTarget htarget hdir hexcl
        refine ⟨ℓ, .inr ⟨hread, ?_, rfl, rfl⟩⟩
        rw [fileIdAt, hlocate]
        dsimp only
        rw [hname]

theorem fopenNamed_rb {denied : Option Errno} {id : Option Nat}
    (h : fopenNamed disk cwd denied path .rb = .ok (id, disk')) :
    disk' = disk ∧ id = fileIdAt disk cwd path := by
  obtain ⟨ℓ, ⟨-, ⟨hcreat, -⟩ | ⟨i, -, hid, rfl, rfl⟩⟩ | ⟨-, hid, rfl, rfl⟩⟩ := fopenNamed_eq_ok h
  · simp at hcreat
  · exact ⟨rfl, hid.symm⟩
  · exact ⟨rfl, hid.symm⟩

/-- What opening a file for writing leaves: it is empty, and every file that had a name has it still. -/
structure Emptied (disk : Disk) (cwd : Loc Name) (path : List UInt8) (disk' : Disk) (j : Nat) : Prop where
  leads : fileIdAt disk' cwd path = some j
  contents : ∀ i, disk'.contents i = if i = j then [] else disk.contents i
  kept : ∀ {path' i}, fileIdAt disk cwd path' = some i → fileIdAt disk' cwd path' = some i
  same_iff : ∀ {path' i}, fileIdAt disk cwd path' = some i → (fileIdAt disk cwd path = some i ↔ i = j)

theorem emptied_store {j : Nat} (h : fileIdAt disk cwd path = some j) :
    Emptied disk cwd path (disk.store j []) j where
  leads := fileIdAt_of_names (Volume.store_names disk j []) h
  contents i := by
    by_cases hi : i = j
    · rw [if_pos hi, hi, Volume.store_contents_self]
    · rw [if_neg hi, Volume.store_contents_ne hi]
  kept := fileIdAt_of_names (Volume.store_names disk j [])
  same_iff _ := by rw [h, Option.some.injEq, eq_comm]

theorem emptied_create {flags : Nat} {ℓ : Loc Name} (hcreat : hasFlag flags oCreat)
    (htarget : openTarget disk.files cwd flags path = .ok ℓ) (hnone : disk.names.lookup ℓ = none) :
    Emptied disk cwd path (createNamed disk ℓ) disk.next := by
  have hfiles : disk.files.lookup ℓ = none := Tree.lookup_map_none.mpr hnone
  obtain ⟨hlocate, hnew, hle⟩ := createFile_spec hcreat htarget hfiles
  cases ℓ with
  | nil => cases hnone
  | cons n parent =>
    have hdir : disk.names.lookup parent = some .dir := by
      by_contra hdir
      have hsame : createFile disk.files (n :: parent) = disk.files :=
        dif_neg fun hroom ↦ hdir (Tree.lookup_map_dir.mp hroom.1)
      rw [hsame, hfiles] at hnew
      cases hnew
    have hshape : (createFile disk.files (n :: parent)).SameShape (disk.create n parent []).files :=
      fun ℓ ↦ congrArg _ (Volume.lookup_files_create hdir hnone ℓ).symm
    have hnames : ∀ {ℓ i}, disk.names.lookup ℓ = some (.file i) →
        (disk.create n parent []).names.lookup ℓ = some (.file i) :=
      fun hname ↦ Tree.le_add disk.names n parent _ _ _ hname
    refine ⟨?_, ?_, ?_, ?_⟩
    · exact fileIdAt_eq_some_iff.mpr ⟨_, locate_sameShape hshape hlocate, Tree.lookup_add_self hdir hnone⟩
    · intro i
      exact Function.update_apply disk.contents disk.next [] i
    · intro path' i hid
      obtain ⟨ℓ, hfound, hname⟩ := fileIdAt_eq_some_iff.mp hid
      exact fileIdAt_eq_some_iff.mpr ⟨ℓ, locate_sameShape hshape (locate_mono hfound hle), hnames hname⟩
    · intro path' i hid
      obtain ⟨ℓ, -, hname⟩ := fileIdAt_eq_some_iff.mp hid
      refine iff_of_false ?_ (Nat.ne_of_lt (disk.unused ℓ i hname))
      intro hold
      obtain ⟨old, hfound, hname'⟩ := fileIdAt_eq_some_iff.mp hold
      obtain rfl := Except.ok.inj ((locate_mono hfound hle).symm.trans hlocate)
      exact absurd (hnone.symm.trans hname') (by simp)

theorem fopenNamed_wb {denied : Option Errno} {id : Option Nat}
    (h : fopenNamed disk cwd denied path .wb = .ok (id, disk')) :
    ∃ j, id = some j ∧ Emptied disk cwd path disk' j := by
  obtain ⟨ℓ, ⟨htarget, ⟨hcreat, hnone, rfl, rfl⟩ | ⟨i, -, hid, rfl, rfl⟩⟩ | ⟨hread, -⟩⟩ := fopenNamed_eq_ok h
  · exact ⟨disk.next, rfl, emptied_create hcreat htarget hnone⟩
  · exact ⟨i, rfl, emptied_store hid⟩
  · exact absurd (.inr (FopenMode.wb.writes.mpr (by decide))) hread

end

/-! ## The loop -/

section

variable (io : CopyStdio) (size : Nat)

/-- How far a file of this size is read after some rounds. -/
def position : Nat → Nat
  | 0 => 0
  | round + 1 => position round + min copyBufSize (min (io.fread round) (size - position round))

/-- How many bytes a round reads of it. -/
def chunk (round : Nat) : Nat := min copyBufSize (min (io.fread round) (size - position io size round))

end

section

variable {io : CopyStdio} {size round : Nat}

theorem position_succ : position io size (round + 1) = position io size round + chunk io size round := rfl

theorem position_le : position io size round ≤ size := by
  induction round with
  | zero => exact Nat.zero_le size
  | succ round ih =>
    rw [position_succ, chunk]
    omega

theorem position_mono : Monotone (position io size) :=
  monotone_nat_of_le_succ fun _ ↦ Nat.le_add_right _ _

theorem chunk_pos_iff : 0 < chunk io size round ↔ 0 < io.fread round ∧ position io size round < size := by
  have hbuf : 0 < copyBufSize := by decide
  unfold chunk
  omega

end

/-- A round that reads something and writes all of it. -/
def FullRound (io : CopyStdio) (size round : Nat) : Prop :=
  0 < chunk io size round ∧ chunk io size round ≤ io.fwrite round

/-- The invariant of the loop, where `content` is what is read. -/
structure Copying.Inv (io : CopyStdio) (fsrc : Option Nat) (names : Tree Name Nat) (content : List UInt8)
    (s : Copying) : Prop where
  named : s.disk.names = names
  source : readable s.disk fsrc = content
  pos : s.pos = position io content.length s.round
  taken : s.taken = content.take s.pos
  full : ∀ round < s.round, FullRound io content.length round

section

variable {io : CopyStdio} {fsrc fdest : Option Nat} {names : Tree Name Nat} {content : List UInt8}
  {s : Copying}

theorem readable_storeTo {disk : Disk} {stored : List UInt8} (hsource : readable disk fsrc = content)
    (hsame : fsrc = fdest → content = []) (hempty : content = [] → stored = []) :
    readable (storeTo fdest disk stored) fsrc = content := by
  cases fdest with
  | none => exact hsource
  | some j =>
    cases fsrc with
    | none => exact hsource
    | some i =>
      by_cases hi : i = j
      · subst hi
        have hcontent := hsame rfl
        rw [hcontent, ← hempty hcontent]
        exact Volume.store_contents_self disk i stored
      · exact (Volume.store_contents_ne hi).trans hsource

theorem storeTo_names (disk : Disk) (stored : List UInt8) : (storeTo fdest disk stored).names = disk.names := by
  cases fdest <;> rfl

theorem Copying.Inv.fread_length (h : s.Inv io fsrc names content) :
    (s.fread io fsrc).length = chunk io content.length s.round := by
  rw [Copying.fread, h.source, List.length_take, List.length_drop, h.pos, chunk, Nat.min_assoc]

-- A round that writes all it has read.
theorem Copying.Inv.step (h : s.Inv io fsrc names content) (hsame : fsrc = fdest → content = [])
    (hread : (s.fread io fsrc).length ≠ 0) (hwrite : (s.fread io fsrc).length ≤ io.fwrite s.round) :
    (s.fwrite io fdest (s.fread io fsrc)).Inv io fsrc names content := by
  have hlen := h.fread_length
  have htaken : s.taken ++ (s.fread io fsrc).take (io.fwrite s.round) =
      content.take (s.pos + (s.fread io fsrc).length) := by
    rw [List.take_of_length_le hwrite, h.taken, List.take_add]
    congr 1
    rw [Copying.fread, h.source, List.take_eq_take_iff, List.length_take]
    omega
  refine ⟨(storeTo_names _ _).trans h.named, ?_, ?_, htaken, ?_⟩
  · refine readable_storeTo h.source hsame fun hempty ↦ ?_
    rw [htaken, hempty, List.take_nil, List.take_nil]
  · show s.pos + (s.fread io fsrc).length = _
    rw [hlen, h.pos]
    rfl
  · intro round hround
    rcases Nat.lt_succ_iff_lt_or_eq.mp hround with hlt | rfl
    · exact h.full round hlt
    · exact ⟨by omega, by omega⟩

/-- How the loop ends: with all rounds full and a last one that reads nothing, or with a write that is
short. -/
theorem copyLoop_spec {fuel : Nat} {result : Except Errno Unit} {s' : Copying}
    (hinv : s.Inv io fsrc names content) (hsame : fsrc = fdest → content = [])
    (h : copyLoop io fsrc fdest fuel s = some (result, s')) :
    (result = .ok () ∧ s'.Inv io fsrc names content ∧ chunk io content.length s'.round = 0) ∨
      (∃ err, result = .error err) ∧ ∃ round, io.fwrite round < chunk io content.length round ∧
        ∀ r < round, FullRound io content.length r := by
  induction fuel generalizing s with
  | zero => cases h
  | succ fuel ih =>
    have hlen := hinv.fread_length
    unfold copyLoop at h
    dsimp only at h
    split at h
    next hread =>
      obtain ⟨rfl, rfl⟩ := Prod.mk.inj (Option.some.inj h)
      exact .inl ⟨rfl, hinv, hlen.symm.trans hread⟩
    next hread =>
      split at h
      next hshort =>
        obtain ⟨rfl, rfl⟩ := Prod.mk.inj (Option.some.inj h)
        exact .inr ⟨⟨_, rfl⟩, s.round, hlen ▸ hshort, hinv.full⟩
      next hwrite => exact ih (hinv.step hsame hread (Nat.le_of_not_lt hwrite)) h

-- Each round reads at least one byte, so the loop comes to its end.
theorem copyLoop_isSome {fuel : Nat} (hinv : s.Inv io fsrc names content)
    (hsame : fsrc = fdest → content = []) (hfuel : content.length - s.pos < fuel) :
    (copyLoop io fsrc fdest fuel s).isSome := by
  induction fuel generalizing s with
  | zero => exact absurd hfuel (Nat.not_lt_zero _)
  | succ fuel ih =>
    unfold copyLoop
    dsimp only
    split
    · rfl
    next hread =>
      split
      · rfl
      next hwrite =>
        have hstep := hinv.step hsame hread (Nat.le_of_not_lt hwrite)
        refine ih hstep ?_
        have hpos : (s.fwrite io fdest (s.fread io fsrc)).pos = s.pos + (s.fread io fsrc).length := rfl
        have hle : (s.fwrite io fdest (s.fread io fsrc)).pos ≤ content.length := by
          rw [hstep.pos]
          exact position_le
        omega

end

/-! ## The whole call -/

section

variable (io : CopyStdio) (disk : Disk) (cwd : Loc Name) (src dest : List UInt8)

/-- What is expected of `copyFileSync(src, dest)`. -/
structure CopyKept : Prop where
  /-- It comes to an end. -/
  ends : ∃ enough, ∀ fuel, enough ≤ fuel → (jsFsCopyFileSync io fuel disk cwd src dest).isSome
  /-- If it returns normally, `dest` holds what `src` held before, and `src` still does. -/
  copied : ∀ fuel disk', jsFsCopyFileSync io fuel disk cwd src dest = some (.ok (), disk') →
    ∃ content, fileAt disk.files cwd src = some content ∧ fileAt disk'.files cwd dest = some content ∧
      fileAt disk'.files cwd src = some content

/-- What there is to copy once `dest` is open: nothing, if `src` is a directory or the same file. -/
def toCopy : List UInt8 :=
  match fileIdAt disk cwd src with
  | none => []
  | some i => if fileIdAt disk cwd dest = some i then [] else disk.contents i

/-- A failure that the call sees: an open fails, or the first round that is not full reads something
and writes less. -/
def CopyFailureSeen : Prop :=
  (∃ err, fopenNamed disk cwd io.deniedSrc src .rb = .error err) ∨
  (∃ err, fopenNamed disk cwd io.deniedDest dest .wb = .error err) ∨
  ∃ round, io.fwrite round < chunk io (toCopy disk cwd src dest).length round ∧
    ∀ r < round, FullRound io (toCopy disk cwd src dest).length r

/-- `src` is a file, and not the same as `dest` unless it is empty; no read fails before the end of the
file, and the close stores what is left. -/
def CopyComplete : Prop :=
  ∃ content, fileAt disk.files cwd src = some content ∧
    (fileIdAt disk cwd dest = fileIdAt disk cwd src → content = []) ∧
    (∀ round, position io content.length round < content.length → 0 < io.fread round) ∧
    ∀ round, position io content.length round = content.length → content.length ≤ io.stored round + io.flushed

end

section

variable {io : CopyStdio} {disk disk₁ disk' : Disk} {cwd : Loc Name} {src dest : List UInt8} {j fuel : Nat}

-- What the stream of `src` delivers once `dest` is open.
theorem toCopy_eq (h : Emptied disk cwd dest disk₁ j) :
    readable disk₁ (fileIdAt disk cwd src) = toCopy disk cwd src dest := by
  unfold toCopy
  cases hsrc : fileIdAt disk cwd src with
  | none => rfl
  | some i =>
    dsimp only
    rw [if_congr (h.same_iff hsrc) rfl rfl]
    exact h.contents i

theorem toCopy_same (h : Emptied disk cwd dest disk₁ j) (hsame : fileIdAt disk cwd src = some j) :
    toCopy disk cwd src dest = [] := by
  rw [← toCopy_eq h, hsame]
  exact (h.contents j).trans (if_pos rfl)

theorem Copying.Inv.start (io : CopyStdio) (fsrc : Option Nat) (disk : Disk) :
    Copying.Inv io fsrc disk.names (readable disk fsrc) ⟨disk, 0, 0, []⟩ :=
  ⟨rfl, rfl, rfl, rfl, fun _ h ↦ absurd h (Nat.not_lt_zero _)⟩

/-- A call either has an open that fails, or comes to the loop. -/
theorem copyFileSync_cases (io : CopyStdio) (disk : Disk) (cwd : Loc Name) (src dest : List UInt8) :
    (CopyFailureSeen io disk cwd src dest ∧
        ∃ err, ∀ fuel, jsFsCopyFileSync io fuel disk cwd src dest = some (.error err, disk)) ∨
      ∃ disk₁ j, Emptied disk cwd dest disk₁ j ∧ (∃ id, fopenNamed disk cwd io.deniedSrc src .rb = .ok id) ∧
        (∃ id, fopenNamed disk cwd io.deniedDest dest .wb = .ok id) ∧
        Copying.Inv io (fileIdAt disk cwd src) disk₁.names (toCopy disk cwd src dest) ⟨disk₁, 0, 0, []⟩ ∧
        ∀ fuel, jsFsCopyFileSync io fuel disk cwd src dest =
          match copyLoop io (fileIdAt disk cwd src) (some j) fuel ⟨disk₁, 0, 0, []⟩ with
          | none => none
          | some (.error err, s) => some (.error (jsFsThrowError err dest "write"), s.fclose io (some j))
          | some (.ok (), s) => some (.ok (), s.fclose io (some j)) := by
  unfold jsFsCopyFileSync
  cases hsrc : fopenNamed disk cwd io.deniedSrc src .rb with
  | error err => exact .inl ⟨.inl ⟨err, hsrc⟩, _, fun _ ↦ rfl⟩
  | ok opened =>
    obtain ⟨fsrc, disk₀⟩ := opened
    obtain ⟨rfl, rfl⟩ := fopenNamed_rb hsrc
    dsimp only
    cases hdest : fopenNamed disk₀ cwd io.deniedDest dest .wb with
    | error err => exact .inl ⟨.inr (.inl ⟨err, hdest⟩), _, fun _ ↦ rfl⟩
    | ok opened =>
      obtain ⟨fdest, disk₁⟩ := opened
      obtain ⟨j, rfl, hemptied⟩ := fopenNamed_wb hdest
      have hstart := Copying.Inv.start io (fileIdAt disk₀ cwd src) disk₁
      rw [toCopy_eq hemptied] at hstart
      exact .inr ⟨disk₁, j, hemptied, ⟨_, rfl⟩, ⟨_, rfl⟩, hstart, fun _ ↦ rfl⟩

theorem copyFileSync_ends (io : CopyStdio) (disk : Disk) (cwd : Loc Name) (src dest : List UInt8)
    (hfuel : (toCopy disk cwd src dest).length < fuel) :
    (jsFsCopyFileSync io fuel disk cwd src dest).isSome := by
  rcases copyFileSync_cases io disk cwd src dest with ⟨-, err, hcall⟩ | ⟨disk₁, j, hemptied, -, -, hstart, hcall⟩
  · rw [hcall]
    rfl
  · have hsome := copyLoop_isSome hstart (toCopy_same hemptied) (Nat.lt_of_le_of_lt (Nat.sub_le _ _) hfuel)
    rw [hcall]
    cases hloop : copyLoop io (fileIdAt disk cwd src) (some j) fuel ⟨disk₁, 0, 0, []⟩ with
    | none =>
      rw [hloop] at hsome
      cases hsome
    | some ended =>
      obtain ⟨result, s⟩ := ended
      cases result <;> rfl

theorem copyFileSync_failed {err : FsError}
    (h : jsFsCopyFileSync io fuel disk cwd src dest = some (.error err, disk')) :
    CopyFailureSeen io disk cwd src dest := by
  rcases copyFileSync_cases io disk cwd src dest with ⟨hseen, -⟩ | ⟨disk₁, j, hemptied, -, -, hstart, hcall⟩
  · exact hseen
  · rw [hcall] at h
    cases hloop : copyLoop io (fileIdAt disk cwd src) (some j) fuel ⟨disk₁, 0, 0, []⟩ with
    | none =>
      rw [hloop] at h
      cases h
    | some ended =>
      obtain ⟨result, s⟩ := ended
      rcases copyLoop_spec hstart (toCopy_same hemptied) hloop with ⟨rfl, -⟩ | ⟨-, hshort⟩
      · rw [hloop] at h
        cases h
      · exact .inr (.inr hshort)

-- After full rounds up to the end of the file, no round is short.
theorem no_short_round {size round : Nat} (hlast : chunk io size round = 0)
    (hfull : ∀ r < round, FullRound io size r) :
    ¬ ∃ round, io.fwrite round < chunk io size round ∧ ∀ r < round, FullRound io size r := by
  rintro ⟨r, hshort, hbefore⟩
  rcases Nat.lt_trichotomy r round with hlt | rfl | hgt
  · exact absurd (hfull r hlt).2 (Nat.not_le_of_lt hshort)
  · omega
  · have hpos := (hbefore round hgt).1
    omega

theorem closed_names {s : Copying} {fsrc : Option Nat} {names : Tree Name Nat} {content : List UInt8}
    (hinv : s.Inv io fsrc names content) (j : Nat) : (s.fclose io (some j)).names = names := hinv.named

-- The source after the close: it is the destination, or as it was.
theorem source_closed {s : Copying} {i : Nat} (hemptied : Emptied disk cwd dest disk₁ j)
    (hinv : s.Inv io (fileIdAt disk cwd src) disk₁.names (toCopy disk cwd src dest))
    (hid : fileIdAt disk cwd src = some i) :
    fileAt (s.fclose io (some j)).files cwd src =
      if fileIdAt disk cwd dest = some i then fileAt (s.fclose io (some j)).files cwd dest
      else some (disk.contents i) := by
  have hnames := closed_names hinv j
  have hsrcid := fileIdAt_of_names hnames (hemptied.kept hid)
  have hdestid := fileIdAt_of_names hnames hemptied.leads
  rw [if_congr (hemptied.same_iff hid) rfl rfl]
  by_cases hi : i = j
  · rw [if_pos hi, fileAt_files_iff.mpr ⟨j, hdestid, rfl⟩]
    exact fileAt_files_iff.mpr ⟨i, hsrcid, by rw [hi]⟩
  · rw [if_neg hi]
    refine fileAt_files_iff.mpr ⟨i, hsrcid, ?_⟩
    have hsource := hinv.source
    rw [hid] at hsource
    refine (Volume.store_contents_ne hi).trans (hsource.trans ?_)
    rw [← toCopy_eq hemptied, hid]
    exact (hemptied.contents i).trans (if_neg hi)

-- What a call that returns leaves.
theorem copyFileSync_returned (h : jsFsCopyFileSync io fuel disk cwd src dest = some (.ok (), disk')) :
    ¬ CopyFailureSeen io disk cwd src dest ∧
    ∃ round, chunk io (toCopy disk cwd src dest).length round = 0 ∧
      (∀ r < round, FullRound io (toCopy disk cwd src dest).length r) ∧
      fileAt disk'.files cwd dest = some (((toCopy disk cwd src dest).take
        (position io (toCopy disk cwd src dest).length round)).take (io.stored round + io.flushed)) ∧
      ∀ i, fileIdAt disk cwd src = some i → fileAt disk'.files cwd src =
        if fileIdAt disk cwd dest = some i then fileAt disk'.files cwd dest else some (disk.contents i) := by
  rcases copyFileSync_cases io disk cwd src dest with
    ⟨-, err, hcall⟩ | ⟨disk₁, j, hemptied, ⟨_, hsrc⟩, ⟨_, hdest⟩, hstart, hcall⟩
  · rw [hcall] at h
    cases h
  · rw [hcall] at h
    cases hloop : copyLoop io (fileIdAt disk cwd src) (some j) fuel ⟨disk₁, 0, 0, []⟩ with
    | none =>
      rw [hloop] at h
      cases h
    | some ended =>
      obtain ⟨result, s⟩ := ended
      rw [hloop] at h
      rcases copyLoop_spec hstart (toCopy_same hemptied) hloop with ⟨rfl, hinv, hlast⟩ | ⟨⟨err, rfl⟩, -⟩
      · obtain ⟨-, rfl⟩ := Prod.mk.inj (Option.some.inj h)
        have hdestid := fileIdAt_of_names (closed_names hinv j) hemptied.leads
        refine ⟨?_, s.round, hlast, hinv.full, ?_, fun i hid ↦ source_closed hemptied hinv hid⟩
        · rintro (⟨err, herr⟩ | ⟨err, herr⟩ | hshort)
          · rw [hsrc] at herr
            cases herr
          · rw [hdest] at herr
            cases herr
          · exact no_short_round hlast hinv.full hshort
        · refine fileAt_files_iff.mpr ⟨j, hdestid, ?_⟩
          rw [← hinv.pos, ← hinv.taken]
          exact Volume.store_contents_self s.disk j _
      · cases h

theorem toCopy_eq_content {content : List UInt8} (hsrc : fileAt disk.files cwd src = some content)
    (hdiff : fileIdAt disk cwd dest = fileIdAt disk cwd src → content = []) :
    toCopy disk cwd src dest = content := by
  obtain ⟨i, hid, rfl⟩ := fileAt_files_iff.mp hsrc
  unfold toCopy
  rw [hid]
  dsimp only
  split
  next hsame => exact (hdiff (hsame.trans hid.symm)).symm
  next => rfl

/-- When a call that comes to the end of the loop has copied all: reading was not cut short, and
neither was storing. -/
theorem stored_all_iff {io : CopyStdio} {content : List UInt8} {last : Nat}
    (hlast : chunk io content.length last = 0) (hfull : ∀ r < last, FullRound io content.length r) :
    (content.take (position io content.length last)).take (io.stored last + io.flushed) = content ↔
      (∀ round, position io content.length round < content.length → 0 < io.fread round) ∧
      ∀ round, position io content.length round = content.length →
        content.length ≤ io.stored round + io.flushed := by
  have hzero : ¬ (0 < io.fread last ∧ position io content.length last < content.length) := by
    rw [← chunk_pos_iff]
    omega
  have hle := @position_le io content.length last
  rw [List.take_take, List.take_eq_self_iff]
  constructor
  · intro h
    refine ⟨fun round hround ↦ ?_, fun round hround ↦ ?_⟩
    · have hlt : round < last := by
        by_contra hge
        have hmono := @position_mono io content.length _ _ (Nat.le_of_not_lt hge)
        omega
      exact (chunk_pos_iff.mp (hfull round hlt).1).1
    · have hge : last ≤ round := by
        by_contra hlt
        have hpos := (chunk_pos_iff.mp (hfull round (Nat.lt_of_not_le hlt)).1).2
        omega
      have hmono := io.stored_mono hge
      omega
  · rintro ⟨hread, hstore⟩
    have hend : position io content.length last = content.length := by
      by_contra hne
      have hlt := Nat.lt_of_le_of_ne hle hne
      exact hzero ⟨hread last hlt, hlt⟩
    have hall := hstore last hend
    omega

end

/-- The expectation is met precisely if the call sees a failure, or `src` is a file, is not the same as
`dest` unless it is empty, is read without an error, and the close stores the rest. -/
theorem copyFileSync_kept_iff (io : CopyStdio) (disk : Disk) (cwd : Loc Name) (src dest : List UInt8) :
    CopyKept io disk cwd src dest ↔
      CopyFailureSeen io disk cwd src dest ∨ CopyComplete io disk cwd src dest := by
  constructor
  · intro h
    have hends := copyFileSync_ends io disk cwd src dest (Nat.lt_succ_self _)
    obtain ⟨⟨result, disk'⟩, hcall⟩ := Option.isSome_iff_exists.mp hends
    cases result with
    | error err => exact .inl (copyFileSync_failed hcall)
    | ok done =>
      obtain ⟨content, hsrc, hdest, hkept⟩ := h.copied _ disk' hcall
      obtain ⟨-, last, hlast, hfull, hstored, -⟩ := copyFileSync_returned hcall
      rw [hdest, Option.some.injEq] at hstored
      have hdiff : fileIdAt disk cwd dest = fileIdAt disk cwd src → content = [] := by
        intro hsame
        obtain ⟨i, hid, -⟩ := fileAt_files_iff.mp hsrc
        have hnone : toCopy disk cwd src dest = [] := by
          rw [toCopy, hid]
          exact if_pos (hsame.trans hid)
        rw [hstored, hnone, List.take_nil, List.take_nil]
      rw [toCopy_eq_content hsrc hdiff] at hlast hfull hstored
      exact .inr ⟨content, hsrc, hdiff, (stored_all_iff hlast hfull).mp hstored.symm⟩
  · intro h
    refine ⟨⟨_, fun fuel hfuel ↦ copyFileSync_ends io disk cwd src dest hfuel⟩, fun fuel disk' hcall ↦ ?_⟩
    obtain ⟨hseen, last, hlast, hfull, hdest, hsrc'⟩ := copyFileSync_returned hcall
    obtain ⟨content, hsrc, hdiff, hall⟩ := h.resolve_left hseen
    obtain ⟨i, hid, hcontent⟩ := fileAt_files_iff.mp hsrc
    rw [toCopy_eq_content hsrc hdiff] at hlast hfull hdest
    rw [(stored_all_iff hlast hfull).mpr hall] at hdest
    refine ⟨content, hsrc, hdest, ?_⟩
    rw [hsrc' i hid, hdest, hcontent, ite_self]

/-- A C library whose calls all succeed, and write what they take at once. -/
def CopyStdio.working : CopyStdio where
  deniedSrc := none
  deniedDest := none
  fread _ := copyBufSize
  fwrite _ := copyBufSize
  stored round := round * copyBufSize
  flushed := 0
  writeErrno := .io
  stored_mono _ _ h := Nat.mul_le_mul_right copyBufSize h

/-- The disk with one file, `/f`. -/
def oneFileDisk (content : List UInt8) : Disk :=
  (Volume.empty []).create ⟨[102], isName_f⟩ [] content

/-- `copyFileSync("/f", "/./f")` returns normally and leaves the file empty. -/
theorem copyFileSync_onto_itself :
    ¬ CopyKept .working (oneFileDisk [97]) [] [47, 102] [47, 46, 47, 102] := by
  intro h
  have hrun : (jsFsCopyFileSync .working 1 (oneFileDisk [97]) [] [47, 102] [47, 46, 47, 102]).map
      (fun call ↦ (call.1, fileAt call.2.files [] [47, 102])) = some (.ok (), some []) := by
    decide
  obtain ⟨⟨result, disk'⟩, hcall, hafter⟩ := Option.map_eq_some_iff.mp hrun
  obtain ⟨rfl, hempty⟩ := Prod.mk.inj hafter
  obtain ⟨content, hbefore, -, hkept⟩ := h.copied 1 disk' hcall
  obtain rfl := Option.some.inj (hempty.symm.trans hkept)
  revert hbefore
  decide

end QNode.Fs
