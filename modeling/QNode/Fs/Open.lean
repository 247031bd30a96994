import QNode.Fs.Rm
import QNode.Library.FileContents

/-!
# Opening files

Flags are the bits of Linux.  `open` creates, truncates or refuses what the path leads to; the modes of
`fopen` are abbreviations of flags.
-/

open FileTree

namespace QNode.Fs

def oRdonly : Nat := 0
def oWronly : Nat := 1
def oRdwr : Nat := 2
def oCreat : Nat := 0x40
def oExcl : Nat := 0x80
def oTrunc : Nat := 0x200
def oAppend : Nat := 0x400

/-- `flags & flag` -/
def hasFlag (flags flag : Nat) : Bool := flags &&& flag ≠ 0

def opensForWriting (flags : Nat) : Bool := hasFlag flags (oWronly ||| oRdwr)

/-- `js_fs_parse_open_flags`, on the characters of a C string. -/
def jsFsParseOpenFlags (flags : String) : Nat :=
  match flags.toList with
  | 'r' :: rest => if rest.head? = some '+' then oRdwr else oRdonly
  | 'w' :: rest =>
    if rest.head? = some 'x' then oWronly ||| oCreat ||| oTrunc ||| oExcl
    else if rest.head? = some '+' then oRdwr ||| oCreat ||| oTrunc
    else oWronly ||| oCreat ||| oTrunc
  | 'a' :: rest =>
    if rest.head? = some 'x' then oWronly ||| oCreat ||| oAppend ||| oExcl
    else if rest.head? = some '+' then oRdwr ||| oCreat ||| oAppend
    else oWronly ||| oCreat ||| oAppend
  | _ => oRdonly

section

variable (fs : FileSystem) (cwd : Loc Name)

def lstat (path : List UInt8) : Except Errno (Node Name (List UInt8)) :=
  match locate fs cwd false path (parsePath path).full with
  | .error err => .error err
  | .ok ℓ =>
    match fs.lookup ℓ with
    | none => .error .noent
    | some node => .ok node

/-- Where `open` finds or creates its file; a link at the end is followed unless creation is exclusive. -/
def openTarget (flags : Nat) (path : List UInt8) : Except Errno (Loc Name) :=
  if hasFlag flags oCreat then
    if path = [] then .error .noent
    else if path.length ≥ pathMax then .error .nametoolong
    else fs.place (!hasFlag flags oExcl) maxLinks (if (parsePath path).absolute then [] else cwd)
      (parsePath path).full
  else locate fs cwd true path (parsePath path).full

def createFile (ℓ : Loc Name) : FileSystem :=
  match ℓ with
  | [] => fs
  | n :: parent => fs.add n parent (.file [])

/-- The location of the opened file and the tree that `open` leaves. -/
def openFile (path : List UInt8) (flags : Nat) : Except Errno (Loc Name × FileSystem) :=
  match openTarget fs cwd flags path with
  | .error err => .error err
  | .ok ℓ =>
    match fs.lookup ℓ with
    | none => if hasFlag flags oCreat then .ok (ℓ, createFile fs ℓ) else .error .noent
    | some node =>
      if hasFlag flags oCreat ∧ hasFlag flags oExcl then .error .exist
      else
        match node with
        | .dir =>
          if hasFlag flags oCreat ∨ opensForWriting flags then .error .isdir else .ok (ℓ, fs)
        | .file _ => .ok (ℓ, if hasFlag flags oTrunc then fs.setFile ℓ [] else fs)
        | .link _ => .error .loop

/-- The content of the file that a path leads to. -/
def fileAt (path : List UInt8) : Option (List UInt8) :=
  match stat fs cwd path with
  | .ok (.file content) => some content
  | _ => none

end

section

variable {fs fs' : FileSystem} {cwd ℓ : Loc Name} {path : List UInt8} {flags : Nat}

theorem fileAt_eq_some_iff {content : List UInt8} : fileAt fs cwd path = some content ↔
    ∃ ℓ, locate fs cwd true path (parsePath path).full = .ok ℓ ∧
      fs.lookup ℓ = some (.file content) := by
  rw [← stat_eq_ok_iff, fileAt]
  split
  next found hstat => rw [hstat, Option.some.injEq, Except.ok.injEq, Node.file.injEq]
  next hother => exact ⟨(fun h ↦ nomatch h), fun h ↦ absurd h (hother content)⟩

theorem all_slashes (h : ∀ seg ∈ segments path, seg = []) : ∀ c ∈ path, c = 47 := by
  induction path with
  | nil => simp
  | cons c cs ih =>
    unfold segments at h
    by_cases hc : c = 47
    · rw [if_pos hc, List.forall_mem_cons] at h
      exact List.forall_mem_cons.mpr ⟨hc, ih h.2⟩
    · rw [if_neg hc] at h
      cases hsegs : segments cs with
      | nil => simp [hsegs] at h
      | cons seg segs => simp [hsegs] at h

-- A path has a component, or is a slash at least.
theorem full_ne_nil (h : path ≠ []) : (parsePath path).full ≠ [] := by
  unfold Path.full
  by_cases hslash : (parsePath path).slash
  · simp [hslash]
  · intro hnil
    have hcomps := (List.append_eq_nil_iff.mp hnil).1
    rw [parsePath, List.map_eq_nil_iff, List.filter_eq_nil_iff] at hcomps
    have hall : ∀ c ∈ path, c = 47 := all_slashes (by simpa using hcomps)
    apply hslash
    rw [parsePath, decide_eq_true_iff, List.getLast?_eq_some_getLast h,
      hall _ (List.getLast_mem h)]

theorem openTarget_creat (hcreat : hasFlag flags oCreat) : openTarget fs cwd flags path = .ok ℓ ↔
    path ≠ [] ∧ path.length < pathMax ∧
      fs.place (!hasFlag flags oExcl) maxLinks (if (parsePath path).absolute then [] else cwd)
        (parsePath path).full = .ok ℓ := by
  unfold openTarget
  rw [if_pos hcreat]
  by_cases hempty : path = []
  · simp [hempty]
  by_cases hlong : path.length ≥ pathMax
  · rw [if_neg hempty, if_pos hlong]
    exact ⟨(fun h ↦ nomatch h), fun h ↦ absurd h.2.1 (Nat.not_lt_of_le hlong)⟩
  · rw [if_neg hempty, if_neg hlong]
    exact ⟨fun h ↦ ⟨hempty, Nat.lt_of_not_le hlong, h⟩, fun h ↦ h.2.2⟩

-- What is created is what the path leads to afterwards.
theorem createFile_spec (hcreat : hasFlag flags oCreat)
    (htarget : openTarget fs cwd flags path = .ok ℓ) (hnone : fs.lookup ℓ = none) :
    locate (createFile fs ℓ) cwd true path (parsePath path).full = .ok ℓ ∧
      (createFile fs ℓ).lookup ℓ = some (.file []) ∧ fs.Le (createFile fs ℓ) := by
  obtain ⟨hempty, hlong, hplace⟩ := (openTarget_creat hcreat).mp htarget
  rcases Tree.place_cases hplace with hresolves | ⟨n, parent, rfl, hdir, -, hlater⟩
  · have hstart : (fs.lookup (if (parsePath path).absolute then [] else cwd)).isSome := by
      cases hfull : (parsePath path).full with
      | nil => exact absurd hfull (full_ne_nil hempty)
      | cons c cs =>
        rw [hfull] at hplace
        rw [Tree.isDir_of_place hplace]
        rfl
    have hsome := hresolves.isSome hstart
    rw [hnone] at hsome
    cases hsome
  · have hnew : (createFile fs (n :: parent)).lookup (n :: parent) = some (.file []) :=
      Tree.lookup_add_self hdir hnone
    have hle : fs.Le (createFile fs (n :: parent)) := Tree.le_add fs n parent _
    have hresolves := (hlater _ hle ⟨_, hnew, by simp⟩).following (by rw [hnew]; simp)
    exact ⟨locate_eq_ok_iff.mpr ⟨hempty, hlong, hresolves⟩, hnew, hle⟩

theorem locate_sameShape {follow : Bool} {comps : List (Comp Name)} (h : fs.SameShape fs')
    (hlocate : locate fs cwd follow path comps = .ok ℓ) :
    locate fs' cwd follow path comps = .ok ℓ := by
  rw [locate_eq_ok_iff] at hlocate ⊢
  exact ⟨hlocate.1, hlocate.2.1, h.resolves hlocate.2.2⟩

theorem fileAt_of_locate {content : List UInt8}
    (hlocate : locate fs cwd true path (parsePath path).full = .ok ℓ)
    (hfile : fs.lookup ℓ = some (.file content)) : fileAt fs cwd path = some content :=
  fileAt_eq_some_iff.mpr ⟨ℓ, hlocate, hfile⟩

-- A path to a vacant place leads to no file.
theorem fileAt_vacant (hcreat : hasFlag flags oCreat)
    (htarget : openTarget fs cwd flags path = .ok ℓ) (hnone : fs.lookup ℓ = none) :
    fileAt fs cwd path = none := by
  obtain ⟨hlocate, -, hle⟩ := createFile_spec hcreat htarget hnone
  rw [Option.eq_none_iff_forall_ne_some]
  intro content hcontent
  obtain ⟨found, hfound, hnode⟩ := fileAt_eq_some_iff.mp hcontent
  obtain rfl : found = ℓ := Except.ok.inj ((locate_mono hfound hle).symm.trans hlocate)
  exact absurd (hnone.symm.trans hnode) (by simp)

theorem locate_of_openTarget {node : Node Name (List UInt8)}
    (htarget : openTarget fs cwd flags path = .ok ℓ) (hnode : fs.lookup ℓ = some node)
    (hexcl : ¬ (hasFlag flags oCreat ∧ hasFlag flags oExcl)) :
    locate fs cwd true path (parsePath path).full = .ok ℓ := by
  by_cases hcreat : hasFlag flags oCreat
  · obtain ⟨hempty, hlong, hplace⟩ := (openTarget_creat hcreat).mp htarget
    have hfollow : (!hasFlag flags oExcl) = true := by simpa [hcreat] using hexcl
    rw [hfollow] at hplace
    rcases Tree.place_cases hplace with hresolves | ⟨n, parent, -, -, hnone, -⟩
    · exact locate_eq_ok_iff.mpr ⟨hempty, hlong, hresolves⟩
    · exact absurd (hnone.symm.trans hnode) (by simp)
  · rw [openTarget, if_neg hcreat] at htarget
    exact htarget

-- What an open for writing leaves: the path leads to a file that is new, emptied or as it was.
theorem openFile_spec (h : openFile fs cwd path flags = .ok (ℓ, fs'))
    (hwrite : hasFlag flags oCreat ∨ opensForWriting flags) :
    locate fs' cwd true path (parsePath path).full = .ok ℓ ∧
      fs'.lookup ℓ =
        some (.file (if hasFlag flags oTrunc then [] else (fileAt fs cwd path).getD [])) := by
  unfold openFile at h
  split at h
  next => cases h
  next found htarget =>
    split at h
    next hnone =>
      split at h
      next hcreat =>
        obtain ⟨rfl, rfl⟩ := Prod.mk.inj (Except.ok.inj h)
        obtain ⟨hlocate, hnew, -⟩ := createFile_spec hcreat htarget hnone
        rw [fileAt_vacant hcreat htarget hnone, Option.getD_none, ite_self]
        exact ⟨hlocate, hnew⟩
      next => cases h
    next node hnode =>
      split at h
      next => cases h
      next hexcl =>
        have hlocate := locate_of_openTarget htarget hnode hexcl
        cases node with
        | dir => cases h
        | link target => cases h
        | file old =>
          obtain ⟨rfl, rfl⟩ := Prod.mk.inj (Except.ok.inj h)
          rw [fileAt_of_locate hlocate hnode, Option.getD_some]
          by_cases htrunc : hasFlag flags oTrunc
          · rw [if_pos htrunc, if_pos htrunc]
            exact ⟨locate_sameShape (Tree.setFile_sameShape fs _ []).symm hlocate,
              Tree.lookup_setFile_self hnode⟩
          · rw [if_neg htrunc, if_neg htrunc]
            exact ⟨hlocate, hnode⟩

end

/-! ## fopen -/

inductive FopenMode
  | rb | wb | ab | abPlus | rbPlus
  deriving DecidableEq, Repr

namespace FopenMode

def flags : FopenMode → Nat
  | rb => oRdonly
  | wb => oWronly ||| oCreat ||| oTrunc
  | ab => oWronly ||| oCreat ||| oAppend
  | abPlus => oRdwr ||| oCreat ||| oAppend
  | rbPlus => oRdwr

@[simp] theorem truncates (mode : FopenMode) : hasFlag mode.flags oTrunc ↔ mode = wb := by
  cases mode <;> decide

@[simp] theorem appends (mode : FopenMode) : hasFlag mode.flags oAppend ↔ mode = ab ∨ mode = abPlus := by
  cases mode <;> decide

@[simp] theorem creates (mode : FopenMode) : hasFlag mode.flags oCreat ↔ mode ≠ rb ∧ mode ≠ rbPlus := by
  cases mode <;> decide

@[simp] theorem not_exclusive (mode : FopenMode) : hasFlag mode.flags oExcl = false := by
  cases mode <;> decide

@[simp] theorem writes (mode : FopenMode) : opensForWriting mode.flags ↔ mode ≠ rb := by
  cases mode <;> decide

end FopenMode

/-! ## fs.promises.open -/

inductive OpenFlags
  | missing
  | text (flags : String)
  | number (flags : UInt32)
  | other

/-- The error object of `js_fs_promise_open`. -/
structure OpenError where
  errno : Errno
  code : String
  path : List UInt8
  deriving DecidableEq, Repr

/-- The location of the file that the new FileHandle is for, or what the promise is rejected with. -/
def jsFsPromiseOpen (fs : FileSystem) (cwd : Loc Name) (path : List UInt8) (flags : OpenFlags) :
    Except OpenError (Loc Name) × FileSystem :=
  let flags :=
    match flags with
    | .text flags => jsFsParseOpenFlags flags
    | .number flags => flags.toNat
    | .missing | .other => oRdonly
  match openFile fs cwd path flags with
  | .error err => (.error ⟨err, if err = .noent then "ENOENT" else "UNKNOWN", path⟩, fs)
  | .ok (ℓ, fs) => (.ok ℓ, fs)

end QNode.Fs
