import QNode.Fs.Posix

/-!
# rmSync

`rm_recursive` empties a directory entry by entry and then removes it.  It decides with `stat`, which
follows links, whether an entry is a directory.
-/

open FileTree

namespace QNode.Fs

structure FsError where
  errno : Errno
  code : String
  path : List UInt8
  syscall : String
  deriving DecidableEq, Repr

def jsFsThrowError (err : Errno) (path : List UInt8) (syscall : String) : FsError where
  errno := err
  code :=
    match err with
    | .noent => "ENOENT"
    | .acces => "EACCES"
    | .exist => "EEXIST"
    | .isdir => "EISDIR"
    | .notdir => "ENOTDIR"
    | .perm => "EPERM"
    | .nospc => "ENOSPC"
    | .busy => "EBUSY"
    | .io => "EIO"
    | _ => "UNKNOWN"
  path := path
  syscall := syscall

/-- The order in which `readdir` returns the entries of a directory. -/
structure Readdir where
  order : List UInt8 → List (List UInt8) → List (List UInt8)
  perm : ∀ path entries, (order path entries).Perm entries

/-- `snprintf(child, sizeof(child), "%s/%s", path, name)` -/
def childPath (path name : List UInt8) : List UInt8 := (path ++ 47 :: name).take (pathMax - 1)

section

variable (cwd : Loc Name)

/-- The body of the loop over the entries; no result of it is looked at. -/
def rmEntry (recurse : FileSystem → List UInt8 → FileSystem) (path : List UInt8) (fs : FileSystem)
    (name : List UInt8) : FileSystem :=
  if name = [46] ∨ name = [46, 46] then fs
  else
    let child := childPath path name
    match stat fs cwd child with
    | .error _ => fs
    | .ok .dir => recurse fs child
    | .ok _ =>
      match unlink fs cwd child with
      | .error _ => fs
      | .ok fs => fs

/-- Each level of the recursion keeps a directory open, and there is one `Readdir` for every descriptor
left.  The error is the `errno` of the last call. -/
def rmRecursive : List Readdir → FileSystem → List UInt8 → Except Errno Unit × FileSystem
  | [], fs, _ => (.error .mfile, fs)
  | readdir :: levels, fs, path =>
    match opendir fs cwd path with
    | .error err => (.error err, fs)
    | .ok ℓ =>
      let fs := (readdir.order path (dirEntries fs ℓ)).foldl
        (rmEntry cwd (fun fs child ↦ (rmRecursive levels fs child).2) path) fs
      match rmdir fs cwd path with
      | .error err => (.error err, fs)
      | .ok fs => (.ok (), fs)

def jsFsRmSync (levels : List Readdir) (fs : FileSystem) (path : List UInt8) (recursive force : Bool) :
    Except FsError Unit × FileSystem :=
  match stat fs cwd path with
  | .error err =>
    if force ∧ err = .noent then (.ok (), fs)
    else (.error (jsFsThrowError err path "stat"), fs)
  | .ok .dir =>
    if !recursive then (.error (jsFsThrowError .isdir path "rm"), fs)
    else match rmRecursive cwd levels fs path with
      | (.error err, fs) => (.error (jsFsThrowError err path "rm"), fs)
      | (.ok (), fs) => (.ok (), fs)
  | .ok _ =>
    match unlink fs cwd path with
    | .error err => (.error (jsFsThrowError err path "unlink"), fs)
    | .ok fs => (.ok (), fs)

end

/-! ## The trees of a run -/

section

variable {cwd : Loc Name} {fs fs' : FileSystem} {path name : List UInt8}

theorem unlink_eq_ok_iff : unlink fs cwd path = .ok fs' ↔
    ∃ ℓ, unlinkTarget fs cwd path = .ok ℓ ∧ fs' = fs.erase ℓ := by
  unfold unlink
  cases unlinkTarget fs cwd path with
  | error err => simp [Except.map]
  | ok ℓ => simp [Except.map, eq_comm]

theorem rmdir_eq_ok_iff : rmdir fs cwd path = .ok fs' ↔
    ∃ ℓ, rmdirTarget fs cwd path = .ok ℓ ∧ fs' = fs.erase ℓ := by
  unfold rmdir
  cases rmdirTarget fs cwd path with
  | error err => simp [Except.map]
  | ok ℓ => simp [Except.map, eq_comm]

theorem rmEntry_cases (recurse : FileSystem → List UInt8 → FileSystem) :
    rmEntry cwd recurse path fs name = fs ∨
    ((name ≠ [46] ∧ name ≠ [46, 46]) ∧
      ((stat fs cwd (childPath path name) = .ok .dir ∧
          rmEntry cwd recurse path fs name = recurse fs (childPath path name)) ∨
        ∃ node ℓ, stat fs cwd (childPath path name) = .ok node ∧ node ≠ .dir ∧
          unlinkTarget fs cwd (childPath path name) = .ok ℓ ∧
          rmEntry cwd recurse path fs name = fs.erase ℓ)) := by
  unfold rmEntry
  by_cases hdots : name = [46] ∨ name = [46, 46]
  · exact .inl (if_pos hdots)
  · rw [if_neg hdots]
    dsimp only
    split
    next => exact .inl rfl
    next hstat => exact .inr ⟨not_or.mp hdots, .inl ⟨hstat, rfl⟩⟩
    next node hdir hstat =>
      split
      next => exact .inl rfl
      next fs' hunlink =>
        obtain ⟨ℓ, htarget, rfl⟩ := unlink_eq_ok_iff.mp hunlink
        exact .inr ⟨not_or.mp hdots, .inr ⟨node, ℓ, hstat, hdir, htarget, rfl⟩⟩

theorem rmRecursive_cases (readdir : Readdir) (levels : List Readdir) (fs : FileSystem)
    (path : List UInt8) :
    (rmRecursive cwd (readdir :: levels) fs path).2 = fs ∨
    ∃ ℓ fs', opendir fs cwd path = .ok ℓ ∧
      fs' = (readdir.order path (dirEntries fs ℓ)).foldl
        (rmEntry cwd (fun fs child ↦ (rmRecursive cwd levels fs child).2) path) fs ∧
      ((rmRecursive cwd (readdir :: levels) fs path).2 = fs' ∨
        ∃ ℓ', rmdirTarget fs' cwd path = .ok ℓ' ∧
          (rmRecursive cwd (readdir :: levels) fs path).2 = fs'.erase ℓ') := by
  rw [rmRecursive]
  split
  next => exact .inl rfl
  next ℓ hopen =>
    refine .inr ⟨ℓ, _, hopen, rfl, ?_⟩
    dsimp only
    split
    next => exact .inl rfl
    next fs' hrmdir => exact .inr (rmdir_eq_ok_iff.mp hrmdir)

-- The rule for whole runs.  A property of the tree is kept if it is kept whenever an entry is removed
-- by a path the recursion comes to.
theorem rmRecursive_keeps {I : FileSystem → Prop} {P : List UInt8 → Prop}
    (hentry : ∀ fs path ℓ n, I fs → P path → opendir fs cwd path = .ok ℓ → n ∈ fs.children ℓ →
      P (childPath path n.bytes))
    (hunlink : ∀ fs path node ℓ, I fs → P path → stat fs cwd path = .ok node → node ≠ .dir →
      unlinkTarget fs cwd path = .ok ℓ → I (fs.erase ℓ))
    (hrmdir : ∀ fs₀ ℓ₀ fs path ℓ, I fs₀ → opendir fs₀ cwd path = .ok ℓ₀ → I fs → P path →
      rmdirTarget fs cwd path = .ok ℓ → I (fs.erase ℓ))
    (levels : List Readdir) (hfs : I fs) (hpath : P path) :
    I (rmRecursive cwd levels fs path).2 := by
  induction levels generalizing fs path with
  | nil => exact hfs
  | cons readdir levels ih =>
    rcases rmRecursive_cases readdir levels fs path with hsame | ⟨ℓ, fs', hopen, hloop, hend⟩
    · rw [hsame]
      exact hfs
    · -- the loop over the entries
      have hnames : ∀ name ∈ readdir.order path (dirEntries fs ℓ),
          name ≠ [46] ∧ name ≠ [46, 46] → P (childPath path name) := by
        intro name hname hdots
        rw [(readdir.perm _ _).mem_iff, dirEntries, List.mem_cons, List.mem_cons, List.mem_map] at hname
        rcases hname with rfl | rfl | ⟨n, hn, rfl⟩
        · exact absurd rfl hdots.1
        · exact absurd rfl hdots.2
        · exact hentry fs path ℓ n hfs hpath hopen hn
      have hfs' : I fs' := by
        rw [hloop]
        apply List.foldlRecOn _ _ hfs
        intro fs hfs name hname
        rcases @rmEntry_cases cwd fs path name _ with
          hsame | ⟨hdots, ⟨hstat, hrec⟩ | ⟨node, ℓ, hstat, hdir, htarget, herase⟩⟩
        · rw [hsame]
          exact hfs
        · rw [hrec]
          exact ih hfs (hnames name hname hdots)
        · rw [herase]
          exact hunlink fs _ node ℓ hfs (hnames name hname hdots) hstat hdir htarget
      rcases hend with hsame | ⟨ℓ', htarget, herase⟩
      · rw [hsame]
        exact hfs'
      · rw [herase]
        exact hrmdir fs ℓ fs' path ℓ' hfs hopen hfs' hpath htarget

end

end QNode.Fs
