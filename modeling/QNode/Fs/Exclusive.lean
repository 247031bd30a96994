import QNode.Fs.Files

/-!
# Exclusive creation

The flags with an `x` ask for a file that does not exist yet.  Two functions read the flags, one for
`open` and one for `fopen`, and neither finds every `x`.
-/

open FileTree QNode.Engine

namespace QNode.Fs

/-- The exclusive flags of the type declarations. -/
def exclusiveFlags : List String := ["wx", "w+x", "ax", "a+x"]

/-- A path to an entry, which may be a directory or a link. -/
def Present (fs : FileSystem) (cwd : Loc Name) (path : List UInt8) : Prop :=
  ∃ node, lstat fs cwd path = .ok node

/-- A path to a name that a directory does not have. -/
def Creatable (fs : FileSystem) (cwd : Loc Name) (path : List UInt8) : Prop :=
  ∃ comps n ℓ, (parsePath path).full = comps ++ [.name n] ∧ locate fs cwd true path comps = .ok ℓ ∧
    fs.lookup ℓ = some .dir ∧ fs.lookup (n :: ℓ) = none

section

variable (fs : FileSystem) (cwd : Loc Name) (path : List UInt8) (flag : String)

/-- What an exclusive open promises. -/
structure OpensExclusively : Prop where
  refuses : Present fs cwd path → ∃ err,
    jsFsPromiseOpen fs cwd path (.text flag) = (.error err, fs) ∧ err.errno = .exist
  creates : Creatable fs cwd path → ∃ ℓ fs',
    jsFsPromiseOpen fs cwd path (.text flag) = (.ok ℓ, fs') ∧ fileAt fs' cwd path = some []

/-- What an exclusive `writeFile` promises. -/
structure WritesExclusively (bytes : List UInt8) (data : WriteData) (encoding : Option String) : Prop where
  refuses : Present fs cwd path → ∃ err,
    jsFsWriteFileSync .working fs cwd path data (.object encoding (some flag)) = (.fail err, fs) ∧
      err.errno = .exist
  creates : Creatable fs cwd path → ∃ fs',
    jsFsWriteFileSync .working fs cwd path data (.object encoding (some flag)) = (.ok (), fs') ∧
      fileAt fs' cwd path = some bytes

variable {fs cwd path flag} {flags : Nat} {bytes : List UInt8}

/-! ## Opens that create -/

-- With both flags an entry is found where `lstat` finds it.
theorem Present.openFile_exist (h : Present fs cwd path) (hcreat : hasFlag flags oCreat)
    (hexcl : hasFlag flags oExcl) : openFile fs cwd path flags = .error .exist := by
  obtain ⟨node, hnode⟩ := h
  unfold lstat at hnode
  split at hnode
  next => cases hnode
  next ℓ hlocate =>
    obtain ⟨hempty, hlong, hresolves⟩ := locate_eq_ok_iff.mp hlocate
    have htarget : openTarget fs cwd flags path = .ok ℓ :=
      (openTarget_creat hcreat).mpr ⟨hempty, hlong, by rw [hexcl]; exact hresolves.place_eq⟩
    split at hnode
    next => cases hnode
    next found hlookup =>
      rw [openFile, htarget]
      dsimp only
      rw [hlookup]
      exact if_pos ⟨hcreat, hexcl⟩

theorem Creatable.openFile_ok (h : Creatable fs cwd path) (hcreat : hasFlag flags oCreat) :
    ∃ ℓ fs', openFile fs cwd path flags = .ok (ℓ, fs') ∧
      locate fs' cwd true path (parsePath path).full = .ok ℓ ∧ fs'.lookup ℓ = some (.file []) := by
  obtain ⟨comps, n, ℓ, hfull, hlocate, hdir, hnone⟩ := h
  obtain ⟨hempty, hlong, hresolves⟩ := locate_eq_ok_iff.mp hlocate
  have htarget : openTarget fs cwd flags path = .ok (n :: ℓ) := by
    rw [openTarget_creat hcreat, hfull]
    exact ⟨hempty, hlong, hresolves.place_missing hdir hnone _⟩
  obtain ⟨hnew, hfile, -⟩ := createFile_spec hcreat htarget hnone
  refine ⟨n :: ℓ, createFile fs (n :: ℓ), ?_, hnew, hfile⟩
  rw [openFile, htarget]
  dsimp only
  rw [hnone]
  exact if_pos hcreat

-- Without the second flag nothing is refused for existing.
theorem openFile_ne_exist (hcreat : hasFlag flags oCreat) (hexcl : hasFlag flags oExcl = false) :
    openFile fs cwd path flags ≠ .error .exist := by
  have htarget : openTarget fs cwd flags path ≠ .error .exist := by
    rw [openTarget, if_pos hcreat]
    split
    · intro h
      cases h
    · split
      · intro h
        cases h
      · exact Tree.place_ne_exist
  unfold openFile
  split
  next err herr =>
    intro h
    exact htarget (herr.trans (congrArg Except.error (Except.error.inj h)))
  next ℓ hℓ =>
    split
    next =>
      rw [if_pos hcreat]
      intro h
      cases h
    next node hnode =>
      rw [if_neg (by simp [hexcl])]
      cases node with
      | dir => simp [hcreat]
      | file content =>
        intro h
        cases h
      | link target =>
        intro h
        cases h

theorem jsFsPromiseOpen_ok {ℓ : Loc Name} {fs' : FileSystem}
    (h : openFile fs cwd path (jsFsParseOpenFlags flag) = .ok (ℓ, fs')) :
    jsFsPromiseOpen fs cwd path (.text flag) = (.ok ℓ, fs') := by
  rw [jsFsPromiseOpen, h]

theorem jsFsPromiseOpen_error {err : Errno}
    (h : openFile fs cwd path (jsFsParseOpenFlags flag) = .error err) :
    jsFsPromiseOpen fs cwd path (.text flag) =
      (.error ⟨err, if err = .noent then "ENOENT" else "UNKNOWN", path⟩, fs) := by
  rw [jsFsPromiseOpen, h]

-- The promise is rejected with the error of `open`.
theorem errno_of_rejected {err : OpenError} {fs' : FileSystem}
    (h : jsFsPromiseOpen fs cwd path (.text flag) = (.error err, fs')) :
    openFile fs cwd path (jsFsParseOpenFlags flag) = .error err.errno := by
  cases hopen : openFile fs cwd path (jsFsParseOpenFlags flag) with
  | error err' =>
    rw [jsFsPromiseOpen_error hopen] at h
    rw [← Except.error.inj (congrArg Prod.fst h)]
  | ok opened =>
    rw [jsFsPromiseOpen_ok hopen] at h
    cases congrArg Prod.fst h

theorem opensExclusively_iff (hflag : flag ∈ exclusiveFlags) :
    OpensExclusively fs cwd path flag ↔ ¬ Present fs cwd path ∨ flag = "wx" ∨ flag = "ax" := by
  have hcreat : hasFlag (jsFsParseOpenFlags flag) oCreat := by
    revert flag
    decide
  have hexcl : hasFlag (jsFsParseOpenFlags flag) oExcl ↔ flag = "wx" ∨ flag = "ax" := by
    revert flag
    decide
  have hcreates : Creatable fs cwd path → ∃ ℓ fs',
      jsFsPromiseOpen fs cwd path (.text flag) = (.ok ℓ, fs') ∧ fileAt fs' cwd path = some [] := by
    intro hcreatable
    obtain ⟨ℓ, fs', hopen, hlocate, hfile⟩ := hcreatable.openFile_ok hcreat
    exact ⟨ℓ, fs', jsFsPromiseOpen_ok hopen, fileAt_of_locate hlocate hfile⟩
  constructor
  · intro h
    by_contra hnot
    obtain ⟨hexists, hother⟩ := not_or.mp hnot
    obtain ⟨err, hrun, herr⟩ := h.refuses (not_not.mp hexists)
    have hopen := errno_of_rejected hrun
    rw [herr] at hopen
    exact openFile_ne_exist hcreat (by simpa using mt hexcl.mp hother) hopen
  · intro h
    refine ⟨fun hexists ↦ ?_, hcreates⟩
    have hx := hexcl.mpr (h.resolve_left (not_not.mpr hexists))
    exact ⟨_, jsFsPromiseOpen_error (hexists.openFile_exist hcreat hx), rfl⟩

/-! ## Whole files -/

theorem writesExclusively_iff (hflag : flag ∈ exclusiveFlags) {data : WriteData}
    (hdata : data.bytes = some bytes) (encoding : Option String) :
    WritesExclusively fs cwd path flag bytes data encoding ↔ ¬ Present fs cwd path := by
  have hmode : writeFmode flag = .wb ∨ writeFmode flag = .ab := by
    revert flag
    decide
  have hcreat : hasFlag (writeFmode flag).flags oCreat := by
    rcases hmode with hmode | hmode <;> rw [hmode] <;> decide
  have hrb : writeFmode flag ≠ .rb := by
    rcases hmode with hmode | hmode <;> rw [hmode] <;> decide
  have hrun : jsFsWriteFileSync .working fs cwd path data (.object encoding (some flag)) =
      writeWholeData .working fs cwd path data (writeFmode flag) :=
    rfl
  constructor
  · intro h hexists
    obtain ⟨err, hfail, herr⟩ := h.refuses hexists
    rw [hrun] at hfail
    rcases writeWholeData_working _ hdata hrb with
      ⟨err', hopen, hresult⟩ | ⟨ℓ, fs', fs'', hopen, hresult, -⟩
    · rw [hresult] at hfail
      obtain rfl := FsOutcome.fail.inj (congrArg Prod.fst hfail)
      obtain rfl : err' = .exist := herr
      exact openFile_ne_exist hcreat (writeFmode flag).not_exclusive hopen
    · rw [hresult] at hfail
      cases congrArg Prod.fst hfail
  · intro hnew
    refine ⟨fun hexists ↦ absurd hexists hnew, fun hcreatable ↦ ?_⟩
    obtain ⟨ℓ, fs', hcreated, -, hfile⟩ := hcreatable.openFile_ok hcreat
    rcases writeWholeData_working cwd hdata hrb with
      ⟨err, hopen, -⟩ | ⟨ℓ', fs₁, fs₂, hopen, hresult, hcontent⟩
    · cases hopen.symm.trans hcreated
    · obtain ⟨rfl, rfl⟩ := Prod.mk.inj (Except.ok.inj (hopen.symm.trans hcreated))
      refine ⟨fs₂, hrun.trans hresult, ?_⟩
      rw [hcontent [] hfile, writtenTo]
      split
      · rw [List.nil_append]
      · rw [List.drop_nil, List.append_nil]

/-- The exclusive flags keep their promise for a path without an entry; for an existing one `open`
does only with the `x` in the second place, and `writeFile` never. -/
theorem exclusive_iff (hflag : flag ∈ exclusiveFlags) {data : WriteData}
    (hdata : data.bytes = some bytes) (encoding : Option String) :
    (OpensExclusively fs cwd path flag ↔ ¬ Present fs cwd path ∨ flag = "wx" ∨ flag = "ax") ∧
      (WritesExclusively fs cwd path flag bytes data encoding ↔ ¬ Present fs cwd path) :=
  ⟨opensExclusively_iff hflag, writesExclusively_iff hflag hdata encoding⟩

theorem exclusive_wx :
    (OpensExclusively Tree.empty [] [47, 102] "wx" ↔
        ¬ Present Tree.empty [] [47, 102] ∨ "wx" = "wx" ∨ "wx" = "ax") ∧
      (WritesExclusively Tree.empty [] [47, 102] "wx" [97] (.string [97]) none ↔
        ¬ Present Tree.empty [] [47, 102]) :=
  exclusive_iff (by decide) (by decide) none

/-- With a file `/f` that holds `hi`, `open("/f", "w+x")` empties it, and `writeFileSync("/f", "a", {flag: "wx"})` replaces
its content. -/
theorem exclusive_flag_missed :
    ¬ (∀ (fs : FileSystem) (cwd : Loc Name) (path : List UInt8), ∀ flag ∈ exclusiveFlags,
        OpensExclusively fs cwd path flag) ∧
      ¬ ∀ (fs : FileSystem) (cwd : Loc Name) (path bytes : List UInt8) (data : WriteData)
        (encoding : Option String), ∀ flag ∈ exclusiveFlags, data.bytes = some bytes →
        WritesExclusively fs cwd path flag bytes data encoding := by
  have hexists : Present (oneFile [104, 105]) [] [47, 102] := ⟨.file [104, 105], by decide⟩
  constructor
  · intro h
    obtain ⟨err, hrun, -⟩ := (h (oneFile [104, 105]) [] [47, 102] "w+x" (by decide)).refuses hexists
    have hopened : (jsFsPromiseOpen (oneFile [104, 105]) [] [47, 102] (.text "w+x")).1.isOk := by decide
    rw [hrun] at hopened
    cases hopened
  · intro h
    obtain ⟨err, hrun, -⟩ := (h (oneFile [104, 105]) [] [47, 102] [97] (.string [97]) none "wx" (by decide)
      (by decide)).refuses hexists
    have hwritten : (jsFsWriteFileSync .working (oneFile [104, 105]) [] [47, 102] (.string [97])
        (.object none (some "wx"))).1 = .ok () := by
      decide
    rw [hrun] at hwritten
    cases hwritten

end

end QNode.Fs
