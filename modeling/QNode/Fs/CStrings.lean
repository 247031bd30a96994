import QNode.Fs.SyncCalls

/-!
# Released once, and not read again

Every function releases its strings before it calls `js_fs_throw_error` with one of them.  An execution
is disciplined exactly when no failure of the C library is reported, and the process lives on.
-/

open FileTree Handles QNode.Engine

namespace QNode.Fs.CStrings

/-! ## The calls that fail -/

section

variable (w : Outcomes) (argv : List Value)

def PathGiven : Prop := argv[0]?.any Value.isString ∧ w.toCString .path

def PathsGiven (p q : CString) : Prop :=
  2 ≤ argv.length ∧ argv[0]?.any Value.isString ∧ argv[1]?.any Value.isString ∧ w.toCString p ∧
    w.toCString q

/-- The open fails, the size is unknown and the allocator stops the process, or the read is short. -/
def ReadFails : Prop :=
  w.fails .fopen ≠ none ∨ w.size = -1 ∨ (w.malloc ∧ 0 < w.size ∧ w.fails .fread ≠ none)

/-- The bytes that `fwrite` is given. -/
def dataLength : Option Value → Option Nat
  | some (.string text) => some (if w.toCString .data then (jsToCStringLen text).length else 0)
  | some (.object _ (some bytes)) => some bytes.length
  | _ => none

/-- The flag has become a null pointer, or the open or the write fails. -/
def WriteFails (flag : FlagStr) (data : Option Value) : Prop :=
  ∃ dataLen ∈ dataLength w data,
    flag = .null ∨ w.fails .fopen ≠ none ∨ (0 < dataLen ∧ w.fails .fwrite ≠ none)

def RmFails : Prop :=
  match w.fails .stat with
  | some err => ¬ ((Value.property "force" argv[1]?).flag ∧ err = .noent)
  | none =>
    if w.isDir then
      (Value.property "recursive" argv[1]?).flag → w.fails .rm ≠ none
    else w.fails .unlink ≠ none

def CopyFails : Prop :=
  w.fails .fopen ≠ none ∨ w.fails .fopenDest ≠ none ∨ ∃ block ∈ w.blocks, block ≠ none

/-- The arguments are accepted, and then a call of the C library fails and is reported, or the process
ends. -/
def SyncFunction.Fails : SyncFunction → Prop
  | readFileSync => PathGiven w argv ∧ ReadFails w
  | writeFileSync =>
    2 ≤ argv.length ∧ PathGiven w argv ∧ WriteFails w (flagOption w argv[2]?) argv[1]?
  | appendFileSync => 2 ≤ argv.length ∧ PathGiven w argv ∧ WriteFails w .literal argv[1]?
  | mkdirSync => PathGiven w argv ∧ w.fails .mkdir ≠ none
  | readdirSync => PathGiven w argv ∧ w.fails .opendir ≠ none
  | statSync | lstatSync => PathGiven w argv ∧ w.fails .stat ≠ none
  | unlinkSync => PathGiven w argv ∧ w.fails .unlink ≠ none
  | renameSync => PathsGiven w argv .oldpath .newpath ∧ w.fails .rename ≠ none
  | rmdirSync => PathGiven w argv ∧ w.fails .rmdir ≠ none
  | rmSync => PathGiven w argv ∧ RmFails w argv
  | copyFileSync => PathsGiven w argv .src .dest ∧ CopyFails w
  | realpathSync => PathGiven w argv ∧ w.fails .realpath ≠ none
  | accessSync =>
    PathGiven w argv ∧ (argv[1]?.any (fun mode ↦ !mode.isUndefined) → w.toInt32) ∧
      w.fails .access ≠ none
  | chmodSync =>
    ¬ w.win32 ∧ 2 ≤ argv.length ∧ PathGiven w argv ∧ w.toInt32 ∧ w.fails .chmod ≠ none

end

/-! ## Arguments that are refused -/

section

variable {w : Outcomes} {argv : List Value} {rest : Execution} {P : Prop}

theorem withPath_disciplined (h : Disciplined (.acquire .path :: rest.accesses) ↔ ¬ P) :
    Disciplined (withPath w argv rest).accesses ↔ ¬ (PathGiven w argv ∧ P) := by
  unfold withPath PathGiven
  by_cases hstring : argv[0]?.any Value.isString
  · rw [if_neg (not_not.mpr hstring)]
    by_cases hpath : w.toCString .path
    · rw [if_neg (not_not.mpr hpath)]
      simpa [hstring, hpath] using h
    · rw [if_pos hpath]
      exact iff_of_true disciplined_nil fun hgiven ↦ hpath hgiven.1.2
  · rw [if_pos hstring]
    exact iff_of_true disciplined_nil fun hgiven ↦ hstring hgiven.1.1

theorem withPaths_disciplined {message : String} {p q : CString}
    (h : Disciplined (.acquire p :: .acquire q :: rest.accesses) ↔ ¬ P) :
    Disciplined (withPaths w argv message p q rest).accesses ↔ ¬ (PathsGiven w argv p q ∧ P) := by
  unfold withPaths PathsGiven
  by_cases hargc : argv.length < 2
  · rw [if_pos hargc]
    exact iff_of_true disciplined_nil fun hgiven ↦ Nat.not_le_of_lt hargc hgiven.1.1
  rw [if_neg hargc]
  by_cases hstrings : argv[0]?.any Value.isString ∧ argv[1]?.any Value.isString
  · rw [if_neg (not_not.mpr hstrings)]
    by_cases hp : w.toCString p
    · rw [if_neg (not_not.mpr hp)]
      by_cases hq : w.toCString q
      · rw [if_neg (not_not.mpr hq)]
        simpa [hstrings, hp, hq, Nat.le_of_not_lt hargc] using h
      · rw [if_pos hq]
        -- the first path is released when the second is not to be had
        refine iff_of_true ?_ fun hgiven ↦ hq hgiven.1.2.2.2.2
        simp [Disciplined, acquired, Access.acquired, afterRelease]
    · rw [if_pos hp]
      exact iff_of_true disciplined_nil fun hgiven ↦ hp hgiven.1.2.2.2.1
  · rw [if_pos hstrings]
    exact iff_of_true disciplined_nil fun hgiven ↦ hstrings ⟨hgiven.1.2.1, hgiven.1.2.2.1⟩

/-! ## Executions that go on -/

-- A string that is given to the error once it is released, after whatever went before.
theorem not_disciplined_of_throw {s : CString} (accesses : List (Access CString))
    (hacquired : s ∈ acquired accesses) (hreleased : .release s ∈ accesses) (err : Errno)
    (syscall : String) : ¬ Disciplined (accesses ++ (jsFsThrowError err s syscall).accesses) :=
  not_disciplined_of_read hacquired hreleased [.read s]

-- The path is released, and then read for the error; `rmSync` has read it before.
theorem pathCall_disciplined (earlier : Bool) (call : Syscall) (syscall : String) (exit : Exit) :
    Disciplined (.acquire .path :: (readIf earlier .path ++
      (pathCall w call syscall ⟨[], exit⟩).accesses)) ↔ ¬ w.fails call ≠ none := by
  have hthrow : ∀ err, ¬ Disciplined (.acquire .path :: (readIf earlier .path ++
      [.read .path, .release .path]) ++ (jsFsThrowError err .path syscall).accesses) := by
    intro err
    apply not_disciplined_of_throw <;> cases earlier <;> decide
  have hreturn : Disciplined (.acquire .path :: (readIf earlier .path ++
      ([.read .path, .release .path] : List (Access CString)))) := by
    cases earlier <;> decide
  unfold pathCall
  cases w.fails call with
  | none => exact iff_of_true hreturn (by simp)
  | some err =>
    refine iff_of_false ?_ (by simp)
    have hnot := hthrow err
    rw [List.cons_append, List.append_assoc] at hnot
    exact hnot

theorem onePath_disciplined (call : Syscall) (syscall : String) (exit : Exit) :
    Disciplined (withPath w argv (pathCall w call syscall ⟨[], exit⟩)).accesses ↔
      ¬ (PathGiven w argv ∧ w.fails call ≠ none) :=
  withPath_disciplined (pathCall_disciplined false call syscall exit)

end

section

variable (w : Outcomes) (argv : List Value)

theorem readFileSync_disciplined :
    Disciplined (jsFsReadFileSync w argv).accesses ↔ ¬ (PathGiven w argv ∧ ReadFails w) := by
  apply withPath_disciplined
  unfold ReadFails
  generalize encodingOption w argv[1]? = encoding
  have hthrow : ∀ err syscall, ¬ Disciplined (.acquire .path ::
      (acquireIf encoding .encoding ++ [.read .path] ++ (freeIf encoding .encoding ++
        [.release .path] ++ (jsFsThrowError err .path syscall).accesses))) := by
    intro err syscall
    rw [← List.append_assoc, ← List.cons_append]
    apply not_disciplined_of_throw <;> cases encoding <;> decide
  cases hopen : w.fails .fopen with
  | some err => exact iff_of_false (hthrow err "open") (by simp)
  | none =>
    dsimp only
    by_cases hsize : w.size + 1 = 0
    · -- the assertion stops the process while it holds the strings
      rw [if_pos hsize]
      refine iff_of_false ?_ (not_not.mpr (.inr (.inl (by omega))))
      apply not_disciplined_of_held (h := CString.path) <;> cases encoding <;> decide
    rw [if_neg hsize]
    by_cases hmalloc : w.malloc
    · rw [if_neg (not_not.mpr hmalloc)]
      cases hread : if w.size > 0 then w.fails .fread else none with
      | some err =>
        have hpos : 0 < w.size ∧ w.fails .fread ≠ none := by
          split at hread
          next hpos => exact ⟨hpos, by simp [hread]⟩
          next => cases hread
        exact iff_of_false (hthrow err "read") (not_not.mpr (.inr (.inr ⟨hmalloc, hpos⟩)))
      | none =>
        have hreturn : Disciplined (.acquire .path :: (acquireIf encoding .encoding ++
            [.read .path] ++ (readIf encoding .encoding ++ (freeIf encoding .encoding ++
              [.release .path])))) := by
          cases encoding <;> decide
        refine iff_of_true hreturn ?_
        rintro (h | h | ⟨-, hpos, h⟩)
        · exact h rfl
        · omega
        · rw [if_pos hpos] at hread
          exact h hread
    · rw [if_pos hmalloc]
      refine iff_of_true (by cases encoding <;> decide) ?_
      rintro (h | h | ⟨h, -⟩)
      · exact h rfl
      · omega
      · exact hmalloc h

/-- What a write has done to its strings when it opens the file, or after it has written. -/
def beforeWrite (encoding : Bool) (flag : FlagStr) (text written : Bool) : List (Access CString) :=
  .acquire .path :: (acquireIf encoding .encoding ++ acquireIf (flag = .allocated) .flag ++
    (acquireIf text .data ++ (readIf (flag = .allocated) .flag ++ [.read .path] ++
      readIf (written && text) .data)))

theorem beforeWrite_throw (encoding : Bool) (flag : FlagStr) (text written : Bool) (err : Errno)
    (syscall : String) : ¬ Disciplined (beforeWrite encoding flag text written ++
      (freeIf text .data ++ freeOptions encoding flag) ++
      (jsFsThrowError err .path syscall).accesses) := by
  apply not_disciplined_of_throw <;> cases encoding <;> cases flag <;> cases text <;>
    cases written <;> decide

theorem beforeWrite_return (encoding : Bool) (flag : FlagStr) (text written : Bool) :
    Disciplined (beforeWrite encoding flag text written ++
      (freeIf text .data ++ freeOptions encoding flag)) := by
  cases encoding <;> cases flag <;> cases text <;> cases written <;> decide

theorem writeData_disciplined (encoding : Bool) (flag : FlagStr) (text : Bool) (dataLen : Nat) :
    Disciplined (.acquire .path :: (acquireIf encoding .encoding ++
      acquireIf (flag = .allocated) .flag ++ (writeData w encoding flag text dataLen).accesses)) ↔
      ¬ (flag = .null ∨ w.fails .fopen ≠ none ∨ (0 < dataLen ∧ w.fails .fwrite ≠ none)) := by
  have hthrow := beforeWrite_throw encoding flag text
  have hreturn := beforeWrite_return encoding flag text
  simp only [beforeWrite, List.cons_append, List.append_assoc] at hthrow hreturn
  unfold writeData
  dsimp only
  by_cases hnull : flag = .null
  · -- the null pointer is read while the path is held
    rw [if_pos hnull]
    refine iff_of_false ?_ (not_not.mpr (.inl hnull))
    apply not_disciplined_of_held (h := CString.path) <;> subst hnull <;> cases encoding <;>
      cases text <;> decide
  rw [if_neg hnull]
  simp only [Execution.accesses_after, List.append_assoc]
  cases w.fails .fopen with
  | some err =>
    refine iff_of_false ?_ (by simp)
    simpa using hthrow false err "open"
  | none =>
    dsimp only
    by_cases hlen : dataLen > 0
    · rw [if_pos hlen]
      cases w.fails .fwrite with
      | some err =>
        refine iff_of_false ?_ (by simp [hlen])
        simpa using hthrow true err "write"
      | none =>
        refine iff_of_true ?_ (by simp [hnull])
        simpa using hreturn true
    · rw [if_neg hlen]
      refine iff_of_true ?_ (by simp [hnull, hlen])
      simpa using hreturn false

theorem writeWholeData_disciplined (encoding : Bool) (flag : FlagStr) (data : Option Value) :
    Disciplined (.acquire .path :: (writeWholeData w encoding flag data).accesses) ↔
      ¬ WriteFails w flag data := by
  have hwrite := writeData_disciplined w encoding flag
  have hrefuse : Disciplined (.acquire .path :: (acquireIf encoding .encoding ++
      acquireIf (flag = .allocated) .flag ++ freeOptions encoding flag)) := by
    cases encoding <;> cases flag <;> decide
  unfold writeWholeData WriteFails
  rcases data with - | data
  · exact iff_of_true hrefuse (by simp [dataLength])
  cases data with
  | string text =>
    by_cases hdata : w.toCString .data
    · simpa [dataLength, hdata] using hwrite true (jsToCStringLen text).length
    · simpa [dataLength, hdata] using hwrite false 0
  | object property bytes =>
    cases bytes with
    | none => exact iff_of_true hrefuse (by simp [dataLength])
    | some bytes => simpa [dataLength] using hwrite false bytes.length
  | undefined | bool _ | other => exact iff_of_true hrefuse (by simp [dataLength])

theorem rmSync_disciplined :
    Disciplined (jsFsRmSync w argv).accesses ↔ ¬ (PathGiven w argv ∧ RmFails w argv) := by
  apply withPath_disciplined
  unfold RmFails
  generalize (Value.property "recursive" argv[1]?).flag = recursive
  generalize (Value.property "force" argv[1]?).flag = force
  have hthrow : ∀ err syscall, ¬ Disciplined (([.acquire .path, .read .path, .release .path] :
      List (Access CString)) ++ (jsFsThrowError err .path syscall).accesses) :=
    fun err syscall ↦ not_disciplined_of_throw _ (by decide) (by decide) err syscall
  cases w.fails .stat with
  | some err =>
    dsimp only
    by_cases hforce : force ∧ err = .noent
    · rw [if_pos hforce]
      exact iff_of_true (by decide) (not_not.mpr hforce)
    · rw [if_neg hforce]
      exact iff_of_false (hthrow err "stat") (not_not.mpr hforce)
  | none =>
    dsimp only
    by_cases hdir : w.isDir
    · rw [if_pos hdir, if_pos hdir]
      by_cases hrecursive : recursive
      · rw [if_neg (not_not.mpr hrecursive), imp_iff_right hrecursive]
        exact pathCall_disciplined true .rm "rm" .value
      · rw [if_pos hrecursive]
        exact iff_of_false (hthrow .isdir "rm") (by simp [hrecursive])
    · rw [if_neg hdir, if_neg hdir]
      exact pathCall_disciplined true .unlink "unlink" .value

theorem copyBlocks_disciplined (blocks : List (Option Errno)) :
    Disciplined ([.acquire .src, .acquire .dest, .read .src, .read .dest] ++
      (copyBlocks blocks).accesses) ↔ ¬ ∃ block ∈ blocks, block ≠ none := by
  induction blocks with
  | nil => exact iff_of_true (by decide) (by simp)
  | cons block blocks ih =>
    cases block with
    | none =>
      rw [copyBlocks, ih]
      simp
    | some err =>
      refine iff_of_false ?_ (by simp)
      exact not_disciplined_of_throw [.acquire .src, .acquire .dest, .read .src,
        .read .dest, .release .src, .release .dest] (by decide) (by decide) err "write"

theorem copyFileSync_disciplined :
    Disciplined (jsFsCopyFileSync w argv).accesses ↔ ¬ (PathsGiven w argv .src .dest ∧ CopyFails w) := by
  apply withPaths_disciplined
  unfold CopyFails
  cases w.fails .fopen with
  | some err =>
    refine iff_of_false ?_ (by simp)
    exact not_disciplined_of_throw [.acquire .src, .acquire .dest, .read .src,
      .release .src, .release .dest] (by decide) (by decide) err "open"
  | none =>
    cases w.fails .fopenDest with
    | some err =>
      refine iff_of_false ?_ (by simp)
      exact not_disciplined_of_throw [.acquire .src, .acquire .dest, .read .src,
        .read .dest, .release .src, .release .dest] (by decide) (by decide) err "open"
    | none =>
      have hblocks := copyBlocks_disciplined w.blocks
      simpa using hblocks

theorem accessSync_disciplined : Disciplined (jsFsAccessSync w argv).accesses ↔
    ¬ (PathGiven w argv ∧ (argv[1]?.any (fun mode ↦ !mode.isUndefined) → w.toInt32) ∧
      w.fails .access ≠ none) := by
  apply withPath_disciplined
  by_cases hmode : argv[1]?.any (fun mode ↦ !mode.isUndefined) ∧ ¬ w.toInt32
  · rw [if_pos hmode]
    exact iff_of_true (by decide) fun h ↦ hmode.2 (h.1 hmode.1)
  · have hgiven : argv[1]?.any (fun mode ↦ !mode.isUndefined) → w.toInt32 :=
      fun hmode' ↦ not_not.mp fun hint ↦ hmode ⟨hmode', hint⟩
    rw [if_neg hmode, and_iff_right hgiven]
    exact pathCall_disciplined false .access "access" .value

theorem chmodSync_disciplined : Disciplined (jsFsChmodSync w argv).accesses ↔
    ¬ (¬ w.win32 ∧ 2 ≤ argv.length ∧ PathGiven w argv ∧ w.toInt32 ∧ w.fails .chmod ≠ none) := by
  unfold jsFsChmodSync
  by_cases hwin : w.win32
  · rw [if_pos hwin]
    exact iff_of_true disciplined_nil fun h ↦ h.1 hwin
  rw [if_neg hwin, and_iff_right hwin]
  by_cases hargc : argv.length < 2
  · rw [if_pos hargc]
    exact iff_of_true disciplined_nil fun h ↦ Nat.not_le_of_lt hargc h.1
  rw [if_neg hargc, and_iff_right (Nat.le_of_not_lt hargc)]
  apply withPath_disciplined
  by_cases hmode : w.toInt32
  · rw [if_neg (not_not.mpr hmode), and_iff_right hmode]
    exact pathCall_disciplined false .chmod "chmod" .value
  · rw [if_pos hmode]
    exact iff_of_true (by decide) fun h ↦ hmode h.1

-- A function that wants its path and its data.
theorem twoArguments_disciplined {rest : Execution} {P : Prop}
    (h : Disciplined (.acquire .path :: rest.accesses) ↔ ¬ P) :
    Disciplined (if argv.length < 2 then typeError "need path and data arguments"
      else withPath w argv rest).accesses ↔ ¬ (2 ≤ argv.length ∧ PathGiven w argv ∧ P) := by
  by_cases hargc : argv.length < 2
  · rw [if_pos hargc]
    exact iff_of_true disciplined_nil fun hgiven ↦ Nat.not_le_of_lt hargc hgiven.1
  · rw [if_neg hargc, and_iff_right (Nat.le_of_not_lt hargc)]
    exact withPath_disciplined h

theorem renameSync_disciplined : Disciplined (jsFsRenameSync w argv).accesses ↔
    ¬ (PathsGiven w argv .oldpath .newpath ∧ w.fails .rename ≠ none) := by
  apply withPaths_disciplined
  cases w.fails .rename with
  | none => exact iff_of_true (by decide) (by simp)
  | some err =>
    refine iff_of_false ?_ (by simp)
    exact not_disciplined_of_throw [.acquire .oldpath, .acquire .newpath,
      .read .oldpath, .read .newpath, .release .oldpath, .release .newpath] (by decide) (by decide)
      err "rename"

end

/-- Each C string of an execution is released once and not read after its release exactly when the
arguments are refused, or no call of the C library fails in the way that the function reports and the
process does not end. -/
theorem disciplined_iff_not_fails (f : SyncFunction) (w : Outcomes) (argv : List Value) :
    Disciplined (f.call w argv).accesses ↔ ¬ f.Fails w argv := by
  cases f with
  | readFileSync => exact readFileSync_disciplined w argv
  | writeFileSync => exact twoArguments_disciplined w argv (writeWholeData_disciplined w _ _ _)
  | appendFileSync => exact twoArguments_disciplined w argv (writeWholeData_disciplined w _ _ _)
  | mkdirSync => exact onePath_disciplined .mkdir "mkdir" .value
  | readdirSync => exact onePath_disciplined .opendir "scandir" .value
  | statSync => exact onePath_disciplined .stat "stat" .value
  | lstatSync => exact onePath_disciplined .stat "stat" .value
  | unlinkSync => exact onePath_disciplined .unlink "unlink" .value
  | renameSync => exact renameSync_disciplined w argv
  | rmdirSync => exact onePath_disciplined .rmdir "rmdir" .value
  | rmSync => exact rmSync_disciplined w argv
  | copyFileSync => exact copyFileSync_disciplined w argv
  | realpathSync => exact onePath_disciplined .realpath "realpath" (built w)
  | accessSync => exact accessSync_disciplined w argv
  | chmodSync => exact chmodSync_disciplined w argv

/-- Every call succeeds but the open of a file that does not exist. -/
def missingFile : Outcomes where
  win32 := false
  toCString _ := true
  toInt32 := true
  size := 0
  malloc := true
  newValue := true
  isDir := false
  blocks := []
  fails call := if call = .fopen then some .noent else none

/-- `readFileSync("é")` of a file that does not exist reads the path for its error after the path is
released. -/
theorem readFileSync_reads_released_path :
    ¬ ∀ (f : SyncFunction) (w : Outcomes) (argv : List Value),
      Disciplined (f.call w argv).accesses := by
  intro h
  have hread := h .readFileSync missingFile [.string [0xe9]]
  revert hread
  decide

end QNode.Fs.CStrings
