import QNode.Fs.TextFiles

/-!
# Runs of whole-file writes

A run of writes and appends to one path leaves what a fold over their data gives.  The promise versions
call the synchronous ones before they return, so a run may mix both.
-/

open FileTree QNode.Engine QNode.Buffer Word

namespace QNode.Fs

/-! ## Promise versions -/

inductive Version
  | sync | promise
  deriving DecidableEq, Repr

/-- What a caller gets: the outcome of the call itself, or a promise settled with it. -/
inductive Answer (α : Type)
  | returned (value : α)
  | fulfilled (value : α)
  | failed (error : FsError ⊕ JsError)
  | rejected (error : FsError ⊕ JsError)
  | aborted

/-- `DEFINE_FS_PROMISE` for the promise version. -/
def Version.answer {α : Type} : Version → FsOutcome α → Answer α
  | sync, .ok value => .returned value
  | promise, .ok value => .fulfilled value
  | sync, .fail error => .failed (.inl error)
  | promise, .fail error => .rejected (.inl error)
  | sync, .throw error => .failed (.inr error)
  | promise, .throw error => .rejected (.inr error)
  | _, .abort => .aborted

/-- The value returned or resolved with. -/
def Answer.value {α : Type} : Answer α → Option α
  | returned value | fulfilled value => some value
  | _ => none

/-! ## Calls -/

/-- A string, or an ArrayBuffer that is not detached. -/
inductive Data
  | string (text : JsString)
  | arrayBuffer (bytes : List UInt8) (bounded : bytes.length ≤ maxByteLength)

/-- Whether `JS_ToCStringLen` has room for the text: a wide string asks for three bytes for each of its
characters, counted in an `int`. -/
def convertible (text : JsString) : Bool :=
  text.all (fun c ↦ c.toNat < 256) || 3 * text.length < 2 ^ 31

/-- The bytes that a call is to write: the content or its UTF-8. -/
def Data.bytes : Data → List UInt8
  | string text => jsToCStringLen text
  | arrayBuffer bytes _ => bytes

def Data.Convertible : Data → Prop
  | string text => convertible text
  | arrayBuffer _ _ => True

/-- The data as the writing part sees it: a failed conversion has length 0, and nobody asks whether it
failed. -/
def Data.passed : Data → WriteData
  | string text => .string (if convertible text then text else [])
  | arrayBuffer bytes bounded => .arrayBuffer ⟨some bytes, bounded⟩

inductive WriteFunction
  | writeFile (append : Bool)
  | appendFile
  deriving DecidableEq, Repr

/-- A call of `writeFileSync` with flag `w` or `a` or of `appendFileSync`, or of a promise version, with
what the C library makes of it. -/
structure WriteCall where
  version : Version
  function : WriteFunction
  options : Options
  data : Data
  stdio : Stdio
  flag : ∀ append, function = .writeFile append → options.flag = if append then "a" else "w"

namespace WriteCall

variable (call : WriteCall) (fs : FileSystem) (cwd : Loc Name) (path : List UInt8)

def run : FsOutcome Unit × FileSystem :=
  match call.function with
  | .writeFile _ => jsFsWriteFileSync call.stdio fs cwd path call.data.passed call.options
  | .appendFile => jsFsAppendFileSync call.stdio fs cwd path call.data.passed call.options

def answer : Answer Unit := call.version.answer (call.run fs cwd path).1

def mode : FopenMode :=
  match call.function with
  | .writeFile false => .wb
  | .writeFile true | .appendFile => .ab

/-- No system call of the call fails: the file is opened, and the stream takes all bytes and writes
them. -/
def Succeeds : Prop :=
  (∃ opened, fopen call.stdio fs cwd path call.mode = .ok opened) ∧
    ∀ n, (call.stdio.stream n).count = n ∧
      (call.stdio.stream n).stored + (call.stdio.stream n).flushed = n

/-- The content after the call, in terms of the content before it. -/
def fold (content : List UInt8) : List UInt8 :=
  if call.function = .writeFile false then call.data.bytes else content ++ call.data.bytes

end WriteCall

section

variable (cwd : Loc Name) (path : List UInt8)

def runWrites : FileSystem → List WriteCall → FileSystem
  | fs, [] => fs
  | fs, call :: calls => runWrites (call.run fs cwd path).2 calls

def AllSucceed : FileSystem → List WriteCall → Prop
  | _, [] => True
  | fs, call :: calls => call.Succeeds fs cwd path ∧ AllSucceed (call.run fs cwd path).2 calls

/-- Every call returns, or its promise is fulfilled. -/
def AllAnswered : FileSystem → List WriteCall → Prop
  | _, [] => True
  | fs, call :: calls =>
    (call.answer fs cwd path).value = some () ∧ AllAnswered (call.run fs cwd path).2 calls

def foldWrites (content : List UInt8) (calls : List WriteCall) : List UInt8 :=
  calls.foldl (fun content call ↦ call.fold content) content

/-- `readFileSync(path)`, or the promise version. -/
def readAnswer (version : Version) (fs : FileSystem) : Answer FileData :=
  version.answer (jsFsReadFileSync (fopenRead fs cwd path) path .missing)

end

/-! ## One call -/

section

variable {call : WriteCall} {fs : FileSystem} {cwd : Loc Name} {path : List UInt8}

theorem Version.answer_value {α : Type} (version : Version) (out : FsOutcome α) (value : α) :
    (version.answer out).value = some value ↔ out = .ok value := by
  cases version <;> cases out <;> simp [Version.answer, Answer.value]

theorem WriteCall.run_eq (call : WriteCall) (fs : FileSystem) (cwd : Loc Name)
    (path : List UInt8) :
    call.run fs cwd path = writeWholeData call.stdio fs cwd path call.data.passed call.mode := by
  obtain ⟨version, function, options, data, stdio, flag⟩ := call
  cases function with
  | appendFile => rfl
  | writeFile append =>
    have hflag := flag append rfl
    show jsFsWriteFileSync stdio fs cwd path data.passed options = _
    rw [jsFsWriteFileSync, hflag]
    cases append <;> rfl

theorem Data.passed_bytes {data : Data} (h : data.Convertible) :
    data.passed.bytes = some data.bytes := by
  cases data with
  | string text =>
    have htext : convertible text := h
    show some (jsToCStringLen (if convertible text then text else [])) = some (jsToCStringLen text)
    rw [if_pos htext]
  | arrayBuffer bytes bounded => rfl

-- What one call leaves.
theorem WriteCall.run_succeeds (hsucceeds : call.Succeeds fs cwd path)
    (hdata : call.data.Convertible) :
    (call.run fs cwd path).1 = .ok () ∧
      fileAt (call.run fs cwd path).2 cwd path =
        some (call.fold ((fileAt fs cwd path).getD [])) := by
  obtain ⟨⟨⟨ℓ, fs'⟩, hopen⟩, hstream⟩ := hsucceeds
  have hmode : call.mode ≠ .rb := by
    unfold WriteCall.mode
    split <;> decide
  obtain ⟨hlocate, hfile⟩ := fopen_spec hopen hmode
  obtain ⟨hcontent, hreport⟩ := writeAndClose_spec call.stdio
    (hasFlag call.mode.flags oAppend) call.data.bytes hlocate hfile
  have hok := hreport.mpr (hstream call.data.bytes.length).1
  rw [(hstream call.data.bytes.length).2, List.take_length] at hcontent
  have hrun : call.run fs cwd path = (.ok (), (writeAndClose call.stdio fs' ℓ
      (hasFlag call.mode.flags oAppend) call.data.bytes).2) := by
    rw [WriteCall.run_eq, writeWholeData, Data.passed_bytes hdata]
    dsimp only
    rw [hopen]
    dsimp only
    generalize writeAndClose call.stdio fs' ℓ (hasFlag call.mode.flags oAppend) call.data.bytes =
      closed at hok
    obtain ⟨result, fs''⟩ := closed
    dsimp only at hok
    rw [hok]
  rw [hrun]
  refine ⟨rfl, hcontent.trans (congrArg some ?_)⟩
  unfold WriteCall.fold WriteCall.mode
  cases call.function with
  | appendFile => rfl
  | writeFile append =>
    cases append with
    | true => rfl
    | false =>
      show call.data.bytes ++ List.drop _ [] = call.data.bytes
      rw [List.drop_nil, List.append_nil]

end

/-! ## A whole run -/

section

variable {fs : FileSystem} {cwd : Loc Name} {path : List UInt8} {calls : List WriteCall}

theorem runWrites_spec (hsucceed : AllSucceed cwd path fs calls)
    (hdata : ∀ call ∈ calls, call.data.Convertible) :
    AllAnswered cwd path fs calls ∧
      (calls ≠ [] ∨ (fileAt fs cwd path).isSome →
        fileAt (runWrites cwd path fs calls) cwd path =
          some (foldWrites ((fileAt fs cwd path).getD []) calls)) := by
  induction calls generalizing fs with
  | nil =>
    refine ⟨trivial, fun hfile ↦ ?_⟩
    obtain ⟨content, hcontent⟩ := Option.isSome_iff_exists.mp (hfile.resolve_left (absurd rfl))
    show fileAt fs cwd path = some ((fileAt fs cwd path).getD [])
    rw [hcontent, Option.getD_some]
  | cons call calls ih =>
    obtain ⟨hcall, hrest⟩ := hsucceed
    obtain ⟨hok, hcontent⟩ := WriteCall.run_succeeds hcall (hdata call List.mem_cons_self)
    obtain ⟨hanswered, hfold⟩ := ih hrest fun c hc ↦ hdata c (List.mem_cons_of_mem call hc)
    refine ⟨⟨(Version.answer_value _ _ _).mpr hok, hanswered⟩, fun _ ↦ ?_⟩
    have hafter := hfold (.inr (by rw [hcontent]; rfl))
    rw [hcontent, Option.getD_some] at hafter
    exact hafter

theorem readAnswer_file {content : List UInt8} (hfile : fileAt fs cwd path = some content)
    (version : Version) :
    (readAnswer cwd path version fs).value =
      if h : content.length ≤ maxByteLength then some (.arrayBuffer ⟨some content, h⟩) else none := by
  have hread := readFileSync_file hfile .missing
  have hdata : fileData Options.missing.encoding content =
      .ofOutcome .arrayBuffer (jsNewArrayBufferCopy content) := rfl
  unfold readAnswer
  by_cases h : content.length ≤ maxByteLength
  · rw [dif_pos h, Version.answer_value, hread, jsMalloc_small (by unfold maxByteLength at h; omega),
      hdata, jsNewArrayBufferCopy, dif_pos h]
    rfl
  · rw [dif_neg h, Option.eq_none_iff_forall_ne_some]
    intro value hvalue
    have hok := jsMalloc_eq_ok (hread.symm.trans ((Version.answer_value _ _ _).mp hvalue))
    obtain ⟨abuf, habuf, -⟩ := ofOutcome_eq_ok.mp (hdata.symm.trans hok)
    exact h (jsNewArrayBufferCopy_eq_ok.mp habuf).1

/-- After a run of writes and appends in which no system call fails, with data that the engine can
convert, every call has returned or its promise is fulfilled, and the file is read back as the fold of
the data, whichever versions are used, if the fold fits an ArrayBuffer; else it is not read. -/
theorem writes_read_back_fold (hsucceed : AllSucceed cwd path fs calls)
    (hdata : ∀ call ∈ calls, call.data.Convertible)
    (hfile : calls ≠ [] ∨ (fileAt fs cwd path).isSome) (version : Version) :
    let content := foldWrites ((fileAt fs cwd path).getD []) calls
    AllAnswered cwd path fs calls ∧
      (readAnswer cwd path version (runWrites cwd path fs calls)).value =
        if h : content.length ≤ maxByteLength then some (.arrayBuffer ⟨some content, h⟩)
        else none := by
  obtain ⟨hanswered, hcontent⟩ := runWrites_spec hsucceed hdata
  exact ⟨hanswered, readAnswer_file (hcontent hfile) version⟩

-- A library that works opens a file that exists.
theorem WriteCall.succeeds_working {call : WriteCall} (hstdio : call.stdio = .working)
    (hfile : (fileAt fs cwd path).isSome) : call.Succeeds fs cwd path := by
  obtain ⟨content, hcontent⟩ := Option.isSome_iff_exists.mp hfile
  obtain ⟨ℓ, -, hopen⟩ := openFile_file hcontent call.mode.not_exclusive
  unfold WriteCall.Succeeds
  rw [hstdio, fopen_working]
  exact ⟨⟨_, hopen⟩, fun n ↦ ⟨rfl, Nat.add_zero n⟩⟩

theorem allSucceed_working
    (hcalls : ∀ call ∈ calls, call.stdio = .working ∧ call.data.Convertible)
    (hfile : (fileAt fs cwd path).isSome) : AllSucceed cwd path fs calls := by
  induction calls generalizing fs with
  | nil => trivial
  | cons call calls ih =>
    obtain ⟨hstdio, hdata⟩ := hcalls call List.mem_cons_self
    have hsucceeds := WriteCall.succeeds_working hstdio hfile
    obtain ⟨-, hcontent⟩ := WriteCall.run_succeeds hsucceeds hdata
    refine ⟨hsucceeds, ih (fun c hc ↦ hcalls c (List.mem_cons_of_mem call hc)) ?_⟩
    rw [hcontent]
    rfl

end

theorem workingCall_flag (function : WriteFunction) (append : Bool)
    (h : function = .writeFile append) :
    (Options.object none (some (if function = .writeFile true then "a" else "w"))).flag =
      if append then "a" else "w" := by
  subst h
  cases append <;> rfl

/-- A call with a library that works, and no option but the flag. -/
def workingCall (version : Version) (function : WriteFunction) (data : Data) : WriteCall where
  version := version
  function := function
  options := .object none (some (if function = .writeFile true then "a" else "w"))
  data := data
  stdio := .working
  flag := workingCall_flag function

theorem nul_bounded : [(0 : UInt8)].length ≤ maxByteLength := by
  decide

/-- A write of the text `é` and a promised append of a NUL byte. -/
def twoCalls : List WriteCall :=
  [workingCall .sync (.writeFile false) (.string [0xe9]),
    workingCall .promise .appendFile (.arrayBuffer [0] nul_bounded)]

theorem twoCalls_spec :
    ∀ call ∈ twoCalls, call.stdio = .working ∧ call.data.Convertible := by
  intro call hcall
  rcases List.mem_cons.mp hcall with rfl | hcall
  · have htext : convertible [0xe9] := by decide
    exact ⟨rfl, htext⟩
  · rw [List.mem_singleton.mp hcall]
    exact ⟨rfl, trivial⟩

theorem writes_read_back_two :
    let content := foldWrites ((fileAt (oneFile [1]) [] [47, 102]).getD []) twoCalls
    AllAnswered [] [47, 102] (oneFile [1]) twoCalls ∧
      (readAnswer [] [47, 102] .promise (runWrites [] [47, 102] (oneFile [1]) twoCalls)).value =
        if h : content.length ≤ maxByteLength then some (.arrayBuffer ⟨some content, h⟩)
        else none :=
  writes_read_back_fold (allSucceed_working twoCalls_spec (by decide))
    (fun call hcall ↦ (twoCalls_spec call hcall).2) (.inl (by decide)) .promise

/-- Two appends of the same bytes. -/
def twoAppends (bytes : List UInt8) (bounded : bytes.length ≤ maxByteLength) : List WriteCall :=
  [workingCall .sync .appendFile (.arrayBuffer bytes bounded),
    workingCall .sync .appendFile (.arrayBuffer bytes bounded)]

theorem twoAppends_spec (bytes : List UInt8) (bounded : bytes.length ≤ maxByteLength) :
    ∀ call ∈ twoAppends bytes bounded, call.stdio = .working ∧ call.data.Convertible := by
  intro call hcall
  rcases List.mem_cons.mp hcall with rfl | hcall
  · exact ⟨rfl, trivial⟩
  · rw [List.mem_singleton.mp hcall]
    exact ⟨rfl, trivial⟩

theorem twoAppends_fold (bytes : List UInt8) (bounded : bytes.length ≤ maxByteLength) :
    foldWrites [] (twoAppends bytes bounded) = bytes ++ bytes :=
  rfl

/-- A file of `2^31` bytes, made by two appends, is not read back. -/
theorem large_file_not_read_back :
    ¬ ∀ (fs : FileSystem) (cwd : Loc Name) (path : List UInt8) (calls : List WriteCall)
        (version : Version), AllSucceed cwd path fs calls →
        calls ≠ [] ∨ (fileAt fs cwd path).isSome →
        ∃ abuf : ArrayBuffer,
          (readAnswer cwd path version (runWrites cwd path fs calls)).value =
            some (.arrayBuffer abuf) ∧
          abuf.bytes = some (foldWrites ((fileAt fs cwd path).getD []) calls) := by
  intro hclaim
  obtain ⟨bytes, hlen⟩ : ∃ bytes : List UInt8, bytes.length = 2 ^ 30 :=
    ⟨List.replicate (2 ^ 30) 0, List.length_replicate⟩
  have bounded : bytes.length ≤ maxByteLength := by
    rw [hlen]
    decide
  have hfile : fileAt (oneFile []) [] [47, 102] = some [] := by decide
  have hsucceed : AllSucceed [] [47, 102] (oneFile []) (twoAppends bytes bounded) :=
    allSucceed_working (twoAppends_spec bytes bounded) (Option.isSome_of_eq_some hfile)
  obtain ⟨abuf, -, hbytes⟩ := hclaim (oneFile []) [] [47, 102] (twoAppends bytes bounded) .sync
    hsucceed (.inl (List.cons_ne_nil _ _))
  have hbound := abuf.bounded
  rw [hbytes, hfile, Option.getD_some, Option.getD_some, twoAppends_fold, List.length_append, hlen,
    maxByteLength] at hbound
  omega

end QNode.Fs
