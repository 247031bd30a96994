import QNode.Buffer.Heap
import QNode.Fs.Open
import QNode.Library.Words

/-!
# Whole files

`readFileSync`, `writeFileSync` and `appendFileSync` go through streams of the C library.  What a stream
makes of a call is given from outside, failures included: a write may be buffered, and what is buffered
may be lost when the stream is closed.
-/

open FileTree QNode.Engine QNode.Buffer Word

namespace QNode.Fs

/-- How a function of the module ends: with a value, with an error object of `js_fs_throw_error`, with
an exception of the engine, or in the allocator's assertion. -/
inductive FsOutcome (α : Type)
  | ok (value : α)
  | fail (error : FsError)
  | throw (error : JsError)
  | abort
  deriving DecidableEq, Repr

/-- The results of native functions that `readFileSync` passes on. -/
def FsOutcome.ofOutcome {α β : Type} (f : α → β) : Outcome α → FsOutcome β
  | .ok value => .ok (f value)
  | .throw error => .throw error
  | .abort => .abort

/-- The options argument: a string, or an object with the properties that are strings. -/
inductive Options
  | missing
  | name (encoding : String)
  | object (encoding flag : Option String)

namespace Options

def encoding : Options → Option String
  | missing => none
  | name encoding => some encoding
  | object encoding _ => encoding

def flag : Options → String
  | missing | name _ => "w"
  | object _ flag => flag.getD "w"

end Options

/-! ## Reading -/

/-- A stream open for reading: the size `ftell` reports at its end, what `fread` delivers, and `errno`
after it. -/
structure ReadStream where
  size : Int
  fread : Nat → List UInt8
  errno : Errno

/-- The stream of a regular file. -/
def ReadStream.regular (content : List UInt8) : ReadStream where
  size := content.length
  fread n := content.take n
  errno := .io

/-- The stream of a directory, which opens but cannot be read. -/
def ReadStream.directory : ReadStream where
  size := 2 ^ 63 - 1
  fread _ := []
  errno := .isdir

/-- `fopen(path, "rb")` -/
def fopenRead (fs : FileSystem) (cwd : Loc Name) (path : List UInt8) : Except Errno ReadStream :=
  match openFile fs cwd path FopenMode.rb.flags with
  | .error err => .error err
  | .ok (ℓ, fs) =>
    match fs.lookup ℓ with
    | some (.file content) => .ok (.regular content)
    | _ => .ok .directory

/-- `js_malloc`, which asserts that its size is not zero and has no block of half the memory. -/
def jsMalloc {α : Type} (size : Nat) (rest : FsOutcome α) : FsOutcome α :=
  if size = 0 then .abort
  else if size ≥ 2 ^ 63 then .throw (.internalError "out of memory")
  else rest

def isTextEncoding (encoding : String) : Bool :=
  encoding = "utf8" ∨ encoding = "utf-8" ∨ encoding = "ascii" ∨ encoding = "latin1" ∨
    encoding = "binary"

inductive FileData
  | string (text : JsString)
  | arrayBuffer (abuf : ArrayBuffer)

def jsNewArrayBufferCopy (buf : List UInt8) : Outcome ArrayBuffer :=
  if h : buf.length ≤ maxByteLength then .ok ⟨some buf, h⟩
  else .throw (.rangeError "invalid array buffer length")

/-- The result made of the bytes read. -/
def fileData (encoding : Option String) (buf : List UInt8) : FsOutcome FileData :=
  if (encoding.map isTextEncoding).getD false then .ofOutcome .string (jsNewStringLen buf)
  else .ofOutcome .arrayBuffer (jsNewArrayBufferCopy buf)

def jsFsReadFileSync (fopen : Except Errno ReadStream) (path : List UInt8) (options : Options) :
    FsOutcome FileData :=
  match fopen with
  | .error err => .fail (jsFsThrowError err path "open")
  | .ok f =>
    jsMalloc (sizeT (f.size + 1))
      (if f.size > 0 then
        let buf := f.fread f.size.toNat
        if (buf.length : Int) ≠ f.size then .fail (jsFsThrowError f.errno path "read")
        else fileData options.encoding buf
      else fileData options.encoding [])

section

variable {fs : FileSystem} {cwd : Loc Name} {path content : List UInt8}

theorem openFile_file {flags : Nat} (hfile : fileAt fs cwd path = some content)
    (hexcl : hasFlag flags oExcl = false) :
    ∃ ℓ, fs.lookup ℓ = some (.file content) ∧ openFile fs cwd path flags =
      .ok (ℓ, if hasFlag flags oTrunc then fs.setFile ℓ [] else fs) := by
  obtain ⟨ℓ, hlocate, hnode⟩ := fileAt_eq_some_iff.mp hfile
  have htarget : openTarget fs cwd flags path = .ok ℓ := by
    by_cases hcreat : hasFlag flags oCreat
    · obtain ⟨hempty, hlong, hresolves⟩ := locate_eq_ok_iff.mp hlocate
      exact (openTarget_creat hcreat).mpr ⟨hempty, hlong, by rw [hexcl]; exact hresolves.place_eq⟩
    · rw [openTarget, if_neg hcreat]
      exact hlocate
  refine ⟨ℓ, hnode, ?_⟩
  rw [openFile, htarget]
  dsimp only
  rw [hnode]
  dsimp only
  rw [if_neg (by simp [hexcl])]

theorem fopenRead_file (hfile : fileAt fs cwd path = some content) :
    fopenRead fs cwd path = .ok (.regular content) := by
  obtain ⟨ℓ, hnode, hopen⟩ := openFile_file hfile FopenMode.rb.not_exclusive
  rw [fopenRead, hopen, if_neg (by simp)]
  dsimp only
  rw [hnode]

-- A regular file is read whole.
theorem readFileSync_file (hfile : fileAt fs cwd path = some content) (options : Options) :
    jsFsReadFileSync (fopenRead fs cwd path) path options =
      jsMalloc (sizeT ((content.length : Int) + 1)) (fileData options.encoding content) := by
  have hread : (if (content.length : Int) > 0 then
        let buf := content.take (content.length : Int).toNat
        if (buf.length : Int) ≠ content.length then .fail (jsFsThrowError .io path "read")
        else fileData options.encoding buf
      else fileData options.encoding []) = fileData options.encoding content := by
    by_cases hempty : content.length = 0
    · rw [List.length_eq_zero_iff.mp hempty]
      rfl
    · rw [if_pos (by omega), Int.toNat_natCast, List.take_length]
      exact if_neg (not_not.mpr rfl)
  rw [fopenRead_file hfile, ← hread]
  rfl

theorem jsMalloc_small {α : Type} {size : Nat} (hsize : size < 2 ^ 62) (rest : FsOutcome α) :
    jsMalloc (sizeT ((size : Int) + 1)) rest = rest := by
  have halloc : sizeT ((size : Int) + 1) = size + 1 := by
    rw [sizeT_of_nonneg (by omega) (by omega)]
    omega
  rw [halloc, jsMalloc, if_neg (by omega), if_neg (by omega)]

theorem jsMalloc_eq_ok {α : Type} {size : Nat} {rest : FsOutcome α} {value : α}
    (h : jsMalloc size rest = .ok value) : rest = .ok value := by
  unfold jsMalloc at h
  split at h
  next => cases h
  next =>
    split at h
    next => cases h
    next => exact h

end

/-! ## Writing -/

inductive WriteData
  | string (text : JsString)
  | arrayBuffer (abuf : ArrayBuffer)
  | other

/-- A detached ArrayBuffer has no bytes to write. -/
def WriteData.bytes : WriteData → Option (List UInt8)
  | string text => some (jsToCStringLen text)
  | arrayBuffer abuf => abuf.bytes
  | other => none

/-- What becomes of `n` bytes given to `fwrite`: the number it returns, the bytes that are in the file by
then, those that the flush of `fclose` adds, and `errno` after a failure. -/
structure WriteStream (n : Nat) where
  count : Nat
  stored : Nat
  flushed : Nat
  errno : Errno
  count_le : count ≤ n
  stored_le : stored + flushed ≤ n

/-- The C library: an error of `fopen` that the tree does not explain, and the fate of each stream. -/
structure Stdio where
  denied : Option Errno
  stream : (n : Nat) → WriteStream n

def fopen (stdio : Stdio) (fs : FileSystem) (cwd : Loc Name) (path : List UInt8) (mode : FopenMode) :
    Except Errno (Loc Name × FileSystem) :=
  match stdio.denied with
  | some err => .error err
  | none => openFile fs cwd path mode.flags

/-- A file after a write of `bytes`, at its end or at its beginning. -/
def writtenTo (append : Bool) (old bytes : List UInt8) : List UInt8 :=
  if append then old ++ bytes else bytes ++ old.drop bytes.length

/-- `fwrite` and `fclose` on a stream. -/
def writeAndClose (stdio : Stdio) (fs : FileSystem) (ℓ : Loc Name) (append : Bool)
    (data : List UInt8) : Except Errno Unit × FileSystem :=
  let stream := stdio.stream data.length
  match fs.lookup ℓ with
  | some (.file old) =>
    let fs := fs.setFile ℓ (writtenTo append old (data.take (stream.stored + stream.flushed)))
    -- the result of `fclose` is not looked at
    if data.length > 0 ∧ stream.count ≠ data.length then (.error stream.errno, fs) else (.ok (), fs)
  | _ => (.ok (), fs)

def writeFmode (flag : String) : FopenMode :=
  if flag = "a" ∨ flag = "ax" then .ab
  else if flag = "a+" then .abPlus
  else if flag = "r+" then .rbPlus
  else .wb

/-- The common part of `js_fs_writeFileSync` and `js_fs_appendFileSync`. -/
def writeWholeData (stdio : Stdio) (fs : FileSystem) (cwd : Loc Name) (path : List UInt8)
    (data : WriteData) (mode : FopenMode) : FsOutcome Unit × FileSystem :=
  match data.bytes with
  | none => (.throw (.typeError "data must be a string or ArrayBuffer"), fs)
  | some bytes =>
    match fopen stdio fs cwd path mode with
    | .error err => (.fail (jsFsThrowError err path "open"), fs)
    | .ok (ℓ, fs) =>
      match writeAndClose stdio fs ℓ (hasFlag mode.flags oAppend) bytes with
      | (.error err, fs) => (.fail (jsFsThrowError err path "write"), fs)
      | (.ok (), fs) => (.ok (), fs)

def jsFsWriteFileSync (stdio : Stdio) (fs : FileSystem) (cwd : Loc Name) (path : List UInt8)
    (data : WriteData) (options : Options) : FsOutcome Unit × FileSystem :=
  writeWholeData stdio fs cwd path data (writeFmode options.flag)

def jsFsAppendFileSync (stdio : Stdio) (fs : FileSystem) (cwd : Loc Name) (path : List UInt8)
    (data : WriteData) (_ : Options) : FsOutcome Unit × FileSystem :=
  writeWholeData stdio fs cwd path data .ab

theorem isName_f : IsName [102] := by
  decide

/-- The tree with one file, `/f`. -/
def oneFile (content : List UInt8) : FileSystem := Tree.empty.add ⟨[102], isName_f⟩ [] (.file content)

/-! ## What a write leaves -/

section

variable {stdio : Stdio} {fs : FileSystem} {cwd : Loc Name} {path bytes : List UInt8}

-- A stream that is open leads to the file that the path leads to.
theorem fopen_spec {mode : FopenMode} {ℓ : Loc Name} {fs' : FileSystem}
    (h : fopen stdio fs cwd path mode = .ok (ℓ, fs')) (hmode : mode ≠ .rb) :
    locate fs' cwd true path (parsePath path).full = .ok ℓ ∧
      fs'.lookup ℓ =
        some (.file (if hasFlag mode.flags oTrunc then [] else (fileAt fs cwd path).getD [])) := by
  unfold fopen at h
  split at h
  next => cases h
  next => exact openFile_spec h (.inr (mode.writes.mpr hmode))

-- What the file holds after `fwrite` and `fclose`, and when they report a failure.
theorem writeAndClose_spec (stdio : Stdio) {ℓ : Loc Name} {old : List UInt8} (append : Bool)
    (bytes : List UInt8)
    (hlocate : locate fs cwd true path (parsePath path).full = .ok ℓ)
    (hfile : fs.lookup ℓ = some (.file old)) :
    fileAt (writeAndClose stdio fs ℓ append bytes).2 cwd path =
        some (writtenTo append old (bytes.take ((stdio.stream bytes.length).stored +
          (stdio.stream bytes.length).flushed))) ∧
      ((writeAndClose stdio fs ℓ append bytes).1 = .ok () ↔
        (stdio.stream bytes.length).count = bytes.length) := by
  have hcount := (stdio.stream bytes.length).count_le
  have hreport : (bytes.length > 0 ∧ (stdio.stream bytes.length).count ≠ bytes.length) ↔
      (stdio.stream bytes.length).count ≠ bytes.length := by omega
  have hafter := fileAt_of_locate
    (locate_sameShape (Tree.setFile_sameShape fs ℓ (writtenTo append old (bytes.take
      ((stdio.stream bytes.length).stored + (stdio.stream bytes.length).flushed)))).symm hlocate)
    (Tree.lookup_setFile_self hfile)
  unfold writeAndClose
  rw [hfile]
  dsimp only
  by_cases hshort : bytes.length > 0 ∧ (stdio.stream bytes.length).count ≠ bytes.length
  · rw [if_pos hshort]
    exact ⟨hafter, iff_of_false (fun h ↦ nomatch h) (hreport.mp hshort)⟩
  · rw [if_neg hshort]
    exact ⟨hafter, iff_of_true rfl (not_not.mp (mt hreport.mpr hshort))⟩

/-! ## A library that works -/

/-- A C library whose calls all succeed. -/
def Stdio.working : Stdio where
  denied := none
  stream n := ⟨n, n, 0, .io, Nat.le_refl n, Nat.le_refl n⟩

theorem fopen_working (mode : FopenMode) :
    fopen .working fs cwd path mode = openFile fs cwd path mode.flags :=
  rfl

-- The only failure is that of the open.
theorem writeWholeData_working (cwd : Loc Name) {data : WriteData} (hdata : data.bytes = some bytes) {mode : FopenMode}
    (hmode : mode ≠ .rb) :
    (∃ err, openFile fs cwd path mode.flags = .error err ∧
        writeWholeData .working fs cwd path data mode = (.fail (jsFsThrowError err path "open"), fs)) ∨
      ∃ ℓ fs' fs'', openFile fs cwd path mode.flags = .ok (ℓ, fs') ∧
        writeWholeData .working fs cwd path data mode = (.ok (), fs'') ∧
        ∀ old, fs'.lookup ℓ = some (.file old) →
          fileAt fs'' cwd path = some (writtenTo (hasFlag mode.flags oAppend) old bytes) := by
  rw [writeWholeData, hdata]
  dsimp only
  rw [fopen_working]
  cases hopen : openFile fs cwd path mode.flags with
  | error err => exact .inl ⟨err, rfl, rfl⟩
  | ok opened =>
    obtain ⟨ℓ, fs'⟩ := opened
    obtain ⟨hlocate, hfile⟩ := openFile_spec hopen (.inr (mode.writes.mpr hmode))
    obtain ⟨hcontent, hreport⟩ := writeAndClose_spec .working
      (hasFlag mode.flags oAppend) bytes hlocate hfile
    have hok := hreport.mpr rfl
    dsimp only
    generalize writeAndClose .working fs' ℓ (hasFlag mode.flags oAppend) bytes = closed
      at hcontent hok ⊢
    obtain ⟨result, fs''⟩ := closed
    dsimp only at hok hcontent
    rw [hok]
    refine .inr ⟨ℓ, fs', fs'', rfl, rfl, fun old hold ↦ ?_⟩
    obtain rfl := Node.file.inj (Option.some.inj (hfile.symm.trans hold))
    rw [hcontent]
    show some (writtenTo _ _ (bytes.take (bytes.length + 0))) = _
    rw [Nat.add_zero, List.take_length]

end

end QNode.Fs
