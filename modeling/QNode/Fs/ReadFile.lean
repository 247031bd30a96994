import QNode.Fs.TextFiles

/-!
# What readFileSync passes on

The size of a file is what `ftell` reports behind a seek to its end, and is used as a size to allocate,
a count to read and the length of the result.  `js_load_file`, by which the engine loads its modules,
goes the same way with a check at each step.
-/

open FileTree QNode.Engine QNode.Buffer Word

namespace QNode.Fs

/-- A file as the C library deals with it: what a read to its end yields; whether the two seeks succeed;
the size that `ftell` reports, which is -1 for a failure; where the stream stands if it cannot be set
back; and how many bytes `fread` delivers at most before an error. -/
structure OpenedFileCalls where
  content : List UInt8
  seekEnd : Bool
  size : Int
  seekSet : Bool
  pos : Nat
  cap : Nat
  errno : Errno
  size_ge : -1 ≤ size
  size_lt : size < 2 ^ 63

/-- The largest `long`, which `ftell` reports for a directory. -/
def longMax : Int := 2 ^ 63 - 1

namespace OpenedFileCalls

def fread (f : OpenedFileCalls) (n : Nat) : List UInt8 :=
  (f.content.drop (if f.seekSet then 0 else f.pos)).take (min n f.cap)

def toReadStream (f : OpenedFileCalls) : ReadStream where
  size := f.size
  fread := f.fread
  errno := f.errno

end OpenedFileCalls

/-- What is passed on as a length, and the bytes that the result is made of. -/
structure PassedOn where
  lengths : List Int
  bytes : Option (List UInt8)

def PassedOn.nothing : PassedOn := ⟨[], none⟩

section

variable (fopen : Except Errno OpenedFileCalls) (path : List UInt8) (options : Options)

/-- `js_fs_readFileSync` with all that it passes on. -/
def readFileSyncCalls : FsOutcome FileData × PassedOn :=
  match fopen with
  | .error err => (.fail (jsFsThrowError err path "open"), .nothing)
  | .ok f =>
    let allocated := sizeT (f.size + 1)
    if allocated = 0 then (.abort, .nothing)
    else if allocated ≥ 2 ^ 63 then (.throw (.internalError "out of memory"), .nothing)
    else if f.size > 0 then
      let buf := f.fread f.size.toNat
      if (buf.length : Int) ≠ f.size then (.fail (jsFsThrowError f.errno path "read"), ⟨[f.size], none⟩)
      else (fileData options.encoding buf, ⟨[f.size, f.size], some buf⟩)
    else (fileData options.encoding [], ⟨[f.size], some []⟩)

/-- `js_load_file` with a context: the bytes it loads, or none if it fails. -/
def jsLoadFile : Option (List UInt8) :=
  match fopen with
  | .error _ => none
  | .ok f =>
    if f.seekEnd = false then none
    else if f.size < 0 then none
    else if f.size = longMax then none
    else if f.seekSet = false then none
    else if sizeT (f.size + 1) ≥ 2 ^ 63 then none
    else
      let buf := f.fread f.size.toNat
      if buf.length ≠ f.size.toNat then none else some buf

end

def FsOutcome.Throws {α : Type} (out : FsOutcome α) : Prop :=
  (∃ error, out = .fail error) ∨ ∃ error, out = .throw error

/-- The engine makes no value of the bytes: a buffer is too long, or a text starts with too many ASCII
characters. -/
def TooLong (encoding : Option String) (buf : List UInt8) : Prop :=
  if (encoding.map isTextEncoding).getD false then jsStringLenMax < countAscii buf
  else maxByteLength < buf.length

section

variable (fopen : Except Errno OpenedFileCalls) (path : List UInt8) (options : Options)

/-- What is expected of `readFileSync(path, options)`. -/
structure ReadKept : Prop where
  /-- It throws, or its result is made of the bytes of the file. -/
  exact : (readFileSyncCalls fopen path options).1.Throws ∨
    ∃ f value, fopen = .ok f ∧ (readFileSyncCalls fopen path options).1 = .ok value ∧
      fileData options.encoding f.content = .ok value ∧
      (readFileSyncCalls fopen path options).2.bytes = some f.content
  /-- No length that is passed on is negative. -/
  lengths : ∀ n ∈ (readFileSyncCalls fopen path options).2.lengths, 0 ≤ n
  /-- It throws where the loader fails. -/
  loader : jsLoadFile fopen = none → (readFileSyncCalls fopen path options).1.Throws

/-- The file opens with a size; and it is a directory, or is read short, or its bytes are too many, or
both seeks succeed and the size is that of the whole content. -/
def ReadRight : Prop :=
  ∀ f, fopen = .ok f → 0 ≤ f.size ∧ (f.size = longMax ∨ (f.fread f.size.toNat).length ≠ f.size.toNat ∨
    TooLong options.encoding (f.fread f.size.toNat) ∨
    f.seekEnd ∧ f.seekSet ∧ f.fread f.size.toNat = f.content)

end

section

variable {fopen : Except Errno OpenedFileCalls} {path buf : List UInt8} {options : Options}
  {encoding : Option String}

-- The calls are those of `readFileSync`.
theorem readFileSyncCalls_fst : (readFileSyncCalls fopen path options).1 =
    jsFsReadFileSync (fopen.map OpenedFileCalls.toReadStream) path options := by
  cases fopen with
  | error err => rfl
  | ok f =>
    unfold readFileSyncCalls
    simp only [apply_ite Prod.fst]
    rfl

theorem fileData_cases (encoding : Option String) (buf : List UInt8) :
    TooLong encoding buf ∧ (fileData encoding buf).Throws ∨
      ¬ TooLong encoding buf ∧ ∃ value, fileData encoding buf = .ok value := by
  unfold TooLong fileData
  split
  · unfold jsNewStringLen
    split
    next hlong => exact .inl ⟨hlong, .inr ⟨_, rfl⟩⟩
    next hshort => exact .inr ⟨hshort, _, rfl⟩
  · unfold jsNewArrayBufferCopy
    split
    next hshort => exact .inr ⟨Nat.not_lt_of_le hshort, _, rfl⟩
    next hlong => exact .inl ⟨Nat.lt_of_not_le hlong, .inr ⟨_, rfl⟩⟩

theorem not_throws_ok {α : Type} {value : α} : ¬ (FsOutcome.ok value).Throws := by
  rintro (⟨_, h⟩ | ⟨_, h⟩) <;> cases h

section

variable {f : OpenedFileCalls}

theorem fread_zero : f.fread 0 = [] := by
  rw [OpenedFileCalls.fread, Nat.zero_min, List.take_zero]

-- A size that there is memory for: only a short read is noticed.
theorem readFileSyncCalls_sized (h0 : 0 ≤ f.size) (hmax : f.size ≠ longMax) :
    ∃ lengths, (∀ n ∈ lengths, n = f.size) ∧ readFileSyncCalls (.ok f) path options =
      if (f.fread f.size.toNat).length ≠ f.size.toNat then
        (.fail (jsFsThrowError f.errno path "read"), ⟨lengths, none⟩)
      else (fileData options.encoding (f.fread f.size.toNat), ⟨lengths, some (f.fread f.size.toNat)⟩) := by
  have hlt := f.size_lt
  have halloc : sizeT (f.size + 1) = f.size.toNat + 1 := by
    rw [sizeT_of_nonneg (by omega) (by omega)]
    omega
  have hsmall : ¬ sizeT (f.size + 1) ≥ 2 ^ 63 := by
    unfold longMax at hmax
    omega
  have hlen : ((f.fread f.size.toNat).length : Int) ≠ f.size ↔
      (f.fread f.size.toNat).length ≠ f.size.toNat := by omega
  unfold readFileSyncCalls
  dsimp only
  rw [if_neg (by omega), if_neg hsmall]
  by_cases hpos : f.size > 0
  · rw [if_pos hpos, if_congr hlen rfl rfl]
    split
    · exact ⟨[f.size], by simp, rfl⟩
    · exact ⟨[f.size, f.size], by simp, rfl⟩
  · have hzero : f.size.toNat = 0 := by omega
    rw [if_neg hpos, hzero, fread_zero]
    exact ⟨[f.size], by simp, rfl⟩

theorem jsLoadFile_eq_none_iff (h0 : 0 ≤ f.size) (hmax : f.size ≠ longMax) :
    jsLoadFile (.ok f) = none ↔
      f.seekEnd = false ∨ f.seekSet = false ∨ (f.fread f.size.toNat).length ≠ f.size.toNat := by
  have hlt := f.size_lt
  have hsmall : ¬ sizeT (f.size + 1) ≥ 2 ^ 63 := by
    rw [sizeT_of_nonneg (by omega) (by omega)]
    unfold longMax at hmax
    omega
  unfold jsLoadFile
  dsimp only
  rw [if_neg (Int.not_lt.mpr h0), if_neg hmax, if_neg hsmall]
  cases f.seekEnd <;> cases f.seekSet <;> simp

-- Without a size the allocator is asked for nothing.
theorem readFileSyncCalls_failed (h : f.size < 0) :
    (readFileSyncCalls (.ok f) path options).1 = .abort := by
  have hge := f.size_ge
  have hsize : f.size = -1 := by omega
  unfold readFileSyncCalls
  dsimp only
  rw [hsize]
  rfl

theorem readFileSyncCalls_directory (h : f.size = longMax) :
    readFileSyncCalls (.ok f) path options = (.throw (.internalError "out of memory"), .nothing) := by
  unfold readFileSyncCalls
  dsimp only
  rw [h]
  rfl

theorem ReadKept.of_throws (h : (readFileSyncCalls fopen path options).1.Throws)
    (hlengths : ∀ n ∈ (readFileSyncCalls fopen path options).2.lengths, 0 ≤ n) :
    ReadKept fopen path options :=
  ⟨.inl h, hlengths, fun _ ↦ h⟩

theorem not_readKept_of_abort (h : (readFileSyncCalls fopen path options).1 = .abort) :
    ¬ ReadKept fopen path options := by
  intro hkept
  have hexact := hkept.exact
  rw [h] at hexact
  rcases hexact with (⟨_, herr⟩ | ⟨_, herr⟩) | ⟨_, _, -, hok, -⟩
  · cases herr
  · cases herr
  · cases hok

-- A value that is made of the bytes read is expected if the loader would have read the same.
theorem readKept_value_iff {value : FileData} {lengths : List Int} (h0 : 0 ≤ f.size)
    (hmax : f.size ≠ longMax) (hfull : (f.fread f.size.toNat).length = f.size.toNat)
    (hlengths : ∀ n ∈ lengths, n = f.size) (hvalue : fileData options.encoding (f.fread f.size.toNat) = .ok value)
    (hcall : readFileSyncCalls (.ok f) path options = (.ok value, ⟨lengths, some (f.fread f.size.toNat)⟩)) :
    ReadKept (.ok f) path options ↔ f.seekEnd ∧ f.seekSet ∧ f.fread f.size.toNat = f.content := by
  have hreturns : ¬ (readFileSyncCalls (.ok f) path options).1.Throws := by
    rw [hcall]
    exact not_throws_ok
  constructor
  · intro h
    have hloads : jsLoadFile (.ok f) ≠ none := mt h.loader hreturns
    rw [ne_eq, jsLoadFile_eq_none_iff h0 hmax, not_or, not_or] at hloads
    obtain ⟨f', -, hf, -, -, hbytes⟩ := h.exact.resolve_left hreturns
    obtain rfl := Except.ok.inj hf
    rw [hcall] at hbytes
    exact ⟨by simpa using hloads.1, by simpa using hloads.2.1, Option.some.inj hbytes⟩
  · rintro ⟨hend, hset, hcontent⟩
    refine ⟨.inr ⟨f, value, rfl, by rw [hcall], hcontent ▸ hvalue, by rw [hcall, hcontent]⟩, ?_, ?_⟩
    · rw [hcall]
      exact fun n hn ↦ (hlengths n hn).symm ▸ h0
    · intro hnone
      rw [jsLoadFile_eq_none_iff h0 hmax, hend, hset] at hnone
      simp [hfull] at hnone

end

end

/-- The expectation is met precisely if the file does not open, or a size is reported which is that of a
directory, or of more than can be read, or of more than there can be in a value, or of the whole
content after two seeks that succeed. -/
theorem readFileSync_exact_iff (fopen : Except Errno OpenedFileCalls) (path : List UInt8)
    (options : Options) : ReadKept fopen path options ↔ ReadRight fopen options := by
  cases fopen with
  | error err =>
    exact iff_of_true (.of_throws (.inl ⟨_, rfl⟩) fun n hn ↦ absurd hn List.not_mem_nil) fun f h ↦ nomatch h
  | ok f =>
    have hright : ReadRight (.ok f) options ↔ _ :=
      ⟨fun h ↦ h f rfl, fun h f' hf ↦ by obtain rfl := Except.ok.inj hf; exact h⟩
    rw [hright]
    by_cases h0 : 0 ≤ f.size
    swap
    · exact iff_of_false (not_readKept_of_abort (readFileSyncCalls_failed (Int.lt_of_not_ge h0)))
        fun h ↦ h0 h.1
    rw [and_iff_right h0]
    by_cases hmax : f.size = longMax
    · have hcall := @readFileSyncCalls_directory path options f hmax
      refine iff_of_true (.of_throws ?_ ?_) (.inl hmax)
      · rw [hcall]
        exact .inr ⟨_, rfl⟩
      · rw [hcall]
        exact fun n hn ↦ absurd hn List.not_mem_nil
    obtain ⟨lengths, hlengths, hcall⟩ := @readFileSyncCalls_sized path options f h0 hmax
    rw [or_iff_right hmax]
    by_cases hshort : (f.fread f.size.toNat).length ≠ f.size.toNat
    · rw [if_pos hshort] at hcall
      refine iff_of_true (.of_throws ?_ ?_) (.inl hshort)
      · rw [hcall]
        exact .inl ⟨_, rfl⟩
      · rw [hcall]
        exact fun n hn ↦ (hlengths n hn).symm ▸ h0
    rw [if_neg hshort] at hcall
    rw [or_iff_right hshort]
    rcases fileData_cases options.encoding (f.fread f.size.toNat) with
      ⟨hlong, hthrows⟩ | ⟨hfits, value, hvalue⟩
    · refine iff_of_true (.of_throws ?_ ?_) (.inl hlong)
      · rw [hcall]
        exact hthrows
      · rw [hcall]
        exact fun n hn ↦ (hlengths n hn).symm ▸ h0
    · rw [or_iff_right hfits]
      rw [hvalue] at hcall
      exact readKept_value_iff h0 hmax (not_not.mp hshort) hlengths hvalue hcall

/-- A file under `/proc`: it has content, and size 0. -/
def procFile : OpenedFileCalls where
  content := [97]
  seekEnd := true
  size := 0
  seekSet := true
  pos := 0
  cap := 4096
  errno := .io
  size_ge := by decide
  size_lt := by decide

/-- It is read as an empty file. -/
theorem readFileSync_proc : ¬ ReadKept (.ok procFile) [47, 112] .missing := by
  intro h
  rcases h.exact with (⟨_, herr⟩ | ⟨_, herr⟩) | ⟨f, _, hf, -, -, hbytes⟩
  · cases herr
  · cases herr
  · obtain rfl := Except.ok.inj hf
    cases hbytes

end QNode.Fs
