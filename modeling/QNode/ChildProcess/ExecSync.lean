import QNode.ChildProcess.GrowBuf
import QNode.ChildProcess.Launch
import QNode.Engine.Numbers
import QNode.Fs.Files

/-!
# execSync

`execSync` changes into the directory it is given, starts the command with `popen`, collects its output
in a `GrowBuf` and makes the result, and on most of its ways out it changes back.  The outcome of every
call it makes to the host is given from outside.
-/

open QNode.Engine QNode.ChildProcess.Launch Word

namespace QNode.ChildProcess.ExecSync

/-! ## The host -/

/-- Which blocks the allocator grants, by their size: one call of `execSync` asks for no size twice. No
address space has room for `2 ^ 62` bytes. -/
structure Allocator where
  grants : Nat → Bool
  bounded : ∀ size, grants size = true → size ≤ 2 ^ 62

/-- A stream in the chunks in which `fread` delivers it to a buffer of 4096 bytes. -/
structure Reads where
  chunks : List (List UInt8)
  sizes : ∀ chunk ∈ chunks, 0 < chunk.length ∧ chunk.length ≤ 4096

def Reads.bytes (reads : Reads) : List UInt8 := reads.chunks.flatten

/-- A command that `popen` has started. -/
structure Child where
  stdout : Reads
  run : ChildRun

/-- What the calls of one `execSync` meet.  Directories are of a type `δ`; `chdir` is called at most once
on the way in and once on the way out, and `none` is its failure. -/
structure Host (δ : Type) where
  start : δ
  /-- Whether the copy of the command as a C string gets its memory, and the copies of the options. -/
  copiesCommand : Bool
  copies : OptionName → Bool
  getcwd : Option (List UInt8)
  /-- What `old_cwd` holds if `getcwd` fails. -/
  indeterminate : List UInt8
  chdirIn : List UInt8 → Option δ
  chdirOut : δ → List UInt8 → Option δ
  popen : Option Child
  allocator : Allocator

/-! ## The function -/

structure CommandError where
  message : Outcome JsString
  status : Int
  code : Int
  stdout : Outcome Fs.FileData
  stderr : Outcome Fs.FileData
  cmd : Outcome JsString

/-- How the call ends; `overrun` is a copy past the end of the buffer. -/
inductive Ending
  | returned (stdout : Outcome Fs.FileData)
  | commandFailed (error : CommandError)
  | threw (error : JsError)
  | overrun

def outOfMemory : JsError := .internalError "out of memory"

def isBuf (eo : ExecOptions) : Prop :=
  eo.encoding = some (ascii "buffer") ∨ eo.encoding = some (ascii "arraybuffer")

instance (eo : ExecOptions) : Decidable (isBuf eo) := inferInstanceAs (Decidable (_ ∨ _))

/-- The bytes as a value of the type that the encoding asks for. -/
def makeOutput (eo : ExecOptions) (bytes : List UInt8) : Outcome Fs.FileData :=
  if isBuf eo then (Fs.jsNewArrayBufferCopy bytes).map .arrayBuffer
  else (jsNewStringLen bytes).map .string

inductive Collected
  | all (gb : GrowBuf)
  | exceeded
  | noMemory
  | overrun

/-- The loop of `fread`. -/
def collect (allocator : Allocator) (maxBuffer : Int) : GrowBuf → List (List UInt8) → Collected
  | gb, [] => .all gb
  | gb, rbuf :: rest =>
    let n := rbuf.length
    if sizeT (gb.len + n) > sizeT maxBuffer then .exceeded
    else
      match growbufAppend gb rbuf (allocator.grants (sizeT ((gb.len + n) * 2))) with
      | none => .overrun
      | some (rc, gb) => if rc < 0 then .noMemory else collect allocator maxBuffer gb rest

def GrowBuf.bytes (gb : GrowBuf) : List UInt8 := (gb.data.getD []).take gb.len

def commandError (command : JsString) (eo : ExecOptions) (exitCode : Int) (bytes : List UInt8) :
    CommandError where
  -- `snprintf` into a buffer of 256 bytes
  message := jsNewStringLen ((ascii "Command failed: " ++ toCString command ++ ascii " (exit code " ++
    ascii (toString exitCode) ++ ascii ")").take 255)
  status := exitCode
  code := exitCode
  stdout := makeOutput eo bytes
  stderr := makeOutput eo []
  cmd := jsNewStringLen (jsToCStringLen command)

def finish (command : JsString) (eo : ExecOptions) (run : ChildRun) (bytes : List UInt8) : Ending :=
  if execSyncExitCode run ≠ 0 then .commandFailed (commandError command eo (execSyncExitCode run) bytes)
  else .returned (makeOutput eo bytes)

/-- The part after `popen`, and whether it changes back to the old directory. -/
def afterPopen (allocator : Allocator) (command : JsString) (eo : ExecOptions) (child : Child) :
    Ending × Bool :=
  let (rc, gb) := growbufInit 4096 (allocator.grants 4096)
  if rc < 0 then (.threw outOfMemory, false)
  else
    match collect allocator eo.maxBuffer gb child.stdout.chunks with
    | .exceeded => (.threw (.rangeError "execSync: maxBuffer exceeded"), true)
    | .noMemory => (.threw outOfMemory, false)
    | .overrun => (.overrun, false)
    | .all gb => (finish command eo child.run (GrowBuf.bytes gb), true)

/-- How the call ends, the working directory of the parent at that time, and the directory in which the
command ran. -/
structure Result (δ : Type) where
  ending : Ending
  cwd : δ
  ranIn : Option δ

section

variable {δ : Type}

/-- `parse_exec_options`; a string that could not be copied is a NULL pointer. -/
def Host.options (host : Host δ) (o : Options) : ExecOptions :=
  { parseExecOptions o with
    encoding := if host.copies .encoding then (parseExecOptions o).encoding else none
    cwd := if host.copies .cwd then (parseExecOptions o).cwd else none }

/-- The `chdir` into the directory; its result is ignored. -/
def Host.enter (host : Host δ) : Option (List UInt8) → δ
  | some path => (host.chdirIn path).getD host.start
  | none => host.start

/-- Where the `chdir` to the old directory leads; the results of `getcwd` and of this call are ignored. -/
def Host.back (host : Host δ) (d : δ) : δ :=
  (host.chdirOut d (host.getcwd.getD host.indeterminate)).getD d

def Host.leave (host : Host δ) (d : δ) : Option (List UInt8) → δ
  | some _ => host.back d
  | none => d

/-- `js_child_execSync` for a command that is a string. -/
def execSync (host : Host δ) (command : JsString) (o : Options) : Result δ :=
  if !host.copiesCommand then ⟨.threw outOfMemory, host.start, none⟩
  else
    let eo := host.options o
    let entered := host.enter eo.cwd
    let restored := host.leave entered eo.cwd
    match host.popen with
    | none => ⟨.threw (.typeError "execSync: failed to execute command"), restored, none⟩
    | some child =>
      let (ending, restores) := afterPopen host.allocator command eo child
      ⟨ending, if restores then restored else entered, some entered⟩

end

/-! ## The loop -/

/-- A block that the loop asks for is refused; `len` bytes are collected in a block of `cap`. -/
def Refused (allocator : Allocator) (limit : Nat) : Nat → Nat → List (List UInt8) → Prop
  | _, _, [] => False
  | len, cap, rbuf :: rest =>
    len + rbuf.length ≤ limit ∧
      if len + rbuf.length ≤ cap then Refused allocator limit (len + rbuf.length) cap rest
      else allocator.grants ((len + rbuf.length) * 2) = false ∨
        Refused allocator limit (len + rbuf.length) ((len + rbuf.length) * 2) rest

/-- An allocation of the call fails. -/
def RunsOut (allocator : Allocator) (maxBuffer : Int) (child : Child) : Prop :=
  allocator.grants 4096 = false ∨ Refused allocator (sizeT maxBuffer) 0 4096 child.stdout.chunks

-- An allocator that grants twice the length of the stream refuses nothing.
theorem not_refused {allocator : Allocator} {limit len : Nat} (cap : Nat) {chunks : List (List UInt8)}
    (hgrants : ∀ size ≤ (len + chunks.flatten.length) * 2, allocator.grants size = true) :
    ¬ Refused allocator limit len cap chunks := by
  induction chunks generalizing len cap with
  | nil => exact id
  | cons rbuf rest ih =>
    rw [List.flatten_cons, List.length_append, ← Nat.add_assoc] at hgrants
    rw [Refused]
    split
    · exact fun h ↦ ih cap hgrants h.2
    · rintro ⟨-, hrefused | hrest⟩
      · rw [hgrants _ (by omega)] at hrefused
        cases hrefused
      · exact ih _ hgrants hrest

theorem copyTail_cap {gb gb' : GrowBuf} {src : List UInt8} (h : gb.copyTail src = some gb') :
    gb'.cap = gb.cap := by
  unfold GrowBuf.copyTail at h
  split at h
  · cases h
  · split at h
    · rw [← Option.some.inj h]
    · cases h

theorem growbufAppend_cap {gb gb' : GrowBuf} {src : List UInt8} {ok : Bool}
    (h : growbufAppend gb src ok = some (0, gb')) :
    gb'.cap = if sizeT (gb.len + src.length) > gb.cap then sizeT ((gb.len + src.length) * 2)
      else gb.cap := by
  unfold growbufAppend at h
  dsimp only at h
  split at h
  next hroom =>
    rw [if_pos hroom]
    cases hp : jsRealloc gb.data (sizeT ((gb.len + src.length) * 2)) ok with
    | none => simp [hp] at h
    | some p =>
      simp only [hp, Option.map_eq_some_iff, Prod.mk.injEq, true_and] at h
      obtain ⟨gb'', hcopy, rfl⟩ := h
      exact copyTail_cap hcopy
  next hroom =>
    rw [if_neg hroom]
    simp only [Option.map_eq_some_iff, Prod.mk.injEq, true_and] at h
    obtain ⟨gb'', hcopy, rfl⟩ := h
    exact copyTail_cap hcopy

/-- What the loop keeps: the buffer holds `content`, in a block that an allocator can have granted. -/
structure Holds (gb : GrowBuf) (content : List UInt8) : Prop where
  exact : gb.Exact content
  bounded : gb.cap ≤ 2 ^ 62

section

variable {gb : GrowBuf} {content rbuf : List UInt8} (allocator : Allocator)

theorem Holds.length (h : Holds gb content) : gb.len = content.length :=
  h.exact.length_content.symm

theorem Holds.bytes (h : Holds gb content) : GrowBuf.bytes gb = content := by
  obtain ⟨block, hdata, -, htake⟩ := h.exact.block
  rw [GrowBuf.bytes, hdata]
  exact htake

-- The sums of the loop do not wrap.
theorem Holds.sizeT_sum (h : Holds gb content) (hrbuf : rbuf.length ≤ 4096) :
    sizeT ((gb.len : Int) + (rbuf.length : Int)) = gb.len + rbuf.length ∧
      sizeT (((gb.len : Int) + (rbuf.length : Int)) * 2) = (gb.len + rbuf.length) * 2 := by
  have hlen := h.exact.lenCap
  have hbounded := h.bounded
  constructor
  · exact_mod_cast @sizeT_natCast (gb.len + rbuf.length) (by omega)
  · exact_mod_cast @sizeT_natCast ((gb.len + rbuf.length) * 2) (by omega)

theorem Holds.append_fits (h : Holds gb content) (hrbuf : rbuf.length ≤ 4096) (ok : Bool)
    (hfit : gb.len + rbuf.length ≤ gb.cap) :
    ∃ gb', growbufAppend gb rbuf ok = some (0, gb') ∧ Holds gb' (content ++ rbuf) ∧
      gb'.cap = gb.cap := by
  obtain ⟨gb', happend, hexact⟩ := h.exact.append_fits rbuf ok hfit
  have hcap : gb'.cap = gb.cap := by
    rw [growbufAppend_cap happend, (h.sizeT_sum hrbuf).1, if_neg (by omega)]
  exact ⟨gb', happend, ⟨hexact, by rw [hcap]; exact h.bounded⟩, hcap⟩

theorem Holds.append_grown (h : Holds gb content) (hrbuf : rbuf.length ≤ 4096)
    (hroom : ¬ gb.len + rbuf.length ≤ gb.cap)
    (hgrants : allocator.grants ((gb.len + rbuf.length) * 2) = true) :
    ∃ gb', growbufAppend gb rbuf true = some (0, gb') ∧ Holds gb' (content ++ rbuf) ∧
      gb'.cap = (gb.len + rbuf.length) * 2 := by
  have hbounded := allocator.bounded _ hgrants
  obtain ⟨gb', happend, hexact⟩ := h.exact.append_grown rbuf (by omega) (by omega)
  have hcap : gb'.cap = (gb.len + rbuf.length) * 2 := by
    rw [growbufAppend_cap happend, (h.sizeT_sum hrbuf).1, (h.sizeT_sum hrbuf).2, if_pos (by omega)]
  exact ⟨gb', happend, ⟨hexact, by rw [hcap]; exact hbounded⟩, hcap⟩

theorem Holds.append_refused (h : Holds gb content) (hrbuf : rbuf.length ≤ 4096)
    (hroom : ¬ gb.len + rbuf.length ≤ gb.cap) :
    ∃ gb', growbufAppend gb rbuf false = some (-1, gb') := by
  simp [growbufAppend, jsRealloc, (h.sizeT_sum hrbuf).1, Nat.lt_of_not_le hroom]

/-- The loop stops if a block is refused, or at the limit if the stream goes past it, or it collects the
whole stream. -/
theorem collect_cases (h : Holds gb content) (maxBuffer : Int) {chunks : List (List UInt8)}
    (hsizes : ∀ chunk ∈ chunks, 0 < chunk.length ∧ chunk.length ≤ 4096)
    (hlimit : content.length ≤ sizeT maxBuffer) :
    (Refused allocator (sizeT maxBuffer) gb.len gb.cap chunks ∧
      collect allocator maxBuffer gb chunks = .noMemory) ∨
    ¬ Refused allocator (sizeT maxBuffer) gb.len gb.cap chunks ∧
      ((collect allocator maxBuffer gb chunks = .exceeded ∧
        sizeT maxBuffer < (content ++ chunks.flatten).length) ∨
      ∃ gb', collect allocator maxBuffer gb chunks = .all gb' ∧
        GrowBuf.bytes gb' = content ++ chunks.flatten ∧
        (content ++ chunks.flatten).length ≤ sizeT maxBuffer) := by
  induction chunks generalizing gb content with
  | nil =>
    rw [List.flatten_nil, List.append_nil]
    exact .inr ⟨id, .inr ⟨gb, rfl, h.bytes, hlimit⟩⟩
  | cons rbuf rest ih =>
    obtain ⟨⟨-, hrbuf⟩, hrest⟩ := List.forall_mem_cons.mp hsizes
    have hlength := h.length
    obtain ⟨hsum, hdouble⟩ := h.sizeT_sum hrbuf
    rw [List.flatten_cons, ← List.append_assoc, collect, hsum, hdouble, Refused]
    by_cases hover : gb.len + rbuf.length > sizeT maxBuffer
    · rw [if_pos hover]
      refine .inr ⟨fun hrefused ↦ absurd hrefused.1 (by omega), .inl ⟨rfl, ?_⟩⟩
      simp only [List.length_append]
      omega
    · rw [if_neg hover, and_iff_right (Nat.le_of_not_lt hover)]
      have hnext : ∀ {gb'}, Holds gb' (content ++ rbuf) → gb'.len = gb.len + rbuf.length := by
        intro gb' hgb'
        rw [hgb'.length, List.length_append, hlength]
      have hlimit' : (content ++ rbuf).length ≤ sizeT maxBuffer := by
        rw [List.length_append]
        omega
      by_cases hfit : gb.len + rbuf.length ≤ gb.cap
      · obtain ⟨gb', happend, hgb', hcap⟩ := h.append_fits hrbuf
          (allocator.grants ((gb.len + rbuf.length) * 2)) hfit
        rw [happend, if_pos hfit, ← hcap, ← hnext hgb']
        exact ih hgb' hrest hlimit'
      · rw [if_neg hfit]
        cases hgrants : allocator.grants ((gb.len + rbuf.length) * 2) with
        | true =>
          obtain ⟨gb', happend, hgb', hcap⟩ := h.append_grown allocator hrbuf hfit hgrants
          rw [happend, ← hcap, ← hnext hgb', Bool.true_eq_false, false_or]
          exact ih hgb' hrest hlimit'
        | false =>
          obtain ⟨gb', happend⟩ := h.append_refused hrbuf hfit
          rw [happend]
          exact .inl ⟨.inl rfl, if_pos (by decide)⟩

/-- The three ways in which a call ends that has started its command. -/
theorem afterPopen_cases (command : JsString) (eo : ExecOptions) (child : Child) :
    (RunsOut allocator eo.maxBuffer child ∧
      afterPopen allocator command eo child = (.threw outOfMemory, false)) ∨
    ¬ RunsOut allocator eo.maxBuffer child ∧
      ((afterPopen allocator command eo child =
          (.threw (.rangeError "execSync: maxBuffer exceeded"), true) ∧
        sizeT eo.maxBuffer < child.stdout.bytes.length) ∨
      (afterPopen allocator command eo child =
          (finish command eo child.run child.stdout.bytes, true) ∧
        child.stdout.bytes.length ≤ sizeT eo.maxBuffer)) := by
  unfold afterPopen RunsOut
  cases hfirst : allocator.grants 4096 with
  | false => exact .inl ⟨.inl rfl, rfl⟩
  | true =>
    have hgb : Holds (growbufInit 4096 true).2 [] := ⟨growbufInit_exact 4096, by decide⟩
    rw [Bool.true_eq_false, false_or]
    dsimp only
    rw [show (growbufInit 4096 true).1 = 0 from rfl, if_neg (by decide)]
    rcases collect_cases allocator hgb eo.maxBuffer child.stdout.sizes (Nat.zero_le _) with
      ⟨hrefused, hnone⟩ | ⟨hnot, ⟨hover, hlength⟩ | ⟨gb', hall, hbytes, hlength⟩⟩
    · rw [hnone]
      exact .inl ⟨hrefused, rfl⟩
    · rw [hover]
      exact .inr ⟨hnot, .inl ⟨rfl, hlength⟩⟩
    · rw [hall]
      dsimp only
      rw [hbytes]
      exact .inr ⟨hnot, .inr ⟨rfl, hlength⟩⟩

end

/-! ## The limit -/

/-- The limit of a call: `maxBuffer` if it is a Number, or else a mebibyte. -/
inductive MaxBuffer (o : Options) : JsNumber → Prop
  | given {m : JsNumber} (truthy : Bool)
    (h : o.get .maxBuffer = .number truthy (jsToInt64Free m).toInt) : MaxBuffer o m
  | default (h : ∀ truthy n, o.get .maxBuffer ≠ .number truthy n) : MaxBuffer o (.int 1048576)

/-- The Number is not NaN, and if it has a sign it is a zero. -/
def NonNegative : JsNumber → Prop
  | .int n => 0 ≤ n.toInt
  | .float64 d => ¬ d.IsNaN ∧ (d.negative → d.exponent = 0 ∧ d.fraction = 0)

/-- `n > m`, for a Number that is not negative. -/
def Exceeds (n : Nat) (m : JsNumber) : Prop :=
  match m.trunc with
  | some t => t < n
  | none => False

def Ending.IsRangeError : Ending → Prop
  | .threw (.rangeError _) | .returned (.throw (.rangeError _)) => True
  | _ => False

/-- What the end of a call owes to the output of its command and the limit `m`. -/
structure OutputKept (m : JsNumber) (eo : ExecOptions) (child : Child) (ending : Ending) : Prop where
  exceeds : ending.IsRangeError ↔ Exceeds child.stdout.bytes.length m
  exact : ¬ Exceeds child.stdout.bytes.length m →
    ∃ stdout, makeOutput eo child.stdout.bytes = .ok stdout ∧
      if execSyncExitCode child.run = 0 then ending = .returned (.ok stdout)
      else ∃ error, ending = .commandFailed error ∧ error.stdout = .ok stdout

/-- The engine has values of the type asked for that are as long as this. -/
def Representable (eo : ExecOptions) (bytes : List UInt8) : Prop :=
  if isBuf eo then bytes.length ≤ Buffer.maxByteLength else countAscii bytes ≤ jsStringLenMax

/-- The output goes past the limit, or it fits both the engine and what 64 bits hold of the limit.
Nothing is left of an infinite limit. -/
def WithinWord (m : JsNumber) (eo : ExecOptions) (bytes : List UInt8) : Prop :=
  match m.trunc with
  | some t => t < bytes.length ∨ (bytes.length ≤ t % 2 ^ 64 ∧ Representable eo bytes)
  | none => bytes = []

theorem trunc_nonneg {m : JsNumber} {t : Int} (h : NonNegative m) (htrunc : m.trunc = some t) :
    0 ≤ t := by
  cases m with
  | int n =>
    rw [← Option.some.inj htrunc]
    exact h
  | float64 d =>
    unfold JsNumber.trunc at htrunc
    dsimp only at htrunc
    split at htrunc
    next =>
      rw [← Option.some.inj htrunc, Binary64.trunc]
      split
      next hnegative =>
        obtain ⟨hexponent, hfraction⟩ := h.2 hnegative
        have habs : d.truncAbs = 0 := by
          rw [Binary64.truncAbs, Binary64.significand, if_pos hexponent, hfraction, Nat.zero_mul,
            Nat.zero_div]
        rw [habs]
        decide
      next => exact Int.natCast_nonneg _
    next => cases htrunc

-- The cast to `size_t` keeps the low 64 bits of the integer part.
theorem MaxBuffer.sizeT_eq {o : Options} {m : JsNumber} (h : MaxBuffer o m) :
    (sizeT (parseExecOptions o).maxBuffer : Int) = (m.trunc.getD 0) % 2 ^ 64 := by
  have hmax : (parseExecOptions o).maxBuffer = (jsToInt64Free m).toInt := by
    cases h with
    | given truthy h =>
      show optionNumber _ (o.get .maxBuffer) = _
      rw [h]
      rfl
    | default h =>
      show optionNumber _ (o.get .maxBuffer) = _
      unfold optionNumber
      split
      next heq => exact absurd heq (h _ _)
      next => decide
  rw [hmax, jsToInt64Free_eq]
  cases m.trunc with
  | some t =>
    show (sizeT (Int64.ofInt t).toInt : Int) = t % 2 ^ 64
    rw [Int64.toInt_ofInt, Int.bmod_def]
    unfold sizeT Int64.size
    omega
  | none => decide

theorem makeOutput_ok_iff (eo : ExecOptions) (bytes : List UInt8) :
    (∃ stdout, makeOutput eo bytes = .ok stdout) ↔ Representable eo bytes := by
  unfold makeOutput Representable
  by_cases hbuf : isBuf eo
  · rw [if_pos hbuf, if_pos hbuf]
    unfold Fs.jsNewArrayBufferCopy
    by_cases hlength : bytes.length ≤ Buffer.maxByteLength
    · rw [dif_pos hlength]
      exact iff_of_true ⟨_, rfl⟩ hlength
    · rw [dif_neg hlength]
      exact iff_of_false (fun ⟨_, h⟩ ↦ nomatch h) hlength
  · rw [if_neg hbuf, if_neg hbuf]
    unfold jsNewStringLen
    by_cases hlong : countAscii bytes > jsStringLenMax
    · rw [if_pos hlong]
      exact iff_of_false (fun ⟨_, h⟩ ↦ nomatch h) (Nat.not_le_of_lt hlong)
    · rw [if_neg hlong]
      exact iff_of_true ⟨_, rfl⟩ (Nat.le_of_not_lt hlong)

theorem representable_nil (eo : ExecOptions) : Representable eo [] := by
  unfold Representable
  split <;> decide

-- With a value made of the output, the end is the one that is owed.
theorem finish_ok (command : JsString) {eo : ExecOptions} {child : Child} {stdout : Fs.FileData}
    (h : makeOutput eo child.stdout.bytes = .ok stdout) :
    ¬ (finish command eo child.run child.stdout.bytes).IsRangeError ∧
      if execSyncExitCode child.run = 0 then
        finish command eo child.run child.stdout.bytes = .returned (.ok stdout)
      else ∃ error, finish command eo child.run child.stdout.bytes = .commandFailed error ∧
        error.stdout = .ok stdout := by
  unfold finish
  by_cases hcode : execSyncExitCode child.run = 0
  · rw [if_neg (not_not_intro hcode), if_pos hcode, h]
    exact ⟨id, rfl⟩
  · rw [if_pos hcode, if_neg hcode]
    exact ⟨id, _, rfl, h⟩

section

variable {o : Options} {m : JsNumber} {bytes : List UInt8}

-- Output past the word that is compared is handled only if it is past the limit.
theorem MaxBuffer.withinWord_of_lt (hm : MaxBuffer o m)
    (hover : sizeT (parseExecOptions o).maxBuffer < bytes.length) :
    WithinWord m (parseExecOptions o) bytes ↔ Exceeds bytes.length m := by
  have hword := hm.sizeT_eq
  unfold WithinWord Exceeds
  cases htrunc : m.trunc with
  | some t =>
    rw [htrunc, Option.getD_some] at hword
    exact ⟨fun h ↦ h.resolve_right fun hfits ↦ by omega, .inl⟩
  | none => exact iff_of_false (fun h ↦ by simp [h] at hover) id

theorem MaxBuffer.not_exceeds (hm : MaxBuffer o m) (hpos : NonNegative m)
    (hfits : bytes.length ≤ sizeT (parseExecOptions o).maxBuffer) : ¬ Exceeds bytes.length m := by
  have hword := hm.sizeT_eq
  unfold Exceeds
  cases htrunc : m.trunc with
  | some t =>
    have hnonneg := trunc_nonneg hpos htrunc
    rw [htrunc, Option.getD_some] at hword
    dsimp only
    omega
  | none => exact id

theorem MaxBuffer.withinWord_of_le (hm : MaxBuffer o m) (hpos : NonNegative m)
    (hfits : bytes.length ≤ sizeT (parseExecOptions o).maxBuffer) :
    WithinWord m (parseExecOptions o) bytes ↔ Representable (parseExecOptions o) bytes := by
  have hword := hm.sizeT_eq
  have hexceeds := hm.not_exceeds hpos hfits
  unfold WithinWord
  unfold Exceeds at hexceeds
  cases htrunc : m.trunc with
  | some t =>
    rw [htrunc] at hword hexceeds
    rw [Option.getD_some] at hword
    exact ⟨fun h ↦ (h.resolve_left hexceeds).2, fun h ↦ .inr ⟨by omega, h⟩⟩
  | none =>
    rw [htrunc, Option.getD_none] at hword
    have hempty : bytes = [] := List.eq_nil_of_length_eq_zero (by omega)
    rw [hempty]
    exact iff_of_true rfl (representable_nil _)

end

/-- No allocation of the call fails. -/
structure Host.Grants {δ : Type} (host : Host δ) (o : Options) (child : Child) : Prop where
  command : host.copiesCommand = true
  options : ∀ name, host.copies name = true
  blocks : ¬ RunsOut host.allocator (parseExecOptions o).maxBuffer child

theorem execSync_ending {δ : Type} {host : Host δ} {o : Options} {child : Child}
    (hpopen : host.popen = some child) (hgrants : host.Grants o child) (command : JsString) :
    (execSync host command o).ending =
      (afterPopen host.allocator command (parseExecOptions o) child).1 := by
  have hoptions : host.options o = parseExecOptions o := by
    simp only [Host.options, hgrants.options, if_true]
  unfold execSync
  rw [hpopen, hoptions, hgrants.command]
  rfl

/-- A call whose command is started and whose allocations succeed treats the output as it should
precisely if the output is past the limit, or fits the engine and the low 64 bits of the limit. -/
theorem execSync_output_iff {δ : Type} (host : Host δ) (command : JsString) (o : Options) (child : Child)
    (m : JsNumber) (hpopen : host.popen = some child) (hm : MaxBuffer o m) (hpos : NonNegative m)
    (hgrants : host.Grants o child) :
    OutputKept m (parseExecOptions o) child (execSync host command o).ending ↔
      WithinWord m (parseExecOptions o) child.stdout.bytes := by
  rw [execSync_ending hpopen hgrants]
  rcases afterPopen_cases host.allocator command (parseExecOptions o) child with
    ⟨hout, -⟩ | ⟨-, ⟨hover, hlength⟩ | ⟨hdone, hlength⟩⟩
  · exact absurd hout hgrants.blocks
  · rw [hover, hm.withinWord_of_lt hlength]
    constructor
    · exact fun hkept ↦ hkept.exceeds.mp trivial
    · exact fun hexceeds ↦ ⟨iff_of_true trivial hexceeds, fun h ↦ absurd hexceeds h⟩
  · have hwithin := hm.not_exceeds hpos hlength
    rw [hdone, hm.withinWord_of_le hpos hlength, ← makeOutput_ok_iff]
    constructor
    · intro hkept
      obtain ⟨stdout, hmake, -⟩ := hkept.exact hwithin
      exact ⟨stdout, hmake⟩
    · rintro ⟨stdout, hmake⟩
      obtain ⟨hnot, hend⟩ := finish_ok command hmake
      exact ⟨iff_of_false hnot hwithin, fun _ ↦ ⟨stdout, hmake, hend⟩⟩

/-! ## A call with an infinite limit -/

theorem bounded_of_decide (size : Nat) (h : decide (size ≤ 2 ^ 62) = true) : size ≤ 2 ^ 62 :=
  of_decide_eq_true h

def echoChunks : List (List UInt8) := [ascii "a\n"]

theorem echoChunks_sizes : ∀ chunk ∈ echoChunks, 0 < chunk.length ∧ chunk.length ≤ 4096 := by
  decide

/-- `echo a`, which exits with code 0. -/
def echo : Child := ⟨⟨echoChunks, echoChunks_sizes⟩, .unix (.exited 0) 0 0⟩

/-- A host with one directory, on which no call fails. -/
def echoHost : Host Unit where
  start := ()
  copiesCommand := true
  copies _ := true
  getcwd := some (ascii "/")
  indeterminate := []
  chdirIn _ := some ()
  chdirOut _ _ := some ()
  popen := some echo
  allocator := ⟨fun size ↦ decide (size ≤ 2 ^ 62), bounded_of_decide⟩

/-- `{ maxBuffer: m }`, where `m` is not zero. -/
def limitOptions (m : JsNumber) : Options :=
  Options.empty.set .maxBuffer (.number true (jsToInt64Free m).toInt)

theorem limitOptions_maxBuffer (m : JsNumber) : MaxBuffer (limitOptions m) m :=
  .given true (Options.get_set_self _ _ _)

theorem echo_grants (o : Options) : echoHost.Grants o echo where
  command := rfl
  options _ := rfl
  blocks := by
    rintro (hfirst | hrefused)
    · exact absurd hfirst (by decide)
    · refine not_refused 4096 (fun size hsize ↦ decide_eq_true ?_) hrefused
      have hlength : echo.stdout.chunks.flatten.length = 2 := rfl
      omega

theorem execSync_output_echo :
    OutputKept (.int 2) (parseExecOptions (limitOptions (.int 2))) echo
        (execSync echoHost (toJsString "echo a") (limitOptions (.int 2))).ending ↔
      WithinWord (.int 2) (parseExecOptions (limitOptions (.int 2))) (ascii "a\n") :=
  execSync_output_iff echoHost (toJsString "echo a") _ echo (.int 2) rfl (limitOptions_maxBuffer _)
    (show (0 : Int) ≤ (2 : Int32).toInt by decide) (echo_grants _)

/-- `execSync("echo a", { maxBuffer: Infinity })`: the limit that is compared is zero. -/
theorem execSync_infinite_limit :
    ¬ ∀ (host : Host Unit) (command : JsString) (o : Options) (child : Child) (m : JsNumber),
      host.popen = some child → MaxBuffer o m → NonNegative m → host.Grants o child →
      OutputKept m (parseExecOptions o) child (execSync host command o).ending := by
  intro h
  have hgrants := echo_grants (limitOptions (.float64 .infinity))
  have hkept := h echoHost (toJsString "echo a") (limitOptions (.float64 .infinity)) echo
    (.float64 .infinity) rfl (limitOptions_maxBuffer _)
    ⟨by decide, fun hnegative ↦ absurd hnegative (by decide)⟩ hgrants
  have hlimit : sizeT (parseExecOptions (limitOptions (.float64 .infinity))).maxBuffer = 0 := by
    decide
  rw [execSync_ending rfl hgrants] at hkept
  rcases afterPopen_cases echoHost.allocator (toJsString "echo a")
    (parseExecOptions (limitOptions (.float64 .infinity))) echo with
    ⟨hout, -⟩ | ⟨-, ⟨hover, -⟩ | ⟨-, hlength⟩⟩
  · exact hgrants.blocks hout
  · rw [hover] at hkept
    exact hkept.exceeds.mp trivial
  · rw [hlimit] at hlength
    exact absurd hlength (by decide)

end QNode.ChildProcess.ExecSync
