import QNode.Fs.CStrings
import QNode.Fs.FileHandle

/-!
# Promises and exceptions

The promise version of a synchronous function creates its promise first and settles it with what the
function returns.  `open` and the methods of a FileHandle look at their arguments before they create a
promise, and throw what is wrong with them.
-/

open FileTree QNode.Engine

namespace QNode.Fs.CStrings

inductive Settlement
  | fulfilled | rejected
  deriving DecidableEq, Repr

/-- What a caller gets: a promise and how it is settled, an exception, or the end of the process. -/
inductive CallResult
  | promise (settlement : Settlement)
  | thrown (error : JsError)
  | exception
  | ended
  deriving DecidableEq, Repr

/-- What `open` and the methods meet besides: whether a buffer is allocated, and the system call. -/
structure PromiseOutcomes extends Outcomes where
  newBuffer : Bool
  systemCall : Except Errno Unit

/-- `DEFINE_FS_PROMISE` -/
def definePromise (result : Execution) : CallResult :=
  match result.exit with
  | .value => .promise .fulfilled
  | .throws _ | .exception | .fsError _ _ _ => .promise .rejected
  | .crash | .abort => .ended

/-- The resolving functions that are called with the result of a system call. -/
def settle : Except Errno Unit → CallResult
  | .ok () => .promise .fulfilled
  | .error _ => .promise .rejected

section

variable (w : PromiseOutcomes)

/-- The flags and the mode are converted without a look at errors. -/
def jsFsPromiseOpen (argv : List Value) : CallResult :=
  if ¬ (argv[0]?.any Value.isString) then .thrown (.typeError "path must be a string")
  else if ¬ w.toCString .path then .exception
  else settle w.systemCall

/-- A method of a handle whose property `_fd` is given. -/
def withFd (fdField : Int) (rest : CallResult) : CallResult :=
  if fdField < 0 then .thrown (.typeError "filehandle is closed") else rest

def refused : Refusal → CallResult
  | .throws error => .thrown error
  | .crashes => .ended

/-- The promise is created once the arguments are accepted. -/
def answer {α : Type} (request : Except Refusal α) : CallResult :=
  match request with
  | .error refusal => refused refusal
  | .ok _ => settle w.systemCall

def jsFsFhClose (fdField : Int) : CallResult := withFd fdField (settle w.systemCall)

def jsFsFhSync (fdField : Int) : CallResult := withFd fdField (settle w.systemCall)

/-- Whether a read makes a buffer of its own. -/
def makesBuffer : ReadArgs → Bool
  | .missing | .options .undefined _ _ _ => true
  | _ => false

def jsFsFhRead (fdField : Int) (args : ReadArgs) : CallResult :=
  withFd fdField <|
    if makesBuffer args ∧ ¬ w.newBuffer then .exception
    else answer w (jsFsFhReadRequest args)

def isText : WriteArgs → Bool
  | .string _ _ => true
  | _ => false

def jsFsFhWrite (fdField : Int) (args : WriteArgs) : CallResult :=
  withFd fdField <|
    if isText args ∧ ¬ w.toCString .data then .exception
    else answer w (jsFsFhWriteRequest args)

end

/-- A call of a function of `fs.promises` or of a method of a FileHandle. -/
inductive PromiseCall
  | function (f : SyncFunction) (argv : List Value)
  | open (argv : List Value)
  | close (fdField : Int)
  | read (fdField : Int) (args : ReadArgs)
  | write (fdField : Int) (args : WriteArgs)
  | sync (fdField : Int)

namespace PromiseCall

def result (w : PromiseOutcomes) : PromiseCall → CallResult
  | function f argv => definePromise (f.call w.toOutcomes argv)
  | .open argv => jsFsPromiseOpen w argv
  | close fdField => jsFsFhClose w fdField
  | read fdField args => jsFsFhRead w fdField args
  | write fdField args => jsFsFhWrite w fdField args
  | sync fdField => jsFsFhSync w fdField

/-- The operation behind the call fails. -/
def Fails (w : PromiseOutcomes) : PromiseCall → Prop
  | function f argv => (f.call w.toOutcomes argv).exit ≠ .value
  | _ => w.systemCall ≠ .ok ()

/-- The call returns a promise, which is rejected when the operation fails. -/
def ReportsByPromise (w : PromiseOutcomes) (call : PromiseCall) : Prop :=
  ∃ settlement, call.result w = .promise settlement ∧ (call.Fails w → settlement = .rejected)

end PromiseCall

/-! ## When there is a promise -/

/-- A function that ends the process: the allocator refuses a block of no bytes for a file of unknown
size, and a flag whose conversion failed is read all the same. -/
def SyncFunction.Ends (w : Outcomes) (argv : List Value) : SyncFunction → Prop
  | readFileSync => PathGiven w argv ∧ w.fails .fopen = none ∧ w.size = -1
  | writeFileSync =>
    2 ≤ argv.length ∧ PathGiven w argv ∧ flagOption w argv[2]? = .null ∧
      (dataLength w argv[1]?).isSome
  | _ => False

/-- The range of a read lies in its buffer. -/
def readFits (bufSize : Nat) (offset length : Option Int64) : Prop :=
  rangeFits bufSize (numberOr offset 0) (numberOr length (restLength bufSize (numberOr offset 0)))

def ReadAccepted : ReadArgs → Prop
  | .missing => True
  | .arrayBuffer size offset length _ => readFits size offset length
  | .options (.arrayBuffer size) offset length _ => readFits size offset length
  | .options .undefined offset length _ => readFits defaultBufferSize offset length
  | .options .other _ _ _ | .other => False

def WriteAccepted : WriteArgs → Prop
  | .string _ _ => True
  | .arrayBuffer bytes offset length _ =>
    rangeFits bytes.length (numberOr offset 0)
      (if numberOr length (-1) < 0 then restLength bytes.length (numberOr offset 0)
        else numberOr length (-1))
  | .missing | .options _ | .other => False

/-- The conditions under which a call returns a promise. -/
def PromiseCall.Accepted (w : PromiseOutcomes) : PromiseCall → Prop
  | function f argv => ¬ f.Ends w.toOutcomes argv
  | .open argv => PathGiven w.toOutcomes argv
  | close fdField | sync fdField => 0 ≤ fdField
  | read fdField args => 0 ≤ fdField ∧ ReadAccepted args ∧ (makesBuffer args → w.newBuffer)
  | write fdField args => 0 ≤ fdField ∧ WriteAccepted args ∧ (isText args → w.toCString .data)

/-! ## Executions that end the process -/

def Exit.ends : Exit → Prop
  | .crash | .abort => True
  | _ => False

section

variable {w : Outcomes} {argv : List Value} {rest : Execution}

theorem withPath_ends :
    (withPath w argv rest).exit.ends ↔ PathGiven w argv ∧ rest.exit.ends := by
  unfold withPath PathGiven
  by_cases hstring : argv[0]?.any Value.isString
  · rw [if_neg (not_not.mpr hstring), and_iff_right hstring]
    by_cases hpath : w.toCString .path
    · rw [if_neg (not_not.mpr hpath), and_iff_right hpath]
      rfl
    · rw [if_pos hpath]
      exact iff_of_false id fun h ↦ hpath h.1
  · rw [if_pos hstring]
    exact iff_of_false id fun h ↦ hstring h.1.1

theorem withPaths_ends {message : String} {p q : CString} (h : ¬ rest.exit.ends) :
    ¬ (withPaths w argv message p q rest).exit.ends := by
  unfold withPaths
  split
  next => exact id
  next =>
    split
    next => exact id
    next =>
      split
      next => exact id
      next =>
        split
        next => exact id
        next => exact h

theorem pathCall_ends {call : Syscall} {syscall : String} (h : ¬ rest.exit.ends) :
    ¬ (pathCall w call syscall rest).exit.ends := by
  unfold pathCall
  cases w.fails call with
  | none => exact h
  | some err => exact id

theorem onePath_ends {call : Syscall} {syscall : String} (h : ¬ rest.exit.ends) :
    ¬ (withPath w argv (pathCall w call syscall rest)).exit.ends :=
  fun hends ↦ pathCall_ends h (withPath_ends.mp hends).2

end

section

variable (w : Outcomes) (argv : List Value)

theorem built_not_ends : ¬ (built w).ends := by
  unfold built
  split <;> exact id

theorem readFileSync_ends : (jsFsReadFileSync w argv).exit.ends ↔
    PathGiven w argv ∧ w.fails .fopen = none ∧ w.size = -1 := by
  unfold jsFsReadFileSync
  rw [withPath_ends]
  refine and_congr_right fun _ ↦ ?_
  cases w.fails .fopen with
  | some err => exact iff_of_false id (by simp)
  | none =>
    rw [and_iff_right rfl]
    dsimp only [Execution.exit_after]
    by_cases hsize : w.size + 1 = 0
    · rw [if_pos hsize]
      exact iff_of_true trivial (by omega)
    · rw [if_neg hsize]
      refine iff_of_false ?_ (by omega)
      split
      next => exact id
      next =>
        split
        next => exact id
        next => exact built_not_ends w

theorem writeData_ends (encoding : Bool) (flag : FlagStr) (text : Bool) (dataLen : Nat) :
    (writeData w encoding flag text dataLen).exit.ends ↔ flag = .null := by
  unfold writeData
  dsimp only [Execution.exit_after]
  by_cases hnull : flag = .null
  · rw [if_pos hnull]
    exact iff_of_true trivial hnull
  · rw [if_neg hnull]
    refine iff_of_false ?_ hnull
    dsimp only [Execution.exit_after]
    split
    next => exact id
    next =>
      split
      next =>
        dsimp only [Execution.exit_after]
        split <;> exact id
      next => exact id

theorem writeWholeData_ends (encoding : Bool) (flag : FlagStr) (data : Option Value) :
    (writeWholeData w encoding flag data).exit.ends ↔
      flag = .null ∧ (dataLength w data).isSome := by
  unfold writeWholeData
  dsimp only [Execution.exit_after]
  rcases data with - | data
  · exact iff_of_false id (by simp [dataLength])
  cases data with
  | string text =>
    by_cases hdata : w.toCString .data <;> simp [hdata, dataLength, writeData_ends]
  | object property bytes =>
    cases bytes with
    | none => exact iff_of_false id (by simp [dataLength])
    | some bytes => simp [dataLength, writeData_ends]
  | undefined | bool _ | other => exact iff_of_false id (by simp [dataLength])

theorem rmSync_not_ends : ¬ (jsFsRmSync w argv).exit.ends := by
  intro hends
  have hrest := (withPath_ends.mp hends).2
  revert hrest
  dsimp only [Execution.exit_after]
  split
  next => split <;> exact id
  next =>
    split
    next =>
      split
      next => exact id
      next => exact pathCall_ends id
    next => exact pathCall_ends id

theorem copyBlocks_not_ends (blocks : List (Option Errno)) : ¬ (copyBlocks blocks).exit.ends := by
  induction blocks with
  | nil => exact id
  | cons block blocks ih =>
    cases block with
    | none => exact ih
    | some err => exact id

theorem copyFileSync_not_ends : ¬ (jsFsCopyFileSync w argv).exit.ends := by
  apply withPaths_ends
  dsimp only [Execution.exit_after]
  split
  next => exact id
  next =>
    dsimp only [Execution.exit_after]
    split
    next => exact id
    next => exact copyBlocks_not_ends w.blocks

theorem renameSync_not_ends : ¬ (jsFsRenameSync w argv).exit.ends := by
  apply withPaths_ends
  dsimp only [Execution.exit_after]
  split <;> exact id

theorem accessSync_not_ends : ¬ (jsFsAccessSync w argv).exit.ends := by
  intro hends
  have hrest := (withPath_ends.mp hends).2
  revert hrest
  split
  next => exact id
  next => exact pathCall_ends id

theorem chmodSync_not_ends : ¬ (jsFsChmodSync w argv).exit.ends := by
  unfold jsFsChmodSync
  split
  next => exact id
  next =>
    split
    next => exact id
    next =>
      intro hends
      have hrest := (withPath_ends.mp hends).2
      revert hrest
      split
      next => exact id
      next => exact pathCall_ends id

theorem call_ends (f : SyncFunction) : (f.call w argv).exit.ends ↔ f.Ends w argv := by
  cases f with
  | readFileSync => exact readFileSync_ends w argv
  | writeFileSync =>
    show (jsFsWriteFileSync w argv).exit.ends ↔ _
    unfold jsFsWriteFileSync SyncFunction.Ends
    by_cases hargc : argv.length < 2
    · rw [if_pos hargc]
      exact iff_of_false id fun h ↦ Nat.not_le_of_lt hargc h.1
    · rw [if_neg hargc, and_iff_right (Nat.le_of_not_lt hargc), withPath_ends, writeWholeData_ends]
  | appendFileSync =>
    refine iff_of_false ?_ id
    show ¬ (jsFsAppendFileSync w argv).exit.ends
    unfold jsFsAppendFileSync
    split
    next => exact id
    next =>
      rw [withPath_ends, writeWholeData_ends]
      simp
  | mkdirSync => exact iff_of_false (onePath_ends id) id
  | readdirSync => exact iff_of_false (onePath_ends id) id
  | statSync => exact iff_of_false (onePath_ends id) id
  | lstatSync => exact iff_of_false (onePath_ends id) id
  | unlinkSync => exact iff_of_false (onePath_ends id) id
  | renameSync => exact iff_of_false (renameSync_not_ends w argv) id
  | rmdirSync => exact iff_of_false (onePath_ends id) id
  | rmSync => exact iff_of_false (rmSync_not_ends w argv) id
  | copyFileSync => exact iff_of_false (copyFileSync_not_ends w argv) id
  | realpathSync => exact iff_of_false (onePath_ends (built_not_ends w)) id
  | accessSync => exact iff_of_false (accessSync_not_ends w argv) id
  | chmodSync => exact iff_of_false (chmodSync_not_ends w argv) id

end

/-! ## The calls one by one -/

theorem definePromise_reports (x : Execution) :
    (∃ settlement, definePromise x = .promise settlement ∧
      (x.exit ≠ .value → settlement = .rejected)) ↔ ¬ x.exit.ends := by
  unfold definePromise
  cases x.exit with
  | value => exact iff_of_true ⟨.fulfilled, rfl, fun h ↦ absurd rfl h⟩ id
  | throws error => exact iff_of_true ⟨.rejected, rfl, fun _ ↦ rfl⟩ id
  | exception => exact iff_of_true ⟨.rejected, rfl, fun _ ↦ rfl⟩ id
  | fsError errno s syscall => exact iff_of_true ⟨.rejected, rfl, fun _ ↦ rfl⟩ id
  | crash => exact iff_of_false (by simp) (not_not.mpr trivial)
  | abort => exact iff_of_false (by simp) (not_not.mpr trivial)

theorem settle_reports (result : Except Errno Unit) :
    ∃ settlement, settle result = .promise settlement ∧
      (result ≠ .ok () → settlement = .rejected) := by
  cases result with
  | ok value => exact ⟨.fulfilled, rfl, fun h ↦ absurd rfl h⟩
  | error err => exact ⟨.rejected, rfl, fun _ ↦ rfl⟩

-- A promise that is rejected if `failed`.
def Reported (failed : Prop) (result : CallResult) : Prop :=
  ∃ settlement, result = .promise settlement ∧ (failed → settlement = .rejected)

theorem not_reported_refused (failed : Prop) (refusal : Refusal) :
    ¬ Reported failed (refused refusal) := by
  cases refusal <;> simp [Reported, refused]

theorem withFd_reported {failed P : Prop} {fdField : Int} {rest : CallResult}
    (h : Reported failed rest ↔ P) :
    Reported failed (withFd fdField rest) ↔ 0 ≤ fdField ∧ P := by
  unfold withFd
  by_cases hclosed : fdField < 0
  · rw [if_pos hclosed]
    exact iff_of_false (by simp [Reported]) fun hopen ↦ absurd hopen.1 (Int.not_le.mpr hclosed)
  · rw [if_neg hclosed, and_iff_right (Int.not_lt.mp hclosed)]
    exact h

-- A method that wants memory, and then looks at its arguments.
theorem answer_reported {α : Type} {request : Except Refusal α} {needs has : Bool} {P : Prop}
    (w : PromiseOutcomes) (h : (∃ r, request = .ok r) ↔ P) :
    Reported (w.systemCall ≠ .ok ())
      (if needs ∧ ¬ has then .exception else answer w request) ↔ P ∧ (needs → has) := by
  by_cases hmemory : needs ∧ ¬ has
  · rw [if_pos hmemory]
    exact iff_of_false (by simp [Reported]) fun hall ↦ hmemory.2 (hall.2 hmemory.1)
  · have hgiven : needs → has := fun hneeds ↦ not_not.mp fun hhas ↦ hmemory ⟨hneeds, hhas⟩
    rw [if_neg hmemory, and_iff_left hgiven, ← h]
    cases request with
    | error refusal => exact iff_of_false (not_reported_refused _ refusal) (by simp)
    | ok r => exact iff_of_true (settle_reports w.systemCall) ⟨r, rfl⟩

theorem readRange_isOk (bufSize : Nat) (offset length position : Option Int64) :
    (∃ r, readRange bufSize offset length position = .ok r) ↔ readFits bufSize offset length := by
  unfold readRange readFits
  dsimp only
  split
  next hfits => exact iff_of_true ⟨_, rfl⟩ hfits
  next hfits => exact iff_of_false (by simp) hfits

theorem readRequest_isOk (args : ReadArgs) :
    (∃ r, jsFsFhReadRequest args = .ok r) ↔ ReadAccepted args := by
  cases args with
  | missing => exact iff_of_true ⟨_, rfl⟩ trivial
  | arrayBuffer size offset length position => exact readRange_isOk size offset length position
  | options buffer offset length position =>
    cases buffer with
    | undefined => exact readRange_isOk defaultBufferSize offset length position
    | arrayBuffer size => exact readRange_isOk size offset length position
    | other => exact iff_of_false (by simp [jsFsFhReadRequest]) id
  | other => exact iff_of_false (by simp [jsFsFhReadRequest]) id

theorem writeRequest_isOk (args : WriteArgs) :
    (∃ r, jsFsFhWriteRequest args = .ok r) ↔ WriteAccepted args := by
  cases args with
  | missing => exact iff_of_false (by simp [jsFsFhWriteRequest]) id
  | string text position => exact iff_of_true ⟨_, rfl⟩ trivial
  | arrayBuffer bytes offset length position =>
    unfold jsFsFhWriteRequest WriteAccepted
    dsimp only
    generalize (if numberOr length (-1) < 0 then restLength bytes.length (numberOr offset 0)
      else numberOr length (-1)) = len
    by_cases hfits : rangeFits bytes.length (numberOr offset 0) len
    · rw [if_pos hfits]
      exact iff_of_true ⟨_, rfl⟩ hfits
    · rw [if_neg hfits]
      exact iff_of_false (by simp) hfits
  | options bytes => exact iff_of_false (by simp [jsFsFhWriteRequest]) id
  | other => exact iff_of_false (by simp [jsFsFhWriteRequest]) id

theorem promiseOpen_reported (w : PromiseOutcomes) (argv : List Value) :
    Reported (w.systemCall ≠ .ok ()) (jsFsPromiseOpen w argv) ↔ PathGiven w.toOutcomes argv := by
  unfold jsFsPromiseOpen PathGiven
  by_cases hstring : argv[0]?.any Value.isString
  · rw [if_neg (not_not.mpr hstring), and_iff_right hstring]
    by_cases hpath : w.toCString .path
    · rw [if_neg (not_not.mpr hpath)]
      exact iff_of_true (settle_reports w.systemCall) hpath
    · rw [if_pos hpath]
      exact iff_of_false (by simp [Reported]) hpath
  · rw [if_pos hstring]
    exact iff_of_false (by simp [Reported]) fun h ↦ hstring h.1

end QNode.Fs.CStrings
