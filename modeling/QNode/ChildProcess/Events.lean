import QNode.Engine.Strings
import QNode.Library.Runs

/-!
# The asynchronous ChildProcess

A `ChildProcess` polls its child from its constructor and then from timers.  A poll drains the output
pipes, asks for the exit status and, once there is one, emits `exit`, closes the pipes and emits
`close`.  User code runs between the turns of the event loop and inside every event.
-/

open QNode.Engine

namespace QNode.ChildProcess

/-! ## State -/

inductive Stream
  | stdout | stderr
  deriving DecidableEq, Repr

inductive EventName
  | data (stream : Stream)
  | exit
  | close
  deriving DecidableEq, Repr

inductive EventArg
  | chunk (text : JsString)
  | code (exitCode : Int)

/-- What user code does to a child. -/
inductive UserAction
  | stdinWrite (data : JsString)
  | stdinEnd
  | kill
  deriving DecidableEq, Repr

/-- A listener of the user, given by what it does; one that throws does what comes before the throw,
since `emit` catches it.  The other two are those of `execFile`. -/
inductive Listener
  | user (actions : List UserAction)
  | collect (stream : Stream)
  | callback
  deriving DecidableEq, Repr

/-- What a child's object does, in order: the calls it makes and the events it emits. -/
inductive Event
  | reaped (exitCode : Int)
  | data (stream : Stream) (text : JsString)
  | exit (exitCode : Int)
  | close (exitCode : Int)
  | closePipe (fd : Nat)
  | writePipe (fd : Nat) (data : JsString)
  | killProcess (pid : Int)
  | callback (err : Option Int) (stdout stderr : JsString)
  deriving DecidableEq, Repr

/-- The result of `_spawnProcess`; a descriptor that is -1 is `none`. -/
structure Raw where
  pid : Int
  stdin : Option Nat
  stdout : Option Nat
  stderr : Option Nat
  deriving DecidableEq, Repr

/-- The fields `stdin`, `stdout` and `stderr` are the `_fd` of the three streams: `none` for a stream
that is null or closed. -/
structure Child where
  raw : Raw
  stdin : Option Nat
  stdout : Option Nat
  stderr : Option Nat
  exited : Bool
  exitCode : Option Int
  killed : Bool
  listeners : List (EventName × Listener)
  stdoutStr : JsString
  stderrStr : JsString
  timers : Nat
  log : List Event

def Child.record (cp : Child) (e : Event) : Child := { cp with log := cp.log ++ [e] }

/-! ## Streams and listeners -/

def Child.stdinWrite (cp : Child) (data : JsString) : Child :=
  match cp.stdin with
  | none => cp
  | some fd => cp.record (.writePipe fd data)

def Child.stdinEnd (cp : Child) : Child :=
  match cp.stdin with
  | none => cp
  | some fd => { cp.record (.closePipe fd) with stdin := none }

def Child.kill (cp : Child) : Child :=
  { cp.record (.killProcess cp.raw.pid) with killed := true }

def Child.act (cp : Child) : UserAction → Child
  | .stdinWrite data => cp.stdinWrite data
  | .stdinEnd => cp.stdinEnd
  | .kill => cp.kill

/-- `err` of the callback: null for exit code 0, else an error that carries the code. -/
def errorOf (code : Int) : Option Int := if code ≠ 0 then some code else none

def Child.call (cp : Child) (arg : EventArg) : Listener → Child
  | .user actions => actions.foldl Child.act cp
  | .collect stream =>
    match arg, stream with
    | .chunk text, .stdout => { cp with stdoutStr := cp.stdoutStr ++ text }
    | .chunk text, .stderr => { cp with stderrStr := cp.stderrStr ++ text }
    | .code _, _ => cp
  | .callback =>
    match arg with
    | .chunk _ => cp
    | .code code => cp.record (.callback (errorOf code) cp.stdoutStr cp.stderrStr)

def Child.on (cp : Child) (name : EventName) (listener : Listener) : Child :=
  { cp with listeners := cp.listeners ++ [(name, listener)] }

def Child.listenersOf (cp : Child) (name : EventName) : List Listener :=
  (cp.listeners.filter fun l ↦ l.1 = name).map Prod.snd

def Child.emit (cp : Child) (name : EventName) (arg : EventArg) : Child :=
  (cp.listenersOf name).foldl (fun cp l ↦ cp.call arg l) cp

def Child.emitData (stream : Stream) (cp : Child) (text : JsString) : Child :=
  (cp.record (.data stream text)).emit (.data stream) (.chunk text)

def Child.emitExit (cp : Child) (code : Int) : Child := (cp.record (.exit code)).emit .exit (.code code)

def Child.emitClose (cp : Child) (code : Int) : Child :=
  (cp.record (.close code)).emit .close (.code code)

/-! ## Polling -/

/-- The chunks read from the two pipes, decoded, before a read of each returns null. -/
structure Reads where
  stdout : List JsString
  stderr : List JsString

def Child.drain (cp : Child) (reads : Reads) : Child :=
  let cp := if cp.stdout.isSome then reads.stdout.foldl (Child.emitData .stdout) cp else cp
  if cp.stderr.isSome then reads.stderr.foldl (Child.emitData .stderr) cp else cp

def Child.closeStdout (cp : Child) : Child :=
  match cp.stdout with
  | none => cp
  | some fd => { cp.record (.closePipe fd) with stdout := none }

def Child.closeStderr (cp : Child) : Child :=
  match cp.stderr with
  | none => cp
  | some fd => { cp.record (.closePipe fd) with stderr := none }

def Child.closeAll (cp : Child) : Child := cp.stdinEnd.closeStdout.closeStderr

/-- What one poll finds: the chunks of its first drain, the status `_pollProcess` reports, and the
chunks of the drain after the exit. -/
structure PollInput where
  before : Reads
  status : Option Int
  after : Reads

def Child.finish (cp : Child) (code : Int) (after : Reads) : Child :=
  let cp := { cp.record (.reaped code) with exited := true, exitCode := some code }
  let cp := cp.drain after
  let cp := cp.emitExit code
  let cp := cp.closeAll
  cp.emitClose code

def Child.poll (cp : Child) (input : PollInput) : Child :=
  if cp.exited then cp
  else
    let cp := cp.drain input.before
    match input.status with
    | some code => cp.finish code input.after
    | none => { cp with timers := cp.timers + 1 }

/-- The fields the constructor sets. -/
def Child.initial (raw : Raw) : Child where
  raw := raw
  stdin := raw.stdin
  stdout := raw.stdout
  stderr := raw.stderr
  exited := false
  exitCode := none
  killed := false
  listeners := []
  stdoutStr := []
  stderrStr := []
  timers := 0
  log := []

/-- The constructor ends with a poll, which comes before any listener can be attached. -/
def childProcess (raw : Raw) (first : PollInput) : Child := (Child.initial raw).poll first

/-- One turn of the event loop: user code, or a pending timer of the child. -/
inductive Turn
  | user (action : UserAction)
  | on (name : EventName) (actions : List UserAction)
  | timer (input : PollInput)

def Child.turn (cp : Child) : Turn → Child
  | .user action => cp.act action
  | .on name actions => cp.on name (.user actions)
  | .timer input =>
    if cp.timers = 0 then cp else ({ cp with timers := cp.timers - 1 } : Child).poll input

/-! ## What user code cannot change -/

/-- The events of a child's life. -/
def Event.isLife : Event → Bool
  | .reaped _ | .data _ _ | .exit _ | .close _ => true
  | _ => false

def Event.isData : Event → Bool
  | .data _ _ => true
  | _ => false

def Event.closed : Event → Option Nat
  | .closePipe fd => some fd
  | _ => none

def Child.life (cp : Child) : List Event := cp.log.filter Event.isLife

/-- The descriptors passed to `_closePipe`, then those still open. -/
def Child.descriptors (cp : Child) : List Nat :=
  cp.log.filterMap Event.closed ++ (cp.stdin.toList ++ cp.stdout.toList ++ cp.stderr.toList)

def Raw.descriptors (raw : Raw) : List Nat :=
  raw.stdin.toList ++ raw.stdout.toList ++ raw.stderr.toList

/-- What neither user code nor a drain changes: both close a descriptor at most once, and only that
of stdin. -/
structure Kept (cp cp' : Child) : Prop where
  raw : cp'.raw = cp.raw
  stdin : cp.stdin = none → cp'.stdin = none
  stdout : cp'.stdout = cp.stdout
  stderr : cp'.stderr = cp.stderr
  exited : cp'.exited = cp.exited
  timers : cp'.timers = cp.timers
  listeners : cp'.listeners = cp.listeners
  descriptors : cp'.descriptors.Perm cp.descriptors

theorem Kept.refl (cp : Child) : Kept cp cp :=
  ⟨rfl, id, rfl, rfl, rfl, rfl, rfl, .refl _⟩

theorem Kept.trans {cp cp' cp'' : Child} (h : Kept cp cp') (h' : Kept cp' cp'') : Kept cp cp'' where
  raw := h'.raw.trans h.raw
  stdin hstdin := h'.stdin (h.stdin hstdin)
  stdout := h'.stdout.trans h.stdout
  stderr := h'.stderr.trans h.stderr
  exited := h'.exited.trans h.exited
  timers := h'.timers.trans h.timers
  listeners := h'.listeners.trans h.listeners
  descriptors := h'.descriptors.trans h.descriptors

/-- User code adds no event of the child's life. -/
structure Quiet (cp cp' : Child) : Prop extends Kept cp cp' where
  life : cp'.life = cp.life

theorem Quiet.refl (cp : Child) : Quiet cp cp := ⟨Kept.refl cp, rfl⟩

theorem Quiet.trans (cp cp' cp'' : Child) (h : Quiet cp cp') (h' : Quiet cp' cp'') :
    Quiet cp cp'' :=
  ⟨h.toKept.trans h'.toKept, h'.life.trans h.life⟩

theorem Child.life_record (cp : Child) (e : Event) :
    (cp.record e).life = if e.isLife then cp.life ++ [e] else cp.life := by
  unfold Child.life Child.record
  rw [List.filter_append]
  cases hlife : e.isLife <;> simp [hlife]

theorem Kept.record (cp : Child) {e : Event} (hclosed : e.closed = none) : Kept cp (cp.record e) := by
  refine ⟨rfl, id, rfl, rfl, rfl, rfl, rfl, ?_⟩
  simp [Child.descriptors, Child.record, hclosed]

theorem Quiet.record (cp : Child) {e : Event} (hlife : e.isLife = false)
    (hclosed : e.closed = none) : Quiet cp (cp.record e) := by
  refine ⟨Kept.record cp hclosed, ?_⟩
  rw [Child.life_record, hlife]
  rfl

theorem Quiet.stdinEnd (cp : Child) : Quiet cp cp.stdinEnd := by
  unfold Child.stdinEnd
  cases hstdin : cp.stdin with
  | none => exact Quiet.refl cp
  | some fd =>
    refine ⟨⟨rfl, fun _ ↦ rfl, rfl, rfl, rfl, rfl, rfl, ?_⟩, Child.life_record cp (.closePipe fd)⟩
    simp [Child.descriptors, Child.record, hstdin, Event.closed]

theorem Quiet.act (cp : Child) (action : UserAction) : Quiet cp (cp.act action) := by
  cases action with
  | stdinWrite data =>
    show Quiet cp (cp.stdinWrite data)
    unfold Child.stdinWrite
    cases cp.stdin with
    | none => exact Quiet.refl cp
    | some fd => exact Quiet.record cp rfl rfl
  | stdinEnd => exact Quiet.stdinEnd cp
  | kill =>
    have hrecord := Quiet.record cp (e := .killProcess cp.raw.pid) rfl rfl
    exact ⟨⟨hrecord.raw, hrecord.stdin, hrecord.stdout, hrecord.stderr, hrecord.exited,
      hrecord.timers, hrecord.listeners, hrecord.descriptors⟩, hrecord.life⟩

theorem Quiet.call (arg : EventArg) (cp : Child) (l : Listener) : Quiet cp (cp.call arg l) := by
  cases l with
  | user actions => exact Runs.foldl_keeps Quiet.refl Quiet.trans Quiet.act cp actions
  | collect stream =>
    cases arg with
    | chunk text => cases stream <;> exact ⟨⟨rfl, id, rfl, rfl, rfl, rfl, rfl, .refl _⟩, rfl⟩
    | code code => exact Quiet.refl cp
  | callback =>
    cases arg with
    | chunk text => exact Quiet.refl cp
    | code code => exact Quiet.record cp rfl rfl

theorem Quiet.emit (cp : Child) (name : EventName) (arg : EventArg) : Quiet cp (cp.emit name arg) :=
  Runs.foldl_keeps Quiet.refl Quiet.trans (Quiet.call arg) cp _

/-! ## What a drain adds -/

def AllData (es : List Event) : Prop := ∀ e ∈ es, e.isData = true

theorem AllData.append {es es' : List Event} (h : AllData es) (h' : AllData es') :
    AllData (es ++ es') := by
  intro e he
  rcases List.mem_append.mp he with he | he
  · exact h e he
  · exact h' e he

/-- A drain adds `data` events. -/
structure Drained (cp cp' : Child) : Prop extends Kept cp cp' where
  life : ∃ es, AllData es ∧ cp'.life = cp.life ++ es

theorem Quiet.drained {cp cp' : Child} (h : Quiet cp cp') : Drained cp cp' := by
  refine ⟨h.toKept, [], ?_, ?_⟩
  · intro e he
    cases he
  · rw [h.life, List.append_nil]

theorem Drained.refl (cp : Child) : Drained cp cp := (Quiet.refl cp).drained

theorem Drained.trans (cp cp' cp'' : Child) (h : Drained cp cp') (h' : Drained cp' cp'') :
    Drained cp cp'' := by
  obtain ⟨es, hes, hlife⟩ := h.life
  obtain ⟨es', hes', hlife'⟩ := h'.life
  refine ⟨h.toKept.trans h'.toKept, es ++ es', hes.append hes', ?_⟩
  rw [hlife', hlife, List.append_assoc]

theorem Drained.emitData (stream : Stream) (cp : Child) (text : JsString) :
    Drained cp (cp.emitData stream text) := by
  have hrecord : Drained cp (cp.record (.data stream text)) := by
    refine ⟨Kept.record cp rfl, [.data stream text], ?_, Child.life_record cp _⟩
    intro e he
    rw [List.mem_singleton.mp he]
    rfl
  exact hrecord.trans _ _ _ (Quiet.emit _ _ _).drained

theorem Drained.drain (cp : Child) (reads : Reads) : Drained cp (cp.drain reads) := by
  have hloop : ∀ stream texts cp, Drained cp (List.foldl (Child.emitData stream) cp texts) :=
    fun stream texts cp ↦
      Runs.foldl_keeps Drained.refl Drained.trans (Drained.emitData stream) cp texts
  have hopen : ∀ (fd : Option Nat) stream texts cp,
      Drained cp (if fd.isSome then List.foldl (Child.emitData stream) cp texts else cp) := by
    intro fd stream texts cp
    split
    · exact hloop stream texts cp
    · exact Drained.refl cp
  exact Drained.trans _ _ _ (hopen cp.stdout .stdout reads.stdout cp)
    (hopen _ .stderr reads.stderr _)

/-! ## The end of a child -/

theorem Child.closeAll_life (cp : Child) : cp.closeAll.life = cp.life := by
  have hstdout : ∀ cp : Child, cp.closeStdout.life = cp.life := by
    intro cp
    unfold Child.closeStdout
    cases cp.stdout with
    | none => rfl
    | some fd => exact Child.life_record cp (.closePipe fd)
  have hstderr : ∀ cp : Child, cp.closeStderr.life = cp.life := by
    intro cp
    unfold Child.closeStderr
    cases cp.stderr with
    | none => rfl
    | some fd => exact Child.life_record cp (.closePipe fd)
  rw [Child.closeAll, hstderr, hstdout, (Quiet.stdinEnd cp).life]

-- Every descriptor still open is closed, none twice.
theorem Child.closeAll_descriptors (cp : Child) :
    cp.closeAll.log.filterMap Event.closed = cp.descriptors := by
  unfold Child.closeAll Child.closeStderr Child.closeStdout Child.stdinEnd Child.descriptors
  cases hin : cp.stdin <;> cases hout : cp.stdout <;> cases herr : cp.stderr <;>
    simp [hin, hout, herr, Child.record, Event.closed]

theorem Child.closeAll_open (cp : Child) :
    cp.closeAll.stdin = none ∧ cp.closeAll.stdout = none ∧ cp.closeAll.stderr = none := by
  unfold Child.closeAll Child.closeStderr Child.closeStdout Child.stdinEnd
  cases hin : cp.stdin <;> cases hout : cp.stdout <;> cases herr : cp.stderr <;>
    simp [hin, hout, herr, Child.record]

theorem Child.closeAll_exited (cp : Child) : cp.closeAll.exited = cp.exited := by
  have hstdout : ∀ cp : Child, cp.closeStdout.exited = cp.exited := by
    intro cp
    unfold Child.closeStdout
    cases cp.stdout <;> rfl
  have hstderr : ∀ cp : Child, cp.closeStderr.exited = cp.exited := by
    intro cp
    unfold Child.closeStderr
    cases cp.stderr <;> rfl
  rw [Child.closeAll, hstderr, hstdout, (Quiet.stdinEnd cp).exited]

theorem Child.closeAll_raw (cp : Child) : cp.closeAll.raw = cp.raw := by
  unfold Child.closeAll Child.closeStderr Child.closeStdout Child.stdinEnd
  cases hin : cp.stdin <;> cases hout : cp.stdout <;> cases herr : cp.stderr <;>
    simp [hin, hout, herr, Child.record]

theorem Child.closeAll_listeners (cp : Child) : cp.closeAll.listeners = cp.listeners := by
  unfold Child.closeAll Child.closeStderr Child.closeStdout Child.stdinEnd
  cases hin : cp.stdin <;> cases hout : cp.stdout <;> cases herr : cp.stderr <;>
    simp [hin, hout, herr, Child.record]

/-- The whole life of a child that exited: its output, the exit, then `exit` and `close`. -/
def Ended (raw : Raw) (cp : Child) : Prop :=
  (∃ code before after, AllData before ∧ AllData after ∧
    cp.life = before ++ [.reaped code] ++ after ++ [.exit code, .close code]) ∧
  (cp.log.filterMap Event.closed).Perm raw.descriptors ∧
  cp.stdin = none ∧ cp.stdout = none ∧ cp.stderr = none

theorem Ended.quiet {raw : Raw} {cp cp' : Child} (h : Ended raw cp) (hquiet : Quiet cp cp') :
    Ended raw cp' := by
  obtain ⟨⟨code, before, after, hbefore, hafter, hlife⟩, hclosed, hin, hout, herr⟩ := h
  have hin' := hquiet.stdin hin
  have hout' := hquiet.stdout.trans hout
  have herr' := hquiet.stderr.trans herr
  have hperm := hquiet.descriptors
  simp only [Child.descriptors, hin, hout, herr, hin', hout', herr', Option.toList_none,
    List.append_nil] at hperm
  exact ⟨⟨code, before, after, hbefore, hafter, hquiet.life.trans hlife⟩, hperm.trans hclosed, hin',
    hout', herr'⟩

/-- What holds of a child whose exit no poll has reported yet. -/
structure Running (handed : Raw) (cp : Child) : Prop where
  raw : cp.raw = handed
  exited : cp.exited = false
  life : AllData cp.life
  descriptors : cp.descriptors.Perm handed.descriptors

theorem Running.drained {raw : Raw} {cp cp' : Child} (h : Running raw cp)
    (hdrained : Drained cp cp') : Running raw cp' := by
  obtain ⟨es, hes, hlife⟩ := hdrained.life
  refine ⟨hdrained.raw.trans h.raw, hdrained.exited.trans h.exited, ?_,
    hdrained.descriptors.trans h.descriptors⟩
  rw [hlife]
  exact h.life.append hes

theorem Child.finish_exited (cp : Child) (code : Int) (after : Reads) :
    (cp.finish code after).exited = true := by
  let reaped : Child := { cp.record (.reaped code) with exited := true, exitCode := some code }
  have hexit : ((reaped.drain after).emitExit code).exited = true :=
    (Quiet.emit _ _ _).exited.trans (Drained.drain reaped after).exited
  exact (Quiet.emit _ _ _).exited.trans ((Child.closeAll_exited _).trans hexit)

theorem Running.finish {raw : Raw} {cp : Child} (h : Running raw cp) (code : Int) (after : Reads) :
    Ended raw (cp.finish code after) := by
  let reaped : Child := { cp.record (.reaped code) with exited := true, exitCode := some code }
  have hreaped : reaped.life = cp.life ++ [.reaped code] := Child.life_record cp _
  have hdescriptors : reaped.descriptors.Perm raw.descriptors :=
    (Kept.record cp (e := .reaped code) rfl).descriptors.trans h.descriptors
  have hdrain := Drained.drain reaped after
  obtain ⟨es, hes, hlife⟩ := hdrain.life
  have hexit : Kept (reaped.drain after) ((reaped.drain after).emitExit code) :=
    (Kept.record _ rfl).trans (Quiet.emit _ _ _).toKept
  have hexitLife : ((reaped.drain after).emitExit code).life =
      (reaped.drain after).life ++ [.exit code] :=
    (Quiet.emit _ _ _).life.trans (Child.life_record _ _)
  let closed := ((reaped.drain after).emitExit code).closeAll
  have hclosed := Child.closeAll_open ((reaped.drain after).emitExit code)
  have hended : Ended raw (closed.record (.close code)) := by
    refine ⟨⟨code, cp.life, es, h.life, hes, ?_⟩, ?_, hclosed⟩
    · rw [Child.life_record]
      show ((reaped.drain after).emitExit code).closeAll.life ++ [Event.close code] = _
      rw [Child.closeAll_life, hexitLife, hlife, hreaped]
      simp only [List.append_assoc, List.singleton_append]
    · show (List.filterMap Event.closed (closed.log ++ [.close code])).Perm raw.descriptors
      rw [List.filterMap_append, Child.closeAll_descriptors]
      simp only [List.filterMap_cons, List.filterMap_nil, Event.closed, List.append_nil]
      exact (hexit.descriptors.trans hdrain.descriptors).trans hdescriptors
  have hquiet : Quiet (closed.record (.close code)) (cp.finish code after) := Quiet.emit _ _ _
  exact hended.quiet hquiet

/-- A child is running, or it has ended. -/
def Sound (raw : Raw) (cp : Child) : Prop := Running raw cp ∨ (cp.exited = true ∧ Ended raw cp)

theorem Running.poll {raw : Raw} {cp : Child} (h : Running raw cp) (input : PollInput) :
    Sound raw (cp.poll input) := by
  have hdrain := h.drained (Drained.drain cp input.before)
  rw [Child.poll, h.exited, if_neg Bool.false_ne_true]
  cases input.status with
  | none => exact .inl ⟨hdrain.raw, hdrain.exited, hdrain.life, hdrain.descriptors⟩
  | some code => exact .inr ⟨Child.finish_exited _ _ _, hdrain.finish code input.after⟩

theorem Sound.turn {raw : Raw} {cp : Child} (h : Sound raw cp) (t : Turn) :
    Sound raw (cp.turn t) := by
  cases t with
  | user action =>
    have hquiet := Quiet.act cp action
    rcases h with h | ⟨hexited, hended⟩
    · exact .inl (h.drained hquiet.drained)
    · exact .inr ⟨hquiet.exited.trans hexited, hended.quiet hquiet⟩
  | on name actions =>
    rcases h with h | ⟨hexited, hended⟩
    · exact .inl ⟨h.raw, h.exited, h.life, h.descriptors⟩
    · exact .inr ⟨hexited, hended⟩
  | timer input =>
    show Sound raw (if cp.timers = 0 then cp
      else ({ cp with timers := cp.timers - 1 } : Child).poll input)
    by_cases hnone : cp.timers = 0
    · rw [if_pos hnone]
      exact h
    · rw [if_neg hnone]
      rcases h with h | ⟨hexited, hended⟩
      · have hfired : Running raw ({ cp with timers := cp.timers - 1 } : Child) :=
          ⟨h.raw, h.exited, h.life, h.descriptors⟩
        exact hfired.poll input
      · -- a child that has exited is not polled again
        rw [Child.poll, if_pos hexited]
        exact .inr ⟨hexited, hended⟩

theorem childProcess_sound (raw : Raw) (first : PollInput) : Sound raw (childProcess raw first) := by
  apply Running.poll
  refine ⟨rfl, rfl, ?_, ?_⟩
  · intro e he
    cases he
  · exact .refl _

theorem run_sound (raw : Raw) (first : PollInput) (turns : List Turn) :
    Sound raw (turns.foldl Child.turn (childProcess raw first)) := by
  exact List.foldlRecOn (motive := Sound raw) turns Child.turn (childProcess_sound raw first)
    fun _ h t _ ↦ h.turn t

/-- In every run, once a poll has found the child reaped, its events are its output, the reaping, the
rest of its output, one `exit` and one `close`, in this order, and the descriptors passed to
`_closePipe` are those handed to the constructor, each once. -/
theorem reaped_child_events (raw : Raw) (first : PollInput) (turns : List Turn) :
    let cp := turns.foldl Child.turn (childProcess raw first)
    ∀ code, Event.reaped code ∈ cp.log →
      (∃ before after, AllData before ∧ AllData after ∧
        cp.life = before ++ [.reaped code] ++ after ++ [.exit code, .close code]) ∧
      (cp.log.filterMap Event.closed).Perm raw.descriptors := by
  intro cp code hreaped
  have hmem : Event.reaped code ∈ cp.life := List.mem_filter.mpr ⟨hreaped, rfl⟩
  rcases run_sound raw first turns with h | ⟨-, ⟨code', before, after, hbefore, hafter, hlife⟩, h⟩
  · exact absurd (h.life _ hmem) Bool.false_ne_true
  · have hcode : code = code' := by
      have hmem' := hmem
      rw [show cp.life = _ from hlife] at hmem'
      simp only [List.append_assoc, List.mem_append, List.mem_cons, List.not_mem_nil, or_false,
        Event.reaped.injEq, reduceCtorEq] at hmem'
      rcases hmem' with h | h | h
      · exact absurd (hbefore _ h) Bool.false_ne_true
      · exact h
      · exact absurd (hafter _ h) Bool.false_ne_true
    subst hcode
    exact ⟨⟨before, after, hbefore, hafter, hlife⟩, h.1⟩

/-- A child that writes one chunk, whose stdin is ended by a `data` listener, and that exits at the
second poll. -/
theorem reaped_child_events_two_polls :
    let cp := List.foldl Child.turn
      (childProcess ⟨7, some 3, some 4, none⟩ ⟨⟨[], []⟩, none, ⟨[], []⟩⟩)
      [.on (.data .stdout) [.stdinEnd, .kill], .timer ⟨⟨[[104, 105]], []⟩, some 2, ⟨[], []⟩⟩]
    (∃ before after, AllData before ∧ AllData after ∧
      cp.life = before ++ [.reaped 2] ++ after ++ [.exit 2, .close 2]) ∧
    (cp.log.filterMap Event.closed).Perm [3, 4] :=
  reaped_child_events ⟨7, some 3, some 4, none⟩ ⟨⟨[], []⟩, none, ⟨[], []⟩⟩
    [.on (.data .stdout) [.stdinEnd, .kill], .timer ⟨⟨[[104, 105]], []⟩, some 2, ⟨[], []⟩⟩] 2
    (by decide)

end QNode.ChildProcess
