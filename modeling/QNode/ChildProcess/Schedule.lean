import QNode.ChildProcess.Events
import QNode.ChildProcess.WaitStatus

/-!
# Parent, child and kernel, interleaved

One step of the code at a time: each read of a pipe, each `_pollProcess` and each emit of a poll is a
step of its own, the child writes and ends between them, and user code runs wherever the parent calls
listeners.
-/

open QNode.Engine

namespace QNode.ChildProcess.Schedule

/-! ## State -/

/-- Whom a pid denotes. -/
inductive Holder
  | child
  | other (process : Nat)
  deriving DecidableEq, Repr

/-- The child as the kernel sees it.  Reaping it frees its pid, which another process may get. -/
inductive ChildState
  | running
  | ended (code : Int)
  | reaped (pidOf : Option Nat)
  deriving DecidableEq, Repr

def ChildState.holder : ChildState → Option Holder
  | .running | .ended _ => some .child
  | .reaped pidOf => pidOf.map .other

/-- Where the parent's code stands.  `ended` is the exit code in the drain after an exit; the code that
calls `spawn` goes on at `spawned`, and at `idle` the event loop waits. -/
inductive Control
  | read (ended : Option Int) (stream : Stream)
  | data (ended : Option Int) (stream : Stream)
  | poll
  | exit (code : Int)
  | close
  | spawned
  | idle
  deriving DecidableEq, Repr

structure Chunk where
  inConstructor : Bool
  stream : Stream
  bytes : List UInt8
  deriving DecidableEq, Repr

/-- A `data` listener and the chunks it was called with; `prompt` if the code that called `spawn`
attached it before it returned to the event loop. -/
structure DataListener where
  stream : Stream
  prompt : Bool
  received : List (List UInt8)
  deriving DecidableEq, Repr

/-- `written` is all the child wrote to a pipe and `pipe` what no read has taken yet; `signals` says
for each signal whom the pid denoted when it was sent. -/
structure World where
  child : Child
  process : ChildState
  control : Control
  constructing : Bool
  pipe : Stream → List UInt8
  written : Stream → List UInt8
  chunks : List Chunk
  listeners : List DataListener
  signals : List (Option Holder)

def Raw.fd (raw : Raw) : Stream → Option Nat
  | .stdout => raw.stdout
  | .stderr => raw.stderr

def fdOf (cp : Child) : Stream → Option Nat
  | .stdout => cp.stdout
  | .stderr => cp.stderr

/-- No listener exists while the constructor runs. -/
def World.userRuns (w : World) : Bool :=
  match w.control with
  | .spawned | .idle => true
  | .data _ _ | .exit _ | .close => !w.constructing
  | .read _ _ | .poll => false

/-- The state at the constructor's call of `_poll`. -/
def World.start (raw : Raw) : World where
  child := Child.initial raw
  process := .running
  control := .read none .stdout
  constructing := true
  pipe := fun _ ↦ []
  written := fun _ ↦ []
  chunks := []
  listeners := []
  signals := []

/-! ## The parent's code -/

section

variable (platform : Platform) (decodeOutput : List UInt8 → JsString)

def endPoll (w : World) : World :=
  if w.constructing then { w with control := .spawned, constructing := false }
  else { w with control := .idle }

/-- A read that returned null ends the loop of its stream. -/
def afterStream (w : World) : Option Int → Stream → World
  | ended, .stdout => { w with control := .read ended .stderr }
  | none, .stderr => { w with control := .poll }
  | some code, .stderr => { w with child := w.child.record (.exit code), control := .exit code }

def deliver (stream : Stream) (bytes : List UInt8) (l : DataListener) : DataListener :=
  if l.stream = stream then { l with received := l.received ++ [bytes] } else l

def takeChunk (w : World) (ended : Option Int) (stream : Stream) (bytes : List UInt8) : World :=
  { w with
    child := w.child.record (.data stream (decodeOutput bytes))
    control := .data ended stream
    pipe := Function.update w.pipe stream ((w.pipe stream).drop bytes.length)
    chunks := w.chunks ++ [⟨w.constructing, stream, bytes⟩]
    listeners := w.listeners.map (deliver stream bytes) }

/-- One read of `_drain`; it returns at most 65536 bytes, and `n + 1` are at hand. -/
def readStep (n : Nat) (w : World) (ended : Option Int) (stream : Stream) : World :=
  if (fdOf w.child stream).isSome ∧ w.pipe stream ≠ [] then
    takeChunk decodeOutput w ended stream ((w.pipe stream).take (min (n + 1) 65536))
  else afterStream w ended stream

/-- What `_pollProcess` reports.  `GetExitCodeProcess` says 259 of a process that is running. -/
def exitReport (w : World) : Option Int :=
  match w.process with
  | .ended code => if platform = .windows ∧ code = stillActive.toInt then none else some code
  | .running | .reaped _ => none

/-- `waitpid` reaps the child; on Windows the handle, which is never closed, keeps its pid. -/
def reap (w : World) (code : Int) : World :=
  { w with
    child := { w.child.record (.reaped code) with exited := true, exitCode := some code }
    process := if platform = .unix then .reaped none else w.process
    control := .read (some code) .stdout }

def rearm (w : World) : World :=
  endPoll { w with child := { w.child with timers := w.child.timers + 1 } }

def pollStep (w : World) : World :=
  match exitReport platform w with
  | some code => reap platform w code
  | none => rearm w

def parentStep (n : Nat) (w : World) : World :=
  match w.control with
  | .read ended stream => readStep decodeOutput n w ended stream
  | .data ended stream => { w with control := .read ended stream }
  | .poll => pollStep platform w
  | .exit code => { w with child := w.child.closeAll.record (.close code), control := .close }
  | .close => endPoll w
  | .spawned => { w with control := .idle }
  | .idle => w

/-! ## Steps -/

inductive Act
  | write (stream : Stream) (bytes : List UInt8)
  | ends (code : Int)
  | reuse (process : Nat)
  | user (action : UserAction)
  | listen (stream : Stream)
  | timer
  | parent (n : Nat)
  deriving DecidableEq, Repr

def userStep (w : World) (action : UserAction) : World :=
  { w with
    child := w.child.act action
    signals := if action = .kill then w.signals ++ [w.process.holder] else w.signals }

def timerStep (w : World) : World :=
  if w.child.timers = 0 then w
  else
    { w with
      child := { w.child with timers := w.child.timers - 1 }
      control := if w.child.exited then .idle else .read none .stdout }

/-- An act that cannot happen in a state changes nothing. -/
def step (w : World) : Act → World
  | .write stream bytes =>
    if w.process = .running ∧ (Raw.fd w.child.raw stream).isSome then
      { w with
        pipe := Function.update w.pipe stream (w.pipe stream ++ bytes)
        written := Function.update w.written stream (w.written stream ++ bytes) }
    else w
  | .ends code => if w.process = .running then { w with process := .ended code } else w
  | .reuse process =>
    match w.process with
    | .reaped _ => { w with process := .reaped (some process) }
    | .running | .ended _ => w
  | .user action => if w.userRuns then userStep w action else w
  | .listen stream =>
    if w.userRuns ∧ (Raw.fd w.child.raw stream).isSome then
      { w with listeners := w.listeners ++ [⟨stream, w.control = .spawned, []⟩] }
    else w
  | .timer => if w.control = .idle then timerStep w else w
  | .parent n => parentStep platform decodeOutput n w

def run (raw : Raw) (acts : List Act) : World :=
  acts.foldl (step platform decodeOutput) (World.start raw)

end

end QNode.ChildProcess.Schedule
