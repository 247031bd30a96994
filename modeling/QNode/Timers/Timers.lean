import Mathlib.Logic.Function.Basic
import QNode.Library.Words

/-!
# Timers

The global timer functions over the timers of the `os` layer.  User code runs in the script, in a
callback, and in the conversion of the delay that is given to `_set`.
-/

namespace QNode.Timers

/-- What `_set` is called with: the wrapper of a callback, or the `tick` of the `h`-th interval. -/
inductive Func where
  | timeout
  | immediate
  | tick (h : Nat)
deriving DecidableEq, Repr

structure JSOSTimer where
  timerId : Nat
  func : Func
deriving DecidableEq, Repr

/-- The object that `setInterval` returns: `{ _id, _active }`. -/
structure Interval where
  id : Nat
  active : Bool
deriving DecidableEq, Repr

inductive Handle where
  | timeout (id : Nat)
  | immediate (id : Nat)
  | interval (h : Nat)
deriving DecidableEq, Repr

/-- A call in progress.  `setting` is `_set` before its delay is converted; for `tick` it is called by
`setInterval` or by `tick` itself. -/
inductive Frame where
  | script
  | callback (handle : Handle)
  | setting (func : Func)
deriving DecidableEq, Repr

/-- `intervals` are the objects that `setInterval` has made or will make, the next one being `made`.
`created` lists the functions of all timers so far. -/
structure State where
  nextTimerId : Nat
  osTimers : List JSOSTimer
  intervals : Nat → Interval
  made : Nat
  stack : List Frame
  created : List Func

def start : State := ⟨1, [], fun _ ↦ ⟨0, true⟩, 0, [], []⟩

/-- The handle that the caller of `setTimeout`, `setImmediate` or `setInterval` has for the timer. -/
def JSOSTimer.handle (th : JSOSTimer) : Handle :=
  match th.func with
  | .timeout => .timeout th.timerId
  | .immediate => .immediate th.timerId
  | .tick h => .interval h

namespace State

def codeRuns (s : State) : Bool := !s.stack.isEmpty

/-! ## The `os` layer -/

def jsOsSetTimeout (s : State) (func : Func) : State :=
  { s with
    osTimers := s.osTimers ++ [⟨s.nextTimerId, func⟩]
    nextTimerId := if s.nextTimerId = 2 ^ 31 - 1 then 1 else s.nextTimerId + 1
    created := s.created ++ [func] }

/-- The position in `osTimers`. -/
def findTimerById (s : State) (timerId : Int) : Option Nat :=
  if timerId ≤ 0 then none else s.osTimers.findIdx? fun th ↦ (th.timerId : Int) == timerId

def freeTimer (s : State) (i : Nat) : State := { s with osTimers := s.osTimers.eraseIdx i }

def jsOsClearTimeout (s : State) (timerId : Int) : State :=
  match s.findTimerById timerId with
  | none => s
  | some i => s.freeTimer i

/-- `tick` of an interval that was cleared returns at once. -/
def callHandler (s : State) (th : JSOSTimer) : State :=
  match th.func with
  | .tick h => if (s.intervals h).active then
      { s with stack := .callback th.handle :: s.stack } else s
  | _ => { s with stack := .callback th.handle :: s.stack }

/-- The `i`-th timer has expired; it is freed before its function is called. -/
def jsOsPoll (s : State) (i : Nat) : State :=
  match s.osTimers[i]? with
  | none => s
  | some th => (s.freeTimer i).callHandler th

/-! ## The global functions -/

def setId (s : State) (h id : Nat) : State :=
  { s with intervals := Function.update s.intervals h { s.intervals h with id := id } }

def deactivate (s : State) (h : Nat) : State :=
  { s with intervals := Function.update s.intervals h { s.intervals h with active := false } }

/-- `_set` with the delay converted, and what its caller does with the id. -/
def arm (s : State) : Func → State
  | .tick h => (s.jsOsSetTimeout (.tick h)).setId h s.nextTimerId
  | func => s.jsOsSetTimeout func

def setTimeout (s : State) : State := { s with stack := .setting .timeout :: s.stack }

def setImmediate (s : State) : State := s.arm .immediate

def setInterval (s : State) : State :=
  { s with made := s.made + 1, stack := .setting (.tick s.made) :: s.stack }

end State

inductive ClearFunction where
  | timeout
  | immediate
  | interval
deriving DecidableEq, Repr

/-- What a clear function is called with: a value that converts to the number `n`, or the object of an
interval. -/
inductive ClearArg where
  | number (n : Int)
  | interval (h : Nat)
deriving DecidableEq, Repr

/-- An object converts to NaN. -/
def ClearArg.toInt32 : ClearArg → Int
  | .number n => Word.int32 n
  | .interval _ => 0

inductive Act where
  /-- The host runs code that is no timer callback: the script, a job, a handler of another event. -/
  | script
  /-- A timer expires; `fire i` is about the `i`-th one. -/
  | fire (i : Nat)
  | setTimeout
  | setImmediate
  | setInterval
  | clear (f : ClearFunction) (arg : ClearArg)
  /-- The innermost call goes on: code, a callback or a conversion has returned. -/
  | ret
  /-- The innermost call ends with an exception. -/
  | throw
deriving DecidableEq, Repr

namespace State

/-- Code has the object of an interval only after `setInterval` has returned it. -/
def has (s : State) : ClearArg → Bool
  | .number _ => true
  | .interval h => (s.intervals h).id != 0

def clear (s : State) : ClearFunction → ClearArg → State
  | .interval, .interval h => (s.deactivate h).jsOsClearTimeout (s.intervals h).id
  | _, arg => s.jsOsClearTimeout arg.toInt32

/-- After its callback an active interval sets its timer again. -/
def ret (s : State) : State :=
  match s.stack with
  | [] => s
  | .setting func :: stack => { s with stack := stack }.arm func
  | .callback (.interval h) :: stack =>
    if (s.intervals h).active then { s with stack := .setting (.tick h) :: stack }
    else { s with stack := stack }
  | _ :: stack => { s with stack := stack }

/-- `call_handler` prints the exception of a callback; that of a conversion goes to the caller of
`_set`. -/
def throw (s : State) : State := { s with stack := s.stack.tail }

def step (s : State) : Act → State
  | .script => if s.codeRuns then s else { s with stack := [.script] }
  | .fire i => if s.codeRuns then s else s.jsOsPoll i
  | .setTimeout => if s.codeRuns then s.setTimeout else s
  | .setImmediate => if s.codeRuns then s.setImmediate else s
  | .setInterval => if s.codeRuns then s.setInterval else s
  | .clear f arg => if s.codeRuns && s.has arg then s.clear f arg else s
  | .ret => s.ret
  | .throw => s.throw

end State

def run (acts : List Act) : State := acts.foldl State.step start

end QNode.Timers
