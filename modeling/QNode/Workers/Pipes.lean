import Mathlib.Logic.Function.Basic
import QNode.Library.Ledger

/-!
# Workers and their message pipes

The threads of a process and what they share: the message pipes and the memory of the shared array buffers.
A call that a thread is in is a list of tasks, the next one first; a task is what the thread does between
two accesses to shared memory.  What the programs of the threads do is left open.  Threads and pipes have
numbers; no pipe gets the number of another, and number 0 is the null pointer.
-/

namespace QNode.Workers

open Function

structure JSWorkerMessage where
  data : List UInt8
  sabTab : List UInt64
  deriving DecidableEq, Repr

/-- `mutex` is the thread that has locked it, `waker` the number of bytes in the pipe of the waker.  `posted`
and `taken` are the messages that were linked and unlinked so far; no thread reads them. -/
structure JSWorkerMessagePipe where
  refCount : Nat
  mutex : Option Nat
  msgQueue : List JSWorkerMessage
  waker : Nat
  freed : Bool
  posted : List JSWorkerMessage
  taken : List JSWorkerMessage
  deriving DecidableEq, Repr

/-- No memory. -/
def JSWorkerMessagePipe.none : JSWorkerMessagePipe := ⟨0, .none, [], 0, true, [], []⟩

/-- `js_new_message_pipe` -/
def jsNewMessagePipe : JSWorkerMessagePipe := ⟨1, .none, [], 0, false, [], []⟩

/-- A port of a `Worker` object always has a function. -/
structure JSWorkerData where
  recvPipe : Nat
  sendPipe : Nat
  msgHandler : Bool
  deriving DecidableEq, Repr

/-- What a thread does next in a call.  With `args` the new object is that of the constructor. -/
inductive Task
  -- `js_worker_postMessage`, after the message has been written
  | dupSabs (ps : Nat) (msg : JSWorkerMessage) (i : Nat)
  | sendLock (ps : Nat) (msg : JSWorkerMessage)
  | sendSignal (ps : Nat) (msg : JSWorkerMessage)
  | sendLink (ps : Nat) (msg : JSWorkerMessage)
  | unlock (ps : Nat)
  -- `handle_posted_message`
  | recvLock (ps : Nat)
  | recvTake (ps : Nat)
  | recvClear (ps : Nat) (msg : JSWorkerMessage)
  | readObject (msg : JSWorkerMessage) (i : Nat)
  | freeMessage (msg : JSWorkerMessage) (i : Nat)
  -- `js_free_message_pipe`
  | freePipe (ps : Nat)
  | destroyPipe (ps : Nat)
  -- `js_worker_ctor` and `js_worker_ctor_internal`
  | newRecvPipe
  | newSendPipe (recv : Nat)
  | dupRecv (recv send : Nat) (args : Bool)
  | dupSend (recv send : Nat) (args : Bool)
  | createThread (recv send : Nat)
  deriving DecidableEq, Repr

/-- `pipes` are the pipes to and from the parent, in a worker.  `imported` tells that the module `os` has made
`Worker.parent`, `running` that the loop of the thread has not ended.  `buffers` are its objects with shared
memory, by that memory. -/
structure Thread where
  pipes : Option (Nat × Nat)
  imported : Bool
  running : Bool
  buffers : List UInt64
  workers : List JSWorkerData
  tasks : List Task
  deriving DecidableEq, Repr

def Thread.none : Thread := ⟨.none, false, false, [], [], []⟩

def Thread.main : Thread := ⟨.none, false, true, [], [], []⟩

/-- The thread of `worker_func`, with the pipes of its `WorkerFuncArgs`. -/
def Thread.worker (recv send : Nat) : Thread := ⟨some (recv, send), false, true, [], [], []⟩

/-- `sabs` is the `ref_count` in the header of a shared block; where there is no block it is 0. -/
structure World where
  nThreads : Nat
  threads : Nat → Thread
  nPipes : Nat
  pipes : Nat → JSWorkerMessagePipe
  sabs : UInt64 → Nat

def World.init : World :=
  ⟨1, update (fun _ ↦ Thread.none) 0 Thread.main, 1, fun _ ↦ .none, fun _ ↦ 0⟩

/-- What must not happen. -/
inductive Fault
  -- memory is used that has been freed
  | useAfterFree
  -- a mutex is destroyed, or unlocked by a thread that has not locked it
  | mutex
  -- the waker waits for room in its pipe, or for a byte
  | waker
  deriving DecidableEq, Repr

/-- Why a thread takes no step: it has to wait or the event is not one of its own, or something goes wrong. -/
inductive Stop
  | blocked
  | fault (f : Fault)
  deriving DecidableEq, Repr

/-- The room in the pipe of a waker. -/
def pipeCapacity : Nat := 65536

namespace World

def setThread (w : World) (t : Nat) (th : Thread) : World :=
  { w with threads := update w.threads t th }

def setPipe (w : World) (ps : Nat) (pipe : JSWorkerMessagePipe) : World :=
  { w with pipes := update w.pipes ps pipe }

/-- `js_sab_dup` -/
def jsSabDup (w : World) (x : UInt64) : Except Stop World :=
  if w.sabs x = 0 then .error (.fault .useAfterFree)
  else .ok { w with sabs := update w.sabs x (w.sabs x + 1) }

/-- `js_sab_free` -/
def jsSabFree (w : World) (x : UInt64) : Except Stop World :=
  if w.sabs x = 0 then .error (.fault .useAfterFree)
  else .ok { w with sabs := update w.sabs x (w.sabs x - 1) }

/-- The pipe behind a pointer. -/
def pipe (w : World) (ps : Nat) : Except Stop JSWorkerMessagePipe :=
  if (w.pipes ps).freed then .error (.fault .useAfterFree) else .ok (w.pipes ps)

def jsDupMessagePipe (w : World) (ps : Nat) : Except Stop World := do
  let pipe ← w.pipe ps
  return w.setPipe ps { pipe with refCount := pipe.refCount + 1 }

def lock (w : World) (t : Nat) (ps : Nat) : Except Stop World := do
  let pipe ← w.pipe ps
  if pipe.mutex.isSome then .error .blocked
  else return w.setPipe ps { pipe with mutex := some t }

def unlock (w : World) (t : Nat) (ps : Nat) : Except Stop World := do
  let pipe ← w.pipe ps
  if pipe.mutex = some t then return w.setPipe ps { pipe with mutex := .none }
  else .error (.fault .mutex)

end World

/-- `if (list_empty(&ps->msg_queue)) js_waker_signal(&ps->waker);` -/
def signal (pipe : JSWorkerMessagePipe) : Except Stop JSWorkerMessagePipe :=
  if pipe.msgQueue = [] then
    if pipe.waker < pipeCapacity then .ok { pipe with waker := pipe.waker + 1 }
    else .error (.fault .waker)
  else .ok pipe

/-- `if (list_empty(&ps->msg_queue)) js_waker_clear(&ps->waker);` -/
def clear (pipe : JSWorkerMessagePipe) : Except Stop JSWorkerMessagePipe :=
  if pipe.msgQueue = [] then
    if pipe.waker = 0 then .error (.fault .waker)
    else .ok { pipe with waker := pipe.waker - min pipe.waker 16 }
  else .ok pipe

/-- The references that the constructor gives back when it fails. -/
def freeArgs (recv send : Nat) (args : Bool) : List Task :=
  if args then [.freePipe send, .freePipe recv] else []

/-- What `js_worker_finalizer` frees. -/
def JSWorkerData.finalize (worker : JSWorkerData) : List Task :=
  [.freePipe worker.recvPipe, .freePipe worker.sendPipe] ++
    if worker.msgHandler then [.freePipe worker.recvPipe] else []

/-- One task of thread `t`, which goes on with `rest`.  Where memory or a thread is asked for, or a message is
read, it may `fail`. -/
def taskStep (w : World) (t : Nat) (th : Thread) (rest : List Task) (fail : Bool) (task : Task) :
    Except Stop World :=
  -- the tasks of the thread after the step
  let next (w : World) (tasks : List Task) : Except Stop World :=
    .ok (w.setThread t { th with tasks := tasks ++ rest })
  match task with
  | .dupSabs ps msg i =>
    match msg.sabTab[i]? with
    | some x => do next (← w.jsSabDup x) [.dupSabs ps msg (i + 1)]
    | .none => next w [.sendLock ps msg]
  | .sendLock ps msg => do next (← w.lock t ps) [.sendSignal ps msg]
  | .sendSignal ps msg => do next (w.setPipe ps (← signal (← w.pipe ps))) [.sendLink ps msg]
  | .sendLink ps msg => do
    let pipe ← w.pipe ps
    next (w.setPipe ps { pipe with
      msgQueue := pipe.msgQueue ++ [msg]
      posted := pipe.posted ++ [msg] }) [.unlock ps]
  | .unlock ps => do next (← w.unlock t ps) []
  | .recvLock ps => do next (← w.lock t ps) [.recvTake ps]
  | .recvTake ps => do
    let pipe ← w.pipe ps
    match pipe.msgQueue with
    | [] => next w [.unlock ps]
    | msg :: queue =>
      next (w.setPipe ps { pipe with msgQueue := queue, taken := pipe.taken ++ [msg] })
        [.recvClear ps msg]
  | .recvClear ps msg => do
    next (w.setPipe ps (← clear (← w.pipe ps))) [.unlock ps, .readObject msg 0]
  | .readObject msg i =>
    if fail then next w [.freeMessage msg 0]
    else
      match msg.sabTab[i]? with
      | some x => do
        let w ← w.jsSabDup x
        .ok (w.setThread t { th with
          buffers := x :: th.buffers
          tasks := .readObject msg (i + 1) :: rest })
      | .none => next w [.freeMessage msg 0]
  | .freeMessage msg i =>
    match msg.sabTab[i]? with
    | some x => do next (← w.jsSabFree x) [.freeMessage msg (i + 1)]
    | .none => next w []
  | .freePipe ps => do
    let pipe ← w.pipe ps
    if pipe.refCount = 0 then .error (.fault .useAfterFree)
    else
      next (w.setPipe ps { pipe with refCount := pipe.refCount - 1 })
        (if pipe.refCount = 1 then [.destroyPipe ps] else [])
  | .destroyPipe ps => do
    let pipe ← w.pipe ps
    match pipe.msgQueue with
    | msg :: queue =>
      next (w.setPipe ps { pipe with msgQueue := queue }) [.freeMessage msg 0, .destroyPipe ps]
    | [] =>
      if pipe.mutex.isSome then .error (.fault .mutex)
      else next (w.setPipe ps { pipe with freed := true }) []
  | .newRecvPipe =>
    if fail then next w []
    else next { w with
      nPipes := w.nPipes + 1
      pipes := update w.pipes w.nPipes jsNewMessagePipe } [.newSendPipe w.nPipes]
  | .newSendPipe recv =>
    if fail then next w [.freePipe recv]
    else next { w with
      nPipes := w.nPipes + 1
      pipes := update w.pipes w.nPipes jsNewMessagePipe } [.dupRecv w.nPipes recv true]
  | .dupRecv recv send args =>
    if fail then next w (freeArgs recv send args)
    else do next (← w.jsDupMessagePipe recv) [.dupSend recv send args]
  | .dupSend recv send args => do
    let w ← w.jsDupMessagePipe send
    if args then next w [.createThread recv send]
    else .ok (w.setThread t { th with
      workers := ⟨recv, send, false⟩ :: th.workers
      tasks := rest })
  | .createThread recv send =>
    if fail then
      next w (freeArgs recv send true ++ JSWorkerData.finalize ⟨recv, send, false⟩)
    else
      let w := w.setThread t { th with
        workers := ⟨recv, send, false⟩ :: th.workers
        tasks := rest }
      .ok { w with
        nThreads := w.nThreads + 1
        threads := update w.threads w.nThreads (Thread.worker send recv) }

/-- The next task of a call, the finalizers, and the calls that a thread may begin; `i` is the index of one
of its `Worker` objects. -/
inductive Event
  | go (fail : Bool)
  | freeBuffer (x : UInt64)
  | freeWorker (i : Nat)
  | newBuffer (x : UInt64)
  | postMessage (i : Nat) (msg : JSWorkerMessage)
  | poll (i : Nat)
  | setOnmessage (i : Nat) (function : Bool)
  | newWorker
  | importOs
  | leave
  deriving DecidableEq, Repr

/-- The finalizers of the objects that share memory.  They go on after the loop of the thread has ended. -/
def finalizeStep (w : World) (t : Nat) (th : Thread) (e : Event) : Except Stop World :=
  match e with
  | .freeBuffer x =>
    if x ∈ th.buffers then do
      let w ← w.jsSabFree x
      .ok (w.setThread t { th with buffers := th.buffers.erase x })
    else .error .blocked
  | .freeWorker i =>
    match th.workers[i]? with
    | some worker => .ok (w.setThread t { th with
        workers := th.workers.eraseIdx i
        tasks := worker.finalize ++ th.tasks })
    | none => .error .blocked
  | _ => .error .blocked

/-- The begin of a call of thread `t`. -/
def beginStep (w : World) (t : Nat) (th : Thread) (e : Event) : Except Stop World :=
  match e with
  | .newBuffer x =>
    if th.running ∧ w.sabs x = 0 then
      .ok ({ w with sabs := update w.sabs x 1 }.setThread t { th with buffers := x :: th.buffers })
    else .error .blocked
  | .postMessage i msg =>
    match th.workers[i]? with
    | some worker =>
      if th.running ∧ msg.sabTab.all (· ∈ th.buffers) then
        .ok (w.setThread t { th with tasks := [.dupSabs worker.sendPipe msg 0] })
      else .error .blocked
    | none => .error .blocked
  | .poll i =>
    match th.workers[i]? with
    | some worker =>
      if th.running ∧ worker.msgHandler then do
        -- `select` finds a byte in the pipe of the waker
        let pipe ← w.pipe worker.recvPipe
        if pipe.waker = 0 then .error .blocked
        else .ok (w.setThread t { th with tasks := [.recvLock worker.recvPipe] })
      else .error .blocked
    | none => .error .blocked
  | .setOnmessage i function =>
    match th.workers[i]? with
    | some worker =>
      if !th.running then .error .blocked
      else if function then
        if worker.msgHandler then .ok w
        else do
          let w ← w.jsDupMessagePipe worker.recvPipe
          .ok (w.setThread t { th with
            workers := th.workers.set i { worker with msgHandler := true } })
      else if worker.msgHandler then
        .ok (w.setThread t { th with
          workers := th.workers.set i { worker with msgHandler := false }
          tasks := [.freePipe worker.recvPipe] })
      else .ok w
    | none => .error .blocked
  | .newWorker =>
    -- workers cannot make workers
    if th.running ∧ th.pipes = none then .ok (w.setThread t { th with tasks := [.newRecvPipe] })
    else .error .blocked
  | .importOs =>
    match th.pipes with
    | some (recv, send) =>
      if th.running ∧ !th.imported then
        .ok (w.setThread t { th with imported := true, tasks := [.dupRecv recv send false] })
      else .error .blocked
    | none => .error .blocked
  | .leave =>
    -- `js_std_free_handlers`
    match th.pipes with
    | some (recv, send) =>
      if th.running then
        .ok (w.setThread t { th with
          pipes := none
          running := false
          tasks := [.freePipe recv, .freePipe send] })
      else .error .blocked
    | none => .error .blocked
  | .go _ | .freeBuffer _ | .freeWorker _ => .error .blocked

/-- The task makes objects, so garbage may be collected. -/
def Task.collects : Task → Bool
  | .readObject _ _ => true
  | .dupRecv _ _ _ => true
  | _ => false

/-- One step of thread `t`. -/
def step (w : World) (t : Nat) (e : Event) : Except Stop World :=
  if t < w.nThreads then
    match (w.threads t).tasks, e with
    | [], .freeBuffer x => finalizeStep w t (w.threads t) (.freeBuffer x)
    | [], .freeWorker i => finalizeStep w t (w.threads t) (.freeWorker i)
    | [], e => beginStep w t (w.threads t) e
    | task :: rest, .go fail => taskStep w t (w.threads t) rest fail task
    | task :: _, e => if task.collects then finalizeStep w t (w.threads t) e else .error .blocked
  else .error .blocked

/-- The worlds that some interleaving of the threads leads to. -/
inductive Reachable : World → Prop
  | init : Reachable World.init
  | step {w w' : World} (t : Nat) (e : Event) : Reachable w → step w t e = .ok w' → Reachable w'

end QNode.Workers
