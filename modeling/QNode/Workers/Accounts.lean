import QNode.Workers.Pipes

/-!
# Who holds what

The references that threads, tasks and queued messages hold, and the invariant: every counter is what is held,
every locked mutex has its thread, and the byte of a waker stands for a queue with messages.
-/

namespace QNode.Workers

open Function Ledger

/-! ## Holdings -/

def Task.sabs : Task → List UInt64
  | .dupSabs _ msg i => msg.sabTab.take i
  | .sendLock _ msg => msg.sabTab
  | .sendSignal _ msg => msg.sabTab
  | .sendLink _ msg => msg.sabTab
  | .recvClear _ msg => msg.sabTab
  | .readObject msg _ => msg.sabTab
  | .freeMessage msg i => msg.sabTab.drop i
  | _ => []

/-- The references that a task gives back or hands on. -/
def Task.refs : Task → List Nat
  | .freePipe ps => [ps]
  | .newSendPipe recv => [recv]
  | .dupRecv recv send args => if args then [send, recv] else []
  | .dupSend recv send args => recv :: if args then [send, recv] else []
  | .createThread recv send => [send, recv, recv, send]
  | _ => []

def Task.destroys : Task → List Nat
  | .destroyPipe ps => [ps]
  | _ => []

/-- The pipe whose mutex the thread has locked. -/
def Task.critical : Task → Option Nat
  | .sendSignal ps _ => some ps
  | .sendLink ps _ => some ps
  | .unlock ps => some ps
  | .recvTake ps => some ps
  | .recvClear ps _ => some ps
  | _ => none

/-- Tasks that another task may go before. -/
def Task.below : Task → Bool
  | .freePipe _ => true
  | .destroyPipe _ => true
  | .readObject _ _ => true
  | .dupRecv _ _ _ => true
  | _ => false

def JSWorkerData.refs (worker : JSWorkerData) : List Nat :=
  [worker.recvPipe, worker.sendPipe] ++ if worker.msgHandler then [worker.recvPipe] else []

/-- What the thread itself and its objects hold. -/
def Thread.base (th : Thread) : List Nat :=
  (th.pipes.toList.flatMap fun pipes ↦ [pipes.1, pipes.2]) ++ th.workers.flatMap JSWorkerData.refs

def Thread.refs (th : Thread) : List Nat := th.base ++ th.tasks.flatMap Task.refs

def Thread.sabs (th : Thread) : List UInt64 := th.buffers ++ th.tasks.flatMap Task.sabs

def Thread.destroys (th : Thread) : List Nat := th.tasks.flatMap Task.destroys

def Thread.inside (th : Thread) : Option Nat := th.tasks.head?.bind Task.critical

def JSWorkerMessagePipe.sabs (pipe : JSWorkerMessagePipe) : List UInt64 :=
  pipe.msgQueue.flatMap JSWorkerMessage.sabTab

/-- Given back, but not yet taken down. -/
def JSWorkerMessagePipe.doomed (pipe : JSWorkerMessagePipe) : Nat :=
  if pipe.refCount = 0 ∧ pipe.freed = false then 1 else 0

namespace World

def sabHeld (w : World) (x : UInt64) : Nat :=
  total w.nThreads (fun th ↦ th.sabs.count x) w.threads +
    total w.nPipes (fun pipe ↦ pipe.sabs.count x) w.pipes

def refHeld (w : World) (ps : Nat) : Nat :=
  total w.nThreads (fun th ↦ th.refs.count ps) w.threads

def destroyers (w : World) (ps : Nat) : Nat :=
  total w.nThreads (fun th ↦ th.destroys.count ps) w.threads

end World

/-! ## The invariant -/

/-- What a task relies on: the pipe is that of an object of the thread, or one of its own two, and the shared
memory is that of its objects. -/
def Task.Held (th : Thread) : Task → Prop
  | .dupSabs ps msg _ => ps ∈ th.workers.map JSWorkerData.sendPipe ∧ ∀ x ∈ msg.sabTab, x ∈ th.buffers
  | .sendLock ps _ => ps ∈ th.workers.map JSWorkerData.sendPipe
  | .sendSignal ps _ => ps ∈ th.workers.map JSWorkerData.sendPipe
  | .sendLink ps _ => ps ∈ th.workers.map JSWorkerData.sendPipe
  | .unlock ps => ps ∈ th.base
  | .recvLock ps => ps ∈ th.workers.map JSWorkerData.recvPipe
  | .recvTake ps => ps ∈ th.workers.map JSWorkerData.recvPipe
  | .recvClear ps _ => ps ∈ th.workers.map JSWorkerData.recvPipe
  | .dupRecv recv send false => th.pipes = some (recv, send)
  | .dupSend recv send false => th.pipes = some (recv, send)
  | _ => True

structure Thread.Ok (th : Thread) : Prop where
  held : ∀ task ∈ th.tasks, task.Held th
  below : ∀ task ∈ th.tasks.tail, task.below

/-- The byte of the waker is there although it may not stand for a message: it comes before the message, and
goes after it. -/
def Task.rings : Task → Bool
  | .sendLink _ _ => true
  | .recvClear _ _ => true
  | _ => false

def Thread.ringing (th : Thread) : Bool := th.tasks.head?.any Task.rings

def bell (queue : List JSWorkerMessage) : Nat := if queue = [] then 0 else 1

def World.ringing (w : World) (ps : Nat) : Bool :=
  match (w.pipes ps).mutex with
  | none => false
  | some u => (w.threads u).ringing

/-- The messages of a pipe come out in the order in which they went in, and none is lost. -/
structure JSWorkerMessagePipe.Fifo (pipe : JSWorkerMessagePipe) : Prop where
  taken : pipe.taken <+: pipe.posted
  queue : 0 < pipe.refCount → pipe.posted = pipe.taken ++ pipe.msgQueue

structure Inv (w : World) : Prop where
  threadsEnd : ∀ u ≥ w.nThreads, w.threads u = Thread.none
  pipesEnd : ∀ ps ≥ w.nPipes, w.pipes ps = .none
  null : 0 < w.nPipes
  sabs : ∀ x, w.sabs x = w.sabHeld x
  refs : ∀ ps, (w.pipes ps).refCount = w.refHeld ps
  destroys : ∀ ps, w.destroyers ps = (w.pipes ps).doomed
  freed : ∀ ps, (w.pipes ps).freed → (w.pipes ps).refCount = 0
  threads : ∀ u, (w.threads u).Ok
  mutex : ∀ u ps, (w.threads u).inside = some ps ↔ (w.pipes ps).mutex = some u
  waker : ∀ ps, 0 < (w.pipes ps).refCount →
    (w.pipes ps).waker = if w.ringing ps then 1 else bell (w.pipes ps).msgQueue
  fifo : ∀ ps, (w.pipes ps).Fifo

theorem init_threads_of_ne {u : Nat} (hu : u ≠ 0) : World.init.threads u = Thread.none := by
  show update (fun _ ↦ Thread.none) 0 Thread.main u = Thread.none
  rw [update_of_ne hu]

theorem inv_init : Inv World.init := by
  have hthreads : ∀ u, (World.init.threads u).tasks = [] ∧ (World.init.threads u).refs = [] ∧
      (World.init.threads u).sabs = [] := by
    intro u
    by_cases hu : u = 0
    · rw [hu]
      exact ⟨rfl, rfl, rfl⟩
    · rw [init_threads_of_ne hu]
      exact ⟨rfl, rfl, rfl⟩
  refine ⟨?_, fun _ _ ↦ rfl, Nat.one_pos, fun _ ↦ rfl, fun _ ↦ rfl, fun _ ↦ rfl, fun _ _ ↦ rfl, ?_, ?_,
    ?_, ?_⟩
  · intro u hu
    exact init_threads_of_ne (Nat.ne_of_gt hu)
  · intro u
    constructor
    · intro task htask
      rw [(hthreads u).1] at htask
      cases htask
    · intro task htask
      rw [(hthreads u).1] at htask
      cases htask
  · intro u ps
    rw [Thread.inside, (hthreads u).1]
    exact ⟨fun h ↦ (by cases h), fun h ↦ (by cases h)⟩
  · intro ps hpos
    exact absurd hpos (Nat.lt_irrefl 0)
  · intro ps
    exact ⟨List.prefix_rfl, fun _ ↦ rfl⟩

/-! ## One change -/

/-- What a step of thread `t` may change: the thread, the pipe `ps`, the counts of the shared memory, and a
thread of its own making. -/
structure Change (w w' : World) (t : Nat) (ps : Nat) (new : Thread) : Prop where
  threads : w'.threads = update (update w.threads t (w'.threads t)) w.nThreads new
  nThreads : (w'.nThreads = w.nThreads ∧ new = Thread.none) ∨ w'.nThreads = w.nThreads + 1
  pipes : w'.pipes = update w.pipes ps (w'.pipes ps)
  nPipes : (ps < w.nPipes ∧ w'.nPipes = w.nPipes) ∨ (ps = w.nPipes ∧ w'.nPipes = w.nPipes + 1)

/-- The change keeps the books. -/
structure Balanced (w w' : World) (t : Nat) (ps : Nat) (new : Thread) : Prop where
  sabs : ∀ x, w'.sabs x + (w.threads t).sabs.count x + (w.pipes ps).sabs.count x =
    w.sabs x + (w'.threads t).sabs.count x + (w'.pipes ps).sabs.count x
  refs : ∀ q, (w'.pipes q).refCount + (w.threads t).refs.count q =
    (w.pipes q).refCount + (w'.threads t).refs.count q + new.refs.count q
  destroys : ∀ q, (w'.threads t).destroys.count q + (w.pipes q).doomed =
    (w.threads t).destroys.count q + (w'.pipes q).doomed
  freed : (w'.pipes ps).freed → (w'.pipes ps).refCount = 0
  thread : (w'.threads t).Ok
  new : new.tasks = [] ∧ new.buffers = []
  insideOld : ∀ q, (w.threads t).inside = some q → q = ps
  insideNew : ∀ q, (w'.threads t).inside = some q → q = ps
  mutex : (w'.threads t).inside = some ps ↔ (w'.pipes ps).mutex = some t
  others : ∀ u ≠ t, (w'.pipes ps).mutex = some u ↔ (w.pipes ps).mutex = some u
  waker : 0 < (w'.pipes ps).refCount →
    (w'.pipes ps).waker = if w'.ringing ps then 1 else bell (w'.pipes ps).msgQueue
  fifo : (w'.pipes ps).Fifo

section

variable {w w' : World} {t : Nat} {ps : Nat} {new : Thread}

theorem Change.thread_of_ne (h : Change w w' t ps new) {u : Nat} (hu : u ≠ t)
    (hn : u ≠ w.nThreads) : w'.threads u = w.threads u := by
  rw [h.threads, update_of_ne hn, update_of_ne hu]

theorem Change.thread_new (h : Change w w' t ps new) : w'.threads w.nThreads = new := by
  rw [h.threads, update_self]

theorem Change.pipe_of_ne (h : Change w w' t ps new) {q : Nat} (hq : q ≠ ps) :
    w'.pipes q = w.pipes q := by
  rw [h.pipes, update_of_ne hq]

theorem Change.total_threads (h : Change w w' t ps new) (ht : t < w.nThreads)
    {f : Thread → Nat} (hf : f Thread.none = 0) :
    total w'.nThreads f w'.threads + f (w.threads t) =
      total w.nThreads f w.threads + f (w'.threads t) + f new := by
  have hsame : total w.nThreads f w'.threads + f (w.threads t) =
      total w.nThreads f w.threads + f (w'.threads t) := by
    rw [h.threads, total_update_of_le (Nat.le_refl _), update_of_ne (Nat.ne_of_lt ht), update_self]
    exact total_update ht _
  rcases h.nThreads with ⟨hn, hnew⟩ | hn
  · rw [hn, hnew, hf]
    exact hsame
  · rw [hn, total_succ, h.thread_new]
    omega

theorem Change.total_pipes (h : Change w w' t ps new) (hw : Inv w)
    {f : JSWorkerMessagePipe → Nat} (hf : f .none = 0) :
    total w'.nPipes f w'.pipes + f (w.pipes ps) =
      total w.nPipes f w.pipes + f (w'.pipes ps) := by
  rcases h.nPipes with ⟨hlt, hn⟩ | ⟨heq, hn⟩
  · rw [hn, h.pipes, update_self]
    exact total_update hlt _
  · have hold : total w.nPipes f w'.pipes = total w.nPipes f w.pipes := by
      rw [h.pipes]
      exact total_update_of_le (Nat.le_of_eq heq.symm) _
    rw [hn, total_succ, hold, hw.pipesEnd ps (Nat.le_of_eq heq.symm), hf, ← heq, Nat.add_zero]

-- Whoever has locked another mutex is not the thread that makes the step.
theorem Balanced.mutex_of_ne (hb : Balanced w w' t ps new) (hc : Change w w' t ps new) (hw : Inv w)
    {q : Nat} (hq : q ≠ ps) {u : Nat} :
    (w'.threads u).inside = some q ↔ (w'.pipes q).mutex = some u := by
  rw [hc.pipe_of_ne hq, ← hw.mutex u q]
  by_cases hu : u = t
  · rw [hu]
    constructor
    · intro hin
      exact absurd (hb.insideNew q hin) hq
    · intro hin
      exact absurd (hb.insideOld q hin) hq
  · by_cases hn : u = w.nThreads
    · rw [hn, hc.thread_new, hw.threadsEnd _ (Nat.le_refl _), Thread.inside, Thread.inside, hb.new.1]
      rfl
    · rw [hc.thread_of_ne hu hn]

theorem Balanced.inv (hb : Balanced w w' t ps new) (hc : Change w w' t ps new) (hw : Inv w)
    (ht : t < w.nThreads) : Inv w' := by
  have hold : ∀ u, u ≠ t → (w'.threads u).inside = (w.threads u).inside := by
    intro u hu
    by_cases hn : u = w.nThreads
    · rw [hn, hc.thread_new, hw.threadsEnd _ (Nat.le_refl _), Thread.inside, Thread.inside, hb.new.1]
      rfl
    · rw [hc.thread_of_ne hu hn]
  have hmutex : ∀ u q, (w'.threads u).inside = some q ↔ (w'.pipes q).mutex = some u := by
    intro u q
    by_cases hq : q = ps
    · rw [hq]
      by_cases hu : u = t
      · rw [hu]
        exact hb.mutex
      · rw [hb.others u hu, hold u hu]
        exact hw.mutex u ps
    · exact hb.mutex_of_ne hc hw hq
  refine ⟨?_, ?_, ?_, ?_, ?_, ?_, ?_, ?_, hmutex, ?_, ?_⟩
  · intro u hu
    rcases hc.nThreads with ⟨hn, hnone⟩ | hn
    · rw [hn] at hu
      by_cases heq : u = w.nThreads
      · rw [heq, hc.thread_new, hnone]
      · rw [hc.thread_of_ne (by omega) heq]
        exact hw.threadsEnd u hu
    · rw [hc.thread_of_ne (by omega) (by omega)]
      exact hw.threadsEnd u (by omega)
  · intro q hq
    rw [hc.pipe_of_ne (by rcases hc.nPipes with ⟨hlt, hn⟩ | ⟨heq, hn⟩ <;> omega)]
    exact hw.pipesEnd q (by rcases hc.nPipes with ⟨hlt, hn⟩ | ⟨heq, hn⟩ <;> omega)
  · have hpos := hw.null
    rcases hc.nPipes with ⟨hlt, hn⟩ | ⟨heq, hn⟩ <;> omega
  · intro x
    have hthreads := hc.total_threads (f := fun th ↦ th.sabs.count x) ht rfl
    have hpipes := hc.total_pipes (f := fun pipe ↦ pipe.sabs.count x) hw rfl
    have hbal := hb.sabs x
    have hnew : new.sabs = [] := by
      rw [Thread.sabs, hb.new.1, hb.new.2]
      rfl
    rw [hw.sabs x, World.sabHeld] at hbal
    rw [World.sabHeld]
    rw [hnew, List.count_nil] at hthreads
    omega
  · intro q
    have hthreads := hc.total_threads (f := fun th ↦ th.refs.count q) ht rfl
    have hbal := hb.refs q
    rw [hw.refs q, World.refHeld] at hbal
    rw [World.refHeld]
    omega
  · intro q
    have hthreads := hc.total_threads (f := fun th ↦ th.destroys.count q) ht rfl
    have hbal := hb.destroys q
    have hnew : new.destroys = [] := by
      rw [Thread.destroys, hb.new.1]
      rfl
    rw [← hw.destroys q, World.destroyers] at hbal
    rw [World.destroyers]
    rw [hnew, List.count_nil] at hthreads
    omega
  · intro q
    by_cases hq : q = ps
    · rw [hq]
      exact hb.freed
    · rw [hc.pipe_of_ne hq]
      exact hw.freed q
  · intro u
    by_cases hu : u = t
    · rw [hu]
      exact hb.thread
    · by_cases hn : u = w.nThreads
      · rw [hn, hc.thread_new]
        constructor
        · intro task htask
          rw [hb.new.1] at htask
          cases htask
        · intro task htask
          rw [hb.new.1] at htask
          cases htask
      · rw [hc.thread_of_ne hu hn]
        exact hw.threads u
  · intro q hq
    by_cases heq : q = ps
    · rw [heq] at hq ⊢
      exact hb.waker hq
    · have hring : w'.ringing q = w.ringing q := by
        rw [World.ringing, World.ringing, hc.pipe_of_ne heq]
        cases hm : (w.pipes q).mutex with
        | none => rfl
        | some u =>
          have hin : (w.threads u).inside = some q := (hw.mutex u q).mpr hm
          have hu : u ≠ t := fun h ↦ heq (hb.insideOld q (h ▸ hin))
          have hn : u ≠ w.nThreads := by
            intro h
            rw [h, hw.threadsEnd _ (Nat.le_refl _)] at hin
            cases hin
          dsimp only
          rw [hc.thread_of_ne hu hn]
      rw [hring, hc.pipe_of_ne heq]
      rw [hc.pipe_of_ne heq] at hq
      exact hw.waker q hq
  · intro q
    by_cases hq : q = ps
    · rw [hq]
      exact hb.fifo
    · rw [hc.pipe_of_ne hq]
      exact hw.fifo q

end

/-! ## Tasks for tasks -/

theorem Task.critical_of_below {task : Task} (h : task.below) : task.critical = none := by
  cases task with
  | freePipe ps => rfl
  | destroyPipe ps => rfl
  | readObject msg i => rfl
  | dupRecv recv send args => rfl
  | _ => cases h

theorem Task.rings_of_below {task : Task} (h : task.below) : task.rings = false := by
  cases task with
  | freePipe ps => rfl
  | destroyPipe ps => rfl
  | readObject msg i => rfl
  | dupRecv recv send args => rfl
  | _ => cases h

-- A thread whose next task may stand below others has locked nothing.
theorem head_append_below {tasks rest : List Task} (hrest : ∀ task ∈ rest, task.below) :
    (tasks ++ rest).head?.bind Task.critical = tasks.head?.bind Task.critical ∧
      (tasks ++ rest).head?.any Task.rings = tasks.head?.any Task.rings := by
  cases tasks with
  | cons task tasks => exact ⟨rfl, rfl⟩
  | nil =>
    cases rest with
    | nil => exact ⟨rfl, rfl⟩
    | cons task rest =>
      have hbelow := hrest task List.mem_cons_self
      exact ⟨Task.critical_of_below hbelow, Task.rings_of_below hbelow⟩

/-- A step that replaces the tasks `old` at the front by the tasks `new`. -/
structure Rewrite (w w' : World) (t ps : Nat) (made : Thread) (old new rest : List Task) : Prop where
  change : Change w w' t ps made
  tasks : (w.threads t).tasks = old ++ rest
  tasks' : (w'.threads t).tasks = new ++ rest
  below : ∀ task ∈ rest, task.below
  belowNew : ∀ task ∈ new.tail, task.below
  held : ∀ task ∈ new, task.Held (w'.threads t)
  heldRest : ∀ task ∈ rest, task.Held (w.threads t) → task.Held (w'.threads t)
  madeEmpty : made.tasks = [] ∧ made.buffers = []
  sabs : ∀ x, w'.sabs x + ((w.threads t).buffers.count x + (old.flatMap Task.sabs).count x) +
      (w.pipes ps).sabs.count x =
    w.sabs x + ((w'.threads t).buffers.count x + (new.flatMap Task.sabs).count x) +
      (w'.pipes ps).sabs.count x
  refs : ∀ q, (w'.pipes q).refCount +
      ((w.threads t).base.count q + (old.flatMap Task.refs).count q) =
    (w.pipes q).refCount + ((w'.threads t).base.count q + (new.flatMap Task.refs).count q) +
      made.refs.count q
  destroys : ∀ q, (new.flatMap Task.destroys).count q + (w.pipes q).doomed =
    (old.flatMap Task.destroys).count q + (w'.pipes q).doomed
  freed : (w'.pipes ps).freed → (w'.pipes ps).refCount = 0
  insideOld : ∀ q, old.head?.bind Task.critical = some q → q = ps
  insideNew : ∀ q, new.head?.bind Task.critical = some q → q = ps
  mutex : new.head?.bind Task.critical = some ps ↔ (w'.pipes ps).mutex = some t
  others : ∀ u ≠ t, (w'.pipes ps).mutex = some u ↔ (w.pipes ps).mutex = some u
  waker : 0 < (w'.pipes ps).refCount → (w'.pipes ps).waker =
    if w'.ringing ps then 1 else bell (w'.pipes ps).msgQueue
  fifo : (w'.pipes ps).Fifo

section

variable {w w' : World} {t ps : Nat} {made : Thread} {old new rest : List Task}

theorem Rewrite.inside (h : Rewrite w w' t ps made old new rest) :
    (w.threads t).inside = old.head?.bind Task.critical := by
  rw [Thread.inside, h.tasks]
  exact (head_append_below h.below).1

theorem Rewrite.inside' (h : Rewrite w w' t ps made old new rest) :
    (w'.threads t).inside = new.head?.bind Task.critical := by
  rw [Thread.inside, h.tasks']
  exact (head_append_below h.below).1

theorem Rewrite.ok (h : Rewrite w w' t ps made old new rest) (hw : Inv w) : (w'.threads t).Ok := by
  have hok := hw.threads t
  constructor
  · intro task htask
    rw [h.tasks'] at htask
    rcases List.mem_append.mp htask with hnew | hrest
    · exact h.held task hnew
    · refine h.heldRest task hrest (hok.held task ?_)
      rw [h.tasks]
      exact List.mem_append_right old hrest
  · intro task htask
    rw [h.tasks'] at htask
    cases new with
    | nil => exact h.below task (List.mem_of_mem_tail htask)
    | cons first new =>
      rcases List.mem_append.mp htask with hnew | hrest
      · exact h.belowNew task hnew
      · exact h.below task hrest

theorem Rewrite.inv (ps : Nat) (made : Thread) (old new rest : List Task)
    (h : Rewrite w w' t ps made old new rest) (hw : Inv w) (ht : t < w.nThreads) :
    Inv w' := by
  have hbalanced : Balanced w w' t ps made := by
    refine ⟨?_, ?_, ?_, h.freed, h.ok hw, h.madeEmpty, ?_, ?_, ?_, h.others, h.waker, h.fifo⟩
    · intro x
      have hbal := h.sabs x
      rw [Thread.sabs, Thread.sabs, h.tasks, h.tasks', List.flatMap_append, List.flatMap_append,
        List.count_append, List.count_append, List.count_append, List.count_append]
      omega
    · intro q
      have hbal := h.refs q
      rw [Thread.refs, Thread.refs, h.tasks, h.tasks', List.flatMap_append, List.flatMap_append,
        List.count_append, List.count_append, List.count_append, List.count_append]
      omega
    · intro q
      have hbal := h.destroys q
      rw [Thread.destroys, Thread.destroys, h.tasks, h.tasks', List.flatMap_append,
        List.flatMap_append, List.count_append, List.count_append]
      omega
    · rw [h.inside]
      exact h.insideOld
    · rw [h.inside']
      exact h.insideNew
    · rw [h.inside']
      exact h.mutex
  exact hbalanced.inv h.change hw ht

end

/-! ## Kinds of steps -/

section

variable {w : World} {t ps : Nat} {th : Thread} {old new rest : List Task}

theorem change_setThread {w₁ : World} (hw : Inv w) (ht : t < w.nThreads)
    (hthreads : w₁.threads = w.threads) (hn : w₁.nThreads = w.nThreads)
    (hpipes : w₁.pipes = update w.pipes ps (w₁.pipes ps))
    (hnp : (ps < w.nPipes ∧ w₁.nPipes = w.nPipes) ∨ (ps = w.nPipes ∧ w₁.nPipes = w.nPipes + 1)) :
    Change w (w₁.setThread t th) t ps Thread.none := by
  refine ⟨?_, Or.inl ⟨hn, rfl⟩, hpipes, hnp⟩
  show update w₁.threads t th = update (update w.threads t (update w₁.threads t th t)) w.nThreads
    Thread.none
  rw [update_self, hthreads]
  funext u
  by_cases hu : u = w.nThreads
  · rw [hu, update_self, update_of_ne (Nat.ne_of_gt ht)]
    exact hw.threadsEnd _ (Nat.le_refl _)
  · rw [update_of_ne hu]

theorem setThread_self (w : World) (t : Nat) (th : Thread) :
    (w.setThread t th).threads t = th := by
  show update w.threads t th t = th
  rw [update_self]

/-- The part of a rewriting that every step has to show. -/
structure Retask (w : World) (t : Nat) (th : Thread) (old new rest : List Task) : Prop where
  tasks : (w.threads t).tasks = old ++ rest
  tasks' : th.tasks = new ++ rest
  below : ∀ task ∈ rest, task.below
  belowNew : ∀ task ∈ new.tail, task.below
  held : ∀ task ∈ new, task.Held th
  heldRest : ∀ task ∈ rest, task.Held (w.threads t) → task.Held th

-- Outside of the mutex a thread changes the count of a pipe at most.
theorem inv_outside (old new rest : List Task) (pipe : JSWorkerMessagePipe) (sabs : UInt64 → Nat)
    (hw : Inv w)
    (ht : t < w.nThreads) (hps : ps < w.nPipes) (h : Retask w t th old new rest)
    (hold : old.head?.bind Task.critical = none) (hnew : new.head?.bind Task.critical = none)
    (hpipe : pipe = { w.pipes ps with refCount := pipe.refCount, freed := pipe.freed })
    (hpos : 0 < pipe.refCount → 0 < (w.pipes ps).refCount)
    (hfreed : pipe.freed → pipe.refCount = 0)
    (hsabs : ∀ x, sabs x + ((w.threads t).buffers.count x + (old.flatMap Task.sabs).count x) =
      w.sabs x + (th.buffers.count x + (new.flatMap Task.sabs).count x))
    (hrefs : ∀ q, (update w.pipes ps pipe q).refCount +
        ((w.threads t).base.count q + (old.flatMap Task.refs).count q) =
      (w.pipes q).refCount + (th.base.count q + (new.flatMap Task.refs).count q))
    (hdestroys : ∀ q, (new.flatMap Task.destroys).count q + (w.pipes q).doomed =
      (old.flatMap Task.destroys).count q + (update w.pipes ps pipe q).doomed) :
    Inv ({ w with pipes := update w.pipes ps pipe, sabs := sabs }.setThread t th) := by
  have hself : update w.pipes ps pipe ps = pipe := update_self ps pipe w.pipes
  have hinside : (w.threads t).inside = none := by
    rw [Thread.inside, h.tasks, (head_append_below h.below).1]
    exact hold
  have hfree : (w.pipes ps).mutex ≠ some t := by
    intro hm
    rw [(hw.mutex t ps).mpr hm] at hinside
    cases hinside
  have hmutex : pipe.mutex = (w.pipes ps).mutex := by rw [hpipe]
  have hwaker : pipe.waker = (w.pipes ps).waker := by rw [hpipe]
  have hqueue : pipe.msgQueue = (w.pipes ps).msgQueue := by rw [hpipe]
  have hposted : pipe.posted = (w.pipes ps).posted := by rw [hpipe]
  have htaken : pipe.taken = (w.pipes ps).taken := by rw [hpipe]
  refine Rewrite.inv ps _ old new rest
    ⟨change_setThread hw ht rfl rfl ?_ (Or.inl ⟨hps, rfl⟩), h.tasks, ?_, h.below, h.belowNew, ?_, ?_,
      ⟨rfl, rfl⟩, ?_, ?_, hdestroys, ?_, ?_, ?_, ?_, ?_, ?_, ?_⟩ hw ht
  · show update w.pipes ps pipe = update w.pipes ps (update w.pipes ps pipe ps)
    rw [hself]
  · rw [setThread_self]
    exact h.tasks'
  · rw [setThread_self]
    exact h.held
  · rw [setThread_self]
    exact h.heldRest
  · intro x
    have hpipes : (update w.pipes ps pipe ps).sabs = (w.pipes ps).sabs := by
      rw [hself, JSWorkerMessagePipe.sabs, JSWorkerMessagePipe.sabs, hqueue]
    rw [setThread_self]
    show sabs x + _ + _ = w.sabs x + _ + (update w.pipes ps pipe ps).sabs.count x
    rw [hpipes, hsabs x]
  · intro q
    rw [setThread_self]
    exact hrefs q
  · show (update w.pipes ps pipe ps).freed → (update w.pipes ps pipe ps).refCount = 0
    rw [hself]
    exact hfreed
  · intro q hq
    rw [hold] at hq
    cases hq
  · intro q hq
    rw [hnew] at hq
    cases hq
  · show _ ↔ (update w.pipes ps pipe ps).mutex = some t
    rw [hnew, hself, hmutex]
    exact iff_of_false (fun hq ↦ by cases hq) hfree
  · intro u _
    show (update w.pipes ps pipe ps).mutex = some u ↔ _
    rw [hself, hmutex]
  · show 0 < (update w.pipes ps pipe ps).refCount → (update w.pipes ps pipe ps).waker =
      if World.ringing _ ps then 1 else bell (update w.pipes ps pipe ps).msgQueue
    rw [hself, hwaker, hqueue]
    intro hcount
    rw [hw.waker ps (hpos hcount)]
    have hring : World.ringing ({ w with pipes := update w.pipes ps pipe, sabs := sabs }.setThread t
        th) ps = w.ringing ps := by
      show (match (update w.pipes ps pipe ps).mutex with
        | none => false
        | some u => (update w.threads t th u).ringing) = w.ringing ps
      rw [hself, hmutex, World.ringing]
      cases hm : (w.pipes ps).mutex with
      | none => rfl
      | some u =>
        have hu : u ≠ t := fun heq ↦ hfree (heq ▸ hm)
        dsimp only
        rw [update_of_ne hu]
    rw [hring]
  · show (update w.pipes ps pipe ps).Fifo
    rw [hself]
    have hfifo := hw.fifo ps
    refine ⟨?_, ?_⟩
    · rw [htaken, hposted]
      exact hfifo.taken
    · rw [hposted, htaken, hqueue]
      exact fun hcount ↦ hfifo.queue (hpos hcount)

-- The pipes do not change.
theorem inv_quiet (old new rest : List Task) (sabs : UInt64 → Nat) (hw : Inv w) (ht : t < w.nThreads)
    (h : Retask w t th old new rest) (hold : old.head?.bind Task.critical = none)
    (hnew : new.head?.bind Task.critical = none)
    (hsabs : ∀ x, sabs x + ((w.threads t).buffers.count x + (old.flatMap Task.sabs).count x) =
      w.sabs x + (th.buffers.count x + (new.flatMap Task.sabs).count x))
    (hrefs : ∀ q, (w.threads t).base.count q + (old.flatMap Task.refs).count q =
      th.base.count q + (new.flatMap Task.refs).count q)
    (hdestroys : new.flatMap Task.destroys = old.flatMap Task.destroys) :
    Inv ({ w with sabs := sabs }.setThread t th) := by
  have hsame : update w.pipes 0 (w.pipes 0) = w.pipes := update_eq_self 0 w.pipes
  have hinv := inv_outside _ _ _ (w.pipes 0) _ hw ht hw.null h hold hnew rfl id (hw.freed 0) hsabs
    (fun q ↦ by rw [hsame, hrefs q]) (fun q ↦ by rw [hsame, hdestroys])
  rw [hsame] at hinv
  exact hinv

-- At the mutex, and inside of it, a thread works on that one pipe.
theorem inv_inside (old new : List Task) {pipe : JSWorkerMessagePipe} (hw : Inv w) (ht : t < w.nThreads)
    (hps : ps < w.nPipes) (h : Retask w t { w.threads t with tasks := new ++ rest } old new rest)
    (hbefore : (w.pipes ps).mutex = some t ∨ (w.pipes ps).mutex = none)
    (hafter : pipe.mutex = some t ∨ pipe.mutex = none)
    (hold : ∀ q, old.head?.bind Task.critical = some q → q = ps)
    (hnew : new.head?.bind Task.critical = if pipe.mutex = some t then some ps else none)
    (hcount : pipe.refCount = (w.pipes ps).refCount) (hfreed : pipe.freed = (w.pipes ps).freed)
    (hsabs : ∀ x, (old.flatMap Task.sabs).count x + (w.pipes ps).sabs.count x =
      (new.flatMap Task.sabs).count x + pipe.sabs.count x)
    (hrefs : new.flatMap Task.refs = old.flatMap Task.refs)
    (hdestroys : new.flatMap Task.destroys = old.flatMap Task.destroys)
    (hwaker : 0 < pipe.refCount → pipe.waker =
      if pipe.mutex = some t ∧ new.head?.any Task.rings then 1 else bell pipe.msgQueue)
    (hfifo : pipe.Fifo) :
    Inv ((w.setPipe ps pipe).setThread t { w.threads t with tasks := new ++ rest }) := by
  have hself : update w.pipes ps pipe ps = pipe := update_self ps pipe w.pipes
  have hcounts : ∀ q, (update w.pipes ps pipe q).refCount = (w.pipes q).refCount := by
    intro q
    by_cases hq : q = ps
    · rw [hq, hself, hcount]
    · rw [update_of_ne hq]
  have hdoomed : ∀ q, (update w.pipes ps pipe q).doomed = (w.pipes q).doomed := by
    intro q
    by_cases hq : q = ps
    · rw [hq, hself, JSWorkerMessagePipe.doomed, JSWorkerMessagePipe.doomed, hcount, hfreed]
    · rw [update_of_ne hq]
  refine Rewrite.inv ps _ old new rest
    ⟨change_setThread hw ht rfl rfl ?_ (Or.inl ⟨hps, rfl⟩), h.tasks, ?_, h.below, h.belowNew, ?_, ?_,
      ⟨rfl, rfl⟩, ?_, ?_, ?_, ?_, hold, ?_, ?_, ?_, ?_, ?_⟩ hw ht
  · show update w.pipes ps pipe = update w.pipes ps (update w.pipes ps pipe ps)
    rw [hself]
  · rw [setThread_self]
  · rw [setThread_self]
    exact h.held
  · rw [setThread_self]
    exact h.heldRest
  · intro x
    have hbal := hsabs x
    rw [setThread_self]
    show w.sabs x + _ + _ = w.sabs x + _ + (update w.pipes ps pipe ps).sabs.count x
    rw [hself]
    dsimp only
    omega
  · intro q
    rw [setThread_self]
    show (update w.pipes ps pipe q).refCount + _ = _
    rw [hcounts q, hrefs]
    rfl
  · intro q
    show _ = _ + (update w.pipes ps pipe q).doomed
    rw [hdoomed q, hdestroys]
  · show (update w.pipes ps pipe ps).freed → (update w.pipes ps pipe ps).refCount = 0
    rw [hself, hfreed, hcount]
    exact hw.freed ps
  · intro q hq
    rw [hnew] at hq
    split at hq
    · exact (Option.some_inj.mp hq).symm
    · cases hq
  · show _ ↔ (update w.pipes ps pipe ps).mutex = some t
    rw [hself, hnew]
    by_cases hm : pipe.mutex = some t
    · rw [if_pos hm]
      exact iff_of_true rfl hm
    · rw [if_neg hm]
      exact iff_of_false (fun hq ↦ by cases hq) hm
  · intro u hu
    show (update w.pipes ps pipe ps).mutex = some u ↔ _
    rw [hself]
    refine iff_of_false ?_ ?_
    · intro hm
      rcases hafter with heq | heq
      · rw [hm, Option.some_inj] at heq
        exact hu heq
      · rw [hm] at heq
        cases heq
    · intro hm
      rcases hbefore with heq | heq
      · rw [hm, Option.some_inj] at heq
        exact hu heq
      · rw [hm] at heq
        cases heq
  · show 0 < (update w.pipes ps pipe ps).refCount → (update w.pipes ps pipe ps).waker =
      if World.ringing _ ps then 1 else bell (update w.pipes ps pipe ps).msgQueue
    rw [hself]
    intro hpos
    have hring : World.ringing ((w.setPipe ps pipe).setThread t
        { w.threads t with tasks := new ++ rest }) ps =
        decide (pipe.mutex = some t ∧ new.head?.any Task.rings) := by
      show (match (update w.pipes ps pipe ps).mutex with
        | none => false
        | some u => (update w.threads t { w.threads t with tasks := new ++ rest } u).ringing) = _
      rw [hself]
      rcases hafter with hm | hm
      · rw [hm]
        dsimp only
        rw [update_self, Thread.ringing, (head_append_below h.below).2]
        simp
      · rw [hm]
        simp
    rw [hring, hwaker hpos]
    simp only [decide_eq_true_eq]
  · show (update w.pipes ps pipe ps).Fifo
    rw [hself]
    exact hfifo

end

end QNode.Workers
