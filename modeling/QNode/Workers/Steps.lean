import QNode.Workers.Accounts

/-!
# Every step keeps the books

A step of a thread keeps the invariant, and meets none of the faults: what a task relies on is held by its
thread, and what is held is counted.
-/

namespace QNode.Workers

open Function Ledger

variable {w : World} {t ps : Nat} {task : Task} {rest : List Task}

/-- The outcome of a step that cannot go wrong. -/
def Safe : Except Stop World → Prop
  | .ok w => Inv w
  | .error .blocked => True
  | .error (.fault _) => False

/-! ## What is held is there -/

theorem Inv.sab_pos (hw : Inv w) (ht : t < w.nThreads) {x : UInt64}
    (hx : x ∈ (w.threads t).sabs) : 0 < w.sabs x := by
  have hle := le_total (f := fun th : Thread ↦ th.sabs.count x) (g := w.threads) ht
  have hcount := List.count_pos_iff.mpr hx
  rw [hw.sabs x, World.sabHeld]
  omega

theorem Inv.ref_pos (hw : Inv w) (ht : t < w.nThreads) (hps : ps ∈ (w.threads t).refs) :
    0 < (w.pipes ps).refCount := by
  have hle := le_total (f := fun th : Thread ↦ th.refs.count ps) (g := w.threads) ht
  have hcount := List.count_pos_iff.mpr hps
  rw [hw.refs ps, World.refHeld]
  omega

theorem Inv.lt_nPipes (hw : Inv w) (hpos : 0 < (w.pipes ps).refCount) : ps < w.nPipes := by
  by_contra hge
  rw [hw.pipesEnd ps (Nat.le_of_not_lt hge)] at hpos
  exact Nat.lt_irrefl 0 hpos

theorem Inv.pipe_eq (hw : Inv w) (hpos : 0 < (w.pipes ps).refCount) :
    w.pipe ps = .ok (w.pipes ps) := by
  rw [World.pipe, if_neg]
  intro hfreed
  rw [hw.freed ps hfreed] at hpos
  exact Nat.lt_irrefl 0 hpos

theorem Inv.task_ref_pos (hw : Inv w) (ht : t < w.nThreads)
    (htasks : (w.threads t).tasks = task :: rest) (hps : ps ∈ task.refs) :
    0 < (w.pipes ps).refCount := by
  refine hw.ref_pos ht (List.mem_append_right _ ?_)
  rw [htasks]
  exact List.mem_append_left _ hps

theorem Inv.task_sab_pos (hw : Inv w) (ht : t < w.nThreads)
    (htasks : (w.threads t).tasks = task :: rest) {x : UInt64} (hx : x ∈ task.sabs) :
    0 < w.sabs x := by
  refine hw.sab_pos ht (List.mem_append_right _ ?_)
  rw [htasks]
  exact List.mem_append_left _ hx

theorem Inv.base_pos (hw : Inv w) (ht : t < w.nThreads) (hps : ps ∈ (w.threads t).base) :
    0 < (w.pipes ps).refCount := hw.ref_pos ht (List.mem_append_left _ hps)

theorem mem_base_of_recv {th : Thread} (h : ps ∈ th.workers.map JSWorkerData.recvPipe) :
    ps ∈ th.base := by
  obtain ⟨worker, hworker, rfl⟩ := List.mem_map.mp h
  refine List.mem_append_right _ (List.mem_flatMap.mpr ⟨worker, hworker, ?_⟩)
  exact List.mem_append_left _ List.mem_cons_self

theorem mem_base_of_send {th : Thread} (h : ps ∈ th.workers.map JSWorkerData.sendPipe) :
    ps ∈ th.base := by
  obtain ⟨worker, hworker, rfl⟩ := List.mem_map.mp h
  refine List.mem_append_right _ (List.mem_flatMap.mpr ⟨worker, hworker, ?_⟩)
  exact List.mem_append_left _ (List.mem_cons_of_mem _ List.mem_cons_self)

-- What stands below another task does not rely on the objects of the thread.
theorem held_of_below {th th' : Thread} (hpipes : th'.pipes = th.pipes) (hbelow : task.below)
    (hheld : task.Held th) : task.Held th' := by
  cases task with
  | freePipe ps => trivial
  | destroyPipe ps => trivial
  | readObject msg i => trivial
  | dupRecv recv send args =>
    cases args with
    | true => trivial
    | false => exact hpipes.trans hheld
  | _ => cases hbelow

theorem Inv.head_held (hw : Inv w) (htasks : (w.threads t).tasks = task :: rest) :
    task.Held (w.threads t) := by
  apply (hw.threads t).held
  rw [htasks]
  exact List.mem_cons_self

theorem Inv.rest_below (hw : Inv w) (htasks : (w.threads t).tasks = task :: rest) :
    ∀ task ∈ rest, task.below := by
  have hbelow := (hw.threads t).below
  rw [htasks] at hbelow
  exact hbelow

-- The first task makes place for others.
theorem Inv.retask (hw : Inv w) (htasks : (w.threads t).tasks = task :: rest) {new : List Task}
    (hheld : ∀ task ∈ new, task.Held (w.threads t)) (hbelow : ∀ task ∈ new.tail, task.below) :
    Retask w t { w.threads t with tasks := new ++ rest } [task] new rest :=
  ⟨htasks, rfl, hw.rest_below htasks, hbelow, hheld, fun _ _ h ↦ h⟩

theorem Inv.locked (hw : Inv w) (htasks : (w.threads t).tasks = task :: rest)
    (hcritical : task.critical = some ps) : (w.pipes ps).mutex = some t := by
  rw [← hw.mutex, Thread.inside, htasks]
  exact hcritical

theorem Inv.ringing_eq (hw : Inv w) (htasks : (w.threads t).tasks = task :: rest)
    (hcritical : task.critical = some ps) : w.ringing ps = task.rings := by
  rw [World.ringing, hw.locked htasks hcritical]
  dsimp only
  rw [Thread.ringing, htasks]
  rfl

/-! ## Sending and receiving -/

theorem lock_cases (hw : Inv w) (hpos : 0 < (w.pipes ps).refCount) :
    w.lock t ps = .error .blocked ∨ ((w.pipes ps).mutex = none ∧
      w.lock t ps = .ok (w.setPipe ps { w.pipes ps with mutex := some t })) := by
  rw [World.lock, hw.pipe_eq hpos]
  cases hm : (w.pipes ps).mutex with
  | none =>
    refine Or.inr ⟨rfl, ?_⟩
    simp only [bind, Except.bind, hm]
    rfl
  | some u =>
    refine Or.inl ?_
    simp only [bind, Except.bind, hm]
    rfl

-- A thread waits for the mutex, or goes on inside.
theorem lock_safe (next : Task) (hw : Inv w) (ht : t < w.nThreads) (htasks : (w.threads t).tasks = task :: rest)
    (hpos : 0 < (w.pipes ps).refCount) (hheld : next.Held (w.threads t))
    (hcritical : task.critical = none) (hcritical' : next.critical = some ps)
    (hrings : next.rings = false) (hsabs : next.sabs = task.sabs)
    (hrefs : next.refs = task.refs) (hdestroys : next.destroys = task.destroys) :
    Safe (w.lock t ps >>= fun w' ↦ .ok (w'.setThread t
      { w.threads t with tasks := [next] ++ rest })) := by
  rcases lock_cases (t := t) hw hpos with hlock | ⟨hfree, hlock⟩
  · rw [hlock]
    trivial
  · rw [hlock]
    refine inv_inside [task] [next] hw ht (hw.lt_nPipes hpos)
      (hw.retask htasks ?_ ?_) (Or.inr hfree) (Or.inl rfl) ?_ ?_ rfl rfl ?_ ?_ ?_ ?_ ?_
    · intro task' htask'
      rw [List.mem_singleton.mp htask']
      exact hheld
    · intro task' htask'
      cases htask'
    · intro q hq
      have hnone : task.critical = some q := hq
      rw [hcritical] at hnone
      cases hnone
    · exact hcritical'.trans (if_pos rfl).symm
    · intro x
      show ([task].flatMap Task.sabs).count x + _ = ([next].flatMap Task.sabs).count x + _
      rw [List.flatMap_singleton, List.flatMap_singleton, hsabs]
      rfl
    · rw [List.flatMap_singleton, List.flatMap_singleton, hrefs]
    · rw [List.flatMap_singleton, List.flatMap_singleton, hdestroys]
    · intro _
      have hring : w.ringing ps = false := by
        rw [World.ringing, hfree]
      show (w.pipes ps).waker = _
      rw [hw.waker ps hpos, hring]
      simp [hrings]
    · exact ⟨(hw.fifo ps).taken, (hw.fifo ps).queue⟩

theorem signal_eq {pipe : JSWorkerMessagePipe} (h : pipe.waker = bell pipe.msgQueue) :
    signal pipe = .ok { pipe with waker := 1 } := by
  unfold signal
  by_cases hempty : pipe.msgQueue = []
  · have hzero : pipe.waker = 0 := by rw [h, bell, if_pos hempty]
    rw [if_pos hempty, if_pos (by rw [hzero]; decide), hzero]
  · have hone : pipe.waker = 1 := by rw [h, bell, if_neg hempty]
    rw [if_neg hempty, ← hone]

theorem clear_eq {pipe : JSWorkerMessagePipe} (h : pipe.waker = 1) :
    clear pipe = .ok { pipe with waker := bell pipe.msgQueue } := by
  unfold clear
  by_cases hempty : pipe.msgQueue = []
  · rw [if_pos hempty, if_neg (by rw [h]; decide), h, bell, if_pos hempty]
    rfl
  · rw [if_neg hempty, bell, if_neg hempty, ← h]

/-- What a task inside the mutex does to the pipe, and the tasks that follow it. -/
structure Inside (w : World) (t ps : Nat) (task : Task) (pipe : JSWorkerMessagePipe)
    (new : List Task) : Prop where
  mutex : pipe.mutex = some t ∨ pipe.mutex = none
  head : new.head?.bind Task.critical = if pipe.mutex = some t then some ps else none
  held : ∀ task ∈ new, task.Held (w.threads t)
  below : ∀ task ∈ new.tail, task.below
  count : pipe.refCount = (w.pipes ps).refCount
  freed : pipe.freed = (w.pipes ps).freed
  sabs : ∀ x, task.sabs.count x + (w.pipes ps).sabs.count x =
    (new.flatMap Task.sabs).count x + pipe.sabs.count x
  refs : new.flatMap Task.refs = []
  destroys : new.flatMap Task.destroys = []
  waker : pipe.waker =
    if pipe.mutex = some t ∧ new.head?.any Task.rings then 1 else bell pipe.msgQueue
  fifo : pipe.Fifo

theorem inside_inv {pipe : JSWorkerMessagePipe} {new : List Task} (hw : Inv w)
    (ht : t < w.nThreads) (htasks : (w.threads t).tasks = task :: rest)
    (hcritical : task.critical = some ps) (hpos : 0 < (w.pipes ps).refCount)
    (h : Inside w t ps task pipe new) :
    Inv ((w.setPipe ps pipe).setThread t { w.threads t with tasks := new ++ rest }) := by
  have hnone : task.refs = [] ∧ task.destroys = [] := by
    cases task with
    | sendSignal ps msg => exact ⟨rfl, rfl⟩
    | sendLink ps msg => exact ⟨rfl, rfl⟩
    | unlock ps => exact ⟨rfl, rfl⟩
    | recvTake ps => exact ⟨rfl, rfl⟩
    | recvClear ps msg => exact ⟨rfl, rfl⟩
    | _ => cases hcritical
  refine inv_inside [task] _ hw ht (hw.lt_nPipes hpos) (hw.retask htasks h.held h.below)
    (Or.inl (hw.locked htasks hcritical)) h.mutex ?_ h.head h.count h.freed ?_ ?_ ?_
    (fun _ ↦ h.waker) h.fifo
  · intro q hq
    exact Option.some_inj.mp (hq.symm.trans hcritical)
  · rw [List.flatMap_singleton]
    exact h.sabs
  · rw [List.flatMap_singleton, hnone.1]
    exact h.refs
  · rw [List.flatMap_singleton, hnone.2]
    exact h.destroys

theorem mem_singleton_held {th : Thread} {next : Task} (h : next.Held th) :
    ∀ task ∈ [next], task.Held th := by
  intro task htask
  rw [List.mem_singleton.mp htask]
  exact h

theorem sendSignal_inside {msg : JSWorkerMessage} (hw : Inv w)
    (htasks : (w.threads t).tasks = .sendSignal ps msg :: rest) :
    Inside w t ps (.sendSignal ps msg) { w.pipes ps with waker := 1 } [.sendLink ps msg] := by
  have hlocked := hw.locked htasks rfl
  have hheld : ps ∈ (w.threads t).workers.map JSWorkerData.sendPipe := hw.head_held htasks
  refine ⟨Or.inl hlocked, (if_pos hlocked).symm, mem_singleton_held hheld, ?_, rfl, rfl, fun x ↦ ?_, rfl,
    rfl, (if_pos ⟨hlocked, rfl⟩).symm, ⟨(hw.fifo ps).taken, (hw.fifo ps).queue⟩⟩
  · intro task htask
    cases htask
  · rw [List.flatMap_singleton]
    rfl

-- The message goes from the hands of the sender into the queue.
theorem sendLink_inside {msg : JSWorkerMessage} (hw : Inv w)
    (htasks : (w.threads t).tasks = .sendLink ps msg :: rest) (hpos : 0 < (w.pipes ps).refCount) :
    Inside w t ps (.sendLink ps msg) { w.pipes ps with
      msgQueue := (w.pipes ps).msgQueue ++ [msg]
      posted := (w.pipes ps).posted ++ [msg] } [.unlock ps] := by
  have hlocked := hw.locked htasks rfl
  have hwaker := hw.waker ps hpos
  rw [hw.ringing_eq htasks rfl, Task.rings, if_pos rfl] at hwaker
  refine ⟨Or.inl hlocked, (if_pos hlocked).symm,
    mem_singleton_held (mem_base_of_send (hw.head_held htasks)), ?_, rfl, rfl, fun x ↦ ?_, rfl, rfl, ?_,
    ⟨?_, ?_⟩⟩
  · intro task htask
    cases htask
  · show msg.sabTab.count x + _ = 0 + ((_ : JSWorkerMessagePipe).sabs).count x
    rw [JSWorkerMessagePipe.sabs, JSWorkerMessagePipe.sabs, List.flatMap_append,
      List.flatMap_singleton, List.count_append]
    omega
  · have hbell : bell ((w.pipes ps).msgQueue ++ [msg]) = 1 :=
      if_neg (List.append_ne_nil_of_right_ne_nil _ (List.cons_ne_nil _ _))
    show (w.pipes ps).waker = _
    rw [hwaker, if_neg (by simp [Task.rings])]
    exact hbell.symm
  · exact (hw.fifo ps).taken.trans (List.prefix_append _ _)
  · intro _
    show (w.pipes ps).posted ++ [msg] = (w.pipes ps).taken ++ ((w.pipes ps).msgQueue ++ [msg])
    rw [(hw.fifo ps).queue hpos, List.append_assoc]

theorem unlock_inside (hw : Inv w) (htasks : (w.threads t).tasks = .unlock ps :: rest)
    (hpos : 0 < (w.pipes ps).refCount) :
    Inside w t ps (.unlock ps) { w.pipes ps with mutex := none } [] := by
  have hwaker := hw.waker ps hpos
  rw [hw.ringing_eq htasks rfl] at hwaker
  refine ⟨Or.inr rfl, (if_neg (by simp)).symm, ?_, ?_, rfl, rfl, fun x ↦ rfl, rfl, rfl, ?_,
    ⟨(hw.fifo ps).taken, (hw.fifo ps).queue⟩⟩
  · intro task htask
    cases htask
  · intro task htask
    cases htask
  · rw [if_neg (by simp)]
    exact hwaker

-- A message goes from the queue into the hands of the receiver.
theorem recvTake_inside {msg : JSWorkerMessage} {queue : List JSWorkerMessage} (hw : Inv w)
    (htasks : (w.threads t).tasks = .recvTake ps :: rest) (hpos : 0 < (w.pipes ps).refCount)
    (hqueue : (w.pipes ps).msgQueue = msg :: queue) :
    Inside w t ps (.recvTake ps) { w.pipes ps with
      msgQueue := queue
      taken := (w.pipes ps).taken ++ [msg] } [.recvClear ps msg] := by
  have hlocked := hw.locked htasks rfl
  have hposted := (hw.fifo ps).queue hpos
  have hwaker := hw.waker ps hpos
  rw [hw.ringing_eq htasks rfl, hqueue] at hwaker
  rw [hqueue, List.append_cons] at hposted
  have hheld : ps ∈ (w.threads t).workers.map JSWorkerData.recvPipe := hw.head_held htasks
  refine ⟨Or.inl hlocked, (if_pos hlocked).symm, mem_singleton_held hheld, ?_, rfl, rfl, fun x ↦ ?_, rfl,
    rfl, ?_, ⟨?_, fun _ ↦ hposted⟩⟩
  · intro task htask
    cases htask
  · rw [JSWorkerMessagePipe.sabs, JSWorkerMessagePipe.sabs, hqueue, List.flatMap_cons,
      List.flatMap_singleton, List.count_append]
    exact Nat.zero_add _
  · rw [if_pos ⟨hlocked, rfl⟩]
    exact hwaker
  · show (w.pipes ps).taken ++ [msg] <+: (w.pipes ps).posted
    rw [hposted]
    exact List.prefix_append _ _

theorem recvTake_empty_inside (hw : Inv w) (htasks : (w.threads t).tasks = .recvTake ps :: rest)
    (hpos : 0 < (w.pipes ps).refCount) :
    Inside w t ps (.recvTake ps) (w.pipes ps) [.unlock ps] := by
  have hlocked := hw.locked htasks rfl
  have hwaker := hw.waker ps hpos
  rw [hw.ringing_eq htasks rfl] at hwaker
  refine ⟨Or.inl hlocked, (if_pos hlocked).symm,
    mem_singleton_held (mem_base_of_recv (hw.head_held htasks)), ?_, rfl, rfl, fun x ↦ rfl, rfl, rfl, ?_,
    hw.fifo ps⟩
  · intro task htask
    cases htask
  · rw [hwaker]
    simp [Task.rings]

theorem recvClear_inside {msg : JSWorkerMessage} (hw : Inv w)
    (htasks : (w.threads t).tasks = .recvClear ps msg :: rest) :
    Inside w t ps (.recvClear ps msg) { w.pipes ps with waker := bell (w.pipes ps).msgQueue }
      [.unlock ps, .readObject msg 0] := by
  have hlocked := hw.locked htasks rfl
  refine ⟨Or.inl hlocked, (if_pos hlocked).symm, ?_, ?_, rfl, rfl, fun x ↦ ?_, rfl, rfl, ?_,
    ⟨(hw.fifo ps).taken, (hw.fifo ps).queue⟩⟩
  · intro task htask
    rcases List.mem_cons.mp htask with heq | htask
    · rw [heq]
      exact mem_base_of_recv (hw.head_held htasks)
    · rw [List.mem_singleton.mp htask]
      trivial
  · intro task htask
    rw [List.mem_singleton.mp htask]
    rfl
  · show msg.sabTab.count x + _ = (msg.sabTab ++ []).count x + _
    rw [List.append_nil]
    rfl
  · simp [Task.rings]

/-! ## Counting -/

theorem update_succ (f : UInt64 → Nat) (x y : UInt64) :
    update f x (f x + 1) y = f y + if x = y then 1 else 0 := by
  rw [update_apply]
  by_cases hxy : x = y
  · rw [if_pos hxy, if_pos hxy.symm, hxy]
  · rw [if_neg hxy, if_neg (Ne.symm hxy)]
    rfl

theorem update_pred {f : UInt64 → Nat} {x : UInt64} (hpos : 0 < f x) (y : UInt64) :
    update f x (f x - 1) y + (if x = y then 1 else 0) = f y := by
  rw [update_apply]
  by_cases hxy : x = y
  · rw [if_pos hxy, if_pos hxy.symm, ← hxy]
    omega
  · rw [if_neg hxy, if_neg (Ne.symm hxy)]
    rfl

theorem count_take_succ {l : List UInt64} {i : Nat} {x : UInt64} (h : l[i]? = some x) (y : UInt64) :
    (l.take (i + 1)).count y = (l.take i).count y + if x = y then 1 else 0 := by
  rw [List.take_add_one, h, List.count_append, Option.toList_some, List.count_singleton]
  by_cases hxy : x = y <;> simp [hxy]

theorem count_drop {l : List UInt64} {i : Nat} {x : UInt64} (h : l[i]? = some x) (y : UInt64) :
    (l.drop i).count y = (l.drop (i + 1)).count y + if x = y then 1 else 0 := by
  obtain ⟨hlt, hget⟩ := List.getElem?_eq_some_iff.mp h
  rw [List.drop_eq_getElem_cons hlt, hget, List.count_cons]
  by_cases hxy : x = y <;> simp [hxy]

theorem jsSabDup_eq {x : UInt64} (hpos : 0 < w.sabs x) :
    w.jsSabDup x = .ok { w with sabs := update w.sabs x (w.sabs x + 1) } :=
  if_neg (Nat.ne_of_gt hpos)

theorem jsSabFree_eq {x : UInt64} (hpos : 0 < w.sabs x) :
    w.jsSabFree x = .ok { w with sabs := update w.sabs x (w.sabs x - 1) } :=
  if_neg (Nat.ne_of_gt hpos)

/-! ## The memory of messages -/

theorem not_mem_nil_held {th : Thread} : ∀ task ∈ ([] : List Task), task.Held th :=
  fun _ htask ↦ absurd htask List.not_mem_nil

theorem not_mem_nil_below : ∀ task ∈ ([] : List Task), task.below :=
  fun _ htask ↦ absurd htask List.not_mem_nil

-- A task outside of any mutex becomes other such tasks, and no pipe changes.
theorem quiet_inv (new : List Task) (sabs : UInt64 → Nat) (hw : Inv w) (ht : t < w.nThreads)
    (htasks : (w.threads t).tasks = task :: rest) (hheld : ∀ task ∈ new, task.Held (w.threads t))
    (hbelow : ∀ task ∈ new.tail, task.below) (hold : task.critical = none)
    (hnew : new.head?.bind Task.critical = none)
    (hsabs : ∀ x, sabs x + task.sabs.count x = w.sabs x + (new.flatMap Task.sabs).count x)
    (hrefs : ∀ q, task.refs.count q = (new.flatMap Task.refs).count q)
    (hdestroys : new.flatMap Task.destroys = task.destroys) :
    Inv ({ w with sabs := sabs }.setThread t { w.threads t with tasks := new ++ rest }) := by
  refine inv_quiet [task] _ _ _ hw ht (hw.retask htasks hheld hbelow) hold hnew ?_ ?_ ?_
  · intro x
    have hbal := hsabs x
    rw [List.flatMap_singleton]
    dsimp only
    omega
  · intro q
    rw [List.flatMap_singleton, hrefs q]
    rfl
  · rw [List.flatMap_singleton]
    exact hdestroys

theorem dupSabs_safe {msg : JSWorkerMessage} {i : Nat} {fail : Bool} (hw : Inv w)
    (ht : t < w.nThreads) (htasks : (w.threads t).tasks = .dupSabs ps msg i :: rest) :
    Safe (taskStep w t (w.threads t) rest fail (.dupSabs ps msg i)) := by
  have hheld : ps ∈ (w.threads t).workers.map JSWorkerData.sendPipe ∧
      ∀ x ∈ msg.sabTab, x ∈ (w.threads t).buffers := hw.head_held htasks
  rw [taskStep]
  cases hget : msg.sabTab[i]? with
  | none =>
    have hall : msg.sabTab.take i = msg.sabTab :=
      List.take_of_length_le (List.getElem?_eq_none_iff.mp hget)
    refine quiet_inv [.sendLock ps msg] w.sabs hw ht htasks
      (mem_singleton_held hheld.1) not_mem_nil_below rfl rfl ?_ (fun _ ↦ rfl) rfl
    intro x
    rw [List.flatMap_singleton, Task.sabs, hall]
    rfl
  | some x =>
    have hpos : 0 < w.sabs x :=
      hw.sab_pos ht (List.mem_append_left _ (hheld.2 x (List.mem_of_getElem? hget)))
    dsimp only
    rw [jsSabDup_eq hpos]
    refine quiet_inv [.dupSabs ps msg (i + 1)] _ hw ht htasks (mem_singleton_held hheld)
      not_mem_nil_below rfl rfl ?_ (fun _ ↦ rfl) rfl
    intro y
    rw [List.flatMap_singleton, Task.sabs, Task.sabs, count_take_succ hget, update_succ]
    omega

theorem freeMessage_safe {msg : JSWorkerMessage} {i : Nat} {fail : Bool} (hw : Inv w)
    (ht : t < w.nThreads) (htasks : (w.threads t).tasks = .freeMessage msg i :: rest) :
    Safe (taskStep w t (w.threads t) rest fail (.freeMessage msg i)) := by
  rw [taskStep]
  cases hget : msg.sabTab[i]? with
  | none =>
    have hnil : msg.sabTab.drop i = [] :=
      List.drop_eq_nil_of_le (List.getElem?_eq_none_iff.mp hget)
    refine quiet_inv [] w.sabs hw ht htasks not_mem_nil_held not_mem_nil_below rfl
      rfl ?_ (fun _ ↦ rfl) rfl
    intro x
    rw [Task.sabs, hnil]
    rfl
  | some x =>
    obtain ⟨hlt, hx⟩ := List.getElem?_eq_some_iff.mp hget
    have hmem : x ∈ msg.sabTab.drop i := by
      rw [List.drop_eq_getElem_cons hlt, hx]
      exact List.mem_cons_self
    have hpos : 0 < w.sabs x := hw.task_sab_pos ht htasks hmem
    dsimp only
    rw [jsSabFree_eq hpos]
    refine quiet_inv [.freeMessage msg (i + 1)] _ hw ht htasks (mem_singleton_held trivial)
      not_mem_nil_below rfl rfl ?_ (fun _ ↦ rfl) rfl
    intro y
    have hpred := update_pred hpos y
    rw [List.flatMap_singleton, Task.sabs, Task.sabs, count_drop hget]
    omega

-- The receiver of a message takes its own references before the message gives back those it carries.
theorem readObject_safe {msg : JSWorkerMessage} {i : Nat} {fail : Bool} (hw : Inv w)
    (ht : t < w.nThreads) (htasks : (w.threads t).tasks = .readObject msg i :: rest) :
    Safe (taskStep w t (w.threads t) rest fail (.readObject msg i)) := by
  have hdone : Inv (w.setThread t { w.threads t with tasks := [.freeMessage msg 0] ++ rest }) := by
    refine quiet_inv [.freeMessage msg 0] w.sabs hw ht htasks
      (mem_singleton_held trivial) not_mem_nil_below rfl rfl ?_ (fun _ ↦ rfl) rfl
    intro x
    rw [List.flatMap_singleton]
    rfl
  rw [taskStep]
  cases fail with
  | true => exact hdone
  | false =>
    cases hget : msg.sabTab[i]? with
    | none => exact hdone
    | some x =>
      have hpos : 0 < w.sabs x := hw.task_sab_pos ht htasks (List.mem_of_getElem? hget)
      dsimp only
      rw [jsSabDup_eq hpos]
      refine inv_quiet [.readObject msg i] [.readObject msg (i + 1)] _ _ hw ht
        ⟨htasks, rfl, hw.rest_below htasks, not_mem_nil_below, mem_singleton_held trivial,
          fun task htask ↦ held_of_below rfl (hw.rest_below htasks task htask)⟩ rfl rfl ?_
        (fun _ ↦ rfl) rfl
      intro y
      show update w.sabs x (w.sabs x + 1) y + _ =
        w.sabs y + ((x :: (w.threads t).buffers).count y + _)
      rw [List.flatMap_singleton, List.flatMap_singleton, update_succ, List.count_cons]
      show _ + (_ + msg.sabTab.count y) = _ + (_ + msg.sabTab.count y)
      by_cases hxy : x = y
      · simp only [hxy, beq_self_eq_true, if_true]
        omega
      · simp only [hxy, beq_iff_eq, if_false]
        omega

/-! ## The memory of pipes -/

-- A task outside of any mutex changes the count of a pipe.
theorem count_inv (new : List Task) {n : Nat} (hw : Inv w) (ht : t < w.nThreads)
    (htasks : (w.threads t).tasks = task :: rest) (hpos : 0 < (w.pipes ps).refCount)
    (hheld : ∀ task ∈ new, task.Held (w.threads t)) (hbelow : ∀ task ∈ new.tail, task.below)
    (hold : task.critical = none) (hnew : new.head?.bind Task.critical = none)
    (hsabs : new.flatMap Task.sabs = task.sabs)
    (hrefs : ∀ q, (if q = ps then n else (w.pipes q).refCount) + task.refs.count q =
      (w.pipes q).refCount + (new.flatMap Task.refs).count q)
    (hdestroys : ∀ q, (new.flatMap Task.destroys).count q =
      task.destroys.count q + if q = ps ∧ n = 0 then 1 else 0) :
    Inv ((w.setPipe ps { w.pipes ps with refCount := n }).setThread t
      { w.threads t with tasks := new ++ rest }) := by
  have halive : (w.pipes ps).freed = false := by
    by_contra hfreed
    rw [hw.freed ps (by simpa using hfreed)] at hpos
    exact Nat.lt_irrefl 0 hpos
  refine inv_outside [task] _ _ ({ w.pipes ps with refCount := n }) w.sabs hw
    ht (hw.lt_nPipes hpos) (hw.retask htasks hheld hbelow) hold hnew rfl (fun _ ↦ hpos) ?_ ?_ ?_ ?_
  · intro hfreed
    have hfreed' : (w.pipes ps).freed = true := hfreed
    rw [halive] at hfreed'
    cases hfreed'
  · intro x
    rw [List.flatMap_singleton, hsabs]
  · intro q
    have hbal := hrefs q
    rw [List.flatMap_singleton, update_apply]
    show JSWorkerMessagePipe.refCount (if q = ps then _ else w.pipes q) + (_ + _) = _ + (_ + _)
    rw [apply_ite JSWorkerMessagePipe.refCount]
    show (if q = ps then n else (w.pipes q).refCount) + (_ + _) = _ + ((w.threads t).base.count q + _)
    omega
  · intro q
    rw [List.flatMap_singleton, hdestroys q]
    by_cases hq : q = ps
    · have hdoomed : (w.pipes ps).doomed = 0 := if_neg fun h ↦ Nat.ne_of_gt hpos h.1
      rw [hq, update_self, hdoomed]
      simp [JSWorkerMessagePipe.doomed, halive]
    · rw [update_of_ne hq, if_neg fun h ↦ hq h.1]
      rfl

theorem freePipe_safe {fail : Bool} (hw : Inv w) (ht : t < w.nThreads)
    (htasks : (w.threads t).tasks = .freePipe ps :: rest) :
    Safe (taskStep w t (w.threads t) rest fail (.freePipe ps)) := by
  have hpos : 0 < (w.pipes ps).refCount := hw.task_ref_pos ht htasks (List.mem_singleton_self ps)
  rw [taskStep, hw.pipe_eq hpos]
  simp only [bind, Except.bind]
  rw [if_neg (Nat.ne_of_gt hpos)]
  have hnone : ∀ tasks : List Task, tasks = (if (w.pipes ps).refCount = 1 then [.destroyPipe ps] else [])
      → (∀ task ∈ tasks, task.Held (w.threads t)) ∧ (∀ task ∈ tasks.tail, task.below) ∧
        tasks.head?.bind Task.critical = none ∧ tasks.flatMap Task.sabs = [] ∧
        tasks.flatMap Task.refs = [] ∧ ∀ q, (tasks.flatMap Task.destroys).count q =
          if q = ps ∧ (w.pipes ps).refCount - 1 = 0 then 1 else 0 := by
    intro tasks htasks
    by_cases hone : (w.pipes ps).refCount = 1
    · rw [if_pos hone] at htasks
      rw [htasks]
      refine ⟨mem_singleton_held trivial, not_mem_nil_below, rfl, rfl, rfl, fun q ↦ ?_⟩
      rw [List.flatMap_singleton, Task.destroys, List.count_singleton, hone]
      by_cases hq : q = ps
      · simp [hq]
      · simp [hq, Ne.symm hq]
    · rw [if_neg hone] at htasks
      rw [htasks]
      refine ⟨not_mem_nil_held, not_mem_nil_below, rfl, rfl, rfl, fun q ↦ ?_⟩
      rw [if_neg (by omega)]
      rfl
  obtain ⟨hheld, hbelow, hhead, hsabs, hrefs, hdestroys⟩ := hnone _ rfl
  refine count_inv _ hw ht htasks hpos hheld hbelow rfl hhead hsabs ?_ ?_
  · intro q
    rw [hrefs, Task.refs, List.count_singleton, List.count_nil]
    by_cases hq : q = ps
    · rw [if_pos hq, if_pos (by simp [hq]), hq]
      omega
    · rw [if_neg hq, if_neg (by simp [Ne.symm hq])]
  · intro q
    rw [hdestroys q]
    exact (Nat.zero_add _).symm

-- A pipe that is taken down is locked by nobody: whoever has locked it holds a reference.
theorem Inv.destroying (hw : Inv w) (ht : t < w.nThreads)
    (htasks : (w.threads t).tasks = .destroyPipe ps :: rest) :
    (w.pipes ps).refCount = 0 ∧ (w.pipes ps).freed = false ∧ (w.pipes ps).mutex = none ∧
      ps < w.nPipes := by
  have hle := le_total (f := fun th : Thread ↦ th.destroys.count ps) (g := w.threads) ht
  have hmem : ps ∈ (w.threads t).destroys := by
    rw [Thread.destroys, htasks]
    exact List.mem_append_left _ (List.mem_singleton_self ps)
  have hcount := List.count_pos_iff.mpr hmem
  have hdoomed := hw.destroys ps
  rw [World.destroyers, JSWorkerMessagePipe.doomed] at hdoomed
  have hboth : (w.pipes ps).refCount = 0 ∧ (w.pipes ps).freed = false := by
    by_contra hnot
    rw [if_neg hnot] at hdoomed
    omega
  refine ⟨hboth.1, hboth.2, ?_, ?_⟩
  · cases hm : (w.pipes ps).mutex with
    | none => rfl
    | some u =>
      have hinside := (hw.mutex u ps).mpr hm
      have hu : u < w.nThreads := by
        by_contra hge
        rw [hw.threadsEnd u (Nat.le_of_not_lt hge)] at hinside
        cases hinside
      have hbase : ps ∈ (w.threads u).base := by
        cases htasks' : (w.threads u).tasks with
        | nil =>
          rw [Thread.inside, htasks'] at hinside
          cases hinside
        | cons task rest =>
          have hcritical : task.critical = some ps := by
            rw [Thread.inside, htasks'] at hinside
            exact hinside
          have hheld := hw.head_held htasks'
          cases task with
          | sendSignal q msg =>
            cases hcritical
            exact mem_base_of_send hheld
          | sendLink q msg =>
            cases hcritical
            exact mem_base_of_send hheld
          | unlock q =>
            cases hcritical
            exact hheld
          | recvTake q =>
            cases hcritical
            exact mem_base_of_recv hheld
          | recvClear q msg =>
            cases hcritical
            exact mem_base_of_recv hheld
          | _ => cases hcritical
      have hpos := hw.base_pos hu hbase
      rw [hboth.1] at hpos
      exact absurd hpos (Nat.lt_irrefl 0)
  · by_contra hge
    have hfreed := hboth.2
    rw [hw.pipesEnd ps (Nat.le_of_not_lt hge)] at hfreed
    cases hfreed

theorem destroyPipe_safe {fail : Bool} (hw : Inv w) (ht : t < w.nThreads)
    (htasks : (w.threads t).tasks = .destroyPipe ps :: rest) :
    Safe (taskStep w t (w.threads t) rest fail (.destroyPipe ps)) := by
  obtain ⟨hzero, halive, hfree, hlt⟩ := hw.destroying ht htasks
  have hpipe : w.pipe ps = .ok (w.pipes ps) := by
    rw [World.pipe, halive]
    rfl
  rw [taskStep, hpipe]
  simp only [bind, Except.bind]
  split
  · next msg queue hqueue =>
    refine inv_inside [.destroyPipe ps] [.freeMessage msg 0, .destroyPipe ps] hw ht
      hlt (hw.retask htasks ?_ ?_) (Or.inr hfree) (Or.inr hfree) ?_ ?_ rfl rfl ?_ rfl rfl ?_ ?_
    · intro task htask
      rcases List.mem_cons.mp htask with heq | htask
      · rw [heq]
        trivial
      · rw [List.mem_singleton.mp htask]
        trivial
    · intro task htask
      rw [List.mem_singleton.mp htask]
      rfl
    · intro q hq
      cases hq
    · rw [hfree]
      rfl
    · intro x
      have hcount : (w.pipes ps).sabs.count x =
          msg.sabTab.count x + (queue.flatMap JSWorkerMessage.sabTab).count x := by
        rw [JSWorkerMessagePipe.sabs, hqueue, List.flatMap_cons, List.count_append]
      show 0 + _ = (msg.sabTab ++ []).count x + (queue.flatMap JSWorkerMessage.sabTab).count x
      rw [List.append_nil, hcount, Nat.zero_add]
    · intro hpos
      exact absurd (hzero ▸ hpos : 0 < 0) (Nat.lt_irrefl 0)
    · refine ⟨(hw.fifo ps).taken, fun hpos ↦ ?_⟩
      exact absurd (hzero ▸ hpos : 0 < 0) (Nat.lt_irrefl 0)
  · next hqueue =>
    rw [if_neg (by rw [hfree]; simp)]
    refine inv_outside [.destroyPipe ps] [] _ ({ w.pipes ps with freed := true }) w.sabs hw ht hlt
      (hw.retask htasks not_mem_nil_held not_mem_nil_below) rfl rfl rfl id (fun _ ↦ hzero)
      (fun x ↦ rfl) ?_ ?_
    · intro q
      by_cases hq : q = ps
      · rw [hq, update_self]
        rfl
      · rw [update_of_ne hq]
        rfl
    · intro q
      rw [List.flatMap_singleton, Task.destroys, List.count_singleton]
      by_cases hq : q = ps
      · rw [hq, update_self, JSWorkerMessagePipe.doomed, JSWorkerMessagePipe.doomed, hzero, halive]
        simp
      · rw [update_of_ne hq]
        simp [Ne.symm hq]

end QNode.Workers
