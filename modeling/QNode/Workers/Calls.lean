import QNode.Workers.Steps

/-!
# Constructors, finalizers and the begin of calls

The rest of the steps, and what holds in every reachable world.
-/

namespace QNode.Workers

open Function Ledger

variable {w : World} {t ps : Nat} {task : Task} {rest : List Task}

/-! ## The constructor -/

-- A new pipe belongs to the task that made it.
theorem newPipe_inv (next : Task) (hw : Inv w) (ht : t < w.nThreads)
    (htasks : (w.threads t).tasks = task :: rest) (hheld : next.Held (w.threads t))
    (hcritical : task.critical = none) (hcritical' : next.critical = none)
    (hsabs : next.sabs = task.sabs) (hdestroys : next.destroys = task.destroys)
    (hrefs : ∀ q, (if q = w.nPipes then 1 else 0) + task.refs.count q = next.refs.count q) :
    Inv (({ w with
      nPipes := w.nPipes + 1
      pipes := update w.pipes w.nPipes jsNewMessagePipe } : World).setThread t
        { w.threads t with tasks := [next] ++ rest }) := by
  have hnone : w.pipes w.nPipes = .none := hw.pipesEnd _ (Nat.le_refl _)
  have hself : update w.pipes w.nPipes jsNewMessagePipe w.nPipes = jsNewMessagePipe :=
    update_self w.nPipes jsNewMessagePipe w.pipes
  have hretask := hw.retask htasks (mem_singleton_held hheld) not_mem_nil_below
  refine Rewrite.inv w.nPipes _ [task] [next] rest
    ⟨change_setThread hw ht rfl rfl ?_ (Or.inr ⟨rfl, rfl⟩), htasks, ?_, hretask.below,
      hretask.belowNew, ?_, ?_, ⟨rfl, rfl⟩, ?_, ?_, ?_, ?_, ?_, ?_, ?_, ?_, ?_, ?_⟩ hw ht
  · show update w.pipes w.nPipes jsNewMessagePipe = update w.pipes w.nPipes
      (update w.pipes w.nPipes jsNewMessagePipe w.nPipes)
    rw [hself]
  · rw [setThread_self]
  · rw [setThread_self]
    exact hretask.held
  · rw [setThread_self]
    exact hretask.heldRest
  · intro x
    rw [setThread_self, List.flatMap_singleton, List.flatMap_singleton, hsabs]
    show w.sabs x + _ + _ =
      w.sabs x + _ + (update w.pipes w.nPipes jsNewMessagePipe w.nPipes).sabs.count x
    rw [hself, hnone]
    rfl
  · intro q
    have hbal := hrefs q
    rw [setThread_self, List.flatMap_singleton, List.flatMap_singleton]
    show (update w.pipes w.nPipes jsNewMessagePipe q).refCount + ((w.threads t).base.count q + _) =
      _ + ((w.threads t).base.count q + _) + 0
    by_cases hq : q = w.nPipes
    · rw [if_pos hq] at hbal
      rw [hq, hself, hnone]
      rw [hq] at hbal
      show 1 + _ = 0 + _ + 0
      omega
    · rw [if_neg hq] at hbal
      rw [update_of_ne hq]
      omega
  · intro q
    rw [List.flatMap_singleton, List.flatMap_singleton, hdestroys]
    show _ = _ + (update w.pipes w.nPipes jsNewMessagePipe q).doomed
    by_cases hq : q = w.nPipes
    · rw [hq, hself, hnone]
      rfl
    · rw [update_of_ne hq]
  · show (update w.pipes w.nPipes jsNewMessagePipe w.nPipes).freed → _
    rw [hself]
    intro hfreed
    cases hfreed
  · intro q hq
    have hsome : task.critical = some q := hq
    rw [hcritical] at hsome
    cases hsome
  · intro q hq
    have hsome : next.critical = some q := hq
    rw [hcritical'] at hsome
    cases hsome
  · show next.critical = _ ↔ (update w.pipes w.nPipes jsNewMessagePipe w.nPipes).mutex = some t
    rw [hself, hcritical']
    exact iff_of_false (fun hq ↦ by cases hq) (fun hm ↦ by cases hm)
  · intro u _
    show (update w.pipes w.nPipes jsNewMessagePipe w.nPipes).mutex = some u ↔ _
    rw [hself, hnone]
    exact iff_of_false (fun hm ↦ by cases hm) (fun hm ↦ by cases hm)
  · show 0 < (update w.pipes w.nPipes jsNewMessagePipe w.nPipes).refCount →
      (update w.pipes w.nPipes jsNewMessagePipe w.nPipes).waker = if World.ringing _ w.nPipes then 1
        else bell (update w.pipes w.nPipes jsNewMessagePipe w.nPipes).msgQueue
    have hfree : ((({ w with
        nPipes := w.nPipes + 1
        pipes := update w.pipes w.nPipes jsNewMessagePipe } : World).setThread t
          { w.threads t with tasks := [next] ++ rest }).pipes w.nPipes).mutex = none := by
      show (update w.pipes w.nPipes jsNewMessagePipe w.nPipes).mutex = none
      rw [hself]
      rfl
    rw [World.ringing, hfree, hself]
    intro _
    rfl
  · show (update w.pipes w.nPipes jsNewMessagePipe w.nPipes).Fifo
    rw [hself]
    exact ⟨List.prefix_rfl, fun _ ↦ rfl⟩

theorem newRecvPipe_safe {fail : Bool} (hw : Inv w) (ht : t < w.nThreads)
    (htasks : (w.threads t).tasks = .newRecvPipe :: rest) :
    Safe (taskStep w t (w.threads t) rest fail .newRecvPipe) := by
  rw [taskStep]
  cases fail with
  | true =>
    exact quiet_inv [] w.sabs hw ht htasks not_mem_nil_held not_mem_nil_below rfl rfl
      (fun _ ↦ rfl) (fun _ ↦ rfl) rfl
  | false =>
    refine newPipe_inv (.newSendPipe w.nPipes) hw ht htasks trivial rfl rfl rfl rfl fun q ↦ ?_
    show _ + ([] : List Nat).count q = ([w.nPipes] : List Nat).count q
    rw [List.count_nil, List.count_singleton]
    by_cases hq : q = w.nPipes
    · simp [hq]
    · simp [hq, Ne.symm hq]

theorem newSendPipe_safe {recv : Nat} {fail : Bool} (hw : Inv w) (ht : t < w.nThreads)
    (htasks : (w.threads t).tasks = .newSendPipe recv :: rest) :
    Safe (taskStep w t (w.threads t) rest fail (.newSendPipe recv)) := by
  rw [taskStep]
  cases fail with
  | true =>
    exact quiet_inv [.freePipe recv] w.sabs hw ht htasks (mem_singleton_held trivial)
      not_mem_nil_below rfl rfl (fun _ ↦ rfl) (fun _ ↦ rfl) rfl
  | false =>
    refine newPipe_inv (.dupRecv w.nPipes recv true) hw ht htasks trivial rfl rfl rfl rfl
      fun q ↦ ?_
    show _ + ([recv] : List Nat).count q = ([recv, w.nPipes] : List Nat).count q
    simp only [List.count_cons, List.count_nil]
    by_cases hq : q = w.nPipes
    · simp only [hq, beq_self_eq_true, if_true]
      omega
    · simp only [hq, beq_iff_eq, Ne.symm hq, if_false]
      omega

theorem jsDupMessagePipe_eq (hw : Inv w) (hpos : 0 < (w.pipes ps).refCount) :
    w.jsDupMessagePipe ps =
      .ok (w.setPipe ps { w.pipes ps with refCount := (w.pipes ps).refCount + 1 }) := by
  rw [World.jsDupMessagePipe, hw.pipe_eq hpos]
  rfl

theorem freeArgs_held {recv send : Nat} {args : Bool} {th : Thread} :
    ∀ task ∈ freeArgs recv send args, task.Held th := by
  intro task htask
  cases args with
  | true =>
    rcases List.mem_cons.mp htask with heq | htask
    · rw [heq]
      trivial
    · rw [List.mem_singleton.mp htask]
      trivial
  | false => cases htask

theorem freeArgs_below {recv send : Nat} {args : Bool} :
    ∀ task ∈ freeArgs recv send args, task.below := by
  intro task htask
  cases args with
  | true =>
    rcases List.mem_cons.mp htask with heq | htask
    · rw [heq]
      rfl
    · rw [List.mem_singleton.mp htask]
      rfl
  | false => cases htask

-- A finalizer only gives back references.
theorem mem_finalize {worker : JSWorkerData} (h : task ∈ worker.finalize) :
    ∃ q, task = .freePipe q := by
  rcases List.mem_append.mp h with h | h
  · rcases List.mem_cons.mp h with h | h
    · exact ⟨_, h⟩
    · exact ⟨_, List.mem_singleton.mp h⟩
  · cases hport : worker.msgHandler with
    | true =>
      rw [hport] at h
      exact ⟨_, List.mem_singleton.mp h⟩
    | false =>
      rw [hport] at h
      cases h

theorem dupRecv_safe {recv send : Nat} {args fail : Bool} (hw : Inv w) (ht : t < w.nThreads)
    (htasks : (w.threads t).tasks = .dupRecv recv send args :: rest) :
    Safe (taskStep w t (w.threads t) rest fail (.dupRecv recv send args)) := by
  rw [taskStep]
  cases fail with
  | true =>
    refine quiet_inv (freeArgs recv send args) w.sabs hw ht htasks freeArgs_held
      (fun task htask ↦ freeArgs_below task (List.mem_of_mem_tail htask)) rfl ?_ ?_ ?_ ?_
    · cases args <;> rfl
    · cases args <;> exact fun x ↦ rfl
    · cases args <;> exact fun q ↦ rfl
    · cases args <;> rfl
  | false =>
    have hheld := hw.head_held htasks
    have hpos : 0 < (w.pipes recv).refCount := by
      cases args with
      | true => exact hw.task_ref_pos ht htasks (List.mem_cons_of_mem _ (List.mem_singleton_self recv))
      | false =>
        have hpipes : (w.threads t).pipes = some (recv, send) := hheld
        refine hw.base_pos ht (List.mem_append_left _ ?_)
        rw [hpipes]
        exact List.mem_cons_self
    have hheld' : (Task.dupSend recv send args).Held (w.threads t) := by
      cases args <;> exact hheld
    rw [if_neg (by simp), jsDupMessagePipe_eq hw hpos]
    refine count_inv [.dupSend recv send args] hw ht htasks hpos (mem_singleton_held hheld')
      not_mem_nil_below rfl rfl rfl ?_ ?_
    · intro q
      rw [List.flatMap_singleton, Task.refs, Task.refs, List.count_cons]
      by_cases hq : q = recv
      · simp [hq]
        omega
      · simp [hq, Ne.symm hq]
    · intro q
      rw [if_neg fun h ↦ Nat.succ_ne_zero _ h.2]
      rfl

theorem base_cons (th : Thread) (worker : JSWorkerData) (tasks : List Task) (q : Nat) :
    ({ th with workers := worker :: th.workers, tasks := tasks } : Thread).base.count q =
      th.base.count q + worker.refs.count q := by
  simp only [Thread.base, List.flatMap_cons, List.count_append]
  omega

-- The new object of a worker's module holds the references that were made for it.
theorem dupSend_safe {recv send : Nat} {args fail : Bool} (hw : Inv w) (ht : t < w.nThreads)
    (htasks : (w.threads t).tasks = .dupSend recv send args :: rest) :
    Safe (taskStep w t (w.threads t) rest fail (.dupSend recv send args)) := by
  have hheld := hw.head_held htasks
  cases args with
  | true =>
    have hpos : 0 < (w.pipes send).refCount :=
      hw.task_ref_pos ht htasks (List.mem_cons_of_mem _ List.mem_cons_self)
    rw [taskStep, jsDupMessagePipe_eq hw hpos]
    refine count_inv [.createThread recv send] hw ht htasks hpos (mem_singleton_held trivial)
      not_mem_nil_below rfl rfl rfl ?_ ?_
    · intro q
      rw [List.flatMap_singleton]
      show _ + ([recv, send, recv] : List Nat).count q = _ + ([send, recv, recv, send] : List Nat).count q
      simp only [List.count_cons, List.count_nil]
      by_cases hq : q = send
      · simp only [hq, beq_self_eq_true, if_true]
        omega
      · simp only [hq, beq_iff_eq, Ne.symm hq, if_false]
        omega
    · intro q
      rw [if_neg fun h ↦ Nat.succ_ne_zero _ h.2]
      rfl
  | false =>
    have hpipes : (w.threads t).pipes = some (recv, send) := hheld
    have hpos : 0 < (w.pipes send).refCount := by
      refine hw.base_pos ht (List.mem_append_left _ ?_)
      rw [hpipes]
      exact List.mem_cons_of_mem _ List.mem_cons_self
    have halive : (w.pipes send).freed = false := by
      by_contra hfreed
      rw [hw.freed send (by simpa using hfreed)] at hpos
      exact Nat.lt_irrefl 0 hpos
    rw [taskStep, jsDupMessagePipe_eq hw hpos]
    refine inv_outside [.dupSend recv send false] [] rest
      { w.pipes send with refCount := (w.pipes send).refCount + 1 } w.sabs hw ht
      (hw.lt_nPipes hpos) ⟨htasks, rfl, hw.rest_below htasks, not_mem_nil_below, not_mem_nil_held,
        fun task htask ↦ held_of_below rfl (hw.rest_below htasks task htask)⟩ rfl rfl rfl
      (fun _ ↦ hpos) ?_ (fun x ↦ rfl) ?_ ?_
    · intro hfreed
      have hfreed' : (w.pipes send).freed = true := hfreed
      rw [halive] at hfreed'
      cases hfreed'
    · intro q
      rw [base_cons, List.flatMap_singleton]
      show _ + (_ + ([recv] : List Nat).count q) =
        _ + (_ + ([recv, send] : List Nat).count q + 0)
      rw [update_apply]
      by_cases hq : q = send
      · rw [if_pos hq, hq]
        simp only [List.count_cons, List.count_nil, beq_self_eq_true, if_true]
        omega
      · rw [if_neg hq]
        simp only [List.count_cons, List.count_nil, beq_iff_eq, Ne.symm hq, if_false]
        omega
    · intro q
      by_cases hq : q = send
      · rw [hq, update_self, JSWorkerMessagePipe.doomed, JSWorkerMessagePipe.doomed,
          if_neg fun h ↦ Nat.ne_of_gt hpos h.1, if_neg fun h ↦ Nat.succ_ne_zero _ h.1]
        rfl
      · rw [update_of_ne hq]
        rfl

-- The new thread takes over the references of the arguments.
theorem createThread_inv {recv send : Nat} (hw : Inv w) (ht : t < w.nThreads)
    (htasks : (w.threads t).tasks = .createThread recv send :: rest) :
    Inv { w with
      nThreads := w.nThreads + 1
      threads := update (update w.threads t { w.threads t with
        workers := ⟨recv, send, false⟩ :: (w.threads t).workers
        tasks := rest }) w.nThreads (Thread.worker send recv) } := by
  have hne : t ≠ w.nThreads := Nat.ne_of_lt ht
  have hthread : ∀ th : Thread, update (update w.threads t th) w.nThreads (Thread.worker send recv) t =
      th := by
    intro th
    rw [update_of_ne hne, update_self]
  have hinside : (w.threads t).inside = none := by
    rw [Thread.inside, htasks]
    rfl
  have hfree : (w.pipes 0).mutex ≠ some t := by
    intro hm
    rw [(hw.mutex t 0).mpr hm] at hinside
    cases hinside
  refine Rewrite.inv 0 (Thread.worker send recv) [.createThread recv send] [] rest
    ⟨⟨?_, Or.inr rfl, ?_, Or.inl ⟨hw.null, rfl⟩⟩, htasks, ?_, hw.rest_below htasks, not_mem_nil_below,
      not_mem_nil_held, ?_, ⟨rfl, rfl⟩, ?_, ?_, fun q ↦ rfl, hw.freed 0, ?_, ?_, ?_, fun u _ ↦ Iff.rfl,
      ?_, hw.fifo 0⟩ hw ht
  · dsimp only
    rw [hthread]
  · exact (update_eq_self 0 w.pipes).symm
  · dsimp only
    rw [hthread]
    rfl
  · intro task htask
    dsimp only
    rw [hthread]
    exact held_of_below rfl (hw.rest_below htasks task htask)
  · intro x
    dsimp only
    rw [hthread]
    rfl
  · intro q
    dsimp only
    rw [hthread, base_cons, List.flatMap_singleton]
    show _ + (_ + ([send, recv, recv, send] : List Nat).count q) =
      _ + (_ + ([recv, send] : List Nat).count q + 0) + ([send, recv] : List Nat).count q
    simp only [List.count_cons, List.count_nil]
    omega
  · intro q hq
    cases hq
  · intro q hq
    cases hq
  · exact iff_of_false (fun hq ↦ by cases hq) hfree
  · intro hpos
    rw [hw.waker 0 hpos]
    have hring : World.ringing { w with
        nThreads := w.nThreads + 1
        threads := update (update w.threads t { w.threads t with
          workers := ⟨recv, send, false⟩ :: (w.threads t).workers
          tasks := rest }) w.nThreads (Thread.worker send recv) } 0 = w.ringing 0 := by
      rw [World.ringing, World.ringing]
      dsimp only
      cases hm : (w.pipes 0).mutex with
      | none => rfl
      | some u =>
        have hu : u ≠ t := fun heq ↦ hfree (heq ▸ hm)
        have hn : u ≠ w.nThreads := by
          intro heq
          have hin := (hw.mutex u 0).mpr hm
          rw [hw.threadsEnd u (Nat.le_of_eq heq.symm)] at hin
          cases hin
        dsimp only
        rw [update_of_ne hn, update_of_ne hu]
    rw [hring]

theorem createThread_safe {recv send : Nat} {fail : Bool} (hw : Inv w) (ht : t < w.nThreads)
    (htasks : (w.threads t).tasks = .createThread recv send :: rest) :
    Safe (taskStep w t (w.threads t) rest fail (.createThread recv send)) := by
  rw [taskStep]
  cases fail with
  | true =>
    refine quiet_inv _ w.sabs hw ht htasks ?_ ?_ rfl rfl (fun _ ↦ rfl) (fun _ ↦ rfl) rfl
    · intro task htask
      rcases List.mem_append.mp htask with hargs | hobj
      · exact freeArgs_held task hargs
      · obtain ⟨q, rfl⟩ := mem_finalize hobj
        trivial
    · intro task htask
      rcases List.mem_append.mp (List.mem_of_mem_tail htask) with hargs | hobj
      · exact freeArgs_below task hargs
      · obtain ⟨q, rfl⟩ := mem_finalize hobj
        rfl
  | false => exact createThread_inv hw ht htasks

/-! ## Every task -/

theorem taskStep_safe {fail : Bool} (hw : Inv w) (ht : t < w.nThreads)
    (htasks : (w.threads t).tasks = task :: rest) :
    Safe (taskStep w t (w.threads t) rest fail task) := by
  cases task with
  | dupSabs ps msg i => exact dupSabs_safe hw ht htasks
  | sendLock ps msg =>
    have hheld : ps ∈ (w.threads t).workers.map JSWorkerData.sendPipe := hw.head_held htasks
    rw [taskStep]
    exact lock_safe (.sendSignal ps msg) hw ht htasks (hw.base_pos ht (mem_base_of_send hheld))
      hheld rfl rfl rfl rfl rfl rfl
  | sendSignal ps msg =>
    have hheld : ps ∈ (w.threads t).workers.map JSWorkerData.sendPipe := hw.head_held htasks
    have hpos := hw.base_pos ht (mem_base_of_send hheld)
    have hwaker := hw.waker ps hpos
    rw [hw.ringing_eq htasks rfl] at hwaker
    rw [taskStep, hw.pipe_eq hpos]
    simp only [bind, Except.bind]
    rw [signal_eq hwaker]
    exact inside_inv hw ht htasks rfl hpos (sendSignal_inside hw htasks)
  | sendLink ps msg =>
    have hheld : ps ∈ (w.threads t).workers.map JSWorkerData.sendPipe := hw.head_held htasks
    have hpos := hw.base_pos ht (mem_base_of_send hheld)
    rw [taskStep, hw.pipe_eq hpos]
    exact inside_inv hw ht htasks rfl hpos (sendLink_inside hw htasks hpos)
  | unlock ps =>
    have hpos := hw.base_pos ht (hw.head_held htasks)
    have hlocked := hw.locked htasks rfl
    rw [taskStep, World.unlock, hw.pipe_eq hpos]
    simp only [bind, Except.bind]
    rw [if_pos hlocked]
    exact inside_inv hw ht htasks rfl hpos (unlock_inside hw htasks hpos)
  | recvLock ps =>
    have hheld : ps ∈ (w.threads t).workers.map JSWorkerData.recvPipe := hw.head_held htasks
    rw [taskStep]
    exact lock_safe (.recvTake ps) hw ht htasks (hw.base_pos ht (mem_base_of_recv hheld)) hheld
      rfl rfl rfl rfl rfl rfl
  | recvTake ps =>
    have hheld : ps ∈ (w.threads t).workers.map JSWorkerData.recvPipe := hw.head_held htasks
    have hpos := hw.base_pos ht (mem_base_of_recv hheld)
    rw [taskStep, hw.pipe_eq hpos]
    simp only [bind, Except.bind]
    split
    · next hqueue =>
      have hinv := inside_inv hw ht htasks rfl hpos (recvTake_empty_inside hw htasks hpos)
      have hsame : w.setPipe ps (w.pipes ps) = w := by
        rw [World.setPipe, update_eq_self]
      rw [hsame] at hinv
      exact hinv
    · next msg queue hqueue =>
      exact inside_inv hw ht htasks rfl hpos (recvTake_inside hw htasks hpos hqueue)
  | recvClear ps msg =>
    have hheld : ps ∈ (w.threads t).workers.map JSWorkerData.recvPipe := hw.head_held htasks
    have hpos := hw.base_pos ht (mem_base_of_recv hheld)
    have hwaker := hw.waker ps hpos
    rw [hw.ringing_eq htasks rfl, Task.rings, if_pos rfl] at hwaker
    rw [taskStep, hw.pipe_eq hpos]
    simp only [bind, Except.bind]
    rw [clear_eq hwaker]
    exact inside_inv hw ht htasks rfl hpos (recvClear_inside hw htasks)
  | readObject msg i => exact readObject_safe hw ht htasks
  | freeMessage msg i => exact freeMessage_safe hw ht htasks
  | freePipe ps => exact freePipe_safe hw ht htasks
  | destroyPipe ps => exact destroyPipe_safe hw ht htasks
  | newRecvPipe => exact newRecvPipe_safe hw ht htasks
  | newSendPipe recv => exact newSendPipe_safe hw ht htasks
  | dupRecv recv send args => exact dupRecv_safe hw ht htasks
  | dupSend recv send args => exact dupSend_safe hw ht htasks
  | createThread recv send => exact createThread_safe hw ht htasks

/-! ## Finalizers and the begin of calls -/

theorem flatMap_refs_eraseIdx {workers : List JSWorkerData} {i : Nat} {worker : JSWorkerData}
    (h : workers[i]? = some worker) (q : Nat) :
    (workers.flatMap JSWorkerData.refs).count q =
      ((workers.eraseIdx i).flatMap JSWorkerData.refs).count q + worker.refs.count q := by
  induction workers generalizing i with
  | nil => cases h
  | cons first workers ih =>
    cases i with
    | zero =>
      cases Option.some_inj.mp h
      rw [List.flatMap_cons, List.count_append, List.eraseIdx_cons_zero, Nat.add_comm]
    | succ i =>
      rw [List.eraseIdx_cons_succ, List.flatMap_cons, List.flatMap_cons, List.count_append,
        List.count_append, ih h]
      omega

theorem flatMap_refs_set {workers : List JSWorkerData} {i : Nat} {worker : JSWorkerData}
    (h : workers[i]? = some worker) (worker' : JSWorkerData) (q : Nat) :
    (workers.flatMap JSWorkerData.refs).count q + worker'.refs.count q =
      ((workers.set i worker').flatMap JSWorkerData.refs).count q + worker.refs.count q := by
  induction workers generalizing i with
  | nil => cases h
  | cons first workers ih =>
    cases i with
    | zero =>
      cases Option.some_inj.mp h
      rw [List.set_cons_zero, List.flatMap_cons, List.flatMap_cons, List.count_append,
        List.count_append]
      omega
    | succ i =>
      have hrest := ih h
      rw [List.set_cons_succ, List.flatMap_cons, List.flatMap_cons, List.count_append,
        List.count_append]
      omega

theorem finalize_refs (worker : JSWorkerData) :
    worker.finalize.flatMap Task.refs = worker.refs := by
  rw [JSWorkerData.finalize, JSWorkerData.refs, List.flatMap_append]
  cases worker.msgHandler <;> rfl

theorem finalize_sabs (worker : JSWorkerData) : worker.finalize.flatMap Task.sabs = [] := by
  rw [JSWorkerData.finalize, List.flatMap_append]
  cases worker.msgHandler <;> rfl

theorem finalize_destroys (worker : JSWorkerData) :
    worker.finalize.flatMap Task.destroys = [] := by
  rw [JSWorkerData.finalize, List.flatMap_append]
  cases worker.msgHandler <;> rfl

theorem freeBuffer_safe {x : UInt64} (hw : Inv w) (ht : t < w.nThreads)
    (hbelow : ∀ task ∈ (w.threads t).tasks, task.below) :
    Safe (finalizeStep w t (w.threads t) (.freeBuffer x)) := by
  rw [finalizeStep]
  by_cases hx : x ∈ (w.threads t).buffers
  · have hpos : 0 < w.sabs x := hw.sab_pos ht (List.mem_append_left _ hx)
    rw [if_pos hx, jsSabFree_eq hpos]
    refine inv_quiet [] [] (w.threads t).tasks _ hw ht
      ⟨rfl, rfl, hbelow, not_mem_nil_below, not_mem_nil_held,
        fun task htask ↦ held_of_below rfl (hbelow task htask)⟩ rfl rfl ?_ (fun _ ↦ rfl) rfl
    intro y
    have hpred := update_pred hpos y
    have hcount := List.count_pos_iff.mpr hx
    show update w.sabs x (w.sabs x - 1) y + ((w.threads t).buffers.count y + 0) =
      w.sabs y + (((w.threads t).buffers.erase x).count y + 0)
    by_cases hxy : x = y
    · rw [if_pos hxy] at hpred
      rw [← hxy, List.count_erase_self]
      rw [← hxy] at hpred
      omega
    · rw [if_neg hxy] at hpred
      rw [List.count_erase_of_ne (Ne.symm hxy)]
      omega
  · rw [if_neg hx]
    trivial

theorem freeWorker_safe {i : Nat} (hw : Inv w) (ht : t < w.nThreads)
    (hbelow : ∀ task ∈ (w.threads t).tasks, task.below) :
    Safe (finalizeStep w t (w.threads t) (.freeWorker i)) := by
  rw [finalizeStep]
  cases hget : (w.threads t).workers[i]? with
  | none => trivial
  | some worker =>
    refine inv_quiet [] worker.finalize (w.threads t).tasks w.sabs hw ht
      ⟨rfl, rfl, hbelow, ?_, ?_,
        fun task htask ↦ held_of_below rfl (hbelow task htask)⟩ rfl rfl ?_ ?_ ?_
    · intro task htask
      obtain ⟨q, rfl⟩ := mem_finalize (List.mem_of_mem_tail htask)
      rfl
    · intro task htask
      obtain ⟨q, rfl⟩ := mem_finalize htask
      trivial
    · intro x
      rw [finalize_sabs]
      rfl
    · intro q
      rw [finalize_refs, Thread.base, Thread.base, List.count_append,
        flatMap_refs_eraseIdx hget, List.count_append]
      exact (Nat.add_assoc _ _ _).symm
    · exact finalize_destroys worker

theorem mem_workers_recv {th : Thread} {i : Nat} {worker : JSWorkerData}
    (h : th.workers[i]? = some worker) : worker.recvPipe ∈ th.workers.map JSWorkerData.recvPipe :=
  List.mem_map_of_mem (List.mem_of_getElem? h)

theorem mem_workers_send {th : Thread} {i : Nat} {worker : JSWorkerData}
    (h : th.workers[i]? = some worker) : worker.sendPipe ∈ th.workers.map JSWorkerData.sendPipe :=
  List.mem_map_of_mem (List.mem_of_getElem? h)

-- A thread in no call begins one, and no pipe changes.
theorem begin_inv (new : List Task) (sabs : UInt64 → Nat) {th : Thread} (hw : Inv w)
    (ht : t < w.nThreads) (htasks : (w.threads t).tasks = []) (htasks' : th.tasks = new)
    (hheld : ∀ task ∈ new, task.Held th) (hbelow : ∀ task ∈ new.tail, task.below)
    (hnew : new.head?.bind Task.critical = none) (hnone : new.flatMap Task.sabs = [])
    (hdestroys : new.flatMap Task.destroys = [])
    (hsabs : ∀ x, sabs x + (w.threads t).buffers.count x = w.sabs x + th.buffers.count x)
    (hrefs : ∀ q, (w.threads t).base.count q = th.base.count q + (new.flatMap Task.refs).count q) :
    Inv ({ w with sabs := sabs }.setThread t th) := by
  refine inv_quiet [] new [] _ hw ht
    ⟨htasks, by rw [htasks', List.append_nil], not_mem_nil_below, hbelow, hheld,
      fun task htask ↦ absurd htask List.not_mem_nil⟩ rfl hnew ?_ ?_ hdestroys
  · intro x
    rw [hnone]
    exact hsabs x
  · intro q
    exact hrefs q

theorem newBuffer_safe {x : UInt64} (hw : Inv w) (ht : t < w.nThreads)
    (htasks : (w.threads t).tasks = []) : Safe (beginStep w t (w.threads t) (.newBuffer x)) := by
  rw [beginStep]
  by_cases hx : (w.threads t).running ∧ w.sabs x = 0
  · rw [if_pos hx]
    refine begin_inv [] _ hw ht htasks htasks not_mem_nil_held not_mem_nil_below rfl rfl rfl ?_
      (fun _ ↦ rfl)
    intro y
    rw [List.count_cons, update_apply]
    by_cases hxy : x = y
    · rw [if_pos hxy.symm, ← hxy, hx.2]
      simp
      omega
    · rw [if_neg (Ne.symm hxy)]
      simp [hxy]
  · rw [if_neg hx]
    trivial

theorem postMessage_safe {i : Nat} {msg : JSWorkerMessage} (hw : Inv w) (ht : t < w.nThreads)
    (htasks : (w.threads t).tasks = []) :
    Safe (beginStep w t (w.threads t) (.postMessage i msg)) := by
  rw [beginStep]
  cases hget : (w.threads t).workers[i]? with
  | none => trivial
  | some worker =>
    dsimp only
    split
    · next hguard =>
      have hown := fun x hx ↦ of_decide_eq_true (List.all_eq_true.mp hguard.2 x hx)
      refine begin_inv [.dupSabs worker.sendPipe msg 0] w.sabs hw ht htasks rfl
        (mem_singleton_held ⟨mem_workers_send hget, hown⟩) not_mem_nil_below rfl ?_ rfl
        (fun _ ↦ rfl) (fun _ ↦ rfl)
      rw [List.flatMap_singleton, Task.sabs, List.take_zero]
    · trivial

theorem poll_safe {i : Nat} (hw : Inv w) (ht : t < w.nThreads)
    (htasks : (w.threads t).tasks = []) : Safe (beginStep w t (w.threads t) (.poll i)) := by
  rw [beginStep]
  cases hget : (w.threads t).workers[i]? with
  | none => trivial
  | some worker =>
    have hrecv := mem_workers_recv hget
    have hpos := hw.base_pos ht (mem_base_of_recv hrecv)
    dsimp only
    split
    · rw [hw.pipe_eq hpos]
      simp only [bind, Except.bind]
      split
      · trivial
      · exact begin_inv [.recvLock worker.recvPipe] w.sabs hw ht htasks rfl
          (mem_singleton_held hrecv) not_mem_nil_below rfl rfl rfl (fun _ ↦ rfl) (fun _ ↦ rfl)
    · trivial

theorem base_set {th : Thread} {i : Nat} {worker : JSWorkerData} (h : th.workers[i]? = some worker)
    (worker' : JSWorkerData) (tasks : List Task) (q : Nat) :
    th.base.count q + worker'.refs.count q =
      ({ th with workers := th.workers.set i worker', tasks := tasks } : Thread).base.count q +
        worker.refs.count q := by
  have hset := flatMap_refs_set h worker' q
  simp only [Thread.base, List.count_append]
  omega

theorem setOnmessage_safe {i : Nat} {function : Bool} (hw : Inv w) (ht : t < w.nThreads)
    (htasks : (w.threads t).tasks = []) :
    Safe (beginStep w t (w.threads t) (.setOnmessage i function)) := by
  rw [beginStep]
  cases hget : (w.threads t).workers[i]? with
  | none => trivial
  | some worker =>
    have hpos := hw.base_pos ht (mem_base_of_recv (mem_workers_recv hget))
    obtain ⟨recv, send, handler⟩ := worker
    have hcount : ∀ q (tasks : List Task) (handler' : Bool), _ := fun q tasks handler' ↦
      base_set hget ⟨recv, send, handler'⟩ tasks q
    dsimp only
    split
    · trivial
    · cases function with
      | true =>
        cases handler with
        | true => exact hw
        | false =>
          -- the new port gets a reference of its own
          simp only [if_true, if_false, Bool.false_eq_true]
          rw [jsDupMessagePipe_eq hw hpos]
          have halive : (w.pipes recv).freed = false := by
            by_contra hfreed
            have hzero := hw.freed recv (by simpa using hfreed)
            exact absurd (hzero ▸ hpos : 0 < 0) (Nat.lt_irrefl 0)
          refine inv_outside [] [] []
            { w.pipes recv with refCount := (w.pipes recv).refCount + 1 } w.sabs hw
            ht (hw.lt_nPipes hpos) ⟨htasks, htasks, not_mem_nil_below, not_mem_nil_below,
              not_mem_nil_held, fun task htask ↦ absurd htask List.not_mem_nil⟩ rfl rfl rfl
            (fun _ ↦ hpos) ?_ (fun x ↦ rfl) ?_ ?_
          · intro hfreed
            have hfreed' : (w.pipes recv).freed = true := hfreed
            rw [halive] at hfreed'
            cases hfreed'
          · intro q
            have hset := hcount q (w.threads t).tasks true
            have hnew : (⟨recv, send, true⟩ : JSWorkerData).refs.count q =
                (⟨recv, send, false⟩ : JSWorkerData).refs.count q + ([recv] : List Nat).count q :=
              List.count_append
            rw [hnew, List.count_singleton] at hset
            show _ + (_ + 0) = _ + (_ + 0)
            rw [update_apply]
            by_cases hq : q = recv
            · rw [if_pos hq]
              simp only [hq, beq_self_eq_true, if_true] at hset ⊢
              omega
            · rw [if_neg hq]
              simp only [beq_iff_eq, Ne.symm hq, if_false] at hset
              omega
          · intro q
            by_cases hq : q = recv
            · rw [hq, update_self, JSWorkerMessagePipe.doomed, JSWorkerMessagePipe.doomed,
                if_neg fun h ↦ Nat.ne_of_gt hpos h.1, if_neg fun h ↦ Nat.succ_ne_zero _ h.1]
            · rw [update_of_ne hq]
      | false =>
        cases handler with
        | false => exact hw
        | true =>
          refine begin_inv [.freePipe recv] w.sabs hw ht htasks rfl
            (mem_singleton_held trivial) not_mem_nil_below rfl rfl rfl (fun _ ↦ rfl) ?_
          intro q
          have hset := hcount q [.freePipe recv] false
          have hold : (⟨recv, send, true⟩ : JSWorkerData).refs.count q =
              (⟨recv, send, false⟩ : JSWorkerData).refs.count q + ([recv] : List Nat).count q :=
            List.count_append
          rw [hold] at hset
          rw [List.flatMap_singleton]
          show _ = _ + ([recv] : List Nat).count q
          omega

theorem beginStep_safe {e : Event} (hw : Inv w) (ht : t < w.nThreads)
    (htasks : (w.threads t).tasks = []) : Safe (beginStep w t (w.threads t) e) := by
  cases e with
  | go fail => trivial
  | freeBuffer x => trivial
  | freeWorker i => trivial
  | newBuffer x => exact newBuffer_safe hw ht htasks
  | postMessage i msg => exact postMessage_safe hw ht htasks
  | poll i => exact poll_safe hw ht htasks
  | setOnmessage i function => exact setOnmessage_safe hw ht htasks
  | newWorker =>
    rw [beginStep]
    split
    · exact begin_inv [.newRecvPipe] w.sabs hw ht htasks rfl
        (mem_singleton_held trivial) not_mem_nil_below rfl rfl rfl (fun _ ↦ rfl) (fun _ ↦ rfl)
    · trivial
  | importOs =>
    rw [beginStep]
    cases hpipes : (w.threads t).pipes with
    | none => trivial
    | some pipes =>
      obtain ⟨recv, send⟩ := pipes
      dsimp only
      split
      · refine begin_inv [.dupRecv recv send false] w.sabs hw ht htasks rfl
          (mem_singleton_held rfl) not_mem_nil_below rfl rfl rfl (fun _ ↦ rfl) fun q ↦ ?_
        rw [Thread.base, Thread.base, hpipes]
        rfl
      · trivial
  | leave =>
    rw [beginStep]
    cases hpipes : (w.threads t).pipes with
    | none => trivial
    | some pipes =>
      obtain ⟨recv, send⟩ := pipes
      dsimp only
      split
      · refine begin_inv [.freePipe recv, .freePipe send] w.sabs hw ht htasks rfl ?_
          ?_ rfl rfl rfl (fun _ ↦ rfl) ?_
        · intro task htask
          rcases List.mem_cons.mp htask with heq | htask
          · rw [heq]
            trivial
          · rw [List.mem_singleton.mp htask]
            trivial
        · intro task htask
          rw [List.mem_singleton.mp htask]
          rfl
        · intro q
          rw [Thread.base, Thread.base, hpipes]
          show (([recv, send] ++ []) ++ _).count q = ([] ++ _).count q + ([recv, send] ++ []).count q
          simp only [List.count_append, List.count_nil]
          omega
      · trivial

theorem finalizeStep_safe {e : Event} (hw : Inv w) (ht : t < w.nThreads)
    (hbelow : ∀ task ∈ (w.threads t).tasks, task.below) :
    Safe (finalizeStep w t (w.threads t) e) := by
  cases e with
  | freeBuffer x => exact freeBuffer_safe hw ht hbelow
  | freeWorker i => exact freeWorker_safe hw ht hbelow
  | _ => trivial

theorem Task.below_of_collects (h : task.collects) : task.below := by
  cases task with
  | readObject msg i => rfl
  | dupRecv recv send args => rfl
  | _ => cases h

-- Whatever thread is next, and whatever it does.
theorem step_safe {e : Event} (hw : Inv w) : Safe (step w t e) := by
  unfold step
  by_cases ht : t < w.nThreads
  · rw [if_pos ht]
    cases htasks : (w.threads t).tasks with
    | nil =>
      have hbelow : ∀ task ∈ (w.threads t).tasks, task.below := by
        rw [htasks]
        exact not_mem_nil_below
      cases e with
      | freeBuffer x => exact finalizeStep_safe hw ht hbelow
      | freeWorker i => exact finalizeStep_safe hw ht hbelow
      | _ => exact beginStep_safe hw ht htasks
    | cons task rest =>
      have hfinal : ∀ e, Safe (if task.collects then finalizeStep w t (w.threads t) e
          else .error .blocked) := by
        intro e
        by_cases hcollects : task.collects
        · rw [if_pos hcollects]
          refine finalizeStep_safe hw ht ?_
          intro task' htask'
          rw [htasks] at htask'
          rcases List.mem_cons.mp htask' with heq | hrest
          · rw [heq]
            exact Task.below_of_collects hcollects
          · exact hw.rest_below htasks task' hrest
        · rw [if_neg hcollects]
          trivial
      cases e with
      | go fail => exact taskStep_safe hw ht htasks
      | _ => exact hfinal _
  · rw [if_neg ht]
    trivial

theorem Reachable.inv (h : Reachable w) : Inv w := by
  induction h with
  | init => exact inv_init
  | step t e _ hstep ih =>
    have hsafe := step_safe (t := t) (e := e) ih
    rw [hstep] at hsafe
    exact hsafe

end QNode.Workers
