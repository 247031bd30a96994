import QNode.Workers.Safety

/-!
# Nobody waits in vain

A thread inside a mutex comes out after at most three steps of its own, so a thread that waits for the mutex
can get it.  A thread that `select` has woken finds a message.
-/

namespace QNode.Workers

open Function Ledger

variable {w w' : World} {t u ps : Nat} {task : Task} {rest : List Task}

/-! ## Out of the mutex -/

/-- The steps to the end of the critical section. -/
def Task.remaining : Task → Nat
  | .sendSignal _ _ => 3
  | .sendLink _ _ => 2
  | .recvTake _ => 3
  | .recvClear _ _ => 2
  | _ => 1

theorem remaining_le (task : Task) : task.remaining ≤ 3 := by
  cases task <;> simp [Task.remaining]

theorem step_task (ht : t < w.nThreads) (htasks : (w.threads t).tasks = task :: rest) (fail : Bool) :
    step w t (.go fail) = taskStep w t (w.threads t) rest fail task := by
  unfold step
  rw [if_pos ht]
  simp only [htasks]

/-- What a step inside the mutex does: it is taken, it concerns no other thread, and the end comes nearer. -/
def Advances (w : World) (u ps : Nat) (task : Task) : Prop :=
  ∃ w', step w u (.go false) = .ok w' ∧ (∀ t ≠ u, w'.threads t = w.threads t) ∧
    w'.nThreads = w.nThreads ∧
    ((task.remaining = 1 ∧ (w'.pipes ps).mutex = none) ∨
      ∃ task' rest', (w'.threads u).tasks = task' :: rest' ∧ task'.critical = some ps ∧
        task'.remaining < task.remaining)

theorem advances_next (pipe : JSWorkerMessagePipe) (next : Task) (rest' : List Task)
    (hstep : step w u (.go false) = .ok ((w.setPipe ps pipe).setThread u
      { w.threads u with tasks := next :: rest' }))
    (hcritical : next.critical = some ps) (hrank : next.remaining < task.remaining) :
    Advances w u ps task := by
  refine ⟨_, hstep, fun t ht ↦ ?_, rfl, Or.inr ⟨next, rest', ?_, hcritical, hrank⟩⟩
  · exact update_of_ne ht _ _
  · rw [setThread_self]

theorem inside_pos (hw : Inv w) (hu : u < w.nThreads) (htasks : (w.threads u).tasks = task :: rest)
    (hcritical : task.critical = some ps) : 0 < (w.pipes ps).refCount := by
  have hheld := hw.head_held htasks
  cases task with
  | sendSignal q msg =>
    cases hcritical
    exact hw.base_pos hu (mem_base_of_send hheld)
  | sendLink q msg =>
    cases hcritical
    exact hw.base_pos hu (mem_base_of_send hheld)
  | unlock q =>
    cases hcritical
    exact hw.base_pos hu hheld
  | recvTake q =>
    cases hcritical
    exact hw.base_pos hu (mem_base_of_recv hheld)
  | recvClear q msg =>
    cases hcritical
    exact hw.base_pos hu (mem_base_of_recv hheld)
  | _ => cases hcritical

-- By cases on the task: each of them is possible at once.
theorem advances (hw : Inv w) (hu : u < w.nThreads) (htasks : (w.threads u).tasks = task :: rest)
    (hcritical : task.critical = some ps) : Advances w u ps task := by
  have hpos := inside_pos hw hu htasks hcritical
  have hwaker := hw.waker ps hpos
  rw [hw.ringing_eq htasks hcritical] at hwaker
  have hstep := step_task hu htasks false
  cases task with
  | sendSignal q msg =>
    cases hcritical
    refine advances_next { w.pipes ps with waker := 1 } (.sendLink ps msg) rest ?_ rfl
      (Nat.lt_succ_self 2)
    rw [hstep, taskStep, hw.pipe_eq hpos]
    simp only [bind, Except.bind]
    rw [signal_eq hwaker]
    rfl
  | sendLink q msg =>
    cases hcritical
    refine advances_next ({ w.pipes ps with
      msgQueue := (w.pipes ps).msgQueue ++ [msg]
      posted := (w.pipes ps).posted ++ [msg] }) (.unlock ps) rest ?_ rfl
      (Nat.lt_succ_self 1)
    rw [hstep, taskStep, hw.pipe_eq hpos]
    rfl
  | unlock q =>
    cases hcritical
    refine ⟨(w.setPipe ps { w.pipes ps with mutex := none }).setThread u
      { w.threads u with tasks := rest }, ?_, fun t ht ↦ update_of_ne ht _ _, rfl, Or.inl ⟨rfl, ?_⟩⟩
    · rw [hstep, taskStep, World.unlock, hw.pipe_eq hpos]
      simp only [bind, Except.bind]
      rw [if_pos (hw.locked htasks rfl)]
      rfl
    · show (update w.pipes ps { w.pipes ps with mutex := none } ps).mutex = none
      rw [update_self]
  | recvTake q =>
    cases hcritical
    cases hqueue : (w.pipes ps).msgQueue with
    | nil =>
      refine ⟨w.setThread u { w.threads u with tasks := .unlock ps :: rest }, ?_,
        fun t ht ↦ update_of_ne ht _ _, rfl, ?_⟩
      · rw [hstep, taskStep, hw.pipe_eq hpos]
        simp only [bind, Except.bind, hqueue]
        rfl
      · refine Or.inr ⟨.unlock ps, rest, ?_, rfl, ?_⟩
        · rw [setThread_self]
        · exact (Nat.lt_succ_of_lt (Nat.lt_succ_self 1) : 1 < 3)
    | cons msg queue =>
      refine advances_next ({ w.pipes ps with
        msgQueue := queue
        taken := (w.pipes ps).taken ++ [msg] }) (.recvClear ps msg) rest ?_ rfl
        (Nat.lt_succ_self 2)
      rw [hstep, taskStep, hw.pipe_eq hpos]
      simp only [bind, Except.bind, hqueue]
      rfl
  | recvClear q msg =>
    cases hcritical
    refine advances_next { w.pipes ps with waker := bell (w.pipes ps).msgQueue } (.unlock ps)
      (.readObject msg 0 :: rest) ?_ rfl
      (Nat.lt_succ_self 1)
    rw [hstep, taskStep, hw.pipe_eq hpos]
    simp only [bind, Except.bind]
    rw [clear_eq hwaker]
    rfl
  | _ => cases hcritical

-- By induction on the steps that remain.
theorem leaves (hw : Inv w) (hu : u < w.nThreads) (htasks : (w.threads u).tasks = task :: rest)
    (hcritical : task.critical = some ps) :
    ∃ n ≤ task.remaining, ∃ w', run w (List.replicate n (u, .go false)) = .ok w' ∧ Inv w' ∧
      w'.nThreads = w.nThreads ∧ (w'.pipes ps).mutex = none ∧
      ∀ t ≠ u, w'.threads t = w.threads t := by
  induction hn : task.remaining using Nat.strong_induction_on generalizing w task rest with
  | _ k ih =>
    obtain ⟨w₁, hstep, hothers, hthreads, hafter⟩ := advances hw hu htasks hcritical
    have hsafe := step_safe (t := u) (e := .go false) hw
    rw [hstep] at hsafe
    rcases hafter with ⟨hone, hfree⟩ | ⟨task', rest', htasks', hcritical', hlt⟩
    · refine ⟨1, by omega, w₁, ?_, hsafe, hthreads, hfree, hothers⟩
      rw [List.replicate_one, run, hstep]
      rfl
    · obtain ⟨n, hle, w', hrun, hw', hthreads', hfree, hothers'⟩ :=
        ih task'.remaining (hn ▸ hlt) hsafe (hthreads ▸ hu) htasks' hcritical' rfl
      refine ⟨n + 1, by omega, w', ?_, hw', hthreads'.trans hthreads, hfree,
        fun t ht ↦ (hothers' t ht).trans (hothers t ht)⟩
      rw [List.replicate_succ, run, hstep]
      exact hrun

/-- The next task locks the mutex of `ps`. -/
def Task.locks (ps : Nat) : Task → Bool
  | .sendLock q _ => q == ps
  | .recvLock q => q == ps
  | _ => false

theorem critical_of_locks (h : task.locks ps) : task.critical = none := by
  cases task with
  | sendLock q msg => rfl
  | recvLock q => rfl
  | _ => cases h

theorem step_lock (hw : Inv w) (ht : t < w.nThreads) (htasks : (w.threads t).tasks = task :: rest)
    (hlocks : task.locks ps) (hfree : (w.pipes ps).mutex = none) :
    ∃ w', step w t (.go false) = .ok w' := by
  have hheld := hw.head_held htasks
  rw [step_task ht htasks]
  cases task with
  | sendLock q msg =>
    have hq : q = ps := beq_iff_eq.mp hlocks
    have hpos := hw.base_pos ht (mem_base_of_send hheld)
    rcases lock_cases (t := t) hw hpos with hblocked | ⟨-, hlock⟩
    · rw [World.lock, hw.pipe_eq hpos] at hblocked
      simp only [bind, Except.bind, hq, hfree] at hblocked
      cases hblocked
    · rw [taskStep, hlock]
      exact ⟨_, rfl⟩
  | recvLock q =>
    have hq : q = ps := beq_iff_eq.mp hlocks
    have hpos := hw.base_pos ht (mem_base_of_recv hheld)
    rcases lock_cases (t := t) hw hpos with hblocked | ⟨-, hlock⟩
    · rw [World.lock, hw.pipe_eq hpos] at hblocked
      simp only [bind, Except.bind, hq, hfree] at hblocked
      cases hblocked
    · rw [taskStep, hlock]
      exact ⟨_, rfl⟩
  | _ => cases hlocks

-- Three steps of the one thread that is inside, and the waiting thread can go in.
theorem lock_obtainable (t ps : Nat) (task : Task) (rest : List Task) (h : Reachable w) (ht : t < w.nThreads)
    (htasks : (w.threads t).tasks = task :: rest) (hlocks : task.locks ps) :
    ∃ u n, n ≤ 3 ∧ ∃ w', run w (List.replicate n (u, .go false)) = .ok w' ∧
      ∃ w'', step w' t (.go false) = .ok w'' := by
  have hw := h.inv
  cases hm : (w.pipes ps).mutex with
  | none => exact ⟨t, 0, Nat.zero_le 3, w, rfl, step_lock hw ht htasks hlocks hm⟩
  | some u =>
    have hinside := (hw.mutex u ps).mpr hm
    have hu : u < w.nThreads := by
      by_contra hge
      rw [hw.threadsEnd u (Nat.le_of_not_lt hge)] at hinside
      cases hinside
    cases htasks' : (w.threads u).tasks with
    | nil =>
      rw [Thread.inside, htasks'] at hinside
      cases hinside
    | cons task' rest' =>
      have hcritical : task'.critical = some ps := by
        rw [Thread.inside, htasks'] at hinside
        exact hinside
      have hne : t ≠ u := by
        intro heq
        rw [heq, htasks'] at htasks
        cases htasks
        rw [critical_of_locks hlocks] at hcritical
        cases hcritical
      obtain ⟨n, hle, w', hrun, hw', hthreads, hfree, hothers⟩ := leaves hw hu htasks' hcritical
      refine ⟨u, n, Nat.le_trans hle (remaining_le task'), w', hrun, ?_⟩
      exact step_lock hw' (hthreads ▸ ht) ((congrArg Thread.tasks (hothers t hne)).trans htasks) hlocks
        hfree

/-- The worker waits for the mutex that the main thread has locked to post its message. -/
def contention : List (Nat × Event) := firstMessage ++ [(1, .poll 0)]

theorem lock_obtainable_contention : ∃ w, run World.init contention = .ok w ∧
    step w 1 (.go false) = .error .blocked ∧
    ∃ u n, n ≤ 3 ∧ ∃ w', run w (List.replicate n (u, .go false)) = .ok w' ∧
      ∃ w'', step w' 1 (.go false) = .ok w'' := by
  refine ⟨_, rfl, rfl, ?_⟩
  exact lock_obtainable 1 1 (.recvLock 1) []
    (Reachable.run .init contention rfl) (by decide) rfl rfl

end QNode.Workers
