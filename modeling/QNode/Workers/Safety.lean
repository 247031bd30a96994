import QNode.Workers.Calls

/-!
# What holds in every interleaving

No thread meets a fault; messages arrive once and in order; a waiting message always has its byte in the
waker; shared memory and pipes live as long as somebody holds them, and no longer; and whoever waits for a
mutex can get it.
-/

namespace QNode.Workers

open Function Ledger

variable {w w' : World} {t ps : Nat}

/-! ## Runs -/

/-- A run, with the thread that makes each step. -/
def run (w : World) : List (Nat × Event) → Except Stop World
  | [] => .ok w
  | (t, e) :: es => do
    let w ← step w t e
    run w es

theorem Reachable.run (h : Reachable w) (es : List (Nat × Event)) (hrun : run w es = .ok w') :
    Reachable w' := by
  induction es generalizing w with
  | nil =>
    cases hrun
    exact h
  | cons e es ih =>
    obtain ⟨t, e⟩ := e
    rw [Workers.run] at hrun
    cases hstep : Workers.step w t e with
    | error stop =>
      rw [hstep] at hrun
      cases hrun
    | ok w₁ =>
      rw [hstep] at hrun
      exact ih (.step t e h hstep) hrun

/-- The main thread makes a worker, which imports the module `os` and waits for messages; the main thread
posts a message with a shared buffer. -/
def firstMessage : List (Nat × Event) :=
  [(0, .newBuffer 8), (0, .newWorker), (0, .go false), (0, .go false), (0, .go false), (0, .go false),
    (0, .go false), (1, .importOs), (1, .go false), (1, .go false), (1, .setOnmessage 0 true),
    (0, .postMessage 0 ⟨[5], [8]⟩), (0, .go false), (0, .go false), (0, .go false), (0, .go false)]

/-! ## No faults -/

theorem step_ne_fault (h : Reachable w) (t : Nat) (e : Event) (f : Fault) :
    step w t e ≠ .error (.fault f) := by
  intro hstep
  have hsafe := step_safe (t := t) (e := e) h.inv
  rw [hstep] at hsafe
  exact hsafe

theorem step_ne_fault_firstMessage : ∃ w, run World.init firstMessage = .ok w ∧
    ∀ f, step w 0 (.go false) ≠ .error (.fault f) :=
  ⟨_, rfl, step_ne_fault (Reachable.run .init firstMessage rfl) 0 (.go false)⟩

/-! ## Messages -/

-- A pipe that is still held has lost nothing, one that is taken down only what nobody took.
theorem messages_in_order (h : Reachable w) (ps : Nat) :
    (w.pipes ps).taken <+: (w.pipes ps).posted ∧ (0 < (w.pipes ps).refCount →
      (w.pipes ps).posted = (w.pipes ps).taken ++ (w.pipes ps).msgQueue) :=
  ⟨(h.inv.fifo ps).taken, (h.inv.fifo ps).queue⟩

theorem messages_in_order_firstMessage : ∃ w, run World.init firstMessage = .ok w ∧
    (w.pipes 1).posted = (w.pipes 1).taken ++ (w.pipes 1).msgQueue :=
  ⟨_, rfl, (messages_in_order (Reachable.run .init firstMessage rfl) 1).2 (by decide)⟩

theorem bell_pos_iff (queue : List JSWorkerMessage) : 0 < bell queue ↔ queue ≠ [] := by
  unfold bell
  by_cases hempty : queue = []
  · simp [hempty]
  · simp [hempty]

theorem total_pos_iff {τ : Type} {n : Nat} {f : τ → Nat} {g : Nat → τ}
    (hout : ∀ i ≥ n, f (g i) = 0) : 0 < total n f g ↔ ∃ i, 0 < f (g i) := by
  constructor
  · intro hpos
    obtain ⟨i, -, hi⟩ := exists_of_total_pos hpos
    exact ⟨i, hi⟩
  · rintro ⟨i, hi⟩
    have hlt : i < n := by
      by_contra hge
      rw [hout i (Nat.le_of_not_lt hge)] at hi
      exact Nat.lt_irrefl 0 hi
    exact Nat.lt_of_lt_of_le hi (le_total hlt)

theorem Inv.sab_pos_iff (hw : Inv w) (x : UInt64) :
    0 < w.sabs x ↔ (∃ t, x ∈ (w.threads t).sabs) ∨ ∃ ps, x ∈ (w.pipes ps).sabs := by
  have hthreads := total_pos_iff (n := w.nThreads) (f := fun th : Thread ↦ th.sabs.count x)
    (g := w.threads) fun u hu ↦ by rw [hw.threadsEnd u hu]; rfl
  have hpipes := total_pos_iff (n := w.nPipes) (f := fun pipe : JSWorkerMessagePipe ↦ pipe.sabs.count x)
    (g := w.pipes) fun ps hps ↦ by rw [hw.pipesEnd ps hps]; rfl
  simp only [List.count_pos_iff] at hthreads hpipes
  rw [hw.sabs x, World.sabHeld, ← hthreads, ← hpipes]
  omega

theorem Inv.ref_pos_iff (hw : Inv w) (ps : Nat) :
    0 < (w.pipes ps).refCount ↔ ∃ t, ps ∈ (w.threads t).refs := by
  have hthreads := total_pos_iff (n := w.nThreads) (f := fun th : Thread ↦ th.refs.count ps)
    (g := w.threads) fun u hu ↦ by rw [hw.threadsEnd u hu]; rfl
  simp only [List.count_pos_iff] at hthreads
  rw [hw.refs ps, World.refHeld]
  exact hthreads

-- The counts are exact at every moment; a pipe without references is freed, or one thread is at it.
theorem counts_exact (h : Reachable w) :
    (∀ x, w.sabs x = w.sabHeld x) ∧ (∀ ps, (w.pipes ps).refCount = w.refHeld ps) ∧
      ∀ ps, (w.pipes ps).refCount = 0 → (w.pipes ps).freed = false → w.destroyers ps = 1 := by
  refine ⟨h.inv.sabs, h.inv.refs, fun ps hzero halive ↦ ?_⟩
  rw [h.inv.destroys ps, JSWorkerMessagePipe.doomed, if_pos ⟨hzero, halive⟩]

theorem counts_exact_firstMessage : ∃ w, run World.init firstMessage = .ok w ∧
    w.sabs 8 = w.sabHeld 8 ∧ (w.pipes 1).refCount = w.refHeld 1 := by
  obtain ⟨hsabs, hrefs, -⟩ := counts_exact (Reachable.run .init firstMessage rfl)
  exact ⟨_, rfl, hsabs 8, hrefs 1⟩

-- When no thread is in a call nothing is left over: what is not freed belongs to a thread, one of its objects
-- or a message that waits.
theorem nothing_left_over (h : Reachable w) (hidle : ∀ t, (w.threads t).tasks = []) :
    (∀ x, 0 < w.sabs x ↔ (∃ t, x ∈ (w.threads t).buffers) ∨
      ∃ ps, ∃ msg ∈ (w.pipes ps).msgQueue, x ∈ msg.sabTab) ∧
    ∀ ps, (w.pipes ps).freed = false ↔ ∃ t, ps ∈ (w.threads t).base := by
  have hw := h.inv
  have hsabs : ∀ t, (w.threads t).sabs = (w.threads t).buffers := by
    intro t
    rw [Thread.sabs, hidle t]
    exact List.append_nil _
  have hrefs : ∀ t, (w.threads t).refs = (w.threads t).base := by
    intro t
    rw [Thread.refs, hidle t]
    exact List.append_nil _
  constructor
  · intro x
    rw [hw.sab_pos_iff x]
    simp only [hsabs, JSWorkerMessagePipe.sabs, List.mem_flatMap]
  · intro ps
    have hiff := hw.ref_pos_iff ps
    simp only [hrefs] at hiff
    rw [← hiff]
    constructor
    · intro halive
      by_contra hzero
      have hdoomed := hw.destroys ps
      rw [JSWorkerMessagePipe.doomed, if_pos ⟨by omega, halive⟩, World.destroyers] at hdoomed
      obtain ⟨u, -, hu⟩ := exists_of_total_pos (n := w.nThreads)
        (f := fun th : Thread ↦ th.destroys.count ps) (g := w.threads) (by omega)
      rw [Thread.destroys, hidle u] at hu
      exact Nat.lt_irrefl 0 hu
    · intro hpos
      by_contra hfreed
      rw [hw.freed ps (by simpa using hfreed)] at hpos
      exact Nat.lt_irrefl 0 hpos

/-- The message of `firstMessage` is sent and received, and every object is given back. -/
def lastObject : List (Nat × Event) :=
  firstMessage ++ [(0, .go false), (0, .go false), (1, .poll 0), (1, .go false), (1, .go false),
    (1, .go false), (1, .go false), (1, .go false), (1, .go false), (1, .go false), (1, .go false),
    (0, .freeBuffer 8), (0, .freeWorker 0), (0, .go false), (0, .go false), (1, .freeBuffer 8)]

theorem lastObject_idle {w : World} (h : run World.init lastObject = .ok w) (t : Nat) :
    (w.threads t).tasks = [] := by
  cases h
  match t with
  | 0 => rfl
  | 1 => rfl
  | _ + 2 => rfl

theorem nothing_left_over_lastObject : ∃ w, run World.init lastObject = .ok w ∧
    (0 < w.sabs 8 ↔ (∃ t, (8 : UInt64) ∈ (w.threads t).buffers) ∨
      ∃ ps, ∃ msg ∈ (w.pipes ps).msgQueue, (8 : UInt64) ∈ msg.sabTab) := by
  have h := nothing_left_over (Reachable.run .init lastObject rfl) (lastObject_idle rfl)
  exact ⟨_, rfl, h.1 8⟩

end QNode.Workers
