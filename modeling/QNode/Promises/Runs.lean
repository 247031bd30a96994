import QNode.Promises.Reactions

/-!
# Runs

What holds in every state that the code and the host can reach together.
-/

namespace QNode.Promises

open Relation

variable {s t : State} {p : Nat} {d : JSPromiseData}

/-! ## The invariant -/

namespace State

structure Inv (s : State) (hand : Option Nat) : Prop where
  oneSettler : s.OneSettler hand
  recorded : s.Recorded
  tracked : s.Tracked

theorem inv_start (tracker : Bool) : (start tracker).Inv none :=
  ⟨oneSettler_start tracker, recorded_start tracker, tracked_start tracker⟩

end State

theorem Change.recorded {a b : State × Option Nat} (h : Change a b) (ha : a.1.OneSettler a.2)
    (hrecorded : a.1.Recorded) : b.1.Recorded := by
  cases h with
  | control heq hstack =>
    rw [heq]
    exact hrecorded.congr rfl rfl (fun _ ↦ rfl) hrecorded.queue
  | create => exact hrecorded.create
  | functions => exact hrecorded.congr rfl rfl (fun _ ↦ rfl) hrecorded.queue
  | resolve hget hopen => exact hrecorded.congr rfl rfl (fun _ ↦ rfl) hrecorded.queue
  | lookUp => exact hrecorded.congr rfl rfl (fun _ ↦ rfl) hrecorded.queue
  | lookedUp hstack => exact hrecorded.congr rfl rfl (fun _ ↦ rfl) hrecorded.queue
  | settle =>
    obtain ⟨d, hget, hd⟩ := State.OneSettler.get ha
    exact hrecorded.settle hget hd _ _
  | thenable => exact hrecorded.enqueueJob fun _ ↦ rfl
  | other => exact hrecorded.enqueueJob fun _ ↦ rfl
  | take hjobs => exact hrecorded.take hjobs
  | performThen => exact hrecorded.performThen _ _ _ _ _

theorem Change.tracked {a b : State × Option Nat} (h : Change a b) (ha : a.1.OneSettler a.2)
    (htracked : a.1.Tracked) : b.1.Tracked := by
  cases h with
  | control heq hstack =>
    rw [heq]
    exact htracked.congr rfl rfl rfl
  | create => exact htracked.create
  | functions => exact htracked.congr rfl rfl rfl
  | resolve hget hopen => exact htracked.congr rfl rfl rfl
  | lookUp => exact htracked.congr rfl rfl rfl
  | lookedUp hstack => exact htracked.congr rfl rfl rfl
  | settle =>
    obtain ⟨d, hget, hd⟩ := State.OneSettler.get ha
    exact htracked.settle hget hd _ _
  | thenable => exact htracked.congr rfl rfl rfl
  | other => exact htracked.congr rfl rfl rfl
  | take hjobs => exact htracked.congr rfl rfl rfl
  | performThen => exact htracked.performThen _ _ _ _ _

theorem Changes.inv (h : Changes s t) (hs : s.Inv none) : t.Inv none := by
  have hall : ∀ b : State × Option Nat, ReflTransGen Change (s, none) b → b.1.Inv b.2 := by
    intro b hb
    induction hb with
    | refl => exact hs
    | tail _ hchange ih =>
      exact ⟨hchange.oneSettler ih.oneSettler, hchange.recorded ih.oneSettler ih.recorded,
        hchange.tracked ih.oneSettler ih.tracked⟩
  exact hall _ h

theorem Change.tracker_eq {a b : State × Option Nat} (h : Change a b) : b.1.tracker = a.1.tracker := by
  cases h with
  | control heq hstack => rw [heq]
  | settle =>
    unfold State.fulfillOrRejectPromise
    split
    · rfl
    · split
      · rfl
      · rw [foldl_enqueueJob]
  | performThen =>
    unfold State.performPromiseThen
    split
    · rfl
    · dsimp only
      split
      · rfl
      · rfl
      · rfl
  | _ => rfl

theorem Changes.tracker_eq (h : Changes s t) : t.tracker = s.tracker := by
  have hall : ∀ b : State × Option Nat, ReflTransGen Change (s, none) b → b.1.tracker = s.tracker := by
    intro b hb
    induction hb with
    | refl => rfl
    | tail _ hchange ih => exact hchange.tracker_eq.trans ih
  exact hall _ h

theorem run_keeps {P : State → Prop} {tracker : Bool} (hstart : P (start tracker))
    (hstep : ∀ s a, P s → P (s.step a)) (acts : List Act) : P (run tracker acts) :=
  List.foldlRecOn acts State.step hstart fun s hs a _ ↦ hstep s a hs

theorem run_inv (tracker : Bool) (acts : List Act) : (run tracker acts).Inv none :=
  run_keeps (State.inv_start tracker) (fun s a hs ↦ (step_changes s a).inv hs) acts

theorem run_tracker (tracker : Bool) (acts : List Act) : (run tracker acts).tracker = tracker :=
  run_keeps (P := fun s ↦ s.tracker = tracker) rfl (fun s a hs ↦ (step_changes s a).tracker_eq.trans hs) acts

-- One job for each call of `then`, in their order, once the promise is settled, and none before.
theorem reactions_once (tracker : Bool) (acts : List Act) {p : Nat} {d : JSPromiseData}
    (hget : (run tracker acts).promises[p]? = some d) :
    ((run tracker acts).taken ++ (run tracker acts).jobList).filter (JSJobEntry.reacts p) =
      ((run tracker acts).thensOf p).flatMap (d.answer p) := by
  have hrecorded := (run_inv tracker acts).recorded
  rw [← hrecorded.queue]
  exact (hrecorded.agrees p d hget).answered

/-- A promise gets a reaction, is fulfilled, and gets another reaction. -/
def twoReactions : List Act :=
  [.evaluate, .newPromise, .leave (.ok .undefined), .performThen 0 (.function 1) .undefined .undefined .undefined,
    .call 0 false (.primitive 5), .performThen 0 (.function 2) .undefined .undefined .undefined]

theorem reactions_once_twoReactions :
    ((run true twoReactions).taken ++ (run true twoReactions).jobList).filter (JSJobEntry.reacts 0) =
      ((run true twoReactions).thensOf 0).flatMap
        (JSPromiseData.answer ⟨.fulfilled, [], [], true, .primitive 5⟩ 0) :=
  reactions_once true twoReactions rfl

/-! ## The phases of the host -/

namespace State

/-- Nobody has changed the phase, except that a job that threw may have ended the inner loop. -/
def Stays (s t : State) : Prop :=
  (t.host = s.host ∧ t.threw = s.threw) ∨ (s.host = .loop ∧ t.host = .loopCheck ∧ t.threw = true)

structure Phased (s : State) : Prop where
  drained : (s.host = .loopCheck ∨ s.host = .loopPoll ∨ s.host = .returned) → s.threw = false →
    s.stack = [] ∧ s.jobList = []
  awaited : ∀ obj, s.host = .awaitPoll obj → s.stack = [] ∧ s.jobList = []
  exited : s.host = .exited → s.stack = [] ∧ s.rejectedPromiseList ≠ []

theorem Stays.refl (s : State) : s.Stays s := Or.inl ⟨rfl, rfl⟩

theorem Stays.of_eq {u : State} (h : s.Stays t) (hhost : u.host = t.host) (hthrew : u.threw = t.threw) :
    s.Stays u := by
  rw [Stays, hhost, hthrew]
  exact h

theorem stays_jobEnded (s : State) (threw : Bool) : s.Stays (s.jobEnded threw) := by
  unfold jobEnded
  split
  · next h =>
    refine Or.inr ⟨?_, rfl, rfl⟩
    simpa using (Bool.and_eq_true_iff.mp h).2
  · exact .refl s

theorem fulfill_phase (s : State) (p : Nat) (v : Value) (isReject : Bool) :
    (s.fulfillOrRejectPromise p v isReject).host = s.host ∧
      (s.fulfillOrRejectPromise p v isReject).threw = s.threw := by
  unfold fulfillOrRejectPromise
  split
  · exact ⟨rfl, rfl⟩
  · split
    · exact ⟨rfl, rfl⟩
    · rw [foldl_enqueueJob]
      exact ⟨rfl, rfl⟩

theorem resolveFunctionCall_phase (s : State) (r : Nat) (isReject : Bool) (v : Value) :
    (s.jsPromiseResolveFunctionCall r isReject v).host = s.host ∧
      (s.jsPromiseResolveFunctionCall r isReject v).threw = s.threw := by
  unfold jsPromiseResolveFunctionCall
  split
  · exact ⟨rfl, rfl⟩
  · split
    · exact ⟨rfl, rfl⟩
    · dsimp only
      split
      · exact fulfill_phase _ _ _ _
      · split
        · exact fulfill_phase _ _ _ _
        · exact ⟨rfl, rfl⟩

theorem haveThen_phase (s : State) (p : Nat) (v : Value) (res : Except Value Value) :
    (s.haveThen p v res).host = s.host ∧ (s.haveThen p v res).threw = s.threw := by
  cases res with
  | error error => exact fulfill_phase _ _ _ _
  | ok then_ =>
    rw [haveThen]
    split
    · exact ⟨rfl, rfl⟩
    · exact fulfill_phase _ _ _ _

theorem performThen_phase (s : State) (p : Nat) (onFulfilled onRejected resolve reject : Value) :
    (s.performPromiseThen p onFulfilled onRejected resolve reject).host = s.host ∧
      (s.performPromiseThen p onFulfilled onRejected resolve reject).threw = s.threw := by
  cases hget : s.promises[p]? with
  | none =>
    rw [performPromiseThen_none hget]
    exact ⟨rfl, rfl⟩
  | some d =>
    rw [performPromiseThen_eq hget]
    exact ⟨rfl, rfl⟩

theorem stays_handlerEnded (s : State) (rd : JSPromiseReactionData) (res : Except Value Value) :
    s.Stays (s.handlerEnded rd res) := by
  unfold handlerEnded
  split
  next func arg _ =>
  split
  · exact stays_jobEnded s false
  · next r isReject _ =>
    obtain ⟨hhost, hthrew⟩ := resolveFunctionCall_phase (s.push .waitSettling) r isReject arg
    have hcall : s.Stays ((s.push .waitSettling).jsPromiseResolveFunctionCall r isReject arg) :=
      Or.inl ⟨hhost, hthrew⟩
    dsimp only
    split
    · exact hcall.of_eq rfl rfl
    · exact hcall
  · exact Or.inl ⟨rfl, rfl⟩

theorem stays_of_eq (hhost : t.host = s.host) (hthrew : t.threw = s.threw) {u : State} (h : t.Stays u) :
    s.Stays u := by
  rw [Stays, ← hhost, ← hthrew]
  exact h

theorem stays_resume (s : State) : s.Stays s.resume := by
  unfold resume
  split
  · next rd rest _ =>
    exact stays_of_eq (t := { s with stack := rest }) rfl rfl (stays_handlerEnded _ rd _)
  · exact Or.inl ⟨rfl, rfl⟩
  · exact .refl s

theorem stays_promiseReactionJob (s : State) (rd : JSPromiseReactionData) (isReject : Bool) (arg : Value) :
    s.Stays (s.promiseReactionJob rd isReject arg) := by
  unfold promiseReactionJob
  split
  · exact stays_handlerEnded s rd _
  · next r isReject' _ =>
    obtain ⟨hhost, hthrew⟩ := resolveFunctionCall_phase (s.push (.waitReaction rd)) r isReject' arg
    exact stays_of_eq hhost hthrew (stays_resume _)
  · exact Or.inl ⟨rfl, rfl⟩

theorem stays_executePendingJob (s : State) : s.Stays s.jsExecutePendingJob := by
  unfold jsExecutePendingJob
  split
  · exact .refl s
  · next e rest _ =>
    cases e with
    | reaction p rd isReject arg =>
      exact stays_of_eq (t := { s with jobList := rest, taken := s.taken ++ [_] }) rfl rfl
        (stays_promiseReactionJob _ rd isReject arg)
    | resolveThenable p v then_ => exact Or.inl ⟨rfl, rfl⟩
    | other => exact Or.inl ⟨rfl, rfl⟩

theorem stays_leave (s : State) (res : Except Value Value) : s.Stays (s.leave res) := by
  unfold leave
  cases hstack : s.stack with
  | nil => exact .refl s
  | cons frame rest =>
    cases frame with
    | getThen p v =>
      obtain ⟨hhost, hthrew⟩ := haveThen_phase { s with stack := rest } p v res
      exact stays_of_eq (t := ({ s with stack := rest } : State).haveThen p v res) hhost hthrew (stays_resume _)
    | reaction rd => exact stays_of_eq (t := { s with stack := rest }) rfl rfl (stays_handlerEnded _ rd res)
    | executor r =>
      cases res with
      | error error => exact Or.inl (resolveFunctionCall_phase { s with stack := rest } r true error)
      | ok v => exact Or.inl ⟨rfl, rfl⟩
    | thenable r =>
      cases res with
      | error error => exact Or.inl (resolveFunctionCall_phase { s with stack := rest } r true error)
      | ok v => exact Or.inl ⟨rfl, rfl⟩
    | settling =>
      cases res with
      | error error => exact stays_of_eq (t := { s with stack := rest }) rfl rfl (stays_jobEnded _ true)
      | ok v => exact Or.inl ⟨rfl, rfl⟩
    | other =>
      cases res with
      | error error => exact stays_of_eq (t := { s with stack := rest }) rfl rfl (stays_jobEnded _ true)
      | ok v => exact Or.inl ⟨rfl, rfl⟩
    | code => exact Or.inl ⟨rfl, rfl⟩
    | waitReaction rd => cases res <;> exact Or.inl ⟨rfl, rfl⟩
    | waitSettling => cases res <;> exact Or.inl ⟨rfl, rfl⟩

-- Code and jobs run in the phases that say nothing about what is left.
theorem Phased.stays (h : s.Phased) (hphase : s.stack ≠ [] ∨ s.host = .loop ∨ ∃ obj, s.host = .await obj)
    (hstays : s.Stays t) : t.Phased := by
  have hfree : ∀ host, s.host = host → host ≠ .loop → (∀ obj, host ≠ .await obj) → s.stack ≠ [] := by
    rintro host rfl hloop hawait
    rcases hphase with hstack | hhost | ⟨obj, hhost⟩
    · exact hstack
    · exact absurd hhost hloop
    · exact absurd hhost (hawait obj)
  rcases hstays with ⟨hhost, hthrew⟩ | ⟨-, hhost, hthrew⟩
  · refine ⟨fun hend hfalse ↦ ?_, fun obj hobj ↦ ?_, fun hexited ↦ ?_⟩
    · rw [hhost] at hend
      have hnone := (h.drained hend (hthrew ▸ hfalse)).1
      rcases hend with hend | hend | hend
      · exact absurd hnone (hfree _ hend (by simp) (by simp))
      · exact absurd hnone (hfree _ hend (by simp) (by simp))
      · exact absurd hnone (hfree _ hend (by simp) (by simp))
    · rw [hhost] at hobj
      exact absurd (h.awaited obj hobj).1 (hfree _ hobj (by simp) (by simp))
    · rw [hhost] at hexited
      exact absurd (h.exited hexited).1 (hfree _ hexited (by simp) (by simp))
  · refine ⟨fun _ hfalse ↦ ?_, fun obj hobj ↦ ?_, fun hexited ↦ ?_⟩
    · rw [hthrew] at hfalse
      cases hfalse
    · rw [hhost] at hobj
      cases hobj
    · rw [hhost] at hexited
      cases hexited

theorem stack_of_codeRuns (h : s.codeRuns = true) : s.stack ≠ [] := by
  intro hnil
  rw [codeRuns, hnil] at h
  cases h

/-- A phase that says nothing about what is left. -/
theorem phased_of_busy (hhost : s.host = .idle ∨ s.host = .loop ∨ ∃ obj, s.host = .await obj) : s.Phased := by
  refine ⟨fun hend _ ↦ ?_, fun obj hobj ↦ ?_, fun hexited ↦ ?_⟩
  · rcases hhost with hhost | hhost | ⟨obj, hhost⟩ <;> simp [hhost] at hend
  · rcases hhost with hhost | hhost | ⟨obj', hhost⟩ <;> simp [hhost] at hobj
  · rcases hhost with hhost | hhost | ⟨obj, hhost⟩ <;> simp [hhost] at hexited

theorem exitsOnCheck_iff (s : State) : s.exitsOnCheck = true ↔ s.rejectedPromiseList ≠ [] := by
  simp [exitsOnCheck]

theorem Phased.hostStep (h : s.Phased) (hstack : s.stack = []) (poll : Poll) : (s.hostStep poll).Phased := by
  unfold State.hostStep
  cases hhost : s.host with
  | await obj =>
    dsimp only
    split
    · split
      · exact phased_of_busy (Or.inl rfl)
      · split
        · exact h.stays (Or.inr (Or.inr ⟨_, hhost⟩)) (stays_executePendingJob s)
        · next hjobs =>
          have hnil : s.jobList = [] := not_not.mp hjobs
          split
          · next hexits =>
            refine ⟨fun hend ↦ by simp at hend, fun obj hobj ↦ by simp at hobj, fun _ ↦ ⟨hstack, ?_⟩⟩
            exact (exitsOnCheck_iff s).mp hexits
          · exact ⟨fun hend ↦ by simp at hend, fun _ _ ↦ ⟨hstack, hnil⟩, fun hexited ↦ by simp at hexited⟩
    · exact phased_of_busy (Or.inl rfl)
  | awaitPoll obj =>
    dsimp only
    split
    · exact phased_of_busy (Or.inr (Or.inr ⟨obj, rfl⟩))
    · exact phased_of_busy (Or.inr (Or.inr ⟨obj, rfl⟩))
  | loop =>
    dsimp only
    split
    · exact h.stays (Or.inr (Or.inl hhost)) (stays_executePendingJob s)
    · next hjobs =>
      exact ⟨fun _ _ ↦ ⟨hstack, not_not.mp hjobs⟩, fun obj hobj ↦ by simp at hobj, fun hexited ↦ by simp at hexited⟩
  | loopCheck =>
    dsimp only
    split
    · next hexits =>
      refine ⟨fun hend ↦ by simp at hend, fun obj hobj ↦ by simp at hobj, fun _ ↦ ⟨hstack, ?_⟩⟩
      exact (exitsOnCheck_iff s).mp hexits
    · exact ⟨fun _ hfalse ↦ h.drained (Or.inl hhost) hfalse, fun obj hobj ↦ by simp at hobj,
        fun hexited ↦ by simp at hexited⟩
  | loopPoll =>
    dsimp only
    by_cases hend : poll = .noEvents
    · rw [if_pos hend, hend, if_neg (by simp)]
      exact ⟨fun _ hfalse ↦ h.drained (Or.inr (Or.inl hhost)) hfalse, fun obj hobj ↦ by simp at hobj,
        fun hexited ↦ by simp at hexited⟩
    · rw [if_neg hend]
      split
      · exact phased_of_busy (Or.inr (Or.inl rfl))
      · exact phased_of_busy (Or.inr (Or.inl rfl))
  | idle => exact h
  | returned => exact h
  | exited => exact h

theorem Phased.step (h : s.Phased) (a : Act) : (s.step a).Phased := by
  have hcode : ∀ {t : State}, s.Stays t → (if s.codeRuns then t else s).Phased := by
    intro t hstays
    split
    · next hruns => exact h.stays (Or.inl (stack_of_codeRuns hruns)) hstays
    · exact h
  have hidle : ∀ {t : State}, (s.host = .idle → t.Phased) →
      (if s.stack = [] ∧ s.host = .idle then t else s).Phased := by
    intro t ht
    split
    · next hidle => exact ht hidle.2
    · exact h
  cases a with
  | newPromise => exact hcode (Or.inl ⟨rfl, rfl⟩)
  | call r isReject v => exact hcode (Or.inl (resolveFunctionCall_phase s r isReject v))
  | performThen p onFulfilled onRejected resolve reject =>
    exact hcode (Or.inl (performThen_phase s p onFulfilled onRejected resolve reject))
  | enqueueJob =>
    rw [State.step]
    split
    · next hfree =>
      have hstays : s.Stays (s.jsEnqueueJob .other) := Or.inl ⟨rfl, rfl⟩
      rcases Bool.or_eq_true_iff.mp hfree with hruns | hphase
      · exact h.stays (Or.inl (stack_of_codeRuns hruns)) hstays
      · split at hphase
        · next hhost => exact phased_of_busy (Or.inl hhost)
        · next obj hhost => exact phased_of_busy (Or.inr (Or.inr ⟨obj, hhost⟩))
        · next hhost => exact phased_of_busy (Or.inr (Or.inl hhost))
        · next hhost =>
          refine ⟨fun _ hfalse ↦ absurd (hfalse.symm.trans hphase) Bool.false_ne_true, ?_, ?_⟩
          · exact fun obj hobj ↦ by cases hhost.symm.trans hobj
          · exact fun hexited ↦ by cases hhost.symm.trans hexited
        · cases hphase
        · cases hphase
        · cases hphase
        · cases hphase
    · exact h
  | leave res => exact hcode (stays_leave s res)
  | evaluate => exact hidle fun hhost ↦ phased_of_busy (Or.inl hhost)
  | await obj => exact hidle fun _ ↦ phased_of_busy (Or.inr (Or.inr ⟨obj, rfl⟩))
  | startLoop => exact hidle fun _ ↦ phased_of_busy (Or.inr (Or.inl rfl))
  | host poll =>
    rw [State.step]
    split
    · next hstack => exact h.hostStep hstack poll
    · exact h

theorem phased_start (tracker : Bool) : (start tracker).Phased := phased_of_busy (Or.inl rfl)

end State

theorem run_phased (tracker : Bool) (acts : List Act) : (run tracker acts).Phased :=
  run_keeps (State.phased_start tracker) (fun _ a hs ↦ hs.step a) acts

-- Jobs go before events, and `js_std_loop` returns with none left, unless a job has thrown.
theorem jobs_before_events (tracker : Bool) (acts : List Act) :
    (∀ obj, (run tracker acts).host = .awaitPoll obj → (run tracker acts).jobList = []) ∧
      (((run tracker acts).host = .loopPoll ∨ (run tracker acts).host = .returned) →
        (run tracker acts).jobList ≠ [] → (run tracker acts).threw = true) := by
  have hphased := run_phased tracker acts
  refine ⟨fun obj hobj ↦ (hphased.awaited obj hobj).2, fun hend hjobs ↦ ?_⟩
  by_contra hthrew
  exact hjobs (hphased.drained (Or.inr hend) (by simpa using hthrew)).2

-- A job that throws leaves the next one behind.
example : (run true [.evaluate, .enqueueJob, .enqueueJob, .leave (.ok .undefined), .startLoop, .host .nothing,
    .leave (.error .undefined), .host .nothing, .host .noEvents]).jobList = [.other] := by decide

end QNode.Promises
