import QNode.ChildProcess.Schedule

/-!
# The process a signal reaches

`kill` signals the pid of the child without a look at `_exited`.  On Unix the poll that finds the exit
has reaped the child, so from then on the pid is free or denotes another process.
-/

open QNode.Engine

namespace QNode.ChildProcess.Schedule

def ChildState.isReaped : ChildState → Bool
  | .reaped _ => true
  | .running | .ended _ => false

theorem ChildState.holder_eq_child_iff (p : ChildState) :
    p.holder = some .child ↔ p.isReaped = false := by
  cases p with
  | running => exact iff_of_true rfl rfl
  | ended code => exact iff_of_true rfl rfl
  | reaped pidOf => cases pidOf <;> simp [ChildState.holder, ChildState.isReaped]

section

variable (platform : Platform) (decodeOutput : List UInt8 → JsString)

/-- No `kill` of a child that the poll has found exited and reaped. -/
def KillsLiveChild (w : World) (a : Act) : Prop :=
  a = .user .kill → w.userRuns = true → ¬(platform = .unix ∧ w.child.exited = true)

/-- The child is reaped, on Unix, when its object says that it has exited. -/
def ReapedAtExit (w : World) : Prop :=
  w.process.isReaped = true ↔ platform = .unix ∧ w.child.exited = true

/-! ## What a step does to the child and to the signals -/

/-- A step that reaps nothing and signals nothing. -/
structure Silent (w w' : World) : Prop where
  reaped : w'.process.isReaped = w.process.isReaped
  exited : w'.child.exited = w.child.exited
  signals : w'.signals = w.signals

theorem Silent.refl (w : World) : Silent w w := ⟨rfl, rfl, rfl⟩

theorem endPoll_silent (w : World) : Silent w (endPoll w) := by
  unfold endPoll
  split <;> exact ⟨rfl, rfl, rfl⟩

theorem readStep_silent (n : Nat) (w : World) (ended : Option Int) (stream : Stream) :
    Silent w (readStep decodeOutput n w ended stream) := by
  unfold readStep
  split
  · exact ⟨rfl, rfl, rfl⟩
  · cases stream with
    | stdout => exact ⟨rfl, rfl, rfl⟩
    | stderr => cases ended <;> exact ⟨rfl, rfl, rfl⟩

/-- The two ways a step can go: nothing is reaped, and a signal is sent only by `kill`; or the poll
finds the exit. -/
inductive Outcome (w w' : World) (a : Act) : Prop
  | silent (h : Silent w w') (hkill : a = .user .kill → w.userRuns = false)
  | kill (ha : a = .user .kill) (hruns : w.userRuns = true)
      (hreaped : w'.process = w.process) (hexited : w'.child.exited = w.child.exited)
      (hsignals : w'.signals = w.signals ++ [w.process.holder])
  | exit (hkill : a ≠ .user .kill) (hexited : w'.child.exited = true)
      (hreaped : w'.process.isReaped = true ↔ platform = .unix) (hsignals : w'.signals = w.signals)

theorem Outcome.of_silent {w w' : World} {a : Act} (hne : a ≠ .user .kill) (h : Silent w w') :
    Outcome platform w w' a := .silent h fun ha ↦ absurd ha hne

theorem exitReport_ended {w : World} {code : Int} (h : exitReport platform w = some code) :
    w.process = .ended code := by
  unfold exitReport at h
  cases hprocess : w.process with
  | running => simp [hprocess] at h
  | reaped pidOf => simp [hprocess] at h
  | ended code' =>
    simp only [hprocess, Option.ite_none_left_eq_some, Option.some.injEq] at h
    rw [h.2]

theorem reap_outcome {w : World} {code : Int} (h : w.process = .ended code) (n : Nat) :
    Outcome platform w (reap platform w code) (.parent n) := by
  have hreaped : (reap platform w code).process.isReaped = true ↔ platform = .unix := by
    cases platform with
    | unix => exact iff_of_true rfl rfl
    | windows =>
      have hkept : (reap .windows w code).process = .ended code := h
      simp [hkept, ChildState.isReaped]
  exact .exit (by simp) rfl hreaped rfl

theorem pollStep_outcome (w : World) (n : Nat) :
    Outcome platform w (pollStep platform w) (.parent n) := by
  unfold pollStep
  cases hreport : exitReport platform w with
  | some code => exact reap_outcome platform (exitReport_ended platform hreport) n
  | none =>
    have hsilent := endPoll_silent { w with child := { w.child with timers := w.child.timers + 1 } }
    exact .of_silent platform (by simp) ⟨hsilent.reaped, hsilent.exited, hsilent.signals⟩

theorem Child.act_exited (cp : Child) (action : UserAction) : (cp.act action).exited = cp.exited :=
  (Quiet.act cp action).exited

theorem closeAll_record_exited (cp : Child) (code : Int) :
    (cp.closeAll.record (.close code)).exited = cp.exited := Child.closeAll_exited cp

theorem step_outcome (w : World) (a : Act) :
    Outcome platform w (step platform decodeOutput w a) a := by
  cases a with
  | write stream bytes =>
    apply Outcome.of_silent platform (by simp)
    unfold step
    dsimp only
    split <;> exact ⟨rfl, rfl, rfl⟩
  | ends code =>
    apply Outcome.of_silent platform (by simp)
    unfold step
    dsimp only
    split
    · next hrunning => exact ⟨by rw [hrunning]; rfl, rfl, rfl⟩
    · exact Silent.refl w
  | reuse process =>
    apply Outcome.of_silent platform (by simp)
    unfold step
    cases hprocess : w.process with
    | running => exact Silent.refl w
    | ended code => exact Silent.refl w
    | reaped pidOf => exact ⟨by rw [hprocess]; rfl, rfl, rfl⟩
  | user action =>
    show Outcome platform w (if w.userRuns then userStep w action else w) _
    by_cases hruns : w.userRuns = true
    · rw [if_pos hruns]
      by_cases hkill : action = .kill
      · subst hkill
        exact .kill rfl hruns rfl rfl rfl
      · apply Outcome.of_silent platform fun h ↦ hkill (Act.user.inj h)
        exact ⟨rfl, Child.act_exited w.child action, if_neg hkill⟩
    · rw [if_neg hruns]
      exact .silent (Silent.refl w) fun _ ↦ Bool.eq_false_iff.mpr hruns
  | listen stream =>
    apply Outcome.of_silent platform (by simp)
    unfold step
    dsimp only
    split <;> exact ⟨rfl, rfl, rfl⟩
  | timer =>
    apply Outcome.of_silent platform (by simp)
    unfold step timerStep
    dsimp only
    split
    · split <;> exact ⟨rfl, rfl, rfl⟩
    · exact Silent.refl w
  | parent n =>
    show Outcome platform w (parentStep platform decodeOutput n w) _
    unfold parentStep
    have hne : Act.parent n ≠ .user .kill := by simp
    cases w.control with
    | read ended stream => exact .of_silent platform hne (readStep_silent decodeOutput n w ended stream)
    | data ended stream => exact .of_silent platform hne ⟨rfl, rfl, rfl⟩
    | poll => exact pollStep_outcome platform w n
    | exit code => exact .of_silent platform hne ⟨rfl, closeAll_record_exited w.child code, rfl⟩
    | close => exact .of_silent platform hne (endPoll_silent w)
    | spawned => exact .of_silent platform hne ⟨rfl, rfl, rfl⟩
    | idle => exact .of_silent platform hne (Silent.refl w)

theorem start_reapedAtExit (raw : Raw) : ReapedAtExit platform (World.start raw) :=
  iff_of_false Bool.false_ne_true fun h ↦ Bool.false_ne_true h.2

theorem step_reapedAtExit {w : World} (h : ReapedAtExit platform w) (a : Act) :
    ReapedAtExit platform (step platform decodeOutput w a) := by
  unfold ReapedAtExit at h ⊢
  cases step_outcome platform decodeOutput w a with
  | silent hsilent _ => rw [hsilent.reaped, hsilent.exited, h]
  | kill _ _ hreaped hexited _ => rw [hreaped, hexited, h]
  | exit _ hexited hreaped _ => rw [hreaped, hexited, and_iff_left rfl]

/-! ## Runs -/

def OwnSignals (w : World) : Prop := ∀ holder ∈ w.signals, holder = some .child

-- One step: its signal reaches the child exactly if the guard allows it.
theorem step_ownSignals_iff {w : World} (h : ReapedAtExit platform w) (a : Act) :
    OwnSignals (step platform decodeOutput w a) ↔ OwnSignals w ∧ KillsLiveChild platform w a := by
  unfold OwnSignals KillsLiveChild
  cases step_outcome platform decodeOutput w a with
  | silent hsilent hkill =>
    rw [hsilent.signals]
    exact ⟨fun hown ↦ ⟨hown, fun ha hruns ↦ absurd (hkill ha) (by simp [hruns])⟩, And.left⟩
  | exit hkill _ _ hsignals =>
    rw [hsignals]
    exact ⟨fun hown ↦ ⟨hown, fun ha ↦ absurd ha hkill⟩, And.left⟩
  | kill ha hruns _ _ hsignals =>
    have hholder : w.process.holder = some .child ↔
        ¬(platform = .unix ∧ w.child.exited = true) := by
      rw [ChildState.holder_eq_child_iff, ← Bool.not_eq_true]
      exact not_congr h
    rw [hsignals, List.forall_mem_append, List.forall_mem_singleton, hholder]
    exact and_congr_right fun _ ↦ ⟨fun hlive _ _ ↦ hlive, fun hlive ↦ hlive ha hruns⟩

theorem foldl_ownSignals_iff {w : World} (h : ReapedAtExit platform w) (acts : List Act) :
    OwnSignals (acts.foldl (step platform decodeOutput) w) ↔ OwnSignals w ∧
      Runs.Guarded (fun w a ↦ some (step platform decodeOutput w a)) (KillsLiveChild platform) w
        acts := by
  induction acts generalizing w with
  | nil => exact (and_iff_left trivial).symm
  | cons a acts ih =>
    rw [List.foldl_cons, ih (step_reapedAtExit platform decodeOutput h a),
      step_ownSignals_iff platform decodeOutput h, Runs.guarded_total_cons, and_assoc]

/-- In a run of any child, all signals are sent while the pid denotes the child precisely if no `kill`
comes after the poll that reaped it; on Windows they always are. -/
theorem signals_reach_child_iff (raw : Raw) (acts : List Act) :
    OwnSignals (run platform decodeOutput raw acts) ↔
      Runs.Guarded (fun w a ↦ some (step platform decodeOutput w a)) (KillsLiveChild platform)
        (World.start raw) acts := by
  have hstart : OwnSignals (World.start raw) := fun _ hmem ↦ absurd hmem List.not_mem_nil
  rw [run, foldl_ownSignals_iff platform decodeOutput (start_reapedAtExit platform raw)]
  exact and_iff_right hstart

end

/-- The child ends, a timer's poll reaps it, another process gets its pid, and the user calls
`kill`. -/
theorem kill_signals_other_process :
    let acts : List Act :=
      [.ends 0, .parent 0, .parent 0, .parent 0, .parent 0, .parent 0, .parent 0, .parent 0,
        .reuse 8, .user .kill]
    (run .unix (fun _ ↦ []) ⟨7, none, none, none⟩ acts).signals = [some (.other 8)] ∧
      ¬OwnSignals (run .unix (fun _ ↦ []) ⟨7, none, none, none⟩ acts) := by
  intro acts
  have hsignals : (run .unix (fun _ ↦ []) ⟨7, none, none, none⟩ acts).signals =
      [some (.other 8)] := by decide
  refine ⟨hsignals, fun hown ↦ ?_⟩
  have hother := hown (some (.other 8)) (hsignals ▸ List.mem_singleton_self _)
  exact absurd hother (by decide)

end QNode.ChildProcess.Schedule
