import QNode.ChildProcess.Events
import QNode.ChildProcess.WaitStatus

/-!
# The callback of execFile

`execFile` attaches its listeners to a child that has been polled once already.  The results say when
the callback is called over a whole run, whatever the child writes and the user does meanwhile.
-/

open QNode.Engine

namespace QNode.ChildProcess

/-- `created` is the result of `_spawnProcess`, `none` when it throws; so does `spawn` then. -/
def spawn (created : Option Raw) (first : PollInput) : Option Child :=
  created.map fun raw ↦ childProcess raw first

/-- The part of `execFile` after `spawn`; a pipe that is missing ends it in a `TypeError`. -/
def Child.attach (cp : Child) : Child :=
  if cp.raw.stdout = none then cp
  else if cp.raw.stderr = none then cp.on (.data .stdout) (.collect .stdout)
  else
    ((cp.on (.data .stdout) (.collect .stdout)).on (.data .stderr) (.collect .stderr)).on
      .exit .callback

def execFile (created : Option Raw) (first : PollInput) : Option Child :=
  (spawn created first).map Child.attach

/-- `exec` only sets the option that makes `_spawnProcess` run a shell. -/
def exec (created : Option Raw) (first : PollInput) : Option Child := execFile created first

/-- A turn of the event loop in which the child, not the schedule, decides what a poll reports. -/
inductive Step
  | user (action : UserAction)
  | on (name : EventName) (actions : List UserAction)
  | timer (before after : Reads)

/-- A run of turns whose first poll is at time `t` of the child. -/
def Child.steps (run : ChildRun) : Nat → Child → List Step → Child
  | _, cp, [] => cp
  | t, cp, .user action :: rest => Child.steps run t (cp.turn (.user action)) rest
  | t, cp, .on name actions :: rest => Child.steps run t (cp.turn (.on name actions)) rest
  | t, cp, .timer before after :: rest =>
    Child.steps run (t + 1) (cp.turn (.timer ⟨before, pollProcess run t, after⟩)) rest

def timersFired : List Step → Nat
  | [] => 0
  | .timer _ _ :: rest => timersFired rest + 1
  | _ :: rest => timersFired rest

def Event.error : Event → Option (Option Int)
  | .callback err _ _ => some err
  | _ => none

/-- The `err` arguments the callback was called with. -/
def Child.errors (cp : Child) : List (Option Int) := cp.log.filterMap Event.error

/-- The calls of the callback in a run of `execFile`. -/
def execErrors (created : Option Raw) (run : ChildRun) (first last : Reads) (steps : List Step) :
    List (Option Int) :=
  match execFile created ⟨first, pollProcess run 0, last⟩ with
  | none => []
  | some cp => (cp.steps run 1 steps).errors

/-! ## Events and the callback -/

theorem Child.errors_record (cp : Child) (e : Event) :
    (cp.record e).errors = cp.errors ++ e.error.toList := by
  unfold Child.errors Child.record
  rw [List.filterMap_append]
  cases herror : e.error <;> simp [herror]

theorem Child.errors_act (cp : Child) (action : UserAction) : (cp.act action).errors = cp.errors := by
  cases action with
  | stdinWrite data =>
    show (cp.stdinWrite data).errors = cp.errors
    unfold Child.stdinWrite
    cases cp.stdin with
    | none => rfl
    | some fd => exact (Child.errors_record cp _).trans (List.append_nil _)
  | stdinEnd =>
    show cp.stdinEnd.errors = cp.errors
    unfold Child.stdinEnd
    cases cp.stdin with
    | none => rfl
    | some fd => exact (Child.errors_record cp (.closePipe fd)).trans (List.append_nil _)
  | kill => exact (Child.errors_record cp (.killProcess cp.raw.pid)).trans (List.append_nil _)

theorem errors_foldl {ε : Type} {f : Child → ε → Child} (h : ∀ cp e, (f cp e).errors = cp.errors)
    (cp : Child) (es : List ε) : (es.foldl f cp).errors = cp.errors :=
  Runs.foldl_keeps (R := fun a b : Child ↦ b.errors = a.errors) (fun _ ↦ rfl)
    (fun _ _ _ h h' ↦ h'.trans h) h cp es

/-- The number of times the callback listens to an event. -/
def Child.callbacks (cp : Child) (name : EventName) : Nat := (cp.listenersOf name).count .callback

/-- How often the callback is called when the child exits. -/
def Child.callsAtExit (cp : Child) : Nat := cp.callbacks .exit + cp.callbacks .close

theorem Child.errors_call_chunk (cp : Child) (text : JsString) (l : Listener) :
    (cp.call (.chunk text) l).errors = cp.errors := by
  cases l with
  | user actions => exact errors_foldl Child.errors_act cp actions
  | collect stream => cases stream <;> rfl
  | callback => rfl

theorem Child.errors_call_code (cp : Child) (code : Int) (l : Listener) :
    (cp.call (.code code) l).errors =
      cp.errors ++ List.replicate ([l].count .callback) (errorOf code) := by
  cases l with
  | user actions =>
    rw [show [Listener.user actions].count .callback = 0 from rfl, List.replicate_zero,
      List.append_nil]
    exact errors_foldl Child.errors_act cp actions
  | collect stream => cases stream <;> exact (List.append_nil _).symm
  | callback => exact Child.errors_record cp _

theorem Child.errors_emit_chunk (cp : Child) (name : EventName) (text : JsString) :
    (cp.emit name (.chunk text)).errors = cp.errors :=
  errors_foldl (fun cp l ↦ Child.errors_call_chunk cp text l) cp _

theorem Child.errors_emit_code (cp : Child) (name : EventName) (code : Int) :
    (cp.emit name (.code code)).errors =
      cp.errors ++ List.replicate (cp.callbacks name) (errorOf code) := by
  have hloop : ∀ (ls : List Listener) (cp : Child),
      (ls.foldl (fun cp l ↦ cp.call (.code code) l) cp).errors =
        cp.errors ++ List.replicate (ls.count .callback) (errorOf code) := by
    intro ls
    induction ls with
    | nil =>
      intro cp
      exact (List.append_nil _).symm
    | cons l ls ih =>
      intro cp
      rw [List.foldl_cons, ih, Child.errors_call_code, List.append_assoc, List.replicate_append_replicate,
        ← List.count_append, List.singleton_append]
  exact hloop _ cp

theorem Child.errors_drain (cp : Child) (reads : Reads) : (cp.drain reads).errors = cp.errors := by
  have hdata : ∀ stream (cp : Child) text, (cp.emitData stream text).errors = cp.errors := by
    intro stream cp text
    rw [Child.emitData, Child.errors_emit_chunk, Child.errors_record]
    exact List.append_nil _
  have hopen : ∀ (fd : Option Nat) stream texts (cp : Child),
      (if fd.isSome then List.foldl (Child.emitData stream) cp texts else cp).errors =
        cp.errors := by
    intro fd stream texts cp
    split
    · exact errors_foldl (hdata stream) cp texts
    · rfl
  exact (hopen _ .stderr reads.stderr _).trans (hopen cp.stdout .stdout reads.stdout cp)

theorem Child.errors_closeAll (cp : Child) : cp.closeAll.errors = cp.errors := by
  have hstdout : ∀ cp : Child, cp.closeStdout.errors = cp.errors := by
    intro cp
    unfold Child.closeStdout
    cases cp.stdout with
    | none => rfl
    | some fd => exact (Child.errors_record cp (.closePipe fd)).trans (List.append_nil _)
  have hstderr : ∀ cp : Child, cp.closeStderr.errors = cp.errors := by
    intro cp
    unfold Child.closeStderr
    cases cp.stderr with
    | none => rfl
    | some fd => exact (Child.errors_record cp (.closePipe fd)).trans (List.append_nil _)
  rw [Child.closeAll, hstderr, hstdout]
  exact Child.errors_act cp .stdinEnd

theorem Child.callbacks_congr {cp cp' : Child} (h : cp'.listeners = cp.listeners)
    (name : EventName) : cp'.callbacks name = cp.callbacks name := by
  rw [Child.callbacks, Child.callbacks, Child.listenersOf, Child.listenersOf, h]

theorem Child.callsAtExit_congr {cp cp' : Child} (h : cp'.listeners = cp.listeners) :
    cp'.callsAtExit = cp.callsAtExit := by
  rw [Child.callsAtExit, Child.callbacks_congr h, Child.callbacks_congr h, Child.callsAtExit]

-- The end of a child calls the callback once for each time it listens to `exit` or `close`.
theorem Child.errors_finish (cp : Child) (code : Int) (after : Reads) :
    (cp.finish code after).errors =
      cp.errors ++ List.replicate cp.callsAtExit (errorOf code) := by
  let reaped : Child := { cp.record (.reaped code) with exited := true, exitCode := some code }
  have hreaped : reaped.errors = cp.errors :=
    (Child.errors_record cp (.reaped code)).trans (List.append_nil _)
  have hdrain := (Drained.drain reaped after).listeners
  have hexit : ((reaped.drain after).emitExit code).listeners = cp.listeners :=
    (Quiet.emit _ _ _).listeners.trans hdrain
  have hatExit : ((reaped.drain after).record (.exit code)).callbacks .exit = cp.callbacks .exit :=
    Child.callbacks_congr hdrain .exit
  have hatClose : (((reaped.drain after).emitExit code).closeAll.record (.close code)).callbacks
      .close = cp.callbacks .close :=
    Child.callbacks_congr ((Child.closeAll_listeners _).trans hexit) .close
  show ((((reaped.drain after).emitExit code).closeAll).emitClose code).errors = _
  rw [Child.emitClose, Child.errors_emit_code, Child.errors_record, Child.errors_closeAll, hatClose,
    Child.emitExit, Child.errors_emit_code, Child.errors_record, Child.errors_drain, hreaped, hatExit,
    Child.callsAtExit, ← List.replicate_append_replicate]
  simp only [Event.error, Option.toList_none, List.append_nil, List.append_assoc]

/-! ## Runs -/

/-- Before a poll reports the exit: no poll up to time `t` has, a timer is pending, the callback has
not been called and listens `n` times. -/
structure Waiting (run : ChildRun) (n t : Nat) (cp : Child) : Prop where
  exited : cp.exited = false
  timers : 0 < cp.timers
  errors : cp.errors = []
  calls : cp.callsAtExit = n
  polled : ∀ t' < t, pollProcess run t' = none

/-- After that: the child is not polled again, and `errs` are all calls there have been. -/
def Finished (errs : List (Option Int)) (cp : Child) : Prop := cp.exited = true ∧ cp.errors = errs

theorem Child.callsAtExit_on_user (cp : Child) (name : EventName) (actions : List UserAction) :
    (cp.on name (.user actions)).callsAtExit = cp.callsAtExit := by
  have hname : ∀ name', (cp.on name (.user actions)).callbacks name' = cp.callbacks name' := by
    intro name'
    unfold Child.callbacks Child.listenersOf Child.on
    by_cases hsame : name = name'
    · simp [List.filter_append, hsame]
    · simp [List.filter_append, hsame]
  rw [Child.callsAtExit, hname, hname, Child.callsAtExit]

theorem Finished.turn {errs : List (Option Int)} {cp : Child} (h : Finished errs cp) (t : Turn) :
    Finished errs (cp.turn t) := by
  obtain ⟨hexited, herrors⟩ := h
  cases t with
  | user action =>
    exact ⟨(Quiet.act cp action).exited.trans hexited, (Child.errors_act cp action).trans herrors⟩
  | on name actions => exact ⟨hexited, herrors⟩
  | timer input =>
    show Finished errs (if cp.timers = 0 then cp
      else ({ cp with timers := cp.timers - 1 } : Child).poll input)
    split
    · exact ⟨hexited, herrors⟩
    · rw [Child.poll, if_pos hexited]
      exact ⟨hexited, herrors⟩

theorem Finished.steps {run : ChildRun} {errs : List (Option Int)} {cp : Child}
    (h : Finished errs cp) (t : Nat) (steps : List Step) : Finished errs (cp.steps run t steps) := by
  induction steps generalizing t cp with
  | nil => exact h
  | cons step steps ih =>
    cases step with
    | user action => exact ih (h.turn _) t
    | on name actions => exact ih (h.turn _) t
    | timer before after => exact ih (h.turn _) (t + 1)

-- A poll either reports nothing and sets the next timer, or ends the child.
theorem poll_waiting {run : ChildRun} {t : Nat} (cp : Child) (hexited : cp.exited = false)
    (herrors : cp.errors = []) (hpolled : ∀ t' < t, pollProcess run t' = none)
    (before after : Reads) :
    (pollProcess run t = none ∧
      Waiting run cp.callsAtExit (t + 1) (cp.poll ⟨before, pollProcess run t, after⟩)) ∨
    ∃ code, pollProcess run t = some code ∧
      Finished (List.replicate cp.callsAtExit (errorOf code))
        (cp.poll ⟨before, pollProcess run t, after⟩) := by
  have hdrain := Drained.drain cp before
  have hquiet := Child.errors_drain cp before
  have hsame := Child.callsAtExit_congr hdrain.listeners
  rw [Child.poll, hexited, if_neg Bool.false_ne_true]
  cases hstatus : pollProcess run t with
  | none =>
    refine .inl ⟨rfl, hdrain.exited.trans hexited, Nat.succ_pos _, hquiet.trans herrors, hsame, ?_⟩
    intro t' ht'
    by_cases hlt : t' < t
    · exact hpolled t' hlt
    · rw [show t' = t by omega, hstatus]
  | some code =>
    refine .inr ⟨code, rfl, Child.finish_exited _ _ _, ?_⟩
    show ((cp.drain before).finish code after).errors = _
    rw [Child.errors_finish, hquiet, herrors, hsame, List.nil_append]

theorem Waiting.steps {run : ChildRun} {n t : Nat} {cp : Child} (h : Waiting run n t cp)
    (steps : List Step) :
    Waiting run n (t + timersFired steps) (cp.steps run t steps) ∨
      ∃ t' code, pollProcess run t' = some code ∧
        Finished (List.replicate n (errorOf code)) (cp.steps run t steps) := by
  induction steps generalizing t cp with
  | nil => exact .inl h
  | cons step steps ih =>
    cases step with
    | user action =>
      have hquiet := Quiet.act cp action
      apply ih
      refine ⟨hquiet.exited.trans h.exited, ?_, (Child.errors_act cp action).trans h.errors,
        (Child.callsAtExit_congr hquiet.listeners).trans h.calls, h.polled⟩
      show 0 < (cp.act action).timers
      rw [hquiet.timers]
      exact h.timers
    | on name actions =>
      exact ih ⟨h.exited, h.timers, h.errors,
        (Child.callsAtExit_on_user cp name actions).trans h.calls, h.polled⟩
    | timer before after =>
      have hturn : cp.turn (.timer ⟨before, pollProcess run t, after⟩) =
          ({ cp with timers := cp.timers - 1 } : Child).poll ⟨before, pollProcess run t, after⟩ :=
        if_neg (Nat.ne_of_gt h.timers)
      show Waiting run n (t + (timersFired steps + 1))
        ((cp.turn (.timer ⟨before, pollProcess run t, after⟩)).steps run (t + 1) steps) ∨
        ∃ t' code, pollProcess run t' = some code ∧ Finished (List.replicate n (errorOf code))
          ((cp.turn (.timer ⟨before, pollProcess run t, after⟩)).steps run (t + 1) steps)
      rw [hturn, show t + (timersFired steps + 1) = t + 1 + timersFired steps by omega, ← h.calls]
      rcases poll_waiting { cp with timers := cp.timers - 1 } h.exited h.errors h.polled before
        after with ⟨-, hwait⟩ | ⟨code, hcode, hfinished⟩
      · rw [← h.calls] at ih
        exact ih hwait
      · exact .inr ⟨t, code, hcode, hfinished.steps (t + 1) steps⟩

theorem Child.callsAtExit_on_collect (cp : Child) (stream : Stream) :
    (cp.on (.data stream) (.collect stream)).callsAtExit = cp.callsAtExit := by
  simp [Child.callsAtExit, Child.callbacks, Child.listenersOf, Child.on, List.filter_append]

theorem Child.callsAtExit_on_callback (cp : Child) :
    (cp.on .exit .callback).callsAtExit = cp.callsAtExit + 1 := by
  simp [Child.callsAtExit, Child.callbacks, Child.listenersOf, Child.on, List.filter_append]
  omega

-- The callback is attached once if both output pipes exist, and never otherwise.
theorem Child.callsAtExit_attach (cp : Child) :
    cp.attach.callsAtExit =
      cp.callsAtExit + if cp.raw.stdout ≠ none ∧ cp.raw.stderr ≠ none then 1 else 0 := by
  unfold Child.attach
  by_cases hout : cp.raw.stdout = none
  · rw [if_pos hout, if_neg fun h ↦ h.1 hout, Nat.add_zero]
  · rw [if_neg hout]
    by_cases herr : cp.raw.stderr = none
    · rw [if_pos herr, if_neg fun h ↦ h.2 herr, Child.callsAtExit_on_collect, Nat.add_zero]
    · rw [if_neg herr, if_pos ⟨hout, herr⟩, Child.callsAtExit_on_callback,
        Child.callsAtExit_on_collect, Child.callsAtExit_on_collect]

theorem Child.attach_same (cp : Child) : cp.attach.exited = cp.exited ∧
    cp.attach.timers = cp.timers ∧ cp.attach.errors = cp.errors := by
  unfold Child.attach
  split
  · exact ⟨rfl, rfl, rfl⟩
  · split <;> exact ⟨rfl, rfl, rfl⟩

-- The child as `execFile` returns it: it has been polled at time 0, and the callback listens if the
-- pipes exist; or that poll found the child ended.
theorem execFile_started (raw : Raw) (run : ChildRun) (first last : Reads) :
    (pollProcess run 0 = none ∧
      Waiting run (if raw.stdout ≠ none ∧ raw.stderr ≠ none then 1 else 0) 1
        (childProcess raw ⟨first, pollProcess run 0, last⟩).attach) ∨
    (pollProcess run 0 ≠ none ∧
      Finished [] (childProcess raw ⟨first, pollProcess run 0, last⟩).attach) := by
  have hsound := childProcess_sound raw ⟨first, pollProcess run 0, last⟩
  have hpolled : ∀ t' < 0, pollProcess run t' = none := fun t' ht' ↦ absurd ht' (Nat.not_lt_zero t')
  have hpoll := poll_waiting (Child.initial raw) rfl rfl hpolled first last
  rw [← childProcess] at hpoll
  revert hsound hpoll
  generalize childProcess raw ⟨first, pollProcess run 0, last⟩ = cp
  intro hsound hpoll
  obtain ⟨hexited, htimers, herrors⟩ := cp.attach_same
  rcases hpoll with ⟨hnone, hwait⟩ | ⟨code, hcode, hended, herrs⟩
  · have hraw : cp.raw = raw := by
      rcases hsound with h | ⟨h, -⟩
      · exact h.raw
      · exact absurd (h.symm.trans hwait.exited) (by decide)
    refine .inl ⟨hnone, hexited.trans hwait.exited, htimers ▸ hwait.timers,
      herrors.trans hwait.errors, ?_, hwait.polled⟩
    rw [Child.callsAtExit_attach, hwait.calls, hraw]
    exact Nat.zero_add _
  · refine .inr ⟨fun h ↦ ?_, hexited.trans hended, herrors.trans herrs⟩
    rw [hcode] at h
    cases h

-- With enough turns for a poll after the child's end, the callback has been called as often as it
-- listens, unless the exit code is the reserved one.
theorem Waiting.called {run : ChildRun} {n : Nat} {cp : Child} (h : Waiting run n 1 cp)
    {steps : List Step} (hsteps : run.endsAt ≤ timersFired steps) :
    (cp.steps run 1 steps).errors =
      if run.reserved = false then List.replicate n (errorOf run.exitCode) else [] := by
  rcases h.steps steps with hwaiting | ⟨t', code, hcode, -, herrors⟩
  · have hend := hwaiting.polled run.endsAt (by omega)
    rw [pollProcess_eq] at hend
    by_cases hreserved : run.reserved = false
    · rw [if_pos ⟨Nat.le_refl _, hreserved⟩] at hend
      cases hend
    · rw [if_neg hreserved, hwaiting.errors]
  · rw [pollProcess_eq] at hcode
    by_cases hreport : run.endsAt ≤ t' ∧ run.reserved = false
    · rw [if_pos hreport, Option.some.injEq] at hcode
      rw [if_pos hreport.2, herrors, hcode]
    · rw [if_neg hreport] at hcode
      cases hcode

theorem errorOf_exitCode (run : ChildRun) : errorOf run.exitCode = none ↔ run.Succeeded := by
  rw [succeeded_iff, errorOf]
  by_cases hzero : run.exitCode = 0
  · rw [if_neg (not_not_intro hzero)]
    exact iff_of_true rfl hzero
  · rw [if_pos hzero]
    exact iff_of_false (Option.some_ne_none _) hzero

-- The calls of a child that runs on after its first poll: none, or one for the callback.
theorem called_once_iff (run : ChildRun) (listens : Prop) [Decidable listens] :
    (∃ err, (if run.reserved = false then
        List.replicate (if listens then 1 else 0) (errorOf run.exitCode) else []) = [err] ∧
      (err = none ↔ run.Succeeded)) ↔ run.reserved = false ∧ listens := by
  by_cases hreserved : run.reserved = false
  · rw [if_pos hreserved]
    by_cases hlistens : listens
    · rw [if_pos hlistens]
      exact iff_of_true ⟨errorOf run.exitCode, rfl, errorOf_exitCode run⟩ ⟨hreserved, hlistens⟩
    · rw [if_neg hlistens]
      apply iff_of_false
      · rintro ⟨err, herr, -⟩
        cases herr
      · exact fun h ↦ hlistens h.2
  · rw [if_neg hreserved]
    apply iff_of_false
    · rintro ⟨err, herr, -⟩
      cases herr
    · exact fun h ↦ hreserved h.1

/-- Over any run with enough turns for a poll after the child's end, the callback is called exactly
once, with no error precisely if the child succeeded, when and only when the child was created with
both output pipes, was still running at the poll of the constructor, and does not exit with the code
that stands for a running process. -/
theorem execFile_callback_iff (created : Option Raw) (run : ChildRun) (first last : Reads)
    (steps : List Step) (hsteps : run.endsAt ≤ timersFired steps) :
    (∃ err, execErrors created run first last steps = [err] ∧ (err = none ↔ run.Succeeded)) ↔
      run.reserved = false ∧ 0 < run.endsAt ∧
        ∃ raw, created = some raw ∧ raw.stdout ≠ none ∧ raw.stderr ≠ none := by
  cases created with
  | none =>
    apply iff_of_false
    · rintro ⟨err, herr, -⟩
      cases herr
    · rintro ⟨-, -, raw, hraw, -⟩
      cases hraw
  | some raw =>
    have hraw : (∃ raw', some raw = some raw' ∧ raw'.stdout ≠ none ∧ raw'.stderr ≠ none) ↔
        raw.stdout ≠ none ∧ raw.stderr ≠ none :=
      ⟨fun ⟨raw', hsame, h⟩ ↦ Option.some.inj hsame ▸ h, fun h ↦ ⟨raw, rfl, h⟩⟩
    rw [hraw]
    show (∃ err, ((childProcess raw ⟨first, pollProcess run 0, last⟩).attach.steps run 1 steps).errors
      = [err] ∧ _) ↔ _
    rcases execFile_started raw run first last with ⟨hnone, hwait⟩ | ⟨hsome, hfinished⟩
    · rw [hwait.called hsteps, called_once_iff]
      apply and_congr_right
      intro hreserved
      rw [pollProcess_eq] at hnone
      have hpos : 0 < run.endsAt := by
        by_contra hzero
        rw [if_pos ⟨Nat.le_of_not_lt hzero, hreserved⟩] at hnone
        cases hnone
      exact (and_iff_right hpos).symm
    · -- the exit was reported before the callback could listen
      rw [(hfinished.steps 1 steps).2]
      rw [pollProcess_eq] at hsome
      apply iff_of_false
      · rintro ⟨err, herr, -⟩
        cases herr
      · rintro ⟨-, hpos, -⟩
        rw [if_neg (by omega)] at hsome
        exact absurd rfl hsome

/-- A child that runs until after the first poll and then exits with code 3. -/
theorem execFile_callback_later :
    (∃ err, execErrors (some ⟨7, some 3, some 4, some 5⟩) (.unix (.exited 3) 2 0) ⟨[], []⟩ ⟨[], []⟩
        [.timer ⟨[], []⟩ ⟨[], []⟩, .user .stdinEnd, .timer ⟨[[104, 105]], []⟩ ⟨[], []⟩] = [err] ∧
        (err = none ↔ ChildRun.Succeeded (.unix (.exited 3) 2 0))) ↔
      ChildRun.reserved (.unix (.exited 3) 2 0) = false ∧ 0 < 2 ∧
        ∃ raw, some (⟨7, some 3, some 4, some 5⟩ : Raw) = some raw ∧
          raw.stdout ≠ none ∧ raw.stderr ≠ none :=
  execFile_callback_iff (some ⟨7, some 3, some 4, some 5⟩) (.unix (.exited 3) 2 0) ⟨[], []⟩ ⟨[], []⟩
    [.timer ⟨[], []⟩ ⟨[], []⟩, .user .stdinEnd, .timer ⟨[[104, 105]], []⟩ ⟨[], []⟩] (by decide)

/-- A child that has exited by the poll of the constructor: no turn ever calls the callback. -/
theorem execFile_callback_lost :
    ¬ ∀ (created : Option Raw) (run : ChildRun) (first last : Reads) (steps : List Step),
      run.endsAt ≤ timersFired steps →
        ∃ err, execErrors created run first last steps = [err] ∧ (err = none ↔ run.Succeeded) := by
  intro h
  obtain ⟨err, herr, -⟩ := h (some ⟨7, some 3, some 4, some 5⟩) (.unix (.exited 0) 0 0) ⟨[], []⟩
    ⟨[], []⟩ [] (by decide)
  have hnone : execErrors (some ⟨7, some 3, some 4, some 5⟩) (.unix (.exited 0) 0 0) ⟨[], []⟩ ⟨[], []⟩
      [] = [] := rfl
  rw [hnone] at herr
  cases herr

end QNode.ChildProcess
