import QNode.ChildProcess.Schedule

/-!
# Turns of the event loop, step by step

A poll in one piece is one of the schedules: for every run of turns there is a run of steps that
leaves the child's object as the turns do.
-/

open QNode.Engine Runs

namespace QNode.ChildProcess

/-! ## The object without its listeners -/

/-- The steps let user code run wherever listeners are called and keep no listeners in the object. -/
def Child.bare (cp : Child) : Child := { cp with listeners := [] }

theorem Child.bare_act (cp : Child) (action : UserAction) :
    (cp.act action).bare = cp.bare.act action := by
  cases action with
  | stdinWrite data =>
    show (cp.stdinWrite data).bare = cp.bare.stdinWrite data
    unfold Child.stdinWrite Child.bare
    cases hin : cp.stdin <;> simp [hin, Child.record]
  | stdinEnd =>
    show cp.stdinEnd.bare = cp.bare.stdinEnd
    unfold Child.stdinEnd Child.bare
    cases hin : cp.stdin <;> simp [hin, Child.record]
  | kill => rfl

theorem Child.bare_closeAll (cp : Child) : cp.closeAll.bare = cp.bare.closeAll := by
  unfold Child.closeAll Child.closeStderr Child.closeStdout Child.stdinEnd Child.bare
  cases hin : cp.stdin <;> cases hout : cp.stdout <;> cases herr : cp.stderr <;>
    simp [hin, hout, herr, Child.record]

theorem Child.finish_listeners (cp : Child) (code : Int) (after : Reads) :
    (cp.finish code after).listeners = cp.listeners := by
  have hexit : ∀ cp : Child, (cp.emitExit code).listeners = cp.listeners :=
    fun _ ↦ (Quiet.emit _ _ _).listeners
  have hclose : ∀ cp : Child, (cp.emitClose code).listeners = cp.listeners :=
    fun _ ↦ (Quiet.emit _ _ _).listeners
  rw [Child.finish, hclose, Child.closeAll_listeners, hexit, (Drained.drain _ _).listeners]
  rfl

namespace Schedule

theorem fdOf_bare (cp : Child) : fdOf cp.bare = fdOf cp := by
  ext1 stream
  cases stream <;> rfl

theorem fdOf_kept {cp cp' : Child} (h : Kept cp cp') : fdOf cp' = fdOf cp := by
  ext1 stream
  cases stream with
  | stdout => exact h.stdout
  | stderr => exact h.stderr

/-- Its listeners are all of the user, and there are none while the constructor runs. -/
structure Plain (cp : Child) (constructing : Bool) : Prop where
  users : ∀ l ∈ cp.listeners, ∃ actions, l.2 = .user actions
  early : constructing = true → cp.listeners = []

theorem Plain.of_listeners {cp cp' : Child} {constructing : Bool} (h : Plain cp constructing)
    (heq : cp'.listeners = cp.listeners) : Plain cp' constructing := by
  constructor
  · rw [heq]
    exact h.users
  · rw [heq]
    exact h.early

/-- A state of the parent between two of its steps. -/
structure At (cp : Child) (constructing : Bool) (control : Control) (process : ChildState)
    (pipe : Stream → List UInt8) (w : World) : Prop where
  child : w.child = cp.bare
  constructing : w.constructing = constructing
  control : w.control = control
  process : w.process = process
  pipe : w.pipe = pipe

section

variable (platform : Platform) (decodeOutput : List UInt8 → JsString)
variable {cp : Child} {constructing : Bool} {control : Control} {process : ChildState}
  {pipe : Stream → List UInt8} {w : World}

/-! ## Events -/

theorem At.act (h : At cp constructing control process pipe w) (hruns : w.userRuns = true)
    (action : UserAction) :
    At (cp.act action) constructing control process pipe
      (step platform decodeOutput w (.user action)) := by
  show At _ _ _ _ _ (if w.userRuns then userStep w action else w)
  rw [if_pos hruns]
  have hchild : w.child.act action = (cp.act action).bare := by
    rw [h.child, Child.bare_act]
  exact ⟨hchild, h.constructing, h.control, h.process, h.pipe⟩

/-- Where the parent calls listeners. -/
def Control.emits : Control → Bool
  | .data _ _ | .exit _ | .close => true
  | .read _ _ | .poll | .spawned | .idle => false

theorem At.emit (h : At cp constructing control process pipe w) (hplain : Plain cp constructing)
    (hemits : control.emits = true) (name : EventName) (arg : EventArg) :
    Leads (step platform decodeOutput) w
      (At (cp.emit name arg) constructing control process pipe) := by
  cases constructing with
  | true =>
    have hnone : cp.emit name arg = cp := by
      rw [Child.emit, Child.listenersOf, hplain.early rfl]
      rfl
    rw [hnone]
    exact Leads.here h
  | false =>
    refine Leads.foldl (P := fun cp ↦ At cp false control process pipe) ?_ h
    intro cp' l hl w' h'
    obtain ⟨listener, hmem, rfl⟩ := List.mem_map.mp hl
    obtain ⟨actions, hactions⟩ := hplain.users listener (List.mem_filter.mp hmem).1
    rw [hactions]
    refine Leads.foldl (P := fun cp ↦ At cp false control process pipe) ?_ h'
    intro cp'' action _ w'' h''
    have hruns : w''.userRuns = true := by
      unfold World.userRuns
      rw [h''.control, h''.constructing]
      revert hemits
      cases control <;> simp [Control.emits]
    exact Leads.step (.user action) (h''.act platform decodeOutput hruns action)

/-! ## Drains -/

-- A chunk goes out as the event of one read, whatever is behind it in the pipe.
theorem At.chunk {ended : Option Int} {stream : Stream} {bytes rest : List UInt8}
    (h : At cp constructing (.read ended stream) process pipe w) (hplain : Plain cp constructing)
    (hfd : (fdOf cp stream).isSome) (hbytes : bytes ≠ [] ∧ bytes.length ≤ 65536)
    (hpipe : pipe stream = bytes ++ rest) :
    Leads (step platform decodeOutput) w
      (At (cp.emitData stream (decodeOutput bytes)) constructing (.read ended stream) process
        (Function.update pipe stream rest)) := by
  have hlen : min (bytes.length - 1 + 1) 65536 = bytes.length := by
    have hpos := List.length_pos_iff.mpr hbytes.1
    omega
  have hwpipe : w.pipe stream = bytes ++ rest := by rw [h.pipe, hpipe]
  have hread : step platform decodeOutput w (.parent (bytes.length - 1)) =
      takeChunk decodeOutput w ended stream bytes := by
    have hsome : (fdOf w.child stream).isSome ∧ w.pipe stream ≠ [] := by
      rw [h.child, fdOf_bare, hwpipe]
      exact ⟨hfd, by simp [hbytes.1]⟩
    show parentStep platform decodeOutput (bytes.length - 1) w = _
    rw [parentStep, h.control]
    show readStep decodeOutput (bytes.length - 1) w ended stream = _
    rw [readStep, if_pos hsome, hlen, hwpipe, List.take_left]
  have htaken : At (cp.record (.data stream (decodeOutput bytes))) constructing
      (.data ended stream) process (Function.update pipe stream rest)
      (takeChunk decodeOutput w ended stream bytes) := by
    refine ⟨?_, h.constructing, rfl, h.process, ?_⟩
    · show w.child.record _ = (cp.record _).bare
      rw [h.child]
      rfl
    · show Function.update w.pipe stream ((w.pipe stream).drop bytes.length) = _
      rw [hwpipe, List.drop_left, h.pipe]
  rw [← hread] at htaken
  apply (Leads.step _ htaken).trans
  intro w' h'
  apply (h'.emit platform decodeOutput (hplain.of_listeners rfl) rfl _ _).trans
  intro w'' h''
  refine Leads.step (.parent 0) ?_
  show At _ _ _ _ _ (parentStep platform decodeOutput 0 w'')
  rw [parentStep, h''.control]
  exact ⟨h''.child, h''.constructing, rfl, h''.process, h''.pipe⟩

theorem At.chunks {ended : Option Int} {stream : Stream} {chunks : List (List UInt8)}
    (h : At cp constructing (.read ended stream) process pipe w) (hplain : Plain cp constructing)
    (hfd : (fdOf cp stream).isSome) (hchunks : ∀ bytes ∈ chunks, bytes ≠ [] ∧ bytes.length ≤ 65536)
    (hpipe : pipe stream = chunks.flatten) :
    Leads (step platform decodeOutput) w
      (At ((chunks.map decodeOutput).foldl (Child.emitData stream) cp) constructing
        (.read ended stream) process (Function.update pipe stream [])) := by
  induction chunks generalizing cp pipe w with
  | nil =>
    rw [← show pipe stream = [] from hpipe, Function.update_eq_self]
    exact Leads.here h
  | cons bytes chunks ih =>
    rw [List.forall_mem_cons] at hchunks
    apply (h.chunk platform decodeOutput hplain hfd hchunks.1 hpipe).trans
    intro w' h'
    have hkept := (Drained.emitData stream cp (decodeOutput bytes)).toKept
    rw [← fdOf_kept hkept] at hfd
    have hplain' := hplain.of_listeners hkept.listeners
    have hrest := ih h' hplain' hfd hchunks.2 (Function.update_self ..)
    rw [Function.update_idem] at hrest
    exact hrest

/-- One of the two loops of a drain. -/
def drainStream (cp : Child) (stream : Stream) (texts : List JsString) : Child :=
  if (fdOf cp stream).isSome then texts.foldl (Child.emitData stream) cp else cp

theorem drainStream_kept (cp : Child) (stream : Stream) (texts : List JsString) :
    Kept cp (drainStream cp stream texts) := by
  unfold drainStream
  split
  · exact (foldl_keeps Drained.refl Drained.trans (Drained.emitData stream) cp texts).toKept
  · exact Kept.refl cp

/-- The pipes with the bytes of some chunks, those of them that were created. -/
def filled (cp : Child) (chunks : Stream → List (List UInt8)) (stream : Stream) : List UInt8 :=
  if (fdOf cp stream).isSome then (chunks stream).flatten else []

theorem At.drainStream {ended : Option Int} {stream : Stream}
    {chunks : Stream → List (List UInt8)}
    (h : At cp constructing (.read ended stream) process pipe w) (hplain : Plain cp constructing)
    (hchunks : ∀ bytes ∈ chunks stream, bytes ≠ [] ∧ bytes.length ≤ 65536)
    (hpipe : pipe stream = filled cp chunks stream) :
    Leads (step platform decodeOutput) w
      (At (drainStream cp stream ((chunks stream).map decodeOutput)) constructing
        (.read ended stream) process (Function.update pipe stream [])) := by
  unfold filled at hpipe
  unfold Schedule.drainStream
  by_cases hfd : (fdOf cp stream).isSome
  · rw [if_pos hfd] at hpipe ⊢
    exact h.chunks platform decodeOutput hplain hfd hchunks hpipe
  · rw [if_neg hfd] at hpipe ⊢
    rw [← hpipe, Function.update_eq_self]
    exact Leads.here h

-- A read of an empty pipe returns null.
theorem At.readNull {ended : Option Int} {stream : Stream}
    (h : At cp constructing (.read ended stream) process pipe w) (hpipe : pipe stream = []) :
    step platform decodeOutput w (.parent 0) = afterStream w ended stream := by
  show parentStep platform decodeOutput 0 w = _
  rw [parentStep, h.control]
  show readStep decodeOutput 0 w ended stream = _
  rw [readStep, if_neg]
  rw [h.pipe]
  exact fun hread ↦ hread.2 hpipe

/-- The texts of the chunks that a drain reads. -/
def readsOf (chunks : Stream → List (List UInt8)) : Reads :=
  ⟨(chunks .stdout).map decodeOutput, (chunks .stderr).map decodeOutput⟩

theorem At.drain {ended : Option Int} {chunks : Stream → List (List UInt8)}
    (h : At cp constructing (.read ended .stdout) process (filled cp chunks) w)
    (hplain : Plain cp constructing)
    (hchunks : ∀ stream, ∀ bytes ∈ chunks stream, bytes ≠ [] ∧ bytes.length ≤ 65536) :
    Leads (step platform decodeOutput) w
      (At (cp.drain (readsOf decodeOutput chunks)) constructing (.read ended .stderr) process
        fun _ ↦ []) := by
  let out := Schedule.drainStream cp .stdout ((chunks .stdout).map decodeOutput)
  let pipe := Function.update (filled cp chunks) .stdout []
  have hkept : Kept cp out := drainStream_kept cp .stdout _
  apply (h.drainStream platform decodeOutput hplain (hchunks .stdout) rfl).trans
  intro w₁ h₁
  have hnull : At out constructing (.read ended .stderr) process pipe
      (step platform decodeOutput w₁ (.parent 0)) := by
    rw [h₁.readNull platform decodeOutput (Function.update_self ..)]
    exact ⟨h₁.child, h₁.constructing, rfl, h₁.process, h₁.pipe⟩
  apply (Leads.step _ hnull).trans
  intro w₂ h₂
  have hpipe : pipe .stderr = filled out chunks .stderr := by
    show filled cp chunks .stderr = filled out chunks .stderr
    rw [filled, filled, fdOf_kept hkept]
  have hlast := h₂.drainStream platform decodeOutput (hplain.of_listeners hkept.listeners)
    (hchunks .stderr) hpipe
  have hempty : Function.update pipe .stderr [] = fun _ ↦ [] := by
    ext1 stream
    cases stream <;> rfl
  rw [hempty] at hlast
  exact hlast

/-! ## Polls -/

theorem At.write (h : At cp constructing control .running pipe w) (hfds : fdOf cp = Raw.fd cp.raw)
    (stream : Stream) (bytes : List UInt8) :
    At cp constructing control .running
      (Function.update pipe stream (pipe stream ++ if (fdOf cp stream).isSome then bytes else []))
      (step platform decodeOutput w (.write stream bytes)) := by
  show At _ _ _ _ _ (if w.process = .running ∧ (Raw.fd w.child.raw stream).isSome then _ else w)
  have hraw : Raw.fd w.child.raw = fdOf cp := by rw [h.child, hfds]; rfl
  rw [hraw]
  by_cases hfd : (fdOf cp stream).isSome
  · rw [if_pos hfd, if_pos ⟨h.process, hfd⟩, ← h.pipe]
    exact ⟨h.child, h.constructing, h.control, h.process, rfl⟩
  · rw [if_neg hfd, List.append_nil, Function.update_eq_self, if_neg fun hpiped ↦ hfd hpiped.2]
    exact h

theorem At.fill (h : At cp constructing control .running (fun _ ↦ []) w)
    (hfds : fdOf cp = Raw.fd cp.raw) (chunks : Stream → List (List UInt8)) :
    Leads (step platform decodeOutput) w
      (At cp constructing control .running (filled cp chunks)) := by
  apply (Leads.step _ (h.write platform decodeOutput hfds .stdout (chunks .stdout).flatten)).trans
  intro w' h'
  apply Leads.step (.write .stderr (chunks .stderr).flatten)
  convert h'.write platform decodeOutput hfds .stderr (chunks .stderr).flatten using 1
  ext1 stream
  cases stream <;> rfl

theorem At.endPoll (h : At cp constructing control process pipe w) :
    At cp false (if constructing then .spawned else .idle) process pipe (endPoll w) := by
  unfold Schedule.endPoll
  rw [h.constructing]
  cases constructing <;> exact ⟨h.child, rfl, rfl, h.process, h.pipe⟩

theorem At.rearm (h : At cp constructing .poll .running pipe w) :
    At { cp with timers := cp.timers + 1 } false (if constructing then .spawned else .idle) .running
      pipe (step platform decodeOutput w (.parent 0)) := by
  have hnone : exitReport platform w = none := by rw [exitReport, h.process]
  show At _ _ _ _ _ (parentStep platform decodeOutput 0 w)
  rw [parentStep, h.control]
  show At _ _ _ _ _ (pollStep platform w)
  rw [pollStep, hnone]
  have hchild : ({ w.child with timers := w.child.timers + 1 } : Child) =
      Child.bare { cp with timers := cp.timers + 1 } := by
    rw [h.child]
    rfl
  have hfired : At { cp with timers := cp.timers + 1 } constructing .poll .running pipe
      { w with child := { w.child with timers := w.child.timers + 1 } } :=
    ⟨hchild, h.constructing, h.control, h.process, h.pipe⟩
  exact hfired.endPoll

/-- The child as the poll that finds its exit marks it. -/
def reapedAs (cp : Child) (code : Int) : Child :=
  { cp.record (.reaped code) with exited := true, exitCode := some code }

theorem At.reap {code : Int} (h : At cp constructing .poll (.ended code) pipe w)
    (hcode : ¬(platform = .windows ∧ code = stillActive.toInt)) :
    At (reapedAs cp code) constructing (.read (some code) .stdout)
      (if platform = .unix then .reaped none else .ended code) pipe
      (step platform decodeOutput w (.parent 0)) := by
  have hreport : exitReport platform w = some code := by
    rw [exitReport, h.process]
    exact if_neg hcode
  show At _ _ _ _ _ (parentStep platform decodeOutput 0 w)
  rw [parentStep, h.control]
  show At _ _ _ _ _ (pollStep platform w)
  rw [pollStep, hreport]
  refine ⟨?_, h.constructing, rfl, ?_, h.pipe⟩
  · show reapedAs w.child code = (reapedAs cp code).bare
    rw [h.child]
    rfl
  · show (if platform = .unix then .reaped none else w.process) = _
    rw [h.process]

-- The last drain, `exit`, the closing of the pipes and `close`.
theorem At.finish {code : Int} {chunks : Stream → List (List UInt8)}
    (h : At (reapedAs cp code) constructing (.read (some code) .stdout) process
      (filled cp chunks) w) (hplain : Plain cp constructing)
    (hchunks : ∀ stream, ∀ bytes ∈ chunks stream, bytes ≠ [] ∧ bytes.length ≤ 65536) :
    Leads (step platform decodeOutput) w
      (At (cp.finish code (readsOf decodeOutput chunks)) false
        (if constructing then .spawned else .idle) process fun _ ↦ []) := by
  let drained := (reapedAs cp code).drain (readsOf decodeOutput chunks)
  have hdrained : Kept (reapedAs cp code) drained := (Drained.drain _ _).toKept
  apply (h.drain platform decodeOutput (hplain.of_listeners rfl) hchunks).trans
  intro w₁ h₁
  have hexit : At (drained.record (.exit code)) constructing (.exit code) process (fun _ ↦ [])
      (step platform decodeOutput w₁ (.parent 0)) := by
    rw [h₁.readNull platform decodeOutput rfl]
    refine ⟨?_, h₁.constructing, rfl, h₁.process, h₁.pipe⟩
    show w₁.child.record (.exit code) = (drained.record (.exit code)).bare
    rw [h₁.child]
    rfl
  apply (Leads.step _ hexit).trans
  intro w₂ h₂
  have hplain₂ : Plain (drained.record (.exit code)) constructing :=
    hplain.of_listeners hdrained.listeners
  apply (h₂.emit platform decodeOutput hplain₂ rfl .exit (.code code)).trans
  intro w₃ h₃
  let closed := (drained.emitExit code).closeAll.record (.close code)
  have hclose : At closed constructing .close process (fun _ ↦ [])
      (step platform decodeOutput w₃ (.parent 0)) := by
    show At _ _ _ _ _ (parentStep platform decodeOutput 0 w₃)
    rw [parentStep, h₃.control]
    refine ⟨?_, h₃.constructing, rfl, h₃.process, h₃.pipe⟩
    show w₃.child.closeAll.record (.close code) = closed.bare
    rw [h₃.child, ← Child.bare_closeAll]
    rfl
  apply (Leads.step _ hclose).trans
  intro w₄ h₄
  have hplain₄ : Plain closed constructing := by
    apply hplain₂.of_listeners
    exact (Child.closeAll_listeners _).trans (Quiet.emit _ _ _).listeners
  apply (h₄.emit platform decodeOutput hplain₄ rfl .close (.code code)).trans
  intro w₅ h₅
  apply Leads.step (.parent 0)
  show At _ _ _ _ _ (parentStep platform decodeOutput 0 w₅)
  rw [parentStep, h₅.control]
  exact h₅.endPoll

/-- What reads can make of a pipe. -/
def Readable (reads : Reads) : Prop :=
  ∃ chunks : Stream → List (List UInt8),
    (∀ stream, ∀ bytes ∈ chunks stream, bytes ≠ [] ∧ bytes.length ≤ 65536) ∧
    reads = readsOf decodeOutput chunks

/-- What a poll can find. -/
structure PollInput.Possible (input : PollInput) : Prop where
  before : Readable decodeOutput input.before
  after : Readable decodeOutput input.after
  status : ∀ code, input.status = some code → ¬(platform = .windows ∧ code = stillActive.toInt)

/-- Between two turns, at `idle` or where the constructor has just returned. -/
structure Waits (control : Control) (cp : Child) (w : World) : Prop where
  stands : ∃ process, At cp false control process (fun _ ↦ []) w ∧
    (cp.exited = false → process = .running)
  plain : Plain cp false
  fds : cp.exited = false → fdOf cp = Raw.fd cp.raw

theorem At.poll {input : PollInput}
    (h : At cp constructing (.read none .stdout) .running (fun _ ↦ []) w)
    (hplain : Plain cp constructing) (hfds : fdOf cp = Raw.fd cp.raw) (hexited : cp.exited = false)
    (hinput : PollInput.Possible platform decodeOutput input) :
    Leads (step platform decodeOutput) w
      (Waits (if constructing then .spawned else .idle) (cp.poll input)) := by
  obtain ⟨before, hbefore, hreads⟩ := hinput.before
  obtain ⟨after, hafter, hreads'⟩ := hinput.after
  rw [Child.poll, hexited, if_neg Bool.false_ne_true, hreads, hreads']
  let drained := cp.drain (readsOf decodeOutput before)
  have hdrained : Kept cp drained := (Drained.drain cp _).toKept
  have hplain' : Plain drained constructing := hplain.of_listeners hdrained.listeners
  have hfds' : fdOf drained = Raw.fd drained.raw := by rw [fdOf_kept hdrained, hdrained.raw, hfds]
  apply (h.fill platform decodeOutput hfds before).trans
  intro w₁ h₁
  apply (h₁.drain platform decodeOutput hplain hbefore).trans
  intro w₂ h₂
  have hpoll : At drained constructing .poll .running (fun _ ↦ [])
      (step platform decodeOutput w₂ (.parent 0)) := by
    rw [h₂.readNull platform decodeOutput rfl]
    exact ⟨h₂.child, h₂.constructing, rfl, h₂.process, h₂.pipe⟩
  apply (Leads.step _ hpoll).trans
  intro w₃ h₃
  cases hstatus : input.status with
  | none =>
    have hrearm := h₃.rearm platform decodeOutput
    refine Leads.step (.parent 0) ⟨⟨_, hrearm, fun _ ↦ rfl⟩, ?_, fun _ ↦ hfds'⟩
    exact ⟨hplain'.users, fun h ↦ absurd h Bool.false_ne_true⟩
  | some code =>
    apply (h₃.fill platform decodeOutput hfds' after).trans
    intro w₄ h₄
    have hended : At drained constructing .poll (.ended code) (filled drained after)
        (step platform decodeOutput w₄ (.ends code)) := by
      show At _ _ _ _ _ (if w₄.process = .running then _ else w₄)
      rw [if_pos h₄.process]
      exact ⟨h₄.child, h₄.constructing, h₄.control, rfl, h₄.pipe⟩
    apply (Leads.step _ hended).trans
    intro w₅ h₅
    apply (Leads.step _ (h₅.reap platform decodeOutput (hinput.status code hstatus))).trans
    intro w₆ h₆
    apply (h₆.finish platform decodeOutput hplain' hafter).trans
    intro w₇ h₇
    have hexited' := Child.finish_exited drained code (readsOf decodeOutput after)
    have hrunning : ¬(drained.finish code (readsOf decodeOutput after)).exited = false := by
      rw [hexited']
      exact Bool.noConfusion
    refine Leads.here ⟨⟨_, h₇, fun h ↦ absurd h hrunning⟩, ?_, fun h ↦ absurd h hrunning⟩
    have hlisteners := Child.finish_listeners drained code (readsOf decodeOutput after)
    exact ⟨(hplain'.of_listeners hlisteners).users, fun h ↦ absurd h Bool.false_ne_true⟩

/-! ## Turns -/

/-- Every poll of a turn is possible. -/
def Turn.Possible : Turn → Prop
  | .timer input => PollInput.Possible platform decodeOutput input
  | .user _ | .on _ _ => True

theorem Waits.act (h : Waits .idle cp w) (action : UserAction) :
    Waits .idle (cp.act action) (step platform decodeOutput w (.user action)) := by
  obtain ⟨⟨process, hat, hprocess⟩, hplain, hfds⟩ := h
  have hkept := (Quiet.act cp action).toKept
  have hruns : w.userRuns = true := by rw [World.userRuns, hat.control]
  refine ⟨⟨process, hat.act platform decodeOutput hruns action, ?_⟩, ?_, ?_⟩
  · rw [hkept.exited]
    exact hprocess
  · exact hplain.of_listeners hkept.listeners
  · rw [hkept.exited, fdOf_kept hkept, hkept.raw]
    exact hfds

theorem Waits.on (h : Waits .idle cp w) (name : EventName) (actions : List UserAction) :
    Waits .idle (cp.on name (.user actions)) w := by
  obtain ⟨⟨process, hat, hprocess⟩, hplain, hfds⟩ := h
  refine ⟨⟨process, ⟨hat.child, hat.constructing, hat.control, hat.process, hat.pipe⟩, hprocess⟩,
    ⟨?_, fun h ↦ absurd h Bool.false_ne_true⟩, hfds⟩
  intro l hl
  rcases List.mem_append.mp hl with hl | hl
  · exact hplain.users l hl
  · rw [List.mem_singleton.mp hl]
    exact ⟨actions, rfl⟩

theorem Waits.timer (h : Waits .idle cp w) {input : PollInput}
    (hinput : PollInput.Possible platform decodeOutput input) :
    Leads (step platform decodeOutput) w (Waits .idle (cp.turn (.timer input))) := by
  obtain ⟨⟨process, hat, hprocess⟩, hplain, hfds⟩ := h
  show Leads _ w (Waits .idle (if cp.timers = 0 then cp
    else ({ cp with timers := cp.timers - 1 } : Child).poll input))
  by_cases hnone : cp.timers = 0
  · rw [if_pos hnone]
    exact Leads.here ⟨⟨process, hat, hprocess⟩, hplain, hfds⟩
  · rw [if_neg hnone]
    let fired : Child := { cp with timers := cp.timers - 1 }
    have htimer : At fired false (if cp.exited then .idle else .read none .stdout) process
        (fun _ ↦ []) (step platform decodeOutput w .timer) := by
      have htimers : w.child.timers = cp.timers := by rw [hat.child]; rfl
      have hexited : w.child.exited = cp.exited := by rw [hat.child]; rfl
      show At _ _ _ _ _ (if w.control = .idle then timerStep w else w)
      rw [if_pos hat.control, timerStep, htimers, if_neg hnone, hexited, hat.child]
      exact ⟨rfl, hat.constructing, rfl, hat.process, hat.pipe⟩
    apply (Leads.step _ htimer).trans
    intro w' h'
    show Leads _ w' (Waits .idle (fired.poll input))
    by_cases hexited : cp.exited = true
    · -- a child that has exited is not polled again
      rw [if_pos hexited] at h'
      rw [Child.poll, if_pos hexited]
      have hended : ¬fired.exited = false := by simp [fired, hexited]
      exact Leads.here ⟨⟨process, h', fun h ↦ absurd h hended⟩, hplain.of_listeners rfl,
        fun h ↦ absurd h hended⟩
    · rw [if_neg hexited] at h'
      have hrunning : cp.exited = false := Bool.eq_false_iff.mpr hexited
      obtain rfl := hprocess hrunning
      exact h'.poll platform decodeOutput (hplain.of_listeners rfl) (hfds hrunning) hrunning hinput

theorem Waits.turn (h : Waits .idle cp w) {t : Turn}
    (ht : Turn.Possible platform decodeOutput t) :
    Leads (step platform decodeOutput) w (Waits .idle (cp.turn t)) := by
  cases t with
  | user action => exact Leads.step _ (h.act platform decodeOutput action)
  | on name actions => exact Leads.here (h.on name actions)
  | timer input => exact h.timer platform decodeOutput ht

theorem start_leads (raw : Raw) {first : PollInput}
    (hfirst : PollInput.Possible platform decodeOutput first) :
    Leads (step platform decodeOutput) (World.start raw) (Waits .idle (childProcess raw first)) := by
  have hstart : At (Child.initial raw) true (.read none .stdout) .running (fun _ ↦ [])
      (World.start raw) := ⟨rfl, rfl, rfl, rfl, rfl⟩
  have hplain : Plain (Child.initial raw) true :=
    ⟨fun _ hl ↦ absurd hl List.not_mem_nil, fun _ ↦ rfl⟩
  have hfds : fdOf (Child.initial raw) = Raw.fd raw := by
    ext1 stream
    cases stream <;> rfl
  apply (hstart.poll platform decodeOutput hplain hfds rfl hfirst).trans
  rintro w ⟨⟨process, hat, hprocess⟩, hplain, hfds⟩
  have hidle : At (childProcess raw first) false .idle process (fun _ ↦ [])
      (step platform decodeOutput w (.parent 0)) := by
    show At _ _ _ _ _ (parentStep platform decodeOutput 0 w)
    rw [parentStep, hat.control]
    exact ⟨hat.child, hat.constructing, rfl, hat.process, hat.pipe⟩
  exact Leads.step _ ⟨⟨process, hidle, hprocess⟩, hplain, hfds⟩

-- Every run of turns is a run of steps, as far as the child's object goes.
theorem turns_are_steps (raw : Raw) (first : PollInput) (turns : List Turn)
    (hfirst : PollInput.Possible platform decodeOutput first)
    (hturns : ∀ t ∈ turns, Turn.Possible platform decodeOutput t) :
    ∃ acts, (run platform decodeOutput raw acts).child =
      (turns.foldl Child.turn (childProcess raw first)).bare := by
  have hleads : Leads (step platform decodeOutput) (World.start raw)
      (Waits .idle (turns.foldl Child.turn (childProcess raw first))) := by
    apply (start_leads platform decodeOutput raw hfirst).trans
    intro w h
    exact Leads.foldl (fun _ t ht _ hwaits ↦ hwaits.turn platform decodeOutput (hturns t ht)) h
  obtain ⟨acts, ⟨_, hat, -⟩, -, -⟩ := hleads
  exact ⟨acts, hat.child⟩

end

end Schedule

end QNode.ChildProcess
