import QNode.ChildProcess.Schedule

/-!
# The output that reaches a listener

The drain after the exit takes all that is left in the pipes, so nothing is lost there.  What the
constructor's own poll takes from a pipe is lost: no listener can be attached before it.
-/

open QNode.Engine

namespace QNode.ChildProcess.Schedule

/-! ## Where the parent stands -/

def NoExit (cp : Child) : Prop := ∀ code, Event.exit code ∉ cp.life

/-- No poll has found the exit. -/
structure Alive (w : World) : Prop where
  exited : w.child.exited = false
  noExit : NoExit w.child
  fds : fdOf w.child = Raw.fd w.child.raw

/-- A poll has found the exit and drains the pipes. -/
structure Draining (w : World) : Prop where
  ended : w.process ≠ .running
  exited : w.child.exited = true
  noExit : NoExit w.child
  fds : fdOf w.child = Raw.fd w.child.raw

/-- The pipes are drained. -/
structure Emptied (w : World) : Prop where
  ended : w.process ≠ .running
  exited : w.child.exited = true
  empty : ∀ stream, w.pipe stream = []

def Phase (w : World) : Prop :=
  match w.control with
  | .read none _ | .data none _ | .poll => Alive w
  | .read (some _) .stdout | .data (some _) .stdout => Draining w
  | .read (some _) .stderr | .data (some _) .stderr => Draining w ∧ w.pipe .stdout = []
  | .exit _ | .close => Emptied w
  | .spawned | .idle => Alive w ∨ Emptied w

/-- A step of anybody but the parent's own code. -/
structure Calm (w w' : World) : Prop where
  control : w'.control = w.control
  exited : w'.child.exited = w.child.exited
  noExit : NoExit w.child → NoExit w'.child
  fds : fdOf w.child = Raw.fd w.child.raw → fdOf w'.child = Raw.fd w'.child.raw
  ended : w.process ≠ .running → w'.process ≠ .running ∧ w'.pipe = w.pipe

theorem Calm.refl (w : World) : Calm w w := ⟨rfl, rfl, id, id, fun h ↦ ⟨h, rfl⟩⟩

theorem Alive.calm {w w' : World} (h : Alive w) (hcalm : Calm w w') : Alive w' :=
  ⟨hcalm.exited.trans h.exited, hcalm.noExit h.noExit, hcalm.fds h.fds⟩

theorem Draining.calm {w w' : World} (h : Draining w) (hcalm : Calm w w') : Draining w' :=
  ⟨(hcalm.ended h.ended).1, hcalm.exited.trans h.exited, hcalm.noExit h.noExit, hcalm.fds h.fds⟩

theorem Emptied.calm {w w' : World} (h : Emptied w) (hcalm : Calm w w') : Emptied w' :=
  ⟨(hcalm.ended h.ended).1, hcalm.exited.trans h.exited,
    fun stream ↦ (congrFun (hcalm.ended h.ended).2 stream).trans (h.empty stream)⟩

theorem Phase.calm {w w' : World} (h : Phase w) (hcalm : Calm w w') : Phase w' := by
  unfold Phase at h ⊢
  rw [hcalm.control]
  have hlast : Draining w ∧ w.pipe .stdout = [] → Draining w' ∧ w'.pipe .stdout = [] := fun hw ↦
    ⟨hw.1.calm hcalm, (congrFun (hcalm.ended hw.1.ended).2 .stdout).trans hw.2⟩
  generalize w.control = control at h ⊢
  cases control with
  | read ended stream =>
    cases ended with
    | none => exact Alive.calm h hcalm
    | some code =>
      cases stream with
      | stdout => exact Draining.calm h hcalm
      | stderr => exact hlast h
  | data ended stream =>
    cases ended with
    | none => exact Alive.calm h hcalm
    | some code =>
      cases stream with
      | stdout => exact Draining.calm h hcalm
      | stderr => exact hlast h
  | poll => exact Alive.calm h hcalm
  | exit code => exact Emptied.calm h hcalm
  | close => exact Emptied.calm h hcalm
  | spawned => exact h.imp (·.calm hcalm) (·.calm hcalm)
  | idle => exact h.imp (·.calm hcalm) (·.calm hcalm)

theorem NoExit.record {cp : Child} (h : NoExit cp) {e : Event} (he : ∀ code, e ≠ .exit code) :
    NoExit (cp.record e) := by
  intro code hmem
  rw [Child.life_record] at hmem
  split at hmem
  · rcases List.mem_append.mp hmem with hmem | hmem
    · exact h code hmem
    · exact he code (List.mem_singleton.mp hmem).symm
  · exact h code hmem

theorem act_calm (w : World) (action : UserAction) : Calm w (userStep w action) := by
  have hquiet := Quiet.act w.child action
  refine ⟨rfl, hquiet.exited, ?_, ?_, fun h ↦ ⟨h, rfl⟩⟩
  · intro hnoExit code
    show Event.exit code ∉ (w.child.act action).life
    rw [hquiet.life]
    exact hnoExit code
  · intro hfds
    show fdOf (w.child.act action) = Raw.fd (w.child.act action).raw
    rw [hquiet.raw, ← hfds]
    ext1 stream
    cases stream with
    | stdout => exact hquiet.stdout
    | stderr => exact hquiet.stderr

/-! ## The steps of a poll -/

/-- A pipe that was not created carries nothing. -/
def Unpiped (w : World) : Prop := ∀ stream, Raw.fd w.child.raw stream = none → w.pipe stream = []

theorem Phase.fds_of_read {w : World} (h : Phase w) {ended : Option Int} {stream : Stream}
    (hcontrol : w.control = .read ended stream) : fdOf w.child = Raw.fd w.child.raw := by
  unfold Phase at h
  rw [hcontrol] at h
  cases ended with
  | none => exact h.fds
  | some code =>
    cases stream with
    | stdout => exact h.fds
    | stderr => exact h.1.fds

-- In the drains the descriptors are open, so a read returns null only for an empty pipe.
theorem empty_of_null {w : World} (hfds : fdOf w.child = Raw.fd w.child.raw) (hunpiped : Unpiped w)
    {stream : Stream} (hnull : ¬((fdOf w.child stream).isSome ∧ w.pipe stream ≠ [])) :
    w.pipe stream = [] := by
  by_cases hempty : w.pipe stream = []
  · exact hempty
  · have hnone : fdOf w.child stream = none := by
      rw [← Option.not_isSome_iff_eq_none]
      exact fun hsome ↦ hnull ⟨hsome, hempty⟩
    exact hunpiped stream ((congrFun hfds stream).symm.trans hnone)

section

variable (platform : Platform) (decodeOutput : List UInt8 → JsString)

theorem afterStream_phase {w : World} {ended : Option Int} {stream : Stream}
    (hcontrol : w.control = .read ended stream) (h : Phase w) (hempty : w.pipe stream = []) :
    Phase (afterStream w ended stream) := by
  unfold Phase at h
  rw [hcontrol] at h
  cases ended with
  | none => cases stream <;> exact ⟨h.exited, h.noExit, h.fds⟩
  | some code =>
    cases stream with
    | stdout => exact ⟨⟨h.ended, h.exited, h.noExit, h.fds⟩, hempty⟩
    | stderr =>
      refine ⟨h.1.ended, h.1.exited, fun s ↦ ?_⟩
      cases s with
      | stdout => exact h.2
      | stderr => exact hempty

theorem takeChunk_phase {w : World} {ended : Option Int} {stream : Stream}
    (hcontrol : w.control = .read ended stream) (h : Phase w) (bytes : List UInt8) :
    Phase (takeChunk decodeOutput w ended stream bytes) := by
  have hrecord : NoExit w.child → NoExit (w.child.record (.data stream (decodeOutput bytes))) :=
    fun hnoExit ↦ hnoExit.record fun _ ↦ by simp
  unfold Phase at h
  rw [hcontrol] at h
  cases ended with
  | none => exact ⟨h.exited, hrecord h.noExit, h.fds⟩
  | some code =>
    cases stream with
    | stdout => exact ⟨h.ended, h.exited, hrecord h.noExit, h.fds⟩
    | stderr => exact ⟨⟨h.1.ended, h.1.exited, hrecord h.1.noExit, h.1.fds⟩, h.2⟩

theorem readStep_phase {w : World} {ended : Option Int} {stream : Stream}
    (hcontrol : w.control = .read ended stream) (h : Phase w) (hunpiped : Unpiped w) (n : Nat) :
    Phase (readStep decodeOutput n w ended stream) := by
  unfold readStep
  by_cases hread : (fdOf w.child stream).isSome ∧ w.pipe stream ≠ []
  · rw [if_pos hread]
    exact takeChunk_phase decodeOutput hcontrol h _
  · rw [if_neg hread]
    exact afterStream_phase hcontrol h (empty_of_null (h.fds_of_read hcontrol) hunpiped hread)

theorem endPoll_phase {w : World} (h : Alive w ∨ Emptied w) : Phase (endPoll w) := by
  have hkeep : ∀ control constructing,
      Alive { w with control, constructing } ∨ Emptied { w with control, constructing } :=
    fun _ _ ↦ h.imp (fun h ↦ ⟨h.exited, h.noExit, h.fds⟩) (fun h ↦ ⟨h.ended, h.exited, h.empty⟩)
  unfold endPoll
  split
  · exact hkeep .spawned false
  · exact hkeep .idle w.constructing

theorem pollStep_phase {w : World} (h : Alive w) : Phase (pollStep platform w) := by
  unfold pollStep
  cases hreport : exitReport platform w with
  | none => exact endPoll_phase (.inl ⟨h.exited, h.noExit, h.fds⟩)
  | some code =>
    have hover : (reap platform w code).process ≠ .running := by
      intro hrunning
      have hended : exitReport platform w = none := by
        cases platform with
        | unix => exact absurd hrunning (by simp [reap])
        | windows =>
          have hprocess : w.process = .running := hrunning
          rw [exitReport, hprocess]
      simp [hended] at hreport
    exact ⟨hover, rfl, h.noExit.record fun _ ↦ by simp, h.fds⟩

theorem parentStep_phase {w : World} (h : Phase w) (hunpiped : Unpiped w) (n : Nat) :
    Phase (parentStep platform decodeOutput n w) := by
  unfold parentStep
  cases hcontrol : w.control with
  | read ended stream => exact readStep_phase decodeOutput hcontrol h hunpiped n
  | data ended stream =>
    unfold Phase at h
    rw [hcontrol] at h
    cases ended with
    | none => exact ⟨h.exited, h.noExit, h.fds⟩
    | some code =>
      cases stream with
      | stdout => exact ⟨h.ended, h.exited, h.noExit, h.fds⟩
      | stderr => exact ⟨⟨h.1.ended, h.1.exited, h.1.noExit, h.1.fds⟩, h.2⟩
  | poll =>
    unfold Phase at h
    rw [hcontrol] at h
    exact pollStep_phase platform h
  | exit code =>
    unfold Phase at h
    rw [hcontrol] at h
    exact ⟨h.ended, (Child.closeAll_exited w.child).trans h.exited, h.empty⟩
  | close =>
    unfold Phase at h
    rw [hcontrol] at h
    exact endPoll_phase (.inr h)
  | spawned =>
    unfold Phase at h
    rw [hcontrol] at h
    exact h.imp (fun h ↦ ⟨h.exited, h.noExit, h.fds⟩) (fun h ↦ ⟨h.ended, h.exited, h.empty⟩)
  | idle => exact h

end

/-! ## What becomes of the bytes of a pipe -/

def Chunk.isOf (constructing : Bool) (stream : Stream) (c : Chunk) : Bool :=
  c.stream = stream && c.inConstructor == constructing

/-- The chunks of a pipe that the constructor's poll read, and those that later polls read. -/
def missed (w : World) (stream : Stream) : List (List UInt8) :=
  (w.chunks.filter (Chunk.isOf true stream)).map Chunk.bytes

def heard (w : World) (stream : Stream) : List (List UInt8) :=
  (w.chunks.filter (Chunk.isOf false stream)).map Chunk.bytes

structure Accounted (w : World) (stream : Stream) : Prop where
  written : w.written stream = (missed w stream).flatten ++ (heard w stream).flatten ++ w.pipe stream
  nonempty : ∀ bytes ∈ missed w stream, bytes ≠ []
  early : w.constructing = true ∨ w.control = .spawned → heard w stream = []
  prompt : ∀ l ∈ w.listeners, l.prompt = true → l.stream = stream → l.received = heard w stream
  alone : w.constructing = true → w.listeners = [] ∧ w.userRuns = false
  unpiped : Raw.fd w.child.raw stream = none → w.pipe stream = []

/-- The texts of the `data` events of a stream. -/
def textOf (stream : Stream) : Event → Option JsString
  | .data s text => if s = stream then some text else none
  | _ => none

def dataTexts (cp : Child) (stream : Stream) : List JsString := cp.life.filterMap (textOf stream)

theorem dataTexts_record (cp : Child) (e : Event) (stream : Stream) :
    dataTexts (cp.record e) stream = dataTexts cp stream ++ (textOf stream e).toList := by
  have hsilent : e.isLife = false → textOf stream e = none := by
    intro hlife
    cases e <;> simp [Event.isLife, textOf] at hlife ⊢
  rw [dataTexts, Child.life_record, dataTexts]
  cases hlife : e.isLife with
  | false => simp [hsilent hlife]
  | true =>
    rw [if_pos rfl, List.filterMap_append]
    cases htext : textOf stream e <;> simp [htext]

theorem dataTexts_record_silent {cp : Child} {e : Event} (he : ∀ stream, textOf stream e = none) :
    dataTexts (cp.record e) = dataTexts cp := by
  ext1 stream
  rw [dataTexts_record, he, Option.toList_none, List.append_nil]

/-- A step that moves no bytes and attaches no listener. -/
structure Still (w w' : World) : Prop where
  written : w'.written = w.written
  pipe : w'.pipe = w.pipe
  chunks : w'.chunks = w.chunks
  listeners : w'.listeners = w.listeners
  raw : w'.child.raw = w.child.raw
  texts : dataTexts w'.child = dataTexts w.child
  constructing : w'.constructing = true →
    w.constructing = true ∧ (w.userRuns = false → w'.userRuns = false)
  spawned : w'.control = .spawned → w.constructing = true ∨ w.control = .spawned

theorem Still.refl (w : World) : Still w w := ⟨rfl, rfl, rfl, rfl, rfl, rfl, fun h ↦ ⟨h, id⟩, .inr⟩

theorem Still.missed {w w' : World} (h : Still w w') (stream : Stream) :
    missed w' stream = missed w stream := by
  rw [Schedule.missed, h.chunks, Schedule.missed]

theorem Still.heard {w w' : World} (h : Still w w') (stream : Stream) :
    heard w' stream = heard w stream := by
  rw [Schedule.heard, h.chunks, Schedule.heard]

theorem Accounted.still {w w' : World} {stream : Stream} (h : Accounted w stream)
    (hstill : Still w w') : Accounted w' stream := by
  have hmissed := hstill.missed stream
  have hheard := hstill.heard stream
  constructor
  · rw [hmissed, hheard, hstill.written, hstill.pipe]
    exact h.written
  · rw [hmissed]
    exact h.nonempty
  · intro hearly
    rw [hheard]
    exact h.early (hearly.elim (fun hc ↦ .inl (hstill.constructing hc).1) hstill.spawned)
  · rw [hheard, hstill.listeners]
    exact h.prompt
  · intro hconstructing
    have halone := h.alone (hstill.constructing hconstructing).1
    rw [hstill.listeners]
    exact ⟨halone.1, (hstill.constructing hconstructing).2 halone.2⟩
  · rw [hstill.raw, hstill.pipe]
    exact h.unpiped

theorem update_append (pipe : Stream → List UInt8) (dst : Stream) (bytes : List UInt8)
    (stream : Stream) : Function.update pipe dst (pipe dst ++ bytes) stream =
      pipe stream ++ if stream = dst then bytes else [] := by
  by_cases hdst : stream = dst
  · subst hdst
    rw [Function.update_self, if_pos rfl]
  · rw [Function.update_of_ne hdst, if_neg hdst, List.append_nil]

theorem Accounted.write {w : World} {stream : Stream} (h : Accounted w stream) (dst : Stream)
    (bytes : List UInt8) (hpiped : (Raw.fd w.child.raw dst).isSome) :
    Accounted
      { w with
        pipe := Function.update w.pipe dst (w.pipe dst ++ bytes)
        written := Function.update w.written dst (w.written dst ++ bytes) } stream := by
  refine ⟨?_, h.nonempty, h.early, h.prompt, h.alone, fun hnone ↦ ?_⟩
  · show Function.update w.written dst (w.written dst ++ bytes) stream =
      (missed w stream).flatten ++ (heard w stream).flatten ++
        Function.update w.pipe dst (w.pipe dst ++ bytes) stream
    rw [update_append, update_append, h.written, List.append_assoc _ (w.pipe stream)]
  · have hne : stream ≠ dst := by
      intro hdst
      rw [← hdst, show Raw.fd w.child.raw stream = none from hnone] at hpiped
      exact absurd hpiped Bool.false_ne_true
    show Function.update w.pipe dst (w.pipe dst ++ bytes) stream = []
    rw [update_append, if_neg hne, List.append_nil]
    exact h.unpiped hnone

theorem deliver_prompt (of : Stream) (bytes : List UInt8) (l : DataListener) :
    (deliver of bytes l).prompt = l.prompt := by
  unfold deliver
  split <;> rfl

theorem deliver_stream (of : Stream) (bytes : List UInt8) (l : DataListener) :
    (deliver of bytes l).stream = l.stream := by
  unfold deliver
  split <;> rfl

theorem deliver_received (of : Stream) (bytes : List UInt8) (l : DataListener) :
    (deliver of bytes l).received = l.received ++ if l.stream = of then [bytes] else [] := by
  unfold deliver
  split
  · rfl
  · exact (List.append_nil _).symm

section

variable (decodeOutput : List UInt8 → JsString)

theorem missed_takeChunk (w : World) (ended : Option Int) (of stream : Stream) (bytes : List UInt8) :
    missed (takeChunk decodeOutput w ended of bytes) stream =
      missed w stream ++ if of = stream ∧ w.constructing = true then [bytes] else [] := by
  let taken : Chunk := ⟨w.constructing, of, bytes⟩
  show ((w.chunks ++ [taken]).filter (Chunk.isOf true stream)).map Chunk.bytes = _
  rw [List.filter_append, List.map_append]
  apply congrArg (missed w stream ++ ·)
  by_cases hof : of = stream <;> cases hc : w.constructing <;>
    simp [taken, Chunk.isOf, hof, hc]

theorem heard_takeChunk (w : World) (ended : Option Int) (of stream : Stream) (bytes : List UInt8) :
    heard (takeChunk decodeOutput w ended of bytes) stream =
      heard w stream ++ if of = stream ∧ w.constructing = false then [bytes] else [] := by
  let taken : Chunk := ⟨w.constructing, of, bytes⟩
  show ((w.chunks ++ [taken]).filter (Chunk.isOf false stream)).map Chunk.bytes = _
  rw [List.filter_append, List.map_append]
  apply congrArg (heard w stream ++ ·)
  by_cases hof : of = stream <;> cases hc : w.constructing <;>
    simp [taken, Chunk.isOf, hof, hc]

theorem pipe_takeChunk {w : World} (ended : Option Int) {of : Stream} {bytes rest : List UInt8}
    (hpipe : w.pipe of = bytes ++ rest) (stream : Stream) :
    (takeChunk decodeOutput w ended of bytes).pipe stream =
      if of = stream then rest else w.pipe stream := by
  show Function.update w.pipe of ((w.pipe of).drop bytes.length) stream = _
  by_cases hof : of = stream
  · subst hof
    rw [Function.update_self, hpipe, List.drop_left, if_pos rfl]
  · rw [Function.update_of_ne (Ne.symm hof), if_neg hof]

-- A chunk goes from the pipe to the listeners, or to nobody while the constructor runs.
theorem Accounted.takeChunk {w : World} {stream : Stream} (h : Accounted w stream)
    (ended : Option Int) (of : Stream) {bytes rest : List UInt8} (hbytes : bytes ≠ [])
    (hpipe : w.pipe of = bytes ++ rest) :
    Accounted (takeChunk decodeOutput w ended of bytes) stream := by
  have hmissed := missed_takeChunk decodeOutput w ended of stream bytes
  have hheard := heard_takeChunk decodeOutput w ended of stream bytes
  have hrest := pipe_takeChunk decodeOutput ended hpipe stream
  constructor
  · rw [hmissed, hheard, hrest]
    show w.written stream = _
    rw [h.written]
    by_cases hof : of = stream
    · subst hof
      rw [if_pos rfl, hpipe]
      cases hc : w.constructing with
      | true => simp [h.early (.inl hc)]
      | false => simp
    · simp [hof]
  · intro bytes' hmem
    rw [hmissed] at hmem
    rcases List.mem_append.mp hmem with hmem | hmem
    · exact h.nonempty bytes' hmem
    · split at hmem
      · rw [List.mem_singleton.mp hmem]
        exact hbytes
      · exact absurd hmem List.not_mem_nil
  · intro hearly
    have hconstructing : w.constructing = true := hearly.elim id fun hspawned ↦ by cases hspawned
    rw [hheard, hconstructing, h.early (.inl hconstructing), if_neg (by simp)]
    rfl
  · intro l hl hprompt hstream
    obtain ⟨l', hl', rfl⟩ := List.mem_map.mp hl
    have hconstructing : w.constructing = false := by
      by_contra hc
      rw [(h.alone (by simpa using hc)).1] at hl'
      exact absurd hl' List.not_mem_nil
    rw [deliver_prompt] at hprompt
    rw [deliver_stream] at hstream
    rw [deliver_received, h.prompt l' hl' hprompt hstream, hheard, hstream]
    simp [hconstructing, eq_comm]
  · intro hconstructing
    refine ⟨?_, ?_⟩
    · show w.listeners.map (deliver of bytes) = []
      rw [(h.alone hconstructing).1, List.map_nil]
    · show (!w.constructing) = false
      rw [show w.constructing = true from hconstructing]
      rfl
  · intro hnone
    rw [hrest]
    split
    · next hof =>
      subst hof
      rw [h.unpiped hnone] at hpipe
      exact absurd (List.append_eq_nil_iff.mp hpipe.symm).1 hbytes
    · exact h.unpiped hnone

end

/-! ## Runs -/

structure Invariant (w : World) : Prop where
  phase : Phase w
  accounted : ∀ stream, Accounted w stream

theorem Invariant.unpiped {w : World} (h : Invariant w) : Unpiped w :=
  fun stream ↦ (h.accounted stream).unpiped

/-- The constructor's poll finds nothing in the pipe. -/
def FindsNothing (stream : Stream) (w : World) (a : Act) : Prop :=
  ∀ n ended, a = .parent n → w.constructing = true → w.control = .read ended stream →
    w.pipe stream = []

section

variable (platform : Platform) (decodeOutput : List UInt8 → JsString)

/-- What a step does with the bytes of the pipes. -/
inductive Moves (w w' : World) (a : Act) : Prop
  | still (h : Still w w')
      (hread : ∀ n ended stream, a = .parent n → w.control = .read ended stream → w.pipe stream = [])
  | write (dst : Stream) (bytes : List UInt8) (hpiped : (Raw.fd w.child.raw dst).isSome)
      (ha : a = .write dst bytes) (hnext : w' = { w with
        pipe := Function.update w.pipe dst (w.pipe dst ++ bytes)
        written := Function.update w.written dst (w.written dst ++ bytes) })
  | listen (dst : Stream) (hruns : w.userRuns = true) (ha : a = .listen dst)
      (hnext : w' = { w with listeners := w.listeners ++ [⟨dst, w.control = .spawned, []⟩] })
  | chunk (n : Nat) (ended : Option Int) (of : Stream) (bytes rest : List UInt8) (ha : a = .parent n)
      (hcontrol : w.control = .read ended of) (hbytes : bytes ≠ [] ∧ bytes.length ≤ 65536)
      (hpipe : w.pipe of = bytes ++ rest) (hnext : w' = takeChunk decodeOutput w ended of bytes)

theorem Moves.of_still {w w' : World} {a : Act} (hne : ∀ n, a ≠ .parent n) (h : Still w w') :
    Moves decodeOutput w w' a := .still h fun n _ _ ha ↦ absurd ha (hne n)

theorem endPoll_still {w w' : World} (h : Still w w') : Still w (endPoll w') := by
  unfold endPoll
  by_cases hc : w'.constructing = true
  · rw [if_pos hc]
    exact ⟨h.written, h.pipe, h.chunks, h.listeners, h.raw, h.texts,
      fun h ↦ absurd h Bool.false_ne_true, fun _ ↦ .inl (h.constructing hc).1⟩
  · rw [if_neg hc]
    exact ⟨h.written, h.pipe, h.chunks, h.listeners, h.raw, h.texts, fun h ↦ absurd h hc,
      fun h ↦ by simp at h⟩

-- A step to a place where no user code runs.
theorem Still.of_busy {w w' : World} (hwritten : w'.written = w.written) (hpipe : w'.pipe = w.pipe)
    (hchunks : w'.chunks = w.chunks) (hlisteners : w'.listeners = w.listeners)
    (hraw : w'.child.raw = w.child.raw) (htexts : dataTexts w'.child = dataTexts w.child)
    (hconstructing : w'.constructing = w.constructing)
    (hcontrol : w'.control ≠ .spawned ∧ w'.control ≠ .idle) : Still w w' := by
  refine ⟨hwritten, hpipe, hchunks, hlisteners, hraw, htexts,
    fun hc ↦ ⟨hconstructing ▸ hc, fun _ ↦ ?_⟩, fun h ↦ absurd h hcontrol.1⟩
  unfold World.userRuns
  rw [hc]
  cases h : w'.control with
  | spawned => exact absurd h hcontrol.1
  | idle => exact absurd h hcontrol.2
  | _ => rfl

theorem pollStep_still (w : World) : Still w (pollStep platform w) := by
  unfold pollStep
  cases exitReport platform w with
  | none => exact endPoll_still ⟨rfl, rfl, rfl, rfl, rfl, rfl, fun h ↦ ⟨h, id⟩, .inr⟩
  | some code =>
    exact Still.of_busy rfl rfl rfl rfl rfl (dataTexts_record_silent fun _ ↦ rfl) rfl (by simp [reap])

theorem afterStream_still (w : World) (ended : Option Int) (stream : Stream) :
    Still w (afterStream w ended stream) := by
  cases stream with
  | stdout => exact Still.of_busy rfl rfl rfl rfl rfl rfl rfl (by simp [afterStream])
  | stderr =>
    cases ended with
    | none => exact Still.of_busy rfl rfl rfl rfl rfl rfl rfl (by simp [afterStream])
    | some code =>
      exact Still.of_busy rfl rfl rfl rfl rfl (dataTexts_record_silent fun _ ↦ rfl) rfl
        (by simp [afterStream])

theorem parentStep_moves {w : World} (h : Invariant w) (n : Nat) :
    Moves decodeOutput w (parentStep platform decodeOutput n w) (.parent n) := by
  unfold parentStep
  cases hcontrol : w.control with
  | read ended stream =>
    show Moves decodeOutput w (readStep decodeOutput n w ended stream) _
    unfold readStep
    by_cases hread : (fdOf w.child stream).isSome ∧ w.pipe stream ≠ []
    · rw [if_pos hread]
      have hsome : (w.pipe stream).take (min (n + 1) 65536) ≠ [] := by
        rw [Ne, List.take_eq_nil_iff]
        have hsize : min (n + 1) 65536 ≠ 0 := by omega
        exact fun hnil ↦ hnil.elim hsize hread.2
      have hsize : ((w.pipe stream).take (min (n + 1) 65536)).length ≤ 65536 := by
        rw [List.length_take]
        omega
      exact .chunk n ended stream _ _ rfl hcontrol ⟨hsome, hsize⟩ (List.take_append_drop _ _).symm rfl
    · rw [if_neg hread]
      apply Moves.still (afterStream_still w ended stream)
      intro _ ended' stream' _ hcontrol'
      obtain ⟨-, rfl⟩ := Control.read.inj (hcontrol.symm.trans hcontrol')
      exact empty_of_null (h.phase.fds_of_read hcontrol) h.unpiped hread
  | data ended stream =>
    exact .still (Still.of_busy rfl rfl rfl rfl rfl rfl rfl (by simp)) fun _ _ _ _ h ↦ by
      simp [hcontrol] at h
  | poll => exact .still (pollStep_still platform w) fun _ _ _ _ h ↦ by simp [hcontrol] at h
  | exit code =>
    have hclosed : dataTexts (w.child.closeAll.record (.close code)) = dataTexts w.child := by
      rw [dataTexts_record_silent fun _ ↦ rfl]
      ext1 stream
      rw [dataTexts, Child.closeAll_life, dataTexts]
    exact .still (Still.of_busy rfl rfl rfl rfl (Child.closeAll_raw w.child) hclosed rfl (by simp))
      fun _ _ _ _ h ↦ by simp [hcontrol] at h
  | close => exact .still (endPoll_still (Still.refl w)) fun _ _ _ _ h ↦ by simp [hcontrol] at h
  | spawned =>
    have hruns : w.userRuns = true := by rw [World.userRuns, hcontrol]
    have hstill : Still w { w with control := .idle } :=
      ⟨rfl, rfl, rfl, rfl, rfl, rfl, fun h ↦ ⟨h, fun hbusy ↦ by simp [hruns] at hbusy⟩, fun h ↦ by simp at h⟩
    exact .still hstill fun _ _ _ _ h ↦ by simp [hcontrol] at h
  | idle => exact .still (Still.refl w) fun _ _ _ _ h ↦ by simp [hcontrol] at h

theorem step_moves {w : World} (h : Invariant w) (a : Act) :
    Moves decodeOutput w (step platform decodeOutput w a) a := by
  cases a with
  | write stream bytes =>
    show Moves decodeOutput w (if _ then _ else w) _
    by_cases hrun : w.process = .running ∧ (Raw.fd w.child.raw stream).isSome
    · rw [if_pos hrun]
      exact .write stream bytes hrun.2 rfl rfl
    · rw [if_neg hrun]
      exact .of_still decodeOutput (by simp) (Still.refl w)
  | ends code =>
    apply Moves.of_still decodeOutput (by simp)
    unfold step
    dsimp only
    split <;> exact ⟨rfl, rfl, rfl, rfl, rfl, rfl, fun h ↦ ⟨h, id⟩, .inr⟩
  | reuse process =>
    apply Moves.of_still decodeOutput (by simp)
    unfold step
    cases w.process <;> exact ⟨rfl, rfl, rfl, rfl, rfl, rfl, fun h ↦ ⟨h, id⟩, .inr⟩
  | user action =>
    apply Moves.of_still decodeOutput (by simp)
    unfold step
    dsimp only
    split
    · have hquiet := Quiet.act w.child action
      have htexts : dataTexts (w.child.act action) = dataTexts w.child := by
        ext1 stream
        rw [dataTexts, hquiet.life, dataTexts]
      exact ⟨rfl, rfl, rfl, rfl, hquiet.raw, htexts, fun h ↦ ⟨h, id⟩, .inr⟩
    · exact Still.refl w
  | listen stream =>
    show Moves decodeOutput w (if _ then _ else w) _
    by_cases hruns : w.userRuns ∧ (Raw.fd w.child.raw stream).isSome
    · rw [if_pos hruns]
      exact .listen stream hruns.1 rfl rfl
    · rw [if_neg hruns]
      exact .of_still decodeOutput (by simp) (Still.refl w)
  | timer =>
    apply Moves.of_still decodeOutput (by simp)
    show Still w (if w.control = .idle then timerStep w else w)
    by_cases hidle : w.control = .idle
    · rw [if_pos hidle]
      unfold timerStep
      by_cases hnone : w.child.timers = 0
      · rw [if_pos hnone]
        exact Still.refl w
      · rw [if_neg hnone]
        have hruns : w.userRuns = true := by rw [World.userRuns, hidle]
        refine ⟨rfl, rfl, rfl, rfl, rfl, rfl, fun h ↦ ⟨h, fun hbusy ↦ by simp [hruns] at hbusy⟩, fun h ↦ ?_⟩
        dsimp only at h
        split at h <;> simp at h
    · rw [if_neg hidle]
      exact Still.refl w
  | parent n => exact parentStep_moves platform decodeOutput h n

theorem timerStep_phase {w : World} (h : Phase w) (hidle : w.control = .idle) :
    Phase (timerStep w) := by
  have hstand : Alive w ∨ Emptied w := by
    unfold Phase at h
    rw [hidle] at h
    exact h
  unfold timerStep
  by_cases hnone : w.child.timers = 0
  · rw [if_pos hnone]
    exact h
  · rw [if_neg hnone]
    cases hexited : w.child.exited with
    | true =>
      have hemptied : Emptied w := hstand.resolve_left fun halive ↦ by
        rw [halive.exited] at hexited
        exact Bool.false_ne_true hexited
      exact Or.inr ⟨hemptied.ended, hexited, hemptied.empty⟩
    | false =>
      have halive : Alive w := hstand.resolve_right fun hemptied ↦ by
        rw [hemptied.exited] at hexited
        exact Bool.false_ne_true hexited.symm
      exact ⟨hexited, halive.noExit, halive.fds⟩

theorem step_phase {w : World} (h : Invariant w) (a : Act) :
    Phase (step platform decodeOutput w a) := by
  cases a with
  | write stream bytes =>
    apply h.phase.calm
    unfold step
    dsimp only
    split
    · next hrun => exact ⟨rfl, rfl, id, id, fun hover ↦ absurd hrun.1 hover⟩
    · exact Calm.refl w
  | ends code =>
    apply h.phase.calm
    unfold step
    dsimp only
    split
    · exact ⟨rfl, rfl, id, id, fun _ ↦ ⟨by simp, rfl⟩⟩
    · exact Calm.refl w
  | reuse process =>
    apply h.phase.calm
    unfold step
    cases hprocess : w.process with
    | running => exact Calm.refl w
    | ended code => exact Calm.refl w
    | reaped pidOf => exact ⟨rfl, rfl, id, id, fun _ ↦ ⟨by simp, rfl⟩⟩
  | user action =>
    apply h.phase.calm
    unfold step
    dsimp only
    split
    · exact act_calm w action
    · exact Calm.refl w
  | listen stream =>
    apply h.phase.calm
    unfold step
    dsimp only
    split
    · exact ⟨rfl, rfl, id, id, fun hover ↦ ⟨hover, rfl⟩⟩
    · exact Calm.refl w
  | timer =>
    show Phase (if w.control = .idle then timerStep w else w)
    by_cases hidle : w.control = .idle
    · rw [if_pos hidle]
      exact timerStep_phase h.phase hidle
    · rw [if_neg hidle]
      exact h.phase
  | parent n => exact parentStep_phase platform decodeOutput h.phase h.unpiped n

-- A listener attached before `spawn`'s caller returns has missed nothing of the later polls.
theorem Accounted.listen {w : World} {stream : Stream} (h : Accounted w stream)
    (hruns : w.userRuns = true) (dst : Stream) :
    Accounted { w with listeners := w.listeners ++ [⟨dst, w.control = .spawned, []⟩] } stream := by
  refine ⟨h.written, h.nonempty, h.early, ?_, ?_, h.unpiped⟩
  · intro l hl hprompt hstream
    rcases List.mem_append.mp hl with hl | hl
    · exact h.prompt l hl hprompt hstream
    · rw [List.mem_singleton.mp hl] at hprompt ⊢
      exact (h.early (.inr (of_decide_eq_true hprompt))).symm
  · intro hconstructing
    rw [(h.alone hconstructing).2] at hruns
    exact absurd hruns Bool.false_ne_true

theorem step_invariant {w : World} (h : Invariant w) (a : Act) :
    Invariant (step platform decodeOutput w a) := by
  refine ⟨step_phase platform decodeOutput h a, fun stream ↦ ?_⟩
  cases step_moves platform decodeOutput h a with
  | still hstill _ => exact (h.accounted stream).still hstill
  | write dst bytes hpiped _ hnext =>
    rw [hnext]
    exact (h.accounted stream).write dst bytes hpiped
  | listen dst hruns _ hnext =>
    rw [hnext]
    exact (h.accounted stream).listen hruns dst
  | chunk n ended of bytes rest _ _ hbytes hpipe hnext =>
    rw [hnext]
    exact (h.accounted stream).takeChunk decodeOutput ended of hbytes.1 hpipe

theorem step_missed_iff {w : World} (h : Invariant w) (a : Act) (stream : Stream) :
    missed (step platform decodeOutput w a) stream = [] ↔
      missed w stream = [] ∧ FindsNothing stream w a := by
  cases step_moves platform decodeOutput h a with
  | still hstill hread =>
    rw [hstill.missed]
    exact (and_iff_left fun n ended ha _ hcontrol ↦ hread n ended stream ha hcontrol).symm
  | write dst bytes _ ha hnext =>
    rw [hnext, ha]
    exact (and_iff_left fun n ended ha' ↦ by simp at ha').symm
  | listen dst _ ha hnext =>
    rw [hnext, ha]
    exact (and_iff_left fun n ended ha' ↦ by simp at ha').symm
  | chunk n ended of bytes rest ha hcontrol hbytes hpipe hnext =>
    rw [hnext, missed_takeChunk, List.append_eq_nil_iff]
    apply and_congr_right fun _ ↦ ?_
    constructor
    · intro hnil m ended' _ hconstructing hcontrol'
      obtain ⟨-, rfl⟩ := Control.read.inj (hcontrol.symm.trans hcontrol')
      rw [if_pos ⟨rfl, hconstructing⟩] at hnil
      exact absurd hnil (List.cons_ne_nil _ _)
    · intro hfinds
      apply if_neg
      rintro ⟨rfl, hconstructing⟩
      have hempty := hfinds n ended ha hconstructing hcontrol
      rw [hpipe] at hempty
      exact hbytes.1 (List.append_eq_nil_iff.mp hempty).1

theorem foldl_missed_iff {w : World} (h : Invariant w) (acts : List Act) (stream : Stream) :
    missed (acts.foldl (step platform decodeOutput) w) stream = [] ↔ missed w stream = [] ∧
      Runs.Guarded (fun w a ↦ some (step platform decodeOutput w a)) (FindsNothing stream) w acts := by
  induction acts generalizing w with
  | nil => exact (and_iff_left trivial).symm
  | cons a acts ih =>
    rw [List.foldl_cons, ih (step_invariant platform decodeOutput h a),
      step_missed_iff platform decodeOutput h, Runs.guarded_total_cons, and_assoc]

theorem start_invariant (raw : Raw) : Invariant (World.start raw) := by
  constructor
  · refine ⟨rfl, fun code hmem ↦ absurd hmem List.not_mem_nil, ?_⟩
    ext1 stream
    cases stream <;> rfl
  · intro stream
    exact ⟨rfl, fun _ hmem ↦ absurd hmem List.not_mem_nil, fun _ ↦ rfl,
      fun _ hmem ↦ absurd hmem List.not_mem_nil, fun _ ↦ ⟨rfl, rfl⟩, fun _ ↦ rfl⟩

theorem run_invariant (raw : Raw) (acts : List Act) :
    Invariant (run platform decodeOutput raw acts) :=
  List.foldlRecOn (motive := Invariant) acts _ (start_invariant raw)
    fun _ h a _ ↦ step_invariant platform decodeOutput h a

-- `exit` is emitted only after both pipes were found empty.
theorem Phase.emptied {w : World} (h : Phase w) {code : Int}
    (hexit : Event.exit code ∈ w.child.log) : Emptied w := by
  have hlife : Event.exit code ∈ w.child.life := List.mem_filter.mpr ⟨hexit, rfl⟩
  have hno : ¬NoExit w.child := fun hnoExit ↦ hnoExit code hlife
  unfold Phase at h
  generalize w.control = control at h
  cases control with
  | read ended stream =>
    cases ended with
    | none => exact absurd h.noExit hno
    | some _ =>
      cases stream with
      | stdout => exact absurd h.noExit hno
      | stderr => exact absurd h.1.noExit hno
  | data ended stream =>
    cases ended with
    | none => exact absurd h.noExit hno
    | some _ =>
      cases stream with
      | stdout => exact absurd h.noExit hno
      | stderr => exact absurd h.1.noExit hno
  | poll => exact absurd h.noExit hno
  | exit _ => exact h
  | close => exact h
  | spawned => exact h.resolve_left fun halive ↦ hno halive.noExit
  | idle => exact h.resolve_left fun halive ↦ hno halive.noExit

/-- When `exit` has been emitted, a listener that was attached right after `spawn` returned has
received all that the child wrote to its pipe precisely if the constructor's poll found nothing
there. -/
theorem output_complete_iff (raw : Raw) (acts : List Act) (l : DataListener)
    (hl : l ∈ (run platform decodeOutput raw acts).listeners) (hprompt : l.prompt = true)
    (code : Int) (hexit : Event.exit code ∈ (run platform decodeOutput raw acts).child.log) :
    l.received.flatten = (run platform decodeOutput raw acts).written l.stream ↔
      Runs.Guarded (fun w a ↦ some (step platform decodeOutput w a)) (FindsNothing l.stream)
        (World.start raw) acts := by
  have hinv := run_invariant platform decodeOutput raw acts
  have haccounted := hinv.accounted l.stream
  have hempty := (hinv.phase.emptied hexit).empty l.stream
  have hreceived := haccounted.prompt l hl hprompt rfl
  have hmissed : missed (run platform decodeOutput raw acts) l.stream = [] ↔
      Runs.Guarded (fun w a ↦ some (step platform decodeOutput w a)) (FindsNothing l.stream)
        (World.start raw) acts :=
    (foldl_missed_iff platform decodeOutput (start_invariant raw) acts l.stream).trans
      (and_iff_right rfl)
  rw [← hmissed, haccounted.written, hempty, List.append_nil, hreceived, List.self_eq_append_left,
    List.flatten_eq_nil_iff]
  constructor
  · intro hnil
    rw [List.eq_nil_iff_forall_not_mem]
    exact fun bytes hmem ↦ haccounted.nonempty bytes hmem (hnil bytes hmem)
  · intro hnil bytes hmem
    rw [hnil] at hmem
    exact absurd hmem List.not_mem_nil

end

/-- A child that writes between two polls and once more before it ends; its output reaches the
listener whole. -/
theorem output_complete_late_writes :
    let acts : List Act :=
      [.parent 0, .parent 0, .parent 0, .listen .stdout, .write .stdout [104, 105], .parent 0, .timer,
        .parent 0, .parent 0, .write .stdout [33], .ends 0, .parent 0, .parent 0, .parent 0, .parent 0,
        .parent 0, .parent 0, .parent 0, .parent 0, .parent 0]
    List.flatten [[104], [105], [33]] =
        (run .unix (fun _ ↦ []) ⟨7, some 3, some 4, some 5⟩ acts).written .stdout ↔
      Runs.Guarded (fun w a ↦ some (step .unix (fun _ ↦ []) w a)) (FindsNothing .stdout)
        (World.start ⟨7, some 3, some 4, some 5⟩) acts :=
  output_complete_iff .unix (fun _ ↦ []) ⟨7, some 3, some 4, some 5⟩ _
    ⟨.stdout, true, [[104], [105], [33]]⟩ (by decide) rfl 0 (by decide)

/-- A child that writes `hi` before the constructor's poll and `!` after it. -/
theorem output_before_listener_lost :
    let acts : List Act :=
      [.write .stdout [104, 105], .parent 1, .parent 0, .parent 0, .parent 0, .parent 0,
        .listen .stdout, .parent 0, .write .stdout [33], .ends 0, .timer, .parent 0, .parent 0,
        .parent 0, .parent 0, .parent 0, .parent 0, .parent 0]
    let w := run .unix (fun _ ↦ []) ⟨7, some 3, some 4, some 5⟩ acts
    w.listeners = [⟨.stdout, true, [[33]]⟩] ∧ Event.exit 0 ∈ w.child.log ∧
      w.written .stdout = [104, 105, 33] := by
  decide

end QNode.ChildProcess.Schedule
