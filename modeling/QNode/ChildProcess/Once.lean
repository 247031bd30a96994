import Mathlib.Data.List.Nodup
import QNode.ChildProcess.EventEmitter

/-!
# Listeners that are called once

The wrapper of `once` removes itself after its function has returned.  It stays in its array when the
function throws, while the function runs, and when the user removes the function.
-/

namespace QNode.ChildProcess.EventEmitter

variable {α : Type}

/-- No registration by `once` has been called twice. -/
def CalledOnce (s : EventEmitter α) : Prop :=
  ∀ entry : Registration, entry.once → (s.calls.map ListenerCall.entry).count entry ≤ 1

/-- An `emit` that began after the user had removed a function does not call a registration of it by
`once` from before the removal. -/
def Unregistered (s : EventEmitter α) : Prop :=
  ∀ call ∈ s.calls, call.entry.once → ∀ removal ∈ s.removals, removal.name = call.entry.name →
    removal.fn = call.entry.fn → call.entry.since < removal.time → call.start ≤ removal.time

def OnceHolds (s : EventEmitter α) : Prop := s.CalledOnce ∧ s.Unregistered

/-- A function registered by `once` does not throw and does not emit its own event, directly or through
other listeners, before it returns; the user does not remove it. -/
def OnceRespected (s : EventEmitter α) : EmitterAct α → Prop
  | .throw => ∀ frame ∈ s.stack.head?, ∀ entry ∈ frame.running, ¬ entry.once
  | .emit name _ => s.codeRuns → ∀ frame ∈ s.stack, ∀ entry ∈ frame.running,
      entry.once → name ≠ entry.name
  | .removeListener name fn => s.codeRuns → ∀ entry ∈ s.events name, entry.once → entry.fn ≠ fn
  | _ => True

/-- A wrapper that was called and is still in its array has its function running, and above that no
`emit` of its event is in progress.  A wrapper in an array is younger than the removals of its
function. -/
structure OnceInvariant (s : EventEmitter α) : Prop extends Sound s where
  holds : s.OnceHolds
  running : ∀ call ∈ s.calls, call.entry.once → call.entry ∈ s.events call.entry.name →
    ∃ frame ∈ s.stack, frame.running = some call.entry
  nested : s.stack.Pairwise fun above below ↦
    ∀ entry ∈ below.running, entry.once → above.name ≠ entry.name
  younger : ∀ removal ∈ s.removals, ∀ entry ∈ s.events removal.name, entry.once →
    entry.fn = removal.fn → removal.time ≤ entry.since
  removals : ∀ removal ∈ s.removals, removal.time < s.clock
  calls : ∀ call ∈ s.calls, call.start < s.clock ∧ call.entry.since < s.clock
  frames : ∀ frame ∈ s.stack, frame.start < s.clock

theorem OnceInvariant.new : (new : EventEmitter α).OnceInvariant where
  toSound := Sound.new
  holds := ⟨fun _ _ ↦ Nat.zero_le 1, fun _ h ↦ by cases h⟩
  running _ h := by cases h
  nested := List.Pairwise.nil
  younger _ h := by cases h
  removals _ h := by cases h
  calls _ h := by cases h
  frames _ h := by cases h

section

variable {s s' : EventEmitter α}

-- A step that calls nobody: what it may add and what it must keep.
theorem OnceInvariant.of_quiet (h : s.OnceInvariant) (hsound : s'.Sound)
    (hclock : s'.clock = s.clock + 1) (hcalls : s'.calls = s.calls)
    (hevents : ∀ name, ∀ entry ∈ s'.events name, entry ∈ s.events name ∨ entry.since = s.clock)
    (hremovals : ∀ removal ∈ s'.removals, removal ∈ s.removals ∨ removal.time = s.clock ∧
      ∀ entry ∈ s.events removal.name, entry.once → entry.fn ≠ removal.fn)
    (hrunning : ∀ entry : Registration, entry.once → entry ∈ s'.events entry.name →
      (∃ frame ∈ s.stack, frame.running = some entry) →
      ∃ frame ∈ s'.stack, frame.running = some entry)
    (hnested : s'.stack.Pairwise fun above below ↦
      ∀ entry ∈ below.running, entry.once → above.name ≠ entry.name)
    (hframes : ∀ frame ∈ s'.stack, frame.start ≤ s.clock) : s'.OnceInvariant where
  toSound := hsound
  holds := by
    unfold OnceHolds CalledOnce Unregistered
    rw [hcalls]
    refine ⟨h.holds.1, fun call hcall honce removal hremoval hname hfn hsince ↦ ?_⟩
    rcases hremovals removal hremoval with hold | ⟨htime, -⟩
    · exact h.holds.2 call hcall honce removal hold hname hfn hsince
    · rw [htime]
      exact Nat.le_of_lt (h.calls call hcall).1
  running := by
    rw [hcalls]
    intro call hcall honce hmem
    rcases hevents _ _ hmem with hold | hnew
    · exact hrunning call.entry honce hmem (h.running call hcall honce hold)
    · have hsince := (h.calls call hcall).2
      omega
  nested := hnested
  younger := by
    intro removal hremoval entry hentry honce hfn
    rcases hevents _ _ hentry with hold | hnew
    · rcases hremovals removal hremoval with hremoval | ⟨-, hnone⟩
      · exact h.younger removal hremoval entry hold honce hfn
      · exact absurd hfn (hnone entry hold honce)
    · rw [hnew]
      rcases hremovals removal hremoval with hremoval | ⟨htime, -⟩
      · exact Nat.le_of_lt (h.removals removal hremoval)
      · exact Nat.le_of_eq htime
  removals := by
    intro removal hremoval
    rw [hclock]
    rcases hremovals removal hremoval with hold | ⟨htime, -⟩
    · exact Nat.lt_succ_of_lt (h.removals removal hold)
    · omega
  calls := by
    rw [hcalls, hclock]
    exact fun call hcall ↦ ⟨Nat.lt_succ_of_lt (h.calls call hcall).1,
      Nat.lt_succ_of_lt (h.calls call hcall).2⟩
  frames := by
    intro frame hframe
    rw [hclock]
    exact Nat.lt_succ_of_le (hframes frame hframe)

variable {frame : EmitFrame α} {stack : List (EmitFrame α)} {entry : Registration}

-- The innermost loop goes on; its frame no longer calls an entry, all others do what they did.
theorem OnceInvariant.goOn_frames (h : s.OnceInvariant) (hstack : s.stack = frame :: stack) :
    ((s.goOn frame stack).stack.Pairwise fun above below ↦
        ∀ entry ∈ below.running, entry.once → above.name ≠ entry.name) ∧
      ∀ frame' ∈ (s.goOn frame stack).stack, frame'.start ≤ s.clock := by
  have hnested := h.nested
  have hframes := h.frames
  rw [hstack] at hnested hframes
  obtain ⟨hhead, htail⟩ := List.pairwise_cons.mp hnested
  refine ⟨List.pairwise_cons.mpr ⟨hhead, htail⟩, ?_⟩
  intro frame' hframe'
  rcases List.mem_cons.mp hframe' with rfl | hframe'
  · exact Nat.le_of_lt (hframes frame List.mem_cons_self)
  · exact Nat.le_of_lt (hframes frame' (List.mem_cons_of_mem frame hframe'))

-- What another frame is calling it still calls.
theorem running_of_ne {e : Registration} (hstack : s.stack = frame :: stack)
    (hrunning : frame.running = some entry) (hne : e ≠ entry)
    (hcalled : ∃ frame ∈ s.stack, frame.running = some e) :
    ∃ frame ∈ stack, frame.running = some e := by
  obtain ⟨frame', hframe', he⟩ := hcalled
  rw [hstack] at hframe'
  rcases List.mem_cons.mp hframe' with rfl | hframe'
  · exact absurd (Option.some.inj (he.symm.trans hrunning)) hne
  · exact ⟨frame', hframe', he⟩

theorem goOn_once (h : s.OnceInvariant) (hstack : s.stack = frame :: stack)
    (hrunning : frame.running = some entry) (honce : ¬ entry.once) :
    (s.goOn frame stack).advance.OnceInvariant := by
  obtain ⟨hnested, hframes⟩ := h.goOn_frames hstack
  refine h.of_quiet (h.toSound.goOn hstack).advance rfl rfl (fun _ _ he ↦ .inl he)
    (fun _ hr ↦ .inl hr) ?_ hnested hframes
  intro e he _ hcalled
  have hne : e ≠ entry := fun heq ↦ honce (heq ▸ he)
  obtain ⟨frame', hframe', hrun⟩ := running_of_ne hstack hrunning hne hcalled
  exact ⟨frame', List.mem_cons_of_mem _ hframe', hrun⟩

-- The wrapper that removes itself is gone from its array.
theorem not_mem_splice_self (h : s.Sound) (entry : Registration) (name : String) :
    entry ∉ (s.splice name (· == entry)).events name := by
  cases hfind : (s.events name).findIdx? (· == entry) with
  | none =>
    rw [splice_eq_of_none hfind]
    intro hmem
    have hne := List.findIdx?_eq_none_iff.mp hfind entry hmem
    simp at hne
  | some i =>
    obtain ⟨hlen, hget, -⟩ := List.findIdx?_eq_some_iff_getElem.mp hfind
    rw [splice_eq_of_some hfind, events_setEvents, if_pos rfl,
      ← (h.nodup name).erase_getElem i hlen, beq_iff_eq.mp hget]
    exact (h.nodup name).not_mem_erase

theorem ret_once (h : s.OnceInvariant) (hstack : s.stack = frame :: stack)
    (hrunning : frame.running = some entry) : (s.ret frame stack entry).advance.OnceInvariant := by
  unfold ret
  by_cases honce : entry.once
  · rw [if_pos honce]
    obtain ⟨hnested, hframes⟩ := h.goOn_frames hstack
    have hsame := SameFrames.splice (s.goOn frame stack) entry.name (· == entry)
    have hgone := not_mem_splice_self (h.toSound.goOn hstack) entry entry.name
    refine h.of_quiet ((h.toSound.goOn hstack).splice _ _).advance (congrArg (· + 1) hsame.clock)
      hsame.calls (fun name e he ↦ .inl ((splice_sublist (s.goOn frame stack) _ _ name).subset he))
      ?_ ?_ ?_ ?_
    · intro removal hremoval
      change removal ∈ ((s.goOn frame stack).splice entry.name (· == entry)).removals at hremoval
      rw [hsame.removals] at hremoval
      exact .inl hremoval
    · intro e he hmem hcalled
      have hne : e ≠ entry := by
        rintro rfl
        exact hgone hmem
      obtain ⟨frame', hframe', hrun⟩ := running_of_ne hstack hrunning hne hcalled
      refine ⟨frame', ?_, hrun⟩
      show frame' ∈ ((s.goOn frame stack).splice entry.name (· == entry)).stack
      rw [hsame.stack]
      exact List.mem_cons_of_mem _ hframe'
    · show List.Pairwise _ ((s.goOn frame stack).splice entry.name (· == entry)).stack
      rw [hsame.stack]
      exact hnested
    · intro frame' hframe'
      change frame' ∈ ((s.goOn frame stack).splice entry.name (· == entry)).stack at hframe'
      rw [hsame.stack] at hframe'
      exact hframes frame' hframe'
  · rw [if_neg honce]
    exact goOn_once h hstack hrunning honce

-- A call of a listener, for the first time if it is a wrapper.
theorem OnceInvariant.of_call (h : s.OnceInvariant) (hstack : s.stack = frame :: stack)
    (hrunning : frame.running = none)
    (hentry : entry ∈ s.events frame.name)
    (hfirst : entry.once → ∀ call ∈ s.calls, call.entry ≠ entry)
    (hsound : Sound { s with
      stack := { frame with running := some entry, called := frame.called ++ [entry] } :: stack
      calls := ⟨frame.name, entry, frame.args, frame.start⟩ :: s.calls }) :
    (advance { s with
      stack := { frame with running := some entry, called := frame.called ++ [entry] } :: stack
      calls := ⟨frame.name, entry, frame.args, frame.start⟩ :: s.calls }).OnceInvariant where
  toSound := hsound.advance
  holds := by
    constructor
    · intro e honce
      show ((entry :: s.calls.map ListenerCall.entry).count e) ≤ 1
      rw [List.count_cons]
      by_cases heq : entry = e
      · subst heq
        have hnone : (s.calls.map ListenerCall.entry).count entry = 0 := by
          rw [List.count_eq_zero, List.mem_map]
          rintro ⟨call, hcall, hcalled⟩
          exact hfirst honce call hcall hcalled
        rw [hnone]
        simp
      · rw [if_neg (by simpa using heq)]
        exact h.holds.1 e honce
    · intro call hcall honce removal hremoval hname hfn hsince
      rcases List.mem_cons.mp hcall with rfl | hcall
      · -- the entry would have been in its array when its function was removed
        have hyounger := h.younger removal hremoval entry
          (by rw [hname, h.named frame.name entry hentry]; exact hentry) honce hfn.symm
        exact absurd hsince (Nat.not_lt.mpr hyounger)
      · exact h.holds.2 call hcall honce removal hremoval hname hfn hsince
  running := by
    intro call hcall honce hmem
    rcases List.mem_cons.mp hcall with rfl | hcall
    · exact ⟨_, List.mem_cons_self, rfl⟩
    · obtain ⟨frame', hframe', hrun⟩ := h.running call hcall honce hmem
      rw [hstack] at hframe'
      rcases List.mem_cons.mp hframe' with rfl | hframe'
      · cases hrunning.symm.trans hrun
      · exact ⟨frame', List.mem_cons_of_mem _ hframe', hrun⟩
  nested := by
    have hnested := h.nested
    rw [hstack] at hnested
    obtain ⟨hhead, htail⟩ := List.pairwise_cons.mp hnested
    exact List.pairwise_cons.mpr ⟨hhead, htail⟩
  younger := h.younger
  removals removal hremoval := Nat.lt_succ_of_lt (h.removals removal hremoval)
  calls := by
    intro call hcall
    rcases List.mem_cons.mp hcall with rfl | hcall
    · refine ⟨Nat.lt_succ_of_lt (h.frames frame ?_), Nat.lt_succ_of_lt (h.older _ entry hentry)⟩
      rw [hstack]
      exact List.mem_cons_self
    · exact ⟨Nat.lt_succ_of_lt (h.calls call hcall).1, Nat.lt_succ_of_lt (h.calls call hcall).2⟩
  frames := by
    have hframes := h.frames
    rw [hstack, List.forall_mem_cons] at hframes
    exact List.forall_mem_cons.mpr ⟨Nat.lt_succ_of_lt hframes.1,
      fun frame' hframe' ↦ Nat.lt_succ_of_lt (hframes.2 frame' hframe')⟩

theorem tick_once (h : s.OnceInvariant) (hstack : s.stack = frame :: stack)
    (hrunning : frame.running = none) : (s.tick frame stack).advance.OnceInvariant := by
  have hnested := h.nested
  have hframes := h.frames
  rw [hstack] at hnested hframes
  obtain ⟨hhead, htail⟩ := List.pairwise_cons.mp hnested
  have hsound := h.toSound.tick hstack
  unfold tick at hsound ⊢
  cases hget : (s.events frame.name)[frame.index]? with
  | none =>
    rw [hget] at hsound
    refine h.of_quiet hsound.advance rfl rfl (fun _ _ he ↦ .inl he) (fun _ hr ↦ .inl hr) ?_ htail
      fun frame' hframe' ↦ Nat.le_of_lt (hframes frame' (List.mem_cons_of_mem frame hframe'))
    intro e _ _ hcalled
    obtain ⟨frame', hframe', hrun⟩ := hcalled
    rw [hstack] at hframe'
    rcases List.mem_cons.mp hframe' with rfl | hframe'
    · cases hrunning.symm.trans hrun
    · exact ⟨frame', hframe', hrun⟩
  | some entry =>
    rw [hget] at hsound
    have hentry : entry ∈ s.events frame.name := List.mem_of_getElem? hget
    have hname := h.named frame.name entry hentry
    -- a wrapper that was called before has its function running in an outer frame of its event
    have hfirst : entry.once → ∀ call ∈ s.calls, call.entry ≠ entry := by
      rintro honce call hcall rfl
      rw [← hname] at hentry
      obtain ⟨frame', hframe', hrun⟩ := h.running call hcall honce hentry
      rw [hstack] at hframe'
      rcases List.mem_cons.mp hframe' with rfl | hframe'
      · cases hrunning.symm.trans hrun
      · exact hhead frame' hframe' call.entry hrun honce hname.symm
    exact h.of_call hstack hrunning hentry hfirst hsound

theorem OnceInvariant.step (h : s.OnceInvariant) (a : EmitterAct α)
    (hrespected : s.OnceRespected a) : (s.step a).OnceInvariant := by
  show (s.act a).advance.OnceInvariant
  have hsound := h.toSound.step a
  have heffect := s.effect a
  change (s.act a).advance.Sound at hsound
  revert heffect hsound
  generalize s.act a = s'
  intro heffect hsound
  have hframes : ∀ frame ∈ s.stack, frame.start ≤ s.clock :=
    fun frame hframe ↦ Nat.le_of_lt (h.frames frame hframe)
  cases heffect with
  | idle =>
    exact h.of_quiet hsound rfl rfl (fun _ _ he ↦ .inl he) (fun _ hr ↦ .inl hr)
      (fun _ _ _ hcalled ↦ hcalled) h.nested hframes
  | @push _ _ entry hnow =>
    have hsame := SameFrames.push s entry.name entry
    refine h.of_quiet hsound (congrArg (· + 1) hsame.clock) hsame.calls ?_ ?_ ?_ ?_ ?_
    · intro name e he
      change e ∈ (s.push entry.name entry).events name at he
      rw [events_push] at he
      split at he
      next =>
        rcases List.mem_append.mp he with hold | hnew
        · exact .inl hold
        · rw [List.mem_singleton.mp hnew]
          exact .inr hnow
      next => exact .inl he
    · intro removal hremoval
      change removal ∈ (s.push entry.name entry).removals at hremoval
      rw [hsame.removals] at hremoval
      exact .inl hremoval
    all_goals
      rw [show (s.push entry.name entry).advance.stack = s.stack from hsame.stack]
    · exact fun _ _ _ hcalled ↦ hcalled
    · exact h.nested
    · exact hframes
  | remove name fn hcode =>
    have hsame := SameFrames.splice s name (isFunction fn)
    refine h.of_quiet hsound (congrArg (· + 1) hsame.clock) hsame.calls
      (fun name' e he ↦ .inl ((splice_sublist s name _ name').subset he)) ?_ ?_ ?_ ?_
    · intro removal hremoval
      rcases List.mem_cons.mp hremoval with rfl | hold
      · exact .inr ⟨rfl, hrespected hcode⟩
      · exact .inl hold
    all_goals
      rw [show (s.removeListener name fn).advance.stack = s.stack from hsame.stack]
    · exact fun _ _ _ hcalled ↦ hcalled
    · exact h.nested
    · exact hframes
  | emit name args hcode =>
    refine h.of_quiet hsound rfl rfl (fun _ _ he ↦ .inl he) (fun _ hr ↦ .inl hr) ?_ ?_ ?_
    · intro e _ _ hcalled
      obtain ⟨frame, hframe, hrun⟩ := hcalled
      exact ⟨frame, List.mem_cons_of_mem _ hframe, hrun⟩
    · exact List.pairwise_cons.mpr ⟨hrespected hcode, h.nested⟩
    · intro frame hframe
      rcases List.mem_cons.mp hframe with rfl | hframe
      · exact Nat.le_refl s.clock
      · exact hframes frame hframe
  | ret hstack hrunning => exact ret_once h hstack hrunning
  | @throw frame stack entry hstack hrunning =>
    have honce : ¬ entry.once := by
      apply hrespected frame _ entry hrunning
      rw [hstack]
      rfl
    exact goOn_once h hstack hrunning honce
  | tick hstack hrunning => exact tick_once h hstack hrunning

end

/-- In a run of a new emitter in which no function registered by `once` throws, emits its own event
before it returns or is removed by the user, each such registration is called at most once, and not by
an `emit` that began after a removal of its function. -/
theorem once_holds_of_respected (acts : List (EmitterAct α))
    (h : Runs.Guarded (fun s a ↦ some (step s a)) OnceRespected (new : EventEmitter α) acts) :
    Runs.Along (fun s a ↦ some (step s a)) (fun _ _ s' ↦ s'.OnceHolds) new acts := by
  refine Runs.Along.of_guarded (I := OnceInvariant) ?_ OnceInvariant.new h
  intro s a hinv hrespected
  have hnext := hinv.step a hrespected
  exact ⟨s.step a, rfl, hnext.holds, hnext⟩

theorem once_holds_return :
    Runs.Along (fun s a ↦ some (step s a)) (fun _ _ s' ↦ s'.OnceHolds) (new : EventEmitter Unit)
      [.once "exit" 2, .emit "exit" (), .tick, .ret, .tick] := by
  apply once_holds_of_respected
  simp only [Runs.guarded_total_cons]
  exact ⟨trivial, fun _ frame hframe ↦ absurd hframe List.not_mem_nil, trivial, trivial, trivial,
    trivial⟩

/-- `once("data", f)`, where `f` throws, and two emits call `f` twice; `removeListener("data", f)` does
not keep an emit from calling `f`. -/
theorem once_listener_called_again :
    ¬ (∀ acts : List (EmitterAct Unit), (new.run acts).CalledOnce) ∧
      ¬ ∀ acts : List (EmitterAct Unit), (new.run acts).Unregistered := by
  constructor
  · intro h
    have honce := h [.once "data" 1, .emit "data" (), .tick, .throw, .tick, .emit "data" (), .tick]
      ⟨"data", 1, true, 0⟩ rfl
    revert honce
    decide
  · intro h
    have hcall := h [.once "data" 1, .removeListener "data" 1, .emit "data" (), .tick]
      ⟨"data", ⟨"data", 1, true, 0⟩, (), 2⟩ (List.mem_singleton_self _) rfl ⟨"data", 1, 1⟩
      (List.mem_singleton_self _) rfl rfl (by decide)
    revert hcall
    decide

end QNode.ChildProcess.EventEmitter
