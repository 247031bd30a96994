import Mathlib.Logic.Function.Basic
import QNode.Library.LiveLoop
import QNode.Library.Runs

/-!
# EventEmitter

`emit` goes over the array of listeners by index while the listeners run, and these may register, remove
and emit on the same emitter.  A run is a sequence of actions: those of the code that is running, a
listener or code outside of any `emit`, and the turns of the innermost loop.
-/

open LiveLoop

namespace QNode.ChildProcess

/-- An entry of an array of listeners, told apart by the time of its registration: a function, or the
wrapper that `once` makes for it. -/
structure Registration where
  name : String
  fn : Nat
  once : Bool
  since : Nat
  deriving DecidableEq, Repr

/-- A call of `emit`: the index of its loop and the entry it is calling, if any; the entries of its event
when it began and those it has called are kept for the record. -/
structure EmitFrame (α : Type) where
  name : String
  args : α
  start : Nat
  index : Nat
  running : Option Registration
  began : List Registration
  called : List Registration

/-- The index that the loop looks at next. -/
def EmitFrame.next {α : Type} (frame : EmitFrame α) : Nat :=
  if frame.running.isSome then frame.index + 1 else frame.index

/-- A call of a listener by an `emit` that began at `start`. -/
structure ListenerCall (α : Type) where
  name : String
  entry : Registration
  args : α
  start : Nat

/-- A call of `removeListener` by the user. -/
structure Removal where
  name : String
  fn : Nat
  time : Nat

/-- The arrays in `_events` and the calls of `emit` in progress, innermost first.  The code does not look
at the clock and the three records of the past. -/
structure EventEmitter (α : Type) where
  events : String → List Registration
  stack : List (EmitFrame α)
  clock : Nat
  finished : List (EmitFrame α)
  calls : List (ListenerCall α)
  removals : List Removal

/-- What running code does, and the turns of the loop of `emit`.  A listener ends with `ret` or
`throw`. -/
inductive EmitterAct (α : Type)
  | on (name : String) (fn : Nat)
  | once (name : String) (fn : Nat)
  | removeListener (name : String) (fn : Nat)
  | emit (name : String) (args : α)
  | ret
  | throw
  | tick

/-- The names that `_events` inherits from `Object.prototype`.  What is found under them is no array:
`on`, `once` and `removeListener` throw, and `emit` finds nobody to call. -/
def inheritedNames : List String :=
  ["constructor", "toString", "toLocaleString", "valueOf", "hasOwnProperty", "isPrototypeOf",
    "propertyIsEnumerable", "__proto__", "__defineGetter__", "__defineSetter__", "__lookupGetter__",
    "__lookupSetter__"]

namespace EventEmitter

variable {α : Type}

/-- `new EventEmitter()` -/
def new : EventEmitter α where
  events _ := []
  stack := []
  clock := 0
  finished := []
  calls := []
  removals := []

def setEvents (s : EventEmitter α) (name : String) (l : List Registration) : EventEmitter α :=
  { s with events := Function.update s.events name l }

/-- `if (!this._events[n]) this._events[n] = []; this._events[n].push(entry);` -/
def push (s : EventEmitter α) (name : String) (entry : Registration) : EventEmitter α :=
  if name ∈ inheritedNames then s else s.setEvents name (s.events name ++ [entry])

def on (s : EventEmitter α) (name : String) (fn : Nat) : EventEmitter α :=
  s.push name ⟨name, fn, false, s.clock⟩

def once (s : EventEmitter α) (name : String) (fn : Nat) : EventEmitter α :=
  s.push name ⟨name, fn, true, s.clock⟩

/-- `var i = l.indexOf(fn); if (i >= 0) l.splice(i, 1);` -/
def splice (s : EventEmitter α) (name : String) (same : Registration → Bool) : EventEmitter α :=
  match (s.events name).findIdx? same with
  | none => s
  | some i => s.setEvents name ((s.events name).eraseIdx i)

/-- An entry that is the function itself; a wrapper is never what the user passes. -/
def isFunction (fn : Nat) (entry : Registration) : Bool := !entry.once && entry.fn == fn

def removeListener (s : EventEmitter α) (name : String) (fn : Nat) : EventEmitter α :=
  { s.splice name (isFunction fn) with removals := ⟨name, fn, s.clock⟩ :: s.removals }

def emit (s : EventEmitter α) (name : String) (args : α) : EventEmitter α :=
  { s with stack := ⟨name, args, s.clock, 0, none, s.events name, []⟩ :: s.stack }

/-- The loop goes on to its next index. -/
def goOn (s : EventEmitter α) (frame : EmitFrame α) (stack : List (EmitFrame α)) : EventEmitter α :=
  { s with stack := { frame with index := frame.index + 1, running := none } :: stack }

/-- The function of an entry returns; the wrapper of `once` then removes itself. -/
def ret (s : EventEmitter α) (frame : EmitFrame α) (stack : List (EmitFrame α))
    (entry : Registration) : EventEmitter α :=
  if entry.once then (s.goOn frame stack).splice entry.name (· == entry) else s.goOn frame stack

/-- A turn of the loop: `l[i].apply(null, a)`, or the end of `emit`. -/
def tick (s : EventEmitter α) (frame : EmitFrame α) (stack : List (EmitFrame α)) : EventEmitter α :=
  match (s.events frame.name)[frame.index]? with
  | some entry =>
    { s with
      stack := { frame with running := some entry, called := frame.called ++ [entry] } :: stack
      calls := ⟨frame.name, entry, frame.args, frame.start⟩ :: s.calls }
  | none => { s with stack := stack, finished := frame :: s.finished }

/-- Code of the user runs: a listener, or code outside of any `emit`. -/
def codeRuns (s : EventEmitter α) : Bool := s.stack.head?.all (·.running.isSome)

/-- An action that is not possible does nothing. -/
def act (s : EventEmitter α) : EmitterAct α → EventEmitter α
  | .on name fn => if s.codeRuns then s.on name fn else s
  | .once name fn => if s.codeRuns then s.once name fn else s
  | .removeListener name fn => if s.codeRuns then s.removeListener name fn else s
  | .emit name args => if s.codeRuns then s.emit name args else s
  | .ret =>
    match s.stack with
    | [] => s
    | frame :: stack =>
      match frame.running with
      | none => s
      | some entry => s.ret frame stack entry
  | .throw =>
    match s.stack with
    | [] => s
    | frame :: stack =>
      match frame.running with
      | none => s
      -- the exception passes the wrapper and is caught by the loop
      | some _ => s.goOn frame stack
  | .tick =>
    match s.stack with
    | [] => s
    | frame :: stack =>
      match frame.running with
      | none => s.tick frame stack
      | some _ => s

def advance (s : EventEmitter α) : EventEmitter α := { s with clock := s.clock + 1 }

/-- One action, and the clock goes on. -/
def step (s : EventEmitter α) (a : EmitterAct α) : EventEmitter α := (s.act a).advance

def run (s : EventEmitter α) (acts : List (EmitterAct α)) : EventEmitter α := acts.foldl step s

/-! ## What an emit has called and will call -/

/-- The entries that the loop of a frame has before it. -/
def ahead (s : EventEmitter α) (frame : EmitFrame α) : List Registration :=
  (s.events frame.name).drop frame.next

/-- An `emit` has called the listeners that were registered when it began, each once and in order, or
has those it has not called before it. -/
def Delivers (s : EventEmitter α) (frame : EmitFrame α) : Prop :=
  frame.began.Nodup ∧ OnCourse frame.began frame.called (s.ahead frame)

/-- An `emit` has called the listeners that were registered when it began, each once and in order. -/
def Delivered (frame : EmitFrame α) : Prop :=
  frame.began.Nodup ∧ frame.called.filter (· ∈ frame.began) = frame.began

/-- Every `emit` that has ended has called its listeners, and every one in progress is about to. -/
def AllDeliver (s : EventEmitter α) : Prop :=
  (∀ frame ∈ s.stack, s.Delivers frame) ∧ ∀ frame ∈ s.finished, Delivered frame

/-- Taking out the entry that `same` finds makes no `emit` of the event skip a listener that was there
when it began: neither the entry after the one it is calling, when what is taken out is not behind it,
nor the one taken out. -/
def Spares (s : EventEmitter α) (name : String) (same : Registration → Bool) : Prop :=
  ∀ i, (s.events name).findIdx? same = some i → ∀ frame ∈ s.stack, frame.name = name →
    ∀ entry ∈ lost (s.events name) frame.next i, entry ∉ frame.began

/-- A removal, by the user or by a wrapper whose function returns, spares every `emit`. -/
def Undisturbed (s : EventEmitter α) : EmitterAct α → Prop
  | .removeListener name fn => s.codeRuns → s.Spares name (isFunction fn)
  | .ret => ∀ frame ∈ s.stack.head?, ∀ entry ∈ frame.running,
      entry.once → s.Spares entry.name (· == entry)
  | _ => True

/-! ## The effects of an action -/

/-- Everything that an action can do. -/
inductive Effect (s : EventEmitter α) : EmitterAct α → EventEmitter α → Prop
  | idle {a : EmitterAct α} (h : s.Undisturbed a) : Effect s a s
  | push {a : EmitterAct α} (h : s.Undisturbed a) {entry : Registration}
      (hnow : entry.since = s.clock) : Effect s a (s.push entry.name entry)
  | remove (name : String) (fn : Nat) (h : s.codeRuns) :
      Effect s (.removeListener name fn) (s.removeListener name fn)
  | emit (name : String) (args : α) (h : s.codeRuns) : Effect s (.emit name args) (s.emit name args)
  | ret {frame : EmitFrame α} {stack : List (EmitFrame α)} {entry : Registration}
      (hstack : s.stack = frame :: stack) (hrunning : frame.running = some entry) :
      Effect s .ret (s.ret frame stack entry)
  | throw {frame : EmitFrame α} {stack : List (EmitFrame α)} {entry : Registration}
      (hstack : s.stack = frame :: stack) (hrunning : frame.running = some entry) :
      Effect s .throw (s.goOn frame stack)
  | tick {frame : EmitFrame α} {stack : List (EmitFrame α)}
      (hstack : s.stack = frame :: stack) (hrunning : frame.running = none) :
      Effect s .tick (s.tick frame stack)

theorem effect (s : EventEmitter α) (a : EmitterAct α) : s.Effect a (s.act a) := by
  cases a with
  | on name fn =>
    show s.Effect _ (if s.codeRuns then s.on name fn else s)
    split
    next =>
      exact .push (show s.Undisturbed (.on name fn) from trivial)
        (show (Registration.mk name fn false s.clock).since = s.clock from rfl)
    next => exact .idle trivial
  | once name fn =>
    show s.Effect _ (if s.codeRuns then s.once name fn else s)
    split
    next =>
      exact .push (show s.Undisturbed (.once name fn) from trivial)
        (show (Registration.mk name fn true s.clock).since = s.clock from rfl)
    next => exact .idle trivial
  | removeListener name fn =>
    show s.Effect _ (if s.codeRuns then s.removeListener name fn else s)
    split
    next hcode => exact .remove name fn hcode
    next hcode => exact .idle fun h ↦ absurd h hcode
  | emit name args =>
    show s.Effect _ (if s.codeRuns then s.emit name args else s)
    split
    next hcode => exact .emit name args hcode
    next => exact .idle trivial
  | ret =>
    unfold act
    dsimp only
    split
    next hstack => exact .idle (by simp [Undisturbed, hstack])
    next frame stack hstack =>
      split
      next hrunning => exact .idle (by simp [Undisturbed, hstack, hrunning])
      next entry hrunning => exact .ret hstack hrunning
  | throw =>
    unfold act
    dsimp only
    split
    next => exact .idle trivial
    next frame stack hstack =>
      split
      next => exact .idle trivial
      next entry hrunning => exact .throw hstack hrunning
  | tick =>
    unfold act
    dsimp only
    split
    next => exact .idle trivial
    next frame stack hstack =>
      split
      next hrunning => exact .tick hstack hrunning
      next => exact .idle trivial

section

variable {s : EventEmitter α} {name : String} {entry : Registration} {frame : EmitFrame α}
  {stack : List (EmitFrame α)}

/-! ## Arrays -/

theorem events_setEvents (s : EventEmitter α) (name : String) (l : List Registration)
    (name' : String) :
    (s.setEvents name l).events name' = if name' = name then l else s.events name' := by
  by_cases h : name' = name
  · subst h
    rw [if_pos rfl]
    exact Function.update_self name' l s.events
  · rw [if_neg h]
    exact Function.update_of_ne h l s.events

theorem events_push (s : EventEmitter α) (name : String) (entry : Registration) (name' : String) :
    (s.push name entry).events name' =
      if name' = name ∧ name ∉ inheritedNames then s.events name' ++ [entry] else s.events name' := by
  unfold push
  by_cases hin : name ∈ inheritedNames
  · rw [if_pos hin, if_neg fun h ↦ h.2 hin]
  · rw [if_neg hin, events_setEvents]
    by_cases hname : name' = name
    · rw [if_pos hname, if_pos ⟨hname, hin⟩, hname]
    · rw [if_neg hname, if_neg fun h ↦ hname h.1]

theorem splice_eq_of_some {same : Registration → Bool} {i : Nat}
    (h : (s.events name).findIdx? same = some i) :
    s.splice name same = s.setEvents name ((s.events name).eraseIdx i) := by
  rw [splice, h]

theorem splice_eq_of_none {same : Registration → Bool}
    (h : (s.events name).findIdx? same = none) : s.splice name same = s := by
  rw [splice, h]

-- An array with an entry taken out is a part of what it was.
theorem splice_sublist (s : EventEmitter α) (name : String) (same : Registration → Bool)
    (name' : String) : ((s.splice name same).events name').Sublist (s.events name') := by
  cases hfind : (s.events name).findIdx? same with
  | none => rw [splice_eq_of_none hfind]
  | some i =>
    rw [splice_eq_of_some hfind, events_setEvents]
    by_cases hname : name' = name
    · rw [if_pos hname, hname]
      exact List.eraseIdx_sublist _ i
    · rw [if_neg hname]

/-- The two differ in their arrays at most. -/
structure SameFrames (s s' : EventEmitter α) : Prop where
  stack : s'.stack = s.stack
  clock : s'.clock = s.clock
  finished : s'.finished = s.finished
  calls : s'.calls = s.calls
  removals : s'.removals = s.removals

theorem SameFrames.push (s : EventEmitter α) (name : String) (entry : Registration) :
    s.SameFrames (s.push name entry) := by
  unfold EventEmitter.push
  split <;> exact ⟨rfl, rfl, rfl, rfl, rfl⟩

theorem SameFrames.splice (s : EventEmitter α) (name : String) (same : Registration → Bool) :
    s.SameFrames (s.splice name same) := by
  unfold EventEmitter.splice
  split <;> exact ⟨rfl, rfl, rfl, rfl, rfl⟩

/-! ## Entries and the clock -/

/-- No entry occurs twice; each is in the array of its event and older than the clock. -/
structure Sound (s : EventEmitter α) : Prop where
  older : ∀ name, ∀ entry ∈ s.events name, entry.since < s.clock
  named : ∀ name, ∀ entry ∈ s.events name, entry.name = name
  nodup : ∀ name, (s.events name).Nodup
  began : ∀ frame ∈ s.stack, ∀ entry ∈ frame.began, entry.since < s.clock

theorem Sound.new : (new : EventEmitter α).Sound where
  older _ _ h := by cases h
  named _ _ h := by cases h
  nodup _ := List.nodup_nil
  began _ h := by cases h

theorem Sound.advance (h : s.Sound) : s.advance.Sound where
  older name entry hentry := Nat.lt_succ_of_lt (h.older name entry hentry)
  named := h.named
  nodup := h.nodup
  began frame hframe entry hentry := Nat.lt_succ_of_lt (h.began frame hframe entry hentry)

-- A new entry carries the time of its registration.
theorem Sound.push (h : s.Sound) (hnow : entry.since = s.clock) :
    (s.push entry.name entry).advance.Sound := by
  have hsame := SameFrames.push s entry.name entry
  have hclock : (s.push entry.name entry).advance.clock = s.clock + 1 :=
    congrArg (· + 1) hsame.clock
  constructor
  · intro name' e he
    rw [hclock]
    change e ∈ (s.push entry.name entry).events name' at he
    rw [events_push] at he
    split at he
    next =>
      rcases List.mem_append.mp he with hold | hnew
      · exact Nat.lt_succ_of_lt (h.older name' e hold)
      · rw [List.mem_singleton.mp hnew]
        omega
    next => exact Nat.lt_succ_of_lt (h.older name' e he)
  · intro name' e he
    change e ∈ (s.push entry.name entry).events name' at he
    rw [events_push] at he
    split at he
    next hname =>
      rcases List.mem_append.mp he with hold | hnew
      · exact h.named name' e hold
      · rw [List.mem_singleton.mp hnew, hname.1]
    next => exact h.named name' e he
  · intro name'
    show ((s.push entry.name entry).events name').Nodup
    rw [events_push]
    split
    next =>
      refine List.nodup_append.mpr ⟨h.nodup name', List.pairwise_singleton _ entry, ?_⟩
      intro e he e' he' heq
      have holder := h.older name' e he
      rw [heq, List.mem_singleton.mp he'] at holder
      omega
    next => exact h.nodup name'
  · intro frame hframe e he
    rw [hclock]
    change frame ∈ (s.push entry.name entry).stack at hframe
    rw [hsame.stack] at hframe
    exact Nat.lt_succ_of_lt (h.began frame hframe e he)

theorem Sound.splice (h : s.Sound) (name : String) (same : Registration → Bool) :
    (s.splice name same).Sound := by
  have hsame := SameFrames.splice s name same
  constructor
  · intro name' entry hentry
    rw [hsame.clock]
    exact h.older name' entry ((splice_sublist s name same name').subset hentry)
  · exact fun name' entry hentry ↦
      h.named name' entry ((splice_sublist s name same name').subset hentry)
  · exact fun name' ↦ (h.nodup name').sublist (splice_sublist s name same name')
  · rw [hsame.stack, hsame.clock]
    exact h.began

-- The frames after a step are those before it, but for the innermost one.
theorem Sound.of_stack (h : s.Sound) (hstack : s.stack = frame :: stack) {s' : EventEmitter α}
    (hevents : s'.events = s.events) (hclock : s'.clock = s.clock)
    (hframes : ∀ frame' ∈ s'.stack, frame'.began = frame.began ∨ frame' ∈ stack) : s'.Sound := by
  refine ⟨?_, ?_, ?_, ?_⟩
  · rw [hevents, hclock]
    exact h.older
  · rw [hevents]
    exact h.named
  · rw [hevents]
    exact h.nodup
  · intro frame' hframe'
    rw [hclock]
    have hbegan := h.began
    rw [hstack] at hbegan
    rcases hframes frame' hframe' with heq | hmem
    · rw [heq]
      exact hbegan frame List.mem_cons_self
    · exact hbegan frame' (List.mem_cons_of_mem frame hmem)

theorem Sound.goOn (h : s.Sound) (hstack : s.stack = frame :: stack) :
    (s.goOn frame stack).Sound := by
  refine h.of_stack hstack rfl rfl fun frame' hframe' ↦ ?_
  rcases List.mem_cons.mp hframe' with rfl | hframe'
  · exact .inl rfl
  · exact .inr hframe'

theorem Sound.tick (h : s.Sound) (hstack : s.stack = frame :: stack) :
    (s.tick frame stack).Sound := by
  unfold EventEmitter.tick
  split
  next =>
    refine h.of_stack hstack rfl rfl fun frame' hframe' ↦ ?_
    rcases List.mem_cons.mp hframe' with rfl | hframe'
    · exact .inl rfl
    · exact .inr hframe'
  next => exact h.of_stack hstack rfl rfl fun frame' hframe' ↦ .inr hframe'

theorem Sound.step (h : s.Sound) (a : EmitterAct α) : (s.step a).Sound := by
  show (s.act a).advance.Sound
  have heffect := s.effect a
  revert heffect
  generalize s.act a = s'
  intro heffect
  cases heffect with
  | idle => exact h.advance
  | push _ hnow => exact h.push hnow
  | remove name fn =>
    have hsplice := (h.splice name (isFunction fn)).advance
    exact ⟨hsplice.older, hsplice.named, hsplice.nodup, hsplice.began⟩
  | emit name args =>
    refine Sound.advance ⟨h.older, h.named, h.nodup, fun frame hframe ↦ ?_⟩
    rcases List.mem_cons.mp hframe with rfl | hframe
    · exact h.older name
    · exact h.began frame hframe
  | @ret frame stack entry hstack hrunning =>
    unfold EventEmitter.ret
    split
    next => exact ((h.goOn hstack).splice _ _).advance
    next => exact (h.goOn hstack).advance
  | throw hstack hrunning => exact (h.goOn hstack).advance
  | tick hstack hrunning => exact (h.tick hstack).advance

/-! ## What an action does to the loops -/

theorem delivers_push (hs : s.Sound) (hframe : frame ∈ s.stack) (name : String)
    (hnow : entry.since = s.clock) :
    (s.push name entry).Delivers frame ↔ s.Delivers frame := by
  refine and_congr_right fun _ ↦ ?_
  have hnew : entry ∉ frame.began := by
    intro hold
    have holder := hs.began frame hframe entry hold
    omega
  unfold ahead
  rw [events_push]
  split
  next =>
    rw [List.drop_append]
    by_cases hend : frame.next ≤ (s.events frame.name).length
    · rw [Nat.sub_eq_zero_of_le hend, List.drop_zero]
      exact onCourse_push_iff hnew
    · -- the loop is past the end of the array
      have hnil : List.drop (frame.next - (s.events frame.name).length) [entry] = [] := by
        apply List.drop_eq_nil_of_le
        rw [List.length_singleton]
        omega
      rw [hnil, List.append_nil]
  next => exact Iff.rfl

theorem allDeliver_push (hs : s.Sound) (h : s.AllDeliver) (name : String)
    (hnow : entry.since = s.clock) : (s.push name entry).AllDeliver := by
  have hsame := SameFrames.push s name entry
  unfold AllDeliver
  rw [hsame.stack, hsame.finished]
  exact ⟨fun frame hframe ↦ (delivers_push hs hframe name hnow).mpr (h.1 frame hframe), h.2⟩

-- Every loop of the event loses what `Spares` speaks of.
theorem delivers_splice_iff (h : ∀ frame ∈ s.stack, s.Delivers frame) (name : String)
    (same : Registration → Bool) :
    (∀ frame ∈ s.stack, (s.splice name same).Delivers frame) ↔ s.Spares name same := by
  unfold Spares
  cases hfind : (s.events name).findIdx? same with
  | none =>
    rw [splice_eq_of_none hfind]
    exact iff_of_true h fun i hi ↦ by cases hi
  | some i =>
    have hlen : i < (s.events name).length :=
      (List.findIdx?_eq_some_iff_getElem.mp hfind).1
    have hone : ∀ frame ∈ s.stack, ((s.splice name same).Delivers frame ↔ (frame.name = name →
        ∀ entry ∈ lost (s.events name) frame.next i, entry ∉ frame.began)) := by
      intro frame hframe
      have hold := h frame hframe
      unfold Delivers ahead at hold ⊢
      rw [splice_eq_of_some hfind, events_setEvents, and_iff_right hold.1]
      by_cases hname : frame.name = name
      · rw [hname] at hold
        rw [if_pos hname, imp_iff_right hname]
        exact OnCourse.eraseIdx_iff hlen hold.2
      · rw [if_neg hname]
        exact iff_of_true hold.2 fun h ↦ absurd h hname
    constructor
    · intro hall j hj frame hframe
      obtain rfl : i = j := Option.some.inj hj
      exact (hone frame hframe).mp (hall frame hframe)
    · intro hall frame hframe
      exact (hone frame hframe).mpr (hall i rfl frame hframe)

theorem allDeliver_splice_iff (h : s.AllDeliver) (name : String) (same : Registration → Bool) :
    (s.splice name same).AllDeliver ↔ s.Spares name same := by
  have hsame := SameFrames.splice s name same
  unfold AllDeliver
  rw [hsame.stack, hsame.finished, and_iff_left h.2]
  exact delivers_splice_iff h.1 name same

-- A loop that goes on keeps what it has before it.
theorem allDeliver_goOn (h : s.AllDeliver) (hstack : s.stack = frame :: stack)
    (hrunning : frame.running = some entry) : (s.goOn frame stack).AllDeliver := by
  refine ⟨?_, h.2⟩
  have hall := h.1
  rw [hstack] at hall
  intro frame' hframe'
  rcases List.mem_cons.mp hframe' with rfl | hframe'
  · have hframe := hall frame List.mem_cons_self
    unfold Delivers ahead EmitFrame.next at hframe ⊢
    rw [hrunning] at hframe
    exact hframe
  · exact hall frame' (List.mem_cons_of_mem frame hframe')

theorem spares_goOn_iff (hstack : s.stack = frame :: stack) (hrunning : frame.running = some entry)
    (name : String) (same : Registration → Bool) :
    (s.goOn frame stack).Spares name same ↔ s.Spares name same := by
  have hnext : EmitFrame.next { frame with index := frame.index + 1, running := none } =
      frame.next := by
    unfold EmitFrame.next
    rw [hrunning]
    rfl
  unfold Spares goOn
  rw [hstack]
  dsimp only
  refine forall_congr' fun i ↦ imp_congr_right fun _ ↦ ?_
  rw [List.forall_mem_cons, List.forall_mem_cons, hnext]

theorem allDeliver_tick (h : s.AllDeliver) (hstack : s.stack = frame :: stack)
    (hrunning : frame.running = none) : (s.tick frame stack).AllDeliver := by
  have hall := h.1
  rw [hstack, List.forall_mem_cons] at hall
  obtain ⟨hframe, hrest⟩ := hall
  unfold Delivers ahead EmitFrame.next at hframe
  rw [hrunning] at hframe
  unfold tick
  cases hentry : (s.events frame.name)[frame.index]? with
  | some entry =>
    refine ⟨List.forall_mem_cons.mpr ⟨⟨hframe.1, ?_⟩, hrest⟩, h.2⟩
    obtain ⟨hlen, hget⟩ := List.getElem?_eq_some_iff.mp hentry
    have hcourse := hframe.2
    simp only [Option.isSome_none, Bool.false_eq_true, if_false] at hcourse
    rw [List.drop_eq_getElem_cons hlen, hget] at hcourse
    exact onCourse_visit_iff.mpr hcourse
  | none =>
    refine ⟨hrest, List.forall_mem_cons.mpr ⟨⟨hframe.1, ?_⟩, h.2⟩⟩
    have hcourse := hframe.2
    simp only [Option.isSome_none, Bool.false_eq_true, if_false] at hcourse
    rw [List.drop_eq_nil_of_le (List.getElem?_eq_none_iff.mp hentry)] at hcourse
    exact onCourse_end_iff.mp hcourse

theorem allDeliver_emit (hs : s.Sound) (h : s.AllDeliver) (name : String) (args : α) :
    (s.emit name args).AllDeliver := by
  refine ⟨List.forall_mem_cons.mpr ⟨⟨hs.nodup name, ?_⟩, h.1⟩, h.2⟩
  exact onCourse_start (s.events name)

theorem allDeliver_step_iff (hs : s.Sound) (h : s.AllDeliver) (a : EmitterAct α) :
    (s.step a).AllDeliver ↔ s.Undisturbed a := by
  show (s.act a).AllDeliver ↔ s.Undisturbed a
  have heffect := s.effect a
  revert heffect
  generalize s.act a = s'
  intro heffect
  cases heffect with
  | idle hnone => exact iff_of_true h hnone
  | push hnone hnow => exact iff_of_true (allDeliver_push hs h _ hnow) hnone
  | remove name fn hcode => exact (allDeliver_splice_iff h name _).trans (imp_iff_right hcode).symm
  | emit name args => exact iff_of_true (allDeliver_emit hs h name args) trivial
  | @ret frame stack entry hstack hrunning =>
    have hon := allDeliver_goOn h hstack hrunning
    unfold Undisturbed ret
    rw [hstack]
    simp only [List.head?_cons, Option.mem_def, Option.some.injEq, forall_eq', hrunning]
    by_cases honce : entry.once
    · rw [if_pos honce, imp_iff_right honce, ← spares_goOn_iff hstack hrunning]
      exact allDeliver_splice_iff hon entry.name _
    · rw [if_neg honce]
      exact iff_of_true hon fun h ↦ absurd h honce
  | throw hstack hrunning => exact iff_of_true (allDeliver_goOn h hstack hrunning) trivial
  | tick hstack hrunning => exact iff_of_true (allDeliver_tick h hstack hrunning) trivial

/-! ## Runs -/

theorem allDeliver_new : (new : EventEmitter α).AllDeliver := by
  constructor <;> intro frame hframe <;> cases hframe

/-- In a run of a new emitter, every `emit` that has ended has called the listeners that were registered
when it began, each once and in order, and every one in progress has the rest of them before it, all
along the run, exactly when every removal spares every `emit` in progress. -/
theorem all_emits_deliver_iff (acts : List (EmitterAct α)) :
    Runs.Along (fun s a ↦ some (step s a)) (fun _ _ s' ↦ s'.AllDeliver) new acts ↔
      Runs.Guarded (fun s a ↦ some (step s a)) Undisturbed new acts := by
  have hinit : (new : EventEmitter α).Sound ∧ (new : EventEmitter α).AllDeliver :=
    ⟨Sound.new, allDeliver_new⟩
  refine Runs.along_iff_guarded (I := fun s ↦ s.Sound ∧ s.AllDeliver) ?_ ?_ hinit
  · intro s a h hundisturbed
    have hdeliver := (allDeliver_step_iff h.1 h.2 a).mpr hundisturbed
    exact ⟨s.step a, rfl, hdeliver, h.1.step a, hdeliver⟩
  · intro s a s' h hstep hdeliver
    rw [← Option.some.inj hstep] at hdeliver
    exact (allDeliver_step_iff h.1 h.2 a).mp hdeliver

/-- A `once` listener and another one behind it, which the `emit` does not call. -/
def onceThenOn : List (EmitterAct Unit) :=
  [.once "data" 1, .on "data" 2, .emit "data" (), .tick, .ret, .tick]

/-- An `emit` that ends without a call of a listener that was there when it began. -/
theorem emit_skips_listener :
    ¬ ∀ acts : List (EmitterAct Unit), ∀ frame ∈ (new.run acts).finished, Delivered frame := by
  intro h
  have hrun : (new.run onceThenOn).finished =
      [⟨"data", (), 2, 1, none, [⟨"data", 1, true, 0⟩, ⟨"data", 2, false, 1⟩],
        [⟨"data", 1, true, 0⟩]⟩] := rfl
  have hskipped := (h onceThenOn _ (by rw [hrun]; exact List.mem_singleton_self _)).2
  exact absurd hskipped (by decide)

end

end EventEmitter

end QNode.ChildProcess
