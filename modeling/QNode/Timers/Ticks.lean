import QNode.Timers.Clearing

/-!
# The timer of an interval

Each tick sets the next timer of its interval by hand, after the callback.  When the callback returns,
the interval has one timer again; when it throws, or another timer function takes the timer away, it
has none and never fires again.
-/

namespace QNode.Timers

/-- The interval whose tick runs in the frame, or which `setInterval` is setting. -/
def Frame.tickOf : Frame → Option Nat
  | .callback (.interval h) => some h
  | .setting (.tick h) => some h
  | _ => none

namespace State

def ticking (s : State) (h : Nat) : Bool := s.stack.any (·.tickOf = some h)

def tickTimers (s : State) (h : Nat) : List JSOSTimer := s.osTimers.filter (·.func = .tick h)

/-- An interval that `setInterval` has returned, that is not cleared and does not tick at the moment,
has exactly one pending timer, and its id is that in the handle. -/
def OnePending (s : State) : Prop :=
  ∀ h, (s.intervals h).id ≠ 0 → (s.intervals h).active → ¬ s.ticking h →
    s.tickTimers h = [⟨(s.intervals h).id, .tick h⟩]

/-- The timer that a call of a clear function frees. -/
def freed (s : State) : ClearFunction → ClearArg → Option JSOSTimer
  | .interval, .interval h => (s.findTimerById (s.intervals h).id).bind (s.osTimers[·]?)
  | _, arg => (s.findTimerById arg.toInt32).bind (s.osTimers[·]?)

/-- No tick of an active interval ends with an exception, and no clear function frees the timer of an
active interval other than the one it is called with. -/
def TicksReturn (s : State) : Act → Prop
  | .throw => ∀ frame ∈ s.stack.head?, ∀ h, frame.tickOf = some h → (s.intervals h).active →
      (s.intervals h).id = 0
  | .clear f arg => s.codeRuns → s.has arg → ∀ th ∈ s.freed f arg, ∀ h, th.func = .tick h →
      (s.intervals h).active → f = .interval ∧ arg = .interval h
  | _ => True

/-- At most one frame is about an interval; one that runs a callback is about an interval that has
been returned. -/
structure Frames (s : State) : Prop where
  nested : s.stack.Pairwise fun above below ↦ ∀ h, below.tickOf = some h → above.tickOf ≠ some h
  made : ∀ frame ∈ s.stack, ∀ h, frame.tickOf = some h → h < s.made
  returned : ∀ h, .callback (.interval h) ∈ s.stack → (s.intervals h).id ≠ 0
  new : ∀ h, (s.intervals h).id ≠ 0 → h < s.made

/-- The timers of the active intervals. -/
structure Ticks (s : State) : Prop extends Frames s where
  next : s.nextTimerId ≠ 0
  timers : ∀ h, (s.intervals h).active → s.tickTimers h =
    if (s.intervals h).id ≠ 0 ∧ ¬ s.ticking h then [⟨(s.intervals h).id, .tick h⟩] else []

variable {s t : State}

theorem Ticks.onePending (hs : s.Ticks) : s.OnePending := by
  intro h hid hactive hidle
  rw [hs.timers h hactive, if_pos ⟨hid, hidle⟩]

theorem Ticks.start : Timers.start.Ticks where
  nested := List.Pairwise.nil
  made _ h := absurd h List.not_mem_nil
  returned _ h := absurd h List.not_mem_nil
  new _ h := absurd rfl h
  next := Nat.one_ne_zero
  timers _ _ := rfl

-- Intervals that stay active keep their timers, and tick as before unless they were never returned.
theorem Ticks.of_same (hs : s.Ticks) (hframes : t.Frames) (hnext : t.nextTimerId ≠ 0)
    (hsame : ∀ h, (t.intervals h).active → (s.intervals h).active ∧
      t.tickTimers h = s.tickTimers h ∧ (t.intervals h).id = (s.intervals h).id ∧
      ((s.intervals h).id = 0 ∨ t.ticking h = s.ticking h)) : t.Ticks where
  toFrames := hframes
  next := hnext
  timers := by
    intro h hactive
    obtain ⟨hactive', htimers, hid, hticking⟩ := hsame h hactive
    rw [htimers, hs.timers h hactive', hid]
    rcases hticking with hzero | hticking
    · rw [if_neg (fun hand ↦ hand.1 hzero), if_neg (fun hand ↦ hand.1 hzero)]
    · rw [hticking]

theorem tickTimers_arm (func : Func) (h : Nat) : (s.arm func).tickTimers h =
    s.tickTimers h ++ if func = .tick h then [⟨s.nextTimerId, func⟩] else [] := by
  unfold tickTimers
  rw [arm_osTimers, List.filter_append]
  by_cases heq : func = .tick h
  · simp [heq]
  · simp [heq]

theorem tickTimers_free {i : Nat} {th : JSOSTimer} (hget : s.osTimers[i]? = some th) {h : Nat}
    (hne : th.func ≠ .tick h) : (s.freeTimer i).tickTimers h = s.tickTimers h := by
  obtain ⟨front, back, hold, hnew⟩ := freeTimer_split hget
  unfold tickTimers
  rw [hold, hnew, List.filter_append, List.filter_append, List.filter_cons, if_neg (by simpa using hne)]

-- The only timer of an interval has fired, or was cleared.
theorem tickTimers_free_self {i : Nat} {th : JSOSTimer} (hget : s.osTimers[i]? = some th) {h : Nat}
    (hth : th.func = .tick h) {th' : JSOSTimer} (hone : s.tickTimers h = [th']) :
    (s.freeTimer i).tickTimers h = [] := by
  obtain ⟨front, back, hold, hnew⟩ := freeTimer_split hget
  unfold tickTimers at hone ⊢
  rw [hold, List.filter_append, List.filter_cons, if_pos (by simpa using hth)] at hone
  rw [hnew, List.filter_append]
  rcases List.append_eq_singleton_iff.mp hone with ⟨hfront, hback⟩ | ⟨-, hback⟩
  · rw [hfront, (List.cons.inj hback).2]
    rfl
  · cases hback

/-! ## Frames -/

section

variable {frame : Frame} {stack : List Frame}

theorem ticking_of_stack (hstack : s.stack = frame :: stack) (h : Nat) :
    s.ticking h = (decide (frame.tickOf = some h) || stack.any (·.tickOf = some h)) := by
  unfold ticking
  rw [hstack, List.any_cons]

theorem ticking_top (hstack : s.stack = frame :: stack) {h : Nat} (hh : frame.tickOf = some h) :
    s.ticking h := by
  rw [ticking_of_stack hstack, decide_eq_true hh, Bool.true_or]

theorem Frames.not_ticking_below (hs : s.Frames) (hstack : s.stack = frame :: stack) {h : Nat}
    (hh : frame.tickOf = some h) : stack.any (·.tickOf = some h) = false := by
  have hnested := hs.nested
  rw [hstack, List.pairwise_cons] at hnested
  rw [List.any_eq_false]
  intro below hbelow htick
  exact hnested.1 below hbelow h (by simpa using htick) hh

theorem Frames.pop (hs : s.Frames) (hstack : s.stack = frame :: stack) :
    { s with stack := stack }.Frames where
  nested := by
    have hnested := hs.nested
    rw [hstack] at hnested
    exact hnested.of_cons
  made below hbelow := hs.made below (by rw [hstack]; exact List.mem_cons_of_mem _ hbelow)
  returned h hh := hs.returned h (by rw [hstack]; exact List.mem_cons_of_mem _ hh)
  new := hs.new

theorem Frames.push (hs : s.Frames) (hmade : ∀ h, frame.tickOf = some h → h < s.made)
    (hidle : ∀ h, frame.tickOf = some h → ¬ s.ticking h)
    (hreturned : ∀ h, frame = .callback (.interval h) → (s.intervals h).id ≠ 0) :
    { s with stack := frame :: s.stack }.Frames where
  nested := by
    refine List.pairwise_cons.mpr ⟨fun below hbelow h hh hframe ↦ hidle h hframe ?_, hs.nested⟩
    exact List.any_eq_true.mpr ⟨below, hbelow, by simpa using hh⟩
  made below hbelow := by
    rcases List.mem_cons.mp hbelow with rfl | hbelow
    · exact hmade
    · exact hs.made below hbelow
  returned h hh := by
    rcases List.mem_cons.mp hh with heq | hh
    · exact hreturned h heq.symm
    · exact hs.returned h hh
  new := hs.new

-- A frame that is about no interval.
theorem Ticks.push_other (hs : s.Ticks) (hother : frame.tickOf = none) :
    { s with stack := frame :: s.stack }.Ticks := by
  refine hs.of_same (hs.toFrames.push ?_ ?_ ?_) hs.next ?_
  · intro h hh
    rw [hother] at hh
    cases hh
  · intro h hh
    rw [hother] at hh
    cases hh
  · rintro h rfl
    cases hother
  · refine fun h hactive ↦ ⟨hactive, rfl, rfl, .inr ?_⟩
    rw [ticking_of_stack rfl, hother]
    rfl

-- The frame was not the tick of an active interval, or `setInterval` has failed.
theorem Ticks.pop (hs : s.Ticks) (hstack : s.stack = frame :: stack)
    (hframe : ∀ h, frame.tickOf = some h → (s.intervals h).active → (s.intervals h).id = 0) :
    { s with stack := stack }.Ticks := by
  refine hs.of_same (hs.toFrames.pop hstack) hs.next fun h hactive ↦ ⟨hactive, rfl, rfl, ?_⟩
  by_cases htick : frame.tickOf = some h
  · exact .inl (hframe h htick hactive)
  · right
    rw [ticking_of_stack hstack, decide_eq_false htick, Bool.false_or]
    rfl

end

theorem arm_next_ne_zero (s : State) (func : Func) : (s.arm func).nextTimerId ≠ 0 := by
  rw [arm_nextTimerId]
  split
  · exact Nat.one_ne_zero
  · exact Nat.succ_ne_zero _

theorem Ticks.arm_other (hs : s.Ticks) {func : Func} (hother : ∀ h, func ≠ .tick h) :
    (s.arm func).Ticks := by
  have hintervals : (s.arm func).intervals = s.intervals := by
    funext h
    rw [arm_intervals, if_neg (hother h)]
  have hstack : (s.arm func).stack = s.stack := arm_stack s func
  have hmade : (s.arm func).made = s.made := arm_made s func
  refine hs.of_same ?_ (s.arm_next_ne_zero func) ?_
  · constructor
    · rw [hstack]
      exact hs.nested
    · rw [hstack, hmade]
      exact hs.made
    · rw [hstack, hintervals]
      exact hs.returned
    · rw [hintervals, hmade]
      exact hs.new
  · intro h hactive
    rw [hintervals] at hactive ⊢
    refine ⟨hactive, ?_, rfl, .inr ?_⟩
    · rw [tickTimers_arm, if_neg (hother h), List.append_nil]
    · unfold ticking
      rw [hstack]

-- The timer that an interval lacks while it ticks is set.
theorem Ticks.arm_tick (hs : s.Ticks) {h : Nat} {stack : List Frame}
    (hstack : s.stack = .setting (.tick h) :: stack) :
    ({ s with stack := stack }.arm (.tick h)).Ticks := by
  have hpop := hs.toFrames.pop hstack
  have hbelow := hs.toFrames.not_ticking_below hstack rfl
  have hh : h < s.made := hs.made _ (by rw [hstack]; exact List.mem_cons_self) h rfl
  refine ⟨⟨?_, ?_, ?_, ?_⟩, arm_next_ne_zero _ _, ?_⟩
  · rw [arm_stack]
    exact hpop.nested
  · rw [arm_stack, arm_made]
    exact hpop.made
  · intro h' hmem
    rw [arm_stack] at hmem
    rw [arm_intervals]
    split
    · exact hs.next
    · exact hpop.returned h' hmem
  · intro h' hid
    rw [arm_intervals] at hid
    rw [arm_made]
    split at hid
    next heq =>
      obtain rfl := Func.tick.inj heq
      exact hh
    next => exact hs.new h' hid
  · intro h' hactive
    have hticking : ({ s with stack := stack }.arm (.tick h)).ticking h' =
        stack.any (·.tickOf = some h') := by
      unfold ticking
      rw [arm_stack]
    rw [arm_intervals] at hactive ⊢
    rw [tickTimers_arm, hticking]
    show s.tickTimers h' ++ _ = _
    by_cases heq : h = h'
    · subst heq
      rw [if_pos rfl] at hactive ⊢
      have hold := hs.timers h hactive
      rw [if_neg (fun hand ↦ hand.2 (ticking_top hstack rfl))] at hold
      rw [hold, if_pos rfl, if_pos ⟨hs.next, by rw [hbelow]; exact Bool.false_ne_true⟩]
      rfl
    · have hne : Func.tick h ≠ .tick h' := fun hf ↦ heq (Func.tick.inj hf)
      rw [if_neg hne] at hactive ⊢
      have hframe : decide (Frame.tickOf (.setting (.tick h)) = some h') = false := by
        simpa [Frame.tickOf] using heq
      rw [if_neg hne, List.append_nil, hs.timers h' hactive, ticking_of_stack hstack, hframe,
        Bool.false_or]

-- `setInterval` makes an interval that has no timer yet.
theorem Ticks.setInterval (hs : s.Ticks) : s.setInterval.Ticks := by
  have hid : (s.intervals s.made).id = 0 := by
    by_contra hne
    exact Nat.lt_irrefl _ (hs.new s.made hne)
  have hidle : ¬ s.ticking s.made := by
    intro htick
    obtain ⟨frame, hframe, hh⟩ := List.any_eq_true.mp htick
    exact Nat.lt_irrefl _ (hs.made frame hframe s.made (by simpa using hh))
  let t : State := { s with made := s.made + 1 }
  have ht : t.Frames := by
    refine ⟨hs.nested, fun frame hframe h hh ↦ ?_, hs.returned, fun h hne ↦ ?_⟩
    · exact Nat.lt_succ_of_lt (hs.made frame hframe h hh)
    · exact Nat.lt_succ_of_lt (hs.new h hne)
  have hframes : s.setInterval.Frames := by
    apply ht.push
    · rintro h ⟨⟩
      exact Nat.lt_succ_self _
    · rintro h ⟨⟩
      exact hidle
    · rintro h ⟨⟩
  refine hs.of_same hframes hs.next fun h hactive ↦ ⟨hactive, rfl, rfl, ?_⟩
  by_cases heq : s.made = h
  · subst heq
    exact .inl hid
  · have hframe : decide (Frame.tickOf (.setting (.tick s.made)) = some h) = false := by
      simpa [Frame.tickOf] using heq
    right
    rw [ticking_of_stack rfl, hframe, Bool.false_or]
    rfl

/-! ## Freeing a timer -/

section

variable {i : Nat} {th : JSOSTimer}

theorem Frames.freeTimer (hs : s.Frames) (i : Nat) : (s.freeTimer i).Frames :=
  ⟨hs.nested, hs.made, hs.returned, hs.new⟩

-- The timer was of no active interval.
theorem Ticks.freeTimer (hs : s.Ticks) (hget : s.osTimers[i]? = some th)
    (hth : ∀ h, th.func = .tick h → ¬ (s.intervals h).active) : (s.freeTimer i).Ticks :=
  hs.of_same (hs.toFrames.freeTimer i) hs.next fun h hactive ↦
    ⟨hactive, tickTimers_free hget fun heq ↦ hth h heq hactive, rfl, .inr rfl⟩

-- An active interval has no timer but its own.
theorem Ticks.tickTimers_eq (hs : s.Ticks) (hget : s.osTimers[i]? = some th) {h : Nat}
    (hth : th.func = .tick h) (hactive : (s.intervals h).active) :
    ((s.intervals h).id ≠ 0 ∧ ¬ s.ticking h) ∧ (s.freeTimer i).tickTimers h = [] := by
  have htimers := hs.timers h hactive
  have hmem : th ∈ s.tickTimers h :=
    List.mem_filter.mpr ⟨List.mem_of_getElem? hget, by simpa using hth⟩
  by_cases hand : (s.intervals h).id ≠ 0 ∧ ¬ s.ticking h
  · rw [if_pos hand] at htimers
    exact ⟨hand, tickTimers_free_self hget hth htimers⟩
  · rw [if_neg hand] at htimers
    rw [htimers] at hmem
    cases hmem

-- The timer of an active interval fires.
theorem Ticks.call_tick (hs : s.Ticks) (hget : s.osTimers[i]? = some th) {h : Nat}
    (hth : th.func = .tick h) (hactive : (s.intervals h).active) :
    { s.freeTimer i with stack := .callback (.interval h) :: s.stack }.Ticks := by
  obtain ⟨⟨hid, hidle⟩, hnone⟩ := hs.tickTimers_eq hget hth hactive
  refine ⟨(hs.toFrames.freeTimer i).push ?_ ?_ ?_, hs.next, fun h' hactive' ↦ ?_⟩
  · rintro h' ⟨⟩
    exact hs.new h hid
  · rintro h' ⟨⟩
    exact hidle
  · rintro h' ⟨⟩
    exact hid
  · by_cases heq : h = h'
    · subst heq
      rw [if_neg fun hand ↦ hand.2 (ticking_top rfl rfl)]
      exact hnone
    · have hframe : decide (Frame.tickOf (.callback (.interval h)) = some h') = false := by
        simpa [Frame.tickOf] using heq
      have htimers := hs.timers h' hactive'
      have hfree := tickTimers_free hget (h := h') fun hf ↦ heq (Func.tick.inj (hth.symm.trans hf))
      rw [ticking_of_stack rfl, hframe, Bool.false_or]
      exact hfree.trans htimers

theorem Ticks.jsOsPoll (hs : s.Ticks) (i : Nat) : (s.jsOsPoll i).Ticks := by
  unfold State.jsOsPoll
  cases hget : s.osTimers[i]? with
  | none => exact hs
  | some th =>
    show ((s.freeTimer i).callHandler th).Ticks
    rcases (s.freeTimer i).callHandler_cases th with ⟨h, hfunc, hinactive, heq⟩ | ⟨hactive, heq⟩
    · rw [heq]
      refine hs.freeTimer hget fun h' hfunc' ↦ ?_
      obtain rfl := Func.tick.inj (hfunc.symm.trans hfunc')
      exact hinactive
    · rw [heq]
      cases hfunc : th.func with
      | tick h =>
        have hhandle : th.handle = .interval h := by simp [JSOSTimer.handle, hfunc]
        rw [hhandle]
        exact hs.call_tick hget hfunc (hactive h hfunc)
      | timeout =>
        have hfree := hs.freeTimer hget fun h heq ↦ by simp [hfunc] at heq
        apply hfree.push_other
        simp [JSOSTimer.handle, hfunc, Frame.tickOf]
      | immediate =>
        have hfree := hs.freeTimer hget fun h heq ↦ by simp [hfunc] at heq
        apply hfree.push_other
        simp [JSOSTimer.handle, hfunc, Frame.tickOf]

/-! ## Clearing -/

-- A clear keeps every interval supplied precisely if the timer it frees is of no active interval.
theorem Ticks.jsOsClearTimeout (hs : s.Ticks) {timerId : Int}
    (hth : ∀ th ∈ (s.findTimerById timerId).bind (s.osTimers[·]?), ∀ h, th.func = .tick h →
      ¬ (s.intervals h).active) : (s.jsOsClearTimeout timerId).Ticks := by
  unfold State.jsOsClearTimeout
  cases hfind : s.findTimerById timerId with
  | none => exact hs
  | some i =>
    obtain ⟨th, hget, -⟩ := findTimerById_some hfind
    refine hs.freeTimer hget (hth th ?_)
    rw [hfind]
    exact hget

theorem Ticks.of_jsOsClearTimeout (hs : s.Ticks) {timerId : Int}
    (hone : (s.jsOsClearTimeout timerId).OnePending) :
    ∀ th ∈ (s.findTimerById timerId).bind (s.osTimers[·]?), ∀ h, th.func = .tick h →
      ¬ (s.intervals h).active := by
  intro th hmem h hth hactive
  unfold State.jsOsClearTimeout at hone
  cases hfind : s.findTimerById timerId with
  | none =>
    rw [hfind] at hmem
    cases hmem
  | some i =>
    rw [hfind] at hmem hone
    obtain ⟨⟨hid, hidle⟩, hnone⟩ := hs.tickTimers_eq hmem hth hactive
    have hpending := hone h hid hactive hidle
    change (s.freeTimer i).tickTimers h = _ at hpending
    rw [hnone] at hpending
    cases hpending

theorem Ticks.deactivate (hs : s.Ticks) (h : Nat) : (s.deactivate h).Ticks := by
  refine hs.of_same ⟨hs.nested, hs.made, ?_, ?_⟩ hs.next fun h' hactive ↦ ?_
  · intro h' hmem
    rw [deactivate_id]
    exact hs.returned h' hmem
  · intro h' hid
    rw [deactivate_id] at hid
    exact hs.new h' hid
  · refine ⟨?_, rfl, deactivate_id s h h', .inr rfl⟩
    by_cases heq : h' = h
    · simp [State.deactivate, heq] at hactive
    · simpa [State.deactivate, heq] using hactive

theorem clear_object_number {f : ClearFunction} {arg : ClearArg}
    (hne : ∀ h, ¬ (f = .interval ∧ arg = .interval h)) :
    s.clear f arg = s.jsOsClearTimeout arg.toInt32 ∧
      s.freed f arg = (s.findTimerById arg.toInt32).bind (s.osTimers[·]?) := by
  constructor
  · unfold clear
    split
    next h => exact absurd ⟨rfl, rfl⟩ (hne h)
    next => rfl
  · unfold freed
    split
    next h => exact absurd ⟨rfl, rfl⟩ (hne h)
    next => rfl

theorem Ticks.clear (hs : s.Ticks) {f : ClearFunction} {arg : ClearArg}
    (hfreed : ∀ th ∈ s.freed f arg, ∀ h, th.func = .tick h → (s.intervals h).active →
      f = .interval ∧ arg = .interval h) : (s.clear f arg).Ticks := by
  by_cases hself : ∃ h, f = .interval ∧ arg = .interval h
  · obtain ⟨h, rfl, rfl⟩ := hself
    refine (hs.deactivate h).jsOsClearTimeout fun th hmem h' hth hactive ↦ ?_
    by_cases heq : h' = h
    · simp [State.deactivate, heq] at hactive
    · have hactive' : (s.intervals h').active := by
        simpa [State.deactivate, heq] using hactive
      exact heq (ClearArg.interval.inj (hfreed th hmem h' hth hactive').2).symm
  · obtain ⟨hclear, heq⟩ := clear_object_number (s := s) (not_exists.mp hself)
    rw [hclear]
    refine hs.jsOsClearTimeout fun th hmem h hth hactive ↦ ?_
    exact hself ⟨h, hfreed th (by rw [heq]; exact hmem) h hth hactive⟩

theorem Ticks.of_clear (hs : s.Ticks) {f : ClearFunction} {arg : ClearArg}
    (hone : (s.clear f arg).OnePending) : ∀ th ∈ s.freed f arg, ∀ h, th.func = .tick h →
      (s.intervals h).active → f = .interval ∧ arg = .interval h := by
  intro th hmem h hth hactive
  by_cases hself : ∃ h, f = .interval ∧ arg = .interval h
  · obtain ⟨h', rfl, rfl⟩ := hself
    have hinactive := (hs.deactivate h').of_jsOsClearTimeout hone th hmem h hth
    refine ⟨rfl, congrArg _ ?_⟩
    by_contra hne
    apply hinactive
    simpa [State.deactivate, Ne.symm hne] using hactive
  · obtain ⟨hclear, heq⟩ := clear_object_number (s := s) (not_exists.mp hself)
    rw [hclear] at hone
    rw [heq] at hmem
    exact absurd hactive (hs.of_jsOsClearTimeout hone th hmem h hth)

end

/-! ## Steps and runs -/

-- After its callback an interval goes on to set its timer.
theorem Ticks.rearm (hs : s.Ticks) {h : Nat} {stack : List Frame}
    (hstack : s.stack = .callback (.interval h) :: stack) :
    { s with stack := .setting (.tick h) :: stack }.Ticks := by
  have hpop := hs.toFrames.pop hstack
  have hbelow := hs.toFrames.not_ticking_below hstack rfl
  have hframes : { s with stack := .setting (.tick h) :: stack }.Frames := by
    apply hpop.push
    · rintro h' ⟨⟩
      exact hs.made _ (by rw [hstack]; exact List.mem_cons_self) h rfl
    · rintro h' ⟨⟩
      exact ne_true_of_eq_false hbelow
    · rintro h' ⟨⟩
  refine hs.of_same hframes hs.next fun h' hactive ↦ ⟨hactive, rfl, rfl, .inr ?_⟩
  rw [ticking_of_stack rfl, ticking_of_stack hstack]
  rfl

theorem Ticks.ret (hs : s.Ticks) : s.ret.Ticks := by
  unfold State.ret
  split
  next => exact hs
  next func stack hstack =>
    cases func with
    | tick h => exact hs.arm_tick hstack
    | timeout => exact (hs.pop hstack fun _ h ↦ by cases h).arm_other fun _ h ↦ by cases h
    | immediate => exact (hs.pop hstack fun _ h ↦ by cases h).arm_other fun _ h ↦ by cases h
  next h stack hstack =>
    by_cases hactive : (s.intervals h).active
    · rw [if_pos hactive]
      exact hs.rearm hstack
    · rw [if_neg hactive]
      refine hs.pop hstack fun h' hh hactive' ↦ ?_
      cases hh
      exact absurd hactive' hactive
  next frame stack hsetting hcallback hstack =>
    refine hs.pop hstack fun h hh ↦ ?_
    unfold Frame.tickOf at hh
    split at hh
    next h' => exact absurd rfl (hcallback h')
    next h' => exact absurd rfl (hsetting (.tick h'))
    next => cases hh

theorem Ticks.throw (hs : s.Ticks) (hframe : s.TicksReturn .throw) : s.throw.Ticks := by
  cases hstack : s.stack with
  | nil =>
    have hsame : s.throw = s := by
      unfold State.throw
      rw [hstack, List.tail_nil, ← hstack]
    rw [hsame]
    exact hs
  | cons frame stack =>
    have hpop := hs.pop hstack fun h hh hactive ↦
      hframe frame (by rw [hstack]; rfl) h hh hactive
    unfold State.throw
    rw [hstack]
    exact hpop

-- The interval of a tick that has ended with an exception has no timer.
theorem Ticks.of_throw (hs : s.Ticks) (hone : s.throw.OnePending) : s.TicksReturn .throw := by
  intro frame hmem h hh hactive
  by_contra hid
  cases hstack : s.stack with
  | nil =>
    rw [hstack] at hmem
    cases hmem
  | cons top stack =>
    rw [hstack] at hmem
    obtain rfl : top = frame := Option.some.inj hmem
    have hidle : s.throw.ticking h = false := by
      unfold ticking State.throw
      rw [hstack]
      exact hs.toFrames.not_ticking_below hstack hh
    have htimers := hs.timers h hactive
    rw [if_neg fun hand ↦ hand.2 (ticking_top hstack hh)] at htimers
    have hpending := hone h hid hactive (ne_true_of_eq_false hidle)
    change s.tickTimers h = _ at hpending
    rw [htimers] at hpending
    cases hpending

theorem Ticks.step (hs : s.Ticks) {a : Act} (hreturn : s.TicksReturn a) : (s.step a).Ticks := by
  have hcond : ∀ {c : Bool} {t : State}, t.Ticks → (if c then t else s).Ticks := by
    intro c t ht
    cases c with
    | false => exact hs
    | true => exact ht
  cases a with
  | script =>
    show (if s.codeRuns then s else { s with stack := [.script] }).Ticks
    cases hruns : s.codeRuns with
    | false =>
      have hnil : s.stack = [] := by simpa [codeRuns] using hruns
      rw [← hnil]
      exact hs.push_other rfl
    | true => exact hs
  | fire i =>
    show (if s.codeRuns then s else s.jsOsPoll i).Ticks
    cases s.codeRuns with
    | false => exact hs.jsOsPoll i
    | true => exact hs
  | setTimeout => exact hcond (hs.push_other rfl)
  | setImmediate => exact hcond (hs.arm_other fun _ h ↦ by cases h)
  | setInterval => exact hcond hs.setInterval
  | clear f arg =>
    show (if s.codeRuns && s.has arg then s.clear f arg else s).Ticks
    by_cases hc : s.codeRuns && s.has arg
    · rw [if_pos hc]
      obtain ⟨hruns, hhas⟩ := Bool.and_eq_true_iff.mp hc
      exact hs.clear (hreturn hruns hhas)
    · rw [if_neg hc]
      exact hs
  | ret => exact hs.ret
  | throw => exact hs.throw hreturn

theorem Ticks.of_step (hs : s.Ticks) {a : Act} (hone : (s.step a).OnePending) :
    s.TicksReturn a := by
  cases a with
  | throw => exact hs.of_throw hone
  | clear f arg =>
    intro hruns hhas
    change (if s.codeRuns && s.has arg then s.clear f arg else s).OnePending at hone
    rw [if_pos (by rw [hruns, hhas]; rfl)] at hone
    exact hs.of_clear hone
  | script => trivial
  | fire i => trivial
  | setTimeout => trivial
  | setImmediate => trivial
  | setInterval => trivial
  | ret => trivial

-- A handle frees its own timer only, so the second half of the condition is met by every call that
-- passes a handle, as long as the ids have not come round.
theorem Ids.ticksReturn (hs : s.Ids) (hfew : s.Few) {x : Handle} (hx : s.Known x)
    (f : ClearFunction) : s.TicksReturn (.clear f x.arg) := by
  intro _ _ th hmem h hth _
  have hnumber : ∀ {id : Nat} {func : Func}, s.Owner id func → func ≠ .tick h →
      th ∈ (s.findTimerById id).bind (s.osTimers[·]?) → False := by
    intro id func hid hfunc hmem
    obtain ⟨i, hfind, hget⟩ := Option.bind_eq_some_iff.mp hmem
    obtain ⟨th', hget', heq⟩ := findTimerById_some hfind
    obtain rfl : th' = th := Option.some.inj (hget'.symm.trans hget)
    have hown := hs.func_eq hid (List.mem_of_getElem? hget) (Int.ofNat.inj heq)
    rw [hown] at hth
    exact hfunc hth
  have hid : ∀ {id : Nat} {func : Func}, s.Owner id func → func ≠ .tick h →
      th ∈ s.freed f (.number id) → False := by
    intro id func hid hfunc hmem
    have heq : s.freed f (.number id) = (s.findTimerById (Word.int32 id)).bind (s.osTimers[·]?) := by
      cases f <;> rfl
    rw [heq, hid.int32 hfew] at hmem
    exact hnumber hid hfunc hmem
  cases x with
  | timeout id => exact (hid hx (fun h ↦ by cases h) hmem).elim
  | immediate id => exact (hid hx (fun h ↦ by cases h) hmem).elim
  | interval h' =>
    by_cases hself : f = .interval ∧ h' = h
    · exact ⟨hself.1, congrArg _ hself.2⟩
    · exfalso
      cases f with
      | interval =>
        exact hnumber (hs.intervals h' hx) (fun hf ↦ hself ⟨rfl, Func.tick.inj hf⟩) hmem
      | timeout => cases hmem
      | immediate => cases hmem

end State

/-- After every step of a run each interval that is not cleared and does not tick has exactly one
pending timer, with the id in its handle, precisely if in the run no tick of an interval that is not
cleared ends with an exception and no call of a clear function frees the timer of another such
interval. -/
theorem one_pending_iff (acts : List Act) :
    Runs.Along (fun s a ↦ some (s.step a)) (fun _ _ t ↦ t.OnePending) start acts ↔
      Runs.Guarded (fun s a ↦ some (s.step a)) State.TicksReturn start acts := by
  refine Runs.along_iff_guarded (I := State.Ticks) ?_ ?_ State.Ticks.start
  · intro s a hs hreturn
    exact ⟨_, rfl, (hs.step hreturn).onePending, hs.step hreturn⟩
  · rintro s a t hs ⟨⟩ hone
    exact hs.of_step hone

/-- The callback of an interval throws in its first call: the interval is not cleared and has no timer
any more. -/
theorem one_pending_throw :
    ¬ ∀ acts, (run acts).OnePending := by
  intro h
  have hpending := h [.script, .setInterval, .ret, .ret, .fire 0, .throw] 0 (by decide) (by decide)
    (by decide)
  revert hpending
  decide

end QNode.Timers
