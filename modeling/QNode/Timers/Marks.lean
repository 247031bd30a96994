import Mathlib.Data.List.GetD
import QNode.Timers.Clearing

/-!
# Timers by their order

Numbers come round, so in a long run a number does not tell a timer.  Here each pending timer is marked
with how many had been created before it; all else about it follows from that.
-/

namespace QNode.Timers

/-- The number of the timer that was created after `k` others. -/
def timerNumber (k : Nat) : Nat := k % (2 ^ 31 - 1) + 1

/-- What a timer function has returned: the number of a timer, or the object of an interval. -/
inductive Returned where
  | number (k : Nat)
  | object (h : Nat)
deriving DecidableEq, Repr

def Returned.arg : Returned → ClearArg
  | .number k => .number (timerNumber k)
  | .object h => .interval h

/-- A list without what stands at a position. -/
def removed {α : Type} (l : List α) : Option Nat → List α
  | none => l
  | some i => l.eraseIdx i

namespace State

def funcOf (s : State) (k : Nat) : Func := s.created.getD k .timeout

def timer (s : State) (k : Nat) : JSOSTimer := ⟨timerNumber k, s.funcOf k⟩

/-- The handle that was returned for a timer. -/
def returned (s : State) (k : Nat) : Returned :=
  match s.funcOf k with
  | .tick h => .object h
  | .timeout | .immediate => .number k

/-- The position of the timer that a clear function finds. -/
def clearedAt (s : State) : ClearFunction → ClearArg → Option Nat
  | .interval, .interval h => s.findTimerById (s.intervals h).id
  | _, arg => s.findTimerById arg.toInt32

/-- The position of the timer that a step frees. -/
def freedAt (s : State) : Act → Option Nat
  | .fire i => if s.codeRuns then none else some i
  | .clear f arg => if s.codeRuns && s.has arg then s.clearedAt f arg else none
  | _ => none

end State

/-- A state in which it is marked for each pending timer how many had been created before it. -/
structure Marked where
  state : State
  pending : List Nat

namespace Marked

def step (m : Marked) (a : Act) : Marked where
  state := m.state.step a
  pending := removed m.pending (m.state.freedAt a) ++
    List.range' m.state.created.length ((m.state.step a).created.length - m.state.created.length)

/-- The marks are true, and they are what tells the timers. -/
structure Sound (m : Marked) : Prop where
  next : m.state.nextTimerId = timerNumber m.state.created.length
  timers : m.state.osTimers = m.pending.map m.state.timer
  sorted : m.pending.Pairwise (· < ·)
  bound : ∀ k ∈ m.pending, k < m.state.created.length

end Marked

def marked (acts : List Act) : Marked := acts.foldl Marked.step ⟨start, []⟩

theorem removed_sublist {α : Type} (l : List α) (o : Option Nat) : (removed l o).Sublist l := by
  cases o with
  | none => exact List.Sublist.refl l
  | some i => exact List.eraseIdx_sublist l i

theorem map_removed {α β : Type} (f : α → β) (l : List α) (o : Option Nat) :
    removed (l.map f) o = (removed l o).map f := by
  cases o with
  | none => rfl
  | some i =>
    rw [removed, removed, List.eraseIdx_eq_take_drop_succ, List.eraseIdx_eq_take_drop_succ,
      List.map_append, List.map_take, List.map_drop]

namespace State

variable {s : State}

-- A clear function changes no more than a flag before it clears.
theorem clear_eq (s : State) (f : ClearFunction) (arg : ClearArg) :
    (s.clear f arg).osTimers = removed s.osTimers (s.clearedAt f arg) ∧
      (s.clear f arg).created = s.created ∧ (s.clear f arg).nextTimerId = s.nextTimerId := by
  have hclear : ∀ (t : State) (n : Int), (t.jsOsClearTimeout n).osTimers =
      removed t.osTimers (t.findTimerById n) ∧ (t.jsOsClearTimeout n).created = t.created ∧
        (t.jsOsClearTimeout n).nextTimerId = t.nextTimerId := by
    intro t n
    unfold jsOsClearTimeout
    cases t.findTimerById n <;> exact ⟨rfl, rfl, rfl⟩
  cases f with
  | timeout => exact hclear s arg.toInt32
  | immediate => exact hclear s arg.toInt32
  | interval =>
    cases arg with
    | number n => exact hclear s (Word.int32 n)
    | interval h => exact hclear (s.deactivate h) (s.intervals h).id

theorem clear_made (s : State) (f : ClearFunction) (arg : ClearArg) :
    (s.clear f arg).made = s.made ∧ ∀ h, ((s.clear f arg).intervals h).id = (s.intervals h).id := by
  have hclear : ∀ (t : State) (n : Int), (t.jsOsClearTimeout n).made = t.made := by
    intro t n
    unfold jsOsClearTimeout
    cases t.findTimerById n <;> rfl
  unfold clear
  split
  next h =>
    refine ⟨hclear _ _, fun h' ↦ ?_⟩
    rw [clear_intervals, deactivate_id]
  next =>
    refine ⟨hclear _ _, fun h' ↦ ?_⟩
    rw [clear_intervals]

theorem callHandler_timers (s : State) (th : JSOSTimer) :
    (s.callHandler th).osTimers = s.osTimers ∧ (s.callHandler th).created = s.created ∧
      (s.callHandler th).nextTimerId = s.nextTimerId := by
  cases s.callHandler_cases th with
  | inl h =>
    obtain ⟨_, -, -, heq⟩ := h
    rw [heq]
    exact ⟨rfl, rfl, rfl⟩
  | inr h =>
    rw [h.2]
    exact ⟨rfl, rfl, rfl⟩

-- What a step does to the timers: it frees at most one, or it sets one more.
theorem step_timers (s : State) (a : Act) :
    ((s.step a).osTimers = removed s.osTimers (s.freedAt a) ∧
      (s.step a).created = s.created ∧ (s.step a).nextTimerId = s.nextTimerId) ∨
    ∃ func, s.freedAt a = none ∧ (s.step a).osTimers = s.osTimers ++ [⟨s.nextTimerId, func⟩] ∧
      (s.step a).created = s.created ++ [func] ∧
      (s.step a).nextTimerId = if s.nextTimerId = 2 ^ 31 - 1 then 1 else s.nextTimerId + 1 := by
  have harm : ∀ (t : State) (func : Func), (t.arm func).osTimers =
      t.osTimers ++ [⟨t.nextTimerId, func⟩] ∧ (t.arm func).created = t.created ++ [func] ∧
        (t.arm func).nextTimerId = if t.nextTimerId = 2 ^ 31 - 1 then 1 else t.nextTimerId + 1 :=
    fun t func ↦ ⟨t.arm_osTimers func, t.arm_created func, t.arm_nextTimerId func⟩
  cases a with
  | fire i =>
    left
    unfold step freedAt
    cases s.codeRuns with
    | true => exact ⟨rfl, rfl, rfl⟩
    | false =>
      show (s.jsOsPoll i).osTimers = s.osTimers.eraseIdx i ∧ (s.jsOsPoll i).created = s.created ∧
        (s.jsOsPoll i).nextTimerId = s.nextTimerId
      unfold jsOsPoll
      cases hget : s.osTimers[i]? with
      | none => exact ⟨(List.eraseIdx_of_length_le (List.getElem?_eq_none_iff.mp hget)).symm, rfl, rfl⟩
      | some th => exact (s.freeTimer i).callHandler_timers th
  | clear f arg =>
    left
    unfold step freedAt
    dsimp only
    cases s.codeRuns && s.has arg with
    | true => exact s.clear_eq f arg
    | false => exact ⟨rfl, rfl, rfl⟩
  | setImmediate =>
    unfold step
    cases s.codeRuns with
    | true => exact Or.inr ⟨.immediate, rfl, harm s .immediate⟩
    | false => exact Or.inl ⟨rfl, rfl, rfl⟩
  | ret =>
    show (s.ret.osTimers = s.osTimers ∧ s.ret.created = s.created ∧
      s.ret.nextTimerId = s.nextTimerId) ∨ _
    unfold step ret
    split
    next => exact Or.inl ⟨rfl, rfl, rfl⟩
    next func stack _ => exact Or.inr ⟨func, rfl, harm { s with stack := stack } func⟩
    next h stack _ =>
      left
      split <;> exact ⟨rfl, rfl, rfl⟩
    next => exact Or.inl ⟨rfl, rfl, rfl⟩
  | script =>
    left
    unfold step
    cases s.codeRuns <;> exact ⟨rfl, rfl, rfl⟩
  | setTimeout =>
    left
    unfold step
    cases s.codeRuns <;> exact ⟨rfl, rfl, rfl⟩
  | setInterval =>
    left
    unfold step
    cases s.codeRuns <;> exact ⟨rfl, rfl, rfl⟩
  | throw => exact Or.inl ⟨rfl, rfl, rfl⟩

theorem timer_congr {t : State} (h : t.created = s.created) : t.timer = s.timer := by
  funext k
  rw [timer, timer, funcOf, funcOf, h]

theorem timer_append {func : Func} {t : State} (h : t.created = s.created ++ [func]) {k : Nat}
    (hk : k < s.created.length) : t.timer k = s.timer k := by
  rw [timer, timer, funcOf, funcOf, h, List.getD_append _ _ _ _ hk]

theorem timer_append_length {func : Func} {t : State} (h : t.created = s.created ++ [func]) :
    t.timer s.created.length = ⟨timerNumber s.created.length, func⟩ := by
  rw [timer, funcOf, h, List.getD_append_right _ _ _ _ (Nat.le_refl _), Nat.sub_self]
  rfl

end State

theorem timerNumber_succ (k : Nat) :
    (if timerNumber k = 2 ^ 31 - 1 then 1 else timerNumber k + 1) = timerNumber (k + 1) := by
  unfold timerNumber
  split <;> omega

namespace Marked

variable {m : Marked}

-- With a timer goes its mark, and with a new timer a new one.
theorem step_marks (m : Marked) (a : Act) :
    ((m.step a).pending = removed m.pending (m.state.freedAt a) ∧
      (m.step a).state.osTimers = removed m.state.osTimers (m.state.freedAt a) ∧
      (m.step a).state.created = m.state.created ∧
      (m.step a).state.nextTimerId = m.state.nextTimerId) ∨
    ∃ func, (m.step a).pending = m.pending ++ [m.state.created.length] ∧
      (m.step a).state.osTimers = m.state.osTimers ++ [⟨m.state.nextTimerId, func⟩] ∧
      (m.step a).state.created = m.state.created ++ [func] ∧
      (m.step a).state.nextTimerId =
        if m.state.nextTimerId = 2 ^ 31 - 1 then 1 else m.state.nextTimerId + 1 := by
  cases m.state.step_timers a with
  | inl h =>
    obtain ⟨htimers, hcreated, hnext⟩ := h
    refine Or.inl ⟨?_, htimers, hcreated, hnext⟩
    rw [step, hcreated, Nat.sub_self, List.range'_zero, List.append_nil]
  | inr h =>
    obtain ⟨func, hfreed, htimers, hcreated, hnext⟩ := h
    refine Or.inr ⟨func, ?_, htimers, hcreated, hnext⟩
    rw [step, hfreed, hcreated, List.length_append, Nat.add_sub_cancel_left]
    rfl

theorem Sound.step (hm : m.Sound) (a : Act) : (m.step a).Sound := by
  cases m.step_marks a with
  | inl h =>
    obtain ⟨hpending, htimers, hcreated, hnext⟩ := h
    have hsub : (m.step a).pending.Sublist m.pending := by
      rw [hpending]
      exact removed_sublist _ _
    constructor
    · rw [hnext, hcreated]
      exact hm.next
    · rw [htimers, hpending, State.timer_congr hcreated, ← map_removed, ← hm.timers]
    · exact hm.sorted.sublist hsub
    · intro k hk
      rw [hcreated]
      exact hm.bound k (hsub.subset hk)
  | inr h =>
    obtain ⟨func, hpending, htimers, hcreated, hnext⟩ := h
    have hlen : (m.step a).state.created.length = m.state.created.length + 1 := by
      rw [hcreated, List.length_append]
      rfl
    constructor
    · rw [hlen, ← timerNumber_succ, ← hm.next]
      exact hnext
    · have hold := List.map_congr_left fun k hk ↦ State.timer_append hcreated (hm.bound k hk)
      rw [hpending, List.map_append, List.map_singleton, State.timer_append_length hcreated, ← hm.next,
        hold, ← hm.timers]
      exact htimers
    · rw [hpending, List.pairwise_append]
      refine ⟨hm.sorted, List.pairwise_singleton _ _, ?_⟩
      intro k hk k' hk'
      rw [List.mem_singleton.mp hk']
      exact hm.bound k hk
    · intro k hk
      rw [hpending] at hk
      rw [hlen]
      cases List.mem_append.mp hk with
      | inl hold => exact Nat.lt_succ_of_lt (hm.bound k hold)
      | inr hnew => exact Nat.lt_succ_of_le (Nat.le_of_eq (List.mem_singleton.mp hnew))

end Marked

theorem sound_marked (acts : List Act) : (marked acts).Sound := by
  suffices hrun : ∀ m : Marked, m.Sound → (acts.foldl Marked.step m).Sound from
    hrun ⟨start, []⟩ ⟨rfl, rfl, List.Pairwise.nil, fun k hk ↦ absurd hk List.not_mem_nil⟩
  intro m hm
  induction acts generalizing m with
  | nil => exact hm
  | cons a acts ih => exact ih _ (hm.step a)

/-- Marking changes nothing. -/
theorem marked_state (acts : List Act) : (marked acts).state = run acts := by
  suffices hrun : ∀ m : Marked, (acts.foldl Marked.step m).state = acts.foldl State.step m.state from
    hrun ⟨start, []⟩
  intro m
  induction acts generalizing m with
  | nil => rfl
  | cons a acts ih => exact ih (m.step a)

end QNode.Timers
