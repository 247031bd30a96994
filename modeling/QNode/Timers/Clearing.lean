import Mathlib.Data.List.Nodup
import QNode.Library.Runs
import QNode.Timers.Timers

/-!
# Clearing a handle

The id of a timer tells what was created under it, as long as the ids have not come round.  So a handle
clears its own timer and no other; an interval whose timer is gone for the moment has its flag.
-/

namespace QNode.Timers

theorem eraseIdx_split {α : Type} {l : List α} {i : Nat} {a : α} (h : l[i]? = some a) :
    ∃ front back, l = front ++ a :: back ∧ l.eraseIdx i = front ++ back := by
  obtain ⟨hlt, rfl⟩ := List.getElem?_eq_some_iff.mp h
  refine ⟨l.take i, l.drop (i + 1), ?_, List.eraseIdx_eq_take_drop_succ _ _⟩
  rw [← List.drop_eq_getElem_cons hlt, List.take_append_drop]

namespace State

/-! ## What a step leaves alone -/

section

variable (s : State)

theorem deactivate_id (h h' : Nat) : ((s.deactivate h).intervals h').id = (s.intervals h').id := by
  by_cases heq : h' = h
  · simp [deactivate, heq]
  · simp [deactivate, heq]

@[simp] theorem arm_osTimers (func : Func) :
    (s.arm func).osTimers = s.osTimers ++ [⟨s.nextTimerId, func⟩] := by
  cases func <;> rfl

@[simp] theorem arm_created (func : Func) : (s.arm func).created = s.created ++ [func] := by
  cases func <;> rfl

@[simp] theorem arm_stack (func : Func) : (s.arm func).stack = s.stack := by
  cases func <;> rfl

@[simp] theorem arm_made (func : Func) : (s.arm func).made = s.made := by
  cases func <;> rfl

theorem arm_nextTimerId (func : Func) : (s.arm func).nextTimerId =
    if s.nextTimerId = 2 ^ 31 - 1 then 1 else s.nextTimerId + 1 := by
  cases func <;> rfl

theorem arm_intervals (func : Func) (h : Nat) : (s.arm func).intervals h =
    if func = .tick h then ⟨s.nextTimerId, (s.intervals h).active⟩ else s.intervals h := by
  cases func with
  | timeout => rfl
  | immediate => rfl
  | tick h' =>
    by_cases heq : h' = h
    · subst heq
      simp [arm, setId, jsOsSetTimeout]
    · simp [arm, setId, jsOsSetTimeout, heq, Ne.symm heq]

end

variable {s : State}

-- What a timer that fires does: only the tick of a cleared interval calls nothing.
theorem callHandler_cases (s : State) (th : JSOSTimer) :
    (∃ h, th.func = .tick h ∧ ¬ (s.intervals h).active ∧ s.callHandler th = s) ∨
    ((∀ h, th.func = .tick h → (s.intervals h).active) ∧
      s.callHandler th = { s with stack := .callback th.handle :: s.stack }) := by
  unfold callHandler
  cases th.func with
  | timeout => exact .inr ⟨(fun _ heq ↦ by cases heq), rfl⟩
  | immediate => exact .inr ⟨(fun _ heq ↦ by cases heq), rfl⟩
  | tick h =>
    by_cases hactive : (s.intervals h).active
    · refine .inr ⟨fun h' heq ↦ ?_, if_pos hactive⟩
      rw [← Func.tick.inj heq]
      exact hactive
    · exact .inl ⟨h, rfl, hactive, if_neg hactive⟩

-- All that a step does to a state, apart from the calls in progress, is to free a timer, to set one and
-- to clear a flag.
theorem step_keeps {P : State → Prop}
    (hcalls : ∀ t made stack, P t → P { t with made := made, stack := stack })
    (hfree : ∀ t i, P t → P (t.freeTimer i)) (hdeactivate : ∀ t h, P t → P (t.deactivate h))
    (harm : ∀ t func, P t → P (t.arm func)) (s : State) (a : Act) (hs : P s) : P (s.step a) := by
  have hstack : ∀ t stack, P t → P { t with stack := stack } := fun t stack ↦ hcalls t t.made stack
  have hclear : ∀ t timerId, P t → P (t.jsOsClearTimeout timerId) := by
    intro t timerId ht
    unfold jsOsClearTimeout
    cases t.findTimerById timerId with
    | none => exact ht
    | some i => exact hfree t i ht
  have hcond : ∀ {c : Bool} {t : State}, P t → P (if c then t else s) := by
    intro c t ht
    cases c with
    | false => exact hs
    | true => exact ht
  cases a with
  | script =>
    unfold step
    cases s.codeRuns with
    | false => exact hstack s _ hs
    | true => exact hs
  | fire i =>
    unfold step
    cases s.codeRuns with
    | false =>
      show P (s.jsOsPoll i)
      unfold jsOsPoll
      cases s.osTimers[i]? with
      | none => exact hs
      | some th =>
        have hfreed := hfree s i hs
        show P ((s.freeTimer i).callHandler th)
        rcases (s.freeTimer i).callHandler_cases th with ⟨-, -, -, heq⟩ | ⟨-, heq⟩
        · rw [heq]
          exact hfreed
        · rw [heq]
          exact hstack _ _ hfreed
    | true => exact hs
  | setTimeout => exact hcond (hstack s _ hs)
  | setImmediate => exact hcond (harm s _ hs)
  | setInterval => exact hcond (hcalls s _ _ hs)
  | clear f arg =>
    apply hcond
    unfold clear
    split
    · exact hclear _ _ (hdeactivate s _ hs)
    · exact hclear s _ hs
  | ret =>
    show P s.ret
    unfold ret
    split
    · exact hs
    · exact harm _ _ (hstack s _ hs)
    · split
      · exact hstack s _ hs
      · exact hstack s _ hs
    · exact hstack s _ hs
  | throw => exact hstack s _ hs

/-! ## Ids -/

/-- The timer that was created as the `id`-th one has the function `func`. -/
def Owner (s : State) (id : Nat) (func : Func) : Prop := ∃ k, s.created[k]? = some func ∧ id = k + 1

/-- The ids have not come round. -/
def Few (s : State) : Prop := s.created.length < 2 ^ 31 - 1

/-- The id of a pending timer, and the id in an interval, belong to what was created under it. -/
structure Ids (s : State) : Prop where
  next : s.nextTimerId = s.created.length + 1
  owned : ∀ th ∈ s.osTimers, s.Owner th.timerId th.func
  nodup : (s.osTimers.map JSOSTimer.timerId).Nodup
  intervals : ∀ h, (s.intervals h).id ≠ 0 → s.Owner (s.intervals h).id (.tick h)

theorem Owner.unique {id : Nat} {f g : Func} (hf : s.Owner id f) (hg : s.Owner id g) : f = g := by
  obtain ⟨k, hk, rfl⟩ := hf
  obtain ⟨l, hl, heq⟩ := hg
  obtain rfl : k = l := by omega
  exact Option.some.inj (hk.symm.trans hl)

theorem Owner.le {id : Nat} {f : Func} (hf : s.Owner id f) : id ≤ s.created.length := by
  obtain ⟨k, hk, rfl⟩ := hf
  exact (List.getElem?_eq_some_iff.mp hk).1

theorem Owner.mono {t : State} (h : s.created <+: t.created) {id : Nat} {f : Func}
    (hf : s.Owner id f) : t.Owner id f := by
  obtain ⟨k, hk, rfl⟩ := hf
  obtain ⟨hlt, heq⟩ := List.getElem?_eq_some_iff.mp hk
  refine ⟨k, ?_, rfl⟩
  rw [List.getElem?_eq_some_iff]
  exact ⟨Nat.lt_of_lt_of_le hlt h.length_le, (h.getElem hlt).symm.trans heq⟩

theorem arm_prefix (s : State) (func : Func) : s.created <+: (s.arm func).created := by
  rw [arm_created]
  exact List.prefix_append _ _

theorem created_step (s : State) (a : Act) : s.created <+: (s.step a).created :=
  step_keeps (P := fun t ↦ s.created <+: t.created) (fun _ _ _ h ↦ h) (fun _ _ h ↦ h)
    (fun _ _ h ↦ h) (fun t func h ↦ h.trans (t.arm_prefix func)) s a (List.prefix_refl _)

theorem Few.of_prefix {t : State} (h : s.created <+: t.created) (ht : t.Few) : s.Few :=
  Nat.lt_of_le_of_lt h.length_le ht

theorem Ids.start : Timers.start.Ids where
  next := rfl
  owned _ hth := absurd hth List.not_mem_nil
  nodup := List.nodup_nil
  intervals _ hne := absurd rfl hne

theorem Ids.of_calls (hs : s.Ids) (made : Nat) (stack : List Frame) :
    { s with made := made, stack := stack }.Ids :=
  ⟨hs.next, hs.owned, hs.nodup, hs.intervals⟩

theorem freeTimer_sublist (s : State) (i : Nat) : (s.freeTimer i).osTimers.Sublist s.osTimers :=
  List.eraseIdx_sublist s.osTimers i

theorem Ids.freeTimer (hs : s.Ids) (i : Nat) : (s.freeTimer i).Ids where
  next := hs.next
  owned th hth := hs.owned th ((s.freeTimer_sublist i).subset hth)
  nodup := hs.nodup.sublist ((s.freeTimer_sublist i).map _)
  intervals := hs.intervals

theorem Ids.deactivate (hs : s.Ids) (h : Nat) : (s.deactivate h).Ids where
  next := hs.next
  owned := hs.owned
  nodup := hs.nodup
  intervals h' hne := by
    rw [deactivate_id] at hne ⊢
    exact hs.intervals h' hne

theorem Ids.arm (hs : s.Ids) {func : Func} (hfew : (s.arm func).Few) : (s.arm func).Ids where
  next := by
    have hlen : s.created.length + 1 < 2 ^ 31 - 1 := by
      have hfew' := hfew
      unfold Few at hfew'
      rwa [arm_created, List.length_append] at hfew'
    rw [arm_nextTimerId, arm_created, List.length_append, hs.next, if_neg (by omega)]
    rfl
  owned := by
    intro th hth
    rw [arm_osTimers] at hth
    rcases List.mem_append.mp hth with hold | hnew
    · exact (hs.owned th hold).mono (s.arm_prefix func)
    · obtain rfl := List.mem_singleton.mp hnew
      exact ⟨s.created.length, by simp, hs.next⟩
  nodup := by
    rw [arm_osTimers, List.map_append, List.nodup_append]
    refine ⟨hs.nodup, List.nodup_singleton _, ?_⟩
    intro id hid id' hid'
    obtain ⟨th, hth, rfl⟩ := List.mem_map.mp hid
    obtain rfl := List.mem_singleton.mp hid'
    have hle := (hs.owned th hth).le
    show th.timerId ≠ s.nextTimerId
    rw [hs.next]
    omega
  intervals := by
    intro h hne
    rw [arm_intervals] at hne ⊢
    by_cases hfunc : func = .tick h
    · subst hfunc
      rw [if_pos rfl]
      exact ⟨s.created.length, by simp, hs.next⟩
    · rw [if_neg hfunc] at hne ⊢
      exact (hs.intervals h hne).mono (s.arm_prefix func)

theorem Ids.step (hs : s.Ids) (a : Act) (hfew : (s.step a).Few) : (s.step a).Ids := by
  refine step_keeps (P := fun t ↦ t.Few → t.Ids) ?_ ?_ ?_ ?_ s a (fun _ ↦ hs) hfew
  · exact fun t made stack ht h ↦ (ht h).of_calls made stack
  · exact fun t i ht h ↦ (ht h).freeTimer i
  · exact fun t i ht h ↦ (ht h).deactivate i
  · exact fun t func ht h ↦ (ht (h.of_prefix (t.arm_prefix func))).arm h

/-! ## Handles -/

/-- The timers that call the callback of `x`, in their order. -/
def timersOf (s : State) (x : Handle) : List JSOSTimer := s.osTimers.filter (·.handle = x)

/-- Code has `x` as the handle of something that was set. -/
def Known (s : State) : Handle → Prop
  | .timeout id => s.Owner id .timeout
  | .immediate id => s.Owner id .immediate
  | .interval h => (s.intervals h).id ≠ 0

/-- The step `a` from `s` calls the callback of `x`. -/
def Calls (s : State) (a : Act) (x : Handle) : Prop := (s.step a).stack = .callback x :: s.stack

/-- All that decides about the callback of `y` is in `t` as in `s`: its pending timers, the object of an
interval, the calls in progress. -/
def Untouched (y : Handle) (s t : State) : Prop :=
  t.timersOf y = s.timersOf y ∧ (∀ h, y = .interval h → t.intervals h = s.intervals h) ∧
    t.stack = s.stack

/-- The callback of `x` is not called any more. -/
def Dead (s : State) : Handle → Prop
  | .interval h => (s.intervals h).active = false
  | x => s.Known x ∧ ∀ th ∈ s.osTimers, th.handle ≠ x

-- The number of a timeout or of an immediate is the id of its timer.
theorem timerId_of_timeout {th : JSOSTimer} {id : Nat} (h : th.handle = .timeout id) :
    th.timerId = id := by
  unfold JSOSTimer.handle at h
  split at h <;> cases h
  rfl

theorem timerId_of_immediate {th : JSOSTimer} {id : Nat} (h : th.handle = .immediate id) :
    th.timerId = id := by
  unfold JSOSTimer.handle at h
  split at h <;> cases h
  rfl

theorem findTimerById_some {timerId : Int} {i : Nat} (h : s.findTimerById timerId = some i) :
    ∃ th, s.osTimers[i]? = some th ∧ (th.timerId : Int) = timerId := by
  unfold findTimerById at h
  by_cases hle : timerId ≤ 0
  · rw [if_pos hle] at h
    cases h
  · rw [if_neg hle] at h
    obtain ⟨hlt, hid, -⟩ := List.findIdx?_eq_some_iff_getElem.mp h
    exact ⟨_, List.getElem?_eq_getElem hlt, by simpa using hid⟩

theorem findTimerById_none {id : Nat} (hid : id ≠ 0) (h : s.findTimerById id = none) :
    ∀ th ∈ s.osTimers, th.timerId ≠ id := by
  unfold findTimerById at h
  rw [if_neg (by omega), List.findIdx?_eq_none_iff] at h
  intro th hth heq
  have hne := h th hth
  simp [heq] at hne

theorem freeTimer_split {i : Nat} {th : JSOSTimer} (h : s.osTimers[i]? = some th) :
    ∃ front back, s.osTimers = front ++ th :: back ∧ (s.freeTimer i).osTimers = front ++ back :=
  eraseIdx_split h

theorem Owner.ne_zero {id : Nat} {func : Func} (h : s.Owner id func) : id ≠ 0 := by
  obtain ⟨k, -, rfl⟩ := h
  exact Nat.succ_ne_zero k

-- The converted argument is the id itself.
theorem Owner.int32 {id : Nat} {func : Func} (h : s.Owner id func) (hfew : s.Few) :
    Word.int32 id = id := by
  have hle := h.le
  unfold Few at hfew
  exact Word.int32_of_range (by omega) (by omega)

-- Under an id there is at most the timer that was created under it.
theorem Ids.func_eq (hs : s.Ids) {id : Nat} {func : Func} (hid : s.Owner id func) {th : JSOSTimer}
    (hth : th ∈ s.osTimers) (heq : th.timerId = id) : th = ⟨id, func⟩ := by
  have howned := hs.owned th hth
  rw [heq] at howned
  calc th = ⟨th.timerId, th.func⟩ := rfl
    _ = ⟨id, func⟩ := by rw [heq, howned.unique hid]

-- Clearing an id frees only a timer of the handle that has the id.
theorem Ids.timersOf_clear (hs : s.Ids) {id : Nat} {func : Func} (hid : s.Owner id func) {y : Handle}
    (hy : y ≠ (JSOSTimer.mk id func).handle) : (s.jsOsClearTimeout id).timersOf y = s.timersOf y := by
  unfold jsOsClearTimeout
  cases hfind : s.findTimerById id with
  | none => rfl
  | some i =>
    obtain ⟨th, hget, heq⟩ := findTimerById_some hfind
    obtain ⟨front, back, hold, hnew⟩ := freeTimer_split hget
    have hth : th = ⟨id, func⟩ :=
      hs.func_eq hid (List.mem_of_getElem? hget) (Int.ofNat.inj heq)
    show (s.freeTimer i).osTimers.filter _ = s.osTimers.filter _
    rw [hold, hnew, List.filter_append, List.filter_append, List.filter_cons, if_neg]
    rw [hth, decide_eq_true_eq]
    exact Ne.symm hy

-- After clearing an id no timer has it.
theorem Ids.clear_timerId (hs : s.Ids) {id : Nat} (hid : id ≠ 0) :
    ∀ th ∈ (s.jsOsClearTimeout id).osTimers, th.timerId ≠ id := by
  unfold jsOsClearTimeout
  cases hfind : s.findTimerById id with
  | none => exact findTimerById_none hid hfind
  | some i =>
    obtain ⟨th, hget, heq⟩ := findTimerById_some hfind
    obtain ⟨front, back, hold, hnew⟩ := freeTimer_split hget
    have hnodup := hs.nodup
    rw [hold, List.map_append, List.map_cons, List.nodup_middle, ← List.map_append] at hnodup
    show ∀ th' ∈ (s.freeTimer i).osTimers, th'.timerId ≠ id
    rw [hnew, ← Int.ofNat.inj heq]
    intro th' hth' hsame
    exact (List.nodup_cons.mp hnodup).1 (List.mem_map.mpr ⟨th', hth', hsame⟩)

@[simp] theorem clear_stack (timerId : Int) : (s.jsOsClearTimeout timerId).stack = s.stack := by
  unfold jsOsClearTimeout
  cases s.findTimerById timerId <;> rfl

@[simp] theorem clear_intervals (timerId : Int) :
    (s.jsOsClearTimeout timerId).intervals = s.intervals := by
  unfold jsOsClearTimeout
  cases s.findTimerById timerId <;> rfl

@[simp] theorem clear_created (timerId : Int) :
    (s.jsOsClearTimeout timerId).created = s.created := by
  unfold jsOsClearTimeout
  cases s.findTimerById timerId <;> rfl

end State

/-- The clear function of the handle's kind. -/
def Handle.clearFunction : Handle → ClearFunction
  | .timeout _ => .timeout
  | .immediate _ => .immediate
  | .interval _ => .interval

/-- The handle as an argument. -/
def Handle.arg : Handle → ClearArg
  | .timeout id => .number id
  | .immediate id => .number id
  | .interval h => .interval h

namespace State

variable {s : State}

theorem Known.has {x : Handle} (hx : s.Known x) : s.has x.arg := by
  cases x with
  | timeout id => rfl
  | immediate id => rfl
  | interval h =>
    show ((s.intervals h).id != 0) = true
    exact bne_iff_ne.mpr hx

theorem step_clear {x : Handle} (hx : s.Known x) (hruns : s.codeRuns) (f : ClearFunction) :
    s.step (.clear f x.arg) = s.clear f x.arg := by
  show (if s.codeRuns && s.has x.arg then s.clear f x.arg else s) = _
  rw [if_pos (by rw [hruns, hx.has]; rfl)]

theorem clear_number (f : ClearFunction) (n : Int) :
    s.clear f (.number n) = s.jsOsClearTimeout (Word.int32 n) := by
  cases f <;> rfl

-- An object converts to an id that no timer has.
theorem clear_object {f : ClearFunction} (hf : f ≠ .interval) (h : Nat) :
    s.clear f (.interval h) = s := by
  cases f with
  | timeout => rfl
  | immediate => rfl
  | interval => exact absurd rfl hf

theorem Ids.untouched (hs : s.Ids) (hfew : s.Few) {x y : Handle} (hx : s.Known x) (hne : y ≠ x)
    (f : ClearFunction) : Untouched y s (s.clear f x.arg) := by
  have hnumber : ∀ {id : Nat} {func : Func}, s.Owner id func → y ≠ (JSOSTimer.mk id func).handle →
      Untouched y s (s.clear f (.number id)) := by
    intro id func hid hy
    rw [clear_number, hid.int32 hfew]
    refine ⟨hs.timersOf_clear hid hy, fun h _ ↦ ?_, clear_stack _⟩
    rw [clear_intervals]
  cases x with
  | timeout id => exact hnumber hx hne
  | immediate id => exact hnumber hx hne
  | interval h =>
    by_cases hf : f = .interval
    · subst hf
      refine ⟨(hs.deactivate h).timersOf_clear (hs.intervals h hx) hne, ?_, clear_stack _⟩
      intro h' heq
      have hne' : h' ≠ h := by
        intro hh
        rw [hh] at heq
        exact hne heq
      show ((s.deactivate h).jsOsClearTimeout _).intervals h' = _
      rw [clear_intervals]
      exact Function.update_of_ne hne' _ _
    · show Untouched y s (s.clear f (.interval h))
      rw [clear_object hf]
      exact ⟨rfl, fun _ _ ↦ rfl, rfl⟩

-- A clear function called with the number of a handle leaves no timer of the handle.
theorem Ids.handle_ne (hs : s.Ids) (hfew : s.Few) {id : Nat} {func : Func} (hid : s.Owner id func)
    (f : ClearFunction) {th : JSOSTimer} (hth : th ∈ (s.clear f (.number id)).osTimers) :
    th.timerId ≠ id := by
  rw [clear_number, hid.int32 hfew] at hth
  exact hs.clear_timerId hid.ne_zero th hth

theorem Owner.clear {id n : Nat} {func : Func} (hid : s.Owner id func) (f : ClearFunction) :
    (s.clear f (.number n)).Owner id func := by
  rw [clear_number]
  apply hid.mono
  exact ⟨[], by rw [List.append_nil, clear_created]⟩

theorem Ids.dead (hs : s.Ids) (hfew : s.Few) {x : Handle} (hx : s.Known x) :
    (s.clear x.clearFunction x.arg).Dead x := by
  cases x with
  | timeout id =>
    refine ⟨Owner.clear hx _, fun th hth heq ↦ ?_⟩
    exact hs.handle_ne hfew hx _ hth (timerId_of_timeout heq)
  | immediate id =>
    refine ⟨Owner.clear hx _, fun th hth heq ↦ ?_⟩
    exact hs.handle_ne hfew hx _ hth (timerId_of_immediate heq)
  | interval h =>
    show (((s.deactivate h).jsOsClearTimeout _).intervals h).active = false
    rw [clear_intervals]
    show (Function.update s.intervals h _ h).active = false
    rw [Function.update_self]

/-! ## Runs -/

-- A cleared interval stays cleared.
theorem inactive_step {h : Nat} (hh : (s.intervals h).active = false) (a : Act) :
    ((s.step a).intervals h).active = false := by
  refine step_keeps (P := fun t ↦ (t.intervals h).active = false) (fun _ _ _ ht ↦ ht)
    (fun _ _ ht ↦ ht) ?_ ?_ s a hh
  · intro t h' ht
    by_cases heq : h = h'
    · simp [State.deactivate, heq]
    · simpa [State.deactivate, heq] using ht
  · intro t func ht
    rw [arm_intervals]
    by_cases heq : func = .tick h
    · rwa [if_pos heq]
    · rwa [if_neg heq]

-- A new timer has an id of its own, so a number that was cleared calls nothing again.
theorem absent_step {x : Handle} {id : Nat} {f : Func} (hid : s.Owner id f)
    (hx : ∀ th : JSOSTimer, th.handle = x → th.timerId = id) (hs : s.Ids)
    (hnone : ∀ th ∈ s.osTimers, th.handle ≠ x) (a : Act) (hfew : (s.step a).Few) :
    ∀ th ∈ (s.step a).osTimers, th.handle ≠ x := by
  let P (t : State) := s.created <+: t.created ∧
    (t.Few → t.Ids ∧ ∀ th ∈ t.osTimers, th.handle ≠ x)
  have hkeep : P (s.step a) := by
    refine step_keeps ?_ ?_ ?_ ?_ s a ⟨List.prefix_refl _, fun _ ↦ ⟨hs, hnone⟩⟩
    · intro t made stack ⟨hpre, ht⟩
      exact ⟨hpre, fun h ↦ ⟨(ht h).1.of_calls made stack, (ht h).2⟩⟩
    · intro t i ⟨hpre, ht⟩
      refine ⟨hpre, fun h ↦ ⟨(ht h).1.freeTimer i, fun th hth ↦ ?_⟩⟩
      exact (ht h).2 th ((t.freeTimer_sublist i).subset hth)
    · intro t h' ⟨hpre, ht⟩
      exact ⟨hpre, fun h ↦ ⟨(ht h).1.deactivate h', (ht h).2⟩⟩
    · intro t func ⟨hpre, ht⟩
      refine ⟨hpre.trans (t.arm_prefix func), fun h ↦ ?_⟩
      obtain ⟨hids, hn⟩ := ht (h.of_prefix (t.arm_prefix func))
      refine ⟨hids.arm h, fun th hth heq ↦ ?_⟩
      rw [arm_osTimers] at hth
      rcases List.mem_append.mp hth with hold | hnew
      · exact hn th hold heq
      · have hle := (hid.mono hpre).le
        have hth' : t.nextTimerId = id := by
          rw [← hx th heq, List.mem_singleton.mp hnew]
        have hnext := hids.next
        omega
  exact (hkeep.2 hfew).2

theorem Dead.step {x : Handle} (hdead : s.Dead x) (hs : s.Ids) (a : Act)
    (hfew : (s.step a).Few) : (s.step a).Dead x := by
  cases x with
  | timeout id =>
    have habsent := absent_step hdead.1 (fun _ ↦ timerId_of_timeout) hs hdead.2 a hfew
    exact ⟨hdead.1.mono (created_step s a), habsent⟩
  | immediate id =>
    have habsent := absent_step hdead.1 (fun _ ↦ timerId_of_immediate) hs hdead.2 a hfew
    exact ⟨hdead.1.mono (created_step s a), habsent⟩
  | interval h => exact inactive_step hdead a

theorem func_of_interval {th : JSOSTimer} {h : Nat} (heq : th.handle = .interval h) :
    th.func = .tick h := by
  unfold JSOSTimer.handle at heq
  split at heq <;> cases heq
  assumption

-- A call puts a callback on the stack only when the function of the timer does call it.
theorem callHandler_calls {th : JSOSTimer} {x : Handle}
    (h : (s.callHandler th).stack = .callback x :: s.stack) :
    th.handle = x ∧ ∀ h, x = .interval h → (s.intervals h).active := by
  rcases s.callHandler_cases th with ⟨-, -, -, heq⟩ | ⟨hactive, heq⟩
  · rw [heq] at h
    exact absurd h (List.cons_ne_self _ _).symm
  · rw [heq] at h
    obtain rfl := Frame.callback.inj (List.cons.inj h).1
    exact ⟨rfl, fun h' hx ↦ hactive h' (func_of_interval hx)⟩

theorem ret_stack (s : State) : s.ret.stack = s.stack.tail ∨
    ∃ h, s.ret.stack = .setting (.tick h) :: s.stack.tail := by
  unfold ret
  split
  next hnil => exact .inl (by rw [hnil]; rfl)
  next hstack => exact .inl (by rw [hstack, arm_stack]; rfl)
  next h _ hstack =>
    split
    · exact .inr ⟨h, by rw [hstack]; rfl⟩
    · exact .inl (by rw [hstack]; rfl)
  next hstack => exact .inl (by rw [hstack]; rfl)

theorem clear_call_stack (s : State) (f : ClearFunction) (arg : ClearArg) :
    (s.clear f arg).stack = s.stack := by
  unfold clear
  split
  · exact clear_stack _
  · exact clear_stack _

-- Only the loop calls a callback: that of the timer that fires, unless it is the tick of a cleared
-- interval.
theorem Calls.fires {a : Act} {x : Handle} (h : s.Calls a x) :
    (∃ th ∈ s.osTimers, th.handle = x) ∧ ∀ h, x = .interval h → (s.intervals h).active := by
  have hself : s.stack ≠ .callback x :: s.stack := (List.cons_ne_self _ _).symm
  have hcond : ∀ {c : Bool} {t : State}, t.stack ≠ .callback x :: s.stack →
      (if c then t else s).stack ≠ .callback x :: s.stack := by
    intro c t ht
    cases c with
    | false => exact hself
    | true => exact ht
  have hpop : ∀ stack : List Frame, stack.tail ≠ .callback x :: stack := by
    intro stack heq
    have hlen := congrArg List.length heq
    rw [List.length_tail, List.length_cons] at hlen
    omega
  cases a with
  | fire i =>
    change (if s.codeRuns then s else s.jsOsPoll i).stack = _ at h
    cases hruns : s.codeRuns with
    | false =>
      rw [hruns, if_neg Bool.false_ne_true] at h
      unfold jsOsPoll at h
      cases hget : s.osTimers[i]? with
      | none =>
        rw [hget] at h
        exact absurd h hself
      | some th =>
        rw [hget] at h
        obtain ⟨hhandle, hactive⟩ := callHandler_calls h
        exact ⟨⟨th, List.mem_of_getElem? hget, hhandle⟩, hactive⟩
    | true =>
      rw [hruns, if_pos rfl] at h
      exact absurd h hself
  | script =>
    change (if s.codeRuns then s else { s with stack := [.script] }).stack = _ at h
    split at h
    · exact absurd h hself
    · cases h
  | setTimeout => exact absurd h (hcond fun heq ↦ by cases heq)
  | setImmediate => exact absurd h (hcond fun heq ↦ hself ((arm_stack s _).symm.trans heq))
  | setInterval => exact absurd h (hcond fun heq ↦ by cases heq)
  | clear f arg =>
    exact absurd h (hcond fun heq ↦ hself ((clear_call_stack s f arg).symm.trans heq))
  | ret =>
    change s.ret.stack = _ at h
    rcases s.ret_stack with heq | ⟨h', heq⟩
    · exact absurd (heq.symm.trans h) (hpop s.stack)
    · rw [heq] at h
      cases h
  | throw => exact absurd h (hpop s.stack)

theorem Dead.not_calls {x : Handle} (hdead : s.Dead x) (a : Act) : ¬ s.Calls a x := by
  intro hcalls
  obtain ⟨⟨th, hth, hhandle⟩, hactive⟩ := hcalls.fires
  cases x with
  | timeout id => exact hdead.2 th hth hhandle
  | immediate id => exact hdead.2 th hth hhandle
  | interval h => exact Bool.false_ne_true (hdead.symm.trans (hactive h rfl))

theorem created_run (s : State) (acts : List Act) : s.created <+: (acts.foldl step s).created :=
  Runs.foldl_keeps (R := fun s t : State ↦ s.created <+: t.created) (fun _ ↦ List.prefix_refl _)
    (fun _ _ _ h h' ↦ h.trans h') created_step s acts

-- What the steps keep as long as the ids have not come round.
theorem foldl_few {P : State → Prop} (hstep : ∀ t a, P t → (t.step a).Few → P (t.step a))
    {acts : List Act} (hs : P s) (hfew : (acts.foldl step s).Few) : P (acts.foldl step s) := by
  induction acts generalizing s with
  | nil => exact hs
  | cons a acts ih => exact ih (hstep s a hs (hfew.of_prefix (created_run _ acts))) hfew

theorem ids_run {acts : List Act} (hfew : (run acts).Few) : (run acts).Ids :=
  foldl_few (fun _ a hs h ↦ hs.step a h) Ids.start hfew

theorem Dead.run {x : Handle} (hs : s.Ids) (hdead : s.Dead x) {acts : List Act}
    (hfew : (acts.foldl State.step s).Few) : (acts.foldl State.step s).Dead x :=
  (foldl_few (P := fun t ↦ t.Ids ∧ t.Dead x)
    (fun _ a h hfew ↦ ⟨h.1.step a hfew, h.2.step h.1 a hfew⟩) ⟨hs, hdead⟩ hfew).2

end State

theorem run_append (acts acts' : List Act) : run (acts ++ acts') = acts'.foldl State.step (run acts) :=
  List.foldl_append

/-- In a run with fewer than `2 ^ 31 - 1` timers: after a handle has been passed to the clear function
of its own kind its callback is never called again; and whichever clear function it is passed to, that
leaves alone everything about the callback of every other handle. -/
theorem clear_is_final_and_local (before after : List Act) (x : Handle)
    (hfew : (run (before ++ .clear x.clearFunction x.arg :: after)).created.length < 2 ^ 31 - 1)
    (hknown : (run before).Known x) (hruns : (run before).codeRuns) :
    (∀ mid a rest, after = mid ++ a :: rest →
      ¬ (run (before ++ .clear x.clearFunction x.arg :: mid)).Calls a x) ∧
    ∀ f, ∀ y ≠ x, State.Untouched y (run before) (run (before ++ [.clear f x.arg])) := by
  have hbefore : (run before).Few := by
    apply State.Few.of_prefix _ hfew
    rw [run_append]
    exact State.created_run _ _
  have hids : (run before).Ids := State.ids_run hbefore
  constructor
  · rintro mid a rest rfl
    have hmid : (run (before ++ .clear x.clearFunction x.arg :: mid)).Few := by
      apply State.Few.of_prefix _ hfew
      rw [← List.cons_append, ← List.append_assoc, run_append (before ++ _)]
      exact State.created_run _ _
    rw [run_append, List.foldl_cons] at hmid ⊢
    have hids' := hids.step (.clear x.clearFunction x.arg) (hmid.of_prefix (State.created_run _ mid))
    have hdead := hids.dead hbefore hknown
    rw [← State.step_clear hknown hruns] at hdead
    exact (hdead.run hids' hmid).not_calls a
  · intro f y hne
    rw [run_append]
    show State.Untouched y (run before) ((run before).step (.clear f x.arg))
    rw [State.step_clear hknown hruns]
    exact hids.untouched hbefore hknown hne f

/-- An interval clears itself in its own callback, while a timeout is pending. -/
theorem clear_is_final_and_local_own :
    let before := [Act.script, .setInterval, .ret, .setTimeout, .ret, .ret, .fire 0]
    let after := [Act.ret, .fire 0]
    (∀ mid a rest, after = mid ++ a :: rest →
      ¬ (run (before ++ .clear .interval (.interval 0) :: mid)).Calls a (.interval 0)) ∧
    ∀ f, ∀ y ≠ .interval 0,
      State.Untouched y (run before) (run (before ++ [.clear f (.interval 0)])) :=
  clear_is_final_and_local [Act.script, .setInterval, .ret, .setTimeout, .ret, .ret, .fire 0]
    [Act.ret, .fire 0] (.interval 0) (by decide) (Nat.succ_ne_zero 0) (by decide)

end QNode.Timers
