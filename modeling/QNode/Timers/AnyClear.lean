import QNode.Timers.Live

/-!
# Any handle for any clear function

The declarations let each clear function take each handle.  A number is looked for by all three of them;
the object of an interval is one for `clearInterval` only.
-/

namespace QNode.Timers

/-! ## What a call is to do -/

namespace Marked

/-- Code has `x` as the handle of something that was set. -/
def Known (m : Marked) : Returned → Prop
  | .number k => k < m.state.created.length ∧ m.state.returned k = .number k
  | .object h => (m.state.intervals h).id ≠ 0

/-- A timer for which `x` was returned fires, and its callback is called. -/
def Calls (m : Marked) (a : Act) (x : Returned) : Prop :=
  ∃ i k, a = .fire i ∧ m.pending[i]? = some k ∧ m.state.returned k = x ∧
    (m.state.step a).stack = .callback (m.state.timer k).handle :: m.state.stack

def timersOf (m : Marked) (x : Returned) : List Nat := m.pending.filter (m.state.returned · = x)

/-- All that decides about the callback of `y` is as it was. -/
def Untouched (y : Returned) (m t : Marked) : Prop :=
  t.timersOf y = m.timersOf y ∧ (∀ h, y = .object h → t.state.intervals h = m.state.intervals h) ∧
    t.state.stack = m.state.stack

/-- The function finds no timer but one of `x`, and `x` is for this function if it still needs it: an
interval that has not been cleared and has not ended is for `clearInterval`. -/
structure ClearsOwn (m : Marked) (f : ClearFunction) (x : Returned) : Prop where
  finds : ∀ i, m.state.clearedAt f x.arg = some i → m.pending[i]?.map m.state.returned = some x
  ends : ∀ h, x = .object h → f = .interval ∨ (m.state.intervals h).active = false ∨ ¬ m.state.Live h

end Marked

/-! ## The timer that is found -/

theorem int32_timerNumber (k : Nat) : Word.int32 (timerNumber k) = timerNumber k := by
  unfold timerNumber
  exact Word.int32_of_range (by omega) (by omega)

namespace Marked

variable {m : Marked} {f : ClearFunction} {x : Returned}

theorem Sound.nodup (hm : m.Sound) : m.pending.Nodup := hm.sorted.imp fun h ↦ Nat.ne_of_lt h

theorem Sound.getElem? (hm : m.Sound) {i : Nat} {th : JSOSTimer} (h : m.state.osTimers[i]? = some th) :
    ∃ k, m.pending[i]? = some k ∧ m.state.timer k = th := by
  rw [hm.timers, List.getElem?_map] at h
  exact Option.map_eq_some_iff.mp h

theorem Sound.found (hm : m.Sound) {n : Int} {i : Nat} (h : m.state.findTimerById n = some i) :
    ∃ k, m.pending[i]? = some k ∧ (timerNumber k : Int) = n := by
  obtain ⟨th, hget, hn⟩ := State.findTimerById_some h
  obtain ⟨k, hk, rfl⟩ := hm.getElem? hget
  exact ⟨k, hk, hn⟩

theorem Known.has (hx : m.Known x) : m.state.has x.arg = true := by
  cases x with
  | number k => rfl
  | object h => exact bne_iff_ne.mpr hx

theorem step_clear (hx : m.Known x) (hruns : m.state.codeRuns = true) :
    (m.step (.clear f x.arg)).state = m.state.clear f x.arg ∧
      (m.step (.clear f x.arg)).pending = removed m.pending (m.state.clearedAt f x.arg) := by
  have hcond : (m.state.codeRuns && m.state.has x.arg) = true := by
    rw [hruns, hx.has]
    rfl
  have hstate : m.state.step (.clear f x.arg) = m.state.clear f x.arg := if_pos hcond
  refine ⟨hstate, ?_⟩
  rw [step, hstate, (m.state.clear_eq f x.arg).2.1, Nat.sub_self, List.range'_zero, List.append_nil]
  exact congrArg (removed m.pending) (if_pos hcond)

end Marked

theorem returned_congr {s t : State} (h : t.created = s.created) : t.returned = s.returned := by
  funext k
  rw [State.returned, State.returned, State.funcOf, State.funcOf, h]

theorem returned_eq_number {s : State} {k k' : Nat} (h : s.returned k' = .number k) : k' = k := by
  unfold State.returned at h
  cases hfunc : s.funcOf k' with
  | tick h' =>
    rw [hfunc] at h
    cases h
  | timeout =>
    rw [hfunc] at h
    exact Returned.number.inj h
  | immediate =>
    rw [hfunc] at h
    exact Returned.number.inj h

theorem returned_eq_object {s : State} {k h : Nat} : s.returned k = .object h ↔ s.funcOf k = .tick h := by
  unfold State.returned
  cases s.funcOf k with
  | tick h' => rw [Returned.object.injEq, Func.tick.injEq]
  | timeout => exact iff_of_false (by intro h; cases h) (by intro h; cases h)
  | immediate => exact iff_of_false (by intro h; cases h) (by intro h; cases h)

-- No element of `p` goes from a list precisely if the element that goes is not of `p`.
theorem filter_removed {α : Type} (p : α → Bool) {l : List α} {i : Nat} {a : α} (h : l[i]? = some a) :
    (removed l (some i)).filter p = l.filter p ↔ p a = false := by
  obtain ⟨front, back, hold, hnew⟩ := eraseIdx_split h
  rw [removed, hnew, hold, List.filter_append, List.filter_append, List.filter_cons]
  cases p a with
  | true =>
    refine iff_of_false ?_ (by decide)
    intro heq
    have hlen := congrArg List.length heq
    rw [if_pos rfl, List.length_append, List.length_append, List.length_cons] at hlen
    omega
  | false => exact iff_of_true rfl rfl

namespace Marked

variable {m : Marked} {f : ClearFunction} {x : Returned}

theorem clear_intervals_eq (hx : m.Known x) (hruns : m.state.codeRuns = true) {h : Nat}
    (hne : x ≠ .object h) :
    (m.step (.clear f x.arg)).state.intervals h = m.state.intervals h := by
  rw [(step_clear hx hruns).1]
  cases x with
  | number k => rw [Returned.arg, State.clear_number, State.clear_intervals]
  | object h' =>
    by_cases hf : f = .interval
    · have hne' : h ≠ h' := by
        intro heq
        exact hne (congrArg Returned.object heq.symm)
      rw [hf]
      show ((m.state.deactivate h').jsOsClearTimeout _).intervals h = _
      rw [State.clear_intervals]
      exact Function.update_of_ne hne' _ _
    · rw [Returned.arg, State.clear_object hf]

/-- A clear function leaves all other handles alone precisely if it finds no timer of theirs. -/
theorem untouched_iff (hm : m.Sound) (hx : m.Known x) (hruns : m.state.codeRuns = true) :
    (∀ y ≠ x, Untouched y m (m.step (.clear f x.arg))) ↔
      ∀ i, m.state.clearedAt f x.arg = some i → m.pending[i]?.map m.state.returned = some x := by
  obtain ⟨hstate, hpending⟩ := step_clear (f := f) hx hruns
  have hreturned : (m.step (.clear f x.arg)).state.returned = m.state.returned := by
    rw [hstate]
    exact returned_congr (m.state.clear_eq f x.arg).2.1
  have htimers : ∀ y, (m.step (.clear f x.arg)).timersOf y =
      (removed m.pending (m.state.clearedAt f x.arg)).filter (m.state.returned · = y) := by
    intro y
    rw [timersOf, hpending, hreturned]
  constructor
  · intro h i hi
    have hfound : ∃ n : Int, m.state.findTimerById n = some i := by
      revert hi
      unfold State.clearedAt
      split
      · exact fun hi ↦ ⟨_, hi⟩
      · exact fun hi ↦ ⟨_, hi⟩
    obtain ⟨n, hn⟩ := hfound
    obtain ⟨k, hk, -⟩ := hm.found hn
    rw [hk, Option.map_some]
    apply congrArg some
    by_contra hne
    have heq := (h _ hne).1
    rw [htimers, hi, timersOf, filter_removed _ hk] at heq
    exact of_decide_eq_false heq rfl
  · intro h y hne
    refine ⟨?_, ?_, ?_⟩
    · rw [htimers, timersOf]
      cases hi : m.state.clearedAt f x.arg with
      | none => rfl
      | some i =>
        obtain ⟨k, hk, hkx⟩ := Option.map_eq_some_iff.mp (h i hi)
        rw [filter_removed _ hk, hkx]
        exact decide_eq_false (Ne.symm hne)
    · rintro h' rfl
      exact clear_intervals_eq hx hruns (Ne.symm hne)
    · rw [hstate]
      exact m.state.clear_call_stack f x.arg

/-! ## Numbers -/

/-- The timer was created and is not pending any more. -/
def Gone (m : Marked) (k : Nat) : Prop := k ∉ m.pending ∧ k < m.state.created.length

theorem Sound.gone (hm : m.Sound) (hruns : m.state.codeRuns = true) {k : Nat} (hx : m.Known (.number k))
    (hfinds : ∀ i, m.state.clearedAt f (Returned.number k).arg = some i →
      m.pending[i]?.map m.state.returned = some (.number k)) :
    (m.step (.clear f (Returned.number k).arg)).Gone k := by
  obtain ⟨hstate, hpending⟩ := step_clear (f := f) hx hruns
  have hat : m.state.clearedAt f (Returned.number k).arg = m.state.findTimerById (timerNumber k) := by
    rw [← int32_timerNumber]
    cases f <;> rfl
  constructor
  · rw [hpending]
    rw [hat] at hfinds ⊢
    cases hfind : m.state.findTimerById (timerNumber k) with
    | none =>
      intro hk
      have hth : m.state.timer k ∈ m.state.osTimers := by
        rw [hm.timers]
        exact List.mem_map_of_mem hk
      exact State.findTimerById_none (Nat.succ_ne_zero _) hfind _ hth rfl
    | some i =>
      obtain ⟨k', hk', hkx⟩ := Option.map_eq_some_iff.mp (hfinds i hfind)
      rw [returned_eq_number hkx] at hk'
      obtain ⟨front, back, hold, hnew⟩ := eraseIdx_split hk'
      have hnodup := hm.nodup
      rw [hold, List.nodup_middle] at hnodup
      rw [removed, hnew]
      exact (List.nodup_cons.mp hnodup).1
  · rw [hstate, (m.state.clear_eq f _).2.1]
    exact hx.1

-- A new timer is marked with a number of its own.
theorem Gone.step {k : Nat} (hk : m.Gone k) (a : Act) : (m.step a).Gone k := by
  cases m.step_marks a with
  | inl h =>
    obtain ⟨hpending, -, hcreated, -⟩ := h
    refine ⟨?_, hcreated ▸ hk.2⟩
    rw [hpending]
    exact fun hmem ↦ hk.1 ((removed_sublist _ _).subset hmem)
  | inr h =>
    obtain ⟨func, hpending, -, hcreated, -⟩ := h
    constructor
    · rw [hpending, List.mem_append, List.mem_singleton, not_or]
      exact ⟨hk.1, Nat.ne_of_lt hk.2⟩
    · rw [hcreated, List.length_append]
      exact Nat.lt_add_right _ hk.2

theorem Gone.not_calls {k : Nat} (hk : m.Gone k) (a : Act) : ¬ m.Calls a (.number k) := by
  rintro ⟨i, k', -, hget, hreturned, -⟩
  rw [returned_eq_number hreturned] at hget
  exact hk.1 (List.mem_of_getElem? hget)

/-! ## Objects -/

-- Who calls the callback of an interval by its marked timers also does by its handle.
theorem Sound.calls_state (hm : m.Sound) {a : Act} {h : Nat} (hcalls : m.Calls a (.object h)) :
    (m.state.intervals h).active = true ∧ m.state.Live h := by
  obtain ⟨i, k, rfl, hget, hreturned, hstack⟩ := hcalls
  have hfunc := returned_eq_object.mp hreturned
  have hhandle : (m.state.timer k).handle = .interval h := by
    rw [JSOSTimer.handle, State.timer, hfunc]
  rw [hhandle] at hstack
  refine ⟨(State.Calls.fires hstack).2 h rfl, Or.inl ⟨m.state.timer k, ?_, hfunc⟩⟩
  rw [hm.timers]
  exact List.mem_map_of_mem (List.mem_of_getElem? hget)

end Marked

/-! ## Handles whose callback is not called any more -/

namespace Marked

variable {m : Marked} {f : ClearFunction} {x : Returned}

def Silent (m : Marked) : Returned → Prop
  | .number k => m.Gone k
  | .object h =>
    (m.state.intervals h).active = false ∨ (¬ m.state.Live h ∧ h < m.state.made)

theorem Silent.step (hx : m.Silent x) (a : Act) : (m.step a).Silent x := by
  cases x with
  | number k => exact Gone.step hx a
  | object h =>
    cases hx with
    | inl hinactive => exact Or.inl (State.inactive_step hinactive a)
    | inr hended =>
      have hfrom := m.state.ticksFrom_step a
      refine Or.inr ⟨fun hlive ↦ ?_, Nat.lt_of_lt_of_le hended.2 hfrom.made⟩
      cases hfrom.live h hlive with
      | inl hlive => exact hended.1 hlive
      | inr hnew => exact Nat.not_lt.mpr hnew.1 hended.2

theorem Silent.not_calls (hx : m.Silent x) (hm : m.Sound) (a : Act) : ¬ m.Calls a x := by
  intro hcalls
  cases x with
  | number k => exact Gone.not_calls hx a hcalls
  | object h =>
    obtain ⟨hactive, hlive⟩ := hm.calls_state hcalls
    cases hx with
    | inl hinactive => exact Bool.false_ne_true (hinactive.symm.trans hactive)
    | inr hended => exact hended.1 hlive

theorem Silent.run (hx : m.Silent x) (hm : m.Sound) (acts : List Act) :
    (acts.foldl Marked.step m).Silent x ∧ (acts.foldl Marked.step m).Sound := by
  induction acts generalizing m with
  | nil => exact ⟨hx, hm⟩
  | cons a acts ih => exact ih (hx.step a) (hm.step a)

-- The flag of `clearInterval`, or a timer that is gone, or nothing left to clear.
theorem ClearsOwn.silent (hclears : m.ClearsOwn f x) (hm : m.Sound) (hmade : m.state.AllMade)
    (hx : m.Known x) (hruns : m.state.codeRuns = true) : (m.step (.clear f x.arg)).Silent x := by
  cases x with
  | number k => exact hm.gone hruns hx hclears.finds
  | object h =>
    obtain ⟨hstate, -⟩ := step_clear (f := f) hx hruns
    by_cases hf : f = .interval
    · left
      rw [hstate, hf]
      show (((m.state.deactivate h).jsOsClearTimeout _).intervals h).active = false
      rw [State.clear_intervals]
      show (Function.update m.state.intervals h _ h).active = false
      rw [Function.update_self]
    · have hsame : (m.step (.clear f (Returned.object h).arg)).state = m.state :=
        hstate.trans (State.clear_object hf h)
      rw [Silent, hsame]
      cases (hclears.ends h rfl).resolve_left hf with
      | inl hinactive => exact Or.inl hinactive
      | inr hended => exact Or.inr ⟨hended, hmade h (Or.inr hx)⟩

/-! ## An interval that can still be called -/

/-- Some run calls the callback of the interval. -/
def Fires (m : Marked) (h : Nat) : Prop :=
  Runs.Leads Marked.step m fun t ↦ ∃ a, t.Calls a (.object h)

variable {h : Nat}

theorem Fires.of_step (a : Act) (hfires : (m.step a).Fires h) : m.Fires h :=
  (Runs.Leads.step a rfl : Runs.Leads Marked.step m (· = m.step a)).trans fun _ ht ↦ ht ▸ hfires

theorem fires_of_timer (hm : m.Sound) (hactive : (m.state.intervals h).active = true)
    {th : JSOSTimer} (hth : th ∈ m.state.osTimers) (hfunc : th.func = .tick h) : m.Fires h := by
  induction hstack : m.state.stack generalizing m with
  | nil =>
    obtain ⟨i, hget⟩ := List.mem_iff_getElem?.mp hth
    obtain ⟨k, hk, rfl⟩ := hm.getElem? hget
    refine Runs.Leads.here ⟨.fire i, i, k, rfl, hk, returned_eq_object.mpr hfunc, ?_⟩
    have hruns : m.state.codeRuns = false := by
      rw [State.codeRuns, hstack]
      rfl
    have hstep : m.state.step (.fire i) = (m.state.freeTimer i).callHandler (m.state.timer k) := by
      unfold State.step
      rw [hruns]
      show m.state.jsOsPoll i = _
      rw [State.jsOsPoll, hget]
    have hfreed : ((m.state.freeTimer i).intervals h).active = true := hactive
    rw [hstep, State.callHandler, hfunc]
    dsimp only
    rw [if_pos hfreed]
    rfl
  | cons frame stack ih =>
    apply Fires.of_step .throw
    apply ih (hm.step .throw) hactive hth
    show m.state.stack.tail = stack
    rw [hstack]
    rfl

theorem fires_of_setting (hm : m.Sound) (hactive : (m.state.intervals h).active = true)
    {stack : List Frame} (hstack : m.state.stack = .setting (.tick h) :: stack) : m.Fires h := by
  have hret : (m.step .ret).state = { m.state with stack := stack }.arm (.tick h) := by
    show m.state.ret = _
    rw [State.ret, hstack]
  have hset : ⟨m.state.nextTimerId, .tick h⟩ ∈ (m.step .ret).state.osTimers := by
    rw [hret, State.arm_osTimers]
    exact List.mem_append_right _ List.mem_cons_self
  apply Fires.of_step .ret
  refine fires_of_timer (hm.step .ret) ?_ hset rfl
  rw [hret, State.arm_intervals, if_pos rfl]
  exact hactive

theorem fires_of_callback (hm : m.Sound) (hactive : (m.state.intervals h).active = true)
    {stack : List Frame} (hstack : m.state.stack = .callback (.interval h) :: stack) : m.Fires h := by
  have hret : (m.step .ret).state = { m.state with stack := .setting (.tick h) :: stack } := by
    show m.state.ret = _
    rw [State.ret, hstack]
    exact if_pos hactive
  apply Fires.of_step .ret
  apply fires_of_setting (hm.step .ret)
  · rw [hret]
    exact hactive
  · rw [hret]

-- The calls above the tick end with an exception, so that it goes on.
theorem fires_of_live (hm : m.Sound) (hactive : (m.state.intervals h).active = true)
    (hlive : m.state.Live h) : m.Fires h := by
  cases hlive with
  | inl htimer =>
    obtain ⟨th, hth, hfunc⟩ := htimer
    exact fires_of_timer hm hactive hth hfunc
  | inr hframe =>
    obtain ⟨frame, hframe, htick⟩ := hframe
    induction hstack : m.state.stack generalizing m with
    | nil =>
      rw [hstack] at hframe
      cases hframe
    | cons top stack ih =>
      rw [hstack] at hframe
      cases hframe with
      | head =>
        unfold Frame.tickOf at htick
        split at htick
        next h' =>
          obtain rfl := Option.some.inj htick
          exact fires_of_callback hm hactive hstack
        next h' =>
          obtain rfl := Option.some.inj htick
          exact fires_of_setting hm hactive hstack
        next => cases htick
      | tail _ hmem =>
        have hthrow : (m.step .throw).state.stack = stack := by
          show m.state.stack.tail = stack
          rw [hstack]
          rfl
        apply Fires.of_step .throw
        apply ih (hm.step .throw) hactive
        · rw [hthrow]
          exact hmem
        · exact hthrow

-- Any other function than `clearInterval` leaves an interval as it is.
theorem ends_of_never (hm : m.Sound) (hx : m.Known (.object h)) (hruns : m.state.codeRuns = true)
    (hf : f ≠ .interval)
    (hnever : ∀ (mid : List Act) (a : Act),
      ¬ (mid.foldl Marked.step (m.step (.clear f (.interval h)))).Calls a (.object h)) :
    (m.state.intervals h).active = false ∨ ¬ m.state.Live h := by
  by_contra hneither
  rw [not_or, Bool.not_eq_false, not_not] at hneither
  have hsame : (m.step (.clear f (.interval h))).state = m.state :=
    (step_clear (f := f) hx hruns).1.trans (State.clear_object hf h)
  have hfires : (m.step (.clear f (.interval h))).Fires h := by
    apply fires_of_live (hm.step _)
    · rw [hsame]
      exact hneither.1
    · rw [hsame]
      exact hneither.2
  obtain ⟨mid, a, hcalls⟩ := hfires
  exact hnever mid a hcalls

end Marked

theorem marked_append (acts acts' : List Act) :
    marked (acts ++ acts') = acts'.foldl Marked.step (marked acts) :=
  List.foldl_append

/-- After a handle has been passed to a clear function, whichever one, its callback is never called again
and nothing is different for other handles, precisely if the function finds no timer but one of the
handle, and the handle is no interval that still ticks unless the function is `clearInterval`. -/
theorem clear_with_any_iff (before : List Act) (x : Returned) (f : ClearFunction)
    (hknown : (marked before).Known x) (hruns : (run before).codeRuns) :
    ((∀ mid a, ¬ (marked (before ++ .clear f x.arg :: mid)).Calls a x) ∧
      ∀ y ≠ x, Marked.Untouched y (marked before) (marked (before ++ [.clear f x.arg]))) ↔
    (marked before).ClearsOwn f x := by
  have hsound := sound_marked before
  have hmade : (marked before).state.AllMade := by
    rw [marked_state]
    exact State.allMade_run before
  rw [← marked_state] at hruns
  have hclear : marked (before ++ [.clear f x.arg]) = (marked before).step (.clear f x.arg) :=
    marked_append before _
  have hafter : ∀ mid, marked (before ++ .clear f x.arg :: mid) =
      mid.foldl Marked.step ((marked before).step (.clear f x.arg)) :=
    fun mid ↦ marked_append before _
  have huntouched := Marked.untouched_iff (f := f) hsound hknown hruns
  simp only [hclear, hafter]
  constructor
  · rintro ⟨hnever, hothers⟩
    refine ⟨huntouched.mp hothers, ?_⟩
    rintro h rfl
    by_cases hf : f = .interval
    · exact Or.inl hf
    · exact Or.inr (Marked.ends_of_never hsound hknown hruns hf hnever)
  · intro hclears
    refine ⟨fun mid a ↦ ?_, huntouched.mpr hclears.finds⟩
    have hsilent := hclears.silent hsound hmade hknown hruns
    have hrun := hsilent.run (hsound.step _) mid
    exact hrun.1.not_calls hrun.2 a

/-- An interval that `clearTimeout` is called with. -/
theorem clear_with_any_object :
    ((∀ mid a, ¬ (marked ([.script, .setInterval, .ret] ++
          .clear .timeout (Returned.object 0).arg :: mid)).Calls a (.object 0)) ∧
      ∀ y ≠ .object 0, Marked.Untouched y (marked [.script, .setInterval, .ret])
        (marked ([.script, .setInterval, .ret] ++ [.clear .timeout (Returned.object 0).arg]))) ↔
    (marked [.script, .setInterval, .ret]).ClearsOwn .timeout (.object 0) :=
  clear_with_any_iff [.script, .setInterval, .ret] (.object 0) .timeout (Nat.succ_ne_zero 0) (by decide)

theorem clearTimeout_leaves_interval :
    (marked [.script, .setInterval, .ret]).Known (.object 0) ∧
      (run [.script, .setInterval, .ret]).codeRuns = true ∧
      (marked [.script, .setInterval, .ret, .clear .timeout (Returned.object 0).arg, .ret]).Calls
        (.fire 0) (.object 0) :=
  ⟨Nat.succ_ne_zero 0, rfl, 0, 0, rfl, rfl, rfl, rfl⟩

-- Before the numbers come round each of them finds its own timer.
theorem clearsOwn_iff_of_few {acts : List Act} (hfew : (run acts).Few) {x : Returned}
    (hknown : (marked acts).Known x) (f : ClearFunction) :
    (marked acts).ClearsOwn f x ↔
      ∀ h, x = .object h → f = .interval ∨ ((run acts).intervals h).active = false ∨
        ¬ (run acts).Live h := by
  have hsound := sound_marked acts
  have hids := State.ids_run hfew
  have hnumber : ∀ k < (marked acts).state.created.length, timerNumber k = k + 1 := by
    intro k hk
    rw [marked_state] at hk
    unfold State.Few at hfew
    rw [timerNumber, Nat.mod_eq_of_lt (by omega)]
  rw [← marked_state] at hids ⊢
  constructor
  · exact fun hclears ↦ hclears.ends
  · intro hends
    refine ⟨fun i hi ↦ ?_, hends⟩
    have hfinds : ∀ k, k < (marked acts).state.created.length → (marked acts).state.returned k = x →
        (marked acts).state.findTimerById (timerNumber k) = some i →
        (marked acts).pending[i]?.map (marked acts).state.returned = some x := by
      intro k hk hx hfind
      obtain ⟨k', hk', heq⟩ := hsound.found hfind
      have hsame := Int.ofNat.inj heq
      rw [hnumber k' (hsound.bound k' (List.mem_of_getElem? hk')), hnumber k hk] at hsame
      rw [hk', Nat.succ.inj hsame, Option.map_some, hx]
    cases x with
    | number k =>
      apply hfinds k hknown.1 hknown.2
      rw [← int32_timerNumber, ← hi]
      cases f <;> rfl
    | object h =>
      by_cases hf : f = .interval
      · obtain ⟨k, hk, hid⟩ := hids.intervals h hknown
        have hlt := (List.getElem?_eq_some_iff.mp hk).1
        apply hfinds k hlt
        · rw [returned_eq_object, State.funcOf, List.getD_eq_getElem?_getD, hk]
          rfl
        · rw [hnumber k hlt, ← hid, ← hi, hf]
          rfl
      · cases f with
        | interval => exact absurd rfl hf
        | timeout => cases hi
        | immediate => cases hi

end QNode.Timers
