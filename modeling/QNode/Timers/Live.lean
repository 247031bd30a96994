import QNode.Timers.Marks
import QNode.Timers.Ticks

/-!
# Intervals that still tick

An interval ticks again only while a tick of it is pending or in progress; it comes to that with
`setInterval` and not afterwards.
-/

namespace QNode.Timers

namespace State

variable {s t : State} {h : Nat}

/-- A tick of the interval is pending or in progress. -/
def Live (s : State) (h : Nat) : Prop :=
  (∃ th ∈ s.osTimers, th.func = .tick h) ∨ ∃ frame ∈ s.stack, frame.tickOf = some h

/-- From `s` to `t` an interval comes to tick, and to have a number, only if it did tick or was made in
between. -/
structure TicksFrom (s t : State) : Prop where
  made : s.made ≤ t.made
  live : ∀ h, t.Live h → s.Live h ∨ (s.made ≤ h ∧ h < t.made)
  ids : ∀ h, (t.intervals h).id ≠ 0 → (s.intervals h).id ≠ 0 ∨ s.Live h

theorem Live.of_timer {th : JSOSTimer} (hth : th ∈ s.osTimers) (hfunc : th.func = .tick h) : s.Live h :=
  Or.inl ⟨th, hth, hfunc⟩

theorem Live.of_frame {frame : Frame} (hframe : frame ∈ s.stack) (htick : frame.tickOf = some h) :
    s.Live h :=
  Or.inr ⟨frame, hframe, htick⟩

theorem TicksFrom.of_parts (hmade : s.made ≤ t.made)
    (htimers : ∀ th ∈ t.osTimers, ∀ h, th.func = .tick h → s.Live h)
    (hframes : ∀ frame ∈ t.stack, ∀ h, frame.tickOf = some h → s.Live h ∨ (s.made ≤ h ∧ h < t.made))
    (hids : ∀ h, (t.intervals h).id ≠ 0 → (s.intervals h).id ≠ 0 ∨ s.Live h) : TicksFrom s t where
  made := hmade
  live h hlive := by
    cases hlive with
    | inl htimer =>
      obtain ⟨th, hth, hfunc⟩ := htimer
      exact Or.inl (htimers th hth h hfunc)
    | inr hframe =>
      obtain ⟨frame, hmem, htick⟩ := hframe
      exact hframes frame hmem h htick
  ids := hids

-- Most steps only take timers away, and calls.
theorem TicksFrom.of_subset (hmade : t.made = s.made) (htimers : t.osTimers ⊆ s.osTimers)
    (hframes : ∀ frame ∈ t.stack, frame ∈ s.stack ∨ frame.tickOf = none)
    (hids : ∀ h, (t.intervals h).id = (s.intervals h).id) : TicksFrom s t := by
  refine TicksFrom.of_parts (Nat.le_of_eq hmade.symm) ?_ ?_ ?_
  · exact fun th hth h hfunc ↦ Live.of_timer (htimers hth) hfunc
  · intro frame hframe h htick
    cases hframes frame hframe with
    | inl hmem => exact Or.inl (Live.of_frame hmem htick)
    | inr hnone =>
      rw [hnone] at htick
      cases htick
  · intro h hne
    rw [hids] at hne
    exact Or.inl hne

theorem TicksFrom.refl (s : State) : TicksFrom s s :=
  TicksFrom.of_subset rfl (List.Subset.refl _) (fun _ hframe ↦ Or.inl hframe) fun _ ↦ rfl

theorem ticksFrom_arm {func : Func} {stack : List Frame} (hstack : stack ⊆ s.stack)
    (hfunc : ∀ h, func = .tick h → s.Live h) : TicksFrom s ({ s with stack := stack }.arm func) := by
  have hmade : ({ s with stack := stack }.arm func).made = s.made := arm_made _ func
  refine TicksFrom.of_parts (Nat.le_of_eq hmade.symm) ?_ ?_ ?_
  · intro th hth h htick
    rw [arm_osTimers] at hth
    cases List.mem_append.mp hth with
    | inl hold => exact Live.of_timer hold htick
    | inr hnew =>
      rw [List.mem_singleton.mp hnew] at htick
      exact hfunc h htick
  · intro frame hframe h htick
    rw [arm_stack] at hframe
    exact Or.inl (Live.of_frame (hstack hframe) htick)
  · intro h hne
    rw [arm_intervals] at hne
    by_cases heq : func = .tick h
    · exact Or.inr (hfunc h heq)
    · rw [if_neg heq] at hne
      exact Or.inl hne

theorem tickOf_callback {th : JSOSTimer} (htick : Frame.tickOf (.callback th.handle) = some h) :
    th.func = .tick h := by
  unfold JSOSTimer.handle at htick
  cases hfunc : th.func with
  | tick h' =>
    rw [hfunc] at htick
    exact congrArg Func.tick (Option.some.inj htick)
  | timeout =>
    rw [hfunc] at htick
    cases htick
  | immediate =>
    rw [hfunc] at htick
    cases htick

theorem ticksFrom_fire (s : State) (i : Nat) : TicksFrom s (s.jsOsPoll i) := by
  have hsub : (s.freeTimer i).osTimers ⊆ s.osTimers := (s.freeTimer_sublist i).subset
  unfold jsOsPoll
  cases hget : s.osTimers[i]? with
  | none => exact TicksFrom.refl s
  | some th =>
    show TicksFrom s ((s.freeTimer i).callHandler th)
    cases (s.freeTimer i).callHandler_cases th with
    | inl hinactive =>
      obtain ⟨_, -, -, heq⟩ := hinactive
      rw [heq]
      exact TicksFrom.of_subset rfl hsub (fun _ hframe ↦ Or.inl hframe) fun _ ↦ rfl
    | inr hactive =>
      rw [hactive.2]
      refine TicksFrom.of_parts (Nat.le_refl _) ?_ ?_ fun _ hne ↦ Or.inl hne
      · exact fun th hth h hfunc ↦ Live.of_timer (hsub hth) hfunc
      · intro frame hframe h htick
        cases hframe with
        | head => exact Or.inl (Live.of_timer (List.mem_of_getElem? hget) (tickOf_callback htick))
        | tail _ hmem => exact Or.inl (Live.of_frame hmem htick)

theorem ticksFrom_ret (s : State) : TicksFrom s s.ret := by
  have hpop : ∀ {frame : Frame} {stack : List Frame}, s.stack = frame :: stack →
      TicksFrom s { s with stack := stack } := by
    intro frame stack hstack
    refine TicksFrom.of_subset rfl (List.Subset.refl _) (fun below hbelow ↦ Or.inl ?_) fun _ ↦ rfl
    rw [hstack]
    exact List.mem_cons_of_mem frame hbelow
  unfold ret
  split
  next => exact TicksFrom.refl s
  next func stack hstack =>
    apply ticksFrom_arm
    · rw [hstack]
      exact List.subset_cons_self _ _
    · rintro h rfl
      exact Live.of_frame (by rw [hstack]; exact List.mem_cons_self) rfl
  next h stack hstack =>
    split
    · refine TicksFrom.of_parts (Nat.le_refl _) (fun _ hth _ ↦ Live.of_timer hth) ?_ fun _ ↦ Or.inl
      have htop : .callback (.interval h) ∈ s.stack := by
        rw [hstack]
        exact List.mem_cons_self
      intro frame hframe h' htick
      left
      cases hframe with
      | head => exact Live.of_frame htop htick
      | tail _ hmem => exact Live.of_frame (by rw [hstack]; exact List.mem_cons_of_mem _ hmem) htick
    · exact hpop hstack
  next hstack => exact hpop hstack

theorem ticksFrom_step (s : State) (a : Act) : TicksFrom s (s.step a) := by
  have hcond : ∀ {c : Bool} {t : State}, TicksFrom s t → TicksFrom s (if c then t else s) := by
    intro c t ht
    cases c with
    | false => exact TicksFrom.refl s
    | true => exact ht
  have hpush : ∀ {frame : Frame}, frame.tickOf = none →
      TicksFrom s { s with stack := frame :: s.stack } := by
    intro frame hnone
    refine TicksFrom.of_subset rfl (List.Subset.refl _) (fun f hf ↦ ?_) fun _ ↦ rfl
    cases hf with
    | head => exact Or.inr hnone
    | tail _ hmem => exact Or.inl hmem
  cases a with
  | script =>
    unfold step
    cases hruns : s.codeRuns with
    | true => exact TicksFrom.refl s
    | false =>
      have hnil : s.stack = [] := by simpa [codeRuns] using hruns
      have hscript := (hpush rfl : TicksFrom s { s with stack := .script :: s.stack })
      rw [hnil] at hscript
      exact hscript
  | fire i =>
    unfold step
    cases s.codeRuns with
    | true => exact TicksFrom.refl s
    | false => exact s.ticksFrom_fire i
  | setTimeout => exact hcond (hpush rfl)
  | setImmediate =>
    exact hcond (ticksFrom_arm (List.Subset.refl _) (by intro _ heq; cases heq))
  | setInterval =>
    apply hcond
    refine TicksFrom.of_parts (Nat.le_succ _) (fun _ hth _ ↦ Live.of_timer hth) ?_ fun _ ↦ Or.inl
    intro frame hframe h htick
    cases hframe with
    | head =>
      obtain rfl := Option.some.inj htick
      exact Or.inr ⟨Nat.le_refl _, Nat.lt_succ_self _⟩
    | tail _ hmem => exact Or.inl (Live.of_frame hmem htick)
  | clear f arg =>
    apply hcond
    have htimers := (s.clear_eq f arg).1
    have hsame := s.clear_made f arg
    refine TicksFrom.of_subset hsame.1 ?_ ?_ hsame.2
    · rw [htimers]
      exact (removed_sublist _ _).subset
    · rw [clear_call_stack]
      exact fun _ ↦ Or.inl
  | ret => exact s.ticksFrom_ret
  | throw =>
    refine TicksFrom.of_subset rfl (List.Subset.refl _) (fun frame hframe ↦ Or.inl ?_) fun _ ↦ rfl
    exact List.mem_of_mem_tail hframe

/-- Every interval that ticks, or has a number, has been made. -/
def AllMade (s : State) : Prop := ∀ h, s.Live h ∨ (s.intervals h).id ≠ 0 → h < s.made

theorem AllMade.step (hs : s.AllMade) (a : Act) : (s.step a).AllMade := by
  have hfrom := s.ticksFrom_step a
  have hold : ∀ h, s.Live h ∨ (s.intervals h).id ≠ 0 → h < (s.step a).made :=
    fun h hh ↦ Nat.lt_of_lt_of_le (hs h hh) hfrom.made
  intro h hh
  cases hh with
  | inl hlive =>
    cases hfrom.live h hlive with
    | inl hlive => exact hold h (Or.inl hlive)
    | inr hnew => exact hnew.2
  | inr hid => exact hold h (hfrom.ids h hid).symm

theorem allMade_run (acts : List Act) : (run acts).AllMade := by
  suffices hrun : ∀ s : State, s.AllMade → (acts.foldl State.step s).AllMade by
    apply hrun start
    rintro h ((⟨th, hth, -⟩ | ⟨frame, hframe, -⟩) | hid)
    · cases hth
    · cases hframe
    · exact absurd rfl hid
  intro s hs
  induction acts generalizing s with
  | nil => exact hs
  | cons a acts ih => exact ih _ (hs.step a)

end State

end QNode.Timers
