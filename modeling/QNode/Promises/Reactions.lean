import Mathlib.Data.List.Nodup
import QNode.Promises.Settlers

/-!
# Reactions and rejections

Every reaction makes the one job that the outcome of its promise asks for, in the order of the calls of `then`,
and the host's list holds the rejected promises whose `then` has not been called.
-/

namespace QNode.Promises

variable {s s' : State} {p q : Nat} {d d' : JSPromiseData} {thens : List Then} {jobs : List JSJobEntry}

/-! ## One promise -/

def JSJobEntry.reacts (p : Nat) : JSJobEntry → Bool
  | .reaction q _ _ _ => q == p
  | _ => false

/-- The promise agrees with the calls of its `then` and the jobs of its reactions. -/
structure JSPromiseData.Agrees (d : JSPromiseData) (p : Nat) (thens : List Then) (jobs : List JSJobEntry) :
    Prop where
  waiting : d.promiseState = .pending → ∀ isReject, d.reactions isReject = thens.map fun t ↦ t.reaction isReject
  answered : jobs = thens.flatMap (d.answer p)
  handled : d.isHandled = true ↔ thens ≠ []

theorem JSPromiseData.Agrees.new (p : Nat) : JSPromiseData.new.Agrees p [] [] := by
  constructor
  · intro _ isReject
    cases isReject
    · rfl
    · rfl
  · rfl
  · exact iff_of_false Bool.false_ne_true (not_not.mpr rfl)

theorem answer_settle (d : JSPromiseData) (p : Nat) (isReject : Bool) (v : Value) (t : Then) :
    (d.settle isReject v).answer p t = [.reaction p (t.reaction isReject) isReject v] := by
  cases isReject with
  | false => rfl
  | true => rfl

theorem answer_register (d : JSPromiseData) (t : Then) (p : Nat) : (d.register t).answer p = d.answer p := by
  funext t'
  rw [JSPromiseData.answer, JSPromiseData.answer, register_state, register_result]

-- What waits becomes what is answered.
theorem JSPromiseData.Agrees.settle (h : d.Agrees p thens jobs) (hd : d.promiseState = .pending) (isReject : Bool)
    (v : Value) : (d.settle isReject v).Agrees p thens
      (jobs ++ (d.reactions isReject).map fun rd ↦ .reaction p rd isReject v) := by
  constructor
  · exact fun hpending ↦ absurd hpending (settle_state d isReject v)
  · have hnone : thens.flatMap (d.answer p) = [] := by
      rw [List.flatMap_eq_nil_iff]
      intro t _
      rw [JSPromiseData.answer, hd]
    rw [h.answered, hnone, h.waiting hd, List.map_map, List.nil_append, List.map_eq_flatMap]
    exact congrArg (fun f ↦ thens.flatMap f) (funext fun t ↦ (answer_settle d p isReject v t).symm)
  · exact h.handled

theorem JSPromiseData.Agrees.register (h : d.Agrees p thens jobs) (t : Then) :
    (d.register t).Agrees p (thens ++ [t]) (jobs ++ d.answer p t) := by
  constructor
  · intro hpending isReject
    have hd := (register_state d t).symm.trans hpending
    rw [List.map_append, ← h.waiting hd isReject, JSPromiseData.register, if_pos hd]
    cases isReject with
    | false => rfl
    | true => rfl
  · rw [answer_register, List.flatMap_append, List.flatMap_singleton, h.answered]
  · exact iff_of_true (register_handled d t) (List.append_ne_nil_of_right_ne_nil _ (List.cons_ne_nil t []))

/-- What the host's list says of a promise. -/
structure JSPromiseData.Listed (d : JSPromiseData) (reason : Value) : Prop where
  rejected : d.promiseState = .rejected
  unhandled : d.isHandled = false
  result : d.promiseResult = reason

/-! ## All promises -/

namespace State

def thensOf (s : State) (p : Nat) : List Then := s.thens.filter fun t ↦ t.promise == p

def reactionsOf (s : State) (p : Nat) : List JSJobEntry := s.enqueued.filter (JSJobEntry.reacts p)

/-- The record agrees with the promises. -/
structure Recorded (s : State) : Prop where
  queue : s.enqueued = s.taken ++ s.jobList
  agrees : ∀ (p : Nat) (d : JSPromiseData), s.promises[p]? = some d → d.Agrees p (s.thensOf p) (s.reactionsOf p)
  unborn : ∀ p, s.promises.length ≤ p → s.thensOf p = [] ∧ s.reactionsOf p = []

theorem recorded_start (tracker : Bool) : (start tracker).Recorded := by
  refine ⟨rfl, fun p d hget ↦ ?_, fun _ _ ↦ ⟨rfl, rfl⟩⟩
  cases hget

theorem Recorded.congr (h : s.Recorded) (hpromises : s'.promises = s.promises) (hthens : s'.thens = s.thens)
    (hreactions : ∀ p, s'.reactionsOf p = s.reactionsOf p) (hqueue : s'.enqueued = s'.taken ++ s'.jobList) :
    s'.Recorded := by
  have hof : ∀ p, s'.thensOf p = s.thensOf p := fun p ↦ by rw [thensOf, thensOf, hthens]
  refine ⟨hqueue, fun p d hget ↦ ?_, fun p hp ↦ ?_⟩
  · rw [hof, hreactions]
    exact h.agrees p d (hpromises ▸ hget)
  · rw [hof, hreactions]
    exact h.unborn p (hpromises ▸ hp)

theorem Recorded.enqueueJob (h : s.Recorded) {e : JSJobEntry} (he : ∀ p, e.reacts p = false) :
    (s.jsEnqueueJob e).Recorded := by
  refine h.congr rfl rfl ?_ ?_
  · intro p
    rw [reactionsOf, reactionsOf, jsEnqueueJob, List.filter_append, List.filter_singleton, he p]
    exact List.append_nil _
  · rw [jsEnqueueJob, h.queue, List.append_assoc]

theorem Recorded.take (h : s.Recorded) {e : JSJobEntry} {rest : List JSJobEntry} (hjobs : s.jobList = e :: rest) :
    ({ s with jobList := rest, taken := s.taken ++ [e] } : State).Recorded := by
  refine h.congr rfl rfl (fun _ ↦ rfl) ?_
  show s.enqueued = s.taken ++ [e] ++ rest
  rw [h.queue, hjobs, List.append_assoc]
  rfl

theorem getElem?_concat_cases {x : JSPromiseData} (hx : (s.promises ++ [d])[q]? = some x) :
    s.promises[q]? = some x ∨ (q = s.promises.length ∧ x = d) := by
  rcases Nat.lt_trichotomy q s.promises.length with hq | hq | hq
  · rw [List.getElem?_append_left hq] at hx
    exact Or.inl hx
  · rw [hq, List.getElem?_concat_length] at hx
    exact Or.inr ⟨hq, (Option.some.inj hx).symm⟩
  · rw [List.getElem?_eq_none (by rw [List.length_append]; exact hq)] at hx
    cases hx

theorem getElem?_set_cases {x : JSPromiseData} (hget : s.promises[p]? = some d)
    (hx : (s.promises.set p d')[q]? = some x) :
    (q = p ∧ x = d') ∨ (q ≠ p ∧ s.promises[q]? = some x) := by
  by_cases hq : q = p
  · rw [hq, List.getElem?_set_self (List.getElem?_eq_some_iff.mp hget).1] at hx
    exact Or.inl ⟨hq, (Option.some.inj hx).symm⟩
  · rw [List.getElem?_set_ne (Ne.symm hq)] at hx
    exact Or.inr ⟨hq, hx⟩

theorem Recorded.create (h : s.Recorded) :
    ({ s with promises := s.promises ++ [JSPromiseData.new] } : State).Recorded := by
  refine ⟨h.queue, fun p d hget ↦ ?_, fun p hp ↦ h.unborn p ?_⟩
  · rcases getElem?_concat_cases hget with hold | ⟨hp, rfl⟩
    · exact h.agrees p d hold
    · obtain ⟨hthens, hreactions⟩ := h.unborn p (Nat.le_of_eq hp.symm)
      show JSPromiseData.new.Agrees p (s.thensOf p) (s.reactionsOf p)
      rw [hthens, hreactions]
      exact .new p
  · have hlen : (s.promises ++ [JSPromiseData.new]).length ≤ p := hp
    rw [List.length_append] at hlen
    omega

-- One promise changes, and the record of it.
theorem Recorded.update (h : s.Recorded) (hget : s.promises[p]? = some d)
    (hpromises : s'.promises = s.promises.set p d')
    (hthens : ∀ q, q ≠ p → s'.thensOf q = s.thensOf q)
    (hreactions : ∀ q, q ≠ p → s'.reactionsOf q = s.reactionsOf q)
    (hagrees : d'.Agrees p (s'.thensOf p) (s'.reactionsOf p))
    (hqueue : s'.enqueued = s'.taken ++ s'.jobList) : s'.Recorded := by
  refine ⟨hqueue, fun q x hx ↦ ?_, fun q hq ↦ ?_⟩
  · rw [hpromises] at hx
    rcases getElem?_set_cases hget hx with ⟨rfl, rfl⟩ | ⟨hq, hold⟩
    · exact hagrees
    · rw [hthens q hq, hreactions q hq]
      exact h.agrees q x hold
  · rw [hpromises, List.length_set] at hq
    have hp := (List.getElem?_eq_some_iff.mp hget).1
    have hne : q ≠ p := by omega
    rw [hthens q hne, hreactions q hne]
    exact h.unborn q hq

theorem reactionsOf_append (s s' : State) (h : s'.enqueued = s.enqueued ++ jobs) (hjobs : ∀ e ∈ jobs, e.reacts p = true) :
    s'.reactionsOf p = s.reactionsOf p ++ jobs ∧ ∀ q, q ≠ p → s'.reactionsOf q = s.reactionsOf q := by
  constructor
  · rw [reactionsOf, reactionsOf, h, List.filter_append, List.filter_eq_self.mpr hjobs]
  · intro q hq
    have hnone : jobs.filter (JSJobEntry.reacts q) = [] := by
      rw [List.filter_eq_nil_iff]
      intro e he hreacts
      have hp := hjobs e he
      cases e with
      | reaction r rd isReject arg => exact hq ((beq_iff_eq.mp hreacts).symm.trans (beq_iff_eq.mp hp))
      | resolveThenable r v then_ => cases hp
      | other => cases hp
    rw [reactionsOf, reactionsOf, h, List.filter_append, hnone, List.append_nil]

theorem thensOf_append (s s' : State) {t : Then} (h : s'.thens = s.thens ++ [t]) :
    s'.thensOf t.promise = s.thensOf t.promise ++ [t] ∧ ∀ q, q ≠ t.promise → s'.thensOf q = s.thensOf q := by
  constructor
  · rw [thensOf, thensOf, h, List.filter_append, List.filter_singleton, beq_self_eq_true, cond_true]
  · intro q hq
    rw [thensOf, thensOf, h, List.filter_append, List.filter_singleton, beq_eq_false_iff_ne.mpr (Ne.symm hq),
      cond_false, List.append_nil]

theorem Recorded.settle (h : s.Recorded) (hget : s.promises[p]? = some d) (hd : d.promiseState = .pending)
    (v : Value) (isReject : Bool) : (s.fulfillOrRejectPromise p v isReject).Recorded := by
  rw [fulfillOrRejectPromise_eq hget hd]
  obtain ⟨hself, hothers⟩ := reactionsOf_append (p := p) s { s with
    promises := s.promises.set p (d.settle isReject v)
    enqueued := s.enqueued ++ (d.reactions isReject).map fun rd ↦ .reaction p rd isReject v } rfl (by
      intro e he
      obtain ⟨rd, -, rfl⟩ := List.mem_map.mp he
      exact beq_self_eq_true p)
  refine h.update hget rfl (fun _ _ ↦ rfl) hothers ?_ ?_
  · have hagrees := (h.agrees p d hget).settle hd isReject v
    rw [← hself] at hagrees
    exact hagrees
  · show s.enqueued ++ _ = s.taken ++ (s.jobList ++ _)
    rw [h.queue, List.append_assoc]

theorem Recorded.performThen (h : s.Recorded) (p : Nat) (onFulfilled onRejected resolve reject : Value) :
    (s.performPromiseThen p onFulfilled onRejected resolve reject).Recorded := by
  cases hget : s.promises[p]? with
  | none =>
    rw [performPromiseThen_none hget]
    exact h
  | some d =>
    rw [performPromiseThen_eq hget]
    generalize ht : Then.make p onFulfilled onRejected resolve reject = t
    obtain rfl : t.promise = p := by
      rw [← ht]
      rfl
    have hanswer : ∀ e ∈ d.answer t.promise t, e.reacts t.promise = true := by
      intro e he
      rw [JSPromiseData.answer] at he
      split at he
      · cases he
      · rw [List.mem_singleton.mp he]
        exact beq_self_eq_true t.promise
      · rw [List.mem_singleton.mp he]
        exact beq_self_eq_true t.promise
    obtain ⟨hself, hothers⟩ := reactionsOf_append s { s with
      promises := s.promises.set t.promise (d.register t)
      enqueued := s.enqueued ++ d.answer t.promise t } rfl hanswer
    obtain ⟨hthens, hthens'⟩ := thensOf_append s { s with
      promises := s.promises.set t.promise (d.register t)
      thens := s.thens ++ [t] } rfl
    refine h.update hget rfl hthens' hothers ?_ ?_
    · have hagrees := (h.agrees t.promise d hget).register t
      rw [← hself, ← hthens] at hagrees
      exact hagrees
    · show s.enqueued ++ _ = s.taken ++ (s.jobList ++ _)
      rw [h.queue, List.append_assoc]

/-! ## The host's list -/

/-- The host's list agrees with the promises. -/
structure Tracked (s : State) : Prop where
  mem_iff : s.tracker = true → ∀ rp, rp ∈ s.rejectedPromiseList ↔
    ∃ d, s.promises[rp.promise]? = some d ∧ d.Listed rp.reason
  nodup : s.rejectedPromiseList.Nodup
  off : s.tracker = false → s.rejectedPromiseList = []

theorem tracked_start (tracker : Bool) : (start tracker).Tracked := by
  refine ⟨fun _ rp ↦ iff_of_false List.not_mem_nil ?_, List.nodup_nil, fun _ ↦ rfl⟩
  rintro ⟨d, hget, -⟩
  cases hget

theorem Tracked.congr (h : s.Tracked) (hpromises : s'.promises = s.promises)
    (hlist : s'.rejectedPromiseList = s.rejectedPromiseList) (htracker : s'.tracker = s.tracker) : s'.Tracked := by
  refine ⟨fun ht rp ↦ ?_, ?_, fun ht ↦ ?_⟩
  · rw [hlist, hpromises]
    exact h.mem_iff (htracker ▸ ht) rp
  · rw [hlist]
    exact h.nodup
  · rw [hlist]
    exact h.off (htracker ▸ ht)

theorem Tracked.create (h : s.Tracked) :
    ({ s with promises := s.promises ++ [JSPromiseData.new] } : State).Tracked := by
  refine ⟨fun ht rp ↦ (h.mem_iff ht rp).trans ?_, h.nodup, h.off⟩
  constructor
  · rintro ⟨d, hget, hd⟩
    exact ⟨d, (List.getElem?_append_left (List.getElem?_eq_some_iff.mp hget).1).trans hget, hd⟩
  · rintro ⟨d, hget, hd⟩
    rcases getElem?_concat_cases hget with hold | ⟨-, rfl⟩
    · exact ⟨d, hold, hd⟩
    · cases hd.rejected

-- One promise changes, and its entry.
theorem Tracked.update (h : s.Tracked) (hget : s.promises[p]? = some d)
    (hpromises : s'.promises = s.promises.set p d') (htracker : s'.tracker = s.tracker)
    (hlist : s.tracker = true → ∀ rp, rp ∈ s'.rejectedPromiseList ↔
      (rp.promise ≠ p ∧ rp ∈ s.rejectedPromiseList) ∨ (rp.promise = p ∧ d'.Listed rp.reason))
    (hnodup : s'.rejectedPromiseList.Nodup) (hoff : s.tracker = false → s'.rejectedPromiseList = []) :
    s'.Tracked := by
  refine ⟨fun ht rp ↦ ?_, hnodup, fun ht ↦ hoff (htracker ▸ ht)⟩
  have ht' : s.tracker = true := htracker ▸ ht
  rw [hlist ht', h.mem_iff ht', hpromises]
  constructor
  · rintro (⟨hne, x, hx, hlisted⟩ | ⟨rfl, hlisted⟩)
    · exact ⟨x, (List.getElem?_set_ne (Ne.symm hne)).trans hx, hlisted⟩
    · exact ⟨d', List.getElem?_set_self (List.getElem?_eq_some_iff.mp hget).1, hlisted⟩
  · rintro ⟨x, hx, hlisted⟩
    rcases getElem?_set_cases hget hx with ⟨hp, rfl⟩ | ⟨hne, hold⟩
    · exact Or.inr ⟨hp, hlisted⟩
    · exact Or.inl ⟨hne, x, hold, hlisted⟩

theorem Tracked.entry (h : s.Tracked) (hget : s.promises[p]? = some d) (ht : s.tracker = true)
    {rp : JSRejectedPromiseEntry} (hrp : rp ∈ s.rejectedPromiseList) (hp : rp.promise = p) :
    d.Listed rp.reason := by
  obtain ⟨x, hx, hlisted⟩ := (h.mem_iff ht rp).mp hrp
  rw [hp, hget] at hx
  cases hx
  exact hlisted

-- An entry stays out of the way of a promise that has none before and after.
theorem Tracked.keep (h : s.Tracked) (hget : s.promises[p]? = some d)
    (hpromises : s'.promises = s.promises.set p d') (htracker : s'.tracker = s.tracker)
    (hlist : s'.rejectedPromiseList = s.rejectedPromiseList) (hd : ∀ reason, ¬ d.Listed reason)
    (hd' : ∀ reason, s.tracker = true → ¬ d'.Listed reason) : s'.Tracked := by
  refine h.update hget hpromises htracker (fun ht rp ↦ ?_) (hlist ▸ h.nodup) fun ht ↦ hlist ▸ h.off ht
  rw [hlist]
  constructor
  · exact fun hrp ↦ Or.inl ⟨fun hp ↦ hd _ (h.entry hget ht hrp hp), hrp⟩
  · rintro (⟨-, hrp⟩ | ⟨-, hlisted⟩)
    · exact hrp
    · exact absurd hlisted (hd' _ ht)

theorem Tracked.settle (h : s.Tracked) (hget : s.promises[p]? = some d) (hd : d.promiseState = .pending)
    (v : Value) (isReject : Bool) : (s.fulfillOrRejectPromise p v isReject).Tracked := by
  rw [fulfillOrRejectPromise_eq hget hd]
  have hunlisted : ∀ reason, ¬ d.Listed reason := by
    intro reason hlisted
    have hrejected := hlisted.rejected
    rw [hd] at hrejected
    cases hrejected
  by_cases hadd : (isReject && !d.isHandled) = true
  · rw [if_pos hadd]
    obtain ⟨rfl, hhandled⟩ : isReject = true ∧ d.isHandled = false := by simpa using hadd
    by_cases ht : s.tracker = true
    · have hnone : findRejectedPromise s.rejectedPromiseList p = none := by
        rw [findRejectedPromise, List.find?_eq_none]
        intro rp hrp hp
        exact hunlisted _ (h.entry hget ht hrp (beq_iff_eq.mp hp))
      have hlist : s.hostPromiseRejectionTracker p v false = s.rejectedPromiseList ++ [⟨p, v⟩] := by
        unfold hostPromiseRejectionTracker
        rw [if_pos ht, hnone]
      have hnew : (⟨p, v⟩ : JSRejectedPromiseEntry) ∉ s.rejectedPromiseList :=
        fun hrp ↦ hunlisted _ (h.entry hget ht hrp rfl)
      rw [hlist]
      refine h.update hget rfl rfl (fun _ rp ↦ ?_) ?_ fun hoff ↦ absurd (hoff.symm.trans ht) Bool.false_ne_true
      · rw [List.mem_append, List.mem_singleton]
        constructor
        · rintro (hrp | rfl)
          · exact Or.inl ⟨fun hp ↦ hunlisted _ (h.entry hget ht hrp hp), hrp⟩
          · exact Or.inr ⟨rfl, rfl, hhandled, rfl⟩
        · rintro (⟨-, hrp⟩ | ⟨rfl, hlisted⟩)
          · exact Or.inl hrp
          · exact Or.inr (congrArg (fun v' ↦ (⟨rp.promise, v'⟩ : JSRejectedPromiseEntry)) hlisted.result.symm)
      · exact List.nodup_append_comm.mp (List.nodup_cons.mpr ⟨hnew, h.nodup⟩)
    · have hlist : s.hostPromiseRejectionTracker p v false = s.rejectedPromiseList := by
        unfold hostPromiseRejectionTracker
        rw [if_neg ht]
      rw [hlist]
      exact h.keep hget rfl rfl rfl hunlisted fun _ ht' ↦ absurd ht' ht
  · rw [if_neg hadd]
    refine h.keep hget rfl rfl rfl hunlisted fun reason _ hlisted ↦ hadd ?_
    have hrejected := hlisted.rejected
    have hunhandled : d.isHandled = false := hlisted.unhandled
    rw [hunhandled]
    cases isReject with
    | false => cases hrejected
    | true => rfl

theorem Tracked.performThen (h : s.Tracked) (p : Nat) (onFulfilled onRejected resolve reject : Value) :
    (s.performPromiseThen p onFulfilled onRejected resolve reject).Tracked := by
  cases hget : s.promises[p]? with
  | none =>
    rw [performPromiseThen_none hget]
    exact h
  | some d =>
    rw [performPromiseThen_eq hget]
    generalize Then.make p onFulfilled onRejected resolve reject = t
    have hunlisted : ∀ reason, ¬ (d.register t).Listed reason := by
      intro reason hlisted
      have hhandled := register_handled d t
      rw [hlisted.unhandled] at hhandled
      cases hhandled
    by_cases hremove : (decide (d.promiseState = .rejected) && !d.isHandled) = true
    · rw [if_pos hremove]
      obtain ⟨hrejected, hhandled⟩ : d.promiseState = .rejected ∧ d.isHandled = false := by
        simpa using hremove
      by_cases ht : s.tracker = true
      · have hmem : (⟨p, d.promiseResult⟩ : JSRejectedPromiseEntry) ∈ s.rejectedPromiseList :=
          (h.mem_iff ht _).mpr ⟨d, hget, hrejected, hhandled, rfl⟩
        have honly : ∀ rp ∈ s.rejectedPromiseList, rp.promise = p → rp = ⟨p, d.promiseResult⟩ := by
          intro rp hrp hp
          rw [(h.entry hget ht hrp hp).result, ← hp]
        have hlist : s.hostPromiseRejectionTracker p d.promiseResult true =
            s.rejectedPromiseList.erase ⟨p, d.promiseResult⟩ := by
          cases hfind : findRejectedPromise s.rejectedPromiseList p with
          | none => exact absurd (beq_self_eq_true p) (List.find?_eq_none.mp hfind _ hmem)
          | some rp =>
            have hp := List.find?_some (p := fun rp : JSRejectedPromiseEntry ↦ rp.promise == p) hfind
            have hrp := honly rp (List.mem_of_find?_eq_some hfind) (beq_iff_eq.mp hp)
            unfold hostPromiseRejectionTracker
            rw [if_pos ht, hfind, hrp]
        rw [hlist]
        refine h.update hget rfl rfl (fun _ rp ↦ ?_) (h.nodup.erase _)
          fun hoff ↦ absurd (hoff.symm.trans ht) Bool.false_ne_true
        rw [h.nodup.mem_erase_iff]
        constructor
        · rintro ⟨hne, hrp⟩
          exact Or.inl ⟨fun hp ↦ hne (honly rp hrp hp), hrp⟩
        · rintro (⟨hne, hrp⟩ | ⟨-, hlisted⟩)
          · exact ⟨fun heq ↦ hne (congrArg JSRejectedPromiseEntry.promise heq), hrp⟩
          · exact absurd hlisted (hunlisted _)
      · have hlist : s.hostPromiseRejectionTracker p d.promiseResult true = s.rejectedPromiseList := by
          unfold hostPromiseRejectionTracker
          rw [if_neg ht]
        rw [hlist]
        refine h.update hget rfl rfl (fun ht' ↦ absurd ht' ht) h.nodup h.off
    · rw [if_neg hremove]
      refine h.keep hget rfl rfl rfl (fun reason hlisted ↦ hremove ?_) fun reason _ ↦ hunlisted reason
      rw [hlisted.rejected, hlisted.unhandled]
      rfl

end State

end QNode.Promises
