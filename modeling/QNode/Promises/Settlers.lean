import Mathlib.Data.List.GetD
import QNode.Promises.Changes

/-!
# One way to settle a promise

What settling a promise and registering reactions with it change, and the first invariant: a pending promise
has exactly one that can still settle it, a settled one has none.
-/

namespace QNode.Promises

variable {s s' : State} {p : Nat} {d : JSPromiseData}

/-! ## The operations on one promise -/

/-- The jobs that a reaction of the promise makes, once it is settled. -/
def JSPromiseData.answer (d : JSPromiseData) (p : Nat) (t : Then) : List JSJobEntry :=
  match d.promiseState with
  | .pending => []
  | .fulfilled => [.reaction p t.onFulfilled false d.promiseResult]
  | .rejected => [.reaction p t.onRejected true d.promiseResult]

theorem register_state (d : JSPromiseData) (t : Then) : (d.register t).promiseState = d.promiseState := by
  rw [JSPromiseData.register]
  split
  · rfl
  · rfl

theorem register_result (d : JSPromiseData) (t : Then) : (d.register t).promiseResult = d.promiseResult := by
  rw [JSPromiseData.register]
  split
  · rfl
  · rfl

theorem register_handled (d : JSPromiseData) (t : Then) : (d.register t).isHandled = true := by
  rw [JSPromiseData.register]
  split
  · rfl
  · rfl

theorem settle_state (d : JSPromiseData) (isReject : Bool) (v : Value) :
    (d.settle isReject v).promiseState ≠ .pending := by
  cases isReject with
  | false => exact fun h ↦ by cases h
  | true => exact fun h ↦ by cases h

theorem foldl_enqueueJob {α : Type} (job : α → JSJobEntry) (l : List α) (s : State) :
    l.foldl (fun s a ↦ s.jsEnqueueJob (job a)) s =
      { s with jobList := s.jobList ++ l.map job, enqueued := s.enqueued ++ l.map job } := by
  induction l generalizing s with
  | nil => simp
  | cons a l ih =>
    rw [List.foldl_cons, ih]
    simp [State.jsEnqueueJob]

namespace State

theorem fulfillOrRejectPromise_eq (hget : s.promises[p]? = some d) (hd : d.promiseState = .pending)
    (v : Value) (isReject : Bool) :
    s.fulfillOrRejectPromise p v isReject = { s with
      promises := s.promises.set p (d.settle isReject v)
      rejectedPromiseList := if isReject && !d.isHandled then
        s.hostPromiseRejectionTracker p v false else s.rejectedPromiseList
      jobList := s.jobList ++ (d.reactions isReject).map fun rd ↦ .reaction p rd isReject v
      enqueued := s.enqueued ++ (d.reactions isReject).map fun rd ↦ .reaction p rd isReject v } := by
  unfold fulfillOrRejectPromise
  rw [hget]
  dsimp only
  rw [if_neg (not_not.mpr hd), foldl_enqueueJob]

theorem performPromiseThen_none (hget : s.promises[p]? = none) (onFulfilled onRejected resolve reject : Value) :
    s.performPromiseThen p onFulfilled onRejected resolve reject = s := by
  rw [performPromiseThen, hget]

theorem performPromiseThen_eq (hget : s.promises[p]? = some d) (onFulfilled onRejected resolve reject : Value) :
    s.performPromiseThen p onFulfilled onRejected resolve reject = { s with
      promises := s.promises.set p (d.register (Then.make p onFulfilled onRejected resolve reject))
      rejectedPromiseList := if d.promiseState = .rejected && !d.isHandled then
        s.hostPromiseRejectionTracker p d.promiseResult true else s.rejectedPromiseList
      jobList := s.jobList ++ d.answer p (Then.make p onFulfilled onRejected resolve reject)
      enqueued := s.enqueued ++ d.answer p (Then.make p onFulfilled onRejected resolve reject)
      thens := s.thens ++ [Then.make p onFulfilled onRejected resolve reject] } := by
  unfold performPromiseThen JSPromiseData.answer
  rw [hget]
  dsimp only
  cases hd : d.promiseState with
  | pending =>
    dsimp only
    rw [List.append_nil, List.append_nil]
  | fulfilled => rfl
  | rejected => rfl

/-! ## The invariant -/

/-- 1 for a promise that is pending. -/
def pending (s : State) (p : Nat) : Nat :=
  if s.promises[p]?.map JSPromiseData.promiseState = some .pending then 1 else 0

/-- A promise in hand counts as one that can be settled. -/
def OneSettler (s : State) (hand : Option Nat) : Prop :=
  ∀ p, s.settlers p + (if hand = some p then 1 else 0) = s.pending p

theorem oneSettler_start (tracker : Bool) : (start tracker).OneSettler none := fun _ ↦ rfl

theorem pending_congr (h : s'.promises = s.promises) (q : Nat) : s'.pending q = s.pending q := by
  rw [pending, pending, h]

theorem pending_set (s' : State) (d' : JSPromiseData) (hget : s.promises[p]? = some d)
    (h : s'.promises = s.promises.set p d') (q : Nat) : s'.pending q =
      if q = p then (if d'.promiseState = .pending then 1 else 0) else s.pending q := by
  have hp : p < s.promises.length := (List.getElem?_eq_some_iff.mp hget).1
  unfold pending
  rw [h]
  by_cases hq : q = p
  · rw [if_pos hq, hq, List.getElem?_set_self hp]
    simp
  · rw [if_neg hq, List.getElem?_set_ne (Ne.symm hq)]

theorem pending_concat {d' : JSPromiseData} (h : s'.promises = s.promises ++ [d']) (hd : d'.promiseState = .pending)
    (q : Nat) : s'.pending q = s.pending q + if s.promises.length = q then 1 else 0 := by
  unfold pending
  rw [h]
  rcases Nat.lt_trichotomy q s.promises.length with hq | hq | hq
  · rw [List.getElem?_append_left hq, if_neg (c := s.promises.length = q) (by omega), Nat.add_zero]
  · rw [hq, List.getElem?_concat_length, List.getElem?_eq_none (Nat.le_refl _)]
    simp [hd]
  · rw [List.getElem?_eq_none (by simp; omega), List.getElem?_eq_none (by omega),
      if_neg (c := s.promises.length = q) (by omega), Nat.add_zero]

theorem OneSettler.get (h : s.OneSettler (some p)) :
    ∃ d, s.promises[p]? = some d ∧ d.promiseState = .pending := by
  have hp := h p
  rw [if_pos rfl, pending] at hp
  split at hp
  · next hpending => exact Option.map_eq_some_iff.mp hpending
  · omega

end State

theorem settles_reactions (p q : Nat) (l : List JSPromiseReactionData) (isReject : Bool) (v : Value) :
    (l.map fun rd ↦ JSJobEntry.reaction p rd isReject v).countP (JSJobEntry.settles q) = 0 := by
  rw [List.countP_eq_zero]
  intro e he
  obtain ⟨rd, -, rfl⟩ := List.mem_map.mp he
  exact Bool.false_ne_true

theorem settles_answer (d : JSPromiseData) (p q : Nat) (t : Then) :
    (d.answer p t).countP (JSJobEntry.settles q) = 0 := by
  rw [JSPromiseData.answer]
  split
  · rfl
  · rfl
  · rfl

theorem hand_settles (e : JSJobEntry) (q : Nat) :
    (if e.hand = some q then 1 else 0) = [e].countP (JSJobEntry.settles q) := by
  cases e with
  | resolveThenable p v then_ => simp [JSJobEntry.hand, JSJobEntry.settles, List.countP_cons]
  | reaction p rd isReject arg => rfl
  | other => rfl

namespace State

theorem settlers_functions (s : State) (p q : Nat) :
    (s.jsCreateResolvingFunctions p).settlers q = s.settlers q + if p = q then 1 else 0 := by
  simp only [settlers, jsCreateResolvingFunctions, List.countP_append, List.countP_singleton,
    JSPromiseFunctionData.settles, Bool.not_false, Bool.and_true, beq_iff_eq]
  omega

theorem settlers_resolve {r : Nat} {f : JSPromiseFunctionData} (hget : s.functions[r]? = some f)
    (hopen : f.alreadyResolved = false) (q : Nat) :
    ({ s with functions := s.functions.set r { f with alreadyResolved := true } } : State).settlers q +
      (if f.promise = q then 1 else 0) = s.settlers q := by
  obtain ⟨hr, hf⟩ := List.getElem?_eq_some_iff.mp hget
  have hset : (s.functions.set r { f with alreadyResolved := true }).countP
      (JSPromiseFunctionData.settles q) + (if f.promise = q then 1 else 0) =
        s.functions.countP (JSPromiseFunctionData.settles q) := by
    have hpos : f.promise = q → 0 < s.functions.countP (JSPromiseFunctionData.settles q) := by
      intro hq
      rw [List.countP_pos_iff]
      exact ⟨f, List.mem_of_getElem? hget, by simp [JSPromiseFunctionData.settles, hq, hopen]⟩
    rw [List.countP_set hr, hf]
    simp only [JSPromiseFunctionData.settles, hopen, Bool.not_false, Bool.not_true, Bool.and_true,
      Bool.and_false, Bool.false_eq_true, if_false, Nat.add_zero, beq_iff_eq]
    split
    · next hq =>
      have := hpos hq
      omega
    · rfl
  simp only [settlers]
  omega

theorem settlers_lookUp (s : State) (p q : Nat) (v : Value) :
    (s.push (.getThen p v)).settlers q = s.settlers q + if p = q then 1 else 0 := by
  simp only [settlers, push, List.countP_cons, Frame.settles, beq_iff_eq]
  omega

theorem settlers_lookedUp {v : Value} {rest : List Frame} (hstack : s.stack = .getThen p v :: rest) (q : Nat) :
    ({ s with stack := rest } : State).settlers q + (if p = q then 1 else 0) = s.settlers q := by
  simp only [settlers, hstack, List.countP_cons, Frame.settles, beq_iff_eq]
  omega

theorem settlers_enqueueJob (s : State) (e : JSJobEntry) (q : Nat) :
    (s.jsEnqueueJob e).settlers q = s.settlers q + if e.hand = some q then 1 else 0 := by
  simp only [settlers, jsEnqueueJob, List.countP_append, hand_settles]
  omega

theorem settlers_fulfill (hget : s.promises[p]? = some d) (hd : d.promiseState = .pending) (v : Value)
    (isReject : Bool) (q : Nat) : (s.fulfillOrRejectPromise p v isReject).settlers q = s.settlers q := by
  rw [fulfillOrRejectPromise_eq hget hd]
  simp only [settlers, List.countP_append, settles_reactions, Nat.add_zero]

theorem pending_fulfill (hget : s.promises[p]? = some d) (hd : d.promiseState = .pending) (v : Value)
    (isReject : Bool) (q : Nat) :
    (s.fulfillOrRejectPromise p v isReject).pending q = if q = p then 0 else s.pending q := by
  rw [fulfillOrRejectPromise_eq hget hd]
  have hset := pending_set { s with promises := s.promises.set p (d.settle isReject v) } _ hget rfl q
  rw [if_neg (settle_state d isReject v)] at hset
  exact hset

theorem settlers_then (s : State) (p : Nat) (onFulfilled onRejected resolve reject : Value) (q : Nat) :
    (s.performPromiseThen p onFulfilled onRejected resolve reject).settlers q = s.settlers q := by
  cases hget : s.promises[p]? with
  | none => rw [performPromiseThen_none hget]
  | some d =>
    rw [performPromiseThen_eq hget]
    simp only [settlers, List.countP_append, settles_answer, Nat.add_zero]

theorem pending_then (s : State) (p : Nat) (onFulfilled onRejected resolve reject : Value) (q : Nat) :
    (s.performPromiseThen p onFulfilled onRejected resolve reject).pending q = s.pending q := by
  cases hget : s.promises[p]? with
  | none => rw [performPromiseThen_none hget]
  | some d =>
    rw [performPromiseThen_eq hget]
    have hset := pending_set { s with
      promises := s.promises.set p (d.register (Then.make p onFulfilled onRejected resolve reject)) } _ hget rfl q
    rw [register_state] at hset
    refine hset.trans ?_
    split
    · next hq =>
      rw [hq, pending, hget, Option.map_some]
      simp only [Option.some.injEq]
    · rfl

theorem settlers_take {e : JSJobEntry} {rest taken : List JSJobEntry} (hjobs : s.jobList = e :: rest) (q : Nat) :
    ({ s with jobList := rest, taken := taken } : State).settlers q + (if e.hand = some q then 1 else 0) =
      s.settlers q := by
  have hcons : (e :: rest).countP (JSJobEntry.settles q) =
      [e].countP (JSJobEntry.settles q) + rest.countP (JSJobEntry.settles q) :=
    @List.countP_append _ (JSJobEntry.settles q) [e] rest
  simp only [settlers, hjobs, hcons, hand_settles]
  omega

end State

theorem Change.oneSettler {a b : State × Option Nat} (h : Change a b) (ha : a.1.OneSettler a.2) :
    b.1.OneSettler b.2 := by
  intro q
  have hq := ha q
  cases h with
  | control heq hstack =>
    unfold State.settlers at hq ⊢
    rw [heq]
    simp only at hq ⊢
    rw [hstack q]
    exact hq
  | create =>
    rw [State.pending_concat rfl rfl]
    unfold State.settlers at hq ⊢
    simp only [reduceCtorEq, if_false, Option.some.injEq] at hq ⊢
    omega
  | functions =>
    rw [State.pending_congr rfl, State.settlers_functions]
    simp only [reduceCtorEq, if_false, Option.some.injEq] at hq ⊢
    exact hq
  | resolve hget hopen =>
    rw [State.pending_congr rfl]
    simp only [reduceCtorEq, if_false, Option.some.injEq] at hq ⊢
    rw [State.settlers_resolve hget hopen]
    exact hq
  | lookUp =>
    rw [State.pending_congr rfl, State.settlers_lookUp]
    simp only [reduceCtorEq, if_false, Option.some.injEq] at hq ⊢
    exact hq
  | lookedUp hstack =>
    rw [State.pending_congr rfl]
    simp only [reduceCtorEq, if_false, Option.some.injEq] at hq ⊢
    rw [State.settlers_lookedUp hstack]
    exact hq
  | settle =>
    obtain ⟨d, hget, hd⟩ := State.OneSettler.get ha
    rw [State.settlers_fulfill hget hd, State.pending_fulfill hget hd]
    simp only [reduceCtorEq, if_false, Option.some.injEq] at hq ⊢
    split
    · next heq =>
      rw [heq, State.pending, hget] at hq
      simp only [Option.map_some, hd, if_true] at hq
      rw [heq]
      omega
    · next hne =>
      rw [if_neg (Ne.symm hne)] at hq
      exact hq
  | thenable =>
    rw [State.pending_congr rfl, State.settlers_enqueueJob]
    exact hq
  | other =>
    rw [State.pending_congr rfl, State.settlers_enqueueJob]
    exact hq
  | take hjobs =>
    rw [State.pending_congr rfl, State.settlers_take hjobs]
    exact hq
  | performThen =>
    rw [State.pending_then, State.settlers_then]
    exact hq

end QNode.Promises
