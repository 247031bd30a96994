import Mathlib.Logic.Relation
import QNode.Promises.Promises

/-!
# What a step can do to the promises

A promise that is pending can be settled by one of its resolving functions, by a job that is going to call the
`then` of a thenable, or by the resolving function that looks up a `then`.  Every step is a sequence of small
changes, between which the right to settle one promise may be in hand.
-/

namespace QNode.Promises

open Relation

def JSPromiseFunctionData.settles (p : Nat) (f : JSPromiseFunctionData) : Bool :=
  f.promise == p && !f.alreadyResolved

def JSJobEntry.settles (p : Nat) : JSJobEntry → Bool
  | .resolveThenable q _ _ => q == p
  | _ => false

def Frame.settles (p : Nat) : Frame → Bool
  | .getThen q _ => q == p
  | _ => false

/-- The number of those that can still settle `p`. -/
def State.settlers (s : State) (p : Nat) : Nat :=
  s.functions.countP (JSPromiseFunctionData.settles p) + s.jobList.countP (JSJobEntry.settles p) +
    s.stack.countP (Frame.settles p)

/-- The promise in hand after the job has been taken from the list. -/
def JSJobEntry.hand : JSJobEntry → Option Nat
  | .resolveThenable p _ _ => some p
  | _ => none

/-- The changes that steps are made of; the second component is the promise in hand. -/
inductive Change : State × Option Nat → State × Option Nat → Prop where
  | control {s s' : State} {hand : Option Nat}
      (heq : s' = { s with stack := s'.stack, host := s'.host, threw := s'.threw })
      (hstack : ∀ p, s'.stack.countP (Frame.settles p) = s.stack.countP (Frame.settles p)) :
      Change (s, hand) (s', hand)
  | create {s : State} : Change (s, none)
      ({ s with promises := s.promises ++ [JSPromiseData.new] }, some s.promises.length)
  | functions {s : State} {p : Nat} : Change (s, some p) (s.jsCreateResolvingFunctions p, none)
  | resolve {s : State} {r : Nat} {f : JSPromiseFunctionData} (hget : s.functions[r]? = some f)
      (hopen : f.alreadyResolved = false) : Change (s, none)
      ({ s with functions := s.functions.set r { f with alreadyResolved := true } }, some f.promise)
  | lookUp {s : State} {p : Nat} {v : Value} : Change (s, some p) (s.push (.getThen p v), none)
  | lookedUp {s : State} {p : Nat} {v : Value} {rest : List Frame} (hstack : s.stack = .getThen p v :: rest) :
      Change (s, none) ({ s with stack := rest }, some p)
  | settle {s : State} {p : Nat} {v : Value} {isReject : Bool} :
      Change (s, some p) (s.fulfillOrRejectPromise p v isReject, none)
  | thenable {s : State} {p : Nat} {v then_ : Value} :
      Change (s, some p) (s.jsEnqueueJob (.resolveThenable p v then_), none)
  | other {s : State} : Change (s, none) (s.jsEnqueueJob .other, none)
  | take {s : State} {e : JSJobEntry} {rest : List JSJobEntry} (hjobs : s.jobList = e :: rest) :
      Change (s, none) ({ s with jobList := rest, taken := s.taken ++ [e] }, e.hand)
  | performThen {s : State} {p : Nat} {onFulfilled onRejected resolve reject : Value} :
      Change (s, none) (s.performPromiseThen p onFulfilled onRejected resolve reject, none)

/-- A sequence of changes with nothing in hand at the ends. -/
def Changes (s s' : State) : Prop := ReflTransGen Change (s, none) (s', none)

namespace Changes

variable {s t u : State}

theorem refl (s : State) : Changes s s := ReflTransGen.refl

theorem trans (h : Changes s t) (h' : Changes t u) : Changes s u := ReflTransGen.trans h h'

theorem single (h : Change (s, none) (t, none)) : Changes s t := ReflTransGen.single h

theorem two {hand : Option Nat} (h : Change (s, none) (t, hand)) (h' : Change (t, hand) (u, none)) :
    Changes s u := (ReflTransGen.single h).tail h'

theorem control (heq : t = { s with stack := t.stack, host := t.host, threw := t.threw })
    (hstack : ∀ p, t.stack.countP (Frame.settles p) = s.stack.countP (Frame.settles p)) : Changes s t :=
  single (.control heq hstack)

end Changes

section Steps

variable {s : State}

theorem countP_cons {frame : Frame} (h : ∀ p, frame.settles p = false) (stack : List Frame) (p : Nat) :
    (frame :: stack).countP (Frame.settles p) = stack.countP (Frame.settles p) := by
  rw [List.countP_cons, h p]
  rfl

theorem changes_push (frame : Frame) (h : ∀ p, frame.settles p = false) : Changes s (s.push frame) :=
  .control rfl (countP_cons h s.stack)

theorem changes_pop {frame : Frame} {rest : List Frame} (hstack : s.stack = frame :: rest)
    (h : ∀ p, frame.settles p = false) : Changes s { s with stack := rest } := by
  apply Changes.control rfl
  intro p
  rw [hstack, countP_cons h]

theorem changes_host (host : Host) (threw : Bool) : Changes s { s with host := host, threw := threw } :=
  .control rfl fun _ ↦ rfl

theorem changes_jobEnded (threw : Bool) : Changes s (s.jobEnded threw) := by
  unfold State.jobEnded
  split
  · exact .control rfl fun _ ↦ rfl
  · exact .refl s

theorem changes_resolveFunctionCall (s : State) (r : Nat) (isReject : Bool) (v : Value) :
    Changes s (s.jsPromiseResolveFunctionCall r isReject v) := by
  unfold State.jsPromiseResolveFunctionCall
  cases hget : s.functions[r]? with
  | none => exact .refl s
  | some f =>
    cases hopen : f.alreadyResolved with
    | true =>
      simp only [hopen, if_true]
      exact .refl s
    | false =>
      simp only [hopen, Bool.false_eq_true, if_false]
      have hresolve := Change.resolve hget hopen
      split
      · exact .two hresolve .settle
      · split
        · exact .two hresolve .settle
        · exact .two hresolve .lookUp

-- The lookup of a `then` has ended, and what it was for is settled or waits for a job.
theorem changes_haveThen {p : Nat} {v : Value} {rest : List Frame} (hstack : s.stack = .getThen p v :: rest)
    (res : Except Value Value) : Changes s (({ s with stack := rest } : State).haveThen p v res) := by
  have hlookedUp := Change.lookedUp hstack
  cases res with
  | error error => exact .two hlookedUp .settle
  | ok then_ =>
    rw [State.haveThen]
    split
    · exact .two hlookedUp .thenable
    · exact .two hlookedUp .settle

theorem changes_handlerEnded (s : State) (rd : JSPromiseReactionData) (res : Except Value Value) :
    Changes s (s.handlerEnded rd res) := by
  unfold State.handlerEnded
  split
  next func arg _ =>
  split
  · exact changes_jobEnded false
  · next r isReject _ =>
    have hcall := (changes_push (s := s) .waitSettling fun _ ↦ rfl).trans
      (changes_resolveFunctionCall _ r isReject arg)
    dsimp only
    split
    · next rest hstack =>
      exact (hcall.trans (changes_pop hstack fun _ ↦ rfl)).trans (changes_jobEnded false)
    · exact hcall
  · exact changes_push _ fun _ ↦ rfl

theorem changes_resume (s : State) : Changes s s.resume := by
  unfold State.resume
  split
  · next rd rest hstack =>
    exact (changes_pop hstack fun _ ↦ rfl).trans (changes_handlerEnded _ rd _)
  · next rest hstack =>
    exact (changes_pop hstack fun _ ↦ rfl).trans (changes_jobEnded false)
  · exact .refl s

theorem changes_promiseReactionJob (s : State) (rd : JSPromiseReactionData) (isReject : Bool) (arg : Value) :
    Changes s (s.promiseReactionJob rd isReject arg) := by
  unfold State.promiseReactionJob
  split
  · exact changes_handlerEnded s rd _
  · next r isReject' _ =>
    exact ((changes_push _ fun _ ↦ rfl).trans (changes_resolveFunctionCall _ r isReject' arg)).trans
      (changes_resume _)
  · exact changes_push _ fun _ ↦ rfl

theorem changes_executePendingJob (s : State) : Changes s s.jsExecutePendingJob := by
  unfold State.jsExecutePendingJob
  cases hjobs : s.jobList with
  | nil => exact .refl s
  | cons e rest =>
    have htake := Change.take hjobs
    cases e with
    | reaction p rd isReject arg =>
      exact (Changes.single htake).trans (changes_promiseReactionJob _ rd isReject arg)
    | resolveThenable p v then_ =>
      exact (Changes.two htake .functions).trans (changes_push _ fun _ ↦ rfl)
    | other => exact (Changes.single htake).trans (changes_push _ fun _ ↦ rfl)

theorem changes_promiseConstructor (s : State) : Changes s s.jsPromiseConstructor :=
  (Changes.two .create .functions).trans (changes_push _ fun _ ↦ rfl)

theorem changes_leave (s : State) (res : Except Value Value) : Changes s (s.leave res) := by
  unfold State.leave
  cases hstack : s.stack with
  | nil => exact .refl s
  | cons frame rest =>
    cases frame with
    | getThen p v => exact (changes_haveThen hstack res).trans (changes_resume _)
    | waitReaction rd =>
      apply Changes.control
      · cases res <;> rfl
      · intro p
        cases res <;> rw [hstack] <;> rfl
    | waitSettling =>
      apply Changes.control
      · cases res <;> rfl
      · intro p
        cases res <;> rw [hstack] <;> rfl
    | code => exact changes_pop hstack fun _ ↦ rfl
    | executor r =>
      have hpop := changes_pop hstack fun _ ↦ rfl
      cases res with
      | error error => exact hpop.trans (changes_resolveFunctionCall _ r true error)
      | ok v => exact hpop
    | thenable r =>
      have hpop := changes_pop hstack fun _ ↦ rfl
      cases res with
      | error error =>
        exact (hpop.trans (changes_resolveFunctionCall _ r true error)).trans (changes_jobEnded false)
      | ok v => exact hpop.trans (changes_jobEnded false)
    | reaction rd => exact (changes_pop hstack fun _ ↦ rfl).trans (changes_handlerEnded _ rd res)
    | settling =>
      have hpop := changes_pop hstack fun _ ↦ rfl
      cases res with
      | error error => exact hpop.trans (changes_jobEnded true)
      | ok v => exact hpop.trans (changes_jobEnded false)
    | other =>
      have hpop := changes_pop hstack fun _ ↦ rfl
      cases res with
      | error error => exact hpop.trans (changes_jobEnded true)
      | ok v => exact hpop.trans (changes_jobEnded false)

theorem changes_hostStep (s : State) (poll : State.Poll) : Changes s (s.hostStep poll) := by
  have hpolled : ∀ host, Changes s
      (if poll = .handler then ({ s with host := host } : State).push .code else { s with host := host }) := by
    intro host
    split
    · exact .control rfl (countP_cons (fun _ ↦ rfl) s.stack)
    · exact changes_host host s.threw
  unfold State.hostStep
  cases s.host with
  | await obj =>
    dsimp only
    split
    · split
      · exact changes_host _ s.threw
      · split
        · exact changes_executePendingJob s
        · exact changes_host _ s.threw
    · exact changes_host _ s.threw
  | awaitPoll obj => exact hpolled _
  | loop =>
    dsimp only
    split
    · exact changes_executePendingJob s
    · exact changes_host _ false
  | loopCheck => exact changes_host _ s.threw
  | loopPoll => exact hpolled _
  | idle => exact .refl s
  | returned => exact .refl s
  | exited => exact .refl s

-- A step of code is one call, a step of the host one of its own.
theorem step_changes (s : State) (a : Act) : Changes s (s.step a) := by
  have hguard : ∀ (c : Prop) [Decidable c] {t : State}, Changes s t → Changes s (if c then t else s) := by
    intro c _ t ht
    split
    · exact ht
    · exact .refl s
  cases a with
  | newPromise => exact hguard _ (changes_promiseConstructor s)
  | call r isReject v => exact hguard _ (changes_resolveFunctionCall s r isReject v)
  | performThen p onFulfilled onRejected resolve reject => exact hguard _ (.single .performThen)
  | enqueueJob => exact hguard _ (.single .other)
  | leave res => exact hguard _ (changes_leave s res)
  | evaluate => exact hguard _ (changes_push _ fun _ ↦ rfl)
  | await obj => exact hguard _ (changes_host _ s.threw)
  | startLoop => exact hguard _ (changes_host _ s.threw)
  | host poll => exact hguard _ (changes_hostStep s poll)

end Steps

end QNode.Promises
