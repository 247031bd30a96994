import Mathlib.Data.List.Basic

/-!
# Promises and the loop that runs their jobs

The promises of a runtime, their resolving functions, the list of pending jobs and the host's list of rejected
promises.  What JavaScript code does is left open: it runs in a frame, where it may make promises, call
resolving functions and register reactions in any order.  Promises and pairs of resolving functions have
numbers; none of them is ever freed.
-/

namespace QNode.Promises

inductive Value where
  | undefined
  | primitive (n : Nat)
  | promise (p : Nat)
  /-- The function of the `r`-th pair that fulfills or, for `isReject`, rejects. -/
  | resolving (r : Nat) (isReject : Bool)
  | function (f : Nat)
  | object (o : Nat)
  | typeError (message : String)
deriving DecidableEq, Repr

def Value.isObject : Value → Bool
  | .undefined | .primitive _ => false
  | _ => true

def Value.isFunction : Value → Bool
  | .resolving _ _ | .function _ => true
  | _ => false

inductive JSPromiseState where
  | pending
  | fulfilled
  | rejected
deriving DecidableEq, Repr

/-- `JS_PROMISE_FULFILLED + is_reject`. -/
def JSPromiseState.settled (isReject : Bool) : JSPromiseState := if isReject then .rejected else .fulfilled

/-- `resolve` and `reject` are the `resolving_funcs`. -/
structure JSPromiseReactionData where
  resolve : Value
  reject : Value
  handler : Value
deriving DecidableEq, Repr

/-- The two lists of `promise_reactions` are `onFulfilled` and `onRejected`. -/
structure JSPromiseData where
  promiseState : JSPromiseState
  onFulfilled : List JSPromiseReactionData
  onRejected : List JSPromiseReactionData
  isHandled : Bool
  promiseResult : Value
deriving DecidableEq, Repr

def JSPromiseData.reactions (s : JSPromiseData) (isReject : Bool) : List JSPromiseReactionData :=
  if isReject then s.onRejected else s.onFulfilled

/-- A pair of resolving functions with the flag that the two share. -/
structure JSPromiseFunctionData where
  promise : Nat
  alreadyResolved : Bool
deriving DecidableEq, Repr

/-- `other` is a job of another kind: a callback of a `FinalizationRegistry` or a dynamic import.  The number of
the promise in `reaction` is for the record; the job does not have it. -/
inductive JSJobEntry where
  | reaction (promise : Nat) (rd : JSPromiseReactionData) (isReject : Bool) (arg : Value)
  | resolveThenable (promise : Nat) (thenable then_ : Value)
  | other
deriving DecidableEq, Repr

structure JSRejectedPromiseEntry where
  promise : Nat
  reason : Value
deriving DecidableEq, Repr

/-- A call in progress.  In the `wait` frames a job waits for a resolving function, in the others JavaScript code
runs: that of the host, an executor, the `then` of a thenable, a handler, a function that gets a handler's
result, a job of another kind, and the lookup of the `then` of a resolution. -/
inductive Frame where
  | code
  | executor (r : Nat)
  | thenable (r : Nat)
  | reaction (rd : JSPromiseReactionData)
  | settling
  | other
  | getThen (promise : Nat) (resolution : Value)
  | waitReaction (rd : JSPromiseReactionData)
  | waitSettling
deriving DecidableEq, Repr

def Frame.runsCode : Frame → Bool
  | .waitReaction _ | .waitSettling => false
  | _ => true

/-- Where the host is: between two evaluations, in `js_std_await`, in `js_std_loop`, or at the end.  In the `Poll`
phases it has come to `js_os_poll`; `loopCheck` is left of the inner loop. -/
inductive Host where
  | idle
  | await (obj : Value)
  | awaitPoll (obj : Value)
  | loop
  | loopCheck
  | loopPoll
  | returned
  | exited
deriving DecidableEq, Repr

/-- A call of `perform_promise_then`, with the two reactions that it makes. -/
structure Then where
  promise : Nat
  onFulfilled : JSPromiseReactionData
  onRejected : JSPromiseReactionData
deriving DecidableEq, Repr

def Then.reaction (t : Then) (isReject : Bool) : JSPromiseReactionData :=
  if isReject then t.onRejected else t.onFulfilled

/-- A handler that is no function counts as none. -/
def Value.asHandler (v : Value) : Value := if v.isFunction then v else .undefined

def Then.make (promise : Nat) (onFulfilled onRejected resolve reject : Value) : Then :=
  ⟨promise, ⟨resolve, reject, onFulfilled.asHandler⟩, ⟨resolve, reject, onRejected.asHandler⟩⟩

/-- `tracker` is whether the host tracks rejections, `threw` whether a job that threw has ended the inner loop of
`js_std_loop`.  For the record: `thens` and `enqueued` are the calls and the jobs so far, `taken` are the jobs
that have been begun. -/
structure State where
  promises : List JSPromiseData
  functions : List JSPromiseFunctionData
  jobList : List JSJobEntry
  rejectedPromiseList : List JSRejectedPromiseEntry
  stack : List Frame
  host : Host
  tracker : Bool
  threw : Bool
  thens : List Then
  enqueued : List JSJobEntry
  taken : List JSJobEntry
deriving DecidableEq, Repr

def start (tracker : Bool) : State := ⟨[], [], [], [], [], .idle, tracker, false, [], [], []⟩

def findRejectedPromise (l : List JSRejectedPromiseEntry) (promise : Nat) : Option JSRejectedPromiseEntry :=
  l.find? fun rp ↦ rp.promise == promise

/-- A promise that `js_promise_constructor` has made. -/
def JSPromiseData.new : JSPromiseData := ⟨.pending, [], [], false, .undefined⟩

/-- The fields of a promise that is settled. -/
def JSPromiseData.settle (d : JSPromiseData) (isReject : Bool) (value : Value) : JSPromiseData :=
  { d with
    promiseState := .settled isReject
    onFulfilled := []
    onRejected := []
    promiseResult := value }

/-- The fields of a promise whose `then` has been called. -/
def JSPromiseData.register (d : JSPromiseData) (t : Then) : JSPromiseData :=
  if d.promiseState = .pending then { d with
    onFulfilled := d.onFulfilled ++ [t.onFulfilled]
    onRejected := d.onRejected ++ [t.onRejected]
    isHandled := true }
  else { d with isHandled := true }

namespace State

def codeRuns (s : State) : Bool :=
  match s.stack with
  | [] => false
  | frame :: _ => frame.runsCode

def push (s : State) (frame : Frame) : State := { s with stack := frame :: s.stack }

def jsEnqueueJob (s : State) (e : JSJobEntry) : State :=
  { s with jobList := s.jobList ++ [e], enqueued := s.enqueued ++ [e] }

/-! ## The host's list of rejected promises -/

/-- `js_std_promise_rejection_tracker`, if it is set: the list after the call. -/
def hostPromiseRejectionTracker (s : State) (promise : Nat) (reason : Value) (isHandled : Bool) :
    List JSRejectedPromiseEntry :=
  if s.tracker then
    match isHandled, findRejectedPromise s.rejectedPromiseList promise with
    | false, some _ => s.rejectedPromiseList
    | false, none => s.rejectedPromiseList ++ [⟨promise, reason⟩]
    | true, some rp => s.rejectedPromiseList.erase rp
    | true, none => s.rejectedPromiseList
  else s.rejectedPromiseList

/-! ## Settling -/

/-- The call returns at once for a promise that is not pending any more. -/
def fulfillOrRejectPromise (s : State) (promise : Nat) (value : Value) (isReject : Bool) : State :=
  match s.promises[promise]? with
  | none => s
  | some d =>
    if d.promiseState ≠ .pending then s
    else
      let s := { s with
        promises := s.promises.set promise (d.settle isReject value)
        rejectedPromiseList := if isReject && !d.isHandled then
          s.hostPromiseRejectionTracker promise value false else s.rejectedPromiseList }
      (d.reactions isReject).foldl
        (fun s rd ↦ s.jsEnqueueJob (.reaction promise rd isReject value)) s

def rejectPromise (s : State) (promise : Nat) (value : Value) : State :=
  s.fulfillOrRejectPromise promise value true

/-- The pair gets the next number. -/
def jsCreateResolvingFunctions (s : State) (promise : Nat) : State :=
  { s with functions := s.functions ++ [⟨promise, false⟩] }

/-- A call of one of the functions of the `r`-th pair.  For an object the `then` is looked up, in a frame. -/
def jsPromiseResolveFunctionCall (s : State) (r : Nat) (isReject : Bool) (resolution : Value) : State :=
  match s.functions[r]? with
  | none => s
  | some f =>
    if f.alreadyResolved then s
    else
      let s := { s with functions := s.functions.set r { f with alreadyResolved := true } }
      if isReject || !resolution.isObject then s.fulfillOrRejectPromise f.promise resolution isReject
      else if resolution = .promise f.promise then
        s.rejectPromise f.promise (.typeError "promise self resolution")
      else s.push (.getThen f.promise resolution)

/-- The rest of `js_promise_resolve_function_call` once the lookup of `then` has ended. -/
def haveThen (s : State) (promise : Nat) (resolution : Value) : Except Value Value → State
  | .error error => s.rejectPromise promise error
  | .ok then_ =>
    if then_.isFunction then s.jsEnqueueJob (.resolveThenable promise resolution then_)
    else s.fulfillOrRejectPromise promise resolution false

/-! ## Reactions -/

def performPromiseThen (s : State) (promise : Nat) (onFulfilled onRejected resolve reject : Value) : State :=
  match s.promises[promise]? with
  | none => s
  | some d =>
    let t := Then.make promise onFulfilled onRejected resolve reject
    let s := { s with
      promises := s.promises.set promise (d.register t)
      rejectedPromiseList := if d.promiseState = .rejected && !d.isHandled then
        s.hostPromiseRejectionTracker promise d.promiseResult true else s.rejectedPromiseList
      thens := s.thens ++ [t] }
    match d.promiseState with
    | .pending => s
    | .fulfilled => s.jsEnqueueJob (.reaction promise t.onFulfilled false d.promiseResult)
    | .rejected => s.jsEnqueueJob (.reaction promise t.onRejected true d.promiseResult)

/-- `js_promise_constructor` up to the call of the executor. -/
def jsPromiseConstructor (s : State) : State :=
  (({ s with promises := s.promises ++ [JSPromiseData.new] }).jsCreateResolvingFunctions s.promises.length).push
    (.executor s.functions.length)

/-! ## Jobs -/

/-- A job has ended.  The inner loop of `js_std_loop` is left if it threw. -/
def jobEnded (s : State) (threw : Bool) : State :=
  if threw && s.host = .loop then { s with host := .loopCheck, threw := true } else s

/-- `promise_reaction_job` once the handler has ended: its result goes to one of the resolving functions. -/
def handlerEnded (s : State) (rd : JSPromiseReactionData) (res : Except Value Value) : State :=
  let (func, arg) := match res with
    | .ok v => (rd.resolve, v)
    | .error v => (rd.reject, v)
  match func with
  | .undefined => s.jobEnded false
  | .resolving r isReject =>
    let s := (s.push .waitSettling).jsPromiseResolveFunctionCall r isReject arg
    match s.stack with
    | .waitSettling :: rest => ({ s with stack := rest }).jobEnded false
    | _ => s
  | _ => s.push .settling

/-- A resolving function has returned `undefined`: to the job that waits for it, or to code. -/
def resume (s : State) : State :=
  match s.stack with
  | .waitReaction rd :: rest => ({ s with stack := rest }).handlerEnded rd (.ok .undefined)
  | .waitSettling :: rest => ({ s with stack := rest }).jobEnded false
  | _ => s

def promiseReactionJob (s : State) (rd : JSPromiseReactionData) (isReject : Bool) (arg : Value) : State :=
  match rd.handler with
  | .undefined => s.handlerEnded rd (if isReject then .error arg else .ok arg)
  | .resolving r isReject => ((s.push (.waitReaction rd)).jsPromiseResolveFunctionCall r isReject arg).resume
  | _ => s.push (.reaction rd)

/-- The `then` of the thenable is called with the functions of a new pair. -/
def jsPromiseResolveThenableJob (s : State) (promise : Nat) : State :=
  (s.jsCreateResolvingFunctions promise).push (.thenable s.functions.length)

def jsExecutePendingJob (s : State) : State :=
  match s.jobList with
  | [] => s
  | e :: rest =>
    let s := { s with jobList := rest, taken := s.taken ++ [e] }
    match e with
    | .reaction _ rd isReject arg => s.promiseReactionJob rd isReject arg
    | .resolveThenable promise _ _ => s.jsPromiseResolveThenableJob promise
    | .other => s.push .other

/-! ## Steps -/

/-- The call of the innermost frame ends, with a value or an exception. -/
def leave (s : State) (res : Except Value Value) : State :=
  match s.stack with
  | [] => s
  | frame :: rest =>
    let s := { s with stack := rest }
    match frame, res with
    | .code, _ => s
    | .executor r, .error error => s.jsPromiseResolveFunctionCall r true error
    | .executor _, .ok _ => s
    | .thenable r, .error error => (s.jsPromiseResolveFunctionCall r true error).jobEnded false
    | .thenable _, .ok _ => s.jobEnded false
    | .reaction rd, res => s.handlerEnded rd res
    | .settling, .error _ | .other, .error _ => s.jobEnded true
    | .settling, .ok _ | .other, .ok _ => s.jobEnded false
    | .getThen promise resolution, res => (s.haveThen promise resolution res).resume
    | .waitReaction _, _ | .waitSettling, _ => s.push frame

/-- What `js_os_poll` does: call a handler, nothing, or say that there are no more events. -/
inductive Poll where
  | handler
  | nothing
  | noEvents
deriving DecidableEq, Repr

def exitsOnCheck (s : State) : Bool := !s.rejectedPromiseList.isEmpty

/-- The host goes on, with no code running. -/
def hostStep (s : State) (poll : Poll) : State :=
  let polled := fun (next : Host) ↦
    if poll = .handler then ({ s with host := next }).push .code else { s with host := next }
  match s.host with
  | .await obj =>
    match obj with
    | .promise p =>
      if (s.promises[p]?.map JSPromiseData.promiseState) ≠ some .pending then { s with host := .idle }
      else if s.jobList ≠ [] then s.jsExecutePendingJob
      else { s with host := if s.exitsOnCheck then .exited else .awaitPoll obj }
    | _ => { s with host := .idle }
  | .awaitPoll obj => polled (.await obj)
  | .loop =>
    if s.jobList ≠ [] then s.jsExecutePendingJob else { s with host := .loopCheck, threw := false }
  | .loopCheck => { s with host := if s.exitsOnCheck then .exited else .loopPoll }
  | .loopPoll => polled (if poll = .noEvents then .returned else .loop)
  | .idle | .returned | .exited => s

/-- Values may be freed, and a `FinalizationRegistry` may get a job. -/
def mayFree (s : State) : Bool :=
  s.codeRuns || match s.host with
    | .idle | .await _ | .loop => true
    | .loopCheck => s.threw
    | .awaitPoll _ | .loopPoll | .returned | .exited => false

end State

/-- A step of the code that runs, or of the host when no code runs. -/
inductive Act where
  | newPromise
  | call (r : Nat) (isReject : Bool) (resolution : Value)
  | performThen (promise : Nat) (onFulfilled onRejected resolve reject : Value)
  | enqueueJob
  | leave (res : Except Value Value)
  | evaluate
  | await (obj : Value)
  | startLoop
  | host (poll : State.Poll)

def State.step (s : State) : Act → State
  | .newPromise => if s.codeRuns then s.jsPromiseConstructor else s
  | .call r isReject resolution => if s.codeRuns then s.jsPromiseResolveFunctionCall r isReject resolution else s
  | .performThen promise onFulfilled onRejected resolve reject =>
    if s.codeRuns then s.performPromiseThen promise onFulfilled onRejected resolve reject else s
  | .enqueueJob => if s.mayFree then s.jsEnqueueJob .other else s
  | .leave res => if s.codeRuns then s.leave res else s
  | .evaluate => if s.stack = [] ∧ s.host = .idle then s.push .code else s
  | .await obj => if s.stack = [] ∧ s.host = .idle then { s with host := .await obj } else s
  | .startLoop => if s.stack = [] ∧ s.host = .idle then { s with host := .loop } else s
  | .host poll => if s.stack = [] then s.hostStep poll else s

def run (tracker : Bool) (acts : List Act) : State := acts.foldl State.step (start tracker)

end QNode.Promises
