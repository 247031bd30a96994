/-!
# The exit status of a child

Three paths observe how a child ended: `execSync`, `spawnSync` (and `execFileSync` through it) and
the polls of an asynchronous child.  On Unix the kernel hands out a child's status once, to the
first wait after its end; on Windows the exit code can be asked for at any time, and is a
reserved value while the child runs.
-/

namespace QNode.ChildProcess

inductive Platform
  | unix | windows
  deriving DecidableEq, Repr

/-- How a child ends on Unix. -/
inductive ChildEnd
  | exited (code : UInt8)
  | signaled (sig : Nat)
  deriving DecidableEq, Repr

/-- One run of a child, observed at times 0, 1, 2 and so on: it has ended from time `endsAt` on.  A
blocking wait for it is interrupted by signals `interrupts` times. -/
inductive ChildRun
  | unix (ending : ChildEnd) (endsAt interrupts : Nat)
  | windows (code : Int32) (endsAt : Nat)
  deriving Repr

/-- `waitpid` for a child that has ended: its status if it is not reaped yet, and what is left. -/
def waitpid (status : Option ChildEnd) : Option ChildEnd × Option ChildEnd := (status, none)

def stillActive : Int32 := 259

/-- `GetExitCodeProcess` at time `t`. -/
def getExitCodeProcess (code : Int32) (endsAt t : Nat) : Int32 :=
  if t < endsAt then stillActive else code

/-! ## execSync -/

def execSyncExitCode : ChildRun → Int
  -- `pclose` returns the status of the wait
  | .unix (.exited code) _ _ => code.toNat
  | .unix (.signaled sig) _ _ => 128 + sig
  | .windows code _ => code.toInt

/-- The status of the error `execSync` throws; `none` when it returns normally. -/
def execSyncError (run : ChildRun) : Option Int :=
  if execSyncExitCode run ≠ 0 then some (execSyncExitCode run) else none

/-! ## spawnSync -/

/-- The Unix loop of `spawnSync`; the status it gets is a local variable of the loop body. -/
def spawnSyncWait : Nat → Option ChildEnd → Option ChildEnd
  | 0, status => (waitpid status).2
  | interrupts + 1, status => spawnSyncWait interrupts status

/-- The Windows loop of `spawnSync`: the time at which it ends, if `fuel` turns are enough. -/
def spawnSyncPoll (code : Int32) (endsAt : Nat) : Nat → Nat → Option Nat
  | 0, _ => none
  | fuel + 1, t =>
    if getExitCodeProcess code endsAt t ≠ stillActive then some t
    else spawnSyncPoll code endsAt fuel (t + 1)

/-- The `status` of the result of `spawnSync`, if `fuel` turns of its loop are enough. -/
def spawnSyncStatus (fuel : Nat) : ChildRun → Option Int
  | .unix ending _ interrupts =>
    let left := spawnSyncWait interrupts (some ending)
    let left := (waitpid left).2
    match (waitpid left).1 with
    | some (.exited code) => some code.toNat
    | some (.signaled _) => some (-1)
    -- already reaped by one of the waits above
    | none => some 0
  | .windows code endsAt =>
    (spawnSyncPoll code endsAt fuel 0).map fun t ↦ (getExitCodeProcess code endsAt t).toInt

/-- The error status `execFileSync` throws, `ok` when it returns normally. -/
def execFileSync (fuel : Nat) (run : ChildRun) : Option (Except Int Unit) :=
  (spawnSyncStatus fuel run).map fun status ↦ if status ≠ 0 then .error status else .ok ()

/-! ## _pollProcess -/

/-- The exit code `_pollProcess` reports at time `t` for a child that is not reaped yet; `none` when
it reports that the child has not exited. -/
def pollProcess (run : ChildRun) (t : Nat) : Option Int :=
  match run with
  | .unix ending endsAt _ =>
    if t < endsAt then none
    else
      match (waitpid (some ending)).1 with
      | some (.exited code) => some code.toNat
      | some (.signaled sig) => some (128 + sig)
      | none => none
  | .windows code endsAt =>
    let exitCode := getExitCodeProcess code endsAt t
    if exitCode ≠ stillActive then some exitCode.toInt else none

/-! ## Agreement -/

def ChildRun.exitCode : ChildRun → Int
  | .unix (.exited code) _ _ => code.toNat
  | .unix (.signaled sig) _ _ => 128 + sig
  | .windows code _ => code.toInt

def ChildRun.endsAt : ChildRun → Nat
  | .unix _ endsAt _ => endsAt
  | .windows _ endsAt => endsAt

/-- The child exited by itself with code 0. -/
def ChildRun.Succeeded : ChildRun → Prop
  | .unix ending _ _ => ending = .exited 0
  | .windows code _ => code = 0

/-- The exit code is the value that stands for a running child. -/
def ChildRun.reserved : ChildRun → Bool
  | .unix _ _ _ => false
  | .windows code _ => code == stillActive

structure ObserversAgree (run : ChildRun) : Prop where
  execSync : (execSyncError run).getD 0 = run.exitCode
  spawnSync : ∃ fuel, spawnSyncStatus fuel run = some run.exitCode
  exitEvent : ∃ t, pollProcess run t = some run.exitCode ∧ ∀ t' < t, pollProcess run t' = none
  execFileSync : (∃ fuel, execFileSync fuel run = some (.ok ())) ↔ run.Succeeded

/-- The runs whose status all three paths report: on Unix those that exit with code 0, which is what
`spawnSync` always says; on Windows all but those that exit with the reserved code. -/
def ChildRun.Reported : ChildRun → Prop
  | .unix ending _ _ => ending = .exited 0
  | .windows code _ => code ≠ stillActive

theorem spawnSyncWait_reaped (interrupts : Nat) (status : Option ChildEnd) :
    spawnSyncWait interrupts status = none := by
  induction interrupts with
  | zero => rfl
  | succ n ih => rw [spawnSyncWait, ih]

-- The waits after the loop find nothing, so the status is 0 however the child ended.
theorem spawnSyncStatus_unix (fuel : Nat) (ending : ChildEnd) (endsAt interrupts : Nat) :
    spawnSyncStatus fuel (.unix ending endsAt interrupts) = some 0 := by
  rw [spawnSyncStatus, spawnSyncWait_reaped]
  rfl

theorem getExitCodeProcess_stillActive (endsAt t : Nat) :
    getExitCodeProcess stillActive endsAt t = stillActive :=
  ite_self _

theorem spawnSyncPoll_stillActive (endsAt fuel t : Nat) :
    spawnSyncPoll stillActive endsAt fuel t = none := by
  induction fuel generalizing t with
  | zero => rfl
  | succ fuel ih =>
    rw [spawnSyncPoll, getExitCodeProcess_stillActive, if_neg (fun h ↦ h rfl), ih]

-- The loop ends with the child, if its code is not the reserved one.
theorem spawnSyncPoll_ends {code : Int32} (hcode : code ≠ stillActive) {endsAt fuel t : Nat}
    (ht : t ≤ endsAt) (hfuel : endsAt < fuel + t) :
    spawnSyncPoll code endsAt fuel t = some endsAt := by
  induction fuel generalizing t with
  | zero => omega
  | succ fuel ih =>
    by_cases hlt : t < endsAt
    · rw [spawnSyncPoll, getExitCodeProcess, if_pos hlt, if_neg (fun h ↦ h rfl),
        ih (by omega) (by omega)]
    · have hend : t = endsAt := by omega
      rw [spawnSyncPoll, getExitCodeProcess, if_neg hlt, if_pos hcode, hend]

-- The loop never ends before the child does.
theorem endsAt_le_of_spawnSyncPoll {code : Int32} {endsAt fuel t t' : Nat}
    (h : spawnSyncPoll code endsAt fuel t = some t') : endsAt ≤ t' := by
  induction fuel generalizing t with
  | zero => cases h
  | succ fuel ih =>
    rw [spawnSyncPoll] at h
    split at h
    next hactive =>
      by_cases hlt : t < endsAt
      · rw [getExitCodeProcess, if_pos hlt] at hactive
        exact absurd rfl hactive
      · rw [← Option.some.inj h]
        omega
    next => exact ih h

theorem spawnSyncStatus_windows {code : Int32} (hcode : code ≠ stillActive) (endsAt : Nat) :
    spawnSyncStatus (endsAt + 1) (.windows code endsAt) = some code.toInt := by
  rw [spawnSyncStatus, spawnSyncPoll_ends hcode (Nat.zero_le _) (by omega), Option.map_some,
    getExitCodeProcess, if_neg (Nat.lt_irrefl _)]

theorem execSyncError_getD (run : ChildRun) : (execSyncError run).getD 0 = run.exitCode := by
  have hcode : execSyncExitCode run = run.exitCode := by
    cases run with
    | unix ending endsAt interrupts => cases ending <;> rfl
    | windows code endsAt => rfl
  rw [← hcode, execSyncError]
  by_cases hzero : execSyncExitCode run = 0
  · rw [if_neg (fun h ↦ h hzero), hzero]
    rfl
  · rw [if_pos hzero]
    rfl

-- From its end on, a poll reports the exit code, unless it is the reserved one.
theorem pollProcess_eq (run : ChildRun) (t : Nat) :
    pollProcess run t =
      if run.endsAt ≤ t ∧ run.reserved = false then some run.exitCode else none := by
  cases run with
  | unix ending endsAt interrupts =>
    show (if t < endsAt then none else _) = if endsAt ≤ t ∧ false = false then _ else none
    by_cases hlt : t < endsAt
    · rw [if_pos hlt, if_neg (by omega)]
    · rw [if_neg hlt, if_pos ⟨by omega, rfl⟩]
      cases ending <;> rfl
  | windows code endsAt =>
    show (if getExitCodeProcess code endsAt t ≠ stillActive then
        some (getExitCodeProcess code endsAt t).toInt else none) =
      if endsAt ≤ t ∧ (code == stillActive) = false then some code.toInt else none
    by_cases hlt : t < endsAt
    · rw [getExitCodeProcess, if_pos hlt, if_neg (fun h ↦ h rfl), if_neg (by omega)]
    · rw [getExitCodeProcess, if_neg hlt]
      by_cases hcode : code = stillActive
      · rw [if_neg (not_not_intro hcode), if_neg (by rw [hcode]; exact fun h ↦ absurd h.2 (by decide))]
      · rw [if_pos hcode, if_pos ⟨by omega, beq_false_of_ne hcode⟩]

theorem succeeded_iff (run : ChildRun) : run.Succeeded ↔ run.exitCode = 0 := by
  cases run with
  | unix ending endsAt interrupts =>
    cases ending with
    | exited code =>
      show ChildEnd.exited code = .exited 0 ↔ (code.toNat : Int) = 0
      rw [ChildEnd.exited.injEq, ← UInt8.toNat_inj]
      show code.toNat = 0 ↔ _
      omega
    | signaled sig =>
      show ChildEnd.signaled sig = .exited 0 ↔ (128 + sig : Int) = 0
      constructor
      · intro h
        cases h
      · intro h
        omega
  | windows code endsAt =>
    show code = 0 ↔ code.toInt = 0
    exact Int32.toInt_inj.symm

theorem not_spawnSync_stillActive (endsAt fuel : Nat) :
    spawnSyncStatus fuel (.windows stillActive endsAt) = none := by
  rw [spawnSyncStatus, spawnSyncPoll_stillActive]
  rfl

-- A run whose status `spawnSync` reports is reported by all three paths.
theorem observersAgree_of_status {run : ChildRun} {fuel : Nat}
    (hstatus : spawnSyncStatus fuel run = some run.exitCode) (hreserved : run.reserved = false)
    (hunique : ∀ fuel s, spawnSyncStatus fuel run = some s → s = run.exitCode) :
    ObserversAgree run := by
  refine ⟨execSyncError_getD run, ⟨fuel, hstatus⟩, ⟨run.endsAt, ?_, ?_⟩, ?_⟩
  · rw [pollProcess_eq, if_pos ⟨Nat.le_refl _, hreserved⟩]
  · intro t' ht'
    rw [pollProcess_eq, if_neg (by omega)]
  · rw [succeeded_iff]
    constructor
    · rintro ⟨fuel', h⟩
      obtain ⟨s, hs, hok⟩ := Option.map_eq_some_iff.mp h
      rw [← hunique fuel' s hs]
      by_cases hzero : s = 0
      · exact hzero
      · rw [if_pos hzero] at hok
        cases hok
    · intro hzero
      refine ⟨fuel, ?_⟩
      rw [execFileSync, hstatus, hzero]
      rfl

end QNode.ChildProcess
