import QNode.Fs.FileHandle
import QNode.Library.FileTree
import QNode.Library.Runs

/-!
# File handles and descriptor numbers

A FileHandle keeps its descriptor number in the property `_fd`, and `close` overwrites it with -1.  The
system gives a number that was closed to whoever opens next: another handle, or other code.  The getters
of an options object run user code inside a `read` that has fetched its number already.
-/

open FileTree QNode.Engine

namespace QNode.Fs

/-- Who a descriptor number belongs to. -/
inductive Owner
  | handle (h : Nat)
  | other
  deriving DecidableEq, Repr

/-- How the promise of a handle's last `close` has settled. -/
inductive Settled
  | none
  | fulfilled
  | rejected
  deriving DecidableEq, Repr

/-- The handles created so far with their `_fd`, the owners of the open descriptors, and the reads whose
getters are running, with the number that each has fetched. -/
structure HandleTable where
  created : Nat
  fdField : Nat → Int
  settled : Nat → Settled
  owner : Nat → Option Owner
  reading : List (Nat × Nat)

inductive SystemCall
  | lseek (fd : Nat) (position : Int)
  | read (fd len : Nat)
  | write (fd : Nat) (bytes : List UInt8)
  | fsync (fd : Nat)
  | close (fd : Nat)
  deriving DecidableEq, Repr

def SystemCall.fd : SystemCall → Nat
  | lseek fd _ | read fd _ | write fd _ | fsync fd | close fd => fd

inductive HandleEvent
  | opened (fd : Nat)
  | taken (fd : Nat)
  | released (fd : Nat)
  | read (h : Nat) (args : ReadArgs)
  | startRead (h : Nat)
  | finishRead (args : ReadArgs)
  | write (h : Nat) (args : WriteArgs)
  | sync (h : Nat)
  | close (h : Nat) (result : Except Errno Unit)

namespace HandleTable

/-- No handle yet; other code has some descriptors open. -/
def start (others : Nat → Bool) : HandleTable where
  created := 0
  fdField := fun _ ↦ -1
  settled := fun _ ↦ .none
  owner := fun fd ↦ if others fd then some .other else none
  reading := []

def setOwner (s : HandleTable) (fd : Nat) (owner : Option Owner) : HandleTable :=
  { s with owner := Function.update s.owner fd owner }

/-- The new handle of a successful `open`. -/
def jsFsNewFilehandle (s : HandleTable) (fd : Nat) : HandleTable :=
  { s.setOwner fd (some (.handle s.created)) with
    created := s.created + 1
    fdField := Function.update s.fdField s.created fd }

def jsFsFhGetFd (s : HandleTable) (h : Nat) : Except Refusal Nat :=
  if s.fdField h < 0 then .error (.throws (.typeError "filehandle is closed"))
  else .ok (s.fdField h).toNat

/-- `close` on a number that was fetched.  The system releases it whatever it reports. -/
def jsFsFhClose (s : HandleTable) (h fd : Nat) : Except Errno Unit → HandleTable
  | .ok () =>
    { s.setOwner fd none with
      fdField := Function.update s.fdField h (-1)
      settled := Function.update s.settled h .fulfilled }
  | .error _ =>
    { s.setOwner fd none with settled := Function.update s.settled h .rejected }

end HandleTable

def seekCalls (fd : Nat) (position : Int) : List SystemCall :=
  if position ≥ 0 then [.lseek fd position] else []

def jsFsFhRead (fd : Nat) (args : ReadArgs) : Except Refusal (List SystemCall) := do
  let request ← jsFsFhReadRequest args
  return seekCalls fd request.position ++ [.read fd request.len]

def jsFsFhWrite (fd : Nat) (args : WriteArgs) : Except Refusal (List SystemCall) := do
  let request ← jsFsFhWriteRequest args
  return seekCalls fd request.position ++ [.write fd request.bytes]

namespace HandleTable

/-- The handle whose method makes system calls in a step, and the calls. -/
def systemCalls (s : HandleTable) : HandleEvent → Option (Nat × Except Refusal (List SystemCall))
  | .opened _ | .taken _ | .released _ | .startRead _ => none
  | .read h args => some (h, do jsFsFhRead (← s.jsFsFhGetFd h) args)
  | .finishRead args =>
    match s.reading with
    | [] => none
    | (h, fd) :: _ => some (h, jsFsFhRead fd args)
  | .write h args => some (h, do jsFsFhWrite (← s.jsFsFhGetFd h) args)
  | .sync h => some (h, do return [.fsync (← s.jsFsFhGetFd h)])
  | .close h _ => some (h, do return [.close (← s.jsFsFhGetFd h)])

/-- An `open` and other code get a number that is free.  A write that crashes ends the run. -/
def step (s : HandleTable) : HandleEvent → Option HandleTable
  | .opened fd => if s.owner fd = none then some (s.jsFsNewFilehandle fd) else none
  | .taken fd => if s.owner fd = none then some (s.setOwner fd (some .other)) else none
  | .released fd => if s.owner fd = some .other then some (s.setOwner fd none) else none
  | .read _ _ | .sync _ => some s
  | .startRead h =>
    match s.jsFsFhGetFd h with
    | .error _ => some s
    | .ok fd => some { s with reading := (h, fd) :: s.reading }
  | .finishRead _ => some { s with reading := s.reading.tail }
  | .write h args =>
    match s.jsFsFhGetFd h, jsFsFhWriteRequest args with
    | .ok _, .error .crashes => none
    | _, _ => some s
  | .close h result =>
    match s.jsFsFhGetFd h with
    | .error _ => some s
    | .ok fd => some (s.jsFsFhClose h fd result)

end HandleTable

/-! ## Calls with a number of one's own -/

/-- Every system call of a step is made for a handle whose `close` has not settled, with a number that
the handle owns. -/
def OwnDescriptor (s : HandleTable) (e : HandleEvent) : Prop :=
  ∀ h calls, s.systemCalls e = some (h, .ok calls) →
    ∀ call ∈ calls, s.settled h = .none ∧ s.owner call.fd = some (.handle h)

/-- No method is called, with arguments that it accepts, on a handle whose `close` was rejected.  A read
whose getters have run is not on a handle that has been closed meanwhile. -/
def NotAfterFailedClose (s : HandleTable) : HandleEvent → Prop
  | .opened _ | .taken _ | .released _ | .startRead _ => True
  | .read h args => (jsFsFhReadRequest args).isOk → s.settled h ≠ .rejected
  | .finishRead args =>
    ∀ h ∈ s.reading.head?.map Prod.fst, (jsFsFhReadRequest args).isOk → s.settled h = .none
  | .write h args => (jsFsFhWriteRequest args).isOk → s.settled h ≠ .rejected
  | .sync h | .close h _ => s.settled h ≠ .rejected

/-! ## The calls of a method -/

/-- A method body that refuses its arguments, or makes calls with the number it is given. -/
structure CallsWith (body : Nat → Except Refusal (List SystemCall)) (accepts : Prop) : Prop where
  calls : accepts → ∀ fd, ∃ calls, body fd = .ok calls ∧ calls ≠ [] ∧ ∀ call ∈ calls, call.fd = fd
  refuses : ¬ accepts → ∀ fd, ∃ refusal, body fd = .error refusal

theorem fd_of_mem_seekCalls {fd : Nat} {position : Int} {call : SystemCall}
    (h : call ∈ seekCalls fd position) : call.fd = fd := by
  unfold seekCalls at h
  split at h
  · rw [List.mem_singleton.mp h]
    rfl
  · exact absurd h List.not_mem_nil

-- A seek, if there is one, and the transfer after it.
theorem CallsWith.of_seek {fd : Nat} {position : Int} {last : SystemCall} (hlast : last.fd = fd) :
    seekCalls fd position ++ [last] ≠ [] ∧ ∀ call ∈ seekCalls fd position ++ [last], call.fd = fd := by
  refine ⟨List.append_ne_nil_of_right_ne_nil _ (List.cons_ne_nil _ _), fun call hcall ↦ ?_⟩
  obtain hseek | hcall := List.mem_append.mp hcall
  · exact fd_of_mem_seekCalls hseek
  · rw [List.mem_singleton.mp hcall]
    exact hlast

theorem jsFsFhRead_calls (args : ReadArgs) :
    CallsWith (fun fd ↦ jsFsFhRead fd args) (jsFsFhReadRequest args).isOk := by
  unfold jsFsFhRead
  cases jsFsFhReadRequest args with
  | error refusal => exact ⟨fun h ↦ absurd h Bool.false_ne_true, fun _ _ ↦ ⟨refusal, rfl⟩⟩
  | ok request =>
    exact ⟨fun _ fd ↦ ⟨_, rfl, CallsWith.of_seek rfl⟩, fun h ↦ absurd rfl h⟩

theorem jsFsFhWrite_calls (args : WriteArgs) :
    CallsWith (fun fd ↦ jsFsFhWrite fd args) (jsFsFhWriteRequest args).isOk := by
  unfold jsFsFhWrite
  cases jsFsFhWriteRequest args with
  | error refusal => exact ⟨fun h ↦ absurd h Bool.false_ne_true, fun _ _ ↦ ⟨refusal, rfl⟩⟩
  | ok request =>
    exact ⟨fun _ fd ↦ ⟨_, rfl, CallsWith.of_seek rfl⟩, fun h ↦ absurd rfl h⟩

theorem singleton_calls {call : Nat → SystemCall} (hcall : ∀ fd, (call fd).fd = fd) :
    CallsWith (fun fd ↦ .ok [call fd]) True :=
  ⟨fun _ fd ↦ ⟨_, rfl, List.cons_ne_nil _ _, fun c hc ↦ by rw [List.mem_singleton.mp hc, hcall]⟩,
    fun h ↦ absurd trivial h⟩

/-! ## The invariant -/

namespace HandleTable

/-- What a handle or a read in progress on it holds on to is its own, until `close` has settled. -/
structure Owns (s : HandleTable) (h : Nat) : Prop where
  field : ∀ fd : Nat, s.fdField h = fd → s.settled h = .none → s.owner fd = some (.handle h)
  fulfilled : s.settled h = .fulfilled → s.fdField h < 0
  rejected : s.settled h = .rejected → 0 ≤ s.fdField h
  reading : ∀ fd, (h, fd) ∈ s.reading → s.settled h = .none → s.owner fd = some (.handle h)
  fresh : s.created ≤ h → s.fdField h < 0 ∧ s.settled h = .none

def Owned (s : HandleTable) : Prop := ∀ h, s.Owns h

theorem owned_start (others : Nat → Bool) : (start others).Owned := by
  intro h
  exact {
    field := fun fd hfd ↦ absurd hfd (by simp [start])
    fulfilled := fun hsettled ↦ absurd hsettled (by simp [start])
    rejected := fun hsettled ↦ absurd hsettled (by simp [start])
    reading := fun fd hmem ↦ absurd hmem (by simp [start])
    fresh := fun _ ↦ ⟨by simp [start], rfl⟩ }

section

variable {s : HandleTable} {h fd : Nat} {accepts : Prop}
  {body : Nat → Except Refusal (List SystemCall)}

theorem jsFsFhGetFd_eq_ok_iff : s.jsFsFhGetFd h = .ok fd ↔ s.fdField h = fd := by
  unfold jsFsFhGetFd
  split
  case isTrue hneg =>
    refine iff_of_false (by simp) ?_
    omega
  case isFalse hnonneg =>
    rw [Except.ok.injEq]
    omega

theorem jsFsFhGetFd_of_neg (hneg : s.fdField h < 0) :
    s.jsFsFhGetFd h = .error (.throws (.typeError "filehandle is closed")) :=
  if_pos hneg

-- The calls with a number that was fetched.
theorem own_calls_iff (hbody : CallsWith body accepts)
    (howner : s.settled h = .none → s.owner fd = some (.handle h)) :
    (∀ calls, body fd = .ok calls →
        ∀ call ∈ calls, s.settled h = .none ∧ s.owner call.fd = some (.handle h)) ↔
      (accepts → s.settled h = .none) := by
  constructor
  · intro hown haccepts
    obtain ⟨calls, hcalls, hne, -⟩ := hbody.calls haccepts fd
    obtain ⟨call, hcall⟩ := List.exists_mem_of_ne_nil calls hne
    exact (hown calls hcalls call hcall).1
  · intro hopen calls hcalls call hcall
    by_cases haccepts : accepts
    · obtain ⟨calls', hcalls', -, hfd⟩ := hbody.calls haccepts fd
      obtain rfl : calls' = calls := Except.ok.inj (hcalls'.symm.trans hcalls)
      rw [hfd call hcall]
      exact ⟨hopen haccepts, howner (hopen haccepts)⟩
    · obtain ⟨refusal, hrefusal⟩ := hbody.refuses haccepts fd
      rw [hrefusal] at hcalls
      exact absurd hcalls (by simp)

-- A method that fetches the number itself.
theorem Owned.method_iff (hs : s.Owned) (hbody : CallsWith body accepts) :
    (∀ calls, (do body (← s.jsFsFhGetFd h)) = .ok calls →
        ∀ call ∈ calls, s.settled h = .none ∧ s.owner call.fd = some (.handle h)) ↔
      (accepts → s.settled h ≠ .rejected) := by
  by_cases hneg : s.fdField h < 0
  · rw [jsFsFhGetFd_of_neg hneg]
    have hnot : s.settled h ≠ .rejected := by
      intro hrejected
      have := (hs h).rejected hrejected
      omega
    exact iff_of_true (fun calls hcalls ↦ nomatch hcalls) fun _ ↦ hnot
  · have hfd : s.fdField h = (s.fdField h).toNat := by omega
    rw [jsFsFhGetFd_eq_ok_iff.mpr hfd]
    refine (own_calls_iff hbody ((hs h).field _ hfd)).trans (imp_congr_right fun _ ↦ ?_)
    constructor
    · intro hnone hrejected
      rw [hnone] at hrejected
      exact nomatch hrejected
    · intro hnot
      cases hsettled : s.settled h with
      | none => rfl
      | fulfilled => exact absurd ((hs h).fulfilled hsettled) hneg
      | rejected => exact absurd hsettled hnot

theorem Owned.own_iff (hs : s.Owned) (e : HandleEvent) :
    OwnDescriptor s e ↔ NotAfterFailedClose s e := by
  have hmethod {h : Nat} {result : Except Refusal (List SystemCall)}
      (hcalls : s.systemCalls e = some (h, result)) :
      OwnDescriptor s e ↔ ∀ calls, result = .ok calls →
        ∀ call ∈ calls, s.settled h = .none ∧ s.owner call.fd = some (.handle h) := by
    simp only [OwnDescriptor, hcalls, Option.some.injEq, Prod.mk.injEq, and_imp]
    constructor
    · intro hown calls heq
      exact hown h calls rfl heq
    · rintro hown h' calls rfl heq
      exact hown calls heq
  have hnone (hcalls : s.systemCalls e = none) : OwnDescriptor s e := by
    intro h calls heq
    rw [hcalls] at heq
    exact nomatch heq
  cases e with
  | opened fd => exact iff_of_true (hnone rfl) trivial
  | taken fd => exact iff_of_true (hnone rfl) trivial
  | released fd => exact iff_of_true (hnone rfl) trivial
  | startRead h => exact iff_of_true (hnone rfl) trivial
  | read h args => exact (hmethod rfl).trans (hs.method_iff (jsFsFhRead_calls args))
  | write h args => exact (hmethod rfl).trans (hs.method_iff (jsFsFhWrite_calls args))
  | sync h =>
    exact ((hmethod rfl).trans (hs.method_iff (singleton_calls fun _ ↦ rfl))).trans true_imp_iff
  | close h result =>
    exact ((hmethod rfl).trans (hs.method_iff (singleton_calls fun _ ↦ rfl))).trans true_imp_iff
  | finishRead args =>
    cases hreading : s.reading with
    | nil =>
      refine iff_of_true (hnone ?_) ?_
      · rw [systemCalls, hreading]
      · rw [NotAfterFailedClose, hreading]
        exact fun h hmem ↦ nomatch hmem
    | cons top rest =>
      obtain ⟨h, fd⟩ := top
      have howner := (hs h).reading fd (by rw [hreading]; exact List.mem_cons_self)
      have hcalls : s.systemCalls (.finishRead args) = some (h, jsFsFhRead fd args) := by
        rw [systemCalls, hreading]
      rw [hmethod hcalls, own_calls_iff (jsFsFhRead_calls args) howner, NotAfterFailedClose, hreading]
      simp

/-! ## Steps and runs -/

-- What leaves a handle alone keeps what it owns.
theorem Owns.transport {s' : HandleTable} (hs : s.Owns h) (hfield : s'.fdField h = s.fdField h)
    (hsettled : s'.settled h = s.settled h) (hcreated : s.created ≤ s'.created)
    (hreading : s'.reading = s.reading)
    (howner : ∀ fd, s.owner fd = some (.handle h) → s'.owner fd = some (.handle h)) : s'.Owns h where
  field := by
    intro fd hfd hopen
    rw [hfield] at hfd
    rw [hsettled] at hopen
    exact howner fd (hs.field fd hfd hopen)
  fulfilled := by
    rw [hsettled, hfield]
    exact hs.fulfilled
  rejected := by
    rw [hsettled, hfield]
    exact hs.rejected
  reading := by
    intro fd hmem hopen
    rw [hreading] at hmem
    rw [hsettled] at hopen
    exact howner fd (hs.reading fd hmem hopen)
  fresh := by
    intro hle
    rw [hsettled, hfield]
    exact hs.fresh (Nat.le_trans hcreated hle)

theorem setOwner_of_handle {owner : Option Owner} {fd' : Nat}
    (hother : s.owner fd ≠ some (.handle h)) (howner : s.owner fd' = some (.handle h)) :
    (s.setOwner fd owner).owner fd' = some (.handle h) := by
  refine (Function.update_of_ne ?_ ..).trans howner
  rintro rfl
  exact hother howner

-- A number changes hands when no handle has it.
theorem Owned.setOwner {owner : Option Owner} (hs : s.Owned)
    (hfree : ∀ h, s.owner fd ≠ some (.handle h)) : (s.setOwner fd owner).Owned :=
  fun h ↦ (hs h).transport rfl rfl le_rfl rfl fun _ ↦ setOwner_of_handle (hfree h)

theorem Owned.opened (hs : s.Owned) (hfree : s.owner fd = none) : (s.jsFsNewFilehandle fd).Owned := by
  intro h
  have hother : s.owner fd ≠ some (.handle h) := by simp [hfree]
  by_cases hnew : h = s.created
  · subst hnew
    obtain ⟨-, hnone⟩ := (hs s.created).fresh le_rfl
    have hself : (s.jsFsNewFilehandle fd).fdField s.created = fd := Function.update_self ..
    have hopen : (s.jsFsNewFilehandle fd).settled s.created = .none := hnone
    refine ⟨fun fd' hfd _ ↦ ?_, fun hdone ↦ ?_, fun hdone ↦ ?_, fun fd' hmem _ ↦ ?_, fun hle ↦ ?_⟩
    · obtain rfl : fd = fd' := Int.natCast_inj.mp (hself.symm.trans hfd)
      exact Function.update_self ..
    · exact absurd (hopen.symm.trans hdone) (by decide)
    · exact absurd (hopen.symm.trans hdone) (by decide)
    · exact setOwner_of_handle hother ((hs s.created).reading fd' hmem hnone)
    · exact absurd hle (Nat.not_succ_le_self _)
  · exact (hs h).transport (Function.update_of_ne hnew ..) rfl (Nat.le_succ _) rfl
      fun _ ↦ setOwner_of_handle hother

-- A handle gives up the number that it owns, and its `close` settles.
theorem Owned.settle {field : Int} {settled : Settled} (hs : s.Owned) (hfield : s.fdField h = fd)
    (hnone : s.settled h = .none) (hsettled : settled ≠ .none)
    (hfulfilled : settled = .fulfilled → field < 0) (hrejected : settled = .rejected → 0 ≤ field) :
    Owned { s.setOwner fd none with
      fdField := Function.update s.fdField h field
      settled := Function.update s.settled h settled } := by
  have howner := (hs h).field fd hfield hnone
  intro h'
  by_cases hne : h' = h
  · subst hne
    have hdone : Function.update s.settled h' settled h' = settled := Function.update_self ..
    have hself : Function.update s.fdField h' field h' = field := Function.update_self ..
    refine ⟨fun _ _ hopen ↦ ?_, ?_, ?_, fun _ _ hopen ↦ ?_, fun hle ↦ ?_⟩
    · exact absurd (hdone.symm.trans hopen) hsettled
    · dsimp only
      rw [hdone, hself]
      exact hfulfilled
    · dsimp only
      rw [hdone, hself]
      exact hrejected
    · exact absurd (hdone.symm.trans hopen) hsettled
    · have := ((hs h').fresh hle).1
      omega
  · have hother : s.owner fd ≠ some (.handle h') := by
      rw [howner]
      simpa using fun heq ↦ hne heq.symm
    exact (hs h').transport (Function.update_of_ne hne ..) (Function.update_of_ne hne ..) le_rfl rfl
      fun _ ↦ setOwner_of_handle hother

theorem Owned.closed {result : Except Errno Unit} (hs : s.Owned) (hfield : s.fdField h = fd)
    (hnone : s.settled h = .none) : (s.jsFsFhClose h fd result).Owned := by
  cases result with
  | ok =>
    exact hs.settle hfield hnone (by decide) (fun _ ↦ by decide) (fun heq ↦ absurd heq (by decide))
  | error err =>
    -- `_fd` stays what it is
    have hnonneg : 0 ≤ s.fdField h := by omega
    have hsettle := hs.settle hfield hnone (by decide : Settled.rejected ≠ .none)
      (fun heq ↦ absurd heq (by decide)) (fun _ ↦ hnonneg)
    rw [Function.update_eq_self] at hsettle
    exact hsettle

theorem Owned.setReading {reading : List (Nat × Nat)} (hs : s.Owned)
    (hreading : ∀ h fd, (h, fd) ∈ reading → s.settled h = .none → s.owner fd = some (.handle h)) :
    Owned { s with reading } := by
  intro h
  obtain ⟨hfield, hfulfilled, hrejected, -, hfresh⟩ := hs h
  exact ⟨hfield, hfulfilled, hrejected, hreading h, hfresh⟩

theorem Owned.step {s' : HandleTable} {e : HandleEvent} (hs : s.Owned)
    (hsafe : NotAfterFailedClose s e) (hstep : s.step e = some s') : s'.Owned := by
  cases e with
  | opened fd =>
    obtain ⟨hfree, hnext⟩ := Option.ite_none_right_eq_some.mp hstep
    obtain rfl := Option.some.inj hnext
    exact hs.opened hfree
  | taken fd =>
    obtain ⟨hfree, hnext⟩ := Option.ite_none_right_eq_some.mp hstep
    obtain rfl := Option.some.inj hnext
    exact hs.setOwner fun h' ↦ by simp [hfree]
  | released fd =>
    obtain ⟨hother, hnext⟩ := Option.ite_none_right_eq_some.mp hstep
    obtain rfl := Option.some.inj hnext
    exact hs.setOwner fun h' ↦ by simp [hother]
  | read h args =>
    obtain rfl := Option.some.inj hstep
    exact hs
  | sync h =>
    obtain rfl := Option.some.inj hstep
    exact hs
  | write h args =>
    unfold HandleTable.step at hstep
    dsimp only at hstep
    split at hstep
    · exact nomatch hstep
    · obtain rfl := Option.some.inj hstep
      exact hs
  | startRead h =>
    unfold HandleTable.step at hstep
    dsimp only at hstep
    split at hstep
    case h_1 =>
      obtain rfl := Option.some.inj hstep
      exact hs
    case h_2 fd hfd =>
      obtain rfl := Option.some.inj hstep
      refine hs.setReading fun h' fd' hmem hsettled ↦ ?_
      obtain heq | hmem := List.mem_cons.mp hmem
      · obtain ⟨rfl, rfl⟩ := Prod.mk.inj heq
        exact (hs h').field fd' (jsFsFhGetFd_eq_ok_iff.mp hfd) hsettled
      · exact (hs h').reading fd' hmem hsettled
  | finishRead args =>
    obtain rfl := Option.some.inj hstep
    exact hs.setReading fun h' fd' hmem ↦ (hs h').reading fd' (List.mem_of_mem_tail hmem)
  | close h result =>
    unfold HandleTable.step at hstep
    dsimp only at hstep
    split at hstep
    case h_1 =>
      obtain rfl := Option.some.inj hstep
      exact hs
    case h_2 fd hfd =>
      obtain rfl := Option.some.inj hstep
      have hfield := jsFsFhGetFd_eq_ok_iff.mp hfd
      refine hs.closed hfield ?_
      cases hsettled : s.settled h with
      | none => rfl
      | fulfilled =>
        have := (hs h).fulfilled hsettled
        omega
      | rejected => exact absurd hsettled hsafe

end

/-- In a run every system call is made with a descriptor that its handle owns exactly if no method is
called on a handle after its `close` was rejected, and none is closed by the getters of its own read. -/
theorem ownDescriptor_iff (others : Nat → Bool) (es : List HandleEvent) :
    Runs.Guarded step OwnDescriptor (start others) es ↔
      Runs.Guarded step NotAfterFailedClose (start others) es := by
  apply Runs.guarded_iff_guarded (I := Owned) (fun s e hs ↦ hs.own_iff e) _
    (owned_start others)
  intro s e s' hs hown hstep
  exact hs.step ((hs.own_iff e).mp hown) hstep

/-- A `close` that reports an error, and an `open` that gets the number again: the write through the
first handle reaches the file of the second. -/
theorem stale_write :
    ¬ Runs.Guarded step OwnDescriptor (start fun _ ↦ false)
      [.opened 3, .close 0 (.error .io), .opened 3, .write 0 (.string [65] none)] := by
  intro hrun
  have hwrite := ((hrun.2 _ rfl).2 _ rfl).2 _ rfl
  have hcall := hwrite.1 0 [.write 3 [65]] rfl (.write 3 [65]) List.mem_cons_self
  exact absurd hcall.1 (by decide)

end HandleTable

end QNode.Fs
