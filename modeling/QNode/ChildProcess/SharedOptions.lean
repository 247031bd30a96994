import QNode.ChildProcess.Launch

/-!
# One options object for several calls

Some of the functions write `shell` into the object they are given, and a later call with the same
object reads it.
-/

open QNode.Engine

namespace QNode.ChildProcess.Launch

section

variable (platform : Platform)

/-! ## What a call leaves of the object -/

def KeptBySpawn (o : Options) : Prop :=
  (o.get .shell).truthy = true ∨ o.own .shell = some (.bool false)

/-- The call writes nothing into the object, or the value that `shell` has already. -/
def Call.LeavesShell (o : Options) : Call → Prop
  | .spawn _ _ passes => passes = true → KeptBySpawn o
  | .execFile _ args options callback =>
    ∀ args', execFileArgs args options callback = some (args', true) → KeptBySpawn o
  | .exec _ options callback =>
    execArgs options callback = some true → o.own .shell = some (.bool true)
  | .execFileSync _ _ passes => passes = true → o.own .shell = some (.bool false)
  | .fork _ _ _ | .execSync _ _ | .spawnSync _ _ _ => True

theorem spawn_snd (command : JsString) (args : List JsString) (o : Options) :
    (spawn platform command args o).2 =
      if (o.get .shell).truthy = true then o else o.set .shell (.bool false) := by
  unfold spawn
  dsimp only
  cases htruthy : (o.get .shell).truthy with
  | true =>
    simp only [Bool.not_true, Bool.false_eq_true, if_false, htruthy, if_true]
    split <;> rfl
  | false => simp [Options.get_set_self, JsValue.truthy]

theorem spawn_keeps_iff (command : JsString) (args : List JsString) (o : Options) :
    (spawn platform command args o).2 = o ↔ KeptBySpawn o := by
  rw [spawn_snd, KeptBySpawn]
  by_cases htruthy : (o.get .shell).truthy = true
  · rw [if_pos htruthy]
    exact iff_of_true rfl (.inl htruthy)
  · rw [if_neg htruthy, Options.set_eq_self_iff]
    exact (or_iff_right htruthy).symm

theorem exec_keeps_iff (command : JsString) (o : Options) :
    (exec platform command o).2 = o ↔ o.own .shell = some (.bool true) := by
  have htruthy : ((o.set .shell (.bool true)).get .shell).truthy = true := by
    rw [Options.get_set_self, JsValue.truthy]
  rw [exec, execFile, spawn_snd, if_pos htruthy, Options.set_eq_self_iff]

theorem execFileSync_keeps_iff (file : JsString) (args : List JsString) (o : Options) :
    (execFileSync platform file args o).2 = o ↔ o.own .shell = some (.bool false) :=
  o.set_eq_self_iff .shell (.bool false)

theorem fork_keeps (modulePath : JsString) (args : List JsString) (o : Options) :
    (fork platform modulePath args o).2 = o := by
  unfold fork
  dsimp only
  split <;> rfl

theorem withOptions_keeps_iff {passes : Bool} {f : Options → Effect × Options} {o : Options}
    {P : Prop} (hf : (f o).2 = o ↔ P) : (withOptions passes f o).2 = o ↔ (passes = true → P) := by
  cases passes with
  | true => exact hf.trans ⟨fun hp _ ↦ hp, fun hp ↦ hp rfl⟩
  | false => exact iff_of_true rfl fun h ↦ absurd h Bool.false_ne_true

theorem withCallback_keeps_iff {α : Type} {found : Option α} {f : α → Options → Effect × Options}
    {o : Options} {P : α → Prop} (hf : ∀ a, (f a o).2 = o ↔ P a) :
    (withCallback found f o).2 = o ↔ ∀ a, found = some a → P a := by
  cases found with
  | none => exact iff_of_true rfl fun a h ↦ absurd h (by simp)
  | some a =>
    apply (hf a).trans
    constructor
    · intro hp a' heq
      rw [← Option.some.inj heq]
      exact hp
    · exact fun hp ↦ hp a rfl

theorem perform_keeps_iff (o : Options) (c : Call) :
    (c.perform platform o).2 = o ↔ c.LeavesShell o := by
  cases c with
  | spawn command args passes =>
    exact withOptions_keeps_iff (spawn_keeps_iff platform command args o)
  | execFile file args options callback =>
    apply (withCallback_keeps_iff fun found : List JsString × Bool ↦
      withOptions_keeps_iff (spawn_keeps_iff platform file found.1 o)).trans
    constructor
    · exact fun h args' heq ↦ h (args', true) heq rfl
    · intro h found heq hpasses
      exact h found.1 (by rw [heq, ← hpasses])
  | exec command options callback =>
    apply (withCallback_keeps_iff fun passes : Bool ↦
      withOptions_keeps_iff (exec_keeps_iff platform command o)).trans
    constructor
    · exact fun h heq ↦ h true heq rfl
    · intro h passes heq hpasses
      exact h (by rw [heq, hpasses])
  | fork modulePath args passes =>
    apply (withOptions_keeps_iff (iff_of_true (fork_keeps platform modulePath args o) trivial)).trans
    exact iff_of_true (fun _ ↦ trivial) trivial
  | execSync command passes =>
    apply (withOptions_keeps_iff (f := execSync command) (iff_of_true rfl trivial)).trans
    exact iff_of_true (fun _ ↦ trivial) trivial
  | spawnSync command args passes =>
    apply (withOptions_keeps_iff (f := spawnSync platform command args) (iff_of_true rfl trivial)).trans
    exact iff_of_true (fun _ ↦ trivial) trivial
  | execFileSync file args passes =>
    exact withOptions_keeps_iff (execFileSync_keeps_iff platform file args o)

/-! ## Runs of calls -/

/-- The effects of the calls of a run, and the object after each of them. -/
def runShared : Options → List Call → List (Effect × Options)
  | _, [] => []
  | o, c :: calls => c.perform platform o :: runShared (c.perform platform o).2 calls

/-- The same calls, each with a fresh copy of the object, which is left as it is. -/
def runFresh (o : Options) (calls : List Call) : List (Effect × Options) :=
  calls.map fun c ↦ ((c.perform platform o).1, o)

/-- The calls of a run that share an object all have the effects they have with fresh copies, and all
leave the object as it is, precisely if none of them writes another `shell` than the object has. -/
theorem shared_eq_fresh_iff (o : Options) (calls : List Call) :
    runShared platform o calls = runFresh platform o calls ↔ ∀ c ∈ calls, c.LeavesShell o := by
  induction calls with
  | nil => exact iff_of_true rfl fun _ h ↦ absurd h List.not_mem_nil
  | cons c calls ih =>
    rw [List.forall_mem_cons, ← perform_keeps_iff platform, ← ih, runFresh, List.map_cons, ← runFresh,
      runShared, List.cons.injEq]
    constructor
    · rintro ⟨hfirst, hrest⟩
      have hkept : (c.perform platform o).2 = o := congrArg Prod.snd hfirst
      rw [hkept] at hrest
      exact ⟨hkept, hrest⟩
    · rintro ⟨hkept, hrest⟩
      rw [hkept]
      exact ⟨Prod.ext rfl hkept, hrest⟩

end

/-- `exec` and then `spawn` with one empty object: the argument of the second call is shell input. -/
theorem exec_leaks_shell :
    let calls : List Call :=
      [.exec (toJsString "ls") .object .function,
        .spawn (toJsString "echo") [toJsString "$(id)"] true]
    (runShared .unix .empty calls).map Prod.fst =
        [.spawned ⟨[ascii "/bin/sh", ascii "-c", ascii "ls"], none, none, true, true, true⟩,
          .spawned ⟨[ascii "/bin/sh", ascii "-c", ascii "echo $(id)"], none, none, true, true, true⟩] ∧
      (runFresh .unix .empty calls).map Prod.fst =
        [.spawned ⟨[ascii "/bin/sh", ascii "-c", ascii "ls"], none, none, true, true, true⟩,
          .spawned ⟨[ascii "echo", ascii "$(id)"], none, none, true, true, true⟩] ∧
      runShared .unix .empty calls ≠ runFresh .unix .empty calls := by
  intro calls
  have hshared : (runShared .unix .empty calls).map Prod.fst =
      [.spawned ⟨[ascii "/bin/sh", ascii "-c", ascii "ls"], none, none, true, true, true⟩,
        .spawned ⟨[ascii "/bin/sh", ascii "-c", ascii "echo $(id)"], none, none, true, true, true⟩] := by
    decide
  have hfresh : (runFresh .unix .empty calls).map Prod.fst =
      [.spawned ⟨[ascii "/bin/sh", ascii "-c", ascii "ls"], none, none, true, true, true⟩,
        .spawned ⟨[ascii "echo", ascii "$(id)"], none, none, true, true, true⟩] := by
    decide
  refine ⟨hshared, hfresh, fun heq ↦ ?_⟩
  rw [heq, hfresh] at hshared
  exact absurd hshared (by decide)

end QNode.ChildProcess.Launch
