import QNode.ChildProcess.Launch
import QNode.Engine.Utf8

/-!
# The environment of a child

A process is started with an array of entries `k=v`, or without one and then with the environment of
the parent.  On Windows the array is passed on as a block of terminated strings.
-/

open QNode.Engine

namespace QNode.ChildProcess.Launch

/-! ## The block of Windows -/

def envBlock (envp : List (List UInt8)) : List UInt8 := envp.flatMap (· ++ [0]) ++ [0]

/-- The strings of a block after the bytes `string` of the first: an empty string ends it. -/
def blockStrings (string : List UInt8) : List UInt8 → List (List UInt8)
  | [] => []
  | b :: block =>
    if b = 0 then if string = [] then [] else string :: blockStrings [] block
    else blockStrings (string ++ [b]) block

theorem blockStrings_append {entry : List UInt8} (hentry : (0 : UInt8) ∉ entry)
    (string block : List UInt8) :
    blockStrings string (entry ++ block) = blockStrings (string ++ entry) block := by
  induction entry generalizing string with
  | nil => rw [List.nil_append, List.append_nil]
  | cons b entry ih =>
    rw [List.mem_cons, not_or] at hentry
    rw [List.cons_append, blockStrings, if_neg (Ne.symm hentry.1), ih hentry.2, List.append_assoc,
      List.singleton_append]

theorem blockStrings_envBlock {envp : List (List UInt8)}
    (h : ∀ entry ∈ envp, entry ≠ [] ∧ (0 : UInt8) ∉ entry) :
    blockStrings [] (envBlock envp) = envp := by
  induction envp with
  | nil => rfl
  | cons entry envp ih =>
    rw [List.forall_mem_cons] at h
    have hblock : envBlock (entry :: envp) = entry ++ (0 :: envBlock envp) := by
      simp [envBlock]
    rw [hblock, blockStrings_append h.1.2, List.nil_append, blockStrings, if_pos rfl, if_neg h.1.1,
      ih h.2]

/-! ## What a child sees -/

/-- The environment of the program that `execve`, `execvp` or `CreateProcess` starts. -/
def childEnvironment (platform : Platform) (parent : List (List UInt8)) :
    Option (List (List UInt8)) → List (List UInt8)
  | none => parent
  | some envp =>
    match platform with
    | .unix => envp
    | .windows => blockStrings [] (envBlock envp)

/-- The name and the value of an entry, which its first `=` separates. -/
def entryPair (entry : List UInt8) : List UInt8 × List UInt8 :=
  (entry.takeWhile (· ≠ 61), (entry.dropWhile (· ≠ 61)).drop 1)

def bytesPair (property : JsString × JsString) : List UInt8 × List UInt8 :=
  (jsToCStringLen property.1, jsToCStringLen property.2)

/-- Whatever the environment of the parent, the child sees the properties of `env` and nothing
else. -/
def SeesExactly (platform : Platform) (process : ProcessArgs) (env : List (JsString × JsString)) :
    Prop :=
  ∀ parent, ((childEnvironment platform parent process.envp).map entryPair).Perm (env.map bytesPair)

theorem not_mem_takeWhile (p : List UInt8) (b : UInt8) : b ∉ p.takeWhile (· ≠ b) := by
  intro hmem
  have hne := List.mem_takeWhile_imp hmem
  simp at hne

theorem takeWhile_ne_self {p : List UInt8} {b : UInt8} (h : b ∉ p) : p.takeWhile (· ≠ b) = p := by
  rw [List.takeWhile_eq_self_iff]
  intro c hc
  exact decide_eq_true fun heq ↦ h (heq ▸ hc)

theorem toCString_eq_self {s : JsString} (h : (0 : UInt16) ∉ s) : toCString s = jsToCStringLen s :=
  takeWhile_ne_self fun hmem ↦ h ((mem_jsToCStringLen_ascii (b := 0) (by decide) s).mp hmem)

theorem ascii_eq : ascii "=" = [61] := by decide

theorem envEntry_ne_nil (property : JsString × JsString) : envEntry property ≠ [] := by
  rw [envEntry, ascii_eq]
  simp

theorem zero_not_mem_envEntry (property : JsString × JsString) :
    (0 : UInt8) ∉ envEntry property := by
  have hkey := not_mem_takeWhile (jsToCStringLen property.1) 0
  have hvalue := not_mem_takeWhile (jsToCStringLen property.2) 0
  rw [envEntry, ascii_eq, List.mem_append, List.mem_append, List.mem_singleton]
  rintro ((hmem | hmem) | hmem)
  · exact hkey hmem
  · exact absurd hmem (by decide)
  · exact hvalue hmem

theorem childEnvironment_envp (platform : Platform) (parent : List (List UInt8))
    (props : List (JsString × JsString)) :
    childEnvironment platform parent (some (props.map envEntry)) = props.map envEntry := by
  cases platform with
  | unix => rfl
  | windows =>
    apply blockStrings_envBlock
    intro entry hmem
    obtain ⟨property, -, rfl⟩ := List.mem_map.mp hmem
    exact ⟨envEntry_ne_nil property, zero_not_mem_envEntry property⟩

/-- A name that an environment can hold. -/
def ValidName (key : JsString) : Prop := (0 : UInt16) ∉ key ∧ (61 : UInt16) ∉ key

instance (key : JsString) : Decidable (ValidName key) :=
  inferInstanceAs (Decidable ((0 : UInt16) ∉ key ∧ (61 : UInt16) ∉ key))

theorem entryPair_entry {name : List UInt8} (h : (61 : UInt8) ∉ name) (value : List UInt8) :
    entryPair (name ++ ascii "=" ++ value) = (name, value) := by
  have hsplit : ∀ b ∈ name, decide (b ≠ 61) = true :=
    fun b hb ↦ decide_eq_true fun heq ↦ h (heq ▸ hb)
  rw [entryPair, ascii_eq, List.append_assoc, List.singleton_append,
    List.takeWhile_append_of_pos hsplit, List.dropWhile_append_of_pos hsplit]
  simp

theorem entryPair_envEntry {property : JsString × JsString} (hname : ValidName property.1) :
    entryPair (envEntry property) = (jsToCStringLen property.1, toCString property.2) := by
  have hkey : (61 : UInt8) ∉ jsToCStringLen property.1 := fun hmem ↦
    hname.2 ((mem_jsToCStringLen_ascii (b := 61) (by decide) property.1).mp hmem)
  rw [envEntry, toCString_eq_self hname.1, entryPair_entry hkey]

theorem seesExactly_envp_iff (platform : Platform) {process : ProcessArgs}
    {env : List (JsString × JsString)} (hnames : ∀ property ∈ env, ValidName property.1)
    (henvp : process.envp = some (env.map envEntry)) :
    SeesExactly platform process env ↔ ∀ property ∈ env, (0 : UInt16) ∉ property.2 := by
  unfold SeesExactly
  simp only [henvp, childEnvironment_envp]
  constructor
  · intro h property hmem hzero
    have hbytes : bytesPair property ∈ (env.map envEntry).map entryPair :=
      (h []).mem_iff.mpr (List.mem_map_of_mem hmem)
    obtain ⟨entry, hentry, heq⟩ := List.mem_map.mp hbytes
    obtain ⟨property', hmem', rfl⟩ := List.mem_map.mp hentry
    rw [entryPair_envEntry (hnames property' hmem')] at heq
    have hvalue : toCString property'.2 = jsToCStringLen property.2 := congrArg Prod.snd heq
    have hnul : (0 : UInt8) ∈ jsToCStringLen property.2 :=
      (mem_jsToCStringLen_ascii (b := 0) (by decide) property.2).mpr hzero
    rw [← hvalue] at hnul
    exact not_mem_takeWhile _ 0 hnul
  · intro hvalues parent
    have hmap : (env.map envEntry).map entryPair = env.map bytesPair := by
      rw [List.map_map]
      apply List.map_congr_left
      intro property hmem
      rw [Function.comp_apply, entryPair_envEntry (hnames property hmem),
        toCString_eq_self (hvalues property hmem), bytesPair]
    rw [hmap]

-- A child that inherits sees what the parent has.
theorem not_seesExactly_inherited (platform : Platform) {process : ProcessArgs}
    (henvp : process.envp = none) (env : List (JsString × JsString)) :
    ¬SeesExactly platform process env := by
  intro h
  have hempty := (h []).length_eq
  have hone := (h [[61]]).length_eq
  simp only [henvp, childEnvironment, List.map_nil, List.length_nil, List.map_cons, List.length_cons,
    List.length_map] at hempty hone
  omega

/-! ## The entry points -/

/-- The functions that start a child and go on. -/
def Call.isAsync : Call → Bool
  | .spawn _ _ _ | .execFile _ _ _ _ | .exec _ _ _ | .fork _ _ _ => true
  | .execSync _ _ | .spawnSync _ _ _ | .execFileSync _ _ _ => false

def Call.passesObject : Call → Prop
  | .spawn _ _ passes | .fork _ _ passes | .execSync _ passes | .spawnSync _ _ passes
  | .execFileSync _ _ passes => passes = true
  | .execFile _ args options callback => ∃ args', execFileArgs args options callback = some (args', true)
  | .exec _ options callback => execArgs options callback = some true

def Effect.process : Effect → Option ProcessArgs
  | .spawned process | .waited process _ => some process
  | .popen _ _ | .fileMustBeString | .callbackRequired => none

section

variable (platform : Platform)

-- Whatever `spawn` does with `shell`, it hands on the environment of its options.
theorem spawn_envp (command : JsString) (args : List JsString) (o : Options) :
    ∃ process, (spawn platform command args o).1 = .spawned process ∧
      process.envp = buildEnvp (o.get .env) := by
  have henv : ∀ value, (o.set .shell value).get .env = o.get .env :=
    fun value ↦ o.get_set_of_ne (by decide) value
  unfold spawn
  dsimp only
  cases (o.get .shell).truthy with
  | true =>
    simp only [Bool.not_true, Bool.false_eq_true, if_false]
    repeat' split
    all_goals exact ⟨_, rfl, rfl⟩
  | false =>
    simp only [Bool.not_false, if_true]
    repeat' split
    all_goals exact ⟨_, rfl, by rw [spawnProcess, henv]⟩

theorem async_envp {c : Call} (hasync : c.isAsync = true) (hpass : c.passesObject) {o : Options}
    {process : ProcessArgs} (hstart : (c.perform platform o).1.process = some process) :
    process.envp = buildEnvp (o.get .env) := by
  have hspawn : ∀ command args (o' : Options), o'.get .env = o.get .env →
      (spawn platform command args o').1.process = some process →
      process.envp = buildEnvp (o.get .env) := by
    intro command args o' henv heq
    obtain ⟨process', heffect, henvp⟩ := spawn_envp platform command args o'
    rw [heffect] at heq
    rw [← Option.some.inj heq, henvp, henv]
  cases c with
  | spawn command args passes =>
    obtain rfl : passes = true := hpass
    exact hspawn command args o rfl hstart
  | execFile file args options callback =>
    obtain ⟨args', hargs⟩ := hpass
    rw [Call.perform, hargs] at hstart
    exact hspawn file args' o rfl hstart
  | exec command options callback =>
    rw [Call.perform, show execArgs options callback = some true from hpass] at hstart
    exact hspawn command [] (o.set .shell (.bool true)) (o.get_set_of_ne (by decide) _) hstart
  | fork modulePath args passes =>
    obtain rfl : passes = true := hpass
    rw [Call.perform, withOptions, if_pos rfl, fork] at hstart
    split at hstart
    · exact hspawn _ _ (forkOptions o) rfl hstart
    · exact absurd hstart (by simp [Effect.process])
  | execSync command passes => exact absurd hasync Bool.false_ne_true
  | spawnSync command args passes => exact absurd hasync Bool.false_ne_true
  | execFileSync file args passes => exact absurd hasync Bool.false_ne_true

theorem sync_envp {c : Call} (hsync : c.isAsync = false) {o : Options} {process : ProcessArgs}
    (hstart : (c.perform platform o).1.process = some process) : process.envp = none := by
  have hwaited : ∀ (passes : Bool) (f : Options → Effect × Options),
      (∀ o, ∃ process eo, (f o).1 = .waited process eo ∧ process.envp = none) →
      (withOptions passes f o).1.process = some process → process.envp = none := by
    intro passes f hf heq
    cases passes with
    | true =>
      obtain ⟨process', eo, heffect, henvp⟩ := hf o
      rw [withOptions, if_pos rfl, heffect] at heq
      rw [← Option.some.inj heq, henvp]
    | false =>
      obtain ⟨process', eo, heffect, henvp⟩ := hf .empty
      rw [withOptions, if_neg Bool.false_ne_true, heffect] at heq
      rw [← Option.some.inj heq, henvp]
  cases c with
  | spawn command args passes => exact absurd hsync.symm Bool.false_ne_true
  | execFile file args options callback => exact absurd hsync.symm Bool.false_ne_true
  | exec command options callback => exact absurd hsync.symm Bool.false_ne_true
  | fork modulePath args passes => exact absurd hsync.symm Bool.false_ne_true
  | execSync command passes =>
    cases passes <;> simp [Call.perform, withOptions, execSync, Effect.process] at hstart
  | spawnSync command args passes => exact hwaited passes _ (fun o ↦ ⟨_, _, rfl, rfl⟩) hstart
  | execFileSync file args passes => exact hwaited passes _ (fun o ↦ ⟨_, _, rfl, rfl⟩) hstart

/-- A child started with an object `env` sees exactly its properties precisely if it is started by
`spawn`, `execFile`, `exec` or `fork`, the object is not empty, and no value of it holds a NUL. -/
theorem environment_iff {c : Call} (hpass : c.passesObject) {o : Options}
    {env : List (JsString × JsString)} (henv : o.get .env = .object env)
    (hnames : ∀ property ∈ env, ValidName property.1) {process : ProcessArgs}
    (hstart : (c.perform platform o).1.process = some process) :
    SeesExactly platform process env ↔
      c.isAsync = true ∧ env ≠ [] ∧ ∀ property ∈ env, (0 : UInt16) ∉ property.2 := by
  cases hasync : c.isAsync with
  | false =>
    apply iff_of_false (not_seesExactly_inherited platform (sync_envp platform hasync hstart) env)
    exact fun h ↦ Bool.false_ne_true h.1
  | true =>
    have henvp := async_envp platform hasync hpass hstart
    rw [henv] at henvp
    rw [and_iff_right rfl]
    cases env with
    | nil =>
      apply iff_of_false (not_seesExactly_inherited platform henvp [])
      exact fun h ↦ h.1 rfl
    | cons property props =>
      rw [seesExactly_envp_iff platform hnames henvp]
      exact (and_iff_right (List.cons_ne_nil _ _)).symm

end

/-- `spawn` with one variable, through the block of Windows. -/
theorem environment_one_variable :
    SeesExactly .windows ⟨[ascii "env"], none, some [ascii "A=1"], true, true, true⟩
      [(toJsString "A", toJsString "1")] :=
  (environment_iff .windows (c := .spawn (toJsString "env") [] true) rfl
    (o := Options.empty.set .env (.object [(toJsString "A", toJsString "1")])) (by decide) (by decide)
    (by decide)).mpr ⟨rfl, by decide, by decide⟩

/-- `spawn` with an empty object, and `spawnSync` with any: the child inherits. -/
theorem environment_inherited :
    let props := [(toJsString "A", toJsString "1")]
    let process : ProcessArgs := ⟨[ascii "env"], none, none, true, true, true⟩
    (Call.perform .unix (Options.empty.set .env (.object [])) (.spawn (toJsString "env") [] true)).1 =
        .spawned process ∧
      (Call.perform .unix (Options.empty.set .env (.object props))
        (.spawnSync (toJsString "env") [] true)).1.process = some process ∧
      childEnvironment .unix [ascii "SECRET=1"] process.envp = [ascii "SECRET=1"] ∧
      ¬SeesExactly .unix process [] ∧ ¬SeesExactly .unix process props := by
  intro props process
  have hinherits : ∀ env, ¬SeesExactly .unix process env := not_seesExactly_inherited .unix rfl
  exact ⟨by decide, by decide, rfl, hinherits [], hinherits props⟩

end QNode.ChildProcess.Launch
