import Mathlib.Data.List.Sort
import QNode.ChildProcess.Environment
import QNode.Library.Exec

/-!
# `process.env` as the environment of a child

`process.env` is built from the environment of the process, and `spawn` builds an environment from it
again.  A variable named like the accessor of every object is lost, malformed text is replaced, and the
program is no longer looked for in `PATH`.
-/

open QNode.Engine Exec

namespace QNode.ChildProcess.Launch

/-! ## `process.env` -/

/-- `JS_NewStringLen`; no string of an environment is too long for it. -/
def newString (p : List UInt8) : JsString := newStringFrom p.length p

/-- `JS_SetProperty` on an object that inherits from `Object.prototype`: the accessor `__proto__` ignores
a string. -/
def setProperty (obj : List (JsString × JsString)) (key value : JsString) :
    List (JsString × JsString) :=
  if key = toJsString "__proto__" then obj
  else if obj.any (·.1 = key) then obj.map fun p ↦ if p.1 = key then (key, value) else p
  else obj ++ [(key, value)]

/-- `js_process_build_env` on Unix; the properties in the order in which they were made. -/
def processBuildEnv (environ : List (List UInt8)) : List (JsString × JsString) :=
  environ.foldl (fun obj entry ↦
    if 61 ∈ entry then
      setProperty obj (newString (entryPair entry).1) (newString (entryPair entry).2)
    else obj) []

/-- `JS_AtomIsArrayIndex`. -/
def arrayIndex (key : JsString) : Option Nat :=
  let value := key.foldl (fun n c ↦ 10 * n + (c.toNat - 48)) 0
  if key ≠ [] ∧ key.all (fun c ↦ 48 ≤ c && c ≤ 57) ∧ (key.head? = some 48 → key.length = 1) ∧
      value < 2 ^ 32 - 1 then
    some value
  else none

/-- The properties in the order of `JS_GetOwnPropertyNames`: array indices first, by size. -/
def ownProperties (obj : List (JsString × JsString)) : List (JsString × JsString) :=
  (obj.filter fun p ↦ (arrayIndex p.1).isSome).insertionSort
      (fun p q ↦ (arrayIndex p.1).getD 0 ≤ (arrayIndex q.1).getD 0) ++
    obj.filter fun p ↦ (arrayIndex p.1).isNone

/-! ## Programs -/

/-- A variable of an environment, as its entry `name=value` gives it. -/
structure EnvVar where
  name : List UInt8
  value : List UInt8
  name_text : Utf8Text name
  name_eq : (61 : UInt8) ∉ name
  name_nul : (0 : UInt8) ∉ name
  value_nul : (0 : UInt8) ∉ value

def EnvVar.entry (v : EnvVar) : List UInt8 := v.name ++ ascii "=" ++ v.value

/-- What the child finds: the environment of the parent, and what the kernel says to a path. -/
structure System where
  environ : List EnvVar
  distinct : (environ.map EnvVar.name).Nodup
  files : List UInt8 → Attempt

def System.entries (sys : System) : List (List UInt8) := sys.environ.map EnvVar.entry

/-- The properties that `spawn` finds in `process.env`. -/
def System.properties (sys : System) : List (JsString × JsString) :=
  ownProperties (processBuildEnv sys.entries)

/-- `getenv("PATH")`. -/
def System.path (sys : System) : Option (List UInt8) :=
  (sys.environ.find? (·.name = ascii "PATH")).map EnvVar.value

structure Program where
  path : List UInt8
  argv : List (List UInt8)
  entries : List (List UInt8)
deriving DecidableEq

/-- The shell gets the path of the file in place of its name. -/
def program (argv entries : List (List UInt8)) (found : Found) : Program :=
  if found.byShell then ⟨shell, shell :: found.path :: argv.tail, entries⟩
  else ⟨found.path, argv, entries⟩

/-- The end of `create_process` in the child. -/
def createProcess (sys : System) (process : ProcessArgs) : Option Program :=
  let file := process.argv.headD []
  match process.envp with
  | some envp => (direct sys.files file).map (program process.argv envp)
  | none =>
    (searched sys.files sys.path file).map (program process.argv sys.entries)

/-- What a call starts. -/
def starts (sys : System) (o : Options) (call : Call) : Option Program :=
  (call.perform .unix o).1.process.bind (createProcess sys)

def processEnv (sys : System) : JsValue :=
  .object sys.properties

/-- Nothing is started, or the same path with the same arguments and the same set of entries. -/
def SameProgram : Option Program → Option Program → Prop
  | none, none => True
  | some p, some q => p.path = q.path ∧ p.argv = q.argv ∧ ∀ entry, entry ∈ p.entries ↔ entry ∈ q.entries
  | _, _ => False

/-- `spawn(file, args, { env: process.env })` and `spawn(file, args)` start the same. -/
def EnvNeutral (sys : System) (file : JsString) (args : List JsString) : Prop :=
  SameProgram (starts sys (Options.empty.set .env (processEnv sys)) (.spawn file args true))
    (starts sys .empty (.spawn file args false))

/-! ## Names and values -/

theorem toCString_newString {p : List UInt8} (htext : Utf8Text p) (hnul : (0 : UInt8) ∉ p) :
    toCString (newString p) = p := by
  unfold toCString newString
  rw [(jsToCStringLen_newString_iff p).mpr htext, takeWhile_ne_self hnul]

theorem newString_inj {p q : List UInt8} (hp : Utf8Text p) (hq : Utf8Text q)
    (h : newString p = newString q) : p = q := by
  rw [← (jsToCStringLen_newString_iff p).mpr hp, ← (jsToCStringLen_newString_iff q).mpr hq]
  exact congrArg jsToCStringLen h

def EnvVar.property (v : EnvVar) : JsString × JsString := (newString v.name, newString v.value)

def EnvVar.isProto (v : EnvVar) : Bool := v.name = ascii "__proto__"

theorem EnvVar.isProto_iff (v : EnvVar) :
    v.isProto ↔ newString v.name = toJsString "__proto__" := by
  have hproto : newString (ascii "__proto__") = toJsString "__proto__" := by decide
  have htext : Utf8Text (ascii "__proto__") :=
    (jsToCStringLen_newString_iff _).mp (by decide)
  unfold isProto
  rw [decide_eq_true_iff, ← hproto]
  exact ⟨congrArg newString, newString_inj v.name_text htext⟩

theorem EnvVar.entryPair_entry (v : EnvVar) : entryPair v.entry = (v.name, v.value) :=
  Launch.entryPair_entry v.name_eq v.value

theorem EnvVar.eq_mem_entry (v : EnvVar) : 61 ∈ v.entry := by
  unfold entry
  rw [ascii_eq]
  simp

theorem foldl_setProperty {environ : List EnvVar} {obj : List (JsString × JsString)}
    (hdistinct : (environ.map EnvVar.name).Nodup)
    (hnew : ∀ v ∈ environ, ∀ p ∈ obj, p.1 ≠ newString v.name) :
    (environ.map EnvVar.entry).foldl (fun obj entry ↦
      if 61 ∈ entry then
        setProperty obj (newString (entryPair entry).1) (newString (entryPair entry).2)
      else obj) obj =
    obj ++ (environ.filter fun v ↦ !v.isProto).map EnvVar.property := by
  induction environ generalizing obj with
  | nil => exact (List.append_nil obj).symm
  | cons v environ ih =>
    obtain ⟨hv, hrest⟩ := List.nodup_cons.mp hdistinct
    have hnone : obj.any (·.1 = newString v.name) = false := by
      rw [List.any_eq_false]
      exact fun p hp ↦ by simpa using hnew v List.mem_cons_self p hp
    rw [List.map_cons, List.foldl_cons, if_pos v.eq_mem_entry, v.entryPair_entry, setProperty]
    by_cases hproto : v.isProto
    · rw [if_pos (v.isProto_iff.mp hproto), List.filter_cons, if_neg (by simp [hproto])]
      exact ih hrest fun v hv ↦ hnew v (List.mem_cons_of_mem _ hv)
    · rw [if_neg (fun h ↦ hproto (v.isProto_iff.mpr h)), hnone, if_neg Bool.false_ne_true,
        List.filter_cons, if_pos (by simp [hproto]), List.map_cons]
      rw [ih hrest, List.append_assoc]
      · rfl
      · intro w hw p hp
        rcases List.mem_append.mp hp with hp | hp
        · exact hnew w (List.mem_cons_of_mem _ hw) p hp
        · rw [List.mem_singleton.mp hp]
          intro heq
          apply hv
          rw [newString_inj v.name_text w.name_text heq]
          exact List.mem_map_of_mem hw

theorem processBuildEnv_eq (sys : System) : processBuildEnv (sys.environ.map EnvVar.entry) =
    (sys.environ.filter fun v ↦ !v.isProto).map EnvVar.property :=
  foldl_setProperty sys.distinct fun _ _ _ hp ↦ by cases hp

theorem mem_ownProperties {obj : List (JsString × JsString)} {p : JsString × JsString} :
    p ∈ ownProperties obj ↔ p ∈ obj := by
  unfold ownProperties
  rw [List.mem_append, List.mem_insertionSort, List.mem_filter, List.mem_filter]
  cases arrayIndex p.1 <;> simp

/-- What becomes of a value on its way through a string. -/
def recode (value : List UInt8) : List UInt8 := toCString (newString value)

theorem EnvVar.envEntry_property (v : EnvVar) :
    envEntry v.property = v.name ++ ascii "=" ++ recode v.value := by
  unfold envEntry property recode
  rw [toCString_newString v.name_text v.name_nul]

theorem recode_eq_iff {value : List UInt8} (hnul : (0 : UInt8) ∉ value) :
    recode value = value ↔ Utf8Text value := by
  have hzero : (0 : UInt16) ∉ newString value := zero_not_mem_newStringFrom hnul
  rw [recode, toCString_eq_self hzero]
  exact jsToCStringLen_newString_iff value

/-! ## The environment of the child -/

/-- Every variable comes through `process.env` as it is. -/
def System.Kept (sys : System) : Prop :=
  ∀ v ∈ sys.environ, v.name ≠ ascii "__proto__" ∧ Utf8Text v.value

theorem mem_properties {sys : System} {p : JsString × JsString} :
    p ∈ sys.properties ↔ ∃ v ∈ sys.environ, ¬ v.isProto ∧ p = v.property := by
  unfold System.properties System.entries
  rw [mem_ownProperties, processBuildEnv_eq, List.mem_map]
  constructor
  · rintro ⟨v, hv, rfl⟩
    obtain ⟨hmem, hproto⟩ := List.mem_filter.mp hv
    exact ⟨v, hmem, by simpa using hproto, rfl⟩
  · rintro ⟨v, hv, hproto, rfl⟩
    exact ⟨v, List.mem_filter.mpr ⟨hv, by simpa using hproto⟩, rfl⟩

theorem properties_eq_nil_iff {sys : System} :
    sys.properties = [] ↔ ∀ v ∈ sys.environ, v.name = ascii "__proto__" := by
  rw [List.eq_nil_iff_forall_not_mem]
  constructor
  · intro h v hv
    by_contra hproto
    exact h v.property (mem_properties.mpr ⟨v, hv, by simpa [EnvVar.isProto] using hproto, rfl⟩)
  · intro h p hp
    obtain ⟨v, hv, hproto, -⟩ := mem_properties.mp hp
    exact hproto (decide_eq_true (h v hv))

-- The entries are the same precisely if every variable is kept.
theorem same_entries_iff (sys : System) :
    (∀ entry, entry ∈ sys.properties.map envEntry ↔ entry ∈ sys.entries) ↔ sys.Kept := by
  have hnames : ∀ v ∈ sys.environ, ∀ w ∈ sys.environ, v.name = w.name → v = w := by
    intro v hv w hw
    exact List.inj_on_of_nodup_map sys.distinct hv hw
  constructor
  · intro h v hv
    obtain ⟨p, hp, hentry⟩ := List.mem_map.mp ((h v.entry).mpr (List.mem_map_of_mem hv))
    obtain ⟨w, hw, hproto, rfl⟩ := mem_properties.mp hp
    rw [w.envEntry_property] at hentry
    have hpair := congrArg entryPair hentry
    rw [entryPair_entry w.name_eq, v.entryPair_entry] at hpair
    obtain ⟨hname, hvalue⟩ := Prod.mk.inj hpair
    obtain rfl := hnames w hw v hv hname
    exact ⟨fun h ↦ hproto (decide_eq_true h), (recode_eq_iff w.value_nul).mp hvalue⟩
  · intro h entry
    have hentry : ∀ v ∈ sys.environ, envEntry v.property = v.entry := by
      intro v hv
      rw [v.envEntry_property, (recode_eq_iff v.value_nul).mpr (h v hv).2]
      rfl
    constructor
    · intro hmem
      obtain ⟨p, hp, rfl⟩ := List.mem_map.mp hmem
      obtain ⟨v, hv, -, rfl⟩ := mem_properties.mp hp
      rw [hentry v hv]
      exact List.mem_map_of_mem hv
    · intro hmem
      obtain ⟨v, hv, rfl⟩ := List.mem_map.mp hmem
      rw [← hentry v hv]
      apply List.mem_map_of_mem
      exact mem_properties.mpr ⟨v, hv, fun hproto ↦ (h v hv).1 (of_decide_eq_true hproto), rfl⟩

/-! ## Two calls -/

theorem SameProgram.refl (p : Option Program) : SameProgram p p := by
  cases p with
  | none => trivial
  | some p => exact ⟨rfl, rfl, fun _ ↦ Iff.rfl⟩

-- The arguments tell whether the shell was called.
theorem program_inj {file : List UInt8} {args e e' : List (List UInt8)} {f g : Found}
    (hpath : (program (file :: args) e f).path = (program (file :: args) e' g).path)
    (hargv : (program (file :: args) e f).argv = (program (file :: args) e' g).argv) : f = g := by
  obtain ⟨p, b⟩ := f
  obtain ⟨q, c⟩ := g
  have hlen := congrArg List.length hargv
  cases b with
  | false =>
    cases c with
    | false =>
      obtain rfl : p = q := hpath
      rfl
    | true => simp [program] at hlen
  | true =>
    cases c with
    | false => simp [program] at hlen
    | true =>
      obtain rfl : p = q := (List.cons.inj (List.cons.inj hargv).2).1
      rfl

theorem sameProgram_iff {file : List UInt8} {args e e' : List (List UInt8)} {f g : Option Found} :
    SameProgram (f.map (program (file :: args) e)) (g.map (program (file :: args) e')) ↔
      f = g ∧ (f.isSome → ∀ entry, entry ∈ e ↔ entry ∈ e') := by
  have hentries : ∀ argv e f, (program argv e f).entries = e := by
    intro argv e f
    unfold program
    split <;> rfl
  cases f with
  | none =>
    cases g with
    | none => simp [SameProgram]
    | some g => simp [SameProgram]
  | some f =>
    cases g with
    | none => simp [SameProgram]
    | some g =>
      simp only [Option.map_some, SameProgram, hentries, Option.some.injEq, Option.isSome_some,
        forall_const]
      constructor
      · rintro ⟨hpath, hargv, h⟩
        exact ⟨program_inj hpath hargv, h⟩
      · rintro ⟨rfl, h⟩
        unfold program
        split
        · exact ⟨rfl, rfl, h⟩
        · exact ⟨rfl, rfl, h⟩

-- Without a shell `spawn` passes on its file and its arguments.
theorem spawn_argv (platform : Platform) (file : JsString) (args : List JsString) {o : Options}
    (ho : (o.get .shell).truthy = false) : ∃ process,
      (spawn platform file args o).1 = .spawned process ∧
      process.argv = toCString file :: args.map toCString ∧ process.envp = buildEnvp (o.get .env) := by
  have hset : ((o.set .shell (.bool false)).get .shell) = .bool false := o.get_set_self _ _
  have henv : (o.set .shell (.bool false)).get .env = o.get .env := o.get_set_of_ne (by decide) _
  refine ⟨spawnProcess platform file args (o.set .shell (.bool false)), ?_, ?_, ?_⟩
  · have hfalse : ((o.set .shell (.bool false)).get .shell).truthy = false := by
      rw [hset]
      rfl
    unfold spawn
    simp only [ho, hfalse, Bool.not_false, if_true, Bool.false_eq_true, if_false]
  · show buildArgv platform (useShell ((o.set .shell (.bool false)).get .shell)) file args = _
    rw [hset]
    rfl
  · show buildEnvp _ = _
    rw [henv]

section

variable (sys : System) (file : JsString) (args : List JsString)

-- What `spawn` starts without a shell is decided by its file, its arguments and its environment.
theorem starts_spawn {o : Options} (ho : (o.get .shell).truthy = false) : ∃ process,
      starts sys o (.spawn file args true) = createProcess sys process ∧
      process.argv = toCString file :: args.map toCString ∧ process.envp = buildEnvp (o.get .env) := by
  obtain ⟨process, heffect, hargv, henvp⟩ := spawn_argv .unix file args ho
  refine ⟨process, ?_, hargv, henvp⟩
  show (spawn .unix file args o).1.process.bind (createProcess sys) = _
  rw [heffect]
  rfl

theorem starts_inherited : starts sys .empty (.spawn file args false) =
    (searched sys.files sys.path (toCString file)).map
      (program (toCString file :: args.map toCString) sys.entries) := by
  obtain ⟨process, hstarts, hargv, henvp⟩ := starts_spawn sys file args (o := .empty) rfl
  refine hstarts.trans ?_
  unfold createProcess
  rw [hargv, henvp]
  rfl

theorem processEnv_env : (Options.empty.set .env (processEnv sys)).get .env = processEnv sys ∧
    ((Options.empty.set .env (processEnv sys)).get .shell).truthy = false := by
  rw [Options.get_set_self, Options.get_set_of_ne _ (by decide)]
  exact ⟨rfl, rfl⟩

theorem starts_processEnv (hne : sys.properties ≠ []) :
    starts sys (Options.empty.set .env (processEnv sys)) (.spawn file args true) =
      (direct sys.files (toCString file)).map
        (program (toCString file :: args.map toCString) (sys.properties.map envEntry)) := by
  obtain ⟨process, hstarts, hargv, henvp⟩ := starts_spawn sys file args (processEnv_env sys).2
  obtain ⟨property, props, hprops⟩ := List.exists_cons_of_ne_nil hne
  rw [(processEnv_env sys).1, processEnv, hprops] at henvp
  rw [hstarts]
  unfold createProcess
  rw [hargv, henvp, hprops]
  rfl

-- An empty object is as good as none.
theorem starts_empty (hnil : sys.properties = []) :
    starts sys (Options.empty.set .env (processEnv sys)) (.spawn file args true) =
      starts sys .empty (.spawn file args false) := by
  obtain ⟨process, hstarts, hargv, henvp⟩ := starts_spawn sys file args (processEnv_env sys).2
  rw [(processEnv_env sys).1, processEnv, hnil] at henvp
  rw [starts_inherited, hstarts]
  unfold createProcess
  rw [hargv, henvp]
  rfl

theorem envNeutral_iff_of_ne (hne : sys.properties ≠ []) : EnvNeutral sys file args ↔
    direct sys.files (toCString file) = searched sys.files sys.path (toCString file) ∧
      ((direct sys.files (toCString file)).isSome → sys.Kept) := by
  unfold EnvNeutral
  rw [starts_processEnv sys file args hne, starts_inherited, sameProgram_iff, same_entries_iff]

/-- `spawn` starts the same with `process.env` as without an environment precisely if the environment of
the parent has no variable but `__proto__`, so that `process.env` is empty, or else `execve` finds for the
file what `execvp` finds and, if that is a program, no variable is named `__proto__` and all values are
UTF-8 text. -/
theorem env_neutral_iff :
    EnvNeutral sys file args ↔
      (∀ v ∈ sys.environ, v.name = ascii "__proto__") ∨
      (direct sys.files (toCString file) = searched sys.files sys.path (toCString file) ∧
        ((direct sys.files (toCString file)).isSome →
          ∀ v ∈ sys.environ, v.name ≠ ascii "__proto__" ∧ Utf8Text v.value)) := by
  rw [← properties_eq_nil_iff]
  by_cases hnil : sys.properties = []
  · unfold EnvNeutral
    rw [starts_empty sys file args hnil]
    exact iff_of_true (SameProgram.refl _) (.inl hnil)
  · rw [envNeutral_iff_of_ne sys file args hnil, or_iff_right hnil]
    rfl

/-- `PATH=/bin` and a program `/bin/ls`: with `process.env` nothing is found. -/
theorem env_neutral_ls : ¬ ∀ sys file args, EnvNeutral sys file args := by
  intro h
  let path : EnvVar :=
    ⟨ascii "PATH", ascii "/bin", (jsToCStringLen_newString_iff _).mp (by decide), by decide,
      by decide, by decide⟩
  let sys : System :=
    ⟨[path], List.nodup_singleton _, fun p ↦ if p = ascii "/bin/ls" then .runs else .absent⟩
  have hne : sys.properties ≠ [] := fun hnil ↦
    absurd (properties_eq_nil_iff.mp hnil path List.mem_cons_self) (by decide)
  have hls := (envNeutral_iff_of_ne sys (toJsString "ls") [] hne).mp (h sys (toJsString "ls") [])
  exact absurd hls.1 (by decide)

-- A path is tried as it is, whether an environment is given or not; only the shell is missing.
theorem envNeutral_of_slash (hslash : slash ∈ toCString file)
    (hheader : sys.files (toCString file) ≠ .noHeader) (hkept : sys.Kept) :
    EnvNeutral sys file args := by
  by_cases hnil : sys.properties = []
  · unfold EnvNeutral
    rw [starts_empty sys file args hnil]
    exact SameProgram.refl _
  · rw [envNeutral_iff_of_ne sys file args hnil]
    have hsame := (searched_eq_direct_iff_of_slash hslash sys.path).mpr fun h ↦ hheader h.1
    exact ⟨hsame.symm, fun _ ↦ hkept⟩

-- Every name that is found in `PATH` makes a difference, unless `PATH` has the working directory.
theorem not_envNeutral_of_name (hne : sys.properties ≠ []) (hslash : slash ∉ toCString file)
    (hdirs : [] ∉ (sys.path.getD defaultPath).splitOn 58)
    (hfound : (searched sys.files sys.path (toCString file)).isSome) :
    ¬ EnvNeutral sys file args := by
  rw [envNeutral_iff_of_ne sys file args hne]
  rintro ⟨hsame, -⟩
  have hnone := (searched_eq_direct_iff_of_name hslash hdirs).mp hsame.symm
  rw [hnone.1] at hfound
  cases hfound

end

end QNode.ChildProcess.Launch
