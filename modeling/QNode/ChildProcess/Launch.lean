import Mathlib.Logic.Function.Basic
import QNode.ChildProcess.WaitStatus
import QNode.Engine.Strings

/-!
# From a call to a process

What the seven functions of the module make of their command, their arguments and an options object:
the process they start, or the error they throw.  The object is passed by reference through several of
them, so a function also says what it leaves of it.
-/

open QNode.Engine

namespace QNode.ChildProcess.Launch

/-! ## Options -/

/-- The values of options.  An element of an array is a string or undefined, and an object is given by
its own properties; of a number the code asks only these two things. -/
inductive JsValue
  | undefined | null
  | bool (b : Bool)
  | number (truthy : Bool) (toInt64 : Int)
  | string (text : JsString)
  | array (items : List (Option JsString))
  | object (props : List (JsString × JsString))
  | buffer (bytes : List UInt8)
  deriving DecidableEq

def JsValue.truthy : JsValue → Bool
  | .undefined | .null => false
  | .bool b => b
  | .number truthy _ => truthy
  | .string text => text ≠ []
  | .array _ | .object _ | .buffer _ => true

/-- The properties that the functions read. -/
inductive OptionName
  | cwd | env | shell | stdio | execPath | encoding | maxBuffer | timeout | input
  deriving DecidableEq, Repr

structure Options where
  own : OptionName → Option JsValue
  inherited : OptionName → Option JsValue

def Options.empty : Options := ⟨fun _ ↦ none, fun _ ↦ none⟩

def Options.get (o : Options) (name : OptionName) : JsValue :=
  ((o.own name).orElse fun _ ↦ o.inherited name).getD .undefined

def Options.set (o : Options) (name : OptionName) (value : JsValue) : Options :=
  { o with own := Function.update o.own name (some value) }

theorem Options.get_set_self (o : Options) (name : OptionName) (value : JsValue) :
    (o.set name value).get name = value := by
  simp [Options.get, Options.set]

theorem Options.get_set_of_ne (o : Options) {name name' : OptionName} (h : name' ≠ name)
    (value : JsValue) : (o.set name value).get name' = o.get name' := by
  simp [Options.get, Options.set, h]

-- An assignment changes nothing precisely if the object itself has that value already.
theorem Options.set_eq_self_iff (o : Options) (name : OptionName) (value : JsValue) :
    o.set name value = o ↔ o.own name = some value := by
  constructor
  · intro h
    have hown := congrArg (fun o : Options ↦ o.own name) h
    simpa [Options.set, eq_comm] using hown
  · intro h
    show { o with own := Function.update o.own name (some value) } = o
    rw [← h, Function.update_eq_self]

/-! ## Strings for C -/

def ascii (s : String) : List UInt8 := s.toList.map fun c ↦ UInt8.ofNat c.toNat

def toJsString (s : String) : JsString := s.toList.map fun c ↦ UInt16.ofNat c.toNat

/-- The bytes up to the first NUL, at which `strlen` and `snprintf` stop. -/
def toCString (s : JsString) : List UInt8 := (jsToCStringLen s).takeWhile (· ≠ 0)

/-! ## Processes -/

/-- The arguments of `create_process`; the file is the first of `argv`. -/
structure ProcessArgs where
  argv : List (List UInt8)
  cwd : Option (List UInt8)
  envp : Option (List (List UInt8))
  pipeIn : Bool
  pipeOut : Bool
  pipeErr : Bool
  deriving DecidableEq

structure ExecOptions where
  encoding : Option (List UInt8)
  cwd : Option (List UInt8)
  maxBuffer : Int
  timeout : Int
  shell : Bool
  input : JsValue
  deriving DecidableEq

/-- What a call does: it starts a process, the synchronous functions with the options they go on with,
or throws one of two errors. -/
inductive Effect
  | spawned (process : ProcessArgs)
  | waited (process : ProcessArgs) (options : ExecOptions)
  | popen (command : List UInt8) (options : ExecOptions)
  | fileMustBeString
  | callbackRequired
  deriving DecidableEq

def optionString : JsValue → Option (List UInt8)
  | .string text => some (toCString text)
  | _ => none

def optionNumber (default : Int) : JsValue → Int
  | .number _ toInt64 => toInt64
  | _ => default

/-- The C functions take a boolean, and any string, even an empty one, for the name of a shell. -/
def useShell : JsValue → Bool
  | .bool b => b
  | .string _ => true
  | _ => false

def parseExecOptions (o : Options) : ExecOptions where
  encoding := optionString (o.get .encoding)
  cwd := optionString (o.get .cwd)
  maxBuffer := optionNumber (1024 * 1024) (o.get .maxBuffer)
  timeout := optionNumber 0 (o.get .timeout)
  shell := useShell (o.get .shell)
  input := o.get .input

def shellArgv (platform : Platform) (command : List UInt8) : List (List UInt8) :=
  match platform with
  | .unix => [ascii "/bin/sh", ascii "-c", command]
  | .windows => [ascii "cmd.exe", ascii "/c", command]

def buildArgv (platform : Platform) (shell : Bool) (file : JsString) (args : List JsString) :
    List (List UInt8) :=
  if shell then
    shellArgv platform (toCString file ++ args.flatMap fun arg ↦ ascii " " ++ toCString arg)
  else toCString file :: args.map toCString

/-- The own enumerable properties with string keys, for a value that is an object. -/
def JsValue.ownStrings : JsValue → Option (List (JsString × JsString))
  | .object props => some props
  | .array items =>
    some (items.mapIdx fun i item ↦ (toJsString (toString i), item.getD (toJsString "undefined")))
  | .buffer _ => some []
  | _ => none

def envEntry (property : JsString × JsString) : List UInt8 :=
  toCString property.1 ++ ascii "=" ++ toCString property.2

/-- The `envp` array; it stays NULL for an object without properties. -/
def buildEnvp (env : JsValue) : Option (List (List UInt8)) :=
  match env.ownStrings with
  | none | some [] => none
  | some (property :: props) => some ((property :: props).map envEntry)

def isIgnore (text : JsString) : Bool := toCString text = ascii "ignore"

/-- Whether the stream with this index gets a pipe. -/
def pipeOf (stdio : JsValue) (i : Nat) : Bool :=
  match stdio with
  | .array items =>
    match items[i]? with
    | some (some text) => !isIgnore text
    | some none | none => true
  | .string text => !isIgnore text
  | _ => true

/-! ## The functions -/

section

variable (platform : Platform)

/-- `_spawnProcess`. -/
def spawnProcess (file : JsString) (args : List JsString) (o : Options) : ProcessArgs where
  argv := buildArgv platform (useShell (o.get .shell)) file args
  cwd := optionString (o.get .cwd)
  envp := buildEnvp (o.get .env)
  pipeIn := pipeOf (o.get .stdio) 0
  pipeOut := pipeOf (o.get .stdio) 1
  pipeErr := pipeOf (o.get .stdio) 2

def spawn (command : JsString) (args : List JsString) (o : Options) : Effect × Options :=
  let o := if !(o.get .shell).truthy then o.set .shell (.bool false) else o
  if (o.get .shell).truthy then
    if args ≠ [] then
      let cmd := command ++ toJsString " " ++ (toJsString " ").intercalate args
      (.spawned (spawnProcess platform cmd [] o), o)
    else (.spawned (spawnProcess platform command [] o), o)
  else (.spawned (spawnProcess platform command args o), o)

/-- `execFile` once its arguments are sorted out. -/
def execFile (file : JsString) (args : List JsString) (o : Options) : Effect × Options :=
  spawn platform file args o

def exec (command : JsString) (o : Options) : Effect × Options :=
  execFile platform command [] (o.set .shell (.bool true))

/-- The object that `fork` makes for `spawn`. -/
def forkOptions (o : Options) : Options where
  own
    | .cwd => some (o.get .cwd)
    | .env => some (o.get .env)
    | .stdio => some (if (o.get .stdio).truthy then o.get .stdio else .string (toJsString "pipe"))
    | .shell => some (.bool false)
    | _ => none
  inherited _ := none

def fork (modulePath : JsString) (args : List JsString) (o : Options) : Effect × Options :=
  let execPath := if (o.get .execPath).truthy then o.get .execPath else .string (toJsString "qnode")
  match execPath with
  | .string file => ((spawn platform file (modulePath :: args) (forkOptions o)).1, o)
  | _ => (.fileMustBeString, o)

def execSync (command : JsString) (o : Options) : Effect × Options :=
  (.popen (toCString command) (parseExecOptions o), o)

/-- Of the options `spawnSync` reads only those of `ExecOptions`. -/
def spawnSync (command : JsString) (args : List JsString) (o : Options) : Effect × Options :=
  let eo := parseExecOptions o
  let process : ProcessArgs :=
    ⟨buildArgv platform eo.shell command args, eo.cwd, none, true, true, true⟩
  (.waited process eo, o)

def execFileSync (file : JsString) (args : List JsString) (o : Options) : Effect × Options :=
  spawnSync platform file args (o.set .shell (.bool false))

/-! ## Calls -/

/-- An argument of `execFile` or `exec`; `object` is the options object of the caller. -/
inductive Arg
  | undefined | null
  | array (items : List JsString)
  | function
  | object
  deriving DecidableEq

def Arg.items : Arg → List JsString
  | .array items => items
  | _ => []

/-- The first lines of `execFile`, which find `args`, `options` and `callback`. -/
def findCallback (args options callback : Arg) : Arg × Arg × Arg :=
  if args = .function then (.undefined, .undefined, args)
  else if options = .function then (args, .undefined, options)
  else (args, options, callback)

def findOptions (args options : Arg) : Arg × Arg :=
  if args = .null ∨ args = .object then (.undefined, args) else (args, options)

/-- The arguments of `spawn` in `execFile`, and whether the caller's object is the options; `none` when
there is no callback. -/
def execFileArgs (args options callback : Arg) : Option (List JsString × Bool) :=
  let found := findCallback args options callback
  let sorted := findOptions found.1 found.2.1
  if found.2.2 = .function then some (sorted.1.items, sorted.2 = .object) else none

def execArgs (options callback : Arg) : Option Bool :=
  if options = .function then some false
  else if callback = .function then some (options = .object)
  else none

/-- A call of one of the functions; `passes` says that it passes the caller's object as options. -/
inductive Call
  | spawn (command : JsString) (args : List JsString) (passes : Bool)
  | execFile (file : JsString) (args options callback : Arg)
  | exec (command : JsString) (options callback : Arg)
  | fork (modulePath : JsString) (args : List JsString) (passes : Bool)
  | execSync (command : JsString) (passes : Bool)
  | spawnSync (command : JsString) (args : List JsString) (passes : Bool)
  | execFileSync (file : JsString) (args : List JsString) (passes : Bool)

/-- A function that gets no options makes an empty object of its own. -/
def withOptions (passes : Bool) (f : Options → Effect × Options) (o : Options) : Effect × Options :=
  if passes then f o else ((f .empty).1, o)

/-- A call without a callback throws before it does anything else. -/
def withCallback {α : Type} (found : Option α) (f : α → Options → Effect × Options) (o : Options) :
    Effect × Options :=
  match found with
  | some a => f a o
  | none => (.callbackRequired, o)

/-- The effect of a call and what it leaves of the caller's object. -/
def Call.perform (o : Options) : Call → Effect × Options
  | .spawn command args passes => withOptions passes (Launch.spawn platform command args) o
  | .execFile file args options callback =>
    withCallback (execFileArgs args options callback)
      (fun found ↦ withOptions found.2 (Launch.execFile platform file found.1)) o
  | .exec command options callback =>
    withCallback (execArgs options callback)
      (fun passes ↦ withOptions passes (Launch.exec platform command)) o
  | .fork modulePath args passes => withOptions passes (Launch.fork platform modulePath args) o
  | .execSync command passes => withOptions passes (Launch.execSync command) o
  | .spawnSync command args passes => withOptions passes (Launch.spawnSync platform command args) o
  | .execFileSync file args passes => withOptions passes (Launch.execFileSync platform file args) o

end

end QNode.ChildProcess.Launch
