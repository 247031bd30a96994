import QNode.Buffer.Encoding
import QNode.Library.Halting

/-!
# The options of the command line

`main` reads its options itself, as everything behind them belongs to the script.  A turn of one of
its two loops is a step here, and every element of `argv` and every character that is looked at is
recorded.
-/

open QNode.Buffer

namespace QNode.Main

/-- An element of `argv`: the characters before its NUL. -/
structure Argument where
  chars : List UInt8
  noNul : 0 ∉ chars

/-- `argv`: the name of the program, and the rest. -/
structure ArgVector where
  program : Argument
  rest : List Argument

def ArgVector.elements (argv : ArgVector) : List Argument := argv.program :: argv.rest

def ArgVector.argc (argv : ArgVector) : Nat := argv.elements.length

/-- A character of an element. -/
structure Pointer where
  index : Nat
  offset : Nat

/-- What is looked at: `argv[index]`, or a character of it. -/
inductive Access
  | element (index : Nat)
  | char (p : Pointer)

section

variable (argv : ArgVector)

def ArgVector.text (index : Nat) : List UInt8 :=
  match argv.elements[index]? with
  | some arg => arg.chars
  | none => []

/-- The string from a character on. -/
def ArgVector.string (p : Pointer) : List UInt8 := (argv.text p.index).drop p.offset

/-- The character itself, the NUL at the end of the string. -/
def ArgVector.char (p : Pointer) : UInt8 := (argv.string p).headD 0

end

/-- The characters of a string up to the `n`th after its first. -/
def charsUpTo (p : Pointer) (n : Nat) : List Access :=
  (List.range (n + 1)).map fun k ↦ .char ⟨p.index, p.offset + k⟩

/-! ## The options in the order in which they are tried -/

inductive Opt
  | help | eval | includeFile | interactive | module | script | strict | dump | trace | std
  | noUnhandledRejection | quit | memoryLimit | stackSize | stripDebug | stripSource
  deriving DecidableEq, Repr

def optionOrder : List Opt :=
  [.help, .eval, .includeFile, .interactive, .module, .script, .strict, .dump, .trace, .std,
    .noUnhandledRejection, .quit, .memoryLimit, .stackSize, .stripDebug, .stripSource]

/-- The characters that stand for an option. -/
def Opt.shorts : Opt → List UInt8
  | help => charCodes "h?"
  | eval => charCodes "e"
  | includeFile => charCodes "I"
  | interactive => charCodes "i"
  | module => charCodes "m"
  | dump => charCodes "d"
  | trace => charCodes "T"
  | quit => charCodes "q"
  | stripDebug => charCodes "s"
  | script | strict | std | noUnhandledRejection | memoryLimit | stackSize | stripSource => []

def Opt.long : Opt → Option (List UInt8)
  | help => some (charCodes "help")
  | eval => some (charCodes "eval")
  | includeFile => some (charCodes "include")
  | interactive => some (charCodes "interactive")
  | module => some (charCodes "module")
  | script => some (charCodes "script")
  | strict => some (charCodes "strict")
  | dump => some (charCodes "dump")
  | trace => some (charCodes "trace")
  | std => some (charCodes "std")
  | noUnhandledRejection => some (charCodes "no-unhandled-rejection")
  | quit => some (charCodes "quit")
  | memoryLimit => some (charCodes "memory-limit")
  | stackSize => some (charCodes "stack-size")
  | stripDebug => none
  | stripSource => some (charCodes "strip-source")

/-- How far `strcmp` looks into its first argument, as an offset. -/
def compared : List UInt8 → List UInt8 → Nat
  | c :: s, d :: t => if c = d then compared s t + 1 else 0
  | _, _ => 0

/-- The first option that matches, and the names that `longopt` was compared with. -/
def findOption (opt : UInt8) (longopt : List UInt8) : List Opt → Option Opt × List (List UInt8)
  | [] => (none, [])
  | o :: os =>
    if opt ∈ o.shorts then (some o, [])
    else
      match o.long with
      | none => findOption opt longopt os
      | some name =>
        if longopt = name then (some o, [name])
        else ((findOption opt longopt os).1, name :: (findOption opt longopt os).2)

/-! ## The state of the loops -/

def includeMax : Nat := 32

inductive StripFlags
  | none | debug | source
  deriving DecidableEq, Repr

/-- What the options set.  The text of `-e` is given by its first character, an included file by the
index of its name. -/
structure Settings where
  expr : Option Pointer
  interactive : Nat
  dumpMemory : Nat
  traceMemory : Nat
  emptyRun : Nat
  module : Int
  strict : Bool
  loadStd : Bool
  dumpUnhandledPromiseRejection : Bool
  memoryLimit : Nat
  stackSize : Nat
  includeList : List Nat
  stripFlags : StripFlags

def Settings.initial : Settings where
  expr := none
  interactive := 0
  dumpMemory := 0
  traceMemory := 0
  emptyRun := 0
  module := -1
  strict := false
  loadStd := false
  dumpUnhandledPromiseRejection := true
  memoryLimit := 0
  stackSize := 0
  includeList := []
  stripFlags := .none

/-- At the head of the outer or the inner loop, behind both, or out of the process. -/
inductive Phase
  | outer
  | inner
  | done
  | exited (code : Nat)
  deriving DecidableEq

/-- `longopt` is absent when it is the empty string. -/
structure Scan where
  phase : Phase
  optind : Nat
  arg : Pointer
  longopt : Option Pointer
  settings : Settings
  accesses : List Access

namespace Scan

def start : Scan := ⟨.outer, 1, ⟨0, 0⟩, none, .initial, []⟩

def look (st : Scan) (accesses : List Access) : Scan :=
  { st with accesses := st.accesses ++ accesses }

def exit (st : Scan) (code : Nat) : Scan := { st with phase := .exited code }

/-- `continue`, after which the loop clears `longopt`. -/
def next (st : Scan) (settings : Settings) : Scan :=
  { st with settings := settings, longopt := none }

/-- `break` out of the inner loop. -/
def leave (st : Scan) (settings : Settings) : Scan := { st with settings := settings, phase := .outer }

/-- `argv[optind++]` -/
def take (st : Scan) : Scan :=
  { st with optind := st.optind + 1, accesses := st.accesses ++ [.element st.optind] }

end Scan

/-- `strtod`: the number, converted to `size_t`, and the length of the text that was used. -/
structure Strtod where
  parse : List UInt8 → Nat × Nat
  within : ∀ s, (parse s).2 ≤ s.length

section

variable (argv : ArgVector) (strtod : Strtod)

/-- `get_suffixed_size`; nothing comes back for an invalid suffix. -/
def getSuffixedSize (str : List UInt8) : Option Nat :=
  let v := (strtod.parse str).1
  match str.drop (strtod.parse str).2 with
  | [] => some v
  | c :: _ =>
    if c = charCode 'G' then some (v <<< 30 % 2 ^ 64)
    else if c = charCode 'M' then some (v <<< 20 % 2 ^ 64)
    else if c = charCode 'k' ∨ c = charCode 'K' then some (v <<< 10 % 2 ^ 64)
    else none

/-- `--memory-limit` and `--stack-size`.  `strtod` may look at the whole text of the value. -/
def sizeOption (st : Scan) (set : Nat → Settings) : Scan :=
  if argv.argc ≤ st.optind then st.exit 1
  else
    let value := st.optind
    let text := argv.text value
    let st := st.take.look (charsUpTo ⟨value, 0⟩ text.length ++ [.char ⟨value, (strtod.parse text).2⟩])
    match getSuffixedSize strtod text with
    | none => st.exit 1
    | some v => st.next (set v)

/-- The branches of the inner loop.  `arg` is behind the character of the option already. -/
def runOption (st : Scan) : Opt → Scan
  | .help => st.exit 1
  | .eval =>
    let st := st.look [.char st.arg]
    if argv.char st.arg ≠ 0 then st.leave { st.settings with expr := some st.arg }
    else if st.optind < argv.argc then st.take.leave { st.settings with expr := some ⟨st.optind, 0⟩ }
    else st.exit 2
  | .includeFile =>
    if argv.argc ≤ st.optind then st.exit 1
    else if includeMax ≤ st.settings.includeList.length then st.exit 1
    else st.take.next { st.settings with includeList := st.settings.includeList ++ [st.optind] }
  | .interactive => st.next { st.settings with interactive := st.settings.interactive + 1 }
  | .module => st.next { st.settings with module := 1 }
  | .script => st.next { st.settings with module := 0 }
  | .strict => st.next { st.settings with strict := true }
  | .dump => st.next { st.settings with dumpMemory := st.settings.dumpMemory + 1 }
  | .trace => st.next { st.settings with traceMemory := st.settings.traceMemory + 1 }
  | .std => st.next { st.settings with loadStd := true }
  | .noUnhandledRejection => st.next { st.settings with dumpUnhandledPromiseRejection := false }
  | .quit => st.next { st.settings with emptyRun := st.settings.emptyRun + 1 }
  | .memoryLimit => sizeOption argv strtod st fun v ↦ { st.settings with memoryLimit := v }
  | .stackSize => sizeOption argv strtod st fun v ↦ { st.settings with stackSize := v }
  | .stripDebug => st.next { st.settings with stripFlags := .debug }
  | .stripSource => st.next { st.settings with stripFlags := .source }

/-- The string `longopt`. -/
def longoptText : Option Pointer → List UInt8
  | none => []
  | some p => argv.string p

/-- How far `longopt` is looked at. -/
def longoptAccesses (n : Nat) : Option Pointer → List Access
  | none => []
  | some p => charsUpTo p n

/-- Takes the character, if there is one, and tries the options. -/
def readOption (st : Scan) : Option Opt × Scan :=
  let opt := argv.char st.arg
  let longopt := longoptText argv st.longopt
  let found := findOption opt longopt optionOrder
  let tried := found.2.flatMap fun name ↦ longoptAccesses (compared longopt name) st.longopt
  let st := if opt ≠ 0 then { st with arg := ⟨st.arg.index, st.arg.offset + 1⟩ } else st
  (found.1, st.look tried)

/-- A turn of the inner loop. -/
def innerTurn (st : Scan) : Scan :=
  let opt := argv.char st.arg
  let longopt := longoptText argv st.longopt
  let st := st.look (.char st.arg :: if opt = 0 then longoptAccesses 0 st.longopt else [])
  if opt = 0 ∧ longopt = [] then { st with phase := .outer }
  else
    match readOption argv st with
    | (some o, st) => runOption argv strtod st o
    -- the option is printed, and then the help
    | (none, st) => (st.look (longoptAccesses longopt.length st.longopt)).exit 1

/-- A turn of the outer loop, up to the inner one. -/
def outerTurn (st : Scan) : Scan :=
  let i := st.optind
  if ¬ i < argv.argc then { st with phase := .done }
  else
    let st := st.look [.element i, .char ⟨i, 0⟩]
    if argv.char ⟨i, 0⟩ ≠ charCode '-' then { st with phase := .done }
    else
      let st := st.look [.element i, .char ⟨i, 1⟩]
      -- a single - is not an option
      if argv.char ⟨i, 1⟩ = 0 then { st with phase := .done }
      else
        let st := { st with phase := .inner, optind := i + 1, arg := ⟨i, 1⟩, longopt := none }
        if argv.char ⟨i, 1⟩ ≠ charCode '-' then st
        else
          let st := { st with arg := ⟨i, (argv.text i).length⟩, longopt := some ⟨i, 2⟩ }
          let st := st.look (charsUpTo ⟨i, 1⟩ ((argv.text i).length - 1) ++ [.char ⟨i, 2⟩])
          if argv.char ⟨i, 2⟩ = 0 then { st with phase := .done } else st

def step (st : Scan) : Scan :=
  match st.phase with
  | .outer => outerTurn argv st
  | .inner => innerTurn argv strtod st
  | .done | .exited _ => st

/-- The loops after some turns. -/
def scanned (n : Nat) : Scan := (step argv strtod)^[n] .start

end

/-- `count` elements of `argv` from one on, as far as they exist. -/
def ArgVector.slice (argv : ArgVector) (first count : Nat) : List (Option Argument) :=
  (List.range count).map fun k ↦ argv.elements[first + k]?

/-- What is handed to `process.execArgv` and to the script, unless the interpreter is to quit. -/
def handOver (argv : ArgVector) (st : Scan) :
    Option (List (Option Argument) × List (Option Argument)) :=
  if st.settings.emptyRun ≠ 0 then none
  else some (argv.slice 1 (st.optind - 1), argv.slice st.optind (argv.argc - st.optind))

end QNode.Main
