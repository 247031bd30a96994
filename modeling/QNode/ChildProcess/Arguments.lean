import QNode.Buffer.WriteText
import QNode.ChildProcess.Environment
import QNode.Library.Words

/-!
# The vector for exec

The arguments of a command are joined for a shell in JavaScript and, twice, in C, and put into a vector
by `build_argv`.  The C functions take a string as it is and anything else for the empty string, the
JavaScript function converts what it joins.
-/

open QNode.Engine Word

namespace QNode.ChildProcess.Arguments

open Launch

/-! ## Arguments -/

/-- A string that C code sees to its end. -/
structure Text where
  chars : JsString
  noNul : 0 ∉ chars
  short : chars.length ≤ jsStringLenMax

/-- The text of a number: digits, signs, `NaN` or `Infinity`. -/
structure NumberText extends Text where
  nonempty : chars ≠ []
  noSpace : 32 ∉ chars

inductive ArgValue
  | string (text : Text)
  | number (text : NumberText)
  | bool (b : Bool)

/-- An array; the engine gives it at most 2 ^ 31 - 1 elements. -/
structure ArgArray where
  items : List ArgValue
  fits : items.length < 2 ^ 31

/-- `String(arg)` -/
def ArgValue.toStr : ArgValue → JsString
  | string text => text.chars
  | number text => text.chars
  | bool b => toJsString (if b then "true" else "false")

/-- `JS_IsString(v) ? strdup(JS_ToCString(ctx, v)) : strdup("")` -/
def ArgValue.strdup : ArgValue → List UInt8
  | string text => toCString text.chars
  | number _ | bool _ => []

def ArgValue.isString : ArgValue → Bool
  | string _ => true
  | number _ | bool _ => false

/-! ## The buffer of a joined command -/

/-- `strcpy` to the start of a block; nothing comes back if it leaves the block. -/
def strcpy (size : Nat) (s : List UInt8) : Option (List UInt8) :=
  if s.length + 1 ≤ size then some s else none

/-- `strcat` to the string a block holds. -/
def strcat (size : Nat) (dst s : List UInt8) : Option (List UInt8) :=
  if dst.length + s.length + 1 ≤ size then some (dst ++ s) else none

/-- `full_len` -/
def fullLen (file : List UInt8) (argStrs : List (List UInt8)) : Nat :=
  argStrs.foldl (fun len s ↦ sizeT (len + (s.length + 1))) (sizeT (file.length + 1))

/-- The command that `_spawnProcess` and `spawnSync` put together for a shell. -/
def fullCmd (file : List UInt8) (argStrs : List (List UInt8)) : Option (List UInt8) :=
  let size := sizeT (fullLen file argStrs + 1)
  argStrs.foldl
    (fun full s ↦ (full.bind fun dst ↦ strcat size dst (ascii " ")).bind fun dst ↦ strcat size dst s)
    (strcpy size file)

/-! ## The functions -/

/-- What a call comes to: a process is started with a vector, an error is thrown, a buffer is overrun,
or a null pointer is followed. -/
inductive Launched
  | exec (argv : List (List UInt8))
  | throws
  | overruns
  | followsNull
  deriving DecidableEq

/-- `build_argv`.  The count of the arguments is an `int`; no memory is to be had for a negative one. -/
def buildArgv (file : JsString) (args : List ArgValue) : Option (List (List UInt8)) :=
  let total := int32 (1 + args.length)
  if total < 0 then none else some (toCString file :: args.map ArgValue.strdup)

/-- The vector that either C function makes on Unix. -/
def cArgv (shell : Bool) (file : JsString) (args : List ArgValue) : Launched :=
  if shell then
    match fullCmd (toCString file) (args.map ArgValue.strdup) with
    | some full => .exec (shellArgv .unix full)
    | none => .overruns
  else
    match buildArgv file args with
    | some argv => .exec argv
    | none => .followsNull

/-- `_spawnProcess` -/
def spawnProcess (file : JsString) (args : List ArgValue) (shell : JsValue) : Launched :=
  cArgv (useShell shell) file args

/-- `spawn`.  The engine refuses to make a string that is too long. -/
def spawn (command : JsString) (args : List ArgValue) (shell : JsValue) : Launched :=
  let shell := if !shell.truthy then .bool false else shell
  if shell.truthy then
    if args ≠ [] then
      let cmd := command ++ toJsString " " ++ (toJsString " ").intercalate (args.map ArgValue.toStr)
      if jsStringLenMax < cmd.length then .throws else spawnProcess cmd [] shell
    else spawnProcess command [] shell
  else spawnProcess command args shell

def execFile (file : JsString) (args : List ArgValue) (shell : JsValue) : Launched :=
  spawn file args shell

def spawnSync (command : JsString) (args : List ArgValue) (shell : JsValue) : Launched :=
  cArgv (useShell shell) command args

/-- The option is overwritten. -/
def execFileSync (file : JsString) (args : List ArgValue) (_ : JsValue) : Launched :=
  spawnSync file args (.bool false)

inductive Function
  | spawn | execFile | spawnSync | execFileSync
  deriving DecidableEq, Repr

def Function.call : Function → JsString → List ArgValue → JsValue → Launched
  | spawn => Arguments.spawn
  | execFile => Arguments.execFile
  | spawnSync => Arguments.spawnSync
  | execFileSync => Arguments.execFileSync

/-! ## What is asked for -/

/-- The command with each argument after one space. -/
def commandLine (command : JsString) (args : List ArgValue) : JsString :=
  command ++ args.flatMap fun arg ↦ toJsString " " ++ arg.toStr

def wanted (shell : Bool) (command : JsString) (args : List ArgValue) : List (List UInt8) :=
  if shell then [ascii "/bin/sh", ascii "-c", toCString (commandLine command args)]
  else toCString command :: args.map fun arg ↦ toCString arg.toStr

/-- A call starts what it was asked for, or throws. -/
def Launched.Keeps (launched : Launched) (argv : List (List UInt8)) : Prop :=
  launched = .throws ∨ launched = .exec argv

/-- The arguments that C code takes: strings, and without a shell so few that an `int` counts them and the
command. -/
def Taken (shell : Bool) (args : List ArgValue) : Prop :=
  (∀ arg ∈ args, arg.isString) ∧ (shell ∨ args.length < 2 ^ 31 - 1)

/-- When a function does: the C functions have to understand `shell` as the JavaScript one does, and to
take the arguments if they are not joined before. -/
def Function.Condition (command : JsString) (args : List ArgValue) (shell : JsValue) : Function → Prop
  | spawn | execFile =>
    if shell.truthy then useShell shell ∨ jsStringLenMax < (commandLine command args).length
    else Taken false args
  | spawnSync => useShell shell = shell.truthy ∧ Taken shell.truthy args
  | execFileSync => shell.truthy = false ∧ Taken false args

/-! ## Text for C -/

theorem jsToCStringLen_append {c : UInt16} (hc : isLoSurrogate c = false) (s t : JsString) :
    jsToCStringLen (s ++ c :: t) = jsToCStringLen s ++ jsToCStringLen (c :: t) := by
  fun_induction jsToCStringLen s with
  | case1 => rfl
  | case2 d =>
    have hpair : ¬ (isHiSurrogate d && isLoSurrogate c) = true := by
      rw [hc, Bool.and_false]
      decide
    rw [List.singleton_append, jsToCStringLen, if_neg hpair]
  | case3 d d1 rest hpair ih =>
    rw [List.cons_append, List.cons_append, jsToCStringLen, if_pos hpair, ih, List.append_assoc]
  | case4 d d1 rest hpair ih =>
    rw [List.cons_append, List.cons_append, jsToCStringLen, if_neg hpair, List.append_assoc]
    exact congrArg _ ih

theorem space_eq : toJsString " " = [32] ∧ ascii " " = [32] := by decide

-- A space keeps the surrogates on its two sides apart.
theorem toCString_space {s t : JsString} (hs : 0 ∉ s) (ht : 0 ∉ t) :
    toCString (s ++ (toJsString " " ++ t)) = toCString s ++ (ascii " " ++ toCString t) := by
  have hspace : jsToCStringLen (32 :: t) = 32 :: jsToCStringLen t := by
    cases t with
    | nil => rfl
    | cons d t => rfl
  have hall : 0 ∉ s ++ 32 :: t := by
    rw [List.mem_append, List.mem_cons, not_or, not_or]
    exact ⟨hs, by decide, ht⟩
  rw [space_eq.1, space_eq.2, List.singleton_append, List.singleton_append, toCString_eq_self hall,
    toCString_eq_self hs, toCString_eq_self ht, jsToCStringLen_append (by decide), hspace]

theorem noNul_toStr (arg : ArgValue) : 0 ∉ arg.toStr := by
  cases arg with
  | string text => exact text.noNul
  | number text => exact text.noNul
  | bool b => cases b <;> decide

/-- What is appended to the command. -/
def appended (strs : List (List UInt8)) : List UInt8 := strs.flatMap (ascii " " ++ ·)

theorem appended_cons (s : List UInt8) (strs : List (List UInt8)) :
    appended (s :: strs) = ascii " " ++ (s ++ appended strs) := by
  rw [appended, List.flatMap_cons, List.append_assoc]
  rfl

theorem toCString_commandLine {command : JsString} (hcommand : 0 ∉ command) (args : List ArgValue) :
    toCString (commandLine command args) =
      toCString command ++ appended (args.map fun arg ↦ toCString arg.toStr) := by
  unfold commandLine
  induction args generalizing command with
  | nil =>
    rw [List.flatMap_nil, List.append_nil]
    exact (List.append_nil _).symm
  | cons arg args ih =>
    have hnext : 0 ∉ command ++ (toJsString " " ++ arg.toStr) := by
      rw [space_eq.1, List.mem_append, List.mem_append, List.mem_singleton, not_or, not_or]
      exact ⟨hcommand, by decide, noNul_toStr arg⟩
    rw [List.flatMap_cons, List.map_cons, appended_cons, ← List.append_assoc, ih hnext,
      toCString_space hcommand (noNul_toStr arg), List.append_assoc, List.append_assoc]

-- The separator stands between the elements, and before the first one after the command.
theorem intercalate_eq_commandLine (command : JsString) {args : List ArgValue} (hargs : args ≠ []) :
    command ++ toJsString " " ++ (toJsString " ").intercalate (args.map ArgValue.toStr) =
      commandLine command args := by
  unfold commandLine
  induction args generalizing command with
  | nil => exact absurd rfl hargs
  | cons arg args ih =>
    cases args with
    | nil =>
      rw [List.map_singleton, List.intercalate_singleton, List.flatMap_singleton, List.append_assoc]
    | cons arg' args =>
      have hrest := ih (command ++ toJsString " " ++ arg.toStr) (List.cons_ne_nil arg' args)
      rw [List.map_cons] at hrest
      rw [List.map_cons, List.map_cons, List.intercalate_cons_cons, List.flatMap_cons,
        ← List.append_assoc, ← List.append_assoc, hrest, List.append_assoc, List.append_assoc,
        List.append_assoc]

/-! ## Room for the joined command -/

theorem length_appended_cons (s : List UInt8) (strs : List (List UInt8)) :
    (appended (s :: strs)).length = s.length + 1 + (appended strs).length := by
  rw [appended_cons, space_eq.2, List.length_append, List.length_append, List.length_singleton]
  omega

theorem sizeT_add {len n : Nat} (h : len + (n + 1) < 2 ^ 64) : sizeT (len + (n + 1)) = len + (n + 1) := by
  have hsize := sizeT_natCast h
  push_cast at hsize
  exact hsize

theorem sizeT_succ {n : Nat} (h : n + 1 < 2 ^ 64) : sizeT (n + 1) = n + 1 := by
  have hsize := sizeT_natCast h
  push_cast at hsize
  exact hsize

-- No sum wraps, so the sizes are added up as they are.
theorem foldl_sizeT {len : Nat} {strs : List (List UInt8)}
    (h : len + (appended strs).length < 2 ^ 64) :
    strs.foldl (fun len s ↦ sizeT (len + (s.length + 1))) len = len + (appended strs).length := by
  induction strs generalizing len with
  | nil => rfl
  | cons s strs ih =>
    rw [length_appended_cons] at h ⊢
    rw [List.foldl_cons, sizeT_add (by omega), ih (by omega)]
    omega

-- What a block still has to take is what is left to append, and the NUL.
theorem foldl_strcat {size : Nat} {dst : List UInt8} {strs : List (List UInt8)}
    (h : dst.length + (appended strs).length + 1 ≤ size) :
    strs.foldl
        (fun full s ↦
          (full.bind fun dst ↦ strcat size dst (ascii " ")).bind fun dst ↦ strcat size dst s)
        (some dst) =
      some (dst ++ appended strs) := by
  induction strs generalizing dst with
  | nil => exact congrArg some (List.append_nil dst).symm
  | cons s strs ih =>
    rw [length_appended_cons] at h
    have hspace : strcat size dst (ascii " ") = some (dst ++ ascii " ") := by
      rw [strcat, space_eq.2, if_pos]
      rw [List.length_singleton]
      omega
    have hs : strcat size (dst ++ ascii " ") s = some (dst ++ ascii " " ++ s) := by
      rw [strcat, space_eq.2, if_pos]
      rw [List.length_append, List.length_singleton]
      omega
    have hrest : (dst ++ ascii " " ++ s).length + (appended strs).length + 1 ≤ size := by
      rw [space_eq.2, List.length_append, List.length_append, List.length_singleton]
      omega
    rw [List.foldl_cons, Option.bind_some, hspace, Option.bind_some, hs, ih hrest]
    rw [appended_cons, List.append_assoc, List.append_assoc]

theorem fullCmd_eq {file : List UInt8} {strs : List (List UInt8)}
    (h : file.length + (appended strs).length + 2 < 2 ^ 64) :
    fullCmd file strs = some (file ++ appended strs) := by
  have hlen : fullLen file strs = file.length + 1 + (appended strs).length := by
    rw [fullLen, sizeT_succ (by omega), foldl_sizeT (by omega)]
  unfold fullCmd
  dsimp only
  rw [sizeT_succ (by omega), hlen, strcpy, if_pos (by omega), foldl_strcat (by omega)]

theorem length_toCString_lt {s : JsString} (hs : s.length ≤ jsStringLenMax) :
    (toCString s).length < 2 ^ 32 := by
  have hprefix : (toCString s).length ≤ (jsToCStringLen s).length :=
    (List.takeWhile_sublist _).length_le
  have htext := Buffer.length_jsToCStringLen_le s
  have hmax : jsStringLenMax = 2 ^ 30 - 1 := rfl
  omega

theorem length_strdup_lt (arg : ArgValue) : arg.strdup.length < 2 ^ 32 := by
  cases arg with
  | string text => exact length_toCString_lt text.short
  | number text => exact Nat.two_pow_pos 32
  | bool b => exact Nat.two_pow_pos 32

theorem length_appended_strdup_le (args : List ArgValue) :
    (appended (args.map ArgValue.strdup)).length ≤ args.length * 2 ^ 32 := by
  induction args with
  | nil => exact Nat.zero_le _
  | cons arg args ih =>
    have harg := length_strdup_lt arg
    rw [List.map_cons, length_appended_cons, List.length_cons, Nat.succ_mul]
    omega

-- Fewer than 2 ^ 31 arguments of fewer than 2 ^ 32 bytes each are counted without a wrap.
theorem cArgv_shell {file : JsString} (hfile : file.length ≤ jsStringLenMax) {args : List ArgValue}
    (hargs : args.length < 2 ^ 31) :
    cArgv true file args =
      .exec [ascii "/bin/sh", ascii "-c", toCString file ++ appended (args.map ArgValue.strdup)] := by
  have hlen := length_toCString_lt hfile
  have happended := length_appended_strdup_le args
  have hfull : (toCString file).length + (appended (args.map ArgValue.strdup)).length + 2 < 2 ^ 64 := by
    omega
  rw [cArgv, if_pos rfl, fullCmd_eq hfull]
  rfl

theorem cArgv_plain (file : JsString) {args : List ArgValue} (hargs : args.length < 2 ^ 31) :
    cArgv false file args =
      if args.length < 2 ^ 31 - 1 then .exec (toCString file :: args.map ArgValue.strdup)
      else .followsNull := by
  have hneg : int32 (1 + args.length) < 0 ↔ ¬ args.length < 2 ^ 31 - 1 := by
    unfold int32
    rw [Int.bmod_def]
    omega
  rw [cArgv, if_neg (by decide), buildArgv]
  by_cases hfew : args.length < 2 ^ 31 - 1
  · rw [if_neg (mt hneg.mp (not_not_intro hfew)), if_pos hfew]
  · rw [if_pos (hneg.mpr hfew), if_neg hfew]

/-! ## Arguments that are no strings -/

theorem toCString_toStr (arg : ArgValue) : toCString arg.toStr = jsToCStringLen arg.toStr :=
  toCString_eq_self (noNul_toStr arg)

-- What is left out is a text of at least one character, without a space.
theorem toStr_of_not_isString {arg : ArgValue} (h : arg.isString = false) :
    toCString arg.toStr ≠ [] ∧ 32 ∉ toCString arg.toStr := by
  rw [toCString_toStr, mem_jsToCStringLen_ascii (b := 32) (by decide)]
  cases arg with
  | string text => cases h
  | number text => exact ⟨jsToCStringLen_ne_nil text.nonempty, text.noSpace⟩
  | bool b => cases b <;> decide

theorem strdup_eq_of_isString {arg : ArgValue} (h : arg.isString = true) :
    arg.strdup = toCString arg.toStr := by
  cases arg with
  | string text => rfl
  | number text => cases h
  | bool b => cases h

theorem strdup_of_not_isString {arg : ArgValue} (h : arg.isString = false) : arg.strdup = [] := by
  cases arg with
  | string text => cases h
  | number text => rfl
  | bool b => rfl

theorem strdup_eq_iff (arg : ArgValue) : arg.strdup = toCString arg.toStr ↔ arg.isString := by
  constructor
  · intro h
    by_contra hstring
    rw [Bool.not_eq_true] at hstring
    rw [strdup_of_not_isString hstring] at h
    exact (toStr_of_not_isString hstring).1 h.symm
  · exact strdup_eq_of_isString

theorem length_strdup_le (arg : ArgValue) : arg.strdup.length ≤ (toCString arg.toStr).length := by
  cases h : arg.isString with
  | true => exact (congrArg List.length (strdup_eq_of_isString h)).le
  | false =>
    rw [strdup_of_not_isString h]
    exact Nat.zero_le _

theorem map_strdup_eq_iff (args : List ArgValue) :
    args.map ArgValue.strdup = args.map (fun arg ↦ toCString arg.toStr) ↔
      ∀ arg ∈ args, arg.isString := by
  rw [List.map_inj_left]
  exact forall₂_congr fun arg _ ↦ strdup_eq_iff arg

theorem length_appended_le (args : List ArgValue) :
    (appended (args.map ArgValue.strdup)).length ≤
      (appended (args.map fun arg ↦ toCString arg.toStr)).length := by
  induction args with
  | nil => exact Nat.le_refl _
  | cons arg args ih =>
    have harg := length_strdup_le arg
    rw [List.map_cons, List.map_cons, length_appended_cons, length_appended_cons]
    omega

-- No text is longer for being left out, so equal joins have equal parts.
theorem appended_strdup_eq_iff (args : List ArgValue) :
    appended (args.map ArgValue.strdup) = appended (args.map fun arg ↦ toCString arg.toStr) ↔
      ∀ arg ∈ args, arg.isString := by
  constructor
  · intro h
    induction args with
    | nil =>
      intro arg harg
      cases harg
    | cons arg args ih =>
      have hlen := congrArg List.length h
      have harg := length_strdup_le arg
      have hargs := length_appended_le args
      rw [List.map_cons, List.map_cons, length_appended_cons, length_appended_cons] at hlen
      rw [List.map_cons, List.map_cons, appended_cons, appended_cons] at h
      have hparts := List.append_inj (List.append_cancel_left h) (by omega)
      rw [List.forall_mem_cons, ← strdup_eq_iff]
      exact ⟨hparts.1, ih hparts.2⟩
  · intro h
    rw [(map_strdup_eq_iff args).mpr h]

/-! ## A vector for a shell and one without -/

theorem length_lt_appended {s : List UInt8} {strs : List (List UInt8)} (h : s ∈ strs) :
    s.length < (appended strs).length := by
  induction strs with
  | nil => cases h
  | cons t strs ih =>
    rw [length_appended_cons]
    cases h with
    | head => omega
    | tail _ h =>
      have hlt := ih h
      omega

theorem space_mem_appended {s : List UInt8} {strs : List (List UInt8)} (h : s ∈ strs) :
    32 ∈ appended strs := by
  apply List.mem_flatMap.mpr
  refine ⟨s, h, List.mem_append_left s ?_⟩
  rw [space_eq.2]
  exact List.mem_singleton_self 32

-- Where the one vector has an argument the other has the whole command, which contains it.
theorem plain_ne_shell {command : JsString} (hcommand : 0 ∉ command) (args : List ArgValue) :
    toCString command :: args.map ArgValue.strdup ≠ wanted true command args := by
  intro h
  have hthird := congrArg (fun argv : List (List UInt8) ↦ argv[2]?) h
  rw [wanted, if_pos rfl, toCString_commandLine hcommand] at hthird
  rw [List.getElem?_cons_succ, List.getElem?_map] at hthird
  obtain ⟨arg, hget, heq⟩ := Option.map_eq_some_iff.mp hthird
  have hmem := List.mem_map_of_mem (f := fun arg ↦ toCString (ArgValue.toStr arg))
    (List.mem_of_getElem? hget)
  have hlt := length_lt_appended hmem
  have hle := length_strdup_le arg
  rw [heq, List.length_append] at hle
  omega

theorem shell_ne_plain {command : JsString} (args : List ArgValue) :
    [ascii "/bin/sh", ascii "-c", toCString command ++ appended (args.map ArgValue.strdup)] ≠
      wanted false command args := by
  intro h
  have hthird := congrArg (fun argv : List (List UInt8) ↦ argv[2]?) h.symm
  rw [wanted, if_neg (by decide)] at hthird
  rw [List.getElem?_cons_succ, List.getElem?_map] at hthird
  obtain ⟨arg, hget, heq⟩ := Option.map_eq_some_iff.mp hthird
  have hmem := List.mem_map_of_mem (f := ArgValue.strdup) (List.mem_of_getElem? hget)
  cases hstring : arg.isString with
  | true =>
    have hlt := length_lt_appended hmem
    have hlen := congrArg List.length heq
    rw [← strdup_eq_of_isString hstring, List.length_append] at hlen
    omega
  | false =>
    apply (toStr_of_not_isString hstring).2
    rw [heq]
    exact List.mem_append_right _ (space_mem_appended hmem)

/-! ## The calls -/

theorem keeps_exec {argv argv' : List (List UInt8)} :
    (Launched.exec argv).Keeps argv' ↔ argv = argv' := by
  unfold Launched.Keeps
  rw [Launched.exec.injEq]
  exact or_iff_right (by intro h; cases h)

theorem not_keeps_followsNull {argv : List (List UInt8)} : ¬ Launched.followsNull.Keeps argv := by
  intro h
  cases h with
  | inl h => cases h
  | inr h => cases h

theorem cArgv_ne_overruns (shell : Bool) (command : Text) (args : ArgArray) :
    cArgv shell command.chars args.items ≠ .overruns := by
  cases shell with
  | true =>
    rw [cArgv_shell command.short args.fits]
    intro h
    cases h
  | false =>
    rw [cArgv_plain command.chars args.fits]
    split <;> (intro h; cases h)

theorem cArgv_keeps_iff (shell truthy : Bool) (command : Text) (args : ArgArray) :
    (cArgv shell command.chars args.items).Keeps (wanted truthy command.chars args.items) ↔
      shell = truthy ∧ Taken truthy args.items := by
  unfold Taken
  cases shell with
  | true =>
    rw [cArgv_shell command.short args.fits, keeps_exec]
    cases truthy with
    | true =>
      rw [wanted, if_pos rfl, toCString_commandLine command.noNul, List.cons_inj_right,
        List.cons_inj_right, List.singleton_inj, List.append_cancel_left_eq,
        appended_strdup_eq_iff]
      simp
    | false => exact iff_of_false (shell_ne_plain args.items) fun h ↦ absurd h.1 (by decide)
  | false =>
    rw [cArgv_plain command.chars args.fits]
    by_cases hfew : args.items.length < 2 ^ 31 - 1
    · rw [if_pos hfew, keeps_exec]
      cases truthy with
      | true =>
        exact iff_of_false (plain_ne_shell command.noNul args.items) fun h ↦ absurd h.1 (by decide)
      | false =>
        rw [wanted, if_neg (by decide), List.cons_inj_right, map_strdup_eq_iff]
        constructor
        · intro h
          exact ⟨rfl, h, Or.inr hfew⟩
        · intro h
          exact h.2.1
    · rw [if_neg hfew]
      refine iff_of_false not_keeps_followsNull ?_
      rintro ⟨rfl, _, hnone | hfew'⟩
      · cases hnone
      · exact hfew hfew'

theorem spawn_of_falsy {shell : JsValue} (h : shell.truthy = false) (command : JsString)
    (args : List ArgValue) : spawn command args shell = cArgv false command args := by
  have hshell : (if !shell.truthy then JsValue.bool false else shell) = .bool false := by
    rw [h]
    rfl
  unfold spawn
  rw [hshell]
  exact if_neg (by decide)

-- A command without arguments is passed on as it is, which is the line of no arguments.
theorem spawn_of_truthy {shell : JsValue} (h : shell.truthy = true) (command : Text)
    (args : List ArgValue) :
    spawn command.chars args shell =
      if jsStringLenMax < (commandLine command.chars args).length then .throws
      else cArgv (useShell shell) (commandLine command.chars args) [] := by
  have hshell : (if !shell.truthy then JsValue.bool false else shell) = shell := by
    rw [h]
    rfl
  unfold spawn
  dsimp only
  rw [hshell, if_pos h]
  by_cases hargs : args = []
  · have hline : commandLine command.chars args = command.chars := by
      rw [hargs]
      exact List.append_nil _
    rw [if_neg (not_not_intro hargs), hline, if_neg (Nat.not_lt.mpr command.short)]
    rfl
  · rw [if_pos hargs, intercalate_eq_commandLine command.chars hargs]
    rfl

theorem noNul_commandLine (command : Text) (args : List ArgValue) :
    0 ∉ commandLine command.chars args := by
  unfold commandLine
  rw [List.mem_append, List.mem_flatMap, not_or]
  refine ⟨command.noNul, ?_⟩
  rintro ⟨arg, -, hmem⟩
  rw [List.mem_append, space_eq.1, List.mem_singleton] at hmem
  cases hmem with
  | inl h => exact absurd h (by decide)
  | inr h => exact noNul_toStr arg h

theorem spawn_vector_iff (command : Text) (args : ArgArray) (shell : JsValue) :
    spawn command.chars args.items shell ≠ .overruns ∧
      ((spawn command.chars args.items shell).Keeps
          (wanted shell.truthy command.chars args.items) ↔
        Function.spawn.Condition command.chars args.items shell) := by
  cases htruthy : shell.truthy with
  | false =>
    rw [spawn_of_falsy htruthy]
    refine ⟨cArgv_ne_overruns false command args, ?_⟩
    rw [cArgv_keeps_iff, Function.Condition, htruthy, if_neg (by decide)]
    exact and_iff_right rfl
  | true =>
    rw [spawn_of_truthy htruthy, Function.Condition, htruthy, if_pos rfl]
    by_cases hlong : jsStringLenMax < (commandLine command.chars args.items).length
    · rw [if_pos hlong]
      refine ⟨?_, iff_of_true (Or.inl rfl) (Or.inr hlong)⟩
      intro h
      cases h
    · let joined : Text :=
        ⟨commandLine command.chars args.items, noNul_commandLine command args.items,
          Nat.not_lt.mp hlong⟩
      let noArgs : ArgArray := ⟨[], by decide⟩
      have hline : wanted true command.chars args.items = wanted true joined.chars noArgs.items := by
        rw [wanted, wanted, if_pos rfl, if_pos rfl]
        exact congrArg (fun line ↦ [_, _, toCString line]) (List.append_nil _).symm
      have hkeeps := cArgv_keeps_iff (useShell shell) true joined noArgs
      rw [if_neg hlong, hline]
      refine ⟨cArgv_ne_overruns (useShell shell) joined noArgs, hkeeps.trans ?_⟩
      constructor
      · intro h
        exact Or.inl h.1
      · intro h
        refine ⟨h.resolve_right hlong, ?_, Or.inl rfl⟩
        intro arg harg
        cases harg

def echo : Text := ⟨toJsString "echo", by decide, by decide⟩

def five : NumberText := ⟨⟨toJsString "5", by decide, by decide⟩, by decide, by decide⟩

theorem cArgv_strings (shell : Bool) (command : Text) (texts : List Text)
    (hfew : texts.length < 2 ^ 31 - 1) :
    cArgv shell command.chars (texts.map .string) =
      .exec (Launch.buildArgv .unix shell command.chars (texts.map (·.chars))) := by
  have hargs : (texts.map ArgValue.string).length < 2 ^ 31 - 1 := by
    rw [List.length_map]
    exact hfew
  have hstrdup : (texts.map ArgValue.string).map ArgValue.strdup =
      (texts.map (·.chars)).map toCString := by
    rw [List.map_map, List.map_map]
    rfl
  cases shell with
  | true =>
    rw [cArgv_shell command.short (by omega), hstrdup, appended, List.flatMap_map]
    rfl
  | false =>
    rw [cArgv_plain command.chars (by omega), if_pos hargs, hstrdup]
    rfl

/-- On strings the C function that waits starts the process that the model without conversions has for
it. -/
theorem spawnSync_strings (command : Text) {texts : List Text} (hfew : texts.length < 2 ^ 31 - 1)
    (o : Options) :
    ∃ process eo, (Launch.spawnSync .unix command.chars (texts.map (·.chars)) o).1 =
        .waited process eo ∧
      spawnSync command.chars (texts.map .string) (o.get .shell) = .exec process.argv :=
  ⟨_, _, rfl, cArgv_strings (useShell (o.get .shell)) command texts hfew⟩

theorem spawn_strings_plain (command : Text) {texts : List Text}
    (hfew : texts.length < 2 ^ 31 - 1) {o : Options} (ho : (o.get .shell).truthy = false) :
    ∃ process, (Launch.spawn .unix command.chars (texts.map (·.chars)) o).1 = .spawned process ∧
      spawn command.chars (texts.map .string) (o.get .shell) = .exec process.argv := by
  have hset : (o.set .shell (.bool false)).get .shell = .bool false := o.get_set_self _ _
  have hfalse : ((o.set .shell (.bool false)).get .shell).truthy = false := by
    rw [hset]
    rfl
  refine ⟨Launch.spawnProcess .unix command.chars (texts.map (·.chars)) (o.set .shell (.bool false)),
    ?_, ?_⟩
  · unfold Launch.spawn
    simp only [ho, hfalse, Bool.not_false, if_true, Bool.false_eq_true, if_false]
  · rw [spawn_of_falsy ho, cArgv_strings false command texts hfew, Launch.spawnProcess, hset]
    rfl

-- Both models join the same line, and neither converts anything.
theorem spawn_strings_shell (command : Text) {texts : List Text} {o : Options}
    (ho : (o.get .shell).truthy = true)
    (hshort : (commandLine command.chars (texts.map .string)).length ≤ jsStringLenMax) :
    ∃ process, (Launch.spawn .unix command.chars (texts.map (·.chars)) o).1 = .spawned process ∧
      spawn command.chars (texts.map .string) (o.get .shell) = .exec process.argv := by
  let joined : Text :=
    ⟨commandLine command.chars (texts.map .string), noNul_commandLine command _, hshort⟩
  have htoStr : (texts.map ArgValue.string).map ArgValue.toStr = texts.map (·.chars) := by
    rw [List.map_map]
    rfl
  have hjoined : cArgv (useShell (o.get .shell)) joined.chars [] =
      .exec (Launch.buildArgv .unix (useShell (o.get .shell)) joined.chars []) :=
    cArgv_strings (useShell (o.get .shell)) joined [] (by decide)
  refine ⟨Launch.spawnProcess .unix joined.chars [] o, ?_, ?_⟩
  · unfold Launch.spawn
    simp only [ho, Bool.not_true, Bool.false_eq_true, if_false, if_true]
    cases texts with
    | nil =>
      have hline : joined.chars = command.chars := List.append_nil _
      rw [hline]
      rfl
    | cons text texts =>
      have hline := intercalate_eq_commandLine command.chars
        (List.cons_ne_nil (ArgValue.string text) (texts.map .string))
      rw [← List.map_cons, htoStr] at hline
      rw [hline, if_pos (by simp)]
  · rw [spawn_of_truthy ho, if_neg (Nat.not_lt.mpr hshort), hjoined]
    rfl

end QNode.ChildProcess.Arguments
