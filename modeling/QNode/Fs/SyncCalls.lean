import QNode.Engine.Strings
import QNode.Library.FileTree
import QNode.Library.Handles

/-!
# The C strings of the synchronous functions

A call converts its string arguments with `JS_ToCString`, hands them to the C library and releases them
before it returns.  What the library makes of the call is given from outside.  The texts of the strings
matter only for the length of the data.
-/

open FileTree Handles QNode.Engine

namespace QNode.Fs.CStrings

/-! ## Arguments -/

/-- A JavaScript value as far as a function of the module looks at it; `bytes` are those of an
ArrayBuffer that is not detached.  A getter that throws gives no value that is looked at. -/
inductive Value
  | undefined
  | bool (value : Bool)
  | string (text : JsString)
  | object (property : String → Value) (bytes : Option (List UInt8))
  | other

namespace Value

def isString : Value → Bool
  | string _ => true
  | _ => false

def isUndefined : Value → Bool
  | undefined => true
  | _ => false

/-- `JS_GetPropertyStr` on a value that may be missing or not an object. -/
def property (name : String) : Option Value → Value
  | some (object property _) => property name
  | _ => undefined

/-- `JS_IsBool(value) ? JS_ToBool(value) : 0` -/
def flag : Value → Bool
  | bool value => value
  | _ => false

end Value

/-- The variables that hold C strings. -/
inductive CString
  | path | encoding | flag | data | oldpath | newpath | src | dest
  deriving DecidableEq, Repr

/-- The calls of the C library that can fail.  `rm` is `rm_recursive`. -/
inductive Syscall
  | fopen | fopenDest | fread | fwrite | mkdir | opendir | stat | unlink | rename | rmdir | rm | realpath
  | access | chmod
  deriving DecidableEq, Repr

/-- What a call meets: whether the engine finds memory for each C string, whether a mode is converted
to a number, the size `ftell` reports, whether `js_malloc` succeeds, whether the result is built, the
type of the file, the fate of each block of a copy, and the `errno` of each call that fails.  A read
fails when it is short. -/
structure Outcomes where
  win32 : Bool
  toCString : CString → Bool
  toInt32 : Bool
  size : Int
  malloc : Bool
  newValue : Bool
  isDir : Bool
  blocks : List (Option Errno)
  fails : Syscall → Option Errno

/-! ## Executions -/

/-- How a call ends.  `crash` is a read through a null pointer, `abort` the allocator's assertion. -/
inductive Exit
  | value
  | throws (error : JsError)
  | exception
  | fsError (errno : Errno) (s : CString) (syscall : String)
  | crash
  | abort
  deriving DecidableEq, Repr

structure Execution where
  accesses : List (Access CString)
  exit : Exit
  deriving DecidableEq, Repr

def Execution.after (accesses : List (Access CString)) (x : Execution) : Execution :=
  ⟨accesses ++ x.accesses, x.exit⟩

@[simp] theorem Execution.accesses_after (accesses : List (Access CString)) (x : Execution) :
    (x.after accesses).accesses = accesses ++ x.accesses :=
  rfl

@[simp] theorem Execution.exit_after (accesses : List (Access CString)) (x : Execution) :
    (x.after accesses).exit = x.exit :=
  rfl

/-- The string goes into the message and into the property `path`. -/
def jsFsThrowError (errno : Errno) (s : CString) (syscall : String) : Execution :=
  ⟨[.read s, .read s], .fsError errno s syscall⟩

def typeError (message : String) : Execution := ⟨[], .throws (.typeError message)⟩

def acquireIf (held : Bool) (s : CString) : List (Access CString) := if held then [.acquire s] else []

def readIf (held : Bool) (s : CString) : List (Access CString) := if held then [.read s] else []

@[simp] theorem readIf_false (s : CString) : readIf false s = [] :=
  rfl

/-- `if (s) JS_FreeCString(ctx, s)` -/
def freeIf (held : Bool) (s : CString) : List (Access CString) := if held then [.release s] else []

section

variable (w : Outcomes) (argv : List Value)

/-- The path of most functions. -/
def withPath (rest : Execution) : Execution :=
  if ¬ (argv[0]?.any Value.isString) then typeError "path must be a string"
  else if ¬ w.toCString .path then ⟨[], .exception⟩
  else .after [.acquire .path] rest

/-- The two paths of `renameSync` and `copyFileSync`. -/
def withPaths (message : String) (p q : CString) (rest : Execution) : Execution :=
  if argv.length < 2 then typeError message
  else if ¬ (argv[0]?.any Value.isString ∧ argv[1]?.any Value.isString) then
    typeError "paths must be strings"
  else if ¬ w.toCString p then ⟨[], .exception⟩
  else if ¬ w.toCString q then ⟨[.acquire p, .release p], .exception⟩
  else .after [.acquire p, .acquire q] rest

/-- A call of the library with the path and what follows its failure. -/
def pathCall (call : Syscall) (syscall : String) (rest : Execution) : Execution :=
  .after [.read .path] (match w.fails call with
    | some err => .after [.release .path] (jsFsThrowError err .path syscall)
    | none => .after [.release .path] rest)

/-- Whether an options argument gives an encoding. -/
def encodingOption (options : Option Value) : Bool :=
  (options.any Value.isString ∨ (Value.property "encoding" options).isString) ∧ w.toCString .encoding

def built : Exit := if w.newValue then .value else .exception

/-! ## Reading -/

def jsFsReadFileSync : Execution :=
  withPath w argv <|
    let encoding := encodingOption w argv[1]?
    let free := freeIf encoding .encoding ++ [.release .path]
    .after (acquireIf encoding .encoding ++ [.read .path]) <|
      match w.fails .fopen with
      | some err => .after free (jsFsThrowError err .path "open")
      | none =>
        if w.size + 1 = 0 then ⟨[], .abort⟩
        else if ¬ w.malloc then ⟨free, .exception⟩
        else
          match if w.size > 0 then w.fails .fread else none with
          | some err => .after free (jsFsThrowError err .path "read")
          | none => ⟨readIf encoding .encoding ++ free, built w⟩

/-! ## Writing -/

/-- The variable `flag_str`: a constant, a C string, or the null pointer of a conversion that failed. -/
inductive FlagStr
  | literal | allocated | null
  deriving DecidableEq, Repr

def flagOption (options : Option Value) : FlagStr :=
  if ¬ (Value.property "flag" options).isString then .literal
  else if w.toCString .flag then .allocated
  else .null

def freeOptions (encoding : Bool) (flag : FlagStr) : List (Access CString) :=
  .release .path :: (freeIf encoding .encoding ++ freeIf (flag = .allocated) .flag)

/-- The part that has its data, `text` when it is a C string. -/
def writeData (encoding : Bool) (flag : FlagStr) (text : Bool) (dataLen : Nat) : Execution :=
  let free := freeIf text .data ++ freeOptions encoding flag
  .after (acquireIf text .data) <|
    if flag = .null then ⟨[], .crash⟩
    else
      .after (readIf (flag = .allocated) .flag ++ [.read .path]) <|
        match w.fails .fopen with
        | some err => .after free (jsFsThrowError err .path "open")
        | none =>
          if dataLen > 0 then
            .after (readIf text .data) (match w.fails .fwrite with
              | some err => .after free (jsFsThrowError err .path "write")
              | none => ⟨free, .value⟩)
          else ⟨free, .value⟩

/-- The common part of `js_fs_writeFileSync` and `js_fs_appendFileSync` after their options. -/
def writeWholeData (encoding : Bool) (flag : FlagStr) (data : Option Value) : Execution :=
  .after (acquireIf encoding .encoding ++ acquireIf (flag = .allocated) .flag) <|
    match data with
    | some (.string text) =>
      -- the pointer is not checked, and the length of a failed conversion is 0
      if w.toCString .data then writeData w encoding flag true (jsToCStringLen text).length
      else writeData w encoding flag false 0
    | some (.object _ (some bytes)) => writeData w encoding flag false bytes.length
    | _ =>
      ⟨freeOptions encoding flag, .throws (.typeError "data must be a string or ArrayBuffer")⟩

def jsFsWriteFileSync : Execution :=
  if argv.length < 2 then typeError "need path and data arguments"
  else withPath w argv (writeWholeData w (encodingOption w argv[2]?) (flagOption w argv[2]?) argv[1]?)

def jsFsAppendFileSync : Execution :=
  if argv.length < 2 then typeError "need path and data arguments"
  else withPath w argv (writeWholeData w (encodingOption w argv[2]?) .literal argv[1]?)

/-! ## One path -/

def jsFsMkdirSync : Execution := withPath w argv (pathCall w .mkdir "mkdir" ⟨[], .value⟩)

def jsFsReaddirSync : Execution := withPath w argv (pathCall w .opendir "scandir" ⟨[], .value⟩)

def jsFsStatInternal : Execution := withPath w argv (pathCall w .stat "stat" ⟨[], .value⟩)

def jsFsStatSync : Execution := jsFsStatInternal w argv

def jsFsLstatSync : Execution := jsFsStatInternal w argv

def jsFsUnlinkSync : Execution := withPath w argv (pathCall w .unlink "unlink" ⟨[], .value⟩)

def jsFsRmdirSync : Execution := withPath w argv (pathCall w .rmdir "rmdir" ⟨[], .value⟩)

def jsFsRealpathSync : Execution := withPath w argv (pathCall w .realpath "realpath" ⟨[], built w⟩)

def jsFsAccessSync : Execution :=
  withPath w argv <|
    if argv[1]?.any (fun mode ↦ !mode.isUndefined) ∧ ¬ w.toInt32 then ⟨[.release .path], .exception⟩
    else pathCall w .access "access" ⟨[], .value⟩

def jsFsChmodSync : Execution :=
  if w.win32 then typeError "chmodSync is not supported on Windows"
  else if argv.length < 2 then typeError "need path and mode"
  else withPath w argv <|
    if ¬ w.toInt32 then ⟨[.release .path], .exception⟩
    else pathCall w .chmod "chmod" ⟨[], .value⟩

def jsFsRmSync : Execution :=
  withPath w argv <|
    let recursive := (Value.property "recursive" argv[1]?).flag
    let force := (Value.property "force" argv[1]?).flag
    .after [.read .path] <|
      match w.fails .stat with
      | some err =>
        if force ∧ err = .noent then ⟨[.release .path], .value⟩
        else .after [.release .path] (jsFsThrowError err .path "stat")
      | none =>
        if w.isDir then
          if ¬ recursive then .after [.release .path] (jsFsThrowError .isdir .path "rm")
          else pathCall w .rm "rm" ⟨[], .value⟩
        else pathCall w .unlink "unlink" ⟨[], .value⟩

/-! ## Two paths -/

def jsFsRenameSync : Execution :=
  withPaths w argv "need oldPath and newPath" .oldpath .newpath <|
    .after [.read .oldpath, .read .newpath] <|
      match w.fails .rename with
      | some err =>
        .after [.release .oldpath, .release .newpath] (jsFsThrowError err .oldpath "rename")
      | none => ⟨[.release .oldpath, .release .newpath], .value⟩

/-- The loop over the blocks that `fread` delivers. -/
def copyBlocks : List (Option Errno) → Execution
  | [] => ⟨[.release .src, .release .dest], .value⟩
  | some err :: _ => .after [.release .src, .release .dest] (jsFsThrowError err .dest "write")
  | none :: blocks => copyBlocks blocks

def jsFsCopyFileSync : Execution :=
  withPaths w argv "need src and dest" .src .dest <|
    .after [.read .src] <|
      match w.fails .fopen with
      | some err => .after [.release .src, .release .dest] (jsFsThrowError err .src "open")
      | none =>
        .after [.read .dest] <|
          match w.fails .fopenDest with
          | some err => .after [.release .src, .release .dest] (jsFsThrowError err .dest "open")
          | none => copyBlocks w.blocks

end

/-- The synchronous functions with a promise version. -/
inductive SyncFunction
  | readFileSync | writeFileSync | appendFileSync | mkdirSync | readdirSync | statSync | lstatSync
  | unlinkSync | renameSync | rmdirSync | rmSync | copyFileSync | realpathSync | accessSync | chmodSync
  deriving DecidableEq, Repr

def SyncFunction.call : SyncFunction → Outcomes → List Value → Execution
  | readFileSync => jsFsReadFileSync
  | writeFileSync => jsFsWriteFileSync
  | appendFileSync => jsFsAppendFileSync
  | mkdirSync => jsFsMkdirSync
  | readdirSync => jsFsReaddirSync
  | statSync => jsFsStatSync
  | lstatSync => jsFsLstatSync
  | unlinkSync => jsFsUnlinkSync
  | renameSync => jsFsRenameSync
  | rmdirSync => jsFsRmdirSync
  | rmSync => jsFsRmSync
  | copyFileSync => jsFsCopyFileSync
  | realpathSync => jsFsRealpathSync
  | accessSync => jsFsAccessSync
  | chmodSync => jsFsChmodSync

end QNode.Fs.CStrings
