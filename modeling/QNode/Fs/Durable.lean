import Mathlib.Data.List.TakeDrop
import QNode.Fs.Files

/-!
# What a write has stored

A write fails at the open, in `fwrite`, or in the flush of `fclose`, whose result is not looked at.  The
results here say what the file holds after a call that returns, and so when returning means that all
data is stored.
-/

open FileTree QNode.Engine

namespace QNode.Fs

/-- The calls that promise a content: `writeFileSync` with flag `w` or `a`, and `appendFileSync`. -/
inductive WholeWrite
  | replace (options : Options) (flag : options.flag = "w")
  | extend (options : Options) (flag : options.flag = "a")
  | append (options : Options)

namespace WholeWrite

def run (call : WholeWrite) (stdio : Stdio) (fs : FileSystem) (cwd : Loc Name) (path : List UInt8)
    (data : WriteData) : FsOutcome Unit × FileSystem :=
  match call with
  | replace options _ | extend options _ => jsFsWriteFileSync stdio fs cwd path data options
  | append options => jsFsAppendFileSync stdio fs cwd path data options

def mode : WholeWrite → FopenMode
  | replace _ _ => .wb
  | extend _ _ | append _ => .ab

/-- The content promised, from the old content and the data. -/
def promised : WholeWrite → List UInt8 → List UInt8 → List UInt8
  | replace _ _, _, data => data
  | extend _ _, old, data | append _, old, data => old ++ data

theorem run_eq (call : WholeWrite) (stdio : Stdio) (fs : FileSystem) (cwd : Loc Name)
    (path : List UInt8) (data : WriteData) :
    call.run stdio fs cwd path data = writeWholeData stdio fs cwd path data call.mode := by
  cases call with
  | replace options flag => rw [run, jsFsWriteFileSync, flag]; rfl
  | extend options flag => rw [run, jsFsWriteFileSync, flag]; rfl
  | append options => rfl

end WholeWrite

namespace WholeWrite

section

variable (call : WholeWrite) (stdio : Stdio) (fs : FileSystem) (cwd : Loc Name) (path : List UInt8)
  (data : WriteData)

/-- If the call returns, the file holds what it promises. -/
def Durable : Prop :=
  (call.run stdio fs cwd path data).1 = .ok () → ∃ bytes, data.bytes = some bytes ∧
    fileAt (call.run stdio fs cwd path data).2 cwd path =
      some (call.promised ((fileAt fs cwd path).getD []) bytes)

/-- A failure is one that the call sees: the open fails, `fwrite` reports it, or there is none. -/
def FailureSeen : Prop :=
  ∀ bytes, data.bytes = some bytes → (∃ err, fopen stdio fs cwd path call.mode = .error err) ∨
    (stdio.stream bytes.length).count < bytes.length ∨
    (stdio.stream bytes.length).stored + (stdio.stream bytes.length).flushed = bytes.length

variable {stdio fs cwd path data}

-- The content after a write of the first bytes only.
theorem writtenTo_promised (old bytes : List UInt8) (k : Nat) :
    writtenTo (hasFlag call.mode.flags oAppend)
        (if hasFlag call.mode.flags oTrunc then [] else old) (bytes.take k) =
      call.promised old (bytes.take k) := by
  cases call <;> simp [mode, promised, writtenTo]

theorem promised_inj (old : List UInt8) {bytes bytes' : List UInt8} :
    call.promised old bytes = call.promised old bytes' ↔ bytes = bytes' := by
  cases call with
  | replace options flag => exact Iff.rfl
  | extend options flag => exact List.append_right_inj old
  | append options => exact List.append_right_inj old

end

/-- A full disk: `fwrite` buffers all data and the flush stores none of it. -/
def fullDisk : Stdio where
  denied := none
  stream n := ⟨n, 0, 0, .nospc, Nat.le_refl n, Nat.zero_le n⟩

end WholeWrite

end QNode.Fs
