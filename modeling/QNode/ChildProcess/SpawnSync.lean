import Mathlib.Logic.Function.Basic
import Mathlib.Logic.Relation
import QNode.ChildProcess.Events
import QNode.ChildProcess.GrowBuf
import QNode.Library.Chunks

/-!
# spawnSync and its child

The Unix branch of `spawnSync` writes all input, drains both output pipes once, waits for the child
and drains again.  Parent and child are two processes joined by three bounded pipes; a step is one
system call of either of them, or a part of a blocking write.  All allocations succeed, and a signal
interrupts only the wait.
-/

open Chunks

namespace QNode.ChildProcess.SpawnSync

/-- The capacity of a pipe and the option `maxBuffer`.  A negative option becomes a `size_t` from
`2 ^ 63` on, and since no buffer grows that far it acts like `2 ^ 63 - 1`. -/
structure Config where
  capacity : Nat
  maxBuffer : Nat
  capacity_pos : 0 < capacity
  maxBuffer_lt : maxBuffer < 2 ^ 63

/-- What a child does before it exits: blocking writes to its output and reads of its stdin. -/
inductive ChildOp
  | write (s : Stream) (bytes : List UInt8)
  | read (n : Nat)
  deriving DecidableEq, Repr

/-- Where the parent is: in the write of `left` bytes of input, in `read_all_from_fd` for a stream,
before or after the wait, in the wait, or at the end. -/
inductive Phase
  | writing (left : Nat)
  | draining (final : Bool) (s : Stream)
  | waiting
  | done
  deriving DecidableEq, Repr

/-- `child` is what the child still has to do, `none` once it has exited.  Of the input only the
number of bytes in the pipe matters.  `reads` is the history of each stream: the chunks read from
it and whether they were kept. -/
structure Sys where
  child : Option (List ChildOp)
  inPipe : Nat
  pipe : Stream → List UInt8
  phase : Phase
  gb : Stream → GrowBuf
  reads : Stream → List (List UInt8 × Bool)

/-- What follows `read_all_from_fd` for a stream. -/
def Phase.after (final : Bool) : Stream → Phase
  | .stdout => .draining final .stderr
  | .stderr => if final then .done else .waiting

def Phase.afterWrite (left : Nat) : Phase := if left = 0 then .draining false .stdout else .writing left

/-- One turn of `read_all_from_fd` after `read` returned `chunk`: the buffer, and whether the loop goes
on; `none` for an overrun of the buffer. -/
def readChunk (cfg : Config) (gb : GrowBuf) (chunk : List UInt8) : Option (GrowBuf × Bool) :=
  if gb.len + chunk.length > cfg.maxBuffer then some (gb, false)
  else (growbufAppend gb chunk true).map fun r ↦ (r.2, decide (r.1 ≥ 0))

inductive Step (cfg : Config) : Sys → Sys → Prop
  /-- Part of a blocking write of the child. -/
  | childWrite {st : Sys} {s : Stream} {bytes : List UInt8} {ops : List ChildOp} (j : Nat) :
    st.child = some (.write s bytes :: ops) → 0 < j → j ≤ bytes.length →
    (st.pipe s).length + j ≤ cfg.capacity →
    Step cfg st { st with
      child := some (.write s (bytes.drop j) :: ops)
      pipe := Function.update st.pipe s (st.pipe s ++ bytes.take j) }
  | childWritten {st : Sys} {s : Stream} {ops : List ChildOp} :
    st.child = some (.write s [] :: ops) → Step cfg st { st with child := some ops }
  /-- A read returns at least one byte, unless it asked for none. -/
  | childRead {st : Sys} {n : Nat} {ops : List ChildOp} (k : Nat) :
    st.child = some (.read n :: ops) → k ≤ n → k ≤ st.inPipe → (0 < n → 0 < k) →
    Step cfg st { st with child := some ops, inPipe := st.inPipe - k }
  | childEof {st : Sys} {n : Nat} {ops : List ChildOp} :
    st.child = some (.read n :: ops) → st.inPipe = 0 → (∀ left, st.phase ≠ .writing left) →
    Step cfg st { st with child := some ops }
  | childExit {st : Sys} : st.child = some [] → Step cfg st { st with child := none }
  /-- Part of the blocking write of the input. -/
  | parentWrite {st : Sys} {left : Nat} (j : Nat) :
    st.phase = .writing left → st.child ≠ none → 0 < j → j ≤ left →
    st.inPipe + j ≤ cfg.capacity →
    Step cfg st { st with inPipe := st.inPipe + j, phase := .afterWrite (left - j) }
  /-- Nobody is left to read the input. -/
  | parentWriteFails {st : Sys} {left : Nat} :
    st.phase = .writing left → st.child = none →
    Step cfg st { st with phase := .afterWrite 0 }
  | parentRead {st : Sys} {final : Bool} {s : Stream} {gb : GrowBuf} {more : Bool} (n : Nat) :
    st.phase = .draining final s → 0 < n → n ≤ 8192 → n ≤ (st.pipe s).length →
    readChunk cfg (st.gb s) ((st.pipe s).take n) = some (gb, more) →
    Step cfg st { st with
      pipe := Function.update st.pipe s ((st.pipe s).drop n)
      gb := Function.update st.gb s gb
      reads := Function.update st.reads s (st.reads s ++ [((st.pipe s).take n, more)])
      phase := if more then st.phase else .after final s }
  /-- An empty pipe gives `EAGAIN`, or the end of the stream. -/
  | parentReadEmpty {st : Sys} {final : Bool} {s : Stream} :
    st.phase = .draining final s → st.pipe s = [] →
    Step cfg st { st with phase := .after final s }
  | parentReaped {st : Sys} :
    st.phase = .waiting → st.child = none →
    Step cfg st { st with phase := .draining true .stdout }
  /-- The wait is interrupted by a signal, and the loop goes on. -/
  | parentInterrupted {st : Sys} :
    st.phase = .waiting → Step cfg st { st with phase := .draining false .stdout }

/-- The state after the child was created. -/
def Sys.start (ops : List ChildOp) (input : Nat) : Sys where
  child := some ops
  inPipe := 0
  pipe := fun _ ↦ []
  phase := .afterWrite input
  gb := fun _ ↦ (growbufInit 4096 true).2
  reads := fun _ ↦ []

def Reaches (cfg : Config) : Sys → Sys → Prop := Relation.ReflTransGen (Step cfg)

/-! ## What the buffers hold -/

/-- Each buffer holds the kept chunks of its stream, at most `maxBuffer` bytes, and no pipe holds more
than its capacity. -/
structure Sys.Buffered (cfg : Config) (st : Sys) : Prop where
  exact : ∀ s, (st.gb s).Exact (kept (st.reads s))
  bound : ∀ s, (st.gb s).len ≤ cfg.maxBuffer
  pipe : ∀ s, (st.pipe s).length ≤ cfg.capacity
  inPipe : st.inPipe ≤ cfg.capacity

theorem readChunk_dropped {cfg : Config} {gb : GrowBuf} {chunk : List UInt8}
    (h : cfg.maxBuffer < gb.len + chunk.length) : readChunk cfg gb chunk = some (gb, false) :=
  if_pos h

-- A chunk within the limit is kept whole: the append cannot fail.
theorem readChunk_kept {cfg : Config} {gb : GrowBuf} {content chunk : List UInt8}
    (hgb : gb.Exact content) (h : gb.len + chunk.length ≤ cfg.maxBuffer) :
    ∃ gb', readChunk cfg gb chunk = some (gb', true) ∧ gb'.Exact (content ++ chunk) ∧
      gb'.len = gb.len + chunk.length := by
  have hmax := cfg.maxBuffer_lt
  obtain ⟨gb', happend, hexact⟩ := hgb.append chunk (by omega)
  refine ⟨gb', ?_, hexact, ?_⟩
  · rw [readChunk, if_neg (by omega), happend]
    rfl
  · rw [← hexact.length_content, ← hgb.length_content, List.length_append]

theorem Sys.Buffered.start (cfg : Config) (ops : List ChildOp) (input : Nat) :
    (Sys.start ops input).Buffered cfg where
  exact _ := growbufInit_exact 4096
  bound _ := Nat.zero_le _
  pipe _ := Nat.zero_le _
  inPipe := Nat.zero_le _

-- Reading one chunk keeps the buffers in order.
theorem Sys.Buffered.read {cfg : Config} {st : Sys} {s : Stream} {gb : GrowBuf} {more : Bool} {n : Nat}
    (h : st.Buffered cfg) (hread : readChunk cfg (st.gb s) ((st.pipe s).take n) = some (gb, more)) :
    gb.Exact (kept (st.reads s ++ [((st.pipe s).take n, more)])) ∧ gb.len ≤ cfg.maxBuffer ∧
      (more = decide ((st.gb s).len + ((st.pipe s).take n).length ≤ cfg.maxBuffer)) ∧
      (more = true → gb.len = (st.gb s).len + ((st.pipe s).take n).length) ∧
      (more = false → gb = st.gb s) := by
  by_cases hfit : (st.gb s).len + ((st.pipe s).take n).length ≤ cfg.maxBuffer
  · obtain ⟨gb', hkept, hexact, hlen⟩ := readChunk_kept (h.exact s) hfit
    rw [hkept, Option.some.injEq, Prod.mk.injEq] at hread
    obtain ⟨rfl, rfl⟩ := hread
    refine ⟨?_, ?_, (decide_eq_true hfit).symm, fun _ ↦ hlen, fun h ↦ nomatch h⟩
    · rw [kept_append]
      exact hexact
    · rw [hlen]
      exact hfit
  · rw [readChunk_dropped (by omega), Option.some.injEq, Prod.mk.injEq] at hread
    obtain ⟨rfl, rfl⟩ := hread
    refine ⟨?_, h.bound s, (decide_eq_false hfit).symm, (fun h ↦ nomatch h), fun _ ↦ rfl⟩
    rw [kept_append, if_neg (by decide), List.append_nil]
    exact h.exact s

theorem Sys.Buffered.step {cfg : Config} {st st' : Sys} (h : st.Buffered cfg)
    (hstep : Step cfg st st') : st'.Buffered cfg := by
  cases hstep with
  | @childWrite s bytes ops j hchild hpos hle hroom =>
    refine ⟨h.exact, h.bound, ?_, h.inPipe⟩
    intro s'
    by_cases hs : s' = s
    · subst hs
      simp only [Function.update_self, List.length_append, List.length_take]
      omega
    · simp only [Function.update_of_ne hs]
      exact h.pipe s'
  | childWritten hchild => exact ⟨h.exact, h.bound, h.pipe, h.inPipe⟩
  | childRead k hchild hn hk hpos =>
    exact ⟨h.exact, h.bound, h.pipe, Nat.le_trans (Nat.sub_le _ _) h.inPipe⟩
  | childEof hchild hempty hphase => exact ⟨h.exact, h.bound, h.pipe, h.inPipe⟩
  | childExit hchild => exact ⟨h.exact, h.bound, h.pipe, h.inPipe⟩
  | parentWrite j hphase hchild hpos hle hroom => exact ⟨h.exact, h.bound, h.pipe, hroom⟩
  | parentWriteFails hphase hchild => exact ⟨h.exact, h.bound, h.pipe, h.inPipe⟩
  | @parentRead final s gb more n hphase hpos hmax hle hread =>
    obtain ⟨hexact, hbound, -⟩ := h.read hread
    refine ⟨?_, ?_, ?_, h.inPipe⟩
    · intro s'
      by_cases hs : s' = s
      · subst hs
        simp only [Function.update_self]
        exact hexact
      · simp only [Function.update_of_ne hs]
        exact h.exact s'
    · intro s'
      by_cases hs : s' = s
      · subst hs
        simp only [Function.update_self]
        exact hbound
      · simp only [Function.update_of_ne hs]
        exact h.bound s'
    · intro s'
      have hpipe := h.pipe s'
      by_cases hs : s' = s
      · subst hs
        simp only [Function.update_self, List.length_drop]
        omega
      · simp only [Function.update_of_ne hs]
        exact hpipe
  | parentReadEmpty hphase hempty => exact ⟨h.exact, h.bound, h.pipe, h.inPipe⟩
  | parentReaped hphase hchild => exact ⟨h.exact, h.bound, h.pipe, h.inPipe⟩
  | parentInterrupted hphase => exact ⟨h.exact, h.bound, h.pipe, h.inPipe⟩

-- The rule for whole runs: what each step keeps of a state in order holds at the end.
theorem Reaches.keeps {cfg : Config} {I : Sys → Prop}
    (hstep : ∀ st st', st.Buffered cfg → I st → Step cfg st st' → I st') {st st' : Sys}
    (hreach : Reaches cfg st st') (hbuf : st.Buffered cfg) (h : I st) : st'.Buffered cfg ∧ I st' := by
  induction hreach with
  | refl => exact ⟨hbuf, h⟩
  | tail _ hlast ih => exact ⟨ih.1.step hlast, hstep _ _ ih.1 ih.2 hlast⟩

theorem Sys.Buffered.reaches {cfg : Config} {st st' : Sys} (h : st.Buffered cfg)
    (hreach : Reaches cfg st st') : st'.Buffered cfg :=
  (hreach.keeps (I := fun _ ↦ True) (fun _ _ _ _ _ ↦ trivial) h trivial).1

end QNode.ChildProcess.SpawnSync
