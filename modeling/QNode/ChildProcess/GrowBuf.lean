import QNode.Library.Runs
import QNode.Library.Splice
import QNode.Library.Words

/-!
# The growable output buffer

`GrowBuf` collects the output of a child.  A block returned by the allocator is the list of its
bytes, and `none` is the NULL pointer; whether an allocation succeeds is decided by the caller of
the model, so that every allocation of a run may fail.
-/

open Word Splice

namespace QNode.ChildProcess

structure GrowBuf where
  data : Option (List UInt8)
  len : Nat
  cap : Nat
  deriving DecidableEq, Repr

/-- A fresh block.  Its bytes are indeterminate in C; no result below depends on the zeros. -/
def jsMalloc (size : Nat) (ok : Bool) : Option (List UInt8) :=
  if ok ∧ 0 < size then some (List.replicate size 0) else none

def jsRealloc (block : Option (List UInt8)) (size : Nat) (ok : Bool) : Option (List UInt8) :=
  if ok ∧ 0 < size then
    some ((block.getD []).take size ++ List.replicate (size - (block.getD []).length) 0)
  else none

/-- `memcpy(gb->data + gb->len, src, n); gb->len += n`; `none` when the copy would go past the
block `data` points to. -/
def GrowBuf.copyTail (gb : GrowBuf) (src : List UInt8) : Option GrowBuf :=
  match gb.data with
  | none => none
  | some block =>
    if gb.len + src.length ≤ block.length then
      some { gb with data := some (splice block gb.len src), len := gb.len + src.length }
    else none

def growbufInit (initial : Nat) (ok : Bool) : Int × GrowBuf :=
  let cap := if initial > 0 then initial else 4096
  let data := jsMalloc cap ok
  (if data.isSome then 0 else -1, { data := data, len := 0, cap := cap })

/-- `growbuf_append`: the return code and the buffer afterwards, `none` for an overrun. -/
def growbufAppend (gb : GrowBuf) (src : List UInt8) (ok : Bool) : Option (Int × GrowBuf) :=
  let n := src.length
  if sizeT (gb.len + n) > gb.cap then
    -- the capacity is raised before the reallocation is known to succeed
    let gb := { gb with cap := sizeT ((gb.len + n) * 2) }
    match jsRealloc gb.data gb.cap ok with
    | none => some (-1, gb)
    | some p => (GrowBuf.copyTail { gb with data := some p } src).map fun gb => (0, gb)
  else (gb.copyTail src).map fun gb => (0, gb)

/-- What every user of the buffer relies on: the length and the capacity describe the block, and
the block starts with `content`. -/
structure GrowBuf.Sound (gb : GrowBuf) (content : List UInt8) : Prop where
  lenCap : gb.len ≤ gb.cap
  block : ∃ block, gb.data = some block ∧ gb.cap ≤ block.length ∧ block.take gb.len = content

/-- The state between two operations that succeeded: the block has exactly `cap` bytes. -/
structure GrowBuf.Exact (gb : GrowBuf) (content : List UInt8) : Prop where
  lenCap : gb.len ≤ gb.cap
  capPos : 0 < gb.cap
  block : ∃ block, gb.data = some block ∧ block.length = gb.cap ∧ block.take gb.len = content

theorem GrowBuf.Exact.sound {gb : GrowBuf} {content : List UInt8} (h : gb.Exact content) :
    gb.Sound content := by
  obtain ⟨block, hdata, hsize, htake⟩ := h.block
  exact ⟨h.lenCap, block, hdata, Nat.le_of_eq hsize.symm, htake⟩

theorem GrowBuf.Exact.length_content {gb : GrowBuf} {content : List UInt8}
    (h : gb.Exact content) : content.length = gb.len := by
  obtain ⟨block, -, hsize, htake⟩ := h.block
  have hlen := h.lenCap
  rw [← htake, List.length_take]
  omega

theorem growbufInit_exact (initial : Nat) : (growbufInit initial true).2.Exact [] := by
  have hcap : 0 < (if initial > 0 then initial else 4096) := by split <;> omega
  refine ⟨Nat.zero_le _, hcap, List.replicate (if initial > 0 then initial else 4096) 0, ?_, ?_, ?_⟩
  · simp only [growbufInit, jsMalloc, hcap, and_self, if_true]
  · simp only [growbufInit, List.length_replicate]
  · simp only [growbufInit, List.take_zero]

-- A copy that fits the block appends to the content.
theorem GrowBuf.Exact.copyTail {gb : GrowBuf} {content : List UInt8} (h : gb.Exact content)
    (src : List UInt8) (hfit : gb.len + src.length ≤ gb.cap) :
    ∃ gb', gb.copyTail src = some gb' ∧ gb'.Exact (content ++ src) := by
  obtain ⟨block, hdata, hsize, htake⟩ := h.block
  have hin : gb.len + src.length ≤ block.length := by omega
  refine ⟨{ gb with data := some (splice block gb.len src), len := gb.len + src.length }, ?_, ?_⟩
  · simp only [GrowBuf.copyTail, hdata, if_pos hin]
  · refine ⟨hfit, h.capPos, splice block gb.len src, rfl, ?_, ?_⟩
    · rw [length_splice hin, hsize]
    · rw [take_splice (by omega), htake]

theorem jsRealloc_exact {gb : GrowBuf} {content : List UInt8} (h : gb.Exact content) (size : Nat)
    (hsize : gb.len ≤ size) (hpos : 0 < size) :
    ∃ p, jsRealloc gb.data size true = some p ∧
      GrowBuf.Exact { data := some p, len := gb.len, cap := size } content := by
  obtain ⟨block, hdata, hblock, htake⟩ := h.block
  have hlen := h.lenCap
  refine ⟨block.take size ++ List.replicate (size - block.length) 0, ?_, hsize, hpos, _, rfl, ?_, ?_⟩
  · simp only [jsRealloc, hdata, hpos, and_self, if_true, Option.getD_some]
  · simp only [List.length_append, List.length_take, List.length_replicate]
    omega
  · have hkeep : gb.len ≤ (block.take size).length := by
      rw [List.length_take]
      omega
    rw [List.take_append_of_le_length hkeep, List.take_take, Nat.min_eq_left hsize, htake]

-- An append that fits the capacity never asks the allocator.
theorem GrowBuf.Exact.append_fits {gb : GrowBuf} {content : List UInt8} (h : gb.Exact content)
    (src : List UInt8) (ok : Bool) (hfit : gb.len + src.length ≤ gb.cap) :
    ∃ gb', growbufAppend gb src ok = some (0, gb') ∧ gb'.Exact (content ++ src) := by
  obtain ⟨gb', hcopy, hgood⟩ := h.copyTail src hfit
  have hle : sizeT ((gb.len : Int) + (src.length : Int)) ≤ gb.len + src.length := by
    exact_mod_cast @sizeT_le_self (gb.len + src.length)
  refine ⟨gb', ?_, hgood⟩
  simp only [growbufAppend, if_neg (by omega : ¬ sizeT (gb.len + src.length) > gb.cap), hcopy,
    Option.map_some]

theorem GrowBuf.Exact.append_grown {gb : GrowBuf} {content : List UInt8} (h : gb.Exact content)
    (src : List UInt8) (hroom : gb.cap < gb.len + src.length)
    (hbound : gb.len + src.length < 2 ^ 63) :
    ∃ gb', growbufAppend gb src true = some (0, gb') ∧ gb'.Exact (content ++ src) := by
  have hcast : sizeT ((gb.len : Int) + (src.length : Int)) = gb.len + src.length := by
    exact_mod_cast @sizeT_natCast (gb.len + src.length) (by omega)
  have hdouble : sizeT (((gb.len : Int) + (src.length : Int)) * 2) =
      (gb.len + src.length) * 2 := by
    exact_mod_cast @sizeT_natCast ((gb.len + src.length) * 2) (by omega)
  obtain ⟨p, hp, hexact⟩ := jsRealloc_exact h ((gb.len + src.length) * 2) (by omega) (by omega)
  obtain ⟨gb', hcopy, hgood⟩ := hexact.copyTail src (by dsimp only; omega)
  refine ⟨gb', ?_, hgood⟩
  simp only [growbufAppend, hcast, gt_iff_lt, if_pos hroom, hdouble, hp, hcopy, Option.map_some]

-- An append for which the allocator delivers succeeds and appends exactly its chunk.
theorem GrowBuf.Exact.append {gb : GrowBuf} {content : List UInt8} (h : gb.Exact content)
    (src : List UInt8) (hbound : gb.len + src.length < 2 ^ 63) :
    ∃ gb', growbufAppend gb src true = some (0, gb') ∧ gb'.Exact (content ++ src) := by
  by_cases hfit : gb.len + src.length ≤ gb.cap
  · exact h.append_fits src true hfit
  · exact h.append_grown src (by omega) hbound

-- A failing append only raises the capacity field.
theorem growbufAppend_failed {gb gb' : GrowBuf} {src : List UInt8} {ok : Bool} {rc : Int}
    (h : growbufAppend gb src ok = some (rc, gb')) (hrc : rc ≠ 0) :
    gb.cap < sizeT (gb.len + src.length) ∧
      gb' = { gb with cap := sizeT ((gb.len + src.length) * 2) } ∧
      jsRealloc gb.data gb'.cap ok = none := by
  unfold growbufAppend at h
  dsimp only at h
  split at h
  next hroom =>
    cases hp : jsRealloc gb.data (sizeT ((gb.len + src.length) * 2)) ok with
    | none =>
      simp only [hp, Option.some.injEq, Prod.mk.injEq] at h
      obtain ⟨-, rfl⟩ := h
      exact ⟨hroom, rfl, hp⟩
    | some p =>
      simp only [hp, Option.map_eq_some_iff, Prod.mk.injEq] at h
      obtain ⟨-, -, rfl, -⟩ := h
      exact absurd rfl hrc
  next =>
    simp only [Option.map_eq_some_iff, Prod.mk.injEq] at h
    obtain ⟨-, -, rfl, -⟩ := h
    exact absurd rfl hrc

theorem copyTail_some {gb gb' : GrowBuf} {src : List UInt8} (h : gb.copyTail src = some gb') :
    ∃ block, gb.data = some block ∧ gb.len + src.length ≤ block.length := by
  unfold GrowBuf.copyTail at h
  split at h
  · cases h
  next block hdata =>
    split at h
    next hin => exact ⟨block, hdata, hin⟩
    next => cases h

theorem jsRealloc_some {block : Option (List UInt8)} {p : List UInt8} {size : Nat} {ok : Bool}
    (h : jsRealloc block size ok = some p) : ok = true ∧ p.length = size := by
  unfold jsRealloc at h
  split at h
  next hok =>
    refine ⟨hok.1, ?_⟩
    rw [← Option.some.inj h, List.length_append, List.length_take, List.length_replicate]
    omega
  next => cases h

-- A successful append stayed inside its block, so it fitted the old capacity or got a larger
-- block, and no sum or product wrapped.
theorem GrowBuf.Exact.append_succeeded {gb gb' : GrowBuf} {content src : List UInt8} {ok : Bool}
    (h : gb.Exact content) (happend : growbufAppend gb src ok = some (0, gb')) :
    gb.len + src.length ≤ gb.cap ∨ (ok = true ∧ gb.len + src.length < 2 ^ 63) := by
  obtain ⟨block, hdata, hsize, -⟩ := h.block
  unfold growbufAppend at happend
  dsimp only at happend
  split at happend
  next hroom =>
    right
    cases hp : jsRealloc gb.data (sizeT ((gb.len + src.length) * 2)) ok with
    | none => simp [hp] at happend
    | some p =>
      simp only [hp, Option.map_eq_some_iff] at happend
      obtain ⟨_, hcopy, -⟩ := happend
      obtain ⟨hok, hlength⟩ := jsRealloc_some hp
      obtain ⟨_, hblock, hin⟩ := copyTail_some hcopy
      cases hblock
      -- a doubled sum that wrapped is smaller than the sum itself
      refine ⟨hok, ?_⟩
      unfold sizeT at hlength
      dsimp only at hin
      omega
  next =>
    left
    simp only [Option.map_eq_some_iff] at happend
    obtain ⟨_, hcopy, -⟩ := happend
    obtain ⟨_, hblock, hin⟩ := copyTail_some hcopy
    rw [hdata] at hblock
    cases hblock
    omega

/-! ## Runs of initialisations and appends -/

inductive GrowOp
  | init (initial : Nat) (ok : Bool)
  | append (chunk : List UInt8) (ok : Bool)

/-- The buffer together with the return code of the operation that produced it and the chunks
appended successfully since the last initialisation, which left a usable buffer if `live`. -/
structure GrowRun where
  rc : Int
  gb : GrowBuf
  content : List UInt8
  live : Bool
  deriving DecidableEq, Repr

def growStep (st : GrowRun) : GrowOp → Option GrowRun
  | .init initial ok =>
    let (rc, gb) := growbufInit initial ok
    some ⟨rc, gb, [], rc == 0⟩
  | .append chunk ok =>
    -- every caller gives up after a failed initialisation
    if st.live then
      (growbufAppend st.gb chunk ok).map fun r ↦
        ⟨r.1, r.2, if r.1 = 0 then st.content ++ chunk else st.content, true⟩
    else some st

def growStart (initial : Nat) : GrowRun := ⟨0, (growbufInit initial true).2, [], true⟩

/-- What one operation owes: a sound buffer unless its initialisation failed, and no change at all
when an append reports failure. -/
def GrowKept (st : GrowRun) (op : GrowOp) (st' : GrowRun) : Prop :=
  (st'.live = true → st'.gb.Sound st'.content) ∧
    ∀ chunk ok, op = .append chunk ok → st'.rc ≠ 0 → st'.gb = st.gb ∧ st'.content = st.content

/-- The state before the operation lets it keep its promise: an append to a usable buffer fits the
capacity or gets a larger block.  The last disjunct is the one failure that goes unnoticed: the
request, wrapped modulo `2^64`, is for the capacity the buffer already has. -/
def GrowAllowed (st : GrowRun) : GrowOp → Prop
  | .init _ _ => True
  | .append chunk ok => st.live = true →
    st.gb.len + chunk.length ≤ st.gb.cap ∨
    (ok = true ∧ st.gb.len + chunk.length < 2 ^ 63) ∨
    (ok = false ∧ st.gb.cap < sizeT (st.gb.len + chunk.length) ∧
      sizeT ((st.gb.len + chunk.length) * 2) = st.gb.cap)

def GrowInvariant (st : GrowRun) : Prop := st.live = true → st.gb.Exact st.content

theorem growStep_init (st : GrowRun) (initial : Nat) (ok : Bool) :
    ∃ st', growStep st (.init initial ok) = some st' ∧
      GrowKept st (.init initial ok) st' ∧ GrowInvariant st' := by
  have hexact := growbufInit_exact initial
  cases ok with
  | true =>
    exact ⟨⟨_, _, [], _⟩, rfl, ⟨fun _ ↦ hexact.sound, fun _ _ he ↦ nomatch he⟩, fun _ ↦ hexact⟩
  | false =>
    have hdead : ¬ ((growbufInit initial false).1 == 0) = true := by
      show ¬ ((-1 : Int) == 0) = true
      decide
    refine ⟨⟨_, _, [], _⟩, rfl, ⟨fun h ↦ absurd h hdead, fun _ _ he ↦ nomatch he⟩,
      fun h ↦ absurd h hdead⟩

theorem growStep_append {st : GrowRun} {chunk : List UInt8} {ok : Bool} (hlive : st.live = true)
    (hst : st.gb.Exact st.content) (hop : GrowAllowed st (.append chunk ok)) :
    ∃ st', growStep st (.append chunk ok) = some st' ∧
      GrowKept st (.append chunk ok) st' ∧ GrowInvariant st' := by
  have hdone : ∀ gb', growbufAppend st.gb chunk ok = some (0, gb') →
      gb'.Exact (st.content ++ chunk) →
      ∃ st', growStep st (.append chunk ok) = some st' ∧
        GrowKept st (.append chunk ok) st' ∧ GrowInvariant st' := by
    intro gb' happend hexact
    refine ⟨⟨0, gb', st.content ++ chunk, true⟩, ?_, ⟨fun _ ↦ hexact.sound, ?_⟩, fun _ ↦ hexact⟩
    · simp only [growStep, hlive, happend, Option.map_some, if_true]
    · intro _ _ _ hrc
      exact absurd rfl hrc
  rcases hop hlive with hfit | ⟨rfl, hbound⟩ | ⟨rfl, hroom, hsame⟩
  · obtain ⟨gb', happend, hexact⟩ := hst.append_fits chunk ok hfit
    exact hdone gb' happend hexact
  · obtain ⟨gb', happend, hexact⟩ := hst.append chunk hbound
    exact hdone gb' happend hexact
  · refine ⟨⟨-1, st.gb, st.content, true⟩, ?_, ⟨fun _ ↦ hst.sound, fun _ _ _ _ ↦ ⟨rfl, rfl⟩⟩,
      fun _ ↦ hst⟩
    simp only [growStep, hlive, growbufAppend, gt_iff_lt, if_pos hroom, hsame, jsRealloc,
      Bool.false_eq_true, false_and, if_false, if_true, Option.map_some, Int.reduceNeg,
      reduceCtorEq]

theorem growStep_kept {st : GrowRun} {op : GrowOp} (hst : GrowInvariant st)
    (hop : GrowAllowed st op) :
    ∃ st', growStep st op = some st' ∧ GrowKept st op st' ∧ GrowInvariant st' := by
  cases op with
  | init initial ok => exact growStep_init st initial ok
  | append chunk ok =>
    by_cases hlive : st.live = true
    · exact growStep_append hlive (hst hlive) hop
    · refine ⟨st, ?_, ⟨fun h ↦ absurd h hlive, fun _ _ _ _ ↦ ⟨rfl, rfl⟩⟩, hst⟩
      rw [growStep, if_neg hlive]

theorem growStep_allowed {st st' : GrowRun} {op : GrowOp} (hst : GrowInvariant st)
    (hstep : growStep st op = some st') (hkept : GrowKept st op st') : GrowAllowed st op := by
  cases op with
  | init initial ok => trivial
  | append chunk ok =>
    intro hlive
    have hst := hst hlive
    rw [growStep, if_pos hlive] at hstep
    obtain ⟨⟨rc, gb'⟩, happend, rfl⟩ := Option.map_eq_some_iff.mp hstep
    by_cases hrc : rc = 0
    · subst hrc
      rcases hst.append_succeeded happend with h | h
      · exact .inl h
      · exact .inr (.inl h)
    · obtain ⟨hroom, hgb, hnone⟩ := growbufAppend_failed happend hrc
      have hsame := (hkept.2 chunk ok rfl hrc).1
      have hcap : sizeT ((st.gb.len + chunk.length) * 2) = st.gb.cap := by
        rw [← congrArg GrowBuf.cap hsame, hgb]
      refine .inr (.inr ⟨?_, hroom, hcap⟩)
      -- the request was for a positive size, so the allocator refused it
      have hpos := hst.capPos
      rw [hgb] at hnone
      simp only [hcap, jsRealloc, hpos, and_true, ite_eq_right_iff, reduceCtorEq] at hnone
      exact Bool.eq_false_iff.mpr hnone

/-- Over any run that starts with a successful initialisation, the buffer stays sound and failing
appends change nothing precisely if every operation of the run is allowed: the code keeps its
promise exactly as long as no reallocation fails. -/
theorem growbuf_sound_iff (initial : Nat) (ops : List GrowOp) :
    Runs.Along growStep GrowKept (growStart initial) ops ↔
      Runs.Guarded growStep GrowAllowed (growStart initial) ops := by
  apply Runs.along_iff_guarded (I := GrowInvariant)
  · intro st op hst hop
    exact growStep_kept hst hop
  · intro st op st' hst hstep hkept
    exact growStep_allowed hst hstep hkept
  · intro _
    exact growbufInit_exact initial

/-- One refused reallocation breaks the run: the capacity has grown, the block has not, and the
next append, which fits the new capacity, is copied past the block. -/
theorem growbuf_unsound_after_failure :
    ¬ ∀ initial ops, Runs.Along growStep GrowKept (growStart initial) ops := by
  intro h
  have hrun := h 4 [.append [1, 2, 3, 4, 5] false, .append [1, 2, 3, 4, 5, 6] true]
  obtain ⟨st', hstep, ⟨-, hunchanged⟩, st'', hstep', -⟩ := hrun
  have hgb : growStep (growStart 4) (.append [1, 2, 3, 4, 5] false) =
      some ⟨-1, ⟨some [0, 0, 0, 0], 0, 10⟩, [], true⟩ := by decide
  have hover : growStep ⟨-1, ⟨some [0, 0, 0, 0], 0, 10⟩, [], true⟩
      (.append [1, 2, 3, 4, 5, 6] true) = none := by decide
  obtain rfl := Option.some.inj (hgb.symm.trans hstep)
  rw [hover] at hstep'
  cases hstep'

end QNode.ChildProcess
