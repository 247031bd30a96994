import QNode.ChildProcess.SpawnSync

/-!
# When spawnSync deadlocks

The parent drains the output pipes once before it waits, and not at all while it writes the input.
`Fits` says, of a child and an input, that the pipes can hold what the parent does not drain.  A
deadlock is reachable precisely if it fails.
-/

namespace QNode.ChildProcess.SpawnSync

/-- The child cannot go on before the parent has drained or filled a pipe. -/
def ChildBlocked (cfg : Config) (st : Sys) : Prop :=
  match st.child with
  | some (.write s bytes :: _) => bytes ≠ [] ∧ (st.pipe s).length = cfg.capacity
  | some (.read n :: _) => 0 < n ∧ st.inPipe = 0 ∧ ∃ left, st.phase = .writing left
  | _ => False

/-- The parent waits for a child that has not exited, or writes input to a full pipe. -/
def ParentBlocked (cfg : Config) (st : Sys) : Prop :=
  st.child ≠ none ∧
    (st.phase = .waiting ∨ ((∃ left, st.phase = .writing left) ∧ st.inPipe = cfg.capacity))

def Deadlocked (cfg : Config) (st : Sys) : Prop := ParentBlocked cfg st ∧ ChildBlocked cfg st

/-- The number of bytes a child still writes to a stream. -/
def outputLen (s : Stream) : List ChildOp → Nat
  | [] => 0
  | .write s' bytes :: ops => (if s' = s then bytes.length else 0) + outputLen s ops
  | .read _ :: ops => outputLen s ops

/-- Of the bytes held in a pipe the drain takes all, or at least the first that exceeds the limit and
those before it; what it leaves and what the child writes later fit the pipe. -/
def Absorbed (cfg : Config) (ops : List ChildOp) (held : Stream → Nat) : Prop :=
  ∀ s, held s - (cfg.maxBuffer + 1) + outputLen s ops ≤ cfg.capacity

/-- With `unread` bytes of input still to be read and `held` bytes in the output pipes.  As long as
the input does not fit its pipe the parent is stuck in its write, and the output must fit.  After
that it drains and waits. -/
def Fits (cfg : Config) : List ChildOp → Nat → (Stream → Nat) → Prop
  | [], unread, held => unread ≤ cfg.capacity → Absorbed cfg [] held
  | .write s bytes :: ops, unread, held =>
    if unread ≤ cfg.capacity then Absorbed cfg (.write s bytes :: ops) held
    else held s + bytes.length ≤ cfg.capacity ∧
      Fits cfg ops unread (Function.update held s (held s + bytes.length))
  | .read n :: ops, unread, held =>
    if unread ≤ cfg.capacity then Absorbed cfg (.read n :: ops) held
    else ∀ k, k ≤ n → k ≤ cfg.capacity → (0 < n → 0 < k) → Fits cfg ops (unread - k) held

section Fits

variable {cfg : Config} {ops : List ChildOp} {unread : Nat} {held : Stream → Nat}

theorem fits_small (h : unread ≤ cfg.capacity) : Fits cfg ops unread held ↔ Absorbed cfg ops held := by
  cases ops with
  | nil => exact imp_iff_right h
  | cons op ops =>
    cases op with
    | write s bytes => rw [Fits, if_pos h]
    | read n => rw [Fits, if_pos h]

theorem outputLen_write (s s' : Stream) (bytes : List UInt8) :
    outputLen s (.write s' bytes :: ops) = (if s' = s then bytes.length else 0) + outputLen s ops :=
  rfl

-- Part of a write moves bytes from what is to come to what is held.
theorem outputLen_part (held : Stream → Nat) (ops : List ChildOp) (s s' : Stream)
    {bytes : List UInt8} {j : Nat} (hj : j ≤ bytes.length) :
    Function.update held s (held s + j) s' + outputLen s' (.write s (bytes.drop j) :: ops) =
      held s' + outputLen s' (.write s bytes :: ops) := by
  rw [outputLen_write, outputLen_write, List.length_drop]
  by_cases hs : s' = s
  · subst hs
    rw [Function.update_self, if_pos rfl, if_pos rfl]
    omega
  · rw [Function.update_of_ne hs, if_neg fun h ↦ hs h.symm, if_neg fun h ↦ hs h.symm]

theorem Absorbed.part {s : Stream} {bytes : List UInt8} {j : Nat} (hj : j ≤ bytes.length)
    (h : Absorbed cfg (.write s bytes :: ops) held) :
    Absorbed cfg (.write s (bytes.drop j) :: ops) (Function.update held s (held s + j)) := by
  intro s'
  have hsum := outputLen_part held ops s s' hj
  have hle : held s' ≤ Function.update held s (held s + j) s' := by
    by_cases hs : s' = s
    · subst hs
      rw [Function.update_self]
      omega
    · rw [Function.update_of_ne hs]
  have habsorbed := h s'
  omega

theorem Fits.part {s : Stream} {bytes : List UInt8} {j : Nat} (hj : j ≤ bytes.length)
    (h : Fits cfg (.write s bytes :: ops) unread held) :
    Fits cfg (.write s (bytes.drop j) :: ops) unread (Function.update held s (held s + j)) := by
  by_cases hsmall : unread ≤ cfg.capacity
  · rw [fits_small hsmall] at h ⊢
    exact h.part hj
  · rw [Fits, if_neg hsmall] at h ⊢
    rw [Function.update_self, Function.update_idem, List.length_drop,
      show held s + j + (bytes.length - j) = held s + bytes.length by omega]
    exact h

theorem Fits.written {s : Stream} (h : Fits cfg (.write s [] :: ops) unread held) :
    Fits cfg ops unread held := by
  by_cases hsmall : unread ≤ cfg.capacity
  · rw [fits_small hsmall] at h ⊢
    intro s'
    have habsorbed := h s'
    rw [outputLen_write] at habsorbed
    split at habsorbed <;> simpa using habsorbed
  · rw [Fits, if_neg hsmall, List.length_nil, Nat.add_zero, Function.update_eq_self] at h
    exact h.2

theorem Fits.read {n k : Nat} (hn : k ≤ n) (hk : k ≤ cfg.capacity) (hpos : 0 < n → 0 < k)
    (h : Fits cfg (.read n :: ops) unread held) : Fits cfg ops (unread - k) held := by
  by_cases hsmall : unread ≤ cfg.capacity
  · rw [fits_small hsmall] at h
    rw [fits_small (by omega)]
    exact h
  · rw [Fits, if_neg hsmall] at h
    exact h k hn hk hpos

end Fits

/-! ## No deadlock when the output fits -/

/-- The number of bytes in an output pipe. -/
def Sys.held (st : Sys) (s : Stream) : Nat := (st.pipe s).length

/-- The pipe can take the rest of the stream once the drain in progress is over. -/
def Sys.Due (cfg : Config) (st : Sys) (ops : List ChildOp) (s : Stream) : Prop :=
  st.held s - (cfg.maxBuffer + 1 - (st.gb s).len) + outputLen s ops ≤ cfg.capacity

/-- The pipe can take the rest of the stream. -/
def Sys.Settled (cfg : Config) (st : Sys) (ops : List ChildOp) (s : Stream) : Prop :=
  st.held s + outputLen s ops ≤ cfg.capacity

/-- What the parent relies on in each of its phases. -/
def Sys.Ready (cfg : Config) (st : Sys) (ops : List ChildOp) : Prop :=
  match st.phase with
  | .writing left =>
    0 < left ∧ Fits cfg ops (st.inPipe + left) st.held ∧ ∀ s, (st.gb s).len = 0
  | .draining _ .stdout => st.Due cfg ops .stdout ∧ st.Due cfg ops .stderr
  | .draining _ .stderr => st.Settled cfg ops .stdout ∧ st.Due cfg ops .stderr
  | .waiting => st.Settled cfg ops .stdout ∧ st.Settled cfg ops .stderr
  | .done => True

theorem Sys.Settled.due {cfg : Config} {st : Sys} {ops : List ChildOp} {s : Stream}
    (h : st.Settled cfg ops s) : st.Due cfg ops s := by
  unfold Sys.Settled at h
  unfold Sys.Due
  omega

-- A step of the child keeps what the parent relies on if it keeps `Fits` and adds to no pipe a byte
-- that was not to come.
theorem Sys.Ready.child {cfg : Config} {st st' : Sys} {ops ops' : List ChildOp}
    (h : st.Ready cfg ops) (hphase : st'.phase = st.phase) (hgb : st'.gb = st.gb)
    (hfits : ∀ left, Fits cfg ops (st.inPipe + left) st.held →
      st.phase = .writing left → Fits cfg ops' (st'.inPipe + left) st'.held)
    (hsum : ∀ s x, st'.held s - x + outputLen s ops' ≤ st.held s - x + outputLen s ops) :
    st'.Ready cfg ops' := by
  have hdue : ∀ s, st.Due cfg ops s → st'.Due cfg ops' s := by
    intro s hdue
    unfold Sys.Due at hdue ⊢
    rw [hgb]
    exact Nat.le_trans (hsum s _) hdue
  have hsettled : ∀ s, st.Settled cfg ops s → st'.Settled cfg ops' s := by
    intro s hsettled
    exact Nat.le_trans (hsum s 0) hsettled
  unfold Sys.Ready at h ⊢
  rw [hphase]
  cases hst : st.phase with
  | writing left =>
    simp only [hst] at h
    dsimp only
    rw [hgb]
    exact ⟨h.1, hfits left h.2.1 hst, h.2.2⟩
  | draining final s =>
    cases s with
    | stdout =>
      simp only [hst] at h
      exact ⟨hdue _ h.1, hdue _ h.2⟩
    | stderr =>
      simp only [hst] at h
      exact ⟨hsettled _ h.1, hdue _ h.2⟩
  | waiting =>
    simp only [hst] at h
    exact ⟨hsettled _ h.1, hsettled _ h.2⟩
  | done => trivial

theorem Sys.Ready.childWrite {cfg : Config} {st : Sys} {s : Stream} {bytes : List UInt8}
    {ops : List ChildOp} {j : Nat} (h : st.Ready cfg (.write s bytes :: ops))
    (hj : j ≤ bytes.length) :
    Sys.Ready cfg { st with
      child := some (.write s (bytes.drop j) :: ops)
      pipe := Function.update st.pipe s (st.pipe s ++ bytes.take j) }
      (.write s (bytes.drop j) :: ops) := by
  have hheld : Sys.held { st with
      child := some (.write s (bytes.drop j) :: ops)
      pipe := Function.update st.pipe s (st.pipe s ++ bytes.take j) } =
      Function.update st.held s (st.held s + j) := by
    funext s'
    unfold Sys.held
    by_cases hs : s' = s
    · subst hs
      simp only [Function.update_self, List.length_append, List.length_take]
      omega
    · simp only [Function.update_of_ne hs]
  refine h.child (by rfl) (by rfl) ?_ ?_
  · intro left hfits _
    rw [hheld]
    exact hfits.part hj
  · intro s' x
    have hpart := outputLen_part st.held ops s s' hj
    rw [hheld]
    have hle : st.held s' ≤ Function.update st.held s (st.held s + j) s' := by
      by_cases hs : s' = s
      · subst hs
        rw [Function.update_self]
        omega
      · rw [Function.update_of_ne hs]
    omega

theorem Sys.Ready.childWritten {cfg : Config} {st : Sys} {s : Stream} {ops : List ChildOp}
    (h : st.Ready cfg (.write s [] :: ops)) : Sys.Ready cfg { st with child := some ops } ops := by
  refine h.child (by rfl) (by rfl) ?_ ?_
  · intro left hfits _
    exact hfits.written
  · intro s' x
    rw [outputLen_write]
    exact Nat.add_le_add_left (Nat.le_add_left _ _) _

theorem Sys.Ready.childRead {cfg : Config} {st : Sys} {n k : Nat} {ops : List ChildOp}
    (h : st.Ready cfg (.read n :: ops)) (hroom : st.inPipe ≤ cfg.capacity) (hn : k ≤ n)
    (hk : k ≤ st.inPipe) (hpos : 0 < n → 0 < k) :
    Sys.Ready cfg { st with child := some ops, inPipe := st.inPipe - k } ops := by
  refine h.child (by rfl) (by rfl) ?_ ?_
  · intro left hfits _
    have hread := hfits.read hn (Nat.le_trans hk hroom) hpos
    rw [show st.inPipe + left - k = st.inPipe - k + left by omega] at hread
    exact hread
  · intro s' x
    exact Nat.le_refl _

theorem Sys.Ready.childEof {cfg : Config} {st : Sys} {n : Nat} {ops : List ChildOp}
    (h : st.Ready cfg (.read n :: ops)) (hphase : ∀ left, st.phase ≠ .writing left) :
    Sys.Ready cfg { st with child := some ops } ops := by
  refine h.child (by rfl) (by rfl) ?_ ?_
  · intro left _ hwriting
    exact absurd hwriting (hphase left)
  · intro s' x
    exact Nat.le_refl _

theorem Sys.Ready.parentWrite {cfg : Config} {st : Sys} {left j : Nat} {ops : List ChildOp}
    (h : st.Ready cfg ops) (hphase : st.phase = .writing left) (hj : j ≤ left)
    (hroom : st.inPipe + j ≤ cfg.capacity) :
    Sys.Ready cfg { st with inPipe := st.inPipe + j, phase := .afterWrite (left - j) } ops := by
  unfold Sys.Ready at h
  simp only [hphase] at h
  obtain ⟨hleft, hfits, hlen⟩ := h
  by_cases hdone : left - j = 0
  · -- the input is written, and what is unread of it fits the pipe
    have hall : st.inPipe + left = st.inPipe + j := by omega
    rw [hall, fits_small hroom] at hfits
    have hdue : ∀ s, Sys.Due cfg { st with inPipe := st.inPipe + j, phase := .afterWrite 0 } ops s := by
      intro s
      show st.held s - (cfg.maxBuffer + 1 - (st.gb s).len) + outputLen s ops ≤ cfg.capacity
      rw [hlen s]
      exact hfits s
    rw [hdone]
    exact ⟨hdue .stdout, hdue .stderr⟩
  · unfold Sys.Ready Phase.afterWrite
    simp only [if_neg hdone]
    refine ⟨Nat.pos_of_ne_zero hdone, ?_, hlen⟩
    rw [show st.inPipe + j + (left - j) = st.inPipe + left by omega]
    exact hfits

-- At the end of a drain the pipe is empty, or the drain has dropped a chunk.
theorem Sys.Ready.drained {cfg : Config} {st : Sys} {final : Bool} {s : Stream} {ops : List ChildOp}
    (h : st.Ready cfg ops) (hphase : st.phase = .draining final s) {st' : Sys}
    (hsettled : st.Due cfg ops s → st'.Settled cfg ops s) (hphase' : st'.phase = .after final s)
    (hother : ∀ s', s' ≠ s → st'.held s' = st.held s' ∧ st'.gb s' = st.gb s') :
    st'.Ready cfg ops := by
  unfold Sys.Ready at h ⊢
  cases s with
  | stdout =>
    simp only [hphase] at h
    obtain ⟨hheld, hgb⟩ := hother .stderr (by decide)
    rw [hphase']
    refine ⟨hsettled h.1, ?_⟩
    unfold Sys.Due
    rw [hheld, hgb]
    exact h.2
  | stderr =>
    simp only [hphase] at h
    have hheld := (hother .stdout (by decide)).1
    have hout : st'.Settled cfg ops .stdout := by
      unfold Sys.Settled
      rw [hheld]
      exact h.1
    rw [hphase']
    cases final with
    | false => exact ⟨hout, hsettled h.2⟩
    | true => trivial

theorem Sys.Ready.parentRead {cfg : Config} {st : Sys} {final : Bool} {s : Stream} {gb : GrowBuf}
    {more : Bool} {n : Nat} {ops : List ChildOp} (h : st.Ready cfg ops) (hbuf : st.Buffered cfg)
    (hphase : st.phase = .draining final s) (hpos : 0 < n) (hn : n ≤ (st.pipe s).length)
    (hread : readChunk cfg (st.gb s) ((st.pipe s).take n) = some (gb, more)) :
    Sys.Ready cfg { st with
      pipe := Function.update st.pipe s ((st.pipe s).drop n)
      gb := Function.update st.gb s gb
      reads := Function.update st.reads s (st.reads s ++ [((st.pipe s).take n, more)])
      phase := if more then st.phase else .after final s } ops := by
  obtain ⟨-, hbound, hmore, hkept, hdropped⟩ := hbuf.read hread
  have htake : ((st.pipe s).take n).length = n := by
    rw [List.length_take]
    omega
  rw [htake] at hmore hkept
  have hheld : (st.pipe s).length = st.held s := rfl
  cases more with
  | false =>
    have hfull : cfg.maxBuffer < (st.gb s).len + n := by
      have hnot := of_decide_eq_false hmore.symm
      omega
    apply h.drained hphase
    · intro hdue
      unfold Sys.Due at hdue
      show (Function.update st.pipe s ((st.pipe s).drop n) s).length + outputLen s ops ≤ cfg.capacity
      rw [Function.update_self, List.length_drop]
      omega
    · rfl
    · intro s' hs
      refine ⟨?_, ?_⟩
      · show (Function.update st.pipe s ((st.pipe s).drop n) s').length = _
        rw [Function.update_of_ne hs]
        rfl
      · exact Function.update_of_ne hs _ _
  | true =>
    -- the drain goes on: what it still may keep shrinks with the pipe
    have hlen := hkept rfl
    unfold Sys.Ready at h ⊢
    simp only [hphase, if_true] at h ⊢
    cases s with
    | stdout =>
      refine ⟨?_, h.2⟩
      have hdue := h.1
      unfold Sys.Due at hdue
      show (Function.update st.pipe .stdout ((st.pipe .stdout).drop n) .stdout).length -
        (cfg.maxBuffer + 1 - (Function.update st.gb .stdout gb .stdout).len) + outputLen .stdout ops ≤
          cfg.capacity
      rw [Function.update_self, Function.update_self, List.length_drop]
      omega
    | stderr =>
      refine ⟨h.1, ?_⟩
      have hdue := h.2
      unfold Sys.Due at hdue
      show (Function.update st.pipe .stderr ((st.pipe .stderr).drop n) .stderr).length -
        (cfg.maxBuffer + 1 - (Function.update st.gb .stderr gb .stderr).len) + outputLen .stderr ops ≤
          cfg.capacity
      rw [Function.update_self, Function.update_self, List.length_drop]
      omega

/-- What the parent relies on, as long as the child has not exited. -/
def Sys.Safe (cfg : Config) (st : Sys) : Prop := ∀ ops, st.child = some ops → st.Ready cfg ops

theorem Sys.Safe.step {cfg : Config} {st st' : Sys} (h : st.Safe cfg) (hbuf : st.Buffered cfg)
    (hstep : Step cfg st st') : st'.Safe cfg := by
  intro ops hops
  cases hstep with
  | childWrite j hchild hpos hle hroom =>
    obtain rfl := Option.some.inj hops
    exact (h _ hchild).childWrite hle
  | childWritten hchild =>
    obtain rfl := Option.some.inj hops
    exact (h _ hchild).childWritten
  | childRead k hchild hn hk hpos =>
    obtain rfl := Option.some.inj hops
    exact (h _ hchild).childRead hbuf.inPipe hn hk hpos
  | childEof hchild hempty hphase =>
    obtain rfl := Option.some.inj hops
    exact (h _ hchild).childEof hphase
  | childExit hchild => cases hops
  | parentWrite j hphase hchild hpos hle hroom => exact (h _ hops).parentWrite hphase hle hroom
  | parentWriteFails hphase hchild => exact absurd (hchild.symm.trans hops) (by simp)
  | parentRead n hphase hpos hmax hle hread => exact (h _ hops).parentRead hbuf hphase hpos hle hread
  | @parentReadEmpty final s hphase hempty =>
    apply (h _ hops).drained hphase
    · intro hdue
      unfold Sys.Due Sys.held at hdue
      show (st.pipe s).length + outputLen s ops ≤ cfg.capacity
      rw [hempty, List.length_nil] at hdue ⊢
      omega
    · rfl
    · exact fun _ _ ↦ ⟨rfl, rfl⟩
  | parentReaped hphase hchild => exact absurd (hchild.symm.trans hops) (by simp)
  | parentInterrupted hphase =>
    have hready := h _ hops
    unfold Sys.Ready at hready ⊢
    simp only [hphase] at hready
    exact ⟨hready.1.due, hready.2.due⟩

-- A child that is blocked in a write still has that output to come.
theorem outputLen_pos (s : Stream) {bytes : List UInt8} (ops : List ChildOp) (h : bytes ≠ []) :
    0 < outputLen s (.write s bytes :: ops) := by
  have hpos : 0 < bytes.length := List.length_pos_iff.mpr h
  rw [outputLen_write, if_pos rfl]
  omega

-- A parent that can rely on its child is not blocked together with it.
theorem Sys.Safe.not_deadlocked {cfg : Config} {st : Sys} (h : st.Safe cfg) : ¬ Deadlocked cfg st := by
  rintro ⟨⟨hchild, hparent⟩, hblocked⟩
  unfold ChildBlocked at hblocked
  have hpos := cfg.capacity_pos
  split at hblocked
  case h_1 s bytes ops hops =>
    obtain ⟨hbytes, hfull⟩ := hblocked
    have hready := h _ hops
    have hrest := outputLen_pos s ops hbytes
    unfold Sys.Ready at hready
    rcases hparent with hwait | ⟨⟨left, hwriting⟩, hin⟩
    · simp only [hwait] at hready
      unfold Sys.Settled Sys.held at hready
      cases s with
      | stdout => omega
      | stderr => omega
    · -- the input does not fit, so the output has to
      simp only [hwriting, hin] at hready
      obtain ⟨hleft, hfits, -⟩ := hready
      rw [Fits, if_neg (by omega)] at hfits
      have hroom := hfits.1
      have hlen := List.length_pos_iff.mpr hbytes
      unfold Sys.held at hroom
      omega
  case h_2 n ops hops =>
    obtain ⟨-, hempty, left, hwriting⟩ := hblocked
    rcases hparent with hwait | ⟨-, hin⟩
    · exact absurd (hwait.symm.trans hwriting) (by simp)
    · omega
  case h_3 => exact hblocked

theorem Sys.Safe.start {cfg : Config} {ops : List ChildOp} {input : Nat}
    (h : Fits cfg ops input fun _ ↦ 0) : (Sys.start ops input).Safe cfg := by
  intro ops' hops
  obtain rfl := Option.some.inj hops
  by_cases hinput : input = 0
  · subst hinput
    rw [fits_small (Nat.zero_le _)] at h
    exact ⟨h .stdout, h .stderr⟩
  · unfold Sys.Ready
    have hphase : (Sys.start ops input).phase = .writing input := if_neg hinput
    simp only [hphase]
    refine ⟨Nat.pos_of_ne_zero hinput, ?_, fun _ ↦ rfl⟩
    show Fits cfg ops (0 + input) fun _ ↦ 0
    rw [Nat.zero_add]
    exact h

-- A child whose output fits never gets stuck together with the parent.
theorem Reaches.not_deadlocked {cfg : Config} {ops : List ChildOp} {input : Nat} {st : Sys}
    (hreach : Reaches cfg (Sys.start ops input) st) (h : Fits cfg ops input fun _ ↦ 0) :
    ¬ Deadlocked cfg st :=
  (hreach.keeps (fun _ _ hbuf hsafe hstep ↦ Sys.Safe.step hsafe hbuf hstep)
    (Sys.Buffered.start cfg ops input) (Sys.Safe.start h)).2.not_deadlocked

end QNode.ChildProcess.SpawnSync
