import QNode.ChildProcess.Deadlock

/-!
# Runs of spawnSync that end in a deadlock

Wherever the output does not fit, the two processes can be scheduled so that they block each other.
The child is held back until the parent waits, or until it fills the pipe it has to fill.
-/

namespace QNode.ChildProcess.SpawnSync

def CanDeadlock (cfg : Config) (st : Sys) : Prop := ∃ st', Reaches cfg st st' ∧ Deadlocked cfg st'

section

variable {cfg : Config} {st st' : Sys}

theorem CanDeadlock.of_reaches (hreach : Reaches cfg st st') (h : CanDeadlock cfg st') :
    CanDeadlock cfg st := by
  obtain ⟨stuck, hrest, hdead⟩ := h
  exact ⟨stuck, Relation.ReflTransGen.trans hreach hrest, hdead⟩

theorem CanDeadlock.of_step (hstep : Step cfg st st') (h : CanDeadlock cfg st') :
    CanDeadlock cfg st :=
  h.of_reaches (Relation.ReflTransGen.single hstep)

-- An undisturbed write of the child fills the pipe with as much as it takes.
theorem childWrite_reaches {s : Stream} {bytes : List UInt8} {ops : List ChildOp} {j : Nat}
    (hchild : st.child = some (.write s bytes :: ops)) (hj : j ≤ bytes.length)
    (hroom : st.held s + j ≤ cfg.capacity) :
    ∃ st', Reaches cfg st st' ∧ st'.child = some (.write s (bytes.drop j) :: ops) ∧
      st'.held = Function.update st.held s (st.held s + j) ∧ st'.phase = st.phase ∧
      st'.inPipe = st.inPipe ∧ st'.gb = st.gb := by
  by_cases hzero : j = 0
  · subst hzero
    refine ⟨st, .refl, ?_, ?_, rfl, rfl, rfl⟩
    · rw [List.drop_zero]
      exact hchild
    · rw [Nat.add_zero, Function.update_eq_self]
  · refine ⟨_, .single (.childWrite j hchild (Nat.pos_of_ne_zero hzero) hj hroom), rfl, ?_, rfl, rfl, rfl⟩
    funext s'
    by_cases hs : s' = s
    · subst hs
      show (Function.update st.pipe s' (st.pipe s' ++ bytes.take j) s').length = _
      rw [Function.update_self, Function.update_self, List.length_append, List.length_take,
        Nat.min_eq_left hj]
      rfl
    · show (Function.update st.pipe s (st.pipe s ++ bytes.take j) s').length = _
      rw [Function.update_of_ne hs, Function.update_of_ne hs]
      rfl

-- A write that fits is carried out.
theorem childWritten_reaches {s : Stream} {bytes : List UInt8} {ops : List ChildOp}
    (hchild : st.child = some (.write s bytes :: ops))
    (hroom : st.held s + bytes.length ≤ cfg.capacity) :
    ∃ st', Reaches cfg st st' ∧ st'.child = some ops ∧
      st'.held = Function.update st.held s (st.held s + bytes.length) ∧ st'.phase = st.phase ∧
      st'.inPipe = st.inPipe ∧ st'.gb = st.gb := by
  obtain ⟨st', hreach, hchild', hheld, hphase, hin, hgb⟩ :=
    childWrite_reaches hchild (Nat.le_refl _) hroom
  rw [List.drop_length] at hchild'
  exact ⟨{ st' with child := some ops }, hreach.tail (.childWritten hchild'), rfl, hheld, hphase,
    hin, hgb⟩

-- A write that does not fit leaves the child with a full pipe and a rest to write.
theorem childWrite_fills {s : Stream} {bytes : List UInt8} {ops : List ChildOp}
    (hbuf : st.Buffered cfg) (hchild : st.child = some (.write s bytes :: ops))
    (hroom : cfg.capacity < st.held s + bytes.length) :
    ∃ st' rest, Reaches cfg st st' ∧ st'.child = some (.write s rest :: ops) ∧ rest ≠ [] ∧
      st'.held s = cfg.capacity ∧ st'.phase = st.phase ∧ st'.inPipe = st.inPipe := by
  have hle : st.held s ≤ cfg.capacity := hbuf.pipe s
  have hfill : st.held s + (cfg.capacity - st.held s) ≤ cfg.capacity := by omega
  obtain ⟨st', hreach, hchild', hheld, hphase, hin, -⟩ :=
    childWrite_reaches hchild (by omega) hfill
  refine ⟨st', _, hreach, hchild', ?_, ?_, hphase, hin⟩
  · apply List.ne_nil_of_length_pos
    rw [List.length_drop]
    omega
  · rw [hheld, Function.update_self]
    omega

theorem deadlocked_write {s : Stream} {rest : List UInt8} {ops : List ChildOp}
    (hchild : st.child = some (.write s rest :: ops)) (hrest : rest ≠ [])
    (hfull : st.held s = cfg.capacity)
    (hphase : st.phase = .waiting ∨ ((∃ left, st.phase = .writing left) ∧ st.inPipe = cfg.capacity)) :
    Deadlocked cfg st := by
  refine ⟨⟨?_, hphase⟩, ?_⟩
  · rw [hchild]
    exact Option.some_ne_none _
  · unfold ChildBlocked
    simp only [hchild]
    exact ⟨hrest, hfull⟩

-- While the parent waits, a child whose output does not fit comes to a write that blocks.
theorem waiting_deadlocks {ops : List ChildOp} (hbuf : st.Buffered cfg)
    (hphase : st.phase = .waiting) (hchild : st.child = some ops) {s : Stream}
    (h : ¬ st.Settled cfg ops s) : CanDeadlock cfg st := by
  induction ops generalizing st with
  | nil =>
    have hle : st.held s ≤ cfg.capacity := hbuf.pipe s
    exact absurd (show st.held s + 0 ≤ cfg.capacity from hle) h
  | cons op ops ih =>
    cases op with
    | write s' bytes =>
      by_cases hroom : st.held s' + bytes.length ≤ cfg.capacity
      · obtain ⟨st', hreach, hchild', hheld, hphase', -, -⟩ := childWritten_reaches hchild hroom
        refine (ih (hbuf.reaches hreach) (hphase'.trans hphase) hchild' ?_).of_reaches hreach
        have hsum := outputLen_part st.held ops s' s (Nat.le_refl bytes.length)
        rw [← hheld, List.drop_length, outputLen_write, List.length_nil] at hsum
        unfold Sys.Settled at h ⊢
        split at hsum <;> omega
      · obtain ⟨st', rest, hreach, hchild', hrest, hfull, hphase', -⟩ :=
          childWrite_fills hbuf hchild (Nat.lt_of_not_le hroom)
        exact ⟨st', hreach, deadlocked_write hchild' hrest hfull (.inl (hphase'.trans hphase))⟩
    | read n =>
      by_cases hempty : st.inPipe = 0
      · have hstep : Step cfg st { st with child := some ops } := by
          apply Step.childEof hchild hempty
          intro left hwriting
          exact absurd (hphase.symm.trans hwriting) (by simp)
        exact (ih (hbuf.step hstep) hphase rfl h).of_step hstep
      · have hstep : Step cfg st { st with child := some ops, inPipe := st.inPipe - min n st.inPipe } :=
          .childRead (min n st.inPipe) hchild (Nat.min_le_left _ _) (Nat.min_le_right _ _) (by omega)
        exact (ih (hbuf.step hstep) hphase rfl h).of_step hstep

-- Reading byte by byte, a drain stops at the first byte beyond the limit.
theorem drain_reaches {final : Bool} {s : Stream} (hbuf : st.Buffered cfg)
    (hphase : st.phase = .draining final s) :
    ∃ st', Reaches cfg st st' ∧ st'.phase = .after final s ∧ st'.child = st.child ∧
      st'.held s = st.held s - (cfg.maxBuffer + 1 - (st.gb s).len) ∧
      ∀ s', s' ≠ s → st'.held s' = st.held s' ∧ st'.gb s' = st.gb s' := by
  induction hlen : st.held s generalizing st with
  | zero =>
    have hempty : st.pipe s = [] := List.length_eq_zero_iff.mp hlen
    refine ⟨_, .single (.parentReadEmpty hphase hempty), rfl, rfl, ?_, fun _ _ ↦ ⟨rfl, rfl⟩⟩
    show st.held s = _
    omega
  | succ m ih =>
    have hone : ((st.pipe s).take 1).length = 1 := by
      rw [List.length_take]
      unfold Sys.held at hlen
      omega
    have hin : 1 ≤ (st.pipe s).length := by
      unfold Sys.held at hlen
      omega
    have hrest : (Function.update st.pipe s ((st.pipe s).drop 1) s).length = m := by
      unfold Sys.held at hlen
      rw [Function.update_self, List.length_drop]
      omega
    have hbound := hbuf.bound s
    by_cases hfit : (st.gb s).len + ((st.pipe s).take 1).length ≤ cfg.maxBuffer
    · -- the byte is kept, and the drain goes on
      obtain ⟨gb, hread, -, hgb⟩ := readChunk_kept (hbuf.exact s) hfit
      have hstep := Step.parentRead 1 hphase (by decide) (by decide) hin hread
      rw [hone] at hgb hfit
      obtain ⟨st', hreach, hphase', hchild', hheld, hother⟩ := ih (hbuf.step hstep) hphase hrest
      refine ⟨st', .head hstep hreach, hphase', hchild', ?_, ?_⟩
      · rw [hheld]
        show m - (cfg.maxBuffer + 1 - (Function.update st.gb s gb s).len) = _
        rw [Function.update_self]
        omega
      · intro s' hs
        obtain ⟨hheld', hgb'⟩ := hother s' hs
        refine ⟨hheld'.trans ?_, hgb'.trans (Function.update_of_ne hs _ _)⟩
        show (Function.update st.pipe s _ s').length = _
        rw [Function.update_of_ne hs]
        rfl
    · have hread : readChunk cfg (st.gb s) ((st.pipe s).take 1) = _ :=
        readChunk_dropped (Nat.lt_of_not_le hfit)
      rw [hone] at hfit
      refine ⟨_, .single (.parentRead 1 hphase (by decide) (by decide) hin hread), rfl, rfl, ?_, ?_⟩
      · show (Function.update st.pipe s ((st.pipe s).drop 1) s).length = _
        omega
      · intro s' hs
        refine ⟨?_, Function.update_of_ne hs _ _⟩
        show (Function.update st.pipe s _ s').length = _
        rw [Function.update_of_ne hs]
        rfl

-- A child held back during the first drain is left with more output than the pipes take.
theorem draining_deadlocks {ops : List ChildOp} (hbuf : st.Buffered cfg)
    (hphase : st.phase = .draining false .stdout) (hchild : st.child = some ops)
    (hgb : ∀ s, (st.gb s).len = 0) (h : ¬ Absorbed cfg ops st.held) : CanDeadlock cfg st := by
  obtain ⟨mid, hreach, hphase', hchild', hout, hother⟩ := drain_reaches hbuf hphase
  have hbuf' := hbuf.reaches hreach
  obtain ⟨last, hreach', hphase'', hchild'', herr, hother'⟩ := drain_reaches hbuf' hphase'
  obtain ⟨herr', hgberr⟩ := hother .stderr (by decide)
  obtain ⟨hout', -⟩ := hother' .stdout (by decide)
  obtain ⟨s, hs⟩ := not_forall.mp h
  have hsettled : ¬ last.Settled cfg ops s := by
    unfold Sys.Settled
    cases s with
    | stdout =>
      rw [hout', hout, hgb]
      omega
    | stderr =>
      rw [herr, herr', hgberr, hgb]
      omega
  have hlast := waiting_deadlocks (hbuf'.reaches hreach') hphase'' ((hchild''.trans hchild').trans hchild)
    hsettled
  exact (hlast.of_reaches hreach').of_reaches hreach

-- A parent whose remaining input fits the pipe writes it at once and goes on to the drain.
theorem writing_small_deadlocks {ops : List ChildOp} {left : Nat} (hbuf : st.Buffered cfg)
    (hphase : st.phase = .writing left) (hleft : 0 < left) (hchild : st.child = some ops)
    (hin : st.inPipe = 0) (hgb : ∀ s, (st.gb s).len = 0) (hsmall : left ≤ cfg.capacity)
    (h : ¬ Fits cfg ops left st.held) : CanDeadlock cfg st := by
  have halive : st.child ≠ none := by
    rw [hchild]
    exact Option.some_ne_none _
  have hroom : st.inPipe + left ≤ cfg.capacity := by omega
  have hstep := Step.parentWrite left hphase halive hleft (Nat.le_refl _) hroom
  rw [Nat.sub_self] at hstep
  rw [fits_small hsmall] at h
  exact (draining_deadlocks (hbuf.step hstep) rfl hchild hgb h).of_step hstep

-- A child that blocks in a write while the input does not fit its pipe blocks the parent too.
theorem writing_blocks {s : Stream} {bytes : List UInt8} {ops : List ChildOp} {left : Nat}
    (hbuf : st.Buffered cfg) (hphase : st.phase = .writing left)
    (hchild : st.child = some (.write s bytes :: ops)) (hin : st.inPipe = 0)
    (hlarge : cfg.capacity < left) (hroom : cfg.capacity < st.held s + bytes.length) :
    CanDeadlock cfg st := by
  obtain ⟨st', rest, hreach, hchild', hrest, hfull, hphase', hin'⟩ :=
    childWrite_fills hbuf hchild hroom
  have halive : st'.child ≠ none := by
    rw [hchild']
    exact Option.some_ne_none _
  have hempty : st'.inPipe + cfg.capacity = cfg.capacity := by omega
  have hstep := Step.parentWrite cfg.capacity (hphase'.trans hphase) halive cfg.capacity_pos
    (Nat.le_of_lt hlarge) (Nat.le_of_eq hempty)
  have hmore : left - cfg.capacity ≠ 0 := by omega
  exact ⟨_, hreach.tail hstep,
    deadlocked_write hchild' hrest hfull (.inr ⟨⟨left - cfg.capacity, if_neg hmore⟩, hempty⟩)⟩

-- While it writes, the parent hands the child just what its next read takes.
theorem writing_deadlocks {ops : List ChildOp} {left : Nat} (hbuf : st.Buffered cfg)
    (hphase : st.phase = .writing left) (hleft : 0 < left) (hchild : st.child = some ops)
    (hin : st.inPipe = 0) (hgb : ∀ s, (st.gb s).len = 0) (h : ¬ Fits cfg ops left st.held) :
    CanDeadlock cfg st := by
  induction ops generalizing st left with
  | nil =>
    by_cases hsmall : left ≤ cfg.capacity
    · exact writing_small_deadlocks hbuf hphase hleft hchild hin hgb hsmall h
    · exact absurd (fun hle ↦ absurd hle hsmall) h
  | cons op ops ih =>
    by_cases hsmall : left ≤ cfg.capacity
    · exact writing_small_deadlocks hbuf hphase hleft hchild hin hgb hsmall h
    have hlarge := Nat.lt_of_not_le hsmall
    cases op with
    | write s bytes =>
      rw [Fits, if_neg hsmall] at h
      by_cases hroom : st.held s + bytes.length ≤ cfg.capacity
      · obtain ⟨st', hreach, hchild', hheld, hphase', hin', hgb'⟩ :=
          childWritten_reaches hchild hroom
        refine (ih (hbuf.reaches hreach) (hphase'.trans hphase) hleft hchild' (hin'.trans hin) ?_
          ?_).of_reaches hreach
        · rw [hgb']
          exact hgb
        · rw [hheld]
          exact fun hfits ↦ h ⟨hroom, hfits⟩
      · exact writing_blocks hbuf hphase hchild hin hlarge (Nat.lt_of_not_le hroom)
    | read n =>
      rw [Fits, if_neg hsmall] at h
      have hneg : ∃ k, k ≤ n ∧ k ≤ cfg.capacity ∧ (0 < n → 0 < k) ∧
          ¬ Fits cfg ops (left - k) st.held := by
        by_contra hnone
        refine h fun k hn hk hpos ↦ ?_
        by_contra hfits
        exact hnone ⟨k, hn, hk, hpos, hfits⟩
      obtain ⟨k, hn, hk, hpos, hfits⟩ := hneg
      by_cases hzero : k = 0
      · subst hzero
        have hstep : Step cfg st _ := .childRead 0 hchild hn (Nat.zero_le _) hpos
        exact (ih (hbuf.step hstep) hphase hleft rfl hin hgb hfits).of_step hstep
      · have halive : st.child ≠ none := by
          rw [hchild]
          exact Option.some_ne_none _
        have hroom : st.inPipe + k ≤ cfg.capacity := by omega
        have hrest : left - k ≠ 0 := by omega
        have hwrite := Step.parentWrite k hphase halive (Nat.pos_of_ne_zero hzero) (by omega) hroom
        have hread : Step cfg { st with inPipe := st.inPipe + k, phase := .afterWrite (left - k) } _ :=
          .childRead k hchild hn (Nat.le_add_left _ _) hpos
        have hempty : st.inPipe + k - k = 0 := by omega
        have hnext := ih ((hbuf.step hwrite).step hread) (if_neg hrest) (Nat.pos_of_ne_zero hrest)
          rfl hempty hgb hfits
        exact (hnext.of_step hread).of_step hwrite

end

/-- No run of spawnSync comes to a deadlock precisely if the output fits the pipes. -/
theorem spawnSync_never_deadlocks_iff (cfg : Config) (ops : List ChildOp) (input : Nat) :
    (∀ st, Reaches cfg (Sys.start ops input) st → ¬ Deadlocked cfg st) ↔
      Fits cfg ops input fun _ ↦ 0 := by
  constructor
  · intro hnever
    by_contra hfits
    have hcan : CanDeadlock cfg (Sys.start ops input) := by
      by_cases hinput : input = 0
      · subst hinput
        rw [fits_small (Nat.zero_le _)] at hfits
        exact draining_deadlocks (Sys.Buffered.start cfg ops 0) rfl rfl (fun _ ↦ rfl) hfits
      · exact writing_deadlocks (Sys.Buffered.start cfg ops input) (if_neg hinput)
          (Nat.pos_of_ne_zero hinput) rfl rfl (fun _ ↦ rfl) hfits
    obtain ⟨st, hreach, hdead⟩ := hcan
    exact hnever st hreach hdead
  · intro hfits st hreach
    exact hreach.not_deadlocked hfits

/-- A pipe of 65536 bytes and the default `maxBuffer`. -/
def defaultConfig : Config where
  capacity := 65536
  maxBuffer := 1024 * 1024
  capacity_pos := by decide
  maxBuffer_lt := by decide

/-- Without input, one byte more than the pipe takes is enough. -/
theorem spawnSync_deadlocks :
    ∃ st, Reaches defaultConfig (Sys.start [.write .stdout (List.replicate 65537 0)] 0) st ∧
      Deadlocked defaultConfig st := by
  have hbuf := Sys.Buffered.start defaultConfig [.write .stdout (List.replicate 65537 0)] 0
  apply draining_deadlocks hbuf rfl rfl (fun _ ↦ rfl)
  intro habsorbed
  have hout := habsorbed .stdout
  rw [outputLen_write, if_pos rfl, List.length_replicate] at hout
  simp only [defaultConfig] at hout
  omega

end QNode.ChildProcess.SpawnSync
