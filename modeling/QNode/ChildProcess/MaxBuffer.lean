import QNode.ChildProcess.SpawnSync

/-!
# What spawnSync returns of a stream

A chunk that would exceed `maxBuffer` is read and thrown away, and the next drain starts over.  The
result is a prefix of the stream precisely if no later chunk fits where an earlier one did not.
-/

open Chunks

namespace QNode.ChildProcess.SpawnSync

/-- Everything a child writes to a stream. -/
def output (s : Stream) : List ChildOp → List UInt8
  | [] => []
  | .write s' bytes :: ops => (if s' = s then bytes else []) ++ output s ops
  | .read _ :: ops => output s ops

/-- The bytes spawnSync hands to the engine. -/
def returned (st : Sys) (s : Stream) : List UInt8 := ((st.gb s).data.getD []).take (st.gb s).len

/-- The result for a stream: a prefix within the limit, the whole of a stream that is within the
limit, and nothing from after a chunk that was dropped. -/
structure StreamKept (cfg : Config) (st : Sys) (s : Stream) (stream : List UInt8) : Prop where
  isPrefix : returned st s <+: stream
  within : (returned st s).length ≤ cfg.maxBuffer
  whole : stream.length ≤ cfg.maxBuffer → returned st s = stream
  noHole : Closed (st.reads s)

/-- What the child has still to write to a stream. -/
def Sys.toCome (st : Sys) (s : Stream) : List UInt8 := output s (st.child.getD [])

/-- No byte is lost or duplicated on its way: what was read, what is in the pipe and what is to come
make up the stream, and every chunk that fits is kept. -/
structure Sys.Conserves (cfg : Config) (stream : Stream → List UInt8) (st : Sys) : Prop where
  total : ∀ s, all (st.reads s) ++ st.pipe s ++ st.toCome s = stream s
  greedy : ∀ s, Greedy cfg.maxBuffer 0 (st.reads s)

/-- The last drain of a stream took everything, or dropped a chunk. -/
def Sys.Exhausted (st : Sys) (s : Stream) : Prop :=
  st.pipe s = [] ∨ ∃ chunk, (chunk, false) ∈ st.reads s

theorem Sys.Exhausted.congr {st st' : Sys} {s : Stream} (h : st.Exhausted s)
    (hpipe : st'.pipe s = st.pipe s) (hreads : st'.reads s = st.reads s) : st'.Exhausted s := by
  unfold Sys.Exhausted
  rw [hpipe, hreads]
  exact h

/-- Once the child is reaped, nothing comes any more. -/
def Sys.Final (st : Sys) : Prop :=
  match st.phase with
  | .draining true .stdout => st.child = none
  | .draining true .stderr => st.child = none ∧ st.Exhausted .stdout
  | .done => st.child = none ∧ st.Exhausted .stdout ∧ st.Exhausted .stderr
  | _ => True

section

variable {cfg : Config} {st st' : Sys} {stream : Stream → List UInt8}

theorem Sys.Buffered.returned_eq (h : st.Buffered cfg) (s : Stream) :
    returned st s = kept (st.reads s) := by
  obtain ⟨block, hdata, -, htake⟩ := (h.exact s).block
  rw [returned, hdata, Option.getD_some, htake]

theorem Sys.Conserves.start (cfg : Config) (ops : List ChildOp) (input : Nat) :
    (Sys.start ops input).Conserves cfg fun s ↦ output s ops where
  total _ := rfl
  greedy _ := trivial

-- Part of a write moves bytes from what is to come into the pipe.
theorem output_part (s s' : Stream) (bytes : List UInt8) (ops : List ChildOp) (j : Nat)
    (pipe : Stream → List UInt8) :
    Function.update pipe s (pipe s ++ bytes.take j) s' ++ output s' (.write s (bytes.drop j) :: ops) =
      pipe s' ++ output s' (.write s bytes :: ops) := by
  unfold output
  by_cases hs : s' = s
  · subst hs
    rw [Function.update_self, if_pos rfl, if_pos rfl, List.append_assoc,
      ← List.append_assoc _ _ (output s' ops),
      List.take_append_drop]
  · rw [Function.update_of_ne hs, if_neg fun h ↦ hs h.symm, if_neg fun h ↦ hs h.symm]

-- A chunk moves from the pipe to the history.
theorem Sys.Conserves.read {s : Stream} {gb : GrowBuf} {more : Bool} {n : Nat} {phase : Phase}
    (h : st.Conserves cfg stream) (hbuf : st.Buffered cfg)
    (hread : readChunk cfg (st.gb s) ((st.pipe s).take n) = some (gb, more)) :
    Sys.Conserves cfg stream { st with
      pipe := Function.update st.pipe s ((st.pipe s).drop n)
      gb := Function.update st.gb s gb
      reads := Function.update st.reads s (st.reads s ++ [((st.pipe s).take n, more)])
      phase := phase } := by
  obtain ⟨-, -, hmore, -, -⟩ := hbuf.read hread
  have hlen : (kept (st.reads s)).length = (st.gb s).len := (hbuf.exact s).length_content
  constructor
  · intro s'
    have htotal := h.total s'
    show all (Function.update st.reads s (st.reads s ++ [((st.pipe s).take n, more)]) s') ++
      Function.update st.pipe s ((st.pipe s).drop n) s' ++ st.toCome s' = stream s'
    by_cases hs : s' = s
    · subst hs
      rw [Function.update_self, Function.update_self, all_append, List.append_assoc (all _),
        List.take_append_drop]
      exact htotal
    · rw [Function.update_of_ne hs, Function.update_of_ne hs]
      exact htotal
  · intro s'
    show Greedy cfg.maxBuffer 0
      (Function.update st.reads s (st.reads s ++ [((st.pipe s).take n, more)]) s')
    by_cases hs : s' = s
    · subst hs
      rw [Function.update_self]
      apply (h.greedy s').append
      rw [hmore, hlen, Nat.zero_add]
    · rw [Function.update_of_ne hs]
      exact h.greedy s'

theorem Sys.Conserves.step (h : st.Conserves cfg stream) (hbuf : st.Buffered cfg)
    (hstep : Step cfg st st') : st'.Conserves cfg stream := by
  cases hstep with
  | @childWrite s bytes ops j hchild hpos hle hroom =>
    refine ⟨fun s' ↦ ?_, h.greedy⟩
    have htotal := h.total s'
    unfold Sys.toCome at htotal ⊢
    rw [hchild, Option.getD_some, List.append_assoc] at htotal
    rw [Option.getD_some, List.append_assoc, output_part]
    exact htotal
  | @childWritten s ops hchild =>
    refine ⟨fun s' ↦ ?_, h.greedy⟩
    have htotal := h.total s'
    unfold Sys.toCome at htotal ⊢
    rw [hchild, Option.getD_some, output, ite_self, List.nil_append] at htotal
    exact htotal
  | childRead k hchild hn hk hpos =>
    refine ⟨fun s' ↦ ?_, h.greedy⟩
    have htotal := h.total s'
    unfold Sys.toCome at htotal ⊢
    rw [hchild] at htotal
    exact htotal
  | childEof hchild hempty hphase =>
    refine ⟨fun s' ↦ ?_, h.greedy⟩
    have htotal := h.total s'
    unfold Sys.toCome at htotal ⊢
    rw [hchild] at htotal
    exact htotal
  | childExit hchild =>
    refine ⟨fun s' ↦ ?_, h.greedy⟩
    have htotal := h.total s'
    unfold Sys.toCome at htotal ⊢
    rw [hchild] at htotal
    exact htotal
  | parentRead n hphase hpos hmax hle hread => exact h.read hbuf hread
  | parentWrite | parentWriteFails | parentReadEmpty | parentReaped | parentInterrupted =>
    exact ⟨h.total, h.greedy⟩

-- A drain that comes to its end has exhausted the stream.
theorem Sys.Final.drained {final : Bool} {s : Stream} (h : st.Final)
    (hphase : st.phase = .draining final s) (hphase' : st'.phase = .after final s)
    (hchild : st'.child = st.child) (hself : st'.Exhausted s)
    (hother : ∀ s', s' ≠ s → st'.pipe s' = st.pipe s' ∧ st'.reads s' = st.reads s') : st'.Final := by
  unfold Sys.Final at h ⊢
  cases final with
  | false =>
    rw [hphase']
    cases s <;> trivial
  | true =>
    cases s with
    | stdout =>
      simp only [hphase] at h
      rw [hphase']
      exact ⟨hchild.trans h, hself⟩
    | stderr =>
      simp only [hphase] at h
      obtain ⟨hpipe, hreads⟩ := hother .stdout (by decide)
      rw [hphase']
      exact ⟨hchild.trans h.1, h.2.congr hpipe hreads, hself⟩

-- A child that is still there has not been reaped.
theorem Sys.Final.child {ops : List ChildOp} (h : st.Final) (hchild : st.child = some ops)
    (hphase : st'.phase = st.phase) : st'.Final := by
  have hsome : st.child ≠ none := by
    rw [hchild]
    exact Option.some_ne_none _
  unfold Sys.Final at h ⊢
  rw [hphase]
  split at h
  · exact absurd h hsome
  · exact absurd h.1 hsome
  · exact absurd h.1 hsome
  · trivial

theorem Sys.Final.step (h : st.Final) (hstep : Step cfg st st') :
    st'.Final := by
  cases hstep with
  | childWrite j hchild hpos hle hroom => exact h.child hchild rfl
  | childWritten hchild => exact h.child hchild rfl
  | childRead k hchild hn hk hpos => exact h.child hchild rfl
  | childEof hchild hempty hphase => exact h.child hchild rfl
  | childExit hchild => exact h.child hchild rfl
  | @parentWrite left j hphase hchild hpos hle hroom =>
    unfold Sys.Final Phase.afterWrite
    by_cases hdone : left - j = 0 <;> simp [hdone]
  | parentWriteFails hphase hchild => trivial
  | @parentRead final s gb more n hphase hpos hmax hle hread =>
    have hother : ∀ s', s' ≠ s →
        Function.update st.pipe s ((st.pipe s).drop n) s' = st.pipe s' ∧
          Function.update st.reads s (st.reads s ++ [((st.pipe s).take n, more)]) s' = st.reads s' :=
      fun s' hs ↦ ⟨Function.update_of_ne hs _ _, Function.update_of_ne hs _ _⟩
    cases more with
    | false =>
      refine h.drained hphase (by rfl) (by rfl) (.inr ⟨(st.pipe s).take n, ?_⟩) hother
      show _ ∈ Function.update st.reads s (st.reads s ++ [((st.pipe s).take n, false)]) s
      rw [Function.update_self]
      exact List.mem_append_right _ (List.mem_singleton_self _)
    | true =>
      unfold Sys.Final at h ⊢
      simp only [hphase, if_true] at h ⊢
      cases final with
      | false => cases s <;> trivial
      | true =>
        cases s with
        | stdout => exact h
        | stderr =>
          obtain ⟨hpipe, hreads⟩ := hother .stdout (by decide)
          exact ⟨h.1, h.2.congr hpipe hreads⟩
  | @parentReadEmpty final s hphase hempty =>
    exact h.drained hphase rfl rfl (.inl hempty) fun _ _ ↦ ⟨rfl, rfl⟩
  | parentReaped hphase hchild => exact hchild
  | parentInterrupted hphase => trivial

theorem Sys.Final.start (ops : List ChildOp) (input : Nat) : (Sys.start ops input).Final := by
  unfold Sys.Final Sys.start Phase.afterWrite
  by_cases hinput : input = 0 <;> simp [hinput]

-- What every run keeps of the streams.
theorem Reaches.conserves {ops : List ChildOp} {input : Nat}
    (hreach : Reaches cfg (Sys.start ops input) st) :
    st.Buffered cfg ∧ st.Conserves cfg (fun s ↦ output s ops) ∧ st.Final := by
  have hstart : (Sys.start ops input).Conserves cfg (fun s ↦ output s ops) ∧ (Sys.start ops input).Final :=
    ⟨Sys.Conserves.start cfg ops input, Sys.Final.start ops input⟩
  apply hreach.keeps _ (Sys.Buffered.start cfg ops input) hstart
  intro st st' hbuf h hstep
  exact ⟨h.1.step hbuf hstep, h.2.step hstep⟩

-- At the end the stream is what was read and what a dropped chunk left in the pipe.
theorem Sys.Final.total (h : st.Final) (hconserves : st.Conserves cfg stream)
    (hdone : st.phase = .done) (s : Stream) :
    all (st.reads s) ++ st.pipe s = stream s ∧ st.Exhausted s := by
  unfold Sys.Final at h
  simp only [hdone] at h
  obtain ⟨hchild, hout, herr⟩ := h
  have htotal := hconserves.total s
  rw [Sys.toCome, hchild] at htotal
  refine ⟨(List.append_nil _).symm.trans htotal, ?_⟩
  cases s with
  | stdout => exact hout
  | stderr => exact herr

-- A stream within the limit is returned whole.
theorem Sys.Conserves.whole (h : st.Conserves cfg stream) (hbuf : st.Buffered cfg)
    (hfinal : st.Final) (hdone : st.phase = .done) (s : Stream)
    (hsmall : (stream s).length ≤ cfg.maxBuffer) : returned st s = stream s := by
  obtain ⟨htotal, hexhausted⟩ := hfinal.total h hdone s
  have hlen := congrArg List.length htotal
  rw [List.length_append] at hlen
  obtain ⟨hkept, htrue⟩ := (h.greedy s).keeps_all (by omega)
  rw [hbuf.returned_eq, hkept, ← htotal]
  rcases hexhausted with hempty | ⟨chunk, hdropped⟩
  · rw [hempty, List.append_nil]
  · exact Bool.noConfusion (htrue _ hdropped)

end

section

variable {cfg : Config} {st : Sys}

theorem childWrite_whole (cfg : Config) (st : Sys) {s : Stream} {bytes : List UInt8} {ops : List ChildOp}
    (hchild : st.child = some (.write s bytes :: ops)) (hempty : st.pipe s = []) (hbytes : bytes ≠ [])
    (hroom : bytes.length ≤ cfg.capacity) :
    ∃ st', Reaches cfg st st' ∧ st'.child = some ops ∧ st'.pipe = Function.update st.pipe s bytes ∧
      st'.phase = st.phase ∧ st'.reads = st.reads := by
  have hin : (st.pipe s).length + bytes.length ≤ cfg.capacity := by
    rw [hempty, List.length_nil]
    omega
  have hstep := Step.childWrite bytes.length hchild (List.length_pos_iff.mpr hbytes) (Nat.le_refl _) hin
  rw [List.take_length, List.drop_length, hempty, List.nil_append] at hstep
  exact ⟨_, (Relation.ReflTransGen.single hstep).tail (.childWritten rfl), rfl, rfl, rfl, rfl⟩

-- A drain that gets the content of the pipe in one chunk.
theorem drain_whole {final : Bool} {s : Stream} {chunk : List UInt8} (hbuf : st.Buffered cfg)
    (hphase : st.phase = .draining final s) (hchunk : st.pipe s = chunk) (hpos : chunk ≠ [])
    (hmax : chunk.length ≤ 8192) :
    ∃ st', Reaches cfg st st' ∧ st'.child = st.child ∧ st'.pipe = Function.update st.pipe s [] ∧
      st'.phase = .after final s ∧ st'.reads = Function.update st.reads s (st.reads s ++
        [(chunk, decide ((kept (st.reads s)).length + chunk.length ≤ cfg.maxBuffer))]) := by
  subst hchunk
  have hlen := List.length_pos_iff.mpr hpos
  rw [(hbuf.exact s).length_content]
  by_cases hfit : (st.gb s).len + (st.pipe s).length ≤ cfg.maxBuffer
  · obtain ⟨gb, hread, -⟩ := readChunk_kept (hbuf.exact s) hfit
    rw [← List.take_length (l := st.pipe s)] at hread
    have hstep := Step.parentRead (st.pipe s).length hphase hlen hmax (Nat.le_refl _) hread
    rw [List.take_length, List.drop_length, if_pos rfl] at hstep
    rw [decide_eq_true hfit]
    exact ⟨_, (Relation.ReflTransGen.single hstep).tail
      (.parentReadEmpty hphase (Function.update_self _ _ _)), rfl, rfl, rfl, rfl⟩
  · have hread : readChunk cfg (st.gb s) (st.pipe s) = _ := readChunk_dropped (Nat.lt_of_not_le hfit)
    rw [← List.take_length (l := st.pipe s)] at hread
    have hstep := Step.parentRead (st.pipe s).length hphase hlen hmax (Nat.le_refl _) hread
    rw [List.take_length, List.drop_length, if_neg (by decide)] at hstep
    rw [decide_eq_false hfit]
    exact ⟨_, .single hstep, rfl, rfl, rfl, rfl⟩

end

-- A child writes `a`, which the first drain drops, and `b` while the parent waits.
theorem late_write_run (cfg : Config) {a b : List UInt8} (ha : cfg.maxBuffer < a.length) (hb : b ≠ [])
    (haroom : a.length ≤ min cfg.capacity 8192) (hbroom : b.length ≤ min cfg.capacity 8192) :
    ∃ st, Reaches cfg (Sys.start [.write .stdout a, .write .stdout b] 0) st ∧ st.phase = .done ∧
      st.reads .stdout = [(a, false), (b, decide (b.length ≤ cfg.maxBuffer))] := by
  have hbuf := Sys.Buffered.start cfg [.write .stdout a, .write .stdout b] 0
  have ha' : a ≠ [] := List.ne_nil_of_length_pos (by omega)
  -- the child writes `a`, and the first drain drops it
  obtain ⟨st₁, hreach₁, hchild₁, hpipe₁, hphase₁, hreads₁⟩ :=
    childWrite_whole cfg (Sys.start _ 0) rfl rfl ha' (by omega)
  have hbuf₁ := hbuf.reaches hreach₁
  obtain ⟨st₂, hreach₂, hchild₂, hpipe₂, hphase₂, hreads₂⟩ :=
    drain_whole hbuf₁ hphase₁ (by rw [hpipe₁, Function.update_self]) ha' (by omega)
  have herr₂ : st₂.pipe .stderr = [] := by
    rw [hpipe₂, hpipe₁, Function.update_of_ne (by decide), Function.update_of_ne (by decide)]
    rfl
  have hstep₂ : Step cfg st₂ _ := .parentReadEmpty hphase₂ herr₂
  have hbuf₂ := (hbuf₁.reaches hreach₂).step hstep₂
  -- the child writes `b` and exits while the parent waits
  obtain ⟨st₃, hreach₃, hchild₃, hpipe₃, hphase₃, hreads₃⟩ :=
    childWrite_whole cfg { st₂ with phase := .after false .stderr } (hchild₂.trans hchild₁)
      (by rw [hpipe₂, Function.update_self]) hb (by omega)
  have hstep₃ : Step cfg st₃ _ := .childExit hchild₃
  have hwait : Step cfg { st₃ with child := none } _ := .parentReaped hphase₃ rfl
  have hbuf₃ := ((hbuf₂.reaches hreach₃).step hstep₃).step hwait
  obtain ⟨st₄, hreach₄, hchild₄, hpipe₄, hphase₄, hreads₄⟩ :=
    drain_whole hbuf₃ rfl (by rw [hpipe₃, Function.update_self]) hb (by omega)
  have herr₄ : st₄.pipe .stderr = [] := by
    rw [hpipe₄, Function.update_of_ne (by decide), hpipe₃, Function.update_of_ne (by decide)]
    exact herr₂
  have hstep₄ : Step cfg st₄ _ := .parentReadEmpty hphase₄ herr₄
  refine ⟨{ st₄ with phase := .after true .stderr }, ?_, rfl, ?_⟩
  · have hfirst := (hreach₁.trans hreach₂).tail hstep₂
    have hsecond := ((hfirst.trans hreach₃).tail hstep₃).tail hwait
    exact (hsecond.trans hreach₄).tail hstep₄
  · have hfirst : st₂.reads .stdout = [(a, false)] := by
      rw [hreads₂, Function.update_self, hreads₁]
      show [(a, decide (0 + a.length ≤ cfg.maxBuffer))] = _
      rw [decide_eq_false (by omega)]
    show st₄.reads .stdout = _
    rw [hreads₄, Function.update_self]
    show st₃.reads .stdout
      ++ [(b, decide ((kept (st₃.reads .stdout)).length + b.length ≤ cfg.maxBuffer))] = _
    rw [hreads₃]
    show st₂.reads .stdout
      ++ [(b, decide ((kept (st₂.reads .stdout)).length + b.length ≤ cfg.maxBuffer))] = _
    rw [hfirst]
    show _ = [(a, false), (b, decide (b.length ≤ cfg.maxBuffer))]
    rw [show (kept [(a, false)]).length + b.length = b.length from Nat.zero_add _]
    rfl

/-- The same child under a limit of one byte. -/
def oneByteConfig : Config where
  capacity := 4096
  maxBuffer := 1
  capacity_pos := by decide
  maxBuffer_lt := by decide

end QNode.ChildProcess.SpawnSync
