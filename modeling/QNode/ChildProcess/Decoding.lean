import QNode.ChildProcess.Output
import QNode.Engine.TextDecoder

/-!
# Output decoded chunk by chunk

Each chunk read from a pipe is decoded on its own, so a character that a chunk boundary divides becomes
replacement characters.
-/

open QNode.Engine

namespace QNode.ChildProcess

/-- `_decodeOutput` on Unix. -/
def decodeOutput (chunk : List UInt8) : Outcome JsString := jsNewStringLen chunk

/-- The ways in which reads of at most 65536 bytes can cut a stream. -/
def CutInto (stream : List UInt8) (chunks : List (List UInt8)) : Prop :=
  chunks.flatten = stream ∧ ∀ chunk ∈ chunks, chunk ≠ [] ∧ chunk.length ≤ 65536

/-- The texts of the chunks, put together, are the text of the stream. -/
def TextsAgree (chunks : List (List UInt8)) : Prop :=
  ∃ texts, List.Forall₂ (fun chunk text ↦ decodeOutput chunk = .ok text) chunks texts ∧
    decodeOutput chunks.flatten = .ok texts.flatten

/-- Text in which no byte depends on the one before it: no continuation byte follows a byte that is
not ASCII, and nothing follows a continuation byte. -/
def Bytewise (stream : List UInt8) : Prop := stream.IsChain StandsAlone

def Short (stream : List UInt8) : Prop := countAscii stream ≤ jsStringLenMax

theorem countAscii_le_length (p : List UInt8) : countAscii p ≤ p.length :=
  (List.takeWhile_prefix _).length_le

theorem decodeOutput_eq_ok {p : List UInt8} {text : JsString} :
    decodeOutput p = .ok text ↔ Short p ∧ textDecoder.decode p = text := by
  rw [decodeOutput, jsNewStringLen_eq_ok, newStringFrom_eq_decode (Nat.le_refl _), Short]

theorem short_of_chunk {chunk : List UInt8} (h : chunk.length ≤ 65536) : Short chunk := by
  have hle := countAscii_le_length chunk
  have hmax : 65536 ≤ jsStringLenMax := by decide
  exact hle.trans (h.trans hmax)

theorem forall₂_decodeOutput {chunks : List (List UInt8)}
    (h : ∀ chunk ∈ chunks, chunk ≠ [] ∧ chunk.length ≤ 65536) {texts : List JsString} :
    List.Forall₂ (fun chunk text ↦ decodeOutput chunk = .ok text) chunks texts ↔
      texts = chunks.map textDecoder.decode := by
  induction chunks generalizing texts with
  | nil => rw [List.forall₂_nil_left_iff, List.map_nil]
  | cons chunk chunks ih =>
    rw [List.forall_mem_cons] at h
    rw [List.forall₂_cons_left_iff, List.map_cons]
    constructor
    · rintro ⟨text, texts', hfirst, hrest, rfl⟩
      rw [(ih h.2).mp hrest, (decodeOutput_eq_ok.mp hfirst).2]
    · rintro rfl
      exact ⟨_, _, decodeOutput_eq_ok.mpr ⟨short_of_chunk h.1.2, rfl⟩, (ih h.2).mpr rfl, rfl⟩

theorem textsAgree_iff {stream : List UInt8} {chunks : List (List UInt8)}
    (h : CutInto stream chunks) :
    TextsAgree chunks ↔
      Short stream ∧ textDecoder.decode stream = (chunks.map textDecoder.decode).flatten := by
  obtain ⟨rfl, hchunks⟩ := h
  unfold TextsAgree
  simp only [forall₂_decodeOutput hchunks, exists_eq_left]
  exact decodeOutput_eq_ok

theorem cutInto_singletons (stream : List UInt8) : CutInto stream (stream.map fun b ↦ [b]) := by
  refine ⟨by simp [← List.flatMap_def], fun chunk hmem ↦ ?_⟩
  obtain ⟨b, -, rfl⟩ := List.mem_map.mp hmem
  exact ⟨List.cons_ne_nil _ _, Nat.le_of_lt (by simp)⟩

-- A stream whose text does not depend on the chunk boundaries.
theorem textsAgree_all_iff (stream : List UInt8) :
    (∀ chunks, CutInto stream chunks → TextsAgree chunks) ↔ Short stream ∧ Bytewise stream := by
  have hall := Decoder.agree_all_iff textDecoder_local textDecoder_shrinking
    (fun chunk ↦ chunk ≠ [] ∧ chunk.length ≤ 65536)
    (fun b ↦ ⟨List.cons_ne_nil b [], Nat.le_of_lt (by simp)⟩) stream
  rw [Decoder.oneByOne_iff_isChain textStep_one_iff] at hall
  constructor
  · intro h
    have hshort := ((textsAgree_iff (cutInto_singletons stream)).mp
      (h _ (cutInto_singletons stream))).1
    refine ⟨hshort, hall.mp fun chunks hstream hchunks ↦ ?_⟩
    exact ((textsAgree_iff ⟨hstream, hchunks⟩).mp (h chunks ⟨hstream, hchunks⟩)).2
  · intro ⟨hshort, hbytewise⟩ chunks hcut
    exact (textsAgree_iff hcut).mpr ⟨hshort, hall.mpr hbytewise chunks hcut.1 hcut.2⟩

/-! ## The chunks of a run -/

namespace Schedule

def chunksOf (w : World) (stream : Stream) : List (List UInt8) :=
  (w.chunks.filter fun c ↦ c.stream = stream).map Chunk.bytes

/-- The reads cut what the child wrote, up to what is left in the pipe, and each chunk was emitted as
its own text. -/
structure Spoken (w : World) (stream : Stream) : Prop where
  written : w.written stream = (chunksOf w stream).flatten ++ w.pipe stream
  sizes : ∀ chunk ∈ chunksOf w stream, chunk ≠ [] ∧ chunk.length ≤ 65536
  texts : dataTexts w.child stream = (chunksOf w stream).map textDecoder.decode

theorem chunksOf_takeChunk (w : World) (ended : Option Int) (of stream : Stream)
    (bytes : List UInt8) :
    chunksOf (takeChunk textDecoder.decode w ended of bytes) stream =
      chunksOf w stream ++ if of = stream then [bytes] else [] := by
  let taken : Chunk := ⟨w.constructing, of, bytes⟩
  show ((w.chunks ++ [taken]).filter fun c ↦ c.stream = stream).map Chunk.bytes = _
  rw [List.filter_append, List.map_append]
  apply congrArg (chunksOf w stream ++ ·)
  by_cases hof : of = stream <;> simp [taken, hof]

theorem Spoken.takeChunk {w : World} {stream : Stream} (h : Spoken w stream) (ended : Option Int)
    (of : Stream) {bytes rest : List UInt8} (hbytes : bytes ≠ [] ∧ bytes.length ≤ 65536)
    (hpipe : w.pipe of = bytes ++ rest) :
    Spoken (takeChunk textDecoder.decode w ended of bytes) stream := by
  have hchunks := chunksOf_takeChunk w ended of stream bytes
  have hrest := pipe_takeChunk textDecoder.decode ended hpipe stream
  by_cases hof : of = stream
  · subst hof
    rw [if_pos rfl] at hchunks hrest
    constructor
    · show w.written of = _
      rw [hchunks, hrest, h.written, hpipe]
      simp
    · intro chunk hmem
      rw [hchunks] at hmem
      rcases List.mem_append.mp hmem with hmem | hmem
      · exact h.sizes chunk hmem
      · rw [List.mem_singleton.mp hmem]
        exact hbytes
    · show dataTexts (w.child.record (.data of (textDecoder.decode bytes))) of = _
      rw [hchunks, dataTexts_record, h.texts]
      simp [textOf]
  · rw [if_neg hof] at hchunks hrest
    rw [List.append_nil] at hchunks
    constructor
    · rw [hchunks, hrest]
      exact h.written
    · rw [hchunks]
      exact h.sizes
    · show dataTexts (w.child.record (.data of (textDecoder.decode bytes))) stream = _
      rw [hchunks, dataTexts_record, h.texts]
      simp [textOf, hof]

theorem step_spoken (platform : Platform) {w : World} (hinv : Invariant w)
    (h : ∀ stream, Spoken w stream) (a : Act) (stream : Stream) :
    Spoken (step platform textDecoder.decode w a) stream := by
  cases step_moves platform textDecoder.decode hinv a with
  | still hstill _ =>
    have hchunks : chunksOf (step platform textDecoder.decode w a) stream = chunksOf w stream := by
      rw [chunksOf, hstill.chunks, chunksOf]
    constructor
    · rw [hchunks, hstill.written, hstill.pipe]
      exact (h stream).written
    · rw [hchunks]
      exact (h stream).sizes
    · rw [hchunks, hstill.texts]
      exact (h stream).texts
  | write dst bytes _ _ hnext =>
    rw [hnext]
    refine ⟨?_, (h stream).sizes, (h stream).texts⟩
    show Function.update w.written dst (w.written dst ++ bytes) stream =
      (chunksOf w stream).flatten ++ Function.update w.pipe dst (w.pipe dst ++ bytes) stream
    rw [update_append, update_append, (h stream).written, List.append_assoc]
  | listen dst _ _ hnext =>
    rw [hnext]
    exact ⟨(h stream).written, (h stream).sizes, (h stream).texts⟩
  | chunk n ended of bytes rest _ _ hbytes hpipe hnext =>
    rw [hnext]
    exact (h stream).takeChunk ended of hbytes hpipe

theorem run_spoken (platform : Platform) (raw : Raw) (acts : List Act) (stream : Stream) :
    Spoken (run platform textDecoder.decode raw acts) stream := by
  have hstart : ∀ stream, Spoken (World.start raw) stream :=
    fun _ ↦ ⟨rfl, fun _ hmem ↦ absurd hmem List.not_mem_nil, rfl⟩
  have hrun := List.foldlRecOn (motive := fun w ↦ Invariant w ∧ ∀ stream, Spoken w stream) acts
    (step platform textDecoder.decode) ⟨start_invariant raw, hstart⟩ fun _ h a _ ↦
      ⟨step_invariant platform textDecoder.decode h.1 a, step_spoken platform h.1 h.2 a⟩
  exact hrun.2 stream

-- When `exit` has been emitted, the chunks read cut all that the child wrote.
theorem run_cutInto (platform : Platform) (raw : Raw) (acts : List Act) (stream : Stream) {code : Int}
    (hexit : Event.exit code ∈ (run platform textDecoder.decode raw acts).child.log) :
    CutInto ((run platform textDecoder.decode raw acts).written stream)
      (chunksOf (run platform textDecoder.decode raw acts) stream) := by
  have hspoken := run_spoken platform raw acts stream
  have hempty := ((run_invariant platform textDecoder.decode raw acts).phase.emptied hexit).empty stream
  refine ⟨?_, hspoken.sizes⟩
  rw [hspoken.written, hempty, List.append_nil]

-- The texts emitted in a run make the text of a stream whose bytes do not depend on each other.
theorem run_text (platform : Platform) (raw : Raw) (acts : List Act) (stream : Stream) {code : Int}
    (hexit : Event.exit code ∈ (run platform textDecoder.decode raw acts).child.log)
    (hshort : Short ((run platform textDecoder.decode raw acts).written stream))
    (hbytewise : Bytewise ((run platform textDecoder.decode raw acts).written stream)) :
    decodeOutput ((run platform textDecoder.decode raw acts).written stream) =
      .ok (dataTexts (run platform textDecoder.decode raw acts).child stream).flatten := by
  have hcut := run_cutInto platform raw acts stream hexit
  have hagree := (textsAgree_all_iff _).mpr ⟨hshort, hbytewise⟩ _ hcut
  have hdecode := ((textsAgree_iff hcut).mp hagree).2
  rw [(run_spoken platform raw acts stream).texts, ← hdecode]
  exact decodeOutput_eq_ok.mpr ⟨hshort, rfl⟩

end Schedule

/-! ## Chunk boundaries -/

/-- The text of a stream is independent of the chunk boundaries precisely if no byte of it depends on
the one before it.  Of another stream the texts of the chunks agree with the whole if every boundary
lies between two characters, and only then unless the text holds a replacement character. -/
theorem decodeOutput_chunks_iff (stream : List UInt8) :
    ((∀ chunks, CutInto stream chunks → TextsAgree chunks) ↔ Short stream ∧ Bytewise stream) ∧
    (∀ chunks, CutInto stream chunks → textDecoder.AtBoundaries chunks →
      (TextsAgree chunks ↔ Short stream)) ∧
    (∀ chunks text, CutInto stream chunks → decodeOutput stream = .ok text →
      replacement ∉ text → (TextsAgree chunks ↔ textDecoder.AtBoundaries chunks)) := by
  refine ⟨textsAgree_all_iff stream, ?_, ?_⟩
  · intro chunks hcut hboundaries
    rw [textsAgree_iff hcut]
    apply and_iff_left
    rw [← hcut.1]
    exact Decoder.decode_flatten textDecoder_local hboundaries
  · intro chunks text hcut htext hmark
    obtain ⟨hshort, rfl⟩ := decodeOutput_eq_ok.mp htext
    rw [textsAgree_iff hcut, and_iff_right hshort]
    obtain ⟨rfl, -⟩ := hcut
    exact ⟨Decoder.atBoundaries_of_agree textDecoder_local textDecoder_marked hmark,
      Decoder.decode_flatten textDecoder_local⟩

/-- `é` as one chunk and as two. -/
theorem split_character_replaced :
    decodeOutput [0xC3, 0xA9] = .ok [0xE9] ∧ decodeOutput [0xC3] = .ok [0xFFFD] ∧
      decodeOutput [0xA9] = .ok [0xFFFD] ∧ ¬TextsAgree [[0xC3], [0xA9]] := by
  have hlead : decodeOutput [0xC3] = .ok [0xFFFD] := by decide
  have htail : decodeOutput [0xA9] = .ok [0xFFFD] := by decide
  have hwhole : decodeOutput [0xC3, 0xA9] = .ok [0xE9] := by decide
  refine ⟨hwhole, hlead, htail, ?_⟩
  intro ⟨texts, htexts, hagree⟩
  rw [show [[(0xC3 : UInt8)], [0xA9]].flatten = [0xC3, 0xA9] from rfl, hwhole] at hagree
  obtain ⟨t, ts, h1, h2, rfl⟩ := List.forall₂_cons_left_iff.mp htexts
  obtain ⟨t', ts', h3, h4, rfl⟩ := List.forall₂_cons_left_iff.mp h2
  rw [List.forall₂_nil_left_iff] at h4
  subst h4
  rw [hlead] at h1
  rw [htail] at h3
  obtain rfl := Outcome.ok.inj h1
  obtain rfl := Outcome.ok.inj h3
  exact absurd hagree (by decide)

end QNode.ChildProcess
