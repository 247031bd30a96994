import QNode.Buffer.Subarray
import QNode.Engine.Utf8
import QNode.Fs.Files

/-!
# Files as text

`readFileSync` with an encoding and a Buffer made of the same file decode the bytes by two tables of
names.  What is written back is the UTF-8 of the string.
-/

open FileTree QNode.Engine QNode.Buffer Word

namespace QNode.Fs

/-- A string of ASCII characters. -/
def ofAscii (s : String) : JsString := s.toList.map fun c ↦ UInt16.ofNat c.toNat

/-- The encodings of the type declarations. -/
def encodingNames : List String :=
  ["utf8", "utf-8", "ascii", "latin1", "binary", "hex", "base64", "base64url"]

def losslessNames : List String := ["latin1", "binary", "hex", "base64", "base64url"]

def FileData.written : FileData → WriteData
  | .string text => .string text
  | .arrayBuffer abuf => .arrayBuffer abuf

section

variable (fs : FileSystem) (cwd : Loc Name) (path : List UInt8) (e : String)

/-- `readFileSync(p, e)` and `Buffer.from(readFileSync(p)).toString(e)` return the same string. -/
def ReadsSameText : Prop :=
  ∃ text abuf, jsFsReadFileSync (fopenRead fs cwd path) path (.name e) = .ok (.string text) ∧
    jsFsReadFileSync (fopenRead fs cwd path) path .missing = .ok (.arrayBuffer abuf) ∧
    ∀ heap b, heap b = abuf → ∃ v, (jsBufferFromArrayBuffer heap b []).result = .ok v ∧
      (jsBufferToString heap v.arg [.string (ofAscii e) 0]).result = .ok text

/-- `writeFileSync(p, readFileSync(p, e), e)` leaves the content `c`. -/
def Restores (c : List UInt8) : Prop :=
  ∀ data, jsFsReadFileSync (fopenRead fs cwd path) path (.name e) = .ok data →
    ∃ fs', jsFsWriteFileSync .working fs cwd path data.written (.name e) = (.ok (), fs') ∧
      fileAt fs' cwd path = some c

end

/-! ## Encodings -/

/-- The encodings that both tables read as text. -/
def textNames : List String := ["utf8", "utf-8", "ascii", "latin1", "binary"]

theorem isTextEncoding_iff {e : String} : isTextEncoding e ↔ e ∈ textNames := by
  simp [isTextEncoding, textNames]

theorem encodingOf_text {e : String} (he : e ∈ textNames) (n : Int64) :
    encodingOf (.string (ofAscii e) n) = .utf8 ∨ encodingOf (.string (ofAscii e) n) = .ascii ∨
      encodingOf (.string (ofAscii e) n) = .latin1 := by
  have hall : ∀ e ∈ textNames, getEncodingId (some (cString (jsToCStringLen (ofAscii e)))) ∈
      [Encoding.utf8, .ascii, .latin1] := by
    decide
  have hmem := hall e he
  rw [List.mem_cons, List.mem_cons, List.mem_singleton] at hmem
  exact hmem

theorem jsBufferBytesToString_text {e : String} (he : e ∈ textNames) (buf : List UInt8) (n : Int64) :
    jsBufferBytesToString buf (encodingOf (.string (ofAscii e) n)) = jsNewStringLen buf := by
  rcases encodingOf_text he n with h | h | h <;> rw [h] <;> rfl

theorem fileData_text {e : String} (he : e ∈ textNames) (buf : List UInt8) :
    fileData (some e) buf = .ofOutcome .string (jsNewStringLen buf) :=
  if_pos (isTextEncoding_iff.mpr he)

theorem fileData_binary {e : String} (he : e ∉ textNames) (buf : List UInt8) :
    fileData (some e) buf = .ofOutcome .arrayBuffer (jsNewArrayBufferCopy buf) :=
  if_neg (mt isTextEncoding_iff.mp he)

theorem ofOutcome_eq_ok {α β : Type} {f : α → β} {out : Outcome α} {value : β} :
    FsOutcome.ofOutcome f out = .ok value ↔ ∃ x, out = .ok x ∧ f x = value := by
  cases out <;> simp [FsOutcome.ofOutcome]

theorem jsNewArrayBufferCopy_eq_ok {p : List UInt8} {abuf : ArrayBuffer} :
    jsNewArrayBufferCopy p = .ok abuf ↔ p.length ≤ maxByteLength ∧ abuf.bytes = some p := by
  unfold jsNewArrayBufferCopy
  by_cases hshort : p.length ≤ maxByteLength
  · rw [dif_pos hshort, Outcome.ok.injEq, and_iff_right hshort]
    constructor
    · rintro rfl
      rfl
    · intro hbytes
      cases abuf
      cases hbytes
      rfl
  · rw [dif_neg hshort]
    exact iff_of_false (fun h ↦ nomatch h) fun h ↦ hshort h.1

/-! ## The same text -/

section

variable {fs : FileSystem} {cwd : Loc Name} {path c : List UInt8} {e : String}

-- Both sides decode all bytes, if both can hold them.
theorem readsSameText_iff (hfile : fileAt fs cwd path = some c) :
    ReadsSameText fs cwd path e ↔
      c.length ≤ maxByteLength ∧ countAscii c ≤ jsStringLenMax ∧ e ∈ textNames := by
  unfold ReadsSameText
  rw [readFileSync_file hfile, readFileSync_file hfile]
  show (∃ text abuf, jsMalloc _ (fileData (some e) c) = _ ∧ jsMalloc _ (fileData none c) = _ ∧ _) ↔ _
  constructor
  · rintro ⟨text, abuf, htext, hbuf, -⟩
    obtain ⟨x, hx, -⟩ := ofOutcome_eq_ok.mp (jsMalloc_eq_ok hbuf)
    refine ⟨(jsNewArrayBufferCopy_eq_ok.mp hx).1, ?_⟩
    have hdata := jsMalloc_eq_ok htext
    by_cases he : e ∈ textNames
    · rw [fileData_text he] at hdata
      obtain ⟨y, hy, -⟩ := ofOutcome_eq_ok.mp hdata
      exact ⟨(jsNewStringLen_eq_ok.mp hy).1, he⟩
    · rw [fileData_binary he] at hdata
      obtain ⟨y, -, hy⟩ := ofOutcome_eq_ok.mp hdata
      cases hy
  · rintro ⟨hlen, hcount, he⟩
    have hsmall : c.length < 2 ^ 62 := by
      unfold maxByteLength at hlen
      omega
    have hstring := jsNewStringLen_eq_ok.mpr ⟨hcount, rfl⟩
    rw [jsMalloc_small hsmall, jsMalloc_small hsmall, fileData_text he, hstring]
    refine ⟨newStringFrom c.length c, ⟨some c, hlen⟩, rfl, ?_, fun heap b hb ↦ ?_⟩
    · exact ofOutcome_eq_ok.mpr ⟨_, jsNewArrayBufferCopy_eq_ok.mpr ⟨hlen, rfl⟩, rfl⟩
    · obtain ⟨v, hfrom, hcontent, hlength⟩ :=
        fromArrayBuffer_whole (show (heap b).bytes = some c by rw [hb])
      refine ⟨v.toView, hfrom, ?_⟩
      rw [toString_whole, hcontent, jsBufferBytesToString_text he, hstring, hlength]
      split
      next hempty => rw [List.length_eq_zero_iff.mp hempty]; rfl
      next => rfl

-- A write to an existing file replaces its content.
theorem writeFileSync_file {data : WriteData} {bytes : List UInt8}
    (hfile : fileAt fs cwd path = some c) (hdata : data.bytes = some bytes) {options : Options}
    (hflag : options.flag = "w") :
    ∃ fs', jsFsWriteFileSync .working fs cwd path data options = (.ok (), fs') ∧
      fileAt fs' cwd path = some bytes := by
  have hmode : writeFmode options.flag = .wb := by rw [hflag]; rfl
  obtain ⟨ℓ, hnode, hopen⟩ := openFile_file hfile FopenMode.wb.not_exclusive
  rw [if_pos (FopenMode.wb.truncates.mpr rfl)] at hopen
  rw [jsFsWriteFileSync, hmode]
  rcases writeWholeData_working cwd hdata (by decide : FopenMode.wb ≠ .rb) with
    ⟨err, hfail, -⟩ | ⟨ℓ', fs₁, fs₂, hok, hresult, hcontent⟩
  · cases hopen.symm.trans hfail
  · obtain ⟨rfl, rfl⟩ := Prod.mk.inj (Except.ok.inj (hok.symm.trans hopen))
    refine ⟨fs₂, hresult, ?_⟩
    rw [hcontent [] (Tree.lookup_setFile_self hnode), writtenTo, if_neg (by simp), List.drop_nil,
      List.append_nil]

-- What is written back is the bytes the string keeps.
theorem restores_text_iff (hfile : fileAt fs cwd path = some c) (he : e ∈ textNames)
    (hlen : c.length ≤ maxByteLength) (hcount : countAscii c ≤ jsStringLenMax) :
    Restores fs cwd path e c ↔ Utf8Text c := by
  have hsmall : c.length < 2 ^ 62 := by
    unfold maxByteLength at hlen
    omega
  have hread : jsFsReadFileSync (fopenRead fs cwd path) path (.name e) =
      .ok (.string (newStringFrom c.length c)) := by
    rw [readFileSync_file hfile, jsMalloc_small hsmall]
    show fileData (some e) c = _
    rw [fileData_text he, jsNewStringLen_eq_ok.mpr ⟨hcount, rfl⟩]
    rfl
  obtain ⟨fs', hrun, hafter⟩ := writeFileSync_file hfile
    (show (WriteData.string (newStringFrom c.length c)).bytes = some _ from rfl)
    (show (Options.name e).flag = "w" from rfl)
  rw [← jsToCStringLen_newString_iff]
  unfold Restores
  rw [hread]
  constructor
  · intro h
    obtain ⟨fs'', hrun', hcontent⟩ := h _ rfl
    obtain ⟨-, rfl⟩ := Prod.mk.inj (hrun.symm.trans hrun')
    exact Option.some.inj (hafter.symm.trans hcontent)
  · intro hkept data hdata
    obtain rfl := FsOutcome.ok.inj hdata
    exact ⟨fs', hrun, hafter.trans (congrArg some hkept)⟩

end

end QNode.Fs
