import QNode.Fs.TextFiles

/-!
# Bytes as characters

Both modules take `latin1` text for UTF-8.
-/

open FileTree QNode.Engine QNode.Buffer

namespace QNode.Fs

section

variable (heap : Heap) (this : View) (fs : FileSystem) (cwd : Loc Name) (path : List UInt8)
  (name : String) (b : List UInt8)

/-- An encoding in which every byte is a character of its own, in a Buffer and in a file that both hold
`b`. -/
structure OneByteCharacters : Prop where
  text : (jsBufferToString heap this.arg [.string (ofAscii name) 0]).result =
    .ok (b.map UInt8.toUInt16)
  bytes : jsBufferFromString (b.map UInt8.toUInt16) (some name) = .ok b
  file : jsFsReadFileSync (fopenRead fs cwd path) path (.name name) =
    .ok (.string (b.map UInt8.toUInt16))

end

theorem jsToCStringLen_bytes (b : List UInt8) :
    jsToCStringLen (b.map UInt8.toUInt16) = b.flatMap fun x ↦ unicodeToUtf8 x.toNat := by
  induction b with
  | nil => rfl
  | cons x b ih =>
    have hx : x.toUInt16.toNat = x.toNat := UInt8.toNat_toUInt16 x
    cases b with
    | nil => rw [List.map_cons, List.map_nil, jsToCStringLen, hx]; simp
    | cons y b =>
      rw [List.map_cons] at ih
      rw [List.map_cons, List.map_cons, jsToCStringLen, isHiSurrogate_ascii, Bool.false_and,
        if_neg Bool.false_ne_true, ih, hx]
      rfl

-- The UTF-8 of bytes as characters is longer than them unless they are ASCII.
theorem ascii_of_length {b : List UInt8}
    (h : (b.flatMap fun x ↦ unicodeToUtf8 x.toNat).length ≤ b.length) : Ascii b := by
  have hone : ∀ x : UInt8, 1 ≤ (unicodeToUtf8 x.toNat).length := fun x ↦
    List.length_pos_iff.mpr (unicodeToUtf8_ne_nil x.toNat)
  have hall : ∀ b : List UInt8, b.length ≤ (b.flatMap fun x ↦ unicodeToUtf8 x.toNat).length := by
    intro b
    induction b with
    | nil => exact Nat.le_refl 0
    | cons x b ih =>
      have hx := hone x
      rw [List.flatMap_cons, List.length_append, List.length_cons]
      omega
  induction b with
  | nil => exact fun x hx ↦ absurd hx List.not_mem_nil
  | cons x b ih =>
    rw [List.flatMap_cons, List.length_append, List.length_cons] at h
    have hx := hone x
    have hb := hall b
    have hsmall : x < 128 := by
      by_contra hlarge
      have hlt := x.toNat_lt
      rw [UInt8.lt_iff_toNat_lt, Nat.not_lt] at hlarge
      rw [unicodeToUtf8_two hlarge (by omega)] at h
      simp only [List.length_cons, List.length_nil] at h
      omega
    show ∀ y ∈ x :: b, y < 128
    exact List.forall_mem_cons.mpr ⟨hsmall, ih (by omega)⟩

section

variable {heap : Heap} {fs : FileSystem} {cwd : Loc Name} {path : List UInt8} {name : String}

theorem getEncodingId_latin1 (hname : name ∈ ["latin1", "binary"]) :
    getEncodingId (some name) = .latin1 := by
  revert name
  decide

theorem jsBufferFromString_latin1 (hname : name ∈ ["latin1", "binary"]) (s : JsString)
    (b : List UInt8) :
    jsBufferFromString s (some name) = .ok b ↔ jsToCStringLen s = b ∧ b ≠ [] := by
  have hbytes : jsBufferStringToBytes (jsToCStringLen s) .latin1 =
      withBlock (jsToCStringLen s).length (.ok (some (jsToCStringLen s))) := rfl
  rw [jsBufferFromString, getEncodingId_latin1 hname, hbytes]
  by_cases hempty : jsToCStringLen s = []
  · rw [hempty]
    simp [withBlock]
  · rw [withBlock_pos (by rwa [ne_eq, List.length_eq_zero_iff])]
    simp only [Outcome.ok.injEq]
    constructor
    · rintro rfl
      exact ⟨rfl, hempty⟩
    · exact fun h ↦ h.1

/-- `latin1` text has one character for each byte, in both modules and both ways, precisely if there
are bytes, all of them are ASCII and they fit a string. -/
theorem latin1_iff (this : LiveView heap)
    (hfile : fileAt fs cwd path = some (this.toView.content heap))
    (hname : name ∈ ["latin1", "binary"]) :
    OneByteCharacters heap this.toView fs cwd path name (this.toView.content heap) ↔
      this.toView.content heap ≠ [] ∧ Ascii (this.toView.content heap) ∧
        (this.toView.content heap).length ≤ jsStringLenMax := by
  have htext : name ∈ textNames := by
    revert name
    decide
  have hinside := this.inside
  have hlength : (this.toView.content heap).length = this.length := View.read_length (by omega)
  have hshort := this.toView.length_lt
  have hread := readFileSync_file hfile (.name name)
  rw [jsMalloc_small (by omega)] at hread
  have hdata : fileData (Options.name name).encoding (this.toView.content heap) =
      .ofOutcome .string (jsNewStringLen (this.toView.content heap)) :=
    fileData_text htext _
  rw [hdata] at hread
  constructor
  · intro h
    obtain ⟨hsame, hne⟩ := (jsBufferFromString_latin1 hname _ _).mp h.bytes
    rw [jsToCStringLen_bytes] at hsame
    have hascii := ascii_of_length (Nat.le_of_eq (congrArg List.length hsame))
    refine ⟨hne, hascii, ?_⟩
    obtain ⟨s, hs, -⟩ := ofOutcome_eq_ok.mp (hread.symm.trans h.file)
    rw [← countAscii_ascii hascii]
    exact (jsNewStringLen_eq_ok.mp hs).1
  · rintro ⟨hne, hascii, hlen⟩
    have hstring := jsNewStringLen_ascii hascii hlen
    refine ⟨?_, ?_, ?_⟩
    · have hpos : this.length ≠ 0 := by
        rw [← hlength]
        exact mt List.length_eq_zero_iff.mp hne
      rw [toString_whole, if_neg hpos, jsBufferBytesToString_text htext, hstring]
    · exact (jsBufferFromString_latin1 hname _ _).mpr ⟨jsToCStringLen_ascii hascii, hne⟩
    · rw [hread, hstring]
      rfl

theorem latin1_hi :
    OneByteCharacters (storeOf [104, 105] (by decide)) ⟨0, 0, 2, false, by decide⟩ (oneFile [104, 105])
        [] [47, 102] "latin1" [104, 105] ↔
      [(104 : UInt8), 105] ≠ [] ∧ Ascii [104, 105] ∧ [(104 : UInt8), 105].length ≤ jsStringLenMax :=
  latin1_iff (⟨⟨0, 0, 2, false, by decide⟩, rfl, by decide⟩ : LiveView (storeOf [104, 105] (by decide)))
    (by decide) (by decide)

/-- The byte 233: its `latin1` text is the replacement character. -/
theorem latin1_is_utf8 :
    ¬ ∀ (heap : Heap) (this : LiveView heap) (fs : FileSystem) (cwd : Loc Name) (path : List UInt8)
      (name : String), fileAt fs cwd path = some (this.toView.content heap) →
      name ∈ ["latin1", "binary"] →
      OneByteCharacters heap this.toView fs cwd path name (this.toView.content heap) := by
  intro h
  have hone := h (storeOf [233] (by decide)) ⟨⟨0, 0, 1, false, by decide⟩, rfl, by decide⟩
    (oneFile [233]) [] [47, 102] "latin1" (by decide) (by decide)
  have htext := hone.text
  revert htext
  decide

end

end QNode.Fs
