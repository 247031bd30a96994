import QNode.Fs.Mkdir
import QNode.Library.Splice

/-!
# The working copy of mkdirSync

`mkdir_recursive` edits a copy of the path in place: it cuts off a separator at the end, and puts a NUL
and then a slash over every other one.  The results here follow the copy byte by byte: what is read of
it, and by which names directories are made.
-/

open FileTree Splice

namespace QNode.Fs

/-- A path as C code sees it: no NUL is part of it. -/
structure PathString where
  chars : List UInt8
  noNul : 0 ∉ chars

/-- What is done with the copy: a byte of it is read while the string in it ends at an index, or `mkdir`
is called with the string and makes a directory or not. -/
inductive CopyEvent
  | reads (index terminator : Nat)
  | makes (path : List UInt8) (made : Bool)
  deriving DecidableEq, Repr

/-- The string in a buffer, up to its first NUL. -/
def cChars (tmp : List UInt8) : List UInt8 := tmp.takeWhile (· ≠ 0)

def strlen (tmp : List UInt8) : Nat := (cChars tmp).length

/-- What a loop over the copy leaves. -/
structure Scanned where
  fs : FileSystem
  tmp : List UInt8
  events : List CopyEvent

/-- `snprintf(tmp, sizeof(tmp), "%s", path)`, over what the buffer held before. -/
def snprintfTmp (junk path : List UInt8) : List UInt8 := splice junk 0 (path.take (pathMax - 1) ++ [0])

/-- A separator at the end is cut off. -/
def trimTmp (tmp : List UInt8) : List UInt8 :=
  if strlen tmp > 0 ∧ tmp[strlen tmp - 1]?.any isSep then tmp.set (strlen tmp - 1) 0 else tmp

/-- `strlen`, and the look at the last character. -/
def trimEvents (tmp : List UInt8) : List CopyEvent :=
  (List.range (strlen tmp + 1)).map (.reads · (strlen tmp)) ++
    if strlen tmp > 0 then [.reads (strlen tmp - 1) (strlen tmp)] else []

section

variable (cwd : Loc Name)

/-- The loop with the buffer before `p` and from `p` on.  Behind the buffer its course is undefined. -/
def scanTmp : FileSystem → List UInt8 → List UInt8 → Scanned
  | fs, done, [] => ⟨fs, done, [.reads done.length (strlen done)]⟩
  | fs, done, c :: rest =>
    let read := .reads done.length (strlen (done ++ c :: rest))
    if c = 0 then ⟨fs, done ++ c :: rest, [read]⟩
    else if isSep c then
      let path := cChars (done ++ 0 :: rest)
      let called := mkdir fs cwd path
      let next := scanTmp called.2 (done ++ [47]) rest
      { next with events := read :: .makes path (called.1 = .ok ()) :: next.events }
    else
      let next := scanTmp fs (done ++ [c]) rest
      { next with events := read :: next.events }

/-- `mkdir_recursive` on its buffer, which holds `junk` before. -/
def mkdirRecursiveTmp (junk : List UInt8) (fs : FileSystem) (path : List UInt8) :
    Except Errno Unit × Scanned :=
  let tmp := snprintfTmp junk path
  let scanned := scanTmp cwd fs ((trimTmp tmp).take 1) ((trimTmp tmp).drop 1)
  let called := mkdir scanned.fs cwd (cChars scanned.tmp)
  (called.1,
    { scanned with
      fs := called.2
      events := trimEvents tmp ++ scanned.events ++
        [.makes (cChars scanned.tmp) (called.1 = .ok ())] })

end

/-! ## The string in the buffer -/

theorem cChars_append {s junk : List UInt8} (h : 0 ∉ s) : cChars (s ++ 0 :: junk) = s := by
  have hall : ∀ c ∈ s, (decide (c ≠ 0)) = true := by
    intro c hc
    rw [decide_eq_true_iff]
    rintro rfl
    exact h hc
  rw [cChars, List.takeWhile_append_of_pos hall, List.takeWhile_cons_of_neg (by simp), List.append_nil]

theorem strlen_append {s junk : List UInt8} (h : 0 ∉ s) : strlen (s ++ 0 :: junk) = s.length := by
  rw [strlen, cChars_append h]

theorem snprintfTmp_eq (junk path : List UInt8) :
    ∃ junk', snprintfTmp junk path = path.take (pathMax - 1) ++ 0 :: junk' := by
  refine ⟨junk.drop (0 + (path.take (pathMax - 1) ++ [0]).length), ?_⟩
  rw [snprintfTmp, splice, List.take_zero, List.nil_append, List.append_assoc]
  rfl

theorem noNul_mkdirTmp {path : List UInt8} (h : 0 ∉ path) : 0 ∉ mkdirTmp path := by
  have htake : 0 ∉ path.take (pathMax - 1) := fun hmem ↦ h (List.mem_of_mem_take hmem)
  unfold mkdirTmp
  dsimp only
  split
  · exact htake
  · split
    · exact fun hmem ↦ htake (List.mem_of_mem_dropLast hmem)
    · exact htake

-- After the cut the buffer starts with what is worked on.
theorem trimTmp_eq (junk : List UInt8) {path : List UInt8} (h : 0 ∉ path) :
    ∃ junk', trimTmp (snprintfTmp junk path) = mkdirTmp path ++ 0 :: junk' := by
  obtain ⟨junk', htmp⟩ := snprintfTmp_eq junk path
  have htake : 0 ∉ path.take (pathMax - 1) := fun hmem ↦ h (List.mem_of_mem_take hmem)
  rw [htmp, trimTmp, strlen_append htake, mkdirTmp]
  generalize path.take (pathMax - 1) = s at htake
  rcases List.eq_nil_or_concat' s with rfl | ⟨init, c, rfl⟩
  · exact ⟨junk', if_neg (by simp)⟩
  · have hlast : (init ++ [c] ++ 0 :: junk')[(init ++ [c]).length - 1]? = some c := by
      rw [List.append_assoc, List.length_append, List.getElem?_append_right (by simp)]
      simp
    rw [hlast, List.getLast?_concat, Option.any_some]
    dsimp only
    by_cases hsep : isSep c
    · refine ⟨0 :: junk', ?_⟩
      rw [if_pos ⟨by simp, hsep⟩, if_pos hsep, List.dropLast_concat, List.append_assoc, List.length_append,
        List.set_append_right _ _ (by simp)]
      simp
    · exact ⟨junk', by rw [if_neg fun h ↦ hsep h.2, if_neg hsep]⟩

/-! ## The loop -/

section

variable {fs : FileSystem} {cwd : Loc Name} {done rest junk : List UInt8} {c : UInt8}

theorem scanTmp_end (h : 0 ∉ done) : scanTmp cwd fs done (0 :: junk) =
    ⟨fs, done ++ 0 :: junk, [.reads done.length done.length]⟩ := by
  rw [scanTmp, if_pos rfl, strlen_append h]

-- At a separator, which is no NUL.
theorem scanTmp_sep (hdone : 0 ∉ done) (hsep : isSep c) (tail : List UInt8) :
    scanTmp cwd fs done (c :: tail) =
      let called := mkdir fs cwd done
      let next := scanTmp cwd called.2 (done ++ [47]) tail
      { next with
        events := .reads done.length (strlen (done ++ c :: tail)) :: .makes done (called.1 = .ok ()) ::
          next.events } := by
  have hc : c ≠ 0 := by
    rintro rfl
    cases hsep
  rw [scanTmp, if_neg hc, if_pos hsep, cChars_append hdone]

theorem scanTmp_other (hc : c ≠ 0) (hsep : ¬ isSep c) (tail : List UInt8) :
    scanTmp cwd fs done (c :: tail) =
      let next := scanTmp cwd fs (done ++ [c]) tail
      { next with events := .reads done.length (strlen (done ++ c :: tail)) :: next.events } := by
  rw [scanTmp, if_neg hc, if_neg hsep]

theorem noNul_concat (hdone : 0 ∉ done) (hc : c ≠ 0) : 0 ∉ done ++ [c] := by
  rw [List.mem_append, List.mem_singleton, not_or]
  exact ⟨hdone, hc.symm⟩

-- What the loop leaves is what the loop over the string leaves.
theorem scanTmp_eq (hdone : 0 ∉ done) (hrest : 0 ∉ rest) (junk : List UInt8) :
    (scanTmp cwd fs done (rest ++ 0 :: junk)).fs = (mkdirLoop cwd fs done rest).1 ∧
      cChars (scanTmp cwd fs done (rest ++ 0 :: junk)).tmp = (mkdirLoop cwd fs done rest).2 := by
  induction rest generalizing fs done with
  | nil =>
    rw [List.nil_append, scanTmp_end hdone]
    exact ⟨rfl, cChars_append hdone⟩
  | cons c rest ih =>
    rw [List.mem_cons, not_or] at hrest
    rw [List.cons_append, mkdirLoop]
    by_cases hsep : isSep c
    · rw [scanTmp_sep hdone hsep, if_pos hsep]
      exact ih (noNul_concat hdone (by decide)) hrest.2
    · rw [scanTmp_other (Ne.symm hrest.1) hsep, if_neg hsep]
      exact ih (noNul_concat hdone (Ne.symm hrest.1)) hrest.2

-- The loop reads up to the NUL of the string and no further.
theorem scanTmp_reads (hdone : 0 ∉ done) (hrest : 0 ∉ rest) (junk : List UInt8) {i t : Nat}
    (h : .reads i t ∈ (scanTmp cwd fs done (rest ++ 0 :: junk)).events) : i ≤ t := by
  have hread : ∀ {done rest : List UInt8}, 0 ∉ done → 0 ∉ rest →
      done.length ≤ strlen (done ++ (rest ++ 0 :: junk)) := by
    intro done rest hdone hrest
    rw [← List.append_assoc, strlen_append (by simp [hdone, hrest]), List.length_append]
    exact Nat.le_add_right _ _
  induction rest generalizing fs done with
  | nil =>
    rw [List.nil_append, scanTmp_end hdone, List.mem_singleton] at h
    obtain ⟨rfl, rfl⟩ := CopyEvent.reads.inj h
    exact Nat.le_refl _
  | cons c rest ih =>
    have hhere := hread hdone hrest
    rw [List.mem_cons, not_or] at hrest
    rw [List.cons_append] at h hhere
    by_cases hsep : isSep c
    · rw [scanTmp_sep hdone hsep] at h
      rcases List.mem_cons.mp h with h | h
      · obtain ⟨rfl, rfl⟩ := CopyEvent.reads.inj h
        exact hhere
      · rcases List.mem_cons.mp h with h | h
        · cases h
        · exact ih (noNul_concat hdone (by decide)) hrest.2 h
    · rw [scanTmp_other (Ne.symm hrest.1) hsep] at h
      rcases List.mem_cons.mp h with h | h
      · obtain ⟨rfl, rfl⟩ := CopyEvent.reads.inj h
        exact hhere
      · exact ih (noNul_concat hdone (Ne.symm hrest.1)) hrest.2 h

/-- A call of the loop: for the part before a separator, with the separators before that read as slashes. -/
def LoopCall (done rest q : List UInt8) : Prop :=
  ∃ before c after, rest = before ++ c :: after ∧ isSep c ∧ q = done ++ before.map slashed

theorem loopCall_cons {q : List UInt8} :
    LoopCall done (c :: rest) q ↔ (isSep c ∧ q = done) ∨ LoopCall (done ++ [slashed c]) rest q := by
  constructor
  · rintro ⟨before, d, after, heq, hsep, rfl⟩
    cases before with
    | nil =>
      obtain ⟨rfl, rfl⟩ := List.cons.inj heq
      exact .inl ⟨hsep, List.append_nil done⟩
    | cons e before =>
      obtain ⟨rfl, rfl⟩ := List.cons.inj heq
      refine .inr ⟨before, d, after, rfl, hsep, ?_⟩
      rw [List.map_cons, List.append_assoc]
      rfl
  · rintro (⟨hsep, rfl⟩ | ⟨before, d, after, rfl, hsep, rfl⟩)
    · exact ⟨[], c, rest, rfl, hsep, (List.append_nil _).symm⟩
    · refine ⟨c :: before, d, after, rfl, hsep, ?_⟩
      rw [List.map_cons, List.append_assoc]
      rfl

-- Which calls of the loop make a directory can be told from the tree before it.
theorem scanTmp_makes {fs₀ : FileSystem} {start : Loc Name} (h : Underway fs₀ cwd start fs done)
    (hdone : 0 ∉ done) (hrest : 0 ∉ rest) (hlen : (done ++ rest).length < pathMax) (junk : List UInt8)
    {q : List UInt8} :
    .makes q true ∈ (scanTmp cwd fs done (rest ++ 0 :: junk)).events ↔
      LoopCall done rest q ∧ Creates fs₀ cwd q := by
  induction rest generalizing fs done with
  | nil =>
    rw [List.nil_append, scanTmp_end hdone]
    refine iff_of_false (by simp) ?_
    rintro ⟨⟨before, c, after, heq, -⟩, -⟩
    cases before <;> cases heq
  | cons c rest ih =>
    have hfit : done.length < pathMax := by
      rw [List.length_append] at hlen
      omega
    have hfits : ∀ d, (done ++ [d] ++ rest).length < pathMax := by
      intro d
      simpa using hlen
    rw [List.mem_cons, not_or] at hrest
    rw [List.cons_append, loopCall_cons]
    by_cases hsep : isSep c
    · have hmade : (mkdir fs cwd done).1 = .ok () ↔ Creates fs₀ cwd done := by
        rw [h.made, ← h.startsAt]
        exact mkdir_settled_ok_iff hfit
      have hnext := ih (h.sep hfit) (noNul_concat hdone (by decide)) hrest.2 (hfits 47)
      rw [scanTmp_sep hdone hsep, slashed, if_pos hsep, or_and_right, ← hnext]
      simp only [List.mem_cons, reduceCtorEq, false_or, CopyEvent.makes.injEq, hsep, true_and]
      refine or_congr_left (and_congr_right ?_)
      rintro rfl
      rw [← hmade]
      exact eq_comm.trans decide_eq_true_iff
    · have hnext := ih (h.other (ne_slash_of_not_sep hsep)) (noNul_concat hdone (Ne.symm hrest.1)) hrest.2
        (hfits c)
      rw [scanTmp_other (Ne.symm hrest.1) hsep, slashed, if_neg hsep, or_and_right, ← hnext]
      simp [hsep]

/-- Nothing is made by the loop over what is behind an empty string. -/
theorem scanTmp_empty (fs : FileSystem) (cwd : Loc Name) (done rest : List UInt8) :
    (scanTmp cwd fs (0 :: done) rest).fs = fs ∧ cChars (scanTmp cwd fs (0 :: done) rest).tmp = [] := by
  have hfails : ∀ tail, (mkdir fs cwd (cChars (0 :: tail))).2 = fs := fun _ ↦ rfl
  induction rest generalizing done with
  | nil => exact ⟨rfl, rfl⟩
  | cons c rest ih =>
    rw [scanTmp]
    split
    · exact ⟨rfl, rfl⟩
    · split
      · rw [List.cons_append]
        dsimp only
        rw [hfails]
        exact ih (done ++ [47])
      · exact ih (done ++ [c])

end

/-! ## The whole call -/

/-- What is left of a part of the path when its separators, but for the first character, are slashes. -/
def slashTail : List UInt8 → List UInt8
  | [] => []
  | c :: rest => c :: rest.map slashed

/-- The parts of the path for which `mkdir` is called: those before a separator, and what is worked on. -/
def Tried (path before : List UInt8) : Prop :=
  before = mkdirTmp path ∨ before ≠ [] ∧ ∃ c after, mkdirTmp path = before ++ c :: after ∧ isSep c

section

variable {cwd : Loc Name} {fs : FileSystem} {path q before : List UInt8}

theorem workPath_eq_slashTail (path : List UInt8) : workPath path = slashTail (mkdirTmp path) := rfl

theorem tried_iff {c : UInt8} {rest : List UInt8} (h : mkdirTmp path = c :: rest) :
    (∃ before, Tried path before ∧ q = slashTail before) ↔ LoopCall [c] rest q ∨ q = workPath path := by
  unfold Tried
  rw [workPath_eq_slashTail, h]
  constructor
  · rintro ⟨before, rfl | ⟨hne, d, after, heq, hsep⟩, rfl⟩
    · exact .inr rfl
    · cases before with
      | nil => exact absurd rfl hne
      | cons e before =>
        obtain ⟨rfl, rfl⟩ := List.cons.inj heq
        exact .inl ⟨before, d, after, rfl, hsep, rfl⟩
  · rintro (⟨before, d, after, rfl, hsep, rfl⟩ | rfl)
    · exact ⟨c :: before, .inr ⟨List.cons_ne_nil c before, d, after, rfl, hsep⟩, rfl⟩
    · exact ⟨c :: rest, .inl rfl, rfl⟩

/-- The call on the buffer is the call on the string. -/
theorem mkdirRecursiveTmp_eq (junk : List UInt8) (h : 0 ∉ path) :
    ((mkdirRecursiveTmp cwd junk fs path).1, (mkdirRecursiveTmp cwd junk fs path).2.fs) =
      mkdirRecursive cwd fs path := by
  obtain ⟨junk', htmp⟩ := trimTmp_eq junk h
  have hnul := noNul_mkdirTmp h
  unfold mkdirRecursiveTmp mkdirRecursive
  dsimp only
  rw [htmp]
  cases hwork : mkdirTmp path with
  | nil =>
    obtain ⟨hfs, hchars⟩ := scanTmp_empty fs cwd [] junk'
    simp only [List.nil_append, List.take_succ_cons, List.take_zero, List.drop_succ_cons, List.drop_zero]
    rw [hfs, hchars]
  | cons c rest =>
    rw [hwork, List.mem_cons, not_or] at hnul
    have hfirst : 0 ∉ [c] := fun hmem ↦ hnul.1 (List.mem_singleton.mp hmem)
    obtain ⟨hfs, hchars⟩ := @scanTmp_eq fs cwd [c] rest hfirst hnul.2 junk'
    simp only [List.cons_append, List.take_succ_cons, List.take_zero, List.drop_succ_cons, List.drop_zero]
    rw [hfs, hchars]

theorem trimEvents_reads {tmp : List UInt8} {i t : Nat} (h : .reads i t ∈ trimEvents tmp) : i ≤ t := by
  rcases List.mem_append.mp h with h | h
  · obtain ⟨j, hj, heq⟩ := List.mem_map.mp h
    obtain ⟨rfl, rfl⟩ := CopyEvent.reads.inj heq
    exact Nat.lt_succ_iff.mp (List.mem_range.mp hj)
  · split at h
    · obtain ⟨rfl, rfl⟩ := CopyEvent.reads.inj (List.mem_singleton.mp h)
      exact Nat.sub_le _ _
    · cases h

theorem not_makes_trimEvents {tmp : List UInt8} {made : Bool} : .makes q made ∉ trimEvents tmp := by
  intro h
  rcases List.mem_append.mp h with h | h
  · obtain ⟨j, -, heq⟩ := List.mem_map.mp h
    cases heq
  · split at h
    · cases List.mem_singleton.mp h
    · cases h

theorem mkdirRecursiveTmp_reads (junk : List UInt8) (h : 0 ∉ path) (hwork : mkdirTmp path ≠ []) {i t : Nat}
    (hread : .reads i t ∈ (mkdirRecursiveTmp cwd junk fs path).2.events) : i ≤ t := by
  obtain ⟨junk', htmp⟩ := trimTmp_eq junk h
  have hnul := noNul_mkdirTmp h
  unfold mkdirRecursiveTmp at hread
  dsimp only at hread
  rw [htmp] at hread
  cases hcase : mkdirTmp path with
  | nil => exact absurd hcase hwork
  | cons c rest =>
    rw [hcase] at hread hnul
    rw [List.mem_cons, not_or] at hnul
    rcases List.mem_append.mp hread with hread | hread
    · rcases List.mem_append.mp hread with hread | hread
      · exact trimEvents_reads hread
      · exact scanTmp_reads (fun hmem ↦ hnul.1 (List.mem_singleton.mp hmem)) hnul.2 junk' hread
    · cases List.mem_singleton.mp hread

-- An empty string is read behind its NUL.
theorem mkdirRecursiveTmp_overreads (junk : List UInt8) (h : 0 ∉ path) (hwork : mkdirTmp path = []) :
    .reads 1 0 ∈ (mkdirRecursiveTmp cwd junk fs path).2.events := by
  obtain ⟨junk', htmp⟩ := trimTmp_eq junk h
  have hfirst : .reads 1 0 ∈ (scanTmp cwd fs [0] junk').events := by
    cases junk' with
    | nil => exact List.mem_singleton.mpr rfl
    | cons c rest =>
      rw [scanTmp]
      split
      · exact List.mem_singleton.mpr rfl
      · split
        · exact List.mem_cons_self
        · exact List.mem_cons_self
  unfold mkdirRecursiveTmp
  dsimp only
  rw [htmp, hwork]
  exact List.mem_append_left _ (List.mem_append_right _ hfirst)

theorem mkdirRecursiveTmp_makes (junk : List UInt8) (h : 0 ∉ path) (hwork : mkdirTmp path ≠ []) :
    .makes q true ∈ (mkdirRecursiveTmp cwd junk fs path).2.events ↔
      (∃ before, Tried path before ∧ q = slashTail before) ∧ Creates fs cwd q := by
  obtain ⟨junk', htmp⟩ := trimTmp_eq junk h
  have hnul := noNul_mkdirTmp h
  have hlen := length_mkdirTmp path
  have hresult : (mkdirRecursiveTmp cwd junk fs path).1 = .ok () ↔ Creates fs cwd (workPath path) := by
    rw [← mkdirRecursive_ok_iff, ← mkdirRecursiveTmp_eq junk h]
  unfold mkdirRecursiveTmp at hresult ⊢
  dsimp only at hresult ⊢
  rw [htmp] at hresult ⊢
  cases hcase : mkdirTmp path with
  | nil => exact absurd hcase hwork
  | cons c rest =>
    rw [hcase] at hresult hnul hlen
    rw [List.mem_cons, not_or] at hnul
    have hfirst : 0 ∉ [c] := fun hmem ↦ hnul.1 (List.mem_singleton.mp hmem)
    have hloop := scanTmp_makes (Underway.first fs cwd c) hfirst hnul.2 hlen junk' (q := q)
    have hlast : cChars (scanTmp cwd fs [c] (rest ++ 0 :: junk')).tmp = workPath path := by
      rw [(scanTmp_eq hfirst hnul.2 junk').2, mkdirLoop_eq (Underway.first fs cwd c) hlen,
        workPath_eq_slashTail, hcase]
      rfl
    simp only [List.cons_append, List.take_succ_cons, List.take_zero, List.drop_succ_cons, List.drop_zero]
      at hresult ⊢
    rw [hlast] at hresult ⊢
    rw [tried_iff hcase, List.mem_append, List.mem_append, or_and_right, hloop, List.mem_singleton,
      CopyEvent.makes.injEq]
    simp only [not_makes_trimEvents, false_or]
    refine or_congr_right (and_congr_right ?_)
    rintro rfl
    rw [← hresult]
    exact eq_comm.trans decide_eq_true_iff

end

/-! ## Names -/

/-- A name for a directory on the way: the path itself, or what is before one of its slashes. -/
def Named (path q : List UInt8) : Prop := q = path ∨ q ++ [47] <+: path

/-- The part is not read as it is written: it has a backslash after its first character, or it ends
before the path does and no slash follows. -/
def Misread (path before : List UInt8) : Prop :=
  92 ∈ before.tail ∨ before ≠ path ∧ path[before.length]? ≠ some 47

section

variable {path before : List UInt8}

theorem length_slashTail (before : List UInt8) : (slashTail before).length = before.length := by
  cases before with
  | nil => rfl
  | cons c rest => rw [slashTail, List.length_cons, List.length_cons, List.length_map]

theorem slashed_ne (c : UInt8) : slashed c ≠ 92 := by
  unfold slashed
  split
  · decide
  · rintro rfl
    contradiction

theorem slashTail_eq_iff : slashTail before = before ↔ 92 ∉ before.tail := by
  cases before with
  | nil => exact iff_of_true rfl List.not_mem_nil
  | cons c rest =>
    rw [slashTail, List.tail_cons, List.cons.injEq, and_iff_right rfl]
    constructor
    · intro h hmem
      rw [← h] at hmem
      obtain ⟨d, -, hd⟩ := List.mem_map.mp hmem
      exact slashed_ne d hd
    · intro h
      conv_rhs => rw [← List.map_id rest]
      apply List.map_congr_left
      intro d hd
      apply slashed_eq
      rintro rfl
      exact h hd

theorem mkdirTmp_prefix (path : List UInt8) : mkdirTmp path <+: path := by
  have htake := List.take_prefix (pathMax - 1) path
  unfold mkdirTmp
  dsimp only
  split
  · exact htake
  · split
    · exact (List.dropLast_prefix _).trans htake
    · exact htake

theorem Tried.isPrefix (h : Tried path before) : before <+: path := by
  rcases h with rfl | ⟨-, c, after, heq, -⟩
  · exact mkdirTmp_prefix path
  · exact (List.prefix_append before (c :: after)).trans (heq ▸ mkdirTmp_prefix path)

theorem named_slashTail_iff (h : before <+: path) :
    Named path (slashTail before) ↔ ¬ Misread path before := by
  obtain ⟨rest, rfl⟩ := h
  have hnext : (before ++ rest)[before.length]? = rest.head? := by
    rw [List.getElem?_append_right (Nat.le_refl _), Nat.sub_self, List.head?_eq_getElem?]
  have hend : before ≠ before ++ rest ↔ rest ≠ [] := by
    rw [ne_eq, ne_eq, eq_comm, List.append_right_eq_self]
  unfold Named Misread
  rw [hnext, hend, not_or, ← slashTail_eq_iff, not_and_or, not_not, not_not]
  constructor
  · rintro (heq | hpre)
    · have hlen := congrArg List.length heq
      rw [length_slashTail, List.length_append] at hlen
      have hnil : rest = [] := List.eq_nil_of_length_eq_zero (by omega)
      rw [hnil, List.append_nil] at heq
      exact ⟨heq, .inl hnil⟩
    · obtain ⟨tail, htail⟩ := hpre
      rw [List.append_assoc] at htail
      obtain ⟨hsame, rfl⟩ := List.append_inj htail (length_slashTail before)
      exact ⟨hsame, .inr rfl⟩
  · rintro ⟨hsame, rfl | hhead⟩
    · rw [List.append_nil]
      exact .inl hsame
    · cases rest with
      | nil => cases hhead
      | cons c rest =>
        obtain rfl := Option.some.inj hhead
        rw [hsame]
        exact .inr ⟨rest, by rw [List.append_assoc]; rfl⟩

theorem mkdirTmp_eq_nil_iff : mkdirTmp path = [] ↔ path = [] ∨ path = [47] ∨ path = [92] := by
  constructor
  · intro h
    have hfits : ∀ c rest, path = c :: rest → path.take (pathMax - 1) = c :: rest.take (pathMax - 2) := by
      rintro c rest rfl
      rfl
    cases path with
    | nil => exact .inl rfl
    | cons c rest =>
      have htake := hfits c rest rfl
      unfold mkdirTmp at h
      dsimp only at h
      rw [htake] at h
      cases rest with
      | nil =>
        split at h
        next => cases h
        next d hlast =>
          obtain rfl : c = d := Option.some.inj hlast
          split at h
          next hsep =>
            have hc : c = 47 ∨ c = 92 := by simpa [isSep] using hsep
            rcases hc with rfl | rfl
            · exact .inr (.inl rfl)
            · exact .inr (.inr rfl)
          next => cases h
      | cons d rest =>
        split at h
        next => cases h
        next =>
          split at h
          next => cases h
          next => cases h
  · rintro (rfl | rfl | rfl) <;> rfl

end

/-! ## What is expected of the copy -/

section

variable (fs : FileSystem) (cwd : Loc Name) (path : PathString)

/-- What is expected of `mkdirSync(path, {recursive: true})`, whatever is in the buffer before. -/
structure TmpKept : Prop where
  /-- Nothing behind the NUL of the copy is read. -/
  reads : ∀ junk, junk.length = pathMax → ∀ i t,
    .reads i t ∈ (mkdirRecursiveTmp cwd junk fs path.chars).2.events → i ≤ t
  /-- Directories are made by the names that are on the way. -/
  named : ∀ junk, junk.length = pathMax → ∀ q,
    .makes q true ∈ (mkdirRecursiveTmp cwd junk fs path.chars).2.events → Named path.chars q
  /-- A path that is too long is refused. -/
  long : pathMax ≤ path.chars.length → (jsFsMkdirSync cwd fs path.chars true).1 ≠ .ok ()

end

/-- The expectation is met by a path that is more than one separator, if no part of it that is misread
is a new directory that could be made, and by a path that is too long only if what is worked on is none. -/
theorem mkdirSync_copy_iff (fs : FileSystem) (cwd : Loc Name) (path : PathString) :
    TmpKept fs cwd path ↔
      ¬ (path.chars = [] ∨ path.chars = [47] ∨ path.chars = [92]) ∧
      (∀ before, Tried path.chars before → Misread path.chars before →
        ¬ Creates fs cwd (slashTail before)) ∧
      (pathMax ≤ path.chars.length → ¬ Creates fs cwd (workPath path.chars)) := by
  have hjunk : (List.replicate pathMax (0 : UInt8)).length = pathMax := List.length_replicate
  rw [← mkdirTmp_eq_nil_iff, ← mkdirRecursive_ok_iff, ← jsFsMkdirSync_ok_iff]
  constructor
  · intro h
    have hwork : mkdirTmp path.chars ≠ [] := by
      intro hnil
      exact absurd (h.reads _ hjunk 1 0 (mkdirRecursiveTmp_overreads _ path.noNul hnil)) (by decide)
    refine ⟨hwork, fun before htried hmisread hcreates ↦ ?_, h.long⟩
    have hnamed := h.named _ hjunk (slashTail before)
      ((mkdirRecursiveTmp_makes _ path.noNul hwork).mpr ⟨⟨before, htried, rfl⟩, hcreates⟩)
    exact (named_slashTail_iff htried.isPrefix).mp hnamed hmisread
  · rintro ⟨hwork, hparts, hlong⟩
    refine ⟨fun junk _ i t ↦ mkdirRecursiveTmp_reads junk path.noNul hwork, fun junk _ q hmakes ↦ ?_, hlong⟩
    obtain ⟨⟨before, htried, rfl⟩, hcreates⟩ := (mkdirRecursiveTmp_makes junk path.noNul hwork).mp hmakes
    by_contra hnot
    exact hparts before htried (not_not.mp (mt (named_slashTail_iff htried.isPrefix).mpr hnot)) hcreates

/-- `mkdirSync("p\\o", {recursive: true})` makes a directory `p`, which is no directory on the way. -/
theorem mkdirSync_backslash :
    ¬ TmpKept (Tree.empty : FileSystem) [] ⟨[112, 92, 111], by decide⟩ := by
  intro h
  have hjunk : (List.replicate pathMax (0 : UInt8)).length = pathMax := List.length_replicate
  have hnew : Creates (Tree.empty : FileSystem) [] [112] :=
    ⟨by decide, [], ⟨[112], by decide⟩, _, [], by decide, .start rfl, .done maxLinks [], by decide⟩
  have htried : Tried [112, 92, 111] [112] := .inr ⟨by decide, 92, [111], by decide, by decide⟩
  have hmakes := (mkdirRecursiveTmp_makes (List.replicate pathMax 0) (by decide) (by decide)).mpr
    ⟨⟨[112], htried, rfl⟩, hnew⟩
  rcases h.named _ hjunk [112] hmakes with heq | hpre
  · exact absurd heq (by decide)
  · exact absurd hpre (by decide)

end QNode.Fs
