import Mathlib.Data.List.DropRight
import QNode.Fs.Rm
import QNode.Library.MakeDirs

/-!
# mkdirSync

`mkdir_recursive` calls `mkdir` at every separator of the path, whatever comes of it, and once more at
the end.  Only the last call decides: it fails if the directory is there.
-/

open FileTree

namespace QNode.Fs

section

variable (fs : FileSystem) (cwd : Loc Name)

/-- The name that `mkdir` adds and the directory it adds it to. -/
def mkdirTarget (path : List UInt8) : Except Errno (Name × Loc Name) :=
  match locate fs cwd true path (parsePath path).comps.dropLast with
  | .error err => .error err
  | .ok ℓ =>
    match fs.lookup ℓ with
    | none => .error .noent
    | some .dir =>
      match (parsePath path).comps.getLast? with
      | none | some .here | some .up => .error .exist
      | some .bad => .error .nametoolong
      | some (.name n) =>
        match fs.lookup (n :: ℓ) with
        | none => .ok (n, ℓ)
        | some _ => .error .exist
    | some _ => .error .notdir

/-- What a call of `mkdir` returns, and the tree after it. -/
def mkdir (path : List UInt8) : Except Errno Unit × FileSystem :=
  match mkdirTarget fs cwd path with
  | .error err => (.error err, fs)
  | .ok (n, ℓ) => (.ok (), fs.add n ℓ .dir)

end

/-- Both separators count on every system. -/
def isSep (c : UInt8) : Bool := c = 47 || c = 92

/-- `tmp` before the loop: what fits of the path, without a separator at its end. -/
def mkdirTmp (path : List UInt8) : List UInt8 :=
  let tmp := path.take (pathMax - 1)
  match tmp.getLast? with
  | none => tmp
  | some c => if isSep c then tmp.dropLast else tmp

section

variable (cwd : Loc Name)

/-- The loop `for (p = tmp + 1; *p; p++)` with `done` before `p` and `rest` from `p` on. -/
def mkdirLoop : FileSystem → List UInt8 → List UInt8 → FileSystem × List UInt8
  | fs, done, [] => (fs, done)
  | fs, done, c :: rest =>
    if isSep c then mkdirLoop (mkdir fs cwd done).2 (done ++ [47]) rest
    else mkdirLoop fs (done ++ [c]) rest

/-- The error is the `errno` of the last call. -/
def mkdirRecursive (fs : FileSystem) (path : List UInt8) : Except Errno Unit × FileSystem :=
  let (fs, tmp) :=
    match mkdirTmp path with
    | [] => (fs, [])
    | c :: rest => mkdirLoop cwd fs [c] rest
  mkdir fs cwd tmp

def jsFsMkdirSync (fs : FileSystem) (path : List UInt8) (recursive : Bool) :
    Except FsError Unit × FileSystem :=
  match if recursive then mkdirRecursive cwd fs path else mkdir fs cwd path with
  | (.error err, fs) => (.error (jsFsThrowError err path "mkdir"), fs)
  | (.ok (), fs) => (.ok (), fs)

end

/-! ## One call of mkdir -/

section

variable {fs : FileSystem} {cwd : Loc Name} {path : List UInt8}

theorem mkdirTarget_eq_ok_iff {n : Name} {ℓ : Loc Name} : mkdirTarget fs cwd path = .ok (n, ℓ) ↔
    path ≠ [] ∧ path.length < pathMax ∧ ∃ init, (parsePath path).comps = init ++ [.name n] ∧
      fs.Resolves true maxLinks (startOf cwd path) init ℓ ∧ fs.lookup ℓ = some .dir ∧
      fs.lookup (n :: ℓ) = none := by
  unfold mkdirTarget
  constructor
  · intro h
    split at h
    next => cases h
    next found hloc =>
      obtain ⟨hempty, hlen, hres⟩ := locate_eq_ok_iff.mp hloc
      split at h
      next => cases h
      next hdir =>
        split at h
        next => cases h
        next => cases h
        next => cases h
        next => cases h
        next m hlast =>
          split at h
          next hnone =>
            obtain ⟨rfl, rfl⟩ := Prod.mk.inj (Except.ok.inj h)
            exact ⟨hempty, hlen, _, (List.dropLast_append_getLast? _ hlast).symm, hres, hdir, hnone⟩
          next => cases h
      next => cases h
  · rintro ⟨hempty, hlen, init, hcomps, hres, hdir, hnone⟩
    have hloc : locate fs cwd true path init = .ok ℓ := locate_eq_ok_iff.mpr ⟨hempty, hlen, hres⟩
    rw [hcomps, List.dropLast_concat, List.getLast?_concat, hloc]
    dsimp only
    rw [hdir]
    dsimp only
    rw [hnone]

theorem mkdir_ok_iff : (mkdir fs cwd path).1 = .ok () ↔ ∃ n ℓ, mkdirTarget fs cwd path = .ok (n, ℓ) := by
  unfold mkdir
  cases mkdirTarget fs cwd path with
  | error err => simp
  | ok target =>
    obtain ⟨n, ℓ⟩ := target
    simp

-- The tree after a call, whether it fails or not.
theorem mkdir_tree (hlen : path.length < pathMax) :
    (mkdir fs cwd path).2 = fs.makeLast maxLinks (startOf cwd path) (parsePath path).comps := by
  unfold mkdir
  cases htarget : mkdirTarget fs cwd path with
  | ok target =>
    obtain ⟨n, ℓ⟩ := target
    obtain ⟨-, -, init, hcomps, hres, -, -⟩ := mkdirTarget_eq_ok_iff.mp htarget
    rw [hcomps, Tree.makeLast_add hres]
  | error err =>
    rcases List.eq_nil_or_concat' (parsePath path).comps with hcomps | ⟨init, c, hcomps⟩
    · rw [hcomps]
      rfl
    · rw [hcomps]
      rcases Tree.makeLast_cases maxLinks (startOf cwd path) fs init c with
        hsame | ⟨n, ℓ, rfl, hres, hdir, hnone, -⟩
      · exact hsame.symm
      · have hempty : path ≠ [] := by
          rintro rfl
          cases init <;> cases hcomps
        have hroom := mkdirTarget_eq_ok_iff.mpr ⟨hempty, hlen, init, hcomps, hres, hdir, hnone⟩
        rw [hroom] at htarget
        cases htarget

end

/-! ## The loop over the separators -/

/-- What the loop writes over a character. -/
def slashed (c : UInt8) : UInt8 := if isSep c then 47 else c

/-- The path that the last call gets. -/
def workPath (path : List UInt8) : List UInt8 :=
  match mkdirTmp path with
  | [] => []
  | c :: rest => c :: rest.map slashed

/-- What ends with a slash: the directories up to here have been tried. -/
def settled (done : List UInt8) : List UInt8 := done.rdropWhile (· ≠ 47)

theorem getLast?_settled {done : List UInt8} (h : settled done ≠ []) :
    (settled done).getLast? = some 47 := by
  have hlast := @List.rdropWhile_last_not _ (fun c ↦ decide (c ≠ 47)) done h
  rw [List.getLast?_eq_some_getLast h]
  simpa [settled] using hlast

theorem comps_settled_append {done seg : List UInt8} (h : 47 ∉ seg) (hne : seg ≠ [])
    (hsplit : settled done ++ seg = done) :
    (parsePath done).comps = (parsePath (settled done)).comps ++ [parseComp seg] := by
  rw [← comps_of_not_mem h hne]
  rcases List.eq_nil_or_concat' (settled done) with hnil | ⟨init, c, hinit⟩
  · rw [hnil] at hsplit ⊢
    rw [← hsplit]
    rfl
  · have hslash : (settled done).getLast? = some 47 := by
      apply getLast?_settled
      rw [hinit]
      exact List.concat_ne_nil c init
    rw [hinit, List.getLast?_concat] at hslash
    obtain rfl := Option.some.inj hslash
    rw [hinit] at hsplit ⊢
    rw [← hsplit, comps_slash, List.append_assoc]
    exact comps_append init seg

/-- A path is settled, or it has one component more than what is settled of it. -/
theorem comps_settled (done : List UInt8) :
    settled done = done ∨
    done.getLast? ≠ some 47 ∧
      ∃ c, (parsePath done).comps = (parsePath (settled done)).comps ++ [c] := by
  have hsplit : settled done ++ done.rtakeWhile (· ≠ 47) = done := List.rdropWhile_append_rtakeWhile
  have hseg : 47 ∉ done.rtakeWhile (· ≠ 47) := by
    intro hmem
    exact absurd (List.mem_rtakeWhile_imp hmem) (by decide)
  generalize done.rtakeWhile (· ≠ 47) = seg at hsplit hseg
  rcases List.eq_nil_or_concat' seg with rfl | ⟨init, c, rfl⟩
  · rw [List.append_nil] at hsplit
    exact .inl hsplit
  · refine .inr ⟨?_, _, comps_settled_append hseg (List.concat_ne_nil c init) hsplit⟩
    have hc : c ≠ 47 := by
      rintro rfl
      exact hseg (List.mem_append_right init List.mem_cons_self)
    rw [← hsplit, ← List.append_assoc, List.getLast?_concat]
    exact fun h ↦ hc (Option.some.inj h)

section

variable {fs : FileSystem} {cwd : Loc Name} {path : List UInt8}

-- The last component is all that the settled part may lack.
theorem makeLast_settled (fs : FileSystem) (start : Loc Name) (done : List UInt8) :
    (fs.makeDirs maxLinks start (parsePath (settled done)).comps).makeLast maxLinks start
      (parsePath done).comps = fs.makeDirs maxLinks start (parsePath done).comps := by
  rcases comps_settled done with hsettled | ⟨-, c, hcomps⟩
  · rw [hsettled]
    exact Tree.makeLast_makeDirs fs _
  · rw [hcomps]
    exact (Tree.makeDirs_concat fs _ c).symm

theorem settled_slash (done : List UInt8) : settled (done ++ [47]) = done ++ [47] :=
  List.rdropWhile_concat_neg _ _ _ (by decide)

theorem settled_concat (done : List UInt8) {c : UInt8} (h : c ≠ 47) :
    settled (done ++ [c]) = settled done :=
  List.rdropWhile_concat_pos _ _ _ (by simpa using h)

/-- The invariant of the loop, from the tree `fs₀`: the directories of the settled part are made. -/
structure Underway (fs₀ : FileSystem) (cwd start : Loc Name) (fs : FileSystem) (done : List UInt8) :
    Prop where
  ne : done ≠ []
  startsAt : startOf cwd done = start
  made : fs = fs₀.makeDirs maxLinks start (parsePath (settled done)).comps

theorem Underway.first (fs : FileSystem) (cwd : Loc Name) (c : UInt8) :
    Underway fs cwd (startOf cwd [c]) fs [c] := by
  refine ⟨List.cons_ne_nil c [], rfl, ?_⟩
  have hfirst : (parsePath (settled [c])).comps = [] := by
    by_cases hc : c = 47
    · subst hc
      rfl
    · have hsettled : settled [c] = [] := settled_concat [] hc
      rw [hsettled]
      rfl
  rw [hfirst]
  rfl

theorem Underway.sep {fs₀ : FileSystem} {start : Loc Name} {done : List UInt8}
    (h : Underway fs₀ cwd start fs done) (hlen : done.length < pathMax) :
    Underway fs₀ cwd start (mkdir fs cwd done).2 (done ++ [47]) := by
  refine ⟨List.concat_ne_nil 47 done, (startOf_append h.ne [47]).trans h.startsAt, ?_⟩
  rw [mkdir_tree hlen, h.made, h.startsAt, makeLast_settled, settled_slash, comps_slash]

theorem Underway.other {fs₀ : FileSystem} {start : Loc Name} {done : List UInt8} {c : UInt8}
    (h : Underway fs₀ cwd start fs done) (hc : c ≠ 47) : Underway fs₀ cwd start fs (done ++ [c]) := by
  refine ⟨List.concat_ne_nil c done, (startOf_append h.ne [c]).trans h.startsAt, ?_⟩
  rw [settled_concat done hc]
  exact h.made

theorem ne_slash_of_not_sep {c : UInt8} (h : ¬ isSep c) : c ≠ 47 := by
  rintro rfl
  exact h rfl

theorem mkdirLoop_eq {fs₀ : FileSystem} {start : Loc Name} {done rest : List UInt8}
    (h : Underway fs₀ cwd start fs done) (hlen : (done ++ rest).length < pathMax) :
    mkdirLoop cwd fs done rest =
      (fs₀.makeDirs maxLinks start (parsePath (settled (done ++ rest.map slashed))).comps,
        done ++ rest.map slashed) := by
  induction rest generalizing fs done with
  | nil => rw [mkdirLoop, List.map_nil, List.append_nil, h.made]
  | cons c rest ih =>
    have hdone : done.length < pathMax := by
      rw [List.length_append] at hlen
      omega
    have hfits : ∀ d, (done ++ [d] ++ rest).length < pathMax := by
      intro d
      simpa using hlen
    rw [mkdirLoop, List.map_cons]
    by_cases hsep : isSep c
    · rw [if_pos hsep, slashed, if_pos hsep, ih (h.sep hdone) (hfits 47), List.append_assoc]
      rfl
    · rw [if_neg hsep, slashed, if_neg hsep, ih (h.other (ne_slash_of_not_sep hsep)) (hfits c),
        List.append_assoc]
      rfl

theorem length_mkdirTmp (path : List UInt8) : (mkdirTmp path).length < pathMax := by
  have htake : (path.take (pathMax - 1)).length < pathMax := by
    rw [List.length_take]
    have : 0 < pathMax := by decide
    omega
  unfold mkdirTmp
  dsimp only
  split
  next => exact htake
  next =>
    split
    · rw [List.length_dropLast]
      omega
    · exact htake

theorem length_workPath (path : List UInt8) : (workPath path).length < pathMax := by
  have hlen := length_mkdirTmp path
  unfold workPath
  cases htmp : mkdirTmp path with
  | nil => decide
  | cons c rest =>
    rw [htmp] at hlen
    simpa using hlen

-- The tree before the last call.
theorem mkdirRecursive_eq (fs : FileSystem) (cwd : Loc Name) (path : List UInt8) :
    mkdirRecursive cwd fs path =
      mkdir (fs.makeDirs maxLinks (startOf cwd (workPath path))
        (parsePath (settled (workPath path))).comps) cwd (workPath path) := by
  have hlen := length_mkdirTmp path
  unfold mkdirRecursive workPath
  cases htmp : mkdirTmp path with
  | nil => rfl
  | cons c rest =>
    rw [htmp] at hlen
    dsimp only
    rw [mkdirLoop_eq (Underway.first fs cwd c) hlen]
    rfl

end

/-! ## What a call leaves, and when it returns -/

section

variable (fs : FileSystem) (cwd : Loc Name) (path : List UInt8)

/-- The tree with all directories of the path, as far as there is room for them. -/
def withDirs : FileSystem := fs.makeDirs maxLinks (startOf cwd path) (parsePath path).comps

/-- All directories of the path can be made or are there. -/
def Makeable : Prop := ∃ fs', Tree.Made maxLinks (startOf cwd path) fs (parsePath path).comps fs'

/-- The last directory of the path is missing, all others can be made or are there, and no slash comes
after the last. -/
def Creates : Prop :=
  path.getLast? ≠ some 47 ∧ Tree.LastIsNew maxLinks (startOf cwd path) fs (parsePath path).comps

end

section

variable {fs : FileSystem} {cwd : Loc Name} {path : List UInt8}

theorem mkdirRecursive_tree (fs : FileSystem) (cwd : Loc Name) (path : List UInt8) :
    (mkdirRecursive cwd fs path).2 = withDirs fs cwd (workPath path) := by
  rw [mkdirRecursive_eq, mkdir_tree (length_workPath path)]
  exact makeLast_settled fs _ _

-- The call for a path whose settled part has been made: it makes a directory only if the last is a new one.
theorem mkdir_settled_ok_iff {q : List UInt8} (hlen : q.length < pathMax) :
    (mkdir (fs.makeDirs maxLinks (startOf cwd q) (parsePath (settled q)).comps) cwd q).1 = .ok () ↔
      Creates fs cwd q := by
  rw [mkdir_ok_iff]
  constructor
  · rintro ⟨n, ℓ, htarget⟩
    obtain ⟨-, -, init, hcomps, hres, hdir, hnone⟩ := mkdirTarget_eq_ok_iff.mp htarget
    rcases comps_settled q with hsettled | ⟨hslash, c, hcomps'⟩
    · -- the last directory would have been made before
      rw [hsettled] at hres hdir hnone
      have hthere : (Tree.add _ n ℓ .dir).lookup (n :: ℓ) = some .dir := Tree.lookup_add_self hdir hnone
      rw [← Tree.makeLast_add hres, ← hcomps, Tree.makeLast_makeDirs, hnone] at hthere
      cases hthere
    · obtain ⟨rfl, -⟩ := List.append_inj' (hcomps.symm.trans hcomps') rfl
      exact ⟨hslash, _, n, _, ℓ, hcomps, Tree.LeadsToDir.made ⟨ℓ, hres, hdir⟩, hres, hnone⟩
  · rintro ⟨hslash, init, n, fs', ℓ, hcomps, hmade, hres, hnone⟩
    have hempty : q ≠ [] := by
      rintro rfl
      cases init <;> cases hcomps
    rcases comps_settled q with hsettled | ⟨-, c, hcomps'⟩
    · rw [← hsettled] at hslash hempty
      exact absurd (getLast?_settled hempty) hslash
    · obtain ⟨rfl, -⟩ := List.append_inj' (hcomps.symm.trans hcomps') rfl
      obtain ⟨ℓ', hres', hdir⟩ := hmade.leadsToDir
      obtain rfl := hres.unique hres'
      rw [hmade.eq_makeDirs] at hres hdir hnone
      exact ⟨n, ℓ, mkdirTarget_eq_ok_iff.mpr ⟨hempty, hlen, _, hcomps, hres, hdir, hnone⟩⟩

/-- The call returns normally only if the last directory is a new one. -/
theorem mkdirRecursive_ok_iff :
    (mkdirRecursive cwd fs path).1 = .ok () ↔ Creates fs cwd (workPath path) := by
  rw [mkdirRecursive_eq]
  exact mkdir_settled_ok_iff (length_workPath path)

-- A failed call fails again in the same way.
theorem mkdirRecursive_again (h : (mkdirRecursive cwd fs path).1 ≠ .ok ()) :
    mkdirRecursive cwd (mkdirRecursive cwd fs path).2 path = mkdirRecursive cwd fs path := by
  rw [mkdirRecursive_eq] at h
  rw [mkdirRecursive_eq fs, mkdirRecursive_eq]
  generalize startOf cwd (workPath path) = start at h
  generalize (parsePath (settled (workPath path))).comps = cs at h
  have hsame : (fs.makeDirs maxLinks start cs).makeDirs maxLinks start cs = _ :=
    Tree.makeDirs_makeDirs fs cs
  generalize fs.makeDirs maxLinks start cs = fs₁ at h hsame
  have hkept : (mkdir fs₁ cwd (workPath path)).2 = fs₁ := by
    unfold mkdir at h ⊢
    cases htarget : mkdirTarget fs₁ cwd (workPath path) with
    | error err => rfl
    | ok target =>
      rw [htarget] at h
      exact absurd rfl h
  rw [hkept, hsame]

-- A call that has made its directory fails when it is made again.
theorem mkdirRecursive_twice (h : (mkdirRecursive cwd fs path).1 = .ok ()) :
    (mkdirRecursive cwd (mkdirRecursive cwd fs path).2 path).1 ≠ .ok () := by
  obtain ⟨-, hnew⟩ := mkdirRecursive_ok_iff.mp h
  obtain ⟨fs', hmade⟩ := hnew.made
  rw [mkdirRecursive_tree, withDirs, ← hmade.eq_makeDirs]
  intro hagain
  exact hmade.not_lastIsNew (mkdirRecursive_ok_iff.mp hagain).2

theorem le_mkdirRecursive (fs : FileSystem) (cwd : Loc Name) (path : List UInt8) :
    fs.Le (mkdirRecursive cwd fs path).2 := by
  rw [mkdirRecursive_tree]
  exact Tree.le_makeDirs fs _

theorem jsFsMkdirSync_tree (fs : FileSystem) (cwd : Loc Name) (path : List UInt8) :
    (jsFsMkdirSync cwd fs path true).2 = (mkdirRecursive cwd fs path).2 := by
  unfold jsFsMkdirSync
  rw [if_pos rfl]
  split <;> simp [*]

theorem jsFsMkdirSync_ok_iff :
    (jsFsMkdirSync cwd fs path true).1 = .ok () ↔ (mkdirRecursive cwd fs path).1 = .ok () := by
  unfold jsFsMkdirSync
  rw [if_pos rfl]
  split <;> simp [*]

end

/-! ## The call and the directory it is for -/

section

variable (fs : FileSystem) (cwd : Loc Name) (path : List UInt8)

/-- What is expected of `mkdirSync(path, {recursive: true})`. -/
structure MkdirKept : Prop where
  /-- It returns normally if and only if the path is a directory then. -/
  dir_iff : (jsFsMkdirSync cwd fs path true).1 = .ok () ↔
    stat (jsFsMkdirSync cwd fs path true).2 cwd path = .ok .dir
  /-- If the path is a directory, it returns normally and changes nothing. -/
  existing : stat fs cwd path = .ok .dir → jsFsMkdirSync cwd fs path true = (.ok (), fs)
  /-- A second call has the same outcome and leaves the same tree. -/
  twice : jsFsMkdirSync cwd (jsFsMkdirSync cwd fs path true).2 path true =
    jsFsMkdirSync cwd fs path true

/-- The path that is worked on has the same components. -/
def Plain : Prop := 92 ∉ path ∧ path.length < pathMax

end

section

variable {fs : FileSystem} {cwd : Loc Name} {path : List UInt8}

theorem stat_dir_iff : stat fs cwd path = .ok .dir ↔ path ≠ [] ∧ path.length < pathMax ∧
    Tree.LeadsToDir maxLinks (startOf cwd path) fs (parsePath path).comps := by
  rw [stat_eq_ok_iff, ← Tree.leadsToDir_full]
  constructor
  · rintro ⟨ℓ, hloc, hdir⟩
    obtain ⟨hempty, hlen, hres⟩ := locate_eq_ok_iff.mp hloc
    exact ⟨hempty, hlen, ℓ, hres, hdir⟩
  · rintro ⟨hempty, hlen, ℓ, hres, hdir⟩
    exact ⟨ℓ, locate_eq_ok_iff.mpr ⟨hempty, hlen, hres⟩, hdir⟩

-- The expectation is met only by calls that fail and come to no directory.
theorem mkdirKept_iff_failed : MkdirKept fs cwd path ↔
    ¬ Creates fs cwd (workPath path) ∧ stat (withDirs fs cwd (workPath path)) cwd path ≠ .ok .dir := by
  rw [← mkdirRecursive_ok_iff, ← mkdirRecursive_tree]
  constructor
  · intro h
    have hdir := h.dir_iff
    rw [jsFsMkdirSync_ok_iff, jsFsMkdirSync_tree] at hdir
    have hfails : ¬ (mkdirRecursive cwd fs path).1 = .ok () := by
      intro hok
      have hagain := congrArg Prod.fst h.twice
      rw [jsFsMkdirSync_ok_iff.mpr hok, jsFsMkdirSync_ok_iff, jsFsMkdirSync_tree] at hagain
      exact mkdirRecursive_twice hok hagain
    exact ⟨hfails, fun hstat ↦ hfails (hdir.mpr hstat)⟩
  · rintro ⟨hfails, hstat⟩
    refine ⟨?_, ?_, ?_⟩
    · rw [jsFsMkdirSync_ok_iff, jsFsMkdirSync_tree]
      exact iff_of_false hfails hstat
    · intro hdir
      obtain ⟨hempty, hlen, hleads⟩ := stat_dir_iff.mp hdir
      have hle := le_mkdirRecursive fs cwd path
      exact absurd (stat_dir_iff.mpr ⟨hempty, hlen, hleads.mono hle⟩) hstat
    · rw [jsFsMkdirSync_tree]
      unfold jsFsMkdirSync
      rw [if_pos rfl, if_pos rfl, mkdirRecursive_again hfails]

theorem slashed_eq {c : UInt8} (h : c ≠ 92) : slashed c = c := by
  unfold slashed isSep
  by_cases hc : c = 47
  · subst hc
    rfl
  · rw [if_neg (by simp [hc, h])]

theorem workPath_eq (h : 92 ∉ mkdirTmp path) : workPath path = mkdirTmp path := by
  unfold workPath
  cases htmp : mkdirTmp path with
  | nil => rfl
  | cons c rest =>
    rw [htmp] at h
    have hrest : rest.map slashed = rest := by
      rw [List.map_congr_left (g := id), List.map_id]
      intro d hd
      apply slashed_eq
      rintro rfl
      exact h (List.mem_cons_of_mem c hd)
    dsimp only
    rw [hrest]

-- A plain path is worked on as it is, but for one slash at its end.
theorem workPath_plain (hpath : path ≠ []) (h : Plain path) :
    workPath path = path ∨ path = workPath path ++ [47] := by
  obtain ⟨hsep, hlen⟩ := h
  obtain ⟨init, c, rfl⟩ := (List.eq_nil_or_concat' path).resolve_left hpath
  have hfits : (init ++ [c]).take (pathMax - 1) = init ++ [c] := List.take_of_length_le (by omega)
  have hc : c ≠ 92 := by
    rintro rfl
    exact hsep (List.mem_append_right init List.mem_cons_self)
  have htmp : mkdirTmp (init ++ [c]) = if isSep c then init else init ++ [c] := by
    unfold mkdirTmp
    dsimp only
    rw [hfits, List.getLast?_concat, List.dropLast_concat]
  by_cases hslash : isSep c
  · rw [if_pos hslash] at htmp
    have hinit : 92 ∉ mkdirTmp (init ++ [c]) := by
      rw [htmp]
      exact fun hmem ↦ hsep (List.mem_append_left [c] hmem)
    have hc' : c = 47 := by simpa [isSep, hc] using hslash
    rw [workPath_eq hinit, htmp, hc']
    exact .inr rfl
  · rw [if_neg hslash] at htmp
    have hall : 92 ∉ mkdirTmp (init ++ [c]) := by
      rw [htmp]
      exact hsep
    rw [workPath_eq hall, htmp]
    exact .inl rfl

-- What is worked on leads where the path leads.
theorem workPath_leads (hpath : path ≠ []) (h : Plain path) (hroot : path ≠ [47]) :
    startOf cwd (workPath path) = startOf cwd path ∧
      (parsePath (workPath path)).comps = (parsePath path).comps := by
  rcases workPath_plain hpath h with hsame | hslash
  · rw [hsame]
    exact ⟨rfl, rfl⟩
  · have hwork : workPath path ≠ [] := by
      intro hnil
      rw [hnil] at hslash
      exact hroot hslash
    generalize workPath path = q at hslash hwork
    rw [hslash, startOf_append hwork, comps_slash]
    exact ⟨rfl, rfl⟩

theorem stat_withDirs_iff (hpath : path ≠ []) (hlen : path.length < pathMax) :
    stat (withDirs fs cwd path) cwd path = .ok .dir ↔ Makeable fs cwd path := by
  rw [stat_dir_iff, and_iff_right hpath, and_iff_right hlen]
  exact Tree.leadsToDir_makeDirs_iff

-- The root is a directory, but the path worked on is empty.
theorem mkdirKept_root : MkdirKept fs cwd [47] ↔ ¬ Makeable fs cwd [47] := by
  have hmakeable : Makeable fs cwd [47] := ⟨fs, .start rfl⟩
  rw [mkdirKept_iff_failed]
  constructor
  · rintro ⟨-, hstat⟩
    exact absurd (stat_dir_iff.mpr ⟨by decide, by decide, [], .done maxLinks [], rfl⟩) hstat
  · exact fun h ↦ absurd hmakeable h

theorem mkdirKept_plain (hpath : path ≠ []) (h : Plain path) :
    MkdirKept fs cwd path ↔ ¬ Makeable fs cwd path := by
  by_cases hroot : path = [47]
  · rw [hroot]
    exact mkdirKept_root
  · obtain ⟨hstart, hcomps⟩ := @workPath_leads cwd path hpath h hroot
    have hwith : withDirs fs cwd (workPath path) = withDirs fs cwd path := by
      rw [withDirs, withDirs, hstart, hcomps]
    rw [mkdirKept_iff_failed, hwith]
    constructor
    · rintro ⟨-, hstat⟩ hmakeable
      exact hstat ((stat_withDirs_iff hpath h.2).mpr hmakeable)
    · intro hnot
      refine ⟨?_, fun hstat ↦ hnot ((stat_withDirs_iff hpath h.2).mp hstat)⟩
      rintro ⟨-, hnew⟩
      rw [hstart, hcomps] at hnew
      exact hnot hnew.made

end

/-- The expectation is met by a path without backslashes that fits precisely if its directories cannot
all be made, and by any other path if the last directory of the path worked on is not a new one and the
path is no directory, also not once the directories of the path worked on are there. -/
theorem mkdirSync_kept_iff (fs : FileSystem) (cwd : Loc Name) (path : List UInt8) (hpath : path ≠ []) :
    MkdirKept fs cwd path ↔
      Plain path ∧ ¬ Makeable fs cwd path ∨
      ¬ Plain path ∧ ¬ Creates fs cwd (workPath path) ∧
        stat (withDirs fs cwd (workPath path)) cwd path ≠ .ok .dir := by
  by_cases hplain : Plain path
  · rw [mkdirKept_plain hpath hplain]
    exact ⟨fun h ↦ .inl ⟨hplain, h⟩, fun h ↦ (h.resolve_right fun h ↦ h.1 hplain).2⟩
  · rw [mkdirKept_iff_failed]
    exact ⟨fun h ↦ .inr ⟨hplain, h⟩, fun h ↦ (h.resolve_left fun h ↦ hplain h.1).2⟩

/-- A file `/f` is in the way of `/f/d`. -/
theorem mkdirSync_kept_file :
    MkdirKept ((Tree.empty : FileSystem).add ⟨[102], by decide⟩ [] (.file [])) [] [47, 102, 47, 100] := by
  refine (mkdirSync_kept_iff _ _ _ (by decide)).mpr (.inl ⟨by unfold Plain; decide, ?_⟩)
  intro hmakeable
  have hstat := (stat_withDirs_iff (by decide) (by decide)).mpr hmakeable
  revert hstat
  decide

/-- `mkdirSync("/t", {recursive: true})` throws if the directory `/t` is there. -/
theorem mkdirSync_existing :
    ¬ MkdirKept ((Tree.empty : FileSystem).add ⟨[116], by decide⟩ [] .dir) [] [47, 116] := by
  intro h
  have hcall := congrArg Prod.fst (h.existing (by decide))
  revert hcall
  decide

end QNode.Fs
