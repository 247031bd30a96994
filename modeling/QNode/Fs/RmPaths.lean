import QNode.Fs.Open
import QNode.Fs.RmFrame
import QNode.Library.Subtrees

/-!
# The paths that rmSync spells

`rm_recursive` reaches an entry by the path of its directory, a slash and its name.  Where no link below
the path leads to a directory, it removes nothing but what has a short enough path of this kind.
-/

open FileTree

namespace QNode.Fs

/-- The path of an entry below `path`, whose location is given from there. -/
def pathTo (path : List UInt8) : Loc Name → List UInt8
  | [] => path
  | n :: r => pathTo path r ++ 47 :: n.bytes

section

variable {cwd : Loc Name} {path : List UInt8}

theorem comps_name (n : Name) : (parsePath n.bytes).comps = [.name n] := by
  have ⟨hne, hhere, hup, hslash, _, _⟩ := n.valid
  rw [comps_of_not_mem hslash hne, parseComp, if_neg hhere, if_neg hup, dif_pos n.valid]

theorem comps_pathTo (path : List UInt8) (n : Name) (r : Loc Name) :
    (parsePath (pathTo path (n :: r))).comps = (parsePath (pathTo path r)).comps ++ [.name n] := by
  rw [pathTo, comps_append, comps_name]

theorem slash_pathTo (path : List UInt8) (n : Name) (r : Loc Name) :
    (parsePath (pathTo path (n :: r))).slash = false := by
  have ⟨hne, _, _, hslash, _, _⟩ := n.valid
  have hlast : (pathTo path r ++ 47 :: n.bytes).getLast? = n.bytes.getLast? := by
    rw [List.getLast?_append_of_ne_nil _ (List.cons_ne_nil 47 n.bytes)]
    exact List.getLast?_cons_of_ne_nil hne
  show decide ((pathTo path r ++ 47 :: n.bytes).getLast? = some 47) = false
  rw [hlast, decide_eq_false_iff_not]
  exact fun h ↦ hslash (List.mem_of_getLast? h)

theorem full_pathTo (path : List UInt8) (n : Name) (r : Loc Name) :
    (parsePath (pathTo path (n :: r))).full = (parsePath (pathTo path (n :: r))).comps :=
  full_of_slash (slash_pathTo path n r)

theorem pathTo_ne_nil (h : path ≠ []) (r : Loc Name) : pathTo path r ≠ [] := by
  cases r with
  | nil => exact h
  | cons n r => simp [pathTo]

theorem startOf_pathTo (h : path ≠ []) (r : Loc Name) : startOf cwd (pathTo path r) = startOf cwd path := by
  induction r with
  | nil => rfl
  | cons n r ih => rw [pathTo, startOf_append (pathTo_ne_nil h r), ih]

theorem pathTo_append (path : List UInt8) (r s : Loc Name) :
    pathTo path (r ++ s) = pathTo (pathTo path s) r := by
  induction r with
  | nil => rfl
  | cons n r ih => rw [List.cons_append, pathTo, pathTo, ih]

theorem childPath_pathTo {n : Name} {r : Loc Name} (h : (pathTo path (n :: r)).length < pathMax) :
    childPath (pathTo path r) n.bytes = pathTo path (n :: r) :=
  List.take_of_length_le (Nat.le_sub_one_of_lt h)

-- An entry that `stat` finds to be a directory is recursed into.
theorem rmEntry_recurses {fs : FileSystem} {n : Name} (recurse : FileSystem → List UInt8 → FileSystem)
    (hshort : (pathTo path [n]).length < pathMax) (hstat : stat fs cwd (pathTo path [n]) = .ok .dir) :
    rmEntry cwd recurse path fs n.bytes = recurse fs (pathTo path [n]) := by
  have hchild : childPath path n.bytes = pathTo path [n] := childPath_pathTo hshort
  rw [rmEntry, if_neg (not_or.mpr ⟨n.valid.2.1, n.valid.2.2.1⟩), hchild]
  dsimp only
  rw [hstat]

end

/-! ## Where the paths lead -/

section

variable {fs fs' : FileSystem} {cwd : Loc Name} {path : List UInt8} {d ℓ : Loc Name}

theorem stat_of_opendir (h : opendir fs cwd path = .ok ℓ) : stat fs cwd path = .ok .dir := by
  obtain ⟨hloc, hdir⟩ := opendir_eq_ok_iff.mp h
  exact stat_eq_ok_iff.mpr ⟨ℓ, hloc, hdir⟩

-- An entry is where the path of its directory and its name lead.
theorem resolves_pathTo {start : Loc Name} {r : Loc Name}
    (h : fs.Resolves false maxLinks start (parsePath path).comps d)
    (hsome : (fs.lookup (r ++ d)).isSome) :
    fs.Resolves false maxLinks start (parsePath (pathTo path r)).comps (r ++ d) := by
  induction r with
  | nil => exact h
  | cons n r ih =>
    have hdir : fs.lookup (r ++ d) = some .dir := Tree.lookup_parent hsome
    have hparent := (ih (by rw [hdir]; rfl)).to_dir hdir
    rw [comps_pathTo]
    apply hparent.append (by simp)
    intro links
    obtain ⟨node, hnode⟩ := Option.isSome_iff_exists.mp hsome
    cases node with
    | dir => exact .entry hdir hnode (by simp) (.done links _)
    | file content => exact .entry hdir hnode (by simp) (.done links _)
    | link target => exact .stop links hdir hnode rfl

theorem locate_pathTo {r : Loc Name} (h : locate fs cwd false path (parsePath path).comps = .ok d)
    (hsome : (fs.lookup (r ++ d)).isSome) (hlen : (pathTo path r).length < pathMax) :
    locate fs cwd false (pathTo path r) (parsePath (pathTo path r)).comps = .ok (r ++ d) := by
  obtain ⟨hempty, -, hres⟩ := locate_eq_ok_iff.mp h
  refine locate_eq_ok_iff.mpr ⟨pathTo_ne_nil hempty r, hlen, ?_⟩
  rw [startOf_pathTo hempty]
  exact resolves_pathTo hres hsome

/-- `path` names the directory `d`, and no link below it leads to a directory. -/
structure Tidy (fs : FileSystem) (cwd : Loc Name) (path : List UInt8) (d : Loc Name) : Prop where
  loc : locate fs cwd false path (parsePath path).comps = .ok d
  isDir : fs.lookup d = some .dir
  links : fs.NoDirLink d

theorem Tidy.leads_to_dir {links : Nat} {r y : Loc Name} (h : Tidy fs cwd path d)
    (hres : fs.Resolves true links (startOf cwd path) (parsePath (pathTo path r)).comps y)
    (hdir : fs.lookup y = some .dir) : y = r ++ d := by
  induction r generalizing links y with
  | nil =>
    obtain ⟨-, -, hd⟩ := locate_eq_ok_iff.mp h.loc
    exact hres.unique (hd.to_dir h.isDir)
  | cons n r ih =>
    rw [comps_pathTo] at hres
    obtain ⟨z, rest, hz, hlast⟩ := hres.split (by simp)
    obtain rfl := ih hz hlast.cons_isDir
    cases hlast with
    | entry _ _ _ hdone =>
      cases hdone with
      | done => rfl
    | stop _ _ _ hfollow => cases hfollow
    | jump hcur hnode hmore hfull hjump =>
      exact absurd hdir (h.links _ n _ _ y (List.suffix_append r d) hnode
        (.jump hcur hnode hmore hfull hjump))

theorem Tidy.located {r : Loc Name} (h : Tidy fs cwd path d)
    (hloc : locate fs cwd false (pathTo path r) (parsePath (pathTo path r)).comps = .ok ℓ) :
    ℓ = r ++ d := by
  cases r with
  | nil => exact Except.ok.inj (hloc.symm.trans h.loc)
  | cons n r =>
    obtain ⟨hempty, -, -⟩ := locate_eq_ok_iff.mp h.loc
    obtain ⟨-, -, hres⟩ := locate_eq_ok_iff.mp hloc
    rw [startOf_pathTo hempty, comps_pathTo] at hres
    obtain ⟨z, rest, hz, hlast⟩ := hres.split (by simp)
    obtain rfl := h.leads_to_dir hz hlast.cons_isDir
    cases hlast with
    | entry _ _ _ hdone =>
      cases hdone with
      | done => rfl
    | stop => rfl
    | jump _ _ hmore => exact absurd ⟨rfl, rfl⟩ hmore

theorem Tidy.below {r : Loc Name} (h : Tidy fs cwd path d) (hdir : fs.lookup (r ++ d) = some .dir)
    (hlen : (pathTo path r).length < pathMax) : Tidy fs cwd (pathTo path r) (r ++ d) :=
  ⟨locate_pathTo h.loc (by rw [hdir]; rfl) hlen, hdir, h.links.below (List.suffix_append r d)⟩

end

/-! ## Paths that are cut off -/

/-- The path of an entry below `path`, cut off or not; what is left of the last name is after the
slash. -/
def CutPath (path q : List UInt8) : Prop :=
  q.length < pathMax ∧ ∃ r tail, q = pathTo path r ++ tail ∧
    (tail = [] ∨ q.length = pathMax - 1 ∧ ∃ pre, tail = 47 :: pre ∧ 47 ∉ pre)

section

variable {fs fs' : FileSystem} {cwd : Loc Name} {path q : List UInt8} {d ℓ : Loc Name}

theorem CutPath.refl (h : path.length < pathMax) : CutPath path path :=
  ⟨h, [], [], (List.append_nil path).symm, .inl rfl⟩

theorem childPath_of_full {name : List UInt8} (h : q.length = pathMax - 1) : childPath q name = q :=
  List.take_left' h

theorem CutPath.child (h : CutPath path q) (n : Name) : CutPath path (childPath q n.bytes) := by
  by_cases hfull : q.length = pathMax - 1
  · rw [childPath_of_full hfull]
    exact h
  · obtain ⟨hlen, r, tail, hq, htail⟩ := h
    obtain rfl : tail = [] := htail.resolve_right fun h ↦ hfull h.1
    rw [List.append_nil] at hq
    by_cases hfits : (pathTo path (n :: r)).length < pathMax
    · rw [hq, childPath_pathTo hfits]
      exact ⟨hfits, n :: r, [], (List.append_nil _).symm, .inl rfl⟩
    · -- the name is cut off
      have hcut : (childPath q n.bytes).length = pathMax - 1 := by
        rw [pathTo, ← hq] at hfits
        rw [childPath, List.length_take]
        omega
      obtain ⟨k, hk⟩ : ∃ k, pathMax - 1 = q.length + (k + 1) := ⟨pathMax - 1 - q.length - 1, by omega⟩
      have hchild : childPath q n.bytes = pathTo path r ++ 47 :: n.bytes.take k := by
        rw [childPath, hk, List.take_length_add_append, List.take_succ_cons, hq]
      refine ⟨by omega, r, _, hchild, .inr ⟨hcut, _, rfl, fun hmem ↦ ?_⟩⟩
      exact n.valid.2.2.2.1 (List.mem_of_mem_take hmem)

theorem parseComp_cases (pre : List UInt8) : parseComp pre = .here ∨ parseComp pre = .up ∨
    parseComp pre = .bad ∨ ∃ n, pre = n.bytes ∧ parseComp pre = .name n := by
  unfold parseComp
  split
  · exact .inl rfl
  · split
    · exact .inr (.inl rfl)
    · split
      next valid => exact .inr (.inr (.inr ⟨⟨pre, valid⟩, rfl, rfl⟩))
      next => exact .inr (.inr (.inl rfl))

-- What such a path leads to has a path that is short enough.
theorem CutPath.located (hq : CutPath path q) (h : Tidy fs cwd path d)
    (hloc : locate fs cwd false q (parsePath q).comps = .ok ℓ)
    (hhere : (parsePath q).comps.getLast? ≠ some .here) (hup : (parsePath q).comps.getLast? ≠ some .up) :
    ∃ r, ℓ = r ++ d ∧ (pathTo path r).length < pathMax := by
  obtain ⟨hlen, r, tail, rfl, rfl | ⟨-, pre, rfl, hpre⟩⟩ := hq
  · rw [List.append_nil] at hlen hloc
    exact ⟨r, h.located hloc, hlen⟩
  · obtain ⟨hempty, -, -⟩ := locate_eq_ok_iff.mp h.loc
    have hshort : (pathTo path r).length < pathMax := by
      rw [List.length_append] at hlen
      omega
    by_cases hnil : pre = []
    · subst hnil
      obtain ⟨-, -, hres⟩ := locate_eq_ok_iff.mp hloc
      rw [startOf_append (pathTo_ne_nil hempty r), comps_slash] at hres
      exact ⟨r, h.located (locate_eq_ok_iff.mpr ⟨pathTo_ne_nil hempty r, hshort, hres⟩), hshort⟩
    · have hcomps : (parsePath (pathTo path r ++ 47 :: pre)).comps =
          (parsePath (pathTo path r)).comps ++ [parseComp pre] := by
        rw [comps_append, comps_of_not_mem hpre hnil]
      rcases parseComp_cases pre with hcomp | hcomp | hcomp | ⟨n, rfl, -⟩
      · rw [hcomps, hcomp, List.getLast?_concat] at hhere
        exact absurd rfl hhere
      · rw [hcomps, hcomp, List.getLast?_concat] at hup
        exact absurd rfl hup
      · obtain ⟨-, -, hres⟩ := locate_eq_ok_iff.mp hloc
        rw [hcomps, hcomp] at hres
        obtain ⟨y, rest, -, hlast⟩ := hres.split (by simp)
        cases hlast
      · exact ⟨n :: r, h.located hloc, hlen⟩

-- A path that ends with a dot or two leads to a directory.
theorem getLast?_of_stat {node : Node Name (List UInt8)} (h : stat fs cwd q = .ok node)
    (hnode : node ≠ .dir) :
    (parsePath q).comps.getLast? ≠ some .here ∧ (parsePath q).comps.getLast? ≠ some .up := by
  obtain ⟨z, hloc, hz⟩ := stat_eq_ok_iff.mp h
  obtain ⟨-, -, hres⟩ := locate_eq_ok_iff.mp hloc
  obtain ⟨x, rest, hx, hslash⟩ := hres.split (by simp)
  have hend : fs.lookup x ≠ some .dir := by
    intro hdir
    have hxz : fs.lookup z = some .dir := by
      split at hslash
      · cases hslash with
        | here _ hdone =>
          cases hdone with
          | done => exact hdir
      · cases hslash with
        | done => exact hdir
    exact hnode (Option.some.inj (hz.symm.trans hxz))
  have hlast : ∀ c, (parsePath q).comps.getLast? = some c → ∃ cs, (parsePath q).comps = cs ++ [c] :=
    fun c hc ↦ ⟨_, (List.dropLast_append_getLast? c hc).symm⟩
  constructor
  · intro hc
    obtain ⟨cs, hcs⟩ := hlast _ hc
    rw [hcs] at hx
    obtain ⟨y, rest, -, hy⟩ := hx.split (by simp)
    cases hy with
    | here hcur hdone =>
      cases hdone with
      | done => exact hend hcur
  · intro hc
    obtain ⟨cs, hcs⟩ := hlast _ hc
    rw [hcs] at hx
    obtain ⟨y, rest, -, hy⟩ := hx.split (by simp)
    cases hy with
    | up hcur hdone =>
      cases hdone with
      | done =>
        cases y with
        | nil => exact hend rfl
        | cons n y =>
          have hsome : (fs.lookup (n :: y)).isSome := by
            rw [hcur]
            rfl
          exact hend (Tree.lookup_parent hsome)

/-- Only entries below the path are removed, and only such that have a short enough path. -/
theorem Tidy.run_frame (h : Tidy fs cwd path d) (hle : fs'.Le fs) (levels : List Readdir) :
    (rmRecursive cwd levels fs' path).2.Le fs ∧
      ∀ ℓ, (∀ r, ℓ = r ++ d → pathMax ≤ (pathTo path r).length) →
        (rmRecursive cwd levels fs' path).2.lookup ℓ = fs'.lookup ℓ := by
  obtain ⟨-, hlen, -⟩ := locate_eq_ok_iff.mp h.loc
  let I (fs'' : FileSystem) : Prop := fs''.Le fs ∧
    ∀ ℓ, (∀ r, ℓ = r ++ d → pathMax ≤ (pathTo path r).length) → fs''.lookup ℓ = fs'.lookup ℓ
  -- An entry with a short enough path may go.
  have herase : ∀ {fs'' : FileSystem} {r : Loc Name}, I fs'' → (pathTo path r).length < pathMax →
      I (fs''.erase (r ++ d)) := by
    intro fs'' r hkept hshort
    refine ⟨(Tree.erase_le _ _).trans hkept.1, fun ℓ hℓ ↦ ?_⟩
    rw [Tree.lookup_erase_ne, hkept.2 ℓ hℓ]
    rintro rfl
    exact absurd (hℓ r rfl) (Nat.not_le_of_lt hshort)
  refine rmRecursive_keeps (I := I) (P := CutPath path) ?_ ?_ ?_ levels ⟨hle, fun _ _ ↦ rfl⟩
    (.refl hlen)
  · intro _ q _ n _ hq _ _
    exact hq.child n
  · intro fs'' q node x hkept hq hstat hnode htarget
    obtain ⟨hloc, -, -⟩ := unlinkTarget_eq_ok_iff.mp htarget
    obtain ⟨hhere, hup⟩ := getLast?_of_stat hstat hnode
    obtain ⟨r, rfl, hshort⟩ := hq.located h (locate_mono hloc hkept.1) hhere hup
    exact herase hkept hshort
  · intro _ _ fs'' q x _ _ hkept hq htarget
    obtain ⟨hhere, hup, hloc, -, -, -⟩ := rmdirTarget_eq_ok_iff.mp htarget
    obtain ⟨r, rfl, hshort⟩ := hq.located h (locate_mono hloc hkept.1) hhere hup
    exact herase hkept hshort

end

end QNode.Fs
