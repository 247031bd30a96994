import Mathlib.Logic.Relation
import QNode.Fs.Rm

/-!
# What rmSync leaves alone

The entries below a path are those whose location is below that of the path, no link followed.
`rm_recursive` follows links to directories, so it keeps to them precisely if no chain of entries from
the path leads to something it can remove elsewhere.
-/

open FileTree

namespace QNode.Fs

section

variable (fs : FileSystem) (cwd : Loc Name)

/-- The entry that `path` names or one below it. -/
def Below (path : List UInt8) (ℓ : Loc Name) : Prop :=
  ∃ top, locate fs cwd false path (parsePath path).comps = .ok top ∧ top <:+ ℓ

/-- `child` is spelled by an entry of the directory that `path` leads to. -/
def Spells (path child : List UInt8) : Prop :=
  ∃ ℓ n, opendir fs cwd path = .ok ℓ ∧ n ∈ fs.children ℓ ∧ child = childPath path n.bytes

/-- `path` names an entry that is no directory and leads to none, or an empty directory. -/
def Removable (path : List UInt8) (ℓ : Loc Name) : Prop :=
  (∃ node, stat fs cwd path = .ok node ∧ node ≠ .dir ∧ unlinkTarget fs cwd path = .ok ℓ) ∨
    (stat fs cwd path = .ok .dir ∧ rmdirTarget fs cwd path = .ok ℓ)

/-- No chain of entries from `path`, links to directories followed, leads to a removable entry that is
not below it. -/
def NoEscape (path : List UInt8) : Prop :=
  ∀ q ℓ, Relation.ReflTransGen (Spells fs cwd) path q → Removable fs cwd q ℓ → Below fs cwd path ℓ

end

section

variable {fs fs' : FileSystem} {cwd : Loc Name} {path : List UInt8} {ℓ : Loc Name}

-- A child path starts with the components of its parent, even when it is cut off.
theorem comps_childPath (name : List UInt8) (hempty : path ≠ []) (hlen : path.length < pathMax) :
    ∃ ns, (parsePath (childPath path name)).comps = (parsePath path).comps ++ ns ∧
      (parsePath (childPath path name)).absolute = (parsePath path).absolute := by
  unfold childPath
  by_cases hfull : path.length = pathMax - 1
  · rw [List.take_left' hfull]
    exact ⟨[], (List.append_nil _).symm, rfl⟩
  · obtain ⟨k, hk⟩ : ∃ k, pathMax - 1 = path.length + (k + 1) := ⟨pathMax - 1 - path.length - 1, by omega⟩
    rw [hk, List.take_length_add_append, List.take_succ_cons]
    refine ⟨_, comps_append path (name.take k), ?_⟩
    cases path with
    | nil => exact absurd rfl hempty
    | cons c cs => rfl

-- Every path spelled from `path` starts with its components.
theorem comps_spelled {q : List UInt8} (h : Relation.ReflTransGen (Spells fs cwd) path q)
    (hq : q ≠ [] ∧ q.length < pathMax) :
    (path ≠ [] ∧ path.length < pathMax) ∧ ∃ ns, (parsePath q).comps = (parsePath path).comps ++ ns ∧
      (parsePath q).absolute = (parsePath path).absolute := by
  induction h with
  | refl => exact ⟨hq, [], (List.append_nil _).symm, rfl⟩
  | tail _ hspells ih =>
    obtain ⟨ℓ, n, hopen, -, rfl⟩ := hspells
    obtain ⟨hempty, hlen, -⟩ := locate_eq_ok_iff.mp (opendir_eq_ok_iff.mp hopen).1
    obtain ⟨hpath, ns, hcomps, habs⟩ := ih ⟨hempty, hlen⟩
    obtain ⟨ms, hcomps', habs'⟩ := comps_childPath n.bytes hempty hlen
    refine ⟨hpath, ns ++ ms, ?_, habs'.trans habs⟩
    rw [hcomps', hcomps, List.append_assoc]

/-- What a run has come to: entries are gone, all of them from below `path`. -/
structure Contained (fs : FileSystem) (cwd : Loc Name) (path : List UInt8) (fs' : FileSystem) : Prop where
  le : fs'.Le fs
  frame : ∀ ℓ, ¬ Below fs cwd path ℓ → fs'.lookup ℓ = fs.lookup ℓ

theorem Contained.erase (h : Contained fs cwd path fs') (hbelow : Below fs cwd path ℓ) :
    Contained fs cwd path (fs'.erase ℓ) := by
  refine ⟨(Tree.erase_le fs' ℓ).trans h.le, fun ℓ' hnot ↦ ?_⟩
  have hne : ℓ' ≠ ℓ := by
    rintro rfl
    exact hnot hbelow
  rw [Tree.lookup_erase_ne hne]
  exact h.frame ℓ' hnot

theorem stat_mono {node : Node Name (List UInt8)} {q : List UInt8} (h : stat fs' cwd q = .ok node)
    (hle : fs'.Le fs) : stat fs cwd q = .ok node := by
  obtain ⟨ℓ, hloc, hnode⟩ := stat_eq_ok_iff.mp h
  exact stat_eq_ok_iff.mpr ⟨ℓ, locate_mono hloc hle, hle _ _ hnode⟩

theorem opendir_mono {q : List UInt8} (h : opendir fs' cwd q = .ok ℓ) (hle : fs'.Le fs) :
    opendir fs cwd q = .ok ℓ := by
  obtain ⟨hloc, hdir⟩ := opendir_eq_ok_iff.mp h
  exact opendir_eq_ok_iff.mpr ⟨locate_mono hloc hle, hle _ _ hdir⟩

theorem unlinkTarget_mono {q : List UInt8} (h : unlinkTarget fs' cwd q = .ok ℓ) (hle : fs'.Le fs) :
    unlinkTarget fs cwd q = .ok ℓ := by
  obtain ⟨hloc, hslash, node, hnode, hdir⟩ := unlinkTarget_eq_ok_iff.mp h
  exact unlinkTarget_eq_ok_iff.mpr ⟨locate_mono hloc hle, hslash, node, hle _ _ hnode, hdir⟩

-- As long as a path spelled from `path` leads somewhere, the entry `path` is there.
theorem top_survives {q : List UInt8} (hle : fs'.Le fs)
    (hq : Relation.ReflTransGen (Spells fs cwd) path q)
    (hloc : locate fs' cwd false q (parsePath q).comps = .ok ℓ) (hsome : (fs'.lookup ℓ).isSome) :
    ∃ top, locate fs cwd false path (parsePath path).comps = .ok top ∧ (fs'.lookup top).isSome := by
  obtain ⟨hempty, hlen, hres⟩ := locate_eq_ok_iff.mp hloc
  obtain ⟨⟨hempty', hlen'⟩, ns, hcomps, habs⟩ := comps_spelled hq ⟨hempty, hlen⟩
  have hstart := hres.start_isSome hsome
  have hbase : startOf cwd q = startOf cwd path := by rw [startOf, startOf, habs]
  rw [hcomps, hbase] at hres
  rw [hbase] at hstart
  obtain ⟨top, htop⟩ := hres.initial
  exact ⟨top, locate_eq_ok_iff.mpr ⟨hempty', hlen', htop.mono hle⟩, htop.isSome hstart⟩

-- An empty directory that is not below `path` was empty from the start.
theorem Contained.children_eq_nil {q : List UInt8} (h : Contained fs cwd path fs')
    (hq : Relation.ReflTransGen (Spells fs cwd) path q)
    (hloc : locate fs' cwd false q (parsePath q).comps = .ok ℓ) (hsome : (fs'.lookup ℓ).isSome)
    (hnot : ¬ Below fs cwd path ℓ) (hnil : fs'.children ℓ = []) : fs.children ℓ = [] := by
  apply List.eq_nil_iff_forall_not_mem.mpr
  intro n hn
  have hgone : n ∉ fs'.children ℓ := by
    rw [hnil]
    exact List.not_mem_nil
  rw [Tree.mem_children] at hn hgone
  obtain ⟨top, htop, hthere⟩ := top_survives h.le hq hloc hsome
  by_cases hbelow : Below fs cwd path (n :: ℓ)
  · -- the entry that is gone would be `path` itself
    obtain ⟨top', htop', hsuffix⟩ := hbelow
    obtain rfl := Except.ok.inj (htop.symm.trans htop')
    rcases List.suffix_cons_iff.mp hsuffix with rfl | hsuffix
    · exact hgone hthere
    · exact hnot ⟨top, htop, hsuffix⟩
  · rw [h.frame _ hbelow] at hgone
    exact hgone hn

-- Without an escape, every removal is below `path`.
theorem Contained.rmRecursive (levels : List Readdir) (hescape : NoEscape fs cwd path) :
    Contained fs cwd path (rmRecursive cwd levels fs path).2 := by
  have hstart : Contained fs cwd path fs := ⟨Tree.Le.refl fs, fun _ _ ↦ rfl⟩
  have hpath : Relation.ReflTransGen (Spells fs cwd) path path := .refl
  refine rmRecursive_keeps ?_ ?_ ?_ levels hstart hpath
  · intro fs' q ℓ n h hq hopen hn
    exact hq.tail ⟨ℓ, n, opendir_mono hopen h.le, h.le.children hn, rfl⟩
  · intro fs' q node ℓ h hq hstat hdir htarget
    exact h.erase (hescape q ℓ hq
      (.inl ⟨node, stat_mono hstat h.le, hdir, unlinkTarget_mono htarget h.le⟩))
  · intro fs₀ ℓ₀ fs' q ℓ h₀ hopen h hq htarget
    obtain ⟨hhere, hup, hloc, hroot, hdir, hnil⟩ := rmdirTarget_eq_ok_iff.mp htarget
    apply h.erase
    by_contra hnot
    have hsome : (fs'.lookup ℓ).isSome := by
      rw [hdir]
      rfl
    have hnil' := h.children_eq_nil hq hloc hsome hnot hnil
    obtain ⟨hloc₀, hdir₀⟩ := opendir_eq_ok_iff.mp (opendir_mono hopen h₀.le)
    exact hnot (hescape q ℓ hq (.inr ⟨stat_eq_ok_iff.mpr ⟨ℓ₀, hloc₀, hdir₀⟩,
      rmdirTarget_eq_ok_iff.mpr ⟨hhere, hup, locate_mono hloc h.le, hroot, h.le _ _ hdir, hnil'⟩⟩))

theorem Contained.rmSync (levels : List Readdir) (force : Bool) (hescape : NoEscape fs cwd path) :
    Contained fs cwd path (jsFsRmSync cwd levels fs path true force).2 := by
  have hstart : Contained fs cwd path fs := ⟨Tree.Le.refl fs, fun _ _ ↦ rfl⟩
  have hrun := Contained.rmRecursive levels hescape
  unfold jsFsRmSync
  split
  next => split <;> exact hstart
  next =>
    rw [if_neg (by decide)]
    split <;> simpa [*] using hrun
  next node hdir hstat =>
    split
    next => exact hstart
    next fs' hunlink =>
      obtain ⟨ℓ, htarget, rfl⟩ := unlink_eq_ok_iff.mp hunlink
      exact hstart.erase ⟨ℓ, (unlinkTarget_eq_ok_iff.mp htarget).1, List.suffix_refl ℓ⟩

/-! ## An escape that is taken -/

-- Entries only disappear.
theorem rmRecursive_le (levels : List Readdir) (fs : FileSystem) (path : List UInt8) :
    (rmRecursive cwd levels fs path).2.Le fs := by
  refine rmRecursive_keeps (I := fun fs' ↦ fs'.Le fs) (P := fun _ ↦ True) ?_ ?_ ?_ levels
    (Tree.Le.refl fs) trivial
  · exact fun _ _ _ _ _ _ _ _ ↦ trivial
  · exact fun fs' _ _ ℓ h _ _ _ _ ↦ (Tree.erase_le fs' ℓ).trans h
  · exact fun _ _ fs' _ ℓ _ _ h _ _ ↦ (Tree.erase_le fs' ℓ).trans h

theorem rmEntry_le (levels : List Readdir) (fs : FileSystem) (path name : List UInt8) :
    (rmEntry cwd (fun fs child ↦ (rmRecursive cwd levels fs child).2) path fs name).Le fs := by
  rcases @rmEntry_cases cwd fs path name (fun fs child ↦ (rmRecursive cwd levels fs child).2) with
    hsame | ⟨-, ⟨-, hrec⟩ | ⟨node, ℓ, -, -, -, herase⟩⟩
  · rw [hsame]
    exact Tree.Le.refl fs
  · rw [hrec]
    exact rmRecursive_le levels fs _
  · rw [herase]
    exact Tree.erase_le fs ℓ

theorem foldl_rmEntry_le (levels : List Readdir) (path : List UInt8) (names : List (List UInt8))
    (fs : FileSystem) :
    (names.foldl (rmEntry cwd (fun fs child ↦ (rmRecursive cwd levels fs child).2) path) fs).Le fs := by
  refine List.foldlRecOn (motive := fun fs' ↦ Tree.Le fs' fs) _ _ (Tree.Le.refl fs) ?_
  intro fs' hle name _
  exact (rmEntry_le levels fs' path name).trans hle

/-- `readdir` in the order of the tree. -/
def Readdir.inOrder : Readdir where
  order _ entries := entries
  perm _ entries := List.Perm.refl entries

/-- `readdir` with one name before all others. -/
def Readdir.first (name : List UInt8) : Readdir where
  order _ entries := if name ∈ entries then name :: entries.erase name else entries
  perm _ entries := by
    split
    next hmem => exact (List.perm_cons_erase hmem).symm
    next => exact List.Perm.refl entries

/-- `readdir` with one name after all others. -/
def Readdir.last (name : List UInt8) : Readdir where
  order _ entries := if name ∈ entries then entries.erase name ++ [name] else entries
  perm _ entries := by
    split
    next hmem => exact (List.perm_append_singleton _ _).trans (List.perm_cons_erase hmem).symm
    next => exact List.Perm.refl entries

theorem lookup_unlinkTarget (h : unlinkTarget fs cwd path = .ok ℓ) :
    (fs.lookup ℓ).isSome ∧ (fs.erase ℓ).lookup ℓ = none := by
  obtain ⟨-, -, node, hnode, hdir⟩ := unlinkTarget_eq_ok_iff.mp h
  refine ⟨by rw [hnode]; rfl, ?_⟩
  cases ℓ with
  | nil => exact absurd (Option.some.inj hnode).symm hdir
  | cons n ℓ =>
    apply Tree.lookup_erase_self
    apply Tree.children_eq_nil
    rw [hnode]
    exact fun h ↦ hdir (Option.some.inj h)

theorem lookup_rmdirTarget (h : rmdirTarget fs cwd path = .ok ℓ) :
    (fs.lookup ℓ).isSome ∧ (fs.erase ℓ).lookup ℓ = none := by
  obtain ⟨-, -, -, hroot, hdir, hnil⟩ := rmdirTarget_eq_ok_iff.mp h
  refine ⟨by rw [hdir]; rfl, ?_⟩
  cases ℓ with
  | nil => exact absurd rfl hroot
  | cons n ℓ => exact Tree.lookup_erase_self hnil

-- A directory is opened by the path that names it.
theorem opendir_of_locate (h : locate fs cwd false path (parsePath path).comps = .ok ℓ)
    (hdir : fs.lookup ℓ = some .dir) : opendir fs cwd path = .ok ℓ := by
  obtain ⟨hempty, hlen, hres⟩ := locate_eq_ok_iff.mp h
  refine opendir_eq_ok_iff.mpr ⟨locate_eq_ok_iff.mpr ⟨hempty, hlen, ?_⟩, hdir⟩
  unfold Path.full
  by_cases hslash : (parsePath path).slash = true
  · rw [if_pos hslash]
    exact (hres.to_dir hdir).append_here hdir
  · rw [if_neg hslash, List.append_nil]
    exact hres.to_dir hdir

-- The directory that `rmdir` removes is the one that was opened.
theorem opendir_of_rmdirTarget (h : rmdirTarget fs cwd path = .ok ℓ) : opendir fs cwd path = .ok ℓ := by
  obtain ⟨-, -, hloc, -, hdir, -⟩ := rmdirTarget_eq_ok_iff.mp h
  exact opendir_of_locate hloc hdir

-- An empty directory is removed.
theorem rmRecursive_empty (h : rmdirTarget fs cwd path = .ok ℓ) :
    (rmRecursive cwd [.inOrder] fs path).2 = fs.erase ℓ := by
  have hnil := (rmdirTarget_eq_ok_iff.mp h).2.2.2.2.2
  have hentries : dirEntries fs ℓ = [[46], [46, 46]] := by
    rw [dirEntries, hnil]
    rfl
  have hrmdir : rmdir fs cwd path = .ok (fs.erase ℓ) := rmdir_eq_ok_iff.mpr ⟨ℓ, h, rfl⟩
  rw [rmRecursive, opendir_of_rmdirTarget h]
  dsimp only [Readdir.inOrder]
  rw [hentries]
  have hloop : [[46], [46, 46]].foldl
      (rmEntry cwd (fun fs child ↦ (rmRecursive cwd [] fs child).2) path) fs = fs := rfl
  rw [hloop, hrmdir]

-- The first entry of a directory decides what is left at the end.
theorem rmRecursive_first {levels : List Readdir} {ℓ₀ : Loc Name} {n : Name}
    (hopen : opendir fs cwd path = .ok ℓ₀) (hn : n ∈ fs.children ℓ₀) :
    (rmRecursive cwd (.first n.bytes :: levels) fs path).2.Le
      (rmEntry cwd (fun fs child ↦ (rmRecursive cwd levels fs child).2) path fs n.bytes) := by
  have hmem : n.bytes ∈ dirEntries fs ℓ₀ :=
    List.mem_cons_of_mem _ (List.mem_cons_of_mem _ (List.mem_map_of_mem hn))
  rw [rmRecursive, hopen]
  dsimp only [Readdir.first]
  rw [if_pos hmem, List.foldl_cons]
  generalize rmEntry cwd (fun fs child ↦ (rmRecursive cwd levels fs child).2) path fs n.bytes = fs₁
  have hrest := @foldl_rmEntry_le cwd levels path ((dirEntries fs ℓ₀).erase n.bytes) fs₁
  split
  next => exact hrest
  next fs' hrmdir =>
    obtain ⟨ℓ, -, rfl⟩ := rmdir_eq_ok_iff.mp hrmdir
    exact (Tree.erase_le _ ℓ).trans hrest

-- With the entries on the way first, the recursion comes to whatever is spelled from `path` before it
-- has removed anything.
theorem escape_taken {q : List UInt8} (hq : Relation.ReflTransGen (Spells fs cwd) path q)
    (hremovable : Removable fs cwd q ℓ) :
    (∃ node, stat fs cwd path = .ok node ∧ node ≠ .dir ∧ unlinkTarget fs cwd path = .ok ℓ) ∨
      (stat fs cwd path = .ok .dir ∧ (fs.lookup ℓ).isSome ∧
        ∃ levels, (rmRecursive cwd levels fs path).2.lookup ℓ = none) := by
  induction hq using Relation.ReflTransGen.head_induction_on with
  | refl =>
    rcases hremovable with hunlink | ⟨hstat, htarget⟩
    · exact .inl hunlink
    · obtain ⟨hsome, hnone⟩ := lookup_rmdirTarget htarget
      refine .inr ⟨hstat, hsome, [.inOrder], ?_⟩
      rw [rmRecursive_empty htarget]
      exact hnone
  | @head path child hspells _ ih =>
    obtain ⟨ℓ₀, n, hopen, hn, rfl⟩ := hspells
    obtain ⟨hloc, hdir⟩ := opendir_eq_ok_iff.mp hopen
    have hstat : stat fs cwd path = .ok .dir := stat_eq_ok_iff.mpr ⟨ℓ₀, hloc, hdir⟩
    have hdots : ¬ (n.bytes = [46] ∨ n.bytes = [46, 46]) :=
      not_or.mpr ⟨n.valid.2.1, n.valid.2.2.1⟩
    rcases ih with ⟨node, hchild, hnode, htarget⟩ | ⟨hchild, hsome, levels, hgone⟩
    · obtain ⟨hsome, hnone⟩ := lookup_unlinkTarget htarget
      refine .inr ⟨hstat, hsome, [.first n.bytes], (rmRecursive_first hopen hn).lookup_none ?_⟩
      have hunlink : unlink fs cwd (childPath path n.bytes) = .ok (fs.erase ℓ) :=
        unlink_eq_ok_iff.mpr ⟨ℓ, htarget, rfl⟩
      rw [rmEntry, if_neg hdots]
      dsimp only
      rw [hchild, hunlink]
      cases node with
      | dir => exact absurd rfl hnode
      | file content => exact hnone
      | link target => exact hnone
    · refine .inr ⟨hstat, hsome, .first n.bytes :: levels, (rmRecursive_first hopen hn).lookup_none ?_⟩
      rw [rmEntry, if_neg hdots]
      dsimp only
      rw [hchild]
      exact hgone

end

/-- Whatever the order of the entries and however many directories can be open, only entries below the
path change, precisely if no chain of entries escapes. -/
theorem rmSync_frame_iff (fs : FileSystem) (cwd : Loc Name) (path : List UInt8) (force : Bool) :
    (∀ levels ℓ, ¬ Below fs cwd path ℓ →
      (jsFsRmSync cwd levels fs path true force).2.lookup ℓ = fs.lookup ℓ) ↔
      NoEscape fs cwd path := by
  constructor
  · intro hframe q ℓ hq hremovable
    by_contra hnot
    rcases escape_taken hq hremovable with ⟨node, -, -, htarget⟩ | ⟨hstat, hsome, levels, hgone⟩
    · exact hnot ⟨ℓ, (unlinkTarget_eq_ok_iff.mp htarget).1, List.suffix_refl ℓ⟩
    · have hsame := hframe levels ℓ hnot
      have hrm : (jsFsRmSync cwd levels fs path true force).2 = (rmRecursive cwd levels fs path).2 := by
        rw [jsFsRmSync, hstat]
        dsimp only
        rw [if_neg (by decide)]
        split <;> simp [*]
      rw [hrm, hgone] at hsame
      rw [← hsame] at hsome
      exact absurd hsome (by decide)
  · intro hescape levels ℓ hnot
    exact (Contained.rmSync levels force hescape).frame ℓ hnot

/-- The names `p`, `o`, `f` and `l`. -/
def nameP : Name := ⟨[112], by decide⟩
def nameO : Name := ⟨[111], by decide⟩
def nameF : Name := ⟨[102], by decide⟩
def nameL : Name := ⟨[108], by decide⟩

/-- The directory `/p` with a link `l` to the directory `/o`, which has a file `f`. -/
def linkedOut : FileSystem :=
  (((Tree.empty.add nameP [] .dir).add nameO [] .dir).add nameF [nameO] (.file [104, 105])).add
    nameL [nameP] (.link (parsePath [47, 111]))

/-- `rmSync("/p", {recursive: true})` removes `/o/f`. -/
theorem rmSync_follows_link :
    ∃ levels ℓ, ¬ Below linkedOut [] [47, 112] ℓ ∧
      (jsFsRmSync [] levels linkedOut [47, 112] true false).2.lookup ℓ ≠ linkedOut.lookup ℓ := by
  refine ⟨[.inOrder, .inOrder], [nameF, nameO], ?_, by decide⟩
  rintro ⟨top, htop, hsuffix⟩
  obtain rfl : [nameP] = top := Except.ok.inj htop
  exact absurd hsuffix (by decide)

end QNode.Fs
