import QNode.Fs.RmClears

/-!
# When rmSync removes everything

`rm_recursive` passes over an entry on which `stat` fails, and removes no link to a directory.  It
returns normally whatever the order of the entries precisely if nothing of this kind is in its way.
-/

open FileTree

namespace QNode.Fs

/-! ## What a run that removes its directory tells about the tree -/

section

variable {fs fs' : FileSystem} {cwd : Loc Name} {path q : List UInt8} {d ℓ : Loc Name}

theorem stat_start {node : Node Name (List UInt8)} (h : stat fs cwd q = .ok node) :
    fs.lookup (startOf cwd q) = some .dir := by
  obtain ⟨z, hloc, -⟩ := stat_eq_ok_iff.mp h
  obtain ⟨hempty, -, hres⟩ := locate_eq_ok_iff.mp hloc
  cases hfull : (parsePath q).full with
  | nil => exact absurd hfull (full_ne_nil hempty)
  | cons c cs =>
    rw [hfull] at hres
    exact hres.cons_isDir

-- A link that leads to a directory stays.
theorem rmRecursive_keeps_link {links : Nat} {n : Name} {target : Path Name} {y : Loc Name}
    (hlink : fs.lookup (n :: ℓ) = some (.link target)) (hres : fs.Resolves true links ℓ [.name n] y)
    (hdir : fs.lookup y = some .dir) (levels : List Readdir) (path : List UInt8) :
    (rmRecursive cwd levels fs path).2.lookup (n :: ℓ) = some (.link target) := by
  refine (rmRecursive_keeps (I := fun fs' ↦ fs'.Le fs ∧ fs'.lookup (n :: ℓ) = some (.link target))
    (P := fun _ ↦ True) ?_ ?_ ?_ levels ⟨Tree.Le.refl fs, hlink⟩ trivial).2
  · exact fun _ _ _ _ _ _ _ _ ↦ trivial
  · rintro fs' q node x ⟨hle, hkept⟩ - hstat hnode htarget
    refine ⟨(Tree.erase_le _ _).trans hle, ?_⟩
    rw [Tree.lookup_erase_ne, hkept]
    rintro rfl
    obtain ⟨hloc, hslash, -⟩ := unlinkTarget_eq_ok_iff.mp (unlinkTarget_mono htarget hle)
    have hstart := stat_start (stat_mono hstat hle)
    obtain ⟨z, hloc', hz⟩ := stat_eq_ok_iff.mp (stat_mono hstat hle)
    obtain ⟨-, -, hshort⟩ := locate_eq_ok_iff.mp hloc
    obtain ⟨-, -, hlong⟩ := locate_eq_ok_iff.mp hloc'
    rw [full_of_slash hslash] at hlong
    obtain ⟨rest, hend⟩ := hshort.at_link hlink
      (fun target heq ↦ absurd (hstart.symm.trans heq) (by simp)) hlong
    obtain rfl := hend.unique hres
    exact hnode (Option.some.inj (hz.symm.trans hdir))
  · rintro _ _ fs' q x _ _ ⟨hle, hkept⟩ - htarget
    refine ⟨(Tree.erase_le _ _).trans hle, ?_⟩
    rw [Tree.lookup_erase_ne, hkept]
    rintro rfl
    obtain ⟨-, -, -, -, hdir', -⟩ := rmdirTarget_eq_ok_iff.mp htarget
    exact absurd (hkept.symm.trans hdir') (by simp)

theorem noDirLink_of_gone {levels : List Readdir}
    (hgone : (rmRecursive cwd levels fs path).2.lookup d = none) : fs.NoDirLink d := by
  intro links n ℓ target y hd hlink hres hdir
  have hkept : (rmRecursive cwd levels fs path).2.lookup (n :: ℓ) = _ :=
    rmRecursive_keeps_link hlink hres hdir levels path
  have hthere := Tree.isSome_of_suffix (hd.trans (List.suffix_cons n ℓ)) (by rw [hkept]; rfl)
  rw [hgone] at hthere
  cases hthere

-- An entry whose path is too long would stay.
theorem Tidy.short_of_gone (h : Tidy fs cwd path d) {levels : List Readdir}
    (hgone : (rmRecursive cwd levels fs path).2.lookup d = none) {r : Loc Name}
    (hsome : (fs.lookup (r ++ d)).isSome) : (pathTo path r).length < pathMax := by
  by_contra hlong
  have hsame := (h.run_frame (Tree.Le.refl fs) levels).2 (r ++ d) fun r' heq ↦ by
    rw [← List.append_cancel_right heq]
    exact Nat.le_of_not_lt hlong
  rw [← hsame] at hsome
  have hthere := Tree.isSome_of_suffix (List.suffix_append r d) hsome
  rw [hgone] at hthere
  cases hthere

-- A child that `stat` finds to be a directory is one below `d`, for no link leads to a directory.
theorem Tidy.child_isDir (h : Tidy fs cwd path d) {n : Name}
    (hstat : stat fs cwd (pathTo path [n]) = .ok .dir) : fs.lookup (n :: d) = some .dir := by
  obtain ⟨y, hloc, hdir⟩ := stat_eq_ok_iff.mp hstat
  obtain ⟨-, -, hres⟩ := locate_eq_ok_iff.mp hloc
  obtain ⟨hempty, -, -⟩ := locate_eq_ok_iff.mp h.loc
  rw [startOf_pathTo hempty, full_pathTo] at hres
  obtain rfl := h.leads_to_dir hres hdir
  exact hdir

-- The body of the loop changes nothing but its own entry.
theorem Tidy.entry_frame (h : Tidy fs cwd path d) (hle : fs'.Le fs) (levels : List Readdir) {n : Name}
    (hshort : (pathTo path [n]).length < pathMax) (hℓ : ¬ n :: d <:+ ℓ) :
    (rmEntry cwd (fun fs child ↦ (rmRecursive cwd levels fs child).2) path fs' n.bytes).lookup ℓ =
      fs'.lookup ℓ := by
  have hchild : childPath path n.bytes = pathTo path [n] := childPath_pathTo hshort
  rcases @rmEntry_cases cwd fs' path n.bytes (fun fs child ↦ (rmRecursive cwd levels fs child).2) with
    hsame | ⟨-, ⟨hstat, hrec⟩ | ⟨node, x, -, -, htarget, herase⟩⟩
  · rw [hsame]
  · rw [hrec, hchild]
    rw [hchild] at hstat
    have hdir := h.child_isDir (stat_mono hstat hle)
    refine ((h.below (r := [n]) hdir hshort).run_frame hle levels).2 ℓ fun r heq ↦ ?_
    exact absurd (heq ▸ List.suffix_append r _) hℓ
  · rw [herase]
    apply Tree.lookup_erase_ne
    rintro rfl
    rw [hchild] at htarget
    obtain ⟨hloc, -, -⟩ := unlinkTarget_eq_ok_iff.mp (unlinkTarget_mono htarget hle)
    have hx := h.located hloc
    rw [hx] at hℓ
    exact hℓ (List.suffix_refl _)

end

/-! ## The order with one entry last -/

theorem nodup_dirEntries (fs : FileSystem) (ℓ : Loc Name) : (dirEntries fs ℓ).Nodup := by
  have hchildren : (fs.children ℓ).Nodup := by
    apply List.Nodup.filterMap _ (AList.keys_nodup _)
    intro key key' n hn hn'
    cases key with
    | nil => cases hn
    | cons m k =>
      cases key' with
      | nil => cases hn'
      | cons m' k' =>
        dsimp only at hn hn'
        split at hn
        next heq =>
          split at hn'
          next heq' =>
            obtain rfl := Option.some.inj hn
            obtain rfl := Option.some.inj hn'
            rw [heq, heq']
          next => cases hn'
        next => cases hn
  have hbytes : ((fs.children ℓ).map Name.bytes).Nodup := by
    apply hchildren.map
    exact fun n m heq ↦ Name.ext heq
  have hdots : ∀ n : Name, n.bytes ≠ [46] ∧ n.bytes ≠ [46, 46] := fun n ↦ ⟨n.valid.2.1, n.valid.2.2.1⟩
  rw [dirEntries, List.nodup_cons, List.nodup_cons]
  refine ⟨?_, ?_, hbytes⟩
  · rw [List.mem_cons, List.mem_map]
    rintro (heq | ⟨n, -, heq⟩)
    · exact absurd heq (by decide)
    · exact (hdots n).1 heq
  · rw [List.mem_map]
    rintro ⟨n, -, heq⟩
    exact (hdots n).2 heq

section

variable {fs fs' : FileSystem} {cwd : Loc Name} {path : List UInt8} {d : Loc Name}

-- The loop over some names changes nothing but their entries.
theorem Tidy.loop_frame (h : Tidy fs cwd path d) (levels : List Readdir)
    (hshort : ∀ r, (fs.lookup (r ++ d)).isSome → (pathTo path r).length < pathMax)
    {names : List (List UInt8)} (hnames : ∀ name ∈ names, name ∈ dirEntries fs d) {ℓ : Loc Name}
    (hℓ : ∀ n : Name, n.bytes ∈ names → ¬ n :: d <:+ ℓ) :
    (names.foldl (rmEntry cwd (fun fs child ↦ (rmRecursive cwd levels fs child).2) path) fs).lookup ℓ =
      fs.lookup ℓ := by
  refine (List.foldlRecOn (motive := fun fs' ↦ Tree.Le fs' fs ∧ Tree.lookup fs' ℓ = fs.lookup ℓ) _ _
    ⟨Tree.Le.refl fs, rfl⟩ ?_).2
  rintro fs' ⟨hle, hsame⟩ name hname
  refine ⟨(rmEntry_le levels fs' path name).trans hle, ?_⟩
  rcases mem_dirEntries.mp (hnames name hname) with rfl | rfl | ⟨n, rfl, hn⟩
  · exact hsame
  · exact hsame
  · rw [h.entry_frame hle levels (hshort [n] hn) (hℓ n hname)]
    exact hsame

/-- `fs'` is what is left of `fs` when the entry `n` of the directory `d` is the last one: it is as it
was, the other entries are gone, and it goes itself. -/
structure LastEntry (fs : FileSystem) (cwd : Loc Name) (levels : List Readdir) (path : List UInt8)
    (d : Loc Name) (n : Name) (fs' : FileSystem) : Prop where
  le : fs'.Le fs
  loc : locate fs' cwd false path (parsePath path).comps = .ok d
  same : ∀ ℓ, ℓ = d ∨ n :: d <:+ ℓ → fs'.lookup ℓ = fs.lookup ℓ
  only : ∀ m, (fs'.lookup (m :: d)).isSome → m = n
  goes : (rmEntry cwd (fun fs child ↦ (rmRecursive cwd levels fs child).2) path fs' n.bytes).lookup
    (n :: d) = none

-- A directory that is still there after the loop goes because the loop has emptied it.
theorem Tidy.emptied (h : Tidy fs cwd path d) {readdir : Readdir} {levels : List Readdir}
    (hgone : (rmRecursive cwd (readdir :: levels) fs path).2.lookup d = none) {fs₂ : FileSystem}
    (hloop : fs₂ = (readdir.order path (dirEntries fs d)).foldl
      (rmEntry cwd (fun fs child ↦ (rmRecursive cwd levels fs child).2) path) fs)
    (hkeep : fs₂.lookup d = some .dir) : rmdirTarget fs₂ cwd path = .ok d := by
  rcases rmRecursive_cases readdir levels fs path with hsame | ⟨ℓ, fs', hopen, hloop', hend⟩
  · rw [hsame, h.isDir] at hgone
    cases hgone
  · obtain rfl : d = ℓ := Except.ok.inj ((opendir_of_locate h.loc h.isDir).symm.trans hopen)
    obtain rfl : fs₂ = fs' := hloop.trans hloop'.symm
    rcases hend with hend | ⟨ℓ', htarget, hend⟩
    · rw [hend, hkeep] at hgone
      cases hgone
    · by_cases heq : d = ℓ'
      · subst heq
        exact htarget
      · rw [hend, Tree.lookup_erase_ne heq, hkeep] at hgone
        cases hgone

-- The loop over the other entries leaves one entry as it was.
theorem Tidy.others_frame (h : Tidy fs cwd path d) (levels : List Readdir)
    (hshort : ∀ r, (fs.lookup (r ++ d)).isSome → (pathTo path r).length < pathMax) (n : Name)
    {ℓ : Loc Name} (hℓ : ℓ = d ∨ n :: d <:+ ℓ) :
    (((dirEntries fs d).erase n.bytes).foldl
      (rmEntry cwd (fun fs child ↦ (rmRecursive cwd levels fs child).2) path) fs).lookup ℓ =
        fs.lookup ℓ := by
  apply h.loop_frame levels hshort fun name hname ↦ List.mem_of_mem_erase hname
  intro m hm hsuffix
  rcases hℓ with rfl | hbelow
  · exact absurd hsuffix.length_le (by simp)
  · obtain rfl := Tree.cons_suffix_unique hsuffix hbelow
    exact ((nodup_dirEntries fs d).mem_erase_iff.mp hm).1 rfl

theorem Tidy.last_entry (h : Tidy fs cwd path d)
    (hshort : ∀ r, (fs.lookup (r ++ d)).isSome → (pathTo path r).length < pathMax) {n : Name}
    (hn : (fs.lookup (n :: d)).isSome) {levels : List Readdir}
    (hgone : (rmRecursive cwd (.last n.bytes :: levels) fs path).2.lookup d = none) :
    ∃ fs', LastEntry fs cwd levels path d n fs' := by
  have hmem : n.bytes ∈ dirEntries fs d := mem_dirEntries.mpr (.inr (.inr ⟨n, rfl, hn⟩))
  have horder : (Readdir.last n.bytes).order path (dirEntries fs d) =
      (dirEntries fs d).erase n.bytes ++ [n.bytes] := if_pos hmem
  have hle := @foldl_rmEntry_le cwd levels path ((dirEntries fs d).erase n.bytes) fs
  have hsame := fun ℓ hℓ ↦ @Tidy.others_frame fs cwd path d h levels hshort n ℓ hℓ
  have hempties := @Tidy.emptied fs cwd path d h _ levels hgone _ rfl
  rw [horder, List.foldl_append, List.foldl_cons, List.foldl_nil] at hempties
  generalize ((dirEntries fs d).erase n.bytes).foldl
    (rmEntry cwd (fun fs child ↦ (rmRecursive cwd levels fs child).2) path) fs = fs₁
    at hle hsame hempties
  -- the last entry changes nothing else
  have hkeep : ∀ ℓ, ¬ n :: d <:+ ℓ →
      (rmEntry cwd (fun fs child ↦ (rmRecursive cwd levels fs child).2) path fs₁ n.bytes).lookup ℓ =
        fs₁.lookup ℓ := fun ℓ hℓ ↦ h.entry_frame hle levels (hshort [n] hn) hℓ
  obtain ⟨-, -, hloc, -, -, hempty⟩ := rmdirTarget_eq_ok_iff.mp <| hempties <| by
    rw [hkeep d fun hsuffix ↦ absurd hsuffix.length_le (by simp), hsame d (.inl rfl)]
    exact h.isDir
  have hnone : ∀ m, (rmEntry cwd (fun fs child ↦ (rmRecursive cwd levels fs child).2) path fs₁
      n.bytes).lookup (m :: d) = none := by
    intro m
    rw [← Option.not_isSome_iff_eq_none, ← Tree.mem_children, hempty]
    exact List.not_mem_nil
  refine ⟨fs₁, hle, locate_mono hloc (rmEntry_le levels fs₁ path n.bytes), hsame, fun m hm ↦ ?_, hnone n⟩
  by_contra hne
  rw [← hkeep _ fun hsuffix ↦ hne (Tree.cons_suffix_unique (List.suffix_refl _) hsuffix), hnone] at hm
  cases hm

-- Below its directory only the last entry is left.
theorem LastEntry.below {levels : List Readdir} {n : Name} {ℓ : Loc Name}
    (h : LastEntry fs cwd levels path d n fs') (hd : d <:+ ℓ) (hsome : (fs'.lookup ℓ).isSome) :
    ℓ = d ∨ n :: d <:+ ℓ := by
  obtain ⟨front, rfl⟩ := hd
  rcases List.eq_nil_or_concat' front with rfl | ⟨front, m, rfl⟩
  · exact .inl rfl
  · have hsuffix : m :: d <:+ front ++ [m] ++ d := by
      rw [List.append_assoc]
      exact List.suffix_append front (m :: d)
    obtain rfl := h.only m (Tree.isSome_of_suffix hsuffix hsome)
    exact .inr hsuffix

theorem LastEntry.tidy {levels : List Readdir} {n : Name} (h : LastEntry fs cwd levels path d n fs')
    (htidy : Tidy fs cwd path d) : Tidy fs' cwd path d :=
  ⟨h.loc, (h.same d (.inl rfl)).trans htidy.isDir, htidy.links.mono h.le⟩

/-- What a run has left when it comes to the link `x` below `d`, in the order that has the entries on the
way to it last: `stat` finds no directory where it leads. -/
def LinkReached (fs : FileSystem) (cwd : Loc Name) (d x : Loc Name) (q : List UInt8) : Prop :=
  ∃ fs' : FileSystem, fs'.Le fs ∧ (∀ ℓ, d <:+ ℓ → (fs'.lookup ℓ).isSome → ℓ <:+ x) ∧
    ∃ node, stat fs' cwd q = .ok node ∧ node ≠ .dir

-- The link is the last entry itself.
theorem LastEntry.reached_here {levels : List Readdir} {n : Name} {target : Path Name}
    (h : LastEntry fs cwd levels path d n fs') (htidy : Tidy fs cwd path d)
    (hshort : (pathTo path [n]).length < pathMax)
    (hlink : fs.lookup (n :: d) = some (.link target)) :
    LinkReached fs cwd d (n :: d) (pathTo path [n]) := by
  have hchild : childPath path n.bytes = pathTo path [n] := childPath_pathTo hshort
  have hlink' := (h.same (n :: d) (.inr (List.suffix_refl _))).trans hlink
  refine ⟨fs', h.le, fun ℓ hℓ hsome ↦ ?_, ?_⟩
  · rcases h.below hℓ hsome with rfl | ⟨front, rfl⟩
    · exact List.suffix_cons n _
    · cases front with
      | nil => exact List.suffix_refl _
      | cons m front =>
        have hdir := Tree.isDir_of_suffix (List.suffix_append front (n :: d)) hsome
        exact absurd (hlink'.symm.trans hdir) (by simp)
  · have hgoes := h.goes
    rcases @rmEntry_cases cwd fs' path n.bytes (fun fs child ↦ (rmRecursive cwd levels fs child).2) with
      hsame | ⟨-, ⟨hstat, -⟩ | ⟨node, x, hstat, hnode, -, -⟩⟩
    · rw [hsame, hlink'] at hgoes
      cases hgoes
    · rw [hchild] at hstat
      have hdir := (h.tidy htidy).child_isDir hstat
      exact absurd (hlink'.symm.trans hdir) (by simp)
    · rw [hchild] at hstat
      exact ⟨node, hstat, hnode⟩

theorem LinkReached.up {n : Name} {x : Loc Name} {q : List UInt8} {levels : List Readdir}
    (hreached : LinkReached fs' cwd (n :: d) x q) (h : LastEntry fs cwd levels path d n fs')
    (hx : n :: d <:+ x) : LinkReached fs cwd d x q := by
  obtain ⟨fs'', hle, honly, hstat⟩ := hreached
  refine ⟨fs'', hle.trans h.le, fun ℓ hℓ hsome ↦ ?_, hstat⟩
  have hsome' : (fs'.lookup ℓ).isSome := by
    obtain ⟨node, hnode⟩ := Option.isSome_iff_exists.mp hsome
    rw [hle ℓ node hnode]
    rfl
  rcases h.below hℓ hsome' with rfl | hbelow
  · exact (List.suffix_cons n ℓ).trans hx
  · exact honly ℓ hbelow hsome

/-- With the entries on the way to a link last, a run comes to the link when nothing else is left, and
has to find that it leads to no directory.  The names lead to the link from the directory. -/
theorem Tidy.link_reached {target : Path Name} {names : List Name} {rest : List Readdir}
    (h : Tidy fs cwd path d)
    (hshort : ∀ r, (fs.lookup (r ++ d)).isSome → (pathTo path r).length < pathMax)
    (hlink : fs.lookup (names.reverse ++ d) = some (.link target))
    (hgone : (rmRecursive cwd (names.map (fun n ↦ .last n.bytes) ++ rest) fs path).2.lookup d = none) :
    LinkReached fs cwd d (names.reverse ++ d) (pathTo path names.reverse) := by
  induction names generalizing fs path d with
  | nil => exact absurd (h.isDir.symm.trans hlink) (by simp)
  | cons n names ih =>
    rw [List.reverse_cons, List.append_assoc, List.singleton_append] at hlink
    have hsome : (fs.lookup (names.reverse ++ n :: d)).isSome := by
      rw [hlink]
      rfl
    have hn := Tree.isSome_of_suffix (List.suffix_append names.reverse (n :: d)) hsome
    obtain ⟨fs', hlast⟩ := h.last_entry hshort hn hgone
    rw [List.reverse_cons, List.append_assoc, List.singleton_append, pathTo_append]
    cases names with
    | nil => exact hlast.reached_here h (hshort [n] hn) hlink
    | cons m names =>
      apply LinkReached.up _ hlast (List.suffix_append _ _)
      have hlink' := (hlast.same _ (.inr (List.suffix_append _ (n :: d)))).trans hlink
      have hdir : fs'.lookup (n :: d) = some .dir := by
        have hm : m :: n :: d <:+ (m :: names).reverse ++ n :: d := by
          rw [List.reverse_cons, List.append_assoc]
          exact List.suffix_append names.reverse (m :: n :: d)
        exact Tree.lookup_parent (Tree.isSome_of_suffix hm (by rw [hlink']; rfl))
      have htidy := (hlast.tidy h).below (r := [n]) hdir (hshort [n] hn)
      apply ih htidy _ hlink'
      · have hgoes := hlast.goes
        have hstat := stat_of_opendir (opendir_of_locate htidy.loc htidy.isDir)
        rw [rmEntry_recurses _ (hshort [n] hn) hstat] at hgoes
        exact hgoes
      · intro r hr
        rw [← pathTo_append]
        apply hshort (r ++ [n])
        obtain ⟨node, hnode⟩ := Option.isSome_iff_exists.mp hr
        rw [List.append_assoc, hlast.le _ node hnode]
        rfl

theorem rmRecursive_ok {levels : List Readdir} (h : (rmRecursive cwd levels fs path).1 = .ok ()) :
    ∃ fs₁ : FileSystem, fs₁.Le fs ∧ ∃ ℓ, rmdirTarget fs₁ cwd path = .ok ℓ ∧
      (rmRecursive cwd levels fs path).2 = fs₁.erase ℓ := by
  cases levels with
  | nil => cases h
  | cons readdir levels =>
    rw [rmRecursive] at h ⊢
    cases hopen : opendir fs cwd path with
    | error err =>
      rw [hopen] at h
      cases h
    | ok ℓ =>
      rw [hopen] at h
      dsimp only at h ⊢
      have hle := @foldl_rmEntry_le cwd levels path (readdir.order path (dirEntries fs ℓ)) fs
      generalize (readdir.order path (dirEntries fs ℓ)).foldl
        (rmEntry cwd (fun fs child ↦ (rmRecursive cwd levels fs child).2) path) fs = fs₁ at h hle ⊢
      cases hrmdir : rmdir fs₁ cwd path with
      | error err =>
        rw [hrmdir] at h
        cases h
      | ok fs₂ =>
        obtain ⟨ℓ', htarget, rfl⟩ := rmdir_eq_ok_iff.mp hrmdir
        exact ⟨fs₁, hle, ℓ', htarget, rfl⟩

/-- A directory that is removed in every order meets the conditions. -/
theorem clearable_of_returns {enough : Nat}
    (h : ∀ levels, enough ≤ levels.length → (rmRecursive cwd levels fs path).1 = .ok ()) :
    ∃ d, Clearable fs cwd path d := by
  obtain ⟨fs₁, hle, d, htarget, hend⟩ := rmRecursive_ok (h (.replicate enough .inOrder) (by simp))
  obtain ⟨hhere, hup, hloc, hroot, hdir, hempty⟩ := rmdirTarget_eq_ok_iff.mp htarget
  -- whatever the order, the same directory goes
  have hgone : ∀ levels, enough ≤ levels.length → (rmRecursive cwd levels fs path).2.lookup d = none := by
    intro levels hlevels
    obtain ⟨fs₂, hle₂, d', htarget₂, hend₂⟩ := rmRecursive_ok (h levels hlevels)
    obtain ⟨-, -, hloc₂, -, -, -⟩ := rmdirTarget_eq_ok_iff.mp htarget₂
    obtain rfl : d = d' :=
      Except.ok.inj ((locate_mono hloc hle).symm.trans (locate_mono hloc₂ hle₂))
    rw [hend₂]
    exact (lookup_rmdirTarget htarget₂).2
  have hfirst := hgone (.replicate enough .inOrder) (by simp)
  have htidy : Tidy fs cwd path d := ⟨locate_mono hloc hle, hle _ _ hdir, noDirLink_of_gone hfirst⟩
  have hshort : ∀ r, (fs.lookup (r ++ d)).isSome → (pathTo path r).length < pathMax :=
    fun r hr ↦ htidy.short_of_gone hfirst hr
  refine ⟨d, htidy.isDir, hroot, hhere, hup, fun fs' hthin ↦ ?_, hshort, fun r target hlink fs' hthin ↦ ?_⟩
  · have hle' : fs₁.Le fs' := hthin.ge hle fun ℓ hd hsome ↦ by
      obtain rfl := Tree.eq_of_children_eq_nil hempty hd hsome
      exact List.suffix_refl _
    exact locate_mono hloc hle'
  · have hgone' := hgone (r.reverse.map (fun n ↦ .last n.bytes) ++ .replicate enough .inOrder) (by simp)
    rw [← List.reverse_reverse r] at hlink hthin ⊢
    obtain ⟨fs'', hle'', honly, node, hstat, hnode⟩ := htidy.link_reached hshort hlink hgone'
    exact ⟨node, stat_mono hstat (hthin.ge hle'' honly), hnode⟩

end

/-! ## What is left of the path -/

section

variable {fs : FileSystem} {cwd : Loc Name} {path : List UInt8} {ℓ : Loc Name}

theorem lstat_eq_ok_iff {node : Node Name (List UInt8)} : lstat fs cwd path = .ok node ↔
    ∃ ℓ, locate fs cwd false path (parsePath path).full = .ok ℓ ∧ fs.lookup ℓ = some node := by
  unfold lstat
  cases locate fs cwd false path (parsePath path).full with
  | error err => simp
  | ok ℓ => cases hnode : fs.lookup ℓ <;> simp [hnode]

-- What `stat` finds has an entry.
theorem lstat_of_stat {node : Node Name (List UInt8)} (h : stat fs cwd path = .ok node) :
    ∃ node', lstat fs cwd path = .ok node' := by
  have hstart := stat_start h
  obtain ⟨z, hloc, -⟩ := stat_eq_ok_iff.mp h
  obtain ⟨hempty, hlen, hres⟩ := locate_eq_ok_iff.mp hloc
  obtain ⟨y, hy⟩ := hres.unfollowed
  obtain ⟨node', hnode'⟩ := Option.isSome_iff_exists.mp (hy.isSome (by rw [hstart]; rfl))
  exact ⟨node', lstat_eq_ok_iff.mpr ⟨y, locate_eq_ok_iff.mpr ⟨hempty, hlen, hy⟩, hnode'⟩⟩

-- A path without an entry is missing for `lstat` if it is for `stat`.
theorem lstat_noent (hnot : ∀ node, lstat fs cwd path ≠ .ok node) (hstat : stat fs cwd path = .error .noent) :
    lstat fs cwd path = .error .noent := by
  unfold lstat at hnot ⊢
  cases hloc : locate fs cwd false path (parsePath path).full with
  | ok ℓ =>
    cases hnode : fs.lookup ℓ with
    | none => simp [hnode]
    | some node =>
      simp only [hloc, hnode] at hnot
      exact absurd rfl (hnot node)
  | error err =>
    have hloc' : locate fs cwd true path (parsePath path).full = .error err := by
      unfold locate at hloc ⊢
      split at hloc
      next hempty =>
        rw [if_pos hempty]
        exact hloc
      next hempty =>
        rw [if_neg hempty]
        split at hloc
        next hlong =>
          rw [if_pos hlong]
          exact hloc
        next hlong =>
          rw [if_neg hlong]
          exact Tree.walk_true_of_error hloc
    unfold stat at hstat
    rw [hloc'] at hstat
    exact hstat

-- An entry that has been removed is missing.
theorem lstat_erase (hloc : locate fs cwd false path (parsePath path).comps = .ok ℓ)
    (hgone : (fs.erase ℓ).lookup ℓ = none)
    (hslash : (parsePath path).slash = false ∨ fs.lookup ℓ = some .dir) :
    lstat (fs.erase ℓ) cwd path = .error .noent := by
  obtain ⟨hempty, hlen, hres⟩ := locate_eq_ok_iff.mp hloc
  have hfull : fs.Resolves false maxLinks (startOf cwd path) (parsePath path).full ℓ := by
    unfold Path.full
    split
    next hs => exact hres.append_here (hslash.resolve_left (by rw [hs]; decide))
    next =>
      rw [List.append_nil]
      exact hres
  have hwalk : locate (fs.erase ℓ) cwd false path (parsePath path).full =
      (fs.erase ℓ).walk false maxLinks (startOf cwd path) (parsePath path).full := by
    rw [locate, if_neg hempty, if_neg (Nat.not_le_of_lt hlen), startOf]
  unfold lstat
  rw [hwalk]
  rcases hfull.walk_gone hgone (fun y hy ↦ Tree.lookup_erase_ne hy) with hend | hend
  · rw [hend]
    dsimp only
    rw [hgone]
  · rw [hend]

end

/-! ## The top level -/

section

variable {fs : FileSystem} {cwd : Loc Name} {path : List UInt8} {levels : List Readdir} {force : Bool}
  {d : Loc Name}

theorem rmSync_dir (hstat : stat fs cwd path = .ok .dir) :
    ((jsFsRmSync cwd levels fs path true force).1 = .ok () ↔
      (rmRecursive cwd levels fs path).1 = .ok ()) ∧
    (jsFsRmSync cwd levels fs path true force).2 = (rmRecursive cwd levels fs path).2 := by
  unfold jsFsRmSync
  rw [hstat]
  dsimp only
  rw [if_neg (by decide)]
  split <;> simp [*]

theorem rmSync_other {node : Node Name (List UInt8)} (hstat : stat fs cwd path = .ok node)
    (hnode : node ≠ .dir) :
    jsFsRmSync cwd levels fs path true force =
      match unlink fs cwd path with
      | .error err => (.error (jsFsThrowError err path "unlink"), fs)
      | .ok fs => (.ok (), fs) := by
  unfold jsFsRmSync
  rw [hstat]
  cases node with
  | dir => exact absurd rfl hnode
  | file content => rfl
  | link target => rfl

theorem rmSync_missing {err : Errno} (hstat : stat fs cwd path = .error err) :
    jsFsRmSync cwd levels fs path true force =
      if force ∧ err = .noent then (.ok (), fs)
      else (.error (jsFsThrowError err path "stat"), fs) := by
  rw [jsFsRmSync, hstat]

/-- A normal return after `stat` has found something leaves nothing of the path. -/
theorem rmSync_gone {node : Node Name (List UInt8)} (hstat : stat fs cwd path = .ok node)
    (hok : (jsFsRmSync cwd levels fs path true force).1 = .ok ()) :
    lstat (jsFsRmSync cwd levels fs path true force).2 cwd path = .error .noent := by
  by_cases hnode : node = .dir
  · subst hnode
    obtain ⟨hret, htree⟩ := @rmSync_dir fs cwd path levels force hstat
    obtain ⟨fs₁, -, ℓ, htarget, hend⟩ := rmRecursive_ok (hret.mp hok)
    obtain ⟨-, -, hloc, -, hdir, -⟩ := rmdirTarget_eq_ok_iff.mp htarget
    rw [htree, hend]
    exact lstat_erase hloc (lookup_rmdirTarget htarget).2 (.inr hdir)
  · rw [rmSync_other hstat hnode] at hok ⊢
    cases hunlink : unlink fs cwd path with
    | error err =>
      rw [hunlink] at hok
      cases hok
    | ok fs₁ =>
      obtain ⟨ℓ, htarget, rfl⟩ := unlink_eq_ok_iff.mp hunlink
      obtain ⟨hloc, hslash, -⟩ := unlinkTarget_eq_ok_iff.mp htarget
      exact lstat_erase hloc (lookup_unlinkTarget htarget).2 (.inl hslash)

-- What is no directory is unlinked.
theorem rmSync_returns_other {node : Node Name (List UInt8)} (hstat : stat fs cwd path = .ok node)
    (hnode : node ≠ .dir) : (jsFsRmSync cwd levels fs path true force).1 = .ok () := by
  obtain ⟨z, hloc, hz⟩ := stat_eq_ok_iff.mp hstat
  obtain ⟨hempty, hlen, hres⟩ := locate_eq_ok_iff.mp hloc
  have hslash : (parsePath path).slash = false := by
    by_contra hslash
    rw [Path.full, if_pos (by simpa using hslash)] at hres
    obtain ⟨y, rest, -, hlast⟩ := hres.split (by simp)
    cases hlast with
    | here hdir hdone =>
      cases hdone with
      | done => exact hnode (Option.some.inj (hz.symm.trans hdir))
  obtain ⟨node', hlstat⟩ := lstat_of_stat hstat
  obtain ⟨ℓ, hloc', hℓ⟩ := lstat_eq_ok_iff.mp hlstat
  rw [full_of_slash hslash] at hres hloc'
  have hdir : node' ≠ .dir := by
    rintro rfl
    obtain ⟨-, -, hshort⟩ := locate_eq_ok_iff.mp hloc'
    obtain rfl := hres.unique (hshort.to_dir hℓ)
    exact hnode (Option.some.inj (hz.symm.trans hℓ))
  have htarget : unlinkTarget fs cwd path = .ok ℓ :=
    unlinkTarget_eq_ok_iff.mpr ⟨hloc', hslash, node', hℓ, hdir⟩
  rw [rmSync_other hstat hnode, unlink_eq_ok_iff.mpr ⟨ℓ, htarget, rfl⟩]

theorem Clearable.stat_dir (h : Clearable fs cwd path d) : stat fs cwd path = .ok .dir :=
  stat_of_opendir (opendir_of_locate (h.leads fs (Tree.Thinned.refl fs d d)) h.isDir)

theorem Clearable.returns (h : Clearable fs cwd path d) :
    ∃ enough, ∀ levels, enough ≤ levels.length → (rmRecursive cwd levels fs path).1 = .ok () := by
  obtain ⟨depth, hdepth⟩ := Tree.exists_depth fs
  refine ⟨depth + 1, fun levels hlevels ↦ ?_⟩
  refine (Clearable.run h levels (r := []) h.isDir ?_ (Tree.Thinned.refl fs d _) ?_).1
  · intro s hs
    have hlen := hdepth _ hs
    rw [List.length_append] at hlen
    omega
  · exact fun _ _ ↦ rfl

end

section

variable (fs : FileSystem) (cwd : Loc Name) (path : List UInt8) (force : Bool)

/-- What is expected of `rmSync(path, {recursive: true, force})`, whatever order the entries come in. -/
structure RmComplete : Prop where
  /-- After a normal return the path is missing. -/
  gone : ∀ levels, (jsFsRmSync cwd levels fs path true force).1 = .ok () →
    lstat (jsFsRmSync cwd levels fs path true force).2 cwd path = .error .noent
  /-- If the path has an entry, the call returns normally, given enough descriptors. -/
  returns : ∀ node, lstat fs cwd path = .ok node → ∃ enough, ∀ levels, enough ≤ levels.length →
    (jsFsRmSync cwd levels fs path true force).1 = .ok ()

end

/-- The expectation is met by a path without an entry, by one that leads to something that is no
directory, and by a directory that meets the conditions, and by no other. -/
theorem rmSync_complete_iff (fs : FileSystem) (cwd : Loc Name) (path : List UInt8) (force : Bool) :
    RmComplete fs cwd path force ↔
      (∀ node, lstat fs cwd path ≠ .ok node) ∨ (∃ node, stat fs cwd path = .ok node ∧ node ≠ .dir) ∨
        ∃ d, Clearable fs cwd path d := by
  constructor
  · intro h
    by_cases hthere : ∃ node, lstat fs cwd path = .ok node
    · obtain ⟨node, hlstat⟩ := hthere
      obtain ⟨enough, hreturns⟩ := h.returns node hlstat
      right
      cases hstat : stat fs cwd path with
      | error err =>
        have hok := hreturns (.replicate enough .inOrder) (by simp)
        have hgone := h.gone _ hok
        rw [rmSync_missing hstat] at hok hgone
        split at hok
        next hforce =>
          rw [if_pos hforce, hlstat] at hgone
          cases hgone
        next => cases hok
      | ok node =>
        by_cases hnode : node = .dir
        · subst hnode
          exact .inr (clearable_of_returns fun levels hlevels ↦
            (rmSync_dir hstat).1.mp (hreturns levels hlevels))
        · exact .inl ⟨node, rfl, hnode⟩
    · exact .inl fun node hnode ↦ hthere ⟨node, hnode⟩
  · rintro (hmissing | ⟨node, hstat, hnode⟩ | ⟨d, h⟩)
    · refine ⟨fun levels hok ↦ ?_, fun node hnode ↦ absurd hnode (hmissing node)⟩
      cases hstat : stat fs cwd path with
      | error err =>
        rw [rmSync_missing hstat] at hok ⊢
        split at hok
        next hforce =>
          rw [if_pos hforce]
          exact lstat_noent hmissing (by rw [hstat, hforce.2])
        next => cases hok
      | ok node =>
        obtain ⟨node', hlstat⟩ := lstat_of_stat hstat
        exact absurd hlstat (hmissing node')
    · exact ⟨fun levels hok ↦ rmSync_gone hstat hok,
        fun _ _ ↦ ⟨0, fun levels _ ↦ rmSync_returns_other hstat hnode⟩⟩
    · refine ⟨fun levels hok ↦ rmSync_gone h.stat_dir hok, fun _ _ ↦ ?_⟩
      obtain ⟨enough, hreturns⟩ := h.returns
      exact ⟨enough, fun levels hlevels ↦ (rmSync_dir h.stat_dir).1.mpr (hreturns levels hlevels)⟩

/-- A directory `/p` with a link `l` that leads nowhere. -/
def danglingLink : FileSystem :=
  (Tree.empty.add nameP [] .dir).add nameL [nameP] (.link (parsePath [47, 111]))

/-- `rmSync("/p", {recursive: true})` throws, and with `force` `rmSync("/p/l")` returns normally and
leaves the link. -/
theorem rmSync_leaves_link :
    ¬ RmComplete danglingLink [] [47, 112] false ∧ ¬ RmComplete danglingLink [] [47, 112, 47, 108] true := by
  constructor
  · intro h
    obtain ⟨enough, hreturns⟩ := h.returns .dir (by decide)
    have hstat : stat danglingLink [] [47, 112] = .ok .dir := by decide
    obtain ⟨d, hclear⟩ := clearable_of_returns fun levels hlevels ↦
      (rmSync_dir hstat).1.mp (hreturns levels hlevels)
    obtain rfl : [nameP] = d :=
      Except.ok.inj (hclear.leads danglingLink (Tree.Thinned.refl danglingLink d d))
    obtain ⟨node, hnode, -⟩ := hclear.links [nameL] _ rfl danglingLink (Tree.Thinned.refl _ _ _)
    have hfails : stat danglingLink [] (pathTo [47, 112] [nameL]) = .error .noent := by decide
    rw [hfails] at hnode
    cases hnode
  · intro h
    have hgone := h.gone [] (by decide)
    revert hgone
    decide

end QNode.Fs
