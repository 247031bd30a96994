import QNode.Fs.RmPaths

/-!
# What rmSync removes completely

A directory goes if every entry below it has a short enough path, every link below it leads to
something that is no directory, and its own path does not need what is below it.  The links have to
lead there whichever other entries are gone, for `readdir` may return a link last.
-/

open FileTree

namespace QNode.Fs

/-- What `rm_recursive` needs to remove the directory `d` that `path` names, in whatever order it gets
the entries. -/
structure Clearable (fs : FileSystem) (cwd : Loc Name) (path : List UInt8) (d : Loc Name) : Prop where
  isDir : fs.lookup d = some .dir
  notRoot : d ≠ []
  notHere : (parsePath path).comps.getLast? ≠ some .here
  notUp : (parsePath path).comps.getLast? ≠ some .up
  leads : ∀ fs', fs.Thinned d d fs' → locate fs' cwd false path (parsePath path).comps = .ok d
  short : ∀ r, (fs.lookup (r ++ d)).isSome → (pathTo path r).length < pathMax
  links : ∀ r target, fs.lookup (r ++ d) = some (.link target) → ∀ fs', fs.Thinned d (r ++ d) fs' →
    ∃ node, stat fs' cwd (pathTo path r) = .ok node ∧ node ≠ .dir

section

variable {fs fs' fs'' : FileSystem} {cwd : Loc Name} {path : List UInt8} {d x : Loc Name}

theorem Clearable.reached (h : Clearable fs cwd path d) {r : Loc Name}
    (hthin : fs.Thinned d (r ++ d) fs') (hsome : (fs.lookup (r ++ d)).isSome) :
    locate fs' cwd false (pathTo path r) (parsePath (pathTo path r)).comps = .ok (r ++ d) := by
  apply locate_pathTo (h.leads fs' (hthin.up (List.suffix_append r d)))
  · rw [hthin.same _ (.inr (List.suffix_refl _))]
    exact hsome
  · exact h.short r hsome

/-- What the loop over the entries of `x` has come to: some entries are gone, the others as they were. -/
structure Emptying (fs : FileSystem) (d x : Loc Name) (fs' : FileSystem) : Prop where
  thin : fs.Thinned d x fs'
  entry : ∀ n, (∀ ℓ, n :: x <:+ ℓ → fs'.lookup ℓ = fs.lookup ℓ) ∨ ∀ ℓ, n :: x <:+ ℓ → fs'.lookup ℓ = none

theorem Emptying.cleared {n : Name} (h : Emptying fs d x fs') (hd : d <:+ x)
    (hclear : fs'.Cleared (n :: x) fs'') : Emptying fs d x fs'' := by
  refine ⟨⟨hclear.le.trans h.thin.le, ?_⟩, ?_⟩
  · intro ℓ hℓ
    have hnot : ¬ n :: x <:+ ℓ := by
      intro hbelow
      rcases hℓ with hℓ | hℓ
      · exact hℓ (hd.trans ((List.suffix_cons n x).trans hbelow))
      · have hlen := (hbelow.trans hℓ).length_le
        rw [List.length_cons] at hlen
        omega
    rw [hclear.same ℓ hnot]
    exact h.thin.same ℓ hℓ
  · intro m
    by_cases hm : n = m
    · subst hm
      exact .inr hclear.gone
    · have hother : ∀ ℓ, m :: x <:+ ℓ → fs''.lookup ℓ = fs'.lookup ℓ :=
        fun ℓ hℓ ↦ hclear.same ℓ fun hn ↦ hm (Tree.cons_suffix_unique hn hℓ)
      rcases h.entry m with hsame | hgone
      · exact .inl fun ℓ hℓ ↦ (hother ℓ hℓ).trans (hsame ℓ hℓ)
      · exact .inr fun ℓ hℓ ↦ (hother ℓ hℓ).trans (hgone ℓ hℓ)

-- A name that is gone has no path any more.
theorem stat_gone {n : Name} {node : Node Name (List UInt8)}
    (hloc : locate fs cwd false path (parsePath path).comps = .ok x) (hdir : fs.lookup x = some .dir)
    (hgone : fs.lookup (n :: x) = none) : stat fs cwd (pathTo path [n]) ≠ .ok node := by
  intro hstat
  obtain ⟨hempty, -, hres⟩ := locate_eq_ok_iff.mp hloc
  obtain ⟨y, hy, -⟩ := stat_eq_ok_iff.mp hstat
  obtain ⟨-, -, hlong⟩ := locate_eq_ok_iff.mp hy
  rw [startOf_pathTo hempty, full_pathTo, comps_pathTo] at hlong
  obtain ⟨z, rest, hz, hlast⟩ := hlong.split (by simp)
  obtain rfl := hz.unique (hres.to_dir hdir)
  have hthere := hlast.name_isSome
  rw [hgone] at hthere
  cases hthere

-- An entry that `stat` finds to be no directory is removed.
theorem rmEntry_unlinks {n : Name} {node node' : Node Name (List UInt8)}
    (recurse : FileSystem → List UInt8 → FileSystem) (hshort : (pathTo path [n]).length < pathMax)
    (hloc : locate fs cwd false (pathTo path [n]) (parsePath (pathTo path [n])).comps = .ok (n :: x))
    (hnode : fs.lookup (n :: x) = some node) (hdir : node ≠ .dir)
    (hstat : stat fs cwd (pathTo path [n]) = .ok node') (hdir' : node' ≠ .dir) :
    rmEntry cwd recurse path fs n.bytes = fs.erase (n :: x) := by
  have htarget : unlinkTarget fs cwd (pathTo path [n]) = .ok (n :: x) :=
    unlinkTarget_eq_ok_iff.mpr ⟨hloc, slash_pathTo path n [], node, hnode, hdir⟩
  have hunlink : unlink fs cwd (pathTo path [n]) = .ok (fs.erase (n :: x)) :=
    unlink_eq_ok_iff.mpr ⟨_, htarget, rfl⟩
  have hchild : childPath path n.bytes = pathTo path [n] := childPath_pathTo hshort
  rw [rmEntry, if_neg (not_or.mpr ⟨n.valid.2.1, n.valid.2.2.1⟩), hchild]
  dsimp only
  rw [hstat, hunlink]
  cases node' with
  | dir => exact absurd rfl hdir'
  | file content => rfl
  | link target => rfl

-- A file is found by its path.
theorem stat_file {content : List UInt8} {n : Name}
    (hloc : locate fs cwd false (pathTo path [n]) (parsePath (pathTo path [n])).comps = .ok x)
    (hfile : fs.lookup x = some (.file content)) :
    stat fs cwd (pathTo path [n]) = .ok (.file content) := by
  obtain ⟨hempty, hlen, hres⟩ := locate_eq_ok_iff.mp hloc
  have hfollow := hres.following fun target ↦ by
    rw [hfile]
    simp
  refine stat_eq_ok_iff.mpr ⟨x, locate_eq_ok_iff.mpr ⟨hempty, hlen, ?_⟩, hfile⟩
  rw [full_pathTo]
  exact hfollow

-- On the way to an entry that is as it was, all is as it was.
theorem Emptying.thin_entry {n : Name} (h : Emptying fs d x fs')
    (hsame : ∀ ℓ, n :: x <:+ ℓ → fs'.lookup ℓ = fs.lookup ℓ) : fs.Thinned d (n :: x) fs' := by
  refine ⟨h.thin.le, fun ℓ hℓ ↦ ?_⟩
  rcases hℓ with hℓ | hℓ
  · exact h.thin.same ℓ (.inl hℓ)
  · rcases List.suffix_cons_iff.mp hℓ with rfl | hℓ
    · exact hsame _ (List.suffix_refl _)
    · exact h.thin.same ℓ (.inr hℓ)

-- An entry that is gone already is passed over.
theorem rmEntry_skips {n : Name} (recurse : FileSystem → List UInt8 → FileSystem)
    (hshort : (pathTo path [n]).length < pathMax)
    (hloc : locate fs cwd false path (parsePath path).comps = .ok x) (hdir : fs.lookup x = some .dir)
    (hgone : fs.lookup (n :: x) = none) : rmEntry cwd recurse path fs n.bytes = fs := by
  have hchild : childPath path n.bytes = pathTo path [n] := childPath_pathTo hshort
  rw [rmEntry, if_neg (not_or.mpr ⟨n.valid.2.1, n.valid.2.2.1⟩), hchild]
  dsimp only
  cases hstat : stat fs cwd (pathTo path [n]) with
  | error err => rfl
  | ok node => exact absurd hstat (stat_gone hloc hdir hgone)

/-- The body of the loop takes one entry out with all that is below it. -/
theorem Clearable.entry_cleared (h : Clearable fs cwd path d) {r : Loc Name} {n : Name}
    {recurse : FileSystem → List UInt8 → FileSystem} (hE : Emptying fs d (r ++ d) fs')
    (hdir : fs.lookup (r ++ d) = some .dir) (hn : (fs.lookup (n :: (r ++ d))).isSome)
    (hrec : fs.lookup (n :: (r ++ d)) = some .dir → fs.Thinned d (n :: (r ++ d)) fs' →
      (∀ ℓ, n :: (r ++ d) <:+ ℓ → fs'.lookup ℓ = fs.lookup ℓ) →
      fs'.Cleared (n :: (r ++ d)) (recurse fs' (pathTo path (n :: r)))) :
    fs'.Cleared (n :: (r ++ d)) (rmEntry cwd recurse (pathTo path r) fs' n.bytes) := by
  have hshort : (pathTo path (n :: r)).length < pathMax := h.short (n :: r) hn
  rcases hE.entry n with hsame | hgone
  · have hthin : fs.Thinned d (n :: r ++ d) fs' := hE.thin_entry hsame
    have hloc := h.reached hthin hn
    have hlookup := hsame _ (List.suffix_refl _)
    obtain ⟨node, hnode⟩ := Option.isSome_iff_exists.mp hn
    rw [hnode] at hlookup
    have hleaf : node ≠ .dir → fs'.children (n :: (r ++ d)) = [] := by
      intro hnot
      apply Tree.children_eq_nil
      rw [hlookup]
      exact fun heq ↦ hnot (Option.some.inj heq)
    cases node with
    | dir =>
      have hstat : stat fs' cwd (pathTo path (n :: r)) = .ok .dir :=
        stat_of_opendir (opendir_of_locate hloc hlookup)
      rw [rmEntry_recurses recurse hshort hstat]
      exact hrec hnode hthin hsame
    | file content =>
      rw [rmEntry_unlinks recurse hshort hloc hlookup (by simp) (stat_file hloc hlookup) (by simp)]
      exact Tree.cleared_erase (hleaf (by simp))
    | link target =>
      obtain ⟨node', hstat, hdir'⟩ := h.links (n :: r) target hnode fs' hthin
      rw [rmEntry_unlinks recurse hshort hloc hlookup (by simp) hstat hdir']
      exact Tree.cleared_erase (hleaf (by simp))
  · have hloc := h.reached hE.thin (by rw [hdir]; rfl)
    have hdir' := (hE.thin.same _ (.inr (List.suffix_refl _))).trans hdir
    rw [rmEntry_skips recurse hshort hloc hdir' (hgone _ (List.suffix_refl _))]
    exact ⟨hgone, fun _ _ ↦ rfl⟩

/-- From `fs'`, the loop over entries of `x` has come to `fs''`: the ones with these names are gone, and
nothing has changed outside. -/
structure Looped (fs : FileSystem) (d x : Loc Name) (fs' : FileSystem) (names : List (List UInt8))
    (fs'' : FileSystem) : Prop where
  emptying : Emptying fs d x fs''
  le : fs''.Le fs'
  outside : ∀ ℓ, ¬ x <:+ ℓ → fs''.lookup ℓ = fs'.lookup ℓ
  gone : ∀ n, n.bytes ∈ names → fs''.lookup (n :: x) = none

theorem Looped.skip {name : List UInt8} {names : List (List UInt8)} (h : Looped fs d x fs' names fs'')
    (hname : ∀ n : Name, n.bytes ≠ name) : Looped fs d x fs' (name :: names) fs'' :=
  ⟨h.emptying, h.le, h.outside, fun n hn ↦ h.gone n ((List.mem_cons.mp hn).resolve_left (hname n))⟩

theorem Looped.entry {fs₁ : FileSystem} {n : Name} {names : List (List UInt8)}
    (h : Looped fs d x fs₁ names fs'') (hclear : fs'.Cleared (n :: x) fs₁) :
    Looped fs d x fs' (n.bytes :: names) fs'' := by
  refine ⟨h.emptying, h.le.trans hclear.le, fun ℓ hℓ ↦ ?_, fun m hm ↦ ?_⟩
  · rw [h.outside ℓ hℓ]
    exact hclear.same ℓ fun hbelow ↦ hℓ ((List.suffix_cons n x).trans hbelow)
  · rcases List.mem_cons.mp hm with heq | hm
    · obtain rfl : m = n := Name.ext heq
      exact h.le.lookup_none (hclear.gone _ (List.suffix_refl _))
    · exact h.gone m hm

theorem Emptying.loop {f : FileSystem → List UInt8 → FileSystem} {names : List (List UInt8)}
    (hE : Emptying fs d x fs') (hd : d <:+ x)
    (hdots : ∀ fs', f fs' [46] = fs' ∧ f fs' [46, 46] = fs')
    (hf : ∀ n fs', (fs.lookup (n :: x)).isSome → Emptying fs d x fs' →
      fs'.Cleared (n :: x) (f fs' n.bytes))
    (hnames : ∀ name ∈ names, name = [46] ∨ name = [46, 46] ∨
      ∃ n, name = n.bytes ∧ (fs.lookup (n :: x)).isSome) :
    Looped fs d x fs' names (names.foldl f fs') := by
  induction names generalizing fs' with
  | nil => exact ⟨hE, Tree.Le.refl _, fun _ _ ↦ rfl, fun n hn ↦ absurd hn (by simp)⟩
  | cons name names ih =>
    have hrest : ∀ name ∈ names, name = [46] ∨ name = [46, 46] ∨
        ∃ n, name = n.bytes ∧ (fs.lookup (n :: x)).isSome :=
      fun name hname ↦ hnames name (List.mem_cons_of_mem _ hname)
    rw [List.foldl_cons]
    rcases hnames name List.mem_cons_self with rfl | rfl | ⟨n, rfl, hn⟩
    · rw [(hdots fs').1]
      exact (ih hE hrest).skip fun n ↦ n.valid.2.1
    · rw [(hdots fs').2]
      exact (ih hE hrest).skip fun n ↦ n.valid.2.2.1
    · have hclear := hf n fs' hn hE
      exact (ih (hE.cleared hd hclear) hrest).entry hclear

theorem mem_dirEntries {ℓ : Loc Name} {name : List UInt8} :
    name ∈ dirEntries fs ℓ ↔ name = [46] ∨ name = [46, 46] ∨
      ∃ n, name = n.bytes ∧ (fs.lookup (n :: ℓ)).isSome := by
  rw [dirEntries, List.mem_cons, List.mem_cons, List.mem_map]
  simp only [Tree.mem_children, and_comm, eq_comm]

-- Once it is empty, the directory itself can be removed.
theorem Clearable.emptied (h : Clearable fs cwd path d) {r : Loc Name}
    (hdir : fs.lookup (r ++ d) = some .dir) (hthin : fs.Thinned d (r ++ d) fs')
    (hempty : fs'.children (r ++ d) = []) : rmdirTarget fs' cwd (pathTo path r) = .ok (r ++ d) := by
  have hlast : (parsePath (pathTo path r)).comps.getLast? ≠ some .here ∧
      (parsePath (pathTo path r)).comps.getLast? ≠ some .up := by
    cases r with
    | nil => exact ⟨h.notHere, h.notUp⟩
    | cons n r =>
      rw [comps_pathTo, List.getLast?_concat]
      exact ⟨by simp, by simp⟩
  have hloc := h.reached hthin (by rw [hdir]; rfl)
  have hdir' := (hthin.same _ (.inr (List.suffix_refl _))).trans hdir
  have hroot : r ++ d ≠ [] := fun hnil ↦ h.notRoot (List.append_eq_nil_iff.mp hnil).2
  exact rmdirTarget_eq_ok_iff.mpr ⟨hlast.1, hlast.2, hloc, hroot, hdir', hempty⟩

theorem rmRecursive_clears {readdir : Readdir} {levels : List Readdir}
    (hopen : opendir fs' cwd path = .ok x)
    (hloop : Looped fs d x fs' (readdir.order path (dirEntries fs' x))
      ((readdir.order path (dirEntries fs' x)).foldl
        (rmEntry cwd (fun fs child ↦ (rmRecursive cwd levels fs child).2) path) fs'))
    (hready : ∀ fs'', fs.Thinned d x fs'' → fs''.children x = [] → rmdirTarget fs'' cwd path = .ok x) :
    (rmRecursive cwd (readdir :: levels) fs' path).1 = .ok () ∧
      fs'.Cleared x (rmRecursive cwd (readdir :: levels) fs' path).2 := by
  rw [rmRecursive, hopen]
  dsimp only
  generalize (readdir.order path (dirEntries fs' x)).foldl
    (rmEntry cwd (fun fs child ↦ (rmRecursive cwd levels fs child).2) path) fs' = fs₁ at hloop
  have hempty : fs₁.children x = [] := by
    apply List.eq_nil_iff_forall_not_mem.mpr
    intro n hn
    have hn' := Tree.mem_children.mp (hloop.le.children hn)
    have hname : n.bytes ∈ readdir.order path (dirEntries fs' x) := by
      rw [(readdir.perm _ _).mem_iff, mem_dirEntries]
      exact .inr (.inr ⟨n, rfl, hn'⟩)
    have hthere := Tree.mem_children.mp hn
    rw [hloop.gone n hname] at hthere
    cases hthere
  have htarget := hready fs₁ hloop.emptying.thin hempty
  rw [rmdir_eq_ok_iff.mpr ⟨x, htarget, rfl⟩]
  refine ⟨rfl, fun ℓ hℓ ↦ ?_, fun ℓ hℓ ↦ ?_⟩
  · obtain ⟨-, -, -, hroot, -, -⟩ := rmdirTarget_eq_ok_iff.mp htarget
    cases x with
    | nil => exact absurd rfl hroot
    | cons n x => exact (Tree.cleared_erase hempty).gone ℓ hℓ
  · have hne : ℓ ≠ x := by
      rintro rfl
      exact hℓ (List.suffix_refl _)
    exact (Tree.lookup_erase_ne hne).trans (hloop.outside ℓ hℓ)

/-- The recursion removes a directory with all that is below it, and nothing else, as long as there are
descriptors for all levels. -/
theorem Clearable.run (h : Clearable fs cwd path d) (levels : List Readdir) {r : Loc Name}
    (hdir : fs.lookup (r ++ d) = some .dir)
    (hdepth : ∀ s, (fs.lookup (s ++ (r ++ d))).isSome → s.length < levels.length)
    (hthin : fs.Thinned d (r ++ d) fs') (hsame : ∀ ℓ, r ++ d <:+ ℓ → fs'.lookup ℓ = fs.lookup ℓ) :
    (rmRecursive cwd levels fs' (pathTo path r)).1 = .ok () ∧
      fs'.Cleared (r ++ d) (rmRecursive cwd levels fs' (pathTo path r)).2 := by
  induction levels generalizing r fs' with
  | nil => exact absurd (hdepth [] (by rw [List.nil_append, hdir]; rfl)) (by simp)
  | cons readdir levels ih =>
    have hloc := h.reached hthin (by rw [hdir]; rfl)
    have hdir' : fs'.lookup (r ++ d) = some .dir := (hsame _ (List.suffix_refl _)).trans hdir
    have hentry : ∀ n, fs'.lookup (n :: (r ++ d)) = fs.lookup (n :: (r ++ d)) :=
      fun n ↦ hsame _ (List.suffix_cons n _)
    have hstart : Emptying fs d (r ++ d) fs' :=
      ⟨hthin, fun n ↦ .inl fun ℓ hℓ ↦ hsame ℓ ((List.suffix_cons n _).trans hℓ)⟩
    refine rmRecursive_clears (opendir_of_locate hloc hdir') ?_
      fun fs'' hthin' hempty ↦ h.emptied hdir hthin' hempty
    apply hstart.loop (List.suffix_append r d)
    · exact fun fs' ↦ ⟨if_pos (.inl rfl), if_pos (.inr rfl)⟩
    · intro n fs' hn hE
      apply h.entry_cleared hE hdir hn
      intro hchild hthin' hsame'
      have hdepth' : ∀ s, (fs.lookup (s ++ (n :: r ++ d))).isSome → s.length < levels.length := by
        intro s hs
        have hlonger := hdepth (s ++ [n]) (by simpa using hs)
        rw [List.length_append, List.length_cons, List.length_cons, List.length_nil] at hlonger
        omega
      exact (ih hchild hdepth' hthin' hsame').2
    · intro name hname
      rw [(readdir.perm _ _).mem_iff, mem_dirEntries] at hname
      simpa only [hentry] using hname

end

end QNode.Fs
