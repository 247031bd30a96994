import QNode.Fs.RmClears

/-!
# The calls of rmSync

`rm_recursive` writes the path of an entry into a buffer of `PATH_MAX` bytes.  Here every call it makes
with such a path is recorded.  Nothing in the loop is reported: an entry whose path was cut off is
called by what is left of it.
-/

open FileTree

namespace QNode.Fs

/-- What the path of an entry is passed to: `stat`, `unlink` or `rm_recursive`. -/
inductive RmOp
  | stat | unlink | recurse
  deriving DecidableEq, Repr

/-- A call made for an entry, by a `rm_recursive` that runs inside `depth` others. -/
structure RmCall where
  depth : Nat
  op : RmOp
  parent : List UInt8
  name : List UInt8
  path : List UInt8
  deriving DecidableEq

/-- The tree that is left, and the calls in their order. -/
structure RmRun where
  fs : FileSystem
  calls : List RmCall

section

variable (cwd : Loc Name)

/-- The body of the loop, with the calls made before it. -/
def rmEntryRun (recurse : FileSystem → List UInt8 → RmRun) (depth : Nat) (path : List UInt8)
    (run : RmRun) (name : List UInt8) : RmRun :=
  if name = [46] ∨ name = [46, 46] then run
  else
    let child := childPath path name
    let call (op : RmOp) : RmCall := ⟨depth, op, path, name, child⟩
    match stat run.fs cwd child with
    | .error _ => ⟨run.fs, run.calls ++ [call .stat]⟩
    | .ok .dir =>
      let sub := recurse run.fs child
      ⟨sub.fs, run.calls ++ [call .stat, call .recurse] ++ sub.calls⟩
    | .ok _ =>
      match unlink run.fs cwd child with
      | .error _ => ⟨run.fs, run.calls ++ [call .stat, call .unlink]⟩
      | .ok fs => ⟨fs, run.calls ++ [call .stat, call .unlink]⟩

def rmRecursiveRun : List Readdir → Nat → FileSystem → List UInt8 → Except Errno Unit × RmRun
  | [], _, fs, _ => (.error .mfile, ⟨fs, []⟩)
  | readdir :: levels, depth, fs, path =>
    match opendir fs cwd path with
    | .error err => (.error err, ⟨fs, []⟩)
    | .ok ℓ =>
      let recurse := fun fs child ↦ (rmRecursiveRun levels (depth + 1) fs child).2
      let run := (readdir.order path (dirEntries fs ℓ)).foldl (rmEntryRun cwd recurse depth path) ⟨fs, []⟩
      match rmdir run.fs cwd path with
      | .error err => (.error err, run)
      | .ok fs => (.ok (), ⟨fs, run.calls⟩)

end

/-- A call for an entry by its own path, on a longer path than the caller's if it is a recursion, and
no deeper than paths can be long.  There is no other way to deal with an entry: the loop drops every
result, and what is returned is what `rmdir` says about the directory. -/
structure RmCall.Sound (call : RmCall) : Prop where
  whole : call.path = call.parent ++ 47 :: call.name
  longer : call.op = .recurse → call.parent.length < call.path.length
  depth : call.op = .recurse → 2 * (call.depth + 1) < pathMax

/-- Every entry that `path` and names lead to, links followed, has a path that fits the buffer. -/
def FitsBuffer (fs : FileSystem) (cwd : Loc Name) (path : List UInt8) : Prop :=
  path ≠ [] → ∀ r n ℓ, opendir fs cwd (pathTo path r) = .ok ℓ → n ∈ fs.children ℓ →
    (pathTo path (n :: r)).length < pathMax

section

variable {cwd : Loc Name} {fs fs' : FileSystem} {path q : List UInt8} {ℓ : Loc Name}

/-! ## The tree of a run -/

theorem rmEntryRun_fs {recurse : FileSystem → List UInt8 → RmRun} (depth : Nat) (run : RmRun)
    (name : List UInt8) :
    (rmEntryRun cwd recurse depth path run name).fs =
      rmEntry cwd (fun fs child ↦ (recurse fs child).fs) path run.fs name := by
  unfold rmEntryRun rmEntry
  by_cases hdots : name = [46] ∨ name = [46, 46]
  · rw [if_pos hdots, if_pos hdots]
  · rw [if_neg hdots, if_neg hdots]
    dsimp only
    cases stat run.fs cwd (childPath path name) with
    | error err => rfl
    | ok node =>
      cases node with
      | dir => rfl
      | file content => cases unlink run.fs cwd (childPath path name) <;> rfl
      | link target => cases unlink run.fs cwd (childPath path name) <;> rfl

theorem foldl_rmEntryRun_fs {recurse : FileSystem → List UInt8 → RmRun} (depth : Nat)
    (names : List (List UInt8)) (run : RmRun) :
    (names.foldl (rmEntryRun cwd recurse depth path) run).fs =
      names.foldl (rmEntry cwd (fun fs child ↦ (recurse fs child).fs) path) run.fs := by
  induction names generalizing run with
  | nil => rfl
  | cons name names ih => rw [List.foldl_cons, List.foldl_cons, ih, rmEntryRun_fs]

/-- Recording the calls changes nothing. -/
theorem rmRecursiveRun_eq (levels : List Readdir) (depth : Nat) (fs : FileSystem) (path : List UInt8) :
    ((rmRecursiveRun cwd levels depth fs path).1, (rmRecursiveRun cwd levels depth fs path).2.fs) =
      rmRecursive cwd levels fs path := by
  induction levels generalizing depth fs path with
  | nil => rfl
  | cons readdir levels ih =>
    have hrecurse : (fun fs child ↦ (rmRecursiveRun cwd levels (depth + 1) fs child).2.fs) =
        fun fs child ↦ (rmRecursive cwd levels fs child).2 := by
      funext fs child
      exact congrArg Prod.snd (ih (depth + 1) fs child)
    rw [rmRecursiveRun, rmRecursive]
    cases opendir fs cwd path with
    | error err => rfl
    | ok ℓ =>
      dsimp only
      rw [foldl_rmEntryRun_fs, hrecurse]
      dsimp only
      generalize hloop : (readdir.order path (dirEntries fs ℓ)).foldl
        (rmEntry cwd (fun fs child ↦ (rmRecursive cwd levels fs child).2) path) fs = fs'
      cases rmdir fs' cwd path with
      | error err => exact congrArg (Prod.mk _) ((foldl_rmEntryRun_fs ..).trans (hrecurse ▸ hloop))
      | ok fs'' => rfl

/-! ## The calls of a run -/

theorem rmEntryRun_calls {recurse : FileSystem → List UInt8 → RmRun} {depth : Nat} {run : RmRun}
    {name : List UInt8} {call : RmCall}
    (h : call ∈ (rmEntryRun cwd recurse depth path run name).calls) :
    call ∈ run.calls ∨
      ((name ≠ [46] ∧ name ≠ [46, 46]) ∧
        (call.op ≠ .recurse ∧ call = ⟨depth, call.op, path, name, childPath path name⟩ ∨
          stat run.fs cwd (childPath path name) = .ok .dir ∧
            (call = ⟨depth, .recurse, path, name, childPath path name⟩ ∨
              call ∈ (recurse run.fs (childPath path name)).calls))) := by
  have hstats : RmOp.stat ≠ .recurse := by decide
  have hunlinks : RmOp.unlink ≠ .recurse := by decide
  unfold rmEntryRun at h
  by_cases hdots : name = [46] ∨ name = [46, 46]
  · rw [if_pos hdots] at h
    exact .inl h
  · rw [if_neg hdots] at h
    dsimp only at h
    split at h
    next =>
      rcases List.mem_append.mp h with hold | hnew
      · exact .inl hold
      · rw [List.mem_singleton.mp hnew]
        exact .inr ⟨not_or.mp hdots, .inl ⟨hstats, rfl⟩⟩
    next hstat =>
      rcases List.mem_append.mp h with hnew | hsub
      · rcases List.mem_append.mp hnew with hold | hnew
        · exact .inl hold
        · refine .inr ⟨not_or.mp hdots, ?_⟩
          rcases List.mem_cons.mp hnew with rfl | hnew
          · exact .inl ⟨hstats, rfl⟩
          · exact .inr ⟨hstat, .inl (List.mem_singleton.mp hnew)⟩
      · exact .inr ⟨not_or.mp hdots, .inr ⟨hstat, .inr hsub⟩⟩
    next =>
      have hcalls : call ∈ run.calls ++ [⟨depth, .stat, path, name, childPath path name⟩,
          ⟨depth, .unlink, path, name, childPath path name⟩] := by
        split at h <;> exact h
      rcases List.mem_append.mp hcalls with hold | hnew
      · exact .inl hold
      · refine .inr ⟨not_or.mp hdots, .inl ?_⟩
        rcases List.mem_cons.mp hnew with rfl | hnew
        · exact ⟨hstats, rfl⟩
        · rw [List.mem_singleton.mp hnew]
          exact ⟨hunlinks, rfl⟩

theorem rmRecursiveRun_fs (levels : List Readdir) (depth : Nat) (fs : FileSystem)
    (path : List UInt8) :
    (rmRecursiveRun cwd levels depth fs path).2.fs = (rmRecursive cwd levels fs path).2 :=
  congrArg Prod.snd (rmRecursiveRun_eq levels depth fs path)

theorem rmEntryRun_le (levels : List Readdir) (depth : Nat) (run : RmRun) (name : List UInt8) :
    (rmEntryRun cwd (fun fs child ↦ (rmRecursiveRun cwd levels (depth + 1) fs child).2) depth path run
      name).fs.Le run.fs := by
  have hsame : (fun fs child ↦ (rmRecursiveRun cwd levels (depth + 1) fs child).2.fs) =
      fun fs child ↦ (rmRecursive cwd levels fs child).2 := by
    funext fs child
    exact rmRecursiveRun_fs levels (depth + 1) fs child
  rw [rmEntryRun_fs, hsame]
  exact rmEntry_le levels run.fs path name

/-- A part of a run in the tree `fs`: entries only disappear, and every call is `Q`. -/
structure RmRun.Within (Q : RmCall → Prop) (fs : FileSystem) (run : RmRun) : Prop where
  le : run.fs.Le fs
  calls : ∀ call ∈ run.calls, Q call

-- The rule for the calls of a whole run: `P` holds of each path the recursion comes to, and what the
-- loop there calls is `Q`.
theorem rmRecursiveRun_calls {P : Nat → List UInt8 → Prop} {Q : RmCall → Prop}
    (hentry : ∀ depth q ℓ n op, P depth q → opendir fs cwd q = .ok ℓ → n ∈ fs.children ℓ →
      (op = .recurse → stat fs cwd (childPath q n.bytes) = .ok .dir) →
      Q ⟨depth, op, q, n.bytes, childPath q n.bytes⟩ ∧ P (depth + 1) (childPath q n.bytes))
    (levels : List Readdir) (depth : Nat) (hle : fs'.Le fs) (hpath : P depth path) :
    ∀ call ∈ (rmRecursiveRun cwd levels depth fs' path).2.calls, Q call := by
  induction levels generalizing depth fs' path with
  | nil => exact fun _ hcall ↦ absurd hcall List.not_mem_nil
  | cons readdir levels ih =>
    rw [rmRecursiveRun]
    split
    next => exact fun _ hcall ↦ absurd hcall List.not_mem_nil
    next ℓ hopen =>
      dsimp only
      have hstart : RmRun.Within Q fs ⟨fs', []⟩ := ⟨hle, fun _ hcall ↦ absurd hcall List.not_mem_nil⟩
      have hloop : RmRun.Within Q fs ((readdir.order path (dirEntries fs' ℓ)).foldl (rmEntryRun cwd
          (fun fs child ↦ (rmRecursiveRun cwd levels (depth + 1) fs child).2) depth path) ⟨fs', []⟩) := by
        apply List.foldlRecOn _ _ hstart
        intro run hrun name hname
        refine ⟨(rmEntryRun_le levels depth run name).trans hrun.le, fun call hcall ↦ ?_⟩
        rcases rmEntryRun_calls hcall with hold | ⟨⟨hhere, hup⟩, hnew⟩
        · exact hrun.calls call hold
        · rw [(readdir.perm _ _).mem_iff, mem_dirEntries] at hname
          obtain ⟨n, rfl, hn⟩ := (hname.resolve_left hhere).resolve_left hup
          have hchild : n ∈ fs.children ℓ := hle.children (Tree.mem_children.mpr hn)
          have hstep := fun op ↦ hentry depth path ℓ n op hpath (opendir_mono hopen hle) hchild
          rcases hnew with ⟨hop, hcall⟩ | ⟨hstat, hcall | hsub⟩
          · rw [hcall]
            exact (hstep call.op fun h ↦ absurd h hop).1
          · rw [hcall]
            exact (hstep .recurse fun _ ↦ stat_mono hstat hrun.le).1
          · exact ih (depth + 1) hrun.le (hstep .recurse fun _ ↦ stat_mono hstat hrun.le).2 call hsub
      split <;> exact hloop.calls

/-! ## The calls that are made -/

-- The calls of the first entry are made in the tree as it was.
theorem rmRecursiveRun_first {levels : List Readdir} {depth : Nat} {n : Name} {call : RmCall}
    (hopen : opendir fs cwd path = .ok ℓ) (hn : n ∈ fs.children ℓ)
    (hcall : call ∈ (rmEntryRun cwd (fun fs child ↦ (rmRecursiveRun cwd levels (depth + 1) fs child).2)
      depth path ⟨fs, []⟩ n.bytes).calls) :
    call ∈ (rmRecursiveRun cwd (.first n.bytes :: levels) depth fs path).2.calls := by
  have hmem : n.bytes ∈ dirEntries fs ℓ :=
    List.mem_cons_of_mem _ (List.mem_cons_of_mem _ (List.mem_map_of_mem hn))
  have hmore : ∀ (recurse : FileSystem → List UInt8 → RmRun) (run : RmRun)
      (names : List (List UInt8)), call ∈ run.calls →
        call ∈ (names.foldl (rmEntryRun cwd recurse depth path) run).calls := by
    intro recurse run names hrun
    refine List.foldlRecOn (motive := fun run : RmRun ↦ call ∈ run.calls) _ _ hrun ?_
    intro run hrun name _
    unfold rmEntryRun
    dsimp only
    split
    · exact hrun
    · split
      · exact List.mem_append_left _ hrun
      · exact List.mem_append_left _ (List.mem_append_left _ hrun)
      · split <;> exact List.mem_append_left _ hrun
  rw [rmRecursiveRun, hopen]
  dsimp only [Readdir.first]
  rw [if_pos hmem, List.foldl_cons]
  split <;> exact hmore _ _ _ hcall

theorem rmEntryRun_stats (recurse : FileSystem → List UInt8 → RmRun) (depth : Nat) (run : RmRun)
    (n : Name) : ⟨depth, .stat, path, n.bytes, childPath path n.bytes⟩ ∈
      (rmEntryRun cwd recurse depth path run n.bytes).calls := by
  unfold rmEntryRun
  rw [if_neg (not_or.mpr ⟨n.valid.2.1, n.valid.2.2.1⟩)]
  dsimp only
  split
  · simp
  · simp
  · split <;> simp

theorem rmEntryRun_recurses {recurse : FileSystem → List UInt8 → RmRun} {depth : Nat} {run : RmRun}
    {n : Name} (hstat : stat run.fs cwd (childPath path n.bytes) = .ok .dir) :
    (rmEntryRun cwd recurse depth path run n.bytes).calls =
      run.calls ++ [⟨depth, .stat, path, n.bytes, childPath path n.bytes⟩,
        ⟨depth, .recurse, path, n.bytes, childPath path n.bytes⟩] ++
        (recurse run.fs (childPath path n.bytes)).calls := by
  unfold rmEntryRun
  rw [if_neg (not_or.mpr ⟨n.valid.2.1, n.valid.2.2.1⟩)]
  dsimp only
  rw [hstat]

-- With the entries on the way first, what a directory that is spelled from `path` starts with is
-- called before anything is removed.
theorem entry_called {n : Name} (hq : Relation.ReflTransGen (Spells fs cwd) path q)
    (hopen : opendir fs cwd q = .ok ℓ) (hn : n ∈ fs.children ℓ) (depth : Nat) :
    ∃ levels depth', ∀ op, op = .stat ∨ op = .recurse ∧ stat fs cwd (childPath q n.bytes) = .ok .dir →
      ⟨depth', op, q, n.bytes, childPath q n.bytes⟩ ∈
        (rmRecursiveRun cwd levels depth fs path).2.calls := by
  induction hq using Relation.ReflTransGen.head_induction_on generalizing depth with
  | refl =>
    refine ⟨[.first n.bytes], depth, ?_⟩
    rintro op (rfl | ⟨rfl, hstat⟩)
    · exact rmRecursiveRun_first hopen hn (rmEntryRun_stats _ depth _ n)
    · apply rmRecursiveRun_first hopen hn
      rw [rmEntryRun_recurses hstat]
      simp
  | @head path child hspells hrest ih =>
    obtain ⟨ℓ₀, m, hopen₀, hm, rfl⟩ := hspells
    obtain ⟨levels, depth', hcalls⟩ := ih (depth + 1)
    have hstat : stat fs cwd (childPath path m.bytes) = .ok .dir := by
      rcases hrest.cases_head with heq | ⟨next, ⟨ℓ₁, _, hopen₁, -, -⟩, -⟩
      · rw [heq]
        exact stat_of_opendir hopen
      · exact stat_of_opendir hopen₁
    refine ⟨.first m.bytes :: levels, depth', fun op hop ↦ ?_⟩
    apply rmRecursiveRun_first hopen₀ hm
    rw [rmEntryRun_recurses hstat]
    exact List.mem_append_right _ (hcalls op hop)

/-! ## Calls by whole paths -/

-- On the way to a directory are directories.
theorem opendir_parent {n : Name} {r : Loc Name} (hempty : path ≠ [])
    (hopen : opendir fs cwd (pathTo path (n :: r)) = .ok ℓ) :
    (pathTo path (n :: r)).length < pathMax ∧
      ∃ ℓ', opendir fs cwd (pathTo path r) = .ok ℓ' ∧ n ∈ fs.children ℓ' := by
  obtain ⟨hloc, -⟩ := opendir_eq_ok_iff.mp hopen
  obtain ⟨-, hlen, hres⟩ := locate_eq_ok_iff.mp hloc
  refine ⟨hlen, ?_⟩
  rw [full_pathTo, comps_pathTo, startOf_pathTo hempty] at hres
  obtain ⟨y, rest, hy, hlast⟩ := hres.split (by simp)
  have hdir := hlast.cons_isDir
  refine ⟨y, opendir_eq_ok_iff.mpr ⟨locate_eq_ok_iff.mpr ⟨pathTo_ne_nil hempty r, ?_, ?_⟩, hdir⟩,
    Tree.mem_children.mpr hlast.name_isSome⟩
  · rw [pathTo, List.length_append] at hlen
    omega
  · rw [startOf_pathTo hempty, Path.full]
    split
    · exact hy.append_here hdir
    · rw [List.append_nil]
      exact hy

theorem spelled_of_opendir {r : Loc Name} (hempty : path ≠ [])
    (hopen : opendir fs cwd (pathTo path r) = .ok ℓ) :
    Relation.ReflTransGen (Spells fs cwd) path (pathTo path r) := by
  induction r generalizing ℓ with
  | nil => exact .refl
  | cons n r ih =>
    obtain ⟨hshort, ℓ', hopen', hn⟩ := opendir_parent hempty hopen
    exact (ih hopen').tail ⟨ℓ', n, hopen', hn, (childPath_pathTo hshort).symm⟩

theorem length_pathTo (path : List UInt8) (r : Loc Name) :
    path.length + 2 * r.length ≤ (pathTo path r).length := by
  induction r with
  | nil => exact Nat.le_refl _
  | cons n r ih =>
    have hpos : 0 < n.bytes.length := List.length_pos_iff.mpr n.valid.1
    rw [pathTo, List.length_append, List.length_cons, List.length_cons]
    omega

-- A call by a whole path has one that was not cut off.
theorem short_of_whole {n : Name} (h : childPath q n.bytes = q ++ 47 :: n.bytes) :
    (q ++ 47 :: n.bytes).length < pathMax := by
  have hlen : (childPath q n.bytes).length ≤ pathMax - 1 := List.length_take_le _ _
  rw [h] at hlen
  have hpos : 0 < pathMax := by decide
  omega

-- Nothing is called for the empty path, which names no directory.
theorem rmRecursiveRun_nil (levels : List Readdir) (depth : Nat) :
    (rmRecursiveRun cwd levels depth fs []).2.calls = [] := by
  cases levels with
  | nil => rfl
  | cons readdir levels => rfl

theorem FitsBuffer.sound (hfits : FitsBuffer fs cwd path) (levels : List Readdir) :
    ∀ call ∈ (rmRecursiveRun cwd levels 0 fs path).2.calls, call.Sound := by
  by_cases hempty : path = []
  · rw [hempty, rmRecursiveRun_nil]
    exact fun _ hcall ↦ absurd hcall List.not_mem_nil
  · refine rmRecursiveRun_calls (P := fun depth q ↦ ∃ r, r.length = depth ∧ q = pathTo path r) ?_
      levels 0 (Tree.Le.refl fs) ⟨[], rfl, rfl⟩
    rintro depth q ℓ n op ⟨r, hdepth, rfl⟩ hopen hn -
    have hshort := hfits hempty r n ℓ hopen hn
    have hlen := length_pathTo path (n :: r)
    rw [childPath_pathTo hshort]
    rw [List.length_cons] at hlen
    refine ⟨⟨rfl, fun _ ↦ ?_, fun _ ↦ ?_⟩, n :: r, congrArg (· + 1) hdepth, rfl⟩
    · dsimp only
      rw [pathTo, List.length_append, List.length_cons]
      omega
    · dsimp only
      omega

theorem fitsBuffer_of_whole
    (h : ∀ levels, ∀ call ∈ (rmRecursiveRun cwd levels 0 fs path).2.calls,
      call.path = call.parent ++ 47 :: call.name) : FitsBuffer fs cwd path := by
  intro hempty r n ℓ hopen hn
  obtain ⟨levels, depth, hcalls⟩ := entry_called (spelled_of_opendir hempty hopen) hopen hn 0
  exact short_of_whole (h levels _ (hcalls .stat (.inl rfl)))

/-! ## Recursions on longer paths -/

/-- A recursion is on a longer path, and no deeper than paths can be long. -/
def RmCall.Grows (call : RmCall) : Prop :=
  call.op = .recurse → call.parent.length < call.path.length ∧ call.depth + 1 < pathMax

/-- No directory that the recursion comes to by a path that fills the buffer has entries. -/
def NoFullPath (fs : FileSystem) (cwd : Loc Name) (path : List UInt8) : Prop :=
  ∀ q ℓ, Relation.ReflTransGen (Spells fs cwd) path q → q.length = pathMax - 1 →
    opendir fs cwd q = .ok ℓ → fs.children ℓ = []

-- Below that length the path of a child is longer, cut off or not.
theorem length_childPath (name : List UInt8) (h : q.length < pathMax - 1) :
    q.length < (childPath q name).length := by
  rw [childPath, List.length_take, List.length_append, List.length_cons]
  omega

theorem NoFullPath.grows (h : NoFullPath fs cwd path) (levels : List Readdir) :
    ∀ call ∈ (rmRecursiveRun cwd levels 0 fs path).2.calls, call.Grows := by
  refine rmRecursiveRun_calls
    (P := fun depth q ↦ Relation.ReflTransGen (Spells fs cwd) path q ∧ depth ≤ q.length) ?_
    levels 0 (Tree.Le.refl fs) ⟨.refl, Nat.zero_le _⟩
  rintro depth q ℓ n op ⟨hq, hdepth⟩ hopen hn -
  obtain ⟨-, hlen, -⟩ := locate_eq_ok_iff.mp (opendir_eq_ok_iff.mp hopen).1
  have hroom : q.length < pathMax - 1 := by
    apply Nat.lt_of_le_of_ne (Nat.le_sub_one_of_lt hlen)
    intro hfull
    rw [h q ℓ hq hfull hopen] at hn
    exact List.not_mem_nil hn
  have hlonger := length_childPath n.bytes hroom
  have hchild : (childPath q n.bytes).length ≤ pathMax - 1 := List.length_take_le _ _
  refine ⟨fun _ ↦ ⟨hlonger, ?_⟩, hq.tail ⟨ℓ, n, hopen, hn, rfl⟩, by omega⟩
  dsimp only
  omega

/-- Whatever the order of the entries and however many directories can be open, every recursion is on a
longer path precisely if no path fills the buffer before an entry is spelled with it. -/
theorem rmRecursive_grows_iff (fs : FileSystem) (cwd : Loc Name) (path : List UInt8) :
    (∀ levels, ∀ call ∈ (rmRecursiveRun cwd levels 0 fs path).2.calls, call.Grows) ↔
      NoFullPath fs cwd path := by
  constructor
  · intro hgrows q ℓ hq hfull hopen
    apply List.eq_nil_iff_forall_not_mem.mpr
    intro n hn
    obtain ⟨levels, depth, hcalls⟩ := entry_called hq hopen hn 0
    have hchild : childPath q n.bytes = q := childPath_of_full hfull
    rw [hchild] at hcalls
    have hgrow := hgrows levels _ (hcalls .recurse (.inr ⟨rfl, stat_of_opendir hopen⟩)) rfl
    exact absurd hgrow.1 (Nat.lt_irrefl _)
  · exact fun h levels ↦ h.grows levels

end

/-- Whatever the order of the entries and however many directories can be open, every call for an entry
is by its own path, and every recursion on a longer path than its caller's and of bounded depth,
precisely if the path of every entry fits the buffer. -/
theorem rmRecursive_calls_sound_iff (fs : FileSystem) (cwd : Loc Name) (path : List UInt8) :
    (∀ levels, ∀ call ∈ (rmRecursiveRun cwd levels 0 fs path).2.calls, call.Sound) ↔
      FitsBuffer fs cwd path := by
  constructor
  · intro hsound
    exact fitsBuffer_of_whole fun levels call hcall ↦ (hsound levels call hcall).whole
  · exact fun h levels ↦ h.sound levels

/-- `d` and 4094 slashes. -/
def slashedPath : List UInt8 := 100 :: List.replicate (pathMax - 2) 47

/-- The directory `/d` with a file `f`. -/
def fileInDir : FileSystem :=
  (Tree.empty.add ⟨[100], by decide⟩ [] .dir).add nameF [⟨[100], by decide⟩] (.file [104, 105])

theorem slashedPath_leads : opendir fileInDir [] slashedPath = .ok [⟨[100], by decide⟩] := by
  have hcomps : ∀ k, (parsePath (100 :: List.replicate k 47)).comps =
      [.name ⟨[100], by decide⟩] := by
    intro k
    induction k with
    | zero => rfl
    | succ k ih => rw [List.replicate_succ', ← List.cons_append, comps_slash, ih]
  have hslash : ∀ k, (parsePath (100 :: List.replicate (k + 1) 47)).slash = true := by
    intro k
    unfold parsePath
    dsimp only
    rw [List.replicate_succ', ← List.cons_append, List.getLast?_concat]
    rfl
  have hcount : pathMax - 2 = 4093 + 1 := by decide
  have hlen : slashedPath.length < pathMax := by
    rw [slashedPath, List.length_cons, List.length_replicate]
    decide
  apply opendir_eq_ok_iff.mpr
  refine ⟨locate_eq_ok_iff.mpr ⟨List.cons_ne_nil _ _, hlen, ?_⟩, by decide⟩
  rw [Path.full, slashedPath, hcount, hslash, hcomps]
  exact .entry rfl (show fileInDir.lookup _ = some .dir by decide) (by simp) (.here (by decide) (.done _ _))

/-- `rm_recursive` on `d` and 4094 slashes calls itself with the same path. -/
theorem rmRecursive_calls_itself :
    ¬ ∀ levels, ∀ call ∈ (rmRecursiveRun [] levels 0 fileInDir slashedPath).2.calls, call.Sound := by
  intro hsound
  have hfull : slashedPath.length = pathMax - 1 := by
    rw [slashedPath, List.length_cons, List.length_replicate]
    decide
  have hn : nameF ∈ fileInDir.children [⟨[100], by decide⟩] := by decide
  obtain ⟨levels, depth, hcalls⟩ := entry_called .refl slashedPath_leads hn 0
  have hstat := stat_of_opendir slashedPath_leads
  rw [childPath_of_full hfull] at hcalls
  have hcall := hsound levels _ (hcalls .recurse (.inr ⟨rfl, hstat⟩))
  exact absurd (hcall.longer rfl) (Nat.lt_irrefl _)

end QNode.Fs
