import Mathlib.Data.List.AList

/-!
# File trees with symbolic links

A tree of directories, files and links, and the resolution of a path in it.  A location spells the
way to an entry through directories only: its own name first, the root last.  A path may go through
links, of which a resolution follows a bounded number.
-/

namespace FileTree

abbrev Loc (ν : Type) := List ν

/-- A component of a path; `bad` is longer than any name. -/
inductive Comp (ν : Type)
  | here
  | up
  | name (n : ν)
  | bad
  deriving DecidableEq, Repr

structure Path (ν : Type) where
  absolute : Bool
  comps : List (Comp ν)
  /-- Whether a slash follows the last component. -/
  slash : Bool
  deriving DecidableEq, Repr

/-- A slash at the end stands for the directory itself. -/
def Path.full {ν : Type} (path : Path ν) : List (Comp ν) :=
  path.comps ++ if path.slash then [.here] else []

inductive Node (ν γ : Type)
  | dir
  | file (content : γ)
  | link (target : Path ν)
  deriving DecidableEq, Repr

inductive Errno
  | noent | notdir | isdir | notempty | loop | nametoolong | inval | busy | mfile | exist | acces | perm
  | nospc | io | intr | badf | spipe
  deriving DecidableEq, Repr

section

variable {ν γ : Type} [DecidableEq ν]

def lookupIn (entries : AList fun _ : Loc ν ↦ Node ν γ) : Loc ν → Option (Node ν γ)
  | [] => some .dir
  | n :: ℓ => entries.lookup (n :: ℓ)

variable (ν γ) in
/-- Every entry is in a directory. -/
structure Tree where
  entries : AList fun _ : Loc ν ↦ Node ν γ
  rooted : ∀ n ℓ, n :: ℓ ∈ entries → lookupIn entries ℓ = some .dir

namespace Tree

variable {t t' : Tree ν γ}

def lookup (t : Tree ν γ) : Loc ν → Option (Node ν γ) := lookupIn t.entries

/-- The names in a directory. -/
def children (t : Tree ν γ) (ℓ : Loc ν) : List ν :=
  t.entries.keys.filterMap fun
    | [] => none
    | n :: ℓ' => if ℓ' = ℓ then some n else none

theorem mem_children {n : ν} {ℓ : Loc ν} : n ∈ t.children ℓ ↔ (t.lookup (n :: ℓ)).isSome := by
  have hsome : (t.lookup (n :: ℓ)).isSome ↔ n :: ℓ ∈ t.entries.keys := AList.lookup_isSome
  rw [hsome, children, List.mem_filterMap]
  constructor
  · rintro ⟨key, hkey, hn⟩
    cases key with
    | nil => cases hn
    | cons m ℓ' =>
      dsimp only at hn
      split at hn
      next heq =>
        subst heq
        obtain rfl := Option.some.inj hn
        exact hkey
      next => cases hn
  · intro hkey
    exact ⟨n :: ℓ, hkey, if_pos rfl⟩

theorem lookup_parent {n : ν} {ℓ : Loc ν} (h : (t.lookup (n :: ℓ)).isSome) :
    t.lookup ℓ = some .dir :=
  t.rooted n ℓ (AList.lookup_isSome.mp h)

-- Only a directory has entries.
theorem children_eq_nil {ℓ : Loc ν} (h : t.lookup ℓ ≠ some .dir) : t.children ℓ = [] := by
  apply List.eq_nil_iff_forall_not_mem.mpr
  intro n hn
  exact h (lookup_parent (mem_children.mp hn))

theorem lookupIn_erase_ne {entries : AList fun _ : Loc ν ↦ Node ν γ} {ℓ ℓ' : Loc ν} (h : ℓ' ≠ ℓ) :
    lookupIn (entries.erase ℓ) ℓ' = lookupIn entries ℓ' := by
  cases ℓ' with
  | nil => rfl
  | cons n ℓ' => exact AList.lookup_erase_ne h

/-- Takes an entry out of the tree, unless it is a directory with entries. -/
def erase (t : Tree ν γ) (ℓ : Loc ν) : Tree ν γ :=
  if hleaf : t.children ℓ = [] then
    { entries := t.entries.erase ℓ
      rooted := by
        intro n ℓ' hmem
        obtain ⟨hne, hold⟩ := AList.mem_erase.mp hmem
        have hparent : ℓ' ≠ ℓ := by
          rintro rfl
          have hchild : n ∈ t.children ℓ' := mem_children.mpr (AList.lookup_isSome.mpr hold)
          rw [hleaf] at hchild
          exact List.not_mem_nil hchild
        rw [lookupIn_erase_ne hparent]
        exact t.rooted n ℓ' hold }
  else t

theorem lookup_erase_ne {ℓ ℓ' : Loc ν} (h : ℓ' ≠ ℓ) : (t.erase ℓ).lookup ℓ' = t.lookup ℓ' := by
  unfold erase
  split
  · exact lookupIn_erase_ne h
  · rfl

theorem lookup_erase_self {n : ν} {ℓ : Loc ν} (hleaf : t.children (n :: ℓ) = []) :
    (t.erase (n :: ℓ)).lookup (n :: ℓ) = none := by
  unfold erase
  rw [dif_pos hleaf]
  exact AList.lookup_erase (n :: ℓ) t.entries

def empty : Tree ν γ where
  entries := ∅
  rooted _ _ h := absurd h (AList.notMem_empty _)

/-- Adds an entry to a directory that has none of this name. -/
def add [DecidableEq γ] (t : Tree ν γ) (n : ν) (ℓ : Loc ν) (node : Node ν γ) : Tree ν γ :=
  if hroom : t.lookup ℓ = some .dir ∧ t.lookup (n :: ℓ) = none then
    { entries := t.entries.insert (n :: ℓ) node
      rooted := by
        intro m ℓ' hmem
        have hold : lookupIn t.entries ℓ' = some .dir := by
          rcases (AList.mem_insert _).mp hmem with heq | hold
          · obtain ⟨-, rfl⟩ := List.cons.inj heq
            exact hroom.1
          · exact t.rooted m ℓ' hold
        cases ℓ' with
        | nil => rfl
        | cons m' ℓ' =>
          have hne : m' :: ℓ' ≠ n :: ℓ := by
            intro heq
            rw [heq] at hold
            exact absurd (hroom.2.symm.trans hold) (by simp)
          exact (AList.lookup_insert_ne hne).trans hold }
  else t

/-! ## Trees with fewer entries -/

/-- Every entry of `t'` is one of `t`. -/
def Le (t' t : Tree ν γ) : Prop := ∀ ℓ node, t'.lookup ℓ = some node → t.lookup ℓ = some node

theorem Le.refl (t : Tree ν γ) : t.Le t := fun _ _ h ↦ h

theorem Le.trans {t'' : Tree ν γ} (h : t''.Le t') (h' : t'.Le t) : t''.Le t :=
  fun ℓ node hnode ↦ h' ℓ node (h ℓ node hnode)

theorem erase_le (t : Tree ν γ) (ℓ : Loc ν) : (t.erase ℓ).Le t := by
  intro ℓ' node hnode
  by_cases heq : ℓ' = ℓ
  · subst heq
    unfold erase at hnode
    split at hnode
    next hleaf =>
      cases ℓ' with
      | nil => exact hnode
      | cons n ℓ' => exact absurd ((AList.lookup_erase _ _).symm.trans hnode) (by simp)
    next => exact hnode
  · rw [lookup_erase_ne heq] at hnode
    exact hnode

theorem Le.children {ℓ : Loc ν} {n : ν} (h : t'.Le t) (hn : n ∈ t'.children ℓ) : n ∈ t.children ℓ := by
  obtain ⟨node, hnode⟩ := Option.isSome_iff_exists.mp (mem_children.mp hn)
  rw [mem_children, h _ _ hnode]
  rfl

/-! ## Resolution of a path -/

/-- Goes through the components from a location; `jump` resolves what comes after a link. -/
def walkWith (t : Tree ν γ) (jump : Loc ν → List (Comp ν) → Except Errno (Loc ν)) (follow : Bool) :
    Loc ν → List (Comp ν) → Except Errno (Loc ν)
  | ℓ, [] => .ok ℓ
  | ℓ, c :: cs =>
    match t.lookup ℓ with
    | none => .error .noent
    | some (.file _) | some (.link _) => .error .notdir
    | some .dir =>
      match c with
      | .here => walkWith t jump follow ℓ cs
      | .up => walkWith t jump follow ℓ.tail cs
      | .bad => .error .nametoolong
      | .name n =>
        match t.lookup (n :: ℓ) with
        | none => .error .noent
        | some (.link target) =>
          if cs = [] ∧ follow = false then .ok (n :: ℓ)
          else if target.full = [] then .error .noent
          else jump (if target.absolute then [] else ℓ) (target.full ++ cs)
        | some _ => walkWith t jump follow (n :: ℓ) cs

/-- The location a path resolves to, through at most `links` links. -/
def walk (t : Tree ν γ) (follow : Bool) : Nat → Loc ν → List (Comp ν) → Except Errno (Loc ν)
  | 0 => walkWith t (fun _ _ ↦ .error .loop) follow
  | links + 1 => walkWith t (walk t follow links) follow

/-- The same as a relation. -/
inductive Resolves (t : Tree ν γ) (follow : Bool) : Nat → Loc ν → List (Comp ν) → Loc ν → Prop
  | done (links : Nat) (ℓ : Loc ν) : Resolves t follow links ℓ [] ℓ
  | here {links : Nat} {ℓ x : Loc ν} {cs : List (Comp ν)} :
    t.lookup ℓ = some .dir → Resolves t follow links ℓ cs x →
    Resolves t follow links ℓ (.here :: cs) x
  | up {links : Nat} {ℓ x : Loc ν} {cs : List (Comp ν)} :
    t.lookup ℓ = some .dir → Resolves t follow links ℓ.tail cs x →
    Resolves t follow links ℓ (.up :: cs) x
  | entry {links : Nat} {ℓ x : Loc ν} {n : ν} {node : Node ν γ} {cs : List (Comp ν)} :
    t.lookup ℓ = some .dir → t.lookup (n :: ℓ) = some node → (∀ target, node ≠ .link target) →
    Resolves t follow links (n :: ℓ) cs x → Resolves t follow links ℓ (.name n :: cs) x
  | stop (links : Nat) {ℓ : Loc ν} {n : ν} {target : Path ν} :
    t.lookup ℓ = some .dir → t.lookup (n :: ℓ) = some (.link target) → follow = false →
    Resolves t follow links ℓ [.name n] (n :: ℓ)
  | jump {links : Nat} {ℓ x : Loc ν} {n : ν} {target : Path ν} {cs : List (Comp ν)} :
    t.lookup ℓ = some .dir → t.lookup (n :: ℓ) = some (.link target) →
    ¬ (cs = [] ∧ follow = false) → target.full ≠ [] →
    Resolves t follow links (if target.absolute then [] else ℓ) (target.full ++ cs) x →
    Resolves t follow (links + 1) ℓ (.name n :: cs) x

variable {follow : Bool} {links : Nat}

theorem walk_cons (t : Tree ν γ) (follow : Bool) (links : Nat) (ℓ : Loc ν) (c : Comp ν)
    (cs : List (Comp ν)) (h : t.lookup ℓ = some .dir) :
    walk t follow links ℓ (c :: cs) =
      match c with
      | .here => walk t follow links ℓ cs
      | .up => walk t follow links ℓ.tail cs
      | .bad => .error .nametoolong
      | .name n =>
        match t.lookup (n :: ℓ) with
        | none => .error .noent
        | some (.link target) =>
          if cs = [] ∧ follow = false then .ok (n :: ℓ)
          else if target.full = [] then .error .noent
          else match links with
            | 0 => .error .loop
            | links + 1 => walk t follow links (if target.absolute then [] else ℓ) (target.full ++ cs)
        | some _ => walk t follow links (n :: ℓ) cs := by
  cases links <;> · simp only [walk, walkWith, h]

theorem Resolves.walk_eq {ℓ x : Loc ν} {cs : List (Comp ν)} (h : Resolves t follow links ℓ cs x) :
    walk t follow links ℓ cs = .ok x := by
  induction h with
  | done links ℓ => cases links <;> rfl
  | here hdir _ ih =>
    rw [walk_cons _ _ _ _ _ _ hdir]
    exact ih
  | up hdir _ ih =>
    rw [walk_cons _ _ _ _ _ _ hdir]
    exact ih
  | @entry links ℓ x n node cs hdir hnode hlink _ ih =>
    rw [walk_cons _ _ _ _ _ _ hdir]
    simp only [hnode]
    cases node with
    | link target => exact absurd rfl (hlink target)
    | dir => exact ih
    | file content => exact ih
  | stop links hdir hnode hfollow =>
    rw [walk_cons _ _ _ _ _ _ hdir]
    simp only [hnode]
    exact if_pos ⟨trivial, hfollow⟩
  | jump hdir hnode hmore hfull _ ih =>
    rw [walk_cons _ _ _ _ _ _ hdir]
    simp only [hnode, if_neg hmore, if_neg hfull]
    exact ih

theorem isDir_of_walk {ℓ x : Loc ν} {c : Comp ν} {cs : List (Comp ν)}
    (h : walk t follow links ℓ (c :: cs) = .ok x) : t.lookup ℓ = some .dir := by
  cases hnode : t.lookup ℓ with
  | none => cases links <;> simp [walk, walkWith, hnode] at h
  | some node =>
    cases node with
    | dir => rfl
    | file content => cases links <;> simp [walk, walkWith, hnode] at h
    | link target => cases links <;> simp [walk, walkWith, hnode] at h

-- The components in order, given what is known about the paths after a link.
theorem resolves_of_walk_jump {ℓ x : Loc ν} {cs : List (Comp ν)}
    (hjump : ∀ rest, links = rest + 1 → ∀ ℓ cs, walk t follow rest ℓ cs = .ok x →
      Resolves t follow rest ℓ cs x)
    (h : walk t follow links ℓ cs = .ok x) : Resolves t follow links ℓ cs x := by
  induction cs generalizing ℓ with
  | nil =>
    have hdone : walk t follow links ℓ [] = .ok ℓ := by cases links <;> rfl
    obtain rfl : ℓ = x := Except.ok.inj (hdone.symm.trans h)
    exact .done links ℓ
  | cons c cs ih =>
    have hdir := isDir_of_walk h
    rw [walk_cons _ _ _ _ _ _ hdir] at h
    cases c with
    | here => exact .here hdir (ih h)
    | up => exact .up hdir (ih h)
    | bad => cases h
    | name n =>
      cases hnode : t.lookup (n :: ℓ) with
      | none => simp [hnode] at h
      | some node =>
        cases node with
        | dir =>
          simp only [hnode] at h
          exact .entry hdir hnode (by simp) (ih h)
        | file content =>
          simp only [hnode] at h
          exact .entry hdir hnode (by simp) (ih h)
        | link target =>
          simp only [hnode] at h
          by_cases hlast : cs = [] ∧ follow = false
          · rw [if_pos hlast] at h
            obtain rfl : n :: ℓ = x := Except.ok.inj h
            rw [hlast.1]
            exact .stop links hdir hnode hlast.2
          · rw [if_neg hlast] at h
            by_cases hfull : target.full = []
            · rw [if_pos hfull] at h
              cases h
            · rw [if_neg hfull] at h
              cases links with
              | zero => cases h
              | succ rest => exact .jump hdir hnode hlast hfull (hjump rest rfl _ _ h)

theorem resolves_of_walk {ℓ x : Loc ν} {cs : List (Comp ν)} (h : walk t follow links ℓ cs = .ok x) :
    Resolves t follow links ℓ cs x := by
  induction links generalizing ℓ cs with
  | zero => exact resolves_of_walk_jump (fun rest hrest ↦ absurd hrest (by simp)) h
  | succ links ih =>
    apply resolves_of_walk_jump _ h
    intro rest hrest ℓ cs hwalk
    obtain rfl : links = rest := Nat.succ.inj hrest
    exact ih hwalk

theorem walk_eq_ok_iff {ℓ x : Loc ν} {cs : List (Comp ν)} :
    walk t follow links ℓ cs = .ok x ↔ Resolves t follow links ℓ cs x :=
  ⟨resolves_of_walk, Resolves.walk_eq⟩

-- Where a path leads in a tree with fewer entries, it leads in the tree.
theorem Resolves.mono {ℓ x : Loc ν} {cs : List (Comp ν)} (h : Resolves t' follow links ℓ cs x)
    (hle : t'.Le t) : Resolves t follow links ℓ cs x := by
  induction h with
  | done links ℓ => exact .done links ℓ
  | here hdir _ ih => exact .here (hle _ _ hdir) ih
  | up hdir _ ih => exact .up (hle _ _ hdir) ih
  | entry hdir hnode hlink _ ih => exact .entry (hle _ _ hdir) (hle _ _ hnode) hlink ih
  | stop links hdir hnode hfollow => exact .stop links (hle _ _ hdir) (hle _ _ hnode) hfollow
  | jump hdir hnode hmore hfull _ ih => exact .jump (hle _ _ hdir) (hle _ _ hnode) hmore hfull ih

-- What a path leads to exists.
theorem Resolves.isSome {ℓ x : Loc ν} {cs : List (Comp ν)} (h : Resolves t follow links ℓ cs x)
    (hstart : (t.lookup ℓ).isSome) : (t.lookup x).isSome := by
  induction h with
  | done links ℓ => exact hstart
  | here hdir _ ih => exact ih hstart
  | @up links ℓ x cs hdir _ ih =>
    apply ih
    cases ℓ with
    | nil => exact hstart
    | cons n ℓ =>
      rw [List.tail_cons, lookup_parent hstart]
      rfl
  | entry hdir hnode hlink _ ih =>
    apply ih
    rw [hnode]
    rfl
  | stop links hdir hnode hfollow =>
    rw [hnode]
    rfl
  | @jump links ℓ x n target cs hdir hnode hmore hfull _ ih =>
    apply ih
    split
    · rfl
    · exact hstart

-- What exists is reached from what exists.
theorem Resolves.start_isSome {ℓ x : Loc ν} {cs : List (Comp ν)} (h : Resolves t follow links ℓ cs x)
    (hend : (t.lookup x).isSome) : (t.lookup ℓ).isSome := by
  have hdir : ∀ {ℓ : Loc ν}, t.lookup ℓ = some .dir → (t.lookup ℓ).isSome := by
    intro ℓ hdir
    rw [hdir]
    rfl
  cases h with
  | done => exact hend
  | here h | up h | entry h | stop _ h | jump h => exact hdir h

-- A path that leads to a directory without a link at its end leads there with any.
theorem Resolves.to_dir {ℓ x : Loc ν} {cs : List (Comp ν)} (h : Resolves t follow links ℓ cs x)
    (hdir : t.lookup x = some .dir) : Resolves t true links ℓ cs x := by
  induction h with
  | done links ℓ => exact .done links ℓ
  | here hcur _ ih => exact .here hcur (ih hdir)
  | up hcur _ ih => exact .up hcur (ih hdir)
  | entry hcur hnode hlink _ ih => exact .entry hcur hnode hlink (ih hdir)
  | stop links hcur hnode hfollow => exact absurd (hnode.symm.trans hdir) (by simp)
  | jump hcur hnode hmore hfull _ ih => exact .jump hcur hnode (by simp) hfull (ih hdir)

-- A directory is its own entry `.`
theorem Resolves.append_here {ℓ x : Loc ν} {cs : List (Comp ν)} (h : Resolves t follow links ℓ cs x)
    (hdir : t.lookup x = some .dir) : Resolves t follow links ℓ (cs ++ [.here]) x := by
  induction h with
  | done links ℓ => exact .here hdir (.done links ℓ)
  | here hcur _ ih => exact .here hcur (ih hdir)
  | up hcur _ ih => exact .up hcur (ih hdir)
  | entry hcur hnode hlink _ ih => exact .entry hcur hnode hlink (ih hdir)
  | stop links hcur hnode hfollow => exact absurd (hnode.symm.trans hdir) (by simp)
  | jump hcur hnode hmore hfull _ ih =>
    refine .jump hcur hnode (by simp) hfull ?_
    have hlonger := ih hdir
    rw [List.append_assoc] at hlonger
    exact hlonger

theorem Le.lookup_none {ℓ : Loc ν} (h : t'.Le t) (hnone : t.lookup ℓ = none) : t'.lookup ℓ = none := by
  cases hnode : t'.lookup ℓ with
  | none => rfl
  | some node => exact absurd (hnone.symm.trans (h _ _ hnode)) (by simp)

/-! ## Paths in two parts -/

-- Where a path leads does not depend on the number of links allowed.
theorem Resolves.unique {links' : Nat} {ℓ x y : Loc ν} {cs : List (Comp ν)}
    (h : Resolves t follow links ℓ cs x) (h' : Resolves t follow links' ℓ cs y) : x = y := by
  induction h generalizing links' with
  | done links ℓ =>
    cases h' with
    | done => rfl
  | here _ _ ih =>
    cases h' with
    | here _ h' => exact ih h'
  | up _ _ ih =>
    cases h' with
    | up _ h' => exact ih h'
  | entry _ hnode hlink _ ih =>
    cases h' with
    | entry _ _ _ h' => exact ih h'
    | stop _ _ hnode' => exact absurd (Option.some.inj (hnode.symm.trans hnode')) (hlink _)
    | jump _ hnode' => exact absurd (Option.some.inj (hnode.symm.trans hnode')) (hlink _)
  | stop _ _ hnode hfollow =>
    cases h' with
    | entry _ hnode' hlink' => exact absurd (Option.some.inj (hnode'.symm.trans hnode)) (hlink' _)
    | stop => rfl
    | jump _ _ hmore => exact absurd ⟨rfl, hfollow⟩ hmore
  | jump _ hnode hmore _ _ ih =>
    cases h' with
    | entry _ hnode' hlink' => exact absurd (Option.some.inj (hnode'.symm.trans hnode)) (hlink' _)
    | stop _ _ _ hfollow => exact absurd ⟨rfl, hfollow⟩ hmore
    | jump _ hnode' _ _ h' =>
      obtain rfl := Node.link.inj (Option.some.inj (hnode.symm.trans hnode'))
      exact ih h'

-- What is left of a path after a directory starts there.
theorem Resolves.cons_isDir {ℓ x : Loc ν} {c : Comp ν} {cs : List (Comp ν)}
    (h : Resolves t follow links ℓ (c :: cs) x) : t.lookup ℓ = some .dir := by
  cases h with
  | here hcur | up hcur | entry hcur | stop _ hcur | jump hcur => exact hcur

-- An entry that a path leads through is there.
theorem Resolves.name_isSome {ℓ x : Loc ν} {n : ν} {cs : List (Comp ν)}
    (h : Resolves t follow links ℓ (.name n :: cs) x) : (t.lookup (n :: ℓ)).isSome := by
  cases h with
  | entry _ hnode | stop _ _ hnode | jump _ hnode =>
    rw [hnode]
    rfl

-- Links are followed in all but the last part.
theorem Resolves.append {ℓ x y : Loc ν} {cs ds : List (Comp ν)} (h : Resolves t true links ℓ cs x)
    (hlast : ¬ (ds = [] ∧ follow = false)) (hrest : ∀ links, Resolves t follow links x ds y) :
    Resolves t follow links ℓ (cs ++ ds) y := by
  induction h with
  | done links ℓ => exact hrest links
  | here hcur _ ih => exact .here hcur (ih hrest)
  | up hcur _ ih => exact .up hcur (ih hrest)
  | entry hcur hnode hlink _ ih => exact .entry hcur hnode hlink (ih hrest)
  | stop links hcur hnode hfollow => cases hfollow
  | jump hcur hnode hmore hfull _ ih =>
    have hmore' : ∀ cs : List (Comp ν), ¬ (cs ++ ds = [] ∧ follow = false) :=
      fun cs h ↦ hlast ⟨(List.append_eq_nil_iff.mp h.1).2, h.2⟩
    refine .jump hcur hnode (hmore' _) hfull ?_
    have hlonger := ih hrest
    rw [List.append_assoc] at hlonger
    exact hlonger

theorem Resolves.split {ℓ x : Loc ν} {cs ds : List (Comp ν)}
    (h : Resolves t follow links ℓ (cs ++ ds) x) (hlast : ¬ (ds = [] ∧ follow = false)) :
    ∃ y rest, Resolves t true links ℓ cs y ∧ Resolves t follow rest y ds x := by
  generalize hall : cs ++ ds = all at h
  induction h generalizing cs with
  | done links ℓ =>
    obtain ⟨rfl, rfl⟩ := List.append_eq_nil_iff.mp hall
    exact ⟨ℓ, links, .done links ℓ, .done links ℓ⟩
  | @here links ℓ x all hcur hrest ih =>
    cases cs with
    | nil =>
      obtain rfl : ds = .here :: all := hall
      exact ⟨ℓ, links, .done links ℓ, .here hcur hrest⟩
    | cons c cs =>
      obtain ⟨rfl, htail⟩ := List.cons.inj hall
      obtain ⟨y, rest, hy, hx⟩ := ih htail
      exact ⟨y, rest, .here hcur hy, hx⟩
  | @up links ℓ x all hcur hrest ih =>
    cases cs with
    | nil =>
      obtain rfl : ds = .up :: all := hall
      exact ⟨ℓ, links, .done links ℓ, .up hcur hrest⟩
    | cons c cs =>
      obtain ⟨rfl, htail⟩ := List.cons.inj hall
      obtain ⟨y, rest, hy, hx⟩ := ih htail
      exact ⟨y, rest, .up hcur hy, hx⟩
  | @entry links ℓ x n node all hcur hnode hlink hrest ih =>
    cases cs with
    | nil =>
      obtain rfl : ds = .name n :: all := hall
      exact ⟨ℓ, links, .done links ℓ, .entry hcur hnode hlink hrest⟩
    | cons c cs =>
      obtain ⟨rfl, htail⟩ := List.cons.inj hall
      obtain ⟨y, rest, hy, hx⟩ := ih htail
      exact ⟨y, rest, .entry hcur hnode hlink hy, hx⟩
  | @stop links ℓ n target hcur hnode hfollow =>
    cases cs with
    | nil =>
      obtain rfl : ds = [.name n] := hall
      exact ⟨ℓ, links, .done links ℓ, .stop links hcur hnode hfollow⟩
    | cons c cs =>
      obtain ⟨rfl, htail⟩ := List.cons.inj hall
      exact absurd ⟨(List.append_eq_nil_iff.mp htail).2, hfollow⟩ hlast
  | @jump links ℓ x n target all hcur hnode hmore hfull hrest ih =>
    cases cs with
    | nil =>
      obtain rfl : ds = .name n :: all := hall
      exact ⟨ℓ, links + 1, .done (links + 1) ℓ, .jump hcur hnode hmore hfull hrest⟩
    | cons c cs =>
      obtain ⟨rfl, htail⟩ := List.cons.inj hall
      have hlonger : (target.full ++ cs) ++ ds = target.full ++ all := by
        rw [List.append_assoc]
        exact congrArg (target.full ++ ·) htail
      obtain ⟨y, rest, hy, hx⟩ := ih hlonger
      exact ⟨y, rest, .jump hcur hnode (by simp) hfull hy, hx⟩

-- A path that leads somewhere leads somewhere with a link at its end left alone.
theorem Resolves.unfollowed {ℓ x : Loc ν} {cs : List (Comp ν)} (h : Resolves t true links ℓ cs x) :
    ∃ y, Resolves t false links ℓ cs y := by
  induction h with
  | done links ℓ => exact ⟨ℓ, .done links ℓ⟩
  | here hcur _ ih =>
    obtain ⟨y, hy⟩ := ih
    exact ⟨y, .here hcur hy⟩
  | up hcur _ ih =>
    obtain ⟨y, hy⟩ := ih
    exact ⟨y, .up hcur hy⟩
  | entry hcur hnode hlink _ ih =>
    obtain ⟨y, hy⟩ := ih
    exact ⟨y, .entry hcur hnode hlink hy⟩
  | stop links hcur hnode hfollow => cases hfollow
  | @jump links ℓ x n target cs hcur hnode hmore hfull _ ih =>
    by_cases hnil : cs = []
    · subst hnil
      exact ⟨n :: ℓ, .stop (links + 1) hcur hnode rfl⟩
    · obtain ⟨y, hy⟩ := ih
      exact ⟨y, .jump hcur hnode (fun h ↦ hnil h.1) hfull hy⟩

-- A path that leads somewhere leads there through all its beginnings.
theorem Resolves.initial {ℓ x : Loc ν} {cs ds : List (Comp ν)}
    (h : Resolves t follow links ℓ (cs ++ ds) x) : ∃ y, Resolves t false links ℓ cs y := by
  by_cases hlast : ds = [] ∧ follow = false
  · obtain ⟨rfl, rfl⟩ := hlast
    rw [List.append_nil] at h
    exact ⟨x, h⟩
  · obtain ⟨y, -, hy, -⟩ := h.split hlast
    exact hy.unfollowed

end Tree

end

end FileTree
