import QNode.Library.FileContents

/-!
# Files with several names

A volume has a tree of names for its files, which are told apart by numbers.  What is done to a file
under one name is seen under all of them; the tree of files is what is seen.
-/

namespace FileTree

section

variable {ν γ δ : Type}

def Node.map (f : γ → δ) : Node ν γ → Node ν δ
  | .dir => .dir
  | .file content => .file (f content)
  | .link target => .link target

theorem Node.shape_map (f : γ → δ) (node : Node ν γ) : (node.map f).shape = node.shape := by
  cases node <;> rfl

end

section

variable {ν γ δ : Type} [DecidableEq ν]

theorem lookupIn_map (entries : AList fun _ : Loc ν ↦ Node ν γ) (f : γ → δ) (ℓ : Loc ν) :
    lookupIn ⟨_, entries.nodupKeys.map₂ fun _ ↦ Node.map f⟩ ℓ = (lookupIn entries ℓ).map (Node.map f) := by
  cases ℓ with
  | nil => rfl
  | cons n ℓ => exact List.dlookup_map₂ (n :: ℓ)

namespace Tree

/-- The tree with other contents. -/
def map (t : Tree ν γ) (f : γ → δ) : Tree ν δ where
  entries := ⟨_, t.entries.nodupKeys.map₂ fun _ ↦ Node.map f⟩
  rooted := by
    intro n ℓ hmem
    have hold : n :: ℓ ∈ t.entries := by
      rw [AList.mem_keys, AList.keys, List.map₂_keys] at hmem
      exact hmem
    rw [lookupIn_map, t.rooted n ℓ hold]
    rfl

variable {t : Tree ν γ} {f : γ → δ} {ℓ : Loc ν}

@[simp] theorem lookup_map (t : Tree ν γ) (f : γ → δ) (ℓ : Loc ν) :
    (t.map f).lookup ℓ = (t.lookup ℓ).map (Node.map f) :=
  lookupIn_map t.entries f ℓ

theorem lookup_map_none : (t.map f).lookup ℓ = none ↔ t.lookup ℓ = none := by
  rw [lookup_map, Option.map_eq_none_iff]

theorem lookup_map_dir : (t.map f).lookup ℓ = some .dir ↔ t.lookup ℓ = some .dir := by
  rw [lookup_map]
  cases t.lookup ℓ with
  | none => simp
  | some node => cases node <;> simp [Node.map]

theorem lookup_map_file {content : δ} : (t.map f).lookup ℓ = some (.file content) ↔
    ∃ i, t.lookup ℓ = some (.file i) ∧ f i = content := by
  rw [lookup_map]
  cases t.lookup ℓ with
  | none => simp
  | some node => cases node <;> simp [Node.map]

theorem map_sameShape (t : Tree ν γ) (f g : γ → δ) : (t.map f).SameShape (t.map g) := by
  intro ℓ
  rw [lookup_map, lookup_map, Option.map_map, Option.map_map]
  cases t.lookup ℓ with
  | none => rfl
  | some node => exact congrArg some ((node.shape_map f).trans (node.shape_map g).symm)

theorem lookup_add_ne [DecidableEq γ] {n : ν} {node : Node ν γ} {ℓ' : Loc ν} (h : ℓ' ≠ n :: ℓ) :
    (t.add n ℓ node).lookup ℓ' = t.lookup ℓ' := by
  unfold add
  split
  next =>
    cases ℓ' with
    | nil => rfl
    | cons m ℓ' => exact AList.lookup_insert_ne h
  next => rfl

end Tree

end

/-! ## Volumes -/

variable (ν γ : Type) [DecidableEq ν] in
structure Volume where
  names : Tree ν Nat
  contents : Nat → γ
  /-- The number of the next file; it has no name yet. -/
  next : Nat
  unused : ∀ ℓ i, names.lookup ℓ = some (.file i) → i < next

namespace Volume

variable {ν γ : Type} [DecidableEq ν]

def files (v : Volume ν γ) : Tree ν γ := v.names.map v.contents

theorem not_named_empty (ℓ : Loc ν) (i : Nat) :
    (Tree.empty : Tree ν Nat).lookup ℓ ≠ some (.file i) := by
  cases ℓ <;> exact nofun

def empty (blank : γ) : Volume ν γ where
  names := .empty
  contents _ := blank
  next := 0
  unused ℓ i h := absurd h (not_named_empty ℓ i)

/-- Changes a file under all its names. -/
def store (v : Volume ν γ) (i : Nat) (content : γ) : Volume ν γ where
  names := v.names
  contents := Function.update v.contents i content
  next := v.next
  unused := v.unused

theorem unused_add (v : Volume ν γ) (n : ν) (parent ℓ : Loc ν) (i : Nat)
    (h : (v.names.add n parent (.file v.next)).lookup ℓ = some (.file i)) : i < v.next + 1 := by
  by_cases hnew : ℓ = n :: parent
  · subst hnew
    by_cases hroom : v.names.lookup parent = some .dir ∧ v.names.lookup (n :: parent) = none
    · rw [Tree.lookup_add_self hroom.1 hroom.2] at h
      cases h
      exact Nat.lt_succ_self v.next
    · rw [Tree.add, dif_neg hroom] at h
      exact Nat.lt_succ_of_lt (v.unused _ i h)
  · rw [Tree.lookup_add_ne hnew] at h
    exact Nat.lt_succ_of_lt (v.unused ℓ i h)

/-- A new file with one name. -/
def create (v : Volume ν γ) (n : ν) (parent : Loc ν) (content : γ) : Volume ν γ where
  names := v.names.add n parent (.file v.next)
  contents := Function.update v.contents v.next content
  next := v.next + 1
  unused := v.unused_add n parent

variable {v : Volume ν γ} {ℓ : Loc ν} {i : Nat} {content : γ}

@[simp] theorem store_names (v : Volume ν γ) (i : Nat) (content : γ) : (v.store i content).names = v.names :=
  rfl

@[simp] theorem store_contents_self (v : Volume ν γ) (i : Nat) (content : γ) :
    (v.store i content).contents i = content := by
  simp [store]

theorem store_contents_ne {j : Nat} (h : j ≠ i) : (v.store i content).contents j = v.contents j := by
  simp [store, h]

theorem lookup_files_file : v.files.lookup ℓ = some (.file content) ↔
    ∃ i, v.names.lookup ℓ = some (.file i) ∧ v.contents i = content :=
  Tree.lookup_map_file

-- Volumes with the same names differ in contents only.
theorem files_sameShape {v' : Volume ν γ} (h : v'.names = v.names) : v'.files.SameShape v.files := by
  unfold files
  rw [h]
  exact Tree.map_sameShape v.names v'.contents v.contents

-- A new file is seen as one that is added to the tree.
theorem lookup_files_create [DecidableEq γ] {n : ν} {parent : Loc ν}
    (hdir : v.names.lookup parent = some .dir) (hnone : v.names.lookup (n :: parent) = none) (ℓ : Loc ν) :
    (v.create n parent content).files.lookup ℓ = (v.files.add n parent (.file content)).lookup ℓ := by
  by_cases hnew : ℓ = n :: parent
  · subst hnew
    have hdir' : v.files.lookup parent = some .dir := Tree.lookup_map_dir.mpr hdir
    have hnone' : v.files.lookup (n :: parent) = none := Tree.lookup_map_none.mpr hnone
    rw [Tree.lookup_add_self hdir' hnone', lookup_files_file]
    exact ⟨v.next, Tree.lookup_add_self hdir hnone, by simp [create]⟩
  · rw [Tree.lookup_add_ne hnew, files, files, Tree.lookup_map, Tree.lookup_map, create,
      Tree.lookup_add_ne hnew]
    cases hnode : v.names.lookup ℓ with
    | none => rfl
    | some node =>
      cases node with
      | dir => rfl
      | link target => rfl
      | file i =>
        have hold : i ≠ v.next := Nat.ne_of_lt (v.unused ℓ i hnode)
        dsimp only [Option.map_some, Node.map]
        rw [Function.update_of_ne hold]

end Volume

end FileTree
