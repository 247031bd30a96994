import QNode.Library.FileTree

/-!
# Creating files and changing their contents

Where a path leads depends on the directories and links of a tree, not on what its files hold.  A path
may lead to a place where there is no entry yet.
-/

namespace FileTree

/-- A node without its content. -/
def Node.shape {ν γ : Type} : Node ν γ → Node ν Unit
  | .dir => .dir
  | .file _ => .file ()
  | .link target => .link target

namespace Tree

section

variable {ν γ : Type} [DecidableEq ν] {t t' : Tree ν γ}

/-! ## Contents -/

/-- Replaces the content of a file. -/
def setFile (t : Tree ν γ) (ℓ : Loc ν) (content : γ) : Tree ν γ :=
  match hfile : t.lookup ℓ with
  | some (.file _) =>
    { entries := t.entries.insert ℓ (.file content)
      rooted := by
        intro n ℓ' hmem
        have hold : lookupIn t.entries ℓ' = some .dir := by
          rcases (AList.mem_insert _).mp hmem with heq | hold
          · apply lookup_parent (n := n)
            rw [heq, hfile]
            rfl
          · exact t.rooted n ℓ' hold
        have hne : ℓ' ≠ ℓ := by
          rintro rfl
          exact absurd (hfile.symm.trans hold) (by simp)
        cases ℓ' with
        | nil => rfl
        | cons m ℓ' => exact (AList.lookup_insert_ne hne).trans hold }
  | _ => t

theorem setFile_of_not_file {ℓ : Loc ν} {content : γ} (h : ∀ old, t.lookup ℓ ≠ some (.file old)) :
    t.setFile ℓ content = t := by
  unfold setFile
  split
  next old hfile => exact absurd hfile (h old)
  next => rfl

theorem lookup_setFile_ne {ℓ ℓ' : Loc ν} {content : γ} (h : ℓ' ≠ ℓ) :
    (t.setFile ℓ content).lookup ℓ' = t.lookup ℓ' := by
  unfold setFile
  split
  next =>
    cases ℓ' with
    | nil => rfl
    | cons n ℓ' => exact AList.lookup_insert_ne h
  next => rfl

theorem lookup_setFile_self {ℓ : Loc ν} {old content : γ} (h : t.lookup ℓ = some (.file old)) :
    (t.setFile ℓ content).lookup ℓ = some (.file content) := by
  cases ℓ with
  | nil => cases h
  | cons n ℓ =>
    unfold setFile
    split
    next => exact AList.lookup_insert t.entries
    next hother => exact absurd h (hother old)

/-- The two trees differ in the contents of their files only. -/
def SameShape (t t' : Tree ν γ) : Prop :=
  ∀ ℓ, (t.lookup ℓ).map Node.shape = (t'.lookup ℓ).map Node.shape

theorem setFile_sameShape (t : Tree ν γ) (ℓ : Loc ν) (content : γ) :
    (t.setFile ℓ content).SameShape t := by
  intro ℓ'
  by_cases heq : ℓ' = ℓ
  · subst heq
    cases hnode : t.lookup ℓ' with
    | none => rw [setFile_of_not_file (by simp [hnode]), hnode]
    | some node =>
      cases node with
      | file old => rw [lookup_setFile_self hnode]; rfl
      | dir => rw [setFile_of_not_file (by simp [hnode]), hnode]
      | link target => rw [setFile_of_not_file (by simp [hnode]), hnode]
  · rw [lookup_setFile_ne heq]

-- What the shape of an entry says about it.
theorem SameShape.lookup_cases (h : t.SameShape t') (ℓ : Loc ν) :
    (t.lookup ℓ = none ∧ t'.lookup ℓ = none) ∨ (t.lookup ℓ = some .dir ∧ t'.lookup ℓ = some .dir) ∨
      (∃ c c', t.lookup ℓ = some (.file c) ∧ t'.lookup ℓ = some (.file c')) ∨
      ∃ target, t.lookup ℓ = some (.link target) ∧ t'.lookup ℓ = some (.link target) := by
  have hshape := h ℓ
  cases hnode : t.lookup ℓ with
  | none => cases hnode' : t'.lookup ℓ <;> simp_all
  | some node =>
    cases hnode' : t'.lookup ℓ with
    | none => simp_all
    | some node' => cases node <;> cases node' <;> simp_all [Node.shape]

-- Contents do not matter for where a path leads.
theorem SameShape.resolves {follow : Bool} {links : Nat} {ℓ x : Loc ν} {cs : List (Comp ν)}
    (hshape : t.SameShape t') (h : Resolves t follow links ℓ cs x) :
    Resolves t' follow links ℓ cs x := by
  have hdir : ∀ {ℓ : Loc ν}, t.lookup ℓ = some .dir → t'.lookup ℓ = some .dir := by
    intro ℓ hℓ
    rcases hshape.lookup_cases ℓ with h | h | ⟨c, c', h⟩ | ⟨target, h⟩ <;> simp_all
  have hlink : ∀ {ℓ : Loc ν} {target : Path ν}, t.lookup ℓ = some (.link target) →
      t'.lookup ℓ = some (.link target) := by
    intro ℓ target hℓ
    rcases hshape.lookup_cases ℓ with h | h | ⟨c, c', h⟩ | ⟨target, h⟩ <;> simp_all
  induction h with
  | done links ℓ => exact .done links ℓ
  | here hcur _ ih => exact .here (hdir hcur) ih
  | up hcur _ ih => exact .up (hdir hcur) ih
  | @entry links ℓ x n node cs hcur hnode hnolink _ ih =>
    rcases hshape.lookup_cases (n :: ℓ) with h | h | ⟨c, c', h⟩ | ⟨target, h⟩
    · exact absurd (hnode.symm.trans h.1) (by simp)
    · exact .entry (hdir hcur) h.2 (by simp) ih
    · exact .entry (hdir hcur) h.2 (by simp) ih
    · obtain rfl := Option.some.inj (hnode.symm.trans h.1)
      exact absurd rfl (hnolink target)
  | stop links hcur hnode hfollow => exact .stop links (hdir hcur) (hlink hnode) hfollow
  | jump hcur hnode hmore hfull _ ih => exact .jump (hdir hcur) (hlink hnode) hmore hfull ih

theorem SameShape.symm (h : t.SameShape t') : t'.SameShape t := fun ℓ ↦ (h ℓ).symm

/-! ## Places -/

/-- Goes through the components like `walkWith`, but the last one need not exist. -/
def placeWith (t : Tree ν γ) (jump : Loc ν → List (Comp ν) → Except Errno (Loc ν)) (follow : Bool) :
    Loc ν → List (Comp ν) → Except Errno (Loc ν)
  | ℓ, [] => .ok ℓ
  | ℓ, c :: cs =>
    match t.lookup ℓ with
    | none => .error .noent
    | some (.file _) | some (.link _) => .error .notdir
    | some .dir =>
      match c with
      | .here => placeWith t jump follow ℓ cs
      | .up => placeWith t jump follow ℓ.tail cs
      | .bad => .error .nametoolong
      | .name n =>
        match t.lookup (n :: ℓ) with
        | none => if cs = [] then .ok (n :: ℓ) else .error .noent
        | some (.link target) =>
          if cs = [] ∧ follow = false then .ok (n :: ℓ)
          else if target.full = [] then .error .noent
          else jump (if target.absolute then [] else ℓ) (target.full ++ cs)
        | some _ => placeWith t jump follow (n :: ℓ) cs

/-- The location that a path leads to, or would lead to if its last component existed. -/
def place (t : Tree ν γ) (follow : Bool) : Nat → Loc ν → List (Comp ν) → Except Errno (Loc ν)
  | 0 => placeWith t (fun _ _ ↦ .error .loop) follow
  | links + 1 => placeWith t (place t follow links) follow

theorem place_cons (t : Tree ν γ) (follow : Bool) (links : Nat) (ℓ : Loc ν) (c : Comp ν)
    (cs : List (Comp ν)) (h : t.lookup ℓ = some .dir) :
    place t follow links ℓ (c :: cs) =
      match c with
      | .here => place t follow links ℓ cs
      | .up => place t follow links ℓ.tail cs
      | .bad => .error .nametoolong
      | .name n =>
        match t.lookup (n :: ℓ) with
        | none => if cs = [] then .ok (n :: ℓ) else .error .noent
        | some (.link target) =>
          if cs = [] ∧ follow = false then .ok (n :: ℓ)
          else if target.full = [] then .error .noent
          else match links with
            | 0 => .error .loop
            | links + 1 => place t follow links (if target.absolute then [] else ℓ) (target.full ++ cs)
        | some _ => place t follow links (n :: ℓ) cs := by
  cases links <;> · simp only [place, placeWith, h]

variable {follow : Bool} {links : Nat}

-- What exists is its own place.
theorem Resolves.place_eq {ℓ x : Loc ν} {cs : List (Comp ν)} (h : Resolves t follow links ℓ cs x) :
    place t follow links ℓ cs = .ok x := by
  induction h with
  | done links ℓ => cases links <;> rfl
  | here hdir _ ih =>
    rw [place_cons _ _ _ _ _ _ hdir]
    exact ih
  | up hdir _ ih =>
    rw [place_cons _ _ _ _ _ _ hdir]
    exact ih
  | @entry links ℓ x n node cs hdir hnode hlink _ ih =>
    rw [place_cons _ _ _ _ _ _ hdir]
    simp only [hnode]
    cases node with
    | link target => exact absurd rfl (hlink target)
    | dir => exact ih
    | file content => exact ih
  | stop links hdir hnode hfollow =>
    rw [place_cons _ _ _ _ _ _ hdir]
    simp only [hnode]
    exact if_pos ⟨trivial, hfollow⟩
  | jump hdir hnode hmore hfull _ ih =>
    rw [place_cons _ _ _ _ _ _ hdir]
    simp only [hnode, if_neg hmore, if_neg hfull]
    exact ih

-- A name that a directory does not have is placed there.
theorem Resolves.place_missing {ℓ x : Loc ν} {n : ν} {cs : List (Comp ν)}
    (h : Resolves t true links ℓ cs x) (hdir : t.lookup x = some .dir)
    (hmissing : t.lookup (n :: x) = none) (follow : Bool) :
    place t follow links ℓ (cs ++ [.name n]) = .ok (n :: x) := by
  induction h with
  | done links ℓ =>
    rw [List.nil_append, place_cons _ _ _ _ _ _ hdir]
    simp only [hmissing]
    rfl
  | here hcur _ ih =>
    rw [List.cons_append, place_cons _ _ _ _ _ _ hcur]
    exact ih hdir hmissing
  | up hcur _ ih =>
    rw [List.cons_append, place_cons _ _ _ _ _ _ hcur]
    exact ih hdir hmissing
  | @entry links ℓ x m node cs hcur hnode hlink _ ih =>
    rw [List.cons_append, place_cons _ _ _ _ _ _ hcur]
    simp only [hnode]
    cases node with
    | link target => exact absurd rfl (hlink target)
    | dir => exact ih hdir hmissing
    | file content => exact ih hdir hmissing
  | stop links hcur hnode hfollow => cases hfollow
  | jump hcur hnode hmore hfull _ ih =>
    rw [List.cons_append, place_cons _ _ _ _ _ _ hcur]
    simp only [hnode, if_neg (by simp : ¬ (_ ++ [Comp.name n] = [] ∧ follow = false)), if_neg hfull]
    rw [← List.append_assoc]
    exact ih hdir hmissing

theorem isDir_of_place {ℓ x : Loc ν} {c : Comp ν} {cs : List (Comp ν)}
    (h : place t follow links ℓ (c :: cs) = .ok x) : t.lookup ℓ = some .dir := by
  cases hnode : t.lookup ℓ with
  | none => cases links <;> simp [place, placeWith, hnode] at h
  | some node =>
    cases node with
    | dir => rfl
    | file content => cases links <;> simp [place, placeWith, hnode] at h
    | link target => cases links <;> simp [place, placeWith, hnode] at h

/-- A place without an entry, in a directory, that the components lead to once there is a file or a
directory. -/
def Vacant (t : Tree ν γ) (follow : Bool) (links : Nat) (ℓ : Loc ν) (cs : List (Comp ν)) (x : Loc ν) :
    Prop :=
  ∃ n y, x = n :: y ∧ t.lookup y = some .dir ∧ t.lookup x = none ∧
    ∀ t' : Tree ν γ, t.Le t' → (∃ node, t'.lookup x = some node ∧ ∀ target, node ≠ .link target) →
      Resolves t' follow links ℓ cs x

-- One more component before the others.
theorem Vacant.step {ℓ ℓ' x : Loc ν} {cs cs' : List (Comp ν)} {links' : Nat}
    (h : Vacant t follow links' ℓ' cs' x)
    (hstep : ∀ t' : Tree ν γ, t.Le t' → Resolves t' follow links' ℓ' cs' x →
      Resolves t' follow links ℓ cs x) : Vacant t follow links ℓ cs x := by
  obtain ⟨n, y, hx, hdir, hmissing, hlater⟩ := h
  exact ⟨n, y, hx, hdir, hmissing, fun t' hle hnode ↦ hstep t' hle (hlater t' hle hnode)⟩

theorem place_cases_jump {ℓ x : Loc ν} {cs : List (Comp ν)}
    (hjump : ∀ rest, links = rest + 1 → ∀ ℓ cs, place t follow rest ℓ cs = .ok x →
      Resolves t follow rest ℓ cs x ∨ Vacant t follow rest ℓ cs x)
    (h : place t follow links ℓ cs = .ok x) :
    Resolves t follow links ℓ cs x ∨ Vacant t follow links ℓ cs x := by
  induction cs generalizing ℓ with
  | nil =>
    have hdone : place t follow links ℓ [] = .ok ℓ := by cases links <;> rfl
    obtain rfl : ℓ = x := Except.ok.inj (hdone.symm.trans h)
    exact .inl (.done links ℓ)
  | cons c cs ih =>
    have hdir := isDir_of_place h
    rw [place_cons _ _ _ _ _ _ hdir] at h
    cases c with
    | here => exact (ih h).imp (.here hdir) fun hv ↦ hv.step fun t' hle ↦ .here (hle _ _ hdir)
    | up => exact (ih h).imp (.up hdir) fun hv ↦ hv.step fun t' hle ↦ .up (hle _ _ hdir)
    | bad => cases h
    | name n =>
      cases hnode : t.lookup (n :: ℓ) with
      | none =>
        simp only [hnode] at h
        by_cases hlast : cs = []
        · rw [if_pos hlast] at h
          obtain rfl : n :: ℓ = x := Except.ok.inj h
          refine .inr ⟨n, ℓ, rfl, hdir, hnode, fun t' hle hfile ↦ ?_⟩
          obtain ⟨node, hnode', hlink⟩ := hfile
          rw [hlast]
          exact .entry (hle _ _ hdir) hnode' hlink (.done links _)
        · rw [if_neg hlast] at h
          cases h
      | some node =>
        cases node with
        | dir =>
          simp only [hnode] at h
          exact (ih h).imp (.entry hdir hnode (by simp))
            fun hv ↦ hv.step fun t' hle ↦ .entry (hle _ _ hdir) (hle _ _ hnode) (by simp)
        | file content =>
          simp only [hnode] at h
          exact (ih h).imp (.entry hdir hnode (by simp))
            fun hv ↦ hv.step fun t' hle ↦ .entry (hle _ _ hdir) (hle _ _ hnode) (by simp)
        | link target =>
          simp only [hnode] at h
          by_cases hlast : cs = [] ∧ follow = false
          · rw [if_pos hlast] at h
            obtain rfl : n :: ℓ = x := Except.ok.inj h
            rw [hlast.1]
            exact .inl (.stop links hdir hnode hlast.2)
          · rw [if_neg hlast] at h
            by_cases hfull : target.full = []
            · rw [if_pos hfull] at h
              cases h
            · rw [if_neg hfull] at h
              cases links with
              | zero => cases h
              | succ rest =>
                exact (hjump rest rfl _ _ h).imp (.jump hdir hnode hlast hfull)
                  fun hv ↦ hv.step fun t' hle ↦ .jump (hle _ _ hdir) (hle _ _ hnode) hlast hfull

-- A place is an entry or vacant.
theorem place_cases {ℓ x : Loc ν} {cs : List (Comp ν)} (h : place t follow links ℓ cs = .ok x) :
    Resolves t follow links ℓ cs x ∨ Vacant t follow links ℓ cs x := by
  induction links generalizing ℓ cs with
  | zero => exact place_cases_jump (fun rest hrest ↦ absurd hrest (by simp)) h
  | succ links ih =>
    apply place_cases_jump _ h
    intro rest hrest ℓ cs hplace
    obtain rfl : links = rest := Nat.succ.inj hrest
    exact ih hplace

-- A path that leads to anything but a link leads there with links followed.
theorem Resolves.following {ℓ x : Loc ν} {cs : List (Comp ν)} (h : Resolves t follow links ℓ cs x)
    (hnode : ∀ target, t.lookup x ≠ some (.link target)) : Resolves t true links ℓ cs x := by
  induction h with
  | done links ℓ => exact .done links ℓ
  | here hcur _ ih => exact .here hcur (ih hnode)
  | up hcur _ ih => exact .up hcur (ih hnode)
  | entry hcur hentry hlink _ ih => exact .entry hcur hentry hlink (ih hnode)
  | stop links hcur hlink hfollow => exact absurd hlink (hnode _)
  | jump hcur hlink hmore hfull _ ih => exact .jump hcur hlink (by simp) hfull (ih hnode)

theorem place_ne_exist {ℓ : Loc ν} {cs : List (Comp ν)} :
    place t follow links ℓ cs ≠ .error .exist := by
  have hall : ∀ (links : Nat) (jump : Loc ν → List (Comp ν) → Except Errno (Loc ν)),
      (∀ ℓ cs, jump ℓ cs ≠ .error .exist) → ∀ cs ℓ, placeWith t jump follow ℓ cs ≠ .error .exist := by
    intro links jump hjump cs
    induction cs with
    | nil => simp [placeWith]
    | cons c cs ih =>
      intro ℓ
      unfold placeWith
      split
      · simp
      · simp
      · simp
      · cases c with
        | here => exact ih ℓ
        | up => exact ih ℓ.tail
        | bad => simp
        | name n =>
          dsimp only
          split
          · split <;> simp
          · split
            · simp
            · split
              · simp
              · exact hjump _ _
          · exact ih (n :: ℓ)
  induction links generalizing ℓ cs with
  | zero => exact hall 0 _ (by simp) cs ℓ
  | succ links ih => exact hall links _ (fun ℓ cs ↦ ih) cs ℓ

/-! ## A new entry -/

theorem lookup_add_self [DecidableEq γ] {n : ν} {ℓ : Loc ν} {node : Node ν γ}
    (hdir : t.lookup ℓ = some .dir) (hmissing : t.lookup (n :: ℓ) = none) :
    (t.add n ℓ node).lookup (n :: ℓ) = some node := by
  unfold add
  rw [dif_pos ⟨hdir, hmissing⟩]
  exact AList.lookup_insert t.entries

theorem le_add [DecidableEq γ] (t : Tree ν γ) (n : ν) (ℓ : Loc ν) (node : Node ν γ) :
    t.Le (t.add n ℓ node) := by
  intro ℓ' node' hnode'
  unfold add
  split
  next hroom =>
    cases ℓ' with
    | nil => exact hnode'
    | cons m ℓ' =>
      have hne : m :: ℓ' ≠ n :: ℓ := by
        intro heq
        rw [heq] at hnode'
        exact absurd (hroom.2.symm.trans hnode') (by simp)
      exact (AList.lookup_insert_ne hne).trans hnode'
  next => exact hnode'

end

end Tree

end FileTree
