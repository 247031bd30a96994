import Mathlib.Algebra.Order.BigOperators.Group.List
import Mathlib.Algebra.Order.Group.Nat
import QNode.Library.FileTree

/-!
# Trees with a part taken out

What is below an entry has a location that ends with the location of the entry.  Taking entries out
changes where a path leads only if it goes through one of them.
-/

namespace FileTree.Tree

theorem cons_suffix_unique {ν : Type} {n m : ν} {x ℓ : Loc ν} (h : n :: x <:+ ℓ) (h' : m :: x <:+ ℓ) : n = m := by
  have hsuffix := List.suffix_of_suffix_length_le h h' (Nat.le_refl _)
  exact (List.cons.inj (hsuffix.eq_of_length rfl)).1

variable {ν γ : Type} [DecidableEq ν] {t t' : Tree ν γ}

/-! ## Below an entry -/

-- What is above an entry is there.
theorem isSome_of_suffix {ℓ x : Loc ν} (h : ℓ <:+ x) (hx : (t.lookup x).isSome) :
    (t.lookup ℓ).isSome := by
  induction x with
  | nil =>
    rw [List.suffix_nil.mp h]
    exact hx
  | cons n x ih =>
    rcases List.suffix_cons_iff.mp h with rfl | h
    · exact hx
    · apply ih h
      rw [lookup_parent hx]
      rfl

theorem isDir_of_suffix {n : ν} {ℓ x : Loc ν} (h : ℓ <:+ x) (hx : (t.lookup (n :: x)).isSome) :
    t.lookup ℓ = some .dir := by
  induction x generalizing n with
  | nil =>
    rw [List.suffix_nil.mp h]
    rfl
  | cons m x ih =>
    have hdir := lookup_parent hx
    rcases List.suffix_cons_iff.mp h with rfl | h
    · exact hdir
    · apply ih (n := m) h
      rw [hdir]
      rfl

theorem exists_depth (t : Tree ν γ) : ∃ depth, ∀ ℓ, (t.lookup ℓ).isSome → ℓ.length ≤ depth := by
  refine ⟨(t.entries.keys.map List.length).sum, fun ℓ hℓ ↦ ?_⟩
  cases ℓ with
  | nil => exact Nat.zero_le _
  | cons n ℓ =>
    have hkey : n :: ℓ ∈ t.entries.keys := AList.lookup_isSome.mp hℓ
    exact List.single_le_sum (fun _ _ ↦ Nat.zero_le _) _ (List.mem_map_of_mem hkey)

/-- `t'` is `t` without `x` and what is below it. -/
structure Cleared (t : Tree ν γ) (x : Loc ν) (t' : Tree ν γ) : Prop where
  gone : ∀ ℓ, x <:+ ℓ → t'.lookup ℓ = none
  same : ∀ ℓ, ¬ x <:+ ℓ → t'.lookup ℓ = t.lookup ℓ

theorem Cleared.le {x : Loc ν} (h : t.Cleared x t') : t'.Le t := by
  intro ℓ node hnode
  by_cases hbelow : x <:+ ℓ
  · rw [h.gone ℓ hbelow] at hnode
    cases hnode
  · rw [h.same ℓ hbelow] at hnode
    exact hnode

-- An entry without entries goes alone.
theorem cleared_erase {n : ν} {x : Loc ν} (hleaf : t.children (n :: x) = []) :
    t.Cleared (n :: x) (t.erase (n :: x)) := by
  constructor
  · intro ℓ hℓ
    rw [← Option.not_isSome_iff_eq_none]
    intro hsome
    have hgone := isSome_of_suffix hℓ hsome
    rw [lookup_erase_self hleaf] at hgone
    cases hgone
  · intro ℓ hℓ
    apply lookup_erase_ne
    rintro rfl
    exact hℓ (List.suffix_refl _)

/-- Some entries below `d` may be gone, but none on the way to `x`. -/
structure Thinned (t : Tree ν γ) (d x : Loc ν) (t' : Tree ν γ) : Prop where
  le : t'.Le t
  same : ∀ ℓ, ¬ d <:+ ℓ ∨ ℓ <:+ x → t'.lookup ℓ = t.lookup ℓ

theorem Thinned.refl (t : Tree ν γ) (d x : Loc ν) : Thinned t d x t := ⟨Le.refl t, fun _ _ ↦ rfl⟩

theorem Thinned.up {d x y : Loc ν} (h : Thinned t d x t') (hy : y <:+ x) : Thinned t d y t' :=
  ⟨h.le, fun ℓ hℓ ↦ h.same ℓ (hℓ.imp_right fun hℓ ↦ hℓ.trans hy)⟩

-- What has nothing but entries on the way to `x` has no more than any thinned tree.
theorem Thinned.ge {t'' : Tree ν γ} {d x : Loc ν} (h : Thinned t d x t') (hle : t''.Le t)
    (honly : ∀ ℓ, d <:+ ℓ → (t''.lookup ℓ).isSome → ℓ <:+ x) : t''.Le t' := by
  intro ℓ node hnode
  have hkept : ¬ d <:+ ℓ ∨ ℓ <:+ x := by
    by_cases hd : d <:+ ℓ
    · exact .inr (honly ℓ hd (by rw [hnode]; rfl))
    · exact .inl hd
  rw [h.same ℓ hkept]
  exact hle ℓ node hnode

theorem eq_of_children_eq_nil {d ℓ : Loc ν} (hnil : t.children d = []) (hd : d <:+ ℓ)
    (hsome : (t.lookup ℓ).isSome) : ℓ = d := by
  obtain ⟨front, rfl⟩ := hd
  rcases List.eq_nil_or_concat' front with rfl | ⟨front, n, rfl⟩
  · rfl
  · have hsuffix : n :: d <:+ front ++ [n] ++ d := by
      rw [List.append_assoc]
      exact List.suffix_append front (n :: d)
    have hn := mem_children.mpr (isSome_of_suffix hsuffix hsome)
    rw [hnil] at hn
    cases hn

/-- No link below `d` leads to a directory. -/
def NoDirLink (t : Tree ν γ) (d : Loc ν) : Prop :=
  ∀ links n ℓ target y, d <:+ ℓ → t.lookup (n :: ℓ) = some (.link target) →
    Resolves t true links ℓ [.name n] y → t.lookup y ≠ some .dir

theorem NoDirLink.mono {d : Loc ν} (h : NoDirLink t d) (hle : t'.Le t) : NoDirLink t' d := by
  intro links n ℓ target y hd hlink hres hdir
  exact h links n ℓ target y hd (hle _ _ hlink) (hres.mono hle) (hle _ _ hdir)

theorem NoDirLink.below {d x : Loc ν} (h : NoDirLink t d) (hx : d <:+ x) : NoDirLink t x :=
  fun links n ℓ target y hℓ ↦ h links n ℓ target y (hx.trans hℓ)

/-! ## Paths -/

variable {follow : Bool} {links : Nat}

theorem tail_not_link {ℓ : Loc ν} (h : t.lookup ℓ = some .dir) (target : Path ν) :
    t.lookup ℓ.tail ≠ some (.link target) := by
  cases ℓ with
  | nil => exact fun h' ↦ nomatch h'
  | cons n ℓ =>
    rw [List.tail_cons, lookup_parent (by rw [h]; rfl)]
    simp

-- A path that ends at a link has the link as its last component.
theorem Resolves.at_link {links' : Nat} {ℓ x z : Loc ν} {n : ν} {target : Path ν} {cs : List (Comp ν)}
    (h : Resolves t false links ℓ cs (n :: x)) (hlink : t.lookup (n :: x) = some (.link target))
    (hstart : ∀ target, t.lookup ℓ ≠ some (.link target)) (h' : Resolves t true links' ℓ cs z) :
    ∃ rest, Resolves t true rest x [.name n] z := by
  generalize hend : n :: x = y at h hlink
  induction h generalizing links' with
  | done links ℓ => exact absurd hlink (hstart target)
  | here hcur _ ih =>
    cases h' with
    | here _ h' => exact ih hstart h' hend hlink
  | up hcur _ ih =>
    cases h' with
    | up _ h' => exact ih (tail_not_link hcur) h' hend hlink
  | entry hcur hnode hnot _ ih =>
    cases h' with
    | entry _ _ _ h' =>
      refine ih ?_ h' hend hlink
      intro target heq
      exact hnot target (Option.some.inj (hnode.symm.trans heq))
    | stop _ _ _ hfollow => cases hfollow
    | jump _ hnode' => exact absurd (Option.some.inj (hnode.symm.trans hnode')) (hnot _)
  | stop _ hcur hnode _ =>
    obtain ⟨rfl, rfl⟩ := List.cons.inj hend
    exact ⟨links', h'⟩
  | @jump links ℓ x n target' cs hcur hnode hmore hfull _ ih =>
    cases h' with
    | entry _ hnode' hnot => exact absurd (Option.some.inj (hnode'.symm.trans hnode)) (hnot _)
    | stop _ _ _ hfollow => cases hfollow
    | jump _ hnode' _ _ h' =>
      obtain rfl := Node.link.inj (Option.some.inj (hnode.symm.trans hnode'))
      refine ih ?_ h' hend hlink
      intro target heq
      split at heq
      · cases heq
      · exact absurd (hcur.symm.trans heq) (by simp)

theorem walk_cons_none {ℓ : Loc ν} (c : Comp ν) (cs : List (Comp ν)) (h : t.lookup ℓ = none) :
    walk t follow links ℓ (c :: cs) = .error .noent := by
  cases links <;> · simp only [walk, walkWith, h]

-- What a path led to is missed once it is gone.
theorem Resolves.walk_gone {ℓ x : Loc ν} {cs : List (Comp ν)} (h : Resolves t follow links ℓ cs x)
    (hgone : t'.lookup x = none) (hsame : ∀ y, y ≠ x → t'.lookup y = t.lookup y) :
    walk t' follow links ℓ cs = .ok x ∨ walk t' follow links ℓ cs = .error .noent := by
  induction h with
  | done links ℓ => exact .inl (by cases links <;> rfl)
  | @here links ℓ x cs hcur _ ih =>
    by_cases heq : ℓ = x
    · exact .inr (walk_cons_none _ _ (heq ▸ hgone))
    · rw [walk_cons _ _ _ _ _ _ ((hsame ℓ heq).trans hcur)]
      exact ih hgone hsame
  | @up links ℓ x cs hcur _ ih =>
    by_cases heq : ℓ = x
    · exact .inr (walk_cons_none _ _ (heq ▸ hgone))
    · rw [walk_cons _ _ _ _ _ _ ((hsame ℓ heq).trans hcur)]
      exact ih hgone hsame
  | @entry links ℓ x n node cs hcur hnode hnot _ ih =>
    by_cases heq : ℓ = x
    · exact .inr (walk_cons_none _ _ (heq ▸ hgone))
    · rw [walk_cons _ _ _ _ _ _ ((hsame ℓ heq).trans hcur)]
      dsimp only
      by_cases hentry : n :: ℓ = x
      · rw [hentry, hgone]
        exact .inr rfl
      · rw [hsame _ hentry, hnode]
        cases node with
        | link target => exact absurd rfl (hnot target)
        | dir => exact ih hgone hsame
        | file content => exact ih hgone hsame
  | @stop links ℓ n target hcur hnode hfollow =>
    rw [walk_cons _ _ _ _ _ _ ((hsame ℓ (by simp)).trans hcur)]
    dsimp only
    rw [hgone]
    exact .inr rfl
  | @jump links ℓ x n target cs hcur hnode hmore hfull _ ih =>
    by_cases heq : ℓ = x
    · exact .inr (walk_cons_none _ _ (heq ▸ hgone))
    · rw [walk_cons _ _ _ _ _ _ ((hsame ℓ heq).trans hcur)]
      dsimp only
      by_cases hentry : n :: ℓ = x
      · rw [hentry, hgone]
        exact .inr rfl
      · rw [hsame _ hentry, hnode]
        dsimp only
        rw [if_neg hmore, if_neg hfull]
        exact ih hgone hsame

-- The components in order, given what is known about the paths after a link.
theorem walk_true_of_error_jump {ℓ : Loc ν} {cs : List (Comp ν)} {err : Errno}
    (hjump : ∀ rest, links = rest + 1 → ∀ ℓ cs, walk t false rest ℓ cs = .error err →
      walk t true rest ℓ cs = .error err)
    (h : walk t false links ℓ cs = .error err) : walk t true links ℓ cs = .error err := by
  induction cs generalizing ℓ with
  | nil => cases links <;> cases h
  | cons c cs ih =>
    by_cases hcur : t.lookup ℓ = some .dir
    · rw [walk_cons _ _ _ _ _ _ hcur] at h ⊢
      cases c with
      | here => exact ih h
      | up => exact ih h
      | bad => exact h
      | name n =>
        cases hnode : t.lookup (n :: ℓ) with
        | none => simpa only [hnode] using h
        | some node =>
          simp only [hnode] at h ⊢
          cases node with
          | dir => exact ih h
          | file content => exact ih h
          | link target =>
            dsimp only at h ⊢
            rw [if_neg (by simp)]
            split at h
            next => cases h
            next =>
              by_cases hfull : target.full = []
              · rw [if_pos hfull] at h ⊢
                exact h
              · rw [if_neg hfull] at h ⊢
                cases links with
                | zero => exact h
                | succ rest => exact hjump rest rfl _ _ h
    · cases hnode : t.lookup ℓ with
      | none =>
        rw [walk_cons_none _ _ hnode] at h ⊢
        exact h
      | some node =>
        cases node with
        | dir => exact absurd hnode hcur
        | file content => cases links <;> · simpa only [walk, walkWith, hnode] using h
        | link target => cases links <;> · simpa only [walk, walkWith, hnode] using h

-- A path that leads nowhere leads nowhere with links followed, for the same reason.
theorem walk_true_of_error {ℓ : Loc ν} {cs : List (Comp ν)} {err : Errno}
    (h : walk t false links ℓ cs = .error err) : walk t true links ℓ cs = .error err := by
  induction links generalizing ℓ cs with
  | zero => exact walk_true_of_error_jump (fun rest hrest ↦ absurd hrest (by simp)) h
  | succ links ih =>
    apply walk_true_of_error_jump _ h
    intro rest hrest ℓ cs hwalk
    obtain rfl : links = rest := Nat.succ.inj hrest
    exact ih hwalk

end FileTree.Tree
