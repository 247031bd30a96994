import Mathlib.Data.List.Induction
import Mathlib.Data.List.Infix
import QNode.Library.FileContents

/-!
# Making all directories of a path

One beginning of the path after the other gets a directory where there is room for one.  What is in the
way stays, and then nothing after it is made.
-/

namespace FileTree.Tree

section

variable {ν γ : Type} [DecidableEq ν]

/-! ## The directories of a path -/

section

variable (links : Nat) (start : Loc ν)

/-- The path leads to a directory. -/
def LeadsToDir (t : Tree ν γ) (cs : List (Comp ν)) : Prop :=
  ∃ ℓ, Resolves t true links start cs ℓ ∧ t.lookup ℓ = some .dir

variable [DecidableEq γ]

/-- A directory for the last component, if there is room for one where the path before it leads. -/
def makeLast (t : Tree ν γ) (cs : List (Comp ν)) : Tree ν γ :=
  match cs.getLast? with
  | some (.name n) =>
    match t.walk true links start cs.dropLast with
    | .ok ℓ => t.add n ℓ .dir
    | .error _ => t
  | _ => t

def makeDirs (t : Tree ν γ) (cs : List (Comp ν)) : Tree ν γ := cs.inits.foldl (makeLast links start) t

/-- All directories of the path can be made: every beginning of it leads to a directory, or to where
there is room for one.  `t'` is the tree with them. -/
inductive Made (t : Tree ν γ) : List (Comp ν) → Tree ν γ → Prop
  | start : t.lookup start = some .dir → Made t [] t
  | found {t' : Tree ν γ} {cs : List (Comp ν)} {c : Comp ν} :
    Made t cs t' → LeadsToDir links start t' (cs ++ [c]) → Made t (cs ++ [c]) t'
  | made {t' : Tree ν γ} {cs : List (Comp ν)} {n : ν} {ℓ : Loc ν} :
    Made t cs t' → Resolves t' true links start cs ℓ → t'.lookup ℓ = some .dir →
    t'.lookup (n :: ℓ) = none → Made t (cs ++ [.name n]) (t'.add n ℓ .dir)

/-- All directories of the path can be made, and the last one is not there before. -/
def LastIsNew (t : Tree ν γ) (cs : List (Comp ν)) : Prop :=
  ∃ init n t' ℓ, cs = init ++ [.name n] ∧ Made links start t init t' ∧
    Resolves t' true links start init ℓ ∧ t'.lookup (n :: ℓ) = none

end

section

variable {links : Nat} {start : Loc ν} {t t' : Tree ν γ} {cs : List (Comp ν)}

theorem LeadsToDir.mono (h : LeadsToDir links start t cs) (hle : t.Le t') :
    LeadsToDir links start t' cs := by
  obtain ⟨ℓ, hres, hdir⟩ := h
  exact ⟨ℓ, hres.mono hle, hle _ _ hdir⟩

theorem LeadsToDir.init {c : Comp ν} (h : LeadsToDir links start t (cs ++ [c])) :
    LeadsToDir links start t cs := by
  obtain ⟨x, hres, hdir⟩ := h
  obtain ⟨ℓ, rest, hℓ, hlast⟩ := hres.split (by simp)
  exact ⟨ℓ, hℓ, hlast.cons_isDir⟩

-- A slash at the end makes no difference for a directory.
theorem leadsToDir_full {path : Path ν} :
    LeadsToDir links start t path.full ↔ LeadsToDir links start t path.comps := by
  unfold Path.full
  by_cases hslash : path.slash = true
  · rw [if_pos hslash]
    constructor
    · exact LeadsToDir.init
    · rintro ⟨ℓ, hres, hdir⟩
      exact ⟨ℓ, hres.append_here hdir, hdir⟩
  · rw [if_neg hslash, List.append_nil]

variable [DecidableEq γ]

theorem makeDirs_concat (t : Tree ν γ) (cs : List (Comp ν)) (c : Comp ν) :
    makeDirs links start t (cs ++ [c]) = makeLast links start (makeDirs links start t cs) (cs ++ [c]) := by
  unfold makeDirs
  rw [List.inits_append, List.foldl_append]
  rfl

theorem leadsToDir_add {n : ν} {ℓ : Loc ν} (hres : Resolves t true links start cs ℓ)
    (hdir : t.lookup ℓ = some .dir) (hnone : t.lookup (n :: ℓ) = none) :
    LeadsToDir links start (t.add n ℓ .dir) (cs ++ [.name n]) := by
  have hle := le_add t n ℓ .dir
  have hnew : (t.add n ℓ .dir).lookup (n :: ℓ) = some .dir := lookup_add_self hdir hnone
  refine ⟨n :: ℓ, (hres.mono hle).append (by simp) fun links ↦ ?_, hnew⟩
  exact .entry (hle _ _ hdir) hnew (by simp) (.done links _)

-- What one step can do.
theorem makeLast_cases (links : Nat) (start : Loc ν) (t : Tree ν γ) (cs : List (Comp ν)) (c : Comp ν) :
    makeLast links start t (cs ++ [c]) = t ∨
    ∃ n ℓ, c = .name n ∧ Resolves t true links start cs ℓ ∧ t.lookup ℓ = some .dir ∧
      t.lookup (n :: ℓ) = none ∧ makeLast links start t (cs ++ [c]) = t.add n ℓ .dir := by
  unfold makeLast
  rw [List.getLast?_concat, List.dropLast_concat]
  cases c with
  | here => exact .inl rfl
  | up => exact .inl rfl
  | bad => exact .inl rfl
  | name n =>
    dsimp only
    cases hwalk : t.walk true links start cs with
    | error err => exact .inl rfl
    | ok ℓ =>
      dsimp only
      by_cases hroom : t.lookup ℓ = some .dir ∧ t.lookup (n :: ℓ) = none
      · exact .inr ⟨n, ℓ, rfl, walk_eq_ok_iff.mp hwalk, hroom.1, hroom.2, rfl⟩
      · exact .inl (dif_neg hroom)

theorem makeLast_add {n : ν} {ℓ : Loc ν} (h : Resolves t true links start cs ℓ) :
    makeLast links start t (cs ++ [.name n]) = t.add n ℓ .dir := by
  unfold makeLast
  rw [List.getLast?_concat, List.dropLast_concat]
  dsimp only
  rw [h.walk_eq]

-- A directory that is there stays as it is.
theorem LeadsToDir.makeLast {c : Comp ν} (h : LeadsToDir links start t (cs ++ [c])) :
    makeLast links start t (cs ++ [c]) = t := by
  rcases makeLast_cases links start t cs c with
    hsame | ⟨n, ℓ, rfl, hres, -, hnone, -⟩
  · exact hsame
  · obtain ⟨x, hx, -⟩ := h
    obtain ⟨ℓ', rest, hℓ', hlast⟩ := hx.split (by simp)
    obtain rfl := hres.unique hℓ'
    exact absurd hlast.name_isSome (by simp [hnone])

theorem LeadsToDir.makeDirs (h : LeadsToDir links start t cs) : makeDirs links start t cs = t := by
  induction cs using List.reverseRecOn with
  | nil => rfl
  | append_singleton cs c ih =>
    rw [makeDirs_concat, ih h.init]
    exact h.makeLast

theorem le_makeLast (t : Tree ν γ) (cs : List (Comp ν)) : t.Le (makeLast links start t cs) := by
  unfold Tree.makeLast
  split
  · split
    · exact le_add t _ _ _
    · exact Le.refl t
  · exact Le.refl t

theorem le_makeDirs (t : Tree ν γ) (cs : List (Comp ν)) : t.Le (makeDirs links start t cs) := by
  induction cs using List.reverseRecOn with
  | nil => exact Le.refl t
  | append_singleton cs c ih =>
    rw [makeDirs_concat]
    exact ih.trans (le_makeLast _ _)

-- The last directory is made once.
theorem makeLast_makeDirs (t : Tree ν γ) (cs : List (Comp ν)) :
    makeLast links start (makeDirs links start t cs) cs = makeDirs links start t cs := by
  induction cs using List.reverseRecOn with
  | nil => rfl
  | append_singleton cs c _ =>
    rw [makeDirs_concat]
    generalize makeDirs links start t cs = t₁
    rcases makeLast_cases links start t₁ cs c with hsame | ⟨n, ℓ, rfl, hres, hdir, hnone, hadd⟩
    · rw [hsame, hsame]
    · rw [hadd]
      exact (leadsToDir_add hres hdir hnone).makeLast

/-- Making the directories of a path once more changes nothing. -/
theorem makeDirs_makeDirs (t : Tree ν γ) (cs : List (Comp ν)) :
    makeDirs links start (makeDirs links start t cs) cs = makeDirs links start t cs := by
  induction cs using List.reverseRecOn with
  | nil => rfl
  | append_singleton cs c ih =>
    rw [makeDirs_concat t]
    generalize makeDirs links start t cs = t₁ at ih
    rcases makeLast_cases links start t₁ cs c with
      hsame | ⟨n, ℓ, rfl, hres, hdir, hnone, hadd⟩
    · rw [hsame, makeDirs_concat, ih, hsame]
    · rw [hadd]
      exact (leadsToDir_add hres hdir hnone).makeDirs

theorem Made.leadsToDir (h : Made links start t cs t') : LeadsToDir links start t' cs := by
  induction h with
  | start hdir => exact ⟨start, .done links start, hdir⟩
  | found _ hdir _ => exact hdir
  | made _ hres hdir hnone _ => exact leadsToDir_add hres hdir hnone

theorem Made.eq_makeDirs (h : Made links start t cs t') : t' = makeDirs links start t cs := by
  induction h with
  | start hdir => rfl
  | found _ hdir ih =>
    rw [makeDirs_concat, ← ih]
    exact hdir.makeLast.symm
  | made _ hres hdir hnone ih =>
    rw [makeDirs_concat, ← ih]
    exact (makeLast_add hres).symm

theorem LeadsToDir.made (h : LeadsToDir links start (Tree.makeDirs links start t cs) cs) :
    Made links start t cs (Tree.makeDirs links start t cs) := by
  induction cs using List.reverseRecOn with
  | nil =>
    obtain ⟨ℓ, hres, hdir⟩ := h
    cases hres with
    | done => exact .start hdir
  | append_singleton cs c ih =>
    rw [makeDirs_concat] at h ⊢
    rcases makeLast_cases links start (Tree.makeDirs links start t cs) cs c with
      hsame | ⟨n, ℓ, rfl, hres, hdir, hnone, hadd⟩
    · rw [hsame] at h ⊢
      exact .found (ih h.init) h
    · rw [hadd]
      exact .made (ih ⟨ℓ, hres, hdir⟩) hres hdir hnone

/-- The path leads to a directory at the end if and only if all its directories can be made. -/
theorem leadsToDir_makeDirs_iff : LeadsToDir links start (makeDirs links start t cs) cs ↔
    ∃ t', Made links start t cs t' := by
  constructor
  · exact fun h ↦ ⟨_, h.made⟩
  · rintro ⟨t', h⟩
    rw [← h.eq_makeDirs]
    exact h.leadsToDir

theorem LastIsNew.made (h : LastIsNew links start t cs) : ∃ t', Made links start t cs t' := by
  obtain ⟨init, n, t', ℓ, rfl, hmade, hres, hnone⟩ := h
  obtain ⟨ℓ', hres', hdir⟩ := hmade.leadsToDir
  obtain rfl := hres.unique hres'
  exact ⟨_, .made hmade hres hdir hnone⟩

-- What has been made is not new.
theorem Made.not_lastIsNew (h : Made links start t cs t') : ¬ LastIsNew links start t' cs := by
  rintro ⟨init, n, t'', ℓ, rfl, hmade, hres, hnone⟩
  obtain rfl : t'' = t' := hmade.eq_makeDirs.trans h.leadsToDir.init.makeDirs
  obtain ⟨x, hx, -⟩ := h.leadsToDir
  obtain ⟨ℓ', rest, hℓ', hlast⟩ := hx.split (by simp)
  obtain rfl := hres.unique hℓ'
  exact absurd hlast.name_isSome (by simp [hnone])

end

end

end FileTree.Tree
