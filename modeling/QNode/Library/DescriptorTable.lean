import Mathlib.Data.List.Nodup
import Mathlib.Data.Set.Insert
import Mathlib.Logic.Function.Basic

/-!
# Tables of open descriptors

A table maps numbers to what is open under them, and is what `fork` copies.  No call but those that open
something brings a new entry into a table.
-/

namespace DescriptorTable

/-- What is open under each number. -/
abbrev Table (α : Type) := Nat → Option α

variable {α : Type}

namespace Table

def close (t : Table α) (fd : Nat) : Table α := Function.update t fd none

/-- `dup2`, which does nothing if the source is not open. -/
def dup2 (t : Table α) (src dst : Nat) : Table α :=
  if (t src).isSome then Function.update t dst (t src) else t

/-- `open`, which gets a number that is free. -/
def openAt (t : Table α) (fd : Nat) (entry : α) : Option (Table α) :=
  if t fd = none then some (Function.update t fd (some entry)) else none

/-- An entry is open under some number. -/
def Has (t : Table α) (entry : α) : Prop := ∃ fd, t fd = some entry

variable {t u : Table α} {fd src dst x : Nat} {entry new : α}

@[simp] theorem close_self : t.close fd fd = none := Function.update_self ..

theorem close_of_ne (h : x ≠ fd) : t.close fd x = t x := Function.update_of_ne h ..

theorem of_close (h : t.close fd x = some entry) : x ≠ fd ∧ t x = some entry := by
  have hne : x ≠ fd := by
    rintro rfl
    rw [close_self] at h
    exact nomatch h
  rw [close_of_ne hne] at h
  exact ⟨hne, h⟩

theorem dup2_of_ne (h : x ≠ dst) : t.dup2 src dst x = t x := by
  unfold dup2
  split
  · exact Function.update_of_ne h ..
  · rfl

theorem dup2_self (h : t src = some entry) : t.dup2 src dst dst = some entry := by
  rw [dup2, h, Option.isSome_some, if_pos rfl, Function.update_self]

-- An entry of the new table, at its old number or duplicated.
theorem of_dup2 (h : t.dup2 src dst x = some entry) :
    t x = some entry ∨ x = dst ∧ t src = some entry := by
  by_cases hx : x = dst
  · subst hx
    unfold dup2 at h
    split at h
    · rw [Function.update_self] at h
      exact .inr ⟨rfl, h⟩
    · exact .inl h
  · rw [dup2_of_ne hx] at h
    exact .inl h

theorem openAt_eq_some_iff :
    t.openAt fd new = some u ↔ t fd = none ∧ u = Function.update t fd (some new) := by
  rw [openAt, Option.ite_none_right_eq_some, Option.some.injEq]
  exact and_congr_right fun _ ↦ eq_comm

theorem openAt_keeps (hopen : t.openAt fd new = some u) (h : t x = some entry) :
    u x = some entry := by
  obtain ⟨hfree, rfl⟩ := openAt_eq_some_iff.mp hopen
  refine (Function.update_of_ne ?_ ..).trans h
  rintro rfl
  rw [hfree] at h
  exact nomatch h

theorem openAt_new (hopen : t.openAt fd new = some u) : u fd = some new := by
  obtain ⟨-, rfl⟩ := openAt_eq_some_iff.mp hopen
  exact Function.update_self ..

-- An entry that was there, or the new one.
theorem openAt_entries (hopen : t.openAt fd new = some u) (h : u x = some entry) :
    t x = some entry ∨ x = fd ∧ entry = new := by
  obtain ⟨-, rfl⟩ := openAt_eq_some_iff.mp hopen
  by_cases hx : x = fd
  · subst hx
    rw [Function.update_self] at h
    exact .inr ⟨rfl, (Option.some.inj h).symm⟩
  · rw [Function.update_of_ne hx] at h
    exact .inl h

theorem Has.of_close (h : (t.close fd).Has entry) : t.Has entry := by
  obtain ⟨x, hx⟩ := h
  exact ⟨x, (Table.of_close hx).2⟩

theorem Has.of_dup2 (h : (t.dup2 src dst).Has entry) : t.Has entry := by
  obtain ⟨x, hx⟩ := h
  obtain hx | ⟨-, hx⟩ := Table.of_dup2 hx
  · exact ⟨x, hx⟩
  · exact ⟨src, hx⟩

theorem Has.of_openAt (hopen : t.openAt fd new = some u) (h : u.Has entry) :
    entry = new ∨ t.Has entry := by
  obtain ⟨x, hx⟩ := h
  obtain hx | ⟨-, hnew⟩ := openAt_entries hopen hx
  · exact .inr ⟨x, hx⟩
  · exact .inl hnew

/-! ## The set of open numbers -/

def opens (t : Table α) : Set Nat := {fd | t fd ≠ none}

theorem mem_opens : x ∈ t.opens ↔ ∃ entry, t x = some entry := Option.ne_none_iff_exists'

theorem opens_close (t : Table α) (fd : Nat) : (t.close fd).opens = t.opens \ {fd} := by
  ext x
  rw [Set.mem_sdiff, Set.mem_singleton_iff, mem_opens, mem_opens]
  constructor
  · rintro ⟨entry, h⟩
    obtain ⟨hne, hold⟩ := of_close h
    exact ⟨⟨entry, hold⟩, hne⟩
  · rintro ⟨⟨entry, h⟩, hne⟩
    exact ⟨entry, (close_of_ne hne).trans h⟩

theorem opens_openAt (hopen : t.openAt fd new = some u) :
    fd ∉ t.opens ∧ u.opens = insert fd t.opens := by
  obtain ⟨hfree, -⟩ := openAt_eq_some_iff.mp hopen
  refine ⟨not_not_intro hfree, ?_⟩
  ext x
  rw [Set.mem_insert_iff, mem_opens, mem_opens]
  constructor
  · rintro ⟨entry, h⟩
    rcases openAt_entries hopen h with hold | ⟨rfl, -⟩
    · exact .inr ⟨entry, hold⟩
    · exact .inl rfl
  · rintro (rfl | ⟨entry, hold⟩)
    · exact ⟨new, openAt_new hopen⟩
    · exact ⟨entry, openAt_keeps hopen hold⟩

/-! ## The lowest free number -/

/-- The number that a call gets which opens something; numbers are below the limit. -/
def lowest (t : Table α) (limit : Nat) : Option Nat := (List.range limit).find? fun fd ↦ (t fd).isNone

theorem of_lowest {limit : Nat} (h : t.lowest limit = some fd) :
    t fd = none ∧ ∀ x < fd, t x ≠ none := by
  obtain ⟨hfree, -, hbelow⟩ := List.find?_range_eq_some.mp h
  refine ⟨Option.isNone_iff_eq_none.mp hfree, fun x hx hnone ↦ ?_⟩
  have hopen := hbelow x hx
  rw [hnone, Option.isNone_none] at hopen
  exact Bool.noConfusion hopen

/-! ## Redirections -/

/-- A source that is duplicated to a number, and another descriptor that is closed after it. -/
structure Redirection where
  own : Nat
  other : Nat
  dst : Nat
  deriving DecidableEq, Repr

def redirectTo (t : Table α) (r : Redirection) : Table α := (t.dup2 r.own r.dst).close r.other

def redirectAll (t : Table α) (rs : List Redirection) : Table α := rs.foldl redirectTo t

/-- No redirection closes a number that it or an earlier one has made, and none has its source at a
number that an earlier one has made. -/
def Undisturbed (rs : List Redirection) : Prop :=
  (∀ r ∈ rs, r.other ≠ r.dst) ∧ rs.Pairwise fun r r' ↦ r'.other ≠ r.dst ∧ r'.own ≠ r.dst

variable {r : Redirection} {rs : List Redirection}

theorem redirectTo_of_ne (hdst : x ≠ r.dst) :
    t.redirectTo r x = if x = r.other then none else t x := by
  unfold redirectTo
  by_cases hother : x = r.other
  · rw [if_pos hother, hother, close_self]
  · rw [if_neg hother, close_of_ne hother, dup2_of_ne hdst]

theorem redirectTo_dst (hown : t r.own = some entry) :
    t.redirectTo r r.dst = if r.dst = r.other then none else some entry := by
  unfold redirectTo
  by_cases hother : r.dst = r.other
  · rw [if_pos hother, hother, close_self]
  · rw [if_neg hother, close_of_ne hother, dup2_self hown]

-- Another entry than that of the source stays under its number, which nothing is redirected to.
theorem of_redirectTo (hown : t r.own = some new) (hne : entry ≠ new)
    (h : t.redirectTo r x = some entry) : x ≠ r.dst ∧ t x = some entry := by
  obtain ⟨-, h⟩ := of_close h
  have hdst : x ≠ r.dst := by
    rintro rfl
    rw [dup2_self hown] at h
    exact hne (Option.some.inj h).symm
  rw [dup2_of_ne hdst] at h
  exact ⟨hdst, h⟩

theorem Has.of_redirectAll (h : (t.redirectAll rs).Has entry) : t.Has entry := by
  induction rs generalizing t with
  | nil => exact h
  | cons r rs ih => exact Has.of_dup2 (Has.of_close (ih h))

-- A number that nothing is redirected to can only be closed.
theorem redirectAll_other (h : x ∉ rs.map Redirection.dst) :
    t.redirectAll rs x = if x ∈ rs.map Redirection.other then none else t x := by
  induction rs generalizing t with
  | nil => rfl
  | cons r rs ih =>
    rw [List.map_cons, List.mem_cons, not_or] at h
    show (t.redirectTo r).redirectAll rs x = _
    rw [ih h.2, redirectTo_of_ne h.1, List.map_cons]
    by_cases hrest : x ∈ rs.map Redirection.other
    · rw [if_pos hrest, if_pos (List.mem_cons_of_mem _ hrest)]
    · rw [if_neg hrest]
      exact if_congr (by rw [List.mem_cons, or_iff_left hrest]) rfl rfl

theorem redirectAll_dst (hown : t r.own = some entry) (h : r.dst ∉ rs.map Redirection.dst) :
    t.redirectAll (r :: rs) r.dst = some entry ↔
      r.other ≠ r.dst ∧ ∀ r' ∈ rs, r'.other ≠ r.dst := by
  show (t.redirectTo r).redirectAll rs r.dst = some entry ↔ _
  rw [redirectAll_other h, redirectTo_dst hown]
  by_cases hrest : r.dst ∈ rs.map Redirection.other
  · obtain ⟨r', hr', heq⟩ := List.mem_map.mp hrest
    rw [if_pos hrest]
    exact iff_of_false (fun h ↦ nomatch h) fun h ↦ h.2 r' hr' heq
  · have hnone : ∀ r' ∈ rs, r'.other ≠ r.dst :=
      fun r' hr' heq ↦ hrest (List.mem_map.mpr ⟨r', hr', heq⟩)
    rw [if_neg hrest, and_iff_left hnone]
    by_cases hself : r.dst = r.other
    · rw [if_pos hself]
      exact iff_of_false (fun h ↦ nomatch h) fun h ↦ h hself.symm
    · rw [if_neg hself]
      exact iff_of_true rfl (Ne.symm hself)

/-- The sources of a list of redirections are open, each under one number only. -/
def Sources (t : Table α) (rs : List Redirection) : Prop :=
  ∀ r ∈ rs, ∃ entry, t r.own = some entry ∧ ∀ x, t x = some entry → x = r.own

/-- No two redirections have the same number to go to, and none closes or shares another's source. -/
def Separate (rs : List Redirection) : Prop :=
  rs.Pairwise fun r r' ↦ r.dst ≠ r'.dst ∧ r.own ≠ r'.own ∧ r.other ≠ r'.own

-- The source of a later redirection survives where it is not overwritten.
theorem redirectTo_own {r' : Redirection} (hsep : Separate (r :: rs)) (hr' : r' ∈ rs)
    (hfree : r'.own ≠ r.dst) : t.redirectTo r r'.own = t r'.own := by
  rw [redirectTo_of_ne hfree, if_neg ((List.pairwise_cons.mp hsep).1 r' hr').2.2.symm]

section

variable {r' : Redirection} (hsources : t.Sources (r :: rs)) (hsep : Separate (r :: rs))

include hsources hsep

-- It is left at most where it was, and not where this one goes to.
theorem Sources.of_redirectTo (hr' : r' ∈ rs) (hentry : t r'.own = some entry)
    (h : t.redirectTo r x = some entry) : x ≠ r.dst ∧ x = r'.own := by
  obtain ⟨⟨moved, hown, -⟩, hrest⟩ := List.forall_mem_cons.mp hsources
  obtain ⟨entry', hentry', hunique⟩ := hrest r' hr'
  obtain rfl : entry = entry' := Option.some.inj (hentry.symm.trans hentry')
  have hne : entry ≠ moved := by
    rintro rfl
    exact ((List.pairwise_cons.mp hsep).1 r' hr').2.1 (hunique r.own hown)
  obtain ⟨hxdst, hx⟩ := Table.of_redirectTo hown hne h
  exact ⟨hxdst, hunique x hx⟩

theorem Sources.redirectTo (hfree : ∀ r' ∈ rs, r'.own ≠ r.dst) : (t.redirectTo r).Sources rs := by
  intro r' hr'
  obtain ⟨entry, hentry, -⟩ := (List.forall_mem_cons.mp hsources).2 r' hr'
  refine ⟨entry, (redirectTo_own hsep hr' (hfree r' hr')).trans hentry, fun x hx ↦ ?_⟩
  exact (hsources.of_redirectTo hsep hr' hentry hx).2

-- A source that is overwritten is lost.
theorem Sources.own_ne_dst (hr' : r' ∈ rs) (h : t.redirectAll (r :: rs) r'.dst = t r'.own) :
    r'.own ≠ r.dst := by
  intro heq
  obtain ⟨entry, hentry, -⟩ := (List.forall_mem_cons.mp hsources).2 r' hr'
  have hhas : ((t.redirectTo r).redirectAll rs).Has entry := ⟨r'.dst, h.trans hentry⟩
  obtain ⟨x, hx⟩ := hhas.of_redirectAll
  obtain ⟨hxdst, hxown⟩ := hsources.of_redirectTo hsep hr' hentry hx
  exact hxdst (hxown.trans heq)

end

/-- Redirections made one after another all bring their sources to their numbers precisely if they do not
disturb each other. -/
theorem redirectAll_iff (hsources : t.Sources rs) (hsep : Separate rs) :
    (∀ r ∈ rs, t.redirectAll rs r.dst = t r.own) ↔ Undisturbed rs := by
  induction rs generalizing t with
  | nil => exact iff_of_true (fun _ h ↦ nomatch h) ⟨fun _ h ↦ (nomatch h), .nil⟩
  | cons r rs ih =>
    obtain ⟨⟨entry, hown, -⟩, -⟩ := List.forall_mem_cons.mp hsources
    obtain ⟨hpair, hseps⟩ := List.pairwise_cons.mp hsep
    have hdst : r.dst ∉ rs.map Redirection.dst := by
      intro hmem
      obtain ⟨r', hr', heq⟩ := List.mem_map.mp hmem
      exact (hpair r' hr').1 heq.symm
    have hnext : (∀ r' ∈ rs, r'.own ≠ r.dst) →
        ((∀ r' ∈ rs, t.redirectAll (r :: rs) r'.dst = t r'.own) ↔ Undisturbed rs) := by
      intro hfree
      rw [← ih (hsources.redirectTo hsep hfree) hseps]
      refine forall₂_congr fun r' hr' ↦ ?_
      rw [redirectTo_own hsep hr' (hfree r' hr')]
      rfl
    rw [List.forall_mem_cons, hown, redirectAll_dst hown hdst]
    constructor
    · rintro ⟨⟨hself, hothers⟩, hfinal⟩
      have hfree : ∀ r' ∈ rs, r'.own ≠ r.dst :=
        fun r' hr' ↦ hsources.own_ne_dst hsep hr' (hfinal r' hr')
      obtain ⟨hselves, hpairs⟩ := (hnext hfree).mp hfinal
      exact ⟨List.forall_mem_cons.mpr ⟨hself, hselves⟩,
        List.pairwise_cons.mpr ⟨fun r' hr' ↦ ⟨hothers r' hr', hfree r' hr'⟩, hpairs⟩⟩
    · rintro ⟨hselves, hpairs⟩
      obtain ⟨hself, hselves⟩ := List.forall_mem_cons.mp hselves
      obtain ⟨hfirst, hpairs⟩ := List.pairwise_cons.mp hpairs
      exact ⟨⟨hself, fun r' hr' ↦ (hfirst r' hr').1⟩,
        (hnext fun r' hr' ↦ (hfirst r' hr').2).mpr ⟨hselves, hpairs⟩⟩

end Table

end DescriptorTable
