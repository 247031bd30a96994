import Mathlib.Data.List.Basic

/-!
# Keeping chunks up to a limit

A reader gets a stream in chunks and keeps each chunk that still fits under a limit.  A history is
the list of the chunks with the decisions.  Greedy keeping leaves a hole precisely if a later chunk
fits after an earlier one did not.
-/

namespace Chunks

variable {α : Type}

/-- All elements read. -/
def all : List (List α × Bool) → List α
  | [] => []
  | (chunk, _) :: rest => chunk ++ all rest

/-- The elements kept. -/
def kept : List (List α × Bool) → List α
  | [] => []
  | (chunk, keep) :: rest => (if keep then chunk else []) ++ kept rest

/-- Every chunk is kept precisely if it fits after what is kept already. -/
def Greedy (limit : Nat) : Nat → List (List α × Bool) → Prop
  | _, [] => True
  | len, (chunk, keep) :: rest =>
    keep = decide (len + chunk.length ≤ limit) ∧
      Greedy limit (if keep then len + chunk.length else len) rest

/-- No chunk is kept after one that was dropped. -/
def Closed (history : List (List α × Bool)) : Prop :=
  history.Pairwise fun earlier later ↦ earlier.2 = false → later.2 = false

/-- After the first size that does not fit, none does. -/
def NoLateFit (limit : Nat) : Nat → List Nat → Prop
  | _, [] => True
  | len, size :: sizes =>
    if len + size ≤ limit then NoLateFit limit (len + size) sizes
    else ∀ later ∈ sizes, limit < len + later

def sizes (history : List (List α × Bool)) : List Nat := history.map fun read ↦ read.1.length

theorem all_append (history : List (List α × Bool)) (chunk : List α) (keep : Bool) :
    all (history ++ [(chunk, keep)]) = all history ++ chunk := by
  induction history with
  | nil => exact List.append_nil chunk
  | cons read rest ih =>
    rw [List.cons_append, all, all, ih, List.append_assoc]

theorem kept_append (history : List (List α × Bool)) (chunk : List α) (keep : Bool) :
    kept (history ++ [(chunk, keep)]) = kept history ++ (if keep then chunk else []) := by
  induction history with
  | nil => exact List.append_nil _
  | cons read rest ih =>
    rw [List.cons_append, kept, kept, ih, List.append_assoc]

theorem Greedy.append {limit len : Nat} {history : List (List α × Bool)} {chunk : List α}
    {keep : Bool} (h : Greedy limit len history)
    (hkeep : keep = decide (len + (kept history).length + chunk.length ≤ limit)) :
    Greedy limit len (history ++ [(chunk, keep)]) := by
  induction history generalizing len with
  | nil => exact ⟨hkeep, trivial⟩
  | cons read rest ih =>
    obtain ⟨hread, hrest⟩ := h
    refine ⟨hread, ih hrest ?_⟩
    rw [hkeep, kept, List.length_append]
    cases read.2 with
    | false => rw [if_neg (by decide), if_neg (by decide), List.length_nil, Nat.zero_add]
    | true => rw [if_pos rfl, if_pos rfl, ← Nat.add_assoc len]

-- While nothing is kept the limit stays where it is.
theorem Greedy.dropped_iff {limit len : Nat} {history : List (List α × Bool)}
    (h : Greedy limit len history) :
    (∀ read ∈ history, read.2 = false) ↔ ∀ size ∈ sizes history, limit < len + size := by
  induction history with
  | nil =>
    constructor
    · intro _ size hsize
      exact absurd hsize List.not_mem_nil
    · intro _ read hread
      exact absurd hread List.not_mem_nil
  | cons read rest ih =>
    obtain ⟨chunk, keep⟩ := read
    obtain ⟨rfl, hrest⟩ := h
    rw [sizes, List.map_cons, List.forall_mem_cons, List.forall_mem_cons, decide_eq_false_iff_not,
      Nat.not_le]
    apply and_congr_right
    intro hlarge
    rw [if_neg (by simpa using hlarge)] at hrest
    exact ih hrest

theorem closed_cons_kept {chunk : List α} {rest : List (List α × Bool)} :
    Closed ((chunk, true) :: rest) ↔ Closed rest := by
  unfold Closed
  rw [List.pairwise_cons]
  exact and_iff_right fun _ _ h ↦ Bool.noConfusion h

theorem closed_cons_dropped {chunk : List α} {rest : List (List α × Bool)} :
    Closed ((chunk, false) :: rest) ↔ ∀ read ∈ rest, read.2 = false := by
  unfold Closed
  rw [List.pairwise_cons]
  constructor
  · intro h read hread
    exact h.1 read hread rfl
  · intro h
    constructor
    · intro read hread _
      exact h read hread
    · apply List.pairwise_of_forall_mem_list
      intro _ _ read hread _
      exact h read hread

-- Greedy keeping leaves no hole precisely if the sizes allow none.
theorem Greedy.closed_iff {limit len : Nat} {history : List (List α × Bool)}
    (h : Greedy limit len history) : Closed history ↔ NoLateFit limit len (sizes history) := by
  induction history generalizing len with
  | nil => exact ⟨fun _ ↦ trivial, fun _ ↦ List.Pairwise.nil⟩
  | cons read rest ih =>
    obtain ⟨chunk, keep⟩ := read
    obtain ⟨hkeep, hrest⟩ := h
    have hsizes : sizes ((chunk, keep) :: rest) = chunk.length :: sizes rest := rfl
    rw [hsizes, NoLateFit]
    by_cases hfit : len + chunk.length ≤ limit
    · rw [hkeep, decide_eq_true hfit, if_pos rfl] at hrest
      rw [hkeep, decide_eq_true hfit, if_pos hfit, closed_cons_kept]
      exact ih hrest
    · rw [hkeep, decide_eq_false hfit, if_neg (by decide)] at hrest
      rw [hkeep, decide_eq_false hfit, if_neg hfit, closed_cons_dropped]
      exact hrest.dropped_iff

theorem kept_eq_nil {history : List (List α × Bool)} (h : ∀ read ∈ history, read.2 = false) :
    kept history = [] := by
  induction history with
  | nil => rfl
  | cons read rest ih =>
    rw [List.forall_mem_cons] at h
    rw [kept, h.1, if_neg (by decide), List.nil_append]
    exact ih h.2

-- Without a hole, what is kept is a prefix of what was read.
theorem Closed.kept_prefix {history : List (List α × Bool)} (h : Closed history) :
    kept history <+: all history := by
  induction history with
  | nil => exact List.prefix_refl []
  | cons read rest ih =>
    obtain ⟨chunk, keep⟩ := read
    cases keep with
    | false =>
      rw [closed_cons_dropped] at h
      rw [kept, kept_eq_nil h]
      exact List.nil_prefix
    | true =>
      rw [closed_cons_kept] at h
      exact List.prefix_append_right_inj chunk |>.mpr (ih h)

-- A stream within the limit is kept whole.
theorem Greedy.keeps_all {limit len : Nat} {history : List (List α × Bool)}
    (h : Greedy limit len history) (hsmall : len + (all history).length ≤ limit) :
    kept history = all history ∧ ∀ read ∈ history, read.2 = true := by
  induction history generalizing len with
  | nil => exact ⟨rfl, fun _ hread ↦ absurd hread List.not_mem_nil⟩
  | cons read rest ih =>
    obtain ⟨chunk, keep⟩ := read
    obtain ⟨hkeep, hrest⟩ := h
    rw [all, List.length_append] at hsmall
    rw [decide_eq_true (by omega)] at hkeep
    subst hkeep
    obtain ⟨hkept, htrue⟩ := ih hrest (by rw [if_pos rfl]; omega)
    refine ⟨?_, List.forall_mem_cons.mpr ⟨rfl, htrue⟩⟩
    rw [kept, all, hkept, if_pos rfl]

end Chunks
