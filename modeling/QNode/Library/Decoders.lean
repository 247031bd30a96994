import Mathlib.Data.List.Chain
import Mathlib.Data.List.Infix

/-!
# Decoders that restart

A decoder works from left to right: a step turns the first symbol and some of the symbols after it
into output.  The results say when decoding the pieces of an input one by one gives the decoding of
the whole: if the cuts lie between two steps, and conversely unless a mark that steps cut in two leave
in the output hides the difference.
-/

structure Decoder (α β : Type) where
  step : α → List α → List β × List α
  suffix : ∀ a p, (step a p).2 <:+ p

namespace Decoder

variable {α β : Type} (d : Decoder α β)

theorem length_rest_le (a : α) (p : List α) : (d.step a p).2.length ≤ p.length :=
  (d.suffix a p).length_le

def decode (d : Decoder α β) : List α → List β
  | [] => []
  | a :: p => (d.step a p).1 ++ d.decode (d.step a p).2
termination_by p => p.length
decreasing_by exact Nat.lt_succ_of_le (d.length_rest_le a p)

theorem decode_nil : d.decode [] = [] := by rw [decode]

theorem decode_cons (a : α) (p : List α) :
    d.decode (a :: p) = (d.step a p).1 ++ d.decode (d.step a p).2 := by rw [decode]

/-- Decoding `p`, the decoder stands at the suffix `r` between two steps. -/
inductive Reaches : List α → List α → Prop
  | refl (p : List α) : Reaches p p
  | step {a : α} {p r : List α} (h : Reaches (d.step a p).2 r) : Reaches (a :: p) r

/-- A step that ends inside a piece goes the same way without what comes after the piece. -/
def Local : Prop :=
  ∀ a u v r, (d.step a (u ++ v)).2 = r ++ v → d.step a u = ((d.step a (u ++ v)).1, r)

/-- A step that a cut divides leaves the mark. -/
def Marked (mark : β) : Prop :=
  ∀ a u v, ¬(v <:+ (d.step a (u ++ v)).2) → mark ∈ (d.step a u).1

/-- A step that takes more than one symbol puts out less than it takes. -/
structure Shrinking : Prop where
  single : ∀ a, (d.step a []).1.length = 1
  shrink : ∀ a p, (d.step a p).2 ≠ p → (d.step a p).1.length + (d.step a p).2.length < p.length + 1

variable {d}

/-! ## Where the decoder stands -/

theorem Reaches.suffix {p r : List α} (h : d.Reaches p r) : r <:+ p := by
  induction h with
  | refl p => exact List.suffix_rfl
  | step h ih => exact (ih.trans (d.suffix _ _)).trans (List.suffix_cons _ _)

theorem Reaches.trans {p q r : List α} (h : d.Reaches p q) (h' : d.Reaches q r) : d.Reaches p r := by
  induction h with
  | refl p => exact h'
  | step h ih => exact .step (ih h')

-- The places where the decoder stands are in a row.
theorem Reaches.of_length_le {p q r : List α} (hq : d.Reaches p q) (hr : d.Reaches p r)
    (hlen : r.length ≤ q.length) : d.Reaches q r := by
  induction hq with
  | refl p => exact hr
  | @step a p q hq ih =>
    cases hr with
    | refl =>
      have hsuffix := hq.suffix.length_le
      have hrest := d.length_rest_le a p
      simp only [List.length_cons] at hlen
      omega
    | step hr => exact ih hr hlen

theorem decode_append (hlocal : d.Local) {u v : List α} (h : d.Reaches (u ++ v) v) :
    d.decode (u ++ v) = d.decode u ++ d.decode v := by
  generalize hw : u ++ v = w at h
  induction h generalizing u with
  | refl p =>
    have hu : u = [] := List.append_left_eq_self.mp hw
    rw [← hw, hu, decode_nil, List.nil_append, List.nil_append]
  | @step a p v h ih =>
    cases u with
    | nil =>
      rw [List.nil_append] at hw
      have hlen := h.suffix.length_le
      have hrest := d.length_rest_le a p
      rw [hw, List.length_cons] at hlen
      omega
    | cons b u =>
      rw [List.cons_append] at hw
      obtain ⟨rfl, rfl⟩ := List.cons.inj hw
      obtain ⟨r, hr⟩ := h.suffix
      have hstep := hlocal b u v r hr.symm
      have hrest : d.decode (d.step b (u ++ v)).2 = d.decode r ++ d.decode v := ih hr
      rw [decode_cons, decode_cons, hstep, hrest, List.append_assoc]

/-! ## Pieces -/

variable (d) in
/-- Every cut lies where the decoder of the whole stands between two steps. -/
def AtBoundaries (pieces : List (List α)) : Prop :=
  ∀ before after, pieces = before ++ after → d.Reaches pieces.flatten after.flatten

theorem atBoundaries_nil : d.AtBoundaries [] := by
  intro before after h
  rw [(List.append_eq_nil_iff.mp h.symm).2]
  exact .refl _

theorem atBoundaries_cons {piece : List α} {pieces : List (List α)} :
    d.AtBoundaries (piece :: pieces) ↔
      d.Reaches (piece ++ pieces.flatten) pieces.flatten ∧ d.AtBoundaries pieces := by
  constructor
  · intro h
    have hfirst : d.Reaches (piece ++ pieces.flatten) pieces.flatten := h [piece] pieces rfl
    refine ⟨hfirst, fun before after hsplit ↦ ?_⟩
    have hlater : d.Reaches (piece ++ pieces.flatten) after.flatten :=
      h (piece :: before) after (by rw [hsplit, List.cons_append])
    apply hfirst.of_length_le hlater
    rw [hsplit, List.flatten_append, List.length_append]
    exact Nat.le_add_left _ _
  · intro ⟨hfirst, hrest⟩ before after hsplit
    cases before with
    | nil =>
      rw [← show piece :: pieces = after from hsplit]
      exact .refl _
    | cons b before =>
      obtain ⟨-, hsplit⟩ := List.cons.inj hsplit
      exact hfirst.trans (hrest before after hsplit)

theorem decode_flatten (hlocal : d.Local) {pieces : List (List α)} (h : d.AtBoundaries pieces) :
    d.decode pieces.flatten = (pieces.map d.decode).flatten := by
  induction pieces with
  | nil => exact decode_nil d
  | cons piece pieces ih =>
    obtain ⟨hfirst, hrest⟩ := atBoundaries_cons.mp h
    rw [List.flatten_cons, decode_append hlocal hfirst, ih hrest, List.map_cons, List.flatten_cons]

-- Either the decoder of the whole passes the cut between two steps, or the first piece shows a mark.
theorem reaches_or_mark (hlocal : d.Local) {mark : β} (hmarked : d.Marked mark) (u v : List α) :
    d.Reaches (u ++ v) v ∨ mark ∈ d.decode u := by
  induction hn : u.length using Nat.strongRecOn generalizing u with
  | _ n ih =>
    cases u with
    | nil => exact .inl (.refl v)
    | cons a u =>
      rw [decode_cons]
      by_cases hsuffix : v <:+ (d.step a (u ++ v)).2
      · obtain ⟨r, hr⟩ := hsuffix
        have hstep := hlocal a u v r hr.symm
        have hlen : r.length < n := by
          have hrest := d.length_rest_le a u
          rw [hstep] at hrest
          rw [← hn, List.length_cons]
          exact Nat.lt_succ_of_le hrest
        rw [hstep]
        rcases ih r.length hlen r rfl with h | h
        · rw [hr] at h
          exact .inl (.step h)
        · exact .inr (List.mem_append_right _ h)
      · exact .inr (List.mem_append_left _ (hmarked a u v hsuffix))

-- In an output without marks the pieces agree with the whole only if every cut lies at a boundary.
theorem atBoundaries_of_agree (hlocal : d.Local) {mark : β} (hmarked : d.Marked mark)
    {pieces : List (List α)} (hmark : mark ∉ d.decode pieces.flatten)
    (h : d.decode pieces.flatten = (pieces.map d.decode).flatten) : d.AtBoundaries pieces := by
  induction pieces with
  | nil => exact atBoundaries_nil
  | cons piece pieces ih =>
    rw [List.flatten_cons] at h hmark
    rw [List.map_cons, List.flatten_cons] at h
    have hfirst : d.Reaches (piece ++ pieces.flatten) pieces.flatten := by
      apply (reaches_or_mark hlocal hmarked piece pieces.flatten).resolve_right
      intro hmem
      rw [h] at hmark
      exact hmark (List.mem_append_left _ hmem)
    rw [decode_append hlocal hfirst] at h hmark
    have hrest := ih (fun hmem ↦ hmark (List.mem_append_right _ hmem)) (List.append_cancel_left h)
    exact atBoundaries_cons.mpr ⟨hfirst, hrest⟩

/-! ## Inputs that may be cut anywhere -/

variable (d) in
/-- Every step takes one symbol. -/
def OneByOne (p : List α) : Prop := ∀ a r, d.Reaches p (a :: r) → (d.step a r).2 = r

theorem OneByOne.cons {a : α} {p : List α} :
    d.OneByOne (a :: p) ↔ (d.step a p).2 = p ∧ d.OneByOne p := by
  constructor
  · intro h
    have hfirst : (d.step a p).2 = p := h a p (.refl _)
    refine ⟨hfirst, fun b r hr ↦ h b r (.step ?_)⟩
    rw [hfirst]
    exact hr
  · intro ⟨hfirst, hrest⟩ b r hr
    cases hr with
    | refl => exact hfirst
    | step hr =>
      rw [hfirst] at hr
      exact hrest b r hr

-- Whether a step takes one symbol only can be seen from two symbols in a row.
theorem oneByOne_iff_isChain {R : α → α → Prop}
    (hR : ∀ a p, (d.step a p).2 = p ↔ ∀ b ∈ p.head?, R a b) (p : List α) :
    d.OneByOne p ↔ p.IsChain R := by
  induction p with
  | nil =>
    apply iff_of_true _ .nil
    intro a r h
    exact absurd h.suffix.length_le (by simp)
  | cons a p ih => rw [OneByOne.cons, List.isChain_cons, hR, ih]

theorem OneByOne.reaches {p v : List α} (h : d.OneByOne p) (hv : v <:+ p) : d.Reaches p v := by
  induction p with
  | nil =>
    rw [List.suffix_nil.mp hv]
    exact .refl _
  | cons a p ih =>
    obtain ⟨hfirst, hrest⟩ := OneByOne.cons.mp h
    rcases List.suffix_cons_iff.mp hv with rfl | hv
    · exact .refl _
    · apply Reaches.step
      rw [hfirst]
      exact ih hrest hv

theorem OneByOne.atBoundaries {pieces : List (List α)} (h : d.OneByOne pieces.flatten) :
    d.AtBoundaries pieces := by
  intro before after hsplit
  apply h.reaches
  rw [hsplit, List.flatten_append]
  exact List.suffix_append _ _

theorem length_step (hlocal : d.Local) (hshrink : d.Shrinking) {a : α} {p : List α}
    (h : (d.step a p).2 = p) : (d.step a p).1.length = 1 := by
  have hstep := hlocal a [] p [] h
  have hsingle := hshrink.single a
  rw [hstep] at hsingle
  exact hsingle

theorem length_decode_le (hlocal : d.Local) (hshrink : d.Shrinking) (p : List α) :
    (d.decode p).length ≤ p.length := by
  induction hn : p.length using Nat.strongRecOn generalizing p with
  | _ n ih =>
    cases p with
    | nil => simp [decode_nil]
    | cons a p =>
      have hlen := d.length_rest_le a p
      rw [List.length_cons] at hn
      have hrest := ih _ (by omega) (d.step a p).2 rfl
      rw [decode_cons, List.length_append]
      by_cases hone : (d.step a p).2 = p
      · have hstep := length_step hlocal hshrink hone
        omega
      · have hstep := hshrink.shrink a p hone
        omega

theorem oneByOne_of_length (hlocal : d.Local) (hshrink : d.Shrinking) {p : List α}
    (h : (d.decode p).length = p.length) : d.OneByOne p := by
  induction p with
  | nil =>
    intro a r hr
    exact absurd hr.suffix.length_le (by simp)
  | cons a p ih =>
    rw [decode_cons, List.length_append, List.length_cons] at h
    have hrest := length_decode_le hlocal hshrink (d.step a p).2
    have hone : (d.step a p).2 = p := by
      by_contra hne
      have hstep := hshrink.shrink a p hne
      omega
    have hstep := length_step hlocal hshrink hone
    rw [hone] at h
    exact OneByOne.cons.mpr ⟨hone, ih (by omega)⟩

theorem length_decode_singletons (hshrink : d.Shrinking) (p : List α) :
    ((p.map fun a ↦ [a]).map d.decode).flatten.length = p.length := by
  induction p with
  | nil => rfl
  | cons a p ih =>
    have hrest : (d.step a []).2 = [] := List.suffix_nil.mp (d.suffix a [])
    rw [List.map_cons, List.map_cons, List.flatten_cons, List.length_append, ih, decode_cons, hrest,
      decode_nil, List.append_nil, hshrink.single, List.length_cons, Nat.add_comm]

-- An input may be cut anywhere precisely if its symbols are decoded one by one.
theorem agree_all_iff (hlocal : d.Local) (hshrink : d.Shrinking)
    (Allowed : List α → Prop) (hsingle : ∀ a, Allowed [a]) (p : List α) :
    (∀ pieces : List (List α), pieces.flatten = p → (∀ piece ∈ pieces, Allowed piece) →
      d.decode p = (pieces.map d.decode).flatten) ↔ d.OneByOne p := by
  constructor
  · intro h
    have hall := h (p.map fun a ↦ [a]) (by simp [← List.flatMap_def]) fun piece hmem ↦ by
      obtain ⟨a, -, rfl⟩ := List.mem_map.mp hmem
      exact hsingle a
    apply oneByOne_of_length hlocal hshrink
    rw [hall, length_decode_singletons hshrink]
  · intro h pieces hpieces _
    rw [← hpieces] at h ⊢
    exact decode_flatten hlocal h.atBoundaries

end Decoder
