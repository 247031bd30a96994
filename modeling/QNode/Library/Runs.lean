/-!
# Runs of a step function

Rules for whole runs.  For a partial step function, a property of every step of a run is
equivalent to a condition on every state before a step, as soon as the equivalence holds for one
step from an invariant state.  For a total one, a relation kept by each step holds between the ends of
a run.  Runs that lead from state to state compose.
-/

namespace Runs

variable {σ ε : Type}

section Function

variable (step : σ → ε → Option σ)

/-- Every step of the run is defined and satisfies `P`. -/
def Along (P : σ → ε → σ → Prop) : σ → List ε → Prop
  | _, [] => True
  | s, e :: es => ∃ s', step s e = some s' ∧ P s e s' ∧ Along P s' es

/-- Every step of the run starts in a state where `C` allows it. -/
def Guarded (C : σ → ε → Prop) : σ → List ε → Prop
  | _, [] => True
  | s, e :: es => C s e ∧ ∀ s', step s e = some s' → Guarded C s' es

variable {step} {P : σ → ε → σ → Prop} {C : σ → ε → Prop} {I : σ → Prop}

theorem Along.of_guarded
    (hkeep : ∀ s e, I s → C s e → ∃ s', step s e = some s' ∧ P s e s' ∧ I s')
    {s : σ} {es : List ε} (hs : I s) (h : Guarded step C s es) : Along step P s es := by
  induction es generalizing s with
  | nil => trivial
  | cons e es ih =>
    obtain ⟨hc, hrest⟩ := h
    obtain ⟨s', hstep, hp, hinv⟩ := hkeep s e hs hc
    exact ⟨s', hstep, hp, ih hinv (hrest s' hstep)⟩

-- The exact condition: when a step from an invariant state satisfies `P` precisely if the guard
-- allows it, a run satisfies `P` throughout precisely if it is guarded throughout.
theorem along_iff_guarded
    (hkeep : ∀ s e, I s → C s e → ∃ s', step s e = some s' ∧ P s e s' ∧ I s')
    (hneed : ∀ s e s', I s → step s e = some s' → P s e s' → C s e)
    {s : σ} {es : List ε} (hs : I s) : Along step P s es ↔ Guarded step C s es := by
  refine ⟨fun h ↦ ?_, Along.of_guarded hkeep hs⟩
  induction es generalizing s with
  | nil => trivial
  | cons e es ih =>
    obtain ⟨s', hstep, hp, hrest⟩ := h
    have hc := hneed s e s' hs hstep hp
    obtain ⟨s'', hstep', -, hinv⟩ := hkeep s e hs hc
    refine ⟨hc, fun t ht ↦ ?_⟩
    obtain rfl : s'' = t := Option.some.inj (hstep'.symm.trans ht)
    obtain rfl : s'' = s' := Option.some.inj (hstep'.symm.trans hstep)
    exact ih hinv hrest

-- Two conditions that agree in the invariant states hold in the same runs, as soon as a step that meets
-- them keeps the invariant.
theorem guarded_iff_guarded {D : σ → ε → Prop} (hiff : ∀ s e, I s → (C s e ↔ D s e))
    (hkeep : ∀ s e s', I s → C s e → step s e = some s' → I s')
    {s : σ} {es : List ε} (hs : I s) : Guarded step C s es ↔ Guarded step D s es := by
  induction es generalizing s with
  | nil => exact Iff.rfl
  | cons e es ih =>
    rw [Guarded, Guarded, ← hiff s e hs]
    exact and_congr_right fun hc ↦ forall_congr' fun s' ↦ imp_congr_right fun hstep ↦
      ih (hkeep s e s' hs hc hstep)

end Function

theorem guarded_total_cons {f : σ → ε → σ} {C : σ → ε → Prop} {s : σ} {e : ε} {es : List ε} :
    Guarded (fun s e ↦ some (f s e)) C s (e :: es) ↔
      C s e ∧ Guarded (fun s e ↦ some (f s e)) C (f s e) es := by
  simp [Guarded]

-- What every step of a loop over a list keeps, the loop keeps.
theorem foldl_keeps {R : σ → σ → Prop} (hrefl : ∀ s, R s s)
    (htrans : ∀ s t u, R s t → R t u → R s u) {f : σ → ε → σ} (hstep : ∀ s e, R s (f s e))
    (s : σ) (es : List ε) : R s (es.foldl f s) := by
  induction es generalizing s with
  | nil => exact hrefl s
  | cons e es ih => exact htrans _ _ _ (hstep s e) (ih (f s e))

/-- Some run leads from `s` to a state with `Q`. -/
def Leads (f : σ → ε → σ) (s : σ) (Q : σ → Prop) : Prop := ∃ es : List ε, Q (es.foldl f s)

section

variable {f : σ → ε → σ} {s : σ} {Q Q' : σ → Prop}

theorem Leads.here (h : Q s) : Leads f s Q := ⟨[], h⟩

theorem Leads.trans (h : Leads f s Q) (h' : ∀ t, Q t → Leads f t Q') : Leads f s Q' := by
  obtain ⟨es, hes⟩ := h
  obtain ⟨es', hes'⟩ := h' _ hes
  refine ⟨es ++ es', ?_⟩
  rw [List.foldl_append]
  exact hes'

theorem Leads.step (e : ε) (h : Q (f s e)) : Leads f s Q := ⟨[e], h⟩

-- A loop whose every round some run does.
theorem Leads.foldl {α τ : Type} {P : τ → σ → Prop} {g : τ → α → τ} {xs : List α}
    (hround : ∀ t, ∀ x ∈ xs, ∀ s, P t s → Leads f s (P (g t x))) {t : τ} (h : P t s) :
    Leads f s (P (xs.foldl g t)) := by
  induction xs generalizing s t with
  | nil => exact Leads.here h
  | cons x xs ih =>
    exact (hround t x List.mem_cons_self s h).trans fun _ ↦
      ih fun t x hx ↦ hround t x (List.mem_cons_of_mem _ hx)

end

end Runs
