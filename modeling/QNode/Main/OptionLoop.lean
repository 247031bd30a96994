import QNode.Main.Options

/-!
# The turns of the option loops

Every turn looks at elements that there are and at characters up to their NUL, and comes nearer to the
end.
-/

open QNode.Buffer Halting

namespace QNode.Main

/-- What an option does with the text and the elements behind it. -/
inductive OptKind
  /-- The process exits. -/
  | quits
  | flag
  /-- The next element is its value. -/
  | value
  /-- Its value is the rest of its own element, or else the next element. -/
  | text
  deriving DecidableEq

def Opt.kind : Opt → OptKind
  | help => .quits
  | eval => .text
  | includeFile | memoryLimit | stackSize => .value
  | interactive | module | script | strict | dump | trace | std | noUnhandledRejection | quit
  | stripDebug | stripSource => .flag

/-! ## The text of the elements -/

section

variable {argv : ArgVector} {p : Pointer}

theorem noNul_text (argv : ArgVector) (i : Nat) : 0 ∉ argv.text i := by
  unfold ArgVector.text
  split
  next arg _ => exact arg.noNul
  next => exact List.not_mem_nil

theorem text_eq {i : Nat} {arg : Argument} (h : argv.elements[i]? = some arg) :
    argv.text i = arg.chars := by
  rw [ArgVector.text, h]

theorem char_eq_zero_iff : argv.char p = 0 ↔ argv.string p = [] := by
  have hnot : 0 ∉ argv.string p := fun hmem ↦ noNul_text argv p.index (List.mem_of_mem_drop hmem)
  unfold ArgVector.char
  cases hstring : argv.string p with
  | nil => exact iff_of_true rfl rfl
  | cons c cs =>
    rw [hstring, List.mem_cons, not_or] at hnot
    exact iff_of_false (Ne.symm hnot.1) (List.cons_ne_nil _ _)

theorem char_of_cons {c : UInt8} {cs : List UInt8} (h : argv.string p = c :: cs) :
    argv.char p = c := by
  rw [ArgVector.char, h, List.headD_cons]

theorem string_succ {c : UInt8} {cs : List UInt8} (h : argv.string p = c :: cs) :
    argv.string ⟨p.index, p.offset + 1⟩ = cs := by
  have hdrop : argv.string ⟨p.index, p.offset + 1⟩ = (argv.string p).drop 1 :=
    (List.drop_drop ..).symm
  rw [hdrop, h, List.drop_one, List.tail_cons]

-- A character is there, or it is the NUL.
theorem offset_lt_of_cons {c : UInt8} {cs : List UInt8} (h : argv.string p = c :: cs) :
    p.offset < (argv.text p.index).length := by
  by_contra hlong
  rw [ArgVector.string, List.drop_eq_nil_of_le (Nat.le_of_not_lt hlong)] at h
  cases h

end

/-! ## Looking inside the command line -/

/-- An element that there is, or a character of one up to its NUL. -/
def Access.InBounds (argv : ArgVector) : Access → Prop
  | .element i => i < argv.argc
  | .char p => p.index < argv.argc ∧ p.offset ≤ (argv.text p.index).length

theorem charsUpTo_inBounds {argv : ArgVector} {p : Pointer} {n : Nat} (hindex : p.index < argv.argc)
    (hn : p.offset + n ≤ (argv.text p.index).length) :
    ∀ access ∈ charsUpTo p n, access.InBounds argv := by
  intro access haccess
  obtain ⟨k, hk, rfl⟩ := List.mem_map.mp haccess
  have hlt := List.mem_range.mp hk
  refine ⟨hindex, ?_⟩
  dsimp only
  omega

theorem compared_le (s t : List UInt8) : compared s t ≤ s.length := by
  induction s generalizing t with
  | nil => exact Nat.le_refl 0
  | cons c s ih =>
    cases t with
    | nil => exact Nat.zero_le _
    | cons d t =>
      rw [compared]
      split
      · exact Nat.succ_le_succ (ih t)
      · exact Nat.zero_le _

/-- What holds in every state of the loops. -/
structure Scan.Within (argv : ArgVector) (st : Scan) : Prop where
  accesses : ∀ access ∈ st.accesses, access.InBounds argv
  includes : st.settings.includeList.length ≤ includeMax
  pos : 1 ≤ st.optind
  le : st.optind ≤ argv.argc

section

variable {argv : ArgVector} {strtod : Strtod} {st : Scan}

theorem Scan.Within.look (h : st.Within argv) {accesses : List Access}
    (hnew : ∀ access ∈ accesses, access.InBounds argv) : (st.look accesses).Within argv := by
  refine ⟨fun access haccess ↦ ?_, h.includes, h.pos, h.le⟩
  rcases List.mem_append.mp haccess with hold | hadded
  · exact h.accesses access hold
  · exact hnew access hadded

theorem Scan.Within.take (h : st.Within argv) (hlt : st.optind < argv.argc) :
    st.take.Within argv := by
  refine ⟨fun access haccess ↦ ?_, h.includes, Nat.le_succ_of_le h.pos, hlt⟩
  rcases List.mem_append.mp haccess with hold | hadded
  · exact h.accesses access hold
  · rw [List.mem_singleton.mp hadded]
    exact hlt

theorem Scan.Within.exit (h : st.Within argv) (code : Nat) : (st.exit code).Within argv :=
  ⟨h.accesses, h.includes, h.pos, h.le⟩

theorem Scan.Within.next (h : st.Within argv) {settings : Settings}
    (hincludes : settings.includeList.length ≤ includeMax) : (st.next settings).Within argv :=
  ⟨h.accesses, hincludes, h.pos, h.le⟩

theorem Scan.Within.leave (h : st.Within argv) {settings : Settings}
    (hincludes : settings.includeList.length ≤ includeMax) : (st.leave settings).Within argv :=
  ⟨h.accesses, hincludes, h.pos, h.le⟩

theorem sizeOption_within (h : st.Within argv) {set : Nat → Settings}
    (hset : ∀ v, (set v).includeList = st.settings.includeList) :
    (sizeOption argv strtod st set).Within argv := by
  unfold sizeOption
  split
  · exact h.exit 1
  next hlt =>
    have hlt := Nat.lt_of_not_le hlt
    have hvalue : ∀ access ∈ charsUpTo ⟨st.optind, 0⟩ (argv.text st.optind).length ++
        [.char ⟨st.optind, (strtod.parse (argv.text st.optind)).2⟩], access.InBounds argv := by
      rw [List.forall_mem_append, List.forall_mem_singleton]
      exact ⟨charsUpTo_inBounds hlt (Nat.le_of_eq (Nat.zero_add _)), hlt, strtod.within _⟩
    have hread := (h.take hlt).look hvalue
    dsimp only
    split
    · exact hread.exit 1
    next v _ =>
      apply hread.next
      rw [hset v]
      exact h.includes

theorem runOption_within (h : st.Within argv) (harg : Access.InBounds argv (.char st.arg)) (o : Opt) :
    (runOption argv strtod st o).Within argv := by
  have hlook : (st.look [.char st.arg]).Within argv :=
    h.look fun access haccess ↦ (List.mem_singleton.mp haccess) ▸ harg
  cases o with
  | help => exact h.exit 1
  | eval =>
    rw [runOption]
    dsimp only
    split
    · exact hlook.leave h.includes
    · split
      next hlt => exact (hlook.take hlt).leave h.includes
      · exact hlook.exit 2
  | includeFile =>
    rw [runOption]
    split
    · exact h.exit 1
    next hlt =>
      split
      · exact h.exit 1
      next hroom =>
        apply (h.take (Nat.lt_of_not_le hlt)).next
        rw [List.length_append, List.length_singleton]
        omega
  | memoryLimit => exact sizeOption_within h fun _ ↦ rfl
  | stackSize => exact sizeOption_within h fun _ ↦ rfl
  | interactive | module | script | strict | dump | trace | std | noUnhandledRejection | quit
  | stripDebug | stripSource => exact h.next h.includes

end

/-! ## Where an option leads -/

section

variable (argv : ArgVector) (strtod : Strtod) {st : Scan}

theorem sizeOption_cases (hphase : st.phase = .inner) (set : Nat → Settings) :
    (∃ code, (sizeOption argv strtod st set).phase = .exited code) ∨
      st.optind < argv.argc ∧ (sizeOption argv strtod st set).phase = .inner ∧
        (sizeOption argv strtod st set).arg = st.arg ∧
        (sizeOption argv strtod st set).longopt = none ∧
        (sizeOption argv strtod st set).optind = st.optind + 1 := by
  unfold sizeOption
  split
  · exact .inl ⟨1, rfl⟩
  next hlt =>
    dsimp only
    split
    · exact .inl ⟨1, rfl⟩
    · exact .inr ⟨Nat.lt_of_not_le hlt, hphase, rfl, rfl, rfl⟩

/-- An option stays in its element, leaves it, or ends the process. -/
theorem runOption_cases (hphase : st.phase = .inner) (o : Opt) :
    (∃ code, (runOption argv strtod st o).phase = .exited code) ∨
    ((runOption argv strtod st o).phase = .inner ∧ (runOption argv strtod st o).arg = st.arg ∧
      (runOption argv strtod st o).longopt = none ∧
      (o.kind = .flag ∧ (runOption argv strtod st o).optind = st.optind ∨
        o.kind = .value ∧ st.optind < argv.argc ∧
          (runOption argv strtod st o).optind = st.optind + 1)) ∨
    ((runOption argv strtod st o).phase = .outer ∧ o.kind = .text ∧
      (argv.string st.arg ≠ [] ∧ (runOption argv strtod st o).optind = st.optind ∨
        argv.string st.arg = [] ∧ st.optind < argv.argc ∧
          (runOption argv strtod st o).optind = st.optind + 1)) := by
  cases o with
  | help => exact .inl ⟨1, rfl⟩
  | eval =>
    rw [runOption]
    dsimp only
    split
    next hchar => exact .inr (.inr ⟨rfl, rfl, .inl ⟨mt char_eq_zero_iff.mpr hchar, rfl⟩⟩)
    next hchar =>
      split
      next hlt =>
        exact .inr (.inr ⟨rfl, rfl, .inr ⟨char_eq_zero_iff.mp (not_not.mp hchar), hlt, rfl⟩⟩)
      · exact .inl ⟨2, rfl⟩
  | includeFile =>
    rw [runOption]
    split
    · exact .inl ⟨1, rfl⟩
    next hlt =>
      split
      · exact .inl ⟨1, rfl⟩
      · exact .inr (.inl ⟨hphase, rfl, rfl, .inr ⟨rfl, Nat.lt_of_not_le hlt, rfl⟩⟩)
  | memoryLimit | stackSize =>
    rcases sizeOption_cases argv strtod hphase _ with hexit | ⟨hlt, hinner, harg, hlong, hoptind⟩
    · exact .inl hexit
    · exact .inr (.inl ⟨hinner, harg, hlong, .inr ⟨rfl, hlt, hoptind⟩⟩)
  | interactive | module | script | strict | dump | trace | std | noUnhandledRejection | quit
  | stripDebug | stripSource => exact .inr (.inl ⟨hphase, rfl, rfl, .inl ⟨rfl, rfl⟩⟩)

theorem findOption_spec {opt : UInt8} {longopt : List UInt8} {os : List Opt} {o : Opt}
    (h : (findOption opt longopt os).1 = some o) : opt ∈ o.shorts ∨ o.long = some longopt := by
  induction os with
  | nil => cases h
  | cons first os ih =>
    rw [findOption] at h
    split at h
    next hshort =>
      obtain rfl := Option.some.inj h
      exact .inl hshort
    · split at h
      · exact ih h
      next name hlong =>
        split at h
        next heq =>
          obtain rfl := Option.some.inj h
          rw [heq]
          exact .inr hlong
        · exact ih h

theorem zero_not_short (o : Opt) : 0 ∉ o.shorts := by
  cases o <;> decide

theorem long_ne_nil (o : Opt) : o.long ≠ some [] := by
  cases o <;> decide

/-- `st'` is behind the option `o` that `st` points to. -/
structure Chosen (argv : ArgVector) (st st' : Scan) (o : Opt) : Prop where
  phase : st'.phase = st.phase
  optind : st'.optind = st.optind
  text : (∃ c, st'.arg = ⟨st.arg.index, st.arg.offset + 1⟩ ∧
      argv.string st.arg = c :: argv.string st'.arg ∧
      (c ∈ o.shorts ∨ o.long = some (longoptText argv st.longopt))) ∨
    st'.arg = st.arg ∧ argv.string st.arg = [] ∧ st.longopt ≠ none ∧
      o.long = some (longoptText argv st.longopt)

theorem readOption_chosen (st : Scan) {o : Opt} (h : (readOption argv st).1 = some o) :
    Chosen argv st (readOption argv st).2 o := by
  have hfound := findOption_spec h
  unfold readOption
  dsimp only
  cases hstring : argv.string st.arg with
  | nil =>
    have hzero := char_eq_zero_iff.mpr hstring
    rw [hzero] at hfound
    have hlong := hfound.resolve_left (zero_not_short o)
    rw [if_neg (not_not.mpr hzero)]
    refine ⟨rfl, rfl, .inr ⟨rfl, hstring, ?_, hlong⟩⟩
    intro hnone
    rw [hnone] at hlong
    exact long_ne_nil o hlong
  | cons c cs =>
    have hchar : argv.char st.arg ≠ 0 :=
      mt char_eq_zero_iff.mp (by rw [hstring]; exact List.cons_ne_nil c cs)
    rw [if_pos hchar]
    refine ⟨rfl, rfl, .inl ⟨c, rfl, ?_, char_of_cons hstring ▸ hfound⟩⟩
    rw [hstring]
    exact congrArg (List.cons c) (string_succ hstring).symm

/-- A turn ends the inner loop or the process, or takes an option. -/
theorem innerTurn_cases (st : Scan) :
    (argv.string st.arg = [] ∧ longoptText argv st.longopt = [] ∧
      (innerTurn argv strtod st).phase = .outer ∧ (innerTurn argv strtod st).optind = st.optind) ∨
    (∃ code, (innerTurn argv strtod st).phase = .exited code) ∨
    ∃ o st', Chosen argv st st' o ∧ innerTurn argv strtod st = runOption argv strtod st' o := by
  unfold innerTurn
  dsimp only
  split
  next hend => exact .inl ⟨char_eq_zero_iff.mp hend.1, hend.2, rfl, rfl⟩
  next =>
    split
    next o st' hread =>
      have hchosen := readOption_chosen argv (st.look (.char st.arg ::
        if argv.char st.arg = 0 then longoptAccesses 0 st.longopt else [])) (congrArg Prod.fst hread)
      rw [hread] at hchosen
      exact .inr (.inr ⟨o, st', ⟨hchosen.phase, hchosen.optind, hchosen.text⟩, rfl⟩)
    next => exact .inr (.inl ⟨1, rfl⟩)

end

/-! ## Every turn makes progress -/

/-- What is left of an element of options. -/
def Scan.weight (argv : ArgVector) (st : Scan) : Nat :=
  if st.phase = .inner then
    1 + (argv.string st.arg).length + (if st.longopt = none then 0 else 1)
  else 0

/-- The elements left, and then what is left of the one at hand. -/
def Scan.measure (argv : ArgVector) (st : Scan) : Nat × Nat :=
  (argv.argc - st.optind, st.weight argv)

def Scan.Final (st : Scan) : Prop := st.phase = .done ∨ ∃ code, st.phase = .exited code

def Less : Nat × Nat → Nat × Nat → Prop := Prod.Lex (· < ·) (· < ·)

theorem less_wf : WellFounded Less := (Prod.lex Nat.lt_wfRel Nat.lt_wfRel).wf

section

variable {argv : ArgVector} {strtod : Strtod} {st st' : Scan}

-- An element less is left.
theorem less_of_optind (hlt : st.optind < argv.argc) (h : st'.optind = st.optind + 1) :
    Less (st'.measure argv) (st.measure argv) := by
  apply Prod.Lex.left
  rw [h]
  omega

theorem less_of_weight (h : st'.optind = st.optind) (hweight : st'.weight argv < st.weight argv) :
    Less (st'.measure argv) (st.measure argv) := by
  unfold Scan.measure
  rw [h]
  exact Prod.Lex.right _ hweight

theorem Scan.weight_outer (h : st.phase = .outer) : st.weight argv = 0 := by
  rw [weight, h]
  rfl

theorem Scan.weight_inner (h : st.phase = .inner) :
    st.weight argv = 1 + (argv.string st.arg).length + (if st.longopt = none then 0 else 1) :=
  if_pos h

theorem innerTurn_less (hphase : st.phase = .inner) :
    (innerTurn argv strtod st).Final ∨
      Less ((innerTurn argv strtod st).measure argv) (st.measure argv) := by
  rcases innerTurn_cases argv strtod st with
    ⟨-, -, houter, hoptind⟩ | hexit | ⟨o, st', hchosen, hrun⟩
  · apply Or.inr
    apply less_of_weight hoptind
    rw [Scan.weight_outer houter, Scan.weight_inner hphase]
    omega
  · exact .inl (.inr hexit)
  · have hoptind' := hchosen.optind
    rw [hrun]
    rcases runOption_cases argv strtod (hchosen.phase.trans hphase) o with
      hexit | ⟨hinner, harg, hlong, ⟨-, hoptind⟩ | ⟨-, hlt, hoptind⟩⟩ |
        ⟨houter, -, ⟨-, hoptind⟩ | ⟨-, hlt, hoptind⟩⟩
    · exact .inl (.inr hexit)
    · -- a character less, or no long option any more
      apply Or.inr
      apply less_of_weight (hoptind.trans hoptind')
      rw [Scan.weight_inner hinner, Scan.weight_inner hphase, harg, hlong, if_pos rfl]
      rcases hchosen.text with ⟨c, -, htext, -⟩ | ⟨harg', -, hsome, -⟩
      · rw [htext, List.length_cons]
        omega
      · rw [harg', if_neg hsome]
        omega
    · exact .inr (less_of_optind (hoptind' ▸ hlt) (hoptind.trans (congrArg (· + 1) hoptind')))
    · apply Or.inr
      apply less_of_weight (hoptind.trans hoptind')
      rw [Scan.weight_outer houter, Scan.weight_inner hphase]
      omega
    · exact .inr (less_of_optind (hoptind' ▸ hlt) (hoptind.trans (congrArg (· + 1) hoptind')))

theorem outerTurn_less :
    (outerTurn argv st).Final ∨ Less ((outerTurn argv st).measure argv) (st.measure argv) := by
  unfold outerTurn
  dsimp only
  split
  · exact .inl (.inl rfl)
  next hlt =>
    have hlt := not_not.mp hlt
    split
    · exact .inl (.inl rfl)
    · split
      · exact .inl (.inl rfl)
      · split
        · exact .inr (less_of_optind hlt rfl)
        · split
          · exact .inl (.inl rfl)
          · exact .inr (less_of_optind hlt rfl)

theorem step_less (h : ¬ st.Final) :
    (step argv strtod st).Final ∨ Less ((step argv strtod st).measure argv) (st.measure argv) := by
  unfold step
  split
  · exact outerTurn_less
  next hphase => exact innerTurn_less hphase
  next hphase => exact absurd (.inl hphase) h
  next code hphase => exact absurd (.inr ⟨code, hphase⟩) h

end

end QNode.Main
