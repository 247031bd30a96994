import QNode.Main.OptionLoop

/-!
# How the option loops split the command line

In front are the options with their values, behind that what belongs to the script.  An invariant of
the inner loop says what is still missing for its element to be an option.
-/

open QNode.Buffer Halting

namespace QNode.Main

/-! ## What an option is -/

/-- A bundle of short options that takes `n` of the elements that follow. -/
inductive Bundle : List UInt8 → Nat → Prop
  | done : Bundle [] 0
  | flag {o : Opt} {c : UInt8} {cs : List UInt8} {n : Nat} :
    c ∈ o.shorts → o.kind = .flag → Bundle cs n → Bundle (c :: cs) n
  | value {o : Opt} {c : UInt8} {cs : List UInt8} {n : Nat} :
    c ∈ o.shorts → o.kind = .value → Bundle cs n → Bundle (c :: cs) (n + 1)
  | rest {o : Opt} {c : UInt8} {cs : List UInt8} :
    c ∈ o.shorts → o.kind = .text → cs ≠ [] → Bundle (c :: cs) 0
  | last {o : Opt} {c : UInt8} : c ∈ o.shorts → o.kind = .text → Bundle [c] 1

inductive LongOption : List UInt8 → Nat → Prop
  | flag {o : Opt} {name : List UInt8} : o.long = some name → o.kind = .flag → LongOption name 0
  | value {o : Opt} {name : List UInt8} :
    o.long = some name → o.kind = .value ∨ o.kind = .text → LongOption name 1

def hyphen : UInt8 := charCode '-'

/-- The text of an element that is an option and takes `n` of the elements that follow. -/
inductive OptionElement : List UInt8 → Nat → Prop
  | short {c : UInt8} {cs : List UInt8} {n : Nat} :
    c ≠ hyphen → Bundle (c :: cs) n → OptionElement (hyphen :: c :: cs) n
  | long {name : List UInt8} {n : Nat} :
    LongOption name n → OptionElement (hyphen :: hyphen :: name) n

/-- Options, each with the values it takes behind it. -/
inductive Consumed : List Argument → Prop
  | nil : Consumed []
  | option {before values : List Argument} {opt : Argument} :
    Consumed before → OptionElement opt.chars values.length → Consumed (before ++ opt :: values)

/-- Options with their values, and at the end a `--` or not. -/
def Split (args : List Argument) : Prop :=
  Consumed args ∨ ∃ before terminator, args = before ++ [terminator] ∧ Consumed before ∧
    terminator.chars = [hyphen, hyphen]

/-! ## The invariant -/

/-- `argv[1..n)` -/
def ArgVector.taken (argv : ArgVector) (n : Nat) : List Argument := (argv.elements.take n).drop 1

/-- What is left of the element at hand takes `n` of the elements that follow. -/
def Remaining (argv : ArgVector) (st : Scan) (n : Nat) : Prop :=
  match st.longopt with
  | none => Bundle (argv.string st.arg) n
  | some p => LongOption (argv.string p) n

/-- The pointers of the inner loop; a long option comes with an empty `arg`. -/
structure Placed (argv : ArgVector) (st : Scan) : Prop where
  arg : Access.InBounds argv (.char st.arg)
  long : ∀ p, st.longopt = some p →
    Access.InBounds argv (.char p) ∧ argv.string p ≠ [] ∧ argv.string st.arg = []

/-- The elements taken are options, and then one of which something is left, with the values it has so
far. -/
structure Pending (argv : ArgVector) (st : Scan) : Prop where
  placed : Placed argv st
  split : ∃ before opt values, argv.taken st.optind = before ++ opt :: values ∧ Consumed before ∧
    ∀ n, Remaining argv st n → OptionElement opt.chars (values.length + n)

def Progress (argv : ArgVector) (st : Scan) : Prop :=
  match st.phase with
  | .outer => Consumed (argv.taken st.optind)
  | .inner => Pending argv st
  | .done => Split (argv.taken st.optind)
  | .exited _ => True

section

variable {argv : ArgVector} {strtod : Strtod} {st st' : Scan}

theorem taken_succ {n : Nat} (hpos : 1 ≤ n) (hlt : n < argv.argc) :
    ∃ arg, argv.elements[n]? = some arg ∧ argv.taken (n + 1) = argv.taken n ++ [arg] := by
  have helement := List.getElem?_eq_getElem hlt
  refine ⟨_, helement, ?_⟩
  have hlen : 1 ≤ (argv.elements.take n).length := by
    have hargc : argv.elements.length = argv.argc := rfl
    rw [List.length_take]
    omega
  unfold ArgVector.taken
  rw [List.take_add_one, helement, Option.toList_some, List.drop_append_of_le_length hlen]

theorem bundle_nil {n : Nat} (h : Bundle [] n) : n = 0 := by
  cases h
  rfl

/-! ## A turn of the inner loop -/

theorem longoptAccesses_inBounds (h : Placed argv st) {n : Nat}
    (hn : n ≤ (longoptText argv st.longopt).length) :
    ∀ access ∈ longoptAccesses n st.longopt, access.InBounds argv := by
  cases hlong : st.longopt with
  | none => exact fun _ haccess ↦ absurd haccess List.not_mem_nil
  | some p =>
    obtain ⟨⟨hindex, hoffset⟩, -, -⟩ := h.long p hlong
    apply charsUpTo_inBounds hindex
    rw [hlong, longoptText, ArgVector.string, List.length_drop] at hn
    omega

theorem readOption_within (hplaced : Placed argv st) (h : st.Within argv) :
    (readOption argv st).2.Within argv ∧
      Access.InBounds argv (.char (readOption argv st).2.arg) := by
  have htried : ∀ access ∈ (findOption (argv.char st.arg) (longoptText argv st.longopt)
      optionOrder).2.flatMap fun name ↦
        longoptAccesses (compared (longoptText argv st.longopt) name) st.longopt,
      access.InBounds argv := by
    intro access haccess
    obtain ⟨name, -, hname⟩ := List.mem_flatMap.mp haccess
    exact longoptAccesses_inBounds hplaced (compared_le _ name) access hname
  unfold readOption
  dsimp only
  split
  next hchar =>
    obtain ⟨c, cs, hstring⟩ := List.exists_cons_of_ne_nil (mt char_eq_zero_iff.mpr hchar)
    exact ⟨⟨(h.look htried).accesses, h.includes, h.pos, h.le⟩, hplaced.arg.1,
      offset_lt_of_cons hstring⟩
  next => exact ⟨h.look htried, hplaced.arg⟩

theorem readOption_longopt (argv : ArgVector) (st : Scan) :
    (readOption argv st).2.longopt = st.longopt := by
  unfold readOption
  dsimp only
  split <;> rfl

theorem innerTurn_within (hplaced : Placed argv st) (h : st.Within argv) :
    (innerTurn argv strtod st).Within argv := by
  have hlook : ∀ access ∈ (.char st.arg :: if argv.char st.arg = 0 then longoptAccesses 0 st.longopt
      else [] : List Access), access.InBounds argv := by
    rw [List.forall_mem_cons]
    refine ⟨hplaced.arg, ?_⟩
    split
    · exact longoptAccesses_inBounds hplaced (Nat.zero_le _)
    · exact fun _ haccess ↦ absurd haccess List.not_mem_nil
  have hlooked := h.look hlook
  unfold innerTurn
  dsimp only
  split
  · exact ⟨hlooked.accesses, h.includes, h.pos, h.le⟩
  · have hplaced' : Placed argv (st.look (.char st.arg ::
        if argv.char st.arg = 0 then longoptAccesses 0 st.longopt else [])) :=
      ⟨hplaced.arg, hplaced.long⟩
    have hread := readOption_within hplaced' hlooked
    split
    next o st' heq =>
      rw [heq] at hread
      exact runOption_within hread.1 hread.2 o
    next st' heq =>
      have hlong := readOption_longopt argv (st.look (.char st.arg ::
        if argv.char st.arg = 0 then longoptAccesses 0 st.longopt else []))
      rw [heq] at hread hlong
      apply (hread.1.look _).exit 1
      rw [hlong]
      exact longoptAccesses_inBounds hplaced' (Nat.le_refl _)

-- What the option at hand leaves is what the options behind it take.
theorem Chosen.remaining {o : Opt} (h : Chosen argv st st' o) (hplaced : Placed argv st) :
    (o.kind = .flag → ∀ n, Bundle (argv.string st'.arg) n → Remaining argv st n) ∧
      (o.kind = .value → ∀ n, Bundle (argv.string st'.arg) n → Remaining argv st (n + 1)) ∧
      (o.kind = .text → argv.string st'.arg ≠ [] → Remaining argv st 0) ∧
      (o.kind = .text → argv.string st'.arg = [] → Remaining argv st 1) := by
  unfold Remaining
  rcases h.text with ⟨c, -, htext, hmatch⟩ | ⟨harg, htext, hsome, hlong⟩
  · -- a short option
    cases hnone : st.longopt with
    | some p =>
      rw [(hplaced.long p hnone).2.2] at htext
      cases htext
    | none =>
      rw [hnone] at hmatch
      have hshort := hmatch.resolve_right (long_ne_nil o)
      dsimp only
      rw [htext]
      refine ⟨fun hkind n hn ↦ .flag hshort hkind hn, fun hkind n hn ↦ .value hshort hkind hn,
        fun hkind hne ↦ .rest hshort hkind hne, fun hkind hnil ↦ ?_⟩
      rw [hnil]
      exact .last hshort hkind
  · -- a long option
    obtain ⟨p, hp⟩ := Option.ne_none_iff_exists'.mp hsome
    rw [hp] at hlong ⊢
    rw [harg, htext]
    refine ⟨fun hkind n hn ↦ ?_, fun hkind n hn ↦ ?_, fun _ hne ↦ absurd rfl hne,
      fun hkind _ ↦ .value hlong (.inr hkind)⟩
    · rw [bundle_nil hn]
      exact .flag hlong hkind
    · rw [bundle_nil hn]
      exact .value hlong (.inl hkind)

theorem Chosen.inBounds {o : Opt} (h : Chosen argv st st' o) (hplaced : Placed argv st) :
    Access.InBounds argv (.char st'.arg) := by
  rcases h.text with ⟨c, harg, htext, -⟩ | ⟨harg, -⟩
  · rw [harg]
    exact ⟨hplaced.arg.1, offset_lt_of_cons htext⟩
  · rw [harg]
    exact hplaced.arg

-- An element more that is a value.
theorem values_succ {before values : List Argument} {opt : Argument} (h : st.Within argv)
    (hlt : st.optind < argv.argc) (hsplit : argv.taken st.optind = before ++ opt :: values) :
    ∃ value, argv.taken (st.optind + 1) = before ++ opt :: (values ++ [value]) := by
  obtain ⟨value, -, htaken⟩ := taken_succ h.pos hlt
  refine ⟨value, ?_⟩
  rw [htaken, hsplit, List.append_assoc, List.cons_append]

theorem innerTurn_progress (h : st.Within argv) (hphase : st.phase = .inner)
    (hpending : Pending argv st) : Progress argv (innerTurn argv strtod st) := by
  obtain ⟨hplaced, before, opt, values, hsplit, hbefore, hoption⟩ := hpending
  rcases innerTurn_cases argv strtod st with
    ⟨hnil, hlong, houter, hoptind⟩ | ⟨code, hexit⟩ | ⟨o, st', hchosen, hrun⟩
  · -- nothing is left of the element
    have hdone : Remaining argv st 0 := by
      unfold Remaining
      cases hp : st.longopt with
      | none =>
        dsimp only
        rw [hnil]
        exact .done
      | some p =>
        rw [hp] at hlong
        exact absurd hlong (hplaced.long p hp).2.1
    unfold Progress
    rw [houter, hoptind, hsplit]
    exact .option hbefore (hoption 0 hdone)
  · unfold Progress
    rw [hexit]
    trivial
  · obtain ⟨hflag, hvalue, hrest, hlast⟩ := hchosen.remaining hplaced
    have hoptind' := hchosen.optind
    have harg' := hchosen.inBounds hplaced
    rw [hrun]
    unfold Progress
    rcases runOption_cases argv strtod (hchosen.phase.trans hphase) o with
      ⟨code, hexit⟩ | ⟨hinner, harg, hlong, hcases⟩ | ⟨houter, hkind, hcases⟩
    · rw [hexit]
      trivial
    · rw [hinner]
      refine ⟨⟨harg ▸ harg', fun p hp ↦ by rw [hlong] at hp; cases hp⟩, ?_⟩
      unfold Remaining
      rw [hlong, harg]
      rcases hcases with ⟨hkind, hoptind⟩ | ⟨hkind, hlt, hoptind⟩
      · rw [hoptind, hoptind']
        exact ⟨before, opt, values, hsplit, hbefore, fun n hn ↦ hoption n (hflag hkind n hn)⟩
      · rw [hoptind'] at hlt hoptind
        obtain ⟨value, hsplit'⟩ := values_succ h hlt hsplit
        rw [hoptind]
        refine ⟨before, opt, values ++ [value], hsplit', hbefore, fun n hn ↦ ?_⟩
        rw [List.length_append, List.length_singleton, Nat.add_right_comm]
        exact hoption (n + 1) (hvalue hkind n hn)
    · rw [houter]
      rcases hcases with ⟨hne, hoptind⟩ | ⟨hnil, hlt, hoptind⟩
      · rw [hoptind, hoptind', hsplit]
        exact .option hbefore (hoption 0 (hrest hkind hne))
      · rw [hoptind'] at hlt hoptind
        obtain ⟨value, hsplit'⟩ := values_succ h hlt hsplit
        rw [hoptind, hsplit']
        apply Consumed.option hbefore
        rw [List.length_append, List.length_singleton]
        exact hoption 1 (hlast hkind hnil)

/-! ## A turn of the outer loop -/

theorem string_of_char {p : Pointer} {c : UInt8} (h : argv.char p = c) (hc : c ≠ 0) :
    ∃ cs, argv.string p = c :: cs := by
  unfold ArgVector.char at h
  cases hstring : argv.string p with
  | nil =>
    rw [hstring] at h
    exact absurd h.symm hc
  | cons d cs =>
    rw [hstring] at h
    exact ⟨cs, congrArg (· :: cs) h⟩

theorem elementChar_inBounds {i j : Nat} (hlt : i < argv.argc) (hj : j ≤ (argv.text i).length) :
    ∀ access ∈ [Access.element i, .char ⟨i, j⟩], access.InBounds argv := by
  rw [List.forall_mem_cons, List.forall_mem_singleton]
  exact ⟨hlt, hlt, hj⟩

theorem outerTurn_sound (h : st.Within argv) (hconsumed : Consumed (argv.taken st.optind)) :
    (outerTurn argv st).Within argv ∧ Progress argv (outerTurn argv st) := by
  unfold outerTurn
  dsimp only
  split
  · exact ⟨⟨h.accesses, h.includes, h.pos, h.le⟩, .inl hconsumed⟩
  next hlt =>
    have hlt : st.optind < argv.argc := not_not.mp hlt
    obtain ⟨opt, helement, htaken⟩ := taken_succ h.pos hlt
    have hpos' : 1 ≤ st.optind + 1 := Nat.le_succ_of_le h.pos
    have hfirst := h.look (elementChar_inBounds hlt (Nat.zero_le _))
    split
    · exact ⟨⟨hfirst.accesses, h.includes, h.pos, h.le⟩, .inl hconsumed⟩
    next hchar =>
      obtain ⟨text, htext⟩ := string_of_char (not_not.mp hchar) (by decide)
      have hlen := offset_lt_of_cons htext
      have hsecond := hfirst.look (elementChar_inBounds hlt hlen)
      split
      · exact ⟨⟨hsecond.accesses, h.includes, h.pos, h.le⟩, .inl hconsumed⟩
      next hnext =>
        obtain ⟨c, cs, hrest⟩ := List.exists_cons_of_ne_nil (mt char_eq_zero_iff.mpr hnext)
        have hchars : opt.chars = hyphen :: c :: cs := by
          have hsucc := string_succ htext
          rw [← text_eq helement]
          exact htext.trans (congrArg _ (hsucc.symm.trans hrest))
        have hlen' := offset_lt_of_cons hrest
        split
        next hshort =>
          -- a bundle
          rw [char_of_cons hrest] at hshort
          refine ⟨⟨hsecond.accesses, h.includes, hpos', hlt⟩, ⟨⟨hlt, hlen⟩, ?_⟩, ?_⟩
          · intro p hp
            cases hp
          · refine ⟨argv.taken st.optind, opt, [], htaken, hconsumed, fun n hn ↦ ?_⟩
            have hbundle : Bundle (c :: cs) n := hrest ▸ hn
            rw [hchars, List.length_nil, Nat.zero_add]
            exact .short hshort hbundle
        next hlong =>
          rw [char_of_cons hrest, not_not] at hlong
          have hthird : ∀ access ∈ charsUpTo ⟨st.optind, 1⟩ ((argv.text st.optind).length - 1) ++
              [.char ⟨st.optind, 2⟩], access.InBounds argv := by
            rw [List.forall_mem_append, List.forall_mem_singleton]
            refine ⟨charsUpTo_inBounds hlt ?_, hlt, hlen'⟩
            dsimp only at hlen ⊢
            omega
          have hthird := hsecond.look hthird
          have hname := string_succ hrest
          split
          next hend =>
            -- the end of the options
            refine ⟨⟨hthird.accesses, h.includes, hpos', hlt⟩, .inr ⟨_, opt, htaken, hconsumed, ?_⟩⟩
            have hnil := char_eq_zero_iff.mp hend
            rw [hchars, hlong, ← hname]
            exact congrArg (fun s ↦ hyphen :: hyphen :: s) hnil
          next hmore =>
            -- a long option
            refine ⟨⟨hthird.accesses, h.includes, hpos', hlt⟩, ⟨⟨hlt, Nat.le_refl _⟩, ?_⟩, ?_⟩
            · intro p hp
              obtain rfl := Option.some.inj hp
              exact ⟨⟨hlt, hlen'⟩, mt char_eq_zero_iff.mpr hmore, List.drop_length⟩
            · refine ⟨argv.taken st.optind, opt, [], htaken, hconsumed, fun n hn ↦ ?_⟩
              have hlongopt : LongOption cs n := hname ▸ hn
              rw [hchars, hlong, List.length_nil, Nat.zero_add]
              exact .long hlongopt

/-! ## All turns -/

/-- What holds in every state of the loops. -/
structure Sound (argv : ArgVector) (st : Scan) : Prop where
  within : st.Within argv
  progress : Progress argv st

theorem sound_start (argv : ArgVector) : Sound argv .start := by
  refine ⟨⟨fun _ haccess ↦ absurd haccess List.not_mem_nil, Nat.zero_le _, Nat.le_refl 1, ?_⟩, ?_⟩
  · exact Nat.succ_le_succ (Nat.zero_le argv.rest.length)
  · exact .nil

theorem Sound.step (h : Sound argv st) : Sound argv (step argv strtod st) := by
  have hprogress := h.progress
  unfold Progress at hprogress
  unfold QNode.Main.step
  split
  next hphase =>
    rw [hphase] at hprogress
    obtain ⟨hwithin, hnext⟩ := outerTurn_sound h.within hprogress
    exact ⟨hwithin, hnext⟩
  next hphase =>
    rw [hphase] at hprogress
    exact ⟨innerTurn_within hprogress.placed h.within,
      innerTurn_progress h.within hphase hprogress⟩
  next => exact h
  next => exact h

/-! ## The lists that are handed over -/

theorem slice_eq {first count : Nat} (h : first + count ≤ argv.argc) :
    argv.slice first count = ((argv.elements.drop first).take count).map some := by
  apply List.ext_getElem
  · have hargc : argv.elements.length = argv.argc := rfl
    rw [ArgVector.slice, List.length_map, List.length_range, List.length_map, List.length_take,
      List.length_drop]
    omega
  · intro k hk hk'
    rw [ArgVector.slice, List.length_map, List.length_range] at hk
    have hlt : first + k < argv.elements.length := Nat.lt_of_lt_of_le (by omega) h
    simp only [ArgVector.slice, List.getElem_map, List.getElem_range, List.getElem_take,
      List.getElem_drop]
    exact List.getElem?_eq_getElem hlt

/-- The list of the options is what was taken, and with that of the script it is everything behind the
name of the program. -/
theorem handOver_eq (h : st.Within argv) {execArgv args : List (Option Argument)}
    (hhand : handOver argv st = some (execArgv, args)) :
    execArgv = (argv.taken st.optind).map some ∧ execArgv ++ args = argv.rest.map some := by
  have hle := h.le
  obtain ⟨k, hk⟩ := Nat.exists_eq_add_of_le' h.pos
  unfold handOver at hhand
  split at hhand
  · cases hhand
  · obtain ⟨rfl, rfl⟩ := Prod.mk.inj (Option.some.inj hhand)
    have hargc : argv.argc = argv.rest.length + 1 := rfl
    have htaken : argv.taken (k + 1) = argv.rest.take k := rfl
    have hdrop : argv.elements.drop (k + 1) = argv.rest.drop k := rfl
    have hfirst : argv.elements.drop 1 = argv.rest := rfl
    have hall : (argv.rest.drop k).take (argv.argc - (k + 1)) = argv.rest.drop k := by
      apply List.take_of_length_le
      rw [List.length_drop]
      omega
    rw [slice_eq (by omega), slice_eq (by omega), ← List.map_append, hk, Nat.add_sub_cancel, hdrop,
      hfirst, hall, htaken, List.take_append_drop]
    exact ⟨rfl, rfl⟩

end

/-- The loops end for every command line.  At no time has anything outside of it been looked at, or are
there more included files than fit the list.  Unless the process exits, they leave `optind` on an element
or at the end, in front of it options with their values and perhaps a `--`; and what the process and
the script are handed makes up the command line. -/
theorem option_loops (argv : ArgVector) (strtod : Strtod) :
    (∃ n, (scanned argv strtod n).Final) ∧
      ∀ n, (∀ access ∈ (scanned argv strtod n).accesses, access.InBounds argv) ∧
        (scanned argv strtod n).settings.includeList.length ≤ 32 ∧
        ((scanned argv strtod n).phase = .done →
          1 ≤ (scanned argv strtod n).optind ∧ (scanned argv strtod n).optind ≤ argv.argc ∧
            Split (argv.taken (scanned argv strtod n).optind) ∧
            ∀ execArgv args, handOver argv (scanned argv strtod n) = some (execArgv, args) →
              execArgv = (argv.taken (scanned argv strtod n).optind).map some ∧
                execArgv ++ args = argv.rest.map some) := by
  constructor
  · exact exists_final less_wf (Scan.measure argv) (fun st ↦ step_less) .start
  · intro n
    have hsound : Sound argv (scanned argv strtod n) :=
      iterate_keeps (fun _ ↦ Sound.step) (sound_start argv) n
    refine ⟨hsound.within.accesses, hsound.within.includes, fun hdone ↦ ?_⟩
    have hprogress := hsound.progress
    unfold Progress at hprogress
    rw [hdone] at hprogress
    exact ⟨hsound.within.pos, hsound.within.le, hprogress,
      fun _ _ hhand ↦ handOver_eq hsound.within hhand⟩

/-- Digits, for numbers without sign, point and exponent. -/
def digitsStrtod : Strtod where
  parse s :=
    let digits := s.takeWhile fun c ↦ charCode '0' ≤ c ∧ c ≤ charCode '9'
    (digits.foldl (fun v c ↦ 10 * v + (c.toNat - 48)) 0, digits.length)
  within _ := (List.takeWhile_prefix _).length_le

-- `qnode -mI lib.js --memory-limit 8M -- main.js`
example :
    let argv : ArgVector := ⟨⟨charCodes "qnode", by decide⟩, [⟨charCodes "-mI", by decide⟩,
      ⟨charCodes "lib.js", by decide⟩, ⟨charCodes "--memory-limit", by decide⟩,
      ⟨charCodes "8M", by decide⟩, ⟨charCodes "--", by decide⟩, ⟨charCodes "main.js", by decide⟩]⟩
    let st := scanned argv digitsStrtod 8
    st.phase = .done ∧ st.optind = 6 ∧ st.settings.includeList = [2] ∧
      st.settings.memoryLimit = 8388608 := by
  decide

end QNode.Main
