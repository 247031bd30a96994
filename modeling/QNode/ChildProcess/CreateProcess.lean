import QNode.ChildProcess.Launch
import QNode.Library.CommandLine

/-!
# The command line of a process on Windows

`create_process` puts an argument between quotes when it is empty or has a blank or a quote, and changes
nothing in it.  A quote in the argument, or a backslash that the closing quote then follows, is read
differently by the runtime of the child.
-/

open CommandLine

namespace QNode.ChildProcess.CreateProcess

open Launch (ascii)

/-- `strpbrk(argv[i], " \t\"")` finds the character. -/
def special (c : UInt8) : Bool := blank c || c = quote

def cmdArg (arg : List UInt8) : List UInt8 :=
  if !arg.isEmpty && !arg.any special then arg else quote :: arg ++ [quote]

/-- The strings of `argv` end at their first NUL, so they have none. -/
def cmdline (argv : List (List UInt8)) : List UInt8 := (ascii " ").intercalate (argv.map cmdArg)

/-- `malloc` is given one byte more than this. -/
def cmdlineLen : List (List UInt8) → Nat
  | [] => 0
  | arg :: argv => arg.length + 3 + cmdlineLen argv

/-- The line with its NUL fits into the allocated buffer, and the child reads the arguments from it. -/
def Delivers (argv : List (List UInt8)) : Prop :=
  (cmdline argv).length + 1 ≤ cmdlineLen argv + 1 ∧ split (cmdline argv) = argv

/-- The argument has no quote, and if it has a blank it does not end with a backslash. -/
def Survives (arg : List UInt8) : Prop :=
  quote ∉ arg ∧ (arg.any blank → arg.getLast? ≠ some backslash)

theorem cmdArg_length (arg : List UInt8) : (cmdArg arg).length ≤ arg.length + 2 := by
  unfold cmdArg
  split
  · exact Nat.le_add_right _ 2
  · rw [List.length_append]
    exact Nat.le_refl _

theorem cmdline_cons (arg : List UInt8) {argv : List (List UInt8)} (hne : argv ≠ []) :
    cmdline (arg :: argv) = cmdArg arg ++ (ascii " " ++ cmdline argv) := by
  unfold cmdline
  rw [List.map_cons, List.intercalate_cons_of_ne_nil (by simpa using hne), List.append_assoc]

theorem cmdline_singleton (arg : List UInt8) : cmdline [arg] = cmdArg arg :=
  List.intercalate_singleton

-- What holds of the empty line, of an argument and of an argument put before a line.
theorem cmdline_induction {P : List (List UInt8) → Prop} (hnil : P []) (hone : ∀ arg, P [arg])
    (hcons : ∀ arg argv, argv ≠ [] → P argv → P (arg :: argv)) (argv : List (List UInt8)) :
    P argv := by
  induction argv with
  | nil => exact hnil
  | cons arg argv ih =>
    by_cases hne : argv = []
    · rw [hne]
      exact hone arg
    · exact hcons arg argv hne ih

theorem cmdline_fits (argv : List (List UInt8)) : (cmdline argv).length ≤ cmdlineLen argv := by
  induction argv using cmdline_induction with
  | hnil => exact Nat.le_refl 0
  | hone arg =>
    have harg := cmdArg_length arg
    rw [cmdline_singleton]
    show _ ≤ arg.length + 3 + 0
    omega
  | hcons arg argv hne ih =>
    have harg := cmdArg_length arg
    rw [cmdline_cons arg hne, List.length_append, List.length_append]
    show _ + (1 + _) ≤ arg.length + 3 + cmdlineLen argv
    omega

/-! ## What the child reads -/

theorem cmdArg_of_blank {arg : List UInt8} (hblank : arg.any blank) :
    cmdArg arg = quote :: arg ++ [quote] := by
  have hspecial : arg.any special := by
    obtain ⟨c, hc, hb⟩ := List.any_eq_true.mp hblank
    exact List.any_eq_true.mpr ⟨c, hc, by rw [special, hb, Bool.true_or]⟩
  unfold cmdArg
  rw [if_neg (by simp [hspecial])]

theorem Survives.spells {arg : List UInt8} (h : Survives arg) : Splitter.Spells (cmdArg arg) arg := by
  by_cases hempty : arg = []
  · subst hempty
    exact Splitter.Spells.quoted h.1 (fun h ↦ by cases h)
  · by_cases hblank : arg.any blank
    · rw [cmdArg_of_blank hblank]
      exact Splitter.Spells.quoted h.1 (h.2 hblank)
    · have hplain : ∀ c ∈ arg, ¬ blank c := fun c hc hb ↦
        hblank (List.any_eq_true.mpr ⟨c, hc, hb⟩)
      have hspecial : arg.any special = false := by
        rw [List.any_eq_false]
        intro c hc hs
        rcases Bool.or_eq_true_iff.mp hs with hb | hq
        · exact hplain c hc hb
        · obtain rfl : c = quote := by simpa using hq
          exact h.1 hc
      unfold cmdArg
      rw [if_pos (by simp [hspecial, hempty])]
      exact Splitter.Spells.literal hempty h.1 hplain

theorem count_cmdArg (arg : List UInt8) :
    (cmdArg arg).count backslash = arg.count backslash := by
  unfold cmdArg
  split
  · rfl
  · rw [List.cons_append, List.count_cons_of_ne (by decide), List.count_append]
    rfl

theorem count_cmdline (argv : List (List UInt8)) :
    (cmdline argv).count backslash = argv.flatten.count backslash := by
  induction argv using cmdline_induction with
  | hnil => rfl
  | hone arg => rw [cmdline_singleton, count_cmdArg, List.flatten_singleton]
  | hcons arg argv hne ih =>
    have hspace : (ascii " ").count backslash = 0 := by decide
    rw [cmdline_cons arg hne, List.count_append, List.count_append, hspace, ih, count_cmdArg,
      List.flatten_cons, List.count_append, Nat.zero_add]

theorem cmdArg_infix {arg : List UInt8} {argv : List (List UInt8)} (h : arg ∈ argv) :
    ∃ front back, cmdline argv = front ++ (cmdArg arg ++ back) := by
  induction argv using cmdline_induction with
  | hnil => cases h
  | hone arg' =>
    rw [List.mem_singleton.mp h]
    exact ⟨[], [], by rw [cmdline_singleton, List.append_nil]; rfl⟩
  | hcons arg' argv hne ih =>
    rw [cmdline_cons arg' hne]
    rcases List.mem_cons.mp h with rfl | h
    · exact ⟨[], _, rfl⟩
    · obtain ⟨front, back, heq⟩ := ih h
      refine ⟨cmdArg arg' ++ (ascii " " ++ front), back, ?_⟩
      rw [heq]
      simp only [List.append_assoc]

/-- The command line that `create_process` builds on Windows fits its buffer and is read as the original
arguments precisely if no argument has a quote and none with a blank ends with a backslash. -/
theorem delivers_iff (argv : List (List UInt8)) : Delivers argv ↔ ∀ arg ∈ argv, Survives arg := by
  constructor
  · rintro ⟨-, hsplit⟩ arg harg
    have hcount := count_cmdline argv
    constructor
    · intro hquote
      have hweight := split_weight (cmdline argv)
      rw [hsplit, hcount] at hweight
      have hpos : 0 < argv.flatten.count quote :=
        List.count_pos_iff.mpr (List.mem_flatten.mpr ⟨arg, harg, hquote⟩)
      omega
    · intro hblank hlast
      obtain ⟨front, back, hline⟩ := cmdArg_infix harg
      obtain ⟨init, hinit⟩ := List.getLast?_eq_some_iff.mp hlast
      -- The closing quote has a backslash before it, which is lost.
      have hfound : cmdline argv = (front ++ quote :: init) ++ backslash :: quote :: back := by
        rw [hline, cmdArg_of_blank hblank, hinit]
        simp only [List.append_assoc, List.cons_append, List.nil_append]
      have hlost := split_weight_lt (front ++ quote :: init) back
      rw [← hfound, hsplit, hcount] at hlost
      omega
  · intro h
    refine ⟨Nat.succ_le_succ (cmdline_fits argv), split_intercalate (by decide) ?_⟩
    rw [List.forall₂_map_left_iff, List.forall₂_same]
    exact fun arg harg ↦ (h arg harg).spells

/-- The argument `a b\` takes in the closing quote and the next argument. -/
theorem delivers_backslash : ¬ ∀ argv, Delivers argv := by
  intro h
  have hsplit := (h [ascii "p", ascii "a b\\", ascii "c"]).2
  revert hsplit
  decide

end QNode.ChildProcess.CreateProcess
