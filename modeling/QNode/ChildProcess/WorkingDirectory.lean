import QNode.ChildProcess.Environment
import QNode.ChildProcess.ExecSync

/-!
# The directory of the parent and of the command

`execSync` changes the directory of the parent around `popen`, and `create_process` that of the child
after `fork`; neither looks whether the change succeeded.  On Windows `CreateProcess` is given the
directory, and fails without it.
-/

open QNode.Engine QNode.ChildProcess.Launch Word

namespace QNode.ChildProcess.ExecSync

/-! ## create_process -/

/-- The host of a call that makes a process: whether `fork` succeeds, or on Windows `CreateProcess` if it
gets its directory, and whether the `exec` in the child does. -/
structure ProcessHost (δ : Type) extends Host δ where
  creates : Bool
  execs : Bool

section

variable {δ : Type} (platform : Platform)

/-- The directory in which `create_process` runs its file; `none` if it does not run. -/
def createProcess (host : ProcessHost δ) (cwd : Option (List UInt8)) : Option δ :=
  match platform with
  | .unix => if host.creates ∧ host.execs then some (host.enter cwd) else none
  | .windows =>
    if host.creates then
      match cwd with
      | some path => host.chdirIn path
      | none => some host.start
    else none

/-- The part of `_spawnProcess` and of `spawnSync` up to the new process. -/
def runIn (host : ProcessHost δ) (effect : Effect) : Option δ :=
  if host.copiesCommand then
    effect.process.bind fun process ↦
      createProcess platform host (if host.copies .cwd then process.cwd else none)
  else none

/-- A call of one of the functions that take the option `cwd`. -/
inductive CwdCall
  | execSync (command : JsString)
  | spawn (command : JsString) (args : List JsString)
  | spawnSync (command : JsString) (args : List JsString)

/-- The directory of the parent after a call, and the one in which the command ran. -/
structure Directories (δ : Type) where
  parent : δ
  ranIn : Option δ

def directories (host : ProcessHost δ) (o : Options) : CwdCall → Directories δ
  | .execSync command =>
    let result := execSync host.toHost command o
    ⟨result.cwd, result.ranIn⟩
  | .spawn command args => ⟨host.start, runIn platform host (Launch.spawn platform command args o).1⟩
  | .spawnSync command args =>
    ⟨host.start, runIn platform host (Launch.spawnSync platform command args o).1⟩

/-! ## The directory asked for -/

/-- The text names a directory that can be entered.  With a NUL in it, it names none. -/
def Host.Names (host : Host δ) (text : JsString) (d : δ) : Prop :=
  (0 : UInt8) ∉ jsToCStringLen text ∧ host.chdirIn (jsToCStringLen text) = some d

/-- The command may run in this directory. -/
def Host.Requests (host : Host δ) (o : Options) (d : δ) : Prop :=
  match o.get .cwd with
  | .string text => host.Names text d
  | _ => d = host.start

/-- What a call owes: the directory of the parent, and the command in no other than the one asked for. -/
structure CwdKept (host : Host δ) (o : Options) (r : Directories δ) : Prop where
  parent : r.parent = host.start
  child : ∀ d, r.ranIn = some d → host.Requests o d

/-- With `cwd` a string, `execSync` keeps its directories if the command is not copied; if `popen` fails
and the change back leads to the old directory; and if the text names a directory from which the change
back leads to the old one, or which is the old one where that change is not made. -/
def ChangesBack (host : Host δ) (o : Options) (text : JsString) : Prop :=
  host.copiesCommand = true →
    match host.popen with
    | none => host.copies .cwd = true → host.back (host.enter (some (toCString text))) = host.start
    | some child =>
      let runsOut := RunsOut host.allocator (parseExecOptions o).maxBuffer child
      ∃ d, host.Names text d ∧ (host.copies .cwd = true → ¬ runsOut → host.back d = host.start) ∧
        (host.copies .cwd = false ∨ runsOut → d = host.start)

/-- With `cwd` a string, a process is made in the right directory only if the text names one.  On Windows
that can fail only for a text with a NUL. -/
def MadeInside (host : ProcessHost δ) (text : JsString) : Prop :=
  host.copiesCommand = true → host.creates = true →
    match platform with
    | .unix => host.execs = true → ∃ d, host.Names text d ∧ (host.copies .cwd = false → d = host.start)
    | .windows =>
      if host.copies .cwd then
        (0 : UInt8) ∈ jsToCStringLen text → host.chdirIn (toCString text) = none
      else host.Names text host.start

def CwdSafe (host : ProcessHost δ) (o : Options) (text : JsString) : CwdCall → Prop
  | .execSync _ => ChangesBack host.toHost o text
  | .spawn _ _ | .spawnSync _ _ => MadeInside platform host text

end

section

variable {δ : Type} {host : Host δ} {o : Options} {text : JsString} {d : δ}

theorem toCString_of_not_mem (h : (0 : UInt8) ∉ jsToCStringLen text) :
    toCString text = jsToCStringLen text := by
  rw [toCString, List.takeWhile_eq_self_iff]
  intro b hb
  rw [decide_eq_true_eq]
  rintro rfl
  exact h hb

theorem Host.Names.enter (h : host.Names text d) : host.enter (some (toCString text)) = d := by
  rw [Host.enter, toCString_of_not_mem h.1, h.2, Option.getD_some]

theorem requests_string (hcwd : o.get .cwd = .string text) : host.Requests o d ↔ host.Names text d := by
  rw [Host.Requests, hcwd]

theorem options_cwd (host : Host δ) (o : Options) :
    (host.options o).cwd = if host.copies .cwd then optionString (o.get .cwd) else none :=
  rfl

-- Without a string there is no directory to change to.
theorem optionString_none {v : JsValue} (h : ∀ text, v ≠ .string text) : optionString v = none := by
  cases v with
  | string text => exact absurd rfl (h text)
  | _ => rfl

theorem requests_other (h : ∀ text, o.get .cwd ≠ .string text) : host.Requests o host.start := by
  unfold Host.Requests
  split
  next text hcwd => exact absurd hcwd (h text)
  next => rfl

/-! ## execSync -/

theorem execSync_refused (hcommand : host.copiesCommand = false) (command : JsString) :
    (execSync host command o).cwd = host.start ∧ (execSync host command o).ranIn = none := by
  rw [execSync, hcommand]
  exact ⟨rfl, rfl⟩

theorem execSync_none (hcommand : host.copiesCommand = true) (hpopen : host.popen = none)
    (command : JsString) :
    (execSync host command o).ranIn = none ∧ (execSync host command o).cwd =
      host.leave (host.enter (host.options o).cwd) (host.options o).cwd := by
  rw [execSync, hcommand, hpopen]
  exact ⟨rfl, rfl⟩

theorem execSync_some {child : Child} (hcommand : host.copiesCommand = true)
    (hpopen : host.popen = some child) (command : JsString) :
    (execSync host command o).ranIn = some (host.enter (host.options o).cwd) ∧
      (RunsOut host.allocator (parseExecOptions o).maxBuffer child →
        (execSync host command o).cwd = host.enter (host.options o).cwd) ∧
      (¬ RunsOut host.allocator (parseExecOptions o).maxBuffer child →
        (execSync host command o).cwd =
          host.leave (host.enter (host.options o).cwd) (host.options o).cwd) := by
  rw [execSync, hcommand, hpopen]
  refine ⟨rfl, fun hout ↦ ?_, fun hnot ↦ ?_⟩
  · rcases afterPopen_cases host.allocator command (host.options o) child with ⟨-, hend⟩ | ⟨hnot, -⟩
    · dsimp only
      rw [hend]
      rfl
    · exact absurd hout hnot
  · rcases afterPopen_cases host.allocator command (host.options o) child with
      ⟨hout, -⟩ | ⟨-, ⟨hend, -⟩ | ⟨hend, -⟩⟩
    · exact absurd hout hnot
    · dsimp only
      rw [hend]
      rfl
    · dsimp only
      rw [hend]
      rfl

-- Without a directory in the options nothing is changed.
theorem execSync_stays {child : Child} (hcommand : host.copiesCommand = true)
    (hpopen : host.popen = some child) (hcwd : (host.options o).cwd = none) (command : JsString) :
    (execSync host command o).ranIn = some host.start ∧ (execSync host command o).cwd = host.start := by
  obtain ⟨hran, hout, hin⟩ := execSync_some (o := o) hcommand hpopen command
  rw [hcwd] at hran hout hin
  refine ⟨hran, ?_⟩
  by_cases hruns : RunsOut host.allocator (parseExecOptions o).maxBuffer child
  · exact hout hruns
  · exact hin hruns

-- What is kept comes down to the two directories.
theorem cwdKept_none (parent : δ) : CwdKept host o ⟨parent, none⟩ ↔ parent = host.start :=
  ⟨fun h ↦ h.parent, fun h ↦ ⟨h, fun _ hd ↦ nomatch hd⟩⟩

theorem cwdKept_some (parent : δ) :
    CwdKept host o ⟨parent, some d⟩ ↔ parent = host.start ∧ host.Requests o d := by
  constructor
  · exact fun h ↦ ⟨h.parent, h.child d rfl⟩
  · rintro ⟨hparent, hchild⟩
    refine ⟨hparent, fun d' hd ↦ ?_⟩
    rw [← Option.some.inj hd]
    exact hchild

theorem execSync_kept_other (h : ∀ text, o.get .cwd ≠ .string text) (command : JsString) :
    CwdKept host o ⟨(execSync host command o).cwd, (execSync host command o).ranIn⟩ := by
  have hcwd : (host.options o).cwd = none := by
    rw [options_cwd, optionString_none h, ite_self]
  cases hcommand : host.copiesCommand with
  | false =>
    obtain ⟨hparent, hran⟩ := execSync_refused (o := o) hcommand command
    rw [hparent, hran, cwdKept_none]
  | true =>
    cases hpopen : host.popen with
    | none =>
      obtain ⟨hran, hparent⟩ := execSync_none (o := o) hcommand hpopen command
      rw [hran, hparent, hcwd, cwdKept_none]
      rfl
    | some child =>
      obtain ⟨hran, hparent⟩ := execSync_stays hcommand hpopen hcwd command
      rw [hran, hparent, cwdKept_some]
      exact ⟨rfl, requests_other h⟩

section

variable {child : Child} (hstring : o.get .cwd = .string text) (hcommand : host.copiesCommand = true)
  (hpopen : host.popen = some child)

include hstring hcommand hpopen

-- The command runs where the change leads, and the parent stays there if the memory runs out.
theorem execSync_kept_copied (hcwd : (host.options o).cwd = some (toCString text)) {command : JsString} :
    CwdKept host o ⟨(execSync host command o).cwd, (execSync host command o).ranIn⟩ ↔
      ∃ d, host.Names text d ∧
        (¬ RunsOut host.allocator (parseExecOptions o).maxBuffer child → host.back d = host.start) ∧
        (RunsOut host.allocator (parseExecOptions o).maxBuffer child → d = host.start) := by
  obtain ⟨hran, hout, hin⟩ := execSync_some (o := o) hcommand hpopen command
  rw [hcwd] at hran hout hin
  rw [hran, cwdKept_some, requests_string hstring]
  constructor
  · rintro ⟨hparent, hnames⟩
    exact ⟨_, hnames, fun hnot ↦ (hin hnot).symm.trans hparent, fun hruns ↦ (hout hruns).symm.trans hparent⟩
  · rintro ⟨d, hnames, hback, hstay⟩
    rw [hnames.enter] at hout hin ⊢
    refine ⟨?_, hnames⟩
    by_cases hruns : RunsOut host.allocator (parseExecOptions o).maxBuffer child
    · exact (hout hruns).trans (hstay hruns)
    · exact (hin hruns).trans (hback hruns)

theorem execSync_kept_uncopied (hcwd : (host.options o).cwd = none) {command : JsString} :
    CwdKept host o ⟨(execSync host command o).cwd, (execSync host command o).ranIn⟩ ↔
      host.Names text host.start := by
  obtain ⟨hran, hparent⟩ := execSync_stays hcommand hpopen hcwd command
  rw [hran, hparent, cwdKept_some, requests_string hstring]
  exact and_iff_right rfl

end

theorem execSync_kept_string (hstring : o.get .cwd = .string text) (command : JsString) :
    CwdKept host o ⟨(execSync host command o).cwd, (execSync host command o).ranIn⟩ ↔
      ChangesBack host o text := by
  have hcwd : (host.options o).cwd = if host.copies .cwd then some (toCString text) else none := by
    rw [options_cwd, hstring]
    rfl
  unfold ChangesBack
  cases hcommand : host.copiesCommand with
  | false =>
    obtain ⟨hparent, hran⟩ := execSync_refused (o := o) hcommand command
    rw [hparent, hran, cwdKept_none]
    exact iff_of_true rfl fun h ↦ nomatch h
  | true =>
    rw [forall_prop_of_true rfl]
    cases hpopen : host.popen with
    | none =>
      obtain ⟨hran, hparent⟩ := execSync_none (o := o) hcommand hpopen command
      rw [hran, hparent, hcwd, cwdKept_none]
      cases host.copies .cwd with
      | true => exact ⟨fun h _ ↦ h, fun h ↦ h rfl⟩
      | false => exact iff_of_true rfl fun h ↦ nomatch h
    | some child =>
      cases hcopies : host.copies .cwd with
      | true =>
        rw [hcopies, if_pos rfl] at hcwd
        simp only [execSync_kept_copied hstring hcommand hpopen hcwd, forall_prop_of_true, reduceCtorEq,
          false_or]
      | false =>
        rw [hcopies] at hcwd
        rw [execSync_kept_uncopied hstring hcommand hpopen hcwd]
        constructor
        · intro hnames
          exact ⟨_, hnames, fun h ↦ (nomatch h), fun _ ↦ rfl⟩
        · rintro ⟨d, hnames, -, hstay⟩
          rw [← hstay (.inl rfl)]
          exact hnames

/-! ## spawn and spawnSync -/

-- Whatever `spawn` does with `shell`, it hands on the directory of its options.
theorem spawn_process (platform : Platform) (command : JsString) (args : List JsString) (o : Options) :
    ∃ process, (Launch.spawn platform command args o).1.process = some process ∧
      process.cwd = optionString (o.get .cwd) := by
  have hcwd : ∀ value, (o.set .shell value).get .cwd = o.get .cwd :=
    fun value ↦ o.get_set_of_ne (by decide) value
  unfold Launch.spawn
  dsimp only
  cases (o.get .shell).truthy with
  | true =>
    simp only [Bool.not_true, Bool.false_eq_true, if_false]
    repeat' split
    all_goals exact ⟨_, rfl, rfl⟩
  | false =>
    simp only [Bool.not_false, if_true]
    repeat' split
    all_goals exact ⟨_, rfl, by rw [spawnProcess, hcwd]⟩

theorem spawnSync_process (platform : Platform) (command : JsString) (args : List JsString)
    (o : Options) :
    ∃ process, (Launch.spawnSync platform command args o).1.process = some process ∧
      process.cwd = optionString (o.get .cwd) :=
  ⟨_, rfl, rfl⟩

end

section

variable {δ : Type} {platform : Platform} {host : ProcessHost δ} {o : Options} {effect : Effect}
  {process : ProcessArgs}

theorem runIn_eq (hprocess : effect.process = some process) :
    runIn platform host effect = if host.copiesCommand then
      createProcess platform host (if host.copies .cwd then process.cwd else none) else none := by
  rw [runIn, hprocess, Option.bind_some]

theorem runIn_kept_other (hprocess : effect.process = some process)
    (hcwd : process.cwd = optionString (o.get .cwd)) (h : ∀ text, o.get .cwd ≠ .string text) :
    CwdKept host.toHost o ⟨host.start, runIn platform host effect⟩ := by
  refine ⟨rfl, fun d hd ↦ ?_⟩
  have hstart : d = host.start := by
    rw [runIn_eq hprocess, hcwd, optionString_none h, ite_self] at hd
    obtain ⟨-, hd⟩ := Option.ite_none_right_eq_some.mp hd
    cases platform with
    | unix => exact (Option.some.inj (Option.ite_none_right_eq_some.mp hd).2).symm
    | windows => exact (Option.some.inj (Option.ite_none_right_eq_some.mp hd).2).symm
  rw [hstart]
  exact requests_other h

theorem createProcess_unix_kept {text : JsString} (hstring : o.get .cwd = .string text) :
    CwdKept host.toHost o ⟨host.start, createProcess .unix host
        (if host.copies .cwd then some (toCString text) else none)⟩ ↔
      (host.creates = true → host.execs = true →
        ∃ d, host.Names text d ∧ (host.copies .cwd = false → d = host.start)) := by
  unfold createProcess
  dsimp only
  by_cases hruns : host.creates = true ∧ host.execs = true
  · rw [if_pos hruns, cwdKept_some, requests_string hstring, forall_prop_of_true hruns.1,
      forall_prop_of_true hruns.2, and_iff_right rfl]
    constructor
    · intro hnames
      refine ⟨_, hnames, fun hcopies ↦ ?_⟩
      rw [hcopies]
      rfl
    · rintro ⟨d, hnames, hstay⟩
      cases hcopies : host.copies .cwd with
      | true =>
        rw [if_pos rfl, hnames.enter]
        exact hnames
      | false =>
        obtain rfl := hstay hcopies
        exact hnames
  · rw [if_neg hruns, cwdKept_none]
    exact iff_of_true rfl fun hcreates hexecs ↦ absurd ⟨hcreates, hexecs⟩ hruns

theorem createProcess_windows_kept {text : JsString} (hstring : o.get .cwd = .string text) :
    CwdKept host.toHost o ⟨host.start, createProcess .windows host
        (if host.copies .cwd then some (toCString text) else none)⟩ ↔
      (host.creates = true → if host.copies .cwd then
        (0 : UInt8) ∈ jsToCStringLen text → host.chdirIn (toCString text) = none
        else host.Names text host.start) := by
  unfold createProcess
  dsimp only
  cases hcreates : host.creates with
  | false => exact iff_of_true ((cwdKept_none _).mpr rfl) fun h ↦ nomatch h
  | true =>
    rw [forall_prop_of_true rfl, if_pos rfl]
    cases hcopies : host.copies .cwd with
    | false => rw [if_neg Bool.false_ne_true, if_neg Bool.false_ne_true, cwdKept_some,
        requests_string hstring, and_iff_right rfl]
    | true =>
      rw [if_pos rfl, if_pos rfl]
      dsimp only
      cases hchdir : host.chdirIn (toCString text) with
      | none => exact iff_of_true ((cwdKept_none _).mpr rfl) fun _ ↦ rfl
      | some d =>
        rw [cwdKept_some, requests_string hstring, and_iff_right rfl]
        constructor
        · exact fun hnames hnul ↦ absurd hnul hnames.1
        · intro h
          have hnul : (0 : UInt8) ∉ jsToCStringLen text := fun hmem ↦ nomatch h hmem
          exact ⟨hnul, by rw [← toCString_of_not_mem hnul, hchdir]⟩

theorem runIn_kept_string {text : JsString} (hprocess : effect.process = some process)
    (hcwd : process.cwd = optionString (o.get .cwd)) (hstring : o.get .cwd = .string text) :
    CwdKept host.toHost o ⟨host.start, runIn platform host effect⟩ ↔ MadeInside platform host text := by
  rw [runIn_eq hprocess, hcwd, hstring]
  unfold MadeInside
  cases host.copiesCommand with
  | false => exact iff_of_true ((cwdKept_none _).mpr rfl) fun h ↦ nomatch h
  | true =>
    rw [forall_prop_of_true rfl, if_pos rfl]
    cases platform with
    | unix => exact createProcess_unix_kept hstring
    | windows => exact createProcess_windows_kept hstring

/-- A call keeps the directory of the parent and runs the command in no other than the one asked for,
precisely if no directory is asked for, or the changes of directory made for it are safe. -/
theorem directories_kept_iff (platform : Platform) (host : ProcessHost δ) (o : Options)
    (call : CwdCall) :
    CwdKept host.toHost o (directories platform host o call) ↔
      ∀ text, o.get .cwd = .string text → CwdSafe platform host o text call := by
  by_cases hstring : ∃ text, o.get .cwd = .string text
  · obtain ⟨text, htext⟩ := hstring
    have hone : (∀ text', o.get .cwd = .string text' → CwdSafe platform host o text' call) ↔
        CwdSafe platform host o text call := by
      constructor
      · exact fun h ↦ h text htext
      · intro h text' htext'
        rw [← JsValue.string.inj (htext.symm.trans htext')]
        exact h
    rw [hone]
    cases call with
    | execSync command => exact execSync_kept_string htext command
    | spawn command args =>
      obtain ⟨process, hprocess, hcwd⟩ := spawn_process platform command args o
      exact runIn_kept_string hprocess hcwd htext
    | spawnSync command args =>
      obtain ⟨process, hprocess, hcwd⟩ := spawnSync_process platform command args o
      exact runIn_kept_string hprocess hcwd htext
  · rw [not_exists] at hstring
    refine iff_of_true ?_ fun text htext ↦ absurd htext (hstring text)
    cases call with
    | execSync command => exact execSync_kept_other hstring command
    | spawn command args =>
      obtain ⟨process, hprocess, hcwd⟩ := spawn_process platform command args o
      exact runIn_kept_other hprocess hcwd hstring
    | spawnSync command args =>
      obtain ⟨process, hprocess, hcwd⟩ := spawnSync_process platform command args o
      exact runIn_kept_other hprocess hcwd hstring

end

/-- A host on which every `chdir` fails and nothing else does. -/
def closedHost : ProcessHost Unit where
  start := ()
  copiesCommand := true
  copies _ := true
  getcwd := some (ascii "/")
  indeterminate := []
  chdirIn _ := none
  chdirOut _ _ := none
  popen := some echo
  allocator := echoHost.allocator
  creates := true
  execs := true

/-- `spawnSync("rm", ["-r", "build"], { cwd: "/gone" })` runs in the directory of the parent. -/
theorem directories_cwd_gone :
    ¬ ∀ (platform : Platform) (host : ProcessHost Unit) (o : Options) (call : CwdCall),
      CwdKept host.toHost o (directories platform host o call) := by
  intro h
  have hkept := h .unix closedHost (Options.empty.set .cwd (.string (toJsString "/gone")))
    (.spawnSync (toJsString "rm") [toJsString "-r", toJsString "build"])
  have hnames := (requests_string (Options.get_set_self _ _ _)).mp (hkept.child () rfl)
  exact nomatch hnames.2

end QNode.ChildProcess.ExecSync
