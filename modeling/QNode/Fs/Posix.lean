import QNode.Library.FileTree

/-!
# System calls on paths

Paths are C strings, without the NUL.  The calls follow POSIX, with the limits of Linux on the length
of a path and on the number of links it goes through; every permission is granted.
-/

open FileTree

namespace QNode.Fs

/-- What an entry of a directory can be called: no slash, no NUL, and not `.` or `..`. -/
def IsName (bytes : List UInt8) : Prop :=
  bytes ≠ [] ∧ bytes ≠ [46] ∧ bytes ≠ [46, 46] ∧ 47 ∉ bytes ∧ 0 ∉ bytes ∧ bytes.length ≤ 255

instance (bytes : List UInt8) : Decidable (IsName bytes) := by
  unfold IsName
  infer_instance

@[ext]
structure Name where
  bytes : List UInt8
  valid : IsName bytes
  deriving DecidableEq

abbrev FileSystem : Type := Tree Name (List UInt8)

/-- The parts of a path between its slashes, empty ones included. -/
def segments : List UInt8 → List (List UInt8)
  | [] => [[]]
  | c :: cs =>
    if c = 47 then [] :: segments cs
    else match segments cs with
      | [] => [[c]]
      | seg :: segs => (c :: seg) :: segs

def parseComp (seg : List UInt8) : Comp Name :=
  if seg = [46] then .here
  else if seg = [46, 46] then .up
  else if valid : IsName seg then .name ⟨seg, valid⟩
  else .bad

def parsePath (path : List UInt8) : Path Name where
  absolute := path.head? = some 47
  comps := ((segments path).filter fun seg ↦ seg ≠ []).map parseComp
  slash := path.getLast? = some 47

def pathMax : Nat := 4096

def maxLinks : Nat := 40

/-- The location from which a path is resolved. -/
def startOf (cwd : Loc Name) (path : List UInt8) : Loc Name :=
  if (parsePath path).absolute then [] else cwd

section

variable (fs : FileSystem) (cwd : Loc Name)

/-- The location that the first components of a path lead to. -/
def locate (follow : Bool) (path : List UInt8) (comps : List (Comp Name)) : Except Errno (Loc Name) :=
  if path = [] then .error .noent
  else if path.length ≥ pathMax then .error .nametoolong
  else fs.walk follow maxLinks (if (parsePath path).absolute then [] else cwd) comps

def stat (path : List UInt8) : Except Errno (Node Name (List UInt8)) :=
  match locate fs cwd true path (parsePath path).full with
  | .error err => .error err
  | .ok ℓ =>
    match fs.lookup ℓ with
    | none => .error .noent
    | some node => .ok node

/-- The directory that `opendir` opens. -/
def opendir (path : List UInt8) : Except Errno (Loc Name) :=
  match locate fs cwd true path (parsePath path).full with
  | .error err => .error err
  | .ok ℓ =>
    match fs.lookup ℓ with
    | none => .error .noent
    | some .dir => .ok ℓ
    | some _ => .error .notdir

/-- What the calls of `readdir` return, in some order. -/
def dirEntries (ℓ : Loc Name) : List (List UInt8) := [46] :: [46, 46] :: (fs.children ℓ).map Name.bytes

/-- The entry that `unlink` removes. -/
def unlinkTarget (path : List UInt8) : Except Errno (Loc Name) :=
  match locate fs cwd false path (parsePath path).comps with
  | .error err => .error err
  | .ok ℓ =>
    match fs.lookup ℓ with
    | none => .error .noent
    | some .dir => .error .isdir
    | some _ => if (parsePath path).slash then .error .notdir else .ok ℓ

def unlink (path : List UInt8) : Except Errno FileSystem := (unlinkTarget fs cwd path).map fs.erase

/-- The directory that `rmdir` removes. -/
def rmdirTarget (path : List UInt8) : Except Errno (Loc Name) :=
  match (parsePath path).comps.getLast? with
  | some .here => .error .inval
  | some .up => .error .notempty
  | _ =>
    match locate fs cwd false path (parsePath path).comps with
    | .error err => .error err
    | .ok [] => .error .busy
    | .ok (n :: ℓ) =>
      match fs.lookup (n :: ℓ) with
      | none => .error .noent
      | some .dir => if fs.children (n :: ℓ) = [] then .ok (n :: ℓ) else .error .notempty
      | some _ => .error .notdir

def rmdir (path : List UInt8) : Except Errno FileSystem := (rmdirTarget fs cwd path).map fs.erase

end

/-! ## Paths with a component added -/

theorem full_of_slash {path : List UInt8} (h : (parsePath path).slash = false) :
    (parsePath path).full = (parsePath path).comps := by
  rw [Path.full, h]
  exact List.append_nil _

theorem segments_ne_nil (path : List UInt8) : segments path ≠ [] := by
  cases path with
  | nil => exact List.cons_ne_nil _ _
  | cons c cs =>
    unfold segments
    split
    · exact List.cons_ne_nil _ _
    · split <;> exact List.cons_ne_nil _ _

theorem segments_append (path name : List UInt8) :
    segments (path ++ 47 :: name) = segments path ++ segments name := by
  induction path with
  | nil => rfl
  | cons c cs ih =>
    rw [List.cons_append, segments, segments, ih]
    by_cases hc : c = 47
    · rw [if_pos hc, if_pos hc]
      rfl
    · rw [if_neg hc, if_neg hc]
      cases hsegs : segments cs with
      | nil => exact absurd hsegs (segments_ne_nil cs)
      | cons seg segs => rfl

theorem comps_append (path name : List UInt8) :
    (parsePath (path ++ 47 :: name)).comps = (parsePath path).comps ++ (parsePath name).comps := by
  simp only [parsePath, segments_append, List.filter_append, List.map_append]

theorem comps_slash (path : List UInt8) :
    (parsePath (path ++ [47])).comps = (parsePath path).comps := by
  rw [comps_append]
  exact List.append_nil _

theorem segments_of_not_mem {seg : List UInt8} (h : 47 ∉ seg) : segments seg = [seg] := by
  induction seg with
  | nil => rfl
  | cons c seg ih =>
    rw [List.mem_cons, not_or] at h
    rw [segments, if_neg (Ne.symm h.1), ih h.2]

theorem comps_of_not_mem {seg : List UInt8} (h : 47 ∉ seg) (hne : seg ≠ []) :
    (parsePath seg).comps = [parseComp seg] := by
  have hfilter : [seg].filter (fun seg ↦ seg ≠ []) = [seg] := by simp [hne]
  unfold parsePath
  dsimp only
  rw [segments_of_not_mem h, hfilter]
  rfl

theorem startOf_append {cwd : Loc Name} {path : List UInt8} (h : path ≠ []) (rest : List UInt8) :
    startOf cwd (path ++ rest) = startOf cwd path := by
  cases path with
  | nil => exact absurd rfl h
  | cons c path => rfl

/-! ## Calls in a tree with fewer entries -/

section

variable {fs fs' : FileSystem} {cwd : Loc Name} {follow : Bool} {path : List UInt8}
  {comps : List (Comp Name)} {ℓ : Loc Name}

theorem locate_eq_ok_iff : locate fs cwd follow path comps = .ok ℓ ↔
    path ≠ [] ∧ path.length < pathMax ∧ fs.Resolves follow maxLinks (startOf cwd path) comps ℓ := by
  unfold locate
  by_cases hempty : path = []
  · simp [hempty]
  by_cases hlong : path.length ≥ pathMax
  · rw [if_neg hempty, if_pos hlong]
    exact ⟨(fun h ↦ nomatch h), fun h ↦ absurd h.2.1 (Nat.not_lt_of_le hlong)⟩
  · rw [if_neg hempty, if_neg hlong, Tree.walk_eq_ok_iff]
    exact ⟨fun h ↦ ⟨hempty, Nat.lt_of_not_le hlong, h⟩, fun h ↦ h.2.2⟩

theorem locate_mono (h : locate fs' cwd follow path comps = .ok ℓ) (hle : fs'.Le fs) :
    locate fs cwd follow path comps = .ok ℓ := by
  rw [locate_eq_ok_iff] at h ⊢
  exact ⟨h.1, h.2.1, h.2.2.mono hle⟩

theorem stat_eq_ok_iff {node : Node Name (List UInt8)} : stat fs cwd path = .ok node ↔
    ∃ ℓ, locate fs cwd true path (parsePath path).full = .ok ℓ ∧ fs.lookup ℓ = some node := by
  unfold stat
  cases locate fs cwd true path (parsePath path).full with
  | error err => simp
  | ok ℓ => cases hnode : fs.lookup ℓ <;> simp [hnode]

theorem opendir_eq_ok_iff : opendir fs cwd path = .ok ℓ ↔
    locate fs cwd true path (parsePath path).full = .ok ℓ ∧ fs.lookup ℓ = some .dir := by
  unfold opendir
  cases locate fs cwd true path (parsePath path).full with
  | error err => simp
  | ok found =>
    dsimp only
    rw [Except.ok.injEq]
    constructor
    · intro h
      split at h
      next => cases h
      next hdir =>
        obtain rfl := Except.ok.inj h
        exact ⟨rfl, hdir⟩
      next => cases h
    · rintro ⟨rfl, hdir⟩
      rw [hdir]

theorem unlinkTarget_eq_ok_iff : unlinkTarget fs cwd path = .ok ℓ ↔
    locate fs cwd false path (parsePath path).comps = .ok ℓ ∧ (parsePath path).slash = false ∧
      ∃ node, fs.lookup ℓ = some node ∧ node ≠ .dir := by
  unfold unlinkTarget
  cases locate fs cwd false path (parsePath path).comps with
  | error err => simp
  | ok found =>
    dsimp only
    rw [Except.ok.injEq]
    constructor
    · intro h
      split at h
      next => cases h
      next => cases h
      next node hdir hnode =>
        split at h
        next => cases h
        next hslash =>
          obtain rfl := Except.ok.inj h
          exact ⟨rfl, by simpa using hslash, node, hnode, hdir⟩
    · rintro ⟨rfl, hslash, node, hnode, hdir⟩
      rw [hnode, hslash]
      cases node with
      | dir => exact absurd rfl hdir
      | file content => rfl
      | link target => rfl

theorem rmdirTarget_eq_ok_iff : rmdirTarget fs cwd path = .ok ℓ ↔
    (parsePath path).comps.getLast? ≠ some .here ∧ (parsePath path).comps.getLast? ≠ some .up ∧
      locate fs cwd false path (parsePath path).comps = .ok ℓ ∧ ℓ ≠ [] ∧ fs.lookup ℓ = some .dir ∧
        fs.children ℓ = [] := by
  unfold rmdirTarget
  split
  next hlast => simp [hlast]
  next hlast => simp [hlast]
  next hhere hup =>
    rw [and_iff_right hhere, and_iff_right hup]
    cases locate fs cwd false path (parsePath path).comps with
    | error err => simp
    | ok found =>
      rw [Except.ok.injEq]
      cases found with
      | nil =>
        refine ⟨(fun h ↦ nomatch h), ?_⟩
        rintro ⟨rfl, hroot, -⟩
        exact absurd rfl hroot
      | cons n parent =>
        dsimp only
        constructor
        · intro h
          split at h
          next => cases h
          next hdir =>
            split at h
            next hempty =>
              obtain rfl := Except.ok.inj h
              exact ⟨rfl, List.cons_ne_nil _ _, hdir, hempty⟩
            next => cases h
          next => cases h
        · rintro ⟨rfl, -, hdir, hempty⟩
          rw [hdir]
          exact if_pos hempty

end

end QNode.Fs
