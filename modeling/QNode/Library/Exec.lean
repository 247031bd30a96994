import Mathlib.Data.List.Basic

/-!
# Which program `execve` and `execvp` start

`execve` tries the path it is given.  `execvp` tries a name without a slash in the directories of `PATH`,
and hands a file that has no known header to the shell.
-/

namespace Exec

/-- What the kernel says to a path: it starts it, or one of `ENOEXEC`, `EACCES`, `ENOENT` (and its like),
another error. -/
inductive Attempt where
  | runs
  | noHeader
  | denied
  | absent
  | fails
deriving DecidableEq

/-- The program that is found: its path, and whether the shell reads it. -/
structure Found where
  path : List UInt8
  byShell : Bool
deriving DecidableEq

def slash : UInt8 := 47

/-- The two paths and the list of directories that the C library has of its own. -/
def shell : List UInt8 := [47, 98, 105, 110, 47, 115, 104]

def defaultPath : List UInt8 := [47, 98, 105, 110, 58, 47, 117, 115, 114, 47, 98, 105, 110]

section

variable (files : List UInt8 → Attempt)

/-- `execve`. -/
def direct (path : List UInt8) : Option Found :=
  if files path = .runs then some ⟨path, false⟩ else none

/-- The loop of `execvp`: a path that is denied or absent is passed over. -/
def search : List (List UInt8) → Option Found
  | [] => none
  | path :: paths =>
    match files path with
    | .runs => some ⟨path, false⟩
    | .noHeader =>
      match files shell with
      | .runs => some ⟨path, true⟩
      | .denied | .absent => search paths
      | .noHeader | .fails => none
    | .denied | .absent => search paths
    | .fails => none

/-- The paths that `execvp` tries; an empty element of `PATH` is the working directory. -/
def candidates (path : Option (List UInt8)) (file : List UInt8) : List (List UInt8) :=
  if file = [] then []
  else if slash ∈ file then [file]
  else ((path.getD defaultPath).splitOn 58).map fun dir ↦
    if dir = [] then file else dir ++ slash :: file

/-- `execvp` with the variable `PATH` of the process. -/
def searched (path : Option (List UInt8)) (file : List UInt8) : Option Found :=
  search files (candidates path file)

variable {files}

theorem mem_of_search {paths : List (List UInt8)} {found : Found}
    (h : search files paths = some found) : found.path ∈ paths := by
  induction paths with
  | nil => cases h
  | cons path paths ih =>
    have hrest : search files paths = some found → found.path ∈ path :: paths :=
      fun h ↦ List.mem_cons_of_mem _ (ih h)
    have hhere : ∀ byShell, some (Found.mk path byShell) = some found →
        found.path ∈ path :: paths := by
      intro byShell heq
      rw [← Option.some.inj heq]
      exact List.mem_cons_self
    unfold search at h
    split at h
    · exact hhere false h
    · split at h
      · exact hhere true h
      · exact hrest h
      · exact hrest h
      · cases h
      · cases h
    · exact hrest h
    · exact hrest h
    · cases h

-- A path is tried as it is; only the shell makes a difference.
theorem searched_eq_direct_iff_of_slash {file : List UInt8} (hslash : slash ∈ file)
    (path : Option (List UInt8)) :
    searched files path file = direct files file ↔
      ¬ (files file = .noHeader ∧ files shell = .runs) := by
  have hne : file ≠ [] := List.ne_nil_of_mem hslash
  unfold searched candidates direct
  rw [if_neg hne, if_pos hslash, search]
  cases files file with
  | noHeader => cases files shell <;> simp [search]
  | runs => simp
  | denied => simp [search]
  | absent => simp [search]
  | fails => simp

-- A name is looked for in `PATH` only by `execvp`.
theorem searched_eq_direct_iff_of_name {file : List UInt8} (hslash : slash ∉ file)
    {path : Option (List UInt8)} (hdirs : [] ∉ (path.getD defaultPath).splitOn 58) :
    searched files path file = direct files file ↔
      searched files path file = none ∧ direct files file = none := by
  constructor
  · intro h
    cases hfound : searched files path file with
    | none => exact ⟨rfl, h.symm.trans hfound⟩
    | some found =>
      have hdirect := h.symm.trans hfound
      unfold direct at hdirect
      split at hdirect
      · have hmem := mem_of_search hfound
        obtain rfl := Option.some.inj hdirect
        by_cases hempty : file = []
        · rw [candidates, if_pos hempty] at hmem
          cases hmem
        · rw [candidates, if_neg hempty, if_neg hslash] at hmem
          obtain ⟨dir, hdir, heq⟩ := List.mem_map.mp hmem
          rw [if_neg (by rintro rfl; exact hdirs hdir)] at heq
          have hlen : (dir ++ slash :: file).length = file.length := congrArg List.length heq
          rw [List.length_append, List.length_cons] at hlen
          omega
      · cases hdirect
  · rintro ⟨hs, hd⟩
    rw [hs, hd]

end

end Exec
