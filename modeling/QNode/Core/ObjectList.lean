import Mathlib.Data.List.Basic
import Mathlib.Data.List.GetD
import QNode.Library.LastIndex

/-!
# The list of objects written

The writer of values numbers the objects it meets.  The list holds them in order, with a hash table whose
chains run through the entries from the last one backwards.
-/

open LastIndex

namespace QNode.Core

/-- A `JSObject *`. -/
abbrev Ptr := Nat

/-- `hashNext` is `none` where the source has -1. -/
structure JSObjectListEntry where
  obj : Ptr
  hashNext : Option Nat
  deriving DecidableEq, Repr

structure JSObjectList where
  objectTab : List JSObjectListEntry
  hashTable : List (Option Nat)
  deriving DecidableEq, Repr

namespace JSObjectList

def init : JSObjectList := ⟨[], []⟩

def objectCount (s : JSObjectList) : Nat := s.objectTab.length

def hashSize (s : JSObjectList) : Nat := s.hashTable.length

/-- The objects in the order in which they were added. -/
def objs (s : JSObjectList) : List Ptr := s.objectTab.map JSObjectListEntry.obj

end JSObjectList

open JSObjectList

section

-- where an object lies in memory
variable (address : Ptr → UInt64)

def jsObjectListGetHash (p : Ptr) (hashSize : Nat) : Nat :=
  (address p * 3163 &&& UInt64.ofNat (hashSize - 1)).toNat

/-- Entry `i` becomes the head of its chain. -/
def linkEntry (s : JSObjectList) (i : Nat) : JSObjectList :=
  match s.objectTab[i]? with
  | none => s
  | some e =>
    let h := jsObjectListGetHash address e.obj s.hashSize
    { objectTab := s.objectTab.set i { e with hashNext := s.hashTable.getD h none }
      hashTable := s.hashTable.set h (some i) }

def jsObjectListResizeHash (s : JSObjectList) (newHashSize : Nat) : JSObjectList :=
  (List.range s.objectCount).foldl (linkEntry address)
    { s with hashTable := List.replicate newHashSize none }

/-- `while (new_hash_size <= s->object_count) new_hash_size *= 2` -/
def growHashSize (newHashSize objectCount : Nat) : Nat :=
  if 0 < newHashSize ∧ newHashSize ≤ objectCount then growHashSize (newHashSize * 2) objectCount
  else newHashSize
termination_by objectCount + 1 - newHashSize
decreasing_by omega

/-- `js_object_list_add` from the point where the table is large enough. -/
def pushEntry (s : JSObjectList) (obj : Ptr) : JSObjectList :=
  let h := jsObjectListGetHash address obj s.hashSize
  { objectTab := s.objectTab ++ [⟨obj, s.hashTable.getD h none⟩]
    hashTable := s.hashTable.set h (some s.objectCount) }

def jsObjectListAdd (s : JSObjectList) (obj : Ptr) : JSObjectList :=
  if s.objectCount + 1 ≥ s.hashSize then
    pushEntry address
      (jsObjectListResizeHash address s (growHashSize (max s.hashSize 4) s.objectCount)) obj
  else pushEntry address s obj

/-- The index of the object; `none` where the source answers -1. -/
def jsObjectListFind (s : JSObjectList) (obj : Ptr) : Option Nat :=
  if s.objectCount = 0 then none
  else
    walk (fun i ↦ s.objs[i]? == some obj) (fun i ↦ s.objectTab[i]?.bind JSObjectListEntry.hashNext)
      s.objectCount (s.hashTable.getD (jsObjectListGetHash address obj s.hashSize) none)

end

section

variable (address : Ptr → UInt64)

theorem jsObjectListGetHash_lt {p : Ptr} {hashSize : Nat} (h : 0 < hashSize) :
    jsObjectListGetHash address p hashSize < hashSize := by
  have hmask : (UInt64.ofNat (hashSize - 1)).toNat ≤ hashSize - 1 := by
    rw [UInt64.toNat_ofNat']
    exact Nat.mod_le _ _
  have hand : jsObjectListGetHash address p hashSize ≤ (UInt64.ofNat (hashSize - 1)).toNat := by
    rw [jsObjectListGetHash, UInt64.toNat_and]
    exact Nat.and_le_right
  omega

theorem le_growHashSize (newHashSize objectCount : Nat) :
    newHashSize ≤ growHashSize newHashSize objectCount := by
  fun_induction growHashSize newHashSize objectCount with
  | case1 n h ih => omega
  | case2 n h => exact Nat.le_refl n

/-! ## Chains -/

/-- The chain that an entry belongs to. -/
def bucket (s : JSObjectList) (i : Nat) : Option Nat :=
  s.objs[i]?.map fun p ↦ jsObjectListGetHash address p s.hashSize

/-- The first `n` entries are linked, each to the one before it in its chain. -/
structure Linked (s : JSObjectList) (n : Nat) : Prop where
  heads : ∀ b < s.hashSize,
    s.hashTable[b]? = some (lastBelow (fun i ↦ bucket address s i == some b) n)
  nexts : ∀ i < n, s.objectTab[i]?.bind JSObjectListEntry.hashNext =
    lastBelow (fun j ↦ bucket address s j == bucket address s i) i

theorem objs_getElem? (s : JSObjectList) (i : Nat) :
    s.objs[i]? = s.objectTab[i]?.map JSObjectListEntry.obj := by
  rw [objs, List.getElem?_map]

theorem length_objs (s : JSObjectList) : s.objs.length = s.objectCount := by
  rw [objs, List.length_map, objectCount]

-- Linking one entry more leaves the objects and their chains as they are.
theorem linkEntry_objs (s : JSObjectList) (i : Nat) : (linkEntry address s i).objs = s.objs := by
  unfold linkEntry
  split
  · rfl
  · next e he =>
    rw [objs, objs, List.map_set]
    apply List.ext_getElem?
    intro j
    rw [List.getElem?_set]
    split
    · next hij =>
      subst hij
      rw [List.getElem?_map, he]
      obtain ⟨hlt, -⟩ := List.getElem?_eq_some_iff.mp he
      rw [if_pos (by rw [List.length_map]; exact hlt), Option.map_some]
    · rfl

theorem linkEntry_hashSize (s : JSObjectList) (i : Nat) :
    (linkEntry address s i).hashSize = s.hashSize := by
  unfold linkEntry
  split
  · rfl
  · rw [hashSize, List.length_set, hashSize]

theorem linkEntry_bucket (s : JSObjectList) (i : Nat) :
    bucket address (linkEntry address s i) = bucket address s := by
  funext j
  rw [bucket, bucket, linkEntry_objs, linkEntry_hashSize]

end

variable {address : Ptr → UInt64}

theorem Linked.linkEntry {s : JSObjectList} {n : Nat} (h : Linked address s n)
    (hn : n < s.objectCount) (hsize : 0 < s.hashSize) :
    Linked address (linkEntry address s n) (n + 1) := by
  obtain ⟨e, he⟩ : ∃ e, s.objectTab[n]? = some e := ⟨_, List.getElem?_eq_getElem hn⟩
  have hhash := jsObjectListGetHash_lt address (p := e.obj) hsize
  have hbucket : bucket address s n = some (jsObjectListGetHash address e.obj s.hashSize) := by
    rw [bucket, objs_getElem?, he]
    rfl
  have hold := h.heads _ hhash
  have hstep : Core.linkEntry address s n =
      ⟨s.objectTab.set n
          ⟨e.obj, s.hashTable.getD (jsObjectListGetHash address e.obj s.hashSize) none⟩,
        s.hashTable.set (jsObjectListGetHash address e.obj s.hashSize) (some n)⟩ := by
    rw [Core.linkEntry, he]
  have hsame := linkEntry_bucket address s n
  constructor
  · intro b hb
    rw [linkEntry_hashSize] at hb
    rw [hsame]
    by_cases heq : jsObjectListGetHash address e.obj s.hashSize = b
    · rw [lastBelow_succ_pos (by rw [hbucket, heq]; exact beq_self_eq_true _), hstep, ← heq]
      exact List.getElem?_set_self hhash
    · rw [lastBelow_succ_neg (by rw [hbucket]; simpa using heq), hstep, List.getElem?_set_ne heq]
      exact h.heads b hb
  · intro i hi
    rw [hsame, hstep]
    by_cases heq : i = n
    · subst heq
      rw [List.getElem?_set_self hn, Option.bind_some, List.getD_eq_getElem?_getD, hold,
        Option.getD_some, hbucket]
    · rw [List.getElem?_set_ne (Ne.symm heq)]
      exact h.nexts i (by omega)

-- The loop of `js_object_list_resize_hash`, by induction on the entries that are linked.
theorem linked_foldl {s : JSObjectList} (hempty : Linked address s 0) (hsize : 0 < s.hashSize)
    {n : Nat} (hn : n ≤ s.objectCount) :
    let t := (List.range n).foldl (linkEntry address) s
    Linked address t n ∧ t.objs = s.objs ∧ t.hashSize = s.hashSize := by
  induction n with
  | zero => exact ⟨hempty, rfl, rfl⟩
  | succ n ih =>
    obtain ⟨hlinked, hobjs, hhash⟩ := ih (by omega)
    rw [List.range_succ, List.foldl_append, List.foldl_cons, List.foldl_nil]
    refine ⟨hlinked.linkEntry ?_ (by rw [hhash]; exact hsize), ?_, ?_⟩
    · rw [← length_objs, hobjs, length_objs]
      exact hn
    · rw [linkEntry_objs, hobjs]
    · rw [linkEntry_hashSize, hhash]

theorem linked_empty (address : Ptr → UInt64) (entries : List JSObjectListEntry) (n : Nat) :
    Linked address ⟨entries, List.replicate n none⟩ 0 := by
  constructor
  · intro b hb
    rw [hashSize, List.length_replicate] at hb
    exact List.getElem?_replicate_of_lt hb
  · intro i hi
    cases hi

/-- All entries are linked, and there is a table as soon as there is an entry. -/
structure Consistent (address : Ptr → UInt64) (s : JSObjectList) : Prop where
  linked : Linked address s s.objectCount
  table : 0 < s.objectCount → 0 < s.hashSize

theorem consistent_init : Consistent address init := ⟨linked_empty address [] 0, fun h ↦ h⟩

theorem pushEntry_objs (s : JSObjectList) (obj : Ptr) :
    (pushEntry address s obj).objs = s.objs ++ [obj] := by
  rw [pushEntry, objs, List.map_append]
  rfl

-- What is added is linked to the entries before it.
theorem Consistent.pushEntry {s : JSObjectList} (h : Consistent address s) (hsize : 0 < s.hashSize)
    (obj : Ptr) : Consistent address (pushEntry address s obj) := by
  -- adding is appending an entry without a link and then linking it
  let t : JSObjectList := { s with objectTab := s.objectTab ++ [⟨obj, none⟩] }
  have hcount : t.objectCount = s.objectCount + 1 := List.length_append
  have hobjs : ∀ i < s.objectCount, t.objs[i]? = s.objs[i]? := by
    intro i hi
    rw [objs_getElem?, objs_getElem?, List.getElem?_append_left hi]
  have hbucket : ∀ i < s.objectCount, bucket address t i = bucket address s i := by
    intro i hi
    rw [bucket, bucket, hobjs i hi]
    rfl
  have hlinked : Linked address t s.objectCount := by
    constructor
    · intro b hb
      rw [lastBelow_congr fun i hi ↦ by rw [hbucket i hi]]
      exact h.linked.heads b hb
    · intro i hi
      rw [List.getElem?_append_left hi, lastBelow_congr fun j hj ↦ by
        rw [hbucket j (Nat.lt_trans hj hi), hbucket i hi]]
      exact h.linked.nexts i hi
  have hlast : t.objectTab[s.objectCount]? = some ⟨obj, none⟩ := List.getElem?_concat_length
  have hstep : linkEntry address t s.objectCount = Core.pushEntry address s obj := by
    rw [linkEntry, hlast, Core.pushEntry]
    dsimp only
    rw [objectCount, List.set_append_right _ _ (Nat.le_refl _), Nat.sub_self]
    rfl
  have hnext := hlinked.linkEntry (by omega) hsize
  rw [hstep, ← hcount, ← length_objs, ← linkEntry_objs address t s.objectCount, hstep,
    length_objs] at hnext
  refine ⟨hnext, fun _ ↦ ?_⟩
  rw [Core.pushEntry, hashSize, List.length_set]
  exact hsize

theorem Consistent.jsObjectListAdd {s : JSObjectList} (h : Consistent address s) (obj : Ptr) :
    Consistent address (jsObjectListAdd address s obj) ∧
      (jsObjectListAdd address s obj).objs = s.objs ++ [obj] := by
  unfold Core.jsObjectListAdd
  by_cases hgrow : s.objectCount + 1 ≥ s.hashSize
  · have hle := le_growHashSize (max s.hashSize 4) s.objectCount
    let n := growHashSize (max s.hashSize 4) s.objectCount
    have hsize : 0 < (⟨s.objectTab, List.replicate n none⟩ : JSObjectList).hashSize := by
      rw [hashSize, List.length_replicate]
      omega
    obtain ⟨hlinked, hobjs, hhash⟩ := linked_foldl
      (linked_empty address s.objectTab n) hsize (Nat.le_refl s.objectCount)
    have hkept : (jsObjectListResizeHash address s n).objs = s.objs := hobjs
    have hcount : (jsObjectListResizeHash address s n).objectCount = s.objectCount := by
      rw [← length_objs, hkept, length_objs]
    have hsize' : 0 < (jsObjectListResizeHash address s n).hashSize :=
      Nat.lt_of_lt_of_eq hsize hhash.symm
    have hconsistent : Consistent address (jsObjectListResizeHash address s n) := by
      refine ⟨?_, fun _ ↦ hsize'⟩
      rw [hcount]
      exact hlinked
    rw [if_pos hgrow, pushEntry_objs, hkept]
    exact ⟨hconsistent.pushEntry hsize' obj, rfl⟩
  · rw [if_neg hgrow, pushEntry_objs]
    exact ⟨h.pushEntry (by omega) obj, rfl⟩

-- A chain leads to the last entry of an object.
theorem Consistent.jsObjectListFind {s : JSObjectList} (h : Consistent address s) (obj : Ptr) :
    jsObjectListFind address s obj = lastBelow (fun i ↦ s.objs[i]? == some obj) s.objectCount := by
  unfold Core.jsObjectListFind
  by_cases hcount : s.objectCount = 0
  · rw [if_pos hcount, hcount]
    rfl
  · have hhash := jsObjectListGetHash_lt address (p := obj)
      (h.table (Nat.pos_of_ne_zero hcount))
    rw [if_neg hcount, List.getD_eq_getElem?_getD, h.linked.heads _ hhash, Option.getD_some]
    apply walk_eq_lastBelow _ _ _ (Nat.le_refl _)
    · intro i hi hobj
      rw [bucket, eq_of_beq hobj]
      exact beq_self_eq_true _
    · intro i hi hb
      rw [h.linked.nexts i hi, eq_of_beq hb]

theorem Consistent.jsObjectListFind_eq_none_iff {s : JSObjectList} (h : Consistent address s)
    (obj : Ptr) : Core.jsObjectListFind address s obj = none ↔ obj ∉ s.objs := by
  rw [h.jsObjectListFind, lastBelow_eq_none_iff, List.mem_iff_getElem?, not_exists]
  refine ⟨fun hall i hi ↦ ?_, fun hall i _ hi ↦ hall i (eq_of_beq hi)⟩
  obtain ⟨hlt, -⟩ := List.getElem?_eq_some_iff.mp hi
  rw [length_objs] at hlt
  exact hall i hlt (beq_iff_eq.mpr hi)

theorem Consistent.jsObjectListFind_eq_some {s : JSObjectList} (h : Consistent address s)
    {obj : Ptr} {i : Nat} (hfind : Core.jsObjectListFind address s obj = some i) :
    s.objs[i]? = some obj := by
  rw [h.jsObjectListFind] at hfind
  exact eq_of_beq (lastBelow_eq_some hfind).2

-- However the table grows on the way, after any additions an object is found at its last position, and
-- one that was not added is not found.
theorem find_after_adds (address : Ptr → UInt64) (added : List Ptr) (obj : Ptr) :
    Core.jsObjectListFind address (added.foldl (Core.jsObjectListAdd address) init) obj =
      lastBelow (fun i ↦ added[i]? == some obj) added.length := by
  have hrun : ∀ s : JSObjectList, Consistent address s →
      Consistent address (added.foldl (Core.jsObjectListAdd address) s) ∧
        (added.foldl (Core.jsObjectListAdd address) s).objs = s.objs ++ added := by
    induction added with
    | nil => exact fun s hs ↦ ⟨hs, (List.append_nil _).symm⟩
    | cons p added ih =>
      intro s hs
      obtain ⟨hconsistent, hobjs⟩ := hs.jsObjectListAdd p
      obtain ⟨hend, hend'⟩ := ih _ hconsistent
      refine ⟨hend, ?_⟩
      rw [List.foldl_cons, hend', hobjs, List.append_assoc, List.singleton_append]
  obtain ⟨hconsistent, hobjs⟩ := hrun init consistent_init
  rw [hconsistent.jsObjectListFind, ← length_objs, hobjs]
  rfl

end QNode.Core
