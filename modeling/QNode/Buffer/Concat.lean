import Mathlib.Algebra.Order.BigOperators.Group.List
import Mathlib.Algebra.Order.Ring.Nat
import QNode.Buffer.From

/-!
# Buffer.concat

Two passes over the list: the first adds up the lengths, the second copies until the new Buffer is
full.  Both take the length of an item from `js_buffer_get_bytes`, which for a typed array that
tracks a resizable buffer is the length it was created with.
-/

open QNode.Engine Word Splice

namespace QNode.Buffer

/-- A JavaScript array has fewer than `2^32` elements. -/
structure JsArray where
  elements : List JsArg
  bounded : elements.length < 2 ^ 32

/-- The first pass. -/
def concatTotal (heap : Heap) : List JsArg → Nat
  | [] => 0
  | item :: rest =>
    match jsBufferGetBytes heap item with
    | some p => p.length + concatTotal heap rest
    | none => concatTotal heap rest

/-- The second pass, from position `offset` on. -/
def concatCopy (heap : Heap) (total : Nat) : List JsArg → List UInt8 → Nat →
    List UInt8 × List Access
  | [], dst, _ => (dst, [])
  | item :: rest, dst, offset =>
    if offset < total then
      match jsBufferGetBytes heap item with
      | some src =>
        let toCopy := if offset + src.length ≤ total then src.length else total - offset
        let copied := concatCopy heap total rest (splice dst offset (src.read heap 0 toCopy))
          (offset + toCopy)
        (copied.1, src.access heap 0 toCopy :: copied.2)
      | none => concatCopy heap total rest dst offset
    else (dst, [])

/-- `js_buffer_concat`.  The lengths of fewer than `2^32` items add up without overflow. -/
def jsBufferConcat (heap : Heap) (list : JsArray) (totalLength : JsArg) : Ran (List UInt8) :=
  if list.elements.length = 0 then ⟨jsBufferCreate 0, heap, []⟩
  else
    let (total, heap) := jsToInt64Or heap totalLength (-1)
    let total := if total < 0 then (concatTotal heap list.elements : Int) else total
    match jsBufferCreate (sizeT total) with
    | .ok dst =>
      let copied := concatCopy heap (sizeT total) list.elements dst 0
      ⟨.ok copied.1, heap, copied.2⟩
    | .throw e => ⟨.throw e, heap, []⟩
    | .abort => ⟨.abort, heap, []⟩

/-! ## What JavaScript sees of a view -/

/-- The `byteLength` of a typed array of bytes. -/
def View.byteLength (v : View) (heap : Heap) : Nat :=
  if typedArrayIsOob heap v then 0
  else if v.trackRab then (heap v.buffer).byteLength - v.offset
  else v.length

def View.bytes (v : View) (heap : Heap) : List UInt8 := v.read heap 0 (v.byteLength heap)

/-- The recorded length of a view whose bytes are there is its length. -/
def View.UpToDate (v : View) (heap : Heap) : Prop :=
  typedArrayIsOob heap v = false → v.length = v.byteLength heap

/-- An array of typed arrays. -/
def viewArray (views : List View) (h : views.length < 2 ^ 32) : JsArray where
  elements := views.map View.arg
  bounded := by
    rw [List.length_map]
    exact h

section

variable (heap : Heap) (views : List View)

/-- The bytes of all views. -/
def allBytes : List UInt8 := views.flatMap (View.bytes · heap)

/-- The length of the result: `totalLength` if it is given and not negative. -/
def concatLength (totalLength : Option Int64) : Nat :=
  if views = [] then 0
  else if 0 ≤ (totalLength.map Int64.toInt).getD (-1) then
    ((totalLength.map Int64.toInt).getD (-1)).toNat
  else (allBytes heap views).length

/-- What `concat` promises: the bytes of the views, cut or filled up with zeros to the length of
the result, read from where they are, and nothing changed. -/
structure Concatenates (totalLength : Option Int64) (ran : Ran (List UInt8)) : Prop where
  returns : ran.result =
    .ok (padTo (concatLength heap views totalLength) 0 (allBytes heap views))
  inStore : ∀ a ∈ ran.accesses, a.InStore
  kept : ran.heap = heap

end

/-! ## Views -/

section

variable {heap : Heap} {v : View}

theorem byteLength_dead (hoob : typedArrayIsOob heap v = true) : v.byteLength heap = 0 := if_pos hoob

-- A live view lies inside its store, if it does not track it.
theorem untracked_fits (hoob : typedArrayIsOob heap v = false) (htrack : v.trackRab = false) :
    v.offset + v.length ≤ (heap v.buffer).byteLength := by
  have hlive := attached_of_inBounds hoob
  simp only [typedArrayIsOob, hlive, htrack, Bool.false_eq_true, if_false] at hoob
  split at hoob
  next => cases hoob
  next =>
    have hfits := of_decide_eq_false hoob
    omega

theorem byteLength_fits (hoob : typedArrayIsOob heap v = false) :
    v.offset + v.byteLength heap ≤ (heap v.buffer).byteLength := by
  have hstart : v.offset ≤ (heap v.buffer).byteLength := by
    by_contra hpast
    simp only [typedArrayIsOob, attached_of_inBounds hoob, Bool.false_eq_true, if_false,
      if_pos (Nat.lt_of_not_le hpast)] at hoob
    cases hoob
  rw [View.byteLength, hoob, if_neg Bool.false_ne_true]
  cases htrack : v.trackRab with
  | true =>
    rw [if_pos rfl]
    omega
  | false =>
    rw [if_neg Bool.false_ne_true]
    exact untracked_fits hoob htrack

theorem length_viewBytes : (v.bytes heap).length = v.byteLength heap := by
  cases hoob : typedArrayIsOob heap v with
  | true =>
    rw [View.bytes, byteLength_dead hoob, View.read, slice, List.take_zero]
    rfl
  | false =>
    have hfits := byteLength_fits hoob
    exact View.read_length (by omega)

theorem getBytes_dead (hoob : typedArrayIsOob heap v = true) :
    jsBufferGetBytes heap v.arg = none := if_pos hoob

theorem read_take {m n : Nat} (h : m ≤ n) : v.read heap 0 m = (v.read heap 0 n).take m := by
  rw [View.read, View.read, slice, slice, List.take_take, Nat.min_eq_left h]

end

section

variable {heap : Heap} {views : List View}

/-- The length that the passes take a view to have. -/
def View.recordedLength (v : View) (heap : Heap) : Nat :=
  if typedArrayIsOob heap v then 0 else v.length

theorem upToDate_iff {v : View} : v.UpToDate heap ↔ v.recordedLength heap = v.byteLength heap := by
  unfold View.UpToDate View.recordedLength
  cases hoob : typedArrayIsOob heap v with
  | true =>
    rw [if_pos rfl, byteLength_dead hoob]
    exact iff_of_true (fun h ↦ absurd h (by decide)) rfl
  | false =>
    rw [if_neg Bool.false_ne_true]
    exact ⟨fun h ↦ h rfl, fun h _ ↦ h⟩

theorem concatTotal_eq :
    concatTotal heap (views.map View.arg) = (views.map (View.recordedLength · heap)).sum := by
  induction views with
  | nil => rfl
  | cons v rest ih =>
    rw [List.map_cons, concatTotal, List.map_cons, List.sum_cons, ← ih, View.recordedLength]
    cases hoob : typedArrayIsOob heap v with
    | true =>
      rw [getBytes_dead hoob, if_pos rfl, Nat.zero_add]
    | false =>
      rw [getBytes_of_inBounds hoob, if_neg Bool.false_ne_true]

theorem length_allBytes : (allBytes heap views).length = (views.map (View.byteLength · heap)).sum := by
  rw [allBytes, List.length_flatMap]
  congr 1
  apply List.map_congr_left
  intro v _
  exact length_viewBytes

-- The number of bytes copied from a view: all of them, or as many as there is room for.
theorem concatCount_eq {total done : Nat} (len : Nat) (h : done ≤ total) :
    (if done + len ≤ total then len else total - done) = min len (total - done) := by
  split <;> omega

theorem read_cut {v : View} (room : Nat) :
    v.read heap 0 (min (v.byteLength heap) room) = (v.bytes heap).take room := by
  rw [read_take (Nat.min_le_left _ _), Nat.min_comm]
  show (v.bytes heap).take _ = _
  rw [← length_viewBytes, ← List.take_eq_take_min]

-- The copying pass appends one view after the other to what is there.
theorem concatCopy_eq {total : Nat} (hviews : ∀ v ∈ views, v.UpToDate heap) {done : List UInt8}
    (hdone : done.length ≤ total) :
    (concatCopy heap total (views.map View.arg) (padTo total 0 done) done.length).1 =
        padTo total 0 (done ++ allBytes heap views) ∧
      ∀ a ∈ (concatCopy heap total (views.map View.arg) (padTo total 0 done) done.length).2,
        a.InStore := by
  induction views generalizing done with
  | nil =>
    rw [List.map_nil, concatCopy, allBytes, List.flatMap_nil, List.append_nil]
    exact ⟨rfl, fun a ha ↦ absurd ha List.not_mem_nil⟩
  | cons v rest ih =>
    have hrest := fun w hw ↦ hviews w (List.mem_cons_of_mem v hw)
    have hall : allBytes heap (v :: rest) = v.bytes heap ++ allBytes heap rest := List.flatMap_cons
    rw [List.map_cons, concatCopy, hall]
    by_cases hfull : done.length < total
    · rw [if_pos hfull]
      cases hoob : typedArrayIsOob heap v with
      | true =>
        have hempty : v.bytes heap = [] := by
          rw [← List.length_eq_zero_iff, length_viewBytes, byteLength_dead hoob]
        rw [getBytes_dead hoob, hempty, List.nil_append]
        exact ih hrest hdone
      | false =>
        have hlen : v.length = v.byteLength heap := hviews v List.mem_cons_self hoob
        have hbytes : (v.bytes heap).length = v.length := by rw [length_viewBytes, hlen]
        have hfits := byteLength_fits hoob
        have hmin := concatCount_eq v.length (Nat.le_of_lt hfull)
        rw [getBytes_of_inBounds hoob]
        dsimp only
        rw [hmin]
        have hnext : done.length + min v.length (total - done.length) =
            ((done ++ v.bytes heap).take total).length := by
          rw [List.length_take, List.length_append, hbytes]
          omega
        have hstep := ih hrest (List.length_take_le total (done ++ v.bytes heap))
        rw [padTo_take_append, padTo_take] at hstep
        rw [hlen, read_cut, ← hlen, splice_padTo hdone, hnext, ← List.append_assoc]
        constructor
        · exact hstep.1
        · intro a ha
          rcases List.mem_cons.mp ha with rfl | ha
          · apply (Access.inStore_iff _).mpr
            right
            show v.offset + 0 + min v.length (total - done.length) ≤ (heap v.buffer).byteLength
            omega
          · exact hstep.2 a ha
    · rw [if_neg hfull, padTo_append_full (by omega)]
      exact ⟨rfl, fun a ha ↦ absurd ha List.not_mem_nil⟩

end

/-! ## The method -/

section

variable (heap : Heap) {views : List View} (hcount : views.length < 2 ^ 32)
  (totalLength : Option Int64)

theorem jsBufferCreate_ok {size : Nat} (h : size ≤ maxByteLength) :
    jsBufferCreate size = .ok (List.replicate size 0) := by
  unfold maxByteLength at h
  rw [jsBufferCreate, if_neg (by omega), if_neg (by unfold maxByteLength; omega)]

theorem jsBufferCreate_throws {size : Nat} (h : maxByteLength < size) :
    ∃ e, jsBufferCreate size = .throw e := by
  rw [jsBufferCreate, if_pos h]
  split <;> exact ⟨_, rfl⟩

/-- `Buffer.concat(views, totalLength)` -/
def concatRun : Ran (List UInt8) :=
  jsBufferConcat heap (viewArray views hcount) (JsArg.ofNumber totalLength)

theorem concatRun_nil (hcount : ([] : List View).length < 2 ^ 32) :
    concatRun heap hcount totalLength = ⟨.ok [], heap, []⟩ := by
  rw [concatRun, jsBufferConcat, if_pos (show (viewArray [] hcount).elements.length = 0 from rfl)]
  rfl

/-- The length that the first pass comes to, or `totalLength`. -/
def copiedLength (heap : Heap) (views : List View) (totalLength : Option Int64) : Nat :=
  if 0 ≤ (totalLength.map Int64.toInt).getD (-1) then
    ((totalLength.map Int64.toInt).getD (-1)).toNat
  else (views.map (View.recordedLength · heap)).sum

theorem sum_recorded_le : (views.map (View.recordedLength · heap)).sum ≤ views.length * 2 ^ 31 := by
  have hle : ∀ n ∈ views.map (View.recordedLength · heap), n ≤ 2 ^ 31 := by
    intro n hn
    obtain ⟨v, -, rfl⟩ := List.mem_map.mp hn
    have hlen := v.length_lt
    show v.recordedLength heap ≤ 2 ^ 31
    unfold View.recordedLength
    split <;> omega
  have hsum := List.sum_le_card_nsmul _ _ hle
  rw [List.length_map] at hsum
  exact hsum

theorem concatRun_cons (hne : views ≠ []) :
    concatRun heap hcount totalLength =
      match jsBufferCreate (copiedLength heap views totalLength) with
      | .ok dst =>
        let copied := concatCopy heap (copiedLength heap views totalLength) (views.map View.arg) dst 0
        ⟨.ok copied.1, heap, copied.2⟩
      | .throw e => ⟨.throw e, heap, []⟩
      | .abort => ⟨.abort, heap, []⟩ := by
  have hlen : (viewArray views hcount).elements.length ≠ 0 := by
    show (views.map View.arg).length ≠ 0
    rw [List.length_map]
    exact mt List.length_eq_zero_iff.mp hne
  have htotal : sizeT (if (totalLength.map Int64.toInt).getD (-1) < 0 then
        (concatTotal heap (views.map View.arg) : Int)
      else (totalLength.map Int64.toInt).getD (-1)) = copiedLength heap views totalLength := by
    have hsum : (views.map (View.recordedLength · heap)).sum ≤ views.length * 2 ^ 31 :=
      sum_recorded_le heap
    rw [concatTotal_eq]
    unfold copiedLength
    split
    next hneg =>
      rw [if_neg (by omega)]
      exact sizeT_natCast (by omega)
    next hnonneg =>
      rw [if_pos (by omega)]
      apply sizeT_of_nonneg (by omega)
      cases totalLength with
      | none => decide
      | some n =>
        have htop := n.toInt_lt
        show n.toInt < 2 ^ 64
        omega
  rw [concatRun, jsBufferConcat, if_neg hlen, jsToInt64Or_ofNumber]
  dsimp only
  rw [show (viewArray views hcount).elements = views.map View.arg from rfl, htotal]

-- With views up to date, both passes see what JavaScript sees.
theorem concatenates_of_upToDate (hviews : ∀ v ∈ views, v.UpToDate heap)
    (hfits : concatLength heap views totalLength ≤ maxByteLength) :
    Concatenates heap views totalLength (concatRun heap hcount totalLength) := by
  by_cases hne : views = []
  · subst hne
    rw [concatRun_nil]
    exact ⟨rfl, fun a ha ↦ absurd ha List.not_mem_nil, rfl⟩
  · have hsame : copiedLength heap views totalLength = concatLength heap views totalLength := by
      rw [copiedLength, concatLength, if_neg hne, length_allBytes]
      congr 2
      apply List.map_congr_left
      intro v hv
      exact upToDate_iff.mp (hviews v hv)
    have hcopy := concatCopy_eq hviews
      (show ([] : List UInt8).length ≤ concatLength heap views totalLength from Nat.zero_le _)
    rw [padTo_nil, List.nil_append] at hcopy
    rw [concatRun_cons heap hcount totalLength hne, hsame, jsBufferCreate_ok hfits]
    exact ⟨congrArg Outcome.ok hcopy.1, hcopy.2, rfl⟩

-- The copying pass fills the new Buffer and no more.
theorem length_concatCopy {total : Nat} {dst : List UInt8} {offset : Nat} (hdst : dst.length = total)
    (hoffset : offset ≤ total) :
    (concatCopy heap total (views.map View.arg) dst offset).1.length = total := by
  induction views generalizing dst offset with
  | nil => exact hdst
  | cons v rest ih =>
    rw [List.map_cons, concatCopy]
    by_cases hfull : offset < total
    · rw [if_pos hfull]
      cases hoob : typedArrayIsOob heap v with
      | true =>
        rw [getBytes_dead hoob]
        exact ih hdst hoffset
      | false =>
        rw [getBytes_of_inBounds hoob]
        dsimp only
        generalize htoCopy : (if offset + v.length ≤ total then v.length
          else total - offset) = toCopy
        have hfit : offset + toCopy ≤ total := by
          rw [← htoCopy]
          split <;> omega
        have hread : (v.read heap 0 toCopy).length ≤ toCopy := by
          rw [View.read, slice, List.length_take]
          exact Nat.min_le_left _ _
        apply ih
        · rw [length_splice (by omega), hdst]
        · exact hfit
    · rw [if_neg hfull]
      exact hdst

-- Where there is room for all views, each of them is read whole.
theorem concatCopy_accesses (dst : List UInt8) {total offset : Nat}
    (hroom : offset + (views.map (View.recordedLength · heap)).sum ≤ total) :
    ∀ v ∈ views, typedArrayIsOob heap v = false → 0 < v.length →
      v.access heap 0 v.length ∈ (concatCopy heap total (views.map View.arg) dst offset).2 := by
  induction views generalizing dst offset with
  | nil => exact fun v hv ↦ absurd hv List.not_mem_nil
  | cons w rest ih =>
    intro v hv hoob hpos
    rw [List.map_cons, List.sum_cons] at hroom
    have hrecorded : v.recordedLength heap = v.length := by
      rw [View.recordedLength, hoob, if_neg Bool.false_ne_true]
    have hsum : v.recordedLength heap ≤
        w.recordedLength heap + (rest.map (View.recordedLength · heap)).sum := by
      rcases List.mem_cons.mp hv with rfl | hv
      · exact Nat.le_add_right _ _
      · have hterm : v.recordedLength heap ≤ (rest.map (View.recordedLength · heap)).sum :=
          List.single_le_sum (fun _ _ ↦ Nat.zero_le _) _ (List.mem_map.mpr ⟨v, hv, rfl⟩)
        omega
    rw [List.map_cons, concatCopy, if_pos (by omega)]
    cases hw : typedArrayIsOob heap w with
    | true =>
      have hv' : v ∈ rest := by
        rcases List.mem_cons.mp hv with rfl | hv
        · rw [hw] at hoob
          cases hoob
        · exact hv
      rw [View.recordedLength, hw, if_pos rfl] at hroom
      rw [getBytes_dead hw]
      exact ih _ (by omega) v hv' hoob hpos
    | false =>
      rw [View.recordedLength, hw, if_neg Bool.false_ne_true] at hroom
      rw [getBytes_of_inBounds hw]
      dsimp only
      rw [if_pos (by omega)]
      rcases List.mem_cons.mp hv with rfl | hv
      · exact List.mem_cons_self
      · exact List.mem_cons_of_mem _ (ih _ (by omega) v hv hoob hpos)

-- No term of a sum is larger and the sums agree, so every term agrees.
theorem eq_of_sum_eq {f g : View → Nat} (hle : ∀ v ∈ views, f v ≤ g v)
    (hsum : (views.map f).sum = (views.map g).sum) : ∀ v ∈ views, f v = g v := by
  induction views with
  | nil => exact fun v hv ↦ absurd hv List.not_mem_nil
  | cons w rest ih =>
    have hrest := List.sum_le_sum fun v hv ↦ hle v (List.mem_cons_of_mem w hv)
    have hw := hle w List.mem_cons_self
    rw [List.map_cons, List.map_cons, List.sum_cons, List.sum_cons] at hsum
    intro v hv
    rcases List.mem_cons.mp hv with rfl | hv
    · omega
    · exact ih (fun v hv ↦ hle v (List.mem_cons_of_mem w hv)) (by omega) v hv

-- Without `totalLength` every stale view shows: in the length of the result, or in a read past its
-- store.
theorem upToDate_of_concatenates (hnone : (totalLength.map Int64.toInt).getD (-1) < 0)
    (h : Concatenates heap views totalLength (concatRun heap hcount totalLength)) :
    ∀ v ∈ views, v.UpToDate heap := by
  by_cases hne : views = []
  · subst hne
    exact fun v hv ↦ absurd hv List.not_mem_nil
  · have hcopied : copiedLength heap views totalLength =
        (views.map (View.recordedLength · heap)).sum := if_neg (by omega)
    have hresult : concatLength heap views totalLength = (allBytes heap views).length := by
      rw [concatLength, if_neg hne, if_neg (by omega)]
    rw [concatRun_cons heap hcount totalLength hne] at h
    by_cases hfits : copiedLength heap views totalLength ≤ maxByteLength
    · rw [jsBufferCreate_ok hfits] at h
      have hreturns := h.returns
      rw [Outcome.ok.injEq] at hreturns
      have hlen := congrArg List.length hreturns
      rw [length_concatCopy heap List.length_replicate (Nat.zero_le _), length_padTo, hresult,
        length_allBytes, hcopied] at hlen
      have hle : ∀ v ∈ views, v.recordedLength heap ≤ v.byteLength heap := by
        intro v hv
        cases hoob : typedArrayIsOob heap v with
        | true =>
          rw [View.recordedLength, hoob, if_pos rfl]
          exact Nat.zero_le _
        | false =>
          rw [View.recordedLength, View.byteLength, hoob, if_neg Bool.false_ne_true,
            if_neg Bool.false_ne_true]
          cases htrack : v.trackRab with
          | false =>
            rw [if_neg Bool.false_ne_true]
          | true =>
            rw [if_pos rfl]
            by_cases hpos : 0 < v.length
            · have hroom : 0 + (views.map (View.recordedLength · heap)).sum ≤
                  copiedLength heap views totalLength := by
                rw [Nat.zero_add, hcopied]
              have hmem := concatCopy_accesses heap
                (List.replicate (copiedLength heap views totalLength) 0) hroom v hv hoob hpos
              have hstore := (Access.inStore_iff _).mp (h.inStore _ hmem)
              have hread : v.length = 0 ∨
                  v.offset + 0 + v.length ≤ (heap v.buffer).byteLength := hstore
              omega
            · omega
      intro v hv
      exact upToDate_iff.mpr (eq_of_sum_eq hle hlen v hv)
    · -- a length that no Buffer can have
      obtain ⟨e, he⟩ := jsBufferCreate_throws (Nat.lt_of_not_le hfits)
      rw [he] at h
      cases h.returns

end

end QNode.Buffer
