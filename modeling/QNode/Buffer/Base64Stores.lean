import QNode.Buffer.Base64
import QNode.Library.StoreLog

/-!
# What the base64 codec stores

The two loops of the codec write to a block whose size was computed before.  Here they are followed
index by index: which character is read, and which byte goes where.
-/

open QNode.Engine Sextets Word

namespace QNode.Buffer

/-! ## The decoder -/

/-- The decoder's result: the length it reports, if it does not end in an error, and its stores. -/
structure DecodedStores where
  outLen : Option Nat
  stores : List (Nat × UInt8)

/-- `(len * 3 + 3) / 4` -/
def base64AllocSize (len : Nat) : Nat := sizeT (sizeT (len * 3) + 3) / 4

/-- One turn of the loop; `none` is the error exit, before any store. -/
def base64DecodeTurn (src : List UInt8) (i : Nat) (out : StoreLog UInt8) : Option (StoreLog UInt8) :=
  let a := b64DecodeChar (src.getD i 0)
  let b := if i + 1 < src.length then b64DecodeChar (src.getD (i + 1) 0) else 0
  let c := if i + 2 < src.length then b64DecodeChar (src.getD (i + 2) 0) else -1
  let d := if i + 3 < src.length then b64DecodeChar (src.getD (i + 3) 0) else -1
  if a < 0 ∨ b < 0 then none
  else
    let triple := pack6 a.toNat b.toNat (if c ≥ 0 then c.toNat else 0) (if d ≥ 0 then d.toNat else 0)
    let out := out.put (UInt8.ofNat (octet triple 16))
    let out := if c ≥ 0 then out.put (UInt8.ofNat (octet triple 8)) else out
    let out := if d ≥ 0 then out.put (UInt8.ofNat (octet triple 0)) else out
    some out

-- Below a length of 2^60 neither counter leaves the range of `size_t`.
def base64DecodeLoop (src : List UInt8) (i : Nat) (out : StoreLog UInt8) : DecodedStores :=
  if i < src.length then
    match base64DecodeTurn src i out with
    | none => ⟨none, out.stores⟩
    | some out => base64DecodeLoop src (i + 4) out
  else ⟨some out.next, out.stores⟩
termination_by src.length - i

/-- `js_buffer_base64_decode`, with every store. -/
def jsBufferBase64DecodeStores (src : List UInt8) : Outcome DecodedStores :=
  let src := stripPadding src
  withBlock (base64AllocSize src.length) (.ok (base64DecodeLoop src 0 .empty))

/-- The bytes a call hands over. -/
def DecodedStores.bytes (decoded : DecodedStores) : Option (List UInt8) :=
  decoded.outLen.map fun _ ↦ decoded.stores.map Prod.snd

theorem base64AllocSize_eq {len : Nat} (h : len < 2 ^ 60) :
    base64AllocSize len = (len * 3 + 3) / 4 := by
  have hmul : sizeT (len * 3) = len * 3 := sizeT_natCast (n := len * 3) (by omega)
  have hadd : sizeT ((len * 3 : Nat) + 3) = len * 3 + 3 :=
    sizeT_natCast (n := len * 3 + 3) (by omega)
  rw [base64AllocSize, hmul, hadd]

theorem stripPadding_length_le (src : List UInt8) : (stripPadding src).length ≤ src.length :=
  (List.rdropWhile_prefix _ src).length_le

-- A turn stores the bytes of its group.
theorem base64DecodeTurn_eq {src : List UInt8} {i : Nat} (h : i < src.length)
    (out : StoreLog UInt8) :
    base64DecodeTurn src i out =
      (base64DecodeGroup src[i] src[i + 1]? src[i + 2]? src[i + 3]?).map out.puts := by
  have hopt : ∀ (k : Nat) (other : Int),
      (src[i + k]?.map b64DecodeChar).getD other =
        if i + k < src.length then b64DecodeChar (src.getD (i + k) 0) else other := by
    intro k other
    by_cases hk : i + k < src.length
    · rw [if_pos hk, List.getD_eq_getElem?_getD, List.getElem?_eq_getElem hk]
      rfl
    · rw [if_neg hk, List.getElem?_eq_none (by omega)]
      rfl
  have hfirst : src.getD i 0 = src[i] := by
    rw [List.getD_eq_getElem?_getD, List.getElem?_eq_getElem h]
    rfl
  unfold base64DecodeTurn base64DecodeGroup
  rw [hfirst, hopt 1, hopt 2, hopt 3]
  generalize b64DecodeChar src[i] = a
  generalize (if i + 1 < src.length then b64DecodeChar (src.getD (i + 1) 0) else 0) = b
  generalize (if i + 2 < src.length then b64DecodeChar (src.getD (i + 2) 0) else -1) = c
  generalize (if i + 3 < src.length then b64DecodeChar (src.getD (i + 3) 0) else -1) = d
  dsimp only
  split
  · rfl
  · rw [Option.map_some, StoreLog.puts_append, StoreLog.puts_append]
    congr 1
    by_cases hc : c ≥ 0 <;> by_cases hd : d ≥ 0 <;> simp only [hc, hd, if_true, if_false] <;> rfl

theorem base64DecodeGroup_length {a : UInt8} {b c d : Option UInt8} {group : List UInt8}
    (h : base64DecodeGroup a b c d = some group) :
    group.length ≤ 1 + c.toList.length + d.toList.length := by
  have hstored : ∀ (o : Option UInt8) (byte : UInt8),
      (if (o.map b64DecodeChar).getD (-1) ≥ 0 then [byte] else []).length ≤ o.toList.length := by
    intro o byte
    cases o with
    | none => exact Nat.le_refl 0
    | some x =>
      split
      · exact Nat.le_refl 1
      · exact Nat.zero_le 1
  unfold base64DecodeGroup at h
  dsimp only at h
  split at h
  · cases h
  · cases h
    rw [List.length_append, List.length_append]
    exact Nat.add_le_add (Nat.add_le_add (Nat.le_refl 1) (hstored c _)) (hstored d _)

-- The groups from an index on, as the list of them is cut.
theorem base64DecodeGroups_drop {src : List UInt8} {i : Nat} (h : i < src.length) :
    base64DecodeGroups (src.drop i) =
      (base64DecodeGroup src[i] src[i + 1]? src[i + 2]? src[i + 3]?).bind fun group ↦
        (base64DecodeGroups (src.drop (i + 4))).map (group ++ ·) := by
  have hat : ∀ k, src[i + k]? = (src.drop i)[k]? := fun k ↦ List.getElem?_drop.symm
  have hfirst : (src.drop i)[0]? = some src[i] := by
    rw [← hat, Nat.add_zero, List.getElem?_eq_getElem h]
  rw [hat 1, hat 2, hat 3, ← List.drop_drop]
  match hsrc : src.drop i, hfirst with
  | [a], hfirst =>
    cases hfirst
    cases hgroup : base64DecodeGroup src[i] none none none <;>
      simp [base64DecodeGroups, hgroup]
  | [a, b], hfirst =>
    cases hfirst
    cases hgroup : base64DecodeGroup src[i] (some b) none none <;>
      simp [base64DecodeGroups, hgroup]
  | [a, b, c], hfirst =>
    cases hfirst
    cases hgroup : base64DecodeGroup src[i] (some b) (some c) none <;>
      simp [base64DecodeGroups, hgroup]
  | a :: b :: c :: d :: rest, hfirst =>
    cases hfirst
    rw [base64DecodeGroups]
    cases hgroup : base64DecodeGroup src[i] (some b) (some c) (some d) with
    | none => simp [hgroup]
    | some group =>
      cases hrest : base64DecodeGroups rest <;> simp [hgroup, hrest]

/-- The invariant of the loop at index `i`: every character made room for three quarters of a byte. -/
structure DecodeRoom (i : Nat) (out : StoreLog UInt8) : Prop where
  sequential : out.Sequential
  room : 4 * out.stores.length ≤ 3 * i

-- Only a last turn with fewer than four characters stores more than its share, by a rounded byte.
theorem base64DecodeTurn_room {src : List UInt8} {i : Nat} {out out' : StoreLog UInt8}
    (h : i < src.length) (hroom : DecodeRoom i out)
    (hturn : base64DecodeTurn src i out = some out') :
    out'.Sequential ∧ 4 * out'.stores.length ≤ 3 * src.length + 3 ∧
      (i + 4 ≤ src.length → DecodeRoom (i + 4) out') := by
  rw [base64DecodeTurn_eq h, Option.map_eq_some_iff] at hturn
  obtain ⟨group, hgroup, rfl⟩ := hturn
  have hsequential := hroom.sequential.puts group
  have hlen := base64DecodeGroup_length hgroup
  have hold := hroom.room
  have hthird : src[i + 2]?.toList.length = if i + 2 < src.length then 1 else 0 := by
    split
    · next hlt => rw [List.getElem?_eq_getElem hlt, Option.toList_some, List.length_singleton]
    · next hge => rw [List.getElem?_eq_none (by omega), Option.toList_none, List.length_nil]
  have hfourth : src[i + 3]?.toList.length = if i + 3 < src.length then 1 else 0 := by
    split
    · next hlt => rw [List.getElem?_eq_getElem hlt, Option.toList_some, List.length_singleton]
    · next hge => rw [List.getElem?_eq_none (by omega), Option.toList_none, List.length_nil]
  rw [hthird, hfourth] at hlen
  refine ⟨hsequential, ?_, fun hfull ↦ ⟨hsequential, ?_⟩⟩
  · rw [StoreLog.length_puts]
    split at hlen <;> split at hlen <;> omega
  · rw [StoreLog.length_puts]
    split at hlen <;> split at hlen <;> omega

/-- What is asked of the decoder's stores: one for each index from 0 on, no more than the block has
places for, and as many as it reports. -/
structure StoresFit (size : Nat) (decoded : DecodedStores) : Prop where
  count : decoded.stores.length ≤ size
  order : decoded.stores.map Prod.fst = StoreLog.indices decoded.stores.length
  reported : ∀ n, decoded.outLen = some n → n = decoded.stores.length % 2 ^ 64

theorem base64DecodeLoop_fit (src : List UInt8) (i : Nat) (out : StoreLog UInt8)
    (hsequential : out.Sequential) (hcount : 4 * out.stores.length ≤ 3 * src.length + 3)
    (hroom : i < src.length → DecodeRoom i out) :
    StoresFit ((src.length * 3 + 3) / 4) (base64DecodeLoop src i out) := by
  induction i, out using base64DecodeLoop.induct src with
  | case1 i out hlt hturn =>
    rw [base64DecodeLoop, if_pos hlt, hturn]
    exact ⟨by dsimp only; omega, hsequential.order, fun _ hnone ↦ by cases hnone⟩
  | case2 i out hlt out' hturn ih =>
    obtain ⟨hsequential', hcount', hroom'⟩ := base64DecodeTurn_room hlt (hroom hlt) hturn
    rw [base64DecodeLoop, if_pos hlt, hturn]
    exact ih hsequential' hcount' fun hlt' ↦ hroom' (by omega)
  | case3 i out hge =>
    rw [base64DecodeLoop, if_neg hge]
    refine ⟨by dsimp only; omega, hsequential.order, ?_⟩
    intro n hn
    cases hn
    exact hsequential.next

-- The bytes it stores are the ones the text decodes to.
theorem base64DecodeLoop_bytes (src : List UInt8) (i : Nat) (out : StoreLog UInt8) :
    (base64DecodeLoop src i out).bytes =
      (base64DecodeGroups (src.drop i)).map (out.values ++ ·) := by
  induction i, out using base64DecodeLoop.induct src with
  | case1 i out hlt hturn =>
    rw [base64DecodeLoop, if_pos hlt, hturn]
    rw [base64DecodeTurn_eq hlt, Option.map_eq_none_iff] at hturn
    rw [base64DecodeGroups_drop hlt, hturn]
    rfl
  | case2 i out hlt out' hturn ih =>
    rw [base64DecodeLoop, if_pos hlt, hturn]
    rw [base64DecodeTurn_eq hlt, Option.map_eq_some_iff] at hturn
    obtain ⟨group, hgroup, rfl⟩ := hturn
    dsimp only
    rw [ih, base64DecodeGroups_drop hlt, hgroup, Option.bind_some, Option.map_map,
      StoreLog.values_puts]
    congr 1
    funext rest
    exact List.append_assoc _ _ _
  | case3 i out hge =>
    rw [base64DecodeLoop, if_neg hge, List.drop_eq_nil_of_le (by omega)]
    exact congrArg some (List.append_nil _).symm

/-- The stores are those of the decoder the other modules use. -/
theorem jsBufferBase64DecodeStores_bytes {src : List UInt8} (h : src.length < 2 ^ 60) :
    (jsBufferBase64DecodeStores src).map DecodedStores.bytes = jsBufferBase64Decode src := by
  have hsize : base64AllocSize (stripPadding src).length =
      ((stripPadding src).length * 3 + 3) / 4 :=
    base64AllocSize_eq (Nat.lt_of_le_of_lt (stripPadding_length_le src) h)
  rw [jsBufferBase64DecodeStores, jsBufferBase64Decode, hsize]
  unfold withBlock
  split
  · rfl
  · rw [Outcome.map, base64DecodeLoop_bytes, List.drop_zero]
    cases base64DecodeGroups (stripPadding src) <;> rfl

/-! ## The encoder -/

def base64EncodeTurn (table src : List UInt8) (i : Nat) (out : StoreLog UInt8) :
    StoreLog UInt8 :=
  let a := src.getD i 0
  let b := if i + 1 < src.length then src.getD (i + 1) 0 else 0
  let c := if i + 2 < src.length then src.getD (i + 2) 0 else 0
  let triple := pack8 a.toNat b.toNat c.toNat
  let out := out.put (table.getD (sextet triple 18) 0)
  let out := out.put (table.getD (sextet triple 12) 0)
  let out := out.put (if i + 1 < src.length then table.getD (sextet triple 6) 0 else pad)
  out.put (if i + 2 < src.length then table.getD (sextet triple 0) 0 else pad)

/-- The loop.  `i` is a multiple of 3 below a `size_t` length, and so is the next one a `size_t`. -/
def base64EncodeLoop (table src : List UInt8) (i : Nat) (out : StoreLog UInt8) : StoreLog UInt8 :=
  if i < src.length then base64EncodeLoop table src (i + 3) (base64EncodeTurn table src i out)
  else out
termination_by src.length - i

/-- The stores of `js_buffer_base64_encode`, the terminating NUL the last of them. -/
def jsBufferBase64EncodeStores (src : List UInt8) (urlSafe : Bool) : List (Nat × UInt8) :=
  let out := base64EncodeLoop (base64Table urlSafe) src 0 .empty
  out.stores ++ [(out.next, 0)]

section Encode

variable (table src : List UInt8)

theorem base64EncodeTurn_eq {i : Nat} (h : i < src.length) (out : StoreLog UInt8) :
    base64EncodeTurn table src i out =
      out.puts (base64EncodeGroup table src[i] src[i + 1]? src[i + 2]?) := by
  have hfirst : src.getD i 0 = src[i] := by
    rw [List.getD_eq_getElem?_getD, List.getElem?_eq_getElem h]
    rfl
  have hbyte : ∀ k, (if i + k < src.length then src.getD (i + k) 0 else 0) =
      src[i + k]?.getD 0 := by
    intro k
    by_cases hk : i + k < src.length
    · rw [if_pos hk, List.getD_eq_getElem?_getD]
    · rw [if_neg hk, List.getElem?_eq_none (by omega)]
      rfl
  have hsome : ∀ k, i + k < src.length ↔ src[i + k]?.isSome = true := by
    intro k
    simp
  unfold base64EncodeTurn base64EncodeGroup
  dsimp only
  rw [hfirst, hbyte 1, hbyte 2, if_congr (hsome 1) rfl rfl, if_congr (hsome 2) rfl rfl]
  rfl

theorem base64EncodeGroups_drop {i : Nat} (h : i < src.length) :
    base64EncodeGroups table (src.drop i) =
      base64EncodeGroup table src[i] src[i + 1]? src[i + 2]? ++
        base64EncodeGroups table (src.drop (i + 3)) := by
  have hat : ∀ k, src[i + k]? = (src.drop i)[k]? := fun k ↦ List.getElem?_drop.symm
  have hfirst : (src.drop i)[0]? = some src[i] := by
    rw [← hat, Nat.add_zero, List.getElem?_eq_getElem h]
  rw [hat 1, hat 2, ← List.drop_drop]
  match hsrc : src.drop i, hfirst with
  | [a], hfirst =>
    cases hfirst
    exact (List.append_nil _).symm
  | [a, b], hfirst =>
    cases hfirst
    exact (List.append_nil _).symm
  | a :: b :: c :: rest, hfirst =>
    cases hfirst
    rw [base64EncodeGroups]
    rfl

theorem base64EncodeLoop_eq (i : Nat) (out : StoreLog UInt8) :
    base64EncodeLoop table src i out = out.puts (base64EncodeGroups table (src.drop i)) := by
  induction i, out using base64EncodeLoop.induct table src with
  | case1 i out hlt ih =>
    rw [base64EncodeLoop, if_pos hlt, ih, base64EncodeTurn_eq table src hlt,
      base64EncodeGroups_drop table src hlt, StoreLog.puts_append]
  | case2 i out hge =>
    rw [base64EncodeLoop, if_neg hge, List.drop_eq_nil_of_le (by omega)]
    rfl

end Encode

theorem jsBufferBase64EncodeStores_values (src : List UInt8) (urlSafe : Bool) :
    (jsBufferBase64EncodeStores src urlSafe).map Prod.snd = base64EncodeText src urlSafe ++ [0] := by
  rw [jsBufferBase64EncodeStores, List.map_append]
  change (base64EncodeLoop (base64Table urlSafe) src 0 .empty).values ++ [0] = _
  rw [base64EncodeLoop_eq, List.drop_zero, StoreLog.values_puts]
  rfl

theorem jsBufferBase64EncodeStores_indices (src : List UInt8) (urlSafe : Bool) :
    (jsBufferBase64EncodeStores src urlSafe).map Prod.fst =
      StoreLog.indices (4 * ((src.length + 2) / 3) + 1) := by
  have hsequential : (base64EncodeLoop (base64Table urlSafe) src 0 .empty).Sequential := by
    rw [base64EncodeLoop_eq]
    exact StoreLog.sequential_empty.puts _
  have hlen : (base64EncodeLoop (base64Table urlSafe) src 0 .empty).stores.length =
      4 * ((src.length + 2) / 3) := by
    rw [base64EncodeLoop_eq, List.drop_zero, StoreLog.length_puts]
    exact (Nat.zero_add _).trans (base64EncodeText_length urlSafe src)
  rw [StoreLog.indices_succ, ← hlen, ← hsequential.order, ← hsequential.next]
  exact List.map_append

-- A call that gets its block: the stores are those of the loop over the text without its padding.
theorem jsBufferBase64DecodeStores_fit {src : List UInt8} {decoded : DecodedStores}
    (h : jsBufferBase64DecodeStores src = .ok decoded) :
    StoresFit (((stripPadding src).length * 3 + 3) / 4) decoded := by
  rw [jsBufferBase64DecodeStores] at h
  unfold withBlock at h
  split at h
  · cases h
  · cases h
    apply base64DecodeLoop_fit (stripPadding src) 0 .empty StoreLog.sequential_empty
    · exact Nat.zero_le _
    · intro _
      exact ⟨StoreLog.sequential_empty, Nat.le_refl 0⟩

theorem StoresFit.order_small {size : Nat} {decoded : DecodedStores} (h : StoresFit size decoded)
    (hsize : size < 2 ^ 64) :
    decoded.stores.map Prod.fst = List.range decoded.stores.length := by
  have hcount := h.count
  rw [h.order, StoreLog.indices_small (by omega)]

/-- Neither direction of the codec leaves its block.  The decoder stores at one index after the other
from 0 on, all of them below the size it asked for, and reports their number, whatever the text
holds and also if it ends in an error; the encoder stores four characters for each three bytes
begun, and a NUL. -/
theorem base64_stores_in_blocks {text : List UInt8} (htext : text.length < 2 ^ 60)
    (bytes : List UInt8) (urlSafe : Bool) :
    (base64AllocSize (stripPadding text).length = ((stripPadding text).length * 3 + 3) / 4 ∧
      ∀ decoded, jsBufferBase64DecodeStores text = .ok decoded →
        (∀ s ∈ decoded.stores, s.1 < base64AllocSize (stripPadding text).length) ∧
          decoded.stores.map Prod.fst = List.range decoded.stores.length ∧
          ∀ n, decoded.outLen = some n → n = decoded.stores.length) ∧
      (jsBufferBase64EncodeStores bytes urlSafe).length = 4 * ((bytes.length + 2) / 3) + 1 ∧
        (jsBufferBase64EncodeStores bytes urlSafe).map Prod.fst =
          StoreLog.indices (4 * ((bytes.length + 2) / 3) + 1) := by
  have hlen : (stripPadding text).length < 2 ^ 60 :=
    Nat.lt_of_le_of_lt (stripPadding_length_le text) htext
  have hsmall : ((stripPadding text).length * 3 + 3) / 4 < 2 ^ 64 := by omega
  refine ⟨⟨base64AllocSize_eq hlen, ?_⟩, ?_, jsBufferBase64EncodeStores_indices bytes urlSafe⟩
  · intro decoded hdecoded
    have hfit := jsBufferBase64DecodeStores_fit hdecoded
    have horder := hfit.order_small hsmall
    have hcount := hfit.count
    refine ⟨?_, horder, ?_⟩
    · intro s hs
      have hindex : s.1 ∈ List.range decoded.stores.length := by
        rw [← horder]
        exact List.mem_map_of_mem hs
      have hlt := List.mem_range.mp hindex
      rw [base64AllocSize_eq hlen]
      omega
    · intro n hn
      rw [hfit.reported n hn, Nat.mod_eq_of_lt (by omega)]
  · rw [← List.length_map Prod.fst, jsBufferBase64EncodeStores_indices, StoreLog.length_indices]

-- `A?=B=` has an invalid second character behind a valid first.
theorem base64_stores_in_blocks_invalid :
    (base64AllocSize (stripPadding (charCodes "QUJDA?=B=")).length =
        ((stripPadding (charCodes "QUJDA?=B=")).length * 3 + 3) / 4 ∧
      ∀ decoded, jsBufferBase64DecodeStores (charCodes "QUJDA?=B=") = .ok decoded →
        (∀ s ∈ decoded.stores,
          s.1 < base64AllocSize (stripPadding (charCodes "QUJDA?=B=")).length) ∧
          decoded.stores.map Prod.fst = List.range decoded.stores.length ∧
          ∀ n, decoded.outLen = some n → n = decoded.stores.length) ∧
      (jsBufferBase64EncodeStores [65, 66, 67, 0] true).length =
          4 * ((([65, 66, 67, 0] : List UInt8).length + 2) / 3) + 1 ∧
        (jsBufferBase64EncodeStores [65, 66, 67, 0] true).map Prod.fst =
          StoreLog.indices (4 * ((([65, 66, 67, 0] : List UInt8).length + 2) / 3) + 1) :=
  base64_stores_in_blocks (by decide) [65, 66, 67, 0] true

end QNode.Buffer
