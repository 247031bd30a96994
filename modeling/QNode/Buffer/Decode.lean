import QNode.Buffer.Encoding
import QNode.Engine.Utf8

/-!
# What a text decodes to

`js_buffer_string_to_bytes` asks the allocator for a block before it decodes.  Here the bytes and the
size of the block are told apart: the block has no byte precisely if there is no byte to decode to.
-/

open QNode.Engine

namespace QNode.Buffer

/-- The bytes a text stands for in an encoding, if it stands for any. -/
def decodeText (str : List UInt8) : Encoding → Option (List UInt8)
  | .utf8 | .ascii | .latin1 => some str
  | .hex => if str.length % 2 ≠ 0 then none else hexDecodePairs str
  | .base64 | .base64url => base64DecodeGroups (stripPadding str)
  | .unknown => none

/-- The size of the block that is requested, if one is. -/
def blockSize (str : List UInt8) : Encoding → Option Nat
  | .utf8 | .ascii | .latin1 => some str.length
  | .hex => if str.length % 2 ≠ 0 then none else some (str.length / 2)
  | .base64 | .base64url => some (((stripPadding str).length * 3 + 3) / 4)
  | .unknown => none

section

variable {str : List UInt8}

theorem base64DecodeGroup_ne_nil (a : UInt8) (b c d : Option UInt8) :
    base64DecodeGroup a b c d ≠ some [] := by
  unfold base64DecodeGroup
  dsimp only
  split
  · exact fun h ↦ nomatch h
  · simp

theorem base64DecodeGroups_eq_nil : base64DecodeGroups str = some [] ↔ str = [] := by
  constructor
  · intro h
    match str, h with
    | [], _ => rfl
    | [a], h => exact absurd h (base64DecodeGroup_ne_nil a none none none)
    | [a, b], h => exact absurd h (base64DecodeGroup_ne_nil a (some b) none none)
    | [a, b, c], h => exact absurd h (base64DecodeGroup_ne_nil a (some b) (some c) none)
    | a :: b :: c :: d :: src, h =>
      rw [base64DecodeGroups] at h
      cases hgroup : base64DecodeGroup a (some b) (some c) (some d) with
      | none => simp [hgroup] at h
      | some group =>
        cases hrest : base64DecodeGroups src with
        | none => simp [hgroup, hrest] at h
        | some rest =>
          have hnil : group = [] ∧ rest = [] := by simpa [hgroup, hrest] using h
          rw [hnil.1] at hgroup
          exact absurd hgroup (base64DecodeGroup_ne_nil _ _ _ _)
  · rintro rfl
    rfl

theorem hexDecodePairs_eq_nil (heven : str.length % 2 = 0) :
    hexDecodePairs str = some [] ↔ str = [] := by
  constructor
  · intro h
    match str, heven, h with
    | [], _, _ => rfl
    | [a], heven, _ => exact absurd heven (by simp)
    | a :: b :: src, _, h =>
      rw [hexDecodePairs] at h
      cases hhi : hexDigit a <;> cases hlo : hexDigit b <;> cases hrest : hexDecodePairs src <;>
        simp [hhi, hlo, hrest] at h
  · rintro rfl
    rfl

-- An empty block is what stands for nothing needs.
theorem blockSize_zero_iff (str : List UInt8) (enc : Encoding) :
    blockSize str enc = some 0 ↔ decodeText str enc = some [] := by
  cases enc with
  | utf8 | ascii | latin1 => simp [blockSize, decodeText]
  | unknown => simp [blockSize, decodeText]
  | hex =>
    unfold blockSize decodeText
    by_cases hodd : str.length % 2 ≠ 0
    · rw [if_pos hodd, if_pos hodd]
      simp
    · rw [if_neg hodd, if_neg hodd, hexDecodePairs_eq_nil (by omega), Option.some.injEq,
        ← List.length_eq_zero_iff]
      omega
  | base64 | base64url =>
    unfold blockSize decodeText
    rw [base64DecodeGroups_eq_nil, Option.some.injEq, ← List.length_eq_zero_iff]
    omega

theorem jsBufferStringToBytes_block (str : List UInt8) (enc : Encoding) :
    jsBufferStringToBytes str enc =
      match blockSize str enc with
      | some size => withBlock size (.ok (decodeText str enc))
      | none => .ok (decodeText str enc) := by
  cases enc with
  | utf8 | ascii | latin1 | unknown | base64 | base64url => rfl
  | hex =>
    by_cases hodd : str.length % 2 ≠ 0
    · simp [jsBufferStringToBytes, jsBufferHexDecode, blockSize, decodeText, hodd]
    · simp [jsBufferStringToBytes, jsBufferHexDecode, blockSize, decodeText, hodd]

-- The decoder gives the bytes a text stands for, and does not survive a text that stands for none.
theorem jsBufferStringToBytes_eq (str : List UInt8) (enc : Encoding) :
    jsBufferStringToBytes str enc =
      if decodeText str enc = some [] then .abort else .ok (decodeText str enc) := by
  have hzero := blockSize_zero_iff str enc
  rw [jsBufferStringToBytes_block]
  cases hsize : blockSize str enc with
  | none =>
    rw [hsize] at hzero
    rw [if_neg (mt hzero.mpr (by simp))]
  | some size =>
    rw [hsize, Option.some.injEq] at hzero
    by_cases hnil : decodeText str enc = some []
    · rw [if_pos hnil]
      exact if_pos (hzero.mpr hnil)
    · rw [if_neg hnil]
      exact withBlock_pos (mt hzero.mp hnil) _

end

end QNode.Buffer
