import Mathlib.Algebra.Group.Nat.Defs
import QNode.Library.Bits

/-!
# Three bytes as four sextets

A 24-bit word packs three bytes or four six-bit groups.  The lemmas turn the shifts and masks of a
codec into divisions and remainders, on which regrouping is linear arithmetic.
-/

open Bits

namespace Sextets

def pack8 (a b c : Nat) : Nat := (a <<< 16) ||| (b <<< 8) ||| c

def pack6 (a b c d : Nat) : Nat := (a <<< 18) ||| (b <<< 12) ||| (c <<< 6) ||| d

def sextet (w k : Nat) : Nat := (w >>> k) &&& 0x3F

def octet (w k : Nat) : Nat := (w >>> k) &&& 0xFF

theorem sextet_eq (w k : Nat) : sextet w k = w / 2 ^ k % 64 := by
  rw [sextet, Nat.shiftRight_eq_div_pow, show 0x3F = 2 ^ 6 - 1 from rfl,
    Nat.and_two_pow_sub_one_eq_mod]

theorem octet_eq (w k : Nat) : octet w k = w / 2 ^ k % 256 := by
  rw [octet, Nat.shiftRight_eq_div_pow, show 0xFF = 2 ^ 8 - 1 from rfl,
    Nat.and_two_pow_sub_one_eq_mod]

theorem sextet_lt (w k : Nat) : sextet w k < 64 := by
  rw [sextet_eq]
  omega

theorem pack8_eq {a b c : Nat} (hb : b < 256) (hc : c < 256) :
    pack8 a b c = a * 65536 + b * 256 + c := by
  have hlow : b <<< 8 + c = b <<< 8 ||| c :=
    Nat.shiftLeft_add_eq_or_of_lt (show c < 2 ^ 8 from hc) b
  have hword : a <<< 16 + (b <<< 8 ||| c) = a <<< 16 ||| (b <<< 8 ||| c) := by
    apply Nat.shiftLeft_add_eq_or_of_lt
    rw [← hlow, Nat.shiftLeft_eq]
    omega
  rw [pack8, Nat.or_assoc, ← hword, ← hlow, Nat.shiftLeft_eq, Nat.shiftLeft_eq]
  omega

theorem pack6_eq {a b c d : Nat} (hb : b < 64) (hc : c < 64) (hd : d < 64) :
    pack6 a b c d = a * 262144 + b * 4096 + c * 64 + d := by
  have hlow : c <<< 6 + d = c <<< 6 ||| d :=
    Nat.shiftLeft_add_eq_or_of_lt (show d < 2 ^ 6 from hd) c
  have hmid : b <<< 12 + (c <<< 6 ||| d) = b <<< 12 ||| (c <<< 6 ||| d) := by
    apply Nat.shiftLeft_add_eq_or_of_lt
    rw [← hlow, Nat.shiftLeft_eq]
    omega
  have hword : a <<< 18 + (b <<< 12 ||| (c <<< 6 ||| d)) =
      a <<< 18 ||| (b <<< 12 ||| (c <<< 6 ||| d)) := by
    apply Nat.shiftLeft_add_eq_or_of_lt
    rw [← hmid, ← hlow, Nat.shiftLeft_eq, Nat.shiftLeft_eq]
    omega
  rw [pack6, Nat.or_assoc, Nat.or_assoc, ← hword, ← hmid, ← hlow, Nat.shiftLeft_eq,
    Nat.shiftLeft_eq, Nat.shiftLeft_eq]
  omega

-- Splitting a packed word into sextets and packing them again gives the word.
theorem pack6_sextets {w : Nat} (h : w < 2 ^ 24) :
    pack6 (sextet w 18) (sextet w 12) (sextet w 6) (sextet w 0) = w := by
  rw [pack6_eq (sextet_lt w 12) (sextet_lt w 6) (sextet_lt w 0)]
  simp only [sextet_eq]
  omega

theorem octet_pack8 {a b c : Nat} (ha : a < 256) (hb : b < 256) (hc : c < 256) :
    octet (pack8 a b c) 16 = a ∧ octet (pack8 a b c) 8 = b ∧ octet (pack8 a b c) 0 = c := by
  rw [pack8_eq hb hc]
  simp only [octet_eq]
  refine ⟨?_, ?_, ?_⟩ <;> omega

theorem pack8_lt {a b c : Nat} (ha : a < 256) (hb : b < 256) (hc : c < 256) :
    pack8 a b c < 2 ^ 24 := by
  rw [pack8_eq hb hc]
  omega

-- A final group of two sextets keeps the single byte it encodes.
theorem octet_pack6_short (w : Nat) :
    octet (pack6 (sextet w 18) (sextet w 12) 0 0) 16 = octet w 16 := by
  rw [pack6_eq (sextet_lt w 12) (by decide) (by decide)]
  simp only [sextet_eq, octet_eq]
  omega

-- A final group of three sextets keeps the two bytes it encodes.
theorem octet_pack6_medium (w : Nat) :
    octet (pack6 (sextet w 18) (sextet w 12) (sextet w 6) 0) 16 = octet w 16 ∧
      octet (pack6 (sextet w 18) (sextet w 12) (sextet w 6) 0) 8 = octet w 8 := by
  rw [pack6_eq (sextet_lt w 12) (sextet_lt w 6) (by decide)]
  simp only [sextet_eq, octet_eq]
  constructor <;> omega

/-! ## The bits of a word -/

theorem bits_pack6 {a b c d : Nat} (hb : b < 64) (hc : c < 64) (hd : d < 64) :
    bits 24 (pack6 a b c d) = bits 6 a ++ (bits 6 b ++ (bits 6 c ++ bits 6 d)) := by
  have hword : pack6 a b c d = ((a * 2 ^ 6 + b) * 2 ^ 6 + c) * 2 ^ 6 + d := by
    rw [pack6_eq hb hc hd]
    omega
  rw [hword, bits_concat (m := 18) (n := 6) hd, bits_concat (m := 12) (n := 6) hc,
    bits_concat (m := 6) (n := 6) hb, List.append_assoc, List.append_assoc]

theorem ofNat_octet (w k : Nat) : UInt8.ofNat (octet w k) = UInt8.ofNat (w / 2 ^ k) := by
  apply UInt8.toNat_inj.mp
  rw [octet_eq]
  simp

-- A word holds three whole bytes.
theorem bytes_word (w : Nat) (rest : List Bool) :
    bytes (bits 24 w ++ rest) =
      [UInt8.ofNat (octet w 16), UInt8.ofNat (octet w 8), UInt8.ofNat (octet w 0)] ++ bytes rest := by
  rw [bytes_bits_add 16, bytes_bits_add 8, bytes_bits_add 0, ofNat_octet, ofNat_octet, ofNat_octet]
  rfl

end Sextets
