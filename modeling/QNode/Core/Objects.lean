import QNode.Core.ObjectList
import QNode.Core.Scalars

/-!
# Values and objects

The values a message can hold, over a heap whose objects point to each other.  What the writer does not
look at (prototypes, the other properties of arrays, whether a view tracks the length of its buffer) is in
the model where the reader makes a choice about it.
-/

namespace QNode.Core

/-! ## Property names -/

def isNum (c : UInt16) : Bool := 48 ≤ c && c ≤ 57

/-- The loop of `is_num_string` over the digits after the first. -/
def numStringLoop (n : Nat) : List UInt16 → Option Nat
  | [] => some n
  | c :: rest =>
    if !isNum c then none
    else
      let n64 := n * 10 + (c.toNat - 48)
      if n64 ≥ 2 ^ 32 then none else numStringLoop n64 rest

def isNumString (units : List UInt16) : Option Nat :=
  if units.length > 10 then none
  else
    match units with
    | [] => none
    | c :: rest =>
      if !isNum c then none
      else if c = 48 then if rest = [] then some 0 else none
      else numStringLoop (c.toNat - 48) rest

/-- The index that a name stands for, if it is at most `JS_ATOM_MAX_INT`. -/
def atomIndex (units : List UInt16) : Option (Fin (2 ^ 31)) :=
  (isNumString units).bind fun n ↦ if h : n < 2 ^ 31 then some ⟨n, h⟩ else none

/-- The text of an atom.  The texts of small indices have no atom of their own. -/
@[ext]
structure AtomText where
  units : List UInt16
  len_le : units.length ≤ jsStringLenMax
  not_index : atomIndex units = none

instance : DecidableEq AtomText := fun a b ↦
  decidable_of_iff (a.units = b.units) AtomText.ext_iff.symm

inductive JSAtom
  | taggedInt (n : Fin (2 ^ 31))
  | string (text : AtomText)
  deriving DecidableEq

/-- `JS_NewAtomStr` and `__JS_NewAtom`: strings with the same code units have the same atom. -/
def jsNewAtomStr (p : JSString) : JSAtom :=
  match h : atomIndex p.units with
  | some n => .taggedInt n
  | none => .string ⟨p.units, p.len_le, h⟩

/-- At most `k` decimal digits. -/
def digits : Nat → Nat → List UInt16
  | 0, _ => []
  | k + 1, n =>
    if n < 10 then [UInt16.ofNat (48 + n)] else digits k (n / 10) ++ [UInt16.ofNat (48 + n % 10)]

theorem length_digits_le (k n : Nat) : (digits k n).length ≤ k := by
  induction k generalizing n with
  | zero => exact Nat.le_refl 0
  | succ k ih =>
    rw [digits]
    split
    · exact Nat.succ_le_succ (Nat.zero_le k)
    · rw [List.length_append]
      exact Nat.succ_le_succ (ih (n / 10))

theorem isNum_digit {n : Nat} (h : n < 10) : UInt16.ofNat (48 + n) < 256 := by
  rw [UInt16.lt_iff_toNat_lt, UInt16.toNat_ofNat']
  exact Nat.lt_of_le_of_lt (Nat.mod_le _ _) (show 48 + n < 256 by omega)

theorem digits_narrow (k n : Nat) : ∀ c ∈ digits k n, c < 256 := by
  induction k generalizing n with
  | zero =>
    intro c hc
    cases hc
  | succ k ih =>
    intro c hc
    rw [digits] at hc
    split at hc
    · next hn =>
      rw [List.mem_singleton.mp hc]
      exact isNum_digit hn
    · rcases List.mem_append.mp hc with hc | hc
      · exact ih _ c hc
      · rw [List.mem_singleton.mp hc]
        exact isNum_digit (Nat.mod_lt n (by decide))

/-- `u32toa` -/
def u32toa (n : Nat) : JSString where
  isWideChar := false
  units := digits 10 n
  len_le := Nat.le_trans (length_digits_le 10 n) (by decide)
  narrow := fun _ ↦ digits_narrow 10 n

def jsNewAtomUInt32 (n : Nat) : JSAtom :=
  if h : n < 2 ^ 31 then .taggedInt ⟨n, h⟩ else jsNewAtomStr (u32toa n)

/-! ## Values -/

/-- A value with the data that a writer reads.  A rope is given with the string it flattens to; `other`
are the values that have no place in a message, with their tag. -/
inductive JSValue
  | null
  | undefined
  | bool (b : Bool)
  | int (n : Int32)
  | float64 (u : UInt64)
  | string (p : JSString)
  | stringRope (p : JSString)
  | bigInt (tab : Limbs)
  | object (p : Ptr)
  | other (tag : Int)
  deriving DecidableEq

def JSValue.isNumber : JSValue → Bool
  | .int _ => true
  | .float64 _ => true
  | _ => false

/-- The name of an entry of a shape: `null` once it is deleted, `hidden` for symbols and private names. -/
inductive ShapeAtom
  | null
  | hidden
  | visible (atom : JSAtom)
  deriving DecidableEq

/-- A property; its value is `none` where the flags say that it is not a plain value. -/
structure JSProperty where
  atom : ShapeAtom
  enumerable : Bool
  value : Option JSValue
  deriving DecidableEq

/-- The classes of typed arrays, by their distance from `JS_CLASS_UINT8C_ARRAY`. -/
def jsTypedArrayCount : Nat := 12

/-- `typed_array_size_log2` -/
def typedArraySizeLog2 (arrayTag : Nat) : Nat := [0, 0, 0, 1, 1, 2, 2, 3, 3, 1, 2, 3].getD arrayTag 0

/-- An array holds its elements in a block, or in properties once it is not fast any more.  The data of an
`ArrayBuffer` is `none` once it is detached; that of a `SharedArrayBuffer` is the address of its memory. -/
inductive JSObject
  | fastArray (values : List JSValue) (length : Nat)
  | slowArray (props : List JSProperty) (length : Nat)
  | object (props : List JSProperty)
  | typedArray (arrayTag count offset : Nat) (trackRab : Bool) (buffer : Ptr)
  | arrayBuffer (data : Option (List UInt8)) (maxByteLength : Option Nat)
  | sharedArrayBuffer (data : UInt64) (byteLength : Nat) (maxByteLength : Option Nat)
  | date (data : JSValue)
  | objectValue (data : JSValue)
  | other
  deriving DecidableEq

/-- The object at address `p` is the `p`-th. -/
abbrev Heap := List JSObject

/-- The byte length of an object that is an array buffer. -/
def JSObject.bufferLength : JSObject → Option Nat
  | .arrayBuffer data _ => some (data.getD []).length
  | .sharedArrayBuffer _ byteLength _ => some byteLength
  | _ => none

/-- `BCTagEnum`, less the tags of byte code. -/
inductive BCTag
  | null | undefined | boolFalse | boolTrue | int32 | float64 | string | object | array | bigInt
  | templateObject | typedArray | arrayBuffer | sharedArrayBuffer | date | objectValue
  | objectReference
  deriving DecidableEq, Repr

namespace BCTag

def toUInt8 : BCTag → UInt8
  | null => 1 | undefined => 2 | boolFalse => 3 | boolTrue => 4 | int32 => 5 | float64 => 6
  | string => 7 | object => 8 | array => 9 | bigInt => 10 | templateObject => 11
  | typedArray => 14 | arrayBuffer => 15 | sharedArrayBuffer => 16 | date => 17 | objectValue => 18
  | objectReference => 19

def all : List BCTag := [null, undefined, boolFalse, boolTrue, int32, float64, string, object, array,
  bigInt, templateObject, typedArray, arrayBuffer, sharedArrayBuffer, date, objectValue,
  objectReference]

def ofUInt8 (b : UInt8) : Option BCTag := all.find? fun t ↦ t.toUInt8 == b

theorem ofUInt8_toUInt8 (t : BCTag) : ofUInt8 t.toUInt8 = some t := by
  cases t <;> rfl

end BCTag

/-- `BC_VERSION` -/
def bcVersion : UInt8 := 5

/-- A buffer that cannot be resized has the length -1. -/
def maxByteLengthWord : Option Nat → UInt32
  | none => -1
  | some n => UInt32.ofNat n

end QNode.Core
