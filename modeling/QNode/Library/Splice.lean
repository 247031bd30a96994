/-!
# Splicing a run of elements into a list

`splice block start src` overwrites `block` from position `start` on with `src`; it is what a copy of
`src` to an address inside a block leaves behind when the copy stays inside the block.
-/

namespace Splice

variable {α : Type}

def splice (block : List α) (start : Nat) (src : List α) : List α :=
  block.take start ++ src ++ block.drop (start + src.length)

/-- The `len` elements of `block` from position `start` on. -/
def slice (block : List α) (start len : Nat) : List α := (block.drop start).take len

theorem length_splice {block src : List α} {start : Nat}
    (h : start + src.length ≤ block.length) :
    (splice block start src).length = block.length := by
  simp only [splice, List.length_append, List.length_take, List.length_drop]
  omega

theorem length_slice {block : List α} {start len : Nat} (h : start + len ≤ block.length) :
    (slice block start len).length = len := by
  simp only [slice, List.length_take, List.length_drop]
  omega

-- Two slices, the second from where the first ends.
theorem slice_append {block : List α} {start m n : Nat} :
    slice block start m ++ slice block (start + m) n = slice block start (m + n) := by
  rw [slice, slice, slice, List.take_add, List.drop_drop]

-- What was spliced in is read back.
theorem slice_splice {block src : List α} {start : Nat} (h : start ≤ block.length) :
    slice (splice block start src) start src.length = src := by
  have hlen : (block.take start).length = start := by
    rw [List.length_take]
    omega
  have hdrop : (block.take start ++ (src ++ block.drop (start + src.length))).drop
      (block.take start).length = src ++ block.drop (start + src.length) := List.drop_left
  rw [hlen] at hdrop
  rw [slice, splice, List.append_assoc, hdrop, List.take_left]

-- Splicing the old elements back in undoes a splice.
theorem splice_splice_slice {block src : List α} {start : Nat}
    (h : start + src.length ≤ block.length) :
    splice (splice block start src) start (slice block start src.length) = block := by
  have hlen : (block.take start ++ src).length = start + src.length := by
    simp only [List.length_append, List.length_take]
    omega
  have htake : (splice block start src).take start = block.take start := by
    rw [splice, List.append_assoc]
    exact List.take_left' (by rw [List.length_take]; omega)
  have hdrop : (splice block start src).drop (start + src.length) =
      block.drop (start + src.length) := by
    rw [splice]
    exact List.drop_left' hlen
  rw [splice, length_slice h, htake, hdrop, slice, ← List.drop_drop, List.append_assoc,
    List.take_append_drop, List.take_append_drop]

theorem take_splice {block src : List α} {start : Nat}
    (h : start ≤ block.length) :
    (splice block start src).take (start + src.length) = block.take start ++ src := by
  have hlen : (block.take start ++ src).length = start + src.length := by
    simp only [List.length_append, List.length_take]
    omega
  rw [splice, ← hlen, List.take_left]

theorem getElem?_slice {block : List α} {start len i : Nat} (h : i < len) :
    (slice block start len)[i]? = block[start + i]? := by
  rw [slice, List.getElem?_take_of_lt h, List.getElem?_drop]

theorem getElem?_splice_below {block src : List α} {start i : Nat}
    (h : start ≤ block.length) (hi : i < start) :
    (splice block start src)[i]? = block[i]? := by
  rw [splice, List.append_assoc, List.getElem?_append_left (by rw [List.length_take]; omega),
    List.getElem?_take_of_lt hi]

theorem getElem?_splice_inside {block src : List α} {start i : Nat}
    (h : start ≤ block.length) (hi : i < src.length) :
    (splice block start src)[start + i]? = src[i]? := by
  have htake : (block.take start).length = start := by
    rw [List.length_take]
    omega
  rw [splice, List.append_assoc, List.getElem?_append_right (by omega), htake,
    Nat.add_sub_cancel_left, List.getElem?_append_left hi]

theorem getElem?_splice_above {block src : List α} {start i : Nat}
    (h : start ≤ block.length) (hi : start + src.length ≤ i) :
    (splice block start src)[i]? = block[i]? := by
  have htake : (block.take start ++ src).length = start + src.length := by
    rw [List.length_append, List.length_take]
    omega
  rw [splice, List.getElem?_append_right (by omega), htake, List.getElem?_drop]
  congr 1
  omega

/-! ## Blocks of a fixed size -/

/-- The first `n` elements, filled up with `x` where there are fewer. -/
def padTo (n : Nat) (x : α) (block : List α) : List α :=
  block.take n ++ List.replicate (n - block.length) x

variable {n : Nat} {x : α} {block block' : List α}

theorem length_padTo : (padTo n x block).length = n := by
  rw [padTo, List.length_append, List.length_take, List.length_replicate]
  omega

theorem padTo_nil : padTo n x [] = List.replicate n x := by
  rw [padTo, List.take_nil, List.length_nil, Nat.sub_zero, List.nil_append]

theorem padTo_append_full (h : n ≤ block.length) : padTo n x (block ++ block') = padTo n x block := by
  rw [padTo, padTo, List.take_append_of_le_length h, List.length_append, Nat.sub_eq_zero_of_le h,
    Nat.sub_eq_zero_of_le (by omega)]

-- What is cut off stays cut off when more is appended.
theorem padTo_take_append : padTo n x (block.take n ++ block') = padTo n x (block ++ block') := by
  by_cases hlen : block.length ≤ n
  · rw [List.take_of_length_le hlen]
  · have htake : (block.take n).length = n := by
      rw [List.length_take]
      omega
    rw [padTo_append_full (by omega), padTo_append_full (by omega), padTo, padTo, List.take_take,
      Nat.min_self, htake, Nat.sub_self, Nat.sub_eq_zero_of_le (by omega)]

theorem padTo_take : padTo n x (block.take n) = padTo n x block := by
  have happend : padTo n x (block.take n ++ []) = padTo n x (block ++ []) := padTo_take_append
  rwa [List.append_nil, List.append_nil] at happend

-- Filling the free part from its start.
theorem splice_padTo (h : block.length ≤ n) :
    splice (padTo n x block) block.length (block'.take (n - block.length)) =
      padTo n x (block ++ block') := by
  have htake : (padTo n x block).take block.length = block := by
    rw [padTo, List.take_of_length_le h, List.take_left]
  have hdrop : ∀ k, (padTo n x block).drop (block.length + k) =
      List.replicate (n - block.length - k) x := by
    intro k
    rw [padTo, List.take_of_length_le h, ← List.drop_drop, List.drop_left, List.drop_replicate]
  rw [splice, htake, hdrop, padTo, List.take_append, List.take_of_length_le h, List.length_append,
    List.length_take]
  congr 2
  omega

end Splice
