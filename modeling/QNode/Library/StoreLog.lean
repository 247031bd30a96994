import Mathlib.Data.List.Range
import QNode.Library.Words

/-!
# Stores one after another

A loop that fills a block with `out[j++] = x` keeps the index of the next store in a `size_t`.  The
log has every store with its index; the stores of such a loop stand in the order of their indices.
-/

open Word

/-- The next index, and the stores made so far. -/
structure StoreLog (α : Type) where
  next : Nat
  stores : List (Nat × α)

namespace StoreLog

variable {α : Type}

def empty : StoreLog α := ⟨0, []⟩

/-- `out[j++] = x` -/
def put (log : StoreLog α) (x : α) : StoreLog α :=
  ⟨sizeT (log.next + 1), log.stores ++ [(log.next, x)]⟩

def puts (log : StoreLog α) (xs : List α) : StoreLog α := xs.foldl put log

def values (log : StoreLog α) : List α := log.stores.map Prod.snd

/-- The first `n` indices, as a `size_t` counts them. -/
def indices (n : Nat) : List Nat := (List.range n).map fun k ↦ k % 2 ^ 64

/-- Every index was stored to in its turn. -/
structure Sequential (log : StoreLog α) : Prop where
  next : log.next = log.stores.length % 2 ^ 64
  order : log.stores.map Prod.fst = indices log.stores.length

theorem indices_succ (n : Nat) : indices (n + 1) = indices n ++ [n % 2 ^ 64] := by
  rw [indices, List.range_succ, List.map_append]
  rfl

theorem length_indices (n : Nat) : (indices n).length = n := by
  rw [indices, List.length_map, List.length_range]

theorem indices_small {n : Nat} (h : n ≤ 2 ^ 64) : indices n = List.range n := by
  have hself : ∀ k ∈ List.range n, k % 2 ^ 64 = id k := by
    intro k hk
    exact Nat.mod_eq_of_lt (Nat.lt_of_lt_of_le (List.mem_range.mp hk) h)
  rw [indices, List.map_congr_left hself, List.map_id]

theorem sequential_empty : (empty : StoreLog α).Sequential := ⟨rfl, rfl⟩

theorem Sequential.put {log : StoreLog α} (h : log.Sequential) (x : α) : (log.put x).Sequential := by
  have hlen : (log.put x).stores.length = log.stores.length + 1 := List.length_append
  constructor
  · rw [hlen]
    have hnext := h.next
    change sizeT (log.next + 1) = (log.stores.length + 1) % 2 ^ 64
    unfold sizeT
    omega
  · rw [hlen, indices_succ, ← h.order, ← h.next]
    exact List.map_append

@[simp]
theorem puts_cons (log : StoreLog α) (x : α) (xs : List α) :
    log.puts (x :: xs) = (log.put x).puts xs := rfl

theorem puts_append (log : StoreLog α) (xs ys : List α) :
    log.puts (xs ++ ys) = (log.puts xs).puts ys :=
  List.foldl_append

theorem Sequential.puts {log : StoreLog α} (h : log.Sequential) (xs : List α) :
    (log.puts xs).Sequential := by
  induction xs generalizing log with
  | nil => exact h
  | cons x xs ih => exact ih (h.put x)

theorem values_put (log : StoreLog α) (x : α) : (log.put x).values = log.values ++ [x] :=
  List.map_append

theorem values_puts (log : StoreLog α) (xs : List α) : (log.puts xs).values = log.values ++ xs := by
  induction xs generalizing log with
  | nil => exact (List.append_nil _).symm
  | cons x xs ih => rw [puts_cons, ih, values_put, List.append_assoc, List.singleton_append]

theorem length_values (log : StoreLog α) : log.values.length = log.stores.length :=
  List.length_map _

theorem length_puts (log : StoreLog α) (xs : List α) :
    (log.puts xs).stores.length = log.stores.length + xs.length := by
  rw [← length_values, values_puts, List.length_append, length_values]

end StoreLog
