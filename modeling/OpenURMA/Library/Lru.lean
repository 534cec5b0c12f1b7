import Mathlib.Data.List.Nodup

/-!
# Caches that forget the least recently used entry

A fully associative cache is the list of its entries, the most recent one first.
-/

namespace OpenURMA.Library.Lru

open List

variable {α : Type*}

/-- A hit makes the entry the most recent one. -/
def touch [DecidableEq α] (a : α) (cache : List α) : List α := a :: cache.filter (· != a)

/-- A new entry takes the place of the least recent one if there is no room. -/
def install (capacity : ℕ) (a : α) (cache : List α) : List α := (a :: cache).take capacity

variable {a : α} {cache : List α} {capacity : ℕ}

theorem filter_eq_singleton [DecidableEq α] (nodup : cache.Nodup) (present : a ∈ cache) :
    cache.filter (· == a) = [a] := by
  rw [filter_beq, count_eq_one_of_mem nodup present, replicate_one]

theorem install_of_room (room : cache.length < capacity) : install capacity a cache = a :: cache :=
  take_of_length_le room

theorem install_of_full (full : cache.length = capacity) :
    install capacity a cache = (a :: cache).dropLast := by
  rw [install, dropLast_eq_take, length_cons, full, Nat.add_sub_cancel]

end OpenURMA.Library.Lru
