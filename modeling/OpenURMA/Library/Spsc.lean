import Mathlib.Data.BitVec
import Mathlib.Data.List.Basic

/-!
# Rings for one producer and one consumer

Both sides count with 32-bit numbers; a counter modulo the size of the ring is its cell. The
producer fills the cell of `head` and then publishes it, the consumer uses the cell of `tail` and
then gives it back. Nothing in the ring tells whether it is full.
-/

namespace OpenURMA.Library

open Function List BitVec Nat

structure Spsc (size : ℕ) (α : Type*) where
  cells : ℕ → α
  head : BitVec 32
  tail : BitVec 32

namespace Spsc

variable {size : ℕ} {α : Type*}

section

variable (r : Spsc size α)

def count : ℕ := (r.head - r.tail).toNat

def back : α := r.cells (r.head.toNat % size)

def front : α := r.cells (r.tail.toNat % size)

def fill (a : α) : Spsc size α :=
  { r with cells := update r.cells (r.head.toNat % size) a }

def publish : Spsc size α := { r with head := r.head + 1 }

def release : Spsc size α := { r with tail := r.tail + 1 }

def cellAt (k : ℕ) : α := r.cells ((r.tail.toNat + k) % size)

def contents : List α := (range r.count).map r.cellAt

end

variable {r : Spsc size α}

@[simp] theorem contents_length : r.contents.length = r.count := by simp [contents]

@[simp] theorem back_fill (r : Spsc size α) (a : α) : (r.fill a).back = a := update_self ..

theorem head_toNat (r : Spsc size α) : r.head.toNat = (r.tail.toNat + r.count) % 2 ^ 32 := by
  have bound := r.head.isLt
  have bound' := r.tail.isLt
  rw [count, toNat_sub]
  omega

theorem count_eq_zero_iff : r.count = 0 ↔ r.head = r.tail := by
  rw [count, ← sub_eq_zero (a := r.head), ← toNat_inj]
  rfl

theorem contents_eq_nil_iff : r.contents = [] ↔ r.head = r.tail := by
  rw [← length_eq_zero_iff, contents_length, count_eq_zero_iff]

theorem count_release (more : r.head ≠ r.tail) : r.count = r.release.count + 1 := by
  have positive : r.count ≠ 0 := fun zero => more (count_eq_zero_iff.mp zero)
  unfold count at positive ⊢
  change _ = (r.head - (r.tail + 1)).toNat + 1
  rw [toNat_sub] at positive
  rw [toNat_sub, toNat_sub, toNat_add]
  change _ = (2 ^ 32 - (r.tail.toNat + 1) % 2 ^ 32 + r.head.toNat) % 2 ^ 32 + 1
  omega

variable (divides : size ∣ 2 ^ 32)

include divides

theorem back_place (r : Spsc size α) : r.head.toNat % size = (r.tail.toNat + r.count) % size := by
  rw [head_toNat, mod_mod_of_dvd _ divides]

theorem back_eq_cellAt (r : Spsc size α) : r.back = r.cellAt r.count := by
  rw [back, back_place divides]
  rfl

theorem release_cellAt (r : Spsc size α) (k : ℕ) : r.release.cellAt k = r.cellAt (k + 1) := by
  have place : ((r.tail + 1).toNat + k) % size = (r.tail.toNat + (k + 1)) % size := by
    rw [toNat_add, add_mod, mod_mod_of_dvd _ divides, ← add_mod]
    congr 1
    change r.tail.toNat + 1 + k = _
    omega
  rw [cellAt, cellAt, ← place]
  rfl

theorem contents_fill (room : r.count < size) (a : α) : (r.fill a).contents = r.contents := by
  refine map_congr_left fun k member => ?_
  have inside : k < r.count := mem_range.mp member
  refine update_of_ne ?_ a r.cells
  rw [back_place divides]
  change (r.tail.toNat + k) % size ≠ _
  intro same
  have equal := Nat.ModEq.add_left_cancel' r.tail.toNat same
  rw [Nat.ModEq, mod_eq_of_lt (by omega), mod_eq_of_lt room] at equal
  omega

theorem contents_publish (room : r.count < size) (short : size < 2 ^ 32) :
    r.publish.contents = r.contents ++ [r.back] := by
  have count : r.publish.count = r.count + 1 := by
    have small : r.count + 1 < 2 ^ 32 := by omega
    unfold Spsc.count at small ⊢
    change (r.head + 1 - r.tail).toNat = _
    rw [toNat_sub] at small ⊢
    rw [toNat_sub, toNat_add]
    change (2 ^ 32 - r.tail.toNat + (r.head.toNat + 1) % 2 ^ 32) % 2 ^ 32 = _
    omega
  rw [contents, count, range_succ, map_append, back_eq_cellAt divides]
  rfl

theorem contents_release (more : r.head ≠ r.tail) : r.contents = r.front :: r.release.contents := by
  rw [contents, contents, count_release more, range_succ_eq_map, map_cons, map_map]
  congr 1
  exact map_congr_left fun k _ => (release_cellAt divides r k).symm

end Spsc

end OpenURMA.Library
