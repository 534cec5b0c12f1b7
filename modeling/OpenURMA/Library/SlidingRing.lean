import Mathlib.Data.Fin.Basic
import Mathlib.Data.List.Nodup
import Mathlib.Data.Nat.ModEq
import Mathlib.Logic.Function.Basic

/-!
# Sliding windows in a ring

A buffer for numbered items in a window of `width` consecutive numbers: the item `off` above the
lowest number is kept `off` cells behind the head of a ring. When the lowest item has been taken out
the window slides by one, and its cell is used for the number that enters at the upper end.

`got` lists what has been received, with numbers; the ring holds what was received last under each
number of the window.
-/

namespace OpenURMA.Library

open Function List Option Nat

variable {α : Type*} {width : ℕ}

structure SlidingRing (width : ℕ) (α : Type*) where
  cells : Fin width → Option α
  head : Fin width

def latest (got : List (ℕ × α)) (n : ℕ) : Option α :=
  ((got.filter (·.1 == n)).getLast?).map Prod.snd

variable {got : List (ℕ × α)}

section

variable {n m : ℕ} {a : α}

theorem latest_snoc_same : latest (got ++ [(n, a)]) n = some a := by
  simp [latest]

theorem latest_snoc_other (other : n ≠ m) : latest (got ++ [(m, a)]) n = latest got n := by
  simp [latest, Ne.symm other]

theorem mem_of_latest (found : latest got n = some a) : (n, a) ∈ got := by
  obtain ⟨⟨m, b⟩, last, rfl⟩ := map_eq_some_iff.mp found
  have member := mem_of_getLast? last
  rw [mem_filter, beq_iff_eq] at member
  obtain ⟨member, rfl⟩ := member
  exact member

theorem latest_eq_none (absent : ∀ e ∈ got, e.1 ≠ n) : latest got n = none := by
  have empty : got.filter (·.1 == n) = [] := by simpa using absent
  rw [latest, empty]
  rfl

theorem latest_isSome : (latest got n).isSome = true ↔ n ∈ got.map Prod.fst := by
  constructor
  · intro found
    obtain ⟨a, found⟩ := isSome_iff_exists.mp found
    exact mem_map_of_mem (f := Prod.fst) (mem_of_latest found)
  · intro member
    obtain ⟨e, received, rfl⟩ := mem_map.mp member
    rw [latest, isSome_map, isSome_iff_ne_none, Ne, getLast?_eq_none_iff]
    exact ne_nil_of_mem (mem_filter.mpr ⟨received, beq_self_eq_true _⟩)

theorem latest_of_nodup (nodup : (got.map Prod.fst).Nodup) {e : ℕ × α} (member : e ∈ got) :
    latest got e.1 = some e.2 := by
  have received : (latest got e.1).isSome = true :=
    latest_isSome.mpr (mem_map_of_mem (f := Prod.fst) member)
  obtain ⟨a, found⟩ := isSome_iff_exists.mp received
  have same := inj_on_of_nodup_map nodup (mem_of_latest found) member rfl
  rw [found, ← same]

end

namespace SlidingRing

section

variable (r : SlidingRing width α)

def place (off : ℕ) : Fin width :=
  ⟨(r.head.val + off) % width, mod_lt _ r.head.pos⟩

def get (off : ℕ) : Option α := r.cells (r.place off)

def store (off : ℕ) (a : α) : SlidingRing width α :=
  { r with cells := update r.cells (r.place off) (some a) }

def slide : SlidingRing width α where
  cells := update r.cells r.head none
  head := r.place 1

end

variable {r : SlidingRing width α} {off k : ℕ}

theorem cells_store {j : Fin width} {a b : α} (found : (r.store off a).cells j = some b) :
    b = a ∨ r.cells j = some b := by
  change update r.cells (r.place off) (some a) j = some b at found
  by_cases here : j = r.place off
  · rw [here, update_self] at found
    exact .inl (some.inj found).symm
  · rw [update_of_ne here] at found
    exact .inr found

theorem cells_slide {j : Fin width} {b : α} (found : r.slide.cells j = some b) :
    r.cells j = some b := by
  change update r.cells r.head none j = some b at found
  by_cases here : j = r.head
  · rw [here, update_self] at found
    cases found
  · rwa [update_of_ne here] at found

theorem place_zero (r : SlidingRing width α) : r.place 0 = r.head :=
  Fin.ext (mod_eq_of_lt r.head.isLt)

theorem place_inj (small : off < width) (other : k < width) (same : r.place off = r.place k) :
    off = k := by
  have head := r.head.isLt
  have values : (r.head.val + off) % width = (r.head.val + k) % width := congrArg Fin.val same
  have residues := ModEq.add_left_cancel' r.head.val values
  rwa [ModEq, mod_eq_of_lt small, mod_eq_of_lt other] at residues

theorem get_store_same (a : α) : (r.store off a).get off = some a := update_self ..

theorem get_store_other (small : off < width) (inside : k < width) (other : k ≠ off) (a : α) :
    (r.store off a).get k = r.get k :=
  update_of_ne (fun same => other (place_inj inside small same)) ..

theorem place_slide (r : SlidingRing width α) (k : ℕ) : r.slide.place k = r.place (k + 1) := by
  apply Fin.ext
  change ((r.head.val + 1) % width + k) % width = (r.head.val + (k + 1)) % width
  rw [mod_add_mod]
  congr 1
  omega

theorem get_slide (inside : k + 1 < width) : r.slide.get k = r.get (k + 1) := by
  have other : r.place (k + 1) ≠ r.head := by
    rw [← place_zero r]
    intro same
    exact succ_ne_zero k (place_inj inside (by omega) same)
  rw [get, place_slide]
  exact update_of_ne other ..

theorem get_slide_last (last : k + 1 = width) : r.slide.get k = none := by
  have wrapped : r.place (k + 1) = r.head := by
    apply Fin.ext
    change (r.head.val + (k + 1)) % width = r.head.val
    rw [last, add_mod_right, mod_eq_of_lt r.head.isLt]
  rw [get, place_slide, wrapped]
  exact update_self ..

/-- The ring holds what was received last under each number from `first` on, and nothing beyond. -/
structure Holds (r : SlidingRing width α) (first : ℕ) (got : List (ℕ × α)) : Prop where
  get : ∀ off < width, r.get off = latest got (first + off)
  bound : ∀ e ∈ got, e.1 < first + width

namespace Holds

variable {first : ℕ}

theorem store (holds : r.Holds first got) (small : off < width) (a : α) :
    (r.store off a).Holds first (got ++ [(first + off, a)]) := by
  refine ⟨fun k inside => ?_, fun e member => ?_⟩
  · by_cases same : k = off
    · rw [same, get_store_same, latest_snoc_same]
    · rw [get_store_other small inside same, latest_snoc_other (by omega), holds.get k inside]
  · rcases mem_append.mp member with old | new
    · exact holds.bound e old
    · rw [mem_singleton.mp new]
      exact Nat.add_lt_add_left small first

theorem slide (holds : r.Holds first got) : r.slide.Holds (first + 1) got := by
  refine ⟨fun k inside => ?_, fun e member => ?_⟩
  · by_cases last : k + 1 = width
    · rw [get_slide_last last, latest_eq_none]
      intro e member
      have := holds.bound e member
      omega
    · rw [get_slide (by omega), holds.get (k + 1) (by omega)]
      congr 1
      omega
  · have := holds.bound e member
    omega

end Holds

end SlidingRing

end OpenURMA.Library
