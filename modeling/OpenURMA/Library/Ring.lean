import Mathlib.Data.Fin.Basic
import Mathlib.Data.List.Basic
import Mathlib.Logic.Function.Basic

/-!
# Ring buffers

A FIFO queue in a fixed array: entries lie from `head` up to but excluding `tail`, both advancing
modulo the depth. One cell stays free, so that `head = tail` means empty. The operations are
characterised by `contents`, the list the ring stands for.
-/

namespace OpenURMA.Library

open Function List Nat

variable {α : Type*} {depth : Nat}

structure Ring (depth : Nat) (α : Type*) where
  cells : Fin depth → α
  head : Fin depth
  tail : Fin depth

namespace Ring

def next (i : Fin depth) : Fin depth := ⟨(i.val + 1) % depth, mod_lt _ i.pos⟩

def Empty (r : Ring depth α) : Prop := r.head = r.tail
deriving Decidable

def Full (r : Ring depth α) : Prop := next r.tail = r.head
deriving Decidable

section

variable (r : Ring depth α)

def front : α := r.cells r.head

def push (a : α) : Ring depth α :=
  { r with cells := update r.cells r.tail a, tail := next r.tail }

def pop : Ring depth α := { r with head := next r.head }

def write (i : Fin depth) (a : α) : Ring depth α :=
  { r with cells := update r.cells i a }

def last : Fin depth :=
  ⟨(r.tail.val + depth - 1) % depth, mod_lt _ r.tail.pos⟩

end

/-- Walk from the head to the tail, at most `fuel` cells, up to the first entry with a property. -/
def find (holds : α → Bool) : Nat → Ring depth α → Option (Fin depth)
  | 0, _ => none
  | fuel + 1, r =>
    if r.Empty then none else if holds r.front then some r.head else find holds fuel r.pop

def map {β : Type*} (g : α → β) (r : Ring depth α) : Ring depth β :=
  ⟨g ∘ r.cells, r.head, r.tail⟩

section

variable {β : Type*} (g : α → β) (r : Ring depth α)

theorem map_push (a : α) : (r.push a).map g = (r.map g).push (g a) := by
  simp only [map, push, comp_update]

theorem map_write (i : Fin depth) (a : α) : (r.write i a).map g = (r.map g).write i (g a) := by
  simp only [map, write, comp_update]

end

def count (r : Ring depth α) : Nat :=
  if r.head.val ≤ r.tail.val then r.tail.val - r.head.val
  else depth - r.head.val + r.tail.val

def place (r : Ring depth α) (k : Nat) : Fin depth :=
  ⟨(r.head.val + k) % depth, mod_lt _ r.head.pos⟩

def contents (r : Ring depth α) : List α :=
  (range r.count).map fun k => r.cells (r.place k)

variable {r : Ring depth α}

theorem val_next (i : Fin depth) : (next i).val = if i.val + 1 < depth then i.val + 1 else 0 := by
  have bound := i.isLt
  change (i.val + 1) % depth = _
  split
  · next small => exact mod_eq_of_lt small
  · next large =>
    have wrapped : i.val + 1 = depth := by omega
    rw [wrapped, mod_self]

theorem next_ne (more : 1 < depth) (i : Fin depth) : next i ≠ i := by
  intro same
  have value := congrArg Fin.val same
  rw [val_next] at value
  split at value <;> omega

theorem val_place {k : Nat} (inside : k < depth) : (r.place k).val =
      if r.head.val + k < depth then r.head.val + k else r.head.val + k - depth := by
  have bound := r.head.isLt
  change (r.head.val + k) % depth = _
  split
  · next small => exact mod_eq_of_lt small
  · next large => rw [mod_eq_sub_mod (by omega), mod_eq_of_lt (by omega)]

theorem count_lt (r : Ring depth α) : r.count < depth := by
  have head := r.head.isLt
  have tail := r.tail.isLt
  unfold count
  split <;> omega

@[simp] theorem length_contents (r : Ring depth α) : r.contents.length = r.count := by
  simp [contents]

theorem contents_eq_nil_iff : r.contents = [] ↔ r.Empty := by
  have tail := r.tail.isLt
  rw [← length_eq_zero_iff, length_contents, Empty, Fin.ext_iff, count]
  split <;> omega

theorem full_iff : r.Full ↔ r.contents.length + 1 = depth := by
  have head := r.head.isLt
  have tail := r.tail.isLt
  rw [length_contents, Full, Fin.ext_iff, val_next, count]
  repeat' split
  all_goals omega

theorem contents_push (room : ¬ r.Full) (a : α) : (r.push a).contents = r.contents ++ [a] := by
  have head := r.head.isLt
  have tail := r.tail.isLt
  have small := r.count_lt
  rw [full_iff, length_contents] at room
  have counted : (r.push a).count = r.count + 1 := by
    simp only [count, push, val_next] at room ⊢
    repeat' split
    all_goals repeat' split at room
    all_goals omega
  have last : r.place r.count = r.tail := by
    rw [Fin.ext_iff, val_place small, count]
    repeat' split
    all_goals omega
  have places : ∀ k, (r.push a).place k = r.place k := fun _ => rfl
  rw [contents, counted, range_succ, map_append, map_singleton, places, last]
  congr 1
  · refine map_congr_left fun k member => ?_
    have inside : k < r.count := mem_range.mp member
    have other : r.place k ≠ r.tail := by
      intro same
      have value := congrArg Fin.val (same.trans last.symm)
      rw [val_place (by omega), val_place small] at value
      split at value <;> split at value <;> omega
    exact update_of_ne other _ _
  · exact congrArg (· :: []) (update_self ..)

theorem not_empty_push (room : ¬ r.Full) (a : α) : ¬ (r.push a).Empty := fun empty =>
  room empty.symm

theorem front_push (some : ¬ r.Empty) (a : α) : (r.push a).front = r.front :=
  update_of_ne some ..

theorem contents_pop (some : ¬ r.Empty) : r.contents = r.front :: r.pop.contents := by
  have head := r.head.isLt
  have tail := r.tail.isLt
  rw [Empty, Fin.ext_iff] at some
  have counted : r.count = r.pop.count + 1 := by
    simp only [count, pop, val_next]
    repeat' split
    all_goals omega
  have first : r.place 0 = r.head := by
    rw [Fin.ext_iff, val_place (by omega)]
    simp
  have shifted : ∀ k, r.place (k + 1) = r.pop.place k := by
    intro k
    rw [Fin.ext_iff]
    change (r.head.val + (k + 1)) % depth = ((r.head.val + 1) % depth + k) % depth
    rw [mod_add_mod]
    congr 1
    omega
  rw [contents, counted, range_succ_eq_map, map_cons, map_map, first]
  refine congrArg (r.front :: ·) (map_congr_left fun k _ => ?_)
  exact congrArg r.cells (shifted k)

theorem contents_pop_write (some : ¬ r.Empty) (a : α) :
    ((r.write r.head a).pop).contents = r.pop.contents := by
  have head := r.head.isLt
  have tail := r.tail.isLt
  rw [Empty, Fin.ext_iff] at some
  have small : r.pop.count + 1 < depth := by
    simp only [count, pop, val_next]
    repeat' split
    all_goals omega
  refine map_congr_left fun k member => update_of_ne ?_ _ _
  have inside : k < r.pop.count := mem_range.mp member
  intro same
  have value := congrArg Fin.val same
  change (r.pop.place k).val = _ at value
  rw [val_place (by omega)] at value
  simp only [pop, val_next] at value
  repeat' split at value
  all_goals omega

theorem contents_write_head (some : ¬ r.Empty) (a : α) :
    (r.write r.head a).contents = a :: r.pop.contents := by
  have nonempty : ¬ (r.write r.head a).Empty := some
  rw [contents_pop nonempty, contents_pop_write some]
  exact congrArg (· :: _) (update_self ..)

theorem write_write (i : Fin depth) (a b : α) : (r.write i a).write i b = r.write i b := by
  simp only [write, update_idem]

/-- Overwriting a cell changes nothing that the new entry shares with the old one. -/
theorem map_contents_write {β : Type*} {key : α → β} {i : Fin depth} {a : α}
    (same : key a = key (r.cells i)) : (r.write i a).contents.map key = r.contents.map key := by
  rw [contents, contents, map_map, map_map]
  refine map_congr_left fun k _ => ?_
  change key (update r.cells i a (r.place k)) = key (r.cells (r.place k))
  by_cases here : r.place k = i
  · rw [here, update_self, same]
  · rw [update_of_ne here]

theorem last_push (r : Ring depth α) (a : α) : (r.push a).last = r.tail := by
  have tail := r.tail.isLt
  rw [Fin.ext_iff]
  change ((next r.tail).val + depth - 1) % depth = r.tail.val
  rw [val_next]
  split
  · rw [show r.tail.val + 1 + depth - 1 = r.tail.val + depth by omega, add_mod_right,
      mod_eq_of_lt tail]
  · rw [mod_eq_of_lt (by omega)]
    omega

theorem cells_last_push (r : Ring depth α) (a : α) : (r.push a).cells (r.push a).last = a := by
  rw [last_push]
  exact update_self ..

theorem push_write_last (r : Ring depth α) (a b : α) :
    (r.push a).write (r.push a).last b = r.push b := by
  rw [last_push]
  simp only [write, push, update_idem]

variable {holds : α → Bool}

theorem find_eq_some {fuel : Nat} {i : Fin depth} (found : find holds fuel r = some i) :
    ∃ before after, r.contents = before ++ r.cells i :: after ∧
      (∀ b ∈ before, holds b = false) ∧ holds (r.cells i) = true ∧
      ∀ a, (r.write i a).contents = before ++ a :: after := by
  induction fuel generalizing r with
  | zero => cases found
  | succ fuel ih =>
    rw [find] at found
    split at found
    · cases found
    · next some =>
      have whole := contents_pop some
      split at found
      · next here =>
        obtain rfl := Option.some.inj found
        refine ⟨[], r.pop.contents, whole, by simp, here, fun a => ?_⟩
        exact contents_write_head some a
      · next elsewhere =>
        obtain ⟨before, after, rest, others, here, replaced⟩ := ih found
        change holds (r.cells i) = true at here
        have other : r.head ≠ i := by
          rintro rfl
          exact elsewhere here
        refine ⟨r.front :: before, after, by rw [whole, rest]; rfl, ?_, here, fun a => ?_⟩
        · rw [forall_mem_cons]
          exact ⟨by simpa using elsewhere, others⟩
        · have nonempty : ¬ (r.write i a).Empty := some
          have front : (r.write i a).front = r.front := update_of_ne other _ _
          rw [contents_pop nonempty, front, cons_append]
          exact congrArg (r.front :: ·) (replaced a)

theorem find_eq_none {fuel : Nat} (enough : r.count ≤ fuel) (missing : find holds fuel r = none) :
    ∀ a ∈ r.contents, holds a = false := by
  induction fuel generalizing r with
  | zero =>
    have empty : r.contents = [] := by
      rw [← length_eq_zero_iff, length_contents]
      omega
    simp [empty]
  | succ fuel ih =>
    rw [find] at missing
    split at missing
    · next empty => simp [contents_eq_nil_iff.mpr empty]
    · next some =>
      have whole := contents_pop some
      have shorter := congrArg length whole
      rw [length_cons, length_contents, length_contents] at shorter
      split at missing
      · cases missing
      · next elsewhere =>
        rw [whole, forall_mem_cons]
        exact ⟨by simpa using elsewhere, ih (by omega) missing⟩

end Ring

end OpenURMA.Library
