import Mathlib.Data.List.Range
import Mathlib.Logic.Function.Basic

/-!
# Scattered blocks of a memory

A block whose units lie at arbitrary places of a memory: `place i` is where unit `i` is. Where
places coincide, the unit written last stays. A copy in steps copies the block as long as no step
writes where a later one reads.
-/

namespace OpenURMA.Library

open Function List

variable {κ β : Type*} {place : ℕ → κ} {memory : κ → β}

def gatherAt (place : ℕ → κ) (memory : κ → β) (count : ℕ) : List β :=
  (range count).map fun i => memory (place i)

@[simp] theorem gatherAt_length (place : ℕ → κ) (memory : κ → β) (count : ℕ) :
    (gatherAt place memory count).length = count := by
  simp [gatherAt]

theorem gatherAt_add (first second : ℕ) : gatherAt place memory (first + second) =
      gatherAt place memory first ++ gatherAt (fun i => place (first + i)) memory second := by
  simp only [gatherAt, range_add, map_append, map_map]
  rfl

variable {count : ℕ}

theorem gatherAt_congr {place' : ℕ → κ} {memory' : κ → β}
    (same : ∀ i < count, memory (place i) = memory' (place' i)) :
    gatherAt place memory count = gatherAt place' memory' count :=
  map_congr_left fun i member => same i (mem_range.mp member)

variable [DecidableEq κ]

def scatterAt (place : ℕ → κ) (memory : κ → β) : List β → κ → β
  | [] => memory
  | value :: values => scatterAt (fun i => place (i + 1)) (update memory (place 0) value) values

theorem scatterAt_append (first second : List β) : scatterAt place memory (first ++ second) =
      scatterAt (fun i => place (first.length + i)) (scatterAt place memory first) second := by
  induction first generalizing place memory with
  | nil => simp [scatterAt]
  | cons value first ih =>
    rw [cons_append, scatterAt, ih, scatterAt, length_cons]
    congr 1
    funext i
    rw [Nat.add_right_comm]

variable {values : List β}

theorem scatterAt_congr {place' : ℕ → κ} (same : ∀ i < values.length, place i = place' i) :
    scatterAt place memory values = scatterAt place' memory values := by
  induction values generalizing place place' memory with
  | nil => rfl
  | cons value values ih =>
    rw [scatterAt, scatterAt, same 0 (by simp)]
    exact ih fun i inside => same (i + 1) (by simpa using inside)

theorem scatterAt_of_ne {k : κ} (apart : ∀ i < values.length, k ≠ place i) :
    scatterAt place memory values k = memory k := by
  induction values generalizing place memory with
  | nil => rfl
  | cons value values ih =>
    rw [scatterAt, ih fun i inside => apart (i + 1) (by simpa using inside),
      update_of_ne (apart 0 (by simp))]

theorem scatterAt_replicate (count : ℕ) (value : β) (k : κ) :
    scatterAt place memory (replicate count value) k =
      if ∃ i < count, k = place i then value else memory k := by
  induction count generalizing place memory with
  | zero => simp [scatterAt]
  | succ count ih =>
    rw [replicate_succ, scatterAt, ih]
    by_cases later : ∃ i < count, k = place (i + 1)
    · obtain ⟨i, small, here⟩ := later
      rw [if_pos ⟨i, small, here⟩, if_pos ⟨i + 1, by omega, here⟩]
    · rw [if_neg later]
      by_cases first : k = place 0
      · rw [if_pos ⟨0, by omega, first⟩, first, update_self]
      · have never : ¬∃ i < count + 1, k = place i := by
          rintro ⟨i, small, here⟩
          cases i with
          | zero => exact first here
          | succ i => exact later ⟨i, by omega, here⟩
        rw [if_neg never, update_of_ne first]

theorem scatterAt_last {first second : List β} {value : β}
    (apart : ∀ i < second.length, place first.length ≠ place (first.length + 1 + i)) :
    scatterAt place memory (first ++ value :: second) (place first.length) = value := by
  rw [scatterAt_append, scatterAt, scatterAt_of_ne]
  · exact update_self ..
  · intro i inside
    rw [← Nat.add_assoc, Nat.add_right_comm]
    exact apart i inside

variable {source : ℕ → κ}

theorem scatterAt_getElem {i : ℕ} (inside : i < values.length)
    (last : ∀ j < values.length, i < j → place i ≠ place j) :
    scatterAt place memory values (place i) = values[i] := by
  have length : (values.take i).length = i := length_take_of_le (Nat.le_of_lt inside)
  have written : scatterAt place memory (values.take i ++ values[i] :: values.drop (i + 1))
      (place (values.take i).length) = values[i] := by
    refine scatterAt_last fun j small => ?_
    rw [length_drop] at small
    rw [length]
    exact last _ (by omega) (by omega)
  rwa [length, ← drop_eq_getElem_cons inside, take_append_drop] at written

theorem scatterAt_gatherAt_apply {i : ℕ} (inside : i < count)
    (last : ∀ j < count, i < j → place i ≠ place j) :
    scatterAt place memory (gatherAt source memory count) (place i) = memory (source i) := by
  rw [scatterAt_getElem (by rwa [gatherAt_length]) (by rwa [gatherAt_length])]
  simp [gatherAt]

theorem scatterAt_gatherAt_add {target : ℕ → κ} {done : ℕ}
    (apart : ∀ i < done, ∀ j < count, target i ≠ source (done + j)) :
    scatterAt (fun i => target (done + i)) (scatterAt target memory (gatherAt source memory done))
        (gatherAt (fun i => source (done + i))
          (scatterAt target memory (gatherAt source memory done)) count) =
      scatterAt target memory (gatherAt source memory (done + count)) := by
  have unread : gatherAt (fun i => source (done + i))
      (scatterAt target memory (gatherAt source memory done)) count =
        gatherAt (fun i => source (done + i)) memory count := by
    refine gatherAt_congr fun j inside => scatterAt_of_ne fun i before => ?_
    rw [gatherAt_length] at before
    exact (apart i before j inside).symm
  rw [unread, gatherAt_add, scatterAt_append, gatherAt_length]

end OpenURMA.Library
