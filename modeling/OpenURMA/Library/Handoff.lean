import Mathlib.Algebra.Group.Nat.Defs
import Mathlib.Data.List.Basic
import Mathlib.Tactic.Common

/-!
# Handing a queue on in batches

Producers put values at the end of a bounded queue and count them in `w` bits. The consumer takes
the whole queue at once, hands the values on one by one, and counts each off after that. So the
counter is late by one between the two, and right otherwise.
-/

namespace OpenURMA.Library

open List

variable {α : Type*} {w capacity : ℕ}

structure Handoff (α : Type*) (w : ℕ) where
  queue : List α
  batch : List α
  counter : BitVec w
  late : Bool

namespace Handoff

inductive Moves (capacity : ℕ) : Handoff α w → Option α → Option α → Handoff α w → Prop where
  | stay {s : Handoff α w} : Moves capacity s none none s
  | put {queue batch : List α} {counter : BitVec w} {late : Bool} {value : α} :
      queue.length < capacity →
      Moves capacity ⟨queue, batch, counter, late⟩ (some value) none
        ⟨queue ++ [value], batch, counter + 1, late⟩
  | take {queue : List α} {counter : BitVec w} :
      Moves capacity ⟨queue, [], counter, false⟩ none none ⟨[], queue, counter, false⟩
  | hand {queue batch : List α} {counter : BitVec w} {value : α} :
      Moves capacity ⟨queue, value :: batch, counter, false⟩ none (some value)
        ⟨queue, batch, counter, true⟩
  | count {queue batch : List α} {counter : BitVec w} :
      Moves capacity ⟨queue, batch, counter, true⟩ none none ⟨queue, batch, counter - 1, false⟩

def counted (s : Handoff α w) : ℕ := s.batch.length + s.queue.length + s.late.toNat

/-- The state against the values put in and handed on so far. -/
structure Accounts (capacity : ℕ) (put handed : List α) (s : Handoff α w) : Prop where
  order : put = handed ++ s.batch ++ s.queue
  counter : s.counter = BitVec.ofNat w s.counted
  queue : s.queue.length ≤ capacity
  batch : s.batch.length ≤ capacity

variable {put handed : List α} {s next : Handoff α w} {value out : Option α}

variable (accounts : Accounts capacity put handed s)
include accounts

theorem Accounts.move (moves : Moves capacity s value out next) :
    Accounts capacity (put ++ value.toList) (handed ++ out.toList) next := by
  obtain ⟨order, right, queueFits, batchFits⟩ := accounts
  cases moves with
  | stay => exact ⟨by simpa using order, right, queueFits, batchFits⟩
  | @put queue batch counter late value room =>
    have more : batch.length + (queue.length + 1) + late.toNat =
        batch.length + queue.length + late.toNat + 1 := by omega
    refine ⟨by simp [order], ?_, ?_, batchFits⟩
    · simp only [counted, length_append, length_singleton] at right ⊢
      rw [right, more, BitVec.ofNat_add _ 1]
      rfl
    · simp only [length_append, length_singleton]
      exact room
  | take => exact ⟨by simpa using order, by simpa [counted] using right, by simp, queueFits⟩
  | @hand queue batch counter value =>
    refine ⟨by simpa using order, ?_, queueFits, Nat.le_of_succ_le batchFits⟩
    simpa [counted, Nat.add_right_comm] using right
  | count =>
    refine ⟨by simpa using order, ?_, queueFits, batchFits⟩
    simp only [counted, Bool.toNat_true, Bool.toNat_false] at right ⊢
    rw [right, BitVec.ofNat_add _ 1, Nat.add_zero]
    exact BitVec.add_sub_cancel _ _

theorem Accounts.counter_toNat (wide : 2 * capacity + 1 < 2 ^ w) :
    s.counter.toNat = put.length - handed.length + s.late.toNat := by
  have inside : s.counted < 2 ^ w := by
    have := accounts.queue
    have := accounts.batch
    have := s.late.toNat_le
    simp only [counted]
    omega
  rw [accounts.counter, BitVec.toNat_ofNat, Nat.mod_eq_of_lt inside, accounts.order]
  simp only [counted, length_append]
  omega

theorem Accounts.all_handed
    (wide : 2 * capacity + 1 < 2 ^ w) (zero : s.counter = 0) : handed = put := by
  have number := accounts.counter_toNat wide
  have whole : handed <+: put := ⟨s.batch ++ s.queue, by rw [accounts.order, append_assoc]⟩
  have none : s.counter.toNat = 0 := by simp [zero]
  exact whole.eq_of_length_le (by omega)

end Handoff

end OpenURMA.Library
