import Mathlib.Algebra.Group.Fin.Basic
import Mathlib.Algebra.GroupWithZero.Nat
import Mathlib.Data.List.Nodup

/-!
# Round robin

A cursor goes round the places `0, …, n - 1`.  As long as it leaves one place out it is at no
other place twice.
-/

namespace OpenURMA.Library

variable {n : ℕ} [NeZero n] {cursor place left : Fin n} {count : ℕ}

def visits : Fin n → ℕ → List (Fin n)
  | _, 0 => []
  | cursor, count + 1 => cursor :: visits (cursor + 1) count

theorem mem_visits : place ∈ visits cursor count ↔ (place - cursor).val < count := by
  induction count generalizing cursor with
  | zero => simp [visits]
  | succ count ih =>
    rw [visits, List.mem_cons, ih, sub_add_eq_sub_sub]
    by_cases here : place = cursor
    · simp [here]
    · have distance : (place - cursor - 1).val = (place - cursor).val - 1 :=
        Fin.val_sub_one_of_ne_zero (sub_ne_zero.mpr here)
      have apart : (place - cursor).val ≠ 0 := by
        rw [Ne, Fin.val_eq_zero_iff, sub_eq_zero]
        exact here
      rw [distance]
      simp only [here, false_or]
      omega

theorem val_sub_next (cursor : Fin n) : (cursor - (cursor + 1)).val + 1 = n := by
  have behind : cursor - (cursor + 1) = -1 := by
    rw [sub_add_eq_sub_sub, sub_self, zero_sub]
  rw [behind]
  cases n with
  | zero => exact cursor.elim0
  | succ m => rw [Fin.coe_neg_one]

theorem nodup_visits (out : left ∉ visits cursor count) : (visits cursor count).Nodup := by
  induction count generalizing cursor with
  | zero => exact .nil
  | succ count ih =>
    have far := (left - cursor).isLt
    have round := val_sub_next cursor
    rw [mem_visits] at out
    rw [visits, List.nodup_cons, mem_visits]
    refine ⟨by omega, ih ?_⟩
    rw [mem_visits, sub_add_eq_sub_sub, Fin.val_sub_one_of_ne_zero]
    · omega
    · intro here
      rw [here] at out
      exact out (Nat.succ_pos count)

end OpenURMA.Library
