import Mathlib.Logic.Function.Iterate

/-!
# Loops with a bound

A `while` loop as a function: the body is repeated as long as the guard holds, up to a bound. `Runs`
says that the loop ends by itself, so that a large enough bound is never what stops it.
-/

namespace OpenURMA.Library

variable {σ : Type*} {guard : σ → Bool} {body : σ → σ}

def whileUpTo (guard : σ → Bool) (body : σ → σ) : Nat → σ → σ
  | 0, state => state
  | bound + 1, state => if guard state then whileUpTo guard body bound (body state) else state

theorem whileUpTo_invariant {invariant : σ → Prop}
    (preserved : ∀ state, guard state = true → invariant state → invariant (body state))
    (bound : Nat) {state : σ} (holds : invariant state) :
    invariant (whileUpTo guard body bound state) := by
  induction bound generalizing state with
  | zero => exact holds
  | succ bound ih =>
    rw [whileUpTo]
    split
    · next running => exact ih (preserved state running holds)
    · exact holds

theorem view_whileUpTo {τ : Type*} {view : σ → τ} {guard' : τ → Bool} {body' : τ → τ}
    (seen : ∀ state, guard state = guard' (view state))
    (kept : ∀ state, view (body state) = body' (view state)) (bound : Nat) (state : σ) :
    view (whileUpTo guard body bound state) = whileUpTo guard' body' bound (view state) := by
  induction bound generalizing state with
  | zero => rfl
  | succ bound ih =>
    rw [whileUpTo, whileUpTo, seen]
    split
    · rw [ih, kept]
    · rfl

structure Runs (guard : σ → Bool) (body : σ → σ) (state : σ) (rounds : Nat) (final : σ) :
    Prop where
  running : ∀ round < rounds, guard (body^[round] state) = true
  result : body^[rounds] state = final
  stopped : guard final = false

namespace Runs

variable {state : σ}

theorem of_stopped (stopped : guard state = false) : Runs guard body state 0 state :=
  ⟨fun _ impossible => (Nat.not_lt_zero _ impossible).elim, rfl, stopped⟩

theorem succ {final : σ} {rounds : Nat} (holds : guard state = true)
    (rest : Runs guard body (body state) rounds final) :
    Runs guard body state (rounds + 1) final where
  running round inside := by
    cases round with
    | zero => exact holds
    | succ round => exact rest.running round (by omega)
  result := rest.result
  stopped := rest.stopped

theorem exists_of_stopped {bound : Nat} (stopped : guard (body^[bound] state) = false) :
    ∃ rounds ≤ bound, ∃ final, Runs guard body state rounds final := by
  induction bound generalizing state with
  | zero => exact ⟨0, Nat.le_refl 0, state, of_stopped stopped⟩
  | succ bound ih =>
    cases holds : guard state with
    | false => exact ⟨0, Nat.zero_le _, state, of_stopped holds⟩
    | true =>
      obtain ⟨rounds, bounded, final, runs⟩ := ih stopped
      exact ⟨rounds + 1, Nat.succ_le_succ bounded, final, runs.succ holds⟩

theorem whileUpTo_eq {final : σ} {rounds bound : Nat} (runs : Runs guard body state rounds final)
    (enough : rounds ≤ bound) :
    whileUpTo guard body bound state = final := by
  induction bound generalizing state rounds with
  | zero =>
    have none : rounds = 0 := by omega
    subst none
    exact runs.result
  | succ bound ih =>
    cases rounds with
    | zero =>
      have same : state = final := runs.result
      rw [whileUpTo, same, runs.stopped]
      rfl
    | succ rounds =>
      rw [whileUpTo, show guard state = true from runs.running 0 (by omega), if_pos rfl]
      refine ih ⟨fun round inside => ?_, runs.result, runs.stopped⟩ (by omega)
      exact runs.running (round + 1) (by omega)

end Runs

end OpenURMA.Library
