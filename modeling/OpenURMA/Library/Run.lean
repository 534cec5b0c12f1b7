import Mathlib.Data.List.Basic

/-!
# Runs of a step function

A run is a left fold of the step function over its inputs.  `Along` says that every step
of a run meets a condition on the state it starts from and on its input.
-/

namespace OpenURMA.Library

variable {σ ι : Type*} {step : σ → ι → σ} {meets : σ → ι → Prop} {state : σ}
variable {inputs first second : List ι}

def Along (step : σ → ι → σ) (meets : σ → ι → Prop) : σ → List ι → Prop
  | _, [] => True
  | state, input :: inputs => meets state input ∧ Along step meets (step state input) inputs

instance decidableAlong [∀ state input, Decidable (meets state input)] :
    (state : σ) → (inputs : List ι) → Decidable (Along step meets state inputs)
  | _, [] => inferInstanceAs (Decidable True)
  | state, input :: inputs =>
    have := decidableAlong (step state input) inputs
    inferInstanceAs (Decidable (_ ∧ _))

theorem along_append : Along step meets state (first ++ second) ↔
      Along step meets state first ∧ Along step meets (first.foldl step state) second := by
  induction first generalizing state with
  | nil => simp [Along]
  | cons input first ih =>
    rw [List.cons_append, Along, Along, ih, and_assoc]
    rfl

theorem along_iff :
    Along step meets state inputs ↔ ∀ before input after, inputs = before ++ input :: after →
        meets (before.foldl step state) input := by
  constructor
  · rintro along before input after rfl
    exact (along_append.mp along).2.1
  · intro every
    induction inputs generalizing state with
    | nil => trivial
    | cons head inputs ih =>
      refine ⟨every [] head inputs rfl, ih fun before input after split => ?_⟩
      exact every (head :: before) input after (by rw [split]; rfl)

theorem along_and {also : σ → ι → Prop} :
    Along step (fun state input => meets state input ∧ also state input) state inputs ↔
      Along step meets state inputs ∧ Along step also state inputs := by
  induction inputs generalizing state with
  | nil => simp [Along]
  | cons input inputs ih =>
    rw [Along, Along, Along, ih]
    tauto

theorem along_of_invariant {invariant : σ → Prop} {allowed : ι → Prop}
    (step_spec : ∀ state input, invariant state → allowed input →
      meets state input ∧ invariant (step state input))
    (holds : invariant state) (every : ∀ input ∈ inputs, allowed input) :
    Along step meets state inputs := by
  induction inputs generalizing state with
  | nil => trivial
  | cons input inputs ih =>
    have spec := step_spec state input holds (every input (by simp))
    exact ⟨spec.1, ih spec.2 fun other member => every other (by simp [member])⟩

end OpenURMA.Library
