import OpenURMA.Library.Element

/-!
# Handlers that emit in bursts

A handler that reads until it has something to say, then emits it over several calls without
reading. `pending` is what it still has to emit, and `Bursts` says how one call changes that. The
output of a run then consists of whole bursts and the first part of one whose remainder is pending.
-/

namespace OpenURMA.Library

open List

variable {σ ι ω υ : Type*}

/-- While nothing is pending the handler reads and may start a burst; otherwise it emits without
reading and is `ready` after the last item. -/
structure Bursts (handler : Handler σ ι ω) (invariant ready : σ → Prop) (pending : σ → List ω)
    (items : υ → List ω) (allowed : υ → Prop) : Prop where
  preserved : ∀ {state}, invariant state → ∀ offered, invariant (handler state offered).state
  silent : ∀ {state}, invariant state → pending state = [] → ∀ offered,
    (handler state offered).out = none
  reads : ∀ {state}, invariant state → pending state = [] → ∀ input,
    (handler state (some input)).read = true
  starts : ∀ {state}, invariant state → pending state = [] → ∀ offered,
    pending (handler state offered).state = [] ∨
      ∃ burst, allowed burst ∧ pending (handler state offered).state = items burst
  emits : ∀ {state out rest}, invariant state → pending state = out :: rest →
    ∃ next, pending next = rest ∧ (rest = [] → ready next) ∧
      ∀ offered, handler state offered = ⟨next, false, some out⟩

/-- `part` of a burst is emitted and `left` remains of it, or no burst is under way. -/
inductive Underway (items : υ → List ω) (allowed : υ → Prop) : List ω → List ω → Prop where
  | idle : Underway items allowed [] []
  | within {burst : υ} {part left : List ω} : allowed burst → left ≠ [] →
      items burst = part ++ left → Underway items allowed part left

namespace Bursts

variable {handler : Handler σ ι ω} {invariant ready : σ → Prop} {pending : σ → List ω}
variable {items : υ → List ω} {allowed : υ → Prop}

variable (bursts : Bursts handler invariant ready pending items allowed)
include bursts

theorem outputs_underway
    (schedule : List Bool) {state : σ} (holds : invariant state) (queue : List ι)
    {part : List ω} (underway : Underway items allowed part (pending state)) :
    ∃ (whole : List υ) (begun : List ω), (∀ burst ∈ whole, allowed burst) ∧
      part ++ (handler.run schedule state queue).outputs = whole.flatMap items ++ begun ∧
      Underway items allowed begun (pending (handler.run schedule state queue).state) := by
  induction schedule generalizing state queue part with
  | nil => exact ⟨[], part, by simp, by simp [Handler.run], underway⟩
  | cons offer schedule ih =>
    let offered := if offer then queue.head? else none
    let unread := if (handler state offered).read then queue.tail else queue
    have later := fun part => @ih _ (bursts.preserved holds offered) unread part
    change ∃ (whole : List υ) (begun : List ω), (∀ burst ∈ whole, allowed burst) ∧
      part ++ ((handler state offered).out.toList ++
        (handler.run schedule (handler state offered).state unread).outputs) = _ ∧
      Underway items allowed begun
        (pending (handler.run schedule (handler state offered).state unread).state)
    generalize held : pending state = left at underway
    cases underway with
    | idle =>
      have started : Underway items allowed [] (pending (handler state offered).state) := by
        rcases bursts.starts holds held offered with none | ⟨burst, ok, begins⟩
        · rw [none]
          exact .idle
        · rw [begins]
          cases shape : items burst with
          | nil => exact .idle
          | cons out rest => exact .within ok (cons_ne_nil _ _) shape
      rw [bursts.silent holds held]
      exact later [] started
    | @within burst _ _ ok more split =>
      obtain ⟨out, rest, rfl⟩ := exists_cons_of_ne_nil more
      obtain ⟨next, remains, _, calls⟩ := bursts.emits holds held
      rw [calls] at later ⊢
      rw [Option.toList_some, singleton_append]
      cases rest with
      | nil =>
        -- the burst is complete
        obtain ⟨whole, begun, every, outs, under⟩ := later [] (by rw [remains]; exact .idle)
        refine ⟨burst :: whole, begun, by simpa using ⟨ok, every⟩, ?_, under⟩
        rw [flatMap_cons, split, append_assoc, append_assoc, ← outs]
        rfl
      | cons other rest =>
        have within : Underway items allowed (part ++ [out]) (pending next) := by
          rw [remains]
          exact .within ok (cons_ne_nil _ _) (by rw [split, append_assoc]; rfl)
        obtain ⟨whole, begun, every, outs, under⟩ := later (part ++ [out]) within
        refine ⟨whole, begun, every, ?_, under⟩
        rw [← outs, append_assoc]
        rfl

theorem run_pending {left : List ω} : ∀ {state : σ}, invariant state → pending state = left →
      ∃ final, invariant final ∧ pending final = [] ∧ (left ≠ [] → ready final) ∧
        ∀ (offers : List Bool) (queue : List ι), offers.length = left.length →
          handler.run offers state queue = ⟨final, queue, left⟩ := by
  induction left with
  | nil =>
    intro state holds held
    refine ⟨state, holds, held, fun more => (more rfl).elim, fun offers queue count => ?_⟩
    rw [length_eq_zero_iff.mp count]
    rfl
  | cons out left ih =>
    intro state holds held
    obtain ⟨next, rest, last, calls⟩ := bursts.emits holds held
    have kept : invariant next := by
      have := bursts.preserved holds none
      rwa [calls] at this
    obtain ⟨final, settled, done, idle, later⟩ := ih kept rest
    refine ⟨final, settled, done, fun _ => ?_, fun offers queue count => ?_⟩
    · cases left with
      | nil =>
        obtain rfl : next = final := congrArg Outcome.state (later [] [] rfl)
        exact last rfl
      | cons => exact idle (cons_ne_nil _ _)
    · cases offers with
      | nil => cases count
      | cons offer offers =>
        have tail := later offers queue (Nat.succ.inj count)
        simp only [Handler.run, calls, tail, Bool.false_eq_true, ↓reduceIte,
          Option.toList_some, singleton_append]

end Bursts

end OpenURMA.Library
