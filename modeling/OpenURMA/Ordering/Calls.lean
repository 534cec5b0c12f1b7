import OpenURMA.Library.Run
import OpenURMA.Ordering.IniQueues

/-!
# Runs of the initiator's elements

`UB_Jetty_Sched` and `UB_OrderTracker_Initiator` have the same ports: flits of work requests at
input 1, response notifications at input 2, flits at output 1.  A run is a list of calls, with
or without input at either port; `posted`, `sent` and `notes` are its history.
-/

namespace OpenURMA

open Library List

/-- What a call finds at the two input ports. -/
structure Call where
  wr : Option Flit := none
  notification : Option Flit := none

def posted (calls : List Call) : List Flit := calls.filterMap Call.wr

def notes (i : Fin 16) (calls : List Call) : Nat :=
  calls.countP fun call => call.notification.any (notifiedSlot · == i)

variable {calls : List Call} {call : Call}

section

variable {calls' : List Call} {i : Fin 16}

theorem posted_append : posted (calls ++ calls') = posted calls ++ posted calls' :=
  filterMap_append

theorem posted_cons : posted (call :: calls) = call.wr.toList ++ posted calls := by
  cases wr : call.wr <;> simp [posted, wr]

theorem posted_snoc : posted (calls ++ [call]) = posted calls ++ call.wr.toList := by
  rw [posted_append, posted_cons]
  simp [posted]

theorem countP_snoc {α : Type} (p : α → Bool) (xs : List α) (x : α) :
    (xs ++ [x]).countP p = xs.countP p + (p x).toNat := by
  rw [countP_append, countP_singleton]
  cases p x <;> rfl

theorem notes_snoc : notes i (calls ++ [call]) =
    notes i calls + (call.notification.any (notifiedSlot · == i)).toNat :=
  countP_snoc ..

theorem notes_eq_zero (quiet : ∀ call ∈ calls, call.notification = none) : notes i calls = 0 := by
  rw [notes, countP_eq_zero]
  intro call member
  rw [quiet call member]
  simp

end

namespace IniQueues

variable {α : Type} {s t : IniQueues α} {departed : Fin 16 → Nat}

theorem Tally.notified (tally : s.Tally departed (notes · calls))
    (follow : ∀ i, notes i (calls ++ [call]) ≤ departed i)
    (after : t = call.notification.elim s s.notify) :
    t.Tally departed (notes · (calls ++ [call])) := by
  rw [after]
  cases notification : call.notification with
  | none =>
    intro i
    dsimp only
    rw [notes_snoc, notification]
    exact tally i
  | some cn =>
    have bound := follow (notifiedSlot cn)
    rw [notes_snoc, notification, Option.any_some, beq_self_eq_true] at bound
    intro i
    dsimp only
    rw [notes_snoc, notification]
    exact tally.notify (Nat.lt_of_succ_le bound) i

theorem NoWrap.notified (noWrap : s.NoWrap) (after : t = call.notification.elim s s.notify) :
    t.NoWrap := by
  rw [after]
  cases call.notification with
  | none => exact noWrap
  | some cn => exact noWrap.notify cn

end IniQueues

variable {σ : Type} (step : Mealy σ Call (Ports Flit)) (departures : Fin 16 → List Flit → Nat)

def sent (s : σ) (calls : List Call) : List Flit := Ports.sent 1 (step.trace s calls)

/-- In every call of a run, the notifications received so far do not exceed the departures of
earlier calls. -/
def NotesFollow (s : σ) (calls : List Call) : Prop :=
  ∀ k < calls.length, ∀ i,
    notes i (calls.take (k + 1)) ≤ departures i (sent step s (calls.take k))

instance (s : σ) (calls : List Call) : Decidable (NotesFollow step departures s calls) :=
  inferInstanceAs (Decidable (∀ k < calls.length, ∀ _ : Fin 16, _))

variable {step departures} {s : σ}

theorem sent_cons : sent step s (call :: calls) =
    ((step s call).2 1).toList ++ sent step (step.next s call) calls :=
  Ports.sent_cons ..

theorem sent_append {calls' : List Call} : sent step s (calls ++ calls') =
    sent step s calls ++ sent step (step.final s calls) calls' := by
  rw [sent, Mealy.trace_append, Ports.sent_append]
  rfl

theorem sent_snoc : sent step s (calls ++ [call]) =
    sent step s calls ++ ((step (step.final s calls) call).2 1).toList := by
  rw [sent_append, sent_cons]
  simp [sent]

theorem NotesFollow.split {after : List Call}
    (follow : NotesFollow step departures s (calls ++ call :: after)) (i : Fin 16) :
    notes i (calls ++ [call]) ≤ departures i (sent step s calls) := by
  have here := follow calls.length (by simp) i
  rwa [append_cons, take_left' (by simp), append_assoc, take_left] at here

theorem NotesFollow.start {after : List Call}
    (follow : NotesFollow step departures s (calls ++ after)) :
    NotesFollow step departures s calls := by
  intro k inside i
  have here := follow k (by rw [length_append]; omega) i
  rwa [take_append_of_le_length (by omega), take_append_of_le_length (by omega)] at here

theorem notesFollow_of_quiet (quiet : ∀ call ∈ calls, call.notification = none) :
    NotesFollow step departures s calls := by
  intro k _ i
  rw [notes_eq_zero fun call member => quiet call (mem_of_mem_take member)]
  exact Nat.zero_le _

end OpenURMA
