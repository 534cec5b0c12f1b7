import OpenURMA.Transport.Receivers

/-!
# At-most-once acceptance

A packet behind the expected PSN is refused, but one that is ahead of it and already marked
in the bitmap is handed on again, and a source that takes over a slot erases what the slot
remembers.  Runs without either hand every packet on at most once.
-/

namespace OpenURMA.TpChannelRx

open Library List

/-- No packet is handed on twice: a repeat of an accepted packet only produces an
acknowledgement. -/
structure AtMostOnce (memory : Fin 16 → U32) (history : List Arrival) : Prop where
  once : (acceptances (init memory) history).Nodup
  repeats : ∀ before a after, history = before ++ a :: after →
    (a.source, a.number) ∈ acceptances (init memory) before →
    forwarded (run (init memory) before) a.packet = [] ∧
      (acknowledged (run (init memory) before) a.packet).length = 1

def Slots.Unmarked (slots : Slots) (a : Arrival) : Prop :=
  ¬((slots.receiver a.source a.number).next < a.number ∧ a.number ∈ slots.got a.source)
deriving Decidable

/-- The slot is not taken over, and the arrival is not a repeat ahead of the expected
number. -/
def Slots.Orderly (slots : Slots) (a : Arrival) : Prop := slots.Keeps a ∧ slots.Unmarked a
deriving Decidable

variable {log : List (U32 × ℕ)}

section

variable {slots : Slots} {a : Arrival}

theorem accepts_again (delivered : a.number ∈ slots.got a.source) :
    ((slots.receiver a.source a.number).verdict a.number).accepts = true ↔
      (slots.receiver a.source a.number).next < a.number := by
  rw [← Slots.got_receiver slots a.source a.number] at delivered
  have inside := ((slots.receiver a.source a.number).bounded _ delivered).2
  rcases Nat.lt_trichotomy a.number (slots.receiver a.source a.number).next with
    before | here | after
  · simp [Receiver.verdict_behind before, Verdict.accepts, before.le]
  · have fresh := (slots.receiver a.source a.number).fresh
    rw [← here] at fresh
    exact (fresh delivered).elim
  · simp [Receiver.verdict_ahead after inside, Verdict.accepts, after]

/-- An arrival is logged a second time exactly if it is a repeat ahead of the expected
number. -/
theorem disjoint_acceptance_iff {s : State} (represents : Represents s slots)
    (logged : Logged slots log) (close : slots.Close a) :
    log.Disjoint (acceptance s a) ↔ slots.Unmarked a := by
  rw [acceptance_spec represents a close, Slots.Unmarked]
  by_cases delivered : a.number ∈ slots.got a.source
  · have seen := (logged a.source a.number).mpr delivered
    simp only [accepts_again delivered]
    by_cases after : (slots.receiver a.source a.number).next < a.number
    · simp [after, delivered, seen]
    · simp [after]
  · have unseen := mt (logged a.source a.number).mp delivered
    cases ((slots.receiver a.source a.number).verdict a.number).accepts <;>
      simp [delivered, unseen]

end

theorem nodup_acceptance (s : State) (a : Arrival) : (acceptance s a).Nodup := by
  unfold acceptance
  split <;> simp

variable {history : List Arrival}

/-- Without takeovers the log is free of repeats exactly if no arrival repeats a number
ahead of the expected one. -/
theorem nodup_iff {s : State} {slots : Slots} (represents : Represents s slots)
    (logged : Logged slots log) (distinct : log.Nodup) (close : slots.Along Slots.Close history)
    (keeps : slots.Along Slots.Keeps history) :
    (log ++ acceptances s history).Nodup ↔ slots.Along Slots.Unmarked history := by
  induction history generalizing s slots log with
  | nil => simpa [acceptances, Along] using distinct
  | cons a history ih =>
    rw [acceptances, ← append_assoc]
    have disjoint := disjoint_acceptance_iff represents logged close.1
    have rest := ih (represents_deliver represents a close.1)
      (logged_arrive represents logged close.1 keeps.1)
    constructor
    · intro once
      have first := (nodup_append'.mp once).1
      exact ⟨disjoint.mp (nodup_append'.mp first).2.2, (rest first close.2 keeps.2).mp once⟩
    · intro unmarked
      have first : (log ++ acceptance s a).Nodup := nodup_append'.mpr
        ⟨distinct, nodup_acceptance s a, disjoint.mpr unmarked.1⟩
      exact (rest first close.2 keeps.2).mpr unmarked.2

theorem atMostOnce_of_nodup {memory : Fin 16 → U32}
    (once : (acceptances (init memory) history).Nodup) : AtMostOnce memory history := by
  refine ⟨once, ?_⟩
  rintro before a after rfl seen
  refine ⟨?_, by rw [acknowledged_eq]; rfl⟩
  by_contra handed
  have logged : acceptance (run (init memory) before) a = [(a.source, a.number)] :=
    if_neg handed
  rw [acceptances_append, acceptances, logged] at once
  exact (nodup_append'.mp once).2.2 seen (by simp)

/-- Runs in which no source takes a slot over and no arrival repeats a number ahead of the expected
one hand every packet on at most once; where no slot is taken over, only they. -/
theorem at_most_once (memory : Fin 16 → U32) (history : List Arrival)
    (close : Slots.empty.Along Slots.Close history) :
    (Slots.empty.Along Slots.Orderly history → AtMostOnce memory history) ∧
      (Slots.empty.Along Slots.Keeps history → AtMostOnce memory history →
        Slots.empty.Along Slots.Orderly history) := by
  have iff := fun keeps => nodup_iff (represents_init memory) logged_empty nodup_nil
    close keeps
  simp only [nil_append] at iff
  have split : Slots.empty.Along Slots.Orderly history ↔ _ := along_and
  rw [split]
  constructor
  · rintro ⟨keeps, unmarked⟩
    exact atMostOnce_of_nodup ((iff keeps).mpr unmarked)
  · intro keeps atMostOnce
    exact ⟨keeps, (iff keeps).mp atMostOnce.once⟩

/-- A late packet and a repeat of one behind the expected number are harmless. -/
theorem at_most_once_late :
    AtMostOnce (fun _ => 0) [.plain 3 0, .plain 3 2, .plain 3 1, .plain 3 0] :=
  (at_most_once _ _ (by decide +kernel)).1 (by decide +kernel)

/-- The repeat of a packet that waits ahead of the expected number is handed on again. -/
theorem not_at_most_once_marked :
    Slots.empty.Along Slots.Close [.plain 3 0, .plain 3 2, .plain 3 2] ∧
      ¬AtMostOnce (fun _ => 0) [.plain 3 0, .plain 3 2, .plain 3 2] := by
  refine ⟨by decide +kernel, fun atMostOnce => ?_⟩
  have once := atMostOnce.once
  revert once
  decide +kernel

-- source 19 takes over the slot of source 3, whose first packet then counts as new
example : (acceptances (init fun _ => 0)
      [.plain 3 0, .plain 19 0, .plain 3 0]).count (3, 0) = 2 := by
  decide +kernel

end OpenURMA.TpChannelRx
