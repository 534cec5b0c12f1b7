import Mathlib.Data.List.Forall2

/-!
# Requests that are served in order

Requests are recorded in a queue and leave it in order, each with a result: the first requests have
results, the others have records. What a record or a result says about its request is a parameter,
so that it can change as the run goes on.
-/

namespace OpenURMA.Library

open List

variable {α β γ : Type*}

theorem forall₂_of_mem {first second : α → β → Prop} {l : List α} {m : List β}
    (related : l.Forall₂ first m) (implies : ∀ a ∈ l, ∀ b, first a b → second a b) :
    l.Forall₂ second m := by
  induction related with
  | nil => exact .nil
  | cons here _ ih =>
    rw [forall_mem_cons] at implies
    exact .cons (implies.1 _ here) (ih implies.2)

theorem map_eq_of_forall₂ {δ : Type*} {relation : α → β → Prop} {key : α → δ} {of : β → δ}
    {l : List α} {m : List β} (related : l.Forall₂ relation m)
    (equal : ∀ a b, relation a b → of b = key a) : m.map of = l.map key := by
  induction related with
  | nil => rfl
  | cons here _ ih => rw [map_cons, map_cons, ih, equal _ _ here]

def Backlog (settled : α → β → Prop) (recorded : α → γ → Prop) (requests : List α)
    (results : List β) (queue : List γ) : Prop :=
  ∃ done waiting, requests = done ++ waiting ∧ done.Forall₂ settled results ∧
    waiting.Forall₂ recorded queue

namespace Backlog

variable {settled settled' : α → β → Prop} {recorded recorded' : α → γ → Prop}
variable {requests : List α} {results : List β} {queue before after : List γ}
variable {a : α} {b : β} {c : γ}

theorem nil : Backlog settled recorded [] [] [] := ⟨[], [], rfl, .nil, .nil⟩

theorem mono (backlog : Backlog settled recorded requests results queue)
    (results' : ∀ a ∈ requests, ∀ b, settled a b → settled' a b)
    (queue' : ∀ a ∈ requests, ∀ c, recorded a c → recorded' a c) :
    Backlog settled' recorded' requests results queue := by
  obtain ⟨done, waiting, rfl, first, second⟩ := backlog
  rw [forall_mem_append] at results' queue'
  exact ⟨done, waiting, rfl, forall₂_of_mem first results'.1, forall₂_of_mem second queue'.2⟩

theorem enter (backlog : Backlog settled recorded requests results queue) (here : recorded a c) :
    Backlog settled recorded (requests ++ [a]) results (queue ++ [c]) := by
  obtain ⟨done, waiting, rfl, first, second⟩ := backlog
  exact ⟨done, waiting ++ [a], by simp, first, rel_append second (.cons here .nil)⟩

theorem find (backlog : Backlog settled recorded requests results (before ++ c :: after)) :
    ∃ earlier a later, requests = earlier ++ a :: later ∧ recorded a c ∧
      ∀ {settled' : α → β → Prop} {recorded' : α → γ → Prop} {c' : γ},
        (∀ q ∈ earlier ++ later, ∀ b, settled q b → settled' q b) →
        (∀ q ∈ earlier ++ later, ∀ d, recorded q d → recorded' q d) → recorded' a c' →
        Backlog settled' recorded' requests results (before ++ c' :: after) := by
  obtain ⟨done, waiting, rfl, first, second⟩ := backlog
  have tail := forall₂_drop_append _ _ _ second
  have head := forall₂_take_append _ _ _ second
  obtain ⟨a, later, here, rest, split⟩ := forall₂_cons_right_iff.mp tail
  have whole : waiting = waiting.take before.length ++ a :: later := by
    rw [← split, take_append_drop]
  refine ⟨done ++ waiting.take before.length, a, later, ?_, here, ?_⟩
  · rw [append_assoc, ← whole]
  · intro settled' recorded' c' results' queue' replaced
    simp only [forall_mem_append] at results' queue'
    refine ⟨done, waiting, rfl, forall₂_of_mem first results'.1.1, ?_⟩
    rw [whole]
    exact rel_append (forall₂_of_mem head queue'.1.2)
      (.cons replaced (forall₂_of_mem rest queue'.2))

theorem exists_of_mem (backlog : Backlog settled recorded requests results queue)
    (member : c ∈ queue) : ∃ a ∈ requests, recorded a c := by
  obtain ⟨before, after, rfl⟩ := append_of_mem member
  obtain ⟨earlier, a, later, rfl, here, _⟩ := backlog.find
  exact ⟨a, by simp, here⟩

theorem leave (backlog : Backlog settled recorded requests results (c :: queue))
    (result : ∀ a, recorded a c → settled a b) :
    Backlog settled recorded requests (results ++ [b]) queue := by
  obtain ⟨done, waiting, rfl, first, second⟩ := backlog
  obtain ⟨a, later, here, rest, rfl⟩ := forall₂_cons_right_iff.mp second
  exact ⟨done ++ [a], later, by simp, rel_append first (.cons (result a here) .nil), rest⟩

variable (backlog : Backlog settled recorded requests results queue)
include backlog

theorem map_eq {δ : Type*} {key : α → δ} {ofResult : β → δ} {ofRecord : γ → δ}
    (results' : ∀ a b, settled a b → ofResult b = key a)
    (queue' : ∀ a c, recorded a c → ofRecord c = key a) :
    results.map ofResult ++ queue.map ofRecord = requests.map key := by
  obtain ⟨done, waiting, rfl, first, second⟩ := backlog
  rw [map_append, map_eq_of_forall₂ first results', map_eq_of_forall₂ second queue']

theorem getElem? {k : ℕ}
    (result : results[k]? = some b) : ∃ a, requests[k]? = some a ∧ settled a b := by
  obtain ⟨done, waiting, rfl, first, second⟩ := backlog
  obtain ⟨inside, rfl⟩ := List.getElem?_eq_some_iff.mp result
  have inside' : k < done.length := first.length_eq ▸ inside
  refine ⟨done[k], ?_, ?_⟩
  · rw [getElem?_append_left inside', getElem?_eq_getElem inside']
  · exact Forall₂.get first inside' inside

end Backlog

end OpenURMA.Library
