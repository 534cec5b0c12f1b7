import Mathlib.Data.List.Perm.Basic
import Mathlib.Data.List.Range

/-!
# Queues of numbered items

Some items of a queue carry a number, cut to a modulus. The queue is numbered if the numbers are
consecutive. Items of a kind are counted as they join the queue, leave it at the head, or are taken
out of it.
-/

namespace OpenURMA.Library

open List

variable {α : Type*} {modulus : ℕ} {number : α → Option ℕ} {first count : ℕ}
variable {queue : List α} {item : α}

/-- The numbered items of the queue carry `count` consecutive numbers from `first` on. -/
def Numbered (modulus : ℕ) (number : α → Option ℕ) (first count : ℕ) (queue : List α) : Prop :=
  queue.filterMap number = (range' first count).map (· % modulus)

namespace Numbered

theorem nil : Numbered modulus number first 0 [] := rfl

theorem push_none (numbered : Numbered modulus number first count queue)
    (unnumbered : number item = none) :
    Numbered modulus number first count (queue ++ [item]) := by
  rw [Numbered, filterMap_append, filterMap_cons_none unnumbered,
    filterMap_nil, append_nil, numbered]

theorem push (numbered : Numbered modulus number first count queue)
    (next : number item = some ((first + count) % modulus)) :
    Numbered modulus number first (count + 1) (queue ++ [item]) := by
  rw [Numbered, filterMap_append, filterMap_cons_some next, filterMap_nil,
    numbered, range'_concat, map_append, map_singleton, Nat.one_mul]

variable (numbered : Numbered modulus number first count (item :: queue))
include numbered

theorem pop_none (unnumbered : number item = none) : Numbered modulus number first count queue := by
  rwa [Numbered, filterMap_cons_none unnumbered] at numbered

theorem pop {value : ℕ} (carried : number item = some value) :
    ∃ rest, count = rest + 1 ∧ value = first % modulus ∧
      Numbered modulus number (first + 1) rest queue := by
  rw [Numbered, filterMap_cons_some carried] at numbered
  cases count with
  | zero => cases numbered
  | succ rest =>
    rw [range'_succ, map_cons, cons.injEq] at numbered
    exact ⟨rest, rfl, numbered.1, numbered.2⟩

end Numbered

section

variable (kind : α → Bool)

theorem countP_push (queue : List α) (item : α) :
    (queue ++ [item]).countP kind = queue.countP kind + (kind item).toNat := by
  rw [countP_append, countP_singleton]
  cases kind item <;> rfl

theorem countP_pop (item : α) (queue : List α) :
    (item :: queue).countP kind = queue.countP kind + (kind item).toNat := by
  rw [countP_cons]
  cases kind item <;> rfl

theorem countP_eraseIdx {k : ℕ} (found : queue[k]? = some item) :
    (queue.eraseIdx k).countP kind + (kind item).toNat = queue.countP kind := by
  obtain ⟨inside, rfl⟩ := List.getElem?_eq_some_iff.mp found
  rw [← countP_pop]
  exact (getElem_cons_eraseIdx_perm inside).countP_eq kind

end

variable {κ β : Type*} [DecidableEq κ] (key : α → κ) (code : ℕ → β)

def ownCodes (k : κ) (items : List α) : List β :=
  (items.zipIdx.filter fun (item, _) => key item = k).map fun (_, i) => code i

theorem ownCodes_snoc (k : κ) (items : List α) (item : α) : ownCodes key code k (items ++ [item]) =
      ownCodes key code k items ++ if key item = k then [code items.length] else [] := by
  rw [ownCodes, zipIdx_append, filter_append, map_append, ownCodes]
  congr 1
  by_cases same : key item = k <;> simp [same]

@[simp] theorem length_ownCodes (k : κ) (items : List α) :
    (ownCodes key code k items).length = items.countP (key · = k) := by
  induction items using reverseRecOn with
  | nil => rfl
  | append_singleton items item ih =>
    rw [ownCodes_snoc, length_append, ih, countP_append, countP_singleton]
    by_cases same : key item = k <;> simp [same]

theorem ownCodes_snoc_iff (items : List α) (item : α) :
    (∀ k, ownCodes key code k (items ++ [item]) =
        (range ((items ++ [item]).countP (key · = k))).map code) ↔
      (∀ k, ownCodes key code k items = (range (items.countP (key · = k))).map code) ∧
        code items.length = code (items.countP (key · = key item)) := by
  have split : ∀ k, ownCodes key code k (items ++ [item]) =
        (range ((items ++ [item]).countP (key · = k))).map code ↔
      ownCodes key code k items = (range (items.countP (key · = k))).map code ∧
        (key item = k → code items.length = code (items.countP (key · = k))) := by
    intro k
    rw [ownCodes_snoc, countP_push]
    by_cases same : key item = k
    · rw [if_pos same, decide_eq_true same, Bool.toNat_true, range_succ, map_append]
      constructor
      · intro equal
        have parts := append_inj equal (by simp)
        exact ⟨parts.1, fun _ => by simpa using parts.2⟩
      · rintro ⟨equal, last⟩
        rw [equal, last same]
        rfl
    · simp [same]
  constructor
  · intro every
    exact ⟨fun k => ((split k).mp (every k)).1, ((split (key item)).mp (every (key item))).2 rfl⟩
  · rintro ⟨every, last⟩ k
    apply (split k).mpr
    refine ⟨every k, ?_⟩
    rintro rfl
    exact last

theorem ownCodes_iff (items : List α) :
    (∀ k, ownCodes key code k items = (range (items.countP (key · = k))).map code) ↔
      ∀ before item after, items = before ++ item :: after →
        code before.length = code (before.countP (key · = key item)) := by
  induction items using reverseRecOn with
  | nil => simp [ownCodes]
  | append_singleton items item ih =>
    rw [ownCodes_snoc_iff, ih]
    constructor
    · rintro ⟨every, last⟩ before other after split
      rcases eq_nil_or_concat after with rfl | ⟨after, final, rfl⟩
      · obtain ⟨rfl, same⟩ := append_inj' split rfl
        cases same
        exact last
      · have joined : items ++ [item] = (before ++ other :: after) ++ [final] := by
          rw [split, concat_eq_append]
          simp
        exact every before other after (append_inj' joined rfl).1
    · intro every
      refine ⟨fun before other after split => ?_, every items item [] rfl⟩
      exact every before other (after ++ [item]) (by rw [split]; simp)

end OpenURMA.Library
