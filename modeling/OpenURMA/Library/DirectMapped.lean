import Mathlib.Data.List.Range
import OpenURMA.Library.Element

/-!
# Direct-mapped tables

A dictionary in a fixed set of cells, one per hash value. Inserting overwrites what the cell holds
and erasing clears it, so entries can be lost, but a cell never answers with a value that the
dictionary does not have. Nothing is lost as long as no update finds another key in its cell.

If the values are counters, they are right exactly as long as no key loses its cell between two of
its own ticks. What comes from a cell depends on its own inputs alone.
-/

namespace OpenURMA.Library

open Function List Nat

variable {κ ι α : Type*} [DecidableEq κ] [DecidableEq ι]

inductive Command (κ α : Type*) where
  | insert (key : κ) (value : α)
  | erase (key : κ)

namespace Command

def onStore (store : κ → Option α) : Command κ α → κ → Option α
  | insert key value => update store key (some value)
  | erase key => update store key none

def onCells (hash : κ → ι) (cells : ι → Option (κ × α)) : Command κ α → ι → Option (κ × α)
  | insert key value => update cells (hash key) (some (key, value))
  | erase key => update cells (hash key) none

end Command

def storeAfter (history : List (Command κ α)) : κ → Option α :=
  history.foldl Command.onStore fun _ => none

def CellsSound (hash : κ → ι) (cells : ι → Option (κ × α)) (store : κ → Option α) : Prop :=
  ∀ key value, cells (hash key) = some (key, value) → store key = some value

variable {hash : κ → ι} {cells : ι → Option (κ × α)} {store : κ → Option α}

namespace CellsSound

theorem update (sound : CellsSound hash cells store) (command : Command κ α) :
    CellsSound hash (command.onCells hash cells) (command.onStore store) := by
  intro key value answer
  cases command with
  | insert written content =>
    by_cases same : hash key = hash written
    · rw [Command.onCells, same, update_self, Option.some_inj, Prod.mk.injEq] at answer
      obtain ⟨rfl, rfl⟩ := answer
      exact update_self ..
    · rw [Command.onCells, update_of_ne same] at answer
      rw [Command.onStore, update_of_ne (by rintro rfl; exact same rfl)]
      exact sound key value answer
  | erase erased =>
    by_cases same : hash key = hash erased
    · rw [Command.onCells, same, update_self] at answer
      cases answer
    · rw [Command.onCells, update_of_ne same] at answer
      rw [Command.onStore, update_of_ne (by rintro rfl; exact same rfl)]
      exact sound key value answer

end CellsSound

variable {command : Command κ α}

namespace Command

def key : Command κ α → κ
  | insert key _ => key
  | erase key => key

theorem onStore_of_ne (store : κ → Option α) {k : κ} (other : k ≠ command.key) :
    command.onStore store k = store k := by
  cases command with
  | insert key value => exact update_of_ne other ..
  | erase key => exact update_of_ne other ..

omit [DecidableEq κ] in
theorem onCells_of_ne (cells : ι → Option (κ × α)) {i : ι} (other : i ≠ hash command.key) :
    command.onCells hash cells i = cells i := by
  cases command with
  | insert key value => exact update_of_ne other ..
  | erase key => exact update_of_ne other ..

end Command

def CellsComplete (hash : κ → ι) (cells : ι → Option (κ × α)) (store : κ → Option α) : Prop :=
  ∀ key value, store key = some value → cells (hash key) = some (key, value)

namespace CellsComplete

theorem update (complete : CellsComplete hash cells store)
    (own : ∀ key value, cells (hash command.key) = some (key, value) → key = command.key) :
    CellsComplete hash (command.onCells hash cells) (command.onStore store) := by
  intro key value found
  by_cases same : key = command.key
  · subst same
    cases command with
    | insert written content =>
      obtain rfl : content = value := by
        simpa [Command.onStore, Command.key] using found
      exact update_self ..
    | erase erased => simp [Command.onStore, Command.key] at found
  · rw [Command.onStore_of_ne store same] at found
    have cell := complete key value found
    -- the update is in another cell, or it would have found this key
    have apart : hash key ≠ hash command.key := by
      intro shared
      rw [shared] at cell
      exact same (own key value cell)
    rw [Command.onCells_of_ne cells apart]
    exact cell

end CellsComplete

section

variable (hash : κ → ι)

/-- A tick of `key` takes the cell away from the other keys with the same hash value. -/
def tick (shown : κ → ℕ) (key : κ) (k : κ) : ℕ :=
  if k = key then shown k + 1 else if hash k = hash key then 0 else shown k

def shownAfter (history : List κ) : κ → ℕ := history.foldl (tick hash) fun _ => 0

def holder (history : List κ) (key : κ) : Option κ :=
  (history.filter fun k => hash k = hash key).getLast?

def ShownRight (modulus : ℕ) (before ticks : List κ) : Prop :=
  ∀ middle key after, ticks = middle ++ key :: after →
    shownAfter hash (before ++ middle) key % modulus = (before ++ middle).count key % modulus

/-- A key still has its cell at its next tick, unless its count is a multiple of `modulus`. -/
def Undisturbed (modulus : ℕ) (ticks : List κ) : Prop :=
  ∀ before key after, ticks = before ++ key :: after →
    before.count key % modulus ≠ 0 → holder hash before key = some key

variable {hash}

theorem shownAfter_snoc (history : List κ) (key : κ) :
    shownAfter hash (history ++ [key]) = tick hash (shownAfter hash history) key := by
  rw [shownAfter, foldl_append]
  rfl

omit [DecidableEq κ] in
theorem holder_snoc (history : List κ) (j key : κ) : holder hash (history ++ [j]) key =
      if hash j = hash key then some j else holder hash history key := by
  rw [holder, filter_append, holder]
  by_cases same : hash j = hash key <;> simp [same]

theorem shownAfter_of_lost {history : List κ} {key : κ}
    (lost : holder hash history key ≠ some key) : shownAfter hash history key = 0 := by
  induction history using reverseRecOn with
  | nil => rfl
  | append_singleton history j ih =>
    rw [holder_snoc] at lost
    rw [shownAfter_snoc, tick]
    by_cases same : hash j = hash key
    · rw [if_pos same] at lost
      rw [if_neg fun own => lost (congrArg some own.symm), if_pos same.symm]
    · rw [if_neg same] at lost
      rw [if_neg fun own => same (congrArg hash own.symm), if_neg fun eq => same eq.symm, ih lost]

variable {ticks before : List κ} {modulus : ℕ}

theorem shownAfter_of_held (undisturbed : Undisturbed hash modulus ticks) {after : List κ}
    (split : ticks = before ++ after) {key : κ} (held : holder hash before key = some key) :
    shownAfter hash before key % modulus = before.count key % modulus := by
  induction before using reverseRecOn generalizing after with
  | nil => rfl
  | append_singleton before j ih =>
    rw [append_assoc] at split
    rw [holder_snoc] at held
    rw [shownAfter_snoc, tick, count_append, count_singleton]
    by_cases same : hash j = hash key
    · obtain rfl : j = key := by simpa [same] using held
      -- the tick before this one may have been the first since the count was a multiple
      have shown : shownAfter hash before j % modulus = before.count j % modulus := by
        by_cases kept : holder hash before j = some j
        · exact ih split kept
        · have multiple : before.count j % modulus = 0 := by
            by_contra more
            exact kept (undisturbed before j after split more)
          rw [shownAfter_of_lost kept, multiple, zero_mod]
      rw [if_pos rfl, beq_self_eq_true, if_pos rfl, add_mod, shown, ← add_mod]
    · rw [if_neg same] at held
      have other : j ≠ key := fun own => same (congrArg hash own)
      rw [if_neg other.symm, if_neg fun eq => same eq.symm, if_neg (by simpa using other),
        Nat.add_zero]
      exact ih split held

theorem shownRight_iff_undisturbed (modulus : ℕ) (ticks : List κ) :
    ShownRight hash modulus [] ticks ↔ Undisturbed hash modulus ticks := by
  constructor
  · intro right before key after split counted
    by_contra lost
    have shown := right before key after split
    rw [nil_append, shownAfter_of_lost lost, zero_mod] at shown
    exact counted shown.symm
  · intro undisturbed before key after split
    rw [nil_append]
    by_cases held : holder hash before key = some key
    · exact shownAfter_of_held undisturbed split held
    · have multiple : before.count key % modulus = 0 := by
        by_contra more
        exact held (undisturbed before key after split more)
      rw [shownAfter_of_lost held, multiple, zero_mod]

theorem undisturbed_of_injOn (own : ∀ k ∈ ticks, ∀ key ∈ ticks, hash k = hash key → k = key)
    (modulus : ℕ) :
    Undisturbed hash modulus ticks := by
  intro before key after split counted
  have member : key ∈ before := by
    rw [← count_pos_iff]
    exact Nat.pos_of_ne_zero fun none => counted (by rw [none, zero_mod])
  have alone : ∀ k ∈ before.filter fun k => hash k = hash key, k = key := by
    intro k found
    obtain ⟨earlier, same⟩ := mem_filter.mp found
    exact own k (by simp [split, earlier]) key (by simp [split]) (by simpa using same)
  have nonempty : (before.filter fun k => hash k = hash key) ≠ [] :=
    ne_nil_of_mem (mem_filter.mpr ⟨member, by simp⟩)
  rw [holder, getLast?_eq_some_getLast nonempty, alone _ (getLast_mem nonempty)]

variable (hash) in
def issued : List κ → List κ → List (κ × ℕ)
  | _, [] => []
  | before, key :: ticks => (key, shownAfter hash before key) :: issued (before ++ [key]) ticks

variable (hash) in
def Consecutive (modulus : ℕ) (before ticks : List κ) (key : κ) : Prop :=
  ((issued hash before ticks).filter fun e => e.1 = key).map (·.2 % modulus) =
    (range' (before.count key) (ticks.count key)).map (· % modulus)

theorem consecutive_cons {k key : κ} : Consecutive hash modulus before (k :: ticks) key ↔
      (k = key → shownAfter hash before key % modulus = before.count key % modulus) ∧
        Consecutive hash modulus (before ++ [k]) ticks key := by
  rw [Consecutive, Consecutive, issued, count_cons, count_append, count_singleton]
  by_cases own : k = key
  · subst own
    simp [range'_succ]
  · simp [own]

theorem shownRight_cons {k : κ} : ShownRight hash modulus before (k :: ticks) ↔
      shownAfter hash before k % modulus = before.count k % modulus ∧
        ShownRight hash modulus (before ++ [k]) ticks := by
  constructor
  · intro right
    refine ⟨by simpa using right [] k ticks rfl, fun middle key after shape => ?_⟩
    rw [append_assoc]
    exact right (k :: middle) key after (congrArg (k :: ·) shape)
  · rintro ⟨here, later⟩ middle key after shape
    cases middle with
    | nil =>
      obtain ⟨rfl, rfl⟩ := cons.inj shape
      rwa [append_nil]
    | cons m middle =>
      obtain ⟨rfl, rest⟩ := cons.inj shape
      rw [append_cons]
      exact later middle key after rest

theorem consecutive_iff_shownRight (modulus : ℕ) (before ticks : List κ) :
    (∀ key, Consecutive hash modulus before ticks key) ↔ ShownRight hash modulus before ticks := by
  induction ticks generalizing before with
  | nil => simp [Consecutive, issued, ShownRight]
  | cons k ticks ih =>
    rw [shownRight_cons, ← ih]
    simp only [consecutive_cons, forall_and, forall_eq']

end

variable {σ ω β : Type*} {cellOf : α → ι} {cell : Mealy σ α ω}

def cellwise (cellOf : α → ι) (cell : Mealy σ α ω) : Mealy (ι → σ) α ω := fun cells input =>
  let reply := cell (cells (cellOf input)) input
  (update cells (cellOf input) reply.1, reply.2)

theorem flatMap_cellwise {part : ω → List β} {i : ι}
    (foreign : ∀ state input, cellOf input ≠ i → part (cell state input).2 = [])
    (cells : ι → σ) (inputs : List α) :
    ((cellwise cellOf cell).trace cells inputs).flatMap part =
      (cell.trace (cells i) (inputs.filter fun input => cellOf input = i)).flatMap part := by
  induction inputs generalizing cells with
  | nil => rfl
  | cons input inputs ih =>
    rw [Mealy.trace_cons, flatMap_cons, ih]
    by_cases here : cellOf input = i
    · subst here
      have own : (cellwise cellOf cell cells input).1 (cellOf input) =
          (cell (cells (cellOf input)) input).1 := update_self ..
      rw [filter_cons_of_pos (by simp), Mealy.trace_cons, flatMap_cons, own]
      rfl
    · have kept : (cellwise cellOf cell cells input).1 i = cells i :=
        update_of_ne (Ne.symm here) ..
      have quiet : part (cellwise cellOf cell cells input).2 = [] := foreign _ input here
      rw [filter_cons_of_neg (by simpa using here), quiet, kept, nil_append]

end OpenURMA.Library
