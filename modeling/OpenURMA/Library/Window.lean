import Mathlib.Algebra.GroupWithZero.Nat
import Mathlib.Data.Finset.Basic
import Mathlib.Order.Interval.Finset.Nat

/-!
# Sliding receive windows

A receiver with selective acceptance, in terms of unbounded sequence numbers: it keeps the numbers
accepted so far and the lowest one missing, accepts that one and anything less than `width` above
it, and slides on over numbers accepted ahead of their turn.
-/

namespace OpenURMA.Library

open Nat Finset

theorem exists_missing (got : Finset ℕ) (low : ℕ) : ∃ gap, low + gap ∉ got := by
  refine ⟨got.sup id + 1, fun member => ?_⟩
  have bound : low + (got.sup id + 1) ≤ got.sup id := le_sup (f := id) member
  omega

def firstMissing (got : Finset ℕ) (low : ℕ) : ℕ := low + Nat.find (exists_missing got low)

section

variable {got : Finset ℕ} {low n : ℕ}

theorem le_firstMissing : low ≤ firstMissing got low := Nat.le_add_right ..

theorem firstMissing_notMem : firstMissing got low ∉ got :=
  Nat.find_spec (exists_missing got low)

theorem mem_of_lt_firstMissing (above : low ≤ n) (below : n < firstMissing got low) : n ∈ got := by
  have early : n - low < Nat.find (exists_missing got low) := by
    unfold firstMissing at below
    omega
  have present := not_not.mp (Nat.find_min (exists_missing got low) early)
  rwa [Nat.add_sub_cancel' above] at present

theorem firstMissing_eq (above : low ≤ n) (missing : n ∉ got)
    (filled : ∀ k, low ≤ k → k < n → k ∈ got) : firstMissing got low = n := by
  apply le_antisymm
  · by_contra beyond
    exact missing (mem_of_lt_firstMissing above (by omega))
  · by_contra early
    exact firstMissing_notMem (filled _ le_firstMissing (by omega))

theorem firstMissing_of_notMem (missing : low ∉ got) : firstMissing got low = low :=
  firstMissing_eq le_rfl missing fun k above below => by omega

theorem firstMissing_of_mem (present : low ∈ got) :
    firstMissing got low = firstMissing got (low + 1) := by
  refine firstMissing_eq (by have := @le_firstMissing got (low + 1); omega)
    firstMissing_notMem fun k above below => ?_
  by_cases here : k = low
  · exact here ▸ present
  · exact mem_of_lt_firstMissing (show low + 1 ≤ k by omega) below

end

/-- How an arrival relates to the window. -/
inductive Verdict where
  | inOrder
  | ahead
  | behind
  | beyond
  deriving DecidableEq

def Verdict.accepts : Verdict → Bool
  | inOrder | ahead => true
  | behind | beyond => false

/-- A receiver that has accepted the numbers `got`, all from `start` on, and expects
`next`. -/
structure Receiver (width : ℕ) where
  start : ℕ
  next : ℕ
  got : Finset ℕ
  started : start ≤ next
  complete : ∀ n, start ≤ n → n < next → n ∈ got
  fresh : next ∉ got
  bounded : ∀ n ∈ got, start ≤ n ∧ n < next + width

namespace Receiver

variable {width : ℕ}

def opened (width first : ℕ) : Receiver width where
  start := first
  next := first
  got := ∅
  started := le_rfl
  complete n above below := by omega
  fresh := notMem_empty _
  bounded n member := (notMem_empty n member).elim

def verdict (r : Receiver width) (s : ℕ) : Verdict :=
  if s = r.next then .inOrder
  else if s < r.next then .behind
  else if s < r.next + width then .ahead
  else .beyond

theorem verdict_next (r : Receiver width) : r.verdict r.next = .inOrder := by
  rw [verdict, if_pos rfl]

variable {r : Receiver width} {s : ℕ}

theorem verdict_behind (before : s < r.next) : r.verdict s = .behind := by
  rw [verdict, if_neg (by omega), if_pos before]

theorem verdict_ahead (above : r.next < s) (inside : s < r.next + width) :
    r.verdict s = .ahead := by
  rw [verdict, if_neg (by omega), if_neg (by omega), if_pos inside]

theorem next_le {limit : ℕ} (start : r.start ≤ limit) (below : ∀ n ∈ r.got, n < limit) :
    r.next ≤ limit := by
  by_contra beyond
  have last : r.next - 1 ∈ r.got := r.complete _ (by omega) (by omega)
  have := below _ last
  omega

theorem verdict_zero (got : 0 ∈ r.got) : r.verdict 0 = .behind := by
  apply verdict_behind
  apply Nat.pos_of_ne_zero
  intro next
  exact r.fresh (next ▸ got)

variable [NeZero width]

theorem verdict_beyond (outside : r.next + width ≤ s) : r.verdict s = .beyond := by
  have wide := Nat.pos_of_ne_zero (NeZero.ne width)
  rw [verdict, if_neg (by omega), if_neg (by omega), if_neg (by omega)]

theorem verdict_eq_beyond : r.verdict s = .beyond ↔ r.next + width ≤ s := by
  refine ⟨fun beyond => ?_, verdict_beyond⟩
  by_contra inside
  unfold verdict at beyond
  split at beyond
  · cases beyond
  · split at beyond
    · cases beyond
    · rw [if_pos (not_le.mp inside)] at beyond
      cases beyond

section

variable (r : Receiver width)

def advance : Receiver width where
  start := r.start
  next := firstMissing (insert r.next r.got) (r.next + 1)
  got := insert r.next r.got
  started := by
    have := r.started
    have := @le_firstMissing (insert r.next r.got) (r.next + 1)
    omega
  complete n above below := by
    rcases lt_trichotomy n r.next with before | here | after
    · exact mem_insert_of_mem (r.complete n above before)
    · exact here ▸ mem_insert_self ..
    · exact mem_of_lt_firstMissing (show r.next + 1 ≤ n by omega) below
  fresh := firstMissing_notMem
  bounded n member := by
    have forward := @le_firstMissing (insert r.next r.got) (r.next + 1)
    have wide := Nat.pos_of_ne_zero (NeZero.ne width)
    rcases mem_insert.mp member with rfl | member
    · exact ⟨r.started, by omega⟩
    · have := r.bounded n member
      omega

def mark (s : ℕ) (above : r.next < s) (inside : s < r.next + width) : Receiver width where
  start := r.start
  next := r.next
  got := insert s r.got
  started := r.started
  complete n above below := mem_insert_of_mem (r.complete n above below)
  fresh member := by
    rcases mem_insert.mp member with same | member
    · omega
    · exact r.fresh member
  bounded n member := by
    have := r.started
    rcases mem_insert.mp member with rfl | member
    · omega
    · exact r.bounded n member

def arrive (s : ℕ) : Receiver width :=
  if s = r.next then r.advance
  else if room : r.next < s ∧ s < r.next + width then r.mark s room.1 room.2
  else r

theorem arrive_inOrder : r.arrive r.next = r.advance := by
  rw [arrive, if_pos rfl]

end

theorem arrive_ahead (above : r.next < s) (inside : s < r.next + width) :
    r.arrive s = r.mark s above inside := by
  rw [arrive, if_neg (by omega), dif_pos ⟨above, inside⟩]

theorem arrive_refused (refused : s < r.next ∨ r.next + width ≤ s) : r.arrive s = r := by
  have wide := Nat.pos_of_ne_zero (NeZero.ne width)
  rw [arrive, if_neg (by omega), dif_neg (by omega)]

@[simp] theorem start_arrive (r : Receiver width) (s : ℕ) : (r.arrive s).start = r.start := by
  unfold arrive
  split <;> [rfl; split <;> rfl]

theorem next_le_arrive (r : Receiver width) (s : ℕ) : r.next ≤ (r.arrive s).next := by
  unfold arrive
  split
  · exact le_of_succ_le le_firstMissing
  · split <;> exact le_rfl

theorem mem_got_arrive (r : Receiver width) (s n : ℕ) :
    n ∈ (r.arrive s).got ↔ n ∈ r.got ∨ (n = s ∧ (r.verdict s).accepts = true) := by
  rcases lt_trichotomy s r.next with before | rfl | after
  · simp [arrive_refused (.inl before), verdict_behind before, Verdict.accepts]
  · simp [arrive_inOrder, verdict_next, advance, Verdict.accepts, or_comm]
  · by_cases inside : s < r.next + width
    · simp [arrive_ahead after inside, verdict_ahead after inside, mark, Verdict.accepts, or_comm]
    · simp [arrive_refused (.inr (not_lt.mp inside)), verdict_beyond (not_lt.mp inside),
        Verdict.accepts]

theorem advance_of_below (below : ∀ k ∈ r.got, k < r.next) :
    r.advance.next = r.next + 1 ∧ ∀ k ∈ r.advance.got, k < r.next + 1 := by
  have missing : r.next + 1 ∉ insert r.next r.got := by
    intro member
    rcases mem_insert.mp member with same | member
    · omega
    · have := below _ member
      omega
  refine ⟨firstMissing_of_notMem missing, fun k member => ?_⟩
  rcases mem_insert.mp member with rfl | member
  · omega
  · exact (below k member).trans (lt_succ_self _)

end Receiver

end OpenURMA.Library
