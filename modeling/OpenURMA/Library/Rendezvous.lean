import Mathlib.Data.List.Basic

/-!
# Two streams that meet

The items of two streams are paired in order. At any time one of the streams is ahead, and what it
is ahead by is waiting. The streams of several keys share one queue, and the part of a key is a
filter of it.
-/

namespace OpenURMA.Library

open List

variable {α β κ : Type*}

section

variable {left : List α} {right : List β} {a : α} {b : β}

theorem zip_snoc_left {rest : List β} (waiting : right.drop left.length = b :: rest) :
    (left ++ [a]).zip right = left.zip right ++ [(a, b)] := by
  induction left generalizing right with
  | nil =>
    obtain rfl : right = b :: rest := waiting
    simp
  | cons x left ih =>
    cases right with
    | nil => simp at waiting
    | cons y right => simpa using ih (by simpa using waiting)

theorem zip_snoc_left_of_le (ahead : right.length ≤ left.length) :
    (left ++ [a]).zip right = left.zip right := by
  induction left generalizing right with
  | nil => simp [length_eq_zero_iff.mp (Nat.le_zero.mp ahead)]
  | cons x left ih =>
    cases right with
    | nil => simp
    | cons y right => simpa using ih (by simpa using ahead)

theorem zip_snoc_right {rest : List α} (waiting : left.drop right.length = a :: rest) :
    left.zip (right ++ [b]) = left.zip right ++ [(a, b)] := by
  induction right generalizing left with
  | nil =>
    obtain rfl : left = a :: rest := waiting
    simp
  | cons y right ih =>
    cases left with
    | nil => simp at waiting
    | cons x left => simpa using ih (by simpa using waiting)

theorem zip_snoc_right_of_le (ahead : left.length ≤ right.length) :
    left.zip (right ++ [b]) = left.zip right := by
  induction right generalizing left with
  | nil => simp [length_eq_zero_iff.mp (Nat.le_zero.mp ahead)]
  | cons y right ih =>
    cases left with
    | nil => simp
    | cons x left => simpa using ih (by simpa using ahead)

theorem drop_snoc_of_waiting {queue : List β} {served : List α} {rest : List β}
    (waiting : queue.drop served.length = b :: rest) :
    queue.drop (served ++ [a]).length = rest := by
  rw [length_append, ← drop_drop, waiting]
  rfl

theorem drop_snoc_of_le {queue : List β} {served : List α} (behind : served.length ≤ queue.length) :
    (queue ++ [b]).drop served.length = queue.drop served.length ++ [b] :=
  drop_append_of_le_length behind

end

variable [DecidableEq κ] {key : α → κ} {queue : List α} {k : κ}

theorem filter_of_find?_some {a : α} (found : (queue.find? fun a => key a == k) = some a) :
    (queue.filter fun a => key a == k) = a :: (queue.filter fun a => key a == k).tail := by
  rw [← head?_filter] at found
  obtain ⟨rest, split⟩ := head?_eq_some_iff.mp found
  rw [split]
  rfl

theorem filter_of_find?_none (missing : (queue.find? fun a => key a == k) = none) :
    (queue.filter fun a => key a == k) = [] := by
  rwa [← head?_filter, head?_eq_none_iff] at missing

theorem filter_eraseP_self : (queue.eraseP fun a => key a == k).filter (fun a => key a == k) =
      (queue.filter fun a => key a == k).tail := by
  induction queue with
  | nil => rfl
  | cons a queue ih =>
    by_cases here : key a = k
    · simp [here]
    · simp [here, ih]

theorem filter_eraseP_of_ne {other : κ} (different : k ≠ other) :
    (queue.eraseP fun a => key a == other).filter (fun a => key a == k) =
      queue.filter fun a => key a == k := by
  induction queue with
  | nil => rfl
  | cons a queue ih =>
    by_cases there : key a = other
    · simp [there, Ne.symm different]
    · simp [there, filter_cons, ih]

end OpenURMA.Library
