import Mathlib.Data.List.Basic

/-!
# Operations that may fail half-way

An attempt changes a state and keeps a log; what it has done stays done if it fails. `Ensures` says
what holds if it succeeds, `Achieves` that it succeeds as well, and `Obeys` what holds of the log
and the state in any case.
-/

namespace OpenURMA.Library

open List Option

universe u

structure Attempted (σ ε α : Type u) where
  value : Option α
  state : σ
  log : List ε

def Attempt (σ ε α : Type u) : Type u := σ → Attempted σ ε α

namespace Attempt

variable {σ ε α β : Type u}

protected def pure (a : α) : Attempt σ ε α := fun s => ⟨some a, s, []⟩

protected def bind (x : Attempt σ ε α) (f : α → Attempt σ ε β) : Attempt σ ε β := fun s =>
  match (x s).value with
  | none => ⟨none, (x s).state, (x s).log⟩
  | some a => ⟨(f a (x s).state).value, (f a (x s).state).state, (x s).log ++ (f a (x s).state).log⟩

instance : Monad (Attempt σ ε) where
  pure := Attempt.pure
  bind := Attempt.bind

def fail : Attempt σ ε α := fun s => ⟨none, s, []⟩

def get : Attempt σ ε σ := fun s => ⟨some s, s, []⟩

/-- The second attempt is made if the first one fails. -/
def orElse (x y : Attempt σ ε α) : Attempt σ ε α := fun s =>
  match (x s).value with
  | some _ => x s
  | none => ⟨(y (x s).state).value, (y (x s).state).state, (x s).log ++ (y (x s).state).log⟩

variable {f : α → Attempt σ ε β}

section

variable {x y : Attempt σ ε α} {s : σ} {a : α}

@[simp] theorem pure_apply (a : α) (s : σ) : (pure a : Attempt σ ε α) s = ⟨some a, s, []⟩ := rfl

@[simp] theorem fail_apply (s : σ) : (fail : Attempt σ ε α) s = ⟨none, s, []⟩ := rfl

@[simp] theorem get_apply (s : σ) : (get : Attempt σ ε σ) s = ⟨some s, s, []⟩ := rfl

theorem bind_of_none (failed : (x s).value = none) :
    (x >>= f) s = ⟨none, (x s).state, (x s).log⟩ := by
  change Attempt.bind x f s = _
  rw [Attempt.bind, failed]

theorem bind_of_some (worked : (x s).value = some a) :
    (x >>= f) s = ⟨(f a (x s).state).value, (f a (x s).state).state,
      (x s).log ++ (f a (x s).state).log⟩ := by
  change Attempt.bind x f s = _
  rw [Attempt.bind, worked]

theorem bind_pure_apply (x : Attempt σ ε α) (f : α → β) (s : σ) :
    (x >>= fun a => (pure (f a) : Attempt σ ε β)) s =
      ⟨(x s).value.map f, (x s).state, (x s).log⟩ := by
  cases worked : (x s).value with
  | none => rw [bind_of_none worked, map_none]
  | some a => rw [bind_of_some worked, pure_apply, map_some, append_nil]

theorem bind_bind_pure_of_some {γ : Type u} {b : β} {s' : σ} (c : γ) (first : (x s).value = some a)
    (between : (x s).state = s') (second : (f a s').value = some b) :
    ((x >>= fun a => f a >>= fun _ => (pure c : Attempt σ ε γ)) s).value = some c ∧
      ((x >>= fun a => f a >>= fun _ => (pure c : Attempt σ ε γ)) s).state = (f a s').state := by
  rw [bind_of_some first, bind_pure_apply, between, second]
  exact ⟨rfl, rfl⟩

theorem orElse_of_none (failed : (x s).value = none) :
    orElse x y s = ⟨(y (x s).state).value, (y (x s).state).state,
      (x s).log ++ (y (x s).state).log⟩ := by
  rw [orElse, failed]

theorem orElse_of_some (worked : (x s).value = some a) : orElse x y s = x s := by
  rw [orElse, worked]

@[simp] theorem get_bind (f : σ → Attempt σ ε β) (s : σ) : (get >>= f) s = f s s := rfl

end

/-- Started in a state with `pre`, the attempt ends with `post` if it succeeds. -/
def Ensures (pre : σ → Prop) (x : Attempt σ ε α) (post : α → σ → Prop) : Prop :=
  ∀ s a, pre s → (x s).value = some a → post a (x s).state

/-- Started in a state with `pre`, the attempt succeeds and ends with `post`. -/
def Achieves (pre : σ → Prop) (x : Attempt σ ε α) (post : α → σ → Prop) : Prop :=
  ∀ s, pre s → ∃ a, (x s).value = some a ∧ post a (x s).state

section

variable {pre : σ → Prop} {x : Attempt σ ε α}
variable {middle : α → σ → Prop} {post : β → σ → Prop}

theorem exists_of_bind {s : σ} {b : β} (worked : ((x >>= f) s).value = some b) :
    ∃ a, (x s).value = some a ∧ (f a (x s).state).value = some b ∧
      ((x >>= f) s).state = (f a (x s).state).state := by
  cases first : (x s).value with
  | none =>
    rw [bind_of_none first] at worked
    cases worked
  | some a =>
    rw [bind_of_some first] at worked ⊢
    exact ⟨a, rfl, worked, rfl⟩

theorem ne_none_of_bind_pure {b : β} {s : σ} {b' : β}
    (worked : ((x >>= fun _ => (pure b : Attempt σ ε β)) s).value = some b') :
    (x s).value ≠ none ∧ ((x >>= fun _ => (pure b : Attempt σ ε β)) s).state = (x s).state := by
  rw [bind_pure_apply] at worked ⊢
  obtain ⟨a, value, _⟩ := map_eq_some_iff.mp worked
  exact ⟨ne_none_iff_exists'.mpr ⟨a, value⟩, rfl⟩

theorem Ensures.bind (first : Ensures pre x middle)
    (second : ∀ a, Ensures (middle a) (f a) post) : Ensures pre (x >>= f) post := by
  intro s b holds worked
  obtain ⟨a, worked, worked', state⟩ := exists_of_bind worked
  rw [state]
  exact second a _ b (first s a holds worked) worked'

theorem Achieves.bind (first : Achieves pre x middle)
    (second : ∀ a, Achieves (middle a) (f a) post) : Achieves pre (x >>= f) post := by
  intro s holds
  obtain ⟨a, worked, between⟩ := first s holds
  obtain ⟨b, worked', after⟩ := second a _ between
  rw [bind_of_some worked]
  exact ⟨b, worked', after⟩

end

/-- Do a job of `left` units in chunks of at most `size`, from `offset` on. -/
def inChunks (size : ℕ) (body : ℕ → ℕ → Attempt σ ε PUnit) : ℕ → ℕ → ℕ → Attempt σ ε PUnit
  | 0, _, _ => pure ⟨⟩
  | fuel + 1, offset, left =>
    if left = 0 then pure ⟨⟩
    else do
      body offset (min left size)
      inChunks size body fuel (offset + min left size) (left - min left size)

section

variable {size total : ℕ} {body : ℕ → ℕ → Attempt σ ε PUnit}

theorem dvd_or_done {offset left : ℕ} (aligned : size ∣ offset ∨ left = 0) (more : left ≠ 0) :
    size ∣ offset + min left size ∨ left - min left size = 0 := by
  have start : size ∣ offset := aligned.resolve_right more
  rcases Nat.le_total left size with short | long
  · exact .inr (by omega)
  · rw [Nat.min_eq_right long]
    exact .inl (Nat.dvd_add start (Nat.dvd_refl size))

variable {fuel offset left : ℕ}

/-- What holds of nothing left to do holds of the whole job, if a chunk in front keeps it. -/
theorem inChunks_induction (motive : ℕ → Attempt σ ε PUnit → Prop) (positive : 0 < size)
    (done : motive total (pure ⟨⟩))
    (chunk : ∀ offset count rest, size ∣ offset → offset < total →
      count = min (total - offset) size → motive (offset + count) rest →
        motive offset (body offset count >>= fun _ => rest))
    (aligned : size ∣ offset ∨ left = 0) (enough : left ≤ fuel) (sum : offset + left = total) :
    motive offset (inChunks size body fuel offset left) := by
  induction fuel generalizing offset left with
  | zero =>
    obtain rfl : offset = total := by omega
    exact done
  | succ fuel ih =>
    rw [inChunks]
    split
    · next none =>
      obtain rfl : offset = total := by omega
      exact done
    · next more =>
      apply chunk _ _ _ (aligned.resolve_right more) (by omega) (by omega)
      exact ih (dvd_or_done aligned more) (by omega) (by omega)

variable (holds : ℕ → σ → Prop) (positive : 0 < size)
include positive

/-- What every chunk shows in passing is known of all of them in the end. -/
theorem inChunks_ensures (shows : ℕ → Prop)
    (chunk : ∀ offset count, size ∣ offset → offset < total → count = min (total - offset) size →
      Ensures (holds offset) (body offset count) fun _ s =>
        holds (offset + count) s ∧ shows offset) :
    Ensures (holds 0) (inChunks size body total 0 total) fun _ s =>
      holds total s ∧ ∀ offset < total, size ∣ offset → shows offset := by
  intro s a start worked
  suffices every : Ensures (holds 0) (inChunks size body total 0 total) fun _ s =>
      holds total s ∧ ∀ offset < total, 0 ≤ offset → size ∣ offset → shows offset by
    obtain ⟨last, known⟩ := every s a start worked
    exact ⟨last, fun offset inside => known offset inside (Nat.zero_le offset)⟩
  -- the induction is on what is left, so that the chunks from an offset on are known
  apply inChunks_induction (fun offset x => Ensures (holds offset) x fun _ s =>
    holds total s ∧ ∀ later < total, offset ≤ later → size ∣ later → shows later) positive
    ?_ ?_ (.inl (Nat.dvd_zero size)) (Nat.le_refl total) (Nat.zero_add total)
  · exact fun s a start _ => ⟨start, fun later inside beyond => by omega⟩
  · intro offset count rest aligned inside some rest_spec
    refine (chunk offset count aligned inside some).bind fun _ s a ⟨between, here⟩ worked => ?_
    obtain ⟨last, known⟩ := rest_spec s a between worked
    refine ⟨last, fun later below beyond aligned' => ?_⟩
    rcases Nat.lt_or_ge later (offset + count) with first | second
    · have zero : later - offset = 0 :=
        Nat.eq_zero_of_dvd_of_lt (Nat.dvd_sub aligned' aligned) (by omega)
      obtain rfl : later = offset := by omega
      exact here
    · exact known later below second aligned'

theorem inChunks_achieves
    (chunk : ∀ offset count, size ∣ offset → offset < total → count = min (total - offset) size →
      Achieves (holds offset) (body offset count) fun _ => holds (offset + count)) :
    Achieves (holds 0) (inChunks size body total 0 total) fun _ => holds total := by
  apply inChunks_induction (fun offset x => Achieves (holds offset) x fun _ => holds total)
    positive ?_ ?_ (.inl (Nat.dvd_zero size)) (Nat.le_refl total) (Nat.zero_add total)
  · exact fun s start => ⟨⟨⟩, rfl, start⟩
  · intro offset count rest aligned inside some later
    exact (chunk offset count aligned inside some).bind fun _ => later

end

variable {κ ω : Type u} {allowed : ε → Prop} {touches : ε → κ → Prop}

/-- Every entry of the log is allowed, and the state changes only at places that an entry touches.
-/
structure Obeys (allowed : ε → Prop) (touches : ε → κ → Prop) (x : Attempt (κ → ω) ε α)
    (s : κ → ω) : Prop where
  log : ∀ entry ∈ (x s).log, allowed entry
  frame : ∀ k, (∀ entry ∈ (x s).log, ¬ touches entry k) → (x s).state k = s k

namespace Obeys

variable {x y : Attempt (κ → ω) ε α} {f : α → Attempt (κ → ω) ε β} {s : κ → ω}

theorem pure (a : α) (s : κ → ω) : Obeys allowed touches (pure a : Attempt (κ → ω) ε α) s :=
  ⟨by simp, by simp⟩

theorem fail (s : κ → ω) : Obeys allowed touches (fail : Attempt (κ → ω) ε α) s :=
  ⟨by simp, by simp⟩

theorem get_bind {f : (κ → ω) → Attempt (κ → ω) ε α} (rest : Obeys allowed touches (f s) s) :
    Obeys allowed touches (get >>= f) s :=
  ⟨rest.log, rest.frame⟩

theorem bind (first : Obeys allowed touches x s)
    (second : ∀ a, (x s).value = some a → Obeys allowed touches (f a) (x s).state) :
    Obeys allowed touches (x >>= f) s := by
  cases worked : (x s).value with
  | none =>
    have call := bind_of_none (f := f) worked
    exact ⟨by rw [call]; exact first.log, by rw [call]; exact first.frame⟩
  | some a =>
    have call := bind_of_some (f := f) worked
    constructor
    · rw [call]
      exact forall_mem_append.mpr ⟨first.log, (second a worked).log⟩
    · intro k untouched
      rw [call] at untouched ⊢
      rw [forall_mem_append] at untouched
      exact ((second a worked).frame k untouched.2).trans (first.frame k untouched.1)

theorem orElse (first : Obeys allowed touches x s)
    (second : Obeys allowed touches y (x s).state) : Obeys allowed touches (x.orElse y) s := by
  cases worked : (x s).value with
  | none =>
    have call := orElse_of_none (y := y) worked
    constructor
    · rw [call]
      exact forall_mem_append.mpr ⟨first.log, second.log⟩
    · intro k untouched
      rw [call] at untouched ⊢
      rw [forall_mem_append] at untouched
      exact (second.frame k untouched.2).trans (first.frame k untouched.1)
  | some a =>
    have call := orElse_of_some (y := y) worked
    exact ⟨by rw [call]; exact first.log, by rw [call]; exact first.frame⟩

variable {body : ℕ → ℕ → Attempt (κ → ω) ε PUnit} {size total fuel offset left : ℕ}

theorem inChunks_of_invariant (invariant : (κ → ω) → Prop)
    (chunk : ∀ offset count, offset + count ≤ total → ∀ s, invariant s →
      Obeys allowed touches (body offset count) s ∧ invariant (body offset count s).state)
    (sum : offset + left ≤ total) {s : κ → ω} (holds : invariant s) :
    Obeys allowed touches (inChunks size body fuel offset left) s := by
  induction fuel generalizing offset left s with
  | zero => exact .pure _ s
  | succ fuel ih =>
    rw [inChunks]
    split
    · exact .pure _ s
    · obtain ⟨obeys, after⟩ := chunk offset (min left size) (by omega) s holds
      exact obeys.bind fun _ _ => ih (by omega) after

theorem inChunks (chunk : ∀ offset count, offset + count ≤ total → ∀ s,
      Obeys allowed touches (body offset count) s) (sum : offset + left ≤ total) (s : κ → ω) :
    Obeys allowed touches (inChunks size body fuel offset left) s :=
  inChunks_of_invariant (fun _ => True)
    (fun offset count within s _ => ⟨chunk offset count within s, trivial⟩) sum trivial

theorem mono {allowed' : ε → Prop} (obeys : Obeys allowed touches x s)
    (weaker : ∀ entry, allowed entry → allowed' entry) : Obeys allowed' touches x s :=
  ⟨fun entry member => weaker entry (obeys.log entry member), obeys.frame⟩

end Obeys

end Attempt

end OpenURMA.Library
