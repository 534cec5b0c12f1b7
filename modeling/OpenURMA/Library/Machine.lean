import OpenURMA.Library.Buffer
import OpenURMA.Library.Element

/-!
# Machine-level operations

What unbounded counters and total buffers leave out: unsigned arithmetic wraps around, and an access
outside an array is a fault. `Implements` says that a `Faulting` handler does what a plain one does
wherever an invariant holds, so that none of its runs faults.
-/

namespace OpenURMA.Library

def wrapAdd (a b : Nat) : Nat := (a + b) % 2 ^ 32

def wrapSub (a b : Nat) : Nat := (a + (2 ^ 32 - b)) % 2 ^ 32

theorem wrapAdd_of_lt {a b : Nat} (fits : a + b < 2 ^ 32) : wrapAdd a b = a + b :=
  Nat.mod_eq_of_lt fits

theorem wrapSub_of_le {a b : Nat} (ordered : b ≤ a) (fits : a < 2 ^ 32) : wrapSub a b = a - b := by
  unfold wrapSub
  omega

namespace Buffer

/-- What can be read through a pointer to `count` octets; the rest of the array is hidden. -/
def window (buffer : Buffer) (offset count : Nat) : Buffer :=
  fun index => if offset ≤ index ∧ index < offset + count then buffer index else 0

/-- Read access to `count` octets of an array of `capacity`. -/
def view (capacity : Nat) (buffer : Buffer) (offset count : Nat) : Option Buffer :=
  if offset + count ≤ capacity then some (buffer.window offset count) else none

def store (capacity : Nat) (buffer : Buffer) (offset : Nat) (octets : List Byte) : Option Buffer :=
  if offset + octets.length ≤ capacity then some (buffer.blit offset octets) else none

theorem window_apply {buffer : Buffer} {offset count index : Nat} (low : offset ≤ index)
    (high : index < offset + count) : buffer.window offset count index = buffer index :=
  if_pos ⟨low, high⟩

@[simp] theorem slice_window (buffer : Buffer) (offset count : Nat) :
    (buffer.window offset count).slice offset count = buffer.slice offset count := by
  refine List.map_congr_left fun index member => ?_
  exact window_apply (by omega) (by simpa using member)

variable {capacity offset : Nat} {buffer : Buffer}

theorem view_of_le {count : Nat} (inside : offset + count ≤ capacity) :
    view capacity buffer offset count = some (buffer.window offset count) :=
  if_pos inside

theorem store_of_le {octets : List Byte} (inside : offset + octets.length ≤ capacity) :
    store capacity buffer offset octets = some (buffer.blit offset octets) :=
  if_pos inside

end Buffer

variable {σ ι ω : Type*}

abbrev Faulting (σ ι ω : Type*) := σ → Option ι → Option (Reply σ ω)

namespace Faulting

/-- Call the handler once per entry of the schedule, as `Handler.run` does; `none` once a call
faults. -/
def run (step : Faulting σ ι ω) : List Bool → σ → List ι → Option (Outcome σ ι ω)
  | [], state, queue => some ⟨state, queue, []⟩
  | offer :: schedule, state, queue =>
    (step state (if offer then queue.head? else none)).bind fun reply =>
      (run step schedule reply.state (if reply.read then queue.tail else queue)).map fun rest =>
        ⟨rest.state, rest.queue, reply.out.toList ++ rest.outputs⟩

def Accepts (step : Faulting σ ι ω) (state : σ) : Prop :=
  ∀ input, ∃ reply, step state (some input) = some reply ∧ reply.read = true

/-- Where the invariant holds, calls do not fault, do what the plain handler does and keep the
invariant. -/
structure Implements (step : Faulting σ ι ω) (handler : Handler σ ι ω) (invariant : σ → Prop) :
    Prop where
  agrees : ∀ {state}, invariant state → ∀ offered, step state offered = some (handler state offered)
  preserved : ∀ {state}, invariant state → ∀ offered, invariant (handler state offered).state

variable {step : Faulting σ ι ω} {handler : Handler σ ι ω} {invariant : σ → Prop}

theorem Implements.run (implements : Implements step handler invariant) (schedule : List Bool)
    {state : σ} (holds : invariant state) (queue : List ι) :
    step.run schedule state queue = some (handler.run schedule state queue) ∧
      invariant (handler.run schedule state queue).state := by
  induction schedule generalizing state queue with
  | nil => exact ⟨rfl, holds⟩
  | cons offer schedule ih =>
    let offered := if offer then queue.head? else none
    rcases ih (implements.preserved holds offered)
      (if (handler state offered).read then queue.tail else queue) with ⟨later, kept⟩
    refine ⟨?_, kept⟩
    rw [Faulting.run, implements.agrees holds, Option.bind_some, later]
    rfl

end Faulting

end OpenURMA.Library
