import OpenURMA.Nic.CompletionQueues

/-!
# The completion interrupt

One line serves all completion queues.  `dp_push_cqe` raises it; the read that takes the last
completion of a queue clears it, whatever the other queues hold.
-/

namespace OpenURMA.Nic

open Library Function Bool List Option

/-- The completion queues and the interrupt line. -/
structure Irq where
  cq : Cq
  raised : Bool

/-- A completion that is pushed, and a read of eight octets.  What a read takes from the ring of the
peer is pushed before it. -/
inductive IrqEvent where
  | push (jfc : U32) (c : Cqe)
  | read (off : ℕ)

namespace Irq

variable {s : Irq} {jfc : U32} {off : ℕ}

/-- A read of the first lane of the window of a JFC. -/
def polls (off : ℕ) : Option U32 :=
  if (0x4000 ≤ off ∧ off < 0x4000 + 0x200 * 0x40) ∧ (off - 0x4000) % 0x40 = 0 then
    some (BitVec.ofNat 32 ((off - 0x4000) / 0x40))
  else none

def takesLast (cq : Cq) (jfc : U32) : Bool :=
  ((cq.node.jfcCq jfc).dropWhile (lane0 · == 0)).length == 1

def step (s : Irq) : IrqEvent → Irq
  | .push jfc c => { cq := { s.cq with node := s.cq.node.pushCqe jfc c }, raised := true }
  | .read off =>
    { cq := (s.cq.read off).1
      raised := s.raised && !(polls off).any (takesLast s.cq) }

def Announced (s : Irq) : Prop := ∀ jfc, s.cq.node.jfcCq jfc ≠ [] → s.raised = true

/-- A read that takes the last completion of a queue finds the others empty. -/
def Alone (s : Irq) : IrqEvent → Prop
  | .push _ _ => True
  | .read off => ∀ jfc ∈ polls off, takesLast s.cq jfc = true →
    ∀ other, other ≠ jfc → s.cq.node.jfcCq other = []

theorem read_of_polls (polled : polls off = some jfc) : (s.cq.read off).1 = s.cq.pop jfc := by
  unfold polls at polled
  split at polled
  · next first =>
    cases polled
    rw [Cq.read, if_pos first.1]
    simp only [if_pos first.2]
  · cases polled

theorem read_of_not_polls (later : polls off = none) : (s.cq.read off).1 = s.cq := by
  unfold polls at later
  split at later
  · cases later
  · next other =>
    unfold Cq.read
    split
    · next inside => simp only [if_neg fun first => other ⟨inside, first⟩]
    · rfl

theorem pop_other {other : U32} (different : other ≠ jfc) :
    (s.cq.pop jfc).node.jfcCq other = s.cq.node.jfcCq other := by
  unfold Cq.pop
  split <;> exact update_of_ne different ..

theorem pop_same : (s.cq.pop jfc).node.jfcCq jfc =
    ((s.cq.node.jfcCq jfc).dropWhile (lane0 · == 0)).tail := by
  unfold Cq.pop
  split
  · next none =>
    rw [none]
    exact update_self ..
  · next some =>
    rw [some]
    exact update_self ..

theorem announced_step (announced : s.Announced) (event : IrqEvent) :
    (s.step event).Announced ↔ s.Alone event := by
  cases event with
  | push jfc c => exact ⟨fun _ => trivial, fun _ _ _ => rfl⟩
  | read off =>
    cases polled : polls off with
    | none =>
      simp only [Announced, step, Alone, polled, read_of_not_polls polled, any_none,
        Bool.not_false, Bool.and_true, mem_def, reduceCtorEq, false_implies, implies_true,
        iff_true]
      exact announced
    | some jfc =>
      simp only [Announced, step, Alone, polled, read_of_polls polled, any_some,
        and_eq_true, not_eq_true', mem_some_iff, forall_eq']
      constructor
      · intro after last other different
        by_contra some
        rw [← pop_other different] at some
        have quiet := (after other some).2
        rw [last] at quiet
        cases quiet
      · intro alone other some
        by_cases same : other = jfc
        · subst same
          rw [pop_same] at some
          refine ⟨announced other fun empty => some ?_, ?_⟩
          · rw [empty]
            rfl
          · rw [takesLast, beq_eq_false_iff_ne]
            intro single
            exact some (length_eq_zero_iff.mp (by rw [length_tail, single]))
        · rw [pop_other same] at some
          refine ⟨announced other some, eq_false_iff.mpr fun last => ?_⟩
          exact some (alone last other same)

/-- The interrupt is never lost in a run exactly if no read takes the last completion of a queue
while another queue holds one. -/
theorem announced_iff (announced : s.Announced) (events : List IrqEvent) :
    (∀ before, before <+: events → (before.foldl step s).Announced) ↔
      Along step Alone s events := by
  induction events generalizing s with
  | nil => simpa [Along] using announced
  | cons event events ih =>
    rw [Along, ← announced_step announced]
    constructor
    · intro all
      have now := all [event] ⟨events, rfl⟩
      refine ⟨now, (ih now).mp fun before first => ?_⟩
      exact all (event :: before) (cons_prefix_cons.mpr ⟨rfl, first⟩)
    · rintro ⟨now, later⟩ before first
      cases before with
      | nil => exact announced
      | cons e before =>
        obtain ⟨same, rest⟩ := cons_prefix_cons.mp first
        rw [same]
        exact (ih now).mpr later before rest

def idle : Irq where
  cq := {
    node := ⟨⟨[], fun _ => none⟩, fun _ => 0, false, false, [], [], fun _ => []⟩
    cur := fun _ => List.replicate 64 0 }
  raised := false

def written : Cqe := ⟨8, 0, 1, false, false, 0, true⟩

theorem announced_one :
    (([.push 1 written, .read 0x4040] : List IrqEvent).foldl step idle).Announced := by
  refine (announced_iff (fun _ some => absurd rfl some) _).mpr ?_ _ prefix_rfl
  refine ⟨trivial, fun jfc polled last other different => ?_, trivial⟩
  obtain rfl : (1 : U32) = jfc := by simpa [polls] using polled
  exact update_of_ne different ..

theorem not_announced_two :
    ¬((([.push 1 written, .push 2 written, .read 0x4040] : List IrqEvent).foldl step
      idle).Announced) := by
  intro announced
  have waiting : (([.push 1 written, .push 2 written, .read 0x4040] : List IrqEvent).foldl step
      idle).cq.node.jfcCq 2 ≠ [] := by decide
  exact absurd (announced 2 waiting) (by decide)

end Irq

end OpenURMA.Nic
