import OpenURMA.Library.Element

/-!
# Chains of machines

Machines in a row, linked by queues. In each turn one of them is called: it may find the first item
of the queue before it, it has a side input, and it puts at most one item into the queue behind it.

Every machine runs as it would on its own: what it has taken out of the queue before it, followed by
what is left there, is what the machine before it has put in.
-/

namespace OpenURMA.Library

open Function List

structure Stage (α : Type) where
  State : Type
  Side : Type
  init : State
  step : State → Option α → Side → State × Option α

namespace Stage

variable {α : Type} (stage : Stage α)

/-- What a call finds: an item or nothing, and the side input. -/
abbrev Call := Option α × stage.Side

def machine : Mealy stage.State stage.Call (Option α) := fun s call => stage.step s call.1 call.2

def taken (calls : List stage.Call) : List α := calls.filterMap (·.1)

def given (s : stage.State) (calls : List stage.Call) : List α :=
  (stage.machine.trace s calls).filterMap id

theorem taken_cons (call : stage.Call) (calls : List stage.Call) :
    stage.taken (call :: calls) = call.1.toList ++ stage.taken calls := by
  cases item : call.1 <;> simp [taken, item]

theorem given_cons (s : stage.State) (call : stage.Call) (calls : List stage.Call) :
    stage.given s (call :: calls) = (stage.step s call.1 call.2).2.toList ++
      stage.given (stage.step s call.1 call.2).1 calls := by
  rw [given, Mealy.trace_cons]
  cases out : (stage.step s call.1 call.2).2 <;> simp [machine, given, out]

/-- A machine that finds the item and the side input in an offer, with its output on one
port. -/
abbrev ofOffers {σ ι κ : Type} (init : σ) (step : Mealy σ ι (Ports α))
    (offer : Option α → κ → ι) (port : ℕ) : Stage α where
  State := σ
  Side := κ
  init := init
  step s item side := ((step s (offer item side)).1, (step s (offer item side)).2 port)

section

variable {σ ι κ : Type} (init : σ) (step : Mealy σ ι (Ports α)) (offer : Option α → κ → ι)
variable (port : ℕ) (s : σ) (calls : List (ofOffers init step offer port).Call)

theorem given_ofOffers : (ofOffers init step offer port).given s calls =
    Ports.sent port (step.trace s (calls.map fun call => offer call.1 call.2)) := by
  induction calls generalizing s with
  | nil => rfl
  | cons call calls ih =>
    rw [given_cons, map_cons, Mealy.trace_cons, Ports.sent_cons, ← ih]

theorem final_ofOffers : (ofOffers init step offer port).machine.final s calls =
    step.final s (calls.map fun call => offer call.1 call.2) := by
  induction calls generalizing s with
  | nil => rfl
  | cons call calls ih => exact ih _

theorem final_of_idle {offer : Option α → Unit → ι} (idle : ∀ s, (step s (offer none ())).1 = s)
    (calls : List (ofOffers init step offer port).Call) :
    (ofOffers init step offer port).machine.final s calls =
      step.final s (((ofOffers init step offer port).taken calls).map fun a =>
        offer (some a) ()) := by
  induction calls generalizing s with
  | nil => rfl
  | cons call calls ih =>
    obtain ⟨item, _⟩ := call
    rw [Mealy.final_cons, taken_cons]
    cases item with
    | none => exact (ih _).trans (congrArg (step.final · _) (idle s))
    | some a => exact ih _

end

/-- A machine without side input, with its output on one port; a call without an item does
nothing. -/
abbrev ofMealy {σ : Type} (init : σ) (step : Mealy σ α (Ports α)) (port : ℕ) : Stage α where
  State := σ
  Side := Unit
  init := init
  step s item _ := item.elim (s, none) fun a => ((step s a).1, (step s a).2 port)

theorem given_ofMealy {σ : Type} (init : σ) (step : Mealy σ α (Ports α)) (port : ℕ) (s : σ)
    (calls : List (ofMealy init step port).Call) :
    (ofMealy init step port).given s calls =
      Ports.sent port (step.trace s ((ofMealy init step port).taken calls)) := by
  induction calls generalizing s with
  | nil => rfl
  | cons call calls ih =>
    rw [given_cons, taken_cons]
    obtain ⟨item, _⟩ := call
    cases item with
    | none => exact ih s
    | some a =>
      refine (congrArg (_ ++ ·) (ih (step s a).1)).trans ?_
      exact (Ports.sent_cons port (step s a).2 _).symm

end Stage

variable {α : Type} {n : ℕ} {stages : Fin n → Stage α}

/-- The states of the machines and the queues; queue `k` is the one before machine `k`. -/
structure Chain (stages : Fin n → Stage α) where
  state : ∀ i, (stages i).State
  queue : ℕ → List α

/-- A turn of a machine, in which it may find the item that waits for it. -/
structure Turn (stages : Fin n → Stage α) where
  stage : Fin n
  offer : Bool
  side : (stages stage).Side

namespace Chain

def start (stages : Fin n → Stage α) (items : List α) : Chain stages where
  state i := (stages i).init
  queue k := if k = 0 then items else []

variable (c : Chain stages) (turn : Turn stages) (turns : List (Turn stages))

def call : (stages turn.stage).Call :=
  (if turn.offer then (c.queue turn.stage).head? else none, turn.side)

def reply : (stages turn.stage).State × Option α :=
  (stages turn.stage).step (c.state turn.stage) (c.call turn).1 (c.call turn).2

def next : Chain stages where
  state := update c.state turn.stage (c.reply turn).1
  queue k :=
    if k = turn.stage then if turn.offer then (c.queue k).tail else c.queue k
    else if k = turn.stage + 1 then c.queue k ++ (c.reply turn).2.toList
    else c.queue k

def run : Chain stages := turns.foldl next c

def calls : Chain stages → List (Turn stages) → ∀ i, List (stages i).Call
  | _, [] => fun _ => []
  | c, turn :: turns =>
    update (calls (c.next turn) turns) turn.stage
      (c.call turn :: calls (c.next turn) turns turn.stage)

theorem calls_cons_self : c.calls (turn :: turns) turn.stage =
    c.call turn :: (c.next turn).calls turns turn.stage :=
  update_self ..

theorem calls_cons_other {i : Fin n} (other : i ≠ turn.stage) :
    c.calls (turn :: turns) i = (c.next turn).calls turns i :=
  update_of_ne other ..

theorem state_next_self : (c.next turn).state turn.stage = (c.reply turn).1 :=
  update_self ..

theorem state_next_other {i : Fin n} (other : i ≠ turn.stage) : (c.next turn).state i = c.state i :=
  update_of_ne other ..

theorem state_run (i : Fin n) :
    (c.run turns).state i = (stages i).machine.final (c.state i) (c.calls turns i) := by
  induction turns generalizing c with
  | nil => rfl
  | cons turn turns ih =>
    have later := ih (c.next turn)
    by_cases own : i = turn.stage
    · subst own
      rw [calls_cons_self, Mealy.final_cons]
      rw [state_next_self] at later
      exact later
    · rw [calls_cons_other _ _ _ own, ← state_next_other c turn own]
      exact later

def given (i : ℕ) : List α :=
  if inside : i < n then (stages ⟨i, inside⟩).given (c.state ⟨i, inside⟩)
    (c.calls turns ⟨i, inside⟩)
  else []

def inflow : ℕ → List α
  | 0 => []
  | i + 1 => c.given turns i

def outflow (k : ℕ) : List α :=
  if inside : k < n then (stages ⟨k, inside⟩).taken (c.calls turns ⟨k, inside⟩) else []

theorem given_cons (i : ℕ) : c.given (turn :: turns) i =
    (if i = turn.stage then (c.reply turn).2.toList else []) ++ (c.next turn).given turns i := by
  unfold given
  by_cases inside : i < n
  · rw [dif_pos inside, dif_pos inside]
    by_cases own : turn.stage = ⟨i, inside⟩
    · rw [if_pos (by rw [own]), ← own, calls_cons_self, Stage.given_cons, state_next_self]
      rfl
    · have other : i ≠ turn.stage := fun same => own (Fin.ext same.symm)
      rw [if_neg other, calls_cons_other _ _ _ (Ne.symm own),
        state_next_other _ _ (Ne.symm own), nil_append]
  · have other : i ≠ turn.stage := by omega
    rw [dif_neg inside, dif_neg inside, if_neg other, nil_append]

theorem inflow_cons (k : ℕ) : c.inflow (turn :: turns) k =
    (if k = turn.stage + 1 then (c.reply turn).2.toList else []) ++
      (c.next turn).inflow turns k := by
  cases k with
  | zero => rfl
  | succ i =>
    rw [inflow, given_cons, inflow]
    simp only [Nat.add_right_cancel_iff]

theorem outflow_cons (k : ℕ) : c.outflow (turn :: turns) k =
    (if k = turn.stage then (c.call turn).1.toList else []) ++ (c.next turn).outflow turns k := by
  unfold outflow
  by_cases inside : k < n
  · rw [dif_pos inside, dif_pos inside]
    by_cases own : turn.stage = ⟨k, inside⟩
    · rw [if_pos (by rw [own]), ← own, calls_cons_self, Stage.taken_cons]
    · have other : k ≠ turn.stage := fun same => own (Fin.ext same.symm)
      rw [if_neg other, calls_cons_other _ _ _ (Ne.symm own), nil_append]
  · have other : k ≠ turn.stage := by omega
    rw [dif_neg inside, dif_neg inside, if_neg other, nil_append]

theorem queue_next (k : ℕ) :
    c.queue k ++ (if k = turn.stage + 1 then (c.reply turn).2.toList else []) =
      (if k = turn.stage then (c.call turn).1.toList else []) ++ (c.next turn).queue k := by
  unfold next
  by_cases own : k = turn.stage
  · have other : k ≠ turn.stage + 1 := by omega
    rw [if_neg other, if_pos own, call, ← own]
    simp only [if_true, append_nil]
    cases turn.offer <;> cases c.queue k <;> rfl
  · rw [if_neg own]
    simp only [if_neg own, nil_append]
    split
    · rfl
    · exact append_nil _

theorem balance (k : ℕ) :
    c.queue k ++ c.inflow turns k = c.outflow turns k ++ (c.run turns).queue k := by
  induction turns generalizing c with
  | nil =>
    have inflow : c.inflow [] k = [] := by
      cases k with
      | zero => rfl
      | succ i =>
        rw [Chain.inflow, Chain.given]
        split <;> rfl
    have outflow : c.outflow [] k = [] := by
      unfold Chain.outflow
      split <;> rfl
    rw [inflow, outflow, append_nil]
    rfl
  | cons turn turns ih =>
    rw [inflow_cons, outflow_cons, ← append_assoc, queue_next, append_assoc,
      append_assoc, ih]
    rfl

variable (items : List α)

theorem start_first : items = (start stages items).outflow turns 0 ++
    ((start stages items).run turns).queue 0 := by
  rw [← balance]
  exact (append_nil _).symm

theorem start_link (i : ℕ) : (start stages items).given turns i =
    (start stages items).outflow turns (i + 1) ++
      ((start stages items).run turns).queue (i + 1) := by
  rw [← balance]
  rfl

/-- With nothing left between two machines, one has taken in what the other has put out. -/
theorem start_link_of_empty {i : ℕ} (empty : ((start stages items).run turns).queue (i + 1) = []) :
    (start stages items).outflow turns (i + 1) = (start stages items).given turns i := by
  rw [start_link, empty, append_nil]

end Chain

end OpenURMA.Library
