import Mathlib.Data.List.Basic
import Mathlib.Data.List.ReduceOption
import Mathlib.Logic.Function.Basic

/-!
# Clocked stream elements

Two views of a component that is called once per cycle.

* A `Handler` is offered at most one input per call and decides itself whether to read it; it may
  emit in calls in which it reads nothing.  A schedule says in which calls the input is offered.
* A `Mealy` machine reads in every call that has an input and does nothing in the others, so a run
  is a fold over the inputs.

`Handler.Delivers` describes a handler's run without mentioning calls; `Delivers.produces` transfers
that description to every schedule with enough offers.
-/

namespace OpenURMA.Library

open Function List Option

variable {σ ι ω : Type*}

structure Reply (σ ω : Type*) where
  state : σ
  read : Bool
  out : Option ω

/-- A handler call: the state and the input offered, if any. -/
abbrev Handler (σ ι ω : Type*) := σ → Option ι → Reply σ ω

structure Outcome (σ ι ω : Type*) where
  state : σ
  queue : List ι
  outputs : List ω

namespace Handler

variable {handler : Handler σ ι ω} {state next final : σ} {queue : List ι}
variable {outputs : List ω}

/-- Call the handler once per entry of the schedule; `true` offers the head of the input queue. -/
def run (handler : Handler σ ι ω) : List Bool → σ → List ι → Outcome σ ι ω
  | [], state, queue => ⟨state, queue, []⟩
  | offer :: schedule, state, queue =>
    let reply := handler state (if offer then queue.head? else none)
    let rest := run handler schedule reply.state
      (if reply.read then queue.tail else queue)
    ⟨rest.state, rest.queue, reply.out.toList ++ rest.outputs⟩

/-- The handler is waiting: a call without input changes nothing. -/
def Waits (handler : Handler σ ι ω) (state : σ) : Prop :=
  handler state none = ⟨state, false, none⟩

/-- A run that empties the queue: the handler reads while it waits and emits while it is busy. -/
inductive Delivers (handler : Handler σ ι ω) :
    σ → List ι → σ → List ω → Prop where
  | settled {state : σ} : Waits handler state → Delivers handler state [] state []
  | read {state next final : σ} {input : ι} {queue : List ι} {out : Option ω}
      {outputs : List ω} :
      Waits handler state → handler state (some input) = ⟨next, true, out⟩ →
      Delivers handler next queue final outputs →
      Delivers handler state (input :: queue) final (out.toList ++ outputs)
  | emit {state next final : σ} {queue : List ι} {out : ω} {outputs : List ω} :
      (∀ offered, handler state offered = ⟨next, false, some out⟩) →
      Delivers handler next queue final outputs →
      Delivers handler state queue final (out :: outputs)

/-- The handler reads all the inputs and emits nothing on the way. -/
inductive Absorbs (handler : Handler σ ι ω) : σ → List ι → σ → Prop where
  | nil {state : σ} : Absorbs handler state [] state
  | cons {state next final : σ} {input : ι} {inputs : List ι} :
      Waits handler state → handler state (some input) = ⟨next, true, none⟩ →
      Absorbs handler next inputs final →
      Absorbs handler state (input :: inputs) final

theorem Absorbs.delivers {inputs : List ι} (absorbs : Absorbs handler state inputs next)
    (rest : Delivers handler next queue final outputs) :
    Delivers handler state (inputs ++ queue) final outputs := by
  induction absorbs with
  | nil => exact rest
  | cons waits reads _ ih => simpa using Delivers.read waits reads (ih rest)

theorem run_of_waits_nil (waits : Waits handler state) (schedule : List Bool) :
    run handler schedule state [] = ⟨state, [], []⟩ := by
  induction schedule with
  | nil => rfl
  | cons offer schedule ih =>
    have call : handler state (if offer then ([] : List ι).head? else none) =
        ⟨state, false, none⟩ := by
      cases offer <;> exact waits
    simp only [run, call, Bool.false_eq_true, ↓reduceIte, ih, toList_none, nil_append]

/-- Every schedule with enough offers reads the whole queue, emits `outputs` and ends in `final`. -/
def Produces (handler : Handler σ ι ω) (state : σ) (queue : List ι) (final : σ)
    (outputs : List ω) : Prop :=
  ∃ calls, ∀ schedule : List Bool, calls ≤ schedule.count true →
    run handler schedule state queue = ⟨final, [], outputs⟩

theorem Delivers.produces (delivery : Delivers handler state queue final outputs) :
    Produces handler state queue final outputs := by
  induction delivery with
  | settled waits =>
    exact ⟨0, fun schedule _ => run_of_waits_nil waits schedule⟩
  | @read state next final input queue out outputs waits reads _ ih =>
    obtain ⟨calls, rest⟩ := ih
    refine ⟨calls + 1, fun schedule => ?_⟩
    -- calls without input leave the waiting handler where it is
    induction schedule with
    | nil => intro enough; simp at enough
    | cons offer schedule idle =>
      intro enough
      cases offer with
      | true =>
        have restRun := rest schedule (by simpa using enough)
        simp only [run, ↓reduceIte, head?_cons, reads, tail_cons, restRun]
      | false =>
        have idleRun := idle (by simpa using enough)
        have call : handler state none = ⟨state, false, none⟩ := waits
        simp only [run, Bool.false_eq_true, ↓reduceIte, call, idleRun,
          toList_none, nil_append]
  | @emit state next final queue out outputs busy _ ih =>
    obtain ⟨calls, rest⟩ := ih
    refine ⟨calls + 1, fun schedule enough => ?_⟩
    cases schedule with
    | nil => simp at enough
    | cons offer schedule =>
      have restRun := rest schedule (by
        cases offer <;> simp at enough <;> omega)
      simp only [run, busy, Bool.false_eq_true, ↓reduceIte, restRun,
        toList_some, cons_append, nil_append]

theorem Produces.unique {other : σ} {others : List ω}
    (first : Produces handler state queue final outputs)
    (second : Produces handler state queue other others) :
    final = other ∧ outputs = others := by
  obtain ⟨calls, runs⟩ := first
  obtain ⟨calls', runs'⟩ := second
  let schedule := replicate (calls + calls') true
  have count : schedule.count true = calls + calls' := count_replicate_self
  have same := (runs schedule (by omega)).symm.trans (runs' schedule (by omega))
  exact ⟨congrArg Outcome.state same, congrArg Outcome.outputs same⟩

end Handler

abbrev Mealy (σ ι ω : Type*) := σ → ι → σ × ω

namespace Mealy

variable {step : Mealy σ ι ω}

def final (step : Mealy σ ι ω) (state : σ) (inputs : List ι) : σ :=
  inputs.foldl (fun current input => (step current input).1) state

def next (step : Mealy σ ι ω) (state : σ) (input : ι) : σ := (step state input).1

def trace (step : Mealy σ ι ω) : σ → List ι → List ω
  | _, [] => []
  | state, input :: inputs =>
    (step state input).2 :: trace step (step state input).1 inputs

section

variable (state : σ)

@[simp] theorem final_nil : final step state [] = state := rfl

@[simp] theorem final_cons (input : ι) (inputs : List ι) :
    final step state (input :: inputs) = final step (step state input).1 inputs := rfl

theorem final_snoc (inputs : List ι) (input : ι) :
    final step state (inputs ++ [input]) = next step (final step state inputs) input := by
  simp only [final, foldl_append]
  rfl

theorem final_append (first second : List ι) :
    final step state (first ++ second) = final step (final step state first) second := by
  simp only [final, foldl_append]

@[simp] theorem trace_nil : trace step state [] = [] := rfl

@[simp] theorem trace_cons (input : ι) (inputs : List ι) : trace step state (input :: inputs) =
      (step state input).2 :: trace step (step state input).1 inputs := rfl

theorem trace_append (first second : List ι) : trace step state (first ++ second) =
      trace step state first ++ trace step (final step state first) second := by
  induction first generalizing state with
  | nil => rfl
  | cons input first ih => simp [ih]

end

theorem refines {τ : Type*} {spec : Mealy τ ι ω} {related : σ → τ → Prop} {state : σ} {model : τ}
    (alike : ∀ s t input, related s t →
      related (step s input).1 (spec t input).1 ∧ (step s input).2 = (spec t input).2)
    (start : related state model) (inputs : List ι) :
    related (step.final state inputs) (spec.final model inputs) ∧
      step.trace state inputs = spec.trace model inputs := by
  induction inputs generalizing state model with
  | nil => exact ⟨start, rfl⟩
  | cons input inputs ih =>
    have call := alike state model input start
    have rest := ih call.1
    exact ⟨rest.1, congrArg₂ cons call.2 rest.2⟩

theorem trace_take (state : σ) (inputs : List ι) (count : Nat) :
    trace step state (inputs.take count) = (trace step state inputs).take count := by
  induction inputs generalizing state count with
  | nil => simp [trace]
  | cons input inputs ih =>
    cases count with
    | zero => rfl
    | succ count => simp [ih]

variable {α : Type*} {count : Nat} {out : α → ω}

theorem reduceOption_take_blocks (values : List α) (calls : Nat) :
    ((values.flatMap fun value => replicate count none ++ [some (out value)]).take
        calls).reduceOption = (values.map out).take (calls / (count + 1)) := by
  induction values generalizing calls with
  | nil => simp
  | cons value values ih =>
    by_cases early : calls ≤ count
    · have nothing : calls / (count + 1) = 0 := Nat.div_eq_of_lt (by omega)
      rw [flatMap_cons, append_assoc, take_append_of_le_length (by simpa using early),
        take_replicate, reduceOption_replicate_none, nothing, take_zero]
    · obtain ⟨more, rfl⟩ := Nat.exists_eq_add_of_le (show count + 1 ≤ calls by omega)
      have length : (replicate count none ++ [some (out value)]).length = count + 1 := by simp
      have blocks : (count + 1 + more) / (count + 1) = more / (count + 1) + 1 := by
        rw [Nat.add_div_left _ (by omega)]
      rw [flatMap_cons, ← length, take_length_add_append, reduceOption_append, ih, length,
        blocks, reduceOption_append, reduceOption_replicate_none]
      rfl

variable {step : Mealy σ ι (Option ω)} {block : α → List ι}

/-- A machine that answers every block with its last call has answered the complete blocks. -/
theorem trace_blocks {values : List α} (answers : ∀ value ∈ values, ∀ state,
      trace step state (block value) = replicate count none ++ [some (out value)])
    (state : σ) {inputs : List ι} (sofar : inputs <+: values.flatMap block) :
    (trace step state inputs).reduceOption =
      (values.map out).take (inputs.length / (count + 1)) := by
  have whole : trace step state (values.flatMap block) =
      values.flatMap fun value => replicate count none ++ [some (out value)] := by
    clear sofar
    induction values generalizing state with
    | nil => rfl
    | cons value values ih =>
      rw [flatMap_cons, trace_append, answers value mem_cons_self,
        ih (fun later member => answers later (mem_cons_of_mem _ member)), flatMap_cons]
  rw [prefix_iff_eq_take.mp sofar, trace_take, whole, reduceOption_take_blocks,
    ← prefix_iff_eq_take.mp sofar]

end Mealy

/-- What one call puts on each output port; a port takes one value per call. -/
abbrev Ports (ω : Type*) := Nat → Option ω

namespace Ports

def silent : Ports ω := fun _ => none

def put (port : Nat) (value : ω) (out : Ports ω) : Ports ω :=
  update out port (some value)

def emit (port : Nat) (value : ω) : Ports ω := put port value silent

def ofOption (port : Nat) : Option ω → Ports ω
  | none => silent
  | some value => emit port value

@[simp] theorem silent_apply (port : Nat) : (silent : Ports ω) port = none := rfl

@[simp] theorem put_same (port : Nat) (value : ω) (out : Ports ω) :
    put port value out port = some value := update_self ..

variable {port other : Nat}

@[simp] theorem put_other (different : other ≠ port) (value : ω) (out : Ports ω) :
    put port value out other = out other :=
  update_of_ne different ..

@[simp] theorem emit_same (port : Nat) (value : ω) : emit port value port = some value :=
  put_same ..

@[simp] theorem emit_other (different : other ≠ port) (value : ω) :
    emit port value other = none := put_other different ..

@[simp] theorem ofOption_same (port : Nat) (value : Option ω) :
    ofOption port value port = value := by
  cases value with
  | none => rfl
  | some value => exact emit_same ..

theorem emit_eq_some {value found : ω} :
    emit port value other = some found ↔ other = port ∧ found = value := by
  by_cases same : other = port
  · rw [same, emit_same]
    simp [eq_comm]
  · simp [same]

/-- The values a run puts on a port, in order. -/
def sent (port : Nat) (trace : List (Ports ω)) : List ω := trace.filterMap (· port)

@[simp] theorem sent_nil (port : Nat) : sent port ([] : List (Ports ω)) = [] := rfl

theorem sent_cons (port : Nat) (out : Ports ω) (trace : List (Ports ω)) :
    sent port (out :: trace) = (out port).toList ++ sent port trace := by
  unfold sent
  cases value : out port with
  | none => simp [value]
  | some value => simp [value]

theorem sent_append (port : Nat) (first second : List (Ports ω)) :
    sent port (first ++ second) = sent port first ++ sent port second :=
  filterMap_append

theorem sent_map_emit (port : Nat) (values : List ω) :
    sent port (values.map (emit port)) = values := by
  induction values with
  | nil => rfl
  | cons value values ih => rw [map_cons, sent_cons, ih, emit_same]; rfl

theorem sent_map_emit_other (different : other ≠ port) (values : List ω) :
    sent other (values.map (emit port)) = [] := by
  induction values with
  | nil => rfl
  | cons value values ih => rw [map_cons, sent_cons, ih, emit_other different]; rfl

variable {step : Mealy σ ι (Ports ω)} {state next : σ} {input : ι} {port : Nat} {value : ω}

theorem run_of_emit (call : step state input = (next, emit port value)) (inputs : List ι) :
    step.final state (input :: inputs) = step.final next inputs ∧
      sent port (step.trace state (input :: inputs)) =
        value :: sent port (step.trace next inputs) := by
  rw [Mealy.final_cons, Mealy.trace_cons, sent_cons, call]
  simp

theorem run_of_silent (call : step state input = (next, silent)) (inputs : List ι) (port : Nat) :
    step.final state (input :: inputs) = step.final next inputs ∧
      sent port (step.trace state (input :: inputs)) = sent port (step.trace next inputs) := by
  rw [Mealy.final_cons, Mealy.trace_cons, sent_cons, call]
  simp

end Ports

end OpenURMA.Library
