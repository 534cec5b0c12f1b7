import OpenURMA.Ordering.CompletionProgress

/-!
# The data of held completions

`UB_Completion_Reorder` stores the extension flit of a completion with ODR[2] = 1 beside its
metadata flit, but releases the metadata flit only.
-/

namespace OpenURMA.CompletionReorder

open Library UbMeta Ports List Option

/-- Every metadata flit that is put out is followed by the extension flit that arrived with it,
before the next metadata flit of its initiator. -/
def KeepsData (packets : List Packet) (outs : List Flit) : Prop :=
  ∀ before m after, outs = before ++ m :: after → m.sop = true →
    ∃ p ∈ packets, p.head = m ∧ ∃ e ∈ p.rest,
      e ∈ after.takeWhile fun f => !(f.sop && iniRcId.get f == iniRcId.get m)

variable {s : State} {f g : Flit} {i : Fin 16} {inputs : List (Option Flit)}

theorem sop_of_isHeld (held : isHeld i f = true) : f.sop = true := by
  simp only [isHeld, Bool.and_eq_true] at held
  exact held.1.1

theorem held_of_drained (placed : Placed s) (out : g ∈ (drain s none).2) :
    ∃ k, isHeld k g = true := by
  unfold drain at out
  split at out
  · cases out
  · next idx _ =>
    dsimp only at out
    split at out
    · next valid =>
      cases out
      exact ⟨idx, placed idx _ _ (if_pos valid)⟩
    · cases out

/-- As long as nothing bypasses the window, only held metadata flits leave. -/
theorem held_of_out (placed : Placed s) (within : s.curIdx ≠ none)
    (odr : f.sop = true → odrCompl.get f = true) :
    (step s (some f)).1.curIdx ≠ none ∧ ∀ g ∈ (step s (some f)).2 1, ∃ k, isHeld k g = true := by
  have aimed : aim s.curIdx f ≠ none := by
    unfold aim
    cases sop : f.sop with
    | false => simpa using within
    | true => simp [odr sop]
  rw [curIdx_step]
  refine ⟨aimed, fun g out => ?_⟩
  simp only [step, ofOption_same] at out
  rcases receive_cases s f with ⟨-, none, -⟩ | ⟨-, -, ⟨none, -⟩ | ⟨-, passes⟩⟩
  · exact held_of_drained (placed.receive f) (none ▸ out)
  · exact held_of_drained (placed.receive f) (none ▸ out)
  · rw [curIdx_receive] at passes
    exact absurd passes aimed

theorem held_of_sent (placed : Placed s) (within : s.curIdx ≠ none)
    (odr : ∀ f, some f ∈ inputs → f.sop = true → odrCompl.get f = true) :
    ∀ g ∈ Ports.sent 1 (step.trace s inputs), ∃ k, isHeld k g = true := by
  induction inputs generalizing s with
  | nil => simp
  | cons input inputs ih =>
    intro g member
    have later : ∀ f, some f ∈ inputs → f.sop = true → odrCompl.get f = true :=
      fun f there => odr f (mem_cons_of_mem _ there)
    rw [Mealy.trace_cons, Ports.sent_cons, mem_append, mem_toList] at member
    cases input with
    | none =>
      rcases member with now | rest
      · cases now
      · exact ih placed within later g rest
    | some f =>
      have call := held_of_out placed within (odr f mem_cons_self)
      rcases member with now | rest
      · exact call.2 g now
      · exact ih (placed_step placed _) call.1 later g rest

theorem out_of_first {h : Recorded} (inWindow : InWindow i h) (silent : h.outs = [])
    (held : isHeld i f = true) (first : iniTassn.get f = 0) :
    (step h.state (some f)).2 1 ≠ none := by
  obtain ⟨s, outs, got⟩ := h
  cases silent
  have slot := slot_of_isHeld held
  have current : (receive s f).1.curIdx = some i := by
    rcases receive_cases s f with ⟨-, -, -, current⟩ | ⟨notHeld, -⟩
    · rw [current, slot]
    · rw [notHeld i] at held
      cases held
  have received : (0, f) ∈ got ++ (receipt i [] (some f)).toList := by
    simp [receipt, Option.filter, held, windowNumber, released, first]
  have valid := (valid_iff (inWindow.receive f)).mpr
    (mem_map.mpr ⟨(0, f), received, rfl⟩)
  simp only [step, ofOption_same, drain, current, valid, if_true]
  exact some_ne_none _

section

variable (memory : Fin 16 → Fin 8 → Flit) {packets : List Packet}
variable (arrive : inputs.reduceOption = packets.flatMap Packet.flits)
include arrive

theorem mem_packet_of_input (there : some f ∈ inputs) (sop : f.sop = true) :
    ∃ p ∈ packets, p.head = f := by
  have member := reduceOption_mem_iff.mpr there
  rw [arrive, mem_flatMap] at member
  obtain ⟨p, known, member⟩ := member
  rcases mem_cons.mp member with rfl | inner
  · exact ⟨p, known, rfl⟩
  · rw [p.sop_rest f inner] at sop
    cases sop

variable (held : ∀ p ∈ packets, odrCompl.get p.head = true)
include held

theorem held_of_run : ∀ g ∈ Ports.sent 1 (step.trace (init memory) inputs),
    ∃ k, isHeld k g = true := by
  apply held_of_sent (inWindow_start 0 memory).2 (some_ne_none 0)
  intro f there sop
  obtain ⟨p, known, rfl⟩ := mem_packet_of_input arrive there sop
  exact held p known

/-- Something leaves exactly if the first completion of some initiator has arrived. -/
theorem sent_eq_nil_iff : Ports.sent 1 (step.trace (init memory) inputs) = [] ↔
    ∀ p ∈ packets, iniTassn.get p.head ≠ 0 := by
  constructor
  · intro nothing p known first
    have there : some p.head ∈ inputs := by
      rw [← reduceOption_mem_iff, arrive]
      exact mem_flatMap.mpr ⟨p, known, mem_cons_self⟩
    obtain ⟨before, after, rfl⟩ := append_of_mem there
    have start := inWindow_start (metaSlot p.head) memory
    have window := (inWindow_run (metaSlot p.head) before start.1 start.2).1
    have run := foldl_record (metaSlot p.head) (.start memory) before
    rw [Mealy.trace_append, Ports.sent_append, Mealy.trace_cons, Ports.sent_cons,
      append_eq_nil_iff, append_eq_nil_iff, toList_eq_nil_iff] at nothing
    have silent : (before.foldl (record (metaSlot p.head)) (.start memory)).outs = [] :=
      run.2.trans nothing.1
    have now := out_of_first window silent (by simp [isHeld, p.sop_head, held p known]) first
    rw [run.1] at now
    exact now nothing.2.1
  · intro later
    rw [eq_nil_iff_forall_not_mem]
    intro g member
    obtain ⟨k, own⟩ := held_of_run memory arrive held g member
    have order := (completions_in_order memory inputs k).1
    cases shape : released k (Ports.sent 1 (step.trace (init memory) inputs)) with
    | nil =>
      have : g ∈ released k (Ports.sent 1 (step.trace (init memory) inputs)) :=
        mem_filter.mpr ⟨member, own⟩
      rw [shape] at this
      cases this
    | cons m rest =>
      have sent : m ∈ released k (Ports.sent 1 (step.trace (init memory) inputs)) := by
        rw [shape]
        exact mem_cons_self
      rw [released, mem_filter] at sent
      rw [shape] at order
      have sop := sop_of_isHeld sent.2
      obtain ⟨p, known, head⟩ := mem_packet_of_input arrive (mem_inputs_of_sent sop sent.1) sop
      apply later p known
      rw [head]
      rw [length_cons, range_succ_eq_map] at order
      exact (cons.inj order).1

/-- Completions with ODR[2] = 1 keep their data exactly if none is released. -/
theorem keepsData_iff : KeepsData packets (Ports.sent 1 (step.trace (init memory) inputs)) ↔
      ∀ p ∈ packets, iniTassn.get p.head ≠ 0 := by
  have metas := held_of_run memory arrive held
  rw [← sent_eq_nil_iff memory arrive held]
  constructor
  · intro keeps
    cases shape : Ports.sent 1 (step.trace (init memory) inputs) with
    | nil => rfl
    | cons m after =>
      rw [shape] at keeps metas
      obtain ⟨k, own⟩ := metas m mem_cons_self
      obtain ⟨p, -, -, e, data, there⟩ := keeps [] m after rfl (sop_of_isHeld own)
      have later := (takeWhile_sublist _).subset there
      obtain ⟨l, other⟩ := metas e (mem_cons_of_mem _ later)
      have sop := sop_of_isHeld other
      rw [p.sop_rest e data] at sop
      cases sop
  · intro nothing before m after split
    rw [nothing] at split
    exact absurd split (by simp)

end

def dataCompletion (tassn : U64) : Packet where
  head := { lane3 := (5 <<< 43) + (1 <<< 34) + (tassn <<< 16), sop := true }
  rest := [{ lane3 := 17, eop := true }]
  sop_head := rfl
  sop_rest := by decide
  eop_last := ⟨rfl, rfl⟩

theorem keepsData_secondCompletion :
    KeepsData [dataCompletion 1] (Ports.sent 1 (step.trace (init fun _ _ => {})
      ((dataCompletion 1).flits.map some))) :=
  (keepsData_iff _ rfl (by decide)).mpr (by decide)

theorem not_keepsData_firstCompletion :
    ¬KeepsData [dataCompletion 0] (Ports.sent 1 (step.trace (init fun _ _ => {})
      ((dataCompletion 0).flits.map some))) := by
  have sent : Ports.sent 1 (step.trace (init fun _ _ => {})
      ((dataCompletion 0).flits.map some)) = [(dataCompletion 0).head] := by
    decide +kernel
  intro keeps
  obtain ⟨-, -, -, e, -, there⟩ := keeps [] _ [] sent rfl
  cases there

end OpenURMA.CompletionReorder
