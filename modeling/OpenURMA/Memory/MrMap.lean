import OpenURMA.Library.Run
import OpenURMA.Memory.Authorisation

/-!
# The memory-region table as a finite map

Registrations form a finite map from TokenIDs to regions.  The table keeps one region for every
value of the low six bits of a TokenID, so it is that map only as long as no control message
meets the region of another TokenID in its slot.
-/

namespace OpenURMA.MrTable

open Library UbExt List

/-- What becomes of an extension flit if regions are looked up in `registry`. -/
def outcome (registry : U32 → Option MR) (e : Flit) : Ports Flit :=
  match registry (tokenId e) with
  | none => Ports.emit 2 e
  | some mr =>
    if inRange mr (address e) (UbExt.length e) then
      Ports.emit 1 (setAddress (translate mr (address e)) e)
    else Ports.emit 2 e

/-- A control message that registers or deregisters finds no region of another TokenID in its
slot. -/
def KeepsOthers (s : State) : Event → Prop
  | .signal event =>
    event.cmd = 1 ∨ event.cmd = 2 → (s.table (idx event.sparam)).valid = true →
      (s.table (idx event.sparam)).tokenId = event.sparam
  | .flit _ => True

instance (s : State) : (event : Event) → Decidable (KeepsOthers s event)
  | .signal _ => inferInstanceAs (Decidable (_ ∨ _ → _ → _))
  | .flit _ => inferInstanceAs (Decidable True)

theorem Signal.key_of_command {event : Signal} {command : Command U32 MR}
    (asks : event.command = some command) :
    (event.cmd = 1 ∨ event.cmd = 2) ∧ command.key = event.sparam := by
  unfold Signal.command at asks
  split at asks
  · next register =>
    obtain rfl := Option.some.inj asks
    exact ⟨.inl (beq_iff_eq.mp register), rfl⟩
  · split at asks
    · next deregister =>
      obtain rfl := Option.some.inj asks
      exact ⟨.inr (beq_iff_eq.mp deregister), rfl⟩
    · cases asks

theorem cell_eq_some {mr found : MR} {tid : U32} (answer : cell mr = some (tid, found)) :
    mr.valid = true ∧ mr.tokenId = tid ∧ mr = found := by
  unfold cell at answer
  split at answer
  · next valid =>
    obtain ⟨key, region⟩ := Prod.mk.inj (Option.some.inj answer)
    exact ⟨valid, key, region⟩
  · cases answer

theorem complete_next {s : State} {store : U32 → Option MR}
    (complete : CellsComplete idx (cells s.table) store) {event : Event}
    (keeps : KeepsOthers s event) :
    CellsComplete idx (cells (s.next event).table)
      (event.command.toList.foldl Command.onStore store) := by
  cases event with
  | flit f =>
    rw [State.next, table_step]
    exact complete
  | signal event =>
    rw [State.next, cells_signal, Event.command]
    cases asks : event.command with
    | none => exact complete
    | some command =>
      obtain ⟨updates, key⟩ := Signal.key_of_command asks
      refine complete.update fun tid mr answer => ?_
      rw [key] at answer ⊢
      obtain ⟨valid, tokenId, -⟩ := cell_eq_some answer
      rw [← tokenId]
      exact keeps updates valid

theorem complete_run (events : List Event) :
    ∀ {s : State} {store : U32 → Option MR}, CellsComplete idx (cells s.table) store →
      Along State.next KeepsOthers s events → CellsComplete idx (cells (s.run events).table)
        ((events.filterMap Event.command).foldl Command.onStore store) := by
  induction events with
  | nil => exact fun complete _ => complete
  | cons event events ih =>
    intro s store complete along
    have rest := ih (complete_next complete along.1) along.2
    rw [filterMap_cons]
    cases update : event.command with
    | none => rw [update] at rest; exact rest
    | some command => rw [update] at rest; exact rest

section

variable {memory : Fin 64 → MR} {events : List Event}

theorem registered_eq (along : Along State.next KeepsOthers (init memory) events) (tid : U32) :
    registered events tid = if hit (((init memory).run events).table (idx tid)) tid then
        some (((init memory).run events).table (idx tid)) else none := by
  have start : CellsComplete idx (cells (init memory).table) fun _ => none := by
    intro key value found
    cases found
  have complete := complete_run events start along
  split
  · next found => exact registered_of_hit memory events found
  · next missing =>
    rw [Option.eq_none_iff_forall_not_mem]
    intro mr entry
    obtain ⟨valid, tokenId, -⟩ := cell_eq_some (complete tid mr entry)
    exact missing (by simp [hit, valid, tokenId])

theorem checkExt_eq_outcome (along : Along State.next KeepsOthers (init memory) events)
    {e : Flit} (awaits : AwaitsExt ((init memory).run events)) :
    (checkExt ((init memory).run events) e).2 = outcome (registered events) e := by
  rw [outcome, registered_eq along]
  by_cases found : hit (((init memory).run events).table (idx (tokenId e)))
      (tokenId e) = true
  · rw [if_pos found]
    dsimp only
    split
    · next inside => exact checkExt_admitted awaits ⟨found, inside⟩
    · next outside => exact checkExt_refused fun admits => outside admits.2
  · rw [if_neg found]
    exact checkExt_refused fun admits => found admits.1

theorem registered_snoc_of_ne {event : Signal} {tid : U32} (other : tid ≠ event.sparam) :
    registered (events ++ [.signal event]) tid = registered events tid := by
  rw [registered, registered, storeAfter, storeAfter, filterMap_append, foldl_append]
  cases asks : event.command with
  | none => simp [Event.command, asks]
  | some command =>
    rw [← (Signal.key_of_command asks).2] at other
    simpa [Event.command, asks] using Command.onStore_of_ne _ other

end

/-- In every run whose control messages all find no region of another TokenID in their slot, a
request is treated by the latest registration under its TokenID that has not been withdrawn. -/
theorem step_eq_outcome (memory : Fin 64 → MR) (events : List Event)
    (along : Along State.next KeepsOthers (init memory) events) (e : Flit) (inner : e.sop = false)
    (awaits : AwaitsExt ((init memory).run events)) :
    (step ((init memory).run events) e).2 = outcome (registered events) e ∧
      ∀ event : Signal, KeepsOthers ((init memory).run events) (.signal event) →
        tokenId e ≠ event.sparam → (step (((init memory).run events).next (.signal event)) e).2 =
          (step ((init memory).run events) e).2 := by
  have now : (step ((init memory).run events) e).2 = outcome (registered events) e := by
    rw [step_ext awaits inner]
    exact checkExt_eq_outcome along awaits
  refine ⟨now, fun event keeps other => ?_⟩
  have longer : (init memory).run (events ++ [.signal event]) =
      ((init memory).run events).next (.signal event) := by
    rw [State.run, foldl_append]
    rfl
  have along' : Along State.next KeepsOthers (init memory) (events ++ [.signal event]) :=
    along_append.mpr ⟨along, keeps, trivial⟩
  have awaits' : AwaitsExt ((init memory).run (events ++ [.signal event])) := by
    rw [longer]
    exact awaits_signal awaits event
  rw [now, ← longer, step_ext awaits' inner, checkExt_eq_outcome along' awaits']
  unfold outcome
  rw [registered_snoc_of_ne other]

def registrationOf (tid : U32) : Signal where
  cmd := 1
  sparam := tid
  lparam := ![0xBB, 0x1000, 0, 0x1000, 2]

def deregistrationOf (tid : U32) : Signal where
  cmd := 2
  sparam := tid
  lparam := fun _ => 0

/-- Two regions in slots of their own; one is withdrawn while a request for the other is under
way. -/
theorem step_eq_outcome_writeExt :
    let events : List Event := [.signal (registrationOf 5), .signal (registrationOf 6),
      .flit writeMeta, .signal (deregistrationOf 6)]
    Along State.next KeepsOthers (init fun _ => default) events ∧
      (step ((init fun _ => default).run events) writeExt).2 =
        outcome (registered events) writeExt := by
  intro events
  have along : Along State.next KeepsOthers (init fun _ => default) events := by decide
  exact ⟨along, (step_eq_outcome _ events along writeExt rfl
    (awaits_history _ [.signal (registrationOf 5), .signal (registrationOf 6)]
      [deregistrationOf 6] rfl (by decide))).1⟩

/-- Two regions are registered, and TokenID 69 has the slot of TokenID 5: a request for the
region of TokenID 5 is rejected. -/
theorem step_ne_outcome_collision :
    let events : List Event := [.signal (registrationOf 5), .signal (registrationOf 69),
      .flit writeMeta]
    (outcome (registered events) writeExt 1).isSome = true ∧
      (step ((init fun _ => default).run events) writeExt).2 1 = none ∧
      (step ((init fun _ => default).run events) writeExt).2 2 = some writeExt := by
  decide

end OpenURMA.MrTable
