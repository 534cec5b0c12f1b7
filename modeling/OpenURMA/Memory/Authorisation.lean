import OpenURMA.Library.DirectMapped
import OpenURMA.Memory.MrTable
import Mathlib.Data.Fin.VecNotation

/-!
# What the memory-region table protects

The table is a direct-mapped cache of the registrations in force, so a region it finds is
one that is registered.  Of the registration it then checks only the address range, in
64-bit arithmetic.
-/

namespace OpenURMA.MrTable

open Library UbMeta UbExt Function Bool List BitVec

/-- What happens to the table: a control message or a flit. -/
inductive Event where
  | signal (event : Signal)
  | flit (f : Flit)

def State.next (s : State) : Event → State
  | .signal event => (signal s event).1
  | .flit f => (step s f).1

def State.run (s : State) (events : List Event) : State := events.foldl State.next s

/-- The registry update that a control message asks for. -/
def Signal.command (event : Signal) : Option (Command U32 MR) :=
  if event.cmd == 1 then some (.insert event.sparam event.region)
  else if event.cmd == 2 then some (.erase event.sparam)
  else none

def Event.command : Event → Option (Command U32 MR)
  | .signal event => event.command
  | .flit _ => none

/-- The latest registration under each TokenID that has not been withdrawn since. -/
def registered (events : List Event) : U32 → Option MR :=
  storeAfter (events.filterMap Event.command)

/-- A table entry as a cell of a direct-mapped table. -/
def cell (mr : MR) : Option (U32 × MR) :=
  if mr.valid then some (mr.tokenId, mr) else none

theorem cell_of_hit {mr : MR} {tid : U32} (found : hit mr tid = true) :
    cell mr = some (tid, mr) := by
  obtain ⟨valid, key⟩ := and_eq_true_iff.mp found
  rw [cell, if_pos valid, beq_iff_eq.mp key]

theorem table_step (s : State) (f : Flit) : (step s f).1.table = s.table := by
  unfold step checkExt
  split <;> [rfl; skip]
  split <;> [(cases f.eop <;> rfl); skip]
  split <;> [(cases f.eop <;> rfl); skip]
  split <;> rfl

def cells (table : Fin 64 → MR) : Fin 64 → Option (U32 × MR) := fun i => cell (table i)

theorem cells_update (table : Fin 64 → MR) (i : Fin 64) (mr : MR) :
    cells (update table i mr) = update (cells table) i (cell mr) := by
  funext j
  by_cases same : j = i
  · rw [cells, same, update_self, update_self]
  · rw [cells, update_of_ne same, update_of_ne same]
    rfl

theorem cells_signal (s : State) (event : Signal) : cells (signal s event).1.table =
      event.command.toList.foldl (Command.onCells idx) (cells s.table) := by
  unfold signal Signal.command
  split
  · exact cells_update ..
  · split
    · exact cells_update ..
    · split <;> rfl

theorem sound_next {s : State} {store : U32 → Option MR}
    (sound : CellsSound idx (cells s.table) store) (event : Event) :
    CellsSound idx (cells (s.next event).table)
      (event.command.toList.foldl Command.onStore store) := by
  cases event with
  | flit f =>
    rw [State.next, table_step]
    exact sound
  | signal event =>
    rw [State.next, cells_signal, Event.command]
    cases event.command with
    | none => exact sound
    | some command => exact sound.update command

theorem sound_run (events : List Event) :
    ∀ {s : State} {store : U32 → Option MR}, CellsSound idx (cells s.table) store →
      CellsSound idx (cells (s.run events).table)
        ((events.filterMap Event.command).foldl Command.onStore store) := by
  induction events with
  | nil => exact fun sound => sound
  | cons event events ih =>
    intro s store sound
    have rest := ih (sound_next sound event)
    rw [filterMap_cons]
    cases update : event.command with
    | none => rw [update] at rest; exact rest
    | some command => rw [update] at rest; exact rest

theorem registered_of_hit (memory : Fin 64 → MR) (events : List Event) {tid : U32}
    (found : hit (((init memory).run events).table (idx tid)) tid = true) :
    registered events tid = some (((init memory).run events).table (idx tid)) := by
  have start : CellsSound idx (cells (init memory).table) fun _ => none :=
    fun _ _ answer => by cases answer
  exact sound_run events start tid _ (cell_of_hit found)

/-- The permission bit for an opcode: 0 for reads, 1 for writes, 2 for atomics. -/
def permits (perm op : U8) : Bool :=
  if op == taopRead then perm.getLsbD 0
  else if isWriteClass op then perm.getLsbD 1
  else perm.getLsbD 2

/-- The registration under the request's TokenID has its TokenValue and permits its
operation. -/
def authorised (events : List Event) (m e : Flit) : Bool :=
  match registered events (tokenId e) with
  | some mr => mr.tokenValue == tokenValue e && permits mr.perm (taOpcode.get m)
  | none => false

/-- The history up to the extension flit of a request with metadata `m`: anything before
the request, and control messages between its two flits. -/
def historyOf (before : List Event) (m : Flit) (between : List Signal) : List Event :=
  before ++ .flit m :: between.map .signal

def slotFor (memory : Fin 64 → MR) (before : List Event) (between : List Signal)
    (m e : Flit) : MR :=
  ((init memory).run (historyOf before m between)).table (idx (tokenId e))

/-- The request passes on port 1 only if it is authorised, and goes to port 2 otherwise. -/
def Enforces (memory : Fin 64 → MR) (before : List Event) (between : List Signal)
    (m e : Flit) : Prop :=
  let events := historyOf before m between
  let out := (step ((init memory).run events) e).2
  ((out 1).isSome = true → authorised events m e = true) ∧
    (authorised events m e = false → (out 2).isSome = true)
deriving Decidable

/-- The slot `mr` holds a valid region under the request's TokenID, and the request lies
in its address range up to wrap-around at `2 ^ 64`. -/
structure Reaches (mr : MR) (e : Flit) : Prop where
  valid : mr.valid = true
  tokenId : mr.tokenId = tokenId e
  above : mr.vaBase.toNat ≤ (address e).toNat
  below : ((address e).toNat + (UbExt.length e).toNat) % 2 ^ 64 ≤
    (mr.vaBase.toNat + mr.length.toNat) % 2 ^ 64

theorem admits_iff_reaches {table : Fin 64 → MR} {e : Flit} :
    Admits table e ↔ Reaches (table (idx (tokenId e))) e := by
  have small := (UbExt.length e).isLt
  have small' := (table (idx (tokenId e))).length.isLt
  have range : inRange (table (idx (tokenId e))) (address e) (UbExt.length e) =
      true ↔ (table (idx (tokenId e))).vaBase.toNat ≤ (address e).toNat ∧
        ((address e).toNat + (UbExt.length e).toNat) % 2 ^ 64 ≤
          ((table (idx (tokenId e))).vaBase.toNat +
            (table (idx (tokenId e))).length.toNat) % 2 ^ 64 := by
    simp only [inRange, gt_iff_lt, not_eq_true', or_eq_false_iff,
      decide_eq_false_iff_not, lt_def, toNat_add, toNat_setWidth, Nat.not_lt]
    rw [Nat.mod_eq_of_lt (show (UbExt.length e).toNat < 2 ^ 64 by omega),
      Nat.mod_eq_of_lt (show (table (idx (tokenId e))).length.toNat < 2 ^ 64 by omega)]
  rw [Admits, range, hit, and_eq_true_iff, beq_iff_eq]
  exact ⟨fun ⟨⟨valid, key⟩, above, below⟩ => ⟨valid, key, above, below⟩,
    fun reaches => ⟨⟨reaches.valid, reaches.tokenId⟩, reaches.above, reaches.below⟩⟩

theorem awaits_signal {s : State} (awaits : AwaitsExt s) (event : Signal) :
    AwaitsExt (signal s event).1 := by
  unfold signal
  split <;> [skip; split <;> [skip; split]] <;>
    exact ⟨awaits.sawMeta, awaits.notSend, awaits.noExt, awaits.accepted⟩

theorem awaits_history (memory : Fin 64 → MR) (before : List Event) (between : List Signal)
    {m : Flit} (sop : m.sop = true) (request : isSend (taOpcode.get m) = false) :
    AwaitsExt ((init memory).run (historyOf before m between)) := by
  have start := (step_meta ((init memory).run before) sop request).1
  rw [historyOf, State.run, foldl_append, foldl_cons, foldl_map]
  change AwaitsExt (between.foldl (fun s event => (signal s event).1)
    (step ((init memory).run before) m).1)
  generalize (step ((init memory).run before) m).1 = s at start
  induction between generalizing s with
  | nil => exact start
  | cons event between ih => exact ih _ (awaits_signal start event)

/-- The table enforces a registration just for requests in range with the registered TokenValue and
a permitted operation. -/
theorem enforces_iff (memory : Fin 64 → MR) (before : List Event) (between : List Signal)
    {m e : Flit} (sop : m.sop = true)
    (access : accessesMemory (taOpcode.get m) = true) (inner : e.sop = false) :
    Enforces memory before between m e ↔ (Reaches (slotFor memory before between m e) e →
        (slotFor memory before between m e).tokenValue = tokenValue e ∧
          permits (slotFor memory before between m e).perm (taOpcode.get m) = true) := by
  have awaits := awaits_history memory before between sop (isSend_of_accessesMemory access)
  have reachable : Admits ((init memory).run (historyOf before m between)).table e ↔
      Reaches (slotFor memory before between m e) e := admits_iff_reaches
  simp only [Enforces, step_ext awaits inner]
  by_cases reaches : Reaches (slotFor memory before between m e) e
  · have admits := reachable.mpr reaches
    have verdict : authorised (historyOf before m between) m e = true ↔
        (slotFor memory before between m e).tokenValue = tokenValue e ∧
          permits (slotFor memory before between m e).perm (taOpcode.get m) = true := by
      rw [authorised, registered_of_hit memory _ admits.1, and_eq_true_iff, beq_iff_eq]
      rfl
    rw [checkExt_admitted awaits admits, Ports.emit_same, Ports.emit_other (by omega), ← verdict]
    simp [reaches]
  · rw [checkExt_refused fun admits => reaches (reachable.mp admits), Ports.emit_same,
      Ports.emit_other (by omega)]
    simp [reaches]

/-- Registration of a 4 KiB region under TokenID 5 with the given value and permissions. -/
def registration (tokenValue perm : U64) : Signal where
  cmd := 1
  sparam := 5
  lparam := ![tokenValue, 0x1000, 0, 0x1000, perm]

def writeMeta : Flit := { lane3 := 3, sop := true }

/-- Its extension flit: address `0x1000`, TokenID 5, TokenValue `0xBB`. -/
def writeExt : Flit := { lane0 := 0x1000, lane1 := 0x800000005, lane2 := 0xBB, eop := true }

theorem enforces_matching_registration :
    Enforces (fun _ => default) [.signal (registration 0xBB 2)] [] writeMeta writeExt :=
  (enforces_iff _ _ _ rfl (by decide) rfl).mpr (fun _ => by decide)

/-- A write with the wrong TokenValue to a region registered without any permission is
forwarded. -/
theorem not_enforces_wrong_token :
    ¬ Enforces (fun _ => default) [.signal (registration 0xAA 0)] [] writeMeta writeExt := by
  decide

/-- What leaves on port 1 stays inside the memory of the region `mr`. -/
def Contained (mr : MR) (out : Ports Flit) : Prop :=
  ∀ g, out 1 = some g → mr.hbmOffset.toNat ≤ (address g).toNat ∧
    (address g).toNat + (UbExt.length g).toNat ≤ mr.hbmOffset.toNat + mr.length.toNat

/-- Neither the end of the access nor the translated address wraps around; an access may
end at `2 ^ 64` if the region does. -/
def NoWrap (mr : MR) (va : U64) (len : U32) : Prop :=
  (va.toNat + len.toNat < 2 ^ 64 ∨
    (va.toNat + len.toNat = 2 ^ 64 ∧ mr.vaBase.toNat + mr.length.toNat = 2 ^ 64)) ∧
  mr.hbmOffset.toNat + (va.toNat - mr.vaBase.toNat) < 2 ^ 64
deriving Decidable

/-- Accesses are contained in their region exactly if no admitted access wraps around. -/
theorem contained_iff (s : State) {m e : Flit} (sop : m.sop = true)
    (request : isSend (taOpcode.get m) = false) (inner : e.sop = false)
    {mr : MR} (slot : s.table (idx (tokenId e)) = mr)
    (region : mr.vaBase.toNat + mr.length.toNat ≤ 2 ^ 64) :
    Contained mr (step (step s m).1 e).2 ↔
      (Reaches mr e → NoWrap mr (address e) (UbExt.length e)) := by
  obtain ⟨awaits, table, _⟩ := step_meta s sop request
  have small := mr.length.isLt
  have offset := mr.hbmOffset.isLt
  have address := (address e).isLt
  have size := (UbExt.length e).isLt
  have reachable : Admits (step s m).1.table e ↔ Reaches mr e := by
    rw [admits_iff_reaches, table, slot]
  have forwarded : ∀ g, (step (step s m).1 e).2 1 = some g ↔
      Reaches mr e ∧ g = setAddress (translate mr (UbExt.address e)) e := by
    intro g
    rw [forwarded_iff awaits inner, reachable, translated, table, slot]
  by_cases reaches : Reaches mr e
  · have above := reaches.above
    have below := reaches.below
    have out : Contained mr (step (step s m).1 e).2 ↔
        mr.hbmOffset.toNat ≤ (translate mr (UbExt.address e)).toNat ∧
          (translate mr (UbExt.address e)).toNat + (UbExt.length e).toNat ≤
            mr.hbmOffset.toNat + mr.length.toNat := by
      refine ⟨fun contained => contained _ ((forwarded _).mpr ⟨reaches, rfl⟩), ?_⟩
      intro bounds g passes
      rw [((forwarded g).mp passes).2]
      exact bounds
    rw [out, toNat_translate_of_le above]
    simp only [reaches, forall_const, NoWrap]
    omega
  · have nothing : Contained mr (step (step s m).1 e).2 :=
      fun g passes => (reaches ((forwarded g).mp passes).1).elim
    simp [nothing, reaches]

def sampleTable : State :=
  (init fun _ => default).run [.signal (registration 0xBB 2)]

theorem contained_writeExt :
    Contained (sampleTable.table 5) (step (step sampleTable writeMeta).1 writeExt).2 :=
  (contained_iff sampleTable rfl (by decide) rfl rfl (by decide)).mpr
    (fun _ => by decide)

/-- Two bytes at the last address: the end wraps around to 1, below the region's end. -/
def wrappingExt : Flit :=
  { lane0 := 0xFFFFFFFFFFFFFFFF, lane1 := 0x200000005, lane2 := 0xBB, eop := true }

theorem not_contained_wrappingExt :
    ¬ Contained (sampleTable.table 5) (step (step sampleTable writeMeta).1 wrappingExt).2 := by
  intro contained
  have bounds := contained (setAddress 0xFFFFFFFFFFFFEFFF wrappingExt) (by decide)
  revert bounds
  decide

end OpenURMA.MrTable
