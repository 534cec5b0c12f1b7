import OpenURMA.Transport.Window

/-!
# `UB_PSN_Reorder`

The reorder buffer parks up to eight packets per source, each as a metadata and an
extension flit.  A packet in its turn releases itself and the packets parked right behind
it in one handler call, although the call can put only one flit on the output port.
-/

namespace OpenURMA.PsnReorder

open Library Function Ports

structure Slot where
  flitA : Flit
  flitB : Flit
  validA : Bool
  validB : Bool
  deriving DecidableEq, Inhabited

structure ChanReo where
  slots : Fin 8 → Slot
  basePsn : U32

section

variable (c : ChanReo)

def ChanReo.setSlot (j : Fin 8) (slot : Slot) : ChanReo :=
  { c with slots := update c.slots j slot }

@[simp] theorem ChanReo.slots_setSlot_same (j : Fin 8) (slot : Slot) :
    (c.setSlot j slot).slots j = slot := update_self ..

theorem ChanReo.slots_setSlot_other {j k : Fin 8} (different : k ≠ j)
    (slot : Slot) : (c.setSlot j slot).slots k = c.slots k := update_of_ne different ..

structure State where
  rb : Fin 16 → ChanReo
  thisIdx : Fin 16
  sawMeta : Bool
  sawExt : Bool

/-- `.init` clears the valid marks; the flits and `this_idx` are not initialised. -/
def init (memory : Fin 16 → Fin 8 → Slot) (thisIdx : Fin 16) : State where
  rb i :=
    { slots := fun j => { memory i j with validA := false, validB := false }
      basePsn := 0 }
  thisIdx := thisIdx
  sawMeta := false
  sawExt := false

abbrev idx (scna : U32) : Fin 16 := TpChannelRx.idx scna

def offset (psn : U32) : U32 := (psn - c.basePsn) &&& 0xFFFFFF

def park (off : U32) (f : Flit) : ChanReo :=
  if inside : off.toNat < 8 then
    c.setSlot ⟨off.toNat, inside⟩ { c.slots ⟨off.toNat, inside⟩ with flitA := f, validA := true }
  else c

def shiftLeft : ChanReo where
  slots j :=
    if inside : j.val + 1 < 8 then c.slots ⟨j.val + 1, inside⟩
    else { c.slots j with validA := false, validB := false }
  basePsn := (c.basePsn + 1) &&& 0xFFFFFF

def drainGuard (x : ChanReo × Ports Flit) : Bool := (x.1.slots 0).validA

/-- Release the first slot.  The extension flit replaces the metadata flit on the port. -/
def drainBody (x : ChanReo × Ports Flit) : ChanReo × Ports Flit :=
  let slot := x.1.slots 0
  let out := put 1 slot.flitA x.2
  (shiftLeft x.1, if slot.validB then put 1 slot.flitB out else out)

/-- Release the slots from the first one on.  Each round shifts an invalid slot in, so the
loop ends within 8 rounds. -/
def drain : ChanReo × Ports Flit :=
  whileUpTo drainGuard drainBody 8 (c, silent)

/-- The buffer of the source and the output after a metadata flit. -/
def placeMeta (psn : U32) (f : Flit) : ChanReo × Ports Flit :=
  if offset c psn == 0 then drain (park c (offset c psn) f)
  else (park c (offset c psn) f, silent)

def stepMeta (s : State) (f : Flit) : State × Ports Flit :=
  let i := idx (UbMeta.scna.get f)
  let psn := UbMeta.psn.get f
  let placed := placeMeta (s.rb i) psn f
  ({ rb := update s.rb i placed.1
     thisIdx := i
     sawMeta := if (offset (s.rb i) psn).toNat < 8 then true else s.sawMeta
     sawExt := false }, placed.2)

/-- The first slot that has its metadata but no extension flit. -/
def waiting : Option (Fin 8) :=
  (List.finRange 8).find? fun j => (c.slots j).validA && !(c.slots j).validB

def attach (j : Fin 8) (f : Flit) : ChanReo :=
  c.setSlot j { c.slots j with flitB := f, validB := true }

def clearMarks (s : State) : State := { s with sawMeta := false, sawExt := false }

def step : Mealy State Flit (Ports Flit) := fun s f =>
  if f.sop then stepMeta s f
  else if s.sawMeta && s.sawExt then
    (if f.eop then clearMarks s else s, emit 1 f)
  else if s.sawMeta then
    match waiting (s.rb s.thisIdx) with
    | some j =>
      ({ s with
         rb := update s.rb s.thisIdx (attach (s.rb s.thisIdx) j f)
         sawMeta := false }, silent)
    | none =>
      (if f.eop then clearMarks s else { s with sawExt := true }, emit 1 f)
  else (s, silent)

theorem validA_iterate (x : ChanReo × Ports Flit) (round : ℕ) (j : Fin 8)
    (late : 8 ≤ j.val + round) : ((drainBody^[round] x).1.slots j).validA = false := by
  induction round generalizing j with
  | zero => omega
  | succ round ih =>
    rw [iterate_succ_apply']
    simp only [drainBody, shiftLeft]
    split
    · exact ih _ (by simp only; omega)
    · rfl

theorem drain_runs : ∃ rounds ≤ 8, Runs drainGuard drainBody (c, silent) rounds (drain c) := by
  have last := validA_iterate (c, silent) 8 0 (Nat.le_add_left 8 _)
  have stopped : drainGuard (drainBody^[8] (c, silent)) = false := by
    rw [drainGuard, last]
  obtain ⟨rounds, bound, final, runs⟩ := Runs.exists_of_stopped stopped
  rw [drain, Runs.whileUpTo_eq runs bound]
  exact ⟨rounds, bound, runs⟩

abbrev bufferIndex (p : Packet) : Fin 16 := idx (UbMeta.scna.get p.head)

abbrev State.bufferOf (s : State) (p : Packet) : ChanReo := s.rb (bufferIndex p)

abbrev State.offsetOf (s : State) (p : Packet) : U32 :=
  offset (s.bufferOf p) (UbMeta.psn.get p.head)

def Settled : Prop := ∀ j, (c.slots j).validA = (c.slots j).validB

end

variable {c : ChanReo}

theorem settled_shiftLeft (settled : Settled c) : Settled (shiftLeft c) := by
  intro j
  simp only [shiftLeft]
  split
  · exact settled _
  · rfl

theorem waiting_of_settled (settled : Settled c) : waiting c = none := by
  rw [waiting, List.find?_eq_none]
  intro j _
  simp [settled j]

structure InTurn (c : ChanReo) (psn : U32) : Prop where
  next : offset c psn = 0
  first : (c.slots 0).validB = false
  second : (c.slots 1).validA = false

theorem shiftLeft_setSlot (c : ChanReo) (slot : Slot) :
    shiftLeft (c.setSlot 0 slot) = shiftLeft c := by
  unfold shiftLeft
  congr 1
  funext j
  split
  · exact c.slots_setSlot_other (Fin.ne_of_val_ne (Nat.succ_ne_zero _)) slot
  · next outside =>
    rw [c.slots_setSlot_other (by rintro rfl; simp at outside) slot]

theorem placeMeta_inTurn {psn : U32} (inTurn : InTurn c psn) (f : Flit) :
    placeMeta c psn f = (shiftLeft c, emit 1 f) := by
  have parked : park c 0 f = c.setSlot 0 { c.slots 0 with flitA := f, validA := true } := rfl
  have body : drainBody (park c 0 f, silent) = (shiftLeft c, emit 1 f) := by
    rw [parked, drainBody, shiftLeft_setSlot]
    simp [inTurn.first, emit]
  have runs : Runs drainGuard drainBody (park c 0 f, silent) 1
      (shiftLeft c, emit 1 f) := by
    refine Runs.succ ?_ ?_
    · rw [drainGuard, parked, ChanReo.slots_setSlot_same]
    · rw [body]
      exact Runs.of_stopped inTurn.second
  rw [placeMeta, inTurn.next, if_pos (by rfl), drain, runs.whileUpTo_eq (by omega)]

def passed (s : State) (p : Packet) : State where
  rb := update s.rb (bufferIndex p)
    (shiftLeft (s.bufferOf p))
  thisIdx := bufferIndex p
  sawMeta := p.rest.isEmpty
  sawExt := false

@[simp] theorem rb_passed (s : State) (p : Packet) :
    (passed s p).rb (bufferIndex p) = shiftLeft (s.bufferOf p) := update_self ..

theorem rb_passed_other (s : State) (p : Packet) {c : Fin 16}
    (different : c ≠ bufferIndex p) : (passed s p).rb c = s.rb c :=
  update_of_ne different ..

def Empty (s : State) : Prop :=
  ∀ c j, ((s.rb c).slots j).validA = false ∧ ((s.rb c).slots j).validB = false

theorem Empty.settled {s : State} (empty : Empty s) (c : Fin 16) : Settled (s.rb c) := fun j => by
  rw [(empty c j).1, (empty c j).2]

theorem Empty.passed {s : State} (empty : Empty s) (p : Packet) : Empty (passed s p) := by
  intro c j
  by_cases here : c = bufferIndex p
  · rw [here, rb_passed, shiftLeft]
    dsimp only
    split
    · exact empty _ _
    · exact ⟨rfl, rfl⟩
  · rw [rb_passed_other s p here]
    exact empty c j

theorem toNat_basePsn_shiftLeft {n : ℕ} (base : c.basePsn.toNat = n % 2 ^ 24) :
    (shiftLeft c).basePsn.toNat = (n + 1) % 2 ^ 24 := by
  change ((c.basePsn + 1) &&& 0xFFFFFF).toNat = _
  rw [TpChannelRx.toNat_and_psnMask, BitVec.toNat_add, base]
  change (n % 2 ^ 24 + 1) % 2 ^ 32 % 2 ^ 24 = _
  omega

variable {s : State}

theorem pass_rest {flits : List Flit} (marked : s.sawMeta = true) (start : s.sawExt = false)
    (none : waiting (s.rb s.thisIdx) = none) (inner : ∀ f ∈ flits, f.sop = false)
    (framed : EopLast flits) :
    step.final s flits = clearMarks s ∧ Ports.sent 1 (step.trace s flits) = flits := by
  cases flits with
  | nil => exact framed.elim
  | cons e flits =>
    have call : step s e = (if e.eop then clearMarks s else { s with sawExt := true },
        emit 1 e) := by
      simp [step, inner e (by simp), marked, start, none]
    obtain ⟨final, sent⟩ := run_of_emit call flits
    rw [final, sent]
    cases flits with
    | nil =>
      have last : e.eop = true := framed
      simp [last]
    | cons f flits =>
      have streams : Streams step { s with sawExt := true } (clearMarks s) 1 :=
        ⟨fun g notSop notEop => by simp [step, notSop, notEop, marked],
          fun g notSop eop => by simp [step, notSop, eop, marked, clearMarks]⟩
      have run := streams.run (f :: flits) (fun g member => inner g (by simp [member]))
        framed.2
      simp only [framed.1, Bool.false_eq_true, if_false, run, sent_map_emit, and_self]

theorem pass_packet {p : Packet} (inTurn : InTurn (s.bufferOf p) (UbMeta.psn.get p.head))
    (settled : Settled (s.bufferOf p)) :
    step.final s p.flits = passed s p ∧ Ports.sent 1 (step.trace s p.flits) = p.flits := by
  have call : step s p.head = ({ passed s p with sawMeta := true }, emit 1 p.head) := by
    rw [step, if_pos p.sop_head, stepMeta, placeMeta_inTurn inTurn, inTurn.next]
    rfl
  obtain ⟨final, sent⟩ := run_of_emit call p.rest
  rw [Packet.flits, final, sent]
  cases rest : p.rest with
  | nil => exact ⟨by simp [passed, rest], rfl⟩
  | cons e flits =>
    have none : waiting ((passed s p).rb (bufferIndex p)) = none := by
      rw [rb_passed]
      exact waiting_of_settled (settled_shiftLeft settled)
    have framed := p.eop_last
    have inner := p.sop_rest
    rw [rest] at framed inner
    obtain ⟨finalRest, sentRest⟩ :=
        pass_rest (s := { passed s p with sawMeta := true }) rfl rfl none inner framed.2
    rw [finalRest, sentRest]
    exact ⟨by simp [clearMarks, passed, rest], rfl⟩

end OpenURMA.PsnReorder
