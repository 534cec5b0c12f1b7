import OpenURMA.Transport.Transparency

/-!
# Out-of-order packets on the receive path

A packet that arrives ahead of its turn is parked, or lost if it is eight or more ahead.
When its turn comes, the call that releases it also releases the packet before it, and one
of the two metadata flits is overwritten on the port.  So the path delivers the packets of
a sender in sequence only if they arrive in sequence.
-/

namespace OpenURMA

open Library TpChannelTx Function ReceivePath TpChannelRx Receiver Ports Packet List Nat
open PsnReorder.ChanReo (slots_setSlot_other slots_setSlot_same)
open TpChannelRx.Slots (along_cons_sent receiver receiver_of_held)

variable {j : Fin 8}

namespace PsnReorder

variable {s : State} {p : Packet} {ext : Flit}

/-- A flit other than metadata puts at most itself on the port and moves no base. -/
theorem step_inner (s : State) {f : Flit} (inner : f.sop = false) :
    ((step s f).2 1 = none ∨ (step s f).2 1 = some f) ∧
      ∀ c, ((step s f).1.rb c).basePsn = (s.rb c).basePsn := by
  rw [step, if_neg (by simp [inner])]
  split
  · refine ⟨.inr (by simp), fun c => ?_⟩
    dsimp only
    split <;> rfl
  · split
    · cases waiting (s.rb s.thisIdx) with
      | none =>
        refine ⟨.inr (by simp), fun c => ?_⟩
        dsimp only
        split <;> rfl
      | some j =>
        refine ⟨.inl rfl, fun c => ?_⟩
        dsimp only
        by_cases here : c = s.thisIdx
        · rw [here, update_self]
          rfl
        · rw [update_of_ne here]
    · exact ⟨.inl rfl, fun _ => rfl⟩

theorem run_inner (s : State) {flits : List Flit} (inner : ∀ f ∈ flits, f.sop = false) :
    (∀ f ∈ Ports.sent 1 (step.trace s flits), f.sop = false) ∧
      ∀ c, ((step.final s flits).rb c).basePsn = (s.rb c).basePsn := by
  induction flits generalizing s with
  | nil => simp
  | cons f flits ih =>
    obtain ⟨out, base⟩ := step_inner s (inner f (by simp))
    obtain ⟨later, bases⟩ := ih (step s f).1 fun g member => inner g (by simp [member])
    rw [Mealy.final_cons, Mealy.trace_cons, Ports.sent_cons]
    refine ⟨fun g member => ?_, fun c => (bases c).trans (base c)⟩
    rcases mem_append.mp member with here | member
    · rcases out with none | some
      · simp [none] at here
      · have same : g = f := by simpa [some] using here
        exact same ▸ inner f (by simp)
    · exact later g member

def parked (s : State) (p : Packet) : State where
  rb := update s.rb (bufferIndex p)
    (park (s.bufferOf p) (s.offsetOf p) p.head)
  thisIdx := bufferIndex p
  sawMeta := if (s.offsetOf p).toNat < 8 then true else s.sawMeta
  sawExt := false

theorem step_notNext (notNext : s.offsetOf p ≠ 0) :
    step s p.head = (parked s p, silent) := by
  rw [step, if_pos p.sop_head, stepMeta, placeMeta, if_neg (by simpa using notNext)]
  rfl

theorem run_notNext (notNext : s.offsetOf p ≠ 0) :
    (∀ f ∈ Ports.sent 1 (step.trace s p.flits), f.sop = false) ∧
      ∀ c, ((step.final s p.flits).rb c).basePsn = (s.rb c).basePsn := by
  obtain ⟨final, sent⟩ := run_of_silent (step_notNext notNext) p.rest 1
  obtain ⟨out, bases⟩ := run_inner (parked s p) p.sop_rest
  rw [flits, final, sent]
  refine ⟨out, fun c => (bases c).trans ?_⟩
  by_cases here : c = bufferIndex p
  · rw [here]
    simp only [parked, update_self]
    unfold park
    split <;> rfl
  · simp only [parked, update_of_ne here]

theorem run_far (shape : p.rest = [ext]) (unmarked : s.sawMeta = false)
    (far : 8 ≤ (s.offsetOf p).toNat) :
    step.final s p.flits = { s with thisIdx := bufferIndex p, sawExt := false } ∧
      Ports.sent 1 (step.trace s p.flits) = [] := by
  have notNext : s.offsetOf p ≠ 0 := by
    intro zero
    rw [zero] at far
    exact absurd far (by decide)
  have lost : parked s p =
      { s with thisIdx := bufferIndex p, sawExt := false } := by
    rw [parked, park, dif_neg (by omega), if_neg (by omega), update_eq_self]
  have inner : ext.sop = false := p.sop_rest ext (by simp [shape])
  have call : step { s with thisIdx := bufferIndex p, sawExt := false } ext =
      ({ s with thisIdx := bufferIndex p, sawExt := false }, silent) := by
    simp [step, inner, unmarked]
  obtain ⟨final, sent⟩ := run_of_silent (step_notNext notNext) p.rest 1
  rw [flits, final, sent, lost, shape]
  obtain ⟨finalExt, sentExt⟩ := run_of_silent call [] 1
  rw [finalExt, sentExt]
  exact ⟨rfl, rfl⟩

variable {c : ChanReo}

theorem waiting_eq_some (half : (c.slots j).validA = true ∧ (c.slots j).validB = false)
    (others : ∀ k ≠ j, (c.slots k).validA = (c.slots k).validB) : waiting c = some j := by
  unfold waiting
  cases found : (finRange 8).find? fun k => (c.slots k).validA && !(c.slots k).validB with
  | none =>
    have none := find?_eq_none.mp found j (mem_finRange j)
    simp [half] at none
  | some k =>
    have chosen := find?_some found
    by_contra different
    have same := others k fun equal => different (by rw [equal])
    simp [same] at chosen

theorem park_eq {off : U32} (here : off.toNat = j.val) (f : Flit) :
    park c off f = c.setSlot j { c.slots j with flitA := f, validA := true } := by
  have inside : off.toNat < 8 := here ▸ j.isLt
  have same : (⟨off.toNat, inside⟩ : Fin 8) = j := Fin.ext here
  rw [park, dif_pos inside, same]

theorem notNext_of_ahead (ahead : j ≠ 0) (inside : (s.offsetOf p).toNat = j.val) :
    s.offsetOf p ≠ 0 := by
  intro zero
  rw [zero] at inside
  exact ahead (Fin.ext inside.symm)

theorem parked_near (inside : (s.offsetOf p).toNat = j.val) :
    (parked s p).rb (parked s p).thisIdx = (s.bufferOf p).setSlot j
          { (s.bufferOf p).slots j with flitA := p.head, validA := true } ∧
      (parked s p).sawMeta = true := by
  simp only [parked, update_self, park_eq inside, inside, j.isLt, if_true, and_self]

theorem run_again (shape : p.rest = [ext]) (ahead : j ≠ 0)
    (inside : (s.offsetOf p).toNat = j.val) (settled : Settled (s.bufferOf p))
    (taken : ((s.bufferOf p).slots j).validA = true) :
    Ports.sent 1 (step.trace s p.flits) = [ext] := by
  obtain ⟨buffer, marked⟩ := parked_near inside
  have none : waiting ((parked s p).rb (parked s p).thisIdx) = none := by
    rw [buffer]
    refine waiting_of_settled fun k => ?_
    by_cases here : k = j
    · rw [here, ChanReo.slots_setSlot_same]
      exact taken.symm.trans (settled j)
    · rw [ChanReo.slots_setSlot_other _ here]
      exact settled k
  have inner := p.sop_rest
  have framed := p.eop_last
  rw [flits, (run_of_silent (step_notNext (notNext_of_ahead ahead inside)) p.rest 1).2]
  rw [shape] at inner framed ⊢
  exact (pass_rest marked rfl none inner framed.2).2

theorem run_park (shape : p.rest = [ext]) (ahead : j ≠ 0)
    (inside : (s.offsetOf p).toNat = j.val) (settled : Settled (s.bufferOf p))
    (vacant : ((s.bufferOf p).slots j).validA = false) :
    step.final s p.flits = {
        rb := update s.rb (bufferIndex p) ((s.bufferOf p).setSlot j ⟨p.head, ext, true, true⟩)
        thisIdx := bufferIndex p
        sawMeta := false
        sawExt := false } ∧
      Ports.sent 1 (step.trace s p.flits) = [] := by
  obtain ⟨buffer, marked⟩ := parked_near inside
  have some : waiting ((parked s p).rb (parked s p).thisIdx) = some j := by
    rw [buffer]
    refine waiting_eq_some ?_ fun k different => ?_
    · rw [ChanReo.slots_setSlot_same]
      exact ⟨rfl, (settled j).symm.trans vacant⟩
    · rw [ChanReo.slots_setSlot_other _ different]
      exact settled k
  have inner : ext.sop = false := p.sop_rest ext (by simp [shape])
  have call : step (parked s p) ext =
      ({ parked s p with
         rb := update (parked s p).rb (parked s p).thisIdx
           (attach ((parked s p).rb (parked s p).thisIdx) j ext)
         sawMeta := false }, silent) := by
    rw [step, if_neg (by simp [inner]), if_neg (by simp [parked]), if_pos marked, some]
  obtain ⟨final, sent⟩ :=
      run_of_silent (step_notNext (notNext_of_ahead ahead inside)) p.rest 1
  rw [flits, final, sent, shape]
  obtain ⟨finalExt, sentExt⟩ := run_of_silent call [] 1
  rw [finalExt, sentExt]
  refine ⟨?_, rfl⟩
  rw [buffer]
  simp only [parked, attach, ChanReo.setSlot, Mealy.final_nil, update_idem, update_self]

def Complete (c : ChanReo) : Prop :=
  ∀ j, (c.slots j).validA = true →
    (c.slots j).validB = true ∧ (c.slots j).flitB.sop = false

theorem complete_shiftLeft (complete : Complete c) : Complete (shiftLeft c) := by
  intro j
  simp only [shiftLeft]
  split
  · exact complete _
  · intro impossible
    cases impossible

theorem drainBody_complete {x : ChanReo × Ports Flit} (running : drainGuard x = true)
    (complete : Complete x.1) :
    Complete (drainBody x).1 ∧ ∃ g, (drainBody x).2 1 = some g ∧ g.sop = false := by
  obtain ⟨valid, inner⟩ := complete 0 running
  refine ⟨complete_shiftLeft complete, (x.1.slots 0).flitB, ?_, inner⟩
  simp [drainBody, valid]

theorem run_together (next : s.offsetOf p = 0) (complete : Complete (s.bufferOf p))
    (second : ((s.bufferOf p).slots 1).validA = true) :
    ∃ g, (Ports.sent 1 (step.trace s p.flits)).head? = some g ∧ g.sop = false := by
  have parked : park (s.bufferOf p) 0 p.head =
      (s.bufferOf p).setSlot 0 { (s.bufferOf p).slots 0 with flitA := p.head, validA := true } :=
    rfl
  have guard : drainGuard (park (s.bufferOf p) 0 p.head, silent) = true := by
    rw [drainGuard, parked, ChanReo.slots_setSlot_same]
  have shifted : (drainBody (park (s.bufferOf p) 0 p.head, silent)).1 =
      shiftLeft (s.bufferOf p) := by
    rw [parked]
    exact shiftLeft_setSlot ..
  have guardAgain :
      drainGuard (drainBody (park (s.bufferOf p) 0 p.head, silent)) = true := by
    rw [drainGuard, shifted]
    exact second
  have twice := drainBody_complete guardAgain (shifted ▸ complete_shiftLeft complete)
  have drained : ∃ g, (drain (park (s.bufferOf p) 0 p.head)).2 1 = some g ∧ g.sop = false := by
    rw [drain, whileUpTo, if_pos guard, whileUpTo, if_pos guardAgain]
    have kept : ∀ x, drainGuard x = true →
        (Complete x.1 ∧ ∃ g, x.2 1 = some g ∧ g.sop = false) →
        (Complete (drainBody x).1 ∧ ∃ g, (drainBody x).2 1 = some g ∧ g.sop = false) :=
      fun x running holds => drainBody_complete running holds.1
    exact (whileUpTo_invariant kept 6 twice).2
  have call : (step s p.head).2 = (drain (park (s.bufferOf p) 0 p.head)).2 := by
    rw [step, if_pos p.sop_head]
    change (placeMeta (s.bufferOf p) (UbMeta.psn.get p.head) p.head).2 = _
    rw [placeMeta, show offset (s.bufferOf p) (UbMeta.psn.get p.head) = 0 from next]
    rfl
  obtain ⟨g, out, inner⟩ := drained
  refine ⟨g, ?_, inner⟩
  rw [flits, Mealy.trace_cons, Ports.sent_cons, call, out]
  rfl

end PsnReorder

def inSequence (sender : Sender) (first n : ℕ) : List Flit :=
  ((range' first (n - first)).map sender.packet).flatMap flits

variable {sender : Sender}

section

variable {first n : ℕ}

theorem inSequence_cons (more : first < n) :
    inSequence sender first n = (sender.packet first).flits ++ inSequence sender (first + 1) n := by
  rw [inSequence, show n - first = n - (first + 1) + 1 by omega, range'_succ]
  rfl

theorem ne_inSequence {out : List Flit} (more : first < n)
    (inner : ∀ f ∈ out.head?, f.sop = false) : out ≠ inSequence sender first n := by
  intro equal
  rw [inSequence_cons more, flits] at equal
  have notSop := inner (sender.packet first).head (by rw [equal]; rfl)
  rw [(sender.packet first).sop_head] at notSop
  cases notSop

/-- The output starts with a flit other than metadata. -/
def Scrambled (out : List Flit) : Prop := ∃ g, out.head? = some g ∧ g.sop = false

theorem Scrambled.ne_inSequence {out : List Flit} (scrambled : Scrambled out) (more : first < n)
    (rest : List Flit) : out ++ rest ≠ inSequence sender first n := by
  obtain ⟨g, head, inner⟩ := scrambled
  refine OpenURMA.ne_inSequence more fun f start => ?_
  rw [head?_append, head] at start
  cases start
  exact inner

end

/-- Not more than half the PSN space behind, and less than 64 ahead of the expected
number. -/
def TpChannelRx.Slots.InReach (slots : Slots) (a : Arrival) : Prop :=
  (slots.receiver a.source a.number).next ≤ a.number + 2 ^ 23 ∧
    a.number < (slots.receiver a.source a.number).next + 64
deriving Decidable

structure Holds (sender : Sender) (path : ReceivePath) (slots : Slots)
    (r : Receiver 64) : Prop where
  represents : Represents path.rx slots
  held : slots (TpChannelRx.idx sender.cna) = some (sender.cna, r)

variable {slots : Slots} {history : List ℕ}

section

variable {path : ReceivePath} {r : Receiver 64}
variable {y : ℕ}

theorem Holds.inReach (holds : Holds sender path slots r)
    (reach : slots.InReach (TpChannelRx.sent sender y)) :
    r.next ≤ y + 2 ^ 23 ∧ y < r.next + 64 := by
  unfold TpChannelRx.Slots.InReach at reach
  rw [source_sent, receiver_of_held holds.held] at reach
  exact reach

theorem close_of_inReach {a : Arrival} (reach : slots.InReach a) : slots.Close a := by
  obtain ⟨below, above⟩ := reach
  exact ⟨by omega, below⟩

section

variable (holds : Holds sender path slots r) (reach : slots.InReach (TpChannelRx.sent sender y))
include holds reach

theorem Holds.take :
    Holds sender (path.take (sender.packet y)) (slots.arrive sender.cna y) (r.arrive y) ∧
      TpChannelRx.forwarded path.rx (sender.packet y) =
        if (r.verdict y).accepts then (sender.packet y).flits else [] := by
  have represents := represents_deliver holds.represents
    (TpChannelRx.sent sender y) (close_of_inReach reach)
  have forwarded := forwarded_spec holds.represents
    (TpChannelRx.sent sender y) (close_of_inReach reach)
  have held := slots.arrive_held sender.cna y
  rw [source_sent] at represents forwarded
  rw [receiver_of_held holds.held] at forwarded held
  exact ⟨⟨represents, held⟩, forwarded⟩

theorem Holds.take_refused (before : y < r.next) :
    Holds sender (path.take (sender.packet y)) (slots.arrive sender.cna y) r ∧
      path.passed (sender.packet y) = [] ∧
      (path.take (sender.packet y)).reorder = path.reorder := by
  obtain ⟨holds', forwarded⟩ := holds.take reach
  rw [arrive_refused (.inl before)] at holds'
  rw [verdict_behind before] at forwarded
  exact ⟨holds', by rw [passed, forwarded]; rfl, by rw [ReceivePath.take, forwarded]; rfl⟩

theorem Holds.take_accepted (notBefore : r.next ≤ y) :
    Holds sender (path.take (sender.packet y)) (slots.arrive sender.cna y) (r.arrive y) ∧
      path.passed (sender.packet y) =
        Ports.sent 1 (PsnReorder.step.trace path.reorder (sender.packet y).flits) ∧
      (path.take (sender.packet y)).reorder =
        PsnReorder.step.final path.reorder (sender.packet y).flits := by
  obtain ⟨holds', forwarded⟩ := holds.take reach
  have accepts : (r.verdict y).accepts = true := by
    rcases lt_or_eq_of_le notBefore with above | rfl
    · rw [verdict_ahead above (holds.inReach reach).2]
      rfl
    · rw [verdict_next]
      rfl
  rw [if_pos accepts] at forwarded
  rw [passed, forwarded]
  exact ⟨holds', rfl, by rw [ReceivePath.take, forwarded]⟩

end

theorem bufferIndex_packet (sender : Sender) (y : ℕ) :
    PsnReorder.bufferIndex (sender.packet y) = PsnReorder.idx sender.cna :=
  congrArg PsnReorder.idx (sender.scna_packet y)

theorem bufferOf_packet (s : PsnReorder.State) (sender : Sender) (y : ℕ) :
    s.bufferOf (sender.packet y) = s.rb (PsnReorder.idx sender.cna) := by
  rw [PsnReorder.State.bufferOf, bufferIndex_packet]

theorem isEmpty_rest (two : ∀ m, (sender.posted m).rest.length = 1) (y : ℕ) :
    (sender.packet y).rest.isEmpty = false := by
  rw [isEmpty_eq_false_iff, ← length_pos_iff, show (sender.packet y).rest.length = 1 from two y]
  exact one_pos

theorem offsetOf_packet {s : PsnReorder.State} {base : ℕ}
    (expects : (s.rb (PsnReorder.idx sender.cna)).basePsn.toNat = base % 2 ^ 24) :
    (s.offsetOf (sender.packet y)).toNat = (2 ^ 24 - base % 2 ^ 24 + y) % 2 ^ 24 := by
  rw [PsnReorder.State.offsetOf, bufferOf_packet]
  exact toNat_psnDiff (sender.psn_packet y) expects

theorem notNext_packet {s : PsnReorder.State} {base : ℕ}
    (expects : (s.rb (PsnReorder.idx sender.cna)).basePsn.toNat = base % 2 ^ 24) (above : base < y)
    (small : y < 2 ^ 24) : s.offsetOf (sender.packet y) ≠ 0 := by
  intro zero
  have distance := offsetOf_packet (y := y) expects
  rw [zero] at distance
  change 0 = _ at distance
  omega

/-- The receiver has moved past a packet that the reorder buffer still waits for. -/
structure Lost (sender : Sender) (path : ReceivePath) (slots : Slots)
    (r : Receiver 64) (missing : ℕ) : Prop extends Holds sender path slots r where
  past : missing < r.next
  base : (path.reorder.rb (PsnReorder.idx sender.cna)).basePsn.toNat = missing % 2 ^ 24

theorem Lost.output {missing : ℕ} (lost : Lost sender path slots r missing)
    (bound : ∀ y ∈ history, y < 2 ^ 24)
    (reach : slots.Along TpChannelRx.Slots.InReach (history.map (TpChannelRx.sent sender))) :
    ∀ f ∈ path.output (history.map sender.packet), f.sop = false := by
  induction history generalizing path slots r with
  | nil =>
    intro f impossible
    cases impossible
  | cons y history ih =>
    obtain ⟨here, later⟩ := along_cons_sent.mp reach
    have rest : ∀ z ∈ history, z < 2 ^ 24 := fun z member => bound z (by simp [member])
    rw [map_cons, output_cons]
    intro f member
    by_cases before : y < r.next
    · obtain ⟨holds, passed, reorder⟩ := lost.toHolds.take_refused here before
      rw [passed] at member
      exact ih ⟨holds, lost.past, by rw [reorder]; exact lost.base⟩ rest later f member
    · obtain ⟨holds, passed, reorder⟩ := lost.toHolds.take_accepted here (by omega)
      have past := lost.past
      obtain ⟨inner, bases⟩ := PsnReorder.run_notNext
        (notNext_packet lost.base (by omega) (bound y (by simp)))
      rw [passed] at member
      rcases mem_append.mp member with now | member
      · exact inner f now
      · exact ih ⟨holds, past.trans_le (next_le_arrive r y),
          by rw [reorder, bases]; exact lost.base⟩ rest later f member

def ReceivePath.buffer (path : ReceivePath) (sender : Sender) : PsnReorder.ChanReo :=
  path.reorder.rb (PsnReorder.idx sender.cna)

/-- A buffer that expects `next` and in which complete packets of `got` are parked. -/
structure Clogged (c : PsnReorder.ChanReo) (next : ℕ) (got : Finset ℕ) : Prop where
  base : c.basePsn.toNat = next % 2 ^ 24
  settled : PsnReorder.Settled c
  complete : PsnReorder.Complete c
  first : (c.slots 0).validA = false
  known : ∀ j : Fin 8, (c.slots j).validA = true → next + j.val ∈ got

variable {c : PsnReorder.ChanReo} {got : Finset ℕ}

section

variable {next : ℕ} (clogged : Clogged c next got)
include clogged

theorem Clogged.mono {more : Finset ℕ} (subset : got ⊆ more) : Clogged c next more :=
  { clogged with known := fun j valid => subset (clogged.known j valid) }

theorem Clogged.setSlot (ahead : j ≠ 0)
    (member : next + j.val ∈ got) (head : Flit) {ext : Flit} (inner : ext.sop = false) :
    Clogged (c.setSlot j ⟨head, ext, true, true⟩) next got where
  base := clogged.base
  settled k := by
    by_cases here : k = j
    · rw [here, slots_setSlot_same]
    · rw [slots_setSlot_other _ here]
      exact clogged.settled k
  complete k := by
    by_cases here : k = j
    · rw [here, slots_setSlot_same]
      exact fun _ => ⟨rfl, inner⟩
    · rw [slots_setSlot_other _ here]
      exact clogged.complete k
  first := by
    rw [slots_setSlot_other _ (Ne.symm ahead)]
    exact clogged.first
  known k := by
    by_cases here : k = j
    · rw [here]
      exact fun _ => member
    · rw [slots_setSlot_other _ here]
      exact clogged.known k

theorem Clogged.shiftLeft (second : (c.slots 1).validA = false) :
    Clogged (PsnReorder.shiftLeft c) (next + 1) got where
  base := PsnReorder.toNat_basePsn_shiftLeft clogged.base
  settled := PsnReorder.settled_shiftLeft clogged.settled
  complete := PsnReorder.complete_shiftLeft clogged.complete
  first := second
  known j := by
    simp only [PsnReorder.shiftLeft]
    split
    · intro valid
      have member := clogged.known _ valid
      rwa [show next + 1 + j.val = next + (j.val + 1) by omega]
    · intro impossible
      cases impossible

end

structure Agreeing (sender : Sender) (path : ReceivePath) (slots : Slots)
    (r : Receiver 64) : Prop extends Holds sender path slots r where
  clogged : Clogged (path.buffer sender) r.next r.got
  unmarked : path.reorder.sawMeta = false

structure Jammed (sender : Sender) (path : ReceivePath) (slots : Slots)
    (r : Receiver 64) (n : ℕ) : Prop extends Agreeing sender path slots r where
  ahead : ∃ k ∈ r.got, r.next < k ∧ k < n

variable {n : ℕ}

theorem Jammed.take_behind (jammed : Jammed sender path slots r n)
    (reach : slots.InReach (TpChannelRx.sent sender y)) (before : y < r.next) :
    path.passed (sender.packet y) = [] ∧
      Jammed sender (path.take (sender.packet y)) (slots.arrive sender.cna y) r n := by
  obtain ⟨holds, passed, reorder⟩ := jammed.toHolds.take_refused reach before
  refine ⟨passed, ⟨holds, ?_, ?_⟩, jammed.ahead⟩
  · rw [ReceivePath.buffer, reorder]
    exact jammed.clogged
  · rw [reorder]
    exact jammed.unmarked

/-- A packet ahead of the expected number is parked or lost, or it is a repeat and its
extension flit leaves out of turn. -/
theorem Agreeing.take_ahead (agreeing : Agreeing sender path slots r)
    (two : ∀ m, (sender.posted m).rest.length = 1)
    (reach : slots.InReach (TpChannelRx.sent sender y)) (after : r.next < y) (bound : y < n) :
    Scrambled (path.passed (sender.packet y)) ∨ (path.passed (sender.packet y) = [] ∧
      Jammed sender (path.take (sender.packet y)) (slots.arrive sender.cna y) (r.arrive y) n) := by
  obtain ⟨holds, passed, reorder⟩ := agreeing.toHolds.take_accepted reach after.le
  have inside := (agreeing.toHolds.inReach reach).2
  have arrived : r.arrive y = r.mark y after inside := arrive_ahead after inside
  obtain ⟨ext, shape⟩ := length_eq_one_iff.mp (two y)
  change (sender.packet y).rest = [ext] at shape
  have inner : ext.sop = false := (sender.packet y).sop_rest ext (by simp [shape])
  have distance : (path.reorder.offsetOf (sender.packet y)).toNat = y - r.next := by
    rw [offsetOf_packet agreeing.clogged.base]
    omega
  have subset : r.got ⊆ (r.arrive y).got := by
    rw [arrived]
    exact Finset.subset_insert ..
  have ahead : ∃ k ∈ (r.arrive y).got, (r.arrive y).next < k ∧ k < n := by
    rw [arrived]
    exact ⟨y, Finset.mem_insert_self .., after, bound⟩
  have buffer := bufferOf_packet path.reorder sender y
  have clogged : Clogged (path.buffer sender) (r.arrive y).next (r.arrive y).got := by
    rw [show (r.arrive y).next = r.next by rw [arrived]; rfl]
    exact agreeing.clogged.mono subset
  rw [passed]
  by_cases far : 8 ≤ y - r.next
  · obtain ⟨final, sent⟩ := PsnReorder.run_far shape agreeing.unmarked (distance ▸ far)
    refine .inr ⟨sent, ⟨holds, ?_, ?_⟩, ahead⟩
    · rw [ReceivePath.buffer, reorder, final]
      exact clogged
    · rw [reorder, final]
      exact agreeing.unmarked
  · have settled : PsnReorder.Settled (path.reorder.bufferOf (sender.packet y)) := by
      rw [buffer]
      exact agreeing.clogged.settled
    obtain ⟨j, position⟩ : ∃ j : Fin 8, j.val = y - r.next := ⟨⟨y - r.next, by omega⟩, rfl⟩
    have notFirst : j ≠ 0 := by
      rintro rfl
      change 0 = _ at position
      omega
    rw [← position] at distance
    cases taken : ((path.reorder.bufferOf (sender.packet y)).slots j).validA with
    | true =>
      rw [PsnReorder.run_again shape notFirst distance settled taken]
      exact .inl ⟨ext, rfl, inner⟩
    | false =>
      obtain ⟨final, sent⟩ := PsnReorder.run_park shape notFirst distance settled taken
      refine .inr ⟨sent, ⟨holds, ?_, by rw [reorder, final]⟩, ahead⟩
      have member : (r.arrive y).next + j.val ∈ (r.arrive y).got := by
        rw [arrived, position]
        exact Finset.mem_insert.mpr (.inl (Nat.add_sub_cancel' after.le))
      have parked := clogged.setSlot notFirst member (sender.packet y).head inner
      rw [ReceivePath.buffer, reorder, final, buffer, bufferIndex_packet]
      simp only [update_self]
      exact parked

theorem Clogged.pass_next (clogged : Clogged (path.buffer sender) r.next r.got)
    (second : ((path.buffer sender).slots 1).validA = false) :
    PsnReorder.step.final path.reorder (sender.packet r.next).flits =
        PsnReorder.passed path.reorder (sender.packet r.next) ∧
      Ports.sent 1 (PsnReorder.step.trace path.reorder (sender.packet r.next).flits) =
        (sender.packet r.next).flits := by
  have buffer := bufferOf_packet path.reorder sender r.next
  have settled : PsnReorder.Settled (path.reorder.bufferOf (sender.packet r.next)) := by
    rw [buffer]
    exact clogged.settled
  refine PsnReorder.pass_packet ⟨?_, (settled 0).symm.trans ?_, ?_⟩ settled
  · apply BitVec.eq_of_toNat_eq
    change (path.reorder.offsetOf (sender.packet r.next)).toNat = 0
    rw [offsetOf_packet clogged.base]
    omega
  · rw [buffer]
    exact clogged.first
  · rw [buffer]
    exact second

section

variable (jammed : Jammed sender path slots r n)
include jammed

/-- The expected packet is released with the one parked behind it, or passed on; then the elements
still agree on what is next, unless the packet behind was lost. -/
theorem Jammed.take_next (two : ∀ m, (sender.posted m).rest.length = 1)
    (reach : slots.InReach (TpChannelRx.sent sender r.next)) :
    Scrambled (path.passed (sender.packet r.next)) ∨
      (path.passed (sender.packet r.next) = (sender.packet r.next).flits ∧
        (Lost sender (path.take (sender.packet r.next)) (slots.arrive sender.cna r.next)
            (r.arrive r.next) (r.next + 1) ∨
          ((r.arrive r.next).next = r.next + 1 ∧ Jammed sender (path.take (sender.packet r.next))
            (slots.arrive sender.cna r.next) (r.arrive r.next) n))) := by
  obtain ⟨holds, passed, reorder⟩ := jammed.toHolds.take_accepted reach le_rfl
  have buffer := bufferOf_packet path.reorder sender r.next
  rw [passed]
  cases second : ((path.buffer sender).slots 1).validA with
  | true =>
    have next : path.reorder.offsetOf (sender.packet r.next) = 0 := by
      apply BitVec.eq_of_toNat_eq
      rw [offsetOf_packet jammed.clogged.base]
      change _ = 0
      omega
    have complete : PsnReorder.Complete (path.reorder.bufferOf (sender.packet r.next)) := by
      rw [buffer]
      exact jammed.clogged.complete
    exact .inl (PsnReorder.run_together next complete (by rw [buffer]; exact second))
  | false =>
    obtain ⟨final, sent⟩ := jammed.clogged.pass_next second
    have shifted : (path.take (sender.packet r.next)).buffer sender =
        PsnReorder.shiftLeft (path.buffer sender) := by
      rw [ReceivePath.buffer, reorder, final, ← bufferIndex_packet sender r.next,
        PsnReorder.rb_passed, buffer]
      rfl
    have clogged := jammed.clogged.shiftLeft second
    rw [← shifted] at clogged
    refine .inr ⟨sent, ?_⟩
    by_cases lost : r.next + 1 ∈ r.got
    · refine .inl ⟨holds, ?_, clogged.base⟩
      rw [arrive_inOrder]
      change r.next + 1 < firstMissing (insert r.next r.got) (r.next + 1)
      rw [firstMissing_of_mem (Finset.mem_insert_of_mem lost)]
      exact le_firstMissing
    · have step : (r.arrive r.next).next = r.next + 1 := by
        rw [arrive_inOrder]
        exact firstMissing_of_notMem (by simpa using lost)
      have subset : r.got ⊆ (r.arrive r.next).got := by
        rw [arrive_inOrder]
        exact Finset.subset_insert ..
      refine .inr ⟨step, ⟨holds, ?_, ?_⟩, ?_⟩
      · rw [step]
        exact clogged.mono subset
      · rw [reorder, final]
        exact isEmpty_rest two r.next
      · obtain ⟨k, member, above, below⟩ := jammed.ahead
        have different : k ≠ r.next + 1 := fun same => lost (same ▸ member)
        exact ⟨k, subset member, by omega, below⟩

theorem Jammed.more : r.next + 1 < n := by
  obtain ⟨k, _, above, below⟩ := jammed.ahead
  omega

/-- Once something has been accepted ahead of its turn, the output goes wrong. -/
theorem Jammed.output (two : ∀ m, (sender.posted m).rest.length = 1) (psns : n ≤ 2 ^ 24)
    (bound : ∀ y ∈ history, y < n)
    (reach : slots.Along TpChannelRx.Slots.InReach (history.map (TpChannelRx.sent sender))) :
    path.output (history.map sender.packet) ≠ inSequence sender r.next n := by
  induction history generalizing path slots r with
  | nil =>
    refine ne_inSequence (lt_of_succ_lt jammed.more) fun f impossible => ?_
    cases impossible
  | cons y history ih =>
    have more : r.next < n := lt_of_succ_lt jammed.more
    obtain ⟨here, later⟩ := along_cons_sent.mp reach
    have rest : ∀ z ∈ history, z < n := fun z member => bound z (by simp [member])
    rw [map_cons, output_cons]
    rcases lt_trichotomy y r.next with before | rfl | after
    · obtain ⟨passed, still⟩ := jammed.take_behind here before
      rw [passed]
      exact ih still rest later
    · rcases jammed.take_next two here with wrong | ⟨passed, continued⟩
      · exact wrong.ne_inSequence more _
      · rw [passed, inSequence_cons more]
        intro equal
        have tail := append_cancel_left equal
        rcases continued with lost | ⟨step, still⟩
        · have inner := lost.output (fun z member => (rest z member).trans_le psns) later
          exact ne_inSequence jammed.more
            (fun f first => inner f (mem_of_mem_head? first)) tail
        · exact ih still rest later (by rw [step]; exact tail)
    · rcases jammed.toAgreeing.take_ahead two here after (bound y (by simp)) with
        wrong | ⟨passed, still⟩
      · exact wrong.ne_inSequence more _
      · have same : (r.arrive y).next = r.next := by
          rw [arrive_ahead after (jammed.toHolds.inReach here).2]
          rfl
        rw [passed, ← same]
        exact ih still rest later

end

theorem output_late (represents : Represents path.rx slots)
    (vacant : slots (TpChannelRx.idx sender.cna) = none)
    (base : (path.buffer sender).basePsn.toNat = 0) (late : y ≠ 0)
    (bound : ∀ z ∈ y :: history, z < 2 ^ 24)
    (reach : slots.Along TpChannelRx.Slots.InReach ((y :: history).map (TpChannelRx.sent sender))) :
    ∀ f ∈ path.output ((y :: history).map sender.packet), f.sop = false := by
  obtain ⟨here, later⟩ := along_cons_sent.mp reach
  have opened : slots.receiver sender.cna y = .opened 64 y := by
    rw [receiver, vacant]
  have forwarded := forwarded_spec represents _ (close_of_inReach here)
  have taken := represents_deliver represents _ (close_of_inReach here)
  have held := slots.arrive_held sender.cna y
  rw [source_sent] at forwarded taken
  change TpChannelRx.forwarded path.rx (sender.packet y) =
    if ((slots.receiver sender.cna y).verdict y).accepts then (sender.packet y).flits else []
    at forwarded
  rw [opened] at forwarded held
  rw [if_pos (by rw [show (Receiver.opened 64 y).verdict y = .inOrder from
    verdict_next _]; rfl)] at forwarded
  obtain ⟨inner, bases⟩ := PsnReorder.run_notNext
    (@notNext_packet sender y path.reorder 0 base (pos_of_ne_zero late) (bound y (by simp)))
  have lost : Lost sender (path.take (sender.packet y)) (slots.arrive sender.cna y)
      ((Receiver.opened 64 y).arrive y) 0 := by
    refine ⟨⟨taken, held⟩, ?_, ?_⟩
    · have forward := next_le_arrive (Receiver.opened 64 y) y
      exact lt_of_lt_of_le (pos_of_ne_zero late) forward
    · rw [ReceivePath.take, forwarded]
      exact (congrArg BitVec.toNat (bases _)).trans base
  rw [map_cons, output_cons, passed, forwarded]
  intro f member
  rcases mem_append.mp member with now | member
  · exact inner f now
  · exact lost.output (fun z inside => bound z (by simp [inside])) later f member

end

def alone (history : List ℕ) : List (Unit × ℕ) := history.map fun y => ((), y)

variable {path : ReceivePath} {e n : ℕ}

theorem arriving_alone (sender : Sender) (history : List ℕ) :
    arriving (fun _ : Unit => sender) (alone history) = history.map sender.packet := by
  simp [arriving, alone]

theorem countNew_alone (e : ℕ) : countNew (fun _ : Unit => e) ((), e) = fun _ => e + 1 := by
  funext i
  exact countNew_next

section

variable (inStep : InStep (fun _ : Unit => sender) path slots fun _ => e)
include inStep

section

variable (idle : path.reorder.sawMeta = false)
include idle

theorem InStep.agreeing {r : Receiver 64}
    (held : slots (TpChannelRx.idx sender.cna) = some (sender.cna, r)) :
    Agreeing sender path slots r ∧ r.next = e := by
  have next : r.next = e := by
    have window := (inStep.expects ()).window.1
    rwa [receiver_of_held held] at window
  have vacant : ∀ j, ((path.buffer sender).slots j).validA = false := fun j =>
    (inStep.empty _ j).1
  refine ⟨⟨⟨inStep.represents, held⟩, ?_, idle⟩, next⟩
  refine ⟨?_, inStep.empty.settled _, fun j valid => ?_, vacant 0, fun j valid => ?_⟩
  · rw [next]
    exact inStep.basePsn ()
  · rw [vacant j] at valid
    cases valid
  · rw [vacant j] at valid
    cases valid

variable (two : ∀ m, (sender.posted m).rest.length = 1)
include two

theorem InStep.unmarked {y : ℕ} (ordered : y = e ∨ (y < e ∧ e ≤ y + 2 ^ 23)) :
    (path.take (sender.packet y)).reorder.sawMeta = false := by
  rw [(inStep.reorder (i := ()) (sender.scna_packet y) (sender.psn_packet y) ordered).2]
  split
  · exact isEmpty_rest two y
  · exact idle

theorem InStep.output_tail {y : ℕ} (small : y < n) (ordered : y = e ∨ (y < e ∧ e ≤ y + 2 ^ 23))
    (output : path.output ((y :: history).map sender.packet) = inSequence sender e n) :
    ∃ e', countNew (fun _ : Unit => e) ((), y) = (fun _ => e') ∧
      InStep (fun _ : Unit => sender) (path.take (sender.packet y)) (slots.arrive sender.cna y)
        (fun _ => e') ∧ (path.take (sender.packet y)).reorder.sawMeta = false ∧
      (path.take (sender.packet y)).output (history.map sender.packet) =
        inSequence sender e' n := by
  have own := sender.scna_packet y
  have stamped := sender.psn_packet y
  have taken := inStep.take (i := ()) own stamped ordered fun _ _ _ => rfl
  have passed := (inStep.reorder (i := ()) own stamped ordered).1
  have unmarkedNext := inStep.unmarked idle two ordered
  rw [map_cons, output_cons] at output
  rcases ordered with rfl | ⟨before, _⟩
  · rw [if_pos rfl] at passed
    rw [passed, inSequence_cons small] at output
    rw [countNew_alone] at taken ⊢
    exact ⟨y + 1, rfl, taken, unmarkedNext, append_cancel_left output⟩
  · rw [if_neg before.ne] at passed
    rw [passed] at output
    have same : countNew (fun _ : Unit => e) ((), y) = fun _ => e := countNew_repeat before
    rw [same] at taken
    exact ⟨e, same, taken, unmarkedNext, output⟩

theorem InStep.inOrder_of_output (psns : n ≤ 2 ^ 24) (bound : ∀ y ∈ history, y < n)
    (reach : slots.Along TpChannelRx.Slots.InReach (history.map (TpChannelRx.sent sender)))
    (output : path.output (history.map sender.packet) = inSequence sender e n) :
    InOrder (fun _ : Unit => e) (alone history) := by
  induction history generalizing path slots e with
  | nil => trivial
  | cons y history ih =>
    obtain ⟨here, later⟩ := along_cons_sent.mp reach
    have rest : ∀ z ∈ history, z < n := fun z member => bound z (by simp [member])
    have small := bound y (by simp)
    -- the arrivals that keep the elements in step
    have continues : y = e ∨ (y < e ∧ e ≤ y + 2 ^ 23) →
        InOrder (fun _ : Unit => e) (alone (y :: history)) := by
      intro ordered
      obtain ⟨e', counts, taken, unmarkedNext, outputNext⟩ :=
          inStep.output_tail idle two small ordered output
      refine ⟨ordered, ?_⟩
      change InOrder (countNew (fun _ : Unit => e) ((), y)) (alone history)
      rw [counts]
      exact ih taken unmarkedNext rest later outputNext
    cases held : slots (TpChannelRx.idx sender.cna) with
    | none =>
      have start : e = 0 := (inStep.expects ()).vacant held
      by_cases first : y = 0
      · exact continues (.inl (first.trans start.symm))
      · have base : (path.buffer sender).basePsn.toNat = 0 := by
          have base := inStep.basePsn ()
          rwa [start] at base
        have inner := output_late inStep.represents held base first
          (fun z member => (bound z member).trans_le psns) reach
        exact (ne_inSequence (by omega)
          (fun f head => inner f (mem_of_mem_head? head)) output).elim
    | some entry =>
      have holder := (inStep.expects ()).own entry held
      have heldBy : slots (TpChannelRx.idx sender.cna) = some (sender.cna, entry.2) := by
        rw [held, ← holder]
      obtain ⟨agreeing, next⟩ := inStep.agreeing idle heldBy
      have reachHere := agreeing.toHolds.inReach here
      rw [next] at reachHere
      rcases lt_trichotomy y e with before | same | after
      · exact continues (.inr ⟨before, reachHere.1⟩)
      · exact continues (.inl same)
      · exfalso
        rw [map_cons, output_cons] at output
        rcases agreeing.take_ahead two here (next ▸ after) small with
          wrong | ⟨passed, jammed⟩
        · exact wrong.ne_inSequence (after.trans small) _ output
        · have same : (entry.2.arrive y).next = e := by
            rw [arrive_ahead (next ▸ after) (agreeing.toHolds.inReach here).2]
            exact next
          rw [passed, ← same] at output
          exact jammed.output two psns rest later output

end

end

theorem firstCopies_alone (ordered : InOrder (fun _ : Unit => e) (alone history))
    (complete : ∀ m, e ≤ m → m < n → m ∈ history) (bound : ∀ m ∈ history, m < n) :
    firstCopies (fun _ : Unit => e) (alone history) = alone (range' e (n - e)) := by
  induction history generalizing e with
  | nil =>
    have none : n - e = 0 := by
      by_contra more
      have impossible := complete e le_rfl (by omega)
      cases impossible
    rw [none]
    rfl
  | cons y history ih =>
    obtain ⟨here, later⟩ := ordered
    change InOrder (countNew (fun _ : Unit => e) ((), y)) (alone history) at later
    have rest : ∀ m ∈ history, m < n := fun m member => bound m (by simp [member])
    have small := bound y (by simp)
    change (if y = e then [((), y)] else []) ++
      firstCopies (countNew (fun _ : Unit => e) ((), y)) (alone history) = _
    rcases here with new | ⟨before, _⟩
    · change y = e at new
      subst new
      rw [countNew_alone] at later ⊢
      rw [if_pos rfl, ih later (fun m above below => ?_) rest,
        show n - y = n - (y + 1) + 1 by omega, range'_succ]
      · rfl
      · have member := complete m (by omega) below
        simp only [mem_cons] at member
        exact member.resolve_left (by omega)
    · change y < e at before
      have same : countNew (fun _ : Unit => e) ((), y) = fun _ => e :=
        if_neg (show ¬y = e by omega)
      rw [same] at later ⊢
      rw [if_neg (by omega), ih later (fun m above below => ?_) rest, nil_append]
      have member := complete m above below
      simp only [mem_cons] at member
      exact member.resolve_left (by omega)

/-- Packets of two flits, without losses, that arrive in sequence, with repeats of recent packets,
are delivered in sequence; among the runs whose arrivals the receiver can place, only these. -/
theorem delivered_in_sequence (sender : Sender) (two : ∀ m, (sender.posted m).rest.length = 1)
    (memory : Fin 16 → U32) (buffer : Fin 16 → Fin 8 → PsnReorder.Slot) (thisIdx : Fin 16)
    (n : ℕ) (history : List ℕ) (lossFree : ∀ m, m ∈ history ↔ m < n) :
    (InOrder (fun _ : Unit => 0) (alone history) →
        (ReceivePath.init memory buffer thisIdx).output (history.map sender.packet) =
          inSequence sender 0 n) ∧
      (n ≤ 2 ^ 24 → TpChannelRx.Slots.empty.Along TpChannelRx.Slots.InReach
          (history.map (TpChannelRx.sent sender)) →
        (ReceivePath.init memory buffer thisIdx).output (history.map sender.packet) =
          inSequence sender 0 n → InOrder (fun _ : Unit => 0) (alone history)) := by
  have start := inStep_init (fun _ : Unit => sender) memory buffer thisIdx
  constructor
  · intro ordered
    have output := (start.run (fun _ _ _ => rfl) ordered).1
    rw [firstCopies_alone ordered (fun m _ below => (lossFree m).mpr below)
      (fun m member => (lossFree m).mp member), arriving_alone, arriving_alone] at output
    exact output
  · intro psns reach output
    exact start.inOrder_of_output rfl two psns (fun y member => (lossFree y).mp member) reach
      output

/-- Repeats of packets that have been passed on do no harm. -/
theorem delivered_in_sequence_repeat : (ReceivePath.init (fun _ => 0) (fun _ _ => default) 0).output
        ([0, 1, 0, 2].map (Sender.plain 3).packet) = inSequence (.plain 3) 0 3 :=
  (delivered_in_sequence (.plain 3) (fun _ => rfl) _ _ _ 3 [0, 1, 0, 2]
    (fun m => by simp; omega)).1 (by decide)

/-- Packet 2 overtakes packet 1: the metadata flits of both are lost. -/
theorem not_delivered_in_sequence_overtaken :
    TpChannelRx.Slots.empty.Along TpChannelRx.Slots.InReach
        ([0, 2, 1].map (TpChannelRx.sent (.plain 3))) ∧
      (ReceivePath.init (fun _ => 0) (fun _ _ => default) 0).output
        ([0, 2, 1].map (Sender.plain 3).packet) ≠ inSequence (.plain 3) 0 3 := by
  decide +kernel

end OpenURMA
