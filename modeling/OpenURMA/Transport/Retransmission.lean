import OpenURMA.Transport.SendPath
import OpenURMA.Transport.TransmitPath

/-!
# Retransmission

A packet is to be sent again as it was sent first, with the retry bit set, and after a timeout every
packet that is not acknowledged. The buffer puts out at most one flit in a call and forgets about a
retransmission when the call is over. A packet has at least two flits, so that no packet is ever
repeated as a whole.
-/

namespace OpenURMA.RetransBuffer

open Library Ports List Option

variable {dest : U32}

def isTpsack (ev : Flit) : Bool := kind ev == tpopTpsack.setWidth 32

def isRto (ev : Flit) : Bool := kind ev == kindRto

def again (p : Packet) : List Flit := UbMeta.retry.set true p.head :: p.rest

def offer (call : Option Flit × Option (Event dest)) : Offer := ⟨call.1, call.2.map (·.flit)⟩

def next (point : State × Record) (call : Option Flit × Option (Event dest)) : State × Record :=
  ((step point.1 (offer call)).1, point.2.call call)

/-- Packets to one destination, each with a metadata and an extension flit, and events for that
destination. -/
structure Run (dest : U32) where
  memory : Fin 16 → Fin 8 → Slot
  packets : List Packet
  extended : ∀ p ∈ packets, p.rest ≠ []
  stamped : Stamped dest 0 false (packets.flatMap Packet.flits)
  calls : List (Option Flit × Option (Event dest))
  taken : calls.filterMap (·.1) <+: packets.flatMap Packet.flits
  named : ∀ call ∈ calls, ∀ e ∈ call.2, rcna e.flit = dest

namespace Run

variable (run : Run dest)

/-- The reliable packets of which the first flit has been passed on and that are not
acknowledged. -/
def unacked (r : Record) : List Packet :=
  ((run.packets.filter fun p => reliable p.head).take r.sent.length).drop r.acked

def answer (call : Option Flit × Option (Event dest)) (idle : ℕ) : List Offer :=
  offer call :: replicate idle ⟨none, none⟩

/-- What a call puts out for its TPSACK or RTO event, also in later idle calls, are whole packets,
and for an RTO event all unacknowledged ones. The flit of the call is passed on besides. -/
def Repeats (point : State × Record) (call : Option Flit × Option (Event dest)) : Prop :=
  ∀ e ∈ call.2, isTpsack e.flit = true ∨ isRto e.flit = true →
    ∃ (idle : ℕ) (resent : List Packet) (before after : List Flit),
      (∀ p ∈ resent, p ∈ run.unacked point.2) ∧
      (isRto e.flit = true → ∀ p ∈ run.unacked point.2, p ∈ resent) ∧
      (step.final point.1 (answer call idle)).totalRetransmits =
        point.1.totalRetransmits + BitVec.ofNat 64 resent.length ∧
      Ports.sent 1 (step.trace point.1 (answer call idle)) = before ++ call.1.toList ++ after ∧
      before ++ after = resent.flatMap again

/-- The event asks for no packet: a TPSACK has every stored packet from its PSN on in its bitmap,
unless that was sent again before, and an RTO event finds no packet stored or unacknowledged. -/
def Unasked (point : State × Record) (call : Option Flit × Option (Event dest)) : Prop :=
  ∀ e ∈ call.2,
    (isTpsack e.flit = true → ∀ j : Fin 8,
      (offset (apsn e.flit) (point.1.tx (idx dest)).basePsn).toNat ≤ j →
      ((point.1.tx (idx dest)).slots j).validA = true →
      (e.flit.get 3).getLsbD
          (j - (offset (apsn e.flit) (point.1.tx (idx dest)).basePsn).toNat) = true ∨
        ((point.1.tx (idx dest)).slots j).alreadyRetransmitted = true) ∧
    (isRto e.flit = true → (∀ j : Fin 8, ((point.1.tx (idx dest)).slots j).validA = false) ∧
      run.unacked point.2 = [])

end Run

section

variable (s : State) (call : Option Flit × Option (Event dest)) (idle : ℕ)

theorem final_idle : step.final s (replicate idle ⟨none, none⟩) = s := by
  induction idle with
  | zero => rfl
  | succ idle ih => exact ih

theorem sent_idle : Ports.sent 1 (step.trace s (replicate idle ⟨none, none⟩)) = [] := by
  induction idle with
  | zero => rfl
  | succ idle ih => exact ih

theorem final_answer : step.final s (Run.answer call idle) = (step s (offer call)).1 :=
  final_idle _ idle

theorem sent_answer : Ports.sent 1 (step.trace s (Run.answer call idle)) =
    ((step s (offer call)).2 1).toList := by
  rw [Run.answer, Mealy.trace_cons, Ports.sent_cons, sent_idle, append_nil]

end

section

variable (s : State)

theorem totalRetransmits_takeFlit (f : Flit) (out : Ports Flit) :
    (takeFlit s f out).1.totalRetransmits = s.totalRetransmits := by
  unfold takeFlit
  split
  · split <;> rfl
  · split
    · cases s.curIdx <;> rfl
    · rfl

theorem takeEvent_tpsack {ev : Flit} (tpsack : isTpsack ev = true) (named : rcna ev = dest) :
    missing (s.tx (idx dest)) (apsn ev) (ev.get 3) = none ∧ takeEvent s ev = (s, silent) ∨
      missing (s.tx (idx dest)) (apsn ev) (ev.get 3) ≠ none ∧
        (takeEvent s ev).1.totalRetransmits = s.totalRetransmits + 1 := by
  subst named
  have other : ¬(kind ev == tpopTpack.setWidth 32) = true := by
    rw [beq_iff_eq.mp tpsack]
    decide
  simp only [takeEvent, if_neg other]
  rw [if_pos (show (kind ev == tpopTpsack.setWidth 32) = true from tpsack)]
  cases missing (s.tx (idx (rcna ev))) (apsn ev) (ev.get 3) with
  | none => exact .inl ⟨rfl, rfl⟩
  | some j => exact .inr ⟨some_ne_none j, rfl⟩

theorem takeEvent_rto {ev : Flit} (rto : isRto ev = true) (named : rcna ev = dest) :
    (∀ j, ((s.tx (idx dest)).slots j).validA = false) ∧ takeEvent s ev = (s, silent) ∨
      (∃ j, ((s.tx (idx dest)).slots j).validA = true) ∧
        (takeEvent s ev).1.totalRetransmits = s.totalRetransmits + 1 := by
  subst named
  have notTpack : ¬(kind ev == tpopTpack.setWidth 32) = true := by
    rw [beq_iff_eq.mp rto]
    decide
  have notTpsack : ¬(kind ev == tpopTpsack.setWidth 32) = true := by
    rw [beq_iff_eq.mp rto]
    decide
  simp only [takeEvent, if_neg notTpack, if_neg notTpsack]
  rw [if_pos (show (kind ev == kindRto) = true from rto)]
  cases place : Fin.find? fun j => ((s.tx (idx (rcna ev))).slots j).validA with
  | none => exact .inl ⟨fun j => by simpa using Fin.find?_eq_none_iff.mp place j, rfl⟩
  | some j => exact .inr ⟨⟨j, (Fin.find?_eq_some_iff.mp place).1⟩, rfl⟩

theorem missing_eq_none_iff {c : ChanRtx} {psn : U32} {bitmap : U64} :
    missing c psn bitmap = none ↔ ∀ j : Fin 8, (offset psn c.basePsn).toNat ≤ j →
      (c.slots j).validA = true → bitmap.getLsbD (j - (offset psn c.basePsn).toNat) = true ∨
          (c.slots j).alreadyRetransmitted = true := by
  rw [missing, Fin.find?_eq_none_iff]
  refine forall_congr' fun j => ?_
  cases bitmap.getLsbD (j - (offset psn c.basePsn).toNat) <;> cases (c.slots j).validA <;>
    cases (c.slots j).alreadyRetransmitted <;> simp

end

theorem resent_eq_nil {resent : List Packet} (extended : ∀ p ∈ resent, p.rest ≠ [])
    (few : (resent.flatMap again).length ≤ 1) : resent = [] := by
  cases resent with
  | nil => rfl
  | cons p resent =>
    have own := length_pos_iff.mpr (extended p (by simp))
    rw [flatMap_cons, length_append, again, length_cons] at few
    omega

namespace Run

variable (run : Run dest) {point : State × Record}
variable {call : Option Flit × Option (Event dest)}

theorem resent_nothing {resent : List Packet} {before after : List Flit} {idle : ℕ}
    (known : ∀ p ∈ resent, p ∈ run.unacked point.2)
    (out : Ports.sent 1 (step.trace point.1 (answer call idle)) = before ++ call.1.toList ++ after)
    (whole : before ++ after = resent.flatMap again) : resent = [] := by
  refine resent_eq_nil (fun p member => run.extended p (mem_of_mem_filter
    (mem_of_mem_take (mem_of_mem_drop (known p member))))) ?_
  have few : ((step point.1 (offer call)).2 1).toList.length ≤ 1 := length_toList_le
  have count := congrArg length out
  rw [sent_answer, length_append, length_append] at count
  rw [← whole, length_append]
  omega

theorem unasked_of_repeats (named : ∀ e ∈ call.2, rcna e.flit = dest)
    (repeats : run.Repeats point call) : run.Unasked point call := by
  intro e member
  have noted : ∀ {idle : ℕ}, (step.final point.1 (answer call idle)).totalRetransmits =
      (takeEvent point.1 e.flit).1.totalRetransmits := by
    intro idle
    rw [final_answer, step, offer, mem_def.mp member]
    cases call.1 with
    | none => rfl
    | some f => exact totalRetransmits_takeFlit ..
  constructor
  · intro tpsack
    obtain ⟨idle, resent, before, after, known, _, count, out, whole⟩ :=
        repeats e member (.inl tpsack)
    rw [run.resent_nothing known out whole, noted] at count
    rw [← missing_eq_none_iff]
    rcases takeEvent_tpsack point.1 tpsack (named e member) with ⟨none, _⟩ | ⟨_, raised⟩
    · exact none
    · exact absurd (raised.symm.trans count) (by simp)
  · intro rto
    obtain ⟨idle, resent, before, after, known, every, count, out, whole⟩ :=
        repeats e member (.inr rto)
    have nothing := run.resent_nothing known out whole
    rw [nothing] at count every
    refine ⟨?_, eq_nil_iff_forall_not_mem.mpr fun p member => ?_⟩
    · rw [noted] at count
      rcases takeEvent_rto point.1 rto (named e member) with ⟨none, _⟩ | ⟨_, raised⟩
      · exact none
      · exact absurd (raised.symm.trans count) (by simp)
    · exact absurd (every rto p member) (by simp)

theorem repeats_of_unasked (named : ∀ e ∈ call.2, rcna e.flit = dest)
    (framed : ∀ f ∈ call.1, f.sop = true ∨ point.1.sawMeta = true)
    (unasked : run.Unasked point call) : run.Repeats point call := by
  intro e member asks
  have quiet : takeEvent point.1 e.flit = (point.1, silent) := by
    rcases asks with tpsack | rto
    · have none := missing_eq_none_iff.mpr ((unasked e member).1 tpsack)
      rcases takeEvent_tpsack point.1 tpsack (named e member) with ⟨_, quiet⟩ | ⟨some, _⟩
      · exact quiet
      · exact absurd none some
    · have none := ((unasked e member).2 rto).1
      rcases takeEvent_rto point.1 rto (named e member) with ⟨_, quiet⟩ | ⟨⟨j, stored⟩, _⟩
      · exact quiet
      · exact absurd stored (by simp [none j])
  have call_eq : step point.1 (offer call) =
      call.1.elim (point.1, silent) fun f => takeFlit point.1 f silent := by
    rw [step, offer, mem_def.mp member]
    change call.1.elim (takeEvent point.1 e.flit) _ = _
    rw [quiet]
    cases call.1 <;> simp [quiet]
  refine ⟨0, [], [], [], by simp, fun rto => ?_, ?_, ?_, rfl⟩
  · rw [((unasked e member).2 rto).2]
    exact fun p none => none
  · rw [final_answer, call_eq]
    cases call.1 with
    | none => simp
    | some f => simpa using totalRetransmits_takeFlit point.1 f silent
  · rw [sent_answer, call_eq]
    cases flit : call.1 with
    | none => rfl
    | some f =>
      rw [elim_some, takeFlit_out (framed f flit), put_same]
      rfl

end Run

theorem seen_step {s : State} {within : Bool} (seen : Seen s within)
    (call : Option Flit × Option (Event dest)) (framed : ∀ f ∈ call.1, f.sop = !within) :
    Seen (step s (offer call)).1 (call.1.elim within (!·.eop)) := by
  have noted : Seen ((call.2.map (·.flit)).elim (s, silent) (takeEvent s)).1 within := by
    cases call.2 with
    | none => exact seen
    | some e => exact fun inner => (takeEvent_rest s e.flit).1.trans (seen inner)
  obtain ⟨flit, event⟩ := call
  cases flit with
  | none => exact noted
  | some f =>
    intro more
    refine takeFlit_sawMeta ?_ (by simpa using more) _
    cases within with
    | true => exact .inr (noted rfl)
    | false => exact .inl (framed f rfl)

theorem framed_along {s : State} {r : Record} {within after : Bool} (seen : Seen s within)
    {calls : List (Option Flit × Option (Event dest))}
    (framed : scan within (calls.filterMap (·.1)) = some after) :
    Along next (fun point call => ∀ f ∈ call.1, f.sop = true ∨ point.1.sawMeta = true) (s, r)
      calls := by
  induction calls generalizing s r within with
  | nil => trivial
  | cons call calls ih =>
    obtain ⟨flit, event⟩ := call
    cases flit with
    | none =>
      refine ⟨by simp, ih (seen_step seen (none, event) (by simp)) framed⟩
    | some f =>
      change scan within (f :: calls.filterMap (·.1)) = some after at framed
      rw [scan] at framed
      split at framed
      · next mark =>
        refine ⟨fun g member => ?_, ih (seen_step seen (some f, event) ?_) framed⟩
        · obtain rfl : f = g := some.inj member
          cases within with
          | true => exact .inr (seen rfl)
          | false => exact .inl mark
        · intro g member
          obtain rfl : f = g := some.inj member
          exact mark
      · cases framed

/-- Retransmissions repeat packets exactly in the runs in which nothing is asked for. -/
theorem Run.repeats_iff (run : Run dest) : Along next run.Repeats (init run.memory, {}) run.calls ↔
      Along next run.Unasked (init run.memory, {}) run.calls := by
  have framed : Along next
      (fun point call => ∀ f ∈ call.1, f.sop = true ∨ point.1.sawMeta = true)
      (init run.memory, {}) run.calls := by
    obtain ⟨later, whole⟩ := run.taken
    have marks := scan_packets run.packets
    rw [← whole, scan_append] at marks
    cases before : scan false (run.calls.filterMap (·.1)) with
    | none => simp [before] at marks
    | some after => exact framed_along (fun impossible => by cases impossible) before
  rw [along_iff] at framed
  constructor
  · intro repeats
    rw [along_iff] at repeats ⊢
    intro before call after split
    refine run.unasked_of_repeats (run.named call ?_) (repeats before call after split)
    simp [split]
  · intro unasked
    rw [along_iff] at unasked ⊢
    intro before call after split
    refine run.repeats_of_unasked (run.named call ?_) (framed before call after split)
      (unasked before call after split)
    simp [split]

theorem sop_ninth : ∀ f ∈ [({ lane0 := 9, eop := true } : Flit)], f.sop = false := by decide

def short : Packet where
  head := { lane0 := 7, sop := true }
  rest := [{ lane0 := 9, eop := true }]
  sop_head := rfl
  sop_rest := sop_ninth
  eop_last := by decide

def timeout : Event 7 where
  flit := { lane0 := 7, lane2 := 0xFF }
  number := 0
  stamped impossible := absurd impossible (by decide)

def timedOut : Run 7 where
  memory _ _ := default
  packets := [short]
  extended p member := by
    rw [mem_singleton.mp member]
    exact cons_ne_nil _ _
  stamped := by
    have none : Stamped 7 (if reliable short.head then 0 + 1 else 0) false [] := trivial
    exact stamped_packet (fun _ => by decide) none
  calls := short.flits.map (fun f => (some f, none)) ++ [(none, some timeout)]
  taken := ⟨[], rfl⟩
  named := by decide

/-- Only the second flit of the packet leaves. -/
theorem not_repeats_timedOut :
    Along Record.call Known {} timedOut.calls ∧ Along Record.call Paced {} timedOut.calls ∧
      ¬Along next timedOut.Repeats (init timedOut.memory, {}) timedOut.calls := by
  refine ⟨by decide, by decide, fun repeats => ?_⟩
  have last := along_iff.mp repeats _ (none, some timeout) [] rfl
  have asked := timedOut.unasked_of_repeats (timedOut.named _ (by simp [timedOut])) last timeout rfl
  have count := congrArg length (asked.2 (by decide)).2
  revert count
  decide +kernel

end OpenURMA.RetransBuffer
