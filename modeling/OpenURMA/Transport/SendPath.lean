import OpenURMA.Library.Chain
import OpenURMA.Library.Run
import OpenURMA.Transport.ChannelTx
import OpenURMA.Transport.InFlight
import OpenURMA.Transport.Pipeline

/-!
# The send path

`UB_TPChannel_TX`, `UB_Cong_Window` and `UB_Retrans_Buffer`, linked by queues. The channel numbers
the packets, the congestion window lets everything pass, and the buffer stores what it passes on.
Nothing keeps a packet back while the buffer is full: packets are lost to retransmission unless the
sender itself keeps fewer than eight in flight.
-/

namespace OpenURMA.RetransBuffer

open Library

variable {s : State} {within : Bool}

def isTpack (ev : Flit) : Bool := kind ev == tpopTpack.setWidth 32

/-- An event of the buffer; a cumulative acknowledgement is for a packet to `dest`, with the
number that its PSN abbreviates. -/
structure Event (dest : U32) where
  flit : Flit
  number : ℕ
  stamped : isTpack flit = true → rcna flit = dest ∧ (apsn flit).toNat = number % 2 ^ 24

variable {dest : U32}

namespace Record

variable (r : Record)

def event (e : Event dest) : Record := if isTpack e.flit then r.ack e.number else r

def noted (event : Option (Event dest)) : Record := event.elim r r.event

def call (call : Option Flit × Option (Event dest)) : Record :=
  call.1.elim (r.noted call.2) (r.noted call.2).pass

theorem noted_same (event : Option (Event dest)) :
    (r.noted event).sent = r.sent ∧ (r.noted event).inside = r.inside := by
  cases event with
  | none => exact ⟨rfl, rfl⟩
  | some e =>
    rw [noted, Option.elim_some, Record.event]
    split <;> exact ⟨rfl, rfl⟩

theorem length_pass (f : Flit) : (r.pass f).sent.length =
    if f.sop && reliable f then r.sent.length + 1 else r.sent.length := by
  unfold pass
  cases f.sop with
  | true => cases reliable f <;> simp
  | false => cases r.inside <;> simp

end Record

def Known (r : Record) (call : Option Flit × Option (Event dest)) : Prop :=
  ∀ e ∈ call.2, isTpack e.flit = true → e.number < r.sent.length
deriving Decidable

def AtMostEight (r : Record) (call : Option Flit × Option (Event dest)) : Prop :=
  ∀ f ∈ call.1, f.sop = true → reliable f = true → r.sent.length < (r.noted call.2).acked + 8
deriving Decidable

/-- A reliable packet is sent only while fewer than eight are not acknowledged, and no
acknowledgement is so old that its PSN has come round. -/
def Paced (r : Record) (call : Option Flit × Option (Event dest)) : Prop :=
  (∀ f ∈ call.1, f.sop = true → reliable f = true →
      r.sent.length < (r.noted call.2).acked + 8) ∧
    ∀ e ∈ call.2, isTpack e.flit = true → r.acked ≤ e.number + (2 ^ 24 - 8)
deriving Decidable

/-- Every reliable packet above the highest acknowledged one is in a slot of the channel. -/
def Present (s : State) (dest : U32) (r : Record) : Prop :=
  ∀ k flits, r.acked ≤ k → r.sent[k]? = some flits →
    ∃ j, ((s.tx (idx dest)).slots j).Holds flits

variable {r : Record}

theorem Stores.present (stores : Stores (s.tx (idx dest)) r) : Present s dest r := by
  intro k flits above found
  have sent := (List.getElem?_eq_some_iff.mp found).1
  have fits := stores.fits
  refine ⟨⟨k - r.acked, by omega⟩, stores.held _ flits ?_⟩
  exact (congrArg (r.sent[·]?) (Nat.add_sub_cancel' above)).trans found

/-- A stream of packets, from within a packet on if `within`: the reliable ones go to `dest`
and carry consecutive PSNs, the next one being `n`. -/
def Stamped (dest : U32) : ℕ → Bool → List Flit → Prop
  | _, _, [] => True
  | n, within, f :: stream =>
    f.sop = !within ∧
      (f.sop = true → reliable f = true →
        UbMeta.dcna.get f = dest ∧ (UbMeta.psn.get f).toNat = n % 2 ^ 24) ∧
      Stamped dest (if f.sop && reliable f then n + 1 else n) (!f.eop) stream

/-- A relation between a channel and a record that every operation keeps up: `recent` says which
acknowledgements may come, and `brief` which flits may follow a metadata flit. -/
structure Lasting (rel : ChanRtx → Record → Prop) (recent : Record → ℕ → Prop)
    (brief : Flit → Prop) : Prop where
  tpack : ∀ {c r k} {psn : U32}, rel c r → k < r.sent.length → recent r k →
    psn.toNat = k % 2 ^ 24 → rel (takeTpack c psn) (r.ack k)
  markResent : ∀ {c r} j, rel c r → rel (markResent c j) r
  store : ∀ {c r f}, rel c r → f.sop = true → reliable f = true →
    (UbMeta.psn.get f).toNat = r.sent.length % 2 ^ 24 → r.sent.length < r.acked + 8 →
    rel (store c f) (r.pass f)
  storeExt : ∀ {c r f}, rel c r → f.sop = false → r.inside = true → brief f →
    rel (storeExt c f) (r.pass f)
  leave : ∀ {c r}, rel c r → rel c { r with inside := false }

structure Follows (rel : ChanRtx → Record → Prop) (dest : U32) (s : State) (r : Record)
    (within : Bool) : Prop where
  chan : rel (s.tx (idx dest)) r
  sawMeta : within = true → s.sawMeta = true
  curIdx : within = true → s.curIdx = if r.inside then some (idx dest) else none
  outside : within = false → r.inside = false

theorem takeEvent_rest (s : State) (ev : Flit) :
    (takeEvent s ev).1.sawMeta = s.sawMeta ∧ (takeEvent s ev).1.curIdx = s.curIdx := by
  simp only [takeEvent]
  split
  · exact ⟨rfl, rfl⟩
  · split
    · split <;> exact ⟨rfl, rfl⟩
    · split
      · split <;> exact ⟨rfl, rfl⟩
      · exact ⟨rfl, rfl⟩

theorem tx_setChan (s : State) (i k : Fin 16) (c : ChanRtx) :
    (s.setChan i c).tx k = if k = i then c else s.tx k :=
  Function.update_apply ..

theorem tx_takeEvent (e : Event dest) (tpack : isTpack e.flit = true) :
    (takeEvent s e.flit).1.tx (idx dest) = takeTpack (s.tx (idx dest)) (apsn e.flit) := by
  have addressed := (e.stamped tpack).1
  simp only [takeEvent]
  rw [if_pos (show (kind e.flit == tpopTpack.setWidth 32) = true from tpack), tx_setChan,
    addressed, if_pos rfl]

/-- The buffer with a queue before it and its port 1 after it. -/
abbrev stage (dest : U32) (memory : Fin 16 → Fin 8 → Slot) : Stage Flit :=
  .ofOffers (init memory) step
    (fun flit (event : Option (Event dest)) => ⟨flit, event.map (·.flit)⟩) 1

namespace Follows

variable {rel : ChanRtx → Record → Prop} {recent : Record → ℕ → Prop} {brief : Flit → Prop}

variable (lasting : Lasting rel recent brief)
include lasting

theorem chan_event (chan : rel (s.tx (idx dest)) r)
    (e : Event dest) (known : isTpack e.flit = true → e.number < r.sent.length)
    (timely : isTpack e.flit = true → recent r e.number) :
    rel ((takeEvent s e.flit).1.tx (idx dest)) (r.event e) := by
  by_cases tpack : isTpack e.flit = true
  · rw [tx_takeEvent e tpack, Record.event, if_pos tpack]
    exact lasting.tpack chan (known tpack) (timely tpack) (e.stamped tpack).2
  · simp only [takeEvent, Record.event]
    rw [if_neg (show ¬(kind e.flit == tpopTpack.setWidth 32) = true from tpack), if_neg tpack]
    split
    · split
      · exact chan
      · change rel ((s.setChan _ _).tx _) r
        rw [tx_setChan]
        split
        · next own =>
          rw [← own]
          exact lasting.markResent _ chan
        · exact chan
    · split
      · split <;> exact chan
      · exact chan

theorem event (follows : Follows rel dest s r within) (event : Option (Event dest))
    (known : ∀ e ∈ event, isTpack e.flit = true → e.number < r.sent.length)
    (timely : ∀ e ∈ event, isTpack e.flit = true → recent r e.number) :
    Follows rel dest ((event.map (·.flit)).elim (s, Ports.silent) (takeEvent s)).1 (r.noted event)
      within := by
  cases event with
  | none => exact follows
  | some e =>
    obtain ⟨sawMeta, curIdx⟩ := takeEvent_rest s e.flit
    have inside := (r.noted_same (some e)).2
    constructor
    · exact chan_event lasting follows.chan e (known e rfl) (timely e rfl)
    · exact fun inner => sawMeta.trans (follows.sawMeta inner)
    · rw [inside]
      exact fun inner => curIdx.trans (follows.curIdx inner)
    · rw [inside]
      exact follows.outside

variable {f : Flit}

theorem head (follows : Follows rel dest s r within) (sop : f.sop = true)
    (stamped : reliable f = true →
      UbMeta.dcna.get f = dest ∧ (UbMeta.psn.get f).toNat = r.sent.length % 2 ^ 24)
    (room : reliable f = true → r.sent.length < r.acked + 8) (out : Ports Flit) :
    Follows rel dest (takeFlit s f out).1 (r.pass f) (!f.eop) := by
  rw [takeFlit, if_pos sop]
  cases reach : reliable f with
  | false =>
    have uno : (UbMeta.svcMode.get f == svcUno) = true := by simpa [reliable] using reach
    have passed : r.pass f = { r with inside := false } := by
      rw [Record.pass, if_pos sop, if_neg (by simp [reach])]
    rw [if_pos uno, passed]
    exact ⟨lasting.leave follows.chan, fun _ => rfl, fun _ => rfl, fun _ => rfl⟩
  | true =>
    have mode : ¬(UbMeta.svcMode.get f == svcUno) = true := by simpa [reliable] using reach
    have inside : (r.pass f).inside = !f.eop := by
      rw [Record.pass, if_pos sop, if_pos reach]
    obtain ⟨addressed, number⟩ := stamped reach
    rw [if_neg mode, addressed]
    refine ⟨?_, fun _ => rfl, fun more => ?_, fun last => ?_⟩
    · change rel ((s.setChan _ _).tx _) _
      rw [tx_setChan, if_pos rfl]
      exact lasting.store follows.chan sop reach number (room reach)
    · rw [inside, more, if_pos rfl]
    · rw [inside, last]

theorem inner (follows : Follows rel dest s r true) (inner : f.sop = false)
    (short : brief f) (out : Ports Flit) :
    Follows rel dest (takeFlit s f out).1 (r.pass f) (!f.eop) := by
  have curIdx := follows.curIdx rfl
  have sawMeta : (if f.eop then false else s.sawMeta) = !f.eop := by
    rw [follows.sawMeta rfl]
    cases f.eop <;> rfl
  rw [takeFlit, if_neg (by simp [inner]), if_pos (follows.sawMeta rfl), curIdx]
  cases inside : r.inside with
  | true =>
    have after : (r.pass f).inside = !f.eop := by
      rw [Record.pass, if_neg (by simp [inner]), if_pos inside]
    refine ⟨?_, fun more => sawMeta.trans more, fun more => ?_, fun last => after.trans last⟩
    · change rel ((s.setChan _ _).tx _) _
      rw [tx_setChan, if_pos rfl]
      exact lasting.storeExt follows.chan inner inside short
    · rw [after, more]
      exact curIdx.trans (by rw [inside])
  | false =>
    have same : r.pass f = r := by
      rw [Record.pass, if_neg (by simp [inner]), if_neg (by simp [inside])]
    rw [same]
    refine ⟨follows.chan, fun more => sawMeta.trans more, fun _ => ?_, fun _ => inside⟩
    exact curIdx

theorem call (follows : Follows rel dest s r within)
    (call : Option Flit × Option (Event dest)) (known : Known r call)
    (room : ∀ f ∈ call.1, f.sop = true → reliable f = true →
      r.sent.length < (r.noted call.2).acked + 8)
    (timely : ∀ e ∈ call.2, isTpack e.flit = true → recent r e.number)
    (stamped : ∀ f ∈ call.1, f.sop = !within ∧ (f.sop = true → reliable f = true →
      UbMeta.dcna.get f = dest ∧ (UbMeta.psn.get f).toNat = r.sent.length % 2 ^ 24))
    (short : ∀ f ∈ call.1, f.sop = false → brief f) :
    Follows rel dest (step s ⟨call.1, call.2.map (·.flit)⟩).1 (r.call call)
      (call.1.elim within (!·.eop)) := by
  have noted := follows.event lasting call.2 known timely
  have sent := (r.noted_same call.2).1
  obtain ⟨flit, event⟩ := call
  cases flit with
  | none => exact noted
  | some f =>
    obtain ⟨framed, numbered⟩ := stamped f rfl
    have room := room f rfl
    rw [← sent] at numbered room
    cases sop : f.sop with
    | true => exact noted.head lasting sop (numbered sop) (room sop) _
    | false =>
      rw [sop] at framed
      obtain rfl : within = true := by simpa using framed.symm
      exact noted.inner lasting sop (short f rfl sop) _

omit lasting

theorem passes (follows : Follows rel dest s r within) (event : Option (Event dest))
    (framed : f.sop = !within) :
    (step s ⟨some f, event.map (·.flit)⟩).2 1 = some f := by
  have saw : within = true →
      ((event.map (·.flit)).elim (s, Ports.silent) (takeEvent s)).1.sawMeta = true := by
    cases event with
    | none => exact follows.sawMeta
    | some e => exact fun inner => (takeEvent_rest s e.flit).1.trans (follows.sawMeta inner)
  have taken : f.sop = true ∨
      ((event.map (·.flit)).elim (s, Ports.silent) (takeEvent s)).1.sawMeta = true := by
    cases within with
    | true => exact .inr (saw rfl)
    | false => exact .inl framed
  change (takeFlit _ f _).2 1 = _
  rw [takeFlit_out taken]
  exact Ports.put_same ..

include lasting

/-- A run that meets the conditions of every operation keeps the relation up, and every flit that
the buffer takes leaves it again. -/
theorem run (memory : Fin 16 → Fin 8 → Slot) (follows : Follows rel dest s r within)
    {calls : List (stage dest memory).Call} (known : Along Record.call Known r calls)
    (room : Along Record.call AtMostEight r calls)
    (timely : Along Record.call
      (fun r call => ∀ e ∈ call.2, isTpack e.flit = true → recent r e.number) r calls)
    (stamped : Stamped dest r.sent.length within ((stage dest memory).taken calls))
    (short : ∀ f ∈ (stage dest memory).taken calls, f.sop = false → brief f) :
    (∃ after, Follows rel dest ((stage dest memory).machine.final s calls)
        (calls.foldl Record.call r) after) ∧
      ((stage dest memory).taken calls).Sublist ((stage dest memory).given s calls) := by
  induction calls generalizing s r within with
  | nil => exact ⟨⟨within, follows⟩, List.Sublist.refl _⟩
  | cons call calls ih =>
    rw [Stage.taken_cons, Stage.given_cons]
    rw [Stage.taken_cons] at stamped short
    obtain ⟨flit, event⟩ := call
    cases flit with
    | none =>
      have sent : (r.call (none, event)).sent = r.sent := (r.noted_same event).1
      have next := follows.call lasting (none, event) known.1 room.1 timely.1 (by simp) (by simp)
      obtain ⟨after, passed⟩ :=
        ih next known.2 room.2 timely.2 (by rw [sent]; exact stamped) short
      exact ⟨after, passed.trans (List.sublist_append_right _ _)⟩
    | some f =>
      obtain ⟨framed, numbered, rest⟩ := stamped
      have count : (r.call (some f, event)).sent.length =
          if f.sop && reliable f then r.sent.length + 1 else r.sent.length := by
        change ((r.noted event).pass f).sent.length = _
        rw [Record.length_pass, (r.noted_same event).1]
      have next := follows.call lasting (some f, event) known.1 room.1 timely.1
        (fun g member => by cases member; exact ⟨framed, numbered⟩)
        (fun g member => by cases member; exact short f (by simp))
      obtain ⟨after, passed⟩ := ih next known.2 room.2 timely.2 (by rw [count]; exact rest)
        fun g member => short g (by simp [member])
      refine ⟨after, ?_⟩
      change ([f] ++ _).Sublist (((step s ⟨some f, event.map (·.flit)⟩).2 1).toList ++ _)
      rw [follows.passes event framed]
      exact (List.Sublist.refl [f]).append passed

end Follows

theorem Stores.congr {c : ChanRtx} {r' : Record} (stores : Stores c r) (sent : r'.sent = r.sent)
    (acked : r'.acked = r.acked) : Stores c r' := by
  obtain ⟨sent, inside, acked⟩ := r
  obtain ⟨_, inside', _⟩ := r'
  subst sent acked
  obtain ⟨acked, fits, basePsn, inFlight, held, fresh, unused⟩ := stores
  exact ⟨acked, fits, basePsn, inFlight, held, fresh, unused⟩

theorem stores_init (memory : Fin 16 → Fin 8 → Slot) (i : Fin 16) :
    Stores ((init memory).tx i) {} where
  acked := le_rfl
  fits := Nat.zero_le _
  basePsn := rfl
  inFlight := rfl
  held _ _ found := by cases found
  fresh _ _ _ found := by cases found
  unused _ _ := ⟨rfl, rfl⟩

theorem follows_start (dest : U32) (memory : Fin 16 → Fin 8 → Slot) :
    Follows Stores dest (init memory) {} false where
  chan := stores_init memory _
  sawMeta impossible := by cases impossible
  curIdx impossible := by cases impossible
  outside _ := rfl

theorem lasting_stores : Lasting Stores (fun r k => r.acked ≤ k + (2 ^ 24 - 8)) fun _ => True where
  tpack stores known recent stamped := stores.tpack known recent stamped
  markResent j stores := stores.markResent j
  store stores sop rel stamped room := stores.store sop rel stamped room
  storeExt stores inner inside _ := stores.storeExt inner inside
  leave stores := stores.congr rfl rfl

end OpenURMA.RetransBuffer

namespace OpenURMA.TpChannelTx

open Library RetransBuffer

/-- `UB_TPChannel_TX` with its acknowledgements. -/
abbrev stage (memory : Fin 64 → Chan) : Stage Flit := .ofOffers (init memory) step Offer.mk 1

theorem taken_stage (memory : Fin 64 → Chan) (calls : List (stage memory).Call) :
    (calls.map fun call => Offer.mk call.1 call.2).filterMap (·.flit) =
      (stage memory).taken calls := by
  rw [List.filterMap_map]
  rfl

variable {packets : List Packet}

theorem given_begins {memory : Fin 64 → Chan} {calls : List (stage memory).Call}
    (inputs : (stage memory).taken calls <+: packets.flatMap Packet.flits) :
    (stage memory).given (init memory) calls <+:
      (send (init memory) packets).flatMap Packet.flits := by
  obtain ⟨rest, whole⟩ := inputs
  let later : List Offer := rest.map fun f => ⟨some f, none⟩
  have remaining : later.filterMap (·.flit) = rest := by simp [later, List.filterMap_map]
  have all : (calls.map (fun call => Offer.mk call.1 call.2) ++ later).filterMap (·.flit) =
      [] ++ packets.flatMap Packet.flits := by
    rw [List.filterMap_append, taken_stage, remaining]
    exact whole
  have sent := sent_rest_send (s := init memory) (t := init memory) _ (fun _ => rfl)
    (List.forall_mem_nil _) all
  rw [Mealy.trace_append, Ports.sent_append] at sent
  rw [Stage.given_ofOffers]
  exact ⟨_, sent⟩

theorem stamp_uno {s : State} {f : Flit} (uno : reliable f = false) :
    stamp s f = (s, stampUno f) := by
  rw [stamp, if_pos (by simpa [reliable] using uno)]

theorem reliable_stamp (s : State) (f : Flit) : reliable (stamp s f).2 = reliable f := by
  have kept : UbMeta.svcMode.get (stamp s f).2 = UbMeta.svcMode.get f := by
    cases rel : reliable f with
    | false =>
      rw [stamp_uno rel]
      change UbMeta.svcMode.get (stampUno f) = _
      rw [stampUno, Field.get_set_disjoint (by decide), Field.get_set_disjoint (by decide),
        Field.get_set_disjoint (by decide), Field.get_set_disjoint (by decide)]
    | true =>
      rw [stamp_reliable (by simpa [reliable] using rel) rfl]
      exact get_stampRtp (by decide) _ f
  rw [reliable, kept, reliable]

end OpenURMA.TpChannelTx

namespace OpenURMA.RetransBuffer

open Library

variable {dest : U32} {n : ℕ} {within : Bool}

theorem stamped_left {first second : List Flit}
    (stamped : Stamped dest n within (first ++ second)) : Stamped dest n within first := by
  induction first generalizing n within with
  | nil => trivial
  | cons f first ih => exact ⟨stamped.1, stamped.2.1, ih stamped.2.2⟩

theorem stamped_rest {flits stream : List Flit} (inner : ∀ f ∈ flits, f.sop = false)
    (framed : EopLast flits) (stamped : Stamped dest n false stream) :
    Stamped dest n true (flits ++ stream) := by
  induction flits with
  | nil => exact framed.elim
  | cons f flits ih =>
    have notSop : f.sop = false := inner f (by simp)
    refine ⟨notSop, by simp [notSop], ?_⟩
    rw [notSop, Bool.false_and, if_neg (by simp)]
    cases flits with
    | nil =>
      have last : f.eop = true := framed
      rw [last]
      exact stamped
    | cons g flits =>
      rw [framed.1]
      exact ih (fun h member => inner h (by simp [member])) framed.2

theorem stamped_packet {p : Packet} {stream : List Flit} (head : reliable p.head = true →
      UbMeta.dcna.get p.head = dest ∧ (UbMeta.psn.get p.head).toNat = n % 2 ^ 24)
    (stamped : Stamped dest (if reliable p.head then n + 1 else n) false stream) :
    Stamped dest n false (p.flits ++ stream) := by
  have framed := p.eop_last
  have inner := p.sop_rest
  refine ⟨p.sop_head, fun _ => head, ?_⟩
  rw [p.sop_head, Bool.true_and]
  change Stamped dest _ _ (p.rest ++ stream)
  cases shape : p.rest with
  | nil =>
    rw [shape] at framed
    have last : p.head.eop = true := framed
    rw [last]
    exact stamped
  | cons f rest =>
    rw [shape] at framed inner
    rw [framed.1]
    exact stamped_rest inner framed.2 stamped

theorem stamped_send {s : TpChannelTx.State} {packets : List Packet}
    (counts : TpChannelTx.Counts s dest n)
    (addressed : ∀ p ∈ packets, reliable p.head = true → UbMeta.dcna.get p.head = dest) :
    Stamped dest n false ((TpChannelTx.send s packets).flatMap Packet.flits) := by
  induction packets generalizing s n with
  | nil => trivial
  | cons p packets ih =>
    have others : ∀ q ∈ packets, reliable q.head = true → UbMeta.dcna.get q.head = dest :=
      fun q member => addressed q (by simp [member])
    rw [TpChannelTx.send, List.flatMap_cons]
    cases rel : reliable p.head with
    | false =>
      have kept : reliable (TpChannelTx.stampPacket s p).head = false :=
        (TpChannelTx.reliable_stamp s p.head).trans rel
      refine stamped_packet (fun sent => absurd sent (by simp [kept])) ?_
      rw [kept, if_neg (by simp), TpChannelTx.stamp_uno rel]
      exact ih counts others
    | true =>
      have mode : UbMeta.svcMode.get p.head ≠ svcUno := by simpa [reliable] using rel
      have own := addressed p (by simp) rel
      obtain ⟨next, number⟩ := counts.stamp mode own
      have sent : reliable (TpChannelTx.stampPacket s p).head = true :=
        (TpChannelTx.reliable_stamp s p.head).trans rel
      have dcna : UbMeta.dcna.get (TpChannelTx.stampPacket s p).head = dest := by
        change UbMeta.dcna.get (TpChannelTx.stamp s p.head).2 = _
        rw [TpChannelTx.stamp_reliable mode own, TpChannelTx.get_stampRtp (by decide), own]
      refine stamped_packet (fun _ => ⟨dcna, number⟩) ?_
      rw [sent, if_pos rfl]
      exact ih next others

end OpenURMA.RetransBuffer

namespace OpenURMA.SendPath

open Library RetransBuffer

abbrev elements (dest : U32) (chans : Fin 64 → TpChannelTx.Chan)
    (slots : Fin 16 → Fin 8 → RetransBuffer.Slot) : Fin 3 → Stage Flit
  | 0 => TpChannelTx.stage chans
  | 1 => .ofMealy CongWindow.init CongWindow.step 1
  | 2 => stage dest slots

variable (dest : U32) (chans : Fin 64 → TpChannelTx.Chan)
variable (slots : Fin 16 → Fin 8 → RetransBuffer.Slot)
variable (packets : List Packet) (turns : List (Turn (elements dest chans slots)))

def start : Chain (elements dest chans slots) :=
  Chain.start _ (packets.flatMap Packet.flits)

def calls : List (Option Flit × Option (Event dest)) :=
  (start dest chans slots packets).calls turns 2

def record : Record := (calls dest chans slots packets turns).foldl Record.call {}

theorem taken_begins : (calls dest chans slots packets turns).filterMap (·.1) <+:
      (TpChannelTx.send (TpChannelTx.init chans) packets).flatMap Packet.flits := by
  let path := start dest chans slots packets
  have posted : path.outflow turns 0 <+: packets.flatMap Packet.flits :=
    ⟨_, (Chain.start_first turns _).symm⟩
  have numbered : path.given turns 0 <+:
      (TpChannelTx.send (TpChannelTx.init chans) packets).flatMap Packet.flits :=
    TpChannelTx.given_begins posted
  have windowed : path.outflow turns 1 <+: path.given turns 0 :=
    ⟨_, (Chain.start_link turns _ 0).symm⟩
  have passed : path.given turns 1 = path.outflow turns 1 :=
    (Stage.given_ofMealy _ _ _ _ _).trans (CongWindow.sent_trace _ _)
  have taken : path.outflow turns 2 <+: path.given turns 1 :=
    ⟨_, (Chain.start_link turns _ 1).symm⟩
  rw [passed] at taken
  exact (taken.trans windowed).trans numbered

variable {dest chans slots packets turns}

/-- In every run with acknowledgements of packets already sent in which the sender paces itself,
every reliable packet that is passed on and not acknowledged is in a slot. -/
theorem present_of_paced
    (addressed : ∀ p ∈ packets, reliable p.head = true → UbMeta.dcna.get p.head = dest)
    (known : Along Record.call Known {} (calls dest chans slots packets turns))
    (paced : Along Record.call Paced {} (calls dest chans slots packets turns)) :
    ((calls dest chans slots packets turns).filterMap (·.1)).Sublist
        (((start dest chans slots packets).run turns).queue 3) ∧
      Present (((start dest chans slots packets).run turns).state 2) dest
        (record dest chans slots packets turns) := by
  obtain ⟨later, whole⟩ := taken_begins dest chans slots packets turns
  have stamped := stamped_send (TpChannelTx.counts_init chans dest) addressed
  rw [← whole] at stamped
  obtain ⟨room, timely⟩ := along_and.mp paced
  obtain ⟨⟨_, follows⟩, passed⟩ := (follows_start dest slots).run lasting_stores slots known room
    timely (stamped_left stamped) fun _ _ _ => trivial
  have output : (start dest chans slots packets).given turns 2 =
      ((start dest chans slots packets).run turns).queue 3 :=
    Chain.start_link turns _ 2
  rw [← output, Chain.state_run]
  exact ⟨passed, follows.chan.present⟩

def small : Packet where
  head := { lane0 := 7, sop := true, eop := true }
  rest := []
  sop_head := rfl
  sop_rest := sop_nil
  eop_last := rfl

/-- The path to node 7 with some packets to be sent. -/
abbrev toSeven : Fin 3 → Stage Flit := elements 7 (fun _ => default) fun _ _ => default

/-- A flit goes through all three elements. -/
def push : List (Turn toSeven) := [⟨0, true, none⟩, ⟨1, true, ()⟩, ⟨2, true, none⟩]

def firstAck : Event 7 where
  flit := { lane0 := 7, lane2 := 2 }
  number := 0
  stamped _ := by decide

/-- Two packets are sent, and the first one is acknowledged. -/
def ackedTurns : List (Turn toSeven) := push ++ push ++ [⟨2, false, some firstAck⟩]

theorem present_acked :
    ((calls 7 (fun _ => default) (fun _ _ => default) [small, small] ackedTurns).filterMap
        (·.1)).Sublist (((start 7 (fun _ => default) (fun _ _ => default) [small, small]).run
          ackedTurns).queue 3) ∧
      Present (((start 7 (fun _ => default) (fun _ _ => default) [small, small]).run
          ackedTurns).state 2) 7
        (record 7 (fun _ => default) (fun _ _ => default) [small, small] ackedTurns) :=
  present_of_paced (by decide) (by decide) (by decide)

/-- Nine packets are sent without an acknowledgement. -/
def nineTurns : List (Turn toSeven) := (List.replicate 9 push).flatten

/-- The ninth packet has no slot. -/
theorem not_present_nine :
    ¬Present (((start 7 (fun _ => default) (fun _ _ => default) (List.replicate 9 small)).run
        nineTurns).state 2) 7
      (record 7 (fun _ => default) (fun _ _ => default) (List.replicate 9 small) nineTurns) := by
  let last := record 7 (fun _ => default) (fun _ _ => default) (List.replicate 9 small) nineTurns
  have stored : ∀ j : Fin 8, last.sent[8]?.bind List.head? ≠
      some (((((start 7 (fun _ => default) (fun _ _ => default) (List.replicate 9 small)).run
        nineTurns).state 2).tx (RetransBuffer.idx 7)).slots j).flitA := by
    decide +kernel
  have sent : last.acked = 0 ∧ last.sent.length = 9 := by decide +kernel
  intro present
  have found : last.sent[8]? = some last.sent[8] := List.getElem?_eq_getElem (by omega)
  have above : last.acked ≤ 8 := by omega
  obtain ⟨j, holds⟩ := present 8 _ above found
  exact stored j (by rw [found, Option.bind_some, holds.flitA])

end OpenURMA.SendPath
