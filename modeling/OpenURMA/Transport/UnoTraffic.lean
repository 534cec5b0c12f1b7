import OpenURMA.Transport.SendPath
import OpenURMA.Transport.TransmitPath

/-!
# UNO traffic beside reliable traffic

`UB_TPChannel_TX`, `UB_Cong_Window`, `UB_Retrans_Buffer` and `UB_RTPH_Build` carry packets in UNO
mode and reliable packets over the same links. The channels, the slots and the headers of the
reliable packets are those of a path that the UNO packets have never taken.
-/

namespace OpenURMA

open Library RetransBuffer UbMeta Packet OpenURMA.Field List

namespace TpChannelTx

def quietOffer (flit : Option Flit) (_ : Unit) : Offer := ⟨flit, none⟩

theorem final_rest (s : State) {flits : List Flit} (inner : ∀ f ∈ flits, f.sop = false) :
    step.final s (flits.map fun f => quietOffer (some f) ()) = s := by
  induction flits with
  | nil => rfl
  | cons f flits ih =>
    have notSop : f.sop = false := inner f (by simp)
    have call : (step s (quietOffer (some f) ())).1 = s := by simp [step, quietOffer, notSop]
    rw [map_cons, Mealy.final_cons, call]
    exact ih fun g member => inner g (by simp [member])

def numbered (s : State) (packets : List Packet) : State :=
  packets.foldl (fun s p => (stamp s p.head).1) s

theorem final_packets (s : State) (packets : List Packet) :
    step.final s ((packets.flatMap flits).map fun f => quietOffer (some f) ()) =
      numbered s packets := by
  induction packets generalizing s with
  | nil => rfl
  | cons p packets ih =>
    have call : (step s (quietOffer (some p.head) ())).1 = (stamp s p.head).1 := by
      simp [step, quietOffer, p.sop_head]
    rw [flatMap_cons, map_append, Mealy.final_append, flits, map_cons,
      Mealy.final_cons, call, final_rest _ p.sop_rest, ih]
    rfl

theorem numbered_filter (s : State) (packets : List Packet) :
    numbered s (packets.filter fun p => reliable p.head) = numbered s packets := by
  induction packets generalizing s with
  | nil => rfl
  | cons p packets ih =>
    rw [filter_cons]
    cases rel : reliable p.head with
    | true => exact ih _
    | false =>
      refine (ih s).trans ?_
      change _ = numbered (stamp s p.head).1 packets
      rw [stamp_uno rel]

theorem send_filter (s : State) (packets : List Packet) :
    send s (packets.filter fun p => reliable p.head) =
      (send s packets).filter fun p => reliable p.head := by
  induction packets generalizing s with
  | nil => rfl
  | cons p packets ih =>
    have kept : reliable (stampPacket s p).head = reliable p.head := reliable_stamp s p.head
    rw [filter_cons, send, filter_cons, kept]
    cases rel : reliable p.head with
    | true => exact congrArg (stampPacket s p :: ·) (ih _)
    | false =>
      refine (ih s).trans ?_
      rw [stamp_uno rel]
      rfl

theorem get_stampUno (f : Flit) :
    tpOpcode.get (stampUno f) = tpopUtp ∧ nthNlp.get (stampUno f) = nthNlpUtph ∧
      psn.get (stampUno f) = 0 ∧ tpmsn.get (stampUno f) = 0 := by
  unfold stampUno
  refine ⟨?_, ?_, ?_, ?_⟩
  · rw [get_set_disjoint (by decide), get_set_disjoint (by decide), get_set_same]
    decide
  · rw [get_set_disjoint (by decide), get_set_disjoint (by decide),
      get_set_disjoint (by decide), get_set_same]
    decide
  · rw [get_set_disjoint (by decide), get_set_same]
    decide
  · rw [get_set_same]
    decide

end TpChannelTx

namespace RetransBuffer

def storePacket (tx : Fin 16 → ChanRtx) (p : Packet) : Fin 16 → ChanRtx :=
  let i := idx (dcna.get p.head)
  if reliable p.head then
    Function.update tx i (p.rest.foldl storeExt (store (tx i) p.head))
  else tx

theorem tx_final_rest {s : State} (saw : s.sawMeta = true) {flits : List Flit}
    (inner : ∀ f ∈ flits, f.sop = false) (framed : EopLast flits) :
    (quietStep.final s (flits.map some)).tx = s.curIdx.elim s.tx fun i =>
      Function.update s.tx i (flits.foldl storeExt (s.tx i)) := by
  induction flits generalizing s with
  | nil => exact framed.elim
  | cons f flits ih =>
    have notSop : ¬f.sop = true := by simp [inner f (by simp)]
    have call : (quietStep s (some f)).1 =
        { s.curIdx.elim s fun i => s.setChan i (storeExt (s.tx i) f) with
          sawMeta := if f.eop then false else s.sawMeta } := by
      change (takeFlit s f Ports.silent).1 = _
      rw [takeFlit, if_neg notSop, if_pos saw]
    rw [map_cons, Mealy.final_cons, call]
    cases flits with
    | nil =>
      cases s.curIdx <;> rfl
    | cons g flits =>
      have more : f.eop = false := framed.1
      rw [ih (by simp [more, saw]) (fun h member => inner h (by simp [member])) framed.2]
      cases place : s.curIdx with
      | none => simp [place]
      | some i => simp [place, State.setChan]

theorem tx_final_packet (s : State) (p : Packet) :
    (quietStep.final s (p.flits.map some)).tx = storePacket s.tx p := by
  have framed := p.eop_last
  have inner := p.sop_rest
  rw [flits, map_cons, Mealy.final_cons, storePacket]
  cases rel : reliable p.head with
  | true =>
    have mode : ¬(svcMode.get p.head == svcUno) = true := by simpa [reliable] using rel
    have call : (quietStep s (some p.head)).1 =
        { s.setChan (idx (dcna.get p.head))
            (store (s.tx (idx (dcna.get p.head))) p.head) with
          sawMeta := true, curIdx := some (idx (dcna.get p.head)) } := by
      change (takeFlit s p.head Ports.silent).1 = _
      rw [takeFlit, if_pos p.sop_head, if_neg mode]
    rw [call]
    cases shape : p.rest with
    | nil => rfl
    | cons f rest =>
      rw [shape] at framed inner
      rw [tx_final_rest rfl inner framed.2]
      simp [State.setChan]
  | false =>
    have mode : (svcMode.get p.head == svcUno) = true := by simpa [reliable] using rel
    have call : (quietStep s (some p.head)).1 = { s with sawMeta := true, curIdx := none } := by
      change (takeFlit s p.head Ports.silent).1 = _
      rw [takeFlit, if_pos p.sop_head, if_pos mode]
    rw [call]
    cases shape : p.rest with
    | nil => rfl
    | cons f rest =>
      rw [shape] at framed inner
      rw [tx_final_rest rfl inner framed.2]
      rfl

theorem tx_final_packets (s : State) (packets : List Packet) :
    (quietStep.final s ((packets.flatMap flits).map some)).tx = packets.foldl storePacket s.tx := by
  induction packets generalizing s with
  | nil => rfl
  | cons p packets ih =>
    rw [flatMap_cons, map_append, Mealy.final_append, ih, tx_final_packet]
    rfl

theorem foldl_storePacket_filter (tx : Fin 16 → ChanRtx) (packets : List Packet) :
    (packets.filter fun p => reliable p.head).foldl storePacket tx =
      packets.foldl storePacket tx := by
  induction packets generalizing tx with
  | nil => rfl
  | cons p packets ih =>
    rw [filter_cons]
    cases rel : reliable p.head with
    | true => exact ih _
    | false =>
      have same : storePacket tx p = tx := if_neg (by simp [rel])
      rw [foldl_cons, same]
      exact ih tx

end RetransBuffer

namespace UnoTraffic

variable (chans : Fin 64 → TpChannelTx.Chan) (slots : Fin 16 → Fin 8 → RetransBuffer.Slot)

abbrev elements : Fin 4 → Stage Flit
  | 0 => .ofOffers (TpChannelTx.init chans) TpChannelTx.step TpChannelTx.quietOffer 1
  | 1 => .ofMealy CongWindow.init CongWindow.step 1
  | 2 => .ofOffers (RetransBuffer.init slots) quietStep
      (fun flit (_ : Unit) => flit) 1
  | 3 => .ofMealy () RtphBuild.step 1

variable (packets : List Packet) (turns : List (Turn (elements chans slots)))

def start : Chain (elements chans slots) := Chain.start _ (packets.flatMap flits)

def Drained (c : Chain (elements chans slots)) : Prop := ∀ k < 4, c.queue k = []

instance (c : Chain (elements chans slots)) : Decidable (Drained chans slots c) :=
  inferInstanceAs (Decidable (∀ k < 4, _))

def transmitted : List Packet :=
  (TpChannelTx.send (TpChannelTx.init chans) packets).map RtphBuild.stamp.packet

variable {chans slots packets turns}

theorem link (drained : Drained chans slots ((start chans slots packets).run turns)) {k : ℕ}
    (inner : k + 1 < 4) : (start chans slots packets).outflow turns (k + 1) =
      (start chans slots packets).given turns k :=
  Chain.start_link_of_empty turns _ (drained (k + 1) inner)

section

variable (drained : Drained chans slots ((start chans slots packets).run turns))
include drained

theorem taken_channel : (start chans slots packets).outflow turns 0 = packets.flatMap flits := by
  have first : packets.flatMap flits = (start chans slots packets).outflow turns 0 ++
      ((start chans slots packets).run turns).queue 0 := Chain.start_first turns _
  rw [first, drained 0 (by omega), append_nil]

theorem taken_buffer : (start chans slots packets).outflow turns 2 =
    (TpChannelTx.send (TpChannelTx.init chans) packets).flatMap flits := by
  let path := start chans slots packets
  have channel : path.outflow turns 1 =
      (TpChannelTx.send (TpChannelTx.init chans) packets).flatMap flits := by
    have inputs : ((path.calls turns 0).map fun call =>
        TpChannelTx.quietOffer call.1 call.2).filterMap (·.flit) =
          [] ++ packets.flatMap flits := by
      rw [filterMap_map]
      exact taken_channel drained
    have sent := TpChannelTx.sent_rest_send (s := TpChannelTx.init chans)
      (t := TpChannelTx.init chans) _ (fun _ => rfl) (forall_mem_nil _) inputs
    rw [link drained (by omega), ← nil_append (flatMap _ _), ← sent]
    exact Stage.given_ofOffers _ _ _ _ _ _
  rw [link drained (by omega), ← channel]
  exact (Stage.given_ofMealy _ _ _ _ _).trans (CongWindow.sent_trace _ _)

theorem output_eq : ((start chans slots packets).run turns).queue 4 =
    (transmitted chans packets).flatMap flits := by
  let path := start chans slots packets
  have buffer : path.outflow turns 3 =
      (TpChannelTx.send (TpChannelTx.init chans) packets).flatMap flits := by
    have taken : ((path.calls turns 2).map fun call => call.1).filterMap id =
        (TpChannelTx.send (TpChannelTx.init chans) packets).flatMap flits := by
      rw [filterMap_map, ← taken_buffer drained]
      rfl
    rw [link drained (by omega), ← taken, ← sent_quiet slots taken]
    exact Stage.given_ofOffers _ _ _ _ _ _
  have output : path.given turns 3 = ((start chans slots packets).run turns).queue 4 :=
    Chain.start_link turns _ 3
  rw [← output, transmitted, ← Stamp.sent_packets, ← buffer]
  exact Stage.given_ofMealy _ _ _ _ _

theorem channels_eq : ((start chans slots packets).run turns).state 0 =
    TpChannelTx.numbered (TpChannelTx.init chans) packets := by
  rw [Chain.state_run, ← TpChannelTx.final_packets, ← taken_channel drained]
  exact Stage.final_of_idle _ _ _ _ (fun _ => rfl) _

theorem slots_eq : (((start chans slots packets).run turns).state 2).tx =
    (TpChannelTx.send (TpChannelTx.init chans) packets).foldl storePacket
      (RetransBuffer.init slots).tx := by
  rw [Chain.state_run, ← tx_final_packets, ← taken_buffer drained]
  exact congrArg State.tx (Stage.final_of_idle (RetransBuffer.init slots) quietStep 1
    (RetransBuffer.init slots) (fun _ => rfl) _)

end

def sentFor (posted sent : List Packet) : List Packet :=
  ((posted.zip sent).filter fun pair => reliable pair.1.head).map Prod.snd

/-- A packet in UNO mode as it should leave. -/
structure Bypasses (p q : Packet) : Prop where
  tpOpcode : tpOpcode.get q.head = tpopUtp
  nthNlp : nthNlp.get q.head = nthNlpUtph
  psn : psn.get q.head = 0
  tpmsn : tpmsn.get q.head = 0
  rest : q.rest = p.rest

theorem bypasses_stamp {s : TpChannelTx.State} {p : Packet} (uno : reliable p.head = false) :
    Bypasses p (RtphBuild.stamp.packet (TpChannelTx.stampPacket s p)) := by
  have kept := TpChannelTx.reliable_stamp s p.head
  have mode : svcMode.get (TpChannelTx.stamp s p.head).2 = svcUno := by
    rw [uno] at kept
    simpa [reliable] using kept
  have head : (RtphBuild.stamp.packet (TpChannelTx.stampPacket s p)).head =
      TpChannelTx.stampUno p.head := by
    change RtphBuild.build (TpChannelTx.stamp s p.head).2 = _
    rw [RtphBuild.build_uno mode, TpChannelTx.stamp_uno uno]
  obtain ⟨tpOpcode, nthNlp, psn, tpmsn⟩ := TpChannelTx.get_stampUno p.head
  rw [← head] at tpOpcode nthNlp psn tpmsn
  exact ⟨tpOpcode, nthNlp, psn, tpmsn, rfl⟩

theorem sent_spec (s : TpChannelTx.State) (packets : List Packet) :
    let sent := (TpChannelTx.send s packets).map RtphBuild.stamp.packet
    sent.length = packets.length ∧
      sentFor packets sent = (TpChannelTx.send s
        (packets.filter fun p => reliable p.head)).map RtphBuild.stamp.packet ∧
      ∀ (k : ℕ) (p q : Packet), packets[k]? = some p → sent[k]? = some q →
        reliable p.head = false → Bypasses p q := by
  induction packets generalizing s with
  | nil => exact ⟨rfl, rfl, by simp⟩
  | cons p packets ih =>
    obtain ⟨length, same, bypass⟩ := ih (TpChannelTx.stamp s p.head).1
    refine ⟨congrArg (· + 1) length, ?_, fun k r q posted sent uno => ?_⟩
    · rw [filter_cons, TpChannelTx.send, map_cons, sentFor, zip_cons_cons,
        filter_cons]
      cases rel : reliable p.head with
      | true => exact congrArg (RtphBuild.stamp.packet (TpChannelTx.stampPacket s p) :: ·) same
      | false =>
        rw [TpChannelTx.stamp_uno rel] at same
        rw [TpChannelTx.stamp_uno rel]
        exact same
    · cases k with
      | zero =>
        obtain rfl : p = r := Option.some.inj posted
        obtain rfl := Option.some.inj sent
        exact bypasses_stamp uno
      | succ k => exact bypass k r q posted sent uno

/-- Reliable packets leave as if there were no packets in UNO mode, and those leave without PSN
and TPMSN. -/
theorem uno_undisturbing {turns' : List (Turn (elements chans slots))}
    (drained : Drained chans slots ((start chans slots packets).run turns))
    (drained' : Drained chans slots
      ((start chans slots (packets.filter fun p => reliable p.head)).run turns')) :
    let mixed := (start chans slots packets).run turns
    let alone := (start chans slots (packets.filter fun p => reliable p.head)).run turns'
    ∃ sent : List Packet,
      mixed.queue 4 = sent.flatMap flits ∧ sent.length = packets.length ∧
      (sentFor packets sent).flatMap flits = alone.queue 4 ∧
      (mixed.state 0).chan = (alone.state 0).chan ∧ (mixed.state 2).tx = (alone.state 2).tx ∧
      ∀ (k : ℕ) (p q : Packet), packets[k]? = some p → sent[k]? = some q →
        svcMode.get p.head = svcUno → Bypasses p q := by
  obtain ⟨length, same, bypass⟩ := sent_spec (TpChannelTx.init chans) packets
  refine ⟨transmitted chans packets, output_eq drained, length, ?_, ?_, ?_,
    fun k p q posted sent uno => bypass k p q posted sent (by simp [reliable, uno])⟩
  · rw [output_eq drained', transmitted, transmitted, same]
  · rw [channels_eq drained, channels_eq drained', TpChannelTx.numbered_filter]
  · rw [slots_eq drained, slots_eq drained', TpChannelTx.send_filter, foldl_storePacket_filter]

def datagram : Packet where
  head := { lane0 := 7, lane2 := 3 <<< 58, sop := true }
  rest := [{ lane0 := 5, eop := true }]
  sop_head := rfl
  sop_rest := by simp
  eop_last := by decide

def round : List (Turn (elements (fun _ => default) fun _ _ => default)) :=
  [⟨0, true, ()⟩, ⟨1, true, ()⟩, ⟨2, true, ()⟩, ⟨3, true, ()⟩]

def rounds : List (Turn (elements (fun _ => default) fun _ _ => default)) :=
  (replicate 7 round).flatten

theorem uno_undisturbing_datagram :
    let posted := [SendPath.small, datagram, TransmitPath.rolWrite, datagram]
    let mixed := (start (fun _ => default) (fun _ _ => default) posted).run rounds
    let alone := (start (fun _ => default) (fun _ _ => default)
      (posted.filter fun p => reliable p.head)).run rounds
    ∃ sent : List Packet,
      mixed.queue 4 = sent.flatMap flits ∧ sent.length = posted.length ∧
      (sentFor posted sent).flatMap flits = alone.queue 4 ∧
      (mixed.state 0).chan = (alone.state 0).chan ∧ (mixed.state 2).tx = (alone.state 2).tx ∧
      ∀ (k : ℕ) (p q : Packet), posted[k]? = some p → sent[k]? = some q →
        svcMode.get p.head = svcUno → Bypasses p q :=
  uno_undisturbing (by decide +kernel) (by decide +kernel)

end UnoTraffic

end OpenURMA
