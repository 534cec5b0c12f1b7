import OpenURMA.Library.Rendezvous
import OpenURMA.Library.Run
import OpenURMA.Nic.DataPlane

/-!
# SENDs and receives

A SEND looks for a receive of its jetty, and a receive looks for a SEND that waits for its jetty.
For each jetty the two are streams that are paired in order.  A receive that serves a SEND which
has been waiting stays in the queue, though; a later SEND to the jetty finds it there.
-/

namespace OpenURMA.Nic

open Library List

inductive Message where
  | send (ctx : ℕ) (w : Wr)
  | recv (r : Recv)

def Message.IsMessage : Message → Prop
  | .send _ w => w.op = 0x40 ∨ w.op = 0x41
  | .recv _ => True

/-- A doorbell of a work request or of a receive. -/
def exchange : Mealy Node Message (List Effect)
  | n, .send ctx w => execute n ctx w
  | n, .recv r => recvDoorbell n r

structure Delivery where
  send : Send
  recv : Recv
  ok : Bool
  deriving DecidableEq

def Effect.delivery? : Effect → Option Delivery
  | .delivered s r ok => some ⟨s, r, ok⟩
  | _ => none

def Effect.cqe? : Effect → Option (U32 × Cqe)
  | .pushed jfc cqe => some (jfc, cqe)
  | _ => none

def deliveries (effects : List Effect) : List Delivery := effects.filterMap Effect.delivery?

def completions (effects : List Effect) : List (U32 × Cqe) := effects.filterMap Effect.cqe?

/-- The SENDs to a jetty, in order. -/
def sendsTo (j : U32) (events : List Message) : List Send :=
  events.filterMap fun
    | .send ctx w => if w.dcna = j then some (w.toSend ctx) else none
    | .recv _ => none

/-- The receives of a jetty, in order. -/
def recvsOf (j : U32) (events : List Message) : List Recv :=
  events.filterMap fun
    | .send _ _ => none
    | .recv r => if r.jetty = j then some r else none

/-- Which receive each SEND to a jetty has gone to. -/
def pairs (j : U32) (effects : List Effect) : List (Send × Recv) :=
  ((deliveries effects).filter fun d => d.send.jetty == j).map fun d => (d.send, d.recv)

def effectsOf (n : Node) (events : List Message) : List Effect := (exchange.trace n events).flatten

/-- The receive queue has room for what comes. -/
def Room (n : Node) : Message → Prop
  | .send _ _ => True
  | .recv _ => n.recvQ.length < 256

instance (n : Node) : (event : Message) → Decidable (Room n event)
  | .send _ _ => inferInstanceAs (Decidable True)
  | .recv _ => inferInstanceAs (Decidable (n.recvQ.length < 256))

def Message.isRecvOf (j : U32) : Message → Bool
  | .send _ _ => false
  | .recv r => r.jetty == j

/-- A receive of the jetty has come while a SEND was waiting for it. -/
def Overtaken (j : U32) (history : List Message) : Prop :=
  ∃ k < history.length, history[k]?.any (Message.isRecvOf j) = true ∧
    (recvsOf j (history.take k)).length < (sendsTo j (history.take k)).length

instance (j : U32) (history : List Message) : Decidable (Overtaken j history) :=
  inferInstanceAs (Decidable (∃ k < history.length, _ ∧ _))

/-- A SEND is addressed to a jetty no receive of which has come while a SEND was waiting. -/
def Prompt (history : List Message) : Message → Prop
  | .send _ w => ¬Overtaken w.dcna history
  | .recv _ => True

instance (history : List Message) : (event : Message) → Decidable (Prompt history event)
  | .send _ w => inferInstanceAs (Decidable (¬Overtaken w.dcna history))
  | .recv _ => inferInstanceAs (Decidable True)

variable {w : Wr}

section

variable {n : Node} {s : Send} {r : Recv} {ctx : ℕ}

@[simp] theorem filterMap_delivery?_dma (calls : List DmaCall) :
    (calls.map Effect.dma).filterMap Effect.delivery? = [] := by
  induction calls with
  | nil => rfl
  | cons call calls ih => exact ih

@[simp] theorem filterMap_cqe?_dma (calls : List DmaCall) :
    (calls.map Effect.dma).filterMap Effect.cqe? = [] := by
  induction calls with
  | nil => rfl
  | cons call calls ih => exact ih

theorem dpDeliverSend_spec (n : Node) (s : Send) (r : Recv) :
    (dpDeliverSend n s r).1.recvQ = n.recvQ ∧
      (dpDeliverSend n s r).1.pendingSendQ = n.pendingSendQ ∧
      (dpDeliverSend n s r).1.hasPeer = n.hasPeer ∧
      ∃ ok, deliveries (dpDeliverSend n s r).2 = [⟨s, r, ok⟩] ∧
        completions (dpDeliverSend n s r).2 = deliveryCqes s r ok := by
  refine ⟨rfl, rfl, rfl, (deliverPayload n s r n.memory).value.isSome, ?_, ?_⟩
  · rw [deliveries, dpDeliverSend, filterMap_append, filterMap_delivery?_dma]
    rfl
  · rw [completions, dpDeliverSend, filterMap_append, filterMap_cqe?_dma]
    rfl

theorem exchange_send_of_some (isSend : w.op = 0x40 ∨ w.op = 0x41)
    (found : (n.recvQ.find? fun r => r.jetty == w.dcna) = some r) :
    exchange n (.send ctx w) =
      dpDeliverSend { n with recvQ := n.recvQ.eraseP fun r => r.jetty == w.dcna }
        (w.toSend ctx) r := by
  have send : execute n ctx w = executeSend n ctx w := by
    rcases isSend with op | op <;> simp [execute, op]
  rw [exchange, send, executeSend, findRecv, found]
  rfl

theorem exchange_send_of_none (isSend : w.op = 0x40 ∨ w.op = 0x41) (alone : n.hasPeer = false)
    (missing : (n.recvQ.find? fun r => r.jetty == w.dcna) = none) :
    exchange n (.send ctx w) =
      ({ n with pendingSendQ := n.pendingSendQ ++ [w.toSend ctx] }, []) := by
  have send : execute n ctx w = executeSend n ctx w := by
    rcases isSend with op | op <;> simp [execute, op]
  rw [exchange, send, executeSend, findRecv, missing]
  simp [alone]

theorem exchange_recv_of_some (room : n.recvQ.length < 256)
    (found : (n.pendingSendQ.find? fun s => s.jetty == r.jetty) = some s) :
    exchange n (.recv r) =
      dpDeliverSend { n with
        recvQ := n.recvQ ++ [r]
        pendingSendQ := n.pendingSendQ.eraseP fun s => s.jetty == r.jetty } s r := by
  have fits : ¬(n.recvQ ++ [r]).length > 256 := by
    rw [length_append, length_singleton]
    omega
  simp only [exchange, recvDoorbell, if_neg fits, found]

theorem exchange_recv_of_none (room : n.recvQ.length < 256)
    (missing : (n.pendingSendQ.find? fun s => s.jetty == r.jetty) = none) :
    exchange n (.recv r) = ({ n with recvQ := n.recvQ ++ [r] }, []) := by
  have fits : ¬(n.recvQ ++ [r]).length > 256 := by
    rw [length_append, length_singleton]
    omega
  simp only [exchange, recvDoorbell, if_neg fits, missing]

end

variable {history : List Message}

section

variable {j : U32}

theorem sendsTo_snoc_self (here : w.dcna = j) (ctx : ℕ) :
    sendsTo j (history ++ [.send ctx w]) = sendsTo j history ++ [w.toSend ctx] := by
  simp [sendsTo, here]

theorem sendsTo_snoc_of_ne (other : w.dcna ≠ j) (ctx : ℕ) :
    sendsTo j (history ++ [.send ctx w]) = sendsTo j history := by
  simp [sendsTo, other]

@[simp] theorem sendsTo_snoc_recv (r : Recv) :
    sendsTo j (history ++ [.recv r]) = sendsTo j history := by
  simp [sendsTo]

variable {r : Recv}

theorem recvsOf_snoc_self (here : r.jetty = j) :
    recvsOf j (history ++ [.recv r]) = recvsOf j history ++ [r] := by
  simp [recvsOf, here]

theorem recvsOf_snoc_of_ne (other : r.jetty ≠ j) :
    recvsOf j (history ++ [.recv r]) = recvsOf j history := by
  simp [recvsOf, other]

@[simp] theorem recvsOf_snoc_send (ctx : ℕ) (w : Wr) :
    recvsOf j (history ++ [.send ctx w]) = recvsOf j history := by
  simp [recvsOf]

theorem Overtaken.snoc (overtaken : Overtaken j history) (event : Message) :
    Overtaken j (history ++ [event]) := by
  obtain ⟨k, inside, isRecv, behind⟩ := overtaken
  refine ⟨k, by simp; omega, ?_, ?_⟩
  · rwa [getElem?_append_left inside]
  · rwa [take_append_of_le_length (by omega)]

theorem overtaken_of_waiting (waiting : (recvsOf j history).length < (sendsTo j history).length)
    (here : r.jetty = j) : Overtaken j (history ++ [.recv r]) := by
  refine ⟨history.length, by simp, ?_, ?_⟩
  · simp [Message.isRecvOf, here]
  · rwa [take_left]

end

/-- A jetty's SENDs and receives have been paired in order; SENDs that are ahead are pending, and
receives that are ahead in the queue, unless one has come while a SEND was waiting. -/
structure Matched (history : List Message) (effects : List Effect) (n : Node) (j : U32) : Prop where
  delivered : pairs j effects = (sendsTo j history).zip (recvsOf j history)
  pending : (n.pendingSendQ.filter fun s => s.jetty == j) =
    (sendsTo j history).drop (recvsOf j history).length
  queued : ¬Overtaken j history → (n.recvQ.filter fun r => r.jetty == j) =
    (recvsOf j history).drop (sendsTo j history).length

section

variable {n : Node} {j : U32} {effects : List Effect}

theorem pairs_append (effects effects' : List Effect) :
    pairs j (effects ++ effects') = pairs j effects ++ pairs j effects' := by
  simp [pairs, deliveries]

theorem pairs_delivery_self {s : Send} (here : s.jetty = j) (n : Node) (r : Recv) :
    pairs j (dpDeliverSend n s r).2 = [(s, r)] := by
  obtain ⟨_, _, _, ok, delivered, _⟩ := dpDeliverSend_spec n s r
  simp [pairs, delivered, here]

theorem pairs_delivery_of_ne {s : Send} (other : s.jetty ≠ j) (n : Node) (r : Recv) :
    pairs j (dpDeliverSend n s r).2 = [] := by
  obtain ⟨_, _, _, ok, delivered, _⟩ := dpDeliverSend_spec n s r
  simp [pairs, delivered, other]

variable {r : Recv} (matched : Matched history effects n j)
include matched

/-- An event for another jetty changes nothing of this one. -/
theorem Matched.frame {event : Message} {effects' : List Effect} {n' : Node}
    (sends : sendsTo j (history ++ [event]) = sendsTo j history)
    (recvs : recvsOf j (history ++ [event]) = recvsOf j history)
    (silent : pairs j effects' = pairs j effects)
    (pending : (n'.pendingSendQ.filter fun s => s.jetty == j) =
      n.pendingSendQ.filter fun s => s.jetty == j)
    (queued : (n'.recvQ.filter fun r => r.jetty == j) = n.recvQ.filter fun r => r.jetty == j) :
    Matched (history ++ [event]) effects' n' j := by
  constructor
  · rw [silent, sends, recvs, matched.delivered]
  · rw [pending, sends, recvs, matched.pending]
  · intro before
    rw [queued, sends, recvs, matched.queued fun overtaken => before (overtaken.snoc _)]

theorem Matched.send_delivered {ctx : ℕ} (prompt : ¬Overtaken w.dcna history)
    (found : (n.recvQ.find? fun r => r.jetty == w.dcna) = some r) :
    Matched (history ++ [.send ctx w])
      (effects ++ (dpDeliverSend { n with recvQ := n.recvQ.eraseP fun r => r.jetty == w.dcna }
        (w.toSend ctx) r).2)
      (dpDeliverSend { n with recvQ := n.recvQ.eraseP fun r => r.jetty == w.dcna }
        (w.toSend ctx) r).1 j := by
  have addressed : (w.toSend ctx).jetty = w.dcna := rfl
  by_cases here : w.dcna = j
  · subst here
    have first := filter_of_find?_some found
    rw [matched.queued prompt] at first
    have behind : (sendsTo w.dcna history).length < (recvsOf w.dcna history).length := by
      have length := congrArg length first
      rw [length_drop, length_cons] at length
      omega
    constructor
    · rw [pairs_append, pairs_delivery_self addressed, matched.delivered, sendsTo_snoc_self rfl,
        recvsOf_snoc_send, zip_snoc_left first]
    · rw [sendsTo_snoc_self rfl, recvsOf_snoc_send, drop_eq_nil_of_le (by simp; omega),
        ← drop_eq_nil_of_le (Nat.le_of_lt behind)]
      exact matched.pending
    · intro _
      rw [sendsTo_snoc_self rfl, recvsOf_snoc_send, drop_snoc_of_waiting first,
        ← matched.queued prompt, ← filter_eraseP_self]
      rfl
  · refine matched.frame (sendsTo_snoc_of_ne here _) (recvsOf_snoc_send ..) ?_ rfl
      (filter_eraseP_of_ne (Ne.symm here))
    rw [pairs_append, pairs_delivery_of_ne (addressed ▸ here), append_nil]

theorem Matched.send_pending (ctx : ℕ) (prompt : ¬Overtaken w.dcna history)
    (missing : (n.recvQ.find? fun r => r.jetty == w.dcna) = none) :
    Matched (history ++ [.send ctx w]) effects
      { n with pendingSendQ := n.pendingSendQ ++ [w.toSend ctx] } j := by
  by_cases here : w.dcna = j
  · subst here
    have none := filter_of_find?_none missing
    rw [matched.queued prompt, drop_eq_nil_iff] at none
    constructor
    · rw [matched.delivered, sendsTo_snoc_self rfl, recvsOf_snoc_send, zip_snoc_left_of_le none]
    · rw [sendsTo_snoc_self rfl, recvsOf_snoc_send, drop_snoc_of_le none, ← matched.pending]
      simp [Wr.toSend]
    · intro _
      rw [sendsTo_snoc_self rfl, recvsOf_snoc_send, drop_eq_nil_of_le (by simp; omega)]
      exact filter_of_find?_none missing
  · refine matched.frame (sendsTo_snoc_of_ne here _) (recvsOf_snoc_send ..) rfl ?_ rfl
    simp [Wr.toSend, here]

theorem Matched.recv_delivered {s : Send}
    (found : (n.pendingSendQ.find? fun s => s.jetty == r.jetty) = some s) :
    Matched (history ++ [.recv r])
      (effects ++ (dpDeliverSend { n with
        recvQ := n.recvQ ++ [r]
        pendingSendQ := n.pendingSendQ.eraseP fun s => s.jetty == r.jetty } s r).2)
      (dpDeliverSend { n with
        recvQ := n.recvQ ++ [r]
        pendingSendQ := n.pendingSendQ.eraseP fun s => s.jetty == r.jetty } s r).1 j := by
  have addressed : s.jetty = r.jetty := by simpa using find?_some found
  by_cases here : r.jetty = j
  · subst here
    have first := filter_of_find?_some found
    rw [matched.pending] at first
    have behind : (recvsOf r.jetty history).length < (sendsTo r.jetty history).length := by
      have length := congrArg length first
      rw [length_drop, length_cons] at length
      omega
    constructor
    · rw [pairs_append, pairs_delivery_self addressed, matched.delivered, sendsTo_snoc_recv,
        recvsOf_snoc_self rfl, zip_snoc_right first]
    · rw [sendsTo_snoc_recv, recvsOf_snoc_self rfl, drop_snoc_of_waiting first, ← matched.pending,
        ← filter_eraseP_self]
      rfl
    · intro before
      exact absurd (overtaken_of_waiting behind rfl) before
  · refine matched.frame (sendsTo_snoc_recv r) (recvsOf_snoc_of_ne here) ?_
      (filter_eraseP_of_ne (Ne.symm here)) ?_
    · rw [pairs_append, pairs_delivery_of_ne (addressed ▸ here), append_nil]
    · change (n.recvQ ++ [r]).filter _ = _
      simp [here]

theorem Matched.recv_queued
    (missing : (n.pendingSendQ.find? fun s => s.jetty == r.jetty) = none) :
    Matched (history ++ [.recv r]) effects { n with recvQ := n.recvQ ++ [r] } j := by
  by_cases here : r.jetty = j
  · subst here
    have none := filter_of_find?_none missing
    rw [matched.pending, drop_eq_nil_iff] at none
    constructor
    · rw [matched.delivered, sendsTo_snoc_recv, recvsOf_snoc_self rfl, zip_snoc_right_of_le none]
    · rw [sendsTo_snoc_recv, recvsOf_snoc_self rfl, drop_eq_nil_of_le (by simp; omega)]
      exact filter_of_find?_none missing
    · intro before
      rw [sendsTo_snoc_recv, recvsOf_snoc_self rfl, drop_snoc_of_le none,
        ← matched.queued fun overtaken => before (overtaken.snoc _)]
      simp
  · refine matched.frame (sendsTo_snoc_recv r) (recvsOf_snoc_of_ne here) rfl rfl ?_
    simp [here]

end

section

variable {n : Node} {events : List Message}

theorem foldl_snoc (history events : List Message) :
    events.foldl (fun history event => history ++ [event]) history = history ++ events := by
  induction events generalizing history with
  | nil => simp
  | cons event events ih => simp [ih]

theorem effectsOf_snoc (event : Message) :
    effectsOf n (events ++ [event]) =
      effectsOf n events ++ (exchange (exchange.final n events) event).2 := by
  rw [effectsOf, Mealy.trace_append, flatten_append]
  simp [effectsOf, Mealy.trace]

theorem Matched.next (effects : List Effect) (event : Message) (isMessage : event.IsMessage)
    (alone : n.hasPeer = false) (room : Room n event) (prompt : Prompt history event) :
    (exchange n event).1.hasPeer = false ∧ ∀ j, Matched history effects n j →
        Matched (history ++ [event]) (effects ++ (exchange n event).2) (exchange n event).1 j := by
  cases event with
  | send ctx w =>
    cases found : n.recvQ.find? fun r => r.jetty == w.dcna with
    | some r =>
      rw [exchange_send_of_some isMessage found]
      exact ⟨alone, fun j matched => matched.send_delivered prompt found⟩
    | none =>
      rw [exchange_send_of_none isMessage alone found, append_nil]
      exact ⟨alone, fun j matched => matched.send_pending ctx prompt found⟩
  | recv r =>
    cases found : n.pendingSendQ.find? fun s => s.jetty == r.jetty with
    | some s =>
      rw [exchange_recv_of_some room found]
      exact ⟨alone, fun j matched => matched.recv_delivered found⟩
    | none =>
      rw [exchange_recv_of_none room found, append_nil]
      exact ⟨alone, fun j matched => matched.recv_queued found⟩

theorem completions_append (effects effects' : List Effect) :
    completions (effects ++ effects') = completions effects ++ completions effects' :=
  filterMap_append

theorem deliveries_append (effects effects' : List Effect) :
    deliveries (effects ++ effects') = deliveries effects ++ deliveries effects' :=
  filterMap_append

theorem completions_exchange (event : Message) (isMessage : event.IsMessage)
    (alone : n.hasPeer = false) (room : Room n event) :
    completions (exchange n event).2 =
      (deliveries (exchange n event).2).flatMap fun d => deliveryCqes d.send d.recv d.ok := by
  have delivery : ∀ (n : Node) (s : Send) (r : Recv), completions (dpDeliverSend n s r).2 =
      (deliveries (dpDeliverSend n s r).2).flatMap fun d => deliveryCqes d.send d.recv d.ok := by
    intro n s r
    obtain ⟨_, _, _, ok, delivered, pushed⟩ := dpDeliverSend_spec n s r
    rw [delivered, pushed, flatMap_singleton]
  cases event with
  | send ctx w =>
    cases found : n.recvQ.find? fun r => r.jetty == w.dcna with
    | some r =>
      rw [exchange_send_of_some isMessage found]
      exact delivery _ _ _
    | none =>
      rw [exchange_send_of_none isMessage alone found]
      rfl
  | recv r =>
    cases found : n.pendingSendQ.find? fun s => s.jetty == r.jetty with
    | some s =>
      rw [exchange_recv_of_some room found]
      exact delivery _ _ _
    | none =>
      rw [exchange_recv_of_none room found]
      rfl

/-- In every run in which no SEND is addressed to a jetty that a receive has come for while a SEND
was waiting, the SENDs to a jetty go to its receives in order, and each delivery pushes a completion
for either side. -/
theorem sends_matched (fresh : n.recvQ = [] ∧ n.pendingSendQ = []) (alone : n.hasPeer = false)
    (messages : ∀ event ∈ events, event.IsMessage) (room : Along exchange.next Room n events)
    (prompt : Along (fun history event => history ++ [event]) Prompt [] events) :
    (∀ j, pairs j (effectsOf n events) = (sendsTo j events).zip (recvsOf j events)) ∧
      completions (effectsOf n events) =
        (deliveries (effectsOf n events)).flatMap fun d => deliveryCqes d.send d.recv d.ok := by
  suffices invariant : (exchange.final n events).hasPeer = false ∧
      (∀ j, Matched events (effectsOf n events) (exchange.final n events) j) ∧
      completions (effectsOf n events) =
        (deliveries (effectsOf n events)).flatMap fun d => deliveryCqes d.send d.recv d.ok from
    ⟨fun j => (invariant.2.1 j).delivered, invariant.2.2⟩
  induction events using reverseRecOn with
  | nil =>
    refine ⟨alone, fun j => ⟨rfl, ?_, fun _ => ?_⟩, rfl⟩
    · simp [fresh.2, sendsTo]
    · simp [fresh.1, recvsOf]
  | append_singleton events event ih =>
    rw [forall_mem_append] at messages
    rw [along_append] at room prompt
    obtain ⟨alone, matched, pushed⟩ := ih messages.1 room.1 prompt.1
    have isMessage := messages.2 event (mem_singleton_self event)
    have prompt := prompt.2.1
    rw [foldl_snoc, nil_append] at prompt
    obtain ⟨alone', step⟩ :=
      Matched.next (effectsOf n events) event isMessage alone room.2.1 prompt
    rw [Mealy.final_snoc, effectsOf_snoc, completions_append, deliveries_append,
      flatMap_append, pushed, completions_exchange event isMessage alone room.2.1]
    exact ⟨alone', fun j => step j (matched j), rfl⟩

end

def flatNode : Node := ⟨flatGuest, flatTable, true, false, [], [], fun _ => []⟩

def oneOctet (jetty : U32) (uctx : U64) : Message :=
  .send 0 ⟨0x40, 0, jetty, 3, 0, 0x1000, 0, 0, 1, uctx, 0, 1, 0⟩

def oneBuffer (jetty : U32) (uctx : U64) : Message := .recv ⟨jetty, 1, 0x3000, uctx, 1, 4⟩

theorem sends_matched_twoJetties :
    let events := [oneOctet 1 10, oneBuffer 1 20, oneBuffer 2 21, oneOctet 2 11]
    (∀ j, pairs j (effectsOf flatNode events) = (sendsTo j events).zip (recvsOf j events)) ∧
      completions (effectsOf flatNode events) =
        (deliveries (effectsOf flatNode events)).flatMap fun d => deliveryCqes d.send d.recv d.ok :=
  sends_matched ⟨rfl, rfl⟩ rfl (by simp [oneOctet, oneBuffer, Message.IsMessage])
    (by decide +kernel) (by decide +kernel)

/-- The receive that serves a waiting SEND serves the next one as well. -/
theorem recv_used_twice :
    let events := [oneOctet 1 10, oneBuffer 1 20, oneOctet 1 11]
    Along exchange.next Room flatNode events ∧
      (pairs 1 (effectsOf flatNode events)).map (fun pair => (pair.1.uctx, pair.2.uctx)) =
        [(10, 20), (11, 20)] ∧
      pairs 1 (effectsOf flatNode events) ≠ (sendsTo 1 events).zip (recvsOf 1 events) := by
  decide +kernel

end OpenURMA.Nic
