import OpenURMA.Library.Run
import OpenURMA.Transport.ChannelRx
import OpenURMA.Transport.ChannelTx
import OpenURMA.Transport.Pipeline

/-!
# Two nodes with the reference topology

Both nodes post requests and answer those of the other over links that lose and reorder nothing. A
node is its two channels and the requests not yet answered; the stages between `UB_BTAH_Parse` and
`UB_Completion_Gen` leave the metadata of a request as it is and may finish requests in any order. A
frame on a link is the packet that `UB_NTH_Build` emits, as the codec carries metadata unchanged.
-/

namespace OpenURMA.TwoNodes

open Library TpChannelTx UbMeta NthParse RtphParse TpChannelRx BitField Function Ports Bool
open NthBuild (get_build)

def isRtphData (m : Flit) : Bool :=
  nthNlp.get m == nthNlpRtph && tpOpcode.get m &&& 0x7F == tpopRtpData

section

variable (nth : NthBuild.State)

def requestFrame (tx : TpChannelTx.State) (p : Packet) : Packet :=
  (NthBuild.stamp nth).packet (RtphBuild.stamp.packet (stampPacket tx p))

/-- The frame for a request that comes back from the memory units, if there is one. -/
def responseFrame (p : Packet) : Option Packet :=
  if TaackGen.drops (CompletionGen.stamp.packet p).head then none
  else some ((NthBuild.stamp nth).packet (TaackGen.stamp.packet (CompletionGen.stamp.packet p)))

theorem sent_requestFrame (tx : TpChannelTx.State) (p : Packet) :
    Ports.sent 1 ((NthBuild.step nth).trace ()
      (Ports.sent 1 (RtphBuild.step.trace () (stampPacket tx p).flits))) =
      (requestFrame nth tx p).flits := by
  rw [RtphBuild.step, Stamp.trace_packet, sent_map_emit, NthBuild.step,
    Stamp.trace_packet, sent_map_emit]
  rfl

theorem sent_responseFrame (haveMeta dropPkt : Bool) (p : Packet) :
    Ports.sent 1 ((NthBuild.step nth).trace () (Ports.sent 1 (TaackGen.step.trace dropPkt
        (Ports.sent 1 (CompletionGen.step.trace haveMeta p.flits))))) =
      (responseFrame nth p).elim [] Packet.flits := by
  rw [CompletionGen.trace_packet, sent_map_emit, TaackGen.sent_packet, responseFrame]
  split
  · rfl
  · rw [NthBuild.step, Stamp.trace_packet, sent_map_emit]
    rfl

end

section

variable {m : Flit}

theorem isRtphData_iff : isRtphData m = true ↔
    nthNlp.get m = nthNlpRtph ∧ tpOpcode.get m &&& 0x7F = tpopRtpData := by
  simp [isRtphData]

theorem routed_of_data (data : isRtphData m = true) : goUtp m = false ∧ isAck m = false := by
  obtain ⟨nlp, opcode⟩ := isRtphData_iff.mp data
  rw [goUtp, nlp]
  simp only [isAck, opcode]
  decide

theorem not_data_of_goUtp (utp : goUtp m = true) : isRtphData m = false := by
  rw [eq_false_iff]
  intro data
  rw [(routed_of_data data).1] at utp
  cases utp

end

/-- What both nodes and the link need to know of a data frame. -/
structure DataFrame (p : Packet) (source : U32) (number : ℕ) (response : Bool) : Prop where
  data : isRtphData p.head = true
  source : scna.get p.head = source
  psn : (psn.get p.head).toNat = number % 2 ^ 24
  response : BtahParse.isResp p.head = response

section

variable (nth : NthBuild.State) {tx : TpChannelTx.State} {p : Packet} {dest : U32} {n : ℕ}

theorem requestFrame_reliable (counts : Counts tx dest n)
    (reliable : svcMode.get p.head ≠ svcUno) (addressed : dcna.get p.head = dest) :
    DataFrame (requestFrame nth tx p) (nth.localScna &&& mask 32 24) n (BtahParse.isResp p.head) ∧
      svcMode.get (requestFrame nth tx p).head = svcMode.get p.head := by
  have stamped := stamp_reliable (s := tx) reliable addressed
  have psn := (counts.stamp reliable addressed).2
  rw [stamped] at psn
  have head : (requestFrame nth tx p).head = NthBuild.build nth
      (RtphBuild.build (stamp tx p.head).2) := rfl
  rw [stamped] at head
  generalize openChan (tx.chan (TpChannelTx.idx dest)) dest = c at psn head
  have svc : svcMode.get (stampRtp c p.head) = svcMode.get p.head :=
    get_stampRtp (by decide) c p.head
  have rtph : nthNlp.get (stampRtp c p.head) = nthNlpRtph := by
    rw [stampRtp, Field.get_set_same]
    decide
  rw [← svc] at reliable
  have data := RtphBuild.data_build rtph reliable
  have known : nthNlp.get (RtphBuild.build (stampRtp c p.head)) ≠ 0 := by
    rw [data.1]
    decide
  refine ⟨⟨?_, ?_, ?_, ?_⟩, ?_⟩
  · rw [isRtphData_iff, head, get_build known (by decide),
      get_build known (by decide)]
    exact data
  · rw [head, NthBuild.scna_build known]
  · rw [head, get_build known (by decide), RtphBuild.get_build rtph reliable (by decide)]
    exact psn
  · rw [BtahParse.isResp, head, get_build known (by decide),
      RtphBuild.get_build rtph reliable (by decide), get_stampRtp (by decide)]
    rfl
  · rw [head, get_build known (by decide), RtphBuild.get_build rtph reliable (by decide),
      svc]

theorem requestFrame_uno (tx : TpChannelTx.State) (uno : svcMode.get p.head = svcUno) :
    goUtp (requestFrame nth tx p).head = true ∧
      BtahParse.isResp (requestFrame nth tx p).head = BtahParse.isResp p.head ∧
      (stamp tx p.head).1 = tx := by
  have stamped : stamp tx p.head = (tx, stampUno p.head) := by
    rw [stamp, if_pos (by simp [uno])]
  have head : (requestFrame nth tx p).head = NthBuild.build nth
      (RtphBuild.build (stamp tx p.head).2) := rfl
  have kept : svcMode.get (stampUno p.head) = svcUno := by
    rw [stampUno, ← uno]
    iterate 4 rw [Field.get_set_disjoint (by decide)]
  have utph : nthNlp.get (stampUno p.head) = nthNlpUtph := by
    rw [stampUno]
    iterate 3 rw [Field.get_set_disjoint (by decide)]
    rw [Field.get_set_same]
    decide
  have known : nthNlp.get (stampUno p.head) ≠ 0 := by
    rw [utph]
    decide
  rw [stamped] at head ⊢
  rw [RtphBuild.build_uno kept] at head
  refine ⟨?_, ?_, rfl⟩
  · rw [goUtp, head, get_build known (by decide), utph]
    rfl
  · rw [BtahParse.isResp, head, get_build known (by decide), stampUno]
    iterate 4 rw [Field.get_set_disjoint (by decide)]
    rfl

end

section

variable (nth : NthBuild.State) {p : Packet}

theorem drops_turned (m : Flit) : TaackGen.drops (CompletionGen.build m) = TaackGen.drops m := by
  rw [TaackGen.drops, CompletionGen.get_build (by decide), TaackGen.drops]

theorem responseFrame_dropped (drops : TaackGen.drops p.head = true) : responseFrame nth p = none :=
  if_pos ((drops_turned p.head).trans drops)

theorem responseFrame_sent (drops : TaackGen.drops p.head = false)
    (data : isRtphData p.head = true) :
    ∃ frame, responseFrame nth p = some frame ∧
      DataFrame frame (nth.localScna &&& mask 32 24) (psn.get p.head).toNat true := by
  have turned : TaackGen.drops (CompletionGen.build p.head) = false :=
    (drops_turned p.head).trans drops
  refine ⟨_, if_neg (eq_false_iff.mp turned), ?_⟩
  have head : ((NthBuild.stamp nth).packet (TaackGen.stamp.packet
      (CompletionGen.stamp.packet p))).head =
      NthBuild.build nth (TaackGen.build (CompletionGen.build p.head)) := rfl
  obtain ⟨nlp, opcode⟩ := isRtphData_iff.mp data
  have nlpKept : nthNlp.get (TaackGen.build (CompletionGen.build p.head)) =
      nthNlpRtph := by
    rw [TaackGen.get_build (by decide), CompletionGen.get_build (by decide), nlp]
  have known : nthNlp.get (TaackGen.build (CompletionGen.build p.head)) ≠ 0 := by
    rw [nlpKept]
    decide
  have small : (psn.get p.head).toNat < 2 ^ 24 := by
    rw [← Field.get_and_mask psn (Nat.le_refl 24) p.head, toNat_and_mask (by omega)]
    exact Nat.mod_lt _ (by decide)
  refine ⟨?_, ?_, ?_, ?_⟩
  · rw [isRtphData_iff, head, get_build known (by decide),
      get_build known (by decide), nlpKept, TaackGen.get_build (by decide),
      CompletionGen.get_build (by decide)]
    exact ⟨rfl, opcode⟩
  · rw [head, NthBuild.scna_build known]
  · rw [head, get_build known (by decide), TaackGen.get_build (by decide),
      CompletionGen.get_build (by decide), Nat.mod_eq_of_lt small]
  · rw [BtahParse.isResp, head, get_build known (by decide),
      TaackGen.get_build (by decide), CompletionGen.isResponse_build]

end

inductive Side where
  | left
  | right
  deriving DecidableEq

namespace Side

def peer : Side → Side
  | left => right
  | right => left

@[simp] theorem peer_peer (x : Side) : x.peer.peer = x := by cases x <;> rfl

@[simp] theorem peer_ne (x : Side) : x.peer ≠ x := by cases x <;> decide

@[simp] theorem ne_peer (x : Side) : x ≠ x.peer := x.peer_ne.symm

theorem forall_iff {holds : Side → Prop} (x : Side) : (∀ y, holds y) ↔ holds x ∧ holds x.peer := by
  refine ⟨fun every => ⟨every x, every x.peer⟩, fun both y => ?_⟩
  cases x <;> cases y <;> first | exact both.1 | exact both.2

end Side

structure Node where
  tx : TpChannelTx.State
  rx : TpChannelRx.State
  requests : List Flit

/-- Requests go to the target stages, responses to the host. -/
def Node.take (n : Node) (m : Flit) : Node :=
  if BtahParse.isResp m then n else { n with requests := n.requests ++ [m] }

variable {n : Node}

theorem Node.take_response {m : Flit} (response : BtahParse.isResp m = true) : n.take m = n :=
  if_pos response

theorem Node.take_request {m : Flit} (request : BtahParse.isResp m = false) :
    n.take m = { n with requests := n.requests ++ [m] } :=
  if_neg (eq_false_iff.mp request)

def Node.receive (n : Node) (p : Packet) : Node :=
  if goUtp p.head then n.take (UtphParse.build p.head)
  else if isAck p.head then n
  else
    let n' := { n with rx := deliver n.rx p }
    (forwarded n.rx p).head?.elim n' n'.take

theorem sent_toChannel (kept ack : Bool) (p : Packet) :
    Ports.sent 1 (RtphParse.step.trace ack (Ports.sent 1 (NthParse.step.trace kept p.flits))) =
      if goUtp p.head || isAck p.head then [] else p.flits := by
  rw [NthParse.step, sent_route_first]
  cases goUtp p.head with
  | true => rfl
  | false => exact sent_route_first isAck ack p

theorem sent_utph (kept : Bool) (p : Packet) :
    Ports.sent 1 (UtphParse.step.trace () (Ports.sent 2 (NthParse.step.trace kept p.flits))) =
      if goUtp p.head then (UtphParse.stamp.packet p).flits else [] := by
  rw [NthParse.step, sent_route_second]
  cases goUtp p.head with
  | true =>
    rw [if_pos rfl, UtphParse.step, Stamp.trace_packet, sent_map_emit]
    rfl
  | false => rfl

theorem sent_requests (kept : Bool) (p : Packet) :
    Ports.sent 1 (BtahParse.step.trace kept p.flits) =
      if BtahParse.isResp p.head then [] else p.flits :=
  sent_route_first BtahParse.isResp kept p

theorem Node.receive_utp {p : Packet} (utp : goUtp p.head = true) :
    n.receive p = n.take (UtphParse.build p.head) :=
  if_pos utp

theorem Node.receive_data {p : Packet} (data : isRtphData p.head = true)
    (accepted : forwarded n.rx p = p.flits) :
    n.receive p = { n with rx := deliver n.rx p }.take p.head := by
  obtain ⟨rtph, notAck⟩ := routed_of_data data
  rw [receive, if_neg (eq_false_iff.mp rtph), if_neg (eq_false_iff.mp notAck), accepted]
  rfl

structure Net where
  node : Side → Node
  link : Side → List Packet

namespace Net

def setNode (net : Net) (x : Side) (n : Node) : Net :=
  { net with node := update net.node x n }

def setLink (net : Net) (x : Side) (frames : List Packet) : Net :=
  { net with link := update net.link x frames }

variable (net : Net) (x : Side) (n : Node) (frames : List Packet)

@[simp] theorem node_setNode : (net.setNode x n).node x = n := update_self ..

@[simp] theorem node_setNode_peer : (net.setNode x n).node x.peer = net.node x.peer :=
  update_of_ne x.peer_ne ..

@[simp] theorem node_setNode_other : (net.setNode x.peer n).node x = net.node x :=
  update_of_ne x.ne_peer ..

@[simp] theorem link_setNode : (net.setNode x n).link = net.link := rfl

@[simp] theorem link_setLink : (net.setLink x frames).link x = frames :=
  update_self ..

@[simp] theorem link_setLink_peer : (net.setLink x frames).link x.peer = net.link x.peer :=
  update_of_ne x.peer_ne ..

@[simp] theorem node_setLink : (net.setLink x frames).node = net.node := rfl

end Net

/-- What control messages have set up in the `UB_NTH_Build` of each node. -/
abbrev Setup := Side → NthBuild.State

def Setup.cna (setup : Setup) (x : Side) : U32 := (setup x).localScna &&& mask 32 24

/-- A request to the other node; the decoder tells responses by their opcode. -/
def Setup.Asks (setup : Setup) (x : Side) (p : Packet) : Prop :=
  dcna.get p.head = setup.cna x.peer ∧ BtahParse.isResp p.head = false ∧
    isResp (taOpcode.get p.head) = false
deriving Decidable

/-- What can happen: a node posts a request, the oldest frame of a link arrives, or a request
leaves the target stages as the packet `reply`. -/
inductive Action where
  | post (x : Side) (p : Packet)
  | deliver (x : Side)
  | respond (x : Side) (k : ℕ) (reply : Packet)

def step (setup : Setup) (net : Net) : Action → Net
  | .post x p =>
    if setup.Asks x p then
      (net.setNode x { net.node x with tx := (stamp (net.node x).tx p.head).1 }).setLink
        x (net.link x ++ [requestFrame (setup x) (net.node x).tx p])
    else net
  | .deliver x =>
    match net.link x with
    | [] => net
    | p :: frames => (net.setLink x frames).setNode x.peer ((net.node x.peer).receive p)
  | .respond x k reply =>
    if (net.node x).requests[k]? = some reply.head then
      (net.setNode x { net.node x with requests := (net.node x).requests.eraseIdx k }).setLink
        x (net.link x ++ (responseFrame (setup x) reply).toList)
    else net

structure Memory where
  tx : Side → Fin 64 → Chan
  rx : Side → Fin 16 → U32

def init (memory : Memory) : Net where
  node x := ⟨TpChannelTx.init (memory.tx x), TpChannelRx.init (memory.rx x), []⟩
  link _ := []

def run (setup : Setup) (memory : Memory) (actions : List Action) : Net :=
  actions.foldl (step setup) (init memory)

def Accepts (net : Net) : Action → Prop
  | .deliver x => ∀ p ∈ (net.link x).head?, isRtphData p.head = true →
      forwarded (net.node x.peer).rx p = p.flits
  | _ => True

instance (net : Net) : (action : Action) → Decidable (Accepts net action)
  | .deliver x => inferInstanceAs (Decidable (∀ p ∈ (net.link x).head?,
      isRtphData p.head = true → forwarded (net.node x.peer).rx p = p.flits))
  | .post .. => inferInstanceAs (Decidable True)
  | .respond .. => inferInstanceAs (Decidable True)

/-- Every data frame that arrives in a run is handed on, once. -/
def AllAccepted (setup : Setup) (memory : Memory) (actions : List Action) : Prop :=
  Along (step setup) Accepts (init memory) actions

end OpenURMA.TwoNodes
