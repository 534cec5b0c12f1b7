import OpenURMA.Library.Numbering
import OpenURMA.Transport.Receivers
import OpenURMA.Transport.TwoNodes

/-!
# Nodes that send frames of one kind

The frames of a node are numbered from two places: its requests by its own channel, its
responses by the requests they answer.  If every node sends frames of one kind only, the
numbers on each link are consecutive and every frame is accepted.
-/

namespace OpenURMA.TwoNodes

open Library TpChannelRx UbMeta Function Node List
open TaackGen (drops)

/-- A node that is no requester posts in UNO mode only and answers the oldest request first;
requests between requesters are in ROL mode and requests to the others are not. -/
def Fits (requester : Side → Bool) : Action → Prop
  | .post x p => svcMode.get p.head = svcUno ∨
      (requester x = true ∧ (svcMode.get p.head = svcRol ↔ requester x.peer = true))
  | .deliver _ => True
  | .respond x k _ => requester x = true ∨ k = 0

instance (requester : Side → Bool) : (action : Action) → Decidable (Fits requester action)
  | .post .. => inferInstanceAs (Decidable (_ ∨ _))
  | .deliver _ => inferInstanceAs (Decidable True)
  | .respond .. => inferInstanceAs (Decidable (_ ∨ _))

variable {requester : Side → Bool} {setup : Setup} {x : Side}

def dataNumber (p : Packet) : Option ℕ :=
  if isRtphData p.head then some (psn.get p.head).toNat else none

def answerNumber (m : Flit) : Option ℕ :=
  if drops m then none else some (psn.get m).toNat

variable {p : Packet}

theorem dataNumber_utp (utp : NthParse.goUtp p.head = true) : dataNumber p = none := by
  rw [dataNumber, not_data_of_goUtp utp]
  rfl

theorem dataNumber_data (data : isRtphData p.head = true) :
    dataNumber p = some (psn.get p.head).toNat :=
  if_pos data

variable {m : Flit}

theorem answerNumber_dropped (drops : drops m = true) : answerNumber m = none :=
  if_pos drops

theorem answerNumber_answered (answered : drops m = false) :
    answerNumber m = some (psn.get m).toNat :=
  if_neg (Bool.eq_false_iff.mp answered)

inductive Frame (setup : Setup) (requester : Side → Bool) (x : Side) (p : Packet) : Prop where
  | uno (utp : NthParse.goUtp p.head = true) (request : BtahParse.isResp p.head = false)
  | request (data : isRtphData p.head = true) (source : scna.get p.head = setup.cna x)
      (role : requester x = true) (request : BtahParse.isResp p.head = false)
      (mode : drops p.head = requester x.peer)
  | response (data : isRtphData p.head = true) (source : scna.get p.head = setup.cna x)
      (role : requester x = false) (peerRole : requester x.peer = true)
      (response : BtahParse.isResp p.head = true)

/-- One direction: of the data frames of `x`, `arrived` have arrived and `waiting` are on the link.
A node that is no requester has `pending` requests to answer out of `served`. -/
structure Lane (setup : Setup) (requester : Side → Bool) (x : Side) (link : List Packet)
    (remote : TpChannelRx.State) (tx : TpChannelTx.State) (requests : List Flit)
    (arrived waiting pending served : ℕ) : Prop where
  numbered : Numbered (2 ^ 24) dataNumber arrived waiting link
  frames : ∀ p ∈ link, Frame setup requester x p
  window : ∃ slots, Represents remote slots ∧ slots.Expects (setup.cna x) arrived
  counts : requester x = true → TpChannelTx.Counts tx (setup.cna x.peer) (arrived + waiting)
  unanswered : requester x = true → ∀ m ∈ requests, drops m = true
  answers : requester x = false →
    Numbered (2 ^ 24) answerNumber (arrived + waiting) pending requests ∧
      arrived + waiting + pending = served
  taken : ∀ m ∈ requests, drops m = false →
    isRtphData m = true ∧ requester x.peer = true

variable {reply : Packet}

section

variable {link : List Packet} {remote : TpChannelRx.State} {tx : TpChannelTx.State}
variable {requests : List Flit} {arrived waiting pending served : ℕ} {p : Packet}

theorem drops_of_reliable {value : Bool} (reliable : svcMode.get m ≠ svcUno)
    (mode : svcMode.get m = svcRol ↔ value = true) : drops m = value := by
  rw [drops, Bool.eq_iff_iff, ← mode]
  simp [reliable]

theorem Lane.post
    (lane : Lane setup requester x link remote tx requests arrived waiting pending served)
    (asks : setup.Asks x p) (fits : Fits requester (.post x p)) :
    ∃ waiting, Lane setup requester x (link ++ [requestFrame (setup x) tx p]) remote
      (TpChannelTx.stamp tx p.head).1 requests arrived waiting pending served := by
  obtain ⟨addressed, request, _⟩ := asks
  by_cases uno : svcMode.get p.head = svcUno
  · obtain ⟨utp, kind, kept⟩ := requestFrame_uno (setup x) tx uno
    rw [kept]
    refine ⟨waiting, { lane with numbered := ?_, frames := ?_ }⟩
    · exact lane.numbered.push_none (dataNumber_utp utp)
    · exact forall_mem_append.mpr
        ⟨lane.frames, forall_mem_singleton.mpr (.uno utp (kind.trans request))⟩
  · obtain ⟨role, mode⟩ := fits.resolve_left uno
    have counts := lane.counts role
    obtain ⟨frame, svc⟩ := requestFrame_reliable (setup x) counts uno addressed
    refine ⟨waiting + 1, ⟨?_, ?_, lane.window, fun _ => (counts.stamp uno addressed).1,
      lane.unanswered, fun impossible => ?_, lane.taken⟩⟩
    · apply lane.numbered.push
      rw [dataNumber_data frame.data, frame.psn]
    · refine forall_mem_append.mpr ⟨lane.frames, forall_mem_singleton.mpr ?_⟩
      refine .request frame.data frame.source role (frame.response.trans request) ?_
      exact drops_of_reliable (svc ▸ uno) (svc ▸ mode)
    · rw [role] at impossible
      cases impossible

theorem Lane.arrive_uno
    (lane : Lane setup requester x (p :: link) remote tx requests arrived waiting pending served)
    (utp : NthParse.goUtp p.head = true) :
    Lane setup requester x link remote tx requests arrived waiting pending served :=
  { lane with
    numbered := lane.numbered.pop_none (dataNumber_utp utp)
    frames := fun q member => lane.frames q (by simp [member]) }

theorem Lane.arrive_data
    (lane : Lane setup requester x (p :: link) remote tx requests arrived waiting pending served)
    (data : isRtphData p.head = true) (source : scna.get p.head = setup.cna x) :
    forwarded remote p = p.flits ∧ (psn.get p.head).toNat = arrived % 2 ^ 24 ∧
      ∃ waiting, Lane setup requester x link (deliver remote p) tx requests
        (arrived + 1) waiting pending served := by
  obtain ⟨rest, rfl, psn, numbered⟩ := lane.numbered.pop (dataNumber_data data)
  obtain ⟨slots, represents, expects⟩ := lane.window
  let a : Arrival := ⟨arrived, p, psn⟩
  have own : a.source = setup.cna x := source
  have close : slots.Close a := by
    rw [Slots.Close, own, expects.window.1, Near]
    exact ⟨Nat.le_add_right .., Nat.le_add_right ..⟩
  have accepted := forwarded_spec represents a close
  rw [own, show a.number = arrived from rfl, expects.verdict] at accepted
  have represented := represents_deliver represents a close
  rw [own] at represented
  refine ⟨accepted, psn, rest, ?_⟩
  refine
    { lane with
      numbered := numbered
      frames := fun q member => lane.frames q (by simp [member])
      window := ⟨_, represented, expects.arrive_next⟩
      counts := fun role => ?_
      answers := fun role => ?_ }
  · rw [show arrived + 1 + rest = arrived + (rest + 1) by omega]
    exact lane.counts role
  · rw [show arrived + 1 + rest = arrived + (rest + 1) by omega]
    exact lane.answers role

variable (lane : Lane setup requester x link remote tx requests arrived waiting pending served)
include lane

theorem Lane.take_unanswered (drops : drops m = true) :
    Lane setup requester x link remote tx (requests ++ [m]) arrived waiting pending served :=
  { lane with
    unanswered := fun role => forall_mem_append.mpr
      ⟨lane.unanswered role, forall_mem_singleton.mpr drops⟩
    answers := fun role =>
      ⟨(lane.answers role).1.push_none (answerNumber_dropped drops), (lane.answers role).2⟩
    taken := by
      refine forall_mem_append.mpr ⟨lane.taken, forall_mem_singleton.mpr ?_⟩
      intro answered
      rw [drops] at answered
      cases answered }

theorem Lane.served_irrelevant (role : requester x = true) (now : ℕ) :
    Lane setup requester x link remote tx requests arrived waiting pending now :=
  { lane with
    answers := fun impossible => by
      rw [role] at impossible
      cases impossible }

theorem Lane.take_answered (role : requester x = false) (peerRole : requester x.peer = true)
    (data : isRtphData m = true) (answered : drops m = false)
    (psn : (psn.get m).toNat = served % 2 ^ 24) :
    Lane setup requester x link remote tx (requests ++ [m]) arrived waiting (pending + 1)
      (served + 1) := by
  obtain ⟨numbered, total⟩ := lane.answers role
  refine
    { lane with
      unanswered := fun impossible => ?_
      answers := fun _ => ⟨numbered.push ?_, by omega⟩
      taken := forall_mem_append.mpr
        ⟨lane.taken, forall_mem_singleton.mpr fun _ => ⟨data, peerRole⟩⟩ }
  · rw [role] at impossible
    cases impossible
  · rw [answerNumber_answered answered, psn, total]

variable {k : ℕ} (fits : Fits requester (.respond x k reply))
variable (found : requests[k]? = some reply.head)
include fits found

theorem Lane.respond_dropped (drops : drops reply.head = true) :
    Lane setup requester x link remote tx (requests.eraseIdx k) arrived waiting pending served := by
  refine
    { lane with
      unanswered := fun role m member => lane.unanswered role m (mem_of_mem_eraseIdx member)
      answers := fun role => ?_
      taken := fun m member => lane.taken m (mem_of_mem_eraseIdx member) }
  obtain ⟨numbered, total⟩ := lane.answers role
  obtain rfl : k = 0 := fits.resolve_left (by simp [role])
  cases requests with
  | nil => cases found
  | cons m requests =>
    cases found
    exact ⟨numbered.pop_none (answerNumber_dropped drops), total⟩

/-- A request leaves the target stages and is answered: the response continues the numbering
of the node's frames. -/
theorem Lane.respond_answered (answered : drops reply.head = false) :
    ∃ pending, Lane setup requester x (link ++ (responseFrame (setup x) reply).toList) remote tx
      (requests.eraseIdx k) arrived (waiting + 1) pending served := by
  have member := mem_of_getElem? found
  obtain ⟨data, peerRole⟩ := lane.taken _ member answered
  have role : requester x = false := by
    rw [Bool.eq_false_iff]
    intro role
    rw [lane.unanswered role _ member] at answered
    cases answered
  obtain rfl : k = 0 := fits.resolve_left (by simp [role])
  obtain ⟨frame, sent, isData⟩ := responseFrame_sent (setup x) answered data
  cases requests with
  | nil => cases found
  | cons m requests =>
    cases found
    obtain ⟨numbered, total⟩ := lane.answers role
    obtain ⟨rest, rfl, psn, later⟩ := numbered.pop (answerNumber_answered answered)
    rw [sent]
    refine ⟨rest, ⟨?_, ?_, lane.window, fun impossible => ?_, fun impossible => ?_,
      fun _ => ⟨later, by omega⟩, fun m member => lane.taken m (mem_of_mem_eraseIdx member)⟩⟩
    · apply lane.numbered.push
      rw [dataNumber_data isData.data, isData.psn, psn, Nat.mod_mod]
    · exact forall_mem_append.mpr ⟨lane.frames, forall_mem_singleton.mpr
        (.response isData.data isData.source role peerRole isData.response)⟩
    all_goals
      rw [role] at impossible
      cases impossible

end

def Steady (setup : Setup) (requester : Side → Bool) (net : Net) : Prop :=
  ∃ arrived : Side → ℕ, ∀ x, ∃ waiting pending,
    Lane setup requester x (net.link x) (net.node x.peer).rx (net.node x).tx
      (net.node x).requests (arrived x) waiting pending (arrived x.peer)

theorem steady_init (setup : Setup) (requester : Side → Bool) (memory : Memory) :
    Steady setup requester (init memory) := by
  refine ⟨fun _ => 0, fun x => ⟨0, 0, ?_⟩⟩
  exact
    { numbered := Numbered.nil
      frames := forall_mem_nil _
      window := ⟨_, represents_init _, Slots.expects_empty _⟩
      counts := fun _ => TpChannelTx.counts_init ..
      unanswered := fun _ => forall_mem_nil _
      answers := fun _ => ⟨Numbered.nil, rfl⟩
      taken := forall_mem_nil _ }

variable {net : Net}

theorem Steady.post (steady : Steady setup requester net) (fits : Fits requester (.post x p)) :
    Steady setup requester (step setup net (.post x p)) := by
  rw [step]
  split
  · next asks =>
    obtain ⟨arrived, lanes⟩ := steady
    obtain ⟨waiting, pending, lane⟩ := lanes x
    obtain ⟨waiting, posted⟩ := lane.post asks fits
    refine ⟨arrived, (Side.forall_iff x).mpr ⟨⟨waiting, pending, ?_⟩, ?_⟩⟩
    · simpa using posted
    · simpa using lanes x.peer
  · exact steady

theorem Steady.respond {k : ℕ} (steady : Steady setup requester net)
    (fits : Fits requester (.respond x k reply)) :
    Steady setup requester (step setup net (.respond x k reply)) := by
  rw [step]
  split
  · next found =>
    obtain ⟨arrived, lanes⟩ := steady
    obtain ⟨waiting, pending, lane⟩ := lanes x
    refine ⟨arrived, (Side.forall_iff x).mpr ⟨?_, by simpa using lanes x.peer⟩⟩
    cases drops : drops reply.head with
    | true =>
      refine ⟨waiting, pending, ?_⟩
      simpa [responseFrame_dropped (setup x) drops] using lane.respond_dropped fits found drops
    | false =>
      obtain ⟨pending, answered⟩ := lane.respond_answered fits found drops
      exact ⟨waiting + 1, pending, by simpa using answered⟩
  · exact steady

theorem uno_utph (m : Flit) : drops (UtphParse.build m) = true ∧
    BtahParse.isResp (UtphParse.build m) = BtahParse.isResp m := by
  have mode : svcMode.get (UtphParse.build m) = svcUno := by
    rw [UtphParse.build, Field.get_set_same]
    decide
  refine ⟨by simp [drops, mode], ?_⟩
  rw [BtahParse.isResp, UtphParse.build, Field.get_set_disjoint (by decide)]
  rfl

theorem Steady.receive {frames : List Packet} (steady : Steady setup requester net)
    (head : net.link x = p :: frames) :
    (isRtphData p.head = true → forwarded (net.node x.peer).rx p = p.flits) ∧ Steady setup requester
        ((net.setLink x frames).setNode x.peer ((net.node x.peer).receive p)) := by
  obtain ⟨arrived, lanes⟩ := steady
  obtain ⟨waiting, pending, lane⟩ := lanes x
  obtain ⟨waitingBack, pendingBack, back⟩ := lanes x.peer
  rw [head] at lane
  rw [Side.peer_peer] at back
  have later : (update arrived x (arrived x + 1)) x.peer = arrived x.peer :=
    update_of_ne x.peer_ne ..
  rcases lane.frames p (by simp) with ⟨utp, request⟩ | ⟨data, source, role, request, mode⟩ |
      ⟨data, source, role, peerRole, response⟩
  · obtain ⟨drops, kind⟩ := uno_utph p.head
    refine ⟨fun data => ?_, arrived, (Side.forall_iff x).mpr ⟨⟨waiting, pending, ?_⟩,
      waitingBack, pendingBack, ?_⟩⟩
    · rw [not_data_of_goUtp utp] at data
      cases data
    · rw [receive_utp utp, take_request (kind.trans request)]
      simpa using lane.arrive_uno utp
    · rw [receive_utp utp, take_request (kind.trans request)]
      simpa using back.take_unanswered drops
  · obtain ⟨accepted, psn, waiting, next⟩ := lane.arrive_data data source
    refine ⟨fun _ => accepted, update arrived x (arrived x + 1),
      (Side.forall_iff x).mpr ⟨⟨waiting, pending, ?_⟩, waitingBack, ?_⟩⟩
    · rw [receive_data data accepted, take_request request]
      simpa using next
    · rw [receive_data data accepted, take_request request]
      cases peerRole : requester x.peer with
      | true =>
        refine ⟨pendingBack, ?_⟩
        simpa using (back.take_unanswered (mode.trans peerRole)).served_irrelevant peerRole _
      | false =>
        refine ⟨pendingBack + 1, ?_⟩
        simpa using back.take_answered peerRole (by simpa using role) data
          (mode.trans peerRole) psn
  · obtain ⟨accepted, psn, waiting, next⟩ := lane.arrive_data data source
    refine ⟨fun _ => accepted, update arrived x (arrived x + 1),
      (Side.forall_iff x).mpr ⟨⟨waiting, pending, ?_⟩, waitingBack, pendingBack, ?_⟩⟩
    · rw [receive_data data accepted, take_response response]
      simpa using next
    · rw [receive_data data accepted, take_response response]
      simpa using back.served_irrelevant peerRole _

theorem Steady.step {action : Action} (steady : Steady setup requester net)
    (fits : Fits requester action) :
    Accepts net action ∧ Steady setup requester (step setup net action) := by
  cases action with
  | post x p => exact ⟨trivial, steady.post fits⟩
  | respond x k reply => exact ⟨trivial, steady.respond fits⟩
  | deliver x =>
    cases head : net.link x with
    | nil => simpa [Accepts, TwoNodes.step, head] using steady
    | cons p frames => simpa [Accepts, TwoNodes.step, head] using steady.receive head

end OpenURMA.TwoNodes
