import OpenURMA.Transport.OneWay

/-!
# Traffic in both directions

Requests are numbered by the node that posts them and responses by the node that they go
to, but the receiver has one window for both.  So a run in which both nodes post requests
that are answered has a frame that is refused: number 0 arrives twice.
-/

namespace OpenURMA.TwoNodes

open Library TpChannelRx UbMeta Side List Nat Bool
open TaackGen (drops)

/-! ## Number 0

Each node that posts reliable requests puts number 0 on the wire, and so does each node that
answers the other's first request; a window takes it once. -/

def Answerable : Action → Prop
  | .post _ p => svcMode.get p.head ≠ svcRol
  | _ => True

instance : (action : Action) → Decidable (Answerable action)
  | .post .. => inferInstanceAs (Decidable (_ ≠ _))
  | .deliver _ => inferInstanceAs (Decidable True)
  | .respond .. => inferInstanceAs (Decidable True)

section

variable {setup : Setup} {x : Side}

def isFirst (m : Flit) : Bool := psn.get m == 0

def firstFrame (p : Packet) : Bool := isRtphData p.head && isFirst p.head

def firstRequest (p : Packet) : Bool := firstFrame p && !BtahParse.isResp p.head

def firstPending (m : Flit) : Bool := !drops m && isFirst m

/-- How often number 0 is on the way from a node: on its link or accepted at the other end,
or still to be answered. -/
def firsts (link back : List Packet) (requests : List Flit) (got : Finset ℕ) : ℕ :=
  link.countP firstFrame + back.countP firstRequest + requests.countP firstPending +
    if 0 ∈ got then 1 else 0

/-- The frames that a node may have sent, with numbers below 2^23. -/
inductive Early (setup : Setup) (x : Side) (p : Packet) : Prop where
  | uno (utp : NthParse.goUtp p.head = true) (request : BtahParse.isResp p.head = false)
  | data (data : isRtphData p.head = true) (source : scna.get p.head = setup.cna x)
      (early : (psn.get p.head).toNat < 2 ^ 23)
      (answered : BtahParse.isResp p.head = false → drops p.head = false)

/-- One direction of the traffic; `mine` and `theirs` count the reliable requests that the
node and the other node have posted. -/
structure Track (setup : Setup) (x : Side) (link back : List Packet)
    (remote : TpChannelRx.State) (tx : TpChannelTx.State) (requests : List Flit)
    (slots : Slots) (mine theirs : ℕ) : Prop where
  counts : TpChannelTx.Counts tx (setup.cna x.peer) mine
  frames : ∀ p ∈ link, Early setup x p
  taken : ∀ m ∈ requests, drops m = false →
    isRtphData m = true ∧ (psn.get m).toNat < 2 ^ 23
  represents : Represents remote slots
  start : ∀ n < 2 ^ 23, (slots.receiver (setup.cna x) n).start < 2 ^ 23
  below : ∀ n ∈ slots.got (setup.cna x), n < 2 ^ 23
  total : min 1 mine + min 1 theirs ≤ firsts link back requests (slots.got (setup.cna x))

variable {p : Packet}

section

variable {link back : List Packet} {remote : TpChannelRx.State} {tx : TpChannelTx.State}
variable {requests : List Flit} {slots : Slots} {mine theirs : ℕ}

theorem firstFrame_utp (utp : NthParse.goUtp p.head = true) : firstFrame p = false := by
  rw [firstFrame, not_data_of_goUtp utp]
  rfl

variable {m : Flit}

theorem isFirst_of_early {m : Flit} {n : ℕ} (psn : (psn.get m).toNat = n % 2 ^ 24)
    (early : n < 2 ^ 23) : isFirst m = decide (n = 0) := by
  rw [isFirst, Bool.eq_iff_iff, beq_iff_eq, decide_eq_true_iff, ← BitVec.toNat_inj, psn,
    mod_eq_of_lt (by omega)]
  rfl

section

variable (track : Track setup x link back remote tx requests slots mine theirs)
include track

theorem Track.post_uno (utp : NthParse.goUtp p.head = true)
    (request : BtahParse.isResp p.head = false) :
    Track setup x (link ++ [p]) back remote tx requests slots mine theirs :=
  { track with
    frames := forall_mem_append.mpr
      ⟨track.frames, forall_mem_singleton.mpr (.uno utp request)⟩
    total := by
      have total := track.total
      rw [firsts] at total ⊢
      rw [countP_push]
      omega }

theorem Track.post (early : mine < 2 ^ 23) (frame : DataFrame p (setup.cna x) mine false)
    (answered : drops p.head = false) {tx' : TpChannelTx.State}
    (counts : TpChannelTx.Counts tx' (setup.cna x.peer) (mine + 1)) :
    Track setup x (link ++ [p]) back remote tx' requests slots (mine + 1) theirs := by
  have first : firstFrame p = decide (mine = 0) := by
    rw [firstFrame, frame.data, isFirst_of_early frame.psn early]
    rfl
  have psn : (psn.get p.head).toNat < 2 ^ 23 := by
    rw [frame.psn, mod_eq_of_lt (by omega)]
    exact early
  refine
    { track with
      counts := counts
      frames := forall_mem_append.mpr ⟨track.frames, forall_mem_singleton.mpr
        (.data frame.data frame.source psn fun _ => answered)⟩
      total := ?_ }
  have total := track.total
  rw [firsts] at total ⊢
  rw [countP_push, first]
  by_cases none : mine = 0
  · simp only [none, decide_true, toNat_true]
    omega
  · omega

theorem Track.back_push {theirs' : ℕ}
    (added : min 1 theirs' ≤ min 1 theirs + (firstRequest p).toNat) :
    Track setup x link (back ++ [p]) remote tx requests slots mine theirs' :=
  { track with
    total := by
      have total := track.total
      rw [firsts] at total ⊢
      rw [countP_push]
      omega }

end

theorem Track.arrive_uno
    (track : Track setup x (p :: link) back remote tx requests slots mine theirs)
    (utp : NthParse.goUtp p.head = true) :
    Track setup x link back remote tx requests slots mine theirs :=
  { track with
    frames := fun q member => track.frames q (by simp [member])
    total := by
      have total := track.total
      rw [firsts] at total ⊢
      rw [countP_pop, firstFrame_utp utp] at total
      exact total }

theorem firsts_arrive {got got' : Finset ℕ} {n : ℕ}
    (psn : (psn.get p.head).toNat = n % 2 ^ 24) (early : n < 2 ^ 23)
    (grown : ∀ k, k ∈ got' ↔ k ∈ got ∨ k = n) (fresh : n = 0 → 0 ∉ got) :
    firsts (p :: link) back requests got ≤ firsts link back requests got' := by
  rw [firsts, firsts, countP_pop]
  by_cases zero : n = 0
  · rw [if_neg (fresh zero), if_pos ((grown 0).mpr (.inr zero.symm))]
    have := toNat_le (firstFrame p)
    omega
  · have other : firstFrame p = false := by
      have notFirst : isFirst p.head = false := by
        rw [isFirst_of_early psn early]
        simpa using zero
      rw [firstFrame, notFirst, Bool.and_false]
    have same : 0 ∈ got' ↔ 0 ∈ got := by
      rw [grown]
      simp [Ne.symm zero]
    rw [other]
    simp only [same]
    exact le_refl _

/-- A data frame is accepted by the other node.  Number 0 is accepted only if the window has
not got it yet. -/
theorem Track.arrive_data
    (track : Track setup x (p :: link) back remote tx requests slots mine theirs)
    (source : scna.get p.head = setup.cna x) (early : (psn.get p.head).toNat < 2 ^ 23)
    (accepted : forwarded remote p = p.flits) :
    ∃ slots, Track setup x link back (deliver remote p) tx requests slots mine theirs := by
  let a : Arrival := ⟨_, p, (mod_eq_of_lt (by omega)).symm⟩
  have own : a.source = setup.cna x := source
  have number : a.number = (psn.get p.head).toNat := rfl
  rw [← number] at early
  have start := track.start a.number early
  have below : ∀ n ∈ (slots.receiver (setup.cna x) a.number).got, n < 2 ^ 23 := by
    rw [Slots.got_receiver]
    exact track.below
  have next := Receiver.next_le start.le below
  have close : slots.Close a := by
    rw [Slots.Close, own, Near]
    omega
  have accepts : ((slots.receiver (setup.cna x) a.number).verdict a.number).accepts = true := by
    have spec := forwarded_spec track.represents a close
    rw [own] at spec
    by_contra refused
    rw [if_neg refused] at spec
    rw [accepted] at spec
    cases spec
  have represents := represents_deliver track.represents a close
  rw [own] at represents
  have held := Slots.receiver_of_held (slots.arrive_held (setup.cna x) a.number)
  have got : ∀ n, n ∈ (slots.arrive (setup.cna x) a.number).got (setup.cna x) ↔
      n ∈ slots.got (setup.cna x) ∨ n = a.number := by
    intro n
    rw [Slots.got, held, Receiver.mem_got_arrive, accepts, Slots.got_receiver]
    simp
  have fresh : a.number = 0 → 0 ∉ slots.got (setup.cna x) := by
    intro zero member
    rw [zero] at accepts
    rw [← Slots.got_receiver slots (setup.cna x) 0] at member
    rw [Receiver.verdict_zero member] at accepts
    cases accepts
  refine ⟨slots.arrive (setup.cna x) a.number,
    { track with
      frames := fun q member => track.frames q (by simp [member])
      represents := represents
      start := fun n _ => ?_
      below := fun n member => ?_
      total := track.total.trans (firsts_arrive a.stamped early got fresh) }⟩
  · rw [held, Receiver.start_arrive]
    exact start
  · rcases (got n).mp member with before | rfl
    · exact track.below n before
    · exact early

theorem Track.back_pop (track : Track setup x link (p :: back) remote tx requests slots mine theirs)
    (other : firstRequest p = false) :
    Track setup x link back remote tx requests slots mine theirs :=
  { track with
    total := by
      have total := track.total
      rw [firsts] at total ⊢
      rw [countP_pop, other] at total
      exact total }

theorem Track.take_push (track : Track setup x link back remote tx requests slots mine theirs)
    (taken : drops m = false → isRtphData m = true ∧ (psn.get m).toNat < 2 ^ 23) :
    Track setup x link back remote tx (requests ++ [m]) slots mine theirs :=
  { track with
    taken := forall_mem_append.mpr ⟨track.taken, forall_mem_singleton.mpr taken⟩
    total := by
      have total := track.total
      rw [firsts] at total ⊢
      rw [countP_push]
      omega }

theorem Track.take_request
    (track : Track setup x link (p :: back) remote tx requests slots mine theirs)
    (data : isRtphData p.head = true) (early : (psn.get p.head).toNat < 2 ^ 23)
    (answered : drops p.head = false) :
    Track setup x link back remote tx (requests ++ [p.head]) slots mine theirs :=
  { track with
    taken := forall_mem_append.mpr
      ⟨track.taken, forall_mem_singleton.mpr fun _ => ⟨data, early⟩⟩
    total := by
      have total := track.total
      have moved : (firstRequest p).toNat ≤ (firstPending p.head).toNat := by
        rw [firstRequest, firstFrame, data, firstPending, answered]
        cases isFirst p.head <;> simp [toNat_le]
      rw [firsts] at total ⊢
      rw [countP_pop] at total
      rw [countP_push]
      omega }

variable {k : ℕ} (track : Track setup x link back remote tx requests slots mine theirs)
variable (found : requests[k]? = some m)
include track found

theorem Track.respond_dropped (drops : drops m = true) :
    Track setup x link back remote tx (requests.eraseIdx k) slots mine theirs :=
  { track with
    taken := fun m member => track.taken m (mem_of_mem_eraseIdx member)
    total := by
      have total := track.total
      have rest := countP_eraseIdx firstPending found
      rw [firstPending, drops, Bool.not_true, Bool.false_and, toNat_false] at rest
      rw [firsts] at total ⊢
      omega }

theorem Track.respond_answered {number : ℕ} (psn : (psn.get m).toNat = number)
    (early : number < 2 ^ 23) (frame : DataFrame p (setup.cna x) number true) :
    Track setup x (link ++ [p]) back remote tx (requests.eraseIdx k) slots mine theirs := by
  have small : number % 2 ^ 24 = number := mod_eq_of_lt (by omega)
  have kept : firstFrame p = isFirst m := by
    rw [firstFrame, frame.data, isFirst_of_early frame.psn early,
      isFirst_of_early (psn.trans small.symm) early]
    rfl
  have framePsn : (UbMeta.psn.get p.head).toNat < 2 ^ 23 := by
    rw [frame.psn, small]
    exact early
  refine
    { track with
      frames := forall_mem_append.mpr ⟨track.frames, forall_mem_singleton.mpr
        (.data frame.data frame.source framePsn fun impossible => ?_)⟩
      taken := fun m member => track.taken m (mem_of_mem_eraseIdx member)
      total := ?_ }
  · rw [frame.response] at impossible
    cases impossible
  · have total := track.total
    have rest := countP_eraseIdx firstPending found
    have answered : (firstPending m).toNat ≤ (isFirst m).toNat := by
      rw [firstPending]
      cases drops m <;> simp
    rw [firsts] at total ⊢
    rw [countP_push, kept]
    omega

end

def Tracked (setup : Setup) (net : Net) (posted : Side → ℕ) : Prop :=
  ∀ x, ∃ slots, Track setup x (net.link x) (net.link x.peer) (net.node x.peer).rx
    (net.node x).tx (net.node x).requests slots (posted x) (posted x.peer)

theorem tracked_init (setup : Setup) (memory : Memory) :
    Tracked setup (init memory) fun _ => 0 := fun _ =>
  ⟨.empty,
    { counts := TpChannelTx.counts_init ..
      frames := forall_mem_nil _
      taken := forall_mem_nil _
      represents := represents_init _
      start := fun _ early => early
      below := fun n impossible => (Finset.notMem_empty n impossible).elim
      total := zero_le _ }⟩

variable {net : Net} {posted : Side → ℕ} (tracked : Tracked setup net posted)
include tracked

theorem Tracked.post_uno (asks : setup.Asks x p) (uno : svcMode.get p.head = svcUno) :
    Tracked setup (step setup net (.post x p)) posted := by
  obtain ⟨utp, kind, kept⟩ := requestFrame_uno (setup x) (net.node x).tx uno
  rw [step, if_pos asks, kept]
  obtain ⟨slots, track⟩ := tracked x
  obtain ⟨slotsBack, back⟩ := tracked x.peer
  rw [peer_peer] at back
  refine (forall_iff x).mpr ⟨⟨slots, ?_⟩, slotsBack, ?_⟩
  · simpa using track.post_uno utp (kind.trans asks.2.1)
  · simpa using back.back_push (p := requestFrame (setup x) (net.node x).tx p) (by omega)

theorem Tracked.post (asks : setup.Asks x p) (early : posted x < 2 ^ 23)
    (reliable : svcMode.get p.head ≠ svcUno) (answerable : svcMode.get p.head ≠ svcRol) :
    Tracked setup (step setup net (.post x p)) (Function.update posted x (posted x + 1)) := by
  rw [step, if_pos asks]
  obtain ⟨slots, track⟩ := tracked x
  obtain ⟨slotsBack, back⟩ := tracked x.peer
  rw [peer_peer] at back
  obtain ⟨frame, svc⟩ := requestFrame_reliable (setup x) track.counts reliable asks.1
  rw [asks.2.1] at frame
  have answered : drops (requestFrame (setup x) (net.node x).tx p).head = false := by
    simp [drops, svc, reliable, answerable]
  have first : firstRequest (requestFrame (setup x) (net.node x).tx p) =
      decide (posted x = 0) := by
    rw [firstRequest, firstFrame, frame.data, isFirst_of_early frame.psn early, frame.response]
    simp
  refine (forall_iff x).mpr ⟨⟨slots, ?_⟩, slotsBack, ?_⟩
  · simpa using track.post early frame answered (track.counts.stamp reliable asks.1).1
  · have added : min 1 (posted x + 1) ≤ min 1 (posted x) +
        (firstRequest (requestFrame (setup x) (net.node x).tx p)).toNat := by
      rw [first]
      by_cases none : posted x = 0
      · simp [none]
      · omega
    simpa using back.back_push added

theorem Tracked.respond {k : ℕ} {reply : Packet} :
    Tracked setup (step setup net (.respond x k reply)) posted := by
  rw [step]
  split
  · next found =>
    obtain ⟨slots, track⟩ := tracked x
    obtain ⟨slotsBack, back⟩ := tracked x.peer
    rw [peer_peer] at back
    cases drops : drops reply.head with
    | true =>
      rw [responseFrame_dropped (setup x) drops]
      refine (forall_iff x).mpr ⟨⟨slots, ?_⟩, slotsBack, ?_⟩
      · simpa using track.respond_dropped found drops
      · simpa using back
    | false =>
      obtain ⟨data, early⟩ := track.taken _ (mem_of_getElem? found) drops
      obtain ⟨frame, sent, isData⟩ := responseFrame_sent (setup x) drops data
      rw [sent]
      refine (forall_iff x).mpr ⟨⟨slots, ?_⟩, slotsBack, ?_⟩
      · simpa using track.respond_answered found rfl early isData
      · simpa using back.back_push (p := frame) (by omega)
  · exact tracked

theorem Tracked.receive {frames : List Packet} (head : net.link x = p :: frames)
    (accepted : isRtphData p.head = true → forwarded (net.node x.peer).rx p = p.flits) :
    Tracked setup ((net.setLink x frames).setNode x.peer ((net.node x.peer).receive p)) posted := by
  obtain ⟨slots, track⟩ := tracked x
  obtain ⟨slotsBack, back⟩ := tracked x.peer
  rw [peer_peer] at back
  rw [head] at track back
  rcases track.frames p (by simp) with ⟨utp, request⟩ | ⟨data, source, early, answered⟩
  · obtain ⟨drops, kind⟩ := uno_utph p.head
    have other : firstRequest p = false := by
      rw [firstRequest, firstFrame_utp utp]
      rfl
    rw [Node.receive_utp utp, Node.take_request (kind.trans request)]
    refine (forall_iff x).mpr ⟨⟨slots, ?_⟩, slotsBack, ?_⟩
    · simpa using track.arrive_uno utp
    · have popped := back.back_pop other
      have taken := popped.take_push (m := UtphParse.build p.head) fun impossible => by
        rw [drops] at impossible
        cases impossible
      simpa using taken
  · obtain ⟨slots', arrived⟩ := track.arrive_data source early (accepted data)
    rw [Node.receive_data data (accepted data)]
    cases kind : BtahParse.isResp p.head with
    | true =>
      have other : firstRequest p = false := by
        rw [firstRequest, kind, Bool.not_true, Bool.and_false]
      rw [Node.take_response kind]
      refine (forall_iff x).mpr ⟨⟨slots', ?_⟩, slotsBack, ?_⟩
      · simpa using arrived
      · simpa using back.back_pop other
    | false =>
      rw [Node.take_request kind]
      refine (forall_iff x).mpr ⟨⟨slots', ?_⟩, slotsBack, ?_⟩
      · simpa using arrived
      · simpa using back.take_request data early (answered kind)

theorem Tracked.step {action : Action} (early : ∀ x, posted x < 2 ^ 23)
    (answerable : Answerable action) (accepts : Accepts net action) :
    ∃ posted', Tracked setup (step setup net action) posted' ∧
      (∀ x, posted x ≤ posted' x ∧ posted' x ≤ posted x + 1) ∧
      ∀ x p, action = .post x p → setup.Asks x p → svcMode.get p.head ≠ svcUno → 0 < posted' x := by
  have unchanged : ∀ x, posted x ≤ posted x ∧ posted x ≤ posted x + 1 := fun x => by omega
  cases action with
  | deliver x =>
    refine ⟨posted, ?_, unchanged, fun _ _ impossible => by cases impossible⟩
    cases head : net.link x with
    | nil => simpa [TwoNodes.step, head] using tracked
    | cons p frames =>
      have accepted := accepts p (by rw [head]; rfl)
      simpa [TwoNodes.step, head] using tracked.receive head accepted
  | respond x k reply =>
    exact ⟨posted, tracked.respond, unchanged, fun _ _ impossible => by cases impossible⟩
  | post x p =>
    by_cases asks : setup.Asks x p
    · by_cases uno : svcMode.get p.head = svcUno
      · refine ⟨posted, tracked.post_uno asks uno, unchanged, ?_⟩
        rintro _ _ ⟨⟩ _ reliable
        exact absurd uno reliable
      · refine ⟨_, tracked.post asks (early x) uno answerable,
          (forall_iff x).mpr ⟨by simp, by simp⟩, ?_⟩
        rintro _ _ ⟨⟩ _ _
        simp
    · refine ⟨posted, ?_, unchanged, ?_⟩
      · rwa [TwoNodes.step, if_neg asks]
      · rintro _ _ ⟨⟩ asked
        exact absurd asked asks

theorem Tracked.run {actions : List Action} (short : ∀ x, posted x + actions.length ≤ 2 ^ 23)
    (answerable : ∀ action ∈ actions, Answerable action)
    (accepted : Along (TwoNodes.step setup) Accepts net actions) :
    ∃ posted', Tracked setup (actions.foldl (TwoNodes.step setup) net) posted' ∧
      (∀ x, posted x ≤ posted' x) ∧
      ∀ x p, .post x p ∈ actions → setup.Asks x p → svcMode.get p.head ≠ svcUno →
        0 < posted' x := by
  induction actions generalizing net posted with
  | nil =>
    exact ⟨posted, tracked, fun _ => le_refl _, fun _ _ impossible => by cases impossible⟩
  | cons action actions ih =>
    simp only [length_cons] at short
    have early : ∀ x, posted x < 2 ^ 23 := fun x => by have := short x; omega
    obtain ⟨posted', next, grown, counted⟩ :=
        tracked.step early (answerable action (by simp)) accepted.1
    have shorter : ∀ x, posted' x + actions.length ≤ 2 ^ 23 := fun x => by
      have := short x
      have := (grown x).2
      omega
    rcases ih next shorter (fun other member => answerable other (by simp [member])) accepted.2
      with ⟨last, final, later, rest⟩
    refine ⟨last, final, fun x => (grown x).1.trans (later x), fun x p member asks reliable => ?_⟩
    rcases mem_cons.mp member with here | member
    · exact (counted x p here.symm asks reliable).trans_le (later x)
    · exact rest x p member asks reliable

end

/-- The node posts a reliable request to the other one in the run. -/
def Posts (setup : Setup) (actions : List Action) (x : Side) : Prop :=
  ∃ p, .post x p ∈ actions ∧ setup.Asks x p ∧ svcMode.get p.head ≠ svcUno

/-- Every frame has arrived and every request has left the target stages. -/
def Complete (net : Net) : Prop := ∀ x, net.link x = [] ∧ (net.node x).requests = []

/-- Where nodes that post reliable requests answer none and the others answer in order, every data
frame is accepted. Where both post reliable requests that are answered, no complete run has all its
data frames accepted. -/
theorem bidirectional_accepted (setup : Setup) (memory : Memory) (actions : List Action) :
    ((∃ requester, ∀ action ∈ actions, Fits requester action) → AllAccepted setup memory actions) ∧
      (actions.length ≤ 2 ^ 23 → (∀ action ∈ actions, Answerable action) →
        (∀ x, Posts setup actions x) → Complete (run setup memory actions) →
        ¬AllAccepted setup memory actions) := by
  constructor
  · rintro ⟨requester, fits⟩
    exact along_of_invariant (fun _ _ steady fits => Steady.step steady fits)
      (steady_init setup requester memory) fits
  · intro short answerable both complete accepted
    obtain ⟨posted, tracked, _, counted⟩ :=
        (tracked_init setup memory).run (fun _ => by simpa using short) answerable accepted
    have positive : ∀ x, 0 < posted x := fun x => by
      obtain ⟨p, member, asks, reliable⟩ := both x
      exact counted x p member asks reliable
    obtain ⟨slots, track⟩ := tracked .left
    have total := track.total
    change Complete (actions.foldl (step setup) (init memory)) at complete
    rw [(complete .left).1, (complete .left).2, (complete Side.left.peer).1, firsts] at total
    have left := positive .left
    have right := positive Side.left.peer
    have once : (if 0 ∈ slots.got (setup.cna .left) then 1 else 0) ≤ 1 := by split <;> decide
    simp only [countP_nil, zero_add] at total
    omega

def sampleSetup : Setup
  | .left => ⟨3, 0, nthNlpRtph⟩
  | .right => ⟨4, 0, nthNlpRtph⟩

def sampleMemory : Memory := ⟨fun _ _ => default, fun _ _ => 0⟩

def sampleWrite (x : Side) : Packet where
  head := { lane0 := (sampleSetup.cna x.peer).setWidth 64,
            lane3 := taopWrite.setWidth 64, sop := true }
  rest := [{ eop := true }]
  sop_head := rfl
  sop_rest := sop_end
  eop_last := ⟨rfl, rfl⟩

def sampleFrame (x : Side) : Packet :=
  requestFrame (sampleSetup x) (TpChannelTx.init fun _ => default) (sampleWrite x)

/-- The left node writes and gets its answer. -/
def oneWrite : List Action :=
  [.post .left (sampleWrite .left), .deliver .left, .respond .right 0 (sampleFrame .left),
    .deliver .right]

def twoWrites : List Action :=
  [.post .left (sampleWrite .left), .post .right (sampleWrite .right), .deliver .left,
    .deliver .right, .respond .right 0 (sampleFrame .left), .deliver .right,
    .respond .left 0 (sampleFrame .right), .deliver .left]

theorem bidirectional_accepted_oneWrite : AllAccepted sampleSetup sampleMemory oneWrite ∧
      Complete (run sampleSetup sampleMemory twoWrites) ∧
      ¬AllAccepted sampleSetup sampleMemory twoWrites := by
  have complete : Complete (run sampleSetup sampleMemory twoWrites) := by
    rw [Complete, forall_iff .left]
    decide +kernel
  have posts : ∀ x, Posts sampleSetup twoWrites x := by
    refine fun x => ⟨sampleWrite x, ?_, ?_⟩
    · cases x <;> simp [twoWrites]
    · cases x <;> decide +kernel
  refine ⟨(bidirectional_accepted _ _ _).1 ⟨(· == .left), by decide +kernel⟩, complete,
    (bidirectional_accepted _ _ _).2 (by decide) (by decide +kernel) posts complete⟩

/-- The answer to the left node's first write has the number of the right node's first write,
which has arrived before: it is treated as a repeat. -/
theorem not_accepted_twoWrites : ¬AllAccepted sampleSetup sampleMemory twoWrites := by
  unfold AllAccepted
  decide +kernel

end OpenURMA.TwoNodes
