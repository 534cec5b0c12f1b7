import OpenURMA.Flit
import OpenURMA.Library.Handoff

/-!
# The wire queue

The application thread puts outbound frames into `tx_q`; the background thread swaps the queue out,
sends its frames with `sendto` and then receives. `pending_tx` is raised under the lock, with the
push, and lowered outside of it, after `sendto`.

A step of a thread is one block under the lock, one atomic operation or one system call of the
background thread, whose answer is an input. The data callback runs in the background thread and may
itself call `openurma_nic_data_send`.
-/

namespace OpenURMA.Provider

open Library List

/-- The octets of a datagram: `'F'` and a flit, or `'D'`, a tag and a payload. -/
abbrev Frame := List Byte

abbrev RawFlit := { octets : List Byte // octets.length = 64 }

def maxTxQueueFrames : ℕ := 65536
def maxWireFrameBytes : ℕ := 65536

/-- The `errno` values that the wire queue names. -/
def enoent : ℕ := 2
def eio : ℕ := 5
def eagain : ℕ := 11
def emsgsize : ℕ := 90
def enobufs : ℕ := 105
def etimedout : ℕ := 110
def econnrefused : ℕ := 111

/-- Where the application thread is: outside of the wire queue, or in a call that has found
`fatal_errno` to be zero. -/
inductive AppPhase where
  | idle
  | pump (frame : Frame)
  | dataSend (frame : Frame)
  | txDrained
  deriving DecidableEq

inductive BgPhase where
  | swap
  | next (out : List Frame)
  | sendto (frame : Frame) (t : ℕ) (out : List Frame)
  | fetchSub (out : List Frame)
  | recv
  | callback
  | callbackSend (frame : Frame)
  deriving DecidableEq

def BgPhase.out : BgPhase → List Frame
  | .next out => out
  | .sendto frame _ out => frame :: out
  | .fetchSub out => out
  | _ => []

/-- A frame has been sent and is still counted. -/
def BgPhase.late : BgPhase → Bool
  | .fetchSub _ => true
  | _ => false

/-- `openurma_nic`, with the places of the two threads. -/
structure Wire where
  fatalErrno : ℕ
  pendingTx : U64
  txQ : List Frame
  rxFlits : List RawFlit
  app : AppPhase
  bg : BgPhase

structure WireOut where
  enqueued : Option Frame := none
  sent : Option Frame := none
  pushed : Option RawFlit := none
  called : Option (Byte × List Byte) := none
  dataSend : Option Bool := none
  txDrained : Option Bool := none

namespace Wire

def markWireFailed (w : Wire) (error : ℕ) : Wire :=
  let error := if error = 0 then eio else error
  if w.fatalErrno = 0 then { w with fatalErrno := error, pendingTx := 0 } else w

/-- `tx_q.push_back` and `pending_tx.fetch_add`. -/
def enqueue (w : Wire) (frame : Frame) : Wire :=
  { w with txQ := w.txQ ++ [frame], pendingTx := w.pendingTx + 1 }

/-- The frame that `openurma_nic_data_send` builds, if its arguments and the wire allow it. -/
def dataFrame (w : Wire) (tag : Byte) (buf : List Byte) : Option Frame :=
  if maxWireFrameBytes < buf.length + 2 ∨ w.fatalErrno ≠ 0 then none else some (0x44 :: tag :: buf)

/-- `openurma_nic_data_send` under the lock. -/
def dataSend (w : Wire) (frame : Frame) : Wire × WireOut :=
  if maxTxQueueFrames ≤ w.txQ.length then (w, { dataSend := some false })
  else (w.enqueue frame, { enqueued := some frame, dataSend := some true })

/-- A call of the application thread.  `pump` and `pumpRx` are one round each of the two loops of
`openurma_nic_pump`. -/
inductive Call where
  | pump (flit : RawFlit)
  | pumpRx
  | dataSend (tag : Byte) (buf : List Byte)
  | txDrained

def call (w : Wire) : Call → Wire × WireOut
  | .pump flit =>
    if w.fatalErrno ≠ 0 then (w, {}) else ({ w with app := .pump (0x46 :: flit.val) }, {})
  | .pumpRx =>
    match w.rxFlits with
    | [] => (w, {})
    | flit :: rxFlits => ({ w with rxFlits := rxFlits }, { pushed := some flit })
  | .dataSend tag buf =>
    match w.dataFrame tag buf with
    | none => (w, { dataSend := some false })
    | some frame => ({ w with app := .dataSend frame }, {})
  | .txDrained =>
    if w.fatalErrno ≠ 0 then (w, { txDrained := some false })
    else ({ w with app := .txDrained }, {})

/-- The next step of the call that the application thread is in. -/
def appStep (w : Wire) : Wire × WireOut :=
  let done := { w with app := .idle }
  match w.app with
  | .idle => (w, {})
  | .pump frame =>
    if maxTxQueueFrames ≤ w.txQ.length then (done.markWireFailed enobufs, {})
    else (done.enqueue frame, { enqueued := some frame })
  | .dataSend frame => done.dataSend frame
  | .txDrained => (done, { txDrained := some (w.pendingTx == 0) })

/-- What the background thread is told: by a system call, or by the data callback. -/
inductive Answer where
  | nothing
  | wrote (count : ℕ)
  | failed (errno : ℕ)
  | received (octets : List Byte)
  | calls (tag : Byte) (buf : List Byte)
  | returns
  deriving DecidableEq

def retries (errno : ℕ) : Bool := errno == enoent || errno == econnrefused || errno == eagain

def receive (w : Wire) (type : Byte) (rest : List Byte) : Wire × WireOut :=
  if flit : type = 0x46 ∧ rest.length = 64 then
    ({ w with rxFlits := w.rxFlits ++ [⟨rest, flit.2⟩] }, {})
  else
    match rest with
    | [] => (w, {})
    | tag :: payload =>
      if type = 0x44 then ({ w with bg := .callback }, { called := some (tag, payload) })
      else (w, {})

/-- The next step of `bg_run`.  An answer that the thread is not waiting for changes nothing. -/
def bgStep (w : Wire) (answer : Answer) : Wire × WireOut :=
  match w.bg, answer with
  | .swap, _ => ({ w with txQ := [], bg := .next w.txQ }, {})
  | .next [], _ => ({ w with bg := .recv }, {})
  | .next (frame :: out), _ =>
    if w.fatalErrno ≠ 0 then ({ w with bg := .recv }, {})
    else ({ w with bg := .sendto frame 0 out }, {})
  | .sendto frame _ out, .wrote count =>
    if count = frame.length then ({ w with bg := .fetchSub out }, { sent := some frame })
    else ({ w with bg := .next out }.markWireFailed emsgsize, {})
  | .sendto frame t out, .failed errno =>
    if retries errno then
      if t + 1 < 2000 then ({ w with bg := .sendto frame (t + 1) out }, {})
      else ({ w with bg := .next out }.markWireFailed etimedout, {})
    else ({ w with bg := .next out }.markWireFailed errno, {})
  | .fetchSub out, _ => ({ w with pendingTx := w.pendingTx - 1, bg := .next out }, {})
  | .recv, .received [] => ({ w with bg := .swap }, {})
  | .recv, .received (type :: rest) => w.receive type rest
  | .callback, .calls tag buf =>
    match w.dataFrame tag buf with
    | none => (w, { dataSend := some false })
    | some frame => ({ w with bg := .callbackSend frame }, {})
  | .callback, .returns => ({ w with bg := .recv }, {})
  | .callbackSend frame, _ => { w with bg := .callback }.dataSend frame
  | _, _ => (w, {})

end Wire

/-- Which thread takes the next step. -/
inductive WireEvent where
  | call (call : Wire.Call)
  | app
  | bg (answer : Wire.Answer)

def Wire.step : Mealy Wire WireEvent WireOut := fun w event =>
  match event with
  | .call call => if w.app = .idle then w.call call else (w, {})
  | .app => w.appStep
  | .bg answer => w.bgStep answer

/-- A NIC whose background thread has just been started. -/
def idleWire : Wire where
  fatalErrno := 0
  pendingTx := 0
  txQ := []
  rxFlits := []
  app := .idle
  bg := .swap

def enqueuedFrames (events : List WireEvent) : List Frame :=
  (Wire.step.trace idleWire events).filterMap WireOut.enqueued

def sentFrames (events : List WireEvent) : List Frame :=
  (Wire.step.trace idleWire events).filterMap WireOut.sent

variable {out : List Frame}

namespace Wire

variable {w : Wire} {event : WireEvent}

def handoff (w : Wire) : Handoff Frame 64 := ⟨w.txQ, w.bg.out, w.pendingTx, w.bg.late⟩

theorem markWireFailed_fatal (w : Wire) (error : ℕ) : (w.markWireFailed error).fatalErrno ≠ 0 := by
  unfold markWireFailed
  split_ifs with zero alive alive
  · simp [eio]
  · exact alive
  · exact zero
  · exact alive

def Hands (w : Wire) (result : Wire × WireOut) : Prop :=
  result.1.fatalErrno = 0 → w.fatalErrno = 0 ∧
    Handoff.Moves maxTxQueueFrames w.handoff result.2.enqueued result.2.sent result.1.handoff

theorem hands_of_failed (w other : Wire) (error : ℕ) (out : WireOut) :
    w.Hands (other.markWireFailed error, out) :=
  fun alive => absurd alive (markWireFailed_fatal other error)

theorem hands_of_same {result : Wire × WireOut} (fatal : result.1.fatalErrno = w.fatalErrno)
    (same : result.1.handoff = w.handoff) (enqueued : result.2.enqueued = none)
    (sent : result.2.sent = none) : w.Hands result := by
  intro alive
  rw [same, enqueued, sent]
  exact ⟨fatal ▸ alive, .stay⟩

variable {frame : Frame}

/-- The push under the lock, by a thread whose place is not in the loop over `out`. -/
theorem hands_enqueue {other : Wire} {out : WireOut} (room : ¬maxTxQueueFrames ≤ w.txQ.length)
    (fatal : other.fatalErrno = w.fatalErrno) (same : other.handoff = w.handoff)
    (enqueued : out.enqueued = some frame) (sent : out.sent = none) :
    w.Hands (other.enqueue frame, out) := by
  intro alive
  simp only [handoff, Handoff.mk.injEq] at same
  obtain ⟨queue, batch, counter, late⟩ := same
  refine ⟨fatal ▸ alive, ?_⟩
  rw [enqueued, sent]
  simp only [handoff, enqueue, queue, batch, counter, late]
  exact .put (Nat.not_le.mp room)

theorem dataSend_hands {other : Wire} (frame : Frame) (fatal : other.fatalErrno = w.fatalErrno)
    (same : other.handoff = w.handoff) : w.Hands (other.dataSend frame) := by
  have queue : other.txQ = w.txQ := congrArg Handoff.queue same
  unfold dataSend
  split_ifs with full
  · exact hands_of_same fatal same rfl rfl
  · exact hands_enqueue (queue ▸ full) fatal same rfl rfl

theorem call_hands (w : Wire) (call : Call) : w.Hands (w.call call) := by
  cases call with
  | pump flit =>
    simp only [Wire.call]
    split_ifs <;> exact hands_of_same rfl rfl rfl rfl
  | pumpRx =>
    simp only [Wire.call]
    split <;> exact hands_of_same rfl rfl rfl rfl
  | dataSend tag buf =>
    simp only [Wire.call]
    split <;> exact hands_of_same rfl rfl rfl rfl
  | txDrained =>
    simp only [Wire.call]
    split_ifs <;> exact hands_of_same rfl rfl rfl rfl

theorem appStep_hands (w : Wire) : w.Hands w.appStep := by
  unfold appStep
  cases w.app with
  | idle => exact hands_of_same rfl rfl rfl rfl
  | pump frame =>
    simp only
    split_ifs with full
    · exact hands_of_failed _ _ _ _
    · exact hands_enqueue full rfl rfl rfl rfl
  | dataSend frame => exact dataSend_hands frame rfl rfl
  | txDrained => exact hands_of_same rfl rfl rfl rfl

theorem receive_hands (waits : w.bg = .recv) (type : Byte) (rest : List Byte) :
    w.Hands (w.receive type rest) := by
  cases rest with
  | nil =>
    unfold receive
    split_ifs <;> exact hands_of_same rfl rfl rfl rfl
  | cons tag payload =>
    unfold receive
    split_ifs with flit data
    · exact hands_of_same rfl rfl rfl rfl
    · exact hands_of_same rfl (by simp [handoff, waits, BgPhase.out, BgPhase.late]) rfl rfl
    · exact hands_of_same rfl rfl rfl rfl

/-! What `bgStep` does in each place. -/

section

variable {t : ℕ}

theorem bgStep_swap (place : w.bg = .swap) (answer : Answer) :
    w.bgStep answer = ({ w with txQ := [], bg := .next w.txQ }, {}) := by
  unfold bgStep
  rw [place]

theorem bgStep_next_nil (place : w.bg = .next []) (answer : Answer) :
    w.bgStep answer = ({ w with bg := .recv }, {}) := by
  unfold bgStep
  rw [place]

theorem bgStep_next_cons (place : w.bg = .next (frame :: out)) (answer : Answer) :
    w.bgStep answer = if w.fatalErrno ≠ 0 then ({ w with bg := .recv }, {})
      else ({ w with bg := .sendto frame 0 out }, {}) := by
  unfold bgStep
  rw [place]

theorem bgStep_wrote (place : w.bg = .sendto frame t out) (count : ℕ) : w.bgStep (.wrote count) =
      if count = frame.length then ({ w with bg := .fetchSub out }, { sent := some frame })
      else ({ w with bg := .next out }.markWireFailed emsgsize, {}) := by
  unfold bgStep
  rw [place]

theorem bgStep_fetchSub (place : w.bg = .fetchSub out) (answer : Answer) :
    w.bgStep answer = ({ w with pendingTx := w.pendingTx - 1, bg := .next out }, {}) := by
  unfold bgStep
  rw [place]

theorem bgStep_received_nil (place : w.bg = .recv) :
    w.bgStep (.received []) = ({ w with bg := .swap }, {}) := by
  unfold bgStep
  rw [place]

theorem bgStep_returns (place : w.bg = .callback) :
    w.bgStep .returns = ({ w with bg := .recv }, {}) := by
  unfold bgStep
  rw [place]

theorem bgStep_callbackSend (place : w.bg = .callbackSend frame) (answer : Answer) :
    w.bgStep answer = { w with bg := .callback }.dataSend frame := by
  unfold bgStep
  rw [place]

end

theorem hands_of_place {phase : BgPhase} {out : WireOut} (frames : phase.out = w.bg.out)
    (late : phase.late = w.bg.late) (enqueued : out.enqueued = none) (sent : out.sent = none) :
    w.Hands ({ w with bg := phase }, out) :=
  hands_of_same rfl (by simp only [handoff, frames, late]) enqueued sent

theorem sendto_hands {t : ℕ} (tries : w.bg = .sendto frame t out) (answer : Answer) :
    w.Hands (w.bgStep answer) := by
  have stays : w.Hands (w, {}) := hands_of_same rfl rfl rfl rfl
  cases answer with
  | wrote count =>
    rw [bgStep_wrote tries]
    split_ifs with whole
    · intro alive
      refine ⟨alive, ?_⟩
      simp only [handoff, tries, BgPhase.out, BgPhase.late]
      exact .hand
    · exact hands_of_failed _ _ _ _
  | failed errno =>
    unfold bgStep
    simp only [tries]
    split_ifs with again more
    · exact hands_of_place (by rw [tries]; rfl) (by rw [tries]; rfl) rfl rfl
    · exact hands_of_failed _ _ _ _
    · exact hands_of_failed _ _ _ _
  | _ =>
    unfold bgStep
    simpa only [tries] using stays

theorem recv_hands (waits : w.bg = .recv) (answer : Answer) : w.Hands (w.bgStep answer) := by
  have stays : w.Hands (w, {}) := hands_of_same rfl rfl rfl rfl
  match answer with
  | .received [] =>
    rw [bgStep_received_nil waits]
    exact hands_of_place (by rw [waits]; rfl) (by rw [waits]; rfl) rfl rfl
  | .received (type :: rest) =>
    unfold bgStep
    simp only [waits]
    exact receive_hands waits type rest
  | .nothing | .wrote _ | .failed _ | .calls _ _ | .returns =>
    unfold bgStep
    simpa only [waits] using stays

theorem callback_hands (runs : w.bg = .callback) (answer : Answer) : w.Hands (w.bgStep answer) := by
  have stays : w.Hands (w, {}) := hands_of_same rfl rfl rfl rfl
  cases answer with
  | calls tag buf =>
    unfold bgStep
    simp only [runs]
    cases w.dataFrame tag buf with
    | none => exact hands_of_same rfl rfl rfl rfl
    | some frame => exact hands_of_place (by rw [runs]; rfl) (by rw [runs]; rfl) rfl rfl
  | returns =>
    rw [bgStep_returns runs]
    exact hands_of_place (by rw [runs]; rfl) (by rw [runs]; rfl) rfl rfl
  | _ =>
    unfold bgStep
    simpa only [runs] using stays

theorem bgStep_hands (w : Wire) (answer : Answer) : w.Hands (w.bgStep answer) := by
  cases place : w.bg with
  | swap =>
    rw [bgStep_swap place]
    intro alive
    refine ⟨alive, ?_⟩
    simp only [handoff, place, BgPhase.out, BgPhase.late]
    exact .take
  | next out =>
    cases out with
    | nil =>
      rw [bgStep_next_nil place]
      exact hands_of_place (by rw [place]; rfl) (by rw [place]; rfl) rfl rfl
    | cons frame out =>
      rw [bgStep_next_cons place]
      split_ifs with fatal
      · exact fun alive => absurd alive fatal
      · exact hands_of_place (by rw [place]; rfl) (by rw [place]; rfl) rfl rfl
  | sendto frame t out => exact sendto_hands place answer
  | fetchSub out =>
    rw [bgStep_fetchSub place]
    intro alive
    refine ⟨alive, ?_⟩
    simp only [handoff, place, BgPhase.out, BgPhase.late]
    exact .count
  | recv => exact recv_hands place answer
  | callback => exact callback_hands place answer
  | callbackSend frame =>
    rw [bgStep_callbackSend place]
    exact dataSend_hands frame rfl (by simp [handoff, place, BgPhase.out, BgPhase.late])

theorem step_hands (w : Wire) (event : WireEvent) : w.Hands (Wire.step w event) := by
  cases event with
  | call call =>
    simp only [step]
    split_ifs with idle
    · exact call_hands w call
    · exact hands_of_same rfl rfl rfl rfl
  | app => exact appStep_hands w
  | bg answer => exact bgStep_hands w answer

@[simp] theorem dataSend_txDrained (w : Wire) (frame : Frame) :
    (w.dataSend frame).2.txDrained = none := by
  unfold dataSend
  split_ifs <;> rfl

@[simp] theorem receive_txDrained (w : Wire) (type : Byte) (rest : List Byte) :
    (w.receive type rest).2.txDrained = none := by
  unfold receive
  cases rest <;> split_ifs <;> rfl

@[simp] theorem bgStep_txDrained (w : Wire) (answer : Answer) :
    (w.bgStep answer).2.txDrained = none := by
  unfold bgStep
  split
  all_goals first
    | rfl
    | exact receive_txDrained _ _ _
    | exact dataSend_txDrained _ _
    | split_ifs <;> rfl
    | split <;> rfl

theorem pendingTx_of_drained (drained : (Wire.step w event).2.txDrained = some true) :
    w.pendingTx = 0 := by
  cases event with
  | call call =>
    simp only [step] at drained
    split_ifs at drained
    cases call <;> simp only [Wire.call] at drained <;> split at drained <;> simp at drained
  | app =>
    simp only [step, appStep] at drained
    cases place : w.app with
    | idle => simp [place] at drained
    | pump frame =>
      simp only [place] at drained
      split_ifs at drained
    | dataSend frame =>
      simp [place] at drained
    | txDrained => simpa [place] using drained
  | bg answer =>
    simp [step] at drained

end Wire

section

variable {events before after : List WireEvent} {event : WireEvent}

theorem enqueuedFrames_snoc (events : List WireEvent) (event : WireEvent) :
    enqueuedFrames (events ++ [event]) = enqueuedFrames events ++
      (Wire.step (Wire.step.final idleWire events) event).2.enqueued.toList := by
  rw [enqueuedFrames, Mealy.trace_append, filterMap_append]
  congr 1

theorem sentFrames_snoc (events : List WireEvent) (event : WireEvent) :
    sentFrames (events ++ [event]) = sentFrames events ++
      (Wire.step (Wire.step.final idleWire events) event).2.sent.toList := by
  rw [sentFrames, Mealy.trace_append, filterMap_append]
  congr 1

theorem alive_of_append (alive : (Wire.step.final idleWire (before ++ after)).fatalErrno = 0) :
    (Wire.step.final idleWire before).fatalErrno = 0 := by
  induction after using List.reverseRecOn with
  | nil => simpa using alive
  | append_singleton after event ih =>
    rw [← append_assoc, Mealy.final_snoc] at alive
    exact ih (Wire.step_hands _ event alive).1

theorem wire_accounts (alive : (Wire.step.final idleWire events).fatalErrno = 0) :
    Handoff.Accounts maxTxQueueFrames (enqueuedFrames events) (sentFrames events)
      (Wire.step.final idleWire events).handoff := by
  induction events using List.reverseRecOn with
  | nil => exact ⟨rfl, rfl, Nat.zero_le _, Nat.zero_le _⟩
  | append_singleton events event ih =>
    rw [Mealy.final_snoc] at alive ⊢
    rw [enqueuedFrames_snoc, sentFrames_snoc]
    obtain ⟨working, moves⟩ := Wire.step_hands _ event alive
    exact (ih working).move moves

end

namespace Wire

variable {w : Wire}

/-- The background thread can go on until everything has been sent. -/
def Settles (w : Wire) : Prop :=
  ∃ answers : List Answer,
    let settled := Wire.step.final w (answers.map WireEvent.bg)
    settled.fatalErrno = 0 ∧ settled.txQ = [] ∧ settled.bg.out = []

theorem settles_of_step (answer : Answer) (rest : (w.bgStep answer).1.Settles) : w.Settles := by
  obtain ⟨answers, settled⟩ := rest
  exact ⟨answer :: answers, settled⟩

/-- A socket that takes every frame lets the loop over `out` come to its end. -/
theorem settles_of_next (place : w.bg = .next out) (alive : w.fatalErrno = 0)
    (rest : ∀ pendingTx, { w with pendingTx := pendingTx, bg := .recv }.Settles) : w.Settles := by
  induction out generalizing w with
  | nil =>
    apply settles_of_step .nothing
    rw [bgStep_next_nil place]
    exact rest w.pendingTx
  | cons frame out ih =>
    apply settles_of_step .nothing
    rw [bgStep_next_cons place, if_neg (not_not.mpr alive)]
    apply settles_of_step (.wrote frame.length)
    rw [bgStep_wrote rfl, if_pos rfl]
    apply settles_of_step .nothing
    rw [bgStep_fetchSub rfl]
    exact ih rfl alive rest

theorem settles_of_swap (place : w.bg = .swap) (alive : w.fatalErrno = 0) : w.Settles := by
  apply settles_of_step .nothing
  rw [bgStep_swap place]
  exact settles_of_next rfl alive fun _ => ⟨[], alive, rfl, rfl⟩

theorem settles_of_recv (place : w.bg = .recv) (alive : w.fatalErrno = 0) : w.Settles := by
  apply settles_of_step (.received [])
  rw [bgStep_received_nil place]
  exact settles_of_swap rfl alive

theorem settles_of_callback (place : w.bg = .callback) (alive : w.fatalErrno = 0) : w.Settles := by
  apply settles_of_step .returns
  rw [bgStep_returns place]
  exact settles_of_recv rfl alive

theorem settles (alive : w.fatalErrno = 0) : w.Settles := by
  cases place : w.bg with
  | swap => exact settles_of_swap place alive
  | next out => exact settles_of_next place alive fun _ => settles_of_recv rfl alive
  | sendto frame t out =>
    apply settles_of_step (.wrote frame.length)
    rw [bgStep_wrote place, if_pos rfl]
    apply settles_of_step .nothing
    rw [bgStep_fetchSub rfl]
    exact settles_of_next rfl alive fun _ => settles_of_recv rfl alive
  | fetchSub out =>
    apply settles_of_step .nothing
    rw [bgStep_fetchSub place]
    exact settles_of_next rfl alive fun _ => settles_of_recv rfl alive
  | recv => exact settles_of_recv place alive
  | callback => exact settles_of_callback place alive
  | callbackSend frame =>
    apply settles_of_step .nothing
    rw [bgStep_callbackSend place, dataSend]
    split_ifs
    · exact settles_of_callback rfl alive
    · exact settles_of_callback rfl alive

end Wire

/-- In every state of a run in which no failure is marked: the frames enqueued are those that have
reached the socket, then those swapped out, then those in the queue; `pending_tx` counts those not
yet sent, and one more between `sendto` and `fetch_sub`; when `openurma_nic_tx_drained` returns 1,
all have been sent; and the background thread can send them all. -/
theorem frames_reach_socket (events : List WireEvent)
    (alive : (Wire.step.final idleWire events).fatalErrno = 0) (before after : List WireEvent)
    (cut : events = before ++ after) :
    let w := Wire.step.final idleWire before
    enqueuedFrames before = sentFrames before ++ w.bg.out ++ w.txQ ∧
      w.pendingTx.toNat =
        (enqueuedFrames before).length - (sentFrames before).length + w.bg.late.toNat ∧
      (∀ event, (Wire.step w event).2.txDrained = some true →
        sentFrames before = enqueuedFrames before) ∧
      ∃ answers : List Wire.Answer,
        let more := before ++ answers.map WireEvent.bg
        (Wire.step.final idleWire more).fatalErrno = 0 ∧
          sentFrames more = enqueuedFrames more := by
  intro w
  subst cut
  have working : w.fatalErrno = 0 := alive_of_append alive
  have accounts := wire_accounts working
  have wide : 2 * maxTxQueueFrames + 1 < 2 ^ 64 := by decide
  refine ⟨accounts.order, accounts.counter_toNat wide, ?_, ?_⟩
  · intro event drained
    exact accounts.all_handed wide (Wire.pendingTx_of_drained drained)
  · obtain ⟨answers, still, queue, out⟩ := Wire.settles working
    rw [← Mealy.final_append] at still queue out
    have order := (wire_accounts still).order
    simp only [Wire.handoff, queue, out, append_nil] at order
    exact ⟨answers, still, order.symm⟩

/-- A frame of three octets that is enqueued and sent; the background thread has not got to
`fetch_sub`. -/
def oneFrame : List WireEvent :=
  [.call (.dataSend 1 [7]), .app, .bg .nothing, .bg .nothing, .bg (.wrote 3)]

theorem frames_reach_socket_oneFrame :
    (Wire.step.final idleWire (oneFrame ++ [.bg .nothing])).fatalErrno = 0 ∧
      (Wire.step.final idleWire oneFrame).pendingTx.toNat =
        (enqueuedFrames oneFrame).length - (sentFrames oneFrame).length + 1 :=
  ⟨by decide, (frames_reach_socket (oneFrame ++ [.bg .nothing]) (by decide) oneFrame
    [.bg .nothing] rfl).2.1⟩

/-- After `sendto` the frame has been sent, and `pending_tx` still counts it. -/
theorem pendingTx_late : (Wire.step.final idleWire oneFrame).fatalErrno = 0 ∧
      enqueuedFrames oneFrame = [[0x44, 1, 7]] ∧ sentFrames oneFrame = [[0x44, 1, 7]] ∧
      (Wire.step.final idleWire oneFrame).pendingTx = 1 := by
  decide

end OpenURMA.Provider
