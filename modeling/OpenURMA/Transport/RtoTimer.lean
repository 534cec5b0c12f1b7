import OpenURMA.Transport.UnoTraffic

/-!
# `UB_RTO_Timer`

A tick visits one of 64 entries; a valid entry that has been visited more often than its timeout
allows since the last acknowledgement raises an RTO event. Only an acknowledgement makes an entry
valid. So a channel has no timer while its first packets are on the way, and if they are all lost
nothing sends them again.
-/

namespace OpenURMA

open Library TpChannelTx UbMeta RetransBuffer Function

namespace RtoTimer

structure ChanRto where
  remoteCna : U32
  lastAcked : U32
  ticksSinceProgress : U32
  currentTimeout : U32
  rtoCount : U32
  valid : Bool
  deriving DecidableEq, Inhabited

structure State where
  ch : Fin 64 → ChanRto
  scanCursor : Fin 64
  baseTimeout : U32
  dynamicMode : Bool

def defaultTimeout : U32 := 64

def maxTimeout : U32 := 4096

def init (memory : Fin 64 → ChanRto) : State where
  ch i := { memory i with
    valid := false, ticksSinceProgress := 0, currentTimeout := defaultTimeout, rtoCount := 0 }
  scanCursor := 0
  baseTimeout := defaultTimeout
  dynamicMode := false

def rcna (a : Flit) : U32 := (a.get 0 &&& 0xFFFFFF).setWidth 32

def apsn (a : Flit) : U32 := (a.get 1 &&& 0xFFFFFF).setWidth 32

/-- An acknowledgement on port 2; `rcna & INDEX_MASK` is the index of `UB_TPChannel_TX`. -/
def takeAck (s : State) (a : Flit) : State :=
  let i := TpChannelTx.idx (rcna a)
  { s with ch := update s.ch i { s.ch i with
      remoteCna := rcna a, lastAcked := apsn a, valid := true, ticksSinceProgress := 0
      currentTimeout := s.baseTimeout } }

def event (c : ChanRto) : Flit where
  lane0 := c.remoteCna.setWidth 64
  lane1 := ((c.lastAcked + 1) &&& 0xFFFFFF).setWidth 64
  lane2 := 0xFF
  sop := true
  eop := true

/-- The entry after its event; in dynamic mode the timeout is doubled, up to a cap. -/
def restart (dynamicMode : Bool) (c : ChanRto) : ChanRto :=
  let nt := c.currentTimeout * 2
  { c with
    rtoCount := c.rtoCount + 1
    ticksSinceProgress := 0
    currentTimeout :=
      if dynamicMode then if nt > maxTimeout then maxTimeout else nt else c.currentTimeout }

def takeTick (s : State) : State × Ports Flit :=
  let i := s.scanCursor
  let advanced := { s with scanCursor := s.scanCursor + 1 }
  if (s.ch i).valid then
    let c : ChanRto := { s.ch i with ticksSinceProgress := (s.ch i).ticksSinceProgress + 1 }
    if c.ticksSinceProgress > c.currentTimeout then
      ({ advanced with ch := update s.ch i (restart s.dynamicMode c) },
        Ports.emit 1 (event c))
    else ({ advanced with ch := update s.ch i c }, Ports.silent)
  else (advanced, Ports.silent)

/-- What waits on the two input ports in a call. -/
structure Offer where
  tick : Bool
  ack : Option Flit

def step : Mealy State Offer (Ports Flit) := fun s offer =>
  let s := offer.ack.elim s (takeAck s)
  if offer.tick then takeTick s else (s, Ports.silent)

def events (s : State) (ticks : ℕ) : List Flit :=
  Ports.sent 1 (step.trace s (List.replicate ticks ⟨true, none⟩))

theorem valid_step_of_tick {s : State} (invalid : ∀ i, (s.ch i).valid = false) (tick : Bool)
    (i : Fin 64) : ((step s ⟨tick, none⟩).1.ch i).valid = false := by
  have visited := invalid s.scanCursor
  cases tick with
  | false => exact invalid i
  | true =>
    have quiet : takeTick s = ({ s with scanCursor := s.scanCursor + 1 }, Ports.silent) :=
      if_neg (by simp [visited])
    change ((takeTick s).1.ch i).valid = false
    rw [quiet]
    exact invalid i

end RtoTimer

namespace TimedChannels

/-- An acknowledgement of packet `number` of those sent to a destination. -/
structure Ack where
  flit : Flit
  number : ℕ

/-- What the two elements find in a step; an acknowledgement is given to both. -/
structure Input where
  flit : Option Flit := none
  ack : Option Ack := none
  tick : Bool := false

/-- The state of the elements, the PSNs of the reliable packets sent to each destination, and how
many of them are cumulatively acknowledged. -/
structure Point where
  tx : TpChannelTx.State
  timer : RtoTimer.State
  psns : U32 → List U32
  acked : U32 → ℕ

def start (chans : Fin 64 → Chan) (timers : Fin 64 → RtoTimer.ChanRto) : Point where
  tx := TpChannelTx.init chans
  timer := RtoTimer.init timers
  psns _ := []
  acked _ := 0

def noted (psns : U32 → List U32) (out : Option Flit) : U32 → List U32 :=
  match out with
  | none => psns
  | some f =>
    if f.sop && reliable f then
      update psns (dcna.get f)
        (psns (dcna.get f) ++ [psn.get f])
    else psns

def credited (acked : U32 → ℕ) (ack : Option Ack) : U32 → ℕ :=
  match ack with
  | none => acked
  | some a => update acked (RtoTimer.rcna a.flit)
      (max (acked (RtoTimer.rcna a.flit)) (a.number + 1))

def step (point : Point) (input : Input) : Point :=
  let sent := TpChannelTx.step point.tx ⟨input.flit, input.ack.map (·.flit)⟩
  { tx := sent.1
    timer := (RtoTimer.step point.timer ⟨input.tick, input.ack.map (·.flit)⟩).1
    psns := noted point.psns (sent.2 1)
    acked := credited point.acked input.ack }

def Known (point : Point) (input : Input) : Prop :=
  ∀ a ∈ input.ack,
    (point.psns (RtoTimer.rcna a.flit))[a.number]? = some (RtoTimer.apsn a.flit)
deriving Decidable

/-- The entry of a destination has the highest acknowledged PSN, and ticks alone raise an event for
the oldest packet not acknowledged. -/
structure Watched (point : Point) (dest : U32) : Prop where
  valid : (point.timer.ch (TpChannelTx.idx dest)).valid = true
  remoteCna : (point.timer.ch (TpChannelTx.idx dest)).remoteCna = dest
  lastAcked : some (point.timer.ch (TpChannelTx.idx dest)).lastAcked =
    if point.acked dest = 0 then some 0xFFFFFF else (point.psns dest)[point.acked dest - 1]?
  expires : ∃ ticks, ∃ ev ∈ RtoTimer.events point.timer ticks, RtoTimer.rcna ev = dest
  oldest : ∀ ticks, ∀ ev ∈ RtoTimer.events point.timer ticks, RtoTimer.rcna ev = dest →
    (point.psns dest)[point.acked dest]? = some (RtoTimer.apsn ev)

/-- Every destination with a packet that is not acknowledged is watched. -/
def Timed (point : Point) : Prop :=
  ∀ dest, point.acked dest < (point.psns dest).length → Watched point dest

/-- Nothing has been sent yet that calls for an acknowledgement. -/
structure Quiet (point : Point) : Prop where
  psns : ∀ dest, point.psns dest = []
  acked : ∀ dest, point.acked dest = 0
  invalid : ∀ i, (point.timer.ch i).valid = false

theorem quiet_start (chans : Fin 64 → Chan) (timers : Fin 64 → RtoTimer.ChanRto) :
    Quiet (start chans timers) :=
  ⟨fun _ => rfl, fun _ => rfl, fun _ => rfl⟩

namespace Quiet

variable {point : Point} {input : Input} (quiet : Quiet point)
include quiet

theorem timed : Timed point := by
  intro dest unacked
  rw [quiet.psns] at unacked
  exact absurd unacked (Nat.not_lt_zero _)

variable (known : Known point input)
include known

theorem unacknowledged : input.ack = none := by
  cases ack : input.ack with
  | none => rfl
  | some a =>
    have sent := known a ack
    rw [quiet.psns] at sent
    cases sent

theorem step_rest : (∀ dest, (step point input).acked dest = 0) ∧
      ∀ i, ((step point input).timer.ch i).valid = false := by
  have none := quiet.unacknowledged known
  constructor
  · simp only [step, none, credited]
    exact quiet.acked
  · simp only [step, none]
    exact RtoTimer.valid_step_of_tick quiet.invalid input.tick

theorem step (uno : ∀ f ∈ input.flit, f.sop = true → reliable f = false) :
    Quiet (step point input) := by
  obtain ⟨acked, invalid⟩ := quiet.step_rest known
  refine ⟨fun dest => ?_, acked, invalid⟩
  refine Eq.trans ?_ (quiet.psns dest)
  simp only [TimedChannels.step, TpChannelTx.step, quiet.unacknowledged known]
  cases flit : input.flit with
  | none => rfl
  | some f =>
    cases sop : f.sop with
    | false => simp [noted, sop]
    | true =>
      have mode := (reliable_stamp point.tx f).trans (uno f flit sop)
      simp [noted, sop, mode]

/-- Right after the first reliable packet nothing watches over its destination. -/
theorem not_timed {f : Flit}
    (flit : input.flit = some f) (sop : f.sop = true) (rel : reliable f = true) :
    ¬Timed (TimedChannels.step point input) := by
  obtain ⟨acked, invalid⟩ := quiet.step_rest known
  let out := (stamp point.tx f).2
  have sent : (TimedChannels.step point input).psns (dcna.get out) =
      [psn.get out] := by
    have marks : (stamp point.tx f).2.sop = true :=
      (framing_stamp point.tx f).1.trans sop
    have mode := (reliable_stamp point.tx f).trans rel
    simp [TimedChannels.step, TpChannelTx.step, quiet.unacknowledged known, flit, sop, noted,
      marks, mode, quiet.psns, out]
  intro timed
  have watched := timed (dcna.get out) (by rw [acked, sent]; exact Nat.one_pos)
  have valid := watched.valid
  rw [invalid] at valid
  cases valid

end Quiet

/-- The timer watches over every destination in all states of a run exactly if the run sends no
reliable packet. -/
theorem timed_iff {chans : Fin 64 → Chan} {timers : Fin 64 → RtoTimer.ChanRto}
    {inputs : List Input} (known : Along step Known (start chans timers) inputs) :
    (∀ k, Timed ((inputs.take k).foldl step (start chans timers))) ↔
      ∀ input ∈ inputs, ∀ f ∈ input.flit, f.sop = true → svcMode.get f = svcUno := by
  have modes : ∀ f, reliable f = false ↔ svcMode.get f = svcUno := by
    simp [reliable]
  simp only [← modes]
  have quiet := quiet_start chans timers
  generalize start chans timers = point at known quiet ⊢
  induction inputs generalizing point with
  | nil => simpa using quiet.timed
  | cons input inputs ih =>
    by_cases uno : ∀ f ∈ input.flit, f.sop = true → reliable f = false
    · have later := ih _ known.2 (quiet.step known.1 uno)
      rw [List.forall_mem_cons, and_iff_right uno]
      refine Iff.trans ⟨fun timed k => timed (k + 1), fun timed k => ?_⟩ later
      cases k with
      | zero => exact quiet.timed
      | succ k => exact timed k
    · obtain ⟨f, flit, sop, rel⟩ :
          ∃ f, input.flit = some f ∧ f.sop = true ∧ reliable f = true := by
        simpa using uno
      refine iff_of_false (fun timed => ?_) fun every => ?_
      · exact quiet.not_timed known.1 flit sop rel (timed 1)
      · exact absurd (every input (by simp) f flit sop) (by simp [rel])

/-- A packet in UNO mode, and a tick. -/
theorem timed_datagram :
    (∀ k, Timed (([{ flit := some UnoTraffic.datagram.head }, { tick := true }].take k).foldl step
        (start (fun _ => default) fun _ => default))) ↔
      ∀ input ∈ [{ flit := some UnoTraffic.datagram.head }, { tick := true }],
        ∀ f ∈ Input.flit input, f.sop = true → svcMode.get f = svcUno :=
  timed_iff (by decide)

/-- A reliable packet of one flit is sent. -/
theorem not_timed_small : Along step Known (start (fun _ => default) fun _ => default)
        [{ flit := some SendPath.small.head }] ∧
      ¬Timed (step (start (fun _ => default) fun _ => default)
        { flit := some SendPath.small.head }) :=
  ⟨by decide, (quiet_start _ _).not_timed (by decide) rfl rfl (by decide)⟩

end TimedChannels

end OpenURMA
