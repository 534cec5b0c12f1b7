import OpenURMA.Codec.Checked
import OpenURMA.Library.Emission

/-!
# Robustness of the frame codec

Whatever flits arrive, in whichever calls, `UB_Eth_Decap` and `UB_Eth_Encap` stay inside their
buffers, emit whole packets and return to reading after at most 14 calls. `pending` is what an
element still has to emit, so that both proofs are instances of the burst rules.
-/

namespace OpenURMA

open Library List

section

variable {σ : Type}

/-- Every run from `start` stays inside the arrays and emits whole packets of the allowed form; the
last one is completed within 14 calls, whatever is offered, and input accepted again. -/
def Robust (step : Faulting σ Flit Flit) (start : σ) (idle : σ → Prop)
    (allowed : Packet → Prop) : Prop :=
  ∀ (schedule : List Bool) (inputs : List Flit),
    ∃ outcome, step.run schedule start inputs = some outcome ∧
      ∃ (packets : List Packet) (part left : List Flit),
        (∀ p ∈ packets, allowed p) ∧
        outcome.outputs = packets.flatMap Packet.flits ++ part ∧
        Underway Packet.flits allowed part left ∧
        left.length ≤ 14 ∧
        ∃ final, step.Accepts final ∧ (left ≠ [] → idle final) ∧
          ∀ (offers : List Bool) (queue : List Flit), offers.length = left.length →
            step.run offers outcome.state queue = some ⟨final, queue, left⟩

variable {step : Faulting σ Flit Flit} {handler : Handler σ Flit Flit}
variable {invariant idle : σ → Prop} {pending : σ → List Flit} {allowed : Packet → Prop}

theorem robust_of_bursts (implements : step.Implements handler invariant)
    (bursts : Bursts handler invariant idle pending Packet.flits allowed)
    (short : ∀ {s}, invariant s → (pending s).length ≤ 14) {start : σ}
    (holds : invariant start) (quiet : pending start = []) :
    Robust step start idle allowed := by
  intro schedule inputs
  obtain ⟨runs, kept⟩ := implements.run schedule holds inputs
  have nothing : Underway Packet.flits allowed [] (pending start) := by
    rw [quiet]
    exact .idle
  obtain ⟨packets, part, every, outputs, underway⟩ :=
      bursts.outputs_underway schedule holds inputs nothing
  obtain ⟨final, settled, done, returned, drains⟩ := bursts.run_pending kept rfl
  refine ⟨_, runs, packets, part, _, every, outputs, underway, short kept, final, ?_, returned,
    fun offers queue count => ?_⟩
  · intro input
    exact ⟨_, implements.agrees settled _, bursts.reads settled done input⟩
  · rw [(implements.run offers kept queue).1, drains offers queue count]

end

theorem EopLast.cons {f : Flit} {flits : List Flit} (more : f.eop = false)
    (framed : EopLast flits) : EopLast (f :: flits) := by
  cases flits with
  | nil => exact framed.elim
  | cons g flits => exact ⟨more, framed⟩

theorem chunks_length_le (first : Bool) (octets : List Byte) :
    (chunks first octets).length ≤ octets.length / 32 + 1 := by
  by_cases short : octets.length ≤ 32
  · rw [chunks_short short]
    simp
  · rw [chunks_long (by omega), length_cons]
    have rest := chunks_length_le false (octets.drop 32)
    rw [length_drop] at rest
    omega
termination_by octets.length
decreasing_by simp; omega

namespace EthDecap

def payloadLeft (s : State) : List Flit :=
  if s.hasPayload then
    chunks false (s.hdrbuf.slice s.payloadOff (s.hdrEnd + s.payloadTotal - s.payloadOff))
  else []

def extLeft (s : State) : List Flit :=
  (if s.needsExt then [extFlit s] else []) ++ payloadLeft s

def pending (s : State) : List Flit :=
  match s.phase with
  | .accumulate => []
  | .emitMeta => metaFlit s :: extLeft s
  | .emitExt => extFlit s :: payloadLeft s
  | .emitPayload => payloadLeft s

def packetOf (s : State) : Packet where
  head := metaFlit s
  rest := extLeft s
  sop_head := rfl
  sop_rest := by
    intro f member
    unfold extLeft payloadLeft at member
    rcases mem_append.mp member with ext | payload
    · split at ext
      · rw [mem_singleton.mp ext]
        rfl
      · cases ext
    · split at payload
      · exact sop_chunks _ f payload
      · cases payload
  eop_last := by
    unfold extLeft payloadLeft
    cases ext : s.needsExt <;> cases payload : s.hasPayload
    · simp [EopLast, metaFlit, ext, payload]
    · exact EopLast.cons (by simp [metaFlit, payload]) (eopLast_chunks _ _)
    · simp [EopLast, metaFlit, extFlit, ext, payload]
    · refine EopLast.cons (by simp [metaFlit, payload]) ?_
      exact EopLast.cons (by simp [extFlit, payload]) (eopLast_chunks _ _)

variable {s : State}

theorem payloadLeft_length (bounds : s.hasPayload = true → PayloadBounds s) :
    (payloadLeft s).length ≤ 11 := by
  unfold payloadLeft
  split
  · next payload =>
    have behind := (bounds payload).behind
    have inside : s.hdrEnd + s.payloadTotal ≤ 384 := (bounds payload).inside
    have count := chunks_length_le false
      (s.hdrbuf.slice s.payloadOff (s.hdrEnd + s.payloadTotal - s.payloadOff))
    rw [Buffer.slice_length] at count
    omega
  · exact Nat.zero_le _

theorem extLeft_length (s : State) : (extLeft s).length ≤ (payloadLeft s).length + 1 := by
  unfold extLeft
  cases s.needsExt <;> simp

theorem pending_length (safe : Safe s) : (pending s).length ≤ 13 := by
  have bounds := safe.payload
  unfold pending
  cases phase : s.phase with
  | accumulate => exact Nat.zero_le _
  | emitMeta =>
    have payload := payloadLeft_length (bounds (by simp [phase]))
    have ext := extLeft_length s
    simp only [length_cons]
    omega
  | emitExt =>
    have payload := payloadLeft_length (bounds (by simp [phase]))
    simp only [length_cons]
    omega
  | emitPayload =>
    have payload := payloadLeft_length (bounds (by simp [phase]))
    simp only
    omega

theorem payloadLeft_ne_nil (payload : s.hasPayload = true) : payloadLeft s ≠ [] := by
  rw [payloadLeft, if_pos payload]
  exact chunks_ne_nil _ _

theorem pending_extNext (s : State) :
    pending (extNext s) = payloadLeft s ∧ (payloadLeft s = [] → Idle (extNext s)) := by
  unfold extNext
  cases payload : s.hasPayload with
  | true =>
    refine ⟨?_, fun none => (payloadLeft_ne_nil payload none).elim⟩
    simp [pending, payloadLeft, payload]
  | false =>
    have none : payloadLeft s = [] := by simp [payloadLeft, payload]
    exact ⟨none.symm, fun _ => idle_finish s⟩

theorem pending_metaNext (s : State) :
    pending (metaNext s) = extLeft s ∧ (extLeft s = [] → Idle (metaNext s)) := by
  by_cases needs : s.needsExt = true
  · rw [metaNext, extLeft, if_pos needs, if_pos needs]
    exact ⟨rfl, fun none => by cases none⟩
  · rw [metaNext, extLeft, if_neg needs, if_neg needs]
    exact pending_extNext s

theorem payloadFlit_eq (s : State) :
    payloadFlit s = drainChunk s.hdrbuf (s.hdrEnd + s.payloadTotal) (fun _ => false) s.payloadOff :=
  rfl

theorem payloadLeft_eq_cons (emitting : s.phase = .emitPayload) (payload : s.hasPayload = true)
    (bounds : PayloadBounds s) :
    ∃ rest, payloadLeft s = payloadFlit s :: rest ∧ pending (payloadNext s) = rest ∧
      (rest = [] → Idle (payloadNext s)) := by
  have started := bounds.remains.le
  simp only [payloadLeft, if_pos payload, payloadFlit_eq]
  by_cases more : s.hdrEnd + s.payloadTotal - s.payloadOff > 32
  · have next : payloadNext s = { s with payloadOff := s.payloadOff + 32 } := by
      simp only [payloadNext, if_pos more]
      rw [if_neg (by omega)]
    refine ⟨_, @chunks_slice_more s.hdrbuf _ (fun _ => false) _ more rfl, ?_, fun none => ?_⟩
    · rw [next]
      simp only [pending, emitting, payloadLeft, if_pos payload]
    · exact (chunks_ne_nil _ _ none).elim
  · have next : payloadNext s = payloadDone s := by
      simp only [payloadNext, if_neg more]
      rw [if_pos (by omega)]
    have last := @chunks_slice_last s.hdrbuf _ (fun _ => false) _ started (by omega)
    refine ⟨[], last, ?_, fun _ => ?_⟩
    · rw [next]
      rfl
    · rw [next]
      exact idle_finish s

theorem phase_of_quiet (safe : Safe s) (quiet : pending s = []) : s.phase = .accumulate := by
  unfold pending at quiet
  cases phase : s.phase with
  | accumulate => rfl
  | emitMeta | emitExt => simp [phase] at quiet
  | emitPayload =>
    rw [phase] at quiet
    exact (payloadLeft_ne_nil (safe.present phase) quiet).elim

theorem pending_accumulate (waiting : s.phase = .accumulate) (f : Flit) :
    pending (accumulate s f) = [] ∨ ∃ s₁, pending (accumulate s f) = (packetOf s₁).flits := by
  have quiet : pending (collect s f) = [] := by
    simp only [pending, phase_collect, waiting]
  unfold accumulate complete
  dsimp only
  split
  · exact .inl quiet
  · split
    · exact .inl quiet
    · split
      · exact .inl quiet
      · exact .inr ⟨parse (collect s f), rfl⟩

theorem bursts : Bursts handler Safe Idle pending Packet.flits fun _ => True where
  preserved safe offered := safe.handler offered
  silent safe quiet offered := by
    have waiting := phase_of_quiet safe quiet
    cases offered <;> simp only [handler, waiting]
  reads safe quiet input := by rw [handler_accumulate (phase_of_quiet safe quiet)]
  starts safe quiet offered := by
    have waiting := phase_of_quiet safe quiet
    cases offered with
    | none =>
      left
      simp only [handler, waiting]
      exact quiet
    | some f =>
      rw [handler_accumulate waiting]
      rcases pending_accumulate waiting f with none | ⟨s₁, started⟩
      · exact .inl none
      · exact .inr ⟨packetOf s₁, trivial, started⟩
  emits {s out rest} safe held := by
    cases phase : s.phase with
    | accumulate => simp [pending, phase] at held
    | emitMeta =>
      simp only [pending, phase, List.cons.injEq] at held
      obtain ⟨rfl, rfl⟩ := held
      exact ⟨metaNext s, (pending_metaNext s).1, (pending_metaNext s).2, fun offered => by
        simp only [handler, phase]⟩
    | emitExt =>
      simp only [pending, phase, List.cons.injEq] at held
      obtain ⟨rfl, rfl⟩ := held
      exact ⟨extNext s, (pending_extNext s).1, (pending_extNext s).2, fun offered => by
        simp only [handler, phase]⟩
    | emitPayload =>
      have payload := safe.present phase
      obtain ⟨left, split, next, idle⟩ :=
          payloadLeft_eq_cons phase payload (safe.payload (by simp [phase]) payload)
      simp only [pending, phase, split, List.cons.injEq] at held
      obtain ⟨rfl, rfl⟩ := held
      exact ⟨payloadNext s, next, idle, fun offered => by simp only [handler, phase]⟩

end EthDecap

namespace EthEncap

def pending (s : State) : List Flit :=
  match s.emitMode with
  | .drain => chunks (s.emitOffset == 0) (s.wire.slice s.emitOffset (s.wireLen - s.emitOffset))
  | _ => []

def CarriesFrame (p : Packet) : Prop :=
  ∃ frame : List Byte, frame.length ≤ wireMax ∧ p.flits = chunks true frame

variable {s : State}

theorem pending_length (safe : Safe s) : (pending s).length ≤ 13 := by
  have filled : s.wireLen ≤ 384 := safe.filled
  unfold pending
  split
  · have count := chunks_length_le (s.emitOffset == 0)
      (s.wire.slice s.emitOffset (s.wireLen - s.emitOffset))
    rw [Buffer.slice_length] at count
    omega
  · exact Nat.zero_le _

theorem mode_of_quiet (quiet : pending s = []) : s.emitMode ≠ .drain := by
  intro draining
  simp only [pending, draining] at quiet
  exact chunks_ne_nil _ _ quiet

theorem quiet_of_mode (mode : s.emitMode ≠ .drain) : pending s = [] := by
  cases emitMode : s.emitMode with
  | drain => exact (mode emitMode).elim
  | build | payload => simp only [pending, emitMode]

theorem handler_quiet (mode : s.emitMode ≠ .drain) (f : Flit) :
    (handler s (some f)).read = true ∧ (handler s (some f)).out = none := by
  cases emitMode : s.emitMode with
  | drain => exact (mode emitMode).elim
  | payload => simp [handler, emitMode]
  | build =>
    simp only [handler, emitMode]
    split
    · exact ⟨rfl, rfl⟩
    · split <;> exact ⟨rfl, rfl⟩

theorem offset_of_started (mode : s.emitMode ≠ .drain) (f : Flit)
    (draining : (handler s (some f)).state.emitMode = .drain) :
    (handler s (some f)).state.emitOffset = 0 := by
  revert draining
  cases emitMode : s.emitMode with
  | drain => exact (mode emitMode).elim
  | payload =>
    simp only [handler, emitMode, collectPayload]
    cases f.eop <;> simp
  | build =>
    simp only [handler, emitMode]
    split
    · cases last : f.eop <;> simp [buildHeaders, last]
    · split
      · unfold buildExtension
        split <;> simp
      · exact fun draining => (mode draining).elim

theorem pending_eq_cons (draining : s.emitMode = .drain) (inside : s.emitOffset < s.wireLen) :
    ∃ rest, pending s = drainFlit s :: rest ∧ pending (drainNext s) = rest ∧
      (rest = [] → Idle (drainNext s)) := by
  have chunk : drainFlit s = drainChunk s.wire s.wireLen (· == 0) s.emitOffset := rfl
  simp only [pending, draining, chunk]
  by_cases more : s.wireLen - s.emitOffset > 32
  · have next : drainNext s = { s with emitOffset := s.emitOffset + 32 } := by
      simp only [drainNext, if_pos more]
      rw [if_neg (by omega)]
    refine ⟨_, @chunks_slice_more s.wire _ (· == 0) _ more rfl, ?_, fun none => ?_⟩
    · rw [next]
      simp only [draining]
    · exact (chunks_ne_nil _ _ none).elim
  · have next : drainNext s = drained s := by
      simp only [drainNext, if_neg more]
      rw [if_pos (by omega)]
      rfl
    refine ⟨[], @chunks_slice_last s.wire _ (· == 0) _ inside.le (by omega), ?_, fun _ => ?_⟩
    · rw [next]
      rfl
    · rw [next]
      exact idle_drained s

theorem bursts : Bursts handler Safe Idle pending Packet.flits CarriesFrame where
  preserved safe offered := safe.handler offered
  silent {s} _ quiet offered := by
    have mode := mode_of_quiet quiet
    cases offered with
    | none =>
      have waits := waits_of_not_drain mode
      rw [show handler s none = ⟨s, false, none⟩ from waits]
    | some f => exact (handler_quiet mode f).2
  reads _ quiet f := (handler_quiet (mode_of_quiet quiet) f).1
  starts {s} safe quiet offered := by
    have mode := mode_of_quiet quiet
    cases offered with
    | none =>
      have waits := waits_of_not_drain mode
      rw [show handler s none = ⟨s, false, none⟩ from waits]
      exact .inl quiet
    | some f =>
      by_cases draining : (handler s (some f)).state.emitMode = .drain
      · let t := (handler s (some f)).state
        have start : t.emitOffset = 0 := offset_of_started mode f draining
        have frame : pending t = chunks true t.contents := by
          have mode : t.emitMode = .drain := draining
          simp only [pending, mode, start]
          rfl
        obtain ⟨p, flits⟩ := exists_packet_chunks t.contents
        have fits : t.contents.length ≤ wireMax := by
          rw [contents_length]
          exact (safe.handler (some f)).filled
        exact .inr ⟨p, ⟨t.contents, fits, flits⟩, frame.trans flits.symm⟩
      · exact .inl (quiet_of_mode draining)
  emits {s out rest} safe held := by
    by_cases draining : s.emitMode = .drain
    · obtain ⟨left, split, next, idle⟩ := pending_eq_cons draining (safe.draining draining)
      rw [split, List.cons.injEq] at held
      obtain ⟨rfl, rfl⟩ := held
      exact ⟨drainNext s, next, idle, handler_drain draining⟩
    · rw [quiet_of_mode draining] at held
      cases held

end EthEncap

/-- Both codec elements are robust, whatever the buffers hold at the start. -/
theorem codec_robust (hdrbuf wire : Buffer) :
    Robust EthDecap.Machine.handler (EthDecap.init hdrbuf) EthDecap.Idle (fun _ => True) ∧
      Robust EthEncap.Machine.handler (EthEncap.init wire) EthEncap.Idle EthEncap.CarriesFrame := by
  constructor
  · exact robust_of_bursts EthDecap.implements EthDecap.bursts
      (fun safe => (EthDecap.pending_length safe).trans (by omega)) (EthDecap.safe_init hdrbuf) rfl
  · exact robust_of_bursts EthEncap.implements EthEncap.bursts
      (fun safe => (EthEncap.pending_length safe).trans (by omega)) (EthEncap.safe_init wire) rfl

end OpenURMA
