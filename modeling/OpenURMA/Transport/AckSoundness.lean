import OpenURMA.Transport.ReceiveWindow

/-!
# Soundness of acknowledgements

`UB_TPACK_Gen` turns every descriptor of the receiver into a control packet; a TPACK promises that
everything up to its PSN has arrived. The promise is kept in the runs that start with the sender's
first packet and in which nothing arrives beyond the window: the channel opens at whatever arrives
first, and the answer to a packet beyond the window is a TPACK that is not marked as a NAK.
-/

namespace OpenURMA

open Library UbMeta BitField Receiver Write

namespace TpackGen

structure State where
  localScna : U32

/-- The setter calls on a blank metadata flit. -/
def writes (s : State) (a : Flit) : List Write :=
  let rcna : U32 := (a.get 0 &&& 0xFFFFFF).setWidth 32
  let psn : U32 := (a.get 1 &&& 0xFFFFFF).setWidth 32
  let tpop : U32 := (a.get 2 &&& 0xFF).setWidth 32
  let rolMode : Bool := a.get 3 &&& 1 != 0
  [dcna.write rcna, UbMeta.scna.write s.localScna, nthNlp.write nthNlpRtph, valid.write true,
    tpOpcode.write (tpop.setWidth 8), tpVer.write 0, padding.write 0, rtphNlp.write 0,
    UbMeta.psn.write psn, aFlag.write false, fFlag.write false,
    rspst.write (if rolMode then rspstTpackWTaack else rspstOk), isResponse.write true,
    taOpcode.write taopTaack]

def build (s : State) (a : Flit) : Flit :=
  ((Write.apply (writes s a) {}).setSop true).setEop true

def step : Mealy State Flit (Ports Flit) := fun s a => (s, Ports.emit 1 (build s a))

theorem writes_separate (s : State) (a : Flit) : Separate (writes s a) :=
  separate_of_slots (writes ⟨0⟩ {}) rfl (by decide)

theorem get_build {n : Nat} {field : Field (BitVec n)} {v : BitVec n} {s : State} {a : Flit}
    (member : field.write v ∈ writes s a) :
    field.get (build s a) = v &&& mask n field.width := by
  rw [build, Field.get_setEop, Field.get_setSop, field_get_apply (writes_separate s a) member]

theorem get_build_other {α : Type} [FieldValue α] {field : Field α}
    (apart : ∀ slot ∈ (writes ⟨0⟩ {}).map Write.slot, slot.Disjoint field.toSlot) (s : State)
    (a : Flit) : field.get (build s a) = field.get {} := by
  have slots : (writes s a).map Write.slot = (writes ⟨0⟩ {}).map Write.slot := rfl
  rw [build, Field.get_setEop, Field.get_setSop]
  exact field_get_apply_other slots apart _

theorem build_spec (s : State) {a : Flit} {psn : U64} {tpop : U8} (lane1 : a.lane1 = psn)
    (lane2 : a.lane2 = tpop.setWidth 64) :
    tpOpcode.get (build s a) = tpop ∧ (UbMeta.psn.get (build s a)).toNat = psn.toNat % 2 ^ 24 ∧
      rspst.get (build s a) ≠ rspstTargetErr := by
  have opcode : tpOpcode.write (((a.get 2 &&& 0xFF).setWidth 32).setWidth 8) ∈
      writes s a := by simp [writes]
  have number : UbMeta.psn.write ((a.get 1 &&& 0xFFFFFF).setWidth 32) ∈ writes s a := by
    simp [writes]
  have status : rspst.write (if a.get 3 &&& 1 != 0 then rspstTpackWTaack else rspstOk) ∈
      writes s a := by simp [writes]
  rw [get_build opcode, get_build number, get_build status]
  refine ⟨?_, ?_, ?_⟩
  · rw [show a.get 2 = tpop.setWidth 64 from lane2]
    clear opcode lane2
    revert tpop
    decide
  · rw [show a.get 1 = psn from lane1, toNat_and_mask (by decide),
      BitVec.toNat_setWidth, show (0xFFFFFF : U64) = mask 64 24 by decide,
      toNat_and_mask (by decide)]
    change psn.toNat % 2 ^ 24 % 2 ^ 32 % 2 ^ 24 = _
    omega
  · split <;> decide

end TpackGen

namespace TpChannelRx

def controlPackets (g : TpackGen.State) (s : State) (a : Arrival) : List Flit :=
  Ports.sent 1 (TpackGen.step.trace g (acknowledged s a.packet))

/-- A TPACK, not a NAK, whose PSN stands for `m` to a sender whose packet `next` is
expected. -/
structure Acknowledges (f : Flit) (next m : ℕ) : Prop where
  opcode : tpOpcode.get f = tpopTpack
  status : rspst.get f ≠ rspstTargetErr
  psn : (psn.get f).toNat = m % 2 ^ 24
  near : Near next m

def AnswerSound (memory : Fin 16 → U32) (g : TpackGen.State) (before : List Arrival)
    (a : Arrival) : Prop :=
  ∀ f ∈ controlPackets g (run (init memory) before) a,
    ∀ m, Acknowledges f ((Slots.empty.run (before ++ [a])).receiver a.source 0).next m →
      ∀ k ≤ m, (a.source, k) ∈ acceptances (init memory) (before ++ [a])

/-- Whatever is acknowledged in a run has been accepted. -/
def AckSound (memory : Fin 16 → U32) (g : TpackGen.State) (history : List Arrival) : Prop :=
  ∀ before a after, history = before ++ a :: after → AnswerSound memory g before a

/-- Less than half the PSN space from the expected number. -/
def Slots.Within (slots : Slots) (a : Arrival) : Prop :=
  (slots.receiver a.source a.number).next < a.number + 2 ^ 23 ∧
    a.number < (slots.receiver a.source a.number).next + 2 ^ 23
deriving Decidable

def Slots.Fits (slots : Slots) (a : Arrival) : Prop :=
  a.number < (slots.receiver a.source a.number).next + 64
deriving Decidable

variable {slots : Slots}

theorem Slots.Within.close {a : Arrival} (within : slots.Within a) : slots.Close a :=
  ⟨within.2.le, within.1.le⟩

def ackOpcode : Verdict → U8
  | .ahead => tpopTpsack
  | .inOrder | .behind | .beyond => tpopTpack

def ackNumber : Verdict → ℕ → ℕ
  | .inOrder, next | .behind, next => next - 1
  | .ahead, next | .beyond, next => next

theorem descriptor_flagsOf {c : RxChan} {next : ℕ} (expected : c.epsn.toNat = next % 2 ^ 24)
    (positive : 0 < next) (v : Verdict) (scna : U32) :
    (descriptor c (flagsOf v) scna).lane2 = (ackOpcode v).setWidth 64 ∧
      (descriptor c (flagsOf v) scna).lane1.toNat % 2 ^ 24 = ackNumber v next % 2 ^ 24 := by
  have whole : (c.epsn.setWidth 64).toNat % 2 ^ 24 = next % 2 ^ 24 := by
    rw [BitVec.toNat_setWidth, expected]
    omega
  have before : ((c.epsn.toNat + (2 ^ 24 - 1)) % 2 ^ 24) % 2 ^ 24 = (next - 1) % 2 ^ 24 := by
    omega
  cases v with
  | inOrder =>
    rcases descriptor_cumulative (show (flagsOf .inOrder).isOoo = false from rfl) (.inl rfl)
      c scna with ⟨opcode, psn⟩
    exact ⟨opcode, by rw [psn]; exact before⟩
  | behind =>
    rcases descriptor_cumulative (show (flagsOf .behind).isOoo = false from rfl) (.inr rfl)
      c scna with ⟨opcode, psn⟩
    exact ⟨opcode, by rw [psn]; exact before⟩
  | ahead => exact ⟨rfl, whole⟩
  | beyond => exact ⟨rfl, whole⟩

section

variable {s : State} {slots : Slots} {a : Arrival}

def Slots.after (slots : Slots) (a : Arrival) : Receiver 64 :=
  (slots.receiver a.source a.number).arrive a.number

section

variable (g : TpackGen.State) (represents : Represents s slots) (within : slots.Within a)
variable (positive : 0 < (slots.after a).next)
include g represents within positive

theorem controlPackets_spec : ∃ f, controlPackets g s a = [f] ∧ tpOpcode.get f =
        ackOpcode ((slots.receiver a.source a.number).verdict a.number) ∧
      (psn.get f).toNat = ackNumber
        ((slots.receiver a.source a.number).verdict a.number) (slots.after a).next % 2 ^ 24 ∧
      rspst.get f ≠ rspstTargetErr := by
  obtain ⟨flags, refines, _⟩ := checkMeta_spec represents a within.close
  have inside : a.number ≠ (slots.receiver a.source a.number).next + 2 ^ 23 := by
    have := within.2
    omega
  rw [seenAs, if_neg inside] at flags
  rcases descriptor_flagsOf refines.epsn positive
    ((slots.receiver a.source a.number).verdict a.number) a.source with ⟨lane2, lane1⟩
  obtain ⟨opcode, psn, status⟩ := TpackGen.build_spec g rfl lane2
  refine ⟨_, ?_, opcode, psn.trans lane1, status⟩
  rw [controlPackets, acknowledged_eq, flags]
  rfl

theorem acknowledges_iff (m : ℕ) :
    (∃ f ∈ controlPackets g s a, Acknowledges f (slots.after a).next m) ↔
      (slots.receiver a.source a.number).verdict a.number ≠ .ahead ∧
        m = ackNumber ((slots.receiver a.source a.number).verdict a.number)
          (slots.after a).next := by
  obtain ⟨f, only, opcode, psn, status⟩ := controlPackets_spec g represents within positive
  generalize (slots.receiver a.source a.number).verdict a.number = v at opcode psn ⊢
  rw [only]
  constructor
  · rintro ⟨f', member, acknowledges⟩
    rw [List.mem_singleton.mp member] at acknowledges
    have equal : m % 2 ^ 24 = ackNumber v (slots.after a).next % 2 ^ 24 :=
      acknowledges.psn.symm.trans psn
    have above := acknowledges.near.1
    have below := acknowledges.near.2
    have cumulative : ackOpcode v = tpopTpack := opcode.symm.trans acknowledges.opcode
    cases v with
    | ahead => exact absurd cumulative (by decide)
    | inOrder | behind | beyond =>
      simp only [ackNumber] at equal ⊢
      exact ⟨by decide, by omega⟩
  · rintro ⟨cumulative, rfl⟩
    refine ⟨f, List.mem_singleton_self f, ?_, status, psn, ?_⟩
    · rw [opcode]
      cases v <;> first | rfl | exact (cumulative rfl).elim
    · cases v <;> simp only [ackNumber, Near] <;> omega

end

theorem accepted_below_iff {r : Receiver 64} (positive : 0 < r.next) :
    (∀ k ≤ r.next - 1, k ∈ r.got) ↔ r.start = 0 := by
  constructor
  · intro accepted
    exact Nat.le_zero.mp (r.bounded 0 (accepted 0 (Nat.zero_le _))).1
  · intro start k below
    exact r.complete k (by omega) (by omega)

/-- The answer to an arrival is sound exactly if it is selective, or cumulative by a window
that started at the first number. -/
theorem sound_iff (g : TpackGen.State) (represents : Represents s slots)
    (within : slots.Within a) (positive : 0 < (slots.after a).next) :
    (∀ f ∈ controlPackets g s a, ∀ m, Acknowledges f (slots.after a).next m →
        ∀ k ≤ m, k ∈ (slots.after a).got) ↔
      (slots.receiver a.source a.number).verdict a.number = .ahead ∨
        ((slots.receiver a.source a.number).verdict a.number ≠ .beyond ∧
          (slots.after a).start = 0) := by
  have regroup : (∀ f ∈ controlPackets g s a, ∀ m, Acknowledges f (slots.after a).next m →
      ∀ k ≤ m, k ∈ (slots.after a).got) ↔
      ∀ m, (∃ f ∈ controlPackets g s a, Acknowledges f (slots.after a).next m) →
        ∀ k ≤ m, k ∈ (slots.after a).got :=
    ⟨fun sound m ⟨f, member, acks⟩ => sound f member m acks,
      fun sound f member m acks => sound m ⟨f, member, acks⟩⟩
  simp only [regroup, acknowledges_iff g represents within positive, and_imp]
  have below := accepted_below_iff positive
  have fresh := (slots.after a).fresh
  cases (slots.receiver a.source a.number).verdict a.number with
  | ahead => simp
  | inOrder | behind => simpa [ackNumber] using below
  | beyond => simpa [ackNumber] using ⟨_, le_rfl, fresh⟩

end

/-- Every window of the table has moved past its first number. -/
def Slots.Started (slots : Slots) : Prop :=
  ∀ i, ∀ entry ∈ slots i, entry.2.start < entry.2.next

theorem start_lt_after (started : slots.Started) (a : Arrival) :
    (slots.after a).start < (slots.after a).next := by
  have opened : ((opened 64 a.number).arrive a.number).start <
      ((opened 64 a.number).arrive a.number).next := by
    rw [start_arrive, show (opened 64 a.number).arrive a.number =
      (opened 64 a.number).advance from arrive_inOrder _]
    exact le_firstMissing
  unfold Slots.after Slots.receiver
  cases held : slots (idx a.source) with
  | none => exact opened
  | some entry =>
    by_cases same : entry.1 = a.source
    · simp only [same, if_true, start_arrive]
      exact (started _ entry held).trans_le (next_le_arrive ..)
    · simp only [if_neg same]
      exact opened

theorem started_arrive (started : slots.Started) (a : Arrival) :
    (slots.arrive a.source a.number).Started := by
  intro i entry member
  by_cases here : i = idx a.source
  · rw [here, Slots.arrive_held] at member
    cases member
    exact start_lt_after started a
  · rw [Slots.arrive, Function.update_of_ne here] at member
    exact started i entry member

theorem started_run (started : slots.Started) (history : List Arrival) :
    (slots.run history).Started := by
  induction history generalizing slots with
  | nil => exact started
  | cons a history ih => exact ih (started_arrive started a)

theorem started_empty : Slots.empty.Started := fun _ _ impossible => by cases impossible

theorem answerSound_iff (memory : Fin 16 → U32) (g : TpackGen.State) (before : List Arrival)
    (a : Arrival) {sender : TpChannelTx.Sender}
    (own : ∀ b ∈ before ++ [a], b = sent sender b.number)
    (within : Slots.empty.Along Slots.Within (before ++ [a])) :
    AnswerSound memory g before a ↔
      ((Slots.empty.run before).receiver a.source a.number).verdict a.number = .ahead ∨
        (((Slots.empty.run before).receiver a.source a.number).verdict a.number ≠ .beyond ∧
          firstNumber (before ++ [a]) = 0) := by
  have close : Slots.empty.Along Slots.Close (before ++ [a]) :=
    along_iff.mpr fun b x c split => (along_iff.mp within b x c split).close
  have alone : ∀ b ∈ before ++ [a], b.source = sender.cna := fun b member => by
    rw [own b member, source_sent]
  have here : a.source = sender.cna := alone a (by simp)
  have table : Slots.empty.run (before ++ [a]) =
      (Slots.empty.run before).arrive a.source a.number := List.foldl_append
  have window : (Slots.empty.run (before ++ [a])).receiver a.source 0 =
      (Slots.empty.run before).after a := by
    rw [table]
    exact Slots.receiver_of_held (Slots.arrive_held ..) 0
  have keeps : Slots.empty.Along Slots.Keeps (before ++ [a]) :=
    keeps_of_alone (fun entry impossible => by cases impossible) alone
  have logged := logged_run (represents_init memory) logged_empty close keeps
  have start := (refines_of_alone memory alone close).2
  rw [← here, window] at start
  have accepted : ∀ k, (a.source, k) ∈ acceptances (init memory) (before ++ [a]) ↔
      k ∈ ((Slots.empty.run before).after a).got := fun k => by
    rw [← window]
    exact logged a.source k
  have positive := start_lt_after (started_run started_empty before) a
  simp only [AnswerSound, accepted, window, ← start]
  exact sound_iff g (represents_run (represents_init memory) (along_append.mp close).1)
    (along_append.mp within).2.1 (by omega)

/-- Acknowledgements are sound exactly in the runs that start with the sender's first packet
and in which nothing arrives 64 or more ahead of the expected number. -/
theorem ack_sound_iff (memory : Fin 16 → U32) (g : TpackGen.State)
    (sender : TpChannelTx.Sender) (history : List Arrival)
    (own : ∀ a ∈ history, a = sent sender a.number)
    (within : Slots.empty.Along Slots.Within history) :
    AckSound memory g history ↔ firstNumber history = 0 ∧ Slots.empty.Along Slots.Fits history := by
  have last : ∀ before a after, history = before ++ a :: after →
      (AnswerSound memory g before a ↔
        ((Slots.empty.run before).receiver a.source a.number).verdict a.number = .ahead ∨
          (((Slots.empty.run before).receiver a.source a.number).verdict a.number ≠ .beyond ∧
            firstNumber history = 0)) := by
    rintro before a after rfl
    rw [show firstNumber (before ++ a :: after) = firstNumber (before ++ [a]) by
      cases before <;> rfl]
    rw [← List.singleton_append, ← List.append_assoc] at own within
    exact answerSound_iff memory g before a
      (fun b member => own b (List.mem_append_left after member))
      (along_append.mp within).1
  constructor
  · intro sound
    refine ⟨?_, along_iff.mpr fun before a after split => ?_⟩
    · cases history with
      | nil => rfl
      | cons a rest =>
        have opens : (Slots.empty.receiver a.source a.number).verdict a.number = .inOrder :=
          verdict_next (opened 64 a.number)
        rcases (last [] a rest rfl).mp (sound [] a rest rfl) with ahead | ⟨_, first⟩
        · exact absurd (opens.symm.trans ahead) (by decide)
        · exact first
    · have answered := (last before a after split).mp (sound before a after split)
      by_contra outside
      change ¬(Slots.empty.run before).Fits a at outside
      have beyond := verdict_eq_beyond.mpr (not_lt.mp outside)
      rw [beyond] at answered
      rcases answered with impossible | ⟨impossible, _⟩
      · cases impossible
      · exact impossible rfl
  · rintro ⟨first, fits⟩ before a after split
    refine (last before a after split).mpr (.inr ⟨fun beyond => ?_, first⟩)
    exact absurd (along_iff.mp fits before a after split)
      (not_lt.mpr (verdict_eq_beyond.mp beyond))

theorem ack_sound_reordered :
    AckSound (fun _ => 0) ⟨7⟩ [sent (.plain 3) 0, sent (.plain 3) 2, sent (.plain 3) 1,
      sent (.plain 3) 0] :=
  (ack_sound_iff _ _ (.plain 3) _ (by simp [sent]) (by decide +kernel)).mpr
    ⟨rfl, by decide +kernel⟩

/-- Packet 0 is lost, and packet 1 is acknowledged as if it had not been. -/
theorem not_ack_sound_first_lost : Slots.empty.Along Slots.Within [sent (.plain 3) 1] ∧
      ¬AckSound (fun _ => 0) ⟨7⟩ [sent (.plain 3) 1] := by
  refine ⟨by decide +kernel, fun sound => ?_⟩
  have accepted := sound [] _ [] rfl _ (List.mem_singleton_self _) 1
    ⟨by decide +kernel, by decide +kernel, by decide +kernel, by decide +kernel⟩ 0 (by omega)
  revert accepted
  decide +kernel

end TpChannelRx

end OpenURMA
