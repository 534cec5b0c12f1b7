import OpenURMA.Library.Run
import OpenURMA.Transport.Pipeline
import OpenURMA.Verbs.PostWr

/-!
# Polling with libopenurma

`urma_poll_jfc` reads the output of `UB_Completion_Stream` and makes completion records of it.
After the flit of a record it takes the next flit, if there is one, for the data of that record.
No count says how many flits a record has, so that flit may belong to another record, or arrive
too late.
-/

namespace OpenURMA.Verbs

open Library UbMeta UbExt CompletionStream BitField List

/-- `urma_cr_t`.  The status is the number that the source casts. -/
structure Cr where
  status : U64
  opc : Opc
  tassn : U16
  rcId : U32
  atomicOrig : U64 := 0
  deriving DecidableEq

def opcOf (taop : U8) : Opc :=
  if taop = taopReadResp then .read
  else if taop = taopAtomicResp then .atomicCas
  else .write

def Cr.ofFlit (f : Flit) : Cr where
  status := (f.lane0 >>> 56) &&& 7
  opc := opcOf ((f.lane0 >>> 24).setWidth 8)
  tassn := CompletionStream.tassn f
  rcId := CompletionStream.rcId f

theorem status_record (m : Flit) : ((record m).lane0 >>> 56) &&& 7 = (rspst.get m).setWidth 64 := by
  have narrow : rspst.get m &&& mask 8 3 = rspst.get m :=
    rspst.get_and_mask (by decide) m
  have mask : (7 : U64) = mask 64 3 := by decide
  rw [← narrow, mask]
  apply BitVec.eq_of_getLsbD_eq
  intro index inside
  simp only [record, BitVec.getLsbD_and, BitVec.getLsbD_ushiftRight,
    BitVec.getLsbD_or, BitVec.getLsbD_shiftLeft, BitVec.getLsbD_setWidth, getLsbD_mask]
  by_cases low : index < 3
  · rw [BitVec.getLsbD_of_ge (iniTassn.get m) (56 + index - 32) (by omega),
      BitVec.getLsbD_of_ge (taOpcode.get m) (56 + index - 24) (by omega),
      BitVec.getLsbD_of_ge (iniRcId.get m) (56 + index) (by omega)]
    simp [low, show 56 + index < 64 by omega, show index < 64 by omega, show index < 8 by omega]
  · simp [low]

theorem taop_record (m : Flit) : ((record m).lane0 >>> 24).setWidth 8 = taOpcode.get m := by
  have narrow : iniRcId.get m &&& mask 32 20 = iniRcId.get m :=
    iniRcId.get_and_mask (by decide) m
  have mask : (0xFFFFF : U32) = mask 32 20 := by decide
  apply BitVec.eq_of_getLsbD_eq
  intro index inside
  simp only [record, mask, BitVec.getLsbD_and, BitVec.getLsbD_ushiftRight,
    BitVec.getLsbD_or, BitVec.getLsbD_shiftLeft, BitVec.getLsbD_setWidth, getLsbD_mask]
  simp [inside, show 24 + index < 64 by omega, show 24 + index < 56 by omega,
    show 24 + index < 32 by omega, show ¬24 + index < 20 by omega, show index < 64 by omega]

/-- Where a call of `urma_poll_jfc` is, with what is left of `max`. -/
inductive Phase where
  | outside
  | first (left : Nat)
  | second (left : Nat) (cr : Cr)
  deriving DecidableEq

/-- The completion queue and the stream that it is fed from. -/
structure Jfc where
  coming : List Flit
  cqeOut : List Flit := []
  crs : List Cr := []
  phase : Phase := .outside
  returned : List Cr := []

namespace Jfc

/-- Flits arrive between any two reads of a call. -/
inductive Event where
  | arrive
  | call (max : Int)
  | read
  deriving DecidableEq

def loop (left : Nat) : Phase := if left = 0 then .outside else .first left

def call (s : Jfc) (max : Nat) : Jfc :=
  { s with
    crs := s.crs.drop max
    phase := loop (max - s.crs.length)
    returned := s.returned ++ s.crs.take max }

def read (s : Jfc) : Jfc :=
  match s.phase, s.cqeOut with
  | .outside, _ => s
  | .first _, [] => { s with phase := .outside }
  | .first left, f :: rest => { s with cqeOut := rest, phase := .second left (Cr.ofFlit f) }
  | .second left cr, [] =>
    { s with phase := loop (left - 1), returned := s.returned ++ [cr] }
  | .second left cr, f :: rest =>
    { s with
      cqeOut := rest
      phase := loop (left - 1)
      returned := s.returned ++ [{ cr with atomicOrig := f.lane3 }] }

def step (s : Jfc) : Event → Jfc
  | .arrive => { s with coming := s.coming.tail, cqeOut := s.cqeOut ++ s.coming.head?.toList }
  | .call max => if s.phase = .outside then s.call max.toNat else s
  | .read => s.read

/-- Before the first flit arrives; `inPacket` is the state of `UB_Completion_Stream`. -/
def init (inPacket : Bool) (packets : List Packet) : Jfc where
  coming := Ports.sent 1 (CompletionStream.step.trace inPacket (packets.flatMap Packet.flits))

def unread (s : Jfc) : List Flit := s.cqeOut ++ s.coming

theorem unread_arrive (s : Jfc) : (s.step .arrive).unread = s.unread := by
  unfold unread step
  cases s.coming <;> simp

structure Answers (p : Packet) (cr : Cr) : Prop where
  status : cr.status = (rspst.get p.head).setWidth 64
  opc : cr.opc = opcOf (taOpcode.get p.head)
  tassn : cr.tassn = iniTassn.get p.head
  rcId : cr.rcId = iniRcId.get p.head
  atomicOrig : ∀ e ∈ p.rest.head?, cr.atomicOrig = opData e

/-- The records returned so far are those of the first responses, and once everything has been
read they are those of all responses. -/
structure OnePerPacket (packets : List Packet) (s : Jfc) : Prop where
  inOrder : Forall₂ Answers (packets.take s.returned.length) s.returned
  complete : s.coming = [] → s.cqeOut = [] → s.phase = .outside →
    s.returned.length = packets.length

/-- When a call looks for the data of a record, the stream has the data if the response has some,
and is empty if it has none. -/
def Timely (s : Jfc) : Event → Prop
  | .arrive | .call _ => True
  | .read =>
    match s.phase with
    | .outside | .first _ => True
    | .second _ _ => (∃ f ∈ s.unread.head?, f.sop = false) ↔ s.cqeOut ≠ []

instance decidableTimely (s : Jfc) : (event : Event) → Decidable (s.Timely event)
  | .arrive | .call _ => inferInstanceAs (Decidable True)
  | .read =>
    match phase : s.phase with
    | .outside | .first _ => .isTrue (by simp [Timely, phase])
    | .second _ _ =>
      decidable_of_iff ((∃ f ∈ s.unread.head?, f.sop = false) ↔ s.cqeOut ≠ [])
        (by simp [Timely, phase])

/-- What is still to be read are the records of the packets that have not been answered. -/
def Awaits (s : Jfc) (rest : List Packet) : Prop :=
  match s.phase with
  | .outside | .first _ => s.unread = rest.flatMap records
  | .second _ cr =>
    ∃ p later, rest = p :: later ∧ cr = Cr.ofFlit (record p.head) ∧
      s.unread = p.rest.map dataRecord ++
        later.flatMap records

/-- The records are those of the packets whose flits have been read. -/
structure Invariant (packets : List Packet) (s : Jfc) : Prop where
  crs : s.crs = []
  split : ∃ done rest, packets = done ++ rest ∧ Forall₂ Answers done s.returned ∧
    s.Awaits rest

theorem answers_ofFlit {p : Packet} {cr : Cr}
    (fields : { cr with atomicOrig := 0 } = Cr.ofFlit (record p.head))
    (data : ∀ e ∈ p.rest.head?, cr.atomicOrig = opData e) : Answers p cr := by
  have status := congrArg Cr.status fields
  have opc := congrArg Cr.opc fields
  have tassn := congrArg Cr.tassn fields
  have rcId := congrArg Cr.rcId fields
  constructor
  · exact status.trans (status_record p.head)
  · rw [opc, Cr.ofFlit, taop_record]
  · exact tassn.trans (tassn_record p.head)
  · exact rcId.trans (rcId_record p.head)
  · exact data

variable {packets : List Packet}

theorem records_eq_nil (none : packets.flatMap records = []) : packets = [] := by
  cases packets with
  | nil => rfl
  | cons p packets => cases none

theorem sop_of_records {f : Flit} (next : f ∈ (packets.flatMap records).head?) : f.sop = true := by
  cases packets with
  | nil => cases next
  | cons p packets =>
    cases next
    rfl

variable {left : Nat}

theorem awaits_loop {s : Jfc} (phase : s.phase = loop left) {rest : List Packet} :
    s.Awaits rest ↔ s.unread = rest.flatMap records := by
  rw [Awaits, phase, loop]
  by_cases none : left = 0
  · rw [if_pos none]
  · rw [if_neg none]

theorem invariant_init (inPacket : Bool) (packets : List Packet) :
    Invariant packets (init inPacket packets) := by
  constructor
  · rfl
  · exact ⟨[], packets, rfl, .nil, sent_packets inPacket packets⟩

namespace Invariant

variable {s : Jfc}

section

variable (holds : Invariant packets s)
include holds

theorem onePerPacket : OnePerPacket packets s := by
  obtain ⟨done, rest, rfl, answered, awaits⟩ := holds.split
  have count := answered.length_eq
  constructor
  · rw [← count, take_left]
    exact answered
  · intro coming cqeOut phase
    have unread : s.unread = [] := by rw [Jfc.unread, coming, cqeOut, nil_append]
    rw [Awaits, phase] at awaits
    rw [records_eq_nil (awaits.symm.trans unread), append_nil, count]

theorem arrive : Invariant packets (s.step .arrive) := by
  obtain ⟨done, rest, split, answered, awaits⟩ := holds.split
  refine ⟨holds.crs, done, rest, split, answered, ?_⟩
  unfold Awaits
  rw [unread_arrive]
  exact awaits

theorem call (max : Int) : Invariant packets (s.step (.call max)) := by
  rw [step]
  split
  case isTrue outside =>
    obtain ⟨done, rest, split, answered, awaits⟩ := holds.split
    rw [Awaits, outside] at awaits
    rw [Jfc.call, holds.crs]
    refine ⟨drop_nil, done, rest, split, ?_, (awaits_loop rfl).mpr awaits⟩
    rw [take_nil, append_nil]
    exact answered
  case isFalse => exact holds

theorem read_first (phase : s.phase = .first left) : Invariant packets s.read := by
  obtain ⟨done, rest, split, answered, awaits⟩ := holds.split
  rw [Awaits, phase] at awaits
  rw [read, phase]
  cases stream : s.cqeOut with
  | nil =>
    rw [Jfc.unread, stream] at awaits
    exact ⟨holds.crs, done, rest, split, answered, awaits⟩
  | cons f flits =>
    have unread : f :: (flits ++ s.coming) = rest.flatMap records := by
      rw [← awaits, Jfc.unread, stream, cons_append]
    cases rest with
    | nil => cases unread
    | cons p later =>
      rw [flatMap_cons, records, cons_append] at unread
      obtain ⟨rfl, others⟩ := cons.inj unread
      exact ⟨holds.crs, done, p :: later, split, answered, p, later, rfl, rfl, others⟩

end

theorem returned {s' : Jfc} {done later : List Packet} {p : Packet} {cr : Cr} (crs : s'.crs = [])
    (split : packets = done ++ p :: later) (answered : Forall₂ Answers done s.returned)
    (answer : Answers p cr) (grown : s'.returned = s.returned ++ [cr])
    (phase : s'.phase = loop left) (unread : s'.unread = later.flatMap records) :
    Invariant packets s' := by
  refine ⟨crs, done ++ [p], later, ?_, ?_, (awaits_loop phase).mpr unread⟩
  · rw [split, append_assoc]
    rfl
  · rw [grown]
    exact rel_append answered (.cons answer .nil)

theorem read_second (holds : Invariant packets s) (short : ∀ p ∈ packets, p.rest.length ≤ 1)
    {cr : Cr} (phase : s.phase = .second left cr)
    (timely : (∃ f ∈ s.unread.head?, f.sop = false) ↔ s.cqeOut ≠ []) :
    Invariant packets s.read := by
  obtain ⟨done, rest, split, answered, awaits⟩ := holds.split
  rw [Awaits, phase] at awaits
  obtain ⟨p, later, rfl, rfl, unread⟩ := awaits
  have few : p.rest.length ≤ 1 := short p (by simp [split])
  rw [read, phase]
  cases shape : p.rest with
  | nil =>
    rw [shape, map_nil, nil_append] at unread
    have empty : s.cqeOut = [] := by
      by_contra waiting
      obtain ⟨f, next, inner⟩ := timely.mpr waiting
      rw [unread] at next
      rw [sop_of_records next] at inner
      cases inner
    rw [empty]
    have answer : Answers p (Cr.ofFlit (record p.head)) := by
      apply answers_ofFlit rfl
      rw [shape]
      intro e member
      cases member
    exact returned holds.crs split answered answer rfl rfl
      (by rw [← unread, Jfc.unread, Jfc.unread, empty])
  | cons e others =>
    have last : others = [] := by
      rw [shape, length_cons] at few
      exact eq_nil_of_length_eq_zero (by omega)
    subst last
    rw [shape] at unread
    cases stream : s.cqeOut with
    | nil =>
      exact absurd stream (timely.mp ⟨_, by rw [unread]; rfl, rfl⟩)
    | cons f flits =>
      rw [Jfc.unread, stream] at unread
      obtain ⟨rfl, rest⟩ := cons.inj unread
      have answer : Answers p { Cr.ofFlit (record p.head) with
          atomicOrig := (dataRecord e).lane3 } := by
        apply answers_ofFlit rfl
        rw [shape]
        rintro _ ⟨⟩
        rfl
      exact returned holds.crs split answered answer rfl rfl rest

theorem step (holds : Invariant packets s) (short : ∀ p ∈ packets, p.rest.length ≤ 1)
    {event : Event} (timely : s.Timely event) : Invariant packets (s.step event) := by
  cases event with
  | arrive => exact holds.arrive
  | call max => exact holds.call max
  | read =>
    cases phase : s.phase with
    | outside =>
      rw [Jfc.step, read, phase]
      exact holds
    | first left => exact holds.read_first phase
    | second left cr =>
      rw [Timely, phase] at timely
      exact holds.read_second short phase timely

end Invariant

/-- If no response has more than two flits and every call finds a record with its data and without
the next, there is one record for each response. -/
theorem onePerPacket_of_timely (inPacket : Bool) (packets : List Packet)
    (short : ∀ p ∈ packets, p.rest.length ≤ 1) (events : List Event)
    (timely : Along step Timely (init inPacket packets) events) :
    OnePerPacket packets (events.foldl step (init inPacket packets)) := by
  have holds : ∀ {s : Jfc}, Invariant packets s → Along step Timely s events →
      Invariant packets (events.foldl step s) := by
    clear timely
    intro s
    induction events generalizing s with
    | nil => exact fun holds _ => holds
    | cons event events ih =>
      rintro holds ⟨now, later⟩
      exact ih (holds.step short now) later
  exact (holds (invariant_init inPacket packets) timely).onePerPacket

def sampleTaack : Packet where
  head := { lane3 := 0x11, sop := true, eop := true }
  rest := []
  sop_head := rfl
  sop_rest := sop_nil
  eop_last := by decide

theorem sop_readData : ∀ f ∈ [({ lane3 := 17, eop := true } : Flit)], f.sop = false := by decide

def sampleReadResp : Packet where
  head := { lane3 := 0x12, sop := true }
  rest := [{ lane3 := 17, eop := true }]
  sop_head := rfl
  sop_rest := sop_readData
  eop_last := by decide

/-- The first call comes between the responses, the second after them. -/
theorem onePerPacket_of_timely_sample : OnePerPacket [sampleTaack, sampleReadResp]
      ([.arrive, .call 1, .read, .read, .arrive, .arrive, .call 4, .read, .read, .read].foldl step
        (init false [sampleTaack, sampleReadResp])) :=
  onePerPacket_of_timely false [sampleTaack, sampleReadResp] (by decide) _ (by decide)

/-- The second of two responses without data is taken for the data of the first. -/
theorem not_onePerPacket_twoTaacks : ¬OnePerPacket [sampleTaack, sampleTaack]
      ([.arrive, .arrive, .call 2, .read, .read, .read].foldl step
        (init false [sampleTaack, sampleTaack])) := by
  intro one
  have count := one.complete rfl rfl (by decide)
  revert count
  decide

end Jfc

end OpenURMA.Verbs
