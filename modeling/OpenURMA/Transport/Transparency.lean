import OpenURMA.Transport.ReceiveWindow
import OpenURMA.Transport.Reorder

/-!
# The reliable path on ordered links

The receiver and the reorder buffer behind it keep the expected PSN separately.  On links
that keep the packets of each sender in order, with repeats, the two stay in step and the
path is transparent: it passes on the first copy of every packet.
-/

namespace OpenURMA

open Library TpChannelTx TpChannelRx PsnReorder Function BitVec

structure ReceivePath where
  rx : TpChannelRx.State
  reorder : PsnReorder.State

namespace ReceivePath

def init (memory : Fin 16 → U32) (buffer : Fin 16 → Fin 8 → PsnReorder.Slot)
    (thisIdx : Fin 16) : ReceivePath where
  rx := TpChannelRx.init memory
  reorder := PsnReorder.init buffer thisIdx

section

variable (path : ReceivePath)

section

variable (packets : List Packet)

def handedOn : List Flit :=
  Ports.sent 1 (TpChannelRx.step.trace path.rx (packets.flatMap Packet.flits))

def descriptors : List Flit :=
  Ports.sent 2 (TpChannelRx.step.trace path.rx (packets.flatMap Packet.flits))

def output : List Flit :=
  Ports.sent 1 (PsnReorder.step.trace path.reorder (path.handedOn packets))

def after : ReceivePath where
  rx := TpChannelRx.step.final path.rx (packets.flatMap Packet.flits)
  reorder := PsnReorder.step.final path.reorder (path.handedOn packets)

end

def take (p : Packet) : ReceivePath where
  rx := deliver path.rx p
  reorder := PsnReorder.step.final path.reorder (forwarded path.rx p)

def passed (p : Packet) : List Flit :=
  Ports.sent 1 (PsnReorder.step.trace path.reorder (forwarded path.rx p))

end

variable (path : ReceivePath) (p : Packet) (packets : List Packet)

theorem handedOn_cons :
    path.handedOn (p :: packets) = forwarded path.rx p ++ (path.take p).handedOn packets := by
  rw [handedOn, List.flatMap_cons, Mealy.trace_append, Ports.sent_append]
  rfl

theorem descriptors_cons : path.descriptors (p :: packets) =
      acknowledged path.rx p ++ (path.take p).descriptors packets := by
  rw [descriptors, List.flatMap_cons, Mealy.trace_append, Ports.sent_append]
  rfl

theorem output_cons :
    path.output (p :: packets) = path.passed p ++ (path.take p).output packets := by
  rw [output, handedOn_cons, Mealy.trace_append, Ports.sent_append]
  rfl

theorem after_cons : path.after (p :: packets) = (path.take p).after packets := by
  rw [after, handedOn_cons, List.flatMap_cons, Mealy.final_append, Mealy.final_append]
  rfl

end ReceivePath

section

variable {ι : Type} [DecidableEq ι]

/-- The number of new packets from each sender after a further arrival: packet `x.2` of
sender `x.1`. -/
def countNew (next : ι → ℕ) (x : ι × ℕ) : ι → ℕ :=
  if x.2 = next x.1 then update next x.1 (x.2 + 1) else next

/-- Every arrival is the next packet of its sender or a repeat, less than 2^23 back from
the latest one. -/
def InOrder : (ι → ℕ) → List (ι × ℕ) → Prop
  | _, [] => True
  | next, x :: history =>
    (x.2 = next x.1 ∨ (x.2 < next x.1 ∧ next x.1 ≤ x.2 + 2 ^ 23)) ∧
      InOrder (countNew next x) history

instance decidableInOrder : (next : ι → ℕ) → (history : List (ι × ℕ)) →
    Decidable (InOrder next history)
  | _, [] => inferInstanceAs (Decidable True)
  | next, x :: history =>
    have := decidableInOrder (countNew next x) history
    inferInstanceAs (Decidable (_ ∧ _))

def firstCopies : (ι → ℕ) → List (ι × ℕ) → List (ι × ℕ)
  | _, [] => []
  | next, x :: history =>
    (if x.2 = next x.1 then [x] else []) ++ firstCopies (countNew next x) history

def tpack (cna : U32) (number : ℕ) : Flit where
  lane0 := cna.setWidth 64
  lane1 := BitVec.ofNat 64 (number % 2 ^ 24)
  lane2 := tpopTpack.setWidth 64
  lane3 := 0
  sop := true
  eop := true

def tpacks (senders : ι → Sender) : (ι → ℕ) → List (ι × ℕ) → List Flit
  | _, [] => []
  | next, x :: history =>
    tpack (senders x.1).cna (countNew next x x.1 - 1) :: tpacks senders (countNew next x) history

def arriving (senders : ι → Sender) (history : List (ι × ℕ)) : List Packet :=
  history.map fun x => (senders x.1).packet x.2

end

theorem descriptor_eq_tpack {c : RxChan} {flags : Flags} {m : ℕ}
    (ordered : flags.isOoo = false) (known : flags.inWindow = true ∨ flags.isDup = true)
    (plain : c.rolMode = 0) (expected : c.epsn.toNat = m % 2 ^ 24) (positive : 0 < m)
    (scna : U32) : descriptor c flags scna = tpack scna (m - 1) := by
  have psn : ((c.epsn - 1) &&& 0xFFFFFF).setWidth 64 = BitVec.ofNat 64 ((m - 1) % 2 ^ 24) := by
    apply eq_of_toNat_eq
    rw [toNat_prevPsn, expected, toNat_ofNat]
    omega
  rw [descriptor, if_neg (by simp [ordered]), if_pos (by simpa using known), psn, plain]
  rfl

variable {ι : Type}

/-- The receiver has accepted the first `next i` packets of sender `i` and nothing else, and
the reorder buffer is empty and expects the same packets. -/
structure InStep (senders : ι → Sender) (path : ReceivePath) (slots : Slots)
    (next : ι → ℕ) : Prop where
  represents : Represents path.rx slots
  expects : ∀ i, slots.Expects (senders i).cna (next i)
  basePsn : ∀ i, (path.reorder.rb (PsnReorder.idx (senders i).cna)).basePsn.toNat =
    next i % 2 ^ 24
  empty : Empty path.reorder

theorem inStep_init (senders : ι → Sender) (memory : Fin 16 → U32)
    (buffer : Fin 16 → Fin 8 → PsnReorder.Slot) (thisIdx : Fin 16) :
    InStep senders (.init memory buffer thisIdx) Slots.empty fun _ => 0 where
  represents := represents_init memory
  expects _ := Slots.expects_empty _
  basePsn _ := rfl
  empty _ _ := ⟨rfl, rfl⟩

variable {senders : ι → Sender} {path : ReceivePath} {slots : Slots}
variable {next : ι → ℕ} {i : ι} {n : ℕ} {p : Packet}

/-- The senders use different slots of the receiver. -/
def Apart (senders : ι → Sender) : Prop :=
  ∀ i j, (senders i).cna.toNat % 16 = (senders j).cna.toNat % 16 → i = j

theorem Apart.idx_ne (apart : Apart senders) {j : ι} (different : j ≠ i) :
    TpChannelRx.idx (senders j).cna ≠ TpChannelRx.idx (senders i).cna := by
  intro same
  have low : ∀ cna : U32, (TpChannelRx.idx cna).val = cna.toNat % 16 := BitField.toNat_and_15
  exact different (apart j i (by rw [← low, ← low, same]))

section

variable [DecidableEq ι]

theorem countNew_other {j : ι} (different : j ≠ i) : countNew next (i, n) j = next j := by
  unfold countNew
  split
  · exact update_of_ne different ..
  · rfl

theorem countNew_next : countNew next (i, next i) i = next i + 1 := by
  rw [countNew, if_pos rfl, update_self]

theorem countNew_repeat (before : n < next i) : countNew next (i, n) = next :=
  if_neg (show ¬n = next i by omega)

end

section

variable (inStep : InStep senders path slots next) (own : UbMeta.scna.get p.head = (senders i).cna)
variable (stamped : (UbMeta.psn.get p.head).toNat = n % 2 ^ 24)
variable (ordered : n = next i ∨ (n < next i ∧ next i ≤ n + 2 ^ 23))
include inStep own stamped ordered

theorem InStep.verdict :
    slots.Close ⟨n, p, stamped⟩ ∧ (slots.receiver (senders i).cna n).verdict n =
        if n = next i then .inOrder else .behind := by
  rw [Slots.Close, show Arrival.source ⟨n, p, stamped⟩ = _ from own]
  change Near (slots.receiver (senders i).cna n).next n ∧ _
  rcases ordered with rfl | ⟨before, recent⟩
  · rw [if_pos rfl, Near]
    have expected := (inStep.expects i).window.1
    exact ⟨by omega, (inStep.expects i).verdict⟩
  · rw [if_neg (by omega), (inStep.expects i).receiver_before before, Near]
    have expected := (inStep.expects i).window.1
    exact ⟨by omega, Receiver.verdict_behind (by omega)⟩

theorem InStep.forwarded : forwarded path.rx p = if n = next i then p.flits else [] := by
  obtain ⟨close, verdict⟩ := inStep.verdict own stamped ordered
  have spec := forwarded_spec inStep.represents _ close
  rw [show Arrival.source ⟨n, p, stamped⟩ = _ from own] at spec
  refine spec.trans ?_
  change (if ((slots.receiver (senders i).cna n).verdict n).accepts then _ else _) = _
  rw [verdict]
  by_cases new : n = next i <;> simp [new, Verdict.accepts]

omit own ordered in
theorem InStep.inTurn (new : n = next i) :
    InTurn (path.reorder.rb (PsnReorder.idx (senders i).cna)) (UbMeta.psn.get p.head) where
  next := by
    have same : UbMeta.psn.get p.head =
        (path.reorder.rb (PsnReorder.idx (senders i).cna)).basePsn := by
      apply eq_of_toNat_eq
      rw [stamped, inStep.basePsn i, new]
    rw [PsnReorder.offset, same, sub_self]
    rfl
  first := (inStep.empty _ 0).2
  second := (inStep.empty _ 1).1

theorem InStep.reorder :
    path.passed p = (if n = next i then p.flits else []) ∧ (path.take p).reorder =
        if n = next i then PsnReorder.passed path.reorder p else path.reorder := by
  rw [ReceivePath.passed, ReceivePath.take, inStep.forwarded own stamped ordered]
  by_cases new : n = next i
  · have inTurn := inStep.inTurn stamped new
    have settled := inStep.empty.settled (PsnReorder.idx (senders i).cna)
    rw [← own] at inTurn settled
    obtain ⟨final, sent⟩ := pass_packet inTurn settled
    simp only [if_pos new]
    exact ⟨sent, final⟩
  · simp only [if_neg new]
    exact ⟨rfl, rfl⟩

omit own stamped in
theorem InStep.expects_arrive [DecidableEq ι] :
    (slots.arrive (senders i).cna n).Expects (senders i).cna (countNew next (i, n) i) := by
  rcases ordered with rfl | ⟨before, _⟩
  · rw [countNew_next]
    exact (inStep.expects i).arrive_next
  · rw [countNew_repeat before]
    exact (inStep.expects i).arrive_before before

theorem InStep.acknowledged [DecidableEq ι] :
    acknowledged path.rx p = [tpack (senders i).cna (countNew next (i, n) i - 1)] := by
  obtain ⟨close, _⟩ := inStep.verdict own stamped ordered
  have notAfter : n ≤ (slots.receiver (senders i).cna n).next := by
    rcases ordered with rfl | ⟨before, _⟩
    · exact (inStep.expects i).window.1.ge
    · rw [(inStep.expects i).receiver_before before, (inStep.expects i).window.1]
      exact before.le
  obtain ⟨flags, refines, config⟩ := checkMeta_spec inStep.represents _ close
  rw [show Arrival.source ⟨n, p, stamped⟩ = _ from own] at flags refines config
  change (checkMeta path.rx p.head).2 =
    flagsOf (seenAs (slots.receiver (senders i).cna n) n) at flags
  have expected : (checkMeta path.rx p.head).1.epsn.toNat =
      countNew next (i, n) i % 2 ^ 24 := by
    rw [← (inStep.expects_arrive ordered).window.1, Slots.receiver_of_held (slots.arrive_held _ _)]
    exact refines.epsn
  have plain : (checkMeta path.rx p.head).1.rolMode = 0 :=
    congrArg Config.rolMode config
  have positive : 0 < countNew next (i, n) i := by
    rcases ordered with rfl | ⟨before, _⟩
    · rw [countNew_next]
      exact Nat.succ_pos _
    · rw [countNew_repeat before]
      omega
  obtain ⟨inTurn, known⟩ := flags_of_not_after (.inl notAfter)
  rw [acknowledged_eq, own, flags,
    descriptor_eq_tpack inTurn known plain expected positive]

theorem InStep.take [DecidableEq ι] (apart : Apart senders) :
    InStep senders (path.take p) (slots.arrive (senders i).cna n) (countNew next (i, n)) where
  represents := by
    have represents := represents_deliver inStep.represents _ (inStep.verdict own stamped ordered).1
    rwa [show Arrival.source ⟨n, p, stamped⟩ = _ from own] at represents
  expects j := by
    by_cases same : j = i
    · rw [same]
      exact inStep.expects_arrive ordered
    · rw [countNew_other same]
      exact (inStep.expects j).arrive_other (apart.idx_ne same) n
  basePsn j := by
    rw [(inStep.reorder own stamped ordered).2]
    by_cases new : n = next i
    · have index : bufferIndex p = PsnReorder.idx (senders i).cna := congrArg PsnReorder.idx own
      rw [if_pos new]
      by_cases same : j = i
      · rw [same, new, countNew_next, ← index, rb_passed]
        apply toNat_basePsn_shiftLeft
        rw [PsnReorder.State.bufferOf, index]
        exact inStep.basePsn i
      · rw [countNew_other same, rb_passed_other _ _ (index ▸ apart.idx_ne same)]
        exact inStep.basePsn j
    · rw [if_neg new, countNew, if_neg new]
      exact inStep.basePsn j
  empty := by
    rw [(inStep.reorder own stamped ordered).2]
    split
    · exact inStep.empty.passed _
    · exact inStep.empty

end

variable [DecidableEq ι]

theorem InStep.run {history : List (ι × ℕ)} (inStep : InStep senders path slots next)
    (apart : Apart senders) (ordered : InOrder next history) :
    path.output (arriving senders history) =
        (arriving senders (firstCopies next history)).flatMap Packet.flits ∧
      path.descriptors (arriving senders history) = tpacks senders next history ∧
      Empty (path.after (arriving senders history)).reorder := by
  induction history generalizing path slots next with
  | nil => exact ⟨rfl, rfl, inStep.empty⟩
  | cons x history ih =>
    obtain ⟨here, later⟩ := ordered
    have own := (senders x.1).scna_packet x.2
    have stamped := (senders x.1).psn_packet x.2
    obtain ⟨output, descriptors, empty⟩ := ih (inStep.take own stamped here apart) later
    have cons : arriving senders (x :: history) =
        (senders x.1).packet x.2 :: arriving senders history := rfl
    refine ⟨?_, ?_, ?_⟩
    · rw [cons, ReceivePath.output_cons, output, (inStep.reorder own stamped here).1, firstCopies]
      split <;> rfl
    · rw [cons, ReceivePath.descriptors_cons, descriptors, inStep.acknowledged own stamped here]
      rfl
    · rw [cons, ReceivePath.after_cons]
      exact empty

theorem InOrder.of_append {before after : List (ι × ℕ)}
    (ordered : InOrder next (before ++ after)) : InOrder next before := by
  induction before generalizing next with
  | nil => trivial
  | cons x before ih => exact ⟨ordered.1, ih ordered.2⟩

/-- Senders in different slots of the receiver, links in order with repeats: the path passes on
exactly the first copies, unchanged and as they arrive, keeps nothing back, and acknowledges every
arrival by the latest new packet. -/
theorem receive_path_transparent (senders : ι → Sender) (apart : Apart senders)
    (memory : Fin 16 → U32) (buffer : Fin 16 → Fin 8 → PsnReorder.Slot) (thisIdx : Fin 16)
    (history : List (ι × ℕ)) (ordered : InOrder (fun _ => 0) history) :
    (ReceivePath.init memory buffer thisIdx).output (arriving senders history) =
        (arriving senders (firstCopies (fun _ => 0) history)).flatMap Packet.flits ∧
      (ReceivePath.init memory buffer thisIdx).descriptors (arriving senders history) =
        tpacks senders (fun _ => 0) history ∧ ∀ before after, history = before ++ after → Empty
          ((ReceivePath.init memory buffer thisIdx).after (arriving senders before)).reorder := by
  have start := inStep_init senders memory buffer thisIdx
  obtain ⟨output, descriptors, _⟩ := start.run apart ordered
  refine ⟨output, descriptors, ?_⟩
  rintro before after rfl
  exact (start.run apart ordered.of_append).2.2

/-- Two senders whose packets interleave, with a repeat. -/
theorem receive_path_transparent_interleaved :
    (ReceivePath.init (fun _ => 0) (fun _ _ => default) 0).output
        (arriving (fun i : Fin 2 => .plain (if i = 0 then 3 else 4))
          [(0, 0), (1, 0), (0, 1), (0, 0), (1, 1)]) =
      (arriving (fun i : Fin 2 => .plain (if i = 0 then 3 else 4))
        [(0, 0), (1, 0), (0, 1), (1, 1)]).flatMap Packet.flits :=
  (receive_path_transparent (fun i : Fin 2 => .plain (if i = 0 then 3 else 4))
    (by unfold Apart; decide) (fun _ => 0) (fun _ _ => default) 0
    [(0, 0), (1, 0), (0, 1), (0, 0), (1, 1)] (by decide)).1

end OpenURMA
