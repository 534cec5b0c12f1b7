import OpenURMA.Memory.AtomicCas
import OpenURMA.Memory.RemoteWrite

/-!
# A remote atomic, end to end

An atomic has no payload, but its frame is padded to whole flits, and the decoder takes the
padding for payload.  `UB_Atomic_CAS` executes the additional flit as a second atomic, at
offset 0.
-/

namespace OpenURMA

open Library MrTable UbMeta AtomicCas

namespace EthEncap

theorem length_extBytes_atomic {m : Flit} (atomic : isAtomic (taOpcode.get m) = true)
    (e : Flit) : 24 ≤ (extBytes m e).length ∧ (extBytes m e).length ≤ 32 := by
  refine ⟨?_, extBytes_length_le m e⟩
  rw [length_extBytes, if_pos (isAtomic_spec atomic).2.1, if_pos atomic]
  omega

end EthEncap

namespace EthDecap

open EthEncap (headerBytes extBytes)

variable {d : State} {m e : Flit}
variable (contents : d.contents = padded (EthEncap.encode m [e]))
variable (atomic : isAtomic (taOpcode.get m) = true)
include contents atomic

theorem holds_atomic : d.hdrbuf.Holds 0 (headerBytes m) ∧ d.hdrbuf.Holds 58 (extBytes m e) ∧
      d.hdrbuf.Holds (58 + (extBytes m e).length)
        (List.replicate (38 - (extBytes m e).length) 0) ∧ d.hdrbytes = 96 := by
  have size := EthEncap.length_extBytes_atomic atomic e
  have padding : (32 - (58 + (extBytes m e).length) % 32) % 32 = 38 - (extBytes m e).length := by
    omega
  have total : 58 + (extBytes m e).length + (38 - (extBytes m e).length) = 96 := by omega
  have holds := holds_unpadded contents
  rwa [padding, total] at holds

theorem payloadTotal_atomic :
    0 < (parse d).payloadTotal ∧ (parse d).payloadTotal ≤ 38 - (extBytes m e).length := by
  have size := EthEncap.length_extBytes_atomic atomic e
  obtain ⟨header, ext, _, count⟩ := holds_atomic contents atomic
  obtain ⟨request, _⟩ := isAtomic_spec atomic
  simp only [parse, parseBtah_frame header request, parseExt_extBytes ext, count]
  rw [if_pos (show 96 > 58 + (extBytes m e).length by omega)]
  split
  · rename_i trimmed
    have positive := trimmed.1
    rw [BitVec.lt_def] at positive
    exact ⟨positive, by omega⟩
  · omega

theorem emission_atomic : ∃ m' e', emission (parse d) = [m', e', { eop := true }] ∧
      m'.sop = true ∧ m'.eop = false ∧ e'.sop = false ∧ e'.eop = false ∧
      taOpcode.get m' = taOpcode.get m ∧ SameExt m e e' := by
  have size := EthEncap.length_extBytes_atomic atomic e
  obtain ⟨header, ext, padding, count⟩ := holds_atomic contents atomic
  obtain ⟨pending, atMost⟩ := payloadTotal_atomic contents atomic
  obtain ⟨request, mae, _⟩ := isAtomic_spec atomic
  have zeros : d.hdrbuf.slice (58 + (extBytes m e).length) (parse d).payloadTotal =
      List.replicate (parse d).payloadTotal 0 := Buffer.slice_of_holds_zeros padding atMost
  have blank : chunks false (List.replicate (parse d).payloadTotal 0) = [{ eop := true }] := by
    rw [chunks_short (by simp; omega), Flit.ofData_zeros]
    rfl
  have emitted := emission_request header ext request mae pending
  rwa [zeros, blank] at emitted

end EthDecap

/-- The packet that a metadata flit, an extension flit and a flit of zeros form. -/
def Packet.trailed (m e : Flit) (sop : m.sop = true) (more : m.eop = false)
    (inner : e.sop = false) (more' : e.eop = false) : Packet where
  head := m
  rest := [e, { eop := true }]
  sop_head := sop
  sop_rest := by simp [inner]
  eop_last := ⟨more, more', rfl⟩

/-- What reaches `UB_Atomic_CAS` of the flits that the decoder emits. -/
def atomicInput (t : MrTable.State) (c : TxnDispatch.State) (decoded : List Flit) : List Flit :=
  Ports.sent 3 (TxnDispatch.step.trace c (Ports.sent 1 (MrTable.step.trace t decoded)))

def MrTable.offset (table : Fin 64 → MR) (e : Flit) : Nat :=
  (translate (table (MrTable.idx (UbExt.tokenId e))) (UbExt.address e)).toNat

variable {e : Flit}

section

variable {t : MrTable.State} {m : Flit} (sop : m.sop = true) (more : m.eop = false)
variable (inner : e.sop = false) (more' : e.eop = false) (atomic : isAtomic (taOpcode.get m) = true)
variable (admits : Admits t.table e)
include sop more inner more' atomic admits

theorem checked_trailed : Ports.sent 1 (MrTable.step.trace t [m, e, { eop := true }]) =
      [m, translated t.table e, { eop := true }] :=
  (run_admitted t (Packet.trailed m e sop more inner more') rfl (isAtomic_spec atomic).2.2.1
    admits).2.2

theorem atomicInput_trailed (c : TxnDispatch.State) : atomicInput t c [m, e, { eop := true }] =
      [m, translated t.table e, { eop := true }] := by
  let e' := translated t.table e
  have inner' : e'.sop = false := (Flit.sop_set _ _ _).trans inner
  have more'' : e'.eop = false := (Flit.eop_set _ _ _).trans more'
  rw [atomicInput, checked_trailed sop more inner more' atomic admits]
  exact (TxnDispatch.sent_packet c (Packet.trailed m e' sop more inner' more'') 3).trans
    (if_pos (TxnDispatch.route_eq_three.mpr atomic))

end

/-- Sent through the five elements, the request does one read-modify-write, at `off`, and
leaves every other byte of the memory as it was. -/
def ExecutesOnce (p : Packet) (off : Nat) (s : EthEncap.State) (d : EthDecap.State)
    (t : MrTable.State) (c : TxnDispatch.State) (a : AtomicCas.State) : Prop :=
  ∃ wire s' decoded d',
    EthEncap.handler.Produces s p.flits s' wire ∧
    EthDecap.handler.Produces d wire d' decoded ∧
    offsets a (atomicInput t c decoded) = [off] ∧
    ∀ index, index < off ∨ off + 8 ≤ index →
      (AtomicCas.step.final a (atomicInput t c decoded)).hbm index = a.hbm index

/-- What the two elements of the wire make of an atomic: the request with a flit of zeros behind
it. -/
theorem codec_atomic (p : Packet) (shape : p.rest = [e])
    (atomic : isAtomic (taOpcode.get p.head) = true) {s : EthEncap.State}
    (encap : EthEncap.Idle s) {d : EthDecap.State} (decap : EthDecap.Idle d) :
    ∃ wire s' d' m' e', EthEncap.handler.Produces s p.flits s' wire ∧
      EthDecap.handler.Produces d wire d' [m', e', { eop := true }] ∧
      m'.sop = true ∧ m'.eop = false ∧ e'.sop = false ∧ e'.eop = false ∧
      taOpcode.get m' = taOpcode.get p.head ∧ SameExt p.head e e' := by
  have finishes : EthEncap.Finishes p := by
    intro _ _ write
    rw [(isAtomic_spec atomic).2.2.2.2] at write
    cases write
  obtain ⟨wire, s', d₁, d', sent, _, received, _, contents⟩ :=
      codec_delivers p finishes encap.1 decap.1
  rw [shape] at contents
  obtain ⟨m', e', emission, marks⟩ := EthDecap.emission_atomic contents atomic
  rw [emission] at received
  exact ⟨wire, s', d', m', e', sent, received, marks⟩

theorem MrTable.admits_decoded {table : Fin 64 → MR} {m e' : Flit}
    (atomic : isAtomic (taOpcode.get m) = true) (same : SameExt m e e') (admits : Admits table e) :
    Admits table e' ∧ (UbExt.address (translated table e')).toNat = offset table e := by
  have mae := (isAtomic_spec atomic).2.1
  have tokenId := same.tokenId mae
  have address := same.address mae
  constructor
  · rw [Admits, tokenId, address, same.length mae]
    exact admits
  · rw [offset, ← tokenId, ← address]
    rfl

section

variable (p : Packet) {e : Flit} (shape : p.rest = [e])
variable (atomic : isAtomic (taOpcode.get p.head) = true)
variable {s : EthEncap.State} (encap : EthEncap.Idle s)
variable {d : EthDecap.State} (decap : EthDecap.Idle d)
variable {t : MrTable.State} (c : TxnDispatch.State) (a : AtomicCas.State)
variable (admits : Admits t.table e) (bound : offset t.table e + 8 ≤ 65536)
include shape atomic encap decap admits bound

theorem decoded_atomic : ∃ wire s' decoded d', EthEncap.handler.Produces s p.flits s' wire ∧
      EthDecap.handler.Produces d wire d' decoded ∧
      offsets a (atomicInput t c decoded) = [offset t.table e, 0] ∧
      ∃ hbm, (AtomicCas.step.final a (atomicInput t c decoded)).hbm =
        modify (taOpcode.get p.head) 0 0 0 hbm := by
  obtain ⟨wire, s', d', m', e', sent, received, sop, more, inner, more', opcode, same⟩ :=
      codec_atomic p shape atomic encap decap
  obtain ⟨admits', off⟩ := admits_decoded atomic same admits
  rw [← opcode] at atomic
  have inner' : (translated t.table e').sop = false := (Flit.sop_set _ _ _).trans inner
  have more'' : (translated t.table e').eop = false := (Flit.eop_set _ _ _).trans more'
  have executed := offsets_trailer a sop atomic inner' more'' (by rwa [off])
  have memory := hbm_trailer a sop atomic inner' more'' (by rwa [off])
  rw [off] at executed
  rw [opcode] at memory
  rw [← atomicInput_trailed sop more inner more' atomic admits' c] at executed memory
  exact ⟨wire, s', _, d', sent, received, executed, _, memory⟩

/-- No atomic is executed exactly once. -/
theorem not_executesOnce : ¬ExecutesOnce p (offset t.table e) s d t c a := by
  obtain ⟨wire, s', decoded, d', sent, received, twice, _⟩ :=
      decoded_atomic p shape atomic encap decap c a admits bound
  rintro ⟨wire', s'', decoded', d'', sent', received', once, _⟩
  obtain ⟨_, rfl⟩ := sent.unique sent'
  obtain ⟨_, rfl⟩ := received.unique received'
  rw [twice] at once
  simp at once

end

def swapExt : Flit := { lane0 := 0x1000, lane1 := 0x800000005, lane3 := 7, eop := true }

def sampleSwap : Packet where
  head := { lane3 := 0x08, sop := true }
  rest := [swapExt]
  sop_head := rfl
  sop_rest := by decide
  eop_last := by decide

theorem not_executesOnce_sampleSwap :
    ¬ExecutesOnce sampleSwap 64 (EthEncap.init fun _ => 0) (EthDecap.init fun _ => 0)
      sampleRegions TxnDispatch.init AtomicCas.init :=
  not_executesOnce sampleSwap rfl (by decide) ⟨rfl, rfl⟩ ⟨rfl, rfl, rfl, rfl⟩ _ _
    (by decide) (by decide)

/-- The swap at offset 64 sets the first 8 bytes of the memory to zero. -/
theorem sampleSwap_clears :
    ¬ExecutesOnce sampleSwap 64 (EthEncap.init fun _ => 0) (EthDecap.init fun _ => 0)
      sampleRegions TxnDispatch.init { AtomicCas.init with hbm := fun _ => 0x11 } := by
  let filled : AtomicCas.State := { AtomicCas.init with hbm := fun _ => 0x11 }
  rcases decoded_atomic sampleSwap (e := swapExt) rfl (by decide)
    (s := EthEncap.init fun _ => 0) ⟨rfl, rfl⟩ (d := EthDecap.init fun _ => 0)
    ⟨rfl, rfl, rfl, rfl⟩ (t := sampleRegions) TxnDispatch.init filled (by decide) (by decide)
    with ⟨wire, s', decoded, d', sent, received, _, hbm, memory⟩
  rintro ⟨wire', s'', decoded', d'', sent', received', _, kept⟩
  obtain ⟨_, rfl⟩ := sent.unique sent'
  obtain ⟨_, rfl⟩ := received.unique received'
  have first := kept 0 (.inl (by decide))
  rw [memory] at first
  have cleared : modify (taOpcode.get sampleSwap.head) 0 0 0 hbm 0 = 0 := rfl
  rw [cleared] at first
  exact absurd first (by decide)

end OpenURMA
