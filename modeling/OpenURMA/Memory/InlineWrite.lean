import OpenURMA.Memory.RemoteWrite

/-!
# An inline write, end to end

`UB_HBM_Write` takes the data of a short Write from the operand field of its extension flit, if
that is the last flit.  `UB_Eth_Encap` does not send the operand of a Write, and `UB_Eth_Decap`
takes padding for the payload, so what is written is zeros.
-/

namespace OpenURMA

open Library UbMeta UbExt List

namespace EthEncap

theorem length_extBytes_write {m : Flit} (write : isWriteClass (taOpcode.get m) = true)
    (e : Flit) : 16 ≤ (extBytes m e).length ∧ (extBytes m e).length ≤ 24 := by
  obtain ⟨_, mae, _, _⟩ := isWriteClass_spec write
  have notAtomic : isAtomic (taOpcode.get m) = false := by
    rw [← Bool.not_eq_true]
    intro atomic
    rw [(isAtomic_spec atomic).2.2.2.2] at write
    cases write
  rw [length_extBytes, if_pos mae, notAtomic]
  constructor
  · omega
  · split <;> split <;> simp

end EthEncap

namespace EthDecap

open EthEncap (headerBytes extBytes)

theorem emission_inline {d : State} {m e : Flit}
    (contents : d.contents = padded (EthEncap.encode m [e]))
    (write : isWriteClass (taOpcode.get m) = true)
    (pending : 0 < (UbExt.length e).toNat) (short : (UbExt.length e).toNat ≤ 8) :
    ∃ m' e', emission (parse d) = m' :: e' :: chunks false (replicate (UbExt.length e).toNat 0) ∧
      m'.sop = true ∧ m'.eop = false ∧ e'.sop = false ∧ e'.eop = false ∧
      taOpcode.get m' = taOpcode.get m ∧ SameExt m e e' := by
  have size := EthEncap.length_extBytes_write write e
  obtain ⟨header, ext, padding, count⟩ := holds_unpadded contents
  obtain ⟨request, mae, _⟩ := isWriteClass_spec write
  have positive : (0 : U32) < UbExt.length e := by
    rw [BitVec.lt_def]
    exact pending
  have total : (parse d).payloadTotal = (UbExt.length e).toNat := by
    simp only [parse, parseBtah_frame header request, parseExt_extBytes ext,
      lengthField_frame mae ext]
    rw [if_pos (show d.hdrbytes > 58 + (extBytes m e).length by omega), if_pos ⟨positive, by omega⟩]
  have emitted := emission_request header ext request mae (total ▸ pending)
  rwa [total, Buffer.slice_of_holds_zeros padding (by omega)] at emitted

end EthDecap

/-- Sending `p` through the five elements leaves `data` at `off` and every other byte of the
memory as it was. -/
def LeavesAt (p : Packet) (off : Nat) (data : List Byte) (s : EthEncap.State)
    (d : EthDecap.State) (t : MrTable.State) (c : TxnDispatch.State)
    (h : HbmWrite.State) : Prop :=
  ∃ wire s' decoded d',
    EthEncap.handler.Produces s p.flits s' wire ∧
    EthDecap.handler.Produces d wire d' decoded ∧
    let checked := Ports.sent 1 (MrTable.step.trace t decoded)
    let dispatched := Ports.sent 2 (TxnDispatch.step.trace c checked)
    let hbm := (HbmWrite.step.final h dispatched).hbm
    (∀ i < data.length, hbm (off + i) = data.getD i 0) ∧
      ∀ index, index < off ∨ off + data.length ≤ index → hbm index = h.hbm index

section

variable (p : Packet) {e : Flit} (shape : p.rest = [e])
variable (write : isWriteClass (taOpcode.get p.head) = true)
variable (pending : 1 ≤ (UbExt.length e).toNat) (short : (UbExt.length e).toNat ≤ 8)
variable {s : EthEncap.State} (encap : EthEncap.Idle s)
variable {d : EthDecap.State} (decap : EthDecap.Idle d)
variable {t : MrTable.State} (c : TxnDispatch.State) (h : HbmWrite.State)
variable {mr : MrTable.MR} (slot : t.table (MrTable.idx (UbExt.tokenId e)) = mr)
variable (registered : MrTable.hit mr (UbExt.tokenId e) = true)
variable (inside : MrTable.Inside mr (address e) (UbExt.length e))
variable (bound : (address e).toNat - mr.vaBase.toNat + mr.hbmOffset.toNat +
  (UbExt.length e).toNat ≤ 65536)
include shape write pending short encap decap slot registered inside bound

theorem inline_write_lands : Lands p ((address e).toNat - mr.vaBase.toNat + mr.hbmOffset.toNat)
      (replicate (UbExt.length e).toNat 0) s d t c h := by
  have finishes : EthEncap.Finishes p := by
    intro e' alone _
    rw [shape] at alone
    cases alone
    exact short
  obtain ⟨wire, s', d₁, d', sent, encap', received, decap', contents⟩ :=
      codec_delivers p finishes encap.1 decap.1
  rw [shape] at contents
  obtain ⟨m', e', emission, sop, more, inner, more', opcode, same⟩ :=
      EthDecap.emission_inline contents write pending short
  rw [emission] at received
  have mae := (isWriteClass_spec write).2.1
  have tokenId := same.tokenId mae
  have address := same.address mae
  have length := same.length mae
  refine ⟨wire, s', _, d', sent, encap', received, decap', ?_⟩
  rw [← opcode] at write
  rw [← tokenId] at slot registered
  rw [← address, ← length] at inside
  rw [← address] at bound ⊢
  exact stores_chunks c h sop more inner more' write slot registered inside
    (by rw [length, length_replicate]) (by rw [length_replicate]; omega)
    (by rw [length_replicate]; omega)

omit shape write pending encap decap slot registered inside bound in
theorem getD_inline {i : Nat} (low : i < (UbExt.length e).toNat) :
    ((wordOctets (opData e)).take (UbExt.length e).toNat).getD i 0 = octet (i * 8) (opData e) := by
  rw [← getD_wordOctets _ (by omega), getD_eq_getElem?_getD, getElem?_take_of_lt low,
    getD_eq_getElem?_getD]

theorem zeros_of_leavesAt
    (leaves : LeavesAt p ((address e).toNat - mr.vaBase.toNat + mr.hbmOffset.toNat)
      ((wordOctets (opData e)).take (UbExt.length e).toNat) s d t c h)
    {i : Nat} (low : i < (UbExt.length e).toNat) : octet (i * 8) (opData e) = 0 := by
  rcases inline_write_lands p shape write pending short encap decap c h slot registered inside
    bound with ⟨wire, s', decoded, d', sent, _, received, _, stored, _⟩
  obtain ⟨wire', s'', decoded', d'', sent', received', left, _⟩ := leaves
  obtain ⟨_, rfl⟩ := sent.unique sent'
  obtain ⟨_, rfl⟩ := received.unique received'
  have written := left i (by simp; omega)
  rw [stored i (by simpa using low), getD_inline short low, getD_replicate _ low] at written
  exact written.symm

/-- A short Write leaves its data exactly if the data is zeros. -/
theorem inline_write_iff : LeavesAt p ((address e).toNat - mr.vaBase.toNat + mr.hbmOffset.toNat)
        ((wordOctets (opData e)).take (UbExt.length e).toNat) s d t c h ↔
      ∀ i < (UbExt.length e).toNat, octet (i * 8) (opData e) = 0 := by
  constructor
  · intro leaves i low
    exact zeros_of_leavesAt p shape write pending short encap decap c h slot registered inside bound
      leaves low
  · intro zeros
    rcases inline_write_lands p shape write pending short encap decap c h slot registered inside
      bound with ⟨wire, s', decoded, d', sent, _, received, _, stored, others, _⟩
    rw [length_replicate] at stored others
    have size : ((wordOctets (opData e)).take (UbExt.length e).toNat).length =
        (UbExt.length e).toNat := by simp [short]
    refine ⟨wire, s', decoded, d', sent, received, ?_, ?_⟩
    · intro i low
      rw [size] at low
      rw [stored i low, getD_inline short low, zeros i low, getD_replicate _ low]
    · rw [size]
      exact others

end

/-- The extension flit of a Write of 8 bytes to address `0x1000`. -/
def inlineExt (data : U64) : Flit :=
  { lane0 := 0x1000, lane1 := 0x800000005, lane3 := data, eop := true }

def inlineWrite (data : U64) : Packet where
  head := { lane3 := 0x03, sop := true }
  rest := [inlineExt data]
  sop_head := Eq.refl true
  sop_rest := by
    intro f member
    rw [mem_singleton.mp member]
    rfl
  eop_last := ⟨rfl, rfl⟩

theorem inline_write_zero : LeavesAt (inlineWrite 0) 64 (replicate 8 0) (EthEncap.init fun _ => 0)
      (EthDecap.init fun _ => 0) sampleRegions TxnDispatch.init HbmWrite.init :=
  (inline_write_iff (inlineWrite 0) rfl (by decide) (by decide) (by decide) ⟨rfl, rfl⟩
    ⟨rfl, rfl, rfl, rfl⟩ _ _ rfl (by decide) ⟨by decide, by decide, by decide⟩ (by decide)).mpr
    (by decide)

/-- A Write of the number 1 does not write it. -/
theorem inline_write_one_lost :
    ¬LeavesAt (inlineWrite 1) 64 (wordOctets 1) (EthEncap.init fun _ => 0)
      (EthDecap.init fun _ => 0) sampleRegions TxnDispatch.init HbmWrite.init := by
  intro leaves
  have low := zeros_of_leavesAt (inlineWrite 1) rfl (by decide) (by decide) (by decide) ⟨rfl, rfl⟩
    ⟨rfl, rfl, rfl, rfl⟩ _ _ rfl (by decide) ⟨by decide, by decide, by decide⟩ (by decide) leaves
    (show 0 < 8 by decide)
  revert low
  decide

end OpenURMA
