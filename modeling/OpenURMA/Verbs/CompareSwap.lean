import OpenURMA.Memory.AtomicSpec
import OpenURMA.Memory.RemoteAtomic
import OpenURMA.Verbs.PostWr

/-!
# The compare-and-swap verb

libopenurma puts the value to compare into the operand field of the extension flit and the token
of the segment into its token field; the value to swap in is not sent.  `UB_Atomic_CAS` takes the
token for it.
-/

namespace OpenURMA

open Library MrTable

namespace AtomicCas

/-- The flit of zeros behind a compare-and-swap does no harm: it replaces a zero by a zero. -/
theorem modify_cas_zeros (hbm : Buffer) : modify taopAtomicCas 0 0 0 hbm = hbm := by
  have word : Kind.cas.apply 0 0 (hbm.word 0) = hbm.word 0 := by
    by_cases zero : hbm.word 0 = 0
    · rw [Kind.apply, if_pos zero, zero]
    · rw [Kind.apply, if_neg zero]
  have inside : (0 : U64).toNat + 8 ≤ 65536 := by decide
  calc
    modify taopAtomicCas 0 0 0 hbm = hbm.setWord 0 (Kind.cas.apply 0 0 (hbm.word 0)) :=
      modify_eq_setWord inside hbm .cas 0 0
    _ = hbm := by rw [word, Buffer.setWord_word]

end AtomicCas

namespace Verbs

/-- Posted and sent through the codec elements, `UB_MR_Table` and `UB_Atomic_CAS`, the work
request leaves at `off` what a compare-and-swap should. -/
def Swaps (ctx : Context) (wr : JfsWr) (off : Nat) (s : EthEncap.State) (d : EthDecap.State)
    (t : MrTable.State) (a : AtomicCas.State) : Prop :=
  ∃ wire s' decoded d',
    (postWr ctx wr).2.status = .ok ∧
    EthEncap.handler.Produces s (postWr ctx wr).2.written s' wire ∧
    EthDecap.handler.Produces d wire d' decoded ∧
    (AtomicCas.step.final a (Ports.sent 1 (MrTable.step.trace t decoded))).hbm.word off =
      if a.hbm.word off = wr.casCompare then wr.casSwap else a.hbm.word off

theorem postWr_cas {ctx : Context} (connected : ctx.doorbellIn = true) {wr : JfsWr}
    (verb : wr.opc = .atomicCas) :
    ∃ ts, (postWr ctx wr).2 = ⟨.ok, (packet ctx.localCna wr taopAtomicCas ts).flits⟩ := by
  rw [postWr, if_pos connected, verb]
  dsimp only [taop]
  split
  · exact ⟨_, rfl⟩
  · exact ⟨_, rfl⟩

section

variable {ctx : Context} (connected : ctx.doorbellIn = true)
variable {wr : JfsWr} (verb : wr.opc = .atomicCas)
variable {s : EthEncap.State} (encap : EthEncap.Idle s)
variable {d : EthDecap.State} (decap : EthDecap.Idle d)
variable {t : MrTable.State} (admits : Admits t.table (extFlit wr))
variable (bound : offset t.table (extFlit wr) + 8 ≤ 65536) (a : AtomicCas.State)
include connected verb encap decap admits bound

theorem run_cas : ∃ wire s' decoded d', (postWr ctx wr).2.status = .ok ∧
      EthEncap.handler.Produces s (postWr ctx wr).2.written s' wire ∧
      EthDecap.handler.Produces d wire d' decoded ∧
      (AtomicCas.step.final a (Ports.sent 1 (MrTable.step.trace t decoded))).hbm =
        a.hbm.setWord (offset t.table (extFlit wr))
          (AtomicCas.Kind.cas.apply wr.casCompare (wr.token.setWidth 64)
            (a.hbm.word (offset t.table (extFlit wr)))) := by
  obtain ⟨ts, posted⟩ := postWr_cas connected verb
  let p := packet ctx.localCna wr taopAtomicCas ts
  have opcode : UbMeta.taOpcode.get p.head = taopAtomicCas := taOpcode_metaFlit _ _ _ _
  have atomic : isAtomic (UbMeta.taOpcode.get p.head) = true := by rw [opcode]; decide
  obtain ⟨wire, s', d', m', e', sent, received, sop, more, inner, more', opcode', same⟩ :=
      codec_atomic p rfl atomic encap decap
  obtain ⟨admits', off⟩ := admits_decoded atomic same admits
  have token : UbExt.tokenValue e' = wr.token := by
    rw [same.tokenValue (isAtomic_spec atomic).2.1 (tvEn_metaFlit _ _ _ _), tokenValue_extFlit]
  have operand : UbExt.opData e' = wr.casCompare := by
    rw [same.opData atomic, opData_extFlit, if_pos verb]
  rw [← opcode'] at atomic
  have inner' : (translated t.table e').sop = false := (Flit.sop_set _ _ _).trans inner
  have more'' : (translated t.table e').eop = false := (Flit.eop_set _ _ _).trans more'
  have memory := AtomicCas.hbm_trailer a sop atomic inner' more'' (by rwa [off])
  rw [opcode', opcode, AtomicCas.modify_cas_zeros,
    ← checked_trailed sop more inner more' atomic admits'] at memory
  refine ⟨wire, s', _, d', ?_, ?_, received, memory.trans ?_⟩
  · rw [posted]
  · rw [posted]
    exact sent
  · rw [← off, ← operand, ← token]
    exact AtomicCas.modify_eq_setWord (by rwa [off]) a.hbm .cas _ _

theorem swaps_iff_token : Swaps ctx wr (offset t.table (extFlit wr)) s d t a ↔
      AtomicCas.Kind.cas.apply wr.casCompare (wr.token.setWidth 64)
          (a.hbm.word (offset t.table (extFlit wr))) =
        AtomicCas.Kind.cas.apply wr.casCompare wr.casSwap
          (a.hbm.word (offset t.table (extFlit wr))) := by
  obtain ⟨wire, s', decoded, d', status, sent, received, memory⟩ :=
      run_cas connected verb encap decap admits bound a
  constructor
  · rintro ⟨wire', s'', decoded', d'', _, sent', received', swapped⟩
    obtain ⟨_, rfl⟩ := sent.unique sent'
    obtain ⟨_, rfl⟩ := received.unique received'
    rw [memory, Buffer.word_setWord] at swapped
    exact swapped
  · intro equal
    refine ⟨wire, s', decoded, d', status, sent, received, ?_⟩
    rw [memory, Buffer.word_setWord]
    exact equal

/-- The word becomes what the verb asks for exactly if it differs from the value to compare, or
the value to swap in happens to be the token. -/
theorem swaps_iff : Swaps ctx wr (offset t.table (extFlit wr)) s d t a ↔
      a.hbm.word (offset t.table (extFlit wr)) ≠ wr.casCompare ∨
        wr.casSwap = wr.token.setWidth 64 := by
  rw [swaps_iff_token connected verb encap decap admits bound a]
  by_cases equal : a.hbm.word (offset t.table (extFlit wr)) = wr.casCompare
  · simp [AtomicCas.Kind.apply, equal, eq_comm]
  · simp [AtomicCas.Kind.apply, equal]

end

def connectedContext : Context := { localCna := 0, doorbellIn := true }

def casVerb (swap : U64) : JfsWr where
  opc := .atomicCas
  remoteVa := 0x1000
  length := 8
  tokenId := 5
  token := 7
  casSwap := swap

theorem admits_casVerb (swap : U64) : Admits sampleRegions.table (extFlit (casVerb swap)) ∧
      offset sampleRegions.table (extFlit (casVerb swap)) = 64 := by
  change Admits sampleRegions.table (extFlit (casVerb 0)) ∧
    offset sampleRegions.table (extFlit (casVerb 0)) = 64
  decide +kernel

/-- A 7 is swapped in as it should be. -/
theorem swaps_casVerb_seven : Swaps connectedContext (casVerb 7)
      (offset sampleRegions.table (extFlit (casVerb 7))) (EthEncap.init fun _ => 0)
      (EthDecap.init fun _ => 0) sampleRegions AtomicCas.init :=
  (swaps_iff rfl rfl ⟨rfl, rfl⟩ ⟨rfl, rfl, rfl, rfl⟩ (admits_casVerb 7).1
    (by rw [(admits_casVerb 7).2]; decide) _).mpr (.inr rfl)

/-- In place of a 1 the token is swapped in. -/
theorem casVerb_one_swaps_token : ¬Swaps connectedContext (casVerb 1)
      (offset sampleRegions.table (extFlit (casVerb 1))) (EthEncap.init fun _ => 0)
      (EthDecap.init fun _ => 0) sampleRegions AtomicCas.init := by
  obtain ⟨admits, off⟩ := admits_casVerb 1
  rw [swaps_iff_token rfl rfl ⟨rfl, rfl⟩ ⟨rfl, rfl, rfl, rfl⟩ admits (by rw [off]; decide), off]
  decide

end Verbs

end OpenURMA
