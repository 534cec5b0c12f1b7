import OpenURMA.Transport.Completions

/-!
# Selective acknowledgements on the wire

A packet that arrives out of order is answered with a selective acknowledgement: the base of the
receiver's bitmap, the bitmap and the highest PSN received. The descriptor has no lane for the
highest PSN. `UB_TPACK_Gen` makes one flit of it, without room for the bitmap. `UB_TPSACK_Gen` puts
two flits on its port in one call: the metadata flit never leaves and the encoder drops the other
one.
-/

namespace OpenURMA

open Library TpChannelRx EthEncap UbMeta UbExt

namespace TpsackGen

structure State where
  localScna : U32

/-- The setter calls on a blank metadata flit. -/
def writes (s : State) (a : Flit) : List Write :=
  let rcna : U32 := (a.get 0 &&& 0xFFFFFF).setWidth 32
  let basePsn : U32 := (a.get 1 &&& 0xFFFFFF).setWidth 32
  [dcna.write rcna, scna.write s.localScna, nthNlp.write nthNlpRtph, valid.write true,
    tpOpcode.write tpopTpsack, tpVer.write 0, UbMeta.padding.write 0, rtphNlp.write 0,
    psn.write basePsn, aFlag.write false, fFlag.write false, rspst.write rspstOk,
    isResponse.write true, taOpcode.write taopTaack]

def buildMeta (s : State) (a : Flit) : Flit :=
  ((Write.apply (writes s a) {}).setSop true).setEop false

def buildExt (a : Flit) : Flit :=
  let maxRcv : U32 := (a.get 2 &&& 0xFFFFFF).setWidth 32
  let bitmap := a.get 3
  ((setOpData bitmap (setLength maxRcv (setAddress 0 {}))).setSop false).setEop
    true

def step : Mealy State Flit (Ports Flit) := fun s a =>
  (s, Ports.put 1 (buildExt a) (Ports.emit 1 (buildMeta s a)))

theorem sent_single (s : State) (a : Flit) : Ports.sent 1 (step.trace s [a]) = [buildExt a] :=
  rfl

theorem sop_buildExt (a : Flit) : (buildExt a).sop = false :=
  (Flit.sop_setEop _ _).trans (Flit.sop_setSop _ _)

end TpsackGen

namespace SelectiveAck

open TpChannelRx (RxChan checkMeta acknowledged)

/-- The flits that answer an arrival at `UB_TPChannel_RX`, as they leave `UB_NTH_Build`. -/
def answer (nth : NthBuild.State) {σ : Type} (generator : Mealy σ Flit (Ports Flit)) (g : σ)
    (rx : TpChannelRx.State) (p : Packet) : List Flit :=
  Ports.sent 1 ((NthBuild.step nth).trace ()
    (Ports.sent 1 (generator.trace g (acknowledged rx p))))

/-- The answer, encoded and decoded, has the base PSN, the bitmap and the highest PSN received as
the channel holds them. -/
def Survives (c : RxChan) (answer : List Flit) (s : EthEncap.State) (d : EthDecap.State) : Prop :=
  ∃ wire s' decoded d', EthEncap.handler.Produces s answer s' wire ∧
    EthDecap.handler.Produces d wire d' decoded ∧
    ∃ m e more, decoded = m :: e :: more ∧ psn.get m = c.basePsn ∧
      opData e = c.bitmap ∧ UbExt.length e = c.maxRcvPsn

variable {rx : TpChannelRx.State}

theorem bitmap_of_ooo {m : Flit} (ooo : (checkMeta rx m).2.isOoo = true) :
    (checkMeta rx m).1.bitmap ≠ 0 := by
  have channel : ∀ (c : RxChan) (psn : U32), (receivePsn c psn).2.isOoo = true →
      (receivePsn c psn).1.bitmap ≠ 0 := by
    intro c psn early
    simp only [receivePsn] at early ⊢
    split at early
    · cases early
    · next other =>
      rw [if_neg other]
      split at early
      · next ahead =>
        rw [if_pos ahead]
        split at early
        · next inside =>
          rw [if_pos inside]
          have kept : (noteMax psn { c with
              bitmap := c.bitmap ||| (1#64 <<< (signedDiff psn c.epsn).toNat)
              }).bitmap =
                c.bitmap ||| (1#64 <<< (signedDiff psn c.epsn).toNat) := by
            unfold noteMax
            split <;> rfl
          rw [kept]
          intro none
          have bit := congrArg
            (BitVec.getLsbD · (signedDiff psn c.epsn).toNat) none
          simp [inside] at bit
        · cases early
      · split at early <;> cases early
  exact channel _ _ ooo

section

variable (nth : NthBuild.State) (g : TpackGen.State) (a : Flit)

theorem tpack_frame : isResp (taOpcode.get (NthBuild.build nth (TpackGen.build g a))) = true ∧
      EthDecap.statusByte (NthBuild.build nth (TpackGen.build g a)) &&& 0x08 = 0 := by
  have known : nthNlp.get (TpackGen.build g a) ≠ 0 := by
    rw [TpackGen.get_build (v := nthNlpRtph) (by simp [TpackGen.writes])]
    decide
  have opcode : taOpcode.get (TpackGen.build g a) = taopTaack := by
    rw [TpackGen.get_build (v := taopTaack) (by simp [TpackGen.writes])]
    decide
  have info : rspinfo.get (TpackGen.build g a) = 0 := by
    rw [TpackGen.get_build_other (by decide)]
    decide
  have status : rspst.write (if a.get 3 &&& 1 != 0 then rspstTpackWTaack else rspstOk) ∈
      TpackGen.writes g a := by simp [TpackGen.writes]
  rw [EthDecap.statusByte, NthBuild.get_build known (by decide), opcode,
    NthBuild.get_build known (by decide), NthBuild.get_build known (by decide), info,
    TpackGen.get_build status]
  refine ⟨by decide, ?_⟩
  split <;> decide

theorem decoded_tpack {s : EthEncap.State} (encap : EthEncap.Idle s) {d : EthDecap.State}
    (decap : EthDecap.Idle d) :
    ∃ wire s' d' m e,
      EthEncap.handler.Produces s [NthBuild.build nth (TpackGen.build g a)] s' wire ∧
      EthDecap.handler.Produces d wire d' [m, e] ∧ opData e = 0 := by
  let p := (NthBuild.stamp nth).packet (TpackGen.packet g a)
  have shape : p.flits = [NthBuild.build nth (TpackGen.build g a)] := rfl
  obtain ⟨response, unflagged⟩ := tpack_frame nth g a
  have finishes : Finishes p := by
    intro _ impossible
    cases impossible
  obtain ⟨wire, s', d₁, d', sent, _, received, _, contents⟩ :=
      codec_delivers p finishes encap.1 decap.1
  have padding : (padded (EthEncap.encode p.head p.rest)).drop 58 = List.replicate 6 0 := by
    change (padded (headerBytes p.head)).drop 58 = _
    have size := headerBytes_length p.head
    rw [padded, List.drop_left' size, size]
  rw [EthDecap.emission_response contents response unflagged, padding,
    chunks_short (by decide)] at received
  rw [shape] at sent
  exact ⟨wire, s', d', _, _, sent, received, by decide⟩

end

section

variable {p : Packet} (nth : NthBuild.State)
variable {s : EthEncap.State} (encap : EthEncap.Idle s)
variable {d : EthDecap.State} (decap : EthDecap.Idle d)
include encap decap

theorem not_survives_tpack (ooo : (checkMeta rx p.head).2.isOoo = true) (g : TpackGen.State) :
    ¬Survives (checkMeta rx p.head).1 (answer nth TpackGen.step g rx p) s d := by
  let a := descriptor (checkMeta rx p.head).1 (checkMeta rx p.head).2
    (scna.get p.head)
  rintro ⟨wire, s', decoded, d', sent, received, m, e, more, flits, _, bitmap, _⟩
  rw [answer, acknowledged_eq] at sent
  obtain ⟨wire', _, _, m', e', sent', received', blank⟩ := decoded_tpack nth g a encap decap
  have control : Ports.sent 1 ((NthBuild.step nth).trace () [TpackGen.build g a]) =
      [NthBuild.build nth (TpackGen.build g a)] :=
    Stamp.sent_packets (NthBuild.stamp nth) [TpackGen.packet g a]
  obtain ⟨-, rfl⟩ := sent.unique (control ▸ sent')
  obtain ⟨-, rfl⟩ := received.unique received'
  obtain ⟨rfl, rest⟩ := List.cons.inj flits
  obtain ⟨rfl, rfl⟩ := List.cons.inj rest
  rw [blank] at bitmap
  exact bitmap_of_ooo ooo bitmap.symm

theorem not_survives_tpsack (g : TpsackGen.State) :
    ¬Survives (checkMeta rx p.head).1 (answer nth TpsackGen.step g rx p) s d := by
  let a := descriptor (checkMeta rx p.head).1 (checkMeta rx p.head).2
    (scna.get p.head)
  rintro ⟨wire, s', decoded, d', sent, received, m, e, more, flits, _, _, _⟩
  have inner : (TpsackGen.buildExt a).sop = false := TpsackGen.sop_buildExt a
  have control : answer nth TpsackGen.step g rx p = [TpsackGen.buildExt a] := by
    rw [answer, acknowledged_eq, TpsackGen.sent_single]
    simp [NthBuild.step, Stamp.step, inner, Ports.sent_cons, a]
  -- outside a packet the encoder takes the flit in and drops it
  have dropped : EthEncap.handler.Delivers s [TpsackGen.buildExt a] s [] := by
    have waits : EthEncap.handler.Waits s := waits_of_not_drain (by simp [encap.1])
    have read : EthEncap.handler s (some (TpsackGen.buildExt a)) = ⟨s, true, none⟩ := by
      simp [EthEncap.handler, encap.1, encap.2, inner]
    exact .read waits read (.settled waits)
  have silent : EthDecap.handler.Delivers d [] d [] :=
    .settled (EthDecap.waits_accumulate decap.1)
  rw [control] at sent
  obtain ⟨-, rfl⟩ := sent.unique dropped.produces
  obtain ⟨-, rfl⟩ := received.unique silent.produces
  cases flits

/-- Neither generator gets the bitmap across. -/
theorem not_survives (ooo : (checkMeta rx p.head).2.isOoo = true) (g : TpackGen.State)
    (g' : TpsackGen.State) :
    ¬Survives ((deliver rx p).rxchan (TpChannelRx.idx (scna.get p.head)))
        (answer nth TpackGen.step g rx p) s d ∧
      ¬Survives ((deliver rx p).rxchan (TpChannelRx.idx (scna.get p.head)))
        (answer nth TpsackGen.step g' rx p) s d := by
  have channel : (deliver rx p).rxchan (TpChannelRx.idx (scna.get p.head)) =
      (checkMeta rx p.head).1 := by
    rw [deliver_eq]
    exact Function.update_self ..
  rw [channel]
  exact ⟨not_survives_tpack nth encap decap ooo g, not_survives_tpsack nth encap decap g'⟩

end

/-- A receiver that has packet 0 from node 1 and gets packet 2. -/
def early : TpChannelRx.State :=
  run (TpChannelRx.init fun _ => 0) [Arrival.plain 1 0]

def gap : Packet := (Arrival.plain 1 2).packet

theorem not_survives_gap :
    ¬Survives ((deliver early gap).rxchan (TpChannelRx.idx (scna.get gap.head)))
        (answer ⟨1, 0, 0⟩ TpackGen.step ⟨1⟩ early gap)
        (EthEncap.init fun _ => 0) (EthDecap.init fun _ => 0) ∧
      ¬Survives ((deliver early gap).rxchan (TpChannelRx.idx (scna.get gap.head)))
        (answer ⟨1, 0, 0⟩ TpsackGen.step ⟨1⟩ early gap)
        (EthEncap.init fun _ => 0) (EthDecap.init fun _ => 0) :=
  not_survives ⟨1, 0, 0⟩ ⟨rfl, rfl⟩ ⟨rfl, rfl, rfl, rfl⟩ (by decide +kernel) ⟨1⟩ ⟨1⟩

/-- The channel has the base PSN 1, the bitmap 2 and the highest PSN 2. -/
theorem lost_gap : (checkMeta early gap.head).2.isOoo = true ∧
      ((checkMeta early gap.head).1.basePsn, (checkMeta early gap.head).1.bitmap,
        (checkMeta early gap.head).1.maxRcvPsn) = (1#32, 2#64, 2#32) ∧
      ¬Survives (checkMeta early gap.head).1 (answer ⟨1, 0, 0⟩ TpackGen.step ⟨1⟩ early gap)
        (EthEncap.init fun _ => 0) (EthDecap.init fun _ => 0) ∧
      ¬Survives (checkMeta early gap.head).1 (answer ⟨1, 0, 0⟩ TpsackGen.step ⟨1⟩ early gap)
        (EthEncap.init fun _ => 0) (EthDecap.init fun _ => 0) :=
  ⟨by decide +kernel, by decide +kernel,
    not_survives_tpack ⟨1, 0, 0⟩ ⟨rfl, rfl⟩ ⟨rfl, rfl, rfl, rfl⟩ (by decide +kernel) ⟨1⟩,
    not_survives_tpsack ⟨1, 0, 0⟩ ⟨rfl, rfl⟩ ⟨rfl, rfl, rfl, rfl⟩ ⟨1⟩⟩

end SelectiveAck

end OpenURMA
