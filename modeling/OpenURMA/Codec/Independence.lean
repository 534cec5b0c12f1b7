import OpenURMA.Codec.Checked

/-!
# Independence of successive packets

Neither codec element clears its buffer between packets. The encoder stays clear of what it holds
from before if it finishes each packet at its last flit; a Write that announces payload and ends
with its extension flit makes it take the next packet for payload. The decoder reads headers
wherever the opcode calls for them: a frame that ends before them is completed with bytes of earlier
frames.
-/

namespace OpenURMA

open Library UbMeta UbExt BitField List BitVec

namespace EthEncap

variable {s : State} {frame : Packet}

/-- Alone, from the initial state, the packet is turned into the frame. -/
def Encodes (p frame : Packet) : Prop :=
  ∀ wire, ∃ t, handler.Produces (init wire) p.flits t frame.flits

/-- A stream is turned into one frame per packet, in order, each as if its packet were alone. -/
def Independent (packets : List Packet) : Prop :=
  ∃ frames : List Packet, Forall₂ Encodes packets frames ∧
    ∀ wire, ∃ t, handler.Produces (init wire) (packets.flatMap Packet.flits) t
      (frames.flatMap Packet.flits)

theorem delivers_stream (packets : List Packet) (finish : ∀ p ∈ packets, Finishes p) :
    ∀ {s : State}, Idle s → ∃ t, handler.Delivers s (packets.flatMap Packet.flits) t
      (packets.flatMap fun p => chunks true (encode p.head p.rest)) := by
  induction packets with
  | nil => exact fun idle => ⟨_, .settled (waits_of_not_drain (by simp [idle.1]))⟩
  | cons p packets ih =>
    intro s idle
    obtain ⟨next, ready, sends⟩ := delivers_packet idle.1 p (finish p (by simp))
    obtain ⟨t, rest⟩ := ih (fun q member => finish q (by simp [member])) ready
    rw [flatMap_cons, flatMap_cons]
    exact ⟨t, sends rest⟩

variable {p : Packet}

theorem encodes_of_finishes (finishes : Finishes p)
    (flits : frame.flits = chunks true (encode p.head p.rest)) : Encodes p frame := by
  intro wire
  have alone : ∀ q ∈ [p], Finishes q := by simpa using finishes
  obtain ⟨t, sends⟩ := delivers_stream [p] alone (s := init wire) ⟨rfl, rfl⟩
  rw [flatMap_singleton, flatMap_singleton, ← flits] at sends
  exact ⟨t, sends.produces⟩

/-- A Write that announces payload and brings none is taken in without a frame. -/
theorem produces_nothing (unfinished : ¬Finishes p) (wire : Buffer) :
    ∃ t, handler.Produces (init wire) p.flits t [] := by
  simp only [Finishes, not_forall] at unfinished
  obtain ⟨e, shape, write, long⟩ := unfinished
  have framed := p.eop_last
  rw [shape] at framed
  have inner : e.sop = false := p.sop_rest e (by simp [shape])
  let t := buildExtension (buildHeaders (init wire) p.head) e
  have collects : t.emitMode = .payload := by
    have wants : wantsPayload (buildHeaders (init wire) p.head) e = true := by
      have mae := (isWriteClass_spec write).2.1
      have more : 8#32 < UbExt.length e := by simpa using long
      simp [wantsPayload, buildHeaders, mae, write, more]
    simp only [t, buildExtension, wants, if_true]
  have absorbs : handler.Absorbs (init wire) p.flits t := by
    rw [Packet.flits, shape]
    exact absorbs_extension rfl p.sop_head framed.1 inner .nil
  have settled : handler.Delivers t [] t [] :=
    .settled (waits_of_not_drain (by simp [collects]))
  have sends := absorbs.delivers settled
  rw [append_nil] at sends
  exact ⟨t, sends.produces⟩

theorem finishes_of_encodes (encodes : Encodes p frame) : Finishes p := by
  by_contra unfinished
  obtain ⟨_, frames⟩ := encodes fun _ => 0
  obtain ⟨_, nothing⟩ := produces_nothing unfinished fun _ => 0
  have empty := (frames.unique nothing).2
  simp [Packet.flits] at empty

theorem finishes_of_forall₂ {packets frames : List Packet}
    (encoded : Forall₂ Encodes packets frames) : ∀ p ∈ packets, Finishes p := by
  induction encoded with
  | nil => simp
  | cons first _ ih =>
    intro p member
    rcases mem_cons.mp member with rfl | member
    · exact finishes_of_encodes first
    · exact ih p member

/-- The encoder treats the packets of a stream independently exactly if it can finish each of
them at its last flit. -/
theorem independent_iff (packets : List Packet) :
    Independent packets ↔ ∀ p ∈ packets, Finishes p := by
  constructor
  · rintro ⟨frames, encoded, _⟩
    exact finishes_of_forall₂ encoded
  · intro finish
    choose frame flits using fun p : Packet =>
      exists_packet_chunks (encode p.head p.rest)
    refine ⟨packets.map frame, ?_, fun wire => ?_⟩
    · rw [forall₂_map_right_iff, forall₂_same]
      exact fun p member => encodes_of_finishes (finish p member) (flits p)
    · obtain ⟨t, sends⟩ := delivers_stream packets finish (s := init wire) ⟨rfl, rfl⟩
      refine ⟨t, ?_⟩
      rw [flatMap_map]
      simpa only [flits] using sends.produces

section

variable (dcna : U32) (taop : U8) (tassn : U32)

/-- The fields of the metadata flit that `ou_build_wr_flits` sets. -/
def ouMetaWrites : List Write :=
  [UbMeta.dcna.write dcna, nthNlp.write nthNlpRtph, valid.write true,
    svcMode.write svcRoi, lastPkt.write true, taOpcode.write taop,
    tvEn.write true, iniTassn.write (tassn.setWidth 16), odrExec.write odrNo, iniRcId.write 7]

/-- The metadata flit of `ou_build_wr_flits`. -/
def ouMeta : Flit :=
  (Write.apply (ouMetaWrites dcna taop tassn) {}).setSop true

/-- The extension flit of `ou_build_wr_flits`; the operand is a fixed pattern. -/
def ouExt (remoteVa : U64) (tokenId len : U32) : Flit where
  lane0 := remoteVa
  lane1 := tokenId.setWidth 64 ||| (len.setWidth 64 <<< 32)
  lane2 := 0xDEADBEEF
  eop := true

theorem eop_ouMeta : (ouMeta dcna taop tassn).eop = false := by
  rw [ouMeta, Flit.eop_setSop, (Write.framing_apply _ _).2]

/-- `ou_build_wr_flits`: a metadata and an extension flit, whatever the length. -/
def ouBuildWrFlits (remoteVa : U64) (tokenId len : U32) : Packet where
  head := ouMeta dcna taop tassn
  rest := [ouExt remoteVa tokenId len]
  sop_head := Flit.sop_setSop _ _
  sop_rest f member := by
    rw [mem_singleton.mp member]
    rfl
  eop_last := ⟨eop_ouMeta dcna taop tassn, rfl⟩

theorem separate_ouMetaWrites : Write.Separate (ouMetaWrites dcna taop tassn) :=
  Write.separate_of_slots (ouMetaWrites 0 0 0) rfl (by decide)

theorem taOpcode_ouMeta : taOpcode.get (ouMeta dcna taop tassn) = taop := by
  have whole : ∀ op : U8, op &&& mask 8 8 = op := by decide
  rw [ouMeta, Field.get_setSop,
    Write.field_get_apply (v := taop) (separate_ouMetaWrites ..) (by simp [ouMetaWrites])]
  exact whole taop

end

theorem length_ouExt (remoteVa : U64) (tokenId len : U32) :
    UbExt.length (ouExt remoteVa tokenId len) = len := by
  change ((tokenId.setWidth 64 ||| (len.setWidth 64 <<< 32)) >>> 32).setWidth 32 = len
  apply eq_of_getLsbD_eq
  intro index inside
  have above : tokenId.getLsbD (32 + index) = false := getLsbD_of_ge _ _ (by omega)
  rw [getLsbD_setWidth, getLsbD_ushiftRight, getLsbD_or,
    getLsbD_setWidth, getLsbD_shiftLeft, getLsbD_setWidth, above]
  simp [inside, show 32 + index < 64 by omega, show index < 64 by omega]

theorem finishes_ouBuildWrFlits {taop : U8} (write : isWriteClass taop = true)
    (dcna tassn tokenId len : U32) (remoteVa : U64) :
    Finishes (ouBuildWrFlits dcna taop tassn remoteVa tokenId len) ↔ len ≤ 8 := by
  have opcode : isWriteClass (taOpcode.get (ouMeta dcna taop tassn)) = true := by
    rw [taOpcode_ouMeta, write]
  constructor
  · intro finishes
    have short := finishes (ouExt remoteVa tokenId len) rfl opcode
    rwa [length_ouExt] at short
  · intro short e shape _
    obtain rfl : ouExt remoteVa tokenId len = e := singleton_inj.mp shape
    rwa [length_ouExt]

/-- Two Writes of 16 bytes, as the provider posts them. -/
theorem not_independent_longWrites : ¬Independent [ouBuildWrFlits 7 taopWrite 0 0x1000 5 16,
      ouBuildWrFlits 7 taopWrite 1 0x2000 5 16] := by
  rintro ⟨frames, encoded, _⟩
  have finishes := finishes_of_forall₂ encoded _ mem_cons_self
  rw [finishes_ouBuildWrFlits (by decide)] at finishes
  revert finishes
  decide

end EthEncap

namespace EthDecap

variable {s : State} {frame : Packet}

/-- What the decoder emits for the frame in its buffer. -/
def output (s : State) : List Flit :=
  if s.hdrbytes < 58 then []
  else if be16 (s.hdrbuf 12) (s.hdrbuf 13) != ubEthertype then []
  else emission (parse s)

/-- The octets of a frame that fit into the buffer. -/
def octetsOf (frame : Packet) : List Byte := (frame.flits.flatMap (·.getData 32)).take wireMax

/-- A complete frame is emitted and the decoder waits for the next one; the buffer keeps its
contents. -/
theorem delivers_complete (waiting : s.phase = .accumulate) :
    ∃ t, t.phase = .accumulate ∧ t.hdrbuf = s.hdrbuf ∧
      ∀ {u : State} {queue outs : List Flit}, handler.Delivers t queue u outs →
        handler.Delivers (complete s) queue u (output s ++ outs) := by
  unfold complete output
  by_cases short : s.hdrbytes < 58
  · simp only [if_pos short]
    exact ⟨s, waiting, rfl, id⟩
  · simp only [if_neg short]
    split
    · exact ⟨{ s with inPacket := false, hdrbytes := 0 }, waiting, rfl, id⟩
    · refine ⟨emitted (parse s), (idle_emitted _).1, ?_, fun rest => ?_⟩
      · unfold emitted
        cases (parse s).hasPayload <;> rfl
      · refine delivers_emission (fun payload => ?_) rest rfl
        simp only [parse, if_pos (of_decide_eq_true payload)]

/-- Any frame is read, answered by the output of the buffer that it fills from the start, and the
decoder waits for the next one. -/
theorem delivers_output (waiting : s.phase = .accumulate) (frame : Packet) :
    ∃ s₁ t, s₁.contents = octetsOf frame ∧
      (∀ index, s₁.hdrbytes ≤ index → s₁.hdrbuf index = s.hdrbuf index) ∧
      t.phase = .accumulate ∧ t.hdrbuf = s₁.hdrbuf ∧
      handler.Produces s frame.flits t (output s₁) := by
  rcases absorbs_flits frame.eop_last frame.sop_rest waiting (by simp [frame.sop_head])
    (by simp [State.prior, frame.sop_head]) with ⟨s₁, absorbs, waiting', contents, behind⟩
  obtain ⟨t, ready, kept, emits⟩ := delivers_complete waiting'
  have delivers := absorbs.delivers (emits (.settled (waits_accumulate ready)))
  rw [append_nil, append_nil] at delivers
  refine ⟨s₁, t, ?_, behind, ready, kept, delivers.produces⟩
  rw [contents, frame.sop_head]
  rfl

/-- The octets up to the end of the headers that a BTAH calls for. -/
def needBytes (b : Btah) : Nat :=
  58 + (if needsMae b.taop then 16 else 0) + (if needsMae b.taop && b.tven then 4 else 0) +
    (if b.mten || isSend b.taop then 4 else 0) + if isAtomic b.taop then 8 else 0

section

variable {hdrbuf seen : Buffer} {count : Nat}

theorem readIf_congr {reader : Buffer → ExtCursor → ExtCursor} {size : Nat} {c c' : ExtCursor}
    (agree : ∀ index < count, seen index = hdrbuf index) (earlier : c'.extOff ≤ count → c = c')
    (present : Bool) (moves : (reader hdrbuf c').extOff = c'.extOff + size)
    (reads : (∀ index < size, seen (c'.extOff + index) = hdrbuf (c'.extOff + index)) →
      reader seen c' = reader hdrbuf c')
    (inside : (c'.readIf present (reader hdrbuf)).extOff ≤ count) :
    c.readIf present (reader seen) = c'.readIf present (reader hdrbuf) := by
  cases present with
  | true =>
    have fits : c'.extOff + size ≤ count := moves ▸ inside
    rw [earlier (by omega)]
    exact reads fun index within => agree _ (by omega)
  | false => exact earlier inside

theorem parseExt_congr {b : Btah} (agree : ∀ index < count, seen index = hdrbuf index) :
    (parseExt hdrbuf b).extOff ≤ count → parseExt seen b = parseExt hdrbuf b := by
  have mae := readIf_congr agree (fun _ => rfl) (needsMae b.taop) rfl
    (readMaetah_congr (c := ⟨{}, 58⟩))
  have tv := readIf_congr agree mae (needsMae b.taop && b.tven) rfl readTvetah_congr
  have mt := readIf_congr agree tv (b.mten || isSend b.taop) rfl readMtetah_congr
  exact readIf_congr agree mt (isAtomic b.taop) rfl readOpData_congr

end

variable {reader : ExtCursor → ExtCursor}

theorem extOff_readIf_eq (c : ExtCursor) (present : Bool) {size : Nat}
    (moves : (reader c).extOff = c.extOff + size) :
    (c.readIf present reader).extOff = c.extOff + if present then size else 0 := by
  cases present with
  | true => exact moves
  | false => rfl

theorem extOff_eq_needBytes (hdrbuf : Buffer) (b : Btah) :
    (parseExt hdrbuf b).extOff = needBytes b := by
  unfold parseExt needBytes
  rw [extOff_readIf_eq _ _ (show (readOpData hdrbuf _).extOff = _ + 8 from rfl),
    extOff_readIf_eq _ _ (show (readMtetah hdrbuf _).extOff = _ + 4 from rfl),
    extOff_readIf_eq _ _ (show (readTvetah hdrbuf _).extOff = _ + 4 from rfl),
    extOff_readIf_eq _ _ (show (readMaetah hdrbuf _).extOff = _ + 16 from rfl)]

theorem lengthField_congr {hdrbuf seen : Buffer} {count : Nat} {b : Btah}
    (agree : ∀ index < count, seen index = hdrbuf index) (inside : needBytes b ≤ count) :
    lengthField seen b = lengthField hdrbuf b := by
  unfold lengthField
  unfold needBytes at inside
  split
  · next mae =>
    rw [if_pos mae] at inside
    rw [agree 70 (by omega), agree 71 (by omega), agree 72 (by omega), agree 73 (by omega)]
  · rfl

section

variable {t : State} (same : s.contents = t.contents)
include same

theorem agree_of_contents :
    s.hdrbytes = t.hdrbytes ∧ ∀ index < s.hdrbytes, s.hdrbuf index = t.hdrbuf index := by
  have count : s.hdrbytes = t.hdrbytes := by rw [← contents_length, same, contents_length]
  refine ⟨count, fun index inside => ?_⟩
  have left : s.contents.getD index 0 = s.hdrbuf (0 + index) := Buffer.getD_slice inside
  have right : t.contents.getD index 0 = t.hdrbuf (0 + index) :=
    Buffer.getD_slice (count ▸ inside)
  rw [same, right, Nat.zero_add] at left
  exact left.symm

theorem emission_congr (headers : 58 ≤ s.hdrbytes)
    (arrived : needBytes (parseBtah fun i => s.hdrbuf (42 + i)) ≤ s.hdrbytes) :
    emission (parse s) = emission (parse t) := by
  obtain ⟨count, agree⟩ := agree_of_contents same
  have fixed : ∀ index < 58, s.hdrbuf index = t.hdrbuf index :=
    fun index inside => agree index (by omega)
  have nth : (parseNth fun i => s.hdrbuf (14 + i)) = parseNth fun i => t.hdrbuf (14 + i) := by
    simp (disch := decide) only [parseNth, fixed, Nat.reduceAdd]
  have tph : (parseTph fun i => s.hdrbuf (26 + i)) = parseTph fun i => t.hdrbuf (26 + i) := by
    simp (disch := decide) only [parseTph, fixed, Nat.reduceAdd]
  have btah : (parseBtah fun i => s.hdrbuf (42 + i)) = parseBtah fun i => t.hdrbuf (42 + i) := by
    simp (disch := decide) only [parseBtah, fixed, Nat.reduceAdd]
  let b := parseBtah fun i => t.hdrbuf (42 + i)
  have bound : needBytes b ≤ s.hdrbytes := by rwa [btah] at arrived
  have ext : parseExt s.hdrbuf b = parseExt t.hdrbuf b :=
    parseExt_congr agree (by rwa [extOff_eq_needBytes])
  have length := lengthField_congr agree bound
  have parsed : (parse s).cachedMeta = (parse t).cachedMeta ∧
      (parse s).cachedExt = (parse t).cachedExt ∧ (parse s).needsExt = (parse t).needsExt ∧
      (parse s).hdrEnd = (parse t).hdrEnd ∧ (parse s).hasPayload = (parse t).hasPayload ∧
      (parse s).payloadTotal = (parse t).payloadTotal := by
    simp only [parse, nth, tph, btah, count, true_and]
    rw [ext, length]
    exact ⟨rfl, rfl, rfl, rfl⟩
  have payload : (parse s).hdrbuf.slice (parse s).hdrEnd (parse s).payloadTotal =
      (parse t).hdrbuf.slice (parse s).hdrEnd (parse s).payloadTotal :=
    Buffer.slice_congr fun index inside => agree _ (by
      have := payloadTotal_parse_le s
      omega)
  obtain ⟨cachedMeta, cachedExt, needsExt, hdrEnd, hasPayload, payloadTotal⟩ := parsed
  rw [hdrEnd, payloadTotal] at payload
  simp only [emission, metaFlit, extFlit, payload, cachedMeta, cachedExt, needsExt, hdrEnd,
    hasPayload, payloadTotal]

theorem output_congr (arrived : 58 ≤ s.hdrbytes → be16 (s.hdrbuf 12) (s.hdrbuf 13) = ubEthertype →
      needBytes (parseBtah fun i => s.hdrbuf (42 + i)) ≤ s.hdrbytes) : output s = output t := by
  obtain ⟨count, agree⟩ := agree_of_contents same
  unfold output
  rw [← count]
  by_cases short : s.hdrbytes < 58
  · rw [if_pos short, if_pos short]
  · rw [if_neg short, if_neg short, ← agree 12 (by omega), ← agree 13 (by omega)]
    split
    · rfl
    · next ethertype =>
      exact emission_congr same (by omega) (arrived (by omega) (by simpa using ethertype))

end

/-- A state in which the decoder waits after a history of whole frames. -/
def Settled (s : State) : Prop :=
  s.phase = .accumulate ∧
    ∃ (hdrbuf : Buffer) (history : List Packet) (schedule : List Bool) (outs : List Flit),
      handler.run schedule (init hdrbuf) (history.flatMap Packet.flits) = ⟨s, [], outs⟩

/-- The answer to the frame is the same whatever came before it. -/
def SelfContained (frame : Packet) : Prop :=
  ∃ outs, ∀ s, Settled s → ∃ t, handler.Produces s frame.flits t outs

/-- A frame with the UB Ethertype has all headers that it calls for. -/
def HeadersArrive (frame : Packet) : Prop :=
  58 ≤ (octetsOf frame).length →
    be16 ((octetsOf frame).getD 12 0) ((octetsOf frame).getD 13 0) = ubEthertype →
    needBytes (parseBtah fun i => (octetsOf frame).getD (42 + i) 0) ≤ (octetsOf frame).length

/-- A buffer with nothing but the given bytes. -/
def holding (octets : List Byte) : State :=
  { init (octets.getD · 0) with hdrbytes := octets.length }

theorem contents_holding (octets : List Byte) : (holding octets).contents = octets :=
  Buffer.slice_eq_of_agree fun index _ => by
    rw [Nat.zero_add]
    rfl

theorem hdrbuf_of_contents {octets : List Byte} (contents : s.contents = octets) :
    s.hdrbytes = octets.length ∧ ∀ index < octets.length, s.hdrbuf index = octets.getD index 0 := by
  obtain ⟨count, agree⟩ := agree_of_contents (contents.trans (contents_holding octets).symm)
  have size : s.hdrbytes = octets.length := count
  exact ⟨size, fun index inside => agree index (size ▸ inside)⟩

theorem parseBtah_contents (contents : s.contents = octetsOf frame)
    (headers : 58 ≤ (octetsOf frame).length) :
    (parseBtah fun i => s.hdrbuf (42 + i)) =
      parseBtah fun i => (octetsOf frame).getD (42 + i) 0 := by
  have bytes : ∀ index < 58, s.hdrbuf index = (octetsOf frame).getD index 0 :=
    fun index inside => (hdrbuf_of_contents contents).2 index (by omega)
  simp (disch := decide) only [parseBtah, bytes, Nat.reduceAdd]

theorem output_of_headersArrive (arrive : HeadersArrive frame)
    (contents : s.contents = octetsOf frame) : output s = output (holding (octetsOf frame)) := by
  obtain ⟨count, bytes⟩ := hdrbuf_of_contents contents
  refine output_congr (contents.trans (contents_holding _).symm) fun headers ethertype => ?_
  rw [count] at headers ⊢
  rw [bytes 12 (by omega), bytes 13 (by omega)] at ethertype
  rw [parseBtah_contents contents headers]
  exact arrive headers ethertype

theorem length_setLength (v : U32) (f : Flit) : UbExt.length (setLength v f) = v := by
  have whole : v &&& mask 32 32 = v := by
    rw [show mask 32 32 = allOnes 32 by decide, and_allOnes]
  rw [length_eq, setLength_eq, Field.get_set_same]
  exact whole

theorem length_readIf (c : ExtCursor) (present : Bool)
    (keeps : UbExt.length (reader c).ext = UbExt.length c.ext) :
    UbExt.length (c.readIf present reader).ext = UbExt.length c.ext := by
  cases present with
  | true => exact keeps
  | false => rfl

theorem length_parseExt (hdrbuf : Buffer) {b : Btah} (mae : needsMae b.taop = true) :
    UbExt.length (parseExt hdrbuf b).ext =
      be32 (hdrbuf 70) (hdrbuf 71) (hdrbuf 72) (hdrbuf 73) := by
  unfold parseExt
  rw [length_readIf, length_readIf, length_readIf]
  · rw [mae]
    exact length_setLength _ _
  · simp only [readTvetah]
    rw [length_eq, setTokenValue_eq, Field.get_set_disjoint (by decide), length_eq]
  · simp only [readMtetah]
    rw [length_eq, setMtTcId_eq, Field.get_set_disjoint (by decide),
      setMtTcType_eq, Field.get_set_disjoint (by decide), setMtHint_eq,
      Field.get_set_disjoint (by decide), length_eq]
  · simp only [readOpData]
    rw [length_eq, setOpData_eq, Field.get_set_disjoint (by decide), length_eq]

/-- A frame of three flits without the UB Ethertype, which the decoder drops. -/
def junk (word : U64) : Packet where
  head := { sop := true }
  rest := [{}, { lane1 := word, eop := true }]
  sop_head := rfl
  sop_rest := by simp
  eop_last := ⟨rfl, rfl, rfl⟩

theorem settled_junk (word : U64) :
    ∃ s, Settled s ∧ ∀ index < 96, s.hdrbuf index = (octetsOf (junk word)).getD index 0 := by
  obtain ⟨s₁, t, contents, _, ready, kept, calls, runs⟩ :=
      delivers_output (s := init fun _ => 0) rfl (junk word)
  refine ⟨t, ⟨ready, fun _ => 0, [junk word], replicate calls true, output s₁, ?_⟩,
    fun index inside => ?_⟩
  · rw [flatMap_singleton]
    exact runs _ (by simp)
  · rw [kept]
    exact (hdrbuf_of_contents contents).2 index inside

section

variable (headers : 58 ≤ (octetsOf frame).length)
variable (ethertype :
  be16 ((octetsOf frame).getD 12 0) ((octetsOf frame).getD 13 0) = ubEthertype)
variable (truncated : (octetsOf frame).length <
  needBytes (parseBtah fun i => (octetsOf frame).getD (42 + i) 0))
include headers truncated

/-- A frame that ends within its headers has two flits, and its opcode calls for a MAETAH. -/
theorem shape_truncated : (octetsOf frame).length = 64 ∧
    needsMae (parseBtah fun i => (octetsOf frame).getD (42 + i) 0).taop = true := by
  let b := parseBtah fun i => (octetsOf frame).getD (42 + i) 0
  have size : (octetsOf frame).length = min 384 (32 * frame.flits.length) := by
    rw [octetsOf, length_take, flatMap_getData_length]
    rfl
  have atomic : isAtomic b.taop = true → needsMae b.taop = true := by
    intro atomic
    simp [needsMae, atomic]
  have bound : needBytes b ≤ 90 := by
    unfold needBytes
    split <;> split <;> split <;> split <;> omega
  have need : (octetsOf frame).length < needBytes b := truncated
  have length : (octetsOf frame).length = 64 := by omega
  refine ⟨length, ?_⟩
  by_contra none
  have short : needBytes b ≤ 62 := by
    have noMae : needsMae b.taop = false := Bool.eq_false_iff.mpr none
    have noOp : isAtomic b.taop = false := by
      rw [Bool.eq_false_iff]
      exact fun op => none (atomic op)
    rw [needBytes, noMae, noOp]
    simp only [Bool.false_and, Bool.false_eq_true, if_false]
    split <;> omega
  omega

include ethertype

theorem length_output_truncated (contents : s.contents = octetsOf frame) :
    ∃ e, (output s)[1]? = some e ∧
      UbExt.length e = be32 (s.hdrbuf 70) (s.hdrbuf 71) (s.hdrbuf 72) (s.hdrbuf 73) := by
  obtain ⟨_, mae⟩ := shape_truncated headers truncated
  obtain ⟨count, bytes⟩ := hdrbuf_of_contents contents
  rw [← parseBtah_contents contents headers] at mae
  have parsed : output s = emission (parse s) := by
    rw [output, if_neg (by omega), if_neg]
    rw [bytes 12 (by omega), bytes 13 (by omega), ethertype]
    simp
  have needs : (parse s).needsExt = true := by
    simp only [parse, mae, Bool.true_or]
  refine ⟨extFlit (parse s), ?_, length_parseExt s.hdrbuf mae⟩
  rw [parsed, emission, needs]
  rfl

theorem not_selfContained_of_truncated : ¬SelfContained frame := by
  rintro ⟨outs, answered⟩
  have size := (shape_truncated headers truncated).1
  have seen : ∀ word : U64, ∃ e, outs[1]? = some e ∧ UbExt.length e =
      be32 ((octetsOf (junk word)).getD 70 0) ((octetsOf (junk word)).getD 71 0)
        ((octetsOf (junk word)).getD 72 0) ((octetsOf (junk word)).getD 73 0) := by
    intro word
    obtain ⟨s, settled, left⟩ := settled_junk word
    obtain ⟨_, answers⟩ := answered s settled
    obtain ⟨s₁, _, contents, behind, _, _, produces⟩ := delivers_output settled.1 frame
    have count := (hdrbuf_of_contents contents).1
    rw [(answers.unique produces).2, ← left 70 (by omega), ← left 71 (by omega),
      ← left 72 (by omega), ← left 73 (by omega), ← behind 70 (by omega),
      ← behind 71 (by omega), ← behind 72 (by omega), ← behind 73 (by omega)]
    exact length_output_truncated headers ethertype truncated contents
  obtain ⟨e, found, zero⟩ := seen 0
  obtain ⟨e', found', one⟩ := seen 1
  obtain rfl : e = e' := Option.some.inj (found.symm.trans found')
  exact absurd (zero.symm.trans one) (by decide)

end

/-- The decoder's answer to a frame depends on its bytes alone exactly if the headers that it
calls for are all part of it. -/
theorem selfContained_iff (frame : Packet) : SelfContained frame ↔ HeadersArrive frame := by
  constructor
  · intro selfContained headers ethertype
    by_contra truncated
    exact not_selfContained_of_truncated headers ethertype (by omega) selfContained
  · intro arrive
    refine ⟨output (holding (octetsOf frame)), fun s settled => ?_⟩
    obtain ⟨s₁, t, contents, _, _, _, produces⟩ := delivers_output settled.1 frame
    rw [output_of_headersArrive arrive contents] at produces
    exact ⟨t, produces⟩

/-- A Write cut off after 64 bytes, inside the address of its MAETAH. -/
def cutWrite : Packet where
  head := { lane1 := 0xB588 <<< 32, sop := true }
  rest := [{ lane1 := 3 <<< 16, eop := true }]
  sop_head := rfl
  sop_rest := by simp
  eop_last := ⟨rfl, rfl⟩

theorem not_selfContained_cutWrite : ¬SelfContained cutWrite :=
  not_selfContained_of_truncated (by decide) (by decide) (by decide)

end EthDecap

end OpenURMA
