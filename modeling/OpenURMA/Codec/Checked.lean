import OpenURMA.Codec.Decap
import OpenURMA.Codec.Encap
import OpenURMA.Library.Machine

/-!
# The codec at machine level

The codec handlers with `uint32_t` arithmetic and with every access to `hdrbuf[WIRE_MAX]` and
`wire[WIRE_MAX]` checked: a call that leaves the array faults. `Safe` is the invariant under which
no call does, and under which they agree with `EthDecap.handler` and `EthEncap.handler`.
-/

namespace OpenURMA

open Library Buffer Option Nat List

/-! ## Copy loop and chunks

Both elements append a flit to an array of `limit` octets filled up to `fill` the same way, and
read chunks from it the same way. -/

/-- The number of octets that the copy loop takes over. -/
def wrapCopy (limit fill : Nat) : Nat :=
  if wrapAdd fill 32 > limit then wrapSub limit fill else 32

section

variable {limit fill : Nat}

theorem wrapCopy_eq (bound : fill ≤ limit) (small : limit + 32 < 2 ^ 32) :
    wrapCopy limit fill = if fill + 32 > limit then limit - fill else 32 := by
  rw [wrapCopy, wrapAdd_of_lt (by omega), wrapSub_of_le bound (by omega)]

theorem wrapCopy_le (bound : fill ≤ limit) (small : limit + 32 < 2 ^ 32) :
    wrapCopy limit fill ≤ 32 ∧ fill + wrapCopy limit fill ≤ limit := by
  rw [wrapCopy_eq bound small]
  split <;> omega

theorem take_getData (f : Flit) {count : Nat} (short : count ≤ 32) :
    (f.getData 32).take count = f.getData count := by
  rw [Flit.getData, Flit.getData, ← map_take, take_range, min_eq_left short]

theorem store_wrapCopy (buffer : Buffer) (f : Flit) (bound : fill ≤ limit)
    (small : limit + 32 < 2 ^ 32) :
    buffer.store limit fill (f.getData (wrapCopy limit fill)) =
      some (buffer.blit fill ((f.getData 32).take (wrapCopy limit fill))) := by
  have fits := wrapCopy_le bound small
  rw [take_getData f fits.1, store_of_le (by simpa using fits.2)]

end

def wrapTake (total off : Nat) : Nat := if wrapSub total off > 32 then 32 else wrapSub total off

section

variable {total off limit : Nat}

theorem wrapTake_eq (inside : off ≤ total) (small : total < 2 ^ 32) :
    wrapTake total off = if total - off > 32 then 32 else total - off := by
  rw [wrapTake, wrapSub_of_le inside small]

theorem add_wrapTake_le (inside : off ≤ total) (small : total < 2 ^ 32) :
    off + wrapTake total off ≤ total := by
  rw [wrapTake_eq inside small]
  split <;> omega

theorem view_wrapTake (buffer : Buffer) (inside : off ≤ total) (small : total < 2 ^ 32)
    (bound : total ≤ limit) :
    buffer.view limit off (wrapTake total off) = some (buffer.window off (wrapTake total off)) :=
  view_of_le ((add_wrapTake_le inside small).trans bound)

end

namespace EthDecap

namespace Machine

section

variable (s : State)

/-- Phase 0: the copy loop writes `copy` octets from `hdrbytes` on. -/
def copyIn (f : Flit) : Option State := do
  let copy := wrapCopy wireMax s.hdrbytes
  let hdrbuf ← s.hdrbuf.store wireMax s.hdrbytes (f.getData copy)
  return { s with
    hdrbuf
    hdrbytes := wrapAdd s.hdrbytes copy
    sawEop := f.eop || s.sawEop }

def collect (f : Flit) : Option State :=
  copyIn (if f.sop then { s with hdrbytes := 0, inPacket := true, sawEop := false } else s) f

def readIf (hdrbuf : Buffer) (present : Bool) (size : Nat)
    (reader : Buffer → ExtCursor → ExtCursor) (c : ExtCursor) : Option ExtCursor :=
  if present then do
    let octets ← hdrbuf.view wireMax c.extOff size
    return reader octets c
  else some c

def parseExt (hdrbuf : Buffer) (b : Btah) : Option ExtCursor := do
  let mae := needsMae b.taop
  let c₁ ← readIf hdrbuf mae 16 readMaetah ⟨{}, 58⟩
  let c₂ ← readIf hdrbuf (mae && b.tven) 4 readTvetah c₁
  let c₃ ← readIf hdrbuf (b.mten || isSend b.taop) 4 readMtetah c₂
  readIf hdrbuf (isAtomic b.taop) 8 readOpData c₃

def lengthField (hdrbuf : Buffer) (b : Btah) : Option U32 :=
  if needsMae b.taop then do
    let mh ← hdrbuf.view wireMax 58 16
    return be32 (mh 70) (mh 71) (mh 72) (mh 73)
  else some 0

def parse : Option State := do
  let nth ← s.hdrbuf.view wireMax 14 11
  let tph ← s.hdrbuf.view wireMax 26 16
  let btah ← s.hdrbuf.view wireMax 42 11
  let n := parseNth fun i => nth (14 + i)
  let t := parseTph fun i => tph (26 + i)
  let b := parseBtah fun i => btah (42 + i)
  let c ← parseExt s.hdrbuf b
  let lengthField ← lengthField s.hdrbuf b
  let available := if s.hdrbytes > c.extOff then wrapSub s.hdrbytes c.extOff else 0
  let payloadBytes :=
    if 0 < lengthField ∧ available > lengthField.toNat then lengthField.toNat
    else available
  return { s with
    cachedMeta := buildMeta n t b
    cachedExt := c.ext
    needsExt := needsMae b.taop || (b.mten || isSend b.taop)
    hdrEnd := c.extOff
    hasPayload := decide (payloadBytes > 0)
    payloadTotal := payloadBytes
    payloadOff := if payloadBytes > 0 then c.extOff else s.payloadOff
    phase := .emitMeta }

def complete : Option State :=
  if s.hdrbytes < 58 then some s
  else do
    let etype ← s.hdrbuf.view wireMax 12 2
    if be16 (etype 12) (etype 13) != ubEthertype then
      return { s with inPacket := false, hdrbytes := 0 }
    else parse s

def accumulate (f : Flit) : Option State := do
  let s₁ ← collect s f
  if !s₁.sawEop then return s₁ else complete s₁

def emitPayload : Option (Reply State Flit) := do
  let off := s.payloadOff
  let total := wrapAdd s.hdrEnd s.payloadTotal
  let take := wrapTake total off
  let octets ← s.hdrbuf.view wireMax off take
  let last := decide (wrapAdd off take ≥ total)
  let out := ((Flit.ofData (octets.slice off take)).setSop false).setEop last
  let next := if last then payloadDone s else { s with payloadOff := wrapAdd off take }
  return ⟨next, false, some out⟩

end

def handler : Faulting State Flit Flit := fun s offered =>
  match s.phase, offered with
  | .emitMeta, _ => some ⟨metaNext s, false, some (metaFlit s)⟩
  | .emitExt, _ => some ⟨extNext s, false, some (extFlit s)⟩
  | .emitPayload, _ => emitPayload s
  | .accumulate, none => some ⟨s, false, none⟩
  | .accumulate, some f => (accumulate s f).map (⟨·, true, none⟩)

end Machine

/-- The payload still to be emitted lies behind the fixed headers and inside the buffer. -/
structure PayloadBounds (s : State) : Prop where
  behind : 58 ≤ s.payloadOff
  remains : s.payloadOff < s.hdrEnd + s.payloadTotal
  inside : s.hdrEnd + s.payloadTotal ≤ wireMax

/-- The counts stay inside `hdrbuf`, and payload is emitted only if there is some. -/
structure Safe (s : State) : Prop where
  filled : s.hdrbytes ≤ wireMax
  payload : s.phase ≠ .accumulate → s.hasPayload = true → PayloadBounds s
  present : s.phase = .emitPayload → s.hasPayload = true

theorem safe_init (hdrbuf : Buffer) : Safe (init hdrbuf) :=
  ⟨zero_le _, fun busy => (busy rfl).elim, fun busy => by cases busy⟩

variable {s : State}

theorem safe_of_accumulate (filled : s.hdrbytes ≤ wireMax) (waiting : s.phase = .accumulate) :
    Safe s :=
  ⟨filled, fun busy => (busy waiting).elim, fun busy => by simp [waiting] at busy⟩

theorem safe_finish (s : State) : Safe (finish s) := safe_of_accumulate (zero_le _) rfl

theorem hdrbytes_collect (s : State) (f : Flit) (filled : s.hdrbytes ≤ wireMax) :
    (collect s f).hdrbytes ≤ wireMax := by
  unfold collect
  cases f.sop with
  | true => simp [wireMax]
  | false =>
    simp only [Bool.false_eq_true, ↓reduceIte]
    split <;> omega

theorem window_offset (hdrbuf : Buffer) {offset size index : Nat} (inside : index < size) :
    hdrbuf.window offset size (offset + index) = hdrbuf (offset + index) :=
  window_apply (by omega) (by omega)

/-! A reader sees only the octets of its header. -/

section

variable {seen hdrbuf : Buffer} {c : ExtCursor}

theorem readMaetah_congr
    (agree : ∀ index < 16, seen (c.extOff + index) = hdrbuf (c.extOff + index)) :
    readMaetah seen c = readMaetah hdrbuf c := by
  have address : (List.range 8).map (fun index => seen (c.extOff + index)) =
      (List.range 8).map fun index => hdrbuf (c.extOff + index) :=
    map_congr_left fun index member => agree index (by rw [mem_range] at member; omega)
  simp (disch := decide) only [readMaetah, address, agree]

section

variable (agree : ∀ index < 4, seen (c.extOff + index) = hdrbuf (c.extOff + index))
include agree

theorem readTvetah_congr : readTvetah seen c = readTvetah hdrbuf c := by
  simp (disch := decide) only [readTvetah, agree]

theorem readMtetah_congr : readMtetah seen c = readMtetah hdrbuf c := by
  simp (disch := decide) only [readMtetah, agree]

end

theorem readOpData_congr
    (agree : ∀ index < 8, seen (c.extOff + index) = hdrbuf (c.extOff + index)) :
    readOpData seen c = readOpData hdrbuf c := by
  have operand : (List.range 8).map (fun index => seen (c.extOff + index)) =
      (List.range 8).map fun index => hdrbuf (c.extOff + index) :=
    map_congr_left fun index member => agree index (mem_range.mp member)
  simp only [readOpData, operand]

theorem machine_readIf (hdrbuf : Buffer) {reader : Buffer → ExtCursor → ExtCursor}
    {size low high : Nat}
    (within : low ≤ c.extOff ∧ c.extOff ≤ high) (present : Bool)
    (moves : (reader hdrbuf c).extOff = c.extOff + size) (inside : high + size ≤ wireMax)
    (reads : ∀ {seen : Buffer},
      (∀ index < size, seen (c.extOff + index) = hdrbuf (c.extOff + index)) →
        reader seen c = reader hdrbuf c) :
    Machine.readIf hdrbuf present size reader c = some (c.readIf present (reader hdrbuf)) ∧
      low ≤ (c.readIf present (reader hdrbuf)).extOff ∧
        (c.readIf present (reader hdrbuf)).extOff ≤ high + size := by
  cases present with
  | true =>
    simp only [Machine.readIf, if_true, view_of_le (show c.extOff + size ≤ wireMax by omega),
      ExtCursor.readIf, moves]
    exact ⟨congrArg some (reads fun index => window_offset hdrbuf), by omega⟩
  | false => exact ⟨rfl, within.1, within.2.trans (le_add_right _ _)⟩

end

theorem machine_parseExt (hdrbuf : Buffer) (b : Btah) :
    Machine.parseExt hdrbuf b = some (parseExt hdrbuf b) ∧
      58 ≤ (parseExt hdrbuf b).extOff ∧ (parseExt hdrbuf b).extOff ≤ 90 := by
  obtain ⟨mae, within₁⟩ := machine_readIf hdrbuf (c := ⟨{}, 58⟩) ⟨le_refl 58, le_refl 58⟩
    (needsMae b.taop) rfl (by decide) readMaetah_congr
  obtain ⟨tv, within₂⟩ := machine_readIf hdrbuf within₁ (needsMae b.taop && b.tven) rfl (by decide)
    readTvetah_congr
  obtain ⟨mt, within₃⟩ := machine_readIf hdrbuf within₂ (b.mten || isSend b.taop) rfl (by decide)
    readMtetah_congr
  obtain ⟨op, within₄⟩ := machine_readIf hdrbuf within₃ (isAtomic b.taop) rfl (by decide)
    readOpData_congr
  simp only [Machine.parseExt, mae, tv, mt, bind_eq_bind, bind_some]
  exact ⟨op, within₄⟩

theorem payloadTotal_parse_le (s : State) :
    (parse s).payloadTotal ≤ s.hdrbytes - (parse s).hdrEnd := by
  simp only [parse]
  split <;> split <;> omega

section

variable (filled : s.hdrbytes ≤ wireMax)
include filled

theorem payloadBounds_parse (payload : (parse s).hasPayload = true) : PayloadBounds (parse s) := by
  let b := parseBtah fun i => s.hdrbuf (42 + i)
  have bounds := (machine_parseExt s.hdrbuf b).2
  have positive : 0 < (parse s).payloadTotal := of_decide_eq_true payload
  have start : (parse s).payloadOff = (parse s).hdrEnd := if_pos positive
  have header : (parse s).hdrEnd = (parseExt s.hdrbuf b).extOff := rfl
  have arrived := payloadTotal_parse_le s
  exact ⟨by omega, by omega, by omega⟩

theorem safe_parse : Safe (parse s) :=
  ⟨filled, fun _ => payloadBounds_parse filled, fun busy => by cases busy⟩

theorem safe_accumulate (waiting : s.phase = .accumulate) (f : Flit) : Safe (accumulate s f) := by
  have waiting' : (collect s f).phase = .accumulate := (phase_collect s f).trans waiting
  have filled' := hdrbytes_collect s f filled
  have collected := safe_of_accumulate filled' waiting'
  unfold accumulate complete
  dsimp only
  split
  · exact collected
  · split
    · exact collected
    · split
      · exact safe_of_accumulate (zero_le _) waiting'
      · exact safe_parse filled'

theorem safe_extNext (bounds : s.hasPayload = true → PayloadBounds s) : Safe (extNext s) := by
  unfold extNext
  split
  · next payload =>
    have here := bounds payload
    exact ⟨filled, fun _ _ => ⟨here.behind, here.remains, here.inside⟩, fun _ => payload⟩
  · exact safe_finish s

theorem safe_metaNext (bounds : s.hasPayload = true → PayloadBounds s) : Safe (metaNext s) := by
  unfold metaNext
  split
  · refine ⟨filled, fun _ payload => ?_, fun busy => by cases busy⟩
    have here := bounds payload
    exact ⟨here.behind, here.remains, here.inside⟩
  · exact safe_extNext filled bounds

end

theorem safe_payloadNext (emitting : s.phase = .emitPayload) (safe : Safe s) :
    Safe (payloadNext s) := by
  have payload := safe.present emitting
  have bounds := safe.payload (by simp [emitting]) payload
  simp only [payloadNext]
  by_cases more : s.hdrEnd + s.payloadTotal - s.payloadOff > 32
  · rw [if_pos more, if_neg (by omega)]
    refine ⟨safe.filled, fun _ _ => ⟨?_, ?_, bounds.inside⟩, fun _ => payload⟩
    · exact bounds.behind.trans (le_add_right _ _)
    · change s.payloadOff + 32 < s.hdrEnd + s.payloadTotal
      omega
  · rw [if_neg more, if_pos (by omega)]
    exact safe_of_accumulate (zero_le _) rfl

theorem Safe.handler (safe : Safe s) (offered : Option Flit) : Safe (handler s offered).state := by
  have bounds := safe.payload
  cases phase : s.phase with
  | emitMeta =>
    simp only [EthDecap.handler, phase]
    exact safe_metaNext safe.filled (bounds (by simp [phase]))
  | emitExt =>
    simp only [EthDecap.handler, phase]
    exact safe_extNext safe.filled (bounds (by simp [phase]))
  | emitPayload =>
    simp only [EthDecap.handler, phase]
    exact safe_payloadNext phase safe
  | accumulate =>
    cases offered with
    | none =>
      simp only [EthDecap.handler, phase]
      exact safe
    | some f =>
      rw [handler_accumulate phase]
      exact safe_accumulate safe.filled phase f

theorem machine_copyIn (filled : s.hdrbytes ≤ wireMax) (f : Flit) : Machine.copyIn s f = some
      (let copy := if s.hdrbytes + 32 > wireMax then wireMax - s.hdrbytes else 32
      { s with
        hdrbuf := s.hdrbuf.blit s.hdrbytes ((f.getData 32).take copy)
        hdrbytes := s.hdrbytes + copy
        sawEop := f.eop || s.sawEop }) := by
  have small : wireMax + 32 < 2 ^ 32 := by decide
  have fits := (wrapCopy_le filled small).2
  simp only [Machine.copyIn, store_wrapCopy s.hdrbuf f filled small, ← wrapCopy_eq filled small]
  rw [wrapAdd_of_lt (by omega)]
  rfl

theorem machine_collect (filled : s.hdrbytes ≤ wireMax) (f : Flit) :
    Machine.collect s f = some (collect s f) := by
  refine machine_copyIn ?_ f
  split
  · exact zero_le _
  · exact filled

theorem machine_lengthField (hdrbuf : Buffer) (b : Btah) :
    Machine.lengthField hdrbuf b = some (lengthField hdrbuf b) := by
  have inside : 58 + 16 ≤ wireMax := by decide
  unfold Machine.lengthField lengthField
  split
  · rw [view_of_le inside]
    rfl
  · rfl

theorem machine_parse (filled : s.hdrbytes ≤ wireMax) : Machine.parse s = some (parse s) := by
  have nth : (parseNth fun i => s.hdrbuf.window 14 11 (14 + i)) =
      parseNth fun i => s.hdrbuf (14 + i) := by
    simp (disch := decide) only [parseNth, window_offset]
  have tph : (parseTph fun i => s.hdrbuf.window 26 16 (26 + i)) =
      parseTph fun i => s.hdrbuf (26 + i) := by
    simp (disch := decide) only [parseTph, window_offset]
  have btah : (parseBtah fun i => s.hdrbuf.window 42 11 (42 + i)) =
      parseBtah fun i => s.hdrbuf (42 + i) := by
    simp (disch := decide) only [parseBtah, window_offset]
  have available : ∀ ext : Nat, (if s.hdrbytes > ext then wrapSub s.hdrbytes ext else 0) =
      if s.hdrbytes > ext then s.hdrbytes - ext else 0 := by
    intro ext
    have : s.hdrbytes ≤ 384 := filled
    split
    · exact wrapSub_of_le (by omega) (by omega)
    · rfl
  unfold Machine.parse
  rw [view_of_le (by decide), view_of_le (by decide), view_of_le (by decide)]
  simp only [bind_eq_bind, bind_some, nth, tph, btah, (machine_parseExt _ _).1,
    machine_lengthField, available]
  rfl

theorem machine_complete (filled : s.hdrbytes ≤ wireMax) :
    Machine.complete s = some (complete s) := by
  have view : s.hdrbuf.view wireMax 12 2 = some (s.hdrbuf.window 12 2) :=
    view_of_le (by decide)
  unfold Machine.complete complete
  rw [view, machine_parse filled]
  split
  · rfl
  · change (if be16 (s.hdrbuf 12) (s.hdrbuf 13) != ubEthertype then _ else _) = _
    split <;> rfl

theorem machine_accumulate (filled : s.hdrbytes ≤ wireMax) (f : Flit) :
    Machine.accumulate s f = some (accumulate s f) := by
  simp only [Machine.accumulate, machine_collect filled, bind_eq_bind, bind_some,
    machine_complete (hdrbytes_collect s f filled), accumulate]
  split <;> rfl

theorem machine_emitPayload (bounds : PayloadBounds s) :
    Machine.emitPayload s = some ⟨payloadNext s, false, some (payloadFlit s)⟩ := by
  have inside : s.hdrEnd + s.payloadTotal ≤ 384 := bounds.inside
  have started := bounds.remains.le
  have small : s.hdrEnd + s.payloadTotal < 2 ^ 32 := by omega
  have next := add_wrapTake_le started small
  simp only [Machine.emitPayload, payloadNext, payloadFlit, wrapAdd_of_lt small,
    ← wrapTake_eq started small]
  rw [view_wrapTake s.hdrbuf started small bounds.inside, wrapAdd_of_lt (by omega)]
  simp only [bind_eq_bind, bind_some, slice_window, decide_eq_true_eq]
  rfl

theorem implements : Machine.handler.Implements handler Safe := by
  refine ⟨fun {s} safe offered => ?_, fun safe offered => safe.handler offered⟩
  unfold Machine.handler handler
  cases phase : s.phase with
  | emitMeta | emitExt => rfl
  | emitPayload =>
    have bounds := safe.payload (by simp [phase]) (safe.present phase)
    exact machine_emitPayload bounds
  | accumulate =>
    cases offered with
    | none => rfl
    | some f =>
      dsimp only
      rw [machine_accumulate safe.filled f]
      rfl

end EthDecap

namespace EthEncap

namespace Machine

section

variable (s : State)

def append (octets : List Byte) : Option State := do
  let wire ← s.wire.store wireMax s.wireLen octets
  return { s with wire, wireLen := wrapAdd s.wireLen octets.length }

def appendIf (present : Bool) (octets : List Byte) : Option State :=
  if present then append s octets else some s

def buildHeaders (f : Flit) : Option State := do
  let wire ← s.wire.store wireMax 0 (headerBytes f)
  return { EthEncap.buildHeaders s f with wire }

def appendExtension (f : Flit) : Option State := do
  let s₁ ← appendIf s s.needsMae (maetahBytes f)
  let s₂ ← appendIf s₁ (s.needsMae && s.tvEnCache) (tvetahBytes f)
  let s₃ ← appendIf s₂ s.needsMt (mtetahBytes f)
  appendIf s₃ (isAtomic s.taopCache) (opDataBytes f)

def buildExtension (f : Flit) : Option State := do
  let s₁ ← appendExtension s f
  if wantsPayload s f then return { s₁ with emitMode := .payload }
  else return { s₁ with emitMode := .drain, emitOffset := 0 }

def collectPayload (f : Flit) : Option State := do
  let copy := wrapCopy wireMax s.wireLen
  let wire ← s.wire.store wireMax s.wireLen (f.getData copy)
  let s₁ : State := { s with wire, wireLen := wrapAdd s.wireLen copy }
  return if f.eop then { s₁ with emitMode := .drain, emitOffset := 0 } else s₁

def drain : Option (Reply State Flit) := do
  let off := s.emitOffset
  let take := wrapTake s.wireLen off
  let octets ← s.wire.view wireMax off take
  let last := decide (wrapAdd off take ≥ s.wireLen)
  let out := ((Flit.ofData (octets.slice off take)).setSop (off == 0)).setEop last
  let next := if last then drained s else { s with emitOffset := wrapAdd off take }
  return ⟨next, false, some out⟩

end

def handler : Faulting State Flit Flit := fun s offered =>
  match s.emitMode, offered with
  | .drain, _ => drain s
  | _, none => some ⟨s, false, none⟩
  | .payload, some f => (collectPayload s f).map (⟨·, true, none⟩)
  | .build, some f =>
    if f.sop then (buildHeaders s f).map (⟨·, true, none⟩)
    else if s.inPacket then (buildExtension s f).map (⟨·, true, none⟩)
    else some ⟨s, true, none⟩

end Machine

/-- The buffer holds the fixed headers, and nothing else while the extension flit is awaited. -/
structure Safe (s : State) : Prop where
  filled : s.wireLen ≤ wireMax
  building : s.emitMode = .build → s.inPacket = true → s.wireLen = 58
  headers : s.emitMode ≠ .build → 58 ≤ s.wireLen
  draining : s.emitMode = .drain → s.emitOffset < s.wireLen

variable {s : State}

theorem safe_of_idle (filled : s.wireLen ≤ wireMax) (idle : Idle s) : Safe s where
  filled := filled
  building _ busy := by simp [idle.2] at busy
  headers busy := (busy idle.1).elim
  draining busy := by simp [idle.1] at busy

theorem safe_init (wire : Buffer) : Safe (init wire) := safe_of_idle (zero_le _) ⟨rfl, rfl⟩

theorem safe_drained (s : State) : Safe (drained s) :=
  safe_of_idle (zero_le _) (idle_drained s)

theorem safe_of_filled (headers : 58 ≤ s.wireLen) (filled : s.wireLen ≤ wireMax)
    (busy : s.emitMode ≠ .build) (start : s.emitMode = .drain → s.emitOffset = 0) : Safe s :=
  ⟨filled, fun mode => (busy mode).elim, fun _ => headers, fun mode => by
    rw [start mode]
    omega⟩

theorem safe_buildHeaders (s : State) (f : Flit) : Safe (buildHeaders s f) := by
  have filled : 58 ≤ wireMax := by decide
  refine ⟨filled, fun _ _ => rfl, fun _ => le_refl 58, fun draining => ?_⟩
  cases last : f.eop with
  | true => simp [buildHeaders, last]
  | false => simp [buildHeaders, last] at draining

theorem machine_appendIf {low high : Nat} (within : low ≤ s.wireLen ∧ s.wireLen ≤ high)
    (present : Bool) (octets : List Byte) (fits : high + octets.length ≤ wireMax) :
    Machine.appendIf s present octets = some (s.appendIf present octets) ∧
      low ≤ (s.appendIf present octets).wireLen ∧
        (s.appendIf present octets).wireLen ≤ high + octets.length := by
  have small : high + octets.length ≤ 384 := fits
  cases present with
  | true =>
    simp only [Machine.appendIf, Machine.append, if_true, State.appendIf,
      store_of_le (show s.wireLen + octets.length ≤ wireMax by omega)]
    rw [wrapAdd_of_lt (by omega)]
    exact ⟨rfl, by change _ ≤ s.wireLen + _ ∧ s.wireLen + _ ≤ _; omega⟩
  | false => exact ⟨rfl, within.1, within.2.trans (le_add_right _ _)⟩

theorem machine_appendExtension (started : s.wireLen = 58) (f : Flit) :
    Machine.appendExtension s f = some (appendExtension s f) ∧
      58 ≤ (appendExtension s f).wireLen ∧ (appendExtension s f).wireLen ≤ 90 := by
  have mae := maetahBytes_length f
  have tv := tvetahBytes_length f
  have mt := mtetahBytes_length f
  have op := opDataBytes_length f
  obtain ⟨first, within₁⟩ := machine_appendIf ⟨started.ge, started.le⟩ s.needsMae
    (maetahBytes f) (by rw [mae]; decide)
  obtain ⟨second, within₂⟩ := machine_appendIf within₁ (s.needsMae && s.tvEnCache)
    (tvetahBytes f) (by rw [mae, tv]; decide)
  obtain ⟨third, within₃⟩ := machine_appendIf within₂ s.needsMt (mtetahBytes f)
    (by rw [mae, tv, mt]; decide)
  obtain ⟨last, within₄⟩ := machine_appendIf within₃ (isAtomic s.taopCache)
    (opDataBytes f) (by rw [mae, tv, mt, op]; decide)
  rw [mae, tv, mt, op] at within₄
  simp only [Machine.appendExtension, first, second, third, bind_eq_bind, bind_some]
  exact ⟨last, within₄⟩

theorem safe_buildExtension (started : s.wireLen = 58) (f : Flit) : Safe (buildExtension s f) := by
  obtain ⟨_, headers, bound⟩ := machine_appendExtension started f
  have filled : (appendExtension s f).wireLen ≤ wireMax := by rw [wireMax]; omega
  unfold buildExtension
  split
  · exact safe_of_filled headers filled (by simp) (fun draining => by cases draining)
  · exact safe_of_filled headers filled (by simp) (fun _ => rfl)

theorem wireLen_collectPayload (s : State) (f : Flit) : (collectPayload s f).wireLen =
      s.wireLen + if s.wireLen + 32 > wireMax then wireMax - s.wireLen else 32 := by
  unfold collectPayload
  cases f.eop <;> rfl

theorem safe_collectPayload (collecting : s.emitMode = .payload) (safe : Safe s) (f : Flit) :
    Safe (collectPayload s f) := by
  have headers := safe.headers (by simp [collecting])
  have filled := safe.filled
  have fill : 58 ≤ (collectPayload s f).wireLen ∧ (collectPayload s f).wireLen ≤ wireMax := by
    rw [wireLen_collectPayload]
    split <;> omega
  refine safe_of_filled fill.1 fill.2 ?_ ?_
  · unfold collectPayload
    cases f.eop <;> simp [collecting]
  · unfold collectPayload
    cases f.eop <;> simp [collecting]

theorem safe_drainNext (draining : s.emitMode = .drain) (safe : Safe s) : Safe (drainNext s) := by
  have inside := safe.draining draining
  simp only [drainNext]
  by_cases more : s.wireLen - s.emitOffset > 32
  · rw [if_pos more, if_neg (by omega)]
    refine ⟨safe.filled, safe.building, safe.headers, fun _ => ?_⟩
    change s.emitOffset + 32 < s.wireLen
    omega
  · rw [if_neg more, if_pos (by omega)]
    exact safe_drained s

theorem handler_payload (collecting : s.emitMode = .payload) (f : Flit) :
    handler s (some f) = ⟨collectPayload s f, true, none⟩ := by
  simp only [handler, collecting]

theorem Safe.handler (safe : Safe s) (offered : Option Flit) : Safe (handler s offered).state := by
  cases mode : s.emitMode with
  | drain =>
    rw [handler_drain mode]
    exact safe_drainNext mode safe
  | payload =>
    cases offered with
    | none =>
      simp only [EthEncap.handler, mode]
      exact safe
    | some f =>
      rw [handler_payload mode]
      exact safe_collectPayload mode safe f
  | build =>
    cases offered with
    | none =>
      simp only [EthEncap.handler, mode]
      exact safe
    | some f =>
      simp only [EthEncap.handler, mode]
      split
      · exact safe_buildHeaders s f
      · split
        · next within => exact safe_buildExtension (safe.building mode within) f
        · exact safe

theorem machine_buildHeaders (s : State) (f : Flit) :
    Machine.buildHeaders s f = some (buildHeaders s f) := by
  have fits : 0 + (headerBytes f).length ≤ wireMax := by
    rw [headerBytes_length]
    decide
  rw [Machine.buildHeaders, store_of_le fits]
  rfl

theorem machine_buildExtension (started : s.wireLen = 58) (f : Flit) :
    Machine.buildExtension s f = some (buildExtension s f) := by
  rw [Machine.buildExtension, (machine_appendExtension started f).1]
  simp only [bind_eq_bind, bind_some, buildExtension]
  split <;> rfl

theorem machine_collectPayload (filled : s.wireLen ≤ wireMax) (f : Flit) :
    Machine.collectPayload s f = some (collectPayload s f) := by
  have small : wireMax + 32 < 2 ^ 32 := by decide
  have fits := (wrapCopy_le filled small).2
  simp only [Machine.collectPayload, collectPayload, store_wrapCopy s.wire f filled small,
    ← wrapCopy_eq filled small]
  rw [wrapAdd_of_lt (by omega)]
  rfl

theorem machine_drain (filled : s.wireLen ≤ wireMax) (inside : s.emitOffset < s.wireLen) :
    Machine.drain s = some ⟨drainNext s, false, some (drainFlit s)⟩ := by
  have bound : s.wireLen ≤ 384 := filled
  have small : s.wireLen < 2 ^ 32 := by omega
  have next := add_wrapTake_le inside.le small
  simp only [Machine.drain, drainNext, drainFlit, ← wrapTake_eq inside.le small]
  rw [view_wrapTake s.wire inside.le small filled, wrapAdd_of_lt (by omega)]
  simp only [bind_eq_bind, bind_some, slice_window, decide_eq_true_eq]
  rfl

theorem implements : Machine.handler.Implements handler Safe := by
  refine ⟨fun {s} safe offered => ?_, fun safe offered => safe.handler offered⟩
  unfold Machine.handler handler
  cases mode : s.emitMode with
  | drain =>
    exact machine_drain safe.filled (safe.draining mode)
  | payload =>
    cases offered with
    | none => rfl
    | some f =>
      dsimp only
      rw [machine_collectPayload safe.filled f]
      rfl
  | build =>
    cases offered with
    | none => rfl
    | some f =>
      dsimp only
      rw [machine_buildHeaders]
      split
      · rfl
      · split
        · next within =>
          rw [machine_buildExtension (safe.building mode within)]
          rfl
        · rfl

end EthEncap

end OpenURMA
