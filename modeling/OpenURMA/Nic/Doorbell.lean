import OpenURMA.Nic.Posting

/-!
# Doorbells

Every context has a window of 64 octets for work requests and one for receives. `mmio_b` collects
the stores to a window and acts when the last octets have come. A context's requests are decoded in
the order in which it posts them, however its stores are mixed with those of others.
-/

namespace OpenURMA.Nic

open Library BitField Function Buffer Mealy List BitVec Nat

structure Slot where
  assembly : Buffer
  metaFlit : Buffer
  haveMeta : Bool

def wordAt (buffer : Buffer) (offset : ℕ) : U64 := littleEndian (buffer.slice offset 8)

def word32At (buffer : Buffer) (offset : ℕ) : U32 :=
  (littleEndian (buffer.slice offset 4)).setWidth 32

/-- The fields of a work request that `mmio_b` reads from its two flits. -/
def decodeWr (metaFlit fb : Buffer) : Wr :=
  let a3 := wordAt fb 24
  let a7 := wordAt fb 56
  { op := metaFlit 24
    order := metaFlit 28
    dcna := (wordAt metaFlit 0 &&& 0xFFFFFF).setWidth 32
    sendJfc := word32At metaFlit 8
    remVa := wordAt fb 0
    locVa := wordAt fb 8
    cmp := wordAt fb 16
    remTok := a3.setWidth 32
    locTok := (a3 >>> 32).setWidth 32
    uctx := wordAt fb 40
    val := wordAt fb 48
    len := a7.setWidth 32
    imm := (a7 >>> 32).setWidth 32 }

def Slot.fire (slot : Slot) : Slot × Option Wr :=
  let isSop := slot.assembly 32 &&& 0x01 != 0
  let isEop := slot.assembly 32 &&& 0x02 != 0
  let metaFlit := if isSop then slot.assembly else slot.metaFlit
  let haveMeta := isSop || slot.haveMeta
  (⟨fun _ => 0, metaFlit, haveMeta && !isEop⟩,
    if isEop && haveMeta then some (decodeWr metaFlit slot.assembly) else none)

def Slot.store (slot : Slot) (offset : ℕ) (word : U64) : Slot × Option Wr :=
  let slot := { slot with assembly := slot.assembly.blit offset (wordOctets word) }
  if offset + 8 = 64 then slot.fire else (slot, none)

def decodeRecv (ctx : ℕ) (assembly : Buffer) : Recv :=
  { va := wordAt assembly 0
    uctx := wordAt assembly 8
    tok := (wordAt assembly 16).setWidth 32
    jetty := (wordAt assembly 24).setWidth 32
    ctx
    jfc := (wordAt assembly 32).setWidth 32 }

/-- The region in the registration window; `ttbr0` is the root of the page table of the process
that is running. -/
def decodeMr (assembly : Buffer) (ttbr0 : U64) : U32 × MrEntry :=
  let l1 := wordAt assembly 8
  let mrlen64 := wordAt assembly 16
  let mrlen := if mrlen64 != 0 then mrlen64 else (l1 >>> 32).setWidth 32 |>.setWidth 64
  (l1.setWidth 32, ⟨wordAt assembly 0, mrlen, ttbr0⟩)

structure Device where
  node : Node
  slots : ℕ → Slot
  recvDbAssembly : ℕ → Buffer
  regmrAssembly : Buffer
  ttbr0 : U64

/-- What a store leads to: the work request decoded, with its context, and the effects. -/
structure Answer where
  decoded : Option (ℕ × Wr) := none
  effects : List Effect := []

/-- A store to the work-request window of a context. -/
def Device.doorbell (d : Device) (ctx offset : ℕ) (word : U64) : Device × Answer :=
  let stored := (d.slots ctx).store offset word
  let d := { d with slots := update d.slots ctx stored.1 }
  match stored.2 with
  | none => (d, {})
  | some w =>
    let executed := execute d.node ctx w
    ({ d with node := executed.1 }, ⟨some (ctx, w), executed.2⟩)

def Device.recvDb (d : Device) (ctx offset : ℕ) (word : U64) : Device × Answer :=
  let assembly := (d.recvDbAssembly ctx).blit offset (wordOctets word)
  if offset + 8 = 64 then
    let posted := recvDoorbell d.node (decodeRecv ctx assembly)
    ({ d with
        node := posted.1
        recvDbAssembly := update d.recvDbAssembly ctx fun _ => 0 }, ⟨none, posted.2⟩)
  else ({ d with recvDbAssembly := update d.recvDbAssembly ctx assembly }, {})

def Device.regmr (d : Device) (offset : ℕ) (word : U64) : Device × Answer :=
  let assembly := d.regmrAssembly.blit offset (wordOctets word)
  if offset + 8 = 64 then
    let mr := decodeMr assembly d.ttbr0
    let guest := { d.node.guest with mrTable := update d.node.guest.mrTable mr.1 (some mr.2) }
    ({ d with node := { d.node with guest }, regmrAssembly := fun _ => 0 }, {})
  else ({ d with regmrAssembly := assembly }, {})

def mmioB (d : Device) (s : Store) : Device × Answer :=
  if 0xC100 ≤ s.off ∧ s.off - 0xC100 + 8 ≤ 64 then d.regmr (s.off - 0xC100) s.word
  else if s.off < 64 * 0x100 then
    let ctx := s.off / 0x100
    let offset := s.off % 0x100
    if offset + 8 ≤ 64 then d.doorbell ctx offset s.word
    else if 0x80 ≤ offset ∧ offset - 0x80 + 8 ≤ 64 then d.recvDb ctx (offset - 0x80) s.word
    else (d, {})
  else (d, {})

variable {words : List U64}

section

variable {base : ℕ}

structure Collects {σ ω : Type*} (step : Mealy σ Store ω) (base : ℕ) (window : Buffer → σ)
    (fire : Buffer → σ × ω) (quiet : ω) : Prop where
  early : ∀ buffer i word, i < 7 →
    step (window buffer) ⟨base + 8 * i, word⟩ =
      (window (buffer.blit (8 * i) (wordOctets word)), quiet)
  last : ∀ buffer word,
    step (window buffer) ⟨base + 8 * 7, word⟩ = fire (buffer.blit (8 * 7) (wordOctets word))

theorem blit_word (buffer : Buffer) (i : ℕ) (word : U64) (words : List U64) :
    (buffer.blit (8 * i) (wordOctets word)).blit (8 * (i + 1)) (words.flatMap wordOctets) =
      buffer.blit (8 * i) ((word :: words).flatMap wordOctets) := by
  rw [flatMap_cons, blit_append, wordOctets_length]
  rfl

section

variable {σ ω : Type*} {step : Mealy σ Store ω} {window : Buffer → σ} {fire : Buffer → σ × ω}
variable {quiet : ω} (collects : Collects step base window fire quiet)
include collects

theorem Collects.run_from
    (buffer : Buffer) {i : ℕ} (more : words ≠ []) (length : i + words.length = 8) :
    step.trace (window buffer) (flitStores base i words) = replicate (words.length - 1) quiet ++
          [(fire (buffer.blit (8 * i) (words.flatMap wordOctets))).2] ∧
      step.final (window buffer) (flitStores base i words) =
        (fire (buffer.blit (8 * i) (words.flatMap wordOctets))).1 := by
  induction words generalizing i buffer with
  | nil => exact absurd rfl more
  | cons word words ih =>
    cases words with
    | nil =>
      obtain rfl : i = 7 := by simpa using length
      simp [flitStores, collects.last]
    | cons next words =>
      have early : i < 7 := by
        simp only [length_cons] at length
        omega
      have shorter : i + 1 + (next :: words).length = 8 := by
        rw [length_cons] at length
        omega
      obtain ⟨trace, final⟩ :=
        ih (buffer.blit (8 * i) (wordOctets word)) (cons_ne_nil next words) shorter
      rw [blit_word] at trace final
      rw [flitStores, trace_cons, final_cons, collects.early buffer i word early, trace, final]
      exact ⟨rfl, rfl⟩

theorem Collects.run (buffer : Buffer) (length : words.length = 8) :
    step.trace (window buffer) (flitStores base 0 words) =
        replicate 7 quiet ++ [(fire (buffer.blit 0 (words.flatMap wordOctets))).2] ∧
      step.final (window buffer) (flitStores base 0 words) =
        (fire (buffer.blit 0 (words.flatMap wordOctets))).1 := by
  have more : words ≠ [] := ne_nil_of_length_pos (by omega)
  have run := collects.run_from buffer more (show 0 + words.length = 8 by omega)
  rwa [length, Nat.mul_zero] at run

end

/-- The stores of one context, as its window sees them. -/
def Slot.step : Mealy Slot Store (Option Wr) := fun slot s => slot.store (s.off % 0x100) s.word

theorem Slot.collects (slot : Slot) (aligned : base % 0x100 = 0) :
    Collects Slot.step base (fun buffer => { slot with assembly := buffer })
      (fun buffer => { slot with assembly := buffer }.fire) none where
  early buffer i word small := by
    have offset : (base + 8 * i) % 0x100 = 8 * i := by omega
    have early : ¬8 * i + 8 = 64 := by omega
    simp only [Slot.step, Slot.store, offset, early, if_false]
  last buffer word := by
    have offset : (base + 8 * 7) % 0x100 = 8 * 7 := by omega
    simp only [Slot.step, Slot.store, offset, if_true]

end

section

theorem dcna_of_lane (w : Wr) (tassn : U16) (narrow : w.dcna.toNat < 2 ^ 24) :
    ((metaLanes w tassn).getD 0 0 &&& 0xFFFFFF).setWidth 32 = w.dcna := by
  have mask : (0xFFFFFF : U64) = BitField.mask 64 24 := by decide
  apply eq_of_getLsbD_eq
  intro index inside
  simp only [metaLanes, getD_cons_zero, mask, getLsbD_setWidth, getLsbD_and,
    getLsbD_mask]
  rw [getLsbD_set (by decide), getLsbD_set (by decide), getLsbD_set (by decide)]
  by_cases low : index < 24
  · simp [inside, low, show index < 64 by omega, show ¬63 ≤ index by omega,
      show ¬60 ≤ index by omega]
  · have high : w.dcna.getLsbD index = false :=
      testBit_lt_two_pow (lt_of_lt_of_le narrow (Nat.pow_le_pow_right (by omega) (by omega)))
    simp [low, high]

theorem sendJfc_of_lane (w : Wr) (tassn : U16) :
    (littleEndian ((wordOctets ((metaLanes w tassn).getD 1 0)).take 4)).setWidth 32 =
      w.sendJfc := by
  apply eq_of_getLsbD_eq
  intro index inside
  rw [getLsbD_setWidth, getLsbD_littleEndian_take _ (by omega)]
  simp only [metaLanes, getD_cons_succ, getD_cons_zero]
  rw [getLsbD_set (by decide)]
  simp [inside, show index / 8 < 4 by omega, show index < 64 by omega]

theorem op_of_lane (w : Wr) (tassn : U16) :
    Library.octet 0 ((metaLanes w tassn).getD 3 0) = w.op := by
  apply eq_of_getLsbD_eq
  intro index inside
  rw [getLsbD_octet (by decide)]
  simp only [metaLanes, getD_cons_succ, getD_cons_zero]
  rw [getLsbD_set (by decide), getLsbD_set (by decide),
    getLsbD_set (by decide), getLsbD_set (by decide), getLsbD_set (by decide)]
  simp [inside, show index < 64 by omega, show ¬32 ≤ index by omega, show ¬43 ≤ index by omega,
    show ¬16 ≤ index by omega, show ¬12 ≤ index by omega]

theorem order_of_lane (w : Wr) (tassn : U16) :
    Library.octet 32 ((metaLanes w tassn).getD 3 0) = w.order := by
  apply eq_of_getLsbD_eq
  intro index inside
  rw [getLsbD_octet (by decide)]
  simp only [metaLanes, getD_cons_succ, getD_cons_zero]
  rw [getLsbD_set (by decide)]
  simp [inside, show index < 64 by omega, show ¬40 ≤ 32 + index by omega]

variable {buffer other : Buffer} {k : ℕ}

theorem wordAt_lanes (inside : k < words.length) :
    wordAt (buffer.blit 0 (words.flatMap wordOctets)) (8 * k) = words.getD k 0 := by
  rw [wordAt, slice_blit_words inside, littleEndian_wordOctets]

theorem word32At_lanes (inside : k < words.length) :
    word32At (buffer.blit 0 (words.flatMap wordOctets)) (8 * k) =
      (littleEndian ((wordOctets (words.getD k 0)).take 4)).setWidth 32 := by
  have part : (buffer.blit 0 (words.flatMap wordOctets)).slice (8 * k) 4 =
      ((buffer.blit 0 (words.flatMap wordOctets)).slice (8 * k) 8).take 4 :=
    (take_slice (by omega)).symm
  rw [word32At, part, slice_blit_words inside]

theorem decodeWr_lanes (w : Wr) (tassn : U16) (narrow : w.dcna.toNat < 2 ^ 24) :
    decodeWr (buffer.blit 0 ((metaLanes w tassn).flatMap wordOctets))
      (other.blit 0 ((extLanes w).flatMap wordOctets)) = w := by
  have lane3 (position : ℕ) (within : position < 8) :
      buffer.blit 0 ((metaLanes w tassn).flatMap wordOctets) (8 * 3 + position) =
        Library.octet (position * 8) ((metaLanes w tassn).getD 3 0) :=
    blit_words_apply (by simp [metaLanes]) within
  have op : buffer.blit 0 ((metaLanes w tassn).flatMap wordOctets) 24 = w.op := by
    rw [lane3 0 (by omega)]
    exact op_of_lane w tassn
  have order : buffer.blit 0 ((metaLanes w tassn).flatMap wordOctets) 28 = w.order := by
    rw [lane3 4 (by omega)]
    exact order_of_lane w tassn
  have jfc : word32At (buffer.blit 0 ((metaLanes w tassn).flatMap wordOctets)) 8 = w.sendJfc :=
    (word32At_lanes (k := 1) (by simp [metaLanes])).trans (sendJfc_of_lane w tassn)
  have jetty : wordAt (buffer.blit 0 ((metaLanes w tassn).flatMap wordOctets)) 0 =
      (metaLanes w tassn).getD 0 0 := wordAt_lanes (k := 0) (by simp [metaLanes])
  have lane (k : ℕ) (inside : k < 8) :
      wordAt (other.blit 0 ((extLanes w).flatMap wordOctets)) (8 * k) = (extLanes w).getD k 0 :=
    wordAt_lanes (by simpa [extLanes] using inside)
  simp only [decodeWr, op, order, jfc, jetty, dcna_of_lane w tassn narrow, lane 0 (by omega),
    lane 1 (by omega), lane 2 (by omega), lane 3 (by omega), lane 5 (by omega), lane 6 (by omega),
    lane 7 (by omega)]
  simp only [extLanes, getD_cons_succ, getD_cons_zero, lanePair_low, lanePair_high]

end

theorem Slot.fire_meta (slot : Slot) (buffer : Buffer) (w : Wr) (tassn : U16) :
    { slot with assembly := buffer.blit 0 ((metaLanes w tassn).flatMap wordOctets) }.fire =
      (⟨fun _ => 0, buffer.blit 0 ((metaLanes w tassn).flatMap wordOctets), true⟩, none) := by
  have flags : buffer.blit 0 ((metaLanes w tassn).flatMap wordOctets) (8 * 4 + 0) = 0x01 := by
    rw [blit_words_apply (by simp [metaLanes]) (by omega)]
    change Library.octet 0 (0x01 : U64) = 0x01
    decide
  simp only [Nat.reduceMul, add_zero] at flags
  simp [fire, flags]

theorem Slot.fire_ext {slot : Slot} (buffer : Buffer) {other : Buffer} {w : Wr} {tassn : U16}
    (narrow : w.dcna.toNat < 2 ^ 24)
    (kept : slot.metaFlit = other.blit 0 ((metaLanes w tassn).flatMap wordOctets))
    (waiting : slot.haveMeta = true) :
    { slot with assembly := buffer.blit 0 ((extLanes w).flatMap wordOctets) }.fire.2 = some w := by
  have flags : buffer.blit 0 ((extLanes w).flatMap wordOctets) (8 * 4 + 0) = 0x02 := by
    rw [blit_words_apply (by simp [extLanes]) (by omega)]
    change Library.octet 0 (0x02 : U64) = 0x02
    decide
  simp only [Nat.reduceMul, add_zero] at flags
  simp [fire, flags, waiting, kept, decodeWr_lanes w tassn narrow]

structure Posted where
  jetty : Jetty
  tassn : U16
  wr : JfsWr

def Posted.stores (ctx : ℕ) (p : Posted) : List Store := kPostJettySendWr ctx p.jetty p.tassn p.wr

/-- The values that its two flits carry. -/
def Posted.fields (p : Posted) : Wr := wrFields p.jetty p.wr

/-- The request is decoded with the last of its sixteen stores, whatever the window held before. -/
theorem Slot.trace_post (slot : Slot) (ctx : ℕ) (p : Posted)
    (narrow : p.fields.dcna.toNat < 2 ^ 24) :
    Slot.step.trace slot (p.stores ctx) = replicate 15 none ++ [some p.fields] := by
  have aligned : ctxBase ctx % 0x100 = 0 := mul_mod_left ..
  obtain ⟨metaTrace, metaFinal⟩ :=
    (slot.collects aligned).run slot.assembly
      (show (metaLanes p.fields p.tassn).length = 8 from rfl)
  rw [fire_meta] at metaTrace metaFinal
  obtain ⟨extTrace, -⟩ := (Slot.collects
    ⟨fun _ => 0, slot.assembly.blit 0 ((metaLanes p.fields p.tassn).flatMap wordOctets), true⟩
    aligned).run (fun _ => 0) (show (extLanes p.fields).length = 8 from rfl)
  rw [fire_ext _ narrow rfl rfl] at extTrace
  calc Slot.step.trace slot (p.stores ctx)
    _ = replicate 7 none ++ [none] ++ (replicate 7 none ++ [some p.fields]) := by
        rw [Posted.stores, kPostJettySendWr, trace_append]
        exact congrArg₂ (· ++ ·) metaTrace (metaFinal ▸ extTrace)
    _ = replicate 15 none ++ [some p.fields] := rfl

variable {d : Device} {s : Store} {ctx : ℕ}

def Store.InWindow (ctx : ℕ) (s : Store) : Prop := s.off / 0x100 = ctx ∧ s.off % 0x100 + 8 ≤ 64

instance : DecidablePred (Store.InWindow ctx) := fun _ => inferInstanceAs (Decidable (_ ∧ _))

def Answer.decodedFor (ctx : ℕ) (a : Answer) : Option Wr :=
  a.decoded.bind fun decoded => if decoded.1 = ctx then some decoded.2 else none

def decodedOf (ctx : ℕ) (answers : List Answer) : List Wr :=
  (answers.map (Answer.decodedFor ctx)).reduceOption

theorem decodedOf_cons (a : Answer) (answers : List Answer) :
    decodedOf ctx (a :: answers) = (a.decodedFor ctx).toList ++ decodedOf ctx answers := by
  rw [decodedOf, map_cons, ← singleton_append, reduceOption_append,
    reduceOption_singleton]
  rfl

theorem Device.doorbell_slots (d : Device) (ctx offset : ℕ) (word : U64) :
    (d.doorbell ctx offset word).1.slots = update d.slots ctx ((d.slots ctx).store offset word).1 ∧
      (d.doorbell ctx offset word).2.decoded =
        ((d.slots ctx).store offset word).2.map (Prod.mk ctx) := by
  cases stored : ((d.slots ctx).store offset word).2 with
  | none => simp [doorbell, stored]
  | some w => simp [doorbell, stored]

theorem Device.recvDb_slots (d : Device) (ctx offset : ℕ) (word : U64) :
    (d.recvDb ctx offset word).1.slots = d.slots ∧ (d.recvDb ctx offset word).2.decoded = none := by
  unfold recvDb
  split
  · exact ⟨rfl, rfl⟩
  · exact ⟨rfl, rfl⟩

theorem Device.regmr_slots (d : Device) (offset : ℕ) (word : U64) :
    (d.regmr offset word).1.slots = d.slots ∧ (d.regmr offset word).2.decoded = none := by
  unfold regmr
  split
  · exact ⟨rfl, rfl⟩
  · exact ⟨rfl, rfl⟩

theorem mmioB_inWindow (d : Device) (known : ctx < 64) (here : s.InWindow ctx) :
    (mmioB d s).1.slots ctx = (Slot.step (d.slots ctx) s).1 ∧
      (mmioB d s).2.decodedFor ctx = (Slot.step (d.slots ctx) s).2 := by
  obtain ⟨context, fits⟩ := here
  have control : s.off < 64 * 0x100 := by omega
  have noMr : ¬(0xC100 ≤ s.off ∧ s.off - 0xC100 + 8 ≤ 64) := by omega
  have call : mmioB d s = d.doorbell ctx (s.off % 0x100) s.word := by
    simp only [mmioB, noMr, control, fits, context, if_true, if_false]
  obtain ⟨slots, decoded⟩ := d.doorbell_slots ctx (s.off % 0x100) s.word
  rw [call, slots, update_self, Answer.decodedFor, decoded]
  refine ⟨rfl, ?_⟩
  change _ = ((d.slots ctx).store (s.off % 0x100) s.word).2
  cases ((d.slots ctx).store (s.off % 0x100) s.word).2 with
  | none => rfl
  | some w => simp

theorem mmioB_outside (d : Device) (elsewhere : ¬s.InWindow ctx) :
    (mmioB d s).1.slots ctx = d.slots ctx ∧ (mmioB d s).2.decodedFor ctx = none := by
  simp only [mmioB, Answer.decodedFor]
  split_ifs with region control fits recv
  · obtain ⟨slots, decoded⟩ := d.regmr_slots (s.off - 0xC100) s.word
    simp [slots, decoded]
  · have other : ctx ≠ s.off / 0x100 := fun same => elsewhere ⟨same.symm, fits⟩
    obtain ⟨slots, decoded⟩ := d.doorbell_slots (s.off / 0x100) (s.off % 0x100) s.word
    rw [slots, decoded, update_of_ne other]
    simp [other.symm]
  · obtain ⟨slots, decoded⟩ := d.recvDb_slots (s.off / 0x100) (s.off % 0x100 - 0x80) s.word
    simp [slots, decoded]
  · exact ⟨rfl, rfl⟩
  · exact ⟨rfl, rfl⟩

theorem decodedOf_trace (d : Device) (known : ctx < 64) (stores : List Store) :
    decodedOf ctx (trace mmioB d stores) =
      (Slot.step.trace (d.slots ctx) (stores.filter (Store.InWindow ctx ·))).reduceOption := by
  induction stores generalizing d with
  | nil => rfl
  | cons s stores ih =>
    rw [trace_cons, decodedOf_cons, ih]
    by_cases here : s.InWindow ctx
    · obtain ⟨slots, decoded⟩ := mmioB_inWindow d known here
      rw [filter_cons_of_pos (by simpa using here), trace_cons, slots, decoded,
        ← reduceOption_singleton, ← reduceOption_append, singleton_append]
    · obtain ⟨slots, decoded⟩ := mmioB_outside d here
      rw [filter_cons_of_neg (by simpa using here), slots, decoded]
      rfl

/-- The stores to the windows of the contexts are those of the requests they post, so far, mixed
in any way. -/
def Interleaved (stores : List Store) (posted : ℕ → List Posted) : Prop :=
  ∀ ctx < 64, stores.filter (Store.InWindow ctx ·) <+: (posted ctx).flatMap (Posted.stores ctx)

theorem decodedOf_posted (d : Device) {stores : List Store} {posted : ℕ → List Posted}
    (mixed : Interleaved stores posted) (known : ctx < 64)
    (narrow : ∀ p ∈ posted ctx, p.fields.dcna.toNat < 2 ^ 24) :
    decodedOf ctx (trace mmioB d stores) = ((posted ctx).map Posted.fields).take
        ((stores.filter (Store.InWindow ctx ·)).length / 16) := by
  rw [decodedOf_trace d known]
  exact trace_blocks (fun p member slot => slot.trace_post ctx p (narrow p member)) _
    (mixed ctx known)

end OpenURMA.Nic
