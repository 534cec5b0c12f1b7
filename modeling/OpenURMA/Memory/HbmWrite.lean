import OpenURMA.Codec.Chunks
import OpenURMA.Opcode

/-!
# `UB_Txn_Dispatch` and `UB_HBM_Write`

The dispatcher routes each request to the handler of its opcode class; the write handler
stores the payload of Writes in the 64 KiB memory.
-/

namespace OpenURMA

open Library UbMeta UbExt Ports Mealy List BitVec

namespace TxnDispatch

structure State where
  inPacket : Bool
  curPort : Nat

def init : State where
  inPacket := false
  curPort := 1

def route (op : U8) : Nat :=
  if op == taopRead then 1
  else if isWriteClass op then 2
  else if isAtomic op then 3
  else if isSend op then 4
  else 5

theorem route_eq_two {op : U8} : route op = 2 ↔ isWriteClass op = true := by
  constructor
  · intro port
    unfold route at port
    repeat' split at port
    case isFalse.isTrue write => exact write
    all_goals cases port
  · intro write
    rw [route, if_neg (by simpa using (isWriteClass_spec write).2.2.2), if_pos write]

theorem route_eq_three {op : U8} : route op = 3 ↔ isAtomic op = true := by
  constructor
  · intro port
    unfold route at port
    repeat' split at port
    case isFalse.isFalse.isTrue atomic => exact atomic
    all_goals cases port
  · intro atomic
    obtain ⟨_, _, _, notRead, notWrite⟩ := isAtomic_spec atomic
    rw [route, if_neg (by simpa using notRead), if_neg (by simp [notWrite]), if_pos atomic]

def step : Mealy State Flit (Ports Flit) := fun s f =>
  let s₁ : State :=
    if f.sop then { inPacket := true, curPort := route (taOpcode.get f) } else s
  (if f.eop then { s₁ with inPacket := false } else s₁, emit s₁.curPort f)

variable (s : State)

def Idle : Prop := s.inPacket = false

theorem streams_packet : Streams step s { s with inPacket := false } s.curPort where
  more f inner more := by simp [step, inner, more]
  last f inner last := by simp [step, inner, last]

theorem trace_rest (flits : List Flit) (inner : ∀ f ∈ flits, f.sop = false) :
    step.trace s flits = flits.map (emit s.curPort) := by
  induction flits generalizing s with
  | nil => rfl
  | cons f flits ih =>
    have notSop : f.sop = false := inner f (by simp)
    have port : (step s f).1.curPort = s.curPort := by
      cases last : f.eop <;> simp [step, notSop, last]
    rw [trace_cons, ih _ fun g member => inner g (by simp [member]), port, map_cons]
    simp [step, notSop]

theorem trace_request {m : Flit} {flits : List Flit} (sop : m.sop = true)
    (inner : ∀ f ∈ flits, f.sop = false) :
    step.trace s (m :: flits) = (m :: flits).map (emit (route (taOpcode.get m))) := by
  have port : (step s m).1.curPort = route (taOpcode.get m) := by
    cases last : m.eop <;> simp [step, sop, last]
  rw [trace_cons, trace_rest _ _ inner, port, map_cons]
  simp [step, sop]

theorem run_packet (p : Packet) : Idle (step.final s p.flits) ∧
      step.trace s p.flits = p.flits.map (emit (route (taOpcode.get p.head))) := by
  have framed := p.eop_last
  have inner := p.sop_rest
  rw [Packet.flits]
  cases shape : p.rest with
  | nil =>
    rw [shape] at framed
    have last : p.head.eop = true := framed
    simp [step, p.sop_head, last, Idle]
  | cons f rest =>
    rw [shape] at framed inner
    have call : step s p.head = (⟨true, route (taOpcode.get p.head)⟩,
        emit (route (taOpcode.get p.head)) p.head) := by
      simp [step, p.sop_head, framed.1]
    rcases (streams_packet ⟨true, route (taOpcode.get p.head)⟩).run _ inner framed.2
      with ⟨final, trace⟩
    rw [final_cons, trace_cons, call, final, trace]
    exact ⟨rfl, rfl⟩

theorem sent_packet (p : Packet) (port : Nat) : sent port (step.trace s p.flits) =
      if route (taOpcode.get p.head) = port then p.flits else [] := by
  rw [(run_packet s p).2]
  split
  · next same => rw [same, sent_map_emit]
  · next other => exact sent_map_emit_other (Ne.symm other) _

end TxnDispatch

namespace HbmWrite

def hbmSize : U64 := 64 * 1024

structure State where
  hbm : Buffer
  sawMeta : Bool
  sawExt : Bool
  curAddr : U64
  curRemaining : U32

def init : State where
  hbm _ := 0
  sawMeta := false
  sawExt := false
  curAddr := 0
  curRemaining := 0

/-- The store loop: byte `i` goes to index `off + i`, computed in 64 bits. -/
def store (hbm : Buffer) (off : U64) : List Byte → Buffer
  | [] => hbm
  | byte :: octets => store (Function.update hbm off.toNat byte) (off + 1) octets

def finish (s : State) : State :=
  { s with sawMeta := false, sawExt := false, curRemaining := 0 }

/-- The extension flit: a short write that ends here stores its inline operand. -/
def startWrite (s : State) (f : Flit) : State :=
  let off := address f
  let len := UbExt.length f
  let inline := f.eop && len ≤ 8 && off + len.setWidth 64 ≤ hbmSize
  let data := (range len.toNat).map fun i => octet (i * 8) (opData f)
  let s₁ : State :=
    { s with
      curAddr := off
      curRemaining := if inline then 0 else len
      sawExt := true
      hbm := if inline then store s.hbm off data else s.hbm }
  if f.eop then finish s₁ else s₁

def writePayload (s : State) (f : Flit) : State :=
  let take : U32 := if s.curRemaining > 32 then 32 else s.curRemaining
  let fits := s.curAddr + take.setWidth 64 ≤ hbmSize
  let s₁ : State :=
    { s with
      hbm := if fits then store s.hbm s.curAddr ((f.getData 32).take take.toNat) else s.hbm
      curAddr := s.curAddr + take.setWidth 64
      curRemaining := s.curRemaining - take }
  if f.eop then finish s₁ else s₁

def step : Mealy State Flit (Ports Flit) := fun s f =>
  if f.sop then
    ({ s with sawMeta := true, sawExt := false, curAddr := 0, curRemaining := 0 },
      emit 1 f)
  else if s.sawMeta && !s.sawExt then
    (startWrite s f, emit 1 f)
  else if s.sawMeta && s.sawExt && s.curRemaining > 0 then
    (writePayload s f, emit 1 f)
  else
    (s, silent)

def Idle (s : State) : Prop :=
  s.sawMeta = false ∧ s.sawExt = false ∧ s.curRemaining = 0

theorem store_eq_blit (octets : List Byte) :
    ∀ (hbm : Buffer) (off : U64), off.toNat + octets.length < 2 ^ 64 →
      store hbm off octets = hbm.blit off.toNat octets := by
  induction octets with
  | nil =>
    intro hbm off _
    rw [store, Buffer.blit_nil]
  | cons byte octets ih =>
    intro hbm off bound
    rw [length_cons] at bound
    have next : (off + 1).toNat = off.toNat + 1 := by
      rw [toNat_add]
      exact Nat.mod_eq_of_lt (by change off.toNat + 1 < _; omega)
    rw [store, ih _ _ (by rw [next]; omega), next, Buffer.blit_cons]

/-- The state while `count` payload bytes are still to be written at `addr`. -/
structure Writing (s : State) (addr count : Nat) : Prop where
  sawMeta : s.sawMeta = true
  sawExt : s.sawExt = true
  curAddr : s.curAddr.toNat = addr
  curRemaining : s.curRemaining.toNat = count

section

variable {s : State} {addr count : Nat} (writing : Writing s addr count) (pending : 0 < count)
variable (inside : addr + count ≤ 65536)
include writing pending inside

theorem step_payload {f : Flit} (inner : f.sop = false) :
    (step s f).1.hbm = s.hbm.blit addr ((f.getData 32).take count) ∧
      (f.eop = true → Idle (step s f).1) ∧
      (f.eop = false → Writing (step s f).1 (addr + min 32 count) (count - min 32 count)) := by
  let take : U32 := if s.curRemaining > 32 then 32 else s.curRemaining
  have remaining := writing.curRemaining
  have address := writing.curAddr
  have takeEq : take.toNat = min 32 count := by
    have limit : (32 : U32).toNat = 32 := rfl
    simp only [take, gt_iff_lt, lt_def]
    split <;> omega
  have nextAddr : (s.curAddr + take.setWidth 64).toNat = addr + min 32 count := by
    rw [toNat_add, toNat_setWidth, takeEq, address]
    omega
  have nextRemaining : (s.curRemaining - take).toNat = count - min 32 count := by
    rw [toNat_sub_of_le (by rw [le_def]; omega), takeEq, remaining]
  have fits : s.curAddr + take.setWidth 64 ≤ hbmSize := by
    rw [le_def, nextAddr]
    change _ ≤ 65536
    omega
  have stored : store s.hbm s.curAddr ((f.getData 32).take take.toNat) =
      s.hbm.blit addr ((f.getData 32).take count) := by
    have clip : (f.getData 32).take take.toNat = (f.getData 32).take count := by
      rw [take_eq_take_iff, Flit.getData_length, takeEq]
      omega
    rw [clip, store_eq_blit _ _ _ (by
      rw [address, length_take, Flit.getData_length]; omega), address]
  have some : decide (s.curRemaining > 0) = true := by
    rw [decide_eq_true_eq, gt_iff_lt, lt_def, remaining]
    exact pending
  have call : (step s f).1 = writePayload s f := by
    simp only [step, inner, writing.sawMeta, writing.sawExt, some, Bool.false_eq_true,
      if_false, Bool.not_true, Bool.and_false, Bool.and_true, if_true]
  rw [call, writePayload]
  simp only [show (if s.curRemaining > 32 then 32 else s.curRemaining) = take from rfl,
    if_pos fits, stored]
  refine ⟨by cases f.eop <;> rfl, ?_, ?_⟩
  · intro last
    rw [if_pos last]
    exact ⟨rfl, rfl, rfl⟩
  · intro more
    rw [if_neg (by simp [more])]
    exact ⟨writing.sawMeta, writing.sawExt, nextAddr, nextRemaining⟩

theorem run_payload (payload : List Flit)
    (inner : ∀ f ∈ payload, f.sop = false) (framed : EopLast payload)
    (flits : payload.length = (count + 31) / 32) :
    Idle (step.final s payload) ∧ (step.final s payload).hbm =
      s.hbm.blit addr ((payload.flatMap (·.getData 32)).take count) := by
  induction payload generalizing s addr count with
  | nil => exact framed.elim
  | cons f payload ih =>
    obtain ⟨written, idle, writing'⟩ := step_payload writing pending inside (inner f (by simp))
    cases payload with
    | nil =>
      rw [final_cons, final_nil, flatMap_singleton]
      exact ⟨idle framed, written⟩
    | cons g payload =>
      simp only [length_cons] at flits
      have next := writing' framed.1
      rw [Nat.min_eq_left (by omega)] at next
      rcases ih next (by omega) (by omega) (fun h member => inner h (by simp [member])) framed.2
        (by simp only [length_cons]; omega) with ⟨idle', stored⟩
      refine ⟨idle', ?_⟩
      have whole : (f.getData 32).take count = f.getData 32 :=
        take_of_length_le (by rw [Flit.getData_length]; omega)
      have joined := s.hbm.blit_append addr (f.getData 32)
        (((g :: payload).flatMap (·.getData 32)).take (count - 32))
      rw [Flit.getData_length] at joined
      have cut : ((f :: g :: payload).flatMap (·.getData 32)).take count = f.getData 32 ++
          ((g :: payload).flatMap (·.getData 32)).take (count - 32) := by
        rw [flatMap_cons, take_append, whole, Flit.getData_length]
      rw [final_cons, stored, written, whole, ← joined, cut]

end

variable (s : State) {m e : Flit} (sop : m.sop = true)
include s sop

theorem start_write (inner : e.sop = false) (rest : List Flit) :
    step.final s (m :: e :: rest) = step.final (startWrite
      { s with sawMeta := true, sawExt := false, curAddr := 0, curRemaining := 0 } e) rest := by
  rw [final_cons, final_cons]
  simp [step, sop, inner]

theorem run_write {payload : List Flit}
    (inner : ∀ f ∈ e :: payload, f.sop = false) (framed : EopLast (e :: payload))
    (pending : 0 < (UbExt.length e).toNat)
    (flits : payload.length = ((UbExt.length e).toNat + 31) / 32)
    (inside : (address e).toNat + (UbExt.length e).toNat ≤ 65536) :
    Idle (step.final s (m :: e :: payload)) ∧
      (step.final s (m :: e :: payload)).hbm = s.hbm.blit (address e).toNat
        ((payload.flatMap (·.getData 32)).take (UbExt.length e).toNat) := by
  cases payload with
  | nil => simp only [length_nil] at flits; omega
  | cons f payload =>
    have more : e.eop = false := framed.1
    rw [start_write s sop (inner e (by simp))]
    have started : Writing (startWrite
        { s with sawMeta := true, sawExt := false, curAddr := 0, curRemaining := 0 } e)
        (address e).toNat (UbExt.length e).toNat := by
      simp only [startWrite, more, Bool.false_and, Bool.false_eq_true, if_false]
      exact ⟨rfl, rfl, rfl, rfl⟩
    have kept : (startWrite
        { s with sawMeta := true, sawExt := false, curAddr := 0, curRemaining := 0 } e).hbm =
        s.hbm := by
      simp [startWrite, more]
    have stored := run_payload started pending inside (f :: payload)
      (fun g member => inner g (by simp [member])) framed.2 flits
    rwa [kept] at stored

theorem run_inline (inner : e.sop = false)
    (last : e.eop = true) (short : (UbExt.length e).toNat ≤ 8)
    (inside : (address e).toNat + (UbExt.length e).toNat ≤ 65536) :
    (step.final s [m, e]).hbm = s.hbm.blit (address e).toNat
      ((wordOctets (opData e)).take (UbExt.length e).toNat) := by
  have fits : address e + (UbExt.length e).setWidth 64 ≤ hbmSize := by
    rw [le_def, toNat_add, toNat_setWidth]
    change _ ≤ 65536
    omega
  have small : UbExt.length e ≤ 8 := by
    rw [le_def]
    exact short
  have octets : (range (UbExt.length e).toNat).map
      (fun i => octet (i * 8) (opData e)) =
        (wordOctets (opData e)).take (UbExt.length e).toNat := by
    rw [wordOctets, ← map_take, take_range, Nat.min_eq_left short]
  rw [start_write s sop inner, final_nil, startWrite]
  simp only [last, small, fits, decide_true, Bool.and_self, if_true, octets]
  exact store_eq_blit _ _ _ (by simp; omega)

end HbmWrite

end OpenURMA
