import OpenURMA.Library.WordMemory
import OpenURMA.Memory.AtomicCas

/-!
# `UB_Atomic_CAS` as a sequential memory

What the element is for: a memory whose 64-bit words, at any offset, are read, modified and
written back one request after another.  The element computes the words octet by octet; over
every sequence of requests it gives the answers of that memory and leaves its contents.
-/

namespace OpenURMA.AtomicCas

open Library BitVec

inductive Kind where
  | cas
  | swap
  | store
  | load
  | fetchAdd
  | fetchSub
  | fetchAnd
  | fetchOr
  | fetchXor
  deriving DecidableEq

namespace Kind

def opcode : Kind → U8
  | cas => 0x07
  | swap => 0x08
  | store => 0x09
  | load => 0x0A
  | fetchAdd => 0x0B
  | fetchSub => 0x0C
  | fetchAnd => 0x0D
  | fetchOr => 0x0E
  | fetchXor => 0x0F

def apply (operand swp cur : U64) : Kind → U64
  | cas => if cur = operand then swp else cur
  | swap => operand
  | store => operand
  | load => cur
  | fetchAdd => cur + operand
  | fetchSub => cur - operand
  | fetchAnd => cur &&& operand
  | fetchOr => cur ||| operand
  | fetchXor => cur ^^^ operand

end Kind

inductive Tally where
  | cas
  | swap
  | faa
  | logic
  | store
  | load
  deriving DecidableEq

def Kind.tally : Kind → Tally
  | cas => .cas
  | swap => .swap
  | store => .store
  | load => .load
  | fetchAdd | fetchSub => .faa
  | fetchAnd | fetchOr | fetchXor => .logic

def State.counter (s : State) : Tally → U64
  | .cas => s.casCount
  | .swap => s.swapCount
  | .faa => s.faaCount
  | .logic => s.logicCount
  | .store => s.storeCount
  | .load => s.loadCount

def signal (s : State) (cmd : U32) : List U64 :=
  if cmd == 3 then
    [s.casCount, s.swapCount, s.faaCount, s.logicCount, s.storeCount, s.loadCount]
  else []

structure Request where
  head : Flit
  ext : Flit
  kind : Kind
  sop_head : head.sop = true
  eop_head : head.eop = false
  sop_ext : ext.sop = false
  eop_ext : ext.eop = true
  taOpcode_head : UbMeta.taOpcode.get head = kind.opcode
  inside : (UbExt.address ext).toNat + 8 ≤ 65536

namespace Request

variable (r : Request)

def flits : List Flit := [r.head, r.ext]

def offset : Nat := (UbExt.address r.ext).toNat

def apply (cur : U64) : U64 :=
  r.kind.apply (UbExt.opData r.ext) ((UbExt.tokenValue r.ext).setWidth 64) cur

def answer (value : U64) : List Flit := [r.head, UbExt.setOpData value r.ext]

end Request

def sequential : Mealy Buffer Request U64 := fun mem r =>
  (mem.setWord r.offset (r.apply (mem.word r.offset)), mem.word r.offset)

theorem isAtomic_opcode (kind : Kind) : isAtomic kind.opcode = true := by
  cases kind <;> rfl

theorem result_opcode (kind : Kind) (operand swp cur : U64) :
    (result kind.opcode cur operand swp).getD cur = kind.apply operand swp cur := by
  cases kind with
  | cas =>
    change (if cur == operand then some swp else none).getD cur = if cur = operand then swp else cur
    by_cases equal : cur = operand <;> simp [equal]
  | _ => rfl

theorem counter_count (kind : Kind) (s : State) (tally : Tally) :
    (count kind.opcode s).counter tally =
      s.counter tally + BitVec.ofNat 64 (if kind.tally = tally then 1 else 0) := by
  cases kind <;> cases tally <;> first | rfl | exact (add_zero _).symm

section

variable {off : U64} (inside : off.toNat + 8 ≤ 65536) (hbm : Buffer)
include inside

theorem load_eq_word : load hbm off = hbm.word off.toNat := by
  rw [load_eq_gather inside, Buffer.gather_eq_word]

theorem writeBack_eq_setWord (value : Option U64) :
    writeBack hbm off value = hbm.setWord off.toNat (value.getD (hbm.word off.toNat)) := by
  cases value with
  | none => exact Buffer.setWord_word.symm
  | some word =>
    rw [writeBack, HbmWrite.store_eq_blit _ _ _ (by rw [wordOctets_length]; omega),
      Buffer.blit_wordOctets]
    rfl

theorem modify_eq_setWord (kind : Kind) (operand swp : U64) :
    modify kind.opcode off operand swp hbm =
      hbm.setWord off.toNat (kind.apply operand swp (hbm.word off.toNat)) := by
  rw [modify, load_eq_word inside, writeBack_eq_setWord inside, result_opcode]

end

theorem counter_step {s : State} {kind : Kind} (awaits : Awaits s kind.opcode) {f : Flit}
    (inner : f.sop = false) (inside : (UbExt.address f).toNat + 8 ≤ 65536) (tally : Tally) :
    (step s f).1.counter tally =
      s.counter tally + BitVec.ofNat 64 (if kind.tally = tally then 1 else 0) := by
  have here : accesses s f = true :=
    accesses_of_inside (awaits.curOp ▸ isAtomic_opcode kind) inside
  rw [step_inner awaits.sawMeta inner here, ← counter_count, ← awaits.curOp]
  cases f.eop <;> cases tally <;> rfl

theorem run_request (s : State) (r : Request) :
    (step.final s r.flits).hbm = (sequential s.hbm r).1 ∧
      Ports.sent 1 (step.trace s r.flits) = r.answer (sequential s.hbm r).2 ∧
      ∀ tally, (step.final s r.flits).counter tally =
        s.counter tally + BitVec.ofNat 64 (if r.kind.tally = tally then 1 else 0) := by
  obtain ⟨awaits, same, passed⟩ := awaits_meta s r.sop_head
  have tallies : ∀ tally, (step s r.head).1.counter tally = s.counter tally := by
    rw [step, if_pos r.sop_head]
    intro tally
    cases tally <;> rfl
  rw [r.taOpcode_head] at awaits
  obtain ⟨_, memory, returned, _⟩ :=
      step_executes awaits (isAtomic_opcode r.kind) r.sop_ext r.inside
  rw [same] at memory returned
  have final : step.final s r.flits = (step (step s r.head).1 r.ext).1 := rfl
  rw [final]
  refine ⟨?_, ?_, ?_⟩
  · rw [memory]
    exact modify_eq_setWord r.inside s.hbm r.kind _ _
  · rw [Request.flits, Mealy.trace_cons, Mealy.trace_cons, Mealy.trace_nil, passed, returned,
      load_eq_word r.inside]
    rfl
  · intro tally
    rw [counter_step awaits r.sop_ext r.inside, tallies]

theorem run_requests (s : State) (requests : List Request) :
    (step.final s (requests.flatMap Request.flits)).hbm = sequential.final s.hbm requests ∧
      Ports.sent 1 (step.trace s (requests.flatMap Request.flits)) =
        (List.zipWith Request.answer requests (sequential.trace s.hbm requests)).flatten ∧
      ∀ tally, (step.final s (requests.flatMap Request.flits)).counter tally =
        s.counter tally + BitVec.ofNat 64 (requests.countP (·.kind.tally = tally)) := by
  induction requests generalizing s with
  | nil => exact ⟨rfl, rfl, fun tally => (add_zero _).symm⟩
  | cons r requests ih =>
    obtain ⟨memory, answered, counted⟩ := run_request s r
    obtain ⟨memory', answered', counted'⟩ := ih (step.final s r.flits)
    rw [List.flatMap_cons, Mealy.final_append, Mealy.trace_append, Ports.sent_append, memory',
      answered, answered', memory]
    refine ⟨rfl, rfl, ?_⟩
    intro tally
    rw [counted', counted, List.countP_cons, add_assoc, ← ofNat_add, Nat.add_comm]
    simp only [decide_eq_true_eq]

/-- Over every sequence of requests the handler answers as the sequential memory does and leaves its
contents, and its counters are the numbers of requests of each kind. -/
theorem atomics_sequential (mem : Buffer) (requests : List Request) :
    let final := step.final { init with hbm := mem } (requests.flatMap Request.flits)
    Ports.sent 1 (step.trace { init with hbm := mem } (requests.flatMap Request.flits)) =
        (List.zipWith Request.answer requests (sequential.trace mem requests)).flatten ∧
      final.hbm = sequential.final mem requests ∧
      signal final 3 = [Tally.cas, .swap, .faa, .logic, .store, .load].map fun tally =>
        BitVec.ofNat 64 (requests.countP (·.kind.tally = tally)) := by
  intro final
  obtain ⟨memory, answered, counted⟩ := run_requests { init with hbm := mem } requests
  refine ⟨answered, memory, ?_⟩
  have counters : signal final 3 =
      [Tally.cas, .swap, .faa, .logic, .store, .load].map final.counter := rfl
  rw [counters]
  apply List.map_congr_left
  intro tally _
  rw [counted tally]
  cases tally <;> exact zero_add _

def increment (offset : Fin 65529) : Request where
  head := { lane3 := 0x0B, sop := true }
  ext := { lane0 := BitVec.ofNat 64 offset, lane3 := 1, eop := true }
  kind := .fetchAdd
  sop_head := rfl
  eop_head := rfl
  sop_ext := rfl
  eop_ext := rfl
  taOpcode_head := by decide
  inside := by
    change offset.val % 2 ^ 64 + 8 ≤ 65536
    omega

/-- The words at 0 and 1 overlap. -/
example : sequential.trace (fun _ => 0) [increment 0, increment 1, increment 0, increment 1] =
    [0, 0, 0x101, 1] := by
  decide

end OpenURMA.AtomicCas
