import OpenURMA.Memory.AtomicCas
import OpenURMA.Memory.HbmRead

/-!
# One memory or three

`UB_Txn_Dispatch` sends Writes, atomics and Reads to three handlers.  The requests are meant to
act on one memory, in the order in which they are dispatched; but each handler has a memory of
its own, which holds what the requests of its own kind have left there.
-/

namespace OpenURMA.Coherence

open Library UbMeta UbExt AtomicCas TxnDispatch

inductive Access where
  | read (off length : Nat)
  | atomic (op : U8) (off : Nat) (operand swp : U64)
  | write (off : Nat) (octets : List Byte)

/-- Some bytes as a word, the first one least significant. -/
def word (mem : Buffer) (off count : Nat) : U64 := gather (fun i => mem (off + i)) count

namespace Access

def apply (mem : Buffer) : Access → Buffer
  | .read _ _ => mem
  | .atomic op off operand swp =>
    match result op (word mem off 8) operand swp with
    | none => mem
    | some result => mem.blit off (wordOctets result)
  | .write off octets => mem.blit off octets

def returns (mem : Buffer) : Access → Option U64
  | .read off length => some (word mem off length)
  | .atomic _ off _ _ => some (word mem off 8)
  | .write _ _ => none

end Access

inductive Serves (m e : Flit) (payload : List Flit) : Prop where
  | read (opcode : taOpcode.get m = taopRead) (alone : payload = [])
      (short : (UbExt.length e).toNat ≤ 8)
  | atomic (opcode : isAtomic (taOpcode.get m) = true) (alone : payload = [])
      (inside : (address e).toNat + 8 ≤ 65536)
  | inlineWrite (opcode : isWriteClass (taOpcode.get m) = true) (alone : payload = [])
      (short : (UbExt.length e).toNat ≤ 8)
      (inside : (address e).toNat + (UbExt.length e).toNat ≤ 65536)
  | write (opcode : isWriteClass (taOpcode.get m) = true)
      (pending : 0 < (UbExt.length e).toNat)
      (flits : payload.length = ((UbExt.length e).toNat + 31) / 32)
      (inside : (address e).toNat + (UbExt.length e).toNat ≤ 65536)

structure Request where
  packet : Packet
  ext : Flit
  payload : List Flit
  shape : packet.rest = ext :: payload
  serves : Serves packet.head ext payload

namespace Request

variable (r : Request)

abbrev opcode : U8 := taOpcode.get r.packet.head

def isAtomic : Bool := OpenURMA.isAtomic r.opcode

def isWrite : Bool := isWriteClass r.opcode

/-- The bytes that a Write carries, in its payload or in the operand field. -/
def data : List Byte :=
  (if r.payload = [] then wordOctets (opData r.ext)
    else r.payload.flatMap (·.getData 32)).take (UbExt.length r.ext).toNat

def access : Access :=
  let off := (address r.ext).toNat
  if r.isAtomic then
    .atomic r.opcode off (opData r.ext) ((tokenValue r.ext).setWidth 64)
  else if r.isWrite then .write off r.data
  else .read off (UbExt.length r.ext).toNat

variable {r}

theorem atomic_spec (atomic : r.isAtomic = true) :
    r.payload = [] ∧ (address r.ext).toNat + 8 ≤ 65536 := by
  obtain ⟨_, _, _, notRead, notWrite⟩ := isAtomic_spec atomic
  cases r.serves with
  | atomic _ alone inside => exact ⟨alone, inside⟩
  | read read => exact absurd read notRead
  | inlineWrite write | write write => exact absurd write (by simp [notWrite])

theorem write_spec (write : r.isWrite = true) :
    (r.payload = [] ∧ (UbExt.length r.ext).toNat ≤ 8 ∨ r.payload ≠ [] ∧
      0 < (UbExt.length r.ext).toNat ∧ r.payload.length = ((UbExt.length r.ext).toNat + 31) / 32) ∧
      (address r.ext).toNat + (UbExt.length r.ext).toNat ≤ 65536 := by
  cases r.serves with
  | atomic atomic => exact absurd write (by simp [isWrite, (isAtomic_spec atomic).2.2.2.2])
  | read read => exact absurd read (isWriteClass_spec write).2.2.2
  | inlineWrite _ alone short inside => exact ⟨.inl ⟨alone, short⟩, inside⟩
  | write _ pending flits inside =>
    refine ⟨.inr ⟨fun empty => ?_, pending, flits⟩, inside⟩
    rw [empty, List.length_nil] at flits
    omega

theorem read_spec (read : r.opcode = taopRead) :
    r.payload = [] ∧ (UbExt.length r.ext).toNat ≤ 8 := by
  cases r.serves with
  | read _ alone short => exact ⟨alone, short⟩
  | atomic atomic => exact absurd read (isAtomic_spec atomic).2.2.2.1
  | inlineWrite write | write write => exact absurd read (isWriteClass_spec write).2.2.2

theorem access_atomic (atomic : r.isAtomic = true) :
    r.access = .atomic r.opcode (address r.ext).toNat (opData r.ext)
      ((tokenValue r.ext).setWidth 64) :=
  if_pos atomic

theorem access_write (write : r.isWrite = true) :
    r.access = .write (address r.ext).toNat r.data := by
  have notAtomic : ¬ r.isAtomic = true := fun atomic =>
    absurd write (by simp [isWrite, (isAtomic_spec atomic).2.2.2.2])
  rw [access, if_neg notAtomic, if_pos write]

theorem access_read (read : r.opcode = taopRead) :
    r.access = .read (address r.ext).toNat (UbExt.length r.ext).toNat := by
  have notAtomic : ¬ r.isAtomic = true := fun atomic =>
    absurd read (isAtomic_spec atomic).2.2.2.1
  have notWrite : ¬ r.isWrite = true := fun write =>
    absurd read (isWriteClass_spec write).2.2.2
  rw [access, if_neg notAtomic, if_neg notWrite]

theorem kinds (r : Request) : r.isAtomic = true ∨ r.isWrite = true ∨ r.opcode = taopRead := by
  cases r.serves with
  | atomic atomic => exact .inl atomic
  | inlineWrite write | write write => exact .inr (.inl write)
  | read read => exact .inr (.inr read)

end Request

def memory (requests : List Request) : Buffer :=
  requests.foldl (fun mem r => r.access.apply mem) fun _ => 0

theorem memory_snoc (requests : List Request) (r : Request) :
    memory (requests ++ [r]) = r.access.apply (memory requests) := by
  rw [memory, List.foldl_append]
  rfl

structure Handlers where
  dispatch : TxnDispatch.State
  read : HbmRead.State
  write : HbmWrite.State
  atomic : AtomicCas.State

namespace Handlers

def init : Handlers where
  dispatch := TxnDispatch.init
  read := HbmRead.init
  write := HbmWrite.init
  atomic := AtomicCas.init

variable (t : Handlers) (p : Packet)

def input (port : Nat) : List Flit := Ports.sent port (TxnDispatch.step.trace t.dispatch p.flits)

def serve : Handlers where
  dispatch := TxnDispatch.step.final t.dispatch p.flits
  read := HbmRead.step.final t.read (t.input p 1)
  write := HbmWrite.step.final t.write (t.input p 2)
  atomic := AtomicCas.step.final t.atomic (t.input p 3)

def responses : List Flit :=
  Ports.sent 1 (HbmRead.step.trace t.read (t.input p 1)) ++
    Ports.sent 1 (HbmWrite.step.trace t.write (t.input p 2)) ++
    Ports.sent 1 (AtomicCas.step.trace t.atomic (t.input p 3))

/-- The value returned, in the operand field of the flit behind the metadata. -/
def answer : Option U64 := (t.responses p)[1]?.map opData

/-- The elements after some requests, served one at a time. -/
def run (requests : List Request) : Handlers :=
  requests.foldl (fun t r => t.serve r.packet) t

theorem input_eq (port : Nat) : t.input p port =
    if route (taOpcode.get p.head) = port then p.flits else [] :=
  sent_packet t.dispatch p port

end Handlers

section

variable {r : Request}

theorem shape_flits (alone : r.payload = []) :
    r.packet.flits = [r.packet.head, r.ext] ∧ r.ext.sop = false ∧ r.ext.eop = true := by
  have rest := r.shape
  rw [alone] at rest
  have framed := r.packet.eop_last
  rw [rest] at framed
  exact ⟨by rw [Packet.flits, rest], r.packet.sop_rest _ (by simp [rest]), framed.2⟩

end

def Coherent (requests : List Request) : Prop :=
  ∀ before r after, requests = before ++ r :: after →
    ∀ value ∈ r.access.returns (memory before),
      (Handlers.init.run before).answer r.packet = some value

/-- A Read finds zeros, and an atomic what the atomics alone would have left. -/
def Undisturbed (before : List Request) (r : Request) : Prop :=
  match r.access with
  | .read off length => ∀ i < length, memory before (off + i) = 0
  | .atomic _ off _ _ =>
    ∀ i < 8, memory before (off + i) = memory (before.filter Request.isAtomic) (off + i)
  | .write _ _ => True

/-- Each handler's memory is what the requests of its own kind leave; the one for Reads stays
as it was. -/
structure Apart (t : Handlers) (requests : List Request) : Prop where
  read : t.read.hbm = fun _ => 0
  write : t.write.hbm = memory (requests.filter Request.isWrite)
  atomic : t.atomic.hbm = memory (requests.filter Request.isAtomic)

theorem apart_init : Apart Handlers.init [] := ⟨rfl, rfl, rfl⟩

theorem modify_eq {off : U64} (inside : off.toNat + 8 ≤ 65536) (op : U8) (operand swp : U64)
    (hbm : Buffer) : load hbm off = word hbm off.toNat 8 ∧ AtomicCas.modify op off operand swp hbm =
        (Access.atomic op off.toNat operand swp).apply hbm := by
  have loaded : load hbm off = word hbm off.toNat 8 :=
    AtomicCas.load_eq_gather inside hbm
  refine ⟨loaded, ?_⟩
  rw [AtomicCas.modify, loaded, Access.apply]
  cases result op (word hbm off.toNat 8) operand swp with
  | none => rfl
  | some result => exact HbmWrite.store_eq_blit _ _ _ (by rw [wordOctets_length]; omega)

section

variable {t : Handlers} {r : Request}

theorem serve_atomic (opcode : r.isAtomic = true) :
    (t.serve r.packet).atomic.hbm = r.access.apply t.atomic.hbm ∧
      t.answer r.packet = r.access.returns t.atomic.hbm := by
  obtain ⟨alone, inside⟩ := Request.atomic_spec opcode
  obtain ⟨flits, inner, last⟩ := shape_flits alone
  have route : route (taOpcode.get r.packet.head) = 3 :=
    route_eq_three.mpr opcode
  have input : t.input r.packet 3 = [r.packet.head, r.ext] := by
    rw [Handlers.input_eq, if_pos route, flits]
  have others : t.input r.packet 1 = [] ∧ t.input r.packet 2 = [] := by
    rw [Handlers.input_eq, Handlers.input_eq, route]
    exact ⟨rfl, rfl⟩
  have access := Request.access_atomic opcode
  obtain ⟨awaits, same, passed⟩ := awaits_meta t.atomic r.packet.sop_head
  have executed := step_executes awaits opcode inner inside
  rcases modify_eq inside r.opcode (opData r.ext)
    ((tokenValue r.ext).setWidth 64) t.atomic.hbm with ⟨loaded, modified⟩
  rw [same] at executed
  constructor
  · rw [Handlers.serve, input, access, ← modified]
    exact executed.2.1
  · rw [Handlers.answer, Handlers.responses, input, others.1, others.2, access, Access.returns,
      ← loaded]
    simp only [Mealy.trace_cons, Mealy.trace_nil, Ports.sent_cons, passed, executed.2.2.1,
      Ports.emit_same]
    rfl

theorem serve_read (opcode : r.opcode = taopRead) (zero : t.read.hbm = fun _ => 0) :
    t.answer r.packet = some 0 := by
  obtain ⟨flits, inner, _⟩ := shape_flits (Request.read_spec opcode).1
  have route : route (taOpcode.get r.packet.head) = 1 := by
    change route r.opcode = 1
    rw [opcode]
    decide
  rw [Handlers.answer, Handlers.responses, Handlers.input_eq, Handlers.input_eq,
    Handlers.input_eq, route, flits]
  simp only [if_true, HbmRead.sent_request _ r.packet.sop_head inner, zero, HbmRead.fetch_zero]
  rfl

theorem serve_write (opcode : r.isWrite = true) :
    (t.serve r.packet).write.hbm = r.access.apply t.write.hbm := by
  have route : route (taOpcode.get r.packet.head) = 2 :=
    route_eq_two.mpr opcode
  change (HbmWrite.step.final t.write (t.input r.packet 2)).hbm = _
  rw [Request.access_write opcode, Handlers.input_eq, if_pos route, Access.apply, Request.data]
  rcases Request.write_spec opcode with ⟨⟨alone, short⟩ | ⟨some, pending, flits⟩, inside⟩
  · obtain ⟨flits, inner, last⟩ := shape_flits alone
    rw [flits, if_pos alone]
    exact HbmWrite.run_inline t.write r.packet.sop_head inner last short inside
  · have inner := r.packet.sop_rest
    have framed := r.packet.eop_last
    rw [r.shape] at inner framed
    rw [if_neg some, Packet.flits, r.shape]
    exact (HbmWrite.run_write t.write r.packet.sop_head inner framed.2 pending flits inside).2

theorem serve_other : (r.isWrite = false → (t.serve r.packet).write.hbm = t.write.hbm) ∧
      (r.isAtomic = false → (t.serve r.packet).atomic.hbm = t.atomic.hbm) := by
  constructor
  · intro other
    have route : route (taOpcode.get r.packet.head) ≠ 2 := by
      rw [ne_eq, route_eq_two]
      exact Bool.eq_false_iff.mp other
    rw [Handlers.serve, Handlers.input_eq t r.packet 2, if_neg route]
    rfl
  · intro other
    have route : route (taOpcode.get r.packet.head) ≠ 3 := by
      rw [ne_eq, route_eq_three]
      exact Bool.eq_false_iff.mp other
    rw [Handlers.serve, Handlers.input_eq t r.packet 3, if_neg route]
    rfl

theorem Apart.serve {requests : List Request} (apart : Apart t requests) (r : Request) :
    Apart (t.serve r.packet) (requests ++ [r]) where
  read := (HbmRead.hbm_final _ _).trans apart.read
  write := by
    rw [List.filter_append]
    cases kind : r.isWrite with
    | true =>
      rw [List.filter_singleton, kind, cond_true, memory_snoc, serve_write kind, apart.write]
    | false =>
      rw [List.filter_singleton, kind, cond_false, List.append_nil, serve_other.1 kind, apart.write]
  atomic := by
    rw [List.filter_append]
    cases kind : r.isAtomic with
    | true =>
      rw [List.filter_singleton, kind, cond_true, memory_snoc, (serve_atomic kind).1, apart.atomic]
    | false =>
      rw [List.filter_singleton, kind, cond_false, List.append_nil,
        serve_other.2 kind, apart.atomic]

end

theorem apart_run (requests : List Request) : Apart (Handlers.init.run requests) requests := by
  induction requests using List.reverseRecOn with
  | nil => exact apart_init
  | append_singleton requests r ih =>
    rw [Handlers.run, List.foldl_append]
    exact ih.serve r

theorem answer_iff (before : List Request) (r : Request) :
    (∀ value ∈ r.access.returns (memory before),
      (Handlers.init.run before).answer r.packet = some value) ↔ Undisturbed before r := by
  have apart := apart_run before
  rcases r.kinds with atomic | write | read
  · have access := Request.access_atomic atomic
    rw [(serve_atomic atomic).2, apart.atomic, Undisturbed, access]
    simp only [Access.returns, Option.mem_some_iff, forall_eq', Option.some.injEq]
    exact (gather_eq_iff (Nat.le_refl 8)).trans (by simp only [eq_comm])
  · rw [Undisturbed, Request.access_write write]
    simp [Access.returns]
  · rw [serve_read read apart.read, Undisturbed, Request.access_read read]
    simp only [Access.returns, Option.mem_some_iff, forall_eq', Option.some.injEq]
    rw [← gather_zero (UbExt.length r.ext).toNat]
    exact (gather_eq_iff (Request.read_spec read).2).trans (by simp only [eq_comm])

/-- The requests are served as by one memory exactly if each Read finds only zeros there and
each atomic what the atomics alone would have left. -/
theorem coherent_iff (requests : List Request) : Coherent requests ↔
      ∀ before r after, requests = before ++ r :: after → Undisturbed before r := by
  constructor
  · intro coherent before r after split
    exact (answer_iff before r).mp (coherent before r after split)
  · intro undisturbed before r after split
    exact (answer_iff before r).mpr (undisturbed before r after split)

/-- A Write of the 8 bytes of the number 17 at offset 0, in the operand field. -/
def seventeen : Request where
  packet := {
    head := { lane3 := 0x03, sop := true }
    rest := [{ lane1 := 8 <<< 32, lane3 := 17, eop := true }]
    sop_head := rfl
    sop_rest := by decide
    eop_last := by decide }
  ext := { lane1 := 8 <<< 32, lane3 := 17, eop := true }
  payload := []
  shape := rfl
  serves := .inlineWrite (by decide) rfl (by decide) (by decide)

def readFirst : Request where
  packet := {
    head := { lane3 := 0x06, sop := true }
    rest := [{ lane1 := 8 <<< 32, eop := true }]
    sop_head := rfl
    sop_rest := by decide
    eop_last := by decide }
  ext := { lane1 := 8 <<< 32, eop := true }
  payload := []
  shape := rfl
  serves := .read (by decide) rfl (by decide)

/-- The Read returns zero. -/
theorem not_coherent_seventeen : ¬Coherent [seventeen, readFirst] := by
  have expected : readFirst.access.returns (memory [seventeen]) = some 17 := by decide +kernel
  have answer : (Handlers.init.run [seventeen]).answer readFirst.packet = some 0 := by
    decide +kernel
  intro coherent
  have same := coherent [seventeen] readFirst [] rfl 17 expected
  rw [answer] at same
  exact absurd same (by decide)

end OpenURMA.Coherence
