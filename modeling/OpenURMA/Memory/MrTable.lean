import OpenURMA.Opcode
import OpenURMA.Packet

/-!
# `UB_MR_Table`

The table of registered memory regions: 64 slots addressed by the low bits of the
TokenID.  The metadata flit of a request passes on port 1; its extension flit is looked
up, range-checked and translated, and goes to port 1 or, if rejected, to port 2.
-/

namespace OpenURMA.MrTable

open Library UbMeta UbExt Ports BitVec Option

structure MR where
  tokenId : U32
  tokenValue : U32
  vaBase : U64
  hbmOffset : U64
  length : U32
  perm : U8
  valid : Bool
  deriving DecidableEq, Inhabited

structure State where
  table : Fin 64 → MR
  sawMeta : Bool
  reject : Bool
  curIsSend : Bool
  sawExt : Bool

def init (memory : Fin 64 → MR) : State where
  table i := { memory i with valid := false }
  sawMeta := false
  reject := false
  curIsSend := false
  sawExt := false

def idx (tid : U32) : Fin 64 :=
  ⟨(tid &&& 63).toNat, BitField.and_63_lt tid⟩

/-- The slot holds a region registered under this TokenID. -/
def hit (mr : MR) (tid : U32) : Bool := mr.valid && mr.tokenId == tid

def inRange (mr : MR) (va : U64) (len : U32) : Bool :=
  !(va < mr.vaBase || va + len.setWidth 64 > mr.vaBase + mr.length.setWidth 64)

def translate (mr : MR) (va : U64) : U64 := (va - mr.vaBase) + mr.hbmOffset

theorem toNat_translate_of_le {mr : MR} {va : U64} (above : mr.vaBase.toNat ≤ va.toNat) :
    (translate mr va).toNat = (va.toNat - mr.vaBase.toNat + mr.hbmOffset.toNat) % 2 ^ 64 := by
  rw [translate, toNat_add, toNat_sub_of_le (by rwa [le_def])]

def checkExt (s : State) (f : Flit) : State × Ports Flit :=
  let tid := tokenId f
  let mr := s.table (idx tid)
  let va := address f
  let passes := hit mr tid && inRange mr va (UbExt.length f)
  let g := if passes then setAddress (translate mr va) f else f
  let reject := s.reject || !passes
  ({ s with
      reject
      sawMeta := if f.eop then false else s.sawMeta
      sawExt := !f.eop },
    emit (if reject then 2 else 1) g)

def step : Mealy State Flit (Ports Flit) := fun s f =>
  if f.sop then
    ({ s with
        sawMeta := true
        reject := false
        sawExt := false
        -- a Send targets a posted receive entry, not a registered region
        curIsSend := isSend (taOpcode.get f) }, emit 1 f)
  else if s.sawMeta && s.curIsSend then
    (if f.eop then { s with sawMeta := false, curIsSend := false } else s, emit 1 f)
  else if s.sawMeta && s.sawExt then
    (if f.eop then { s with sawMeta := false, sawExt := false } else s, emit 1 f)
  else if s.sawMeta then
    checkExt s f
  else
    (s, silent)

def Idle (s : State) : Prop := s.sawMeta = false ∧ s.sawExt = false

structure Signal where
  cmd : U32
  sparam : U32
  lparam : Fin 5 → U64

/-- The table entry that a registration writes. -/
def Signal.region (event : Signal) : MR where
  tokenId := event.sparam
  tokenValue := (event.lparam 0).setWidth 32
  vaBase := event.lparam 1
  hbmOffset := event.lparam 2
  length := (event.lparam 3).setWidth 32
  perm := (event.lparam 4).setWidth 8
  valid := true

/-- `.signal`: 1 registers a region, 2 deregisters a TokenID, 3 looks one up. -/
def signal (s : State) (event : Signal) : State × List U64 :=
  let i := idx event.sparam
  if event.cmd == 1 then
    ({ s with table := Function.update s.table i event.region }, [1])
  else if event.cmd == 2 then
    ({ s with table := Function.update s.table i { s.table i with valid := false } }, [1])
  else if event.cmd == 3 then
    (s, [(s.table i).hbmOffset, (s.table i).length.setWidth 64, if (s.table i).valid then 1 else 0])
  else
    (s, [])

structure AwaitsExt (s : State) : Prop where
  sawMeta : s.sawMeta = true
  notSend : s.curIsSend = false
  noExt : s.sawExt = false
  accepted : s.reject = false

theorem step_meta (s : State) {m : Flit} (sop : m.sop = true)
    (request : isSend (taOpcode.get m) = false) :
    AwaitsExt (step s m).1 ∧ (step s m).1.table = s.table ∧ (step s m).2 = emit 1 m := by
  have call : step s m = ({ s with
      sawMeta := true, reject := false, sawExt := false,
      curIsSend := isSend (taOpcode.get m) }, emit 1 m) := by
    rw [step, if_pos sop]
  rw [call]
  exact ⟨⟨rfl, request, rfl, rfl⟩, rfl, rfl⟩

variable {s : State} {e : Flit}

theorem step_ext (awaits : AwaitsExt s) (inner : e.sop = false) : step s e = checkExt s e := by
  simp [step, inner, awaits.sawMeta, awaits.notSend, awaits.noExt]

def Admits (table : Fin 64 → MR) (e : Flit) : Prop :=
  hit (table (idx (tokenId e))) (tokenId e) = true ∧
    inRange (table (idx (tokenId e))) (address e) (UbExt.length e) = true
deriving Decidable

def translated (table : Fin 64 → MR) (e : Flit) : Flit :=
  setAddress (translate (table (idx (tokenId e))) (address e)) e

theorem checkExt_admitted (awaits : AwaitsExt s) (admits : Admits s.table e) :
    (checkExt s e).2 = emit 1 (translated s.table e) := by
  simp [checkExt, admits.1, admits.2, awaits.accepted, translated]

theorem checkExt_refused (refused : ¬ Admits s.table e) : (checkExt s e).2 = emit 2 e := by
  have fails : (hit (s.table (idx (tokenId e))) (tokenId e) &&
      inRange (s.table (idx (tokenId e))) (address e) (UbExt.length e)) =
        false := by
    rw [Bool.eq_false_iff]
    intro passes
    exact refused (Bool.and_eq_true_iff.mp passes)
  simp [checkExt, fails]

theorem forwarded_iff (awaits : AwaitsExt s) {g : Flit} (inner : e.sop = false) :
    (step s e).2 1 = some g ↔ Admits s.table e ∧ g = translated s.table e := by
  rw [step_ext awaits inner]
  by_cases admits : Admits s.table e
  · rw [checkExt_admitted awaits admits, emit_same]
    simp [admits, eq_comm]
  · rw [checkExt_refused admits, emit_other (by omega)]
    simp [admits]

theorem streams_payload (sawMeta : s.sawMeta = true) (notSend : s.curIsSend = false)
    (sawExt : s.sawExt = true) :
    Streams step s { s with sawMeta := false, sawExt := false } 1 where
  more f inner more := by simp [step, inner, more, sawMeta, notSend, sawExt]
  last f inner last := by simp [step, inner, last, sawMeta, notSend, sawExt]

theorem run_payload (awaits : AwaitsExt s) {payload : List Flit}
    (inner : ∀ f ∈ payload, f.sop = false) (framed : EopLast (e :: payload)) :
    Idle (step.final (checkExt s e).1 payload) ∧
      (step.final (checkExt s e).1 payload).table = s.table ∧
      sent 1 (step.trace (checkExt s e).1 payload) = payload := by
  cases payload with
  | nil =>
    have last : e.eop = true := framed
    exact ⟨⟨by simp [checkExt, last], by simp [checkExt, last]⟩, rfl, rfl⟩
  | cons f payload =>
    have more : e.eop = false := framed.1
    have streams := streams_payload (s := (checkExt s e).1)
      (by simp [checkExt, more, awaits.sawMeta]) awaits.notSend (by simp [checkExt, more])
    obtain ⟨final, trace⟩ := streams.run (f :: payload) inner framed.2
    rw [final, trace, sent_map_emit]
    exact ⟨⟨rfl, rfl⟩, rfl, rfl⟩

section

variable (s : State) (p : Packet) {e : Flit} {payload : List Flit}
variable (shape : p.rest = e :: payload)
variable (request : isSend (taOpcode.get p.head) = false)
include shape request

theorem run_request : Idle (step.final s p.flits) ∧ (step.final s p.flits).table = s.table ∧
      ∃ s₁, AwaitsExt s₁ ∧ s₁.table = s.table ∧ sent 1 (step.trace s p.flits) =
          p.head :: (((checkExt s₁ e).2 1).toList ++ payload) := by
  obtain ⟨awaits, table, passes⟩ := step_meta s p.sop_head request
  have inner := p.sop_rest
  have framed := p.eop_last
  rw [shape] at inner framed
  have checked : step (step s p.head).1 e = checkExt (step s p.head).1 e :=
    step_ext awaits (inner e (by simp))
  obtain ⟨idle, kept, sent⟩ :=
      run_payload awaits (fun f member => inner f (by simp [member])) framed.2
  rw [Packet.flits, shape]
  simp only [Mealy.final_cons, Mealy.trace_cons, sent_cons, passes, checked, sent,
    emit_same, toList_some, List.cons_append, List.nil_append]
  exact ⟨idle, kept.trans table, (step s p.head).1, awaits, table, rfl⟩

theorem run_admitted (admits : Admits s.table e) :
    Idle (step.final s p.flits) ∧ (step.final s p.flits).table = s.table ∧
      sent 1 (step.trace s p.flits) = p.head :: translated s.table e :: payload := by
  obtain ⟨idle, kept, s₁, awaits, table, sent⟩ := run_request s p shape request
  rw [← table] at admits
  rw [checkExt_admitted awaits admits, emit_same, table] at sent
  exact ⟨idle, kept, sent⟩

/-- A rejected request loses its extension flit, but its metadata and its payload pass. -/
theorem run_refused (refused : ¬ Admits s.table e) :
    Idle (step.final s p.flits) ∧ (step.final s p.flits).table = s.table ∧
      sent 1 (step.trace s p.flits) = p.head :: payload := by
  obtain ⟨idle, kept, s₁, awaits, table, sent⟩ := run_request s p shape request
  rw [← table] at refused
  rw [checkExt_refused refused, emit_other (by decide)] at sent
  exact ⟨idle, kept, sent⟩

end

theorem sop_step (s : State) {f g : Flit} {port : Nat} (out : (step s f).2 port = some g) :
    g.sop = f.sop := by
  have translated : ∀ mr, (if hit mr (tokenId f) &&
      inRange mr (address f) (UbExt.length f) then
        setAddress (translate mr (address f)) f else f).sop = f.sop := by
    intro mr
    split
    · exact Flit.sop_set ..
    · rfl
  rw [step] at out
  repeat' split at out
  case isFalse.isFalse.isFalse.isFalse => exact (some_ne_none _ out.symm).elim
  all_goals rw [(emit_eq_some.mp out).2]
  exact translated _

theorem sop_of_mem_sent {flits : List Flit} (inner : ∀ f ∈ flits, f.sop = false) {port : Nat}
    {g : Flit} (sent : g ∈ sent port (step.trace s flits)) :
    g.sop = false := by
  induction flits generalizing s with
  | nil => simp at sent
  | cons f flits ih =>
    rw [Mealy.trace_cons, sent_cons, List.mem_append, mem_toList] at sent
    rcases sent with now | later
    · rw [sop_step s now]
      exact inner f (by simp)
    · exact ih (fun h member => inner h (by simp [member])) later

end OpenURMA.MrTable
