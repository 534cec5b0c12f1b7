import OpenURMA.Memory.HbmWrite

/-!
# `UB_Atomic_CAS`

The handler of atomics: it reads 8 bytes of its memory, computes the value to write back from
the operands in the flit, and returns the value read in the operand field.  Every flit behind
the metadata is treated that way until the packet ends.
-/

namespace OpenURMA.AtomicCas

open Library UbMeta UbExt BitVec

def hbmSize : U64 := 64 * 1024

structure State where
  hbm : Buffer
  sawMeta : Bool
  curOp : U8
  casCount : U64
  swapCount : U64
  faaCount : U64
  logicCount : U64
  storeCount : U64
  loadCount : U64

def init : State where
  hbm _ := 0
  sawMeta := false
  curOp := 0
  casCount := 0
  swapCount := 0
  faaCount := 0
  logicCount := 0
  storeCount := 0
  loadCount := 0

/-- The 8 bytes at an offset, with the index computed in 64 bits. -/
def load (hbm : Buffer) (off : U64) : U64 :=
  gather (fun i => hbm (off + BitVec.ofNat 64 i).toNat) 8

theorem load_eq_gather {off : U64} (inside : off.toNat + 8 ≤ 65536) (hbm : Buffer) :
    load hbm off = gather (fun i => hbm (off.toNat + i)) 8 := by
  apply (gather_eq_iff (Nat.le_refl 8)).mpr
  intro i low
  apply congrArg hbm
  rw [toNat_add, toNat_ofNat]
  omega

def result (op : U8) (cur operand swp : U64) : Option U64 :=
  if op == taopAtomicCas then if cur == operand then some swp else none
  else if op == taopAtomicSwap then some operand
  else if op == taopAtomicStore then some operand
  else if op == taopAtomicLoad then none
  else if op == taopAtomicFaa then some (cur + operand)
  else if op == taopAtomicFsub then some (cur - operand)
  else if op == taopAtomicFand then some (cur &&& operand)
  else if op == taopAtomicFor then some (cur ||| operand)
  else if op == taopAtomicFxor then some (cur ^^^ operand)
  else some cur

def count (op : U8) (s : State) : State :=
  if op == taopAtomicCas then { s with casCount := s.casCount + 1 }
  else if op == taopAtomicSwap then { s with swapCount := s.swapCount + 1 }
  else if op == taopAtomicStore then { s with storeCount := s.storeCount + 1 }
  else if op == taopAtomicLoad then { s with loadCount := s.loadCount + 1 }
  else if op == taopAtomicFaa || op == taopAtomicFsub then
    { s with faaCount := s.faaCount + 1 }
  else if op == taopAtomicFand || op == taopAtomicFor || op == taopAtomicFxor then
    { s with logicCount := s.logicCount + 1 }
  else s

def writeBack (hbm : Buffer) (off : U64) : Option U64 → Buffer
  | none => hbm
  | some word => HbmWrite.store hbm off (wordOctets word)

def modify (op : U8) (off operand swp : U64) (hbm : Buffer) : Buffer :=
  writeBack hbm off (result op (load hbm off) operand swp)

/-- The flit is taken for the extension flit of an atomic inside the memory. -/
def accesses (s : State) (f : Flit) : Bool :=
  isAtomic s.curOp && address f + 8 ≤ hbmSize

def execute (s : State) (f : Flit) : State × Flit :=
  let off := address f
  let operand := opData f
  let swp := (tokenValue f).setWidth 64
  ({ count s.curOp s with hbm := modify s.curOp off operand swp s.hbm },
    setOpData (load s.hbm off) f)

def step : Mealy State Flit (Ports Flit) := fun s f =>
  if f.sop then
    ({ s with curOp := taOpcode.get f, sawMeta := true }, Ports.emit 1 f)
  else if s.sawMeta then
    let (s₁, g) := if accesses s f then execute s f else (s, f)
    (if g.eop then { s₁ with sawMeta := false, curOp := 0 } else s₁, Ports.emit 1 g)
  else
    (s, Ports.silent)

def Idle (s : State) : Prop := s.sawMeta = false

/-- The offset of the read-modify-write that a call does, if it does one. -/
def access (s : State) (f : Flit) : Option Nat :=
  if !f.sop && s.sawMeta && accesses s f then some (address f).toNat else none

/-- The offsets of the read-modify-writes of a run, in order. -/
def offsets : State → List Flit → List Nat
  | _, [] => []
  | s, f :: flits => (access s f).toList ++ offsets (step s f).1 flits

theorem step_inner {s : State} (saw : s.sawMeta = true) {f : Flit} (inner : f.sop = false)
    (inside : accesses s f = true) :
    step s f = (if f.eop then { (execute s f).1 with sawMeta := false, curOp := 0 }
      else (execute s f).1, Ports.emit 1 (execute s f).2) := by
  have last : (execute s f).2.eop = f.eop := Flit.eop_set _ _ _
  rw [step, inner, saw, inside]
  simp only [Bool.false_eq_true, if_false, if_true, last]

theorem accesses_of_inside {s : State} (atomic : isAtomic s.curOp = true) {f : Flit}
    (inside : (address f).toNat + 8 ≤ 65536) : accesses s f = true := by
  have bound : address f + 8 ≤ hbmSize := by
    rw [le_def, toNat_add]
    change ((address f).toNat + 8) % 2 ^ 64 ≤ 65536
    omega
  rw [accesses, atomic, decide_eq_true bound]
  rfl

theorem count_keeps (op : U8) (s : State) :
    (count op s).curOp = s.curOp ∧ (count op s).sawMeta = s.sawMeta := by
  unfold count
  repeat' split
  all_goals exact ⟨rfl, rfl⟩

/-- The state in which the extension flit of a request is found. -/
structure Awaits (s : State) (op : U8) : Prop where
  sawMeta : s.sawMeta = true
  curOp : s.curOp = op

theorem awaits_meta (s : State) {m : Flit} (sop : m.sop = true) :
    Awaits (step s m).1 (taOpcode.get m) ∧ (step s m).1.hbm = s.hbm ∧
      (step s m).2 = Ports.emit 1 m := by
  rw [step, if_pos sop]
  exact ⟨⟨rfl, rfl⟩, rfl, rfl⟩

section

variable {s : State} {op : U8} (awaits : Awaits s op) (atomic : isAtomic op = true)
variable {f : Flit} (inner : f.sop = false) (inside : (address f).toNat + 8 ≤ 65536)
include awaits atomic inner inside

theorem step_executes :
    access s f = some (address f).toNat ∧ (step s f).1.hbm = modify op (address f) (opData f)
        ((tokenValue f).setWidth 64) s.hbm ∧
      (step s f).2 = Ports.emit 1 (setOpData (load s.hbm (address f)) f) ∧
      (f.eop = false → Awaits (step s f).1 op) ∧ (f.eop = true → Idle (step s f).1) := by
  have here : accesses s f = true := accesses_of_inside (awaits.curOp ▸ atomic) inside
  obtain ⟨curOp, sawMeta⟩ := count_keeps s.curOp s
  rw [step_inner awaits.sawMeta inner here]
  refine ⟨?_, ?_, rfl, ?_, ?_⟩
  · simp [access, inner, awaits.sawMeta, here]
  · rw [← awaits.curOp]
    cases f.eop <;> rfl
  · intro more
    rw [more]
    exact ⟨sawMeta.trans awaits.sawMeta, curOp.trans awaits.curOp⟩
  · intro last
    rw [last]
    rfl

end

variable (s : State) {m e : Flit} (sop : m.sop = true)
variable (atomic : isAtomic (taOpcode.get m) = true) (inner : e.sop = false)
variable (more : e.eop = false) (inside : (address e).toNat + 8 ≤ 65536)
include sop atomic inner more inside

/-- An atomic whose packet ends with a flit of zeros is executed a second time, at offset 0. -/
theorem offsets_trailer : offsets s [m, e, { eop := true }] = [(address e).toNat, 0] := by
  have none : access s m = none := by simp [access, sop]
  have first := step_executes (awaits_meta s sop).1 atomic inner inside
  have second := step_executes (f := { eop := true }) (first.2.2.2.1 more) atomic rfl (by decide)
  simp only [offsets, none, first.1, second.1]
  rfl

theorem hbm_trailer : (step.final s [m, e, { eop := true }]).hbm =
    modify (taOpcode.get m) 0 0 0 (modify (taOpcode.get m) (address e)
      (opData e) ((tokenValue e).setWidth 64) s.hbm) := by
  obtain ⟨awaits, same, _⟩ := awaits_meta s sop
  have first := step_executes awaits atomic inner inside
  have second := step_executes (f := { eop := true }) (first.2.2.2.1 more) atomic rfl (by decide)
  rw [Mealy.final_cons, Mealy.final_cons, Mealy.final_cons, Mealy.final_nil, second.2.1,
    first.2.1, same]
  rfl

end OpenURMA.AtomicCas
