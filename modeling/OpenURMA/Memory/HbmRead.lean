import OpenURMA.Opcode
import OpenURMA.Packet

/-!
# `UB_HBM_Read`

The handler of Reads: a memory of 8192 words, of which the word at the address of the request is
returned in the operand field of the extension flit.
-/

namespace OpenURMA.HbmRead

open Library Ports

def hbmWords : U32 := (64 * 1024) / 8

structure State where
  hbm : Nat → U64
  sawMeta : Bool

def init : State where
  hbm _ := 0
  sawMeta := false

def fetch (hbm : Nat → U64) (f : Flit) : U64 :=
  let widx : U32 := (UbExt.address f >>> 3).setWidth 32
  let data := if widx < hbmWords then hbm widx.toNat else 0
  let len := UbExt.length f
  if len < 8 then data &&& (if len == 0 then 0 else (1 <<< (len * 8).toNat) - 1) else data

def step : Mealy State Flit (Ports Flit) := fun s f =>
  if f.sop then
    ({ s with sawMeta := true }, emit 1 f)
  else if s.sawMeta then
    let g := UbExt.setOpData (fetch s.hbm f) f
    (if g.eop then { s with sawMeta := false } else s, emit 1 g)
  else
    (s, silent)

theorem hbm_step (s : State) (f : Flit) : (step s f).1.hbm = s.hbm := by
  unfold step
  cases f.sop with
  | true => rfl
  | false =>
    cases s.sawMeta with
    | true =>
      simp only [Bool.false_eq_true, if_false, if_true]
      split <;> rfl
    | false => rfl

theorem hbm_final (s : State) (flits : List Flit) : (step.final s flits).hbm = s.hbm := by
  induction flits generalizing s with
  | nil => rfl
  | cons f flits ih => rw [Mealy.final_cons, ih, hbm_step]

theorem fetch_zero (f : Flit) : fetch (fun _ => 0) f = 0 := by
  simp only [fetch, ite_self]
  split
  · exact BitVec.zero_and
  · rfl

theorem sent_request (s : State) {m e : Flit} (sop : m.sop = true) (inner : e.sop = false) :
    sent 1 (step.trace s [m, e]) = [m, UbExt.setOpData (fetch s.hbm e) e] := by
  have call : step s m = ({ s with sawMeta := true }, emit 1 m) := by
    rw [step, if_pos sop]
  have answer : (step { s with sawMeta := true } e).2 =
      emit 1 (UbExt.setOpData (fetch s.hbm e) e) := by
    rw [step, if_neg (by simp [inner])]
    rfl
  rw [Mealy.trace_cons, Mealy.trace_cons, call]
  simp only [answer, Mealy.trace_nil, sent_cons, emit_same]
  rfl

end OpenURMA.HbmRead
