import OpenURMA.Fields

/-!
# Opcodes, service modes and protocol constants

The constants of `ub_flit.hpp` that the modelled elements test or stamp, with the
opcode classes that several elements spell out in the same way.
-/

namespace OpenURMA

open Bool

def taopSend : U8 := 0x00
def taopSendImm : U8 := 0x01
def taopWrite : U8 := 0x03
def taopWriteImm : U8 := 0x04
def taopWriteNotify : U8 := 0x05
def taopRead : U8 := 0x06
def taopAtomicCas : U8 := 0x07
def taopAtomicSwap : U8 := 0x08
def taopAtomicStore : U8 := 0x09
def taopAtomicLoad : U8 := 0x0A
def taopAtomicFaa : U8 := 0x0B
def taopAtomicFsub : U8 := 0x0C
def taopAtomicFand : U8 := 0x0D
def taopAtomicFor : U8 := 0x0E
def taopAtomicFxor : U8 := 0x0F
def taopTaack : U8 := 0x11
def taopReadResp : U8 := 0x12
def taopAtomicResp : U8 := 0x13
def taopWriteBe : U8 := 0x14
def taopPrefetchTgt : U8 := 0x15
def taopWriteback : U8 := 0x17
def taopWritebackBe : U8 := 0x18
def taopLdstLoad : U8 := 0x40
def taopLdstStore : U8 := 0x41
def taopLdstLoadResp : U8 := 0x42
def taopLdstStoreAck : U8 := 0x43

section

variable (taop : U8)

def isWriteClass : Bool :=
  taop == taopWrite || taop == taopWriteBe || taop == taopWriteNotify ||
    taop == taopWriteImm || taop == taopWriteback || taop == taopWritebackBe

def isAtomic : Bool :=
  taopAtomicCas ≤ taop && taop ≤ taopAtomicFxor

def isSend : Bool :=
  taop == taopSend || taop == taopSendImm

def isResp : Bool :=
  taop == taopTaack || taop == taopReadResp || taop == taopAtomicResp

/-- Opcodes whose packets carry a MAETAH. -/
def needsMae : Bool :=
  isWriteClass taop || taop == taopRead || taop == taopPrefetchTgt || isAtomic taop

def accessesMemory : Bool :=
  taop == taopRead || isWriteClass taop || isAtomic taop

end

variable {taop : U8}

theorem isSend_of_accessesMemory (access : accessesMemory taop = true) : isSend taop = false := by
  rw [eq_false_iff]
  intro send
  simp only [isSend, or_eq_true, beq_iff_eq] at send
  rcases send with rfl | rfl <;> revert access <;> decide

theorem isWriteClass_spec (write : isWriteClass taop = true) :
    isResp taop = false ∧ needsMae taop = true ∧ isSend taop = false ∧ taop ≠ taopRead := by
  simp only [isWriteClass, or_eq_true, beq_iff_eq] at write
  rcases write with ((((rfl | rfl) | rfl) | rfl) | rfl) | rfl <;> decide

theorem isAtomic_spec (atomic : isAtomic taop = true) :
    isResp taop = false ∧ needsMae taop = true ∧ isSend taop = false ∧ taop ≠ taopRead ∧
      isWriteClass taop = false := by
  revert taop
  decide +kernel

theorem isResp_spec (response : isResp taop = true) :
    needsMae taop = false ∧ isAtomic taop = false ∧ isSend taop = false ∧
      isWriteClass taop = false := by
  simp only [isResp, or_eq_true, beq_iff_eq] at response
  rcases response with (rfl | rfl) | rfl <;> decide

/-! ## TPOpcode, service modes, response status, next-layer protocol -/

def tpopUtp : U8 := 0x00
def tpopRtpData : U8 := 0x01
def tpopTpack : U8 := 0x02
def tpopTpackCc : U8 := 0x03
def tpopTpsack : U8 := 0x05
def tpopTpsackCc : U8 := 0x06
def tpopCnp : U8 := 0x08
def tpopLastBit : U8 := 0x80

def svcRoi : U8 := 0
def svcRot : U8 := 1
def svcRol : U8 := 2
def svcUno : U8 := 3

def odrNo : U8 := 0
def odrRo : U8 := 1
def odrSo : U8 := 2

def rspstOk : U8 := 0
def rspstTargetErr : U8 := 3
def rspstTpackWTaack : U8 := 5

def nthNlpTpbypass : U8 := 0x1
def nthNlpRtph : U8 := 0x2
def nthNlpUtph : U8 := 0x3

def ubEthertype : U16 := 0x88B5

end OpenURMA
