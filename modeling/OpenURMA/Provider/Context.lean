import OpenURMA.Flit
import OpenURMA.Library.ByteMap
import OpenURMA.Library.Ring

/-!
# The context of the UMDK provider

The state of a context with one object of each kind: a jetty with the ring of outstanding work
requests, a JFR with the ring of posted receives, a JFC with the ring of completions, and the table
of registered regions. The objects come from `calloc`, so all memory is zero at first; a null
pointer is address 0.
-/

namespace OpenURMA.Provider

open Library BitVec

abbrev maxRecv : ℕ := 256

abbrev maxOut : ℕ := 4096

def maxDataFrameBody : U32 := (1 <<< 16) - 2

/-- The opcodes of work requests; `other` stands for those that `ou_post_one` treats as CAS. -/
inductive Opcode where
  | write
  | writeImm
  | read
  | send
  | sendImm
  | cas
  | other
  deriving DecidableEq, Inhabited

/-- An element of `out`, a work request that awaits its completion. -/
structure Out where
  userCtx : U64
  op : Opcode
  len : U32
  localVa : U64
  req : U32
  waited : U32
  status : U32
  deriving DecidableEq, Inhabited

/-- An element of `rq`, a posted receive. -/
structure Recv where
  buf : U64
  len : U32
  userCtx : U64
  deriving DecidableEq, Inhabited

structure Cr where
  status : U32
  completionLen : U32
  userCtx : U64
  deriving DecidableEq, Inhabited

structure Region where
  va : U64
  len : U64
  token : U32
  active : Bool
  deriving DecidableEq, Inhabited

def Region.span (r : Region) : Span := ⟨r.va, r.len.toNat⟩

structure PendingAck where
  req : U32
  status : U32
  valid : Bool
  deriving DecidableEq, Inhabited

structure Ctx where
  localCna : U32
  remote : U32
  tokenSeq : U32
  reqSeq : U32
  jetty : Ring maxOut Out
  jfr : Ring maxRecv Recv
  jfc : Ring maxOut Cr
  regions : Fin 1024 → Region
  pendingWriteAck : Fin maxOut → PendingAck
  malformedFrames : U32

def Out.blank : Out := ⟨0, .send, 0, 0, 0, 0, 0⟩

def Ctx.init (localCna remote : U32) : Ctx where
  localCna := localCna
  remote := remote
  tokenSeq := 1
  reqSeq := 1
  jetty := ⟨fun _ => .blank, 0, 0⟩
  jfr := ⟨fun _ => ⟨0, 0, 0⟩, 0, 0⟩
  jfc := ⟨fun _ => ⟨0, 0, 0⟩, 0, 0⟩
  regions _ := ⟨0, 0, 0, false⟩
  pendingWriteAck _ := ⟨0, 0, false⟩
  malformedFrames := 0

/-! ### Completion codes

The numbers are those of `urma_cr_status_t`.  All that matters is that success is zero and the
others are not. -/

def crSuccess : U32 := 0
def crRemRespLenErr : U32 := 5
def crRemOperationErr : U32 := 7
def crRemAccessAbortErr : U32 := 8
def crAckTimeoutErr : U32 := 9

def dWrite : U8 := 0x57
def dWriteAck : U8 := 0x41
def dSend : U8 := 0x53
def dReadRq : U8 := 0x52
def dReadRsp : U8 := 0x72

structure DataFrame where
  tag : U8
  body : List Byte

def u32Octets (word : U32) : List Byte := (wordOctets (word.setWidth 64)).take 4

@[simp] theorem u32Octets_length (word : U32) : (u32Octets word).length = 4 := by
  simp [u32Octets]

def ouRegionValidLocked (c : Ctx) (va : U64) (len token : U32) : Bool :=
  (List.finRange 1024).any fun i =>
    let r := c.regions i
    if !r.active || r.token != token || va < r.va then false
    else
      let offset := va - r.va
      offset ≤ r.len && len.setWidth 64 ≤ r.len - offset

theorem exists_region_of_valid {c : Ctx} {va : U64} {len token : U32}
    (valid : ouRegionValidLocked c va len token = true) :
    ∃ i, (c.regions i).active = true ∧ (c.regions i).token = token ∧
      (va - (c.regions i).va).toNat + len.toNat ≤ (c.regions i).len.toNat := by
  simp only [ouRegionValidLocked, List.any_eq_true] at valid
  obtain ⟨i, -, here⟩ := valid
  split at here
  · cases here
  · next passes =>
    obtain ⟨⟨active, token⟩, -⟩ : ((c.regions i).active = true ∧ (c.regions i).token = token) ∧
        ¬va < (c.regions i).va := by simpa using passes
    simp only [Bool.and_eq_true, decide_eq_true_eq] at here
    refine ⟨i, active, token, ?_⟩
    obtain ⟨below, fits⟩ := here
    have wide : (len.setWidth 64).toNat = len.toNat := by
      rw [toNat_setWidth]
      exact Nat.mod_eq_of_lt (by omega)
    rw [le_def] at below fits
    rw [wide, toNat_sub_of_le (le_def.mpr below)] at fits
    omega

structure Seg where
  va : U64
  token : U32

variable (c : Ctx)

def ouRegisterSeg (va len : U64) (alloc : Bool) : Ctx × Option Seg :=
  if !alloc || va == 0 || len == 0 then (c, none)
  else
    let token := c.tokenSeq &&& 0x3F
    let c := { c with tokenSeq := c.tokenSeq + 1 }
    match (List.finRange 1024).find? fun i => !(c.regions i).active with
    | none => (c, none)
    | some i =>
      ({ c with regions := Function.update c.regions i ⟨va, len, token, true⟩ }, some ⟨va, token⟩)

def ouUnregisterSeg (s : Seg) : Ctx × Bool :=
  match (List.finRange 1024).find? fun i =>
      (c.regions i).active && (c.regions i).va == s.va && (c.regions i).token == s.token with
  | none => (c, false)
  | some i =>
    ({ c with regions := Function.update c.regions i { c.regions i with active := false } }, true)

theorem ouRegisterSeg_eq (va len : U64) (alloc : Bool) :
    ∃ tokenSeq regions, (ouRegisterSeg c va len alloc).1 =
      { c with tokenSeq := tokenSeq, regions := regions } := by
  unfold ouRegisterSeg
  split
  · exact ⟨c.tokenSeq, c.regions, rfl⟩
  · dsimp only
    split
    · exact ⟨c.tokenSeq + 1, c.regions, rfl⟩
    · exact ⟨c.tokenSeq + 1, _, rfl⟩

theorem ouUnregisterSeg_eq (s : Seg) :
    ∃ regions, (ouUnregisterSeg c s).1 = { c with regions := regions } := by
  unfold ouUnregisterSeg
  split
  · exact ⟨c.regions, rfl⟩
  · exact ⟨_, rfl⟩

def ouAllocTokenId (alloc : Bool) : Ctx × Option U32 :=
  if !alloc then (c, none)
  else ({ c with tokenSeq := c.tokenSeq + 1 }, some (c.tokenSeq &&& 0x3F))

end OpenURMA.Provider
