import OpenURMA.Library.Run
import OpenURMA.Provider.MemorySafety

/-!
# Tokens of registered segments

A registration takes its token from the low six bits of a counter that token allocations advance as
well, and the table of regions has 1024 entries. A token names one region exactly as long as no
region is registered a multiple of 64 steps of the counter after one that is still registered. The
kernel module hands out tokens in the same way.
-/

namespace OpenURMA

open BitVec (ofNat)

/-- The token that a counter gives when it stands at `n`. -/
def tokenAt (n : ℕ) : U32 := ofNat 32 n &&& 0x3F

theorem tokenAt_eq_iff {m n : ℕ} : tokenAt m = tokenAt n ↔ m ≡ n [MOD 64] := by
  have low : ∀ k, (tokenAt k).toNat = k % 64 := by
    intro k
    change (ofNat 32 k).toNat &&& (2 ^ 6 - 1) = _
    rw [Nat.and_two_pow_sub_one_eq_mod, BitVec.toNat_ofNat]
    omega
  rw [← BitVec.toNat_inj, low, low]
  rfl

/-- A counter that advances takes its unbounded value along. -/
theorem ofNat_advance {seq : U32} {now : ℕ} (counter : seq = ofNat 32 now) (seq' : U32) :
    seq' = ofNat 32 (now + (seq' - seq).toNat) := by
  rw [BitVec.ofNat_add, BitVec.ofNat_toNat, BitVec.setWidth_eq, ← counter]
  exact (add_sub_cancel ..).symm

namespace Provider

open Library Function

/-- The event registers a segment. -/
def Registers (c : Ctx) : Event → Bool
  | .registerSeg va len alloc => (ouRegisterSeg c va len alloc).2.isSome
  | _ => false

def DistinctTokens (regions : Fin 1024 → Region) : Prop :=
  ∀ i j, (regions i).active = true → (regions j).active = true →
    (regions i).token = (regions j).token → i = j

/-- A state with its dates: where the counter stands, had it not wrapped around, and where it stood
when a region was registered. -/
structure Dated where
  world : World
  now : ℕ
  born : Fin 1024 → ℕ

namespace Dated

def start (localCna remote : U32) (memory : ByteMap) : Dated :=
  ⟨.start localCna remote memory, 1, fun _ => 0⟩

/-- The counter advances with the event; a region that is not registered before the event gets the
date at which it begins. -/
def next (d : Dated) (event : Event) : Dated where
  world := step.next d.world event
  now := d.now + ((step.next d.world event).ctx.tokenSeq - d.world.ctx.tokenSeq).toNat
  born i := if (d.world.ctx.regions i).active then d.born i else d.now

/-- A registration does not come a multiple of 64 steps of the counter after that of a region which
is still registered. -/
def Spaced (d : Dated) (event : Event) : Prop :=
  Registers d.world.ctx event = true →
    ∀ i, (d.world.ctx.regions i).active = true → ¬d.born i ≡ d.now [MOD 64]

instance (d : Dated) (event : Event) : Decidable (d.Spaced event) :=
  inferInstanceAs (Decidable (_ → _))

/-- Every token is that of the date of its region. -/
structure Sound (d : Dated) : Prop where
  counter : d.world.ctx.tokenSeq = ofNat 32 d.now
  tokens : ∀ i, (d.world.ctx.regions i).active = true →
    (d.world.ctx.regions i).token = tokenAt (d.born i)

end Dated

variable {c : Ctx} {event : Event} {regions : Fin 1024 → Region}

inductive RegionsMove (c : Ctx) (event : Event) : (Fin 1024 → Region) → Prop where
  | kept (quiet : Registers c event = false) : RegionsMove c event c.regions
  | added {va len : U64} {i : Fin 1024} (registers : Registers c event = true)
      (free : (c.regions i).active = false) :
      RegionsMove c event (update c.regions i ⟨va, len, c.tokenSeq &&& 0x3F, true⟩)
  | removed (i : Fin 1024) (quiet : Registers c event = false) :
      RegionsMove c event (update c.regions i { c.regions i with active := false })

theorem RegionsMove.of_eq (quiet : Registers c event = false) (same : regions = c.regions) :
    RegionsMove c event regions := by
  rw [same]
  exact .kept quiet

theorem regions_visit (c : Ctx) (failed : Bool) (backstop : U32) (cqe : ℕ) :
    (visit c failed backstop cqe).1.regions = c.regions := by
  obtain ⟨e, pending, -, settle⟩ := settles c failed
  unfold visit
  rw [settle]
  dsimp only
  split
  · rfl
  · split <;> rfl

theorem regions_harvest (failed : Bool) (backstop : U32) (fuel : ℕ) (c : Ctx) (cqe : ℕ) :
    (harvest failed backstop fuel c cqe).1.regions = c.regions := by
  induction fuel generalizing c cqe with
  | zero => rfl
  | succ fuel ih =>
    have visit := regions_visit c failed backstop cqe
    rw [harvest]
    split
    · rfl
    · split
      · next found => rw [found] at visit; exact visit
      · next found => rw [found] at visit; exact (ih _ _).trans visit

theorem regions_posts {wr : JfsWr} {result : Ctx × Posting} (posts : Posts c wr result) :
    result.1.regions = c.regions := by
  have numbered : (c.numbered wr.opcode).regions = c.regions := by
    unfold Ctx.numbered
    split <;> rfl
  cases posts with
  | refused _ after =>
    rcases after with rfl | rfl
    · rfl
    · exact numbered
  | recorded => exact numbered

theorem regionsMove_registerSeg (c : Ctx) (va len : U64) (alloc : Bool) :
    RegionsMove c (.registerSeg va len alloc) (ouRegisterSeg c va len alloc).1.regions := by
  by_cases refused : (!alloc || va == 0 || len == 0) = true
  · have call : ouRegisterSeg c va len alloc = (c, none) := if_pos refused
    exact .of_eq (by rw [Registers, call]; rfl) (by rw [call])
  · cases found : (List.finRange 1024).find? fun i => !(c.regions i).active with
    | none =>
      have call : ouRegisterSeg c va len alloc = ({ c with tokenSeq := c.tokenSeq + 1 }, none) := by
        rw [ouRegisterSeg, if_neg refused]
        simp only [found]
      exact .of_eq (by rw [Registers, call]; rfl) (by rw [call])
    | some i =>
      have call : ouRegisterSeg c va len alloc = ({ c with
          tokenSeq := c.tokenSeq + 1
          regions := update c.regions i ⟨va, len, c.tokenSeq &&& 0x3F, true⟩ },
          some ⟨va, c.tokenSeq &&& 0x3F⟩) := by
        rw [ouRegisterSeg, if_neg refused]
        simp only [found]
      have free := List.find?_some found
      rw [call]
      exact .added (by rw [Registers, call]; rfl) (by simpa using free)

theorem regionsMove_unregisterSeg (c : Ctx) (s : Seg) :
    RegionsMove c (.unregisterSeg s) (ouUnregisterSeg c s).1.regions := by
  unfold ouUnregisterSeg
  split
  · exact .kept rfl
  · exact .removed _ rfl

theorem regionsMove (w : World) (event : Event) :
    RegionsMove w.ctx event (step w event).1.ctx.regions := by
  cases event with
  | registerSeg va len alloc =>
    simp only [step]
    exact regionsMove_registerSeg w.ctx va len alloc
  | unregisterSeg s =>
    simp only [step]
    exact regionsMove_unregisterSeg w.ctx s
  | allocTokenId alloc =>
    simp only [step, ouAllocTokenId]
    split <;> exact .kept rfl
  | postRecv wr =>
    simp only [step, ouPostJettyRecvWr]
    split <;> exact .kept rfl
  | post wr o => exact .of_eq rfl (regions_posts (posts w.ctx w.memory wr o))
  | frame tag buf flen malloc =>
    obtain ⟨h, call, handles⟩ := handles w.ctx w.memory buf flen tag malloc
    simp only [step, call]
    exact .of_eq rfl (by cases handles <;> rfl)
  | poll flits failed backstop count =>
    exact .of_eq rfl (regions_harvest failed backstop maxOut _ _)
  | store memory => exact .kept rfl

variable {d : Dated}

namespace Dated

variable (sound : Sound d)
include sound

theorem Sound.next (event : Event) : Sound (d.next event) where
  counter := ofNat_advance sound.counter _
  tokens i active := by
    have move : RegionsMove _ _ (step.next d.world event).ctx.regions := regionsMove d.world event
    change ((step.next d.world event).ctx.regions i).active = true at active
    change ((step.next d.world event).ctx.regions i).token = tokenAt (if _ then _ else _)
    generalize (step.next d.world event).ctx.regions = regions at move active
    have old : (d.world.ctx.regions i).active = true → (d.world.ctx.regions i).token =
        tokenAt (if (d.world.ctx.regions i).active then d.born i else d.now) := fun active => by
      rw [if_pos active]
      exact sound.tokens i active
    cases move with
    | kept => exact old active
    | @added _ _ k _ free =>
      by_cases here : i = k
      · subst here
        rw [update_self, if_neg (by simp [free]), tokenAt, ← sound.counter]
      · rw [update_of_ne here] at active ⊢
        exact old active
    | removed k =>
      by_cases here : i = k
      · subst here
        rw [update_self] at active
        cases active
      · rw [update_of_ne here] at active ⊢
        exact old active

/-- After the event, tokens are distinct exactly if it is no registration at a bad moment. -/
theorem Sound.spaced_iff (distinct : DistinctTokens d.world.ctx.regions) (event : Event) :
    d.Spaced event ↔ DistinctTokens (step.next d.world event).ctx.regions := by
  have move : RegionsMove _ _ (step.next d.world event).ctx.regions := regionsMove d.world event
  generalize (step.next d.world event).ctx.regions = regions at move ⊢
  unfold Spaced
  cases move with
  | kept quiet => simpa [quiet] using distinct
  | @added va len k registers free =>
    have token : ∀ i, (d.world.ctx.regions i).active = true →
        ((d.world.ctx.regions i).token = d.world.ctx.tokenSeq &&& 0x3F ↔
          d.born i ≡ d.now [MOD 64]) := by
      intro i active
      rw [sound.tokens i active, sound.counter, ← tokenAt_eq_iff]
      rfl
    have other : ∀ i, (d.world.ctx.regions i).active = true → i ≠ k := by
      rintro i active rfl
      exact Bool.false_ne_true (free.symm.trans active)
    constructor
    · intro spaced i j active active' same
      by_cases here : i = k
      · subst here
        by_contra apart
        rw [update_of_ne (Ne.symm apart)] at active' same
        rw [update_self] at same
        exact spaced registers j active' ((token j active').mp same.symm)
      · rw [update_of_ne here] at active same
        by_cases there : j = k
        · subst there
          rw [update_self] at same
          exact absurd ((token i active).mp same) (spaced registers i active)
        · rw [update_of_ne there] at active' same
          exact distinct i j active active' same
    · intro distinct' _ i active due
      have apart := other i active
      refine apart (distinct' i k ?_ ?_ ?_)
      · rw [update_of_ne apart]
        exact active
      · rw [update_self]
      · rw [update_of_ne apart, update_self]
        exact (token i active).mpr due
  | removed k quiet =>
    -- the remaining regions are as before
    have old : ∀ i, (update d.world.ctx.regions k
        { d.world.ctx.regions k with active := false } i).active = true →
        i ≠ k ∧ (d.world.ctx.regions i).active = true := by
      intro i active
      by_cases here : i = k
      · subst here
        rw [update_self] at active
        cases active
      · rw [update_of_ne here] at active
        exact ⟨here, active⟩
    simp only [quiet, Bool.false_eq_true, false_imp_iff, true_iff]
    intro i j active active' same
    obtain ⟨here, active⟩ := old i active
    obtain ⟨there, active'⟩ := old j active'
    rw [update_of_ne here, update_of_ne there] at same
    exact distinct i j active active' same

theorem Sound.along_iff (distinct : DistinctTokens d.world.ctx.regions) {events : List Event} :
    Along Dated.next Spaced d events ↔
      Along step.next (fun w event => DistinctTokens (step.next w event).ctx.regions) d.world
        events := by
  induction events generalizing d with
  | nil => exact Iff.rfl
  | cons event events ih =>
    rw [Along, Along, sound.spaced_iff distinct event]
    exact and_congr_right fun distinct' => ih (sound.next event) distinct'

end Dated

/-- A frame with the token of a region gets at no octet outside of that region. -/
def StaysInRegion (w : World) (tag : U8) (buf : Buffer) (h : Handled) : Prop :=
  ∀ i, (w.ctx.regions i).active = true → (w.ctx.regions i).token = u32At buf 8 →
    (tag = dWrite → ∀ copy ∈ h.writes, ∀ address, copy.span.Contains address →
      (w.ctx.regions i).span.Contains address) ∧
    ∀ span ∈ h.loads, ∀ address, span.Contains address → (w.ctx.regions i).span.Contains address

theorem staysInRegion {w : World} (distinct : DistinctTokens w.ctx.regions) {tag : U8}
    {buf : Buffer} {h : Handled} (confined : Confined w tag buf h) : StaysInRegion w tag buf h := by
  intro i active token
  constructor
  · rintro rfl copy member address inside
    have permitted := confined.writes copy member address inside
    generalize kind : dWrite = tag at permitted
    cases permitted with
    | @region j _ active' token' within =>
      obtain rfl := distinct i j active active' (token.trans token'.symm)
      exact within
    | receive => exact absurd kind (by decide)
    | read => exact absurd kind (by decide)
  · intro span member address inside
    obtain ⟨j, active', token', within⟩ := confined.loads span member address inside
    obtain rfl := distinct i j active active' (token.trans token'.symm)
    exact within

end Provider

namespace Kmod

open Library

structure TargetSeg where
  va : U64
  len : U64
  tokenId : U32
  deriving DecidableEq

/-- The device: the counter, and the segments that have been registered and not freed. -/
structure Dev where
  tokenSeq : U32
  segs : List TargetSeg

def Dev.init : Dev := ⟨1, []⟩

def Dev.nextToken (d : Dev) : U32 := (d.tokenSeq + 1) &&& 0x3F

def ouAllocTokenId (d : Dev) (alloc : Bool) : Dev × Option U32 :=
  if !alloc then (d, none) else ({ d with tokenSeq := d.tokenSeq + 1 }, some d.nextToken)

def ouRegisterSeg (d : Dev) (va len : U64) (alloc : Bool) : Dev × Option TargetSeg :=
  if !alloc then (d, none)
  else
    let s : TargetSeg := ⟨va, len, d.nextToken⟩
    ({ tokenSeq := d.tokenSeq + 1, segs := d.segs ++ [s] }, some s)

def ouUnregisterSeg (d : Dev) (place : ℕ) : Dev := { d with segs := d.segs.eraseIdx place }

inductive Event where
  | allocTokenId (alloc : Bool)
  | registerSeg (va len : U64) (alloc : Bool)
  | unregisterSeg (place : ℕ)

def Dev.next (d : Dev) : Event → Dev
  | .allocTokenId alloc => (ouAllocTokenId d alloc).1
  | .registerSeg va len alloc => (ouRegisterSeg d va len alloc).1
  | .unregisterSeg place => ouUnregisterSeg d place

/-- A state of the device with the same dates as those of the provider. -/
structure Dated where
  dev : Dev
  now : ℕ
  born : List ℕ

namespace Dated

def start : Dated := ⟨.init, 1, []⟩

def next (d : Dated) (event : Event) : Dated where
  dev := d.dev.next event
  now := d.now + ((d.dev.next event).tokenSeq - d.dev.tokenSeq).toNat
  born := match event with
    | .registerSeg _ _ true => d.born ++ [d.now + 1]
    | .unregisterSeg place => d.born.eraseIdx place
    | _ => d.born

def Spaced (d : Dated) : Event → Prop
  | .registerSeg _ _ true => ∀ n ∈ d.born, ¬n ≡ d.now + 1 [MOD 64]
  | _ => True

structure Sound (d : Dated) : Prop where
  counter : d.dev.tokenSeq = ofNat 32 d.now
  tokens : d.dev.segs.map TargetSeg.tokenId = d.born.map tokenAt

variable {d : Dated} {event : Event} (sound : Sound d)
include sound

theorem Sound.nextToken : d.dev.nextToken = tokenAt (d.now + 1) := by
  rw [Dev.nextToken, sound.counter, tokenAt, BitVec.ofNat_add]
  rfl

theorem Sound.next (event : Event) : Sound (d.next event) where
  counter := ofNat_advance sound.counter _
  tokens := by
    rcases event with alloc | ⟨va, len, _ | _⟩ | place
    · cases alloc <;> exact sound.tokens
    · exact sound.tokens
    · simp only [Dated.next, Dev.next, ouRegisterSeg, Bool.not_true, Bool.false_eq_true, if_false,
        List.map_append, List.map_singleton, sound.tokens, sound.nextToken]
    · simp only [Dated.next, Dev.next, ouUnregisterSeg, ← List.eraseIdx_map, sound.tokens]

theorem Sound.spaced_iff (distinct : (d.dev.segs.map TargetSeg.tokenId).Nodup) (event : Event) :
    d.Spaced event ↔ ((d.dev.next event).segs.map TargetSeg.tokenId).Nodup := by
  rcases event with alloc | ⟨va, len, _ | _⟩ | place
  · cases alloc <;> exact iff_of_true trivial distinct
  · exact iff_of_true trivial distinct
  · simp only [Dev.next, ouRegisterSeg, Bool.not_true, Bool.false_eq_true, if_false,
      List.map_append, List.map_singleton]
    rw [sound.nextToken, ← List.concat_eq_append, List.nodup_concat, and_iff_left distinct,
      sound.tokens]
    simp only [Spaced, List.mem_map, tokenAt_eq_iff, not_exists, not_and]
  · exact iff_of_true trivial (distinct.sublist ((List.eraseIdx_sublist ..).map _))

theorem Sound.along_iff (distinct : (d.dev.segs.map TargetSeg.tokenId).Nodup)
    {events : List Event} :
    Along Dated.next Spaced d events ↔
      Along Dev.next (fun d event => ((d.next event).segs.map TargetSeg.tokenId).Nodup) d.dev
        events := by
  induction events generalizing d with
  | nil => exact Iff.rfl
  | cons event events ih =>
    rw [Along, Along, sound.spaced_iff distinct event]
    exact and_congr_right fun distinct' => ih (sound.next event) distinct'

end Dated

end Kmod

namespace Provider

open Library

theorem distinctTokens_final {w : World} (distinct : DistinctTokens w.ctx.regions)
    {events : List Event} (always : Along step.next
      (fun w event => DistinctTokens (step.next w event).ctx.regions) w events) :
    DistinctTokens (step.final w events).ctx.regions := by
  induction events generalizing w with
  | nil => exact distinct
  | cons event events ih => exact ih always.1 always.2

/-- The tokens of registered regions are distinct throughout a run exactly if no registration comes
a multiple of 64 steps of the counter after that of a region which is still registered.  Then a
frame with the token of one region does not touch another one.  The segments of the kernel module
have distinct tokens under the same condition. -/
theorem token_names_region (localCna remote : U32) (memory : ByteMap) (events : List Event)
    (kernelEvents : List Kmod.Event) :
    let d := Dated.start localCna remote memory
    let w := step.final d.world events
    (Along Dated.next Dated.Spaced d events ↔ Along step.next
      (fun w event => DistinctTokens (step.next w event).ctx.regions) d.world events) ∧
    (Along Dated.next Dated.Spaced d events →
      ∀ (tag : U8) (buf : Buffer) (flen : U32) (malloc : Bool × Bool) (h : Handled),
        ouDataCb w.ctx w.memory buf flen tag malloc = some h → StaysInRegion w tag buf h) ∧
    (Along Kmod.Dated.next Kmod.Dated.Spaced .start kernelEvents ↔ Along Kmod.Dev.next
      (fun d event => ((d.next event).segs.map Kmod.TargetSeg.tokenId).Nodup)
        .init kernelEvents) := by
  intro d w
  have sound : d.Sound := ⟨rfl, nofun⟩
  have distinct : DistinctTokens d.world.ctx.regions := nofun
  have kernel : Kmod.Dated.start.Sound := ⟨rfl, rfl⟩
  refine ⟨sound.along_iff distinct, fun spaced tag buf flen malloc h call => ?_,
    kernel.along_iff List.nodup_nil⟩
  have distinct' := distinctTokens_final distinct ((sound.along_iff distinct).mp spaced)
  have reads : w.ctx.LocalReads := localReads_final (localReads_init localCna remote) events
  obtain ⟨h', call', handles⟩ := handles w.ctx w.memory buf flen tag malloc
  obtain rfl := Option.some.inj (call'.symm.trans call)
  exact staysInRegion distinct' (confined reads handles)

def twoSegments : List Event :=
  [.registerSeg 0x1000 8 true, .allocTokenId true, .registerSeg 0x2000 8 true]

/-- Two segments that are registered two steps apart. -/
theorem distinctTokens_twoSegments : Along step.next
    (fun w event => DistinctTokens (step.next w event).ctx.regions) (World.start 0 0 fun _ => 0)
      twoSegments :=
  (token_names_region 0 0 (fun _ => 0) twoSegments []).1.mp (by decide +kernel)

/-- A segment, enough token allocations for the counter to come round, and another segment. -/
def wrappedTokens : List Event :=
  .registerSeg 0x1000 8 true :: List.replicate 63 (.allocTokenId true) ++
    [.registerSeg 0x2000 8 true]

/-- Both segments have token 1, and a frame with that token gets at either. -/
theorem not_distinctTokens_wrapped :
    let c := (step.final (World.start 0 0 fun _ => 0) wrappedTokens).ctx
    c.regions 0 = ⟨0x1000, 8, 1, true⟩ ∧ c.regions 1 = ⟨0x2000, 8, 1, true⟩ ∧
      ouRegionValidLocked c 0x1000 8 1 = true ∧ ouRegionValidLocked c 0x2000 8 1 = true := by
  decide +kernel

end Provider

end OpenURMA
