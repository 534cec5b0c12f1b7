import OpenURMA.Transport.Pipeline

/-!
# The congestion window

`UB_Cong_Window` keeps a window for each channel.  Feedback changes it by steps in mode LDCP (0) and
by halves in mode DCQCN (any other), where the share taken off is an average that never leaves its
initial value of 1.
-/

namespace OpenURMA.CongWindow

open Library Function Nat List

structure Cw where
  cwBytes : ℕ := 65536
  inflightBytes : U64 := 0
  fecnObserved : U64 := 0
  hintObserved : U64 := 0
  alphaQ15 : ℕ := 32768
  mode : U8 := 0

namespace Cw

def ldcp (c : Cw) (hint : ℕ) (fecn : Bool) : Cw :=
  let c := if fecn then
      { c with
        cwBytes := if 4096 < c.cwBytes then c.cwBytes - 4096 else c.cwBytes
        fecnObserved := c.fecnObserved + 1 }
    else c
  if 0 < hint then
    { c with
      cwBytes := min ((c.cwBytes + hint) % 2 ^ 64) 1048576
      hintObserved := c.hintObserved + 1 }
  else c

def dcqcn (c : Cw) (cnp : Bool) : Cw :=
  if cnp then
    let a := min (c.alphaQ15 * 15 % 2 ^ 64 / 16 + 2048) 32768
    let scale := 32768 - a / 2
    { c with alphaQ15 := a, cwBytes := max (c.cwBytes * scale % 2 ^ 64 / 32768) 4096 }
  else c

def hint (lparam0 : U64) : ℕ := (lparam0 &&& 0xFFFF).toNat

/-- Command 5.  Bit 0 of the flags is FECN, bit 1 is CNP. -/
def feedback (c : Cw) (lparam0 lparam1 : U64) : Cw :=
  if c.mode = 0 then c.ldcp (hint lparam0) (lparam1.getLsbD 0) else c.dcqcn (lparam1.getLsbD 1)

end Cw

inductive Event where
  | flit (f : Flit)
  | mode (sparam : U32) (lparam0 : U64)
  | feedback (sparam : U32) (lparam0 lparam1 : U64)

def call (c : Fin 16 → Cw) : Event → Fin 16 → Cw
  | .flit f =>
    let i := idx (UbMeta.dcna.get f)
    if f.sop then
      update c i { c i with inflightBytes := (c i).inflightBytes + 64 }
    else c
  | .mode sparam lparam0 =>
    update c (idx sparam) { c (idx sparam) with mode := lparam0.setWidth 8 }
  | .feedback sparam lparam0 lparam1 =>
    update c (idx sparam) ((c (idx sparam)).feedback lparam0 lparam1)

theorem inflightBytes_call (c : Fin 16 → Cw) (f : Flit) :
    (fun i => (call c (.flit f) i).inflightBytes) =
      (step.next ⟨fun i => (c i).inflightBytes⟩ f).inflightBytes := by
  funext i
  simp only [call, Mealy.next, step]
  cases f.sop with
  | false => rfl
  | true =>
    by_cases here : i = idx (UbMeta.dcna.get f)
    · rw [here]
      simp
    · simp [update_of_ne here]

namespace Cw

structure Sound (c : Cw) : Prop where
  positive : 1 ≤ c.cwBytes
  bounded : c.cwBytes ≤ 1048576
  alpha : c.alphaQ15 = 32768

variable {c : Cw}

theorem hint_lt (lparam0 : U64) : hint lparam0 < 65536 := by
  have low : (lparam0 &&& 0xFFFF).toNat ≤ (0xFFFF : U64).toNat := by
    rw [BitVec.toNat_and]
    exact and_le_right
  exact lt_succ_of_le low

theorem cwBytes_ldcp (sound : c.Sound) {hint : ℕ} (small : hint < 65536) (fecn : Bool) :
    (c.ldcp hint fecn).cwBytes =
      min ((if fecn ∧ 4096 < c.cwBytes then c.cwBytes - 4096 else c.cwBytes) + hint) 1048576 := by
  have bounded := sound.bounded
  unfold ldcp
  rcases Nat.eq_zero_or_pos hint with rfl | positive
  · cases fecn with
    | false => simpa using bounded
    | true =>
      simp only [if_true, lt_irrefl, if_false, true_and, add_zero]
      split <;> omega
  · cases fecn with
    | false =>
      simp only [positive, Bool.false_eq_true, if_false, if_true, false_and]
      omega
    | true =>
      simp only [positive, if_true, true_and]
      split <;> omega

theorem dcqcn_cnp (sound : c.Sound) :
    c.dcqcn true = { c with cwBytes := max (c.cwBytes / 2) 4096 } := by
  have bounded := sound.bounded
  have alpha : min (c.alphaQ15 * 15 % 2 ^ 64 / 16 + 2048) 32768 = 32768 := by
    rw [sound.alpha]
    decide
  have half : c.cwBytes * (32768 - 32768 / 2) % 2 ^ 64 / 32768 = c.cwBytes / 2 := by omega
  rw [dcqcn, if_pos rfl]
  simp only [alpha, half]
  rw [← sound.alpha]

theorem Sound.feedback (sound : c.Sound) (lparam0 lparam1 : U64) :
    (c.feedback lparam0 lparam1).Sound := by
  have positive := sound.positive
  have bounded := sound.bounded
  unfold Cw.feedback
  split
  · have bytes := cwBytes_ldcp sound (hint_lt lparam0) (lparam1.getLsbD 0)
    refine ⟨?_, by omega, ?_⟩
    · rw [bytes]
      split <;> omega
    · rw [← sound.alpha]
      unfold ldcp
      cases lparam1.getLsbD 0 <;> dsimp only <;> split <;> rfl
  · cases cnp : lparam1.getLsbD 1 with
    | false => exact sound
    | true =>
      rw [dcqcn_cnp sound]
      exact ⟨by simp only; omega, by simp only; omega, sound.alpha⟩

end Cw

variable (events : List Event)

def run : Fin 16 → Cw := events.foldl call fun _ => {}

theorem run_snoc (e : Event) : run (events ++ [e]) = call (run events) e := by
  rw [run, foldl_append]
  rfl

theorem sound_call {c : Fin 16 → Cw} (sound : ∀ i, (c i).Sound) (e : Event) (i : Fin 16) :
    (call c e i).Sound := by
  have update : ∀ (j : Fin 16) (d : Cw), d.Sound → (update c j d i).Sound := by
    intro j d other
    by_cases here : i = j
    · rw [here, update_self]
      exact other
    · rw [update_of_ne here]
      exact sound i
  cases e with
  | flit f =>
    unfold call
    dsimp only
    split
    · exact update _ _ ⟨(sound _).positive, (sound _).bounded, (sound _).alpha⟩
    · exact sound i
  | mode sparam lparam0 =>
    exact update _ _ ⟨(sound _).positive, (sound _).bounded, (sound _).alpha⟩
  | feedback sparam lparam0 lparam1 => exact update _ _ ((sound _).feedback lparam0 lparam1)

theorem sound_run (i : Fin 16) : (run events i).Sound := by
  induction events using List.reverseRecOn generalizing i with
  | nil =>
    have fresh : ({} : Cw).Sound := ⟨by decide, by decide, rfl⟩
    exact fresh
  | append_singleton events e ih =>
    rw [run_snoc]
    exact sound_call ih e i

def Event.IsCnp (i : Fin 16) : Event → Prop
  | .feedback sparam _ lparam1 => idx sparam = i ∧ lparam1.getLsbD 1 = true
  | _ => False

theorem call_cnp {c : Fin 16 → Cw} {i : Fin 16} {e : Event} (cnp : e.IsCnp i)
    (sound : (c i).Sound) (mode : (c i).mode ≠ 0) :
    call c e i = { c i with cwBytes := max ((c i).cwBytes / 2) 4096 } := by
  cases e with
  | flit f => exact cnp.elim
  | mode sparam lparam0 => exact cnp.elim
  | feedback sparam lparam0 lparam1 =>
    obtain ⟨rfl, flag⟩ := cnp
    rw [call, update_self, Cw.feedback, if_neg mode, flag, Cw.dcqcn_cnp sound]

theorem cwBytes_cnps {i : Fin 16} {cnps : List Event}
    (all : ∀ e ∈ cnps, e.IsCnp i) (mode : (run events i).mode ≠ 0)
    (large : 4096 ≤ (run events i).cwBytes) : (run (events ++ cnps) i).mode ≠ 0 ∧
      (run (events ++ cnps) i).cwBytes = max 4096 ((run events i).cwBytes / 2 ^ cnps.length) := by
  induction cnps using List.reverseRecOn with
  | nil => simpa using ⟨mode, large⟩
  | append_singleton cnps e ih =>
    rw [forall_mem_append, forall_mem_singleton] at all
    obtain ⟨mode', bytes⟩ := ih all.1
    have step := call_cnp all.2 (sound_run (events ++ cnps) i) mode'
    rw [← append_assoc, run_snoc, step]
    refine ⟨mode', ?_⟩
    have next : (run events i).cwBytes / 2 ^ (cnps ++ [e]).length =
        (run events i).cwBytes / 2 ^ cnps.length / 2 := by
      rw [length_append, length_singleton, pow_succ, Nat.div_div_eq_div_mul]
    rw [next, bytes]
    dsimp only
    omega

/-- The laws of the window in every state that packets, mode changes and feedback lead to. -/
theorem window_laws (i : Fin 16) :
    (run events i).Sound ∧ (∀ lparam0 lparam1 : U64, (run events i).mode = 0 → Cw.hint lparam0 = 0 →
        ((run events i).feedback lparam0 lparam1).cwBytes ≤ (run events i).cwBytes) ∧
      (∀ lparam0 lparam1 : U64, (run events i).mode = 0 → lparam1.getLsbD 0 = false →
        ((run events i).feedback lparam0 lparam1).cwBytes =
          min ((run events i).cwBytes + Cw.hint lparam0) 1048576) ∧
      ∀ cnps : List Event, (∀ e ∈ cnps, e.IsCnp i) → (run events i).mode ≠ 0 →
        4096 ≤ (run events i).cwBytes → (run (events ++ cnps) i).cwBytes =
          max 4096 ((run events i).cwBytes / 2 ^ cnps.length) := by
  have sound := sound_run events i
  refine ⟨sound, fun lparam0 lparam1 mode none => ?_, fun lparam0 lparam1 mode fecn => ?_,
    fun cnps all mode large => (cwBytes_cnps events all mode large).2⟩
  · rw [Cw.feedback, if_pos mode, Cw.cwBytes_ldcp sound (Cw.hint_lt lparam0), none]
    split <;> omega
  · rw [Cw.feedback, if_pos mode, Cw.cwBytes_ldcp sound (Cw.hint_lt lparam0), fecn]
    simp

end OpenURMA.CongWindow
