import AsyncKernel.Foundation.Outcome
import AsyncKernel.Locks.Spin

/-!
# The enable bits of the interrupt controller

`Plic0::set_enabled` changes a bit of the enable array of a context. An array has 32 words of 32 bits,
and the arrays of the contexts follow each other. To enable an interrupt sets its bit; to disable one
masks the word with all ones, and changes nothing.

## Main definitions

* `Plic0`, `Plic0.setEnabled`: a handle, and the change of one bit
* `Plic0.setAll`: calls of several handles, one after the other
* `Plic0.LastWriteWins`: what the calls are to do

## Main results

* `Plic0.setEnabled_eq_ok_iff`: one call enables
* `Plic0.lastWriteWins_iff`: the sequences of calls after which every bit is what its last call said
-/

namespace AsyncKernel

structure Plic0 where
  baseAddr : ℕ
  contextNumber : ℕ
  deriving DecidableEq, Repr

namespace Plic0

/-- What goes wrong: an address that does not fit into a `usize`. -/
inductive Fault
  | overflow
  deriving DecidableEq, Repr

/-- The words of the memory, by their addresses. -/
abbrev Memory : Type := ℕ → BitVec 32

/-- The value of a `usize` expression, when it fits. -/
def checked (n : ℕ) : Except Fault ℕ := if n < usizeCard then .ok n else .error .overflow

/-- `get_context_number`. -/
def getContextNumber (hartid : ℕ) : Except Fault ℕ := do
  let modes ← checked (hartid * 2)
  checked (1 + modes)

/-- `new_with_addr`, on a hart. -/
def newWithAddr (hartid baseAddr : ℕ) : Except Fault Plic0 := do
  let contextNumber ← getContextNumber hartid
  return ⟨baseAddr, contextNumber⟩

/-- `set_enabled`. -/
def setEnabled (p : Plic0) (interrupt : ℕ) (enable : Bool) (mem : Memory) :
    Except Fault Memory := do
  let enablesBase ← checked (p.baseAddr + 0x2000)
  let offset ← checked (p.contextNumber * 0x80)
  let targetBase ← checked (enablesBase + offset)
  let thisRegister ← checked (targetBase + interrupt / 32 * 4)
  if enable then
    let flag := BitVec.ofNat 32 enable.toNat <<< (interrupt % 32)
    return Function.update mem thisRegister (mem thisRegister ||| flag)
  else
    let flag := ~~~(BitVec.ofNat 32 enable.toNat <<< (interrupt % 32))
    return Function.update mem thisRegister (mem thisRegister &&& flag)

/-- A call of `set_enabled`. -/
structure Call where
  plic : Plic0
  interrupt : ℕ
  enable : Bool
  deriving DecidableEq, Repr

/-- Calls of `set_enabled`, one after the other. -/
def setAll (calls : List Call) (mem : Memory) : Except Fault Memory :=
  calls.foldlM (fun mem c => c.plic.setEnabled c.interrupt c.enable mem) mem

/-! ## The enable arrays -/

/-- The word of an interrupt in the enable array of the context. -/
def register (p : Plic0) (interrupt : ℕ) : ℕ :=
  p.baseAddr + 0x2000 + p.contextNumber * 0x80 + interrupt / 32 * 4

/-- The bit of an interrupt. -/
def bit (p : Plic0) (interrupt : ℕ) (mem : Memory) : Bool :=
  (mem (p.register interrupt)).getLsbD (interrupt % 32)

/-- The call is about an interrupt of a context. -/
def Call.On (c : Call) (p : Plic0) (interrupt : ℕ) : Prop :=
  c.plic.contextNumber = p.contextNumber ∧ c.interrupt = interrupt

instance (c : Call) (p : Plic0) (interrupt : ℕ) : Decidable (c.On p interrupt) :=
  inferInstanceAs (Decidable (_ ∧ _))

/-- The last call about an interrupt of a context. -/
def lastCall (calls : List Call) (p : Plic0) (interrupt : ℕ) : Option Call :=
  (calls.filter fun c => c.On p interrupt).getLast?

/-- **Last write wins**: the bit of an interrupt is what its last call said, or what it was, and no
other word has changed. -/
structure LastWriteWins (handles : Set Plic0) (calls : List Call) (mem mem' : Memory) : Prop where
  bits : ∀ p ∈ handles, ∀ n < 1024,
    p.bit n mem' = ((lastCall calls p n).map Call.enable).getD (p.bit n mem)
  frame : ∀ a, (∀ p ∈ handles, ∀ n < 1024, a ≠ p.register n) → mem' a = mem a

variable {p q : Plic0} {mem mem' : Memory} {m n : ℕ} {enable : Bool} {c : Call} {calls : List Call}

/-- Interrupts of the contexts of one controller share a word when the context and the index of the
word agree. -/
theorem register_eq_iff (hbase : p.baseAddr = q.baseAddr) (hm : m < 1024) (hn : n < 1024) :
    p.register m = q.register n ↔ p.contextNumber = q.contextNumber ∧ m / 32 = n / 32 := by
  unfold register
  omega

theorem checked_eq_ok_iff {a b : ℕ} : checked a = .ok b ↔ a < usizeCard ∧ b = a := by
  unfold checked
  split <;> simp_all [eq_comm]

/-- The handles of different harts have different contexts. -/
theorem contextNumber_injective {hartid hartid' baseAddr : ℕ}
    (hp : newWithAddr hartid baseAddr = .ok p) (hq : newWithAddr hartid' baseAddr = .ok q)
    (hcontext : p.contextNumber = q.contextNumber) : hartid = hartid' := by
  have hnumber : ∀ {hart : ℕ} {handle : Plic0}, newWithAddr hart baseAddr = .ok handle →
      handle.contextNumber = 1 + hart * 2 := by
    intro hart handle h
    obtain ⟨context, hget, hhandle⟩ := bind_eq_ok_iff.mp h
    obtain ⟨modes, hmodes, hcontext⟩ := bind_eq_ok_iff.mp hget
    obtain rfl := Except.ok.inj hhandle
    rw [(checked_eq_ok_iff.mp hcontext).2, (checked_eq_ok_iff.mp hmodes).2]
  have hleft := hnumber hp
  have hright := hnumber hq
  omega

/-- What a call writes when it enables an interrupt. -/
def enabled (p : Plic0) (interrupt : ℕ) (mem : Memory) : Memory :=
  Function.update mem (p.register interrupt)
    (mem (p.register interrupt) ||| 1#32 <<< (interrupt % 32))

/-- **One call** enables an interrupt; a call that is to disable one changes nothing. -/
theorem setEnabled_eq_ok_iff : p.setEnabled n enable mem = .ok mem' ↔
    p.register n < usizeCard ∧ mem' = if enable then p.enabled n mem else mem := by
  -- the mask of a call that is to disable is the complement of zero
  have hflag : ~~~(BitVec.ofNat 32 false.toNat <<< (n % 32)) = BitVec.allOnes 32 := by
    rw [Bool.toNat_false, BitVec.zero_shiftLeft]
    rfl
  have hkeep : ∀ a, Function.update mem a
      (mem a &&& ~~~(BitVec.ofNat 32 false.toNat <<< (n % 32))) = mem := by
    intro a
    rw [hflag, BitVec.and_allOnes, Function.update_eq_self]
  unfold setEnabled
  simp only [bind_eq_ok_iff, checked_eq_ok_iff]
  constructor
  · rintro ⟨_, ⟨-, rfl⟩, _, ⟨-, rfl⟩, _, ⟨-, rfl⟩, _, ⟨hlt, rfl⟩, hresult⟩
    refine ⟨hlt, ?_⟩
    cases enable with
    | true => exact (Except.ok.inj hresult).symm
    | false => exact (Except.ok.inj hresult).symm.trans (hkeep _)
  · rintro ⟨hlt, rfl⟩
    unfold register at hlt
    refine ⟨_, ⟨by omega, rfl⟩, _, ⟨by omega, rfl⟩, _, ⟨by omega, rfl⟩, _, ⟨hlt, rfl⟩, ?_⟩
    cases enable with
    | true => rfl
    | false => exact congrArg Except.ok (hkeep _)

/-- The bits after an interrupt has been enabled. -/
theorem bit_enabled (hbase : q.baseAddr = p.baseAddr) (hm : m < 1024) (hn : n < 1024) :
    q.bit m (p.enabled n mem) =
      (q.bit m mem || decide (p.contextNumber = q.contextNumber ∧ n = m)) := by
  unfold bit enabled
  by_cases hregister : q.register m = p.register n
  · obtain ⟨hcontext, hword⟩ := (register_eq_iff hbase hm hn).mp hregister
    have hbit : (1#32 <<< (n % 32)).getLsbD (m % 32) = decide (n = m) := by
      rw [← BitVec.twoPow_eq, BitVec.getLsbD_twoPow]
      have hlt : n % 32 < 32 := Nat.mod_lt _ (by norm_num)
      simp only [hlt, decide_true, Bool.true_and]
      rw [decide_eq_decide]
      omega
    rw [hregister, Function.update_self, BitVec.getLsbD_or, hbit]
    simp [hcontext]
  · have hne : ¬ (p.contextNumber = q.contextNumber ∧ n = m) := by
      rintro ⟨hcontext, rfl⟩
      exact hregister ((register_eq_iff hbase hm hn).mpr ⟨hcontext.symm, rfl⟩)
    rw [Function.update_of_ne hregister, decide_eq_false hne, Bool.or_false]

/-! ## Several calls -/

/-- The calls are on handles of one controller, about interrupts that it has. -/
structure OnHandles (handles : Set Plic0) (calls : List Call) : Prop where
  base : ∀ p ∈ handles, ∀ q ∈ handles, p.baseAddr = q.baseAddr
  mem : ∀ c ∈ calls, c.plic ∈ handles
  interrupt_lt : ∀ c ∈ calls, c.interrupt < 1024

variable {handles : Set Plic0}

/-- **The bits after several calls**: those that were set, and those of the calls that enable. -/
theorem setAll_eq_ok (h : OnHandles handles calls) (hset : setAll calls mem = .ok mem') :
    (∀ c ∈ calls, c.plic.register c.interrupt < usizeCard) ∧
      (∀ p ∈ handles, ∀ n < 1024,
        p.bit n mem' = (p.bit n mem || calls.any fun c => c.On p n && c.enable)) ∧
      ∀ a, (∀ p ∈ handles, ∀ n < 1024, a ≠ p.register n) → mem' a = mem a := by
  obtain ⟨hbase, hmem, hlt⟩ := h
  induction calls generalizing mem with
  | nil =>
    obtain rfl := Except.ok.inj hset
    simp
  | cons c calls ih =>
    rw [setAll, List.foldlM_cons, bind_eq_ok_iff] at hset
    obtain ⟨mem₁, hcall, hset⟩ := hset
    obtain ⟨hregister, hmem₁⟩ := setEnabled_eq_ok_iff.mp hcall
    rw [List.forall_mem_cons] at hmem hlt
    obtain ⟨hregisters, hbits, hframe⟩ := ih hset hmem.2 hlt.2
    refine ⟨List.forall_mem_cons.mpr ⟨hregister, hregisters⟩, fun p hp n hn => ?_, fun a ha => ?_⟩
    · have hfirst : p.bit n mem₁ = (p.bit n mem || (c.On p n && c.enable)) := by
        rw [hmem₁]
        cases c.enable with
        | true =>
          rw [if_pos rfl, bit_enabled (hbase p hp _ hmem.1) hn hlt.1, Bool.and_true]
          rfl
        | false => simp
      rw [hbits p hp n hn, hfirst, List.any_cons, Bool.or_assoc]
    · rw [hframe a ha, hmem₁]
      split
      · exact Function.update_of_ne (ha _ hmem.1 _ hlt.1) _ _
      · rfl

/-- Several calls return when the words fit into the address space. -/
theorem setAll_returns (h : ∀ c ∈ calls, c.plic.register c.interrupt < usizeCard) (mem : Memory) :
    ∃ mem', setAll calls mem = .ok mem' := by
  induction calls generalizing mem with
  | nil => exact ⟨mem, rfl⟩
  | cons c calls ih =>
    obtain ⟨hregister, hregisters⟩ := List.forall_mem_cons.mp h
    obtain ⟨mem', hset⟩ := ih hregisters (if c.enable then c.plic.enabled c.interrupt mem else mem)
    refine ⟨mem', ?_⟩
    rw [setAll, List.foldlM_cons, setEnabled_eq_ok_iff.mpr ⟨hregister, rfl⟩, ok_bind]
    exact hset

/-- No interrupt whose last call is to disable it has been enabled before, by a call or from the
beginning. -/
def NoneToDisable (handles : Set Plic0) (calls : List Call) (mem : Memory) : Prop :=
  ∀ p ∈ handles, ∀ n < 1024, ∀ c ∈ lastCall calls p n, c.enable = false →
    p.bit n mem = false ∧ ∀ c' ∈ calls, c'.On p n → c'.enable = false

theorem mem_of_lastCall (h : lastCall calls p n = some c) : c ∈ calls ∧ c.On p n := by
  have hmem := List.mem_filter.mp (List.mem_of_getLast? h)
  exact ⟨hmem.1, of_decide_eq_true hmem.2⟩

/-- Without a last call there is no call. -/
theorem not_on_of_lastCall (h : lastCall calls p n = none) (hc : c ∈ calls) : ¬ c.On p n := by
  intro hon
  have hnil := List.getLast?_eq_none_iff.mp h
  exact List.filter_eq_nil_iff.mp hnil c hc (decide_eq_true hon)

/-- The bit of an interrupt, after the bits that the calls have set, is what the last call said when
this is to enable, or when there was nothing to disable. -/
theorem or_any_eq_iff {b : Bool} :
    (b || calls.any fun c => c.On p n && c.enable) = ((lastCall calls p n).map Call.enable).getD b ↔
      ∀ c ∈ lastCall calls p n, c.enable = false →
        b = false ∧ ∀ c' ∈ calls, c'.On p n → c'.enable = false := by
  cases hlast : lastCall calls p n with
  | none =>
    have hnone : (calls.any fun c => c.On p n && c.enable) = false := by
      rw [List.any_eq_false]
      intro c hc
      simp [not_on_of_lastCall hlast hc]
    simp [hnone]
  | some c =>
    obtain ⟨hc, hon⟩ := mem_of_lastCall hlast
    simp only [Option.map_some, Option.getD_some, Option.mem_some_iff, forall_eq']
    cases henable : c.enable with
    | true =>
      have hany : (calls.any fun c => c.On p n && c.enable) = true :=
        List.any_eq_true.mpr ⟨c, hc, by simp [hon, henable]⟩
      simp [hany]
    | false => simp [Bool.or_eq_false_iff, List.any_eq_false]

/-- **The sequences of calls after which the last write has won**: no address overflows, and no call
is the last one of an interrupt, to disable it, after it has been enabled. -/
theorem lastWriteWins_iff (h : OnHandles handles calls) :
    (∃ mem', setAll calls mem = .ok mem' ∧ LastWriteWins handles calls mem mem') ↔
      (∀ c ∈ calls, c.plic.register c.interrupt < usizeCard) ∧ NoneToDisable handles calls mem := by
  constructor
  · rintro ⟨mem', hset, hwins⟩
    obtain ⟨hregisters, hbits, -⟩ := setAll_eq_ok h hset
    refine ⟨hregisters, fun p hp n hn => or_any_eq_iff.mp ?_⟩
    rw [← hbits p hp n hn]
    exact hwins.bits p hp n hn
  · rintro ⟨hregisters, hnone⟩
    obtain ⟨mem', hset⟩ := setAll_returns hregisters mem
    obtain ⟨-, hbits, hframe⟩ := setAll_eq_ok h hset
    refine ⟨mem', hset, fun p hp n hn => ?_, hframe⟩
    rw [hbits p hp n hn]
    exact or_any_eq_iff.mpr (hnone p hp n hn)

/-- The controller of a machine, on the first hart. -/
def plic : Plic0 := ⟨0x0c000000, 1⟩

example : newWithAddr 0 0x0c000000 = .ok plic := rfl

/-- The calls of an interrupt that is disabled and then enabled. -/
theorem lastWriteWins_iff_enabled :
    let calls := [⟨plic, 10, false⟩, ⟨plic, 10, true⟩]
    (∃ mem', setAll calls (fun _ => 0) = .ok mem' ∧ LastWriteWins {plic} calls (fun _ => 0) mem') ↔
      (∀ c ∈ calls, c.plic.register c.interrupt < usizeCard) ∧
        NoneToDisable {plic} calls fun _ => 0 := by
  intro calls
  exact lastWriteWins_iff ⟨by simp, by simp [calls], by simp [calls]⟩

/-- An interrupt that is enabled and then disabled stays enabled. -/
theorem not_lastWriteWins_disabled :
    let calls := [⟨plic, 10, true⟩, ⟨plic, 10, false⟩]
    (setAll calls fun _ => 0) = .ok (plic.enabled 10 fun _ => 0) ∧
      ¬ ∃ mem', setAll calls (fun _ => 0) = .ok mem' ∧
        LastWriteWins {plic} calls (fun _ => 0) mem' := by
  intro calls
  have hset : (setAll calls fun _ => 0) = .ok (plic.enabled 10 fun _ => 0) := by
    rw [setAll, List.foldlM_cons, setEnabled_eq_ok_iff.mpr ⟨by decide, rfl⟩, ok_bind,
      List.foldlM_cons, setEnabled_eq_ok_iff.mpr ⟨by decide, rfl⟩]
    rfl
  refine ⟨hset, ?_⟩
  rintro ⟨mem', hmem', hwins⟩
  obtain rfl := Except.ok.inj (hset.symm.trans hmem')
  have hbit := hwins.bits plic rfl 10 (by norm_num)
  rw [bit_enabled rfl (by norm_num) (by norm_num)] at hbit
  revert hbit
  decide

end Plic0

end AsyncKernel
