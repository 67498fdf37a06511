import AsyncKernel.Locks.Spin

/-!
# The reader/writer lock of interrupt contexts

`RawInterruptRwLock` of `kernel_lock` delegates to a spinning reader/writer lock. Its
`lock_exclusive` delegates to `lock_shared`, and its `unlock_exclusive` to `unlock_exclusive`: what
it acquires does not exclude anybody, and its release leaves the bit of a writer behind. Here every
operation runs without interruption.

## Main definitions

* `RawSpinRwLock.Op.run`: an acquisition that is not interrupted
* `RawInterruptRwLock.call`, `RawInterruptRwLock.unlock`: the operations
* `RawInterruptRwLock.system`: sequences of successful operations

## Main results

* `RawSpinRwLock.Op.run_eq_some_iff`: when an acquisition succeeds
* `RawInterruptRwLock.rwLock_of_run`: without `lock_exclusive` it is a reader/writer lock
-/

namespace AsyncKernel

namespace RawSpinRwLock

/-- An acquisition that no other operation interrupts: the value when it succeeds. -/
def Op.run (op : Op) (value : ℕ) : Option ℕ :=
  match op.step .load value with
  | (.inl attempt, value) =>
    match op.step attempt value with
    | (.inr true, value) => some value
    -- a try has been refused, or a lock goes on trying
    | _ => none
  | _ => none

/-- When an acquisition that is not interrupted succeeds. -/
theorem Op.run_eq_some_iff {op : Op} {value value' : ℕ} :
    op.run value = some value' ↔
      Admits op.kind value ∧ value' = wrappingAdd value (amount op.kind) := by
  have hshared : value &&& WRITER = value % 2 := Nat.and_one_is_mod value
  by_cases hadmits : Admits op.kind value
  · cases op <;> simp [Op.kind, Admits] at hadmits <;>
      simp [Op.run, Op.step, Op.kind, Admits, RawSpinRwLock.tryLockShared,
        RawSpinRwLock.tryLockExclusive, RawSpinRwLock.lockShared, RawSpinRwLock.lockExclusive,
        lock, tryLock, amount, hshared, hadmits, eq_comm]
  · cases op <;> simp [Op.kind, Admits] at hadmits <;>
      simp [Op.run, Op.step, Op.kind, Admits, RawSpinRwLock.tryLockShared,
        RawSpinRwLock.tryLockExclusive, RawSpinRwLock.lockShared, RawSpinRwLock.lockExclusive,
        lock, tryLock, hshared, hadmits]

end RawSpinRwLock

namespace RawInterruptRwLock

open RawSpinRwLock (Op State Admits)

/-- `assert!(in_interrupt_context())` has failed. -/
structure NotInInterruptContext where
  deriving DecidableEq, Repr

/-- `assert!(in_interrupt_context())`. -/
def assertInInterruptContext (inInterruptContext : Bool) : Except NotInInterruptContext Unit :=
  if inInterruptContext then .ok () else .error ⟨⟩

variable (inInterruptContext : Bool) (value : ℕ)

/-- `lock_shared`: the value when the lock is acquired. -/
def lockShared : Except NotInInterruptContext (Option ℕ) := do
  assertInInterruptContext inInterruptContext
  return Op.lockShared.run value

/-- `try_lock_shared`. -/
def tryLockShared : Except NotInInterruptContext (Option ℕ) := .ok (Op.tryLockShared.run value)

/-- `unlock_shared`. -/
def unlockShared : Except NotInInterruptContext ℕ := .ok (RawSpinRwLock.unlockShared value)

/-- `lock_exclusive`. -/
def lockExclusive : Except NotInInterruptContext (Option ℕ) := do
  assertInInterruptContext inInterruptContext
  -- `self.internal.lock_shared()`, as the source has it
  return Op.lockShared.run value

/-- `try_lock_exclusive`. -/
def tryLockExclusive : Except NotInInterruptContext (Option ℕ) :=
  .ok (Op.tryLockExclusive.run value)

/-- `unlock_exclusive`. -/
def unlockExclusive : Except NotInInterruptContext ℕ := do
  assertInInterruptContext inInterruptContext
  return RawSpinRwLock.unlockExclusive value

/-- An acquisition, by the name of the function that is called. -/
def call (op : Op) : Except NotInInterruptContext (Option ℕ) :=
  match op with
  | .tryLockShared => tryLockShared value
  | .lockShared => lockShared inInterruptContext value
  | .tryLockExclusive => tryLockExclusive value
  | .lockExclusive => lockExclusive inInterruptContext value

/-- The release of a guard. -/
def unlock (kind : Kind) : Except NotInInterruptContext ℕ :=
  match kind with
  | .shared => unlockShared value
  | .exclusive => unlockExclusive inInterruptContext value

variable {inInterruptContext value} {Hart : Type}

/-- An exclusive guard is the only one, and without guards the value is 0 and every acquisition
succeeds. -/
structure IsRwLock (s : State Hart) : Prop where
  alone : ∀ hart, (Kind.exclusive, hart) ∈ s.guards → s.guards = [(.exclusive, hart)]
  free : s.guards = [] → s.value = 0 ∧ ∀ op, ∃ value, call true s.value op = .ok (some value)

/-- Exclusion by the value makes a reader/writer lock. -/
theorem isRwLock_of_exclusive {s : State Hart} (h : s.Exclusive) : IsRwLock s := by
  have hlength : s.guards.length = s.holders .shared + s.holders .exclusive := by
    rw [List.length_eq_countP_add_countP fun g : Kind × Hart => decide (g.1 = .shared)]
    congr 1
    apply List.countP_congr
    rintro ⟨kind, hart⟩ -
    cases kind <;> simp
  constructor
  · intro hart hguard
    have hpos : 0 < s.holders .exclusive := List.countP_pos_iff.mpr ⟨_, hguard, by simp⟩
    have hunique := h.unique
    have halone := h.alone (by omega)
    obtain ⟨g, hg⟩ := List.length_eq_one_iff.mp (by omega : s.guards.length = 1)
    rw [hg, List.mem_singleton] at hguard
    rw [hg, hguard]
  · intro hnil
    have hzero : s.value = 0 := by
      rw [h.value]
      simp [State.holders, hnil]
    refine ⟨hzero, fun op => ?_⟩
    rw [hzero]
    cases op <;> exact ⟨_, rfl⟩

variable [DecidableEq Hart]

inductive Label (Hart : Type)
  /-- a successful acquisition -/
  | acquire (hart : Hart) (op : Op)
  /-- the owner of a guard releases it -/
  | release (hart : Hart) (kind : Kind)

/-- An operation in interrupt context. There is no result when it does not succeed. -/
def next (s : State Hart) : Label Hart → Option (State Hart)
  | .acquire hart op =>
    match call true s.value op with
    | .ok (some value) => some ⟨value, (op.kind, hart) :: s.guards⟩
    | _ => none
  | .release hart kind =>
    match unlock true s.value kind with
    | .ok value =>
      if (kind, hart) ∈ s.guards then some ⟨value, s.guards.erase (kind, hart)⟩ else none
    | .error _ => none

/-- **Sequences of successful operations.** -/
def system (Hart : Type) [DecidableEq Hart] : TransitionSystem (State Hart) (Label Hart) where
  init s := s = ⟨0, []⟩
  step s l s' := next s l = some s'

/-- The operations other than `lock_exclusive` delegate to operations of their own kind. -/
theorem next_cases {s s' : State Hart} {l : Label Hart} (h : next s l = some s')
    (hl : ∀ hart, l ≠ .acquire hart .lockExclusive) :
    (∃ kind hart, Admits kind s.value ∧
      s' = ⟨wrappingAdd s.value (RawSpinRwLock.amount kind), (kind, hart) :: s.guards⟩) ∨
      ∃ kind hart, (kind, hart) ∈ s.guards ∧
        s' = ⟨RawSpinRwLock.unlock kind s.value, s.guards.erase (kind, hart)⟩ := by
  cases l with
  | acquire hart op =>
    have hcall : call true s.value op = .ok (op.run s.value) := by
      cases op with
      | lockExclusive => exact absurd rfl (hl hart)
      | tryLockShared => rfl
      | lockShared => rfl
      | tryLockExclusive => rfl
    simp only [next, hcall] at h
    split at h
    · rename_i value hvalue
      obtain ⟨hadmits, rfl⟩ := Op.run_eq_some_iff.mp (Except.ok.inj hvalue)
      exact Or.inl ⟨op.kind, hart, hadmits, (Option.some.inj h).symm⟩
    · cases h
  | release hart kind =>
    have hunlock : unlock true s.value kind = .ok (RawSpinRwLock.unlock kind s.value) := by
      cases kind <;> rfl
    simp only [next, hunlock] at h
    split at h
    · rename_i hguard
      exact Or.inr ⟨kind, hart, hguard, (Option.some.inj h).symm⟩
    · cases h

/-- The sequences without a successful `lock_exclusive`, in which the readers fit into the value. -/
def sharedSystem (Hart : Type) [DecidableEq Hart] : TransitionSystem (State Hart) (Label Hart) :=
  (system Hart).restrict fun _ l s' =>
    (∀ hart, l ≠ .acquire hart .lockExclusive) ∧ s'.holders .shared < 2 ^ 63

/-- **Without `lock_exclusive` it is a reader/writer lock.** -/
theorem rwLock_of_run {s : State Hart} (h : (sharedSystem Hart).Reachable s) : IsRwLock s := by
  have hinv : s.holders .shared < 2 ^ 63 ∧ s.Exclusive := by
    refine h.invariant (I := fun s => s.holders .shared < 2 ^ 63 ∧ s.Exclusive) ?_ ?_
    · rintro s rfl
      refine ⟨by simp [State.holders], ?_⟩
      constructor <;> simp [State.holders]
    · rintro s l s' ⟨hreaders, hexclusive⟩ ⟨hnext, hl, hreaders'⟩
      refine ⟨hreaders', ?_⟩
      obtain ⟨kind, hart, hadmits, rfl⟩ | ⟨kind, hart, hguard, rfl⟩ := next_cases hnext hl
      · exact hexclusive.acquire hadmits hreaders'
      · exact hexclusive.release hguard hreaders
  exact isRwLock_of_exclusive hinv.2

/-- Two readers, a writer after them, and a reader again. -/
def readersAndWriter : List (Label Bool) :=
  [.acquire false .lockShared, .acquire true .tryLockShared, .release false .shared,
    .release true .shared, .acquire true .tryLockExclusive, .release true .exclusive,
    .acquire false .lockShared]

/-- The lock is free after the readers, and the writer holds it alone. -/
theorem rwLock_of_run_readersAndWriter :
    let run := TransitionSystem.follow next ⟨0, []⟩ readersAndWriter
    run.map Transition.after =
        [⟨2, [(.shared, false)]⟩, ⟨4, [(.shared, true), (.shared, false)]⟩, ⟨2, [(.shared, true)]⟩,
          ⟨0, []⟩, ⟨1, [(.exclusive, true)]⟩, ⟨0, []⟩, ⟨2, [(.shared, false)]⟩] ∧
      (sharedSystem Bool).IsRun ⟨0, []⟩ run ∧ ∀ t ∈ run, IsRwLock t.after := by
  intro run
  have hlabels : run.map Transition.label = readersAndWriter := rfl
  have hreaders : run.map (fun t => t.after.holders .shared) = [1, 2, 1, 0, 0, 0, 1] := rfl
  have hrun : (sharedSystem Bool).IsRun ⟨0, []⟩ run := by
    refine (TransitionSystem.isRun_follow (fun _ _ _ h => h) _ _).restrict fun t ht =>
      ⟨fun hart hlabel => ?_, ?_⟩
    · have hmem : .acquire hart .lockExclusive ∈ readersAndWriter :=
        hlabels ▸ List.mem_map.mpr ⟨t, ht, hlabel⟩
      simp [readersAndWriter] at hmem
    · have hmem : t.after.holders .shared ∈ [1, 2, 1, 0, 0, 0, 1] :=
        hreaders ▸ List.mem_map.mpr ⟨t, ht, rfl⟩
      exact (show ∀ n ∈ [1, 2, 1, 0, 0, 0, 1], n < 2 ^ 63 by decide) _ hmem
  have hreachable := hrun.invariant (I := (sharedSystem Bool).Reachable) (.init rfl)
    fun _ _ hreachable hstep => hreachable.step hstep
  exact ⟨rfl, hrun, fun t ht => rwLock_of_run (hreachable t ht).2⟩

/-- Two harts hold the lock through `lock_exclusive` at once; and after a `lock_exclusive` and its
release nobody holds the lock, the value is 1, and no acquisition succeeds. -/
theorem not_isRwLock_lockExclusive :
    ((system Bool).Reachable ⟨4, [(.exclusive, true), (.exclusive, false)]⟩ ∧
        ¬ IsRwLock (⟨4, [(.exclusive, true), (.exclusive, false)]⟩ : State Bool)) ∧
      (system Bool).Reachable ⟨1, []⟩ ∧ ¬ IsRwLock (⟨1, []⟩ : State Bool) ∧
      ∀ op, call true 1 op = .ok none := by
  have hone : (system Bool).Reachable ⟨2, [(.exclusive, false)]⟩ :=
    .step (l := .acquire false .lockExclusive) (.init rfl) rfl
  refine ⟨⟨?_, ?_⟩, ?_, ?_, ?_⟩
  · exact hone.step (l := .acquire true .lockExclusive) rfl
  · intro h
    have halone := h.alone true List.mem_cons_self
    simp at halone
  · exact hone.step (l := .release false .exclusive) rfl
  · intro h
    have hzero := (h.free rfl).1
    simp at hzero
  · intro op
    cases op <;> rfl

end RawInterruptRwLock

end AsyncKernel
