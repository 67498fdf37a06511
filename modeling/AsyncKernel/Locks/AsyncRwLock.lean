import AsyncKernel.Foundation.Notify
import AsyncKernel.Locks.InterruptRwLock

/-!
# The asynchronous reader/writer lock

`AsyncRwLock` of `kernel_lock`. Readers and writers register their wakers in one list. Every release,
also that of one reader among several, wakes all of them and then clears the list.

## Main definitions

* `AsyncRwLock.poll`, `AsyncRwLock.forceUnlock`: the operations, from the steps they take on the raw
  lock and on the list
* `AsyncRwLock.system`: futures and guards on one lock, each poll and each drop without interruption

## Main results

* `AsyncRwLock.invariants`: the value counts the guards, nobody is in the list of a free lock, and
  whoever is not in the list has been woken
-/

namespace AsyncKernel

open Notify (Parked)
open RawSpinRwLock (Admits Op amount)

variable {ι W : Type}

/-- The lock, without the value it protects, and the wakers that it has woken. -/
structure AsyncRwLock (W : Type) where
  wakers : List W
  value : ℕ
  woken : List W
  deriving DecidableEq, Repr

namespace AsyncRwLock

/-- `AsyncRwLock::new`. -/
def new : AsyncRwLock W := ⟨[], 0, []⟩

/-- The acquisition that a future tries. -/
def tryLock : Kind → Op
  | .shared => .tryLockShared
  | .exclusive => .tryLockExclusive

/-- `wakers.lock().push(waker)`. -/
def register (lock : AsyncRwLock W) (waker : W) : AsyncRwLock W :=
  { lock with wakers := lock.wakers ++ [waker] }

/-- A poll: whether it is ready with a guard, and the lock afterwards. -/
def poll (kind : Kind) (lock : AsyncRwLock W) (waker : W) : Bool × AsyncRwLock W :=
  match (tryLock kind).run lock.value with
  | some value => (true, { lock with value })
  | none => (false, lock.register waker)

/-- `RwLockReadFuture::poll`. -/
def pollRead : AsyncRwLock W → W → Bool × AsyncRwLock W := poll .shared

/-- `RwLockWriteFuture::poll`. -/
def pollWrite : AsyncRwLock W → W → Bool × AsyncRwLock W := poll .exclusive

/-- `locked.unlock_shared()` or `locked.unlock_exclusive()`. -/
def release (kind : Kind) (lock : AsyncRwLock W) : AsyncRwLock W :=
  { lock with value := RawSpinRwLock.unlock kind lock.value }

/-- `for waker in wakers.lock().iter() { waker.wake_by_ref() }`. -/
def wakeAll (lock : AsyncRwLock W) : AsyncRwLock W :=
  { lock with woken := lock.woken ++ lock.wakers }

/-- `wakers.lock().clear()`. -/
def clear (lock : AsyncRwLock W) : AsyncRwLock W := { lock with wakers := [] }

/-- The drop of a guard. -/
def forceUnlock (kind : Kind) (lock : AsyncRwLock W) : AsyncRwLock W :=
  (lock.release kind).wakeAll.clear

/-- `force_unlock_shared`, which is what the drop of a read guard calls. -/
def forceUnlockShared : AsyncRwLock W → AsyncRwLock W := forceUnlock .shared

/-- `force_unlock_exclusive`, which is what the drop of a write guard calls. -/
def forceUnlockExclusive : AsyncRwLock W → AsyncRwLock W := forceUnlock .exclusive

/-- Where a guard is in memory. It is a reference, at an address that is a multiple of its size. -/
abbrev Slot : Type := Fin (usizeCard / 8)

instance : NeZero (usizeCard / 8) := ⟨by decide⟩

/-- The lock, its guards with their places in memory, and its futures. -/
structure State (ι W : Type) where
  lock : AsyncRwLock W
  guards : List (Kind × Slot)
  /-- the futures that have not been dropped; a future whose last poll was pending is parked -/
  futures : ι → Option (Kind × Option (Parked W))

inductive Label (ι W : Type)
  /-- `read` or `write` -/
  | create (kind : Kind) (i : ι)
  /-- a poll, and the place of the guard that it may return -/
  | poll (i : ι) (waker : W) (slot : Slot)
  /-- a future is dropped -/
  | cancel (i : ι)
  /-- a guard is moved -/
  | move (kind : Kind) (slot slot' : Slot)
  /-- a guard is dropped -/
  | drop (kind : Kind) (slot : Slot)
  deriving DecidableEq, Repr

/-- The place holds no guard. -/
def State.Free (s : State ι W) (slot : Slot) : Prop := slot ∉ s.guards.map Prod.snd

instance (s : State ι W) (slot : Slot) : Decidable (s.Free slot) :=
  inferInstanceAs (Decidable (slot ∉ s.guards.map Prod.snd))

variable [DecidableEq ι]

/-- The state after a poll, or after the drop of a guard. -/
def next (s : State ι W) (l : Label ι W) : Option (State ι W) :=
  match l with
  | .create kind i =>
    if s.futures i = none then
      some { s with futures := Function.update s.futures i (some (kind, none)) }
    else none
  | .poll i waker slot =>
    match s.futures i with
    | none => none
    | some (kind, _) =>
      match s.lock.poll kind waker with
      | (true, lock) =>
        if s.Free slot then
          some ⟨lock, (kind, slot) :: s.guards, Function.update s.futures i (some (kind, none))⟩
        else none
      | (false, lock) => some { s with
          lock
          futures := Function.update s.futures i (some (kind, some ⟨waker, lock.woken.length⟩)) }
  | .cancel i =>
    match s.futures i with
    | none => none
    | some _ => some { s with futures := Function.update s.futures i none }
  | .move kind slot slot' =>
    if (kind, slot) ∈ s.guards ∧ s.Free slot' then
      some { s with guards := (kind, slot') :: s.guards.erase (kind, slot) }
    else none
  | .drop kind slot =>
    if (kind, slot) ∈ s.guards then
      some { s with lock := s.lock.forceUnlock kind, guards := s.guards.erase (kind, slot) }
    else none

/-- A new lock, without futures. -/
def start : State ι W := ⟨new, [], fun _ => none⟩

/-- **Futures and guards on one lock.** -/
def system (ι W : Type) [DecidableEq ι] : TransitionSystem (State ι W) (Label ι W) where
  init s := s = start
  step s l s' := next s l = some s'

/-- How many guards of a kind there are. -/
def State.holders (kind : Kind) (s : State ι W) : ℕ := s.guards.countP fun g => g.1 = kind

/-- The futures that have not been dropped and whose last poll was pending. -/
def State.waiting (s : State ι W) (i : ι) : Option (Parked W) := (s.futures i).bind Prod.snd

/-! ## What a step does -/

/-- What a step can do. -/
inductive Steps (s : State ι W) : Label ι W → State ι W → Prop
  | create (kind : Kind) (i : ι) (h : s.futures i = none) : Steps s (.create kind i)
    { s with futures := Function.update s.futures i (some (kind, none)) }
  | ready (kind : Kind) (i : ι) (waker : W) (slot : Slot) (hfree : s.Free slot)
    (h : Admits kind s.lock.value) : Steps s (.poll i waker slot) {
      lock := { s.lock with value := wrappingAdd s.lock.value (amount kind) }
      guards := (kind, slot) :: s.guards
      futures := Function.update s.futures i (some (kind, none)) }
  | pending (kind : Kind) (i : ι) (waker : W) (slot : Slot) (h : ¬ Admits kind s.lock.value) :
    Steps s (.poll i waker slot) { s with
      lock := s.lock.register waker
      futures := Function.update s.futures i (some (kind, some ⟨waker, s.lock.woken.length⟩)) }
  | cancel (i : ι) : Steps s (.cancel i) { s with futures := Function.update s.futures i none }
  | move (kind : Kind) (slot slot' : Slot) (h : (kind, slot) ∈ s.guards) (hfree : s.Free slot') :
    Steps s (.move kind slot slot')
      { s with guards := (kind, slot') :: s.guards.erase (kind, slot) }
  | drop (kind : Kind) (slot : Slot) (h : (kind, slot) ∈ s.guards) : Steps s (.drop kind slot)
    { s with lock := s.lock.forceUnlock kind, guards := s.guards.erase (kind, slot) }

variable {s s' : State ι W} {l : Label ι W}

theorem tryLock_run_eq_some_iff {kind : Kind} {value value' : ℕ} :
    (tryLock kind).run value = some value' ↔
      Admits kind value ∧ value' = wrappingAdd value (amount kind) := by
  rw [RawSpinRwLock.Op.run_eq_some_iff]
  cases kind <;> rfl

theorem tryLock_run_eq_none {kind : Kind} {value : ℕ} (h : (tryLock kind).run value = none) :
    ¬ Admits kind value := by
  intro hadmits
  rw [tryLock_run_eq_some_iff.mpr ⟨hadmits, rfl⟩] at h
  cases h

theorem steps_of_next (h : next s l = some s') : Steps s l s' := by
  unfold next at h
  split at h
  · rename_i kind i
    split at h
    · rename_i hnone
      obtain rfl := Option.some.inj h
      exact .create kind i hnone
    · cases h
  · rename_i i waker slot
    split at h
    · cases h
    · rename_i kind _ _
      unfold poll at h
      cases hrun : (tryLock kind).run s.lock.value with
      | some value =>
        simp only [hrun] at h
        split at h
        · rename_i hfree
          obtain rfl := Option.some.inj h
          obtain ⟨hadmits, rfl⟩ := tryLock_run_eq_some_iff.mp hrun
          exact .ready kind i waker slot hfree hadmits
        · cases h
      | none =>
        simp only [hrun] at h
        obtain rfl := Option.some.inj h
        exact .pending kind i waker slot (tryLock_run_eq_none hrun)
  · rename_i i
    split at h
    · cases h
    · obtain rfl := Option.some.inj h
      exact .cancel i
  · rename_i kind slot slot'
    split at h
    · rename_i hguard
      obtain rfl := Option.some.inj h
      exact .move kind slot slot' hguard.1 hguard.2
    · cases h
  · rename_i kind slot
    split at h
    · rename_i hguard
      obtain rfl := Option.some.inj h
      exact .drop kind slot hguard
    · cases h

/-! ## The invariant -/

/-- A future has been polled or dropped. -/
@[simp] theorem waiting_update (lock : AsyncRwLock W) (guards : List (Kind × Slot))
    (futures : ι → Option (Kind × Option (Parked W))) (i : ι)
    (future : Option (Kind × Option (Parked W))) :
    State.waiting ⟨lock, guards, Function.update futures i future⟩ =
      Function.update (fun j => (futures j).bind Prod.snd) i (future.bind Prod.snd) := by
  funext j
  by_cases hij : j = i
  · subst hij
    simp [State.waiting]
  · simp [State.waiting, hij]

/-- The lock and its guards, as `RawSpinRwLock` has them. -/
def State.raw (s : State ι W) : RawSpinRwLock.State Slot := ⟨s.lock.value, s.guards⟩

/-- The value counts the guards, which are in different places; nobody is in the list of a free lock;
and whoever waits is in the list or has been woken. -/
structure Consistent (s : State ι W) : Prop where
  exclusive : s.raw.Exclusive
  nodup : (s.guards.map Prod.snd).Nodup
  free : s.lock.value = 0 → s.lock.wakers = []
  kept : ∀ i, ∀ p ∈ s.waiting i, p.Kept s.lock.wakers s.lock.woken

omit [DecidableEq ι] in
theorem consistent_start : Consistent (start : State ι W) := by
  refine ⟨?_, List.nodup_nil, fun _ => rfl, fun _ _ hp => by cases hp⟩
  constructor <;> simp [State.raw, start, new, RawSpinRwLock.State.holders]

/-- The guards are in different places, so there are fewer of them than the value can count. -/
theorem holders_lt {guards : List (Kind × Slot)} (h : (guards.map Prod.snd).Nodup) (value : ℕ)
    (kind : Kind) : RawSpinRwLock.State.holders kind ⟨value, guards⟩ < 2 ^ 63 := by
  have hlength : (guards.map Prod.snd).length ≤ Fintype.card Slot := h.length_le_card
  rw [List.length_map, Fintype.card_fin, usizeCard] at hlength
  have hcount : RawSpinRwLock.State.holders kind ⟨value, guards⟩ ≤ guards.length :=
    List.countP_le_length
  omega

theorem value_ne_zero {raw : RawSpinRwLock.State Slot} (h : raw.Exclusive) {kind : Kind}
    {slot : Slot} (hguard : (kind, slot) ∈ raw.guards) : raw.value ≠ 0 := by
  have hvalue := h.value
  have hpos : 0 < raw.holders kind := List.countP_pos_iff.mpr ⟨_, hguard, by simp⟩
  cases kind <;> omega

theorem admits_zero {kind : Kind} {value : ℕ} (h : value = 0) : Admits kind value := by
  subst h
  cases kind <;> simp [Admits]

/-- The places of the guards after one has been dropped, and after it has been put elsewhere. -/
theorem nodup_erase {guards : List (Kind × Slot)} (h : (guards.map Prod.snd).Nodup)
    (guard : Kind × Slot) : ((guards.erase guard).map Prod.snd).Nodup :=
  h.sublist (List.erase_sublist.map _)

theorem nodup_cons {guards : List (Kind × Slot)} (h : (guards.map Prod.snd).Nodup) (kind : Kind)
    {slot : Slot} (hslot : slot ∉ guards.map Prod.snd) :
    (((kind, slot) :: guards).map Prod.snd).Nodup :=
  List.nodup_cons.mpr ⟨hslot, h⟩

/-- **A step keeps the invariant.** -/
theorem Consistent.step (h : Consistent s) (hstep : Steps s l s') : Consistent s' := by
  cases hstep with
  | create kind i hnone =>
    refine ⟨h.exclusive, h.nodup, h.free, ?_⟩
    rw [waiting_update, Parked.forall_update_iff]
    exact ⟨by simp, fun j _ => h.kept j⟩
  | ready kind i waker slot hfree hadmits =>
    have hnodup := nodup_cons h.nodup kind hfree
    have hexclusive := h.exclusive.acquire hadmits (holders_lt hnodup s.lock.value .shared)
    refine ⟨hexclusive, hnodup, ?_, ?_⟩
    · exact fun hvalue => absurd hvalue (value_ne_zero hexclusive List.mem_cons_self)
    · rw [waiting_update, Parked.forall_update_iff]
      exact ⟨by simp, fun j _ => h.kept j⟩
  | pending kind i waker slot hadmits =>
    refine ⟨h.exclusive, h.nodup, ?_, ?_⟩
    · exact fun hvalue => absurd (admits_zero hvalue) hadmits
    · rw [waiting_update, Parked.forall_update_iff]
      refine ⟨?_, fun j _ p hp => (h.kept j p hp).push⟩
      rintro p ⟨⟩
      exact Parked.kept_register
  | cancel i =>
    refine ⟨h.exclusive, h.nodup, h.free, ?_⟩
    rw [waiting_update, Parked.forall_update_iff]
    exact ⟨by simp, fun j _ => h.kept j⟩
  | move kind slot slot' hguard hfree =>
    refine ⟨h.exclusive.send hguard slot', nodup_cons (nodup_erase h.nodup _) _ ?_, h.free, h.kept⟩
    exact fun hmem => hfree ((List.erase_sublist.map _).subset hmem)
  | drop kind slot hguard =>
    refine ⟨h.exclusive.release hguard (holders_lt h.nodup _ _), nodup_erase h.nodup _, fun _ => rfl,
      fun i p hp => ?_⟩
    have hkept : p.Kept (s.lock.wakers ++ []) s.lock.woken := by
      rw [List.append_nil]
      exact h.kept i p hp
    exact hkept.wake

/-- **Nobody is parked on a free lock.** In every state the value counts the guards, a write guard
excludes all others, nobody is in the list of a free lock, and every future that waits and is not in
the list has been woken since its last poll. -/
theorem invariants (h : (system ι W).Reachable s) :
    s.lock.value = 2 * s.holders .shared + s.holders .exclusive ∧
      s.holders .exclusive ≤ 1 ∧ (0 < s.holders .exclusive → s.holders .shared = 0) ∧
      (s.lock.value = 0 → s.lock.wakers = []) ∧
      ∀ i, ∀ p ∈ s.waiting i, p.waker ∉ s.lock.wakers → p.Woken s.lock.woken := by
  have hinv : Consistent s := by
    refine h.invariant (I := Consistent) ?_ fun _ _ _ hconsistent hnext =>
      hconsistent.step (steps_of_next hnext)
    rintro _ rfl
    exact consistent_start
  obtain ⟨hvalue, hunique, halone⟩ := hinv.exclusive
  refine ⟨hvalue, hunique, fun hpos => halone (le_antisymm hunique hpos), hinv.free, ?_⟩
  exact fun i p hp hmem => (hinv.kept i p hp).mem.resolve_left hmem

/-- A writer waits for two readers. When the first of them is done it is woken, and waits again. -/
theorem invariants_two_readers : ∃ s : State (Fin 3) ℕ,
    (system (Fin 3) ℕ).Reachable s ∧ s.lock.value = 2 ∧ s.lock.wakers = [9] ∧ s.lock.woken = [7] ∧
      s.waiting 2 = some ⟨9, 1⟩ ∧
      (s.lock.value = 2 * s.holders .shared + s.holders .exclusive ∧
        s.holders .exclusive ≤ 1 ∧ (0 < s.holders .exclusive → s.holders .shared = 0) ∧
        (s.lock.value = 0 → s.lock.wakers = []) ∧
        ∀ i, ∀ p ∈ s.waiting i, p.waker ∉ s.lock.wakers → p.Woken s.lock.woken) := by
  have hinit : (system (Fin 3) ℕ).Reachable start := .init rfl
  let labels : List (Label (Fin 3) ℕ) := [.create .shared 0, .poll 0 5 0, .create .shared 1,
    .poll 1 6 1, .create .exclusive 2, .poll 2 7 2, .drop .shared 0, .poll 2 9 2]
  have hrun : labels.foldlM next start = some _ := rfl
  have hreachable := hinit.foldlM (fun _ _ _ h => h) hrun
  exact ⟨_, hreachable, rfl, rfl, rfl, rfl, invariants hreachable⟩

end AsyncRwLock

end AsyncKernel
