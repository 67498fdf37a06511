import AsyncKernel.Foundation.Notify
import AsyncKernel.Locks.Spin

/-!
# The asynchronous mutex

`AsyncMutex` of `kernel_lock`. A future that cannot lock registers the waker it is polled with, once
more at each poll. A release unlocks, and then takes the first waker from the list and wakes it: it
panics when there is none, and what it wakes may be the waker of a future that has been dropped or
served since.

## Main definitions

* `AsyncMutex.poll`, `AsyncMutex.forceUnlock`: the operations
* `AsyncMutex.system`: futures and guards on one mutex, each poll and each drop without interruption
* `AsyncMutex.Stranded`: the mutex is free, and none of those that wait for it has been woken

## Main results

* `AsyncMutex.releases_iff`: the runs in which every release succeeds
* `AsyncMutex.not_stranded_iff`: the runs in which no waiter is stranded
-/

namespace AsyncKernel

open Notify (Parked)

variable {ι W : Type}

/-- The mutex, without the value it protects, and the wakers that it has woken. -/
structure AsyncMutex (W : Type) where
  wakers : List W
  locked : Bool
  woken : List W
  deriving DecidableEq, Repr

namespace AsyncMutex

/-- How a call ends. -/
inductive Exit
  | returned
  | panicked
  deriving DecidableEq, Repr

/-- `AsyncMutex::new`. -/
def new : AsyncMutex W := ⟨[], false, []⟩

/-- `MutexLockFuture::poll`: whether it is ready with a guard, and the mutex afterwards. -/
def poll (mutex : AsyncMutex W) (waker : W) : Bool × AsyncMutex W :=
  match RawSpinlock.tryLock mutex.locked with
  | (true, locked) => (true, { mutex with locked })
  | (false, locked) => (false, { mutex with locked, wakers := mutex.wakers ++ [waker] })

/-- `force_unlock`, which is what the drop of a guard calls. -/
def forceUnlock (mutex : AsyncMutex W) : Exit × AsyncMutex W :=
  let mutex := { mutex with locked := RawSpinlock.unlock mutex.locked }
  match mutex.wakers with
  -- `remove(0)` of an empty vector
  | [] => (.panicked, mutex)
  | waker :: wakers => (.returned, { mutex with wakers, woken := mutex.woken ++ [waker] })

/-- The mutex, its guards and its futures. -/
structure State (ι W : Type) where
  mutex : AsyncMutex W
  guards : ℕ
  /-- the futures that have not been dropped; a future whose last poll was pending is parked -/
  futures : ι → Option (Option (Parked W))
  exit : Exit

inductive Label (ι W : Type)
  /-- `lock` -/
  | create (i : ι)
  | poll (i : ι) (waker : W)
  /-- a future is dropped -/
  | cancel (i : ι)
  /-- a guard is dropped -/
  | drop
  deriving DecidableEq, Repr

variable [DecidableEq ι]

/-- The state after a poll, or after the drop of a guard. Nothing happens after a panic: its handler
loops forever. -/
def next (s : State ι W) (l : Label ι W) : Option (State ι W) :=
  match s.exit, l with
  | .panicked, _ => none
  | .returned, .create i =>
    if s.futures i = none then
      some { s with futures := Function.update s.futures i (some none) }
    else none
  | .returned, .poll i waker =>
    match s.futures i with
    | none => none
    | some _ =>
      match s.mutex.poll waker with
      | (true, mutex) => some { s with
          mutex
          guards := s.guards + 1
          futures := Function.update s.futures i (some none) }
      | (false, mutex) => some { s with
          mutex
          futures := Function.update s.futures i (some (some ⟨waker, mutex.woken.length⟩)) }
  | .returned, .cancel i =>
    match s.futures i with
    | none => none
    | some _ => some { s with futures := Function.update s.futures i none }
  | .returned, .drop =>
    if s.guards = 0 then none
    else some { s with
      mutex := s.mutex.forceUnlock.2
      guards := s.guards - 1
      exit := s.mutex.forceUnlock.1 }

/-- A new mutex, without futures. -/
def start : State ι W := ⟨new, 0, fun _ => none, .returned⟩

/-- **Futures and guards on one mutex.** -/
def system (ι W : Type) [DecidableEq ι] : TransitionSystem (State ι W) (Label ι W) where
  init s := s = start
  step s l s' := next s l = some s'

/-- Whoever waits for the mutex: the futures that have not been dropped and whose last poll was
pending. -/
def State.waiting (s : State ι W) (i : ι) : Option (Parked W) := (s.futures i).join

/-- The mutex is free, and none of those that wait for it has been woken. -/
def Stranded (s : State ι W) : Prop :=
  s.mutex.locked = false ∧ (∃ i, (s.waiting i).isSome) ∧
    ∀ i, ∀ p ∈ s.waiting i, ¬ p.Woken s.mutex.woken

/-- A step that leaves the waiters to themselves. It releases the mutex, none of them has been woken,
and the first waker of the list belongs to none of them. Or it drops a future while the mutex is free,
others wait, and none of them has been woken. -/
def Abandons (s : State ι W) : Label ι W → Prop
  | .drop => (∃ i, (s.waiting i).isSome) ∧
      (∃ waker ∈ s.mutex.wakers.head?, ∀ i, ∀ p ∈ s.waiting i, p.waker ≠ waker) ∧
      ∀ i, ∀ p ∈ s.waiting i, ¬ p.Woken s.mutex.woken
  | .cancel i => s.mutex.locked = false ∧ (∃ j, j ≠ i ∧ (s.waiting j).isSome) ∧
      ∀ j, j ≠ i → ∀ p ∈ s.waiting j, ¬ p.Woken s.mutex.woken
  | .create _ | .poll _ _ => False

instance [Fintype ι] [DecidableEq W] (s : State ι W) : Decidable (Stranded s) :=
  inferInstanceAs (Decidable (_ ∧ _))

instance [Fintype ι] [DecidableEq W] (s : State ι W) (l : Label ι W) : Decidable (Abandons s l) :=
  match l with
  | .drop | .cancel _ => inferInstanceAs (Decidable (_ ∧ _))
  | .create _ | .poll _ _ => instDecidableFalse

/-- The drop of a guard does not panic, leaves the mutex unlocked, and wakes the waker that has been
in the list for longest, if there is one. -/
def Releases (t : Transition (State ι W) (Label ι W)) : Prop :=
  t.label = .drop → t.after.exit = .returned ∧ t.after.mutex.locked = false ∧
    t.after.mutex.woken = t.before.mutex.woken ++ t.before.mutex.wakers.head?.toList

/-! ## What a step does -/

/-- What a step can do. -/
inductive Steps (s : State ι W) : Label ι W → State ι W → Prop
  | create (i : ι) (h : s.futures i = none) :
    Steps s (.create i) { s with futures := Function.update s.futures i (some none) }
  | ready (i : ι) (waker : W) (h : s.mutex.locked = false) : Steps s (.poll i waker) { s with
      mutex := { s.mutex with locked := true }
      guards := s.guards + 1
      futures := Function.update s.futures i (some none) }
  | pending (i : ι) (waker : W) (h : s.mutex.locked = true) : Steps s (.poll i waker) { s with
      mutex := ⟨s.mutex.wakers ++ [waker], true, s.mutex.woken⟩
      futures := Function.update s.futures i (some (some ⟨waker, s.mutex.woken.length⟩)) }
  | cancel (i : ι) : Steps s (.cancel i) { s with futures := Function.update s.futures i none }
  | panics (hguards : s.guards ≠ 0) (h : s.mutex.wakers = []) : Steps s .drop { s with
      mutex := { s.mutex with locked := false }
      guards := s.guards - 1
      exit := .panicked }
  | drop (hguards : s.guards ≠ 0) {waker : W} {wakers : List W}
      (h : s.mutex.wakers = waker :: wakers) : Steps s .drop { s with
      mutex := ⟨wakers, false, s.mutex.woken ++ [waker]⟩
      guards := s.guards - 1 }

variable {s s' : State ι W} {l : Label ι W}

theorem steps_of_next (h : next s l = some s') : s.exit = .returned ∧ Steps s l s' := by
  unfold next at h
  split at h
  · cases h
  · rename_i i hexit
    refine ⟨hexit, ?_⟩
    split at h
    · rename_i hnone
      obtain rfl := Option.some.inj h
      exact .create i hnone
    · cases h
  · rename_i i waker hexit
    refine ⟨hexit, ?_⟩
    split at h
    · cases h
    · cases hlocked : s.mutex.locked with
      | false =>
        simp only [poll, RawSpinlock.tryLock, hlocked] at h
        obtain rfl := Option.some.inj h
        exact .ready i waker hlocked
      | true =>
        simp only [poll, RawSpinlock.tryLock, hlocked] at h
        obtain rfl := Option.some.inj h
        exact .pending i waker hlocked
  · rename_i i hexit
    refine ⟨hexit, ?_⟩
    split at h
    · cases h
    · obtain rfl := Option.some.inj h
      exact .cancel i
  · rename_i hexit
    refine ⟨hexit, ?_⟩
    split at h
    · cases h
    · rename_i hguards
      obtain rfl := Option.some.inj h
      cases hwakers : s.mutex.wakers with
      | nil =>
        have hpanics := Steps.panics hguards hwakers
        simpa [forceUnlock, RawSpinlock.unlock, hwakers] using hpanics
      | cons waker wakers =>
        have hdrop := Steps.drop hguards hwakers
        simpa [forceUnlock, RawSpinlock.unlock, hwakers, hexit] using hdrop

/-- A future has been polled or dropped. -/
@[simp] theorem waiting_update (mutex : AsyncMutex W) (guards : ℕ)
    (futures : ι → Option (Option (Parked W))) (i : ι) (future : Option (Option (Parked W)))
    (exit : Exit) :
    State.waiting ⟨mutex, guards, Function.update futures i future, exit⟩ =
      Function.update (fun j => (futures j).join) i future.join := by
  funext j
  by_cases hij : j = i
  · subst hij
    simp [State.waiting]
  · simp [State.waiting, hij]

/-- The guards are those of the mutex, and whoever waits is in the list or has been woken. -/
structure Consistent (s : State ι W) : Prop where
  guards : s.guards = s.mutex.locked.toNat
  kept : ∀ i, ∀ p ∈ s.waiting i, p.Kept s.mutex.wakers s.mutex.woken

omit [DecidableEq ι] in
theorem consistent_start : Consistent (start : State ι W) := ⟨rfl, fun _ _ hp => by cases hp⟩

/-- **A step keeps the invariant**, also when it panics. -/
theorem Consistent.step (h : Consistent s) (hstep : Steps s l s') : Consistent s' := by
  have hlocked : s.guards ≠ 0 → s.mutex.locked = true := by
    intro hguards
    rw [h.guards] at hguards
    simpa using hguards
  cases hstep with
  | create i | cancel i =>
    refine ⟨h.guards, ?_⟩
    rw [waiting_update, Parked.forall_update_iff]
    exact ⟨by simp, fun j _ => h.kept j⟩
  | ready i waker hfree =>
    refine ⟨by simp [h.guards, hfree], ?_⟩
    rw [waiting_update, Parked.forall_update_iff]
    exact ⟨by simp, fun j _ => h.kept j⟩
  | pending i waker hheld =>
    refine ⟨by simp [h.guards, hheld], ?_⟩
    rw [waiting_update, Parked.forall_update_iff]
    refine ⟨?_, fun j _ p hp => (h.kept j p hp).push⟩
    rintro p ⟨⟩
    exact Parked.kept_register
  | panics hguards hwakers =>
    refine ⟨?_, h.kept⟩
    simp [h.guards, hlocked hguards]
  | @drop hguards waker wakers hwakers =>
    refine ⟨by simp [h.guards, hlocked hguards], fun i p hp => ?_⟩
    have hkept : p.Kept ([waker] ++ wakers) s.mutex.woken := by
      rw [List.singleton_append, ← hwakers]
      exact h.kept i p hp
    exact hkept.wake

/-! ## Releases -/

omit [DecidableEq ι] in
/-- A mutex has at most one guard. -/
theorem Consistent.guards_le (h : Consistent s) : s.guards ≤ 1 := by
  rw [h.guards]
  exact Bool.toNat_le _

/-- The states of a run keep the invariant. -/
theorem consistent_of_run {run : List (Transition (State ι W) (Label ι W))}
    (h : (system ι W).IsRun start run) : ∀ t ∈ run, Consistent t.before ∧ Consistent t.after :=
  h.invariant consistent_start fun _ _ hconsistent hstep =>
    hconsistent.step (steps_of_next hstep).2

/-- The drop of a guard succeeds when somebody is in the list. -/
theorem releases_iff_ne_nil (h : Steps s .drop s') (hexit : s.exit = .returned) :
    Releases ⟨s, .drop, s'⟩ ↔ s.mutex.wakers ≠ [] := by
  cases h with
  | panics hguards hwakers => simp [Releases, hwakers]
  | drop hguards hwakers => simp [Releases, hwakers, hexit]

/-- **The runs in which every release succeeds**: those in which no guard is dropped while nobody
is in the list of the wakers. There is at most one guard in any run. -/
theorem releases_iff {run : List (Transition (State ι W) (Label ι W))}
    (h : (system ι W).IsRun start run) :
    (∀ t ∈ run, t.before.guards ≤ 1 ∧ t.after.guards ≤ 1 ∧ Releases t) ↔
      ∀ t ∈ run, t.label = .drop → t.before.mutex.wakers ≠ [] := by
  have hdrop : ∀ t ∈ run, t.label = .drop → (Releases t ↔ t.before.mutex.wakers ≠ []) := by
    rintro ⟨before, label, after⟩ ht rfl
    obtain ⟨hexit, hsteps⟩ := steps_of_next (h.step ht)
    exact releases_iff_ne_nil hsteps hexit
  constructor
  · intro hreleases t ht hlabel
    exact (hdrop t ht hlabel).mp (hreleases t ht).2.2
  · intro hwakers t ht
    obtain ⟨hbefore, hafter⟩ := consistent_of_run h t ht
    refine ⟨hbefore.guards_le, hafter.guards_le, fun hlabel => ?_⟩
    exact (hdrop t ht hlabel).mpr (hwakers t ht hlabel) hlabel

/-- The transitions of a new mutex along a list of labels. -/
def startRun (labels : List (Label Bool ℕ)) : List (Transition (State Bool ℕ) (Label Bool ℕ)) :=
  TransitionSystem.follow next start labels

theorem isRun_startRun (labels : List (Label Bool ℕ)) :
    (system Bool ℕ).IsRun start (startRun labels) :=
  TransitionSystem.isRun_follow (fun _ _ _ h => h) _ _

/-- A future waits while the guard of the other one is dropped. -/
theorem releases_iff_one_waiter :
    let run := startRun [.create false, .poll false 7, .create true, .poll true 8, .drop]
    (∃ t ∈ run, t.label = .drop) ∧
      ∀ t ∈ run, t.before.guards ≤ 1 ∧ t.after.guards ≤ 1 ∧ Releases t := by
  intro run
  have hdrop : ∃ t ∈ run, t.label = .drop := by decide
  exact ⟨hdrop, (releases_iff (isRun_startRun _)).mpr (by decide)⟩

/-- Nobody waits while a guard is dropped: it panics. -/
theorem not_releases_uncontended :
    let run := startRun [.create false, .poll false 7, .drop]
    (system Bool ℕ).IsRun start run ∧ (∃ t ∈ run, t.label = .drop ∧ t.after.exit = .panicked) ∧
      ¬ ∀ t ∈ run, t.before.guards ≤ 1 ∧ t.after.guards ≤ 1 ∧ Releases t := by
  intro run
  have hpanics : ∃ t ∈ run, t.label = .drop ∧ t.after.exit = .panicked := by decide
  refine ⟨isRun_startRun _, hpanics, fun hreleases => ?_⟩
  obtain ⟨t, ht, hlabel, hexit⟩ := hpanics
  have hreturned := ((hreleases t ht).2.2 hlabel).1
  rw [hexit] at hreturned
  cases hreturned

/-! ## Waiters -/

/-- After the drop of a guard the waiters are stranded when it has abandoned them. -/
theorem stranded_drop_iff (h : Consistent s) (hstep : Steps s .drop s') :
    Stranded s' ↔ Abandons s .drop := by
  cases hstep with
  | panics hguards hwakers =>
    -- The list is empty: whoever waits has been woken.
    have hwoken : ∀ i, ∀ p ∈ s.waiting i, p.Woken s.mutex.woken := by
      intro i p hp
      have hmem := (h.kept i p hp).mem
      rw [hwakers] at hmem
      exact hmem.resolve_left List.not_mem_nil
    constructor
    · rintro ⟨-, ⟨i, hi⟩, hnone⟩
      obtain ⟨p, hp⟩ := Option.isSome_iff_exists.mp hi
      exact absurd (hwoken i p hp) (hnone i p hp)
    · rintro ⟨⟨i, hi⟩, -, hnone⟩
      obtain ⟨p, hp⟩ := Option.isSome_iff_exists.mp hi
      exact absurd (hwoken i p hp) (hnone i p hp)
  | @drop hguards waker wakers hwakers =>
    have hhead : s.mutex.wakers.head? = some waker := by rw [hwakers, List.head?_cons]
    constructor
    · rintro ⟨-, hwaits, hnone⟩
      refine ⟨hwaits, ⟨waker, hhead, fun i p hp hwaker => ?_⟩, fun i p hp hwoken => ?_⟩
      · refine hnone i p hp (Parked.woken_append_of_mem ?_ (h.kept i p hp).since_le)
        rw [hwaker]
        exact List.mem_cons_self
      · exact hnone i p hp hwoken.append
    · rintro ⟨hwaits, ⟨waker', hhead', hne⟩, hnone⟩
      refine ⟨rfl, hwaits, fun i p hp hwoken => ?_⟩
      obtain rfl := Option.some.inj (hhead.symm.trans hhead')
      rcases hwoken.of_append with hwoken | hmem
      · exact hnone i p hp hwoken
      · exact hne i p hp (List.mem_singleton.mp hmem)

/-- After a step the waiters are stranded when it has abandoned them, unless they were stranded
before. -/
theorem stranded_step_iff (h : Consistent s) (hstep : Steps s l s') (hbefore : ¬ Stranded s) :
    Stranded s' ↔ Abandons s l := by
  cases hstep with
  | create i hnone =>
    -- a future that is created does not wait
    refine iff_of_false ?_ id
    have hsame : Function.update (fun j => (s.futures j).join) i none = s.waiting :=
      Function.update_eq_self_iff.mpr (by rw [hnone, Option.join_none])
    rw [Stranded, waiting_update, Option.join_some, hsame]
    exact hbefore
  | ready | pending =>
    -- the mutex is not free
    exact iff_of_false (fun hstranded => by cases hstranded.1) id
  | cancel i =>
    have hothers : (∃ j, (Function.update s.waiting i none j).isSome) ↔
        ∃ j, j ≠ i ∧ (s.waiting j).isSome := by
      rw [Function.exists_update_iff s.waiting fun _ future => future.isSome]
      simp
    rw [Stranded, waiting_update, Parked.forall_update_iff]
    exact and_congr_right' (and_congr hothers ⟨fun h => h.2, fun h => ⟨by simp, h⟩⟩)
  | panics hguards hwakers => exact stranded_drop_iff h (.panics hguards hwakers)
  | drop hguards hwakers => exact stranded_drop_iff h (.drop hguards hwakers)

/-- **The runs in which no waiter is stranded**: those in which no step abandons the waiters. -/
theorem not_stranded_iff {run : List (Transition (State ι W) (Label ι W))}
    (h : (system ι W).IsRun start run) :
    (∀ t ∈ run, ¬ Stranded t.before ∧ ¬ Stranded t.after) ↔
      ∀ t ∈ run, ¬ Abandons t.before t.label := by
  have hstart : ¬ Stranded (start : State ι W) := by
    rintro ⟨-, ⟨i, ⟨⟩⟩, -⟩
  refine h.forall_good_iff (fun s => Consistent s ∧ ¬ Stranded s) ⟨consistent_start, hstart⟩ ?_ ?_ ?_
  · rintro t hnext ⟨hconsistent, hbefore⟩ habandons
    have hstep := (steps_of_next hnext).2
    exact ⟨hconsistent.step hstep,
      fun hafter => habandons ((stranded_step_iff hconsistent hstep hbefore).mp hafter)⟩
  · intro t _ hbefore hafter _
    exact ⟨hbefore.2, hafter.2⟩
  · rintro t hnext ⟨hconsistent, hbefore⟩ habandons ⟨-, hafter⟩
    exact hafter ((stranded_step_iff hconsistent (steps_of_next hnext).2 hbefore).mpr habandons)

/-- A future waits, is woken by a release and drops its guard while nobody else waits for it. -/
theorem not_stranded_iff_one_waiter :
    let run := startRun [.create false, .poll false 7, .create true, .poll true 8, .drop,
      .poll true 8, .poll false 7, .drop]
    (∃ t ∈ run, (t.before.waiting false).isSome ∧ t.label = .drop) ∧
      ∀ t ∈ run, ¬ Stranded t.before ∧ ¬ Stranded t.after := by
  intro run
  have hwaits : ∃ t ∈ run, (t.before.waiting false).isSome ∧ t.label = .drop := by decide
  exact ⟨hwaits, (not_stranded_iff (isRun_startRun _)).mpr (by decide)⟩

/-- Two futures wait. The first one is dropped, and the release wakes its waker: the mutex is free,
and the other future has not been woken. -/
theorem stranded_of_cancel :
    let run := TransitionSystem.follow next (start : State (Fin 3) ℕ) [.create 0, .poll 0 0,
      .create 1, .poll 1 1, .create 2, .poll 2 2, .cancel 1, .drop]
    (system (Fin 3) ℕ).IsRun start run ∧
      (∃ t ∈ run, t.after.exit = .returned ∧ t.after.mutex.woken = [1] ∧
        t.after.waiting 2 = some ⟨2, 0⟩ ∧ Stranded t.after) ∧
      ¬ ∀ t ∈ run, ¬ Stranded t.before ∧ ¬ Stranded t.after := by
  intro run
  have hstranded : ∃ t ∈ run, t.after.exit = .returned ∧ t.after.mutex.woken = [1] ∧
      t.after.waiting 2 = some ⟨2, 0⟩ ∧ Stranded t.after := by decide
  refine ⟨TransitionSystem.isRun_follow (fun _ _ _ h => h) _ _, hstranded, fun hnever => ?_⟩
  obtain ⟨t, ht, -, -, -, hafter⟩ := hstranded
  exact (hnever t ht).2 hafter

end AsyncMutex

end AsyncKernel
