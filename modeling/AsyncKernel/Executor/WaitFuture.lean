import AsyncKernel.Foundation.Notify

/-!
# Waiting for a function call

`WaitForFunctionCallFuture` of `wait_future.rs`. The waiter looks into the slot and then stores its
waker; whoever calls `wake` fills the slot and then wakes the stored waker. The slot and the waker are
behind different locks, so that a call can fill the slot after the waiter has looked and read the
waker before the waiter has stored its own.

## Main definitions

* `WaitFuture.State`, `WaitFuture.next`: the future, its waiter and the calls of `wake`
* `WaitFuture.Informed`: the waiter has been woken for the value in the slot
* `WaitFuture.Misses`: a call of `wake` ends while the waiter has not stored its waker yet

## Main results

* `WaitFuture.Tracked.next`: what a step keeps that misses no waiter
* `WaitFuture.informed_iff`: the runs in which no wake-up is lost
-/

namespace AsyncKernel

open Notify (Parked)

/-- `WaitForFunctionCallFuture`, without the function `enable`: nothing is known of what it does. -/
structure WaitFuture (T W : Type) where
  someoneWaiting : Bool
  ready : Option T
  readyWaker : Option W
  waitingWaker : Option W
  deriving DecidableEq, Repr

namespace WaitFuture

/-- `new`. -/
def new {T W : Type} : WaitFuture T W := ⟨false, none, none, none⟩

/-- Where the waiter is in `poll`. A poll that goes on has the waker of its context, and began when a
number of wakers had been woken. -/
inductive Waiter (W : Type)
  | idle
  /-- the slot was empty -/
  | taken (p : Parked W)
  /-- `waiting_waker` has been woken -/
  | announced (p : Parked W)
  /-- `ready_waker` has been stored -/
  | registered (p : Parked W)
  /-- `enable` has been called -/
  | enabled (p : Parked W)
  /-- the poll has returned `Pending` -/
  | pending (p : Parked W)
  deriving DecidableEq, Repr

/-- The future, its waiter, the calls of `wake` that have filled the slot and not yet woken anyone, and
the wakers woken so far. -/
structure State (ι T W : Type) where
  future : WaitFuture T W
  waiter : Waiter W
  waking : Finset ι
  woken : List W

inductive Step (ι T W : Type)
  /-- a poll begins, with the waker of its context, and takes the value in the slot -/
  | poll (waker : W)
  /-- the poll takes its next step -/
  | run
  /-- the first step of `wake` -/
  | store (i : ι) (data : T)
  /-- the second step of `wake` -/
  | notify (i : ι)
  deriving DecidableEq, Repr

variable {ι T W : Type} [DecidableEq ι]

/-- A poll takes the value in the slot, or goes on without one. -/
def poll (s : State ι T W) (waker : W) : State ι T W :=
  match s.future.ready with
  | some _ => { s with future.ready := none, waiter := .idle }
  | none => { s with waiter := .taken ⟨waker, s.woken.length⟩ }

/-- The steps. There is no result where a step is not possible. -/
def next (s : State ι T W) : Step ι T W → Option (State ι T W)
  | .poll waker =>
    match s.waiter with
    | .idle | .pending _ => some (poll s waker)
    | _ => none
  | .run =>
    match s.waiter with
    | .taken p => some { s with
        future.someoneWaiting := true
        waiter := .announced p
        woken := s.woken ++ s.future.waitingWaker.toList }
    | .announced p => some { s with future.readyWaker := some p.waker, waiter := .registered p }
    | .registered p => some { s with waiter := .enabled p }
    | .enabled p => some { s with waiter := .pending p }
    | .idle | .pending _ => none
  | .store i data =>
    if i ∈ s.waking then none
    else some { s with future.ready := some data, waking := insert i s.waking }
  | .notify i =>
    if i ∈ s.waking then some { s with
      waking := s.waking.erase i
      woken := s.woken ++ s.future.readyWaker.toList }
    else none

/-- A new future that nobody has polled. -/
def start : State ι T W := ⟨new, .idle, ∅, []⟩

/-- **The waiter and the calls of `wake`, in any order.** -/
def system (ι T W : Type) [DecidableEq ι] : TransitionSystem (State ι T W) (Step ι T W) where
  init s := s = start
  step s l s' := next s l = some s'

/-- When the slot holds a value, no call of `wake` is in progress and the last poll has returned
`Pending`, its waker has been woken since it began. -/
def Informed (s : State ι T W) : Prop :=
  match s.waiter with
  | .pending p => s.future.ready.isSome → s.waking = ∅ → p.Woken s.woken
  | _ => True

instance [DecidableEq W] (s : State ι T W) : Decidable (Informed s) := by
  unfold Informed
  split <;> infer_instance

/-- A poll that has looked into the slot and not yet stored its waker. -/
def Waiter.unregistered : Waiter W → Option (Parked W)
  | .taken p | .announced p => some p
  | _ => none

/-- A poll that has stored its waker. -/
def Waiter.stored : Waiter W → Option (Parked W)
  | .registered p | .enabled p | .pending p => some p
  | _ => none

/-- A call of `wake`, the only one in progress, reads `ready_waker` after a poll has found the slot
empty and before this poll has stored its waker: the value is in the slot, and the waker that is read,
if there is one, is not that of the poll, which has not been woken since it began either. -/
def Misses (s : State ι T W) : Step ι T W → Prop
  | .notify i => s.waking = {i} ∧ s.future.ready.isSome ∧ ∃ p ∈ s.waiter.unregistered,
      s.future.readyWaker ≠ some p.waker ∧ ¬ p.Woken s.woken
  | _ => False

instance [DecidableEq W] (s : State ι T W) : DecidablePred (Misses s)
  | .notify i => inferInstanceAs (Decidable (s.waking = {i} ∧ s.future.ready.isSome ∧
      ∃ p ∈ s.waiter.unregistered, s.future.readyWaker ≠ some p.waker ∧ ¬ p.Woken s.woken))
  | .poll _ | .run | .store _ _ => inferInstanceAs (Decidable False)

/-- The poll takes its next step, if it is in progress. -/
def advance (s : State ι T W) : State ι T W := (next s .run).getD s

/-- The poll that is in progress goes on until it returns. -/
def finish (s : State ι T W) : State ι T W := advance (advance (advance (advance s)))

/-! ## Steps -/

/-- The waker of the poll that is in progress or has returned `Pending`. -/
def Waiter.current (waiter : Waiter W) : Option (Parked W) := waiter.unregistered.or waiter.stored

/-- What is known of the waker of the last poll: it is where a call of `wake` finds it once it has
been stored, and while the slot holds a value, a call is in progress or it has been woken. -/
structure Tracked (s : State ι T W) : Prop where
  waitingWaker : s.future.waitingWaker = none
  since_le : ∀ p, s.waiter.current = some p → p.since ≤ s.woken.length
  told : ∀ p, s.waiter.current = some p → s.future.ready.isSome → s.waking.Nonempty ∨ p.Woken s.woken
  readyWaker : ∀ p, s.waiter.stored = some p → s.future.readyWaker = some p.waker

variable {s s' : State ι T W} {l : Step ι T W}

omit [DecidableEq ι] in
theorem tracked_start : Tracked (start : State ι T W) := by
  constructor <;> simp [start, new, Waiter.current, Waiter.unregistered, Waiter.stored]

omit [DecidableEq ι] in
/-- A poll that looks into the slot goes on only when the slot is empty. -/
theorem Tracked.poll (h : Tracked s) (waker : W) : Tracked (poll s waker) := by
  unfold WaitFuture.poll
  cases hready : s.future.ready with
  | some data =>
    constructor <;> simp [h.waitingWaker, Waiter.current, Waiter.unregistered, Waiter.stored]
  | none =>
    constructor
    · exact h.waitingWaker
    · rintro p ⟨⟩
      exact le_rfl
    · simp [hready]
    · rintro p ⟨⟩

/-- The steps of a poll keep its waker and store it. -/
theorem Tracked.run (h : Tracked s) (hnext : next s .run = some s') : Tracked s' := by
  obtain ⟨hwaiting, hsince, htold, hstored⟩ := h
  cases hwaiter : s.waiter with
  | taken p =>
    simp only [next, hwaiter, hwaiting, Option.toList_none, List.append_nil, Option.some.injEq] at hnext
    subst hnext
    rw [hwaiter] at hsince htold
    exact ⟨rfl, hsince, htold, fun p hp => nomatch hp⟩
  | announced p =>
    simp only [next, hwaiter, Option.some.injEq] at hnext
    subst hnext
    rw [hwaiter] at hsince htold
    refine ⟨hwaiting, hsince, htold, ?_⟩
    rintro p ⟨⟩
    rfl
  | registered p | enabled p =>
    simp only [next, hwaiter, Option.some.injEq] at hnext
    subst hnext
    rw [hwaiter] at hsince htold hstored
    exact ⟨hwaiting, hsince, htold, hstored⟩
  | idle | pending p => simp [next, hwaiter] at hnext

/-- A call of `wake` that ends wakes the waiter, unless it misses it. -/
theorem Tracked.notify (h : Tracked s) {i : ι} (hnext : next s (.notify i) = some s')
    (hmisses : ¬ Misses s (.notify i)) : Tracked s' := by
  simp only [next] at hnext
  split at hnext
  · rename_i hi
    obtain rfl := Option.some.inj hnext
    refine ⟨h.waitingWaker, ?_, ?_, h.readyWaker⟩
    · intro p hp
      exact (h.since_le p hp).trans (by simp)
    · intro p hp hready
      by_cases hothers : (s.waking.erase i).Nonempty
      · exact Or.inl hothers
      right
      have honly : s.waking = {i} := by
        rw [← Finset.insert_erase hi, Finset.not_nonempty_iff_eq_empty.mp hothers]
        rfl
      have hwoken : s.future.readyWaker = some p.waker → p.Woken (s.woken ++
          s.future.readyWaker.toList) := fun hwaker =>
        Parked.woken_append_of_mem (by simp [hwaker]) (h.since_le p hp)
      -- the waker has been stored, or the call would miss it
      rcases Option.or_eq_some_iff.mp hp with hunregistered | ⟨-, hstored⟩
      · by_contra hnot
        refine hmisses ⟨honly, hready, p, hunregistered, fun hwaker => ?_, fun hold => ?_⟩
        · exact hnot (hwoken hwaker)
        · exact hnot hold.append
      · exact hwoken (h.readyWaker p hstored)
  · cases hnext

/-- **What a step keeps that misses no waiter.** -/
theorem Tracked.next (h : Tracked s) (hnext : next s l = some s') (hmisses : ¬ Misses s l) :
    Tracked s' := by
  cases l with
  | poll waker =>
    simp only [WaitFuture.next] at hnext
    split at hnext
    · obtain rfl := Option.some.inj hnext
      exact h.poll waker
    · obtain rfl := Option.some.inj hnext
      exact h.poll waker
    · cases hnext
  | run => exact h.run hnext
  | store i data =>
    simp only [WaitFuture.next] at hnext
    split at hnext
    · cases hnext
    · obtain rfl := Option.some.inj hnext
      refine ⟨h.waitingWaker, h.since_le, ?_, h.readyWaker⟩
      intro p _ _
      exact Or.inl ⟨i, Finset.mem_insert_self _ _⟩
  | notify i => exact h.notify hnext hmisses

omit [DecidableEq ι] in
theorem Tracked.informed (h : Tracked s) : Informed s := by
  unfold Informed
  split
  · rename_i p hp
    intro hready hwaking
    rcases h.told p (by rw [hp]; rfl) hready with hnonempty | hwoken
    · exact absurd hwaking hnonempty.ne_empty
    · exact hwoken
  · trivial

theorem Tracked.advance (h : Tracked s) : Tracked (advance s) := by
  unfold WaitFuture.advance
  cases hnext : WaitFuture.next s .run with
  | none => exact h
  | some s' => exact h.run hnext

theorem Tracked.finish (h : Tracked s) : Tracked (finish s) := h.advance.advance.advance.advance

/-- A poll that has not stored its waker yet goes on to return `Pending`. -/
theorem finish_eq {p : Parked W} (hwaiting : s.future.waitingWaker = none)
    (hp : s.waiter.unregistered = some p) :
    (finish s).waiter = .pending p ∧ (finish s).future.ready = s.future.ready ∧
      (finish s).waking = s.waking ∧ (finish s).woken = s.woken := by
  cases hwaiter : s.waiter with
  | taken p' | announced p' =>
    obtain rfl : p' = p := by simpa [hwaiter, Waiter.unregistered] using hp
    simp [finish, advance, WaitFuture.next, hwaiter, hwaiting]
  | _ => simp [hwaiter, Waiter.unregistered] at hp

/-- **A waiter that is missed is not informed** when its poll returns. -/
theorem Misses.not_informed (h : Tracked s) (hmisses : Misses s l) (hnext : next s l = some s') :
    ¬ Informed (finish s') := by
  cases l with
  | notify i =>
    obtain ⟨honly, hready, p, hp, hwaker, hnot⟩ := hmisses
    have hs' : s' = { s with waking := ∅, woken := s.woken ++ s.future.readyWaker.toList } := by
      simpa [WaitFuture.next, honly, eq_comm] using hnext
    obtain ⟨hwaiter, hfinish, hwaking, hwoken⟩ := finish_eq (s := s') (p := p)
      (by rw [hs']; exact h.waitingWaker) (by rw [hs']; exact hp)
    intro hinformed
    rw [Informed, hwaiter, hfinish, hwaking, hwoken, hs'] at hinformed
    have hlate := hinformed hready rfl
    rcases hlate.of_append with hold | hmem
    · exact hnot hold
    · exact hwaker (Option.mem_toList.mp hmem)
  | _ => exact hmisses.elim

/-! ## Runs -/

/-- **The runs in which no wake-up is lost**: those in which no call of `wake` misses the waiter. In
these, whatever the calls and the waiter do and in whatever order, the waiter is informed in every
state, also when a poll that is in progress goes on until it returns. -/
theorem informed_iff {run : List (Transition (State ι T W) (Step ι T W))}
    (h : (system ι T W).IsRun start run) :
    (∀ t ∈ run, Informed t.before ∧ Informed t.after ∧ Informed (finish t.after)) ↔
      ∀ t ∈ run, ¬ Misses t.before t.label := by
  refine h.forall_good_iff Tracked tracked_start ?_ ?_ ?_
  · intro t hstep htracked hmisses
    exact htracked.next hstep hmisses
  · intro t _ hbefore hafter _
    exact ⟨hbefore.informed, hafter.informed, hafter.finish.informed⟩
  · intro t hstep htracked hmisses hinformed
    exact hmisses.not_informed htracked hstep hinformed.2.2

/-- The transitions of a new future along a list of labels. -/
def futureRun (labels : List (Step Bool ℕ ℕ)) : List (Transition (State Bool ℕ ℕ) (Step Bool ℕ ℕ)) :=
  TransitionSystem.follow next start labels

theorem isRun_futureRun (labels : List (Step Bool ℕ ℕ)) :
    (system Bool ℕ ℕ).IsRun start (futureRun labels) :=
  TransitionSystem.isRun_follow (fun _ _ _ h => h) _ _

/-- A call of `wake` after the poll has stored its waker. -/
theorem informed_iff_stored :
    let run := futureRun [.poll 1, .run, .run, .store true 7, .run, .notify true, .run]
    (∃ t ∈ run, t.after.waiter = .pending ⟨1, 0⟩ ∧ t.after.future.ready = some 7 ∧
        t.after.woken = [1]) ∧
      ∀ t ∈ run, Informed t.before ∧ Informed t.after ∧ Informed (finish t.after) := by
  intro run
  have hwoken : ∃ t ∈ run, t.after.waiter = .pending ⟨1, 0⟩ ∧ t.after.future.ready = some 7 ∧
      t.after.woken = [1] := by decide
  exact ⟨hwoken, (informed_iff (isRun_futureRun _)).mpr (by decide)⟩

/-- A call of `wake` between the look into the slot and the store of the waker: the value is in the
slot, and nobody is woken. -/
theorem not_informed_between :
    let run := futureRun [.poll 1, .store true 7, .notify true, .run, .run, .run, .run]
    (system Bool ℕ ℕ).IsRun start run ∧ ∃ t ∈ run, t.after.waiter = .pending ⟨1, 0⟩ ∧
      t.after.future.ready = some 7 ∧ t.after.waking = ∅ ∧ t.after.woken = [] ∧
        ¬ Informed t.after := by
  intro run
  exact ⟨isRun_futureRun _, by decide⟩

end WaitFuture

end AsyncKernel
