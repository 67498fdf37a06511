import AsyncKernel.Executor.LocalNotify
import AsyncKernel.Foundation.Notify

/-!
# One future for each direction of a notification

A future of `tx_ready` and one of `rx_ready` at a time: each can be dropped, and another be made. A
future whose last poll has returned `Pending` is the one whose waker is registered, so that whoever
sets its flag wakes it.

## Main definitions

* `LocalNotify.Watched`, `LocalNotify.watched`: the `Notify` and the futures that exist
* `LocalNotify.Slot.Knows`: the waker is registered, and has been woken since if the flag is set
* `LocalNotify.NextReady`: the next poll returns `Ready`, whatever happens before it

## Main results

* `LocalNotify.toState_watchedNext`: a step is one of the `Notify`, or leaves it as it was
* `LocalNotify.reachable_heard`: no signal is lost
-/

namespace AsyncKernel.LocalNotify

open Notify (Parked)

/-- The future of a direction, if there is one. -/
inductive Waiter (W : Type)
  | absent
  /-- it has not been polled yet, or its last poll has returned `Ready` -/
  | fresh
  /-- its last poll has returned `Pending` -/
  | pending (p : Parked W)
  deriving DecidableEq, Repr

/-- A `Notify`, the wakers woken so far, and the futures of `tx_ready` and `rx_ready`. -/
structure Watched (W : Type) extends State W where
  tx : Waiter W
  rx : Waiter W
  deriving DecidableEq, Repr

inductive Action (W : Type)
  | tryWakeTx
  | tryWakeRx
  /-- a future is made -/
  | txReady
  | rxReady
  /-- the future is polled, with the waker of its context -/
  | pollTx (waker : W)
  | pollRx (waker : W)
  /-- the future is dropped -/
  | dropTx
  | dropRx
  deriving DecidableEq, Repr

namespace Waiter

variable {W : Type}

/-- A future is made when there is none. -/
def make : Waiter W → Option (Waiter W)
  | .absent => some .fresh
  | .fresh | .pending _ => none

/-- A future is dropped. -/
def drop : Waiter W → Option (Waiter W)
  | .absent => none
  | .fresh | .pending _ => some .absent

/-- A poll has returned, when a number of wakers had been woken. -/
def polled (result : Poll) (waker : W) (since : ℕ) : Waiter W → Option (Waiter W)
  | .absent => none
  | .fresh | .pending _ =>
    match result with
    | .ready => some .fresh
    | .pending => some (.pending ⟨waker, since⟩)

end Waiter

variable {W : Type}

/-- The steps. There is no result where a step is not possible. -/
def watchedNext (s : Watched W) : Action W → Option (Watched W)
  | .tryWakeTx => some { s with toState := (tryWakeTx s.toState).2 }
  | .tryWakeRx => some { s with toState := (tryWakeRx s.toState).2 }
  | .txReady => s.tx.make.map fun tx => { s with tx := tx }
  | .rxReady => s.rx.make.map fun rx => { s with rx := rx }
  | .pollTx waker =>
    let a := pollTx s.toState waker
    (s.tx.polled a.1 waker a.2.woken.length).map fun tx => ⟨a.2, tx, s.rx⟩
  | .pollRx waker =>
    let a := pollRx s.toState waker
    (s.rx.polled a.1 waker a.2.woken.length).map fun rx => ⟨a.2, s.tx, rx⟩
  | .dropTx => s.tx.drop.map fun tx => { s with tx := tx }
  | .dropRx => s.rx.drop.map fun rx => { s with rx := rx }

/-- **The calls and the futures, at most one for each direction, in any order.** -/
def watched (W : Type) : TransitionSystem (Watched W) (Action W) where
  init s := s = ⟨start, .absent, .absent⟩
  step s l s' := watchedNext s l = some s'

/-- The step of the `Notify`, if there is one. -/
def Action.step : Action W → Option (Step W)
  | .tryWakeTx => some .tryWakeTx
  | .tryWakeRx => some .tryWakeRx
  | .pollTx waker => some (.pollTx waker)
  | .pollRx waker => some (.pollRx waker)
  | .txReady | .rxReady | .dropTx | .dropRx => none

theorem Action.step_eq_pollTx_iff {l : Action W} {waker : W} :
    l.step = some (.pollTx waker) ↔ l = .pollTx waker := by
  cases l <;> simp [Action.step]

variable {s s' : Watched W} {l : Action W}

/-- **A step is a step of the `Notify`, or leaves it as it was.** -/
theorem toState_watchedNext (h : watchedNext s l = some s') :
    s'.toState = l.step.elim s.toState (next s.toState) := by
  cases l with
  | tryWakeTx | tryWakeRx =>
    obtain rfl := Option.some.inj h
    rfl
  | txReady | rxReady | pollTx waker | pollRx waker | dropTx | dropRx =>
    obtain ⟨waiter, -, rfl⟩ := Option.map_eq_some_iff.mp h
    rfl

/-- What is reached with one future for each direction is reached with any number of them. -/
theorem reachable_toState (h : (watched W).Reachable s) : (system W).Reachable s.toState := by
  refine h.invariant (I := fun s => (system W).Reachable s.toState) ?_ fun s l s' hs hstep => ?_
  · rintro _ rfl
    exact .init rfl
  · rw [toState_watchedNext hstep]
    cases l.step with
    | none => exact hs
    | some l => exact hs.step rfl

/-! ## Registered wakers -/

section Knows

variable {slot : Slot W} {woken : List W} {p : Parked W}

/-- The waker is the registered one, and if the flag is set, it has been woken since. -/
structure Slot.Knows (slot : Slot W) (woken : List W) (p : Parked W) : Prop where
  since_le : p.since ≤ woken.length
  waker : slot.waker = some p.waker
  told : slot.flag = true → p.Woken woken

theorem Slot.Knows.append (h : slot.Knows woken p) (more : List W) :
    slot.Knows (woken ++ more) p := by
  refine ⟨h.since_le.trans ?_, h.waker, fun hflag => (h.told hflag).append⟩
  rw [List.length_append]
  exact Nat.le_add_right _ _

/-- Whoever sets the flag wakes the registered waker. -/
theorem Slot.Knows.tryWake (h : slot.Knows woken p) :
    Slot.Knows { slot with flag := true } (woken ++ slot.waker.toList) p := by
  refine ⟨(h.append _).since_le, h.waker, fun _ => Parked.woken_append_of_mem ?_ h.since_le⟩
  rw [h.waker]
  exact List.mem_singleton_self _

theorem Slot.knows_register (hflag : slot.flag = false) (waker : W) (woken : List W) :
    Slot.Knows { slot with waker := some waker } woken ⟨waker, woken.length⟩ :=
  ⟨le_rfl, rfl, fun h => absurd (hflag.symm.trans h) Bool.false_ne_true⟩

end Knows

/-- What is known of the futures that wait. -/
structure Tracked (s : Watched W) : Prop where
  tx : ∀ p, s.tx = .pending p → s.notify.receiveWaker.Knows s.woken p
  rx : ∀ p, s.rx = .pending p → s.notify.transmitWaker.Knows s.woken p

theorem polled_eq_pending {waiter waiter' : Waiter W} {result : Poll} {waker : W} {since : ℕ}
    {p : Parked W} (h : waiter.polled result waker since = some waiter')
    (hp : waiter' = .pending p) : result = .pending ∧ p = ⟨waker, since⟩ := by
  subst hp
  cases waiter with
  | absent => cases h
  | fresh | pending p' => cases result <;> simp_all [Waiter.polled]

theorem Tracked.pollTx (h : Tracked s) {waker : W}
    (hnext : watchedNext s (.pollTx waker) = some s') : Tracked s' := by
  obtain ⟨tx, hpolled, rfl⟩ := Option.map_eq_some_iff.mp hnext
  cases hflag : s.notify.receiveWaker.flag with
  | true =>
    -- `Ready`: the future does not wait, and the other direction is as it was
    simp only [pollTx_of_set hflag] at hpolled ⊢
    exact ⟨fun p hp => absurd (polled_eq_pending hpolled hp).1 Poll.noConfusion, h.rx⟩
  | false =>
    -- `Pending`: the future has registered, and the other direction has been woken
    simp only [pollTx_of_clear hflag, registerRx_eq] at hpolled ⊢
    refine ⟨fun p hp => ?_, fun p hp => (h.rx p hp).tryWake⟩
    obtain ⟨-, rfl⟩ := polled_eq_pending hpolled hp
    exact Slot.knows_register hflag waker _

theorem Tracked.pollRx (h : Tracked s) {waker : W}
    (hnext : watchedNext s (.pollRx waker) = some s') : Tracked s' := by
  obtain ⟨rx, hpolled, rfl⟩ := Option.map_eq_some_iff.mp hnext
  cases hflag : s.notify.transmitWaker.flag with
  | true =>
    simp only [pollRx_of_set hflag] at hpolled ⊢
    exact ⟨h.tx, fun p hp => absurd (polled_eq_pending hpolled hp).1 Poll.noConfusion⟩
  | false =>
    simp only [pollRx_of_clear hflag, registerTx] at hpolled ⊢
    refine ⟨h.tx, fun p hp => ?_⟩
    obtain ⟨-, rfl⟩ := polled_eq_pending hpolled hp
    exact Slot.knows_register hflag waker _

/-- A future that has just been made or dropped does not wait. -/
theorem ne_pending_of_make {waiter waiter' : Waiter W} (h : waiter.make = some waiter')
    (p : Parked W) : waiter' ≠ .pending p := by
  cases waiter <;> simp_all [Waiter.make, eq_comm]

theorem ne_pending_of_drop {waiter waiter' : Waiter W} (h : waiter.drop = some waiter')
    (p : Parked W) : waiter' ≠ .pending p := by
  cases waiter <;> simp_all [Waiter.drop, eq_comm]

/-- **What a step keeps.** -/
theorem Tracked.next (h : Tracked s) (hnext : watchedNext s l = some s') : Tracked s' := by
  cases l with
  | tryWakeTx =>
    obtain rfl := Option.some.inj hnext
    constructor
    all_goals rw [tryWakeTx_snd]
    · exact fun p hp => (h.tx p hp).append _
    · exact fun p hp => (h.rx p hp).tryWake
  | tryWakeRx =>
    obtain rfl := Option.some.inj hnext
    constructor
    all_goals rw [tryWakeRx_snd]
    · exact fun p hp => (h.tx p hp).tryWake
    · exact fun p hp => (h.rx p hp).append _
  | txReady =>
    obtain ⟨tx, hmake, rfl⟩ := Option.map_eq_some_iff.mp hnext
    exact ⟨fun p hp => absurd hp (ne_pending_of_make hmake p), h.rx⟩
  | rxReady =>
    obtain ⟨rx, hmake, rfl⟩ := Option.map_eq_some_iff.mp hnext
    exact ⟨h.tx, fun p hp => absurd hp (ne_pending_of_make hmake p)⟩
  | dropTx =>
    obtain ⟨tx, hdrop, rfl⟩ := Option.map_eq_some_iff.mp hnext
    exact ⟨fun p hp => absurd hp (ne_pending_of_drop hdrop p), h.rx⟩
  | dropRx =>
    obtain ⟨rx, hdrop, rfl⟩ := Option.map_eq_some_iff.mp hnext
    exact ⟨h.tx, fun p hp => absurd hp (ne_pending_of_drop hdrop p)⟩
  | pollTx waker => exact h.pollTx hnext
  | pollRx waker => exact h.pollRx hnext

theorem reachable_tracked (h : (watched W).Reachable s) : Tracked s := by
  refine h.invariant (I := Tracked) ?_ fun s l s' htracked hstep => htracked.next hstep
  rintro _ rfl
  constructor
  · rintro p ⟨⟩
  · rintro p ⟨⟩

/-! ## The next poll -/

/-- Whatever happens before the next poll, it returns `Ready`. -/
def NextReady (poll : State W → W → Poll × State W) (label : W → Action W) (s : Watched W) : Prop :=
  ∀ l₁ t l₂ waker, (watched W).IsRun s (l₁ ++ t :: l₂) →
    (∀ u ∈ l₁, ∀ waker', u.label ≠ label waker') → t.label = label waker →
    (poll t.before.toState waker).1 = .ready

theorem nextReady_pollTx (h : s.notify.receiveWaker.flag = true) : NextReady pollTx .pollTx s := by
  intro l₁ t l₂ waker hrun hnone _
  have hflag := hrun.before (I := fun s => s.notify.receiveWaker.flag = true) h ?_
  · rw [LocalNotify.pollTx_of_set hflag]
  · intro u hu hset hstep
    rw [toState_watchedNext hstep]
    cases hlabel : u.label.step with
    | none => exact hset
    | some l =>
      refine receive_flag_of_ne hset fun waker' hl => ?_
      rw [hl, Action.step_eq_pollTx_iff] at hlabel
      exact hnone u hu waker' hlabel

theorem nextReady_pollRx (h : s.notify.transmitWaker.flag = true) : NextReady pollRx .pollRx s := by
  intro l₁ t l₂ waker hrun _ _
  have hflag := hrun.before (I := fun s => s.notify.transmitWaker.flag = true) h ?_
  · rw [LocalNotify.pollRx_of_set hflag]
  · intro u _ hset hstep
    rw [toState_watchedNext hstep]
    cases u.label.step with
    | none => exact hset
    | some l => exact (transmit_flag_next u.before.toState l).mpr (Or.inl hset)

/-- **No signal is lost**: when a flag is set and the last poll of the future that waits for it has
returned `Pending`, the waker of this poll has been woken since, and the next poll returns `Ready`. -/
theorem reachable_heard (h : (watched W).Reachable s) :
    (∀ p, s.tx = .pending p → s.notify.receiveWaker.flag = true →
      p.Woken s.woken ∧ NextReady pollTx .pollTx s) ∧
    ∀ p, s.rx = .pending p → s.notify.transmitWaker.flag = true →
      p.Woken s.woken ∧ NextReady pollRx .pollRx s := by
  have htracked := reachable_tracked h
  constructor
  · exact fun p hp hflag => ⟨(htracked.tx p hp).told hflag, nextReady_pollTx hflag⟩
  · exact fun p hp hflag => ⟨(htracked.rx p hp).told hflag, nextReady_pollRx hflag⟩

/-- A transmitter has polled, and a receiver wakes it. -/
def afterSignal : Watched ℕ :=
  ⟨⟨⟨⟨true, none⟩, ⟨true, some 7⟩⟩, [7]⟩, .pending ⟨7, 0⟩, .absent⟩

theorem reachable_heard_signal :
    (∀ p, afterSignal.tx = .pending p → afterSignal.notify.receiveWaker.flag = true →
      p.Woken afterSignal.woken ∧ NextReady pollTx .pollTx afterSignal) ∧
    ∀ p, afterSignal.rx = .pending p → afterSignal.notify.transmitWaker.flag = true →
      p.Woken afterSignal.woken ∧ NextReady pollRx .pollRx afterSignal := by
  have hrun : [Action.txReady, .pollTx 7, .tryWakeRx].foldlM watchedNext
      ⟨start, .absent, .absent⟩ = some afterSignal := rfl
  have hinit : (watched ℕ).Reachable ⟨start, .absent, .absent⟩ := .init rfl
  exact reachable_heard (hinit.foldlM (fun _ _ _ h => h) hrun)

end AsyncKernel.LocalNotify
