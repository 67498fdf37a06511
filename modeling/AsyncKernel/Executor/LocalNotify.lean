import AsyncKernel.Foundation.Transition

/-!
# Notification between two sides on one hart

`Notify` of `local_notify.rs`. Each of its two directions has a flag and the waker of whoever waits.
To wake a direction sets its flag and wakes its waker. A future looks at a flag when it is polled:
when the flag is not set, the future registers its waker; when it is set, the future of `tx_ready`
clears it and that of `rx_ready` does not. A future of `tx_ready` that registers also wakes the other
direction.

The futures have no state of their own, and a step on the hart is atomic.

## Main definitions

* `LocalNotify.tryWakeTx`, `LocalNotify.pollTx` and their counterparts: the calls and the polls
* `LocalNotify.system`: the calls and the polls of any number of futures
* `LocalNotify.Spaced`: no two polls of `rx_ready` without an event in between, once the flag is set

## Main results

* `LocalNotify.consumed_iff_spaced`: the runs in which signals are consumed one for one
-/

namespace AsyncKernel

/-- `(bool, Option<Waker>)`: the flag of a direction, and the waker of whoever waits. -/
structure LocalNotify.Slot (W : Type) where
  flag : Bool
  waker : Option W
  deriving DecidableEq, Repr

/-- `Notify`. -/
structure LocalNotify (W : Type) where
  transmitWaker : LocalNotify.Slot W
  receiveWaker : LocalNotify.Slot W
  deriving DecidableEq, Repr

namespace LocalNotify

variable {W : Type}

/-- `Default::default`. -/
def new : LocalNotify W := ⟨⟨false, none⟩, ⟨false, none⟩⟩

/-- A `Notify`, and the wakers woken so far. -/
structure State (W : Type) where
  notify : LocalNotify W
  woken : List W
  deriving DecidableEq, Repr

/-- `Poll<()>`. -/
inductive Poll
  | ready
  | pending
  deriving DecidableEq, Repr

/-! ## Calls and polls -/

/-- What `try_wake_tx` and `try_wake_rx` do to their direction, with the wakers that they wake. -/
def Slot.tryWake (slot : Slot W) : Option Unit × Slot W × List W :=
  match slot.waker with
  | some waker => (some (), { slot with flag := true }, [waker])
  | none => (none, { slot with flag := true }, [])

/-- `try_wake_tx`. -/
def tryWakeTx (s : State W) : Option Unit × State W :=
  let (result, slot, woken) := s.notify.transmitWaker.tryWake
  (result, ⟨{ s.notify with transmitWaker := slot }, s.woken ++ woken⟩)

/-- `register_tx`. -/
def registerTx (s : State W) (transmitWaker : W) : State W :=
  { s with notify.transmitWaker.waker := some transmitWaker }

/-- `try_wake_rx`. -/
def tryWakeRx (s : State W) : Option Unit × State W :=
  let (result, slot, woken) := s.notify.receiveWaker.tryWake
  (result, ⟨{ s.notify with receiveWaker := slot }, s.woken ++ woken⟩)

/-- `register_rx`. -/
def registerRx (s : State W) (receiveWaker : W) : State W :=
  (tryWakeTx { s with notify.receiveWaker.waker := some receiveWaker }).2

/-- `WaitForTxFuture::poll`. -/
def pollTx (s : State W) (waker : W) : Poll × State W :=
  if s.notify.receiveWaker.flag then (.ready, { s with notify.receiveWaker.flag := false })
  else (.pending, registerRx s waker)

/-- `WaitForRxFuture::poll`. -/
def pollRx (s : State W) (waker : W) : Poll × State W :=
  if s.notify.transmitWaker.flag then (.ready, s)
  else (.pending, registerTx s waker)

inductive Step (W : Type)
  | tryWakeTx
  | tryWakeRx
  /-- a poll of a future of `tx_ready`, with the waker of its context -/
  | pollTx (waker : W)
  /-- a poll of a future of `rx_ready` -/
  | pollRx (waker : W)
  deriving DecidableEq, Repr

def next (s : State W) : Step W → State W
  | .tryWakeTx => (tryWakeTx s).2
  | .tryWakeRx => (tryWakeRx s).2
  | .pollTx waker => (pollTx s waker).2
  | .pollRx waker => (pollRx s waker).2

def start : State W := ⟨new, []⟩

/-- **The calls and the polls, in any order.** -/
def system (W : Type) : TransitionSystem (State W) (Step W) where
  init s := s = start
  step s l s' := s' = next s l

variable {s : State W} {waker : W}

theorem Slot.tryWake_snd (slot : Slot W) :
    slot.tryWake.2 = ({ slot with flag := true }, slot.waker.toList) := by
  unfold Slot.tryWake
  split <;> simp [*]

theorem tryWakeTx_snd (s : State W) : (tryWakeTx s).2 =
    ⟨{ s.notify with transmitWaker.flag := true },
      s.woken ++ s.notify.transmitWaker.waker.toList⟩ := by
  simp only [tryWakeTx, Slot.tryWake_snd]

theorem tryWakeRx_snd (s : State W) : (tryWakeRx s).2 =
    ⟨{ s.notify with receiveWaker.flag := true },
      s.woken ++ s.notify.receiveWaker.waker.toList⟩ := by
  simp only [tryWakeRx, Slot.tryWake_snd]

theorem registerRx_eq (s : State W) (waker : W) : registerRx s waker =
    ⟨⟨{ s.notify.transmitWaker with flag := true },
        { s.notify.receiveWaker with waker := some waker }⟩,
      s.woken ++ s.notify.transmitWaker.waker.toList⟩ :=
  tryWakeTx_snd _

theorem pollTx_of_set (h : s.notify.receiveWaker.flag = true) (waker : W) :
    pollTx s waker = (.ready, { s with notify.receiveWaker.flag := false }) :=
  if_pos h

theorem pollTx_of_clear (h : s.notify.receiveWaker.flag = false) (waker : W) :
    pollTx s waker = (.pending, registerRx s waker) :=
  if_neg (by simp [h])

theorem pollRx_of_set (h : s.notify.transmitWaker.flag = true) (waker : W) :
    pollRx s waker = (.ready, s) :=
  if_pos h

theorem pollRx_of_clear (h : s.notify.transmitWaker.flag = false) (waker : W) :
    pollRx s waker = (.pending, registerTx s waker) :=
  if_neg (by simp [h])

/-! ## One signal, one `Ready` -/

section Runs

variable {run : List (Transition (State W) (Step W))} {t : Transition (State W) (Step W)}

/-- A poll of a future of `tx_ready` that returns `Ready`. -/
def TxReady (t : Transition (State W) (Step W)) : Prop :=
  ∃ waker, t.label = .pollTx waker ∧ (pollTx t.before waker).1 = .ready

/-- A poll of a future of `rx_ready` that returns `Ready`. -/
def RxReady (t : Transition (State W) (Step W)) : Prop :=
  ∃ waker, t.label = .pollRx waker ∧ (pollRx t.before waker).1 = .ready

/-- An event that sets the transmit flag: `try_wake_tx`, or a poll of a future of `tx_ready` that
registers a receiver. -/
def SetsTx (t : Transition (State W) (Step W)) : Prop :=
  t.label = .tryWakeTx ∨
    ∃ waker, t.label = .pollTx waker ∧ t.before.notify.receiveWaker.flag = false

/-- **Signals are consumed one for one**: between any two polls that return `Ready` the flag has
been set. -/
def Consumed (run : List (Transition (State W) (Step W))) : Prop :=
  TransitionSystem.Separated TxReady (fun t => t.label = .tryWakeRx) run ∧
    TransitionSystem.Separated RxReady SetsTx run

/-- Once an event has set the transmit flag, there is such an event between any two polls of futures
of `rx_ready`. -/
def Spaced (run : List (Transition (State W) (Step W))) : Prop :=
  ∀ l₁ t l₂ u l₃ waker waker', run = l₁ ++ t :: (l₂ ++ u :: l₃) → t.label = .pollRx waker →
    u.label = .pollRx waker' → (∃ v ∈ l₁, SetsTx v) → ∃ v ∈ l₂, SetsTx v

/-- Every poll of a future of `tx_ready` leaves the receive flag clear, and only `try_wake_rx` sets
it. -/
theorem receive_flag_next (s : State W) (l : Step W) :
    (next s l).notify.receiveWaker.flag = match l with
      | .tryWakeRx => true
      | .pollTx _ => false
      | .tryWakeTx | .pollRx _ => s.notify.receiveWaker.flag := by
  cases l with
  | tryWakeTx => rw [next, tryWakeTx_snd]
  | tryWakeRx => rw [next, tryWakeRx_snd]
  | pollTx waker =>
    cases hflag : s.notify.receiveWaker.flag with
    | true => rw [next, pollTx_of_set hflag]
    | false =>
      rw [next, pollTx_of_clear hflag, registerRx_eq]
      exact hflag
  | pollRx waker =>
    cases hflag : s.notify.transmitWaker.flag with
    | true => rw [next, pollRx_of_set hflag]
    | false => rw [next, pollRx_of_clear hflag, registerTx]

/-- Only a poll of a future of `tx_ready` clears the receive flag. -/
theorem receive_flag_of_ne {l : Step W} (h : s.notify.receiveWaker.flag = true)
    (hne : ∀ waker, l ≠ .pollTx waker) : (next s l).notify.receiveWaker.flag = true := by
  rw [receive_flag_next]
  cases l with
  | pollTx waker => exact absurd rfl (hne waker)
  | tryWakeRx => rfl
  | tryWakeTx | pollRx waker => exact h

/-- Nothing clears the transmit flag. -/
theorem transmit_flag_next (s : State W) (l : Step W) :
    (next s l).notify.transmitWaker.flag = true ↔
      s.notify.transmitWaker.flag = true ∨ SetsTx ⟨s, l, next s l⟩ := by
  cases l with
  | tryWakeTx => simp [SetsTx, next, tryWakeTx_snd]
  | tryWakeRx => simp [SetsTx, next, tryWakeRx_snd]
  | pollTx waker =>
    cases hflag : s.notify.receiveWaker.flag with
    | true => simp [SetsTx, next, pollTx_of_set hflag, hflag]
    | false => simp [SetsTx, next, pollTx_of_clear hflag, registerRx_eq, hflag]
  | pollRx waker =>
    cases hflag : s.notify.transmitWaker.flag with
    | true => simp [next, pollRx_of_set hflag, hflag]
    | false => simp [SetsTx, next, pollRx_of_clear hflag, registerTx, hflag]

theorem transmit_flag_after (hstep : (system W).step t.before t.label t.after) :
    t.after.notify.transmitWaker.flag = true ↔
      t.before.notify.transmitWaker.flag = true ∨ SetsTx t := by
  rw [show t.after = next t.before t.label from hstep, transmit_flag_next]
  exact Iff.rfl

theorem flag_of_txReady (h : TxReady t) : t.before.notify.receiveWaker.flag = true := by
  obtain ⟨waker, -, hready⟩ := h
  by_contra hflag
  rw [pollTx_of_clear (Bool.eq_false_of_not_eq_true hflag)] at hready
  cases hready

theorem flag_of_rxReady (h : RxReady t) : t.before.notify.transmitWaker.flag = true := by
  obtain ⟨waker, -, hready⟩ := h
  by_contra hflag
  rw [pollRx_of_clear (Bool.eq_false_of_not_eq_true hflag)] at hready
  cases hready

/-- **The signals to transmitters are consumed one for one.** -/
theorem separated_txReady {s : State W} (h : (system W).IsRun s run) :
    TransitionSystem.Separated TxReady (fun t => t.label = .tryWakeRx) run := by
  refine h.separated (fun s => s.notify.receiveWaker.flag = true) ?_ ?_
  · rintro t hstep hready
    refine ⟨flag_of_txReady hready, ?_⟩
    obtain ⟨waker, hlabel, -⟩ := hready
    rw [show t.after = next t.before t.label from hstep, receive_flag_next, hlabel]
    exact Bool.false_ne_true
  · intro t hstep hlabel hclear
    rw [show t.after = next t.before t.label from hstep, receive_flag_next]
    cases hl : t.label with
    | tryWakeRx => exact absurd hl hlabel
    | pollTx waker => exact Bool.false_ne_true
    | tryWakeTx | pollRx waker => exact hclear

/-- The transmit flag is set after an event that sets it, and stays so. -/
theorem transmit_flag_of_mem {s : State W} {l₁ l₂ : List (Transition (State W) (Step W))}
    (h : (system W).IsRun s (l₁ ++ t :: l₂)) (hset : ∃ v ∈ l₁, SetsTx v) :
    t.before.notify.transmitWaker.flag = true := by
  obtain ⟨v, hv, hsets⟩ := hset
  obtain ⟨first, rest, rfl⟩ := List.append_of_mem hv
  rw [List.append_assoc, List.cons_append] at h
  have hafter := (transmit_flag_after (h.step (by simp))).mpr (Or.inr hsets)
  exact h.after.before (I := fun s => s.notify.transmitWaker.flag = true) hafter
    fun u _ hu hstep => (transmit_flag_after hstep).mpr (Or.inl hu)

/-- **Signals are consumed one for one in the runs that are spaced, and in no others.** -/
theorem consumed_iff_spaced (h : (system W).IsRun start run) : Consumed run ↔ Spaced run := by
  constructor
  · rintro ⟨-, hseparated⟩ l₁ t l₂ u l₃ waker waker' rfl ht hu hset
    have htflag := transmit_flag_of_mem h hset
    have hrun : (system W).IsRun start ((l₁ ++ t :: l₂) ++ u :: l₃) := by simpa using h
    have huflag := transmit_flag_of_mem hrun
      (hset.imp fun v hv => ⟨List.mem_append_left _ hv.1, hv.2⟩)
    exact hseparated l₁ t l₂ u l₃ rfl ⟨waker, ht, by rw [pollRx_of_set htflag]⟩
      ⟨waker', hu, by rw [pollRx_of_set huflag]⟩
  · refine fun hspaced => ⟨separated_txReady h, fun l₁ t l₂ u l₃ hrun ht hu => ?_⟩
    have hset := flag_of_rxReady ht
    obtain ⟨waker, htlabel, -⟩ := ht
    obtain ⟨waker', hulabel, -⟩ := hu
    refine hspaced l₁ t l₂ u l₃ waker waker' hrun htlabel hulabel ?_
    -- a poll that returns `Ready` finds the flag set, and an event has set it
    by_contra hnone
    subst hrun
    have hclear := h.before (I := fun s => s.notify.transmitWaker.flag ≠ true) Bool.false_ne_true
      fun v hv hv' hstep hafter => ((transmit_flag_after hstep).mp hafter).elim hv'
        fun hsets => hnone ⟨v, hv, hsets⟩
    exact hclear hset

/-- The state after `try_wake_tx`, and a poll of a future of `rx_ready` in it. -/
def signalled : State Unit := next start .tryWakeTx

def pollSignalled : Transition (State Unit) (Step Unit) := ⟨signalled, .pollRx (), signalled⟩

/-- One signal, and one poll. -/
theorem consumed_iff_spaced_once :
    let run : List (Transition (State Unit) (Step Unit)) :=
      [⟨start, .tryWakeTx, signalled⟩, pollSignalled]
    Consumed run ↔ Spaced run :=
  consumed_iff_spaced ⟨rfl, rfl, rfl, rfl, trivial⟩

/-- One signal, and two polls that return `Ready`. -/
theorem not_consumed_twice : ¬ ∀ run, (system Unit).IsRun start run → Consumed run := by
  intro h
  have hrun : (system Unit).IsRun start
      [⟨start, .tryWakeTx, signalled⟩, pollSignalled, pollSignalled] :=
    ⟨rfl, rfl, rfl, rfl, rfl, rfl, trivial⟩
  have hready : RxReady pollSignalled := ⟨(), rfl, rfl⟩
  obtain ⟨v, hv, -⟩ := (h _ hrun).2 [⟨start, .tryWakeTx, signalled⟩] pollSignalled []
    pollSignalled [] rfl hready hready
  cases hv

end Runs

end LocalNotify

end AsyncKernel
