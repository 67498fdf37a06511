import AsyncKernel.Foundation.Parties
import AsyncKernel.Locks.AsyncRwLock

/-!
# Wakers that are lost

Harts that share an `AsyncRwLock`. A poll tries the raw lock and then registers its waker; the drop of
a guard releases the raw lock, wakes the list of the wakers, and takes its mutex a second time to
clear it. A waker that another hart registers in between is discarded without having been woken.

## Main definitions

* `AsyncRwLock.Control`, `AsyncRwLock.move`: what a hart does, step by step
* `AsyncRwLock.Harts.Kept`: every waker that has been pushed is in the list or has been woken since
* `AsyncRwLock.Discards`: the list is cleared after a waker has been pushed since the latest wake

## Main results

* `AsyncRwLock.kept_iff`: the runs in which no waker is lost
-/

namespace AsyncKernel

open Notify (Parked)

namespace AsyncRwLock

/-- Where a hart is in a poll or in the drop of a guard. -/
inductive Control (W : Type)
  | idle
  /-- the raw lock has been refused -/
  | register (waker : W)
  /-- the raw lock has been released -/
  | wakeAll
  /-- the list has been woken -/
  | clear
  deriving DecidableEq, Repr

/-- The lock, its guards, and the wakers that have been pushed. -/
structure Harts (W : Type) where
  lock : AsyncRwLock W
  guards : List Kind
  pushed : List (Parked W)

inductive Step (W : Type)
  /-- a poll of a read or write future, up to the try of the raw lock -/
  | poll (kind : Kind) (waker : W)
  /-- the drop of a guard, up to the release of the raw lock; a guard is `Send` -/
  | drop (kind : Kind)
  /-- the next step of the call -/
  | run
  deriving DecidableEq, Repr

variable {Hart W : Type}

/-- What a hart does. -/
def move (_hart : Hart) : Step W → Control W → Harts W → Option (Control W × Harts W)
  | .poll kind waker, .idle, s =>
    match (tryLock kind).run s.lock.value with
    | some value => some (.idle, { s with lock.value := value, guards := kind :: s.guards })
    | none => some (.register waker, s)
  | .run, .register waker, s => some (.idle, { s with
      lock := s.lock.register waker
      pushed := ⟨waker, s.lock.woken.length⟩ :: s.pushed })
  | .drop kind, .idle, s =>
    if kind ∈ s.guards then
      some (.wakeAll, { s with lock := s.lock.release kind, guards := s.guards.erase kind })
    else none
  | .run, .wakeAll, s => some (.clear, { s with lock := s.lock.wakeAll })
  | .run, .clear, s => some (.idle, { s with lock := s.lock.clear })
  | _, _, _ => none

/-- A new lock, and no hart in a call. -/
def startHarts : Parties Hart (Control W) (Harts W) := ⟨fun _ => .idle, ⟨new, [], []⟩⟩

/-- **Harts that share a lock.** -/
def sharedSystem (Hart W : Type) [DecidableEq Hart] :
    TransitionSystem (Parties Hart (Control W) (Harts W)) (Hart × Step W) :=
  Parties.system (fun s => s = startHarts) move

/-- Every waker that has been pushed is in the list, or has been woken since. -/
def Harts.Kept (s : Harts W) : Prop :=
  ∀ p ∈ s.pushed, p.waker ∈ s.lock.wakers ∨ p.Woken s.lock.woken

instance [DecidableEq W] (s : Harts W) : Decidable s.Kept :=
  inferInstanceAs (Decidable (∀ p ∈ s.pushed, p.waker ∈ s.lock.wakers ∨ p.Woken s.lock.woken))

/-- A hart clears the list, and since any waker was woken one has been pushed. -/
def Discards (s : Parties Hart (Control W) (Harts W)) (l : Hart × Step W) : Prop :=
  l.2 = .run ∧ s.control l.1 = .clear ∧
    ∃ p ∈ s.shared.pushed, p.since = s.shared.lock.woken.length

instance [DecidableEq W] (s : Parties Hart (Control W) (Harts W)) (l : Hart × Step W) :
    Decidable (Discards s l) := inferInstanceAs (Decidable (_ ∧ _ ∧ _))

/-! ## The runs -/

/-- What a step does to the lock and to the wakers that have been pushed. -/
inductive Moves (s : Harts W) : Step W → Control W → Harts W → Prop
  | value {l : Step W} {control : Control W} (value : ℕ) (guards : List Kind)
    (h : l ≠ .run) : Moves s l control ⟨{ s.lock with value }, guards, s.pushed⟩
  | register (waker : W) : Moves s .run (.register waker) ⟨s.lock.register waker, s.guards,
      ⟨waker, s.lock.woken.length⟩ :: s.pushed⟩
  | wakeAll : Moves s .run .wakeAll { s with lock := s.lock.wakeAll }
  | clear : Moves s .run .clear { s with lock := s.lock.clear }

variable {hart : Hart} {l : Step W} {control control' : Control W} {s s' : Harts W}

theorem moves_of_move (h : move hart l control s = some (control', s')) : Moves s l control s' := by
  unfold move at h
  split at h
  · split at h
    · obtain ⟨rfl, rfl⟩ := Prod.mk.inj (Option.some.inj h)
      exact .value _ _ (by simp)
    · obtain ⟨rfl, rfl⟩ := Prod.mk.inj (Option.some.inj h)
      exact .value s.lock.value s.guards (by simp)
  · obtain ⟨rfl, rfl⟩ := Prod.mk.inj (Option.some.inj h)
    exact .register _
  · split at h
    · obtain ⟨rfl, rfl⟩ := Prod.mk.inj (Option.some.inj h)
      exact .value _ _ (by simp)
    · cases h
  · obtain ⟨rfl, rfl⟩ := Prod.mk.inj (Option.some.inj h)
    exact .wakeAll
  · obtain ⟨rfl, rfl⟩ := Prod.mk.inj (Option.some.inj h)
    exact .clear
  · cases h

/-- Every waker that has been pushed is in the list or has been woken since, and in fact woken if any
waker has been woken since. -/
structure Harts.Tracked (s : Harts W) : Prop where
  kept : ∀ p ∈ s.pushed, p.Kept s.lock.wakers s.lock.woken
  woken : ∀ p ∈ s.pushed, p.since < s.lock.woken.length → p.Woken s.lock.woken

/-- A waker that has been pushed and since then none has been woken is in the list. -/
theorem Harts.Tracked.mem (h : s.Tracked) {p : Parked W} (hp : p ∈ s.pushed)
    (hsince : p.since = s.lock.woken.length) : p.waker ∈ s.lock.wakers := by
  refine (h.kept p hp).mem.resolve_right fun hwoken => ?_
  rw [Parked.Woken, hsince, List.drop_length] at hwoken
  cases hwoken

/-- **A step keeps track of the wakers** unless it clears the list after a waker has been pushed. -/
theorem Harts.Tracked.moves (h : s.Tracked) (hmoves : Moves s l control s')
    (hclear : l = .run → control = .clear → ∀ p ∈ s.pushed, p.since ≠ s.lock.woken.length) :
    s'.Tracked := by
  cases hmoves with
  | value value guards => exact ⟨h.kept, h.woken⟩
  | register waker =>
    constructor
    · intro p hp
      rcases List.mem_cons.mp hp with rfl | hp
      · exact Parked.kept_register
      · exact (h.kept p hp).push
    · intro p hp hsince
      rcases List.mem_cons.mp hp with rfl | hp
      · exact absurd hsince (lt_irrefl _)
      · exact h.woken p hp hsince
  | wakeAll =>
    constructor
    · intro p hp
      have hkept := h.kept p hp
      exact ⟨hkept.since_le.trans (by simp [AsyncRwLock.wakeAll]), hkept.mem.imp_right (·.append)⟩
    · intro p hp _
      rcases (h.kept p hp).since_le.lt_or_eq with hlt | heq
      · exact (h.woken p hp hlt).append
      · exact Parked.woken_append_of_mem (h.mem hp heq) heq.le
  | clear =>
    have hwoken : ∀ p ∈ s.pushed, p.Woken s.lock.woken := fun p hp =>
      h.woken p hp (lt_of_le_of_ne (h.kept p hp).since_le (hclear rfl rfl p hp))
    exact ⟨fun p hp => ⟨(h.kept p hp).since_le, Or.inr (hwoken p hp)⟩, h.woken⟩

theorem not_kept_clear {p : Parked W} (hp : p ∈ s.pushed)
    (hsince : p.since = s.lock.woken.length) : ¬ Harts.Kept { s with lock := s.lock.clear } := by
  intro hkept
  rcases hkept p hp with hmem | hwoken
  · cases hmem
  · rw [Parked.Woken, hsince, AsyncRwLock.clear, List.drop_length] at hwoken
    cases hwoken

variable [DecidableEq Hart] {a a' : Parties Hart (Control W) (Harts W)} {step : Hart × Step W}

/-- A step that clears the list after a waker has been pushed loses it. -/
theorem Discards.not_kept (h : Discards a step) (hnext : a.next move step = some a') :
    ¬ a'.shared.Kept := by
  obtain ⟨hart, l⟩ := step
  obtain ⟨rfl, hclear, p, hp, hsince⟩ := h
  obtain ⟨control, shared, hmove, rfl⟩ := Parties.next_eq_some hnext
  rw [show a.control hart = .clear from hclear] at hmove
  obtain ⟨-, rfl⟩ := Prod.mk.inj (Option.some.inj hmove)
  exact not_kept_clear hp hsince

theorem Harts.Tracked.next (h : a.shared.Tracked) (hnext : a.next move step = some a')
    (hdiscards : ¬ Discards a step) : a'.shared.Tracked := by
  obtain ⟨hart, l⟩ := step
  obtain ⟨control, shared, hmove, rfl⟩ := Parties.next_eq_some hnext
  refine h.moves (moves_of_move hmove) fun hrun hclear p hp hsince => ?_
  exact hdiscards ⟨hrun, hclear, p, hp, hsince⟩

/-- **The runs in which no waker is lost**: those in which no hart clears the list after a waker has
been pushed and none has been woken since. In these, whatever the harts do and in whatever order,
every waker that was ever pushed is in the list or has been woken after it was pushed. -/
theorem kept_iff {run : List (Transition (Parties Hart (Control W) (Harts W)) (Hart × Step W))}
    (h : (sharedSystem Hart W).IsRun startHarts run) :
    (∀ t ∈ run, t.before.shared.Kept ∧ t.after.shared.Kept) ↔
      ∀ t ∈ run, ¬ Discards t.before t.label := by
  have hstart : (startHarts : Parties Hart (Control W) (Harts W)).shared.Tracked := by
    constructor <;> simp [startHarts]
  refine h.forall_good_iff (fun a => a.shared.Tracked) hstart ?_ ?_ ?_
  · intro t hstep htracked hdiscards
    exact htracked.next hstep hdiscards
  · intro t _ hbefore hafter _
    exact ⟨fun p hp => (hbefore.kept p hp).mem, fun p hp => (hafter.kept p hp).mem⟩
  · intro t hstep _ hdiscards hkept
    exact hdiscards.not_kept hstep hkept.2

/-- The transitions of a new lock along a list of labels. -/
def hartsRun (labels : List (Bool × Step ℕ)) :
    List (Transition (Parties Bool (Control ℕ) (Harts ℕ)) (Bool × Step ℕ)) :=
  TransitionSystem.follow (Parties.next move) startHarts labels

theorem isRun_hartsRun (labels : List (Bool × Step ℕ)) :
    (sharedSystem Bool ℕ).IsRun startHarts (hartsRun labels) :=
  TransitionSystem.isRun_follow (fun _ _ _ h => h) _ _

/-- A reader that is refused registers before the writer wakes the list. -/
theorem kept_iff_registered :
    let run := hartsRun [(true, .poll .exclusive 1), (false, .poll .shared 2), (true, .drop .exclusive),
      (false, .run), (true, .run), (true, .run)]
    (∃ t ∈ run, t.before.control true = .clear ∧ t.after.shared.lock.woken = [2]) ∧
      ∀ t ∈ run, t.before.shared.Kept ∧ t.after.shared.Kept := by
  intro run
  have hcleared : ∃ t ∈ run, t.before.control true = .clear ∧ t.after.shared.lock.woken = [2] := by
    decide
  exact ⟨hcleared, (kept_iff (isRun_hartsRun _)).mpr (by decide)⟩

/-- A reader that is refused registers after the writer has woken the list and before it clears it:
the lock is free, and the waker of the reader is nowhere. -/
theorem not_kept_between_wake_and_clear :
    let run := hartsRun [(true, .poll .exclusive 1), (false, .poll .shared 2), (true, .drop .exclusive),
      (true, .run), (false, .run), (true, .run)]
    (sharedSystem Bool ℕ).IsRun startHarts run ∧
      (∃ t ∈ run, t.after.shared.lock = ⟨[], 0, []⟩ ∧ ⟨2, 0⟩ ∈ t.after.shared.pushed ∧
        ¬ t.after.shared.Kept) ∧
      ¬ ∀ t ∈ run, t.before.shared.Kept ∧ t.after.shared.Kept := by
  intro run
  have hlost : ∃ t ∈ run, t.after.shared.lock = ⟨[], 0, []⟩ ∧ ⟨2, 0⟩ ∈ t.after.shared.pushed ∧
      ¬ t.after.shared.Kept := by decide
  refine ⟨isRun_hartsRun _, hlost, fun hkept => ?_⟩
  obtain ⟨t, ht, -, -, hnot⟩ := hlost
  exact hnot (hkept t ht).2

end AsyncRwLock

end AsyncKernel
