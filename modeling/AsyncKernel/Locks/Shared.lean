import AsyncKernel.Locks.HartLockCount

/-!
# The shared locks

`RawSharedLock` and `RawSharedRwLock` of `kernel_lock`: a spinning lock, held with interrupts off. A
blocking acquisition turns interrupts off, counts the lock and acquires it; a try acquires it first.
A release gives the lock up and counts it, and turns interrupts on again when it was the last lock
of the hart.

Harts outside interrupt context use any number of these locks, and their atomic operations and
writes of `sie` interleave in any order. Guards of the reader/writer lock are `Send`.

## Main definitions

* `SharedLocks.Request`, `SharedLocks.Request.start`: the operations
* `SharedLocks.move`, `SharedLocks.system`: harts that share the locks

## Main results

* `SharedLocks.moves_of_move`: what a step of a hart can do
-/

namespace AsyncKernel

namespace SharedLocks

open RawSpinRwLock (Op Attempt)

/-! ## The operations -/

/-- What is held of a lock, for locks that are named by `M` and `R`. -/
inductive Held (M R : Type)
  | mutex (m : M)
  | rwLock (kind : Kind) (r : R)
  deriving DecidableEq, Repr

/-- `GuardMarker`: `GuardNoSend` of the mutex, and `GuardSend` of the reader/writer lock. -/
def Held.isSend {M R : Type} : Held M R → Bool
  | .mutex _ => false
  | .rwLock _ _ => true

/-- A guard, with the hart that has acquired it and the hart that owns it now. -/
structure Guard (M R : Type) where
  held : Held M R
  acquirer : ℕ
  owner : ℕ
  deriving DecidableEq, Repr

/-- The internal locks, and the guards that exist. -/
structure State (M R : Type) where
  interrupts : Interrupts
  locked : M → Bool
  value : R → ℕ
  guards : List (Guard M R)
  /-- the harts that have acquired or released a lock -/
  participants : List ℕ

/-- An acquisition of an internal lock. -/
inductive Acquisition (M R : Type)
  /-- `lock` or `try_lock` of `RawSpinlock` -/
  | mutex (m : M) (blocking : Bool)
  | rwLock (r : R) (op : Op) (attempt : Attempt)
  deriving DecidableEq, Repr

/-- What a hart is doing. -/
inductive Control (M R : Type)
  | idle
  /-- in `lock_and_disable_interrupts` before an acquisition or after a try, or in
  `unlock_and_enable_interrupts_if_necessary` -/
  | counting (stage : Stage) (next : Option (Acquisition M R))
  | acquiring (acquisition : Acquisition M R)
  | releasing (guard : Guard M R)
  | panicked
  deriving DecidableEq, Repr

/-- The operations. -/
inductive Request (M R : Type)
  | lock (m : M)
  | tryLock (m : M)
  | rwLock (r : R) (op : Op)
  | unlock (guard : Guard M R)
  deriving DecidableEq, Repr

variable {M R : Type}

/-- `lock_and_disable_interrupts` outside interrupt context, and what comes after it. -/
def disableThen (next : Option (Acquisition M R)) : Control M R :=
  match lockAndDisableInterrupts false with
  | some stage => .counting stage next
  | none => next.elim .idle .acquiring

/-- `unlock_and_enable_interrupts_if_necessary` outside interrupt context. -/
def enable : Control M R :=
  match unlockAndEnableInterruptsIfNecessary false with
  | some stage => .counting stage none
  | none => .idle

namespace RawSharedLock

/-- `lock`. -/
def lock (m : M) : Control M R := disableThen (some (.mutex m true))

/-- `try_lock`. -/
def tryLock (m : M) : Control M R := .acquiring (.mutex m false)

end RawSharedLock

namespace RawSharedRwLock

/-- `lock_shared`. -/
def lockShared (r : R) : Control M R := disableThen (some (.rwLock r .lockShared .load))

/-- `try_lock_shared`. -/
def tryLockShared (r : R) : Control M R := .acquiring (.rwLock r .tryLockShared .load)

/-- `lock_exclusive`. -/
def lockExclusive (r : R) : Control M R := disableThen (some (.rwLock r .lockExclusive .load))

/-- `try_lock_exclusive`. -/
def tryLockExclusive (r : R) : Control M R := .acquiring (.rwLock r .tryLockExclusive .load)

end RawSharedRwLock

/-- Where an operation starts. -/
def Request.start : Request M R → Control M R
  | .lock m => RawSharedLock.lock m
  | .tryLock m => RawSharedLock.tryLock m
  | .rwLock r .lockShared => RawSharedRwLock.lockShared r
  | .rwLock r .tryLockShared => RawSharedRwLock.tryLockShared r
  | .rwLock r .lockExclusive => RawSharedRwLock.lockExclusive r
  | .rwLock r .tryLockExclusive => RawSharedRwLock.tryLockExclusive r
  -- `unlock`, `unlock_shared` and `unlock_exclusive`
  | .unlock guard => .releasing guard

namespace Acquisition

/-- What is acquired. -/
def held : Acquisition M R → Held M R
  | .mutex m _ => .mutex m
  | .rwLock r op _ => .rwLock op.kind r

/-- The acquisition goes on until it succeeds. -/
def blocking : Acquisition M R → Bool
  | .mutex _ blocking => blocking
  | .rwLock _ .lockShared _ | .rwLock _ .lockExclusive _ => true
  | .rwLock _ .tryLockShared _ | .rwLock _ .tryLockExclusive _ => false

variable [DecidableEq M] [DecidableEq R]

/-- One atomic operation of an acquisition. -/
def step (s : State M R) : Acquisition M R → (Acquisition M R ⊕ Bool) × State M R
  | .mutex m blocking =>
    match RawSpinlock.tryLock (s.locked m) with
    | (true, locked) => (.inr true, { s with locked := Function.update s.locked m locked })
    | (false, locked) => (if blocking then .inl (.mutex m blocking) else .inr false,
        { s with locked := Function.update s.locked m locked })
  | .rwLock r op attempt =>
    match op.step attempt (s.value r) with
    | (.inl attempt, value) => (.inl (.rwLock r op attempt),
        { s with value := Function.update s.value r value })
    | (.inr acquired, value) => (.inr acquired, { s with value := Function.update s.value r value })

end Acquisition

variable [DecidableEq M] [DecidableEq R]

/-- The internal lock of a guard is released, and the guard is gone. -/
def State.release (s : State M R) (guard : Guard M R) : State M R :=
  match guard.held with
  | .mutex m => { s with
      locked := Function.update s.locked m (RawSpinlock.unlock (s.locked m))
      guards := s.guards.erase guard }
  | .rwLock kind r => { s with
      value := Function.update s.value r (RawSpinRwLock.unlock kind (s.value r))
      guards := s.guards.erase guard }

/-- A guard is unlocked by its owner. -/
def Request.Permitted (hart : ℕ) (s : State M R) : Request M R → Prop
  | .unlock guard => guard ∈ s.guards ∧ guard.owner = hart
  | _ => True

instance (hart : ℕ) (s : State M R) (request : Request M R) :
    Decidable (request.Permitted hart s) :=
  match request with
  | .unlock _ => inferInstanceAs (Decidable (_ ∧ _))
  | .lock _ | .tryLock _ | .rwLock _ _ => .isTrue trivial

inductive Label (M R : Type)
  | call (request : Request M R)
  /-- the next atomic operation, or write of `sie` -/
  | run
  /-- a guard changes its owner -/
  | send (guard : Guard M R) (receiver : ℕ)
  deriving DecidableEq, Repr

/-- What a hart does outside interrupt context. -/
def move (hart : ℕ) : Label M R → Control M R → State M R → Option (Control M R × State M R)
  | .call request, .idle, s =>
    if request.Permitted hart s then some (request.start, s) else none
  | .run, .counting stage next, s =>
    match stage.step hart s.interrupts with
    | .ok (some stage, interrupts) => some (.counting stage next, { s with interrupts })
    | .ok (none, interrupts) => some (next.elim .idle .acquiring, { s with interrupts })
    | .error _ => some (.panicked, s)
  | .run, .acquiring acquisition, s =>
    match acquisition.step s with
    | (.inl acquisition, s) => some (.acquiring acquisition, s)
    | (.inr false, s) => some (.idle, s)
    | (.inr true, s) => some (if acquisition.blocking then .idle else disableThen none,
        { s with
          guards := ⟨acquisition.held, hart, hart⟩ :: s.guards
          participants := hart :: s.participants })
  | .run, .releasing guard, s =>
    some (enable, { s.release guard with participants := hart :: s.participants })
  | .send guard receiver, .idle, s =>
    if guard ∈ s.guards ∧ guard.owner = hart ∧ guard.held.isSend = true then
      some (.idle, { s with guards := { guard with owner := receiver } :: s.guards.erase guard })
    else none
  | _, _, _ => none

/-- **Harts that share the locks**, from the states in `init`. -/
def system (init : Parties ℕ (Control M R) (State M R) → Prop) :
    TransitionSystem (Parties ℕ (Control M R) (State M R)) (ℕ × Label M R) :=
  Parties.system init move

/-- No lock has been used yet. -/
structure Boot (s : Parties ℕ (Control M R) (State M R)) : Prop where
  control : ∀ hart, s.control hart = .idle
  table : s.shared.interrupts.table = []
  locked : ∀ m, s.shared.locked m = false
  value : ∀ r, s.shared.value r = 0
  guards : s.shared.guards = []
  participants : s.shared.participants = []

/-! ## The acquisitions -/

theorem lock_ne_false {tryLock : Attempt → ℕ → (Attempt ⊕ Bool) × ℕ} (attempt : Attempt)
    (value value' : ℕ) : RawSpinRwLock.lock tryLock attempt value ≠ (.inr false, value') := by
  unfold RawSpinRwLock.lock
  split
  · simp
  · rename_i hresult
    exact hresult value'

/-- An acquisition changes nothing but the internal locks. -/
theorem Acquisition.step_same {a : Acquisition M R} {s s' : State M R}
    {result : Acquisition M R ⊕ Bool} (h : a.step s = (result, s')) :
    s'.interrupts = s.interrupts ∧ s'.guards = s.guards ∧ s'.participants = s.participants := by
  cases a with
  | mutex m blocking | rwLock r op attempt =>
    simp only [step] at h
    split at h
    all_goals
      obtain ⟨-, rfl⟩ := Prod.mk.inj h
      exact ⟨rfl, rfl, rfl⟩

/-- What comes of a step: an acquisition that goes on is of the same kind, and a blocking one does
not give up. -/
theorem Acquisition.step_cases {a : Acquisition M R} {s s' : State M R}
    {result : Acquisition M R ⊕ Bool} (h : a.step s = (result, s')) :
    (∃ a', result = .inl a' ∧ a'.blocking = a.blocking ∧ a'.held = a.held) ∨
      result = .inr true ∨ result = .inr false ∧ a.blocking = false := by
  cases a with
  | mutex m blocking =>
    simp only [step] at h
    split at h
    · exact Or.inr (Or.inl (Prod.mk.inj h).1.symm)
    · obtain ⟨rfl, -⟩ := Prod.mk.inj h
      cases blocking with
      | true => exact Or.inl ⟨.mutex m true, rfl, rfl, rfl⟩
      | false => exact Or.inr (Or.inr ⟨rfl, rfl⟩)
  | rwLock r op attempt =>
    simp only [step] at h
    split at h
    · obtain ⟨rfl, -⟩ := Prod.mk.inj h
      exact Or.inl ⟨_, rfl, by cases op <;> rfl, rfl⟩
    · rename_i acquired value hstep
      obtain ⟨rfl, -⟩ := Prod.mk.inj h
      cases acquired with
      | true => exact Or.inr (Or.inl rfl)
      | false =>
        refine Or.inr (Or.inr ⟨rfl, ?_⟩)
        cases op with
        | tryLockShared | tryLockExclusive => rfl
        | lockShared | lockExclusive => exact absurd hstep (lock_ne_false _ _ _)

/-- An acquisition that goes on is of the same kind. -/
theorem Acquisition.step_running {a a' : Acquisition M R} {s s' : State M R}
    (h : a.step s = (.inl a', s')) : a'.blocking = a.blocking ∧ a'.held = a.held := by
  obtain ⟨_, ⟨⟩, hsame⟩ | ⟨⟨⟩⟩ | ⟨⟨⟩, -⟩ := step_cases h
  exact hsame

/-- A blocking acquisition does not give up. -/
theorem Acquisition.step_refused {a : Acquisition M R} {s s' : State M R}
    (h : a.step s = (.inr false, s')) : a.blocking = false := by
  obtain ⟨_, ⟨⟩, -⟩ | ⟨⟨⟩⟩ | ⟨-, hblocking⟩ := step_cases h
  exact hblocking

/-! ## What a hart can do -/

/-- What a step of a hart can do. -/
inductive Moves (hart : ℕ) (s : State M R) :
    Label M R → Control M R → Control M R → State M R → Prop
  | call (request : Request M R) (h : request.Permitted hart s) :
    Moves hart s (.call request) .idle request.start s
  | counting {stage stage' : Stage} (next : Option (Acquisition M R)) {interrupts : Interrupts}
    (h : stage.Steps hart s.interrupts (some stage') interrupts) :
    Moves hart s .run (.counting stage next) (.counting stage' next) { s with interrupts }
  | counted {stage : Stage} (next : Option (Acquisition M R)) {interrupts : Interrupts}
    (h : stage.Steps hart s.interrupts none interrupts) :
    Moves hart s .run (.counting stage next) (next.elim .idle .acquiring) { s with interrupts }
  | panics {stage : Stage} (next : Option (Acquisition M R))
    (hstage : stage = .increment ∨ stage = .decrement) (h : s.interrupts.table.length ≤ hart) :
    Moves hart s .run (.counting stage next) .panicked s
  | acquiring (a : Acquisition M R) {a' : Acquisition M R} {s' : State M R}
    (h : a.step s = (.inl a', s')) :
    Moves hart s .run (.acquiring a) (.acquiring a') s'
  | refused (a : Acquisition M R) {s' : State M R} (h : a.step s = (.inr false, s')) :
    Moves hart s .run (.acquiring a) .idle s'
  | acquired (a : Acquisition M R) {s' : State M R} (h : a.step s = (.inr true, s')) :
    Moves hart s .run (.acquiring a) (if a.blocking then .idle else disableThen none)
      { s' with
        guards := ⟨a.held, hart, hart⟩ :: s'.guards
        participants := hart :: s'.participants }
  | releasing (guard : Guard M R) :
    Moves hart s .run (.releasing guard) enable
      { s.release guard with participants := hart :: s.participants }
  | send (guard : Guard M R) (receiver : ℕ) (h : guard ∈ s.guards) (howner : guard.owner = hart)
    (hsend : guard.held.isSend = true) :
    Moves hart s (.send guard receiver) .idle .idle
      { s with guards := { guard with owner := receiver } :: s.guards.erase guard }

theorem moves_of_move {hart : ℕ} {l : Label M R} {control control' : Control M R}
    {s s' : State M R} (h : move hart l control s = some (control', s')) :
    Moves hart s l control control' s' := by
  unfold move at h
  split at h
  · split at h
    · rename_i hpermitted
      obtain ⟨rfl, rfl⟩ := Prod.mk.inj (Option.some.inj h)
      exact .call _ hpermitted
    · cases h
  · split at h
    · rename_i hstep
      obtain ⟨rfl, rfl⟩ := Prod.mk.inj (Option.some.inj h)
      exact .counting _ (Stage.steps_of_step hstep)
    · rename_i hstep
      obtain ⟨rfl, rfl⟩ := Prod.mk.inj (Option.some.inj h)
      exact .counted _ (Stage.steps_of_step hstep)
    · rename_i hstep
      obtain ⟨rfl, rfl⟩ := Prod.mk.inj (Option.some.inj h)
      exact .panics _ (Stage.step_eq_error hstep).1 (Stage.step_eq_error hstep).2
  · split at h
    · rename_i hstep
      obtain ⟨rfl, rfl⟩ := Prod.mk.inj (Option.some.inj h)
      exact .acquiring _ hstep
    · rename_i hstep
      obtain ⟨rfl, rfl⟩ := Prod.mk.inj (Option.some.inj h)
      exact .refused _ hstep
    · rename_i hstep
      obtain ⟨rfl, rfl⟩ := Prod.mk.inj (Option.some.inj h)
      exact .acquired _ hstep
  · obtain ⟨rfl, rfl⟩ := Prod.mk.inj (Option.some.inj h)
    exact .releasing _
  · split at h
    · rename_i hguard
      obtain ⟨rfl, rfl⟩ := Prod.mk.inj (Option.some.inj h)
      exact .send _ _ hguard.1 hguard.2.1 hguard.2.2
    · cases h
  · cases h

theorem Moves.permitted {hart : ℕ} {request : Request M R} {control control' : Control M R}
    {s s' : State M R} (h : Moves hart s (.call request) control control' s') :
    request.Permitted hart s := by
  cases h with
  | call _ hpermitted => exact hpermitted

/-! ## Releases -/

theorem release_interrupts (s : State M R) (guard : Guard M R) :
    (s.release guard).interrupts = s.interrupts := by
  unfold State.release
  split <;> rfl

theorem release_guards (s : State M R) (guard : Guard M R) :
    (s.release guard).guards = s.guards.erase guard := by
  unfold State.release
  split <;> rfl

end SharedLocks

end AsyncKernel
