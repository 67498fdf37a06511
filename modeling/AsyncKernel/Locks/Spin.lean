import AsyncKernel.Foundation.Parties

/-!
# The spinning locks

`RawSpinlock` and `RawSpinRwLock` of `kernel_lock`. The value of the reader/writer lock counts the
readers in twos, and its lowest bit is the writer. Every acquisition is a loop: it loads the value,
checks what it has loaded, and exchanges the value if it still is what was loaded. Any number of
harts run these loops, and their atomic operations interleave in any order.

## Main definitions

* `RawSpinlock.tryLock`, `RawSpinlock.unlock`: the mutex
* `RawSpinRwLock.tryLockShared`, `RawSpinRwLock.tryLockExclusive`: the atomic operations of an
  acquisition
* `RawSpinRwLock.system`: harts that share the lock

## Main results

* `RawSpinRwLock.exclusion`: the value counts the holders, and a writer is alone
-/

namespace AsyncKernel

/-- What is held of a reader/writer lock. -/
inductive Kind
  | shared
  | exclusive
  deriving DecidableEq, Repr

/-- The number of values of `usize`. -/
def usizeCard : ℕ := 2 ^ 64

/-- `fetch_sub`. -/
def wrappingSub (value amount : ℕ) : ℕ := (value + (usizeCard - amount)) % usizeCard

/-- `fetch_add`, and `+` in a build without overflow checks. -/
def wrappingAdd (value amount : ℕ) : ℕ := (value + amount) % usizeCard

theorem wrappingSub_lt (value amount : ℕ) : wrappingSub value amount < usizeCard :=
  Nat.mod_lt _ (by norm_num [usizeCard])

theorem wrappingAdd_lt (value amount : ℕ) : wrappingAdd value amount < usizeCard :=
  Nat.mod_lt _ (by norm_num [usizeCard])

theorem wrappingAdd_of_lt {value amount : ℕ} (h : value + amount < usizeCard) :
    wrappingAdd value amount = value + amount := Nat.mod_eq_of_lt h

theorem wrappingSub_of_le {value amount : ℕ} (h : amount ≤ value) (hvalue : value < usizeCard) :
    wrappingSub value amount = value - amount := by
  have hsum : value + (usizeCard - amount) = value - amount + usizeCard := by omega
  rw [wrappingSub, hsum, Nat.add_mod_right]
  exact Nat.mod_eq_of_lt (by omega)

namespace RawSpinlock

/-- `try_lock`, a `compare_exchange` of false by true: whether it succeeds, and `locked` afterwards.
`lock` repeats it until it succeeds. -/
def tryLock (locked : Bool) : Bool × Bool :=
  if locked = false then (true, true) else (false, locked)

/-- `unlock`. -/
def unlock (_locked : Bool) : Bool := false

end RawSpinlock

namespace RawSpinRwLock

def SHARED : ℕ := 1 <<< 1

def WRITER : ℕ := 1 <<< 0

/-- Where an acquisition is: before the load, or before the `compare_exchange` with the value that
was loaded. -/
inductive Attempt
  | load
  | compareExchange (outdatedValue : ℕ)
  deriving DecidableEq, Repr

/-- One atomic operation of an acquisition that gives up on the values that `refuses` admits: where
it is afterwards, or what it returns, and the value. -/
def tryLock (refuses : ℕ → Bool) (amount : ℕ) : Attempt → ℕ → (Attempt ⊕ Bool) × ℕ
  | .load, value =>
    if refuses value then (.inr false, value) else (.inl (.compareExchange value), value)
  | .compareExchange outdatedValue, value =>
    if value = outdatedValue then (.inr true, wrappingAdd outdatedValue amount)
    -- the value has changed since the load: it is loaded and checked again
    else (.inl .load, value)

/-- `try_lock_shared`. -/
def tryLockShared : Attempt → ℕ → (Attempt ⊕ Bool) × ℕ :=
  tryLock (fun value => value &&& WRITER != 0) SHARED

/-- `try_lock_exclusive`. -/
def tryLockExclusive : Attempt → ℕ → (Attempt ⊕ Bool) × ℕ :=
  tryLock (fun value => value != 0) WRITER

/-- A loop `while !try_lock() {}` over an acquisition. -/
def lock (tryLock : Attempt → ℕ → (Attempt ⊕ Bool) × ℕ) (attempt : Attempt) (value : ℕ) :
    (Attempt ⊕ Bool) × ℕ :=
  match tryLock attempt value with
  | (.inr false, value) => (.inl .load, value)
  | result => result

/-- `lock_shared`. -/
def lockShared : Attempt → ℕ → (Attempt ⊕ Bool) × ℕ := lock tryLockShared

/-- `lock_exclusive`. -/
def lockExclusive : Attempt → ℕ → (Attempt ⊕ Bool) × ℕ := lock tryLockExclusive

/-- `unlock_shared`. -/
def unlockShared (value : ℕ) : ℕ := wrappingSub value SHARED

/-- `unlock_exclusive`. -/
def unlockExclusive (value : ℕ) : ℕ := wrappingSub value WRITER

/-- The acquisitions. -/
inductive Op
  | tryLockShared
  | lockShared
  | tryLockExclusive
  | lockExclusive
  deriving DecidableEq, Repr

/-- One atomic operation of an acquisition. -/
def Op.step : Op → Attempt → ℕ → (Attempt ⊕ Bool) × ℕ
  | .tryLockShared => RawSpinRwLock.tryLockShared
  | .lockShared => RawSpinRwLock.lockShared
  | .tryLockExclusive => RawSpinRwLock.tryLockExclusive
  | .lockExclusive => RawSpinRwLock.lockExclusive

/-- What an acquisition acquires. -/
def Op.kind : Op → Kind
  | .tryLockShared | .lockShared => .shared
  | .tryLockExclusive | .lockExclusive => .exclusive

/-- The release of what is held. -/
def unlock : Kind → ℕ → ℕ
  | .shared => unlockShared
  | .exclusive => unlockExclusive

/-! ## One acquisition -/

/-- What a holder adds to the value. -/
def amount : Kind → ℕ
  | .shared => SHARED
  | .exclusive => WRITER

/-- The values from which an acquisition is possible. -/
def Admits : Kind → ℕ → Prop
  | .shared, value => value % 2 = 0
  | .exclusive, value => value = 0

/-- A value that was loaded has been checked. -/
def Attempt.Checked (kind : Kind) : Attempt → Prop
  | .load => True
  | .compareExchange outdatedValue => Admits kind outdatedValue

theorem unlock_eq (kind : Kind) (value : ℕ) :
    unlock kind value = wrappingSub value (amount kind) := by
  cases kind <;> rfl

/-- What an atomic operation of an acquisition does, for a check of what it loads. -/
structure Steps (kind : Kind) (value : ℕ) (result : (Attempt ⊕ Bool) × ℕ) : Prop where
  running : ∀ attempt, result.1 = .inl attempt → attempt.Checked kind ∧ result.2 = value
  refused : result.1 = .inr false → result.2 = value
  acquired : result.1 = .inr true → Admits kind value ∧ result.2 = wrappingAdd value (amount kind)

theorem tryLock_steps {refuses : ℕ → Bool} (kind : Kind) {attempt : Attempt}
    (hrefuses : ∀ value, refuses value = false → Admits kind value) (h : attempt.Checked kind)
    (value : ℕ) : Steps kind value (tryLock refuses (amount kind) attempt value) := by
  cases attempt with
  | load =>
    simp only [tryLock]
    split
    · constructor <;> simp
    · rename_i hvalue
      have hadmits : Admits kind value := hrefuses value (by simpa using hvalue)
      constructor
      · rintro attempt ⟨rfl⟩
        exact ⟨hadmits, rfl⟩
      · simp
      · simp
  | compareExchange outdatedValue =>
    simp only [tryLock]
    split
    · rename_i hvalue
      subst hvalue
      constructor
      · simp
      · simp
      · intro
        exact ⟨h, rfl⟩
    · constructor
      · rintro attempt ⟨rfl⟩
        exact ⟨trivial, rfl⟩
      · simp
      · simp

theorem Steps.lock {kind : Kind} {value : ℕ} {attempt : Attempt}
    {tryLock : Attempt → ℕ → (Attempt ⊕ Bool) × ℕ} (h : Steps kind value (tryLock attempt value)) :
    Steps kind value (lock tryLock attempt value) := by
  unfold RawSpinRwLock.lock
  split
  · rename_i value' heq
    rw [heq] at h
    constructor
    · rintro attempt ⟨rfl⟩
      exact ⟨trivial, h.refused rfl⟩
    · simp
    · simp
  · exact h

/-- **What an atomic operation of an acquisition does**: nothing to the value, or it acquires. -/
theorem Op.steps (op : Op) {attempt : Attempt} (h : attempt.Checked op.kind) (value : ℕ) :
    Steps op.kind value (op.step attempt value) := by
  have hshared : attempt.Checked .shared →
      Steps .shared value (RawSpinRwLock.tryLockShared attempt value) := by
    intro h
    refine tryLock_steps .shared (fun value hvalue => ?_) h value
    simpa [Admits, WRITER, Nat.and_one_is_mod] using hvalue
  have hexclusive : attempt.Checked .exclusive →
      Steps .exclusive value (RawSpinRwLock.tryLockExclusive attempt value) := by
    intro h
    refine tryLock_steps .exclusive (fun value hvalue => ?_) h value
    simpa [Admits] using hvalue
  cases op with
  | tryLockShared => exact hshared h
  | lockShared => exact (hshared h).lock
  | tryLockExclusive => exact hexclusive h
  | lockExclusive => exact (hexclusive h).lock

/-! ## The holders -/

variable {Hart : Type}

/-- The lock, and its guards with the harts that own them. -/
structure State (Hart : Type) where
  value : ℕ
  guards : List (Kind × Hart)

/-- Guards are compared by their kinds and their owners. -/
instance lawfulBEqGuard [DecidableEq Hart] : LawfulBEq (Kind × Hart) := inferInstance

/-- How many guards of a kind there are. -/
def State.holders (kind : Kind) (s : State Hart) : ℕ := s.guards.countP fun g => g.1 = kind

/-- The value counts the holders, and a writer is alone. -/
structure State.Exclusive (s : State Hart) : Prop where
  value : s.value = 2 * s.holders .shared + s.holders .exclusive
  unique : s.holders .exclusive ≤ 1
  alone : s.holders .exclusive = 1 → s.holders .shared = 0

theorem holders_acquire (s : State Hart) (value : ℕ) (kind kind' : Kind) (hart : Hart) :
    State.holders kind' ⟨value, (kind, hart) :: s.guards⟩ =
      s.holders kind' + if kind = kind' then 1 else 0 := by
  simp [State.holders, List.countP_cons]

variable {s : State Hart}

/-- A successful acquisition keeps the exclusion, when the readers still fit into the value. -/
theorem State.Exclusive.acquire (h : s.Exclusive) {kind : Kind} {hart : Hart} {value : ℕ}
    (hadmits : Admits kind s.value)
    (hreaders : State.holders .shared ⟨value, (kind, hart) :: s.guards⟩ < 2 ^ 63) :
    State.Exclusive ⟨wrappingAdd s.value (amount kind), (kind, hart) :: s.guards⟩ := by
  obtain ⟨hvalue, hunique, halone⟩ := h
  rw [holders_acquire] at hreaders
  have hadd : wrappingAdd s.value (amount kind) = s.value + amount kind := by
    apply wrappingAdd_of_lt
    cases kind <;> simp [Admits, amount, SHARED, WRITER, usizeCard] at hadmits hreaders ⊢ <;> omega
  constructor
  all_goals simp only [hadd, holders_acquire]
  all_goals cases kind <;> simp [Admits, amount, SHARED, WRITER] at hadmits ⊢ <;> omega

variable [DecidableEq Hart]

theorem holders_release {s : State Hart} {kind : Kind} {hart : Hart} (h : (kind, hart) ∈ s.guards)
    (value : ℕ) (kind' : Kind) :
    s.holders kind' = State.holders kind' ⟨value, s.guards.erase (kind, hart)⟩ +
      if kind = kind' then 1 else 0 := by
  have hcons := holders_acquire ⟨value, s.guards.erase (kind, hart)⟩ value kind kind' hart
  rw [← hcons]
  exact (List.perm_cons_erase h).countP_eq _

theorem State.Exclusive.release (h : s.Exclusive) {kind : Kind} {hart : Hart}
    (hguard : (kind, hart) ∈ s.guards) (hreaders : s.holders .shared < 2 ^ 63) :
    State.Exclusive ⟨unlock kind s.value, s.guards.erase (kind, hart)⟩ := by
  obtain ⟨hvalue, hunique, halone⟩ := h
  have hshared := holders_release hguard (unlock kind s.value) .shared
  have hexclusive := holders_release hguard (unlock kind s.value) .exclusive
  have hsub : unlock kind s.value = s.value - amount kind := by
    rw [unlock_eq]
    apply wrappingSub_of_le
    · cases kind <;> simp [amount, SHARED, WRITER] at hshared hexclusive ⊢ <;> omega
    · simp only [usizeCard]
      omega
  constructor
  all_goals cases kind <;> simp [hsub, amount, SHARED, WRITER] at hshared hexclusive ⊢ <;> omega

/-! ## The harts -/

/-- An acquisition in progress. -/
structure Call where
  op : Op
  attempt : Attempt
  deriving DecidableEq, Repr

inductive Label (Hart : Type)
  | call (op : Op)
  /-- the next atomic operation of the acquisition -/
  | run
  /-- `fetch_sub`, by the owner of a guard -/
  | unlock (kind : Kind)
  /-- a guard is `Send` -/
  | send (kind : Kind) (receiver : Hart)

/-- What a hart does: `none` is the control between two calls. -/
def move (hart : Hart) : Label Hart → Option Call → State Hart → Option (Option Call × State Hart)
  | .call op, none, s => some (some ⟨op, .load⟩, s)
  | .run, some call, s =>
    match call.op.step call.attempt s.value with
    | (.inl attempt, value) => some (some { call with attempt }, { s with value })
    | (.inr false, value) => some (none, { s with value })
    | (.inr true, value) => some (none, ⟨value, (call.op.kind, hart) :: s.guards⟩)
  | .unlock kind, none, s =>
    if (kind, hart) ∈ s.guards then
      some (none, ⟨RawSpinRwLock.unlock kind s.value, s.guards.erase (kind, hart)⟩)
    else none
  | .send kind receiver, none, s =>
    if (kind, hart) ∈ s.guards then
      some (none, { s with guards := (kind, receiver) :: s.guards.erase (kind, hart) })
    else none
  | _, _, _ => none

/-- **Harts that share a lock.** -/
def system (Hart : Type) [DecidableEq Hart] :
    TransitionSystem (Parties Hart (Option Call) (State Hart)) (Hart × Label Hart) :=
  Parties.system (fun s => s = ⟨fun _ => none, ⟨0, []⟩⟩) move

/-- What a hart does to the lock: nothing, an acquisition from a value that admits it, a release of
a guard that it owns, or a guard changes its owner. -/
theorem move_cases {hart : Hart} {l : Label Hart} {control control' : Option Call}
    {s s' : State Hart} (hchecked : ∀ call, control = some call → call.attempt.Checked call.op.kind)
    (h : move hart l control s = some (control', s')) :
    (∀ call, control' = some call → call.attempt.Checked call.op.kind) ∧
      (s' = s ∨
        (∃ kind, Admits kind s.value ∧
          s' = ⟨wrappingAdd s.value (amount kind), (kind, hart) :: s.guards⟩) ∨
        (∃ kind, (kind, hart) ∈ s.guards ∧
          s' = ⟨unlock kind s.value, s.guards.erase (kind, hart)⟩) ∨
        ∃ kind receiver, (kind, hart) ∈ s.guards ∧
          s' = { s with guards := (kind, receiver) :: s.guards.erase (kind, hart) }) := by
  unfold move at h
  split at h
  · -- a call starts with a load
    obtain ⟨rfl, rfl⟩ := Prod.mk.inj (Option.some.inj h)
    refine ⟨?_, Or.inl rfl⟩
    rintro call ⟨rfl⟩
    trivial
  · rename_i call
    have hsteps := call.op.steps (hchecked call rfl) s.value
    split at h
    · rename_i attempt value heq
      rw [heq] at hsteps
      obtain ⟨rfl, rfl⟩ := Prod.mk.inj (Option.some.inj h)
      obtain ⟨hattempt, hvalue⟩ := hsteps.running attempt rfl
      refine ⟨?_, Or.inl ?_⟩
      · rintro call ⟨rfl⟩
        exact hattempt
      · exact congrArg (State.mk · s.guards) hvalue
    · rename_i value heq
      rw [heq] at hsteps
      obtain ⟨rfl, rfl⟩ := Prod.mk.inj (Option.some.inj h)
      exact ⟨by simp, Or.inl (congrArg (State.mk · s.guards) (hsteps.refused rfl))⟩
    · rename_i value heq
      rw [heq] at hsteps
      obtain ⟨rfl, rfl⟩ := Prod.mk.inj (Option.some.inj h)
      obtain ⟨hadmits, hvalue⟩ := hsteps.acquired rfl
      refine ⟨by simp, Or.inr (Or.inl ⟨_, hadmits, ?_⟩)⟩
      exact congrArg (State.mk · _) hvalue
  · rename_i kind
    split at h
    · rename_i hguard
      obtain ⟨rfl, rfl⟩ := Prod.mk.inj (Option.some.inj h)
      exact ⟨by simp, Or.inr (Or.inr (Or.inl ⟨kind, hguard, rfl⟩))⟩
    · cases h
  · rename_i kind receiver
    split at h
    · rename_i hguard
      obtain ⟨rfl, rfl⟩ := Prod.mk.inj (Option.some.inj h)
      exact ⟨by simp, Or.inr (Or.inr (Or.inr ⟨kind, receiver, hguard, rfl⟩))⟩
    · cases h
  · cases h

/-! ## Exclusion -/

/-- A guard that changes its owner leaves the numbers of holders as they are. -/
theorem State.Exclusive.send {s : State Hart} (h : s.Exclusive) {kind : Kind} {hart : Hart}
    (hguard : (kind, hart) ∈ s.guards) (receiver : Hart) :
    State.Exclusive { s with guards := (kind, receiver) :: s.guards.erase (kind, hart) } := by
  have hsame : ∀ kind',
      State.holders kind' { s with guards := (kind, receiver) :: s.guards.erase (kind, hart) } =
        s.holders kind' := by
    intro kind'
    rw [holders_release hguard s.value kind']
    exact holders_acquire ⟨s.value, s.guards.erase (kind, hart)⟩ s.value kind kind' receiver
  constructor
  · rw [hsame, hsame]
    exact h.value
  · rw [hsame]
    exact h.unique
  · rw [hsame, hsame]
    exact h.alone

/-- The runs in which fewer than 2^62 readers hold the lock at once. -/
def boundedSystem (Hart : Type) [DecidableEq Hart] :
    TransitionSystem (Parties Hart (Option Call) (State Hart)) (Hart × Label Hart) :=
  (system Hart).restrict fun _ _ s' => s'.shared.holders .shared < 2 ^ 62

/-- **Reader/writer exclusion.** Whatever the harts do and in whatever order, the value counts the
holders, there is at most one writer, and a writer excludes all readers. -/
theorem exclusion {s : Parties Hart (Option Call) (State Hart)}
    (h : (boundedSystem Hart).Reachable s) :
    s.shared.value = 2 * s.shared.holders .shared + s.shared.holders .exclusive ∧
      s.shared.holders .exclusive ≤ 1 ∧
      (0 < s.shared.holders .exclusive → s.shared.holders .shared = 0) := by
  -- A value that was loaded may be outdated, but it has been checked; and an exchange succeeds only
  -- when it is not outdated.
  have hinv : (∀ hart call, s.control hart = some call → call.attempt.Checked call.op.kind) ∧
      s.shared.holders .shared < 2 ^ 62 ∧ s.shared.Exclusive := by
    refine h.invariant (I := fun s =>
      (∀ hart call, s.control hart = some call → call.attempt.Checked call.op.kind) ∧
        s.shared.holders .shared < 2 ^ 62 ∧ s.shared.Exclusive) ?_ ?_
    · rintro s rfl
      refine ⟨by simp, by simp [State.holders], ?_⟩
      constructor <;> simp [State.holders]
    · rintro s ⟨hart, l⟩ s' ⟨hchecked, hreaders, hexclusive⟩ ⟨hnext, hreaders'⟩
      refine ⟨?_, hreaders', ?_⟩
      · refine Parties.assertions (A := fun _ control _ => ∀ call, control = some call →
          call.attempt.Checked call.op.kind) hnext ?_ ?_
        · intro control shared hmove
          exact (move_cases (hchecked hart) hmove).1
        · intro control shared _ other _
          exact hchecked other
      · obtain ⟨control, shared, hmove, rfl⟩ := Parties.next_eq_some hnext
        dsimp only
        obtain rfl | ⟨kind, hadmits, rfl⟩ | ⟨kind, hguard, rfl⟩ | ⟨kind, receiver, hguard, rfl⟩ :=
          (move_cases (hchecked hart) hmove).2
        · exact hexclusive
        · exact hexclusive.acquire hadmits (hreaders'.trans (by norm_num))
        · exact hexclusive.release hguard (hreaders.trans (by norm_num))
        · exact hexclusive.send hguard receiver
  obtain ⟨-, -, hvalue, hunique, halone⟩ := hinv
  refine ⟨hvalue, hunique, fun hpos => halone ?_⟩
  omega

/-- A reader acquires the lock between the load and the exchange of a writer, which fails. -/
theorem exclusion_outdated_writer : ∃ s : Parties Bool (Option Call) (State Bool),
    (boundedSystem Bool).Reachable s ∧ s.control false = some ⟨.lockExclusive, .load⟩ ∧
      s.shared.guards = [(.shared, true)] ∧
      (s.shared.value = 2 * s.shared.holders .shared + s.shared.holders .exclusive ∧
        s.shared.holders .exclusive ≤ 1 ∧
        (0 < s.shared.holders .exclusive → s.shared.holders .shared = 0)) := by
  have hinit : (boundedSystem Bool).Reachable ⟨fun _ => none, ⟨0, []⟩⟩ := .init rfl
  have hreachable := hinit.foldlM_restrict
    (fun _ _ s' => s'.shared.holders .shared < 2 ^ 62)
    [(false, .call .lockExclusive), (false, .run), (true, .call .lockShared), (true, .run),
      (true, .run), (false, .run)] (fun _ _ _ h => h) (fun _ _ _ h => by simpa using h) rfl
  exact ⟨_, hreachable, rfl, rfl, exclusion hreachable⟩

end RawSpinRwLock

end AsyncKernel
