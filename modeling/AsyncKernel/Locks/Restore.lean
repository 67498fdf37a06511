import AsyncKernel.Locks.InterruptsOff

/-!
# The mask after balanced locking

The first acquisition of a shared lock turns the interrupts of its hart off, and the release of the
last one turns them on: it writes `0x222` to `sie`, whatever was there before. So a hart that starts
and ends without a lock has its mask back when it was `0x222`, or when the hart has acquired nothing.

The counter of a hart may overflow here. It is the number of guards modulo `2 ^ 64`, which is 1 when
the last lock is released.

## Main definitions

* `SharedLocks.Tallied`: what the counter and `sie` of a hart are, with any mask at the start
* `SharedLocks.restoringSystem`: a hart that starts without a lock, among other harts

## Main results

* `SharedLocks.Tallied.move`: a step keeps the tally of its own hart
* `SharedLocks.sie_eq_iff`: the mask after a sequence that ends without a lock
-/

namespace AsyncKernel

namespace SharedLocks

variable {M R : Type}

/-- Where `sie` is neither about to be changed nor off for an operation. -/
def Control.atRest : Control M R → Bool
  | .idle => true
  | .acquiring a => !a.blocking
  | _ => false

/-- **What the counter and `sie` of a hart are**, wherever the hart is, when `sie` was `mask` at the
start. -/
structure Tallied (mask hart : ℕ) (control : Control M R) (s : State M R) : Prop where
  lt : s.count hart < usizeCard
  count : control ≠ .panicked → (s.count hart + control.owed) % usizeCard =
    (s.acquired hart + control.pending) % usizeCard
  /-- only what has been acquired is still to be counted -/
  owed : control.owed ≤ s.acquired hart
  /-- only a blocking acquisition is counted in advance -/
  blocking : ∀ stage a, control = .counting stage (some a) →
    a.blocking = true ∧ stage ≠ .decrement ∧ stage ≠ .enable
  releasing : ∀ g, control = .releasing g → g ∈ s.guards ∧ g.owner = hart ∧ g.acquirer = hart
  participant : (∃ next, control = .counting .decrement next ∨ control = .counting .enable next) →
    hart ∈ s.participants
  rest : control.atRest = true → s.acquired hart = 0 →
    s.interrupts.sie hart = if hart ∈ s.participants then 0x222 else mask

variable {mask hart : ℕ}

theorem Tallied.frame {control : Control M R} {s s' : State M R} (h : Tallied mask hart control s)
    (hframe : Frame hart s s') : Tallied mask hart control s' := by
  refine ⟨?_, ?_, ?_, h.blocking, ?_, ?_, ?_⟩
  · rw [hframe.count]
    exact h.lt
  · rw [hframe.count, hframe.acquired]
    exact h.count
  · rw [hframe.acquired]
    exact h.owed
  · intro g hg
    obtain ⟨hmem, howner, hacquirer⟩ := h.releasing g hg
    exact ⟨hframe.guards g hmem howner, howner, hacquirer⟩
  · rw [hframe.participants]
    exact h.participant
  · rw [hframe.acquired, hframe.sie]
    simp only [hframe.participants]
    exact h.rest

/-- A step in the two counting functions from stage to stage. -/
theorem Tallied.counting {s : State M R} {stage stage' : Stage} {next : Option (Acquisition M R)}
    {interrupts : Interrupts} (h : Tallied mask hart (.counting stage next) s)
    (hsteps : stage.Steps hart s.interrupts (some stage') interrupts) :
    Tallied mask hart (.counting stage' next) { s with interrupts } := by
  have hcount := h.count (by simp)
  have howed := h.owed
  have hblocking := h.blocking stage
  cases hsteps with
  | disable | missing | found =>
    refine ⟨h.lt, ?_, ?_, ?_, by simp, by simp, by simp [Control.atRest]⟩
    · intro _
      cases next <;> exact hcount
    · cases next <;> exact howed
    · rintro stage a ⟨⟩
      exact ⟨(hblocking a rfl).1, by simp, by simp⟩
  | resize =>
    have hsame := s.count_resize hart
    refine ⟨hsame ▸ h.lt, ?_, ?_, ?_, by simp, by simp, by simp [Control.atRest]⟩
    · intro _
      rw [hsame]
      cases next <;> exact hcount
    · cases next <;> exact howed
    · rintro stage a ⟨⟩
      exact ⟨(hblocking a rfl).1, by simp, by simp⟩
  | last hone =>
    cases next with
    | some a => exact absurd rfl (hblocking a rfl).2.1
    | none =>
      refine ⟨?_, ?_, Nat.zero_le _, by simp, by simp, ?_, by simp [Control.atRest]⟩
      · rw [State.count_set hone]
        exact wrappingSub_lt 1 1
      · intro _
        rw [State.count_eq hone] at hcount
        rw [State.count_set hone]
        simp only [Control.owed, Control.pending, wrappingSub, usizeCard] at hcount ⊢
        change _ = (s.acquired hart + 0) % 2 ^ 64
        omega
      · intro _
        exact h.participant ⟨none, Or.inl rfl⟩

/-- The last step of one of the two counting functions. -/
theorem Tallied.counted {s : State M R} {stage : Stage} {next : Option (Acquisition M R)}
    {interrupts : Interrupts} (h : Tallied mask hart (.counting stage next) s)
    (hsteps : stage.Steps hart s.interrupts none interrupts) :
    Tallied mask hart (next.elim .idle .acquiring) { s with interrupts } := by
  have hcount := h.count (by simp)
  have howed := h.owed
  have hblocking := h.blocking stage
  have hlt := h.lt
  cases hsteps with
  | increment hentry =>
    rename_i count
    rw [State.count_eq hentry] at hcount
    cases next with
    | none =>
      -- after a try: what has been acquired is counted now
      refine ⟨?_, ?_, Nat.zero_le _, by simp, by simp, by simp, ?_⟩
      · rw [State.count_set hentry]
        exact wrappingAdd_lt count 1
      · intro _
        rw [Option.elim_none, State.count_set hentry]
        simp only [Control.owed, Control.pending, wrappingAdd, usizeCard] at hcount ⊢
        change _ = (s.acquired hart + 0) % 2 ^ 64
        omega
      · intro _ hzero
        simp only [Control.owed] at howed
        change s.acquired hart = 0 at hzero
        omega
    | some a =>
      have ha := (hblocking a rfl).1
      refine ⟨?_, ?_, Nat.zero_le _, by simp, by simp, by simp, by simp [Control.atRest, ha]⟩
      · rw [State.count_set hentry]
        exact wrappingAdd_lt count 1
      · intro _
        rw [Option.elim_some, State.count_set hentry]
        simp only [Control.owed, Control.pending, wrappingAdd, usizeCard, ha, if_true] at hcount ⊢
        change _ = (s.acquired hart + 1) % 2 ^ 64
        omega
  | decrement hentry hone =>
    rename_i count
    rw [State.count_eq hentry] at hcount hlt
    cases next with
    | some a => exact absurd rfl (hblocking a rfl).2.1
    | none =>
      simp only [Control.owed, Control.pending, usizeCard] at hcount hlt
      refine ⟨?_, ?_, Nat.zero_le _, by simp, by simp, by simp, ?_⟩
      · rw [State.count_set hentry]
        exact wrappingSub_lt count 1
      · intro _
        rw [Option.elim_none, State.count_set hentry]
        simp only [Control.owed, Control.pending, wrappingSub, usizeCard]
        change _ = (s.acquired hart + 0) % 2 ^ 64
        omega
      · -- the counter was not 1, so something is still held
        intro _ hzero
        change s.acquired hart = 0 at hzero
        omega
  | enable =>
    cases next with
    | some a => exact absurd rfl (hblocking a rfl).2.2
    | none =>
      refine ⟨hlt, fun _ => hcount, Nat.zero_le _, by simp, by simp, by simp, fun _ _ => ?_⟩
      have hmem : hart ∈ s.participants := h.participant ⟨none, Or.inr rfl⟩
      rw [if_pos hmem]
      exact Function.update_self ..

/-! ## The steps -/

variable [DecidableEq M] [DecidableEq R]

omit [DecidableEq M] [DecidableEq R] in
/-- The start of an operation of a hart that is idle. -/
theorem Tallied.start {s : State M R} {request : Request M R} (h : Tallied mask hart .idle s)
    (hpermitted : request.Permitted hart s)
    (hunlock : ∀ g, request = .unlock g → g.acquirer = hart) :
    Tallied mask hart request.start s := by
  have hcount := h.count (by simp)
  -- an operation starts with a try, with counting for a blocking acquisition, or with a release
  have hstart : (∃ a, request.start = .acquiring a ∧ a.blocking = false) ∨
      (∃ a, request.start = .counting .disable (some a) ∧ a.blocking = true) ∨
      ∃ g, request = .unlock g ∧ request.start = .releasing g := by
    cases request with
    | lock m => exact Or.inr (Or.inl ⟨_, rfl, rfl⟩)
    | tryLock m => exact Or.inl ⟨_, rfl, rfl⟩
    | rwLock r op =>
      cases op with
      | lockShared | lockExclusive => exact Or.inr (Or.inl ⟨_, rfl, rfl⟩)
      | tryLockShared | tryLockExclusive => exact Or.inl ⟨_, rfl, rfl⟩
    | unlock g => exact Or.inr (Or.inr ⟨g, rfl, rfl⟩)
  obtain ⟨a, hstart, ha⟩ | ⟨a, hstart, ha⟩ | ⟨g, rfl, hstart⟩ := hstart
  · rw [hstart]
    refine ⟨h.lt, fun _ => ?_, Nat.zero_le _, by simp, by simp, by simp, fun _ => h.rest rfl⟩
    simpa only [Control.owed, Control.pending, ha, Bool.false_eq_true, if_false] using hcount
  · rw [hstart]
    refine ⟨h.lt, fun _ => hcount, Nat.zero_le _, ?_, by simp, by simp, by simp [Control.atRest]⟩
    rintro stage a' ⟨⟩
    exact ⟨ha, by simp, by simp⟩
  · rw [hstart]
    refine ⟨h.lt, fun _ => hcount, Nat.zero_le _, by simp, ?_, by simp, by simp [Control.atRest]⟩
    rintro g' ⟨⟩
    exact ⟨hpermitted.1, hpermitted.2, hunlock g rfl⟩

/-- An acquisition that succeeds: a blocking one has been counted before, and a try is still to be
counted. -/
theorem Tallied.acquired {a : Acquisition M R} {s s' : State M R}
    (h : Tallied mask hart (.acquiring a) s) (hstep : a.step s = (.inr true, s')) :
    Tallied mask hart (if a.blocking then .idle else disableThen none) { s' with
      guards := ⟨a.held, hart, hart⟩ :: s'.guards
      participants := hart :: s'.participants } := by
  have hcount := h.count (by simp)
  have hacquired : State.acquired { s' with
      guards := ⟨a.held, hart, hart⟩ :: s'.guards
      participants := hart :: s'.participants } hart = s.acquired hart + 1 := by
    rw [← acquired_step hstep hart]
    simp [State.acquired]
  have hsame : State.count { s' with
      guards := ⟨a.held, hart, hart⟩ :: s'.guards
      participants := hart :: s'.participants } hart = s.count hart := count_step hstep hart
  have hlt := h.lt
  cases hblocking : a.blocking with
  | true =>
    simp only [Control.owed, Control.pending, hblocking, if_true] at hcount
    refine ⟨hsame ▸ hlt, fun _ => ?_, Nat.zero_le _, by simp, by simp, by simp, ?_⟩
    · rw [hsame, hacquired]
      exact hcount
    · rw [hacquired]
      exact fun _ hzero => absurd hzero (Nat.succ_ne_zero _)
  | false =>
    simp only [Control.owed, Control.pending, hblocking, Bool.false_eq_true, if_false] at hcount ⊢
    refine ⟨hsame ▸ hlt, fun _ => ?_, ?_, ?_, ?_, ?_, ?_⟩
    · rw [hsame, hacquired]
      simp only [disableThen, lockAndDisableInterrupts, Bool.not_false, if_true, Control.owed,
        Control.pending, usizeCard] at hcount ⊢
      omega
    · rw [hacquired]
      exact Nat.le_add_left 1 _
    all_goals simp [disableThen, lockAndDisableInterrupts, Control.atRest]

/-- A release of what the hart has acquired: it is still to be counted. -/
theorem Tallied.released {guard : Guard M R} {s : State M R}
    (h : Tallied mask hart (.releasing guard) s) :
    Tallied mask hart enable { s.release guard with participants := hart :: s.participants } := by
  have hcount := h.count (by simp)
  have hlt := h.lt
  obtain ⟨hguard, -, hacquirer⟩ := h.releasing guard rfl
  have hpos : 0 < s.acquired hart := acquired_pos hguard hacquirer
  have hsame : State.count { s.release guard with participants := hart :: s.participants } hart =
      s.count hart := by
    simp only [State.count, release_interrupts]
  have hacquired : State.acquired { s.release guard with participants := hart :: s.participants }
      hart = s.acquired hart - 1 := by
    simp only [State.acquired, release_guards, countP_acquirer_erase, hguard, hacquirer, and_self,
      if_true]
  have henable : (enable : Control M R) = .counting .decrement none := rfl
  rw [henable]
  refine ⟨hsame ▸ hlt, fun _ => ?_, Nat.zero_le _, by simp, by simp,
    fun _ => List.mem_cons_self, by simp [Control.atRest]⟩
  rw [hsame, hacquired]
  simp only [Control.owed, Control.pending, Nat.add_zero] at hcount ⊢
  rw [hcount, Nat.sub_add_cancel hpos]

/-- **A step keeps the tally of its own hart**, when the hart releases only what it has acquired
itself and keeps its guards. -/
theorem Tallied.move {l : Label M R} {control control' : Control M R} {s s' : State M R}
    (h : Tallied mask hart control s) (hmoves : Moves hart s l control control' s')
    (hunlock : ∀ g, l = .call (.unlock g) → g.acquirer = hart) (hsend : l.isSend = false) :
    Tallied mask hart control' s' := by
  cases hmoves with
  | call request hpermitted =>
    exact h.start hpermitted fun g hg => hunlock g (by rw [hg])
  | counting next hsteps => exact h.counting hsteps
  | counted next hsteps => exact h.counted hsteps
  | panics next =>
    exact ⟨h.lt, by simp, Nat.zero_le _, by simp, by simp, by simp, by simp [Control.atRest]⟩
  | acquiring a hstep =>
    rename_i a'
    have hcount := h.count (by simp)
    have hblocking := (Acquisition.step_running hstep).1
    obtain ⟨hinterrupts, -, hparticipants⟩ := Acquisition.step_same hstep
    refine ⟨(count_step hstep hart).symm ▸ h.lt, fun _ => ?_, Nat.zero_le _, by simp, by simp,
      by simp, fun hrest => ?_⟩
    · simp only [Control.owed, Control.pending, hblocking] at hcount ⊢
      rw [count_step hstep, acquired_step hstep]
      exact hcount
    · rw [acquired_step hstep, hinterrupts, hparticipants]
      exact h.rest (by simpa only [Control.atRest, hblocking] using hrest)
  | refused a hstep =>
    have hcount := h.count (by simp)
    have hblocking := Acquisition.step_refused hstep
    obtain ⟨hinterrupts, -, hparticipants⟩ := Acquisition.step_same hstep
    refine ⟨(count_step hstep hart).symm ▸ h.lt, fun _ => ?_, Nat.zero_le _, by simp, by simp,
      by simp, fun _ => ?_⟩
    · simp only [Control.owed, Control.pending, hblocking] at hcount ⊢
      rw [count_step hstep, acquired_step hstep]
      exact hcount
    · rw [acquired_step hstep, hinterrupts, hparticipants]
      exact h.rest (by simp only [Control.atRest, hblocking, Bool.not_false])
  | acquired a hstep => exact h.acquired hstep
  | releasing guard => exact h.released
  | send => cases hsend

/-! ## A sequence of operations -/

/-- No operation is in progress, the hart holds nothing and counts nothing, and its mask is any. -/
structure WithoutLock (mask hart : ℕ) (s : Parties ℕ (Control M R) (State M R)) : Prop where
  control : ∀ other, s.control other = .idle
  count : s.shared.count hart = 0
  sie : s.shared.interrupts.sie hart = mask
  guards : ∀ g ∈ s.shared.guards, g.owner = g.acquirer ∧ g.owner ≠ hart
  participants : hart ∉ s.shared.participants

/-- No guard changes its owner, and no other hart resizes the table to less than its length. -/
def Undisturbed (hart : ℕ) (s : Parties ℕ (Control M R) (State M R)) (l : ℕ × Label M R) : Prop :=
  l.2.isSend = false ∧ (l.1 ≠ hart → ResizesStale s l = false)

instance (hart : ℕ) (s : Parties ℕ (Control M R) (State M R)) (l : ℕ × Label M R) :
    Decidable (Undisturbed hart s l) := inferInstanceAs (Decidable (_ ∧ (_ → _)))

/-- **The operations of a hart that starts without a lock**, with operations of other harts between
them. -/
def restoringSystem (M R : Type) [DecidableEq M] [DecidableEq R] (mask hart : ℕ) :
    TransitionSystem (Parties ℕ (Control M R) (State M R)) (ℕ × Label M R) :=
  (system (WithoutLock mask hart)).restrict fun s l _ => Undisturbed hart s l

/-- What holds of the hart, and of the guards of all harts. -/
structure Restoring (mask hart : ℕ) (s : Parties ℕ (Control M R) (State M R)) : Prop where
  tallied : Tallied mask hart (s.control hart) s.shared
  releasing : ∀ other g, s.control other = .releasing g → g ∈ s.shared.guards ∧ g.owner = other
  owner : ∀ g ∈ s.shared.guards, g.owner = g.acquirer

variable {s s' : Parties ℕ (Control M R) (State M R)} {l : ℕ × Label M R}

omit [DecidableEq M] [DecidableEq R] in
theorem WithoutLock.restoring (h : WithoutLock mask hart s) : Restoring mask hart s := by
  have hzero : s.shared.acquired hart = 0 := by
    rw [State.acquired, List.countP_eq_zero]
    intro g hg
    obtain ⟨howner, hne⟩ := h.guards g hg
    simpa [← howner] using hne
  refine ⟨?_, fun other g hg => ?_, fun g hg => (h.guards g hg).1⟩
  · rw [h.control hart]
    refine ⟨?_, fun _ => ?_, Nat.zero_le _, by simp, by simp, by simp, fun _ _ => ?_⟩
    · rw [h.count]
      decide
    · rw [h.count, hzero]
      rfl
    · rw [if_neg h.participants]
      exact h.sie
  · rw [h.control other] at hg
    cases hg

/-- **A step of any hart keeps what holds of the hart.** -/
theorem Restoring.next (h : Restoring mask hart s) (hnext : s.next move l = some s')
    (hl : Undisturbed hart s l) : Restoring mask hart s' := by
  obtain ⟨mover, label⟩ := l
  obtain ⟨hsend, hstale⟩ := hl
  obtain ⟨control', shared', hmove, hs'⟩ := Parties.next_eq_some hnext
  have hmoves := moves_of_move hmove
  have hrelease := h.releasing mover
  refine ⟨?_, ?_, ?_⟩
  · by_cases hne : hart = mover
    · subst hne
      have htallied := h.tallied.move hmoves (by
        rintro g rfl
        obtain ⟨hguard, hgowner⟩ := hmoves.permitted
        exact (h.owner g hguard).symm.trans hgowner) hsend
      simpa [hs'] using htallied
    · -- a step of another hart does not touch what the hart counts
      have hframe : Frame hart s.shared shared' := by
        refine hmoves.frame hne (fun next hcontrol => ?_) fun g hg => ?_
        · have hrun : label = .run := by
            rw [hcontrol] at hmoves
            cases hmoves <;> rfl
          subst hrun
          exact Or.inr (length_le_of_not_resizesStale (l := (mover, .run))
            (hstale (Ne.symm hne)) hcontrol)
        · obtain ⟨hguard, hgowner⟩ := hrelease g hg
          exact ⟨hgowner, (h.owner g hguard).symm.trans hgowner⟩
      rw [hs']
      dsimp only
      rw [Function.update_of_ne hne]
      exact h.tallied.frame hframe
  · intro other g hg
    rw [hs'] at hg ⊢
    dsimp only at hg ⊢
    by_cases hne : other = mover
    · subst hne
      rw [Function.update_self] at hg
      exact hmoves.leads_to.1 g hg
    · rw [Function.update_of_ne hne] at hg
      obtain ⟨hguard, hgowner⟩ := h.releasing other g hg
      exact ⟨hmoves.keeps_guard hne (fun g hg => (hrelease g hg).2) g hguard hgowner, hgowner⟩
  · rw [hs']
    exact hmoves.owner_eq_acquirer hsend h.owner

/-- **The mask after a sequence that ends without a lock** is what it was before when it was `0x222`,
or when the hart has acquired nothing. -/
theorem sie_eq_iff (h : (restoringSystem M R mask hart).Reachable s)
    (hidle : s.control hart = .idle) (hheld : ∀ g ∈ s.shared.guards, g.owner ≠ hart) :
    s.shared.interrupts.sie hart = mask ↔ mask = 0x222 ∨ hart ∉ s.shared.participants := by
  have hrestoring : Restoring mask hart s :=
    h.invariant (fun _ hstart => WithoutLock.restoring hstart) fun _ _ _ hrestoring hstep =>
      hrestoring.next hstep.1 hstep.2
  have hzero : s.shared.acquired hart = 0 := by
    rw [State.acquired, List.countP_eq_zero]
    intro g hg
    simpa [← hrestoring.owner g hg] using hheld g hg
  have hrest := hrestoring.tallied.rest (by rw [hidle]; rfl) hzero
  rw [hrest]
  split
  · rename_i hmem
    simp [hmem, eq_comm]
  · rename_i hmem
    simp [hmem]

/-- No lock has been used yet, and the mask of all harts is 0. -/
def masked (M R : Type) : Parties ℕ (Control M R) (State M R) :=
  ⟨fun _ => .idle, ⟨[], fun _ => 0⟩, fun _ => false, fun _ => 0, [], []⟩

omit [DecidableEq M] [DecidableEq R] in
theorem withoutLock_masked (hart : ℕ) : WithoutLock 0 hart (masked M R) :=
  ⟨fun _ => rfl, rfl, rfl, by simp [masked], by simp [masked]⟩

/-- A hart locks a mutex and unlocks it. -/
def lockUnlock : List (ℕ × Label ℕ ℕ) :=
  [(0, .call (.lock 0)), (0, .run), (0, .run), (0, .run), (0, .run), (0, .run),
    (0, .call (.unlock ⟨.mutex 0, 0, 0⟩)), (0, .run), (0, .run), (0, .run)]

/-- A mask other than `0x222` is not restored. -/
theorem sie_eq_iff_lockUnlock : ∃ s : Parties ℕ (Control ℕ ℕ) (State ℕ ℕ),
    (restoringSystem ℕ ℕ 0 0).Reachable s ∧ s.shared.guards = [] ∧ s.control 0 = .idle ∧
      (s.shared.interrupts.sie 0 = 0 ↔ (0 : ℕ) = 0x222 ∨ 0 ∉ s.shared.participants) := by
  have hinit : (restoringSystem ℕ ℕ 0 0).Reachable (masked ℕ ℕ) := .init (withoutLock_masked 0)
  have hreachable := hinit.foldlM_restrict (fun s l _ => decide (Undisturbed 0 s l)) lockUnlock
    (fun _ _ _ h => h) (fun _ _ _ h => of_decide_eq_true h) rfl
  exact ⟨_, hreachable, rfl, rfl, sie_eq_iff hreachable rfl (fun g hg => absurd hg List.not_mem_nil)⟩

/-- A hart that has turned its interrupts off locks a mutex and unlocks it: interrupts are on. -/
theorem not_sie_eq_disabled : ∃ s : Parties ℕ (Control ℕ ℕ) (State ℕ ℕ),
    (restoringSystem ℕ ℕ 0 0).Reachable s ∧ s.control 0 = .idle ∧ s.shared.guards = [] ∧
      s.shared.interrupts.sie 0 = 0x222 ∧ s.shared.interrupts.sie 0 ≠ 0 := by
  have hinit : (restoringSystem ℕ ℕ 0 0).Reachable (masked ℕ ℕ) := .init (withoutLock_masked 0)
  have hreachable := hinit.foldlM_restrict (fun s l _ => decide (Undisturbed 0 s l)) lockUnlock
    (fun _ _ _ h => h) (fun _ _ _ h => of_decide_eq_true h) rfl
  exact ⟨_, hreachable, rfl, rfl, rfl, by decide⟩

end SharedLocks

end AsyncKernel
