import AsyncKernel.Locks.Shared

/-!
# The counters and the interrupts of a hart

Wherever a hart is in an operation on a shared lock, its counter and its guards differ by what the
operation has counted and not acquired, or acquired and not counted; and its interrupts are off when
it holds a guard, except right after a try. Both are assertions of one hart that the steps of the
other harts do not invalidate, unless they resize away the entry of the hart or release its guards.

## Main definitions

* `SharedLocks.Balanced`: what the counter of a hart counts
* `SharedLocks.Masked`: what `sie` of a hart is
* `SharedLocks.Frame`: what a step leaves alone for another hart

## Main results

* `SharedLocks.Moves.frame`: what a step leaves alone for the other harts
* `SharedLocks.Balanced.move`, `SharedLocks.Masked.move`: a step keeps both for its own hart
-/

namespace AsyncKernel

namespace SharedLocks

variable {M R : Type}

/-! ## The counters -/

/-- The counter of a hart, 0 when it has none. -/
def State.count (s : State M R) (hart : ℕ) : ℕ := s.interrupts.table[hart]?.getD 0

/-- How many guards that a hart has acquired exist. -/
def State.acquired (s : State M R) (hart : ℕ) : ℕ := s.guards.countP fun g => g.acquirer = hart

/-- What has been acquired and is not counted yet: after a try. -/
def Control.owed : Control M R → ℕ
  | .counting .disable none | .counting .check none | .counting .resize none
  | .counting .increment none => 1
  | _ => 0

/-- What is counted and not acquired yet, or released and still counted. -/
def Control.pending : Control M R → ℕ
  | .acquiring a => if a.blocking then 1 else 0
  | .counting .decrement _ => 1
  | _ => 0

/-- **What the counter of a hart counts**, wherever the hart is. -/
structure Balanced (hart : ℕ) (control : Control M R) (s : State M R) : Prop where
  count : s.count hart + control.owed = s.acquired hart + control.pending
  /-- only a blocking acquisition is counted in advance -/
  blocking : ∀ stage a, control = .counting stage (some a) →
    a.blocking = true ∧ stage ≠ .decrement ∧ stage ≠ .enable
  entry : ∀ next, control = .counting .increment next → hart < s.interrupts.table.length
  last : ∀ next, control = .counting .enable next → s.acquired hart = 0
  releasing : ∀ g, control = .releasing g → g ∈ s.guards ∧ g.owner = hart ∧ g.acquirer = hart
  panicked : control ≠ .panicked

/-- What a step of another hart leaves alone. -/
structure Frame (hart : ℕ) (s s' : State M R) : Prop where
  count : s'.count hart = s.count hart
  acquired : s'.acquired hart = s.acquired hart
  entry : hart < s.interrupts.table.length → hart < s'.interrupts.table.length
  guards : ∀ g, g ∈ s.guards → g.owner = hart → g ∈ s'.guards
  sie : s'.interrupts.sie hart = s.interrupts.sie hart
  participants : hart ∈ s'.participants ↔ hart ∈ s.participants

theorem Frame.of_same {hart : ℕ} {s s' : State M R} (hinterrupts : s'.interrupts = s.interrupts)
    (hacquired : s'.acquired hart = s.acquired hart)
    (hguards : ∀ g, g ∈ s.guards → g.owner = hart → g ∈ s'.guards)
    (hparticipants : hart ∈ s'.participants ↔ hart ∈ s.participants) : Frame hart s s' := by
  constructor
  · rw [State.count, State.count, hinterrupts]
  · exact hacquired
  · rw [hinterrupts]
    exact id
  · exact hguards
  · rw [hinterrupts]
  · exact hparticipants

theorem Frame.of_steps {hart other : ℕ} {s : State M R} {stage : Stage} {next : Option Stage}
    {interrupts : Interrupts} (h : stage.Steps other s.interrupts next interrupts)
    (hne : hart ≠ other)
    (hresize : stage = .resize → hart ≤ other ∨ s.interrupts.table.length ≤ other + 1) :
    Frame hart s { s with interrupts } := by
  obtain ⟨hcount, hentry, hsie⟩ := h.frame hne hresize
  exact ⟨hcount, rfl, hentry, fun _ hg _ => hg, hsie, Iff.rfl⟩

theorem Balanced.frame {hart : ℕ} {control : Control M R} {s s' : State M R}
    (h : Balanced hart control s) (hframe : Frame hart s s') : Balanced hart control s' := by
  constructor
  · rw [hframe.count, hframe.acquired]
    exact h.count
  · exact h.blocking
  · exact fun next hnext => hframe.entry (h.entry next hnext)
  · intro next hnext
    rw [hframe.acquired]
    exact h.last next hnext
  · intro g hg
    obtain ⟨hmem, howner, hacquirer⟩ := h.releasing g hg
    exact ⟨hframe.guards g hmem howner, howner, hacquirer⟩
  · exact h.panicked

theorem acquired_pos {hart : ℕ} {s : State M R} {guard : Guard M R} (h : guard ∈ s.guards)
    (hacquirer : guard.acquirer = hart) : 0 < s.acquired hart :=
  List.countP_pos_iff.mpr ⟨guard, h, by simpa using hacquirer⟩

/-- Only the count matters where a hart is idle, or about to start or to go on. -/
theorem Balanced.of_count {hart : ℕ} {control : Control M R} {s : State M R}
    (hcount : s.count hart + control.owed = s.acquired hart + control.pending)
    (hcontrol : control = .idle ∨ (∃ a, control = .acquiring a) ∨
      (∃ a, control = .counting .disable (some a) ∧ a.blocking = true) ∨
      control = .counting .disable none ∨ control = .counting .decrement none) :
    Balanced hart control s := by
  obtain rfl | ⟨a, rfl⟩ | ⟨a, rfl, ha⟩ | rfl | rfl := hcontrol
  all_goals exact ⟨hcount, by simp_all, by simp, by simp, by simp, by simp⟩

/-- The counter of a hart with an entry. -/
theorem State.count_eq {hart count : ℕ} {s : State M R}
    (h : s.interrupts.table[hart]? = some count) : s.count hart = count := by
  rw [State.count, h]
  rfl

/-- The counter of a hart after the hart has written its entry. -/
theorem State.count_set {hart count count' : ℕ} {s : State M R}
    (h : s.interrupts.table[hart]? = some count) :
    State.count { s with
      interrupts := { s.interrupts with table := s.interrupts.table.set hart count' } } hart =
        count' := by
  obtain ⟨hentry, -⟩ := List.getElem?_eq_some_iff.mp h
  simp [State.count, hentry]

/-- A hart that resizes the table keeps its own entry, or creates it with 0. -/
theorem State.count_resize (s : State M R) (hart : ℕ) :
    State.count { s with
      interrupts := { s.interrupts with table := resizeWith s.interrupts.table (hart + 1) } } hart =
        s.count hart := by
  simp only [State.count, getElem?_resizeWith, Nat.lt_succ_self, if_true]
  rfl

/-- A step in the two counting functions from stage to stage. -/
theorem Balanced.counting {hart : ℕ} {s : State M R} {stage stage' : Stage}
    {next : Option (Acquisition M R)} {interrupts : Interrupts}
    (h : Balanced hart (.counting stage next) s)
    (hsteps : stage.Steps hart s.interrupts (some stage') interrupts) :
    Balanced hart (.counting stage' next) { s with interrupts } := by
  have hcount := h.count
  have hblocking := h.blocking stage
  cases hsteps with
  | disable | missing =>
    refine ⟨?_, ?_, by simp, by simp, by simp, by simp⟩
    · cases next <;> exact hcount
    · rintro stage a ⟨⟩
      exact ⟨(hblocking a rfl).1, by simp, by simp⟩
  | found hentry =>
    refine ⟨?_, ?_, fun _ _ => hentry, by simp, by simp, by simp⟩
    · cases next <;> exact hcount
    · rintro stage a ⟨⟩
      exact ⟨(hblocking a rfl).1, by simp, by simp⟩
  | resize =>
    refine ⟨?_, ?_, by simp, by simp, by simp, by simp⟩
    · rw [s.count_resize]
      cases next <;> exact hcount
    · rintro stage a ⟨⟩
      exact ⟨(hblocking a rfl).1, by simp, by simp⟩
  | last hone =>
    -- It was the last one: no guard is left.
    cases next with
    | some a => exact absurd rfl (hblocking a rfl).2.1
    | none =>
      have hzero : s.acquired hart = 0 := by
        rw [State.count_eq hone] at hcount
        simp only [Control.owed, Control.pending] at hcount
        omega
      refine ⟨?_, by simp, by simp, fun _ _ => hzero, by simp, by simp⟩
      rw [State.count_set hone]
      exact hzero.symm

/-- The last step of one of the two counting functions. -/
theorem Balanced.counted {hart : ℕ} {s : State M R} {stage : Stage}
    {next : Option (Acquisition M R)} {interrupts : Interrupts}
    (h : Balanced hart (.counting stage next) s)
    (hsteps : stage.Steps hart s.interrupts none interrupts)
    (hfits : s.acquired hart + 1 < usizeCard) :
    Balanced hart (next.elim .idle .acquiring) { s with interrupts } := by
  have hcount := h.count
  have hblocking := h.blocking stage
  cases hsteps with
  | increment hentry =>
    rename_i count
    rw [State.count_eq hentry] at hcount
    have hadd : wrappingAdd count 1 = count + 1 := by
      apply wrappingAdd_of_lt
      cases next <;> simp only [Control.owed, Control.pending] at hcount <;> omega
    cases next with
    | none =>
      apply Balanced.of_count _ (Or.inl rfl)
      rw [State.count_set hentry, hadd]
      exact hcount
    | some a =>
      apply Balanced.of_count _ (Or.inr (Or.inl ⟨a, rfl⟩))
      rw [State.count_set hentry, hadd]
      simp only [Control.owed, Control.pending, (hblocking a rfl).1] at hcount ⊢
      exact congrArg (· + 1) hcount
  | decrement hentry =>
    rename_i count _
    rw [State.count_eq hentry] at hcount
    cases next with
    | some a => exact absurd rfl (hblocking a rfl).2.1
    | none =>
      simp only [Control.owed, Control.pending] at hcount
      have hsub : wrappingSub count 1 = count - 1 := wrappingSub_of_le (by omega) (by omega)
      apply Balanced.of_count _ (Or.inl rfl)
      rw [State.count_set hentry, hsub]
      simp only [Control.owed, Control.pending]
      change count - 1 + 0 = s.acquired hart + 0
      omega
  | enable =>
    cases next with
    | some a => exact absurd rfl (hblocking a rfl).2.2
    | none => exact Balanced.of_count hcount (Or.inl rfl)

/-! ## The interrupts -/

/-- What an operation has done to the interrupts. -/
inductive Phase
  /-- they are off -/
  | off
  /-- they are about to be turned on -/
  | restoring
  /-- a try has acquired, and they are about to be turned off -/
  | tried
  /-- they are as they were before the operation -/
  | resting
  deriving DecidableEq, Repr

def Control.phase : Control M R → Phase
  | .counting .check _ | .counting .resize _ | .counting .increment _ | .counting .decrement _ => .off
  | .counting .enable _ => .restoring
  | .counting .disable none => .tried
  | .acquiring a => if a.blocking then .off else .resting
  | _ => .resting

/-- **What `sie` of a hart is**, wherever the hart is. With `fresh` interrupts were on before the
hart's first operation, and with `early` every try was made with interrupts off. -/
structure Masked (fresh early : Prop) (hart : ℕ) (control : Control M R) (s : State M R) : Prop where
  off : control.phase = .off → s.interrupts.sie hart = 0
  tried : control.phase = .tried → early → s.interrupts.sie hart = 0
  held : control.phase = .resting → 0 < s.acquired hart → s.interrupts.sie hart = 0
  rest : control.phase = .resting → s.acquired hart = 0 → (fresh ∨ hart ∈ s.participants) →
    s.interrupts.sie hart = 0x222

variable {fresh early : Prop}

theorem Masked.frame {hart : ℕ} {control : Control M R} {s s' : State M R}
    (h : Masked fresh early hart control s) (hframe : Frame hart s s') :
    Masked fresh early hart control s' := by
  constructor
  all_goals rw [hframe.sie]
  · exact h.off
  · exact h.tried
  · rw [hframe.acquired]
    exact h.held
  · rw [hframe.acquired, hframe.participants]
    exact h.rest

/-- A step from rest to rest. -/
theorem Masked.resting {hart : ℕ} {control control' : Control M R} {s s' : State M R}
    (h : Masked fresh early hart control s) (hphase : control.phase = .resting)
    (hphase' : control'.phase = .resting) (hinterrupts : s'.interrupts = s.interrupts)
    (hacquired : s'.acquired hart = s.acquired hart)
    (hparticipants : s'.participants = s.participants) :
    Masked fresh early hart control' s' := by
  constructor
  · simp [hphase']
  · simp [hphase']
  · intro _ hpos
    rw [hinterrupts]
    exact h.held hphase (hacquired ▸ hpos)
  · intro _ hzero hfresh
    rw [hinterrupts]
    exact h.rest hphase (hacquired ▸ hzero) (hparticipants ▸ hfresh)

/-- A step after which interrupts are off, and something is held or to be acquired. -/
theorem Masked.of_off {hart : ℕ} {control : Control M R} {s : State M R}
    (hsie : s.interrupts.sie hart = 0)
    (hcontrol : control.phase = .resting → 0 < s.acquired hart) :
    Masked fresh early hart control s := by
  refine ⟨fun _ => hsie, fun _ _ => hsie, fun _ _ => hsie, fun hphase hzero => ?_⟩
  have hpos := hcontrol hphase
  omega

theorem Request.phase_start (request : Request M R) : request.start.phase = .resting := by
  cases request with
  | lock m | tryLock m | unlock guard => rfl
  | rwLock r op => cases op <;> rfl

theorem Masked.counting {hart : ℕ} {stage stage' : Stage} {next : Option (Acquisition M R)}
    {s : State M R} {interrupts : Interrupts} (h : Masked fresh early hart (.counting stage next) s)
    (hsteps : stage.Steps hart s.interrupts (some stage') interrupts) :
    Masked fresh early hart (.counting stage' next) { s with interrupts } := by
  cases hsteps with
  | disable => exact .of_off (Function.update_self ..) (by simp [Control.phase])
  | found | missing | resize => exact .of_off (h.off rfl) (by simp [Control.phase])
  | last =>
    -- about to be turned on
    exact ⟨by simp [Control.phase], by simp [Control.phase], by simp [Control.phase],
      by simp [Control.phase]⟩

/-- The last step of counting: interrupts stay off while something is held. -/
theorem Masked.counted {hart : ℕ} {stage : Stage} {next : Option (Acquisition M R)}
    {s : State M R} {interrupts : Interrupts} (h : Masked fresh early hart (.counting stage next) s)
    (hbalanced : Balanced hart (.counting stage next) s)
    (hsteps : stage.Steps hart s.interrupts none interrupts) :
    Masked fresh early hart (next.elim .idle .acquiring) { s with interrupts } := by
  cases hsteps with
  | increment =>
    refine .of_off (h.off rfl) fun hphase => ?_
    cases next with
    | none =>
      -- after a try: what was acquired is counted now
      have hcount := hbalanced.count
      simp only [Control.owed, Control.pending] at hcount
      change 0 < s.acquired hart
      omega
    | some a => simp [Control.phase, (hbalanced.blocking _ a rfl).1] at hphase
  | decrement hentry hcount =>
    refine .of_off (h.off rfl) fun _ => ?_
    -- the counter was not 1, so something is still held
    have hbefore := hbalanced.count
    rw [State.count_eq hentry] at hbefore
    cases next <;> simp only [Control.owed, Control.pending] at hbefore <;>
      change 0 < s.acquired hart <;> omega
  | enable =>
    have hzero : s.acquired hart = 0 := hbalanced.last next rfl
    cases next with
    | some a => exact absurd rfl (hbalanced.blocking _ a rfl).2.2
    | none =>
      refine ⟨by simp [Control.phase], by simp [Control.phase], fun _ hpos => ?_, fun _ _ _ => ?_⟩
      · change 0 < s.acquired hart at hpos
        omega
      · exact Function.update_self ..

/-! ## The steps -/

variable [DecidableEq M] [DecidableEq R]

/-- The guards of other harts that one hart has acquired, after one of them is gone. -/
theorem countP_acquirer_erase (guards : List (Guard M R)) (guard : Guard M R) (hart : ℕ) :
    (guards.erase guard).countP (fun g => g.acquirer = hart) =
      guards.countP (fun g => g.acquirer = hart) -
        if guard ∈ guards ∧ guard.acquirer = hart then 1 else 0 := by
  rw [List.countP_erase]
  simp

theorem count_step {a : Acquisition M R} {s s' : State M R} {result : Acquisition M R ⊕ Bool}
    (h : a.step s = (result, s')) (hart : ℕ) : s'.count hart = s.count hart := by
  rw [State.count, State.count, (Acquisition.step_same h).1]

theorem acquired_step {a : Acquisition M R} {s s' : State M R} {result : Acquisition M R ⊕ Bool}
    (h : a.step s = (result, s')) (hart : ℕ) : s'.acquired hart = s.acquired hart := by
  rw [State.acquired, State.acquired, (Acquisition.step_same h).2.1]

/-- A guard that changes its owner is still counted for the hart that has acquired it. -/
theorem acquired_send {s : State M R} {guard : Guard M R} (h : guard ∈ s.guards)
    (receiver hart : ℕ) : State.acquired { s with
      guards := { guard with owner := receiver } :: s.guards.erase guard } hart =
        s.acquired hart := by
  simp only [State.acquired, List.countP_cons, countP_acquirer_erase, h, true_and]
  by_cases hacquirer : guard.acquirer = hart
  · have hpos : 0 < s.acquired hart := acquired_pos h hacquirer
    simp only [State.acquired] at hpos
    simp [hacquirer]
    omega
  · simp [hacquirer]

/-- A hart takes guards away only from itself. -/
theorem Moves.keeps_guard {hart other : ℕ} {l : Label M R} {control control' : Control M R}
    {s s' : State M R} (h : Moves other s l control control' s') (hne : hart ≠ other)
    (hrelease : ∀ g, control = .releasing g → g.owner = other) :
    ∀ g, g ∈ s.guards → g.owner = hart → g ∈ s'.guards := by
  intro g hg hgowner
  have hother : ∀ guard : Guard M R, guard.owner = other → g ∈ s.guards.erase guard := by
    intro guard howner
    refine (List.mem_erase_of_ne ?_).mpr hg
    rintro rfl
    exact hne (hgowner.symm.trans howner)
  cases h with
  | call | counting | counted | panics => exact hg
  | acquiring a hstep | refused a hstep =>
    rw [(Acquisition.step_same hstep).2.1]
    exact hg
  | acquired a hstep =>
    refine List.mem_cons_of_mem _ ?_
    rw [(Acquisition.step_same hstep).2.1]
    exact hg
  | releasing guard =>
    dsimp only
    rw [release_guards]
    exact hother guard (hrelease guard rfl)
  | send guard receiver _ howner => exact List.mem_cons_of_mem _ (hother guard howner)

/-- **What a step of another hart leaves alone**, when it does not resize away the entry of the hart
and releases only what it has acquired itself. -/
theorem Moves.frame {hart other : ℕ} {l : Label M R} {control control' : Control M R}
    {s s' : State M R} (h : Moves other s l control control' s') (hne : hart ≠ other)
    (hresize : ∀ next, control = .counting .resize next →
      hart ≤ other ∨ s.interrupts.table.length ≤ other + 1)
    (hrelease : ∀ g, control = .releasing g → g.owner = other ∧ g.acquirer = other) :
    Frame hart s s' := by
  have hguard := h.keeps_guard hne fun g hg => (hrelease g hg).1
  cases h with
  | call | panics => exact .of_same rfl rfl hguard Iff.rfl
  | counting next hsteps => exact .of_steps hsteps hne fun hstage => hresize _ (by rw [hstage])
  | counted next hsteps => exact .of_steps hsteps hne fun hstage => hresize _ (by rw [hstage])
  | acquiring a hstep | refused a hstep =>
    obtain ⟨hinterrupts, hguards, hparticipants⟩ := Acquisition.step_same hstep
    exact .of_same hinterrupts (acquired_step hstep hart) hguard (by rw [hparticipants])
  | acquired a hstep =>
    obtain ⟨hinterrupts, hguards, hparticipants⟩ := Acquisition.step_same hstep
    refine .of_same hinterrupts ?_ hguard ?_
    · simp [State.acquired, hguards, Ne.symm hne]
    · simp [hparticipants, hne]
  | releasing guard =>
    obtain ⟨-, hacquirer⟩ := hrelease guard rfl
    refine .of_same (release_interrupts s guard) ?_ hguard ?_
    · simp only [State.acquired, release_guards, countP_acquirer_erase]
      simp [hacquirer, Ne.symm hne]
    · simp [hne]
  | send guard receiver hmem => exact .of_same rfl (acquired_send hmem receiver hart) hguard Iff.rfl

/-- An acquisition that succeeds: a blocking one has been counted before, and a try is still to be
counted. -/
theorem Balanced.acquired {hart : ℕ} {a : Acquisition M R} {s s' : State M R}
    (h : Balanced hart (.acquiring a) s) (hstep : a.step s = (.inr true, s')) :
    Balanced hart (if a.blocking then .idle else disableThen none) { s' with
      guards := ⟨a.held, hart, hart⟩ :: s'.guards
      participants := hart :: s'.participants } := by
  have hcount := h.count
  have hacquired : State.acquired { s' with
      guards := ⟨a.held, hart, hart⟩ :: s'.guards
      participants := hart :: s'.participants } hart = s.acquired hart + 1 := by
    rw [← acquired_step hstep hart]
    simp [State.acquired]
  cases hblocking : a.blocking with
  | true =>
    -- counted before, acquired now
    simp only [Control.owed, Control.pending, hblocking] at hcount
    apply Balanced.of_count _ (Or.inl rfl)
    rw [hacquired]
    exact (count_step hstep hart).trans hcount
  | false =>
    -- acquired now, still to be counted
    simp only [Control.owed, Control.pending, hblocking] at hcount
    apply Balanced.of_count _ (Or.inr (Or.inr (Or.inr (Or.inl rfl))))
    rw [hacquired]
    exact congrArg (· + 1) ((count_step hstep hart).trans hcount)

/-- A release of what the hart has acquired: it is still to be counted. -/
theorem Balanced.released {hart : ℕ} {guard : Guard M R} {s : State M R}
    (h : Balanced hart (.releasing guard) s) :
    Balanced hart enable { s.release guard with participants := hart :: s.participants } := by
  have hcount := h.count
  obtain ⟨hguard, -, hacquirer⟩ := h.releasing guard rfl
  have hpos : 0 < s.acquired hart := acquired_pos hguard hacquirer
  apply Balanced.of_count _ (Or.inr (Or.inr (Or.inr (Or.inr rfl))))
  simp only [State.count, State.acquired, release_interrupts, release_guards,
    countP_acquirer_erase, hguard, hacquirer, and_self, if_true] at hcount hpos ⊢
  simp only [Control.owed, Control.pending] at hcount ⊢
  simp
  omega

/-- **A step keeps the balance of its own hart**, when the hart releases only what it has acquired
itself and the counter does not overflow. -/
theorem Balanced.move {hart : ℕ} {l : Label M R} {control control' : Control M R} {s s' : State M R}
    (h : Balanced hart control s) (hmoves : Moves hart s l control control' s')
    (hfits : s.acquired hart + 1 < usizeCard)
    (hunlock : ∀ g, l = .call (.unlock g) → g.acquirer = hart) : Balanced hart control' s' := by
  have hcount := h.count
  cases hmoves with
  | call request hpermitted =>
    cases request with
    | lock m => exact .of_count hcount (Or.inr (Or.inr (Or.inl ⟨_, rfl, rfl⟩)))
    | tryLock m => exact .of_count hcount (Or.inr (Or.inl ⟨_, rfl⟩))
    | rwLock r op =>
      cases op with
      | lockShared | lockExclusive =>
        exact .of_count hcount (Or.inr (Or.inr (Or.inl ⟨_, rfl, rfl⟩)))
      | tryLockShared | tryLockExclusive => exact .of_count hcount (Or.inr (Or.inl ⟨_, rfl⟩))
    | unlock guard =>
      refine ⟨hcount, by simp [Request.start], by simp [Request.start], by simp [Request.start], ?_,
        by simp [Request.start]⟩
      rintro g ⟨⟩
      exact ⟨hpermitted.1, hpermitted.2, hunlock guard rfl⟩
  | counting next hsteps => exact h.counting hsteps
  | counted next hsteps => exact h.counted hsteps hfits
  | panics next hstage hentry =>
    -- The index is in bounds: the entry has just been checked or created, or it is not 0.
    rcases hstage with rfl | rfl
    · exact absurd (h.entry next rfl) (by omega)
    · have hzero : s.count hart = 0 := by
        rw [State.count, List.getElem?_eq_none hentry]
        rfl
      simp only [hzero, Control.owed, Control.pending] at hcount
      omega
  | acquiring a hstep =>
    rename_i a'
    apply Balanced.of_count _ (Or.inr (Or.inl ⟨a', rfl⟩))
    simp only [Control.owed, Control.pending, (Acquisition.step_running hstep).1] at hcount ⊢
    rw [count_step hstep, acquired_step hstep]
    exact hcount
  | refused a hstep =>
    apply Balanced.of_count _ (Or.inl rfl)
    simp only [Control.owed, Control.pending, Acquisition.step_refused hstep] at hcount ⊢
    rw [count_step hstep, acquired_step hstep]
    exact hcount
  | acquired a hstep => exact h.acquired hstep
  | releasing guard => exact h.released
  | send guard receiver hguard =>
    apply Balanced.of_count _ (Or.inl rfl)
    rw [acquired_send hguard receiver hart]
    exact hcount

/-- **A step keeps what `sie` of its own hart is.** -/
theorem Masked.move {hart : ℕ} {l : Label M R} {control control' : Control M R} {s s' : State M R}
    (h : Masked fresh early hart control s) (hbalanced : Balanced hart control s)
    (hbalanced' : Balanced hart control' s') (hmoves : Moves hart s l control control' s')
    (hearly : ∀ a s', early → control = .acquiring a → a.blocking = false →
      a.step s = (.inr true, s') → s.interrupts.sie hart = 0) :
    Masked fresh early hart control' s' := by
  cases hmoves with
  | call request =>
    exact h.resting rfl request.phase_start rfl rfl rfl
  | counting next hsteps => exact h.counting hsteps
  | counted next hsteps => exact h.counted hbalanced hsteps
  | panics => exact absurd rfl hbalanced'.panicked
  | acquiring a hstep =>
    obtain ⟨hinterrupts, hguards, hparticipants⟩ := Acquisition.step_same hstep
    have hblocking := (Acquisition.step_running hstep).1
    cases ha : a.blocking with
    | true =>
      refine .of_off ?_ (by simp [Control.phase, hblocking, ha])
      rw [hinterrupts]
      exact h.off (by simp [Control.phase, ha])
    | false =>
      exact h.resting (by simp [Control.phase, ha]) (by simp [Control.phase, hblocking, ha])
        hinterrupts (acquired_step hstep hart) hparticipants
  | refused a hstep =>
    obtain ⟨hinterrupts, hguards, hparticipants⟩ := Acquisition.step_same hstep
    exact h.resting (by simp [Control.phase, Acquisition.step_refused hstep]) rfl hinterrupts
      (acquired_step hstep hart) hparticipants
  | acquired a hstep =>
    obtain ⟨hinterrupts, -, -⟩ := Acquisition.step_same hstep
    cases ha : a.blocking with
    | true =>
      refine .of_off ?_ fun _ => acquired_pos List.mem_cons_self rfl
      dsimp only
      rw [hinterrupts]
      exact h.off (by simp [Control.phase, ha])
    | false =>
      refine ⟨by simp [Control.phase, disableThen, lockAndDisableInterrupts], fun _ he => ?_,
        by simp [Control.phase, disableThen, lockAndDisableInterrupts],
        by simp [Control.phase, disableThen, lockAndDisableInterrupts]⟩
      dsimp only
      rw [hinterrupts]
      exact hearly a _ he rfl ha hstep
  | releasing guard =>
    obtain ⟨hguard, -, hacquirer⟩ := hbalanced.releasing guard rfl
    refine .of_off ?_ (by simp [Control.phase, enable, unlockAndEnableInterruptsIfNecessary])
    dsimp only
    rw [release_interrupts]
    exact h.held rfl (acquired_pos hguard hacquirer)
  | send guard receiver hguard =>
    exact h.resting rfl rfl rfl (acquired_send hguard receiver hart) rfl

end SharedLocks

end AsyncKernel
