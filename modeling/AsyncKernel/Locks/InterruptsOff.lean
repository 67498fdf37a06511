import AsyncKernel.Locks.Balance

/-!
# Interrupts are off while a shared lock is held

A blocking acquisition turns interrupts off before it acquires. A try acquires first, and between
the two an interrupt handler of the same hart can run while the lock is held. So interrupts are off
whenever a lock is held in the runs in which no try succeeds with interrupts on, and in which no
entry of the table of lock counts is resized away.

## Main definitions

* `SharedLocks.TriesWithInterrupts`: a try that succeeds with interrupts on
* `SharedLocks.ResizesStale`: a resize of the table after it has become longer
* `SharedLocks.Counts`: a step that the counters survive

## Main results

* `SharedLocks.asserted_next`: a step keeps the assertions of all harts
* `SharedLocks.interrupts_off`: interrupts are off while a lock is held
-/

namespace AsyncKernel

namespace SharedLocks

variable {M R : Type}

/-- A resize when the table is already longer than what it is resized to. -/
def ResizesStale (s : Parties ℕ (Control M R) (State M R)) (l : ℕ × Label M R) : Bool :=
  match l.2, s.control l.1 with
  | .run, .counting .resize _ => l.1 + 1 < s.shared.interrupts.table.length
  | _, _ => false

/-- A guard changes its owner. -/
def Label.isSend : Label M R → Bool
  | .send _ _ => true
  | _ => false

/-- A step that the counters survive: no entry is resized away, and none overflows. -/
def Counts (s : Parties ℕ (Control M R) (State M R)) (l : ℕ × Label M R) : Prop :=
  ResizesStale s l = false ∧ s.shared.acquired l.1 + 1 < usizeCard

instance (s : Parties ℕ (Control M R) (State M R)) (l : ℕ × Label M R) : Decidable (Counts s l) :=
  inferInstanceAs (Decidable (_ ∧ _))

/-- What all harts assert. -/
def Asserted (fresh early : Prop) (s : Parties ℕ (Control M R) (State M R)) : Prop :=
  ∀ hart, Balanced hart (s.control hart) s.shared ∧
    Masked fresh early hart (s.control hart) s.shared

variable {s s' : Parties ℕ (Control M R) (State M R)} {l : ℕ × Label M R} {fresh early : Prop}

theorem length_le_of_not_resizesStale (h : ResizesStale s (l.1, .run) = false)
    {next : Option (Acquisition M R)} (hcontrol : s.control l.1 = .counting .resize next) :
    s.shared.interrupts.table.length ≤ l.1 + 1 := by
  simpa [ResizesStale, hcontrol] using h

/-- The assertions hold before the first operation. -/
theorem asserted_boot (h : Boot s) : Asserted False early s := by
  intro hart
  rw [h.control hart]
  have hzero : s.shared.acquired hart = 0 := by simp [State.acquired, h.guards]
  refine ⟨.of_count ?_ (Or.inl rfl), by simp [Control.phase], by simp [Control.phase], ?_, ?_⟩
  · simp [State.count, h.table, hzero, Control.owed, Control.pending]
  · intro _ hpos
    omega
  · intro _ _ hparticipant
    simp [h.participants] at hparticipant

/-- A guard whose owner is the hart that has acquired it is held with interrupts off. -/
theorem Asserted.sie_eq_zero (h : Asserted fresh True s) {guard : Guard M R}
    (hguard : guard ∈ s.shared.guards) : s.shared.interrupts.sie guard.acquirer = 0 := by
  obtain ⟨hbalanced, hmasked⟩ := h guard.acquirer
  have hpos : 0 < s.shared.acquired guard.acquirer := acquired_pos hguard rfl
  cases hphase : (s.control guard.acquirer).phase with
  | off => exact hmasked.off hphase
  | tried => exact hmasked.tried hphase trivial
  | resting => exact hmasked.held hphase hpos
  | restoring =>
    -- The last guard of the hart is already gone.
    have hzero : s.shared.acquired guard.acquirer = 0 := by
      unfold Control.phase at hphase
      split at hphase <;> try cases hphase
      · rename_i next hcontrol
        exact hbalanced.last next hcontrol
      · split at hphase <;> cases hphase
    omega

/-- No lock has been used yet, and interrupts are on. -/
def boot (M R : Type) : Parties ℕ (Control M R) (State M R) :=
  ⟨fun _ => .idle, ⟨[], fun _ => 0x222⟩, fun _ => false, fun _ => 0, [], []⟩

theorem boot_boot : Boot (boot M R) := ⟨fun _ => rfl, rfl, fun _ => rfl, fun _ => rfl, rfl, rfl⟩

variable [DecidableEq M] [DecidableEq R]

/-- A try that succeeds with interrupts on. -/
def TriesWithInterrupts (s : Parties ℕ (Control M R) (State M R)) (l : ℕ × Label M R) : Bool :=
  match l.2, s.control l.1 with
  | .run, .acquiring a =>
    !a.blocking && (a.step s.shared).1 = .inr true && s.shared.interrupts.sie l.1 ≠ 0
  | _, _ => false

/-- **A step keeps the assertions of all harts**, when the counters survive it, it unlocks only what
its hart has acquired, and it is no try with interrupts on or `early` is not asserted. -/
theorem asserted_next (h : Asserted fresh early s) (hnext : s.next move l = some s')
    (hcounts : Counts s l) (hunlock : ∀ g, l.2 = .call (.unlock g) → g.acquirer = l.1)
    (htries : early → TriesWithInterrupts s l = false) : Asserted fresh early s' := by
  obtain ⟨hart, label⟩ := l
  obtain ⟨hstale, hfits⟩ := hcounts
  refine Parties.assertions (A := fun hart control shared =>
    Balanced hart control shared ∧ Masked fresh early hart control shared) hnext ?_ ?_
  · intro control shared hmove
    have hmoves := moves_of_move hmove
    have hbalanced := (h hart).1.move hmoves hfits hunlock
    refine ⟨hbalanced, (h hart).2.move (h hart).1 hbalanced hmoves ?_⟩
    intro a shared' hearly hcontrol hblocking hstep
    have hrun : label = .run := by
      rw [hcontrol] at hmoves
      cases hmoves <;> rfl
    have hsie := htries hearly
    subst hrun
    simpa [TriesWithInterrupts, hcontrol, hblocking, hstep] using hsie
  · intro control shared hmove other hother
    have hmoves := moves_of_move hmove
    have hframe : Frame other s.shared shared := by
      refine hmoves.frame hother ?_ ?_
      · intro next hcontrol
        have hrun : label = .run := by
          rw [hcontrol] at hmoves
          cases hmoves <;> rfl
        subst hrun
        exact Or.inr (length_le_of_not_resizesStale (l := (hart, .run)) hstale hcontrol)
      · intro g hcontrol
        exact ((h hart).1.releasing g hcontrol).2
    exact ⟨(h other).1.frame hframe, (h other).2.frame hframe⟩

/-- Without sends a guard was there before, or the hart has just acquired it. -/
theorem Moves.mem_guards {hart : ℕ} {label : Label M R} {control control' : Control M R}
    {s s' : State M R} (h : Moves hart s label control control' s') (hlabel : label.isSend = false)
    {g : Guard M R} (hg : g ∈ s'.guards) :
    g ∈ s.guards ∨ ∃ a, control = .acquiring a ∧ g = ⟨a.held, hart, hart⟩ := by
  cases h with
  | call | counting | counted | panics => exact Or.inl hg
  | acquiring a hstep | refused a hstep =>
    rw [(Acquisition.step_same hstep).2.1] at hg
    exact Or.inl hg
  | acquired a hstep =>
    rcases List.mem_cons.mp hg with rfl | hg
    · exact Or.inr ⟨a, rfl, rfl⟩
    · rw [(Acquisition.step_same hstep).2.1] at hg
      exact Or.inl hg
  | releasing guard =>
    dsimp only at hg
    rw [release_guards] at hg
    exact Or.inl (List.mem_of_mem_erase hg)
  | send => cases hlabel

/-- Without sends a guard is owned by the hart that has acquired it. -/
theorem Moves.owner_eq_acquirer {hart : ℕ} {label : Label M R} {control control' : Control M R}
    {s s' : State M R} (h : Moves hart s label control control' s') (hlabel : label.isSend = false)
    (hguards : ∀ g ∈ s.guards, g.owner = g.acquirer) : ∀ g ∈ s'.guards, g.owner = g.acquirer := by
  intro g hg
  rcases h.mem_guards hlabel hg with hold | ⟨a, -, rfl⟩
  · exact hguards g hold
  · rfl

/-- Where a hart is after a step: only an unlock leads to a release, and only a missing entry to a
resize. -/
theorem Moves.leads_to {other : ℕ} {label : Label M R} {control control' : Control M R}
    {s s' : State M R} (h : Moves other s label control control' s') :
    (∀ g, control' = .releasing g → g ∈ s'.guards ∧ g.owner = other) ∧
      ∀ next, control' = .counting .resize next → s.interrupts.table.length ≤ other := by
  cases h with
  | call request hpermitted =>
    cases request with
    | lock m | tryLock m => exact ⟨by simp [Request.start, RawSharedLock.lock, RawSharedLock.tryLock,
        disableThen, lockAndDisableInterrupts], by simp [Request.start, RawSharedLock.lock,
        RawSharedLock.tryLock, disableThen, lockAndDisableInterrupts]⟩
    | rwLock r op =>
      cases op <;> exact ⟨by rintro g ⟨⟩, by rintro next ⟨⟩⟩
    | unlock guard =>
      refine ⟨?_, by rintro next ⟨⟩⟩
      rintro g ⟨⟩
      exact hpermitted
  | counting next hsteps =>
    refine ⟨by rintro g ⟨⟩, ?_⟩
    rintro next' ⟨⟩
    cases hsteps with
    | missing hentry => exact hentry
  | counted next hsteps => cases next <;> exact ⟨by rintro g ⟨⟩, by rintro next ⟨⟩⟩
  | acquired a hstep =>
    cases a.blocking <;> exact ⟨by rintro g ⟨⟩, by rintro next ⟨⟩⟩
  | panics | acquiring | refused | releasing | send =>
    exact ⟨by rintro g ⟨⟩, by rintro next ⟨⟩⟩

/-- A step that the counters survive, with which no guard changes its owner, and which is no try
that succeeds with interrupts on. -/
def Careful (s : Parties ℕ (Control M R) (State M R)) (l : ℕ × Label M R) : Prop :=
  Counts s l ∧ l.2.isSend = false ∧ TriesWithInterrupts s l = false

instance (s : Parties ℕ (Control M R) (State M R)) (l : ℕ × Label M R) : Decidable (Careful s l) :=
  inferInstanceAs (Decidable (_ ∧ _ ∧ _))

/-- The runs of careful steps. -/
def carefulSystem (M R : Type) [DecidableEq M] [DecidableEq R] :
    TransitionSystem (Parties ℕ (Control M R) (State M R)) (ℕ × Label M R) :=
  (system Boot).restrict fun s l _ => Careful s l

/-- **Interrupts are off while a lock is held**, between any two atomic operations, in every run of
careful steps. -/
theorem interrupts_off (h : (carefulSystem M R).Reachable s) :
    ∀ guard ∈ s.shared.guards, s.shared.interrupts.sie guard.owner = 0 := by
  have hinv : Asserted False True s ∧ ∀ g ∈ s.shared.guards, g.owner = g.acquirer := by
    refine h.invariant (I := fun s =>
      Asserted False True s ∧ ∀ g ∈ s.shared.guards, g.owner = g.acquirer) ?_ ?_
    · intro s hboot
      refine ⟨asserted_boot hboot, ?_⟩
      rw [hboot.guards]
      simp
    · rintro s ⟨hart, label⟩ s' ⟨hasserted, howner⟩ ⟨hnext, hcounts, hsend, htries⟩
      obtain ⟨control, shared, hmove, hs'⟩ := Parties.next_eq_some hnext
      have hmoves := moves_of_move hmove
      refine ⟨asserted_next hasserted hnext hcounts ?_ fun _ => htries, ?_⟩
      · -- what is unlocked is owned by the hart, and so acquired by it
        rintro g rfl
        obtain ⟨hguard, hhart⟩ := hmoves.permitted
        exact (howner g hguard).symm.trans hhart
      · rw [hs']
        exact hmoves.owner_eq_acquirer hsend howner
  intro guard hguard
  rw [hinv.2 guard hguard]
  exact hinv.1.sie_eq_zero hguard

/-- A hart locks a mutex, and tries another one with interrupts off. -/
theorem interrupts_off_nested : ∃ s : Parties ℕ (Control ℕ ℕ) (State ℕ ℕ),
    (carefulSystem ℕ ℕ).Reachable s ∧
      s.shared.guards = [⟨.mutex 1, 0, 0⟩, ⟨.mutex 0, 0, 0⟩] ∧
      ∀ guard ∈ s.shared.guards, s.shared.interrupts.sie guard.owner = 0 := by
  have hinit : (carefulSystem ℕ ℕ).Reachable (boot ℕ ℕ) := .init boot_boot
  have hreachable := hinit.foldlM_restrict (fun s l _ => decide (Careful s l))
    [(0, .call (.lock 0)), (0, .run), (0, .run), (0, .run), (0, .run), (0, .run),
      (0, .call (.tryLock 1)), (0, .run)]
    (fun _ _ _ h => h) (fun _ _ _ h => of_decide_eq_true h) rfl
  exact ⟨_, hreachable, rfl, interrupts_off hreachable⟩

/-- `try_lock` of a free mutex: the hart owns the spinlock, and interrupts are on. -/
theorem not_interrupts_off_tryLock : ∃ s : Parties ℕ (Control ℕ ℕ) (State ℕ ℕ),
    (system Boot).Reachable s ∧
      ¬ ∀ guard ∈ s.shared.guards, s.shared.interrupts.sie guard.owner = 0 := by
  have hinit : (system Boot).Reachable (boot ℕ ℕ) := .init boot_boot
  have hrun : [(0, .call (.tryLock 0)), (0, .run)].foldlM (Parties.next move) (boot ℕ ℕ) = some _ :=
    rfl
  have hreachable := hinit.foldlM (fun _ _ _ h => h) hrun
  refine ⟨_, hreachable, fun hoff => ?_⟩
  have hsie := hoff ⟨.mutex 0, 0, 0⟩ List.mem_cons_self
  cases hsie

end SharedLocks

end AsyncKernel
