import AsyncKernel.Locks.InterruptsOff

/-!
# Guards that are sent to another hart

A guard of the shared reader/writer lock is `Send`, but its release counts for the hart that
executes it: the counter of the hart that has acquired the lock stays, with its interrupts off, and
the counter of the other hart is decremented below what it holds. The counters are balanced in the
runs in which every guard is unlocked by the hart that has acquired it, wherever it has been in
between.

## Main definitions

* `SharedLocks.CountsBalanced`: no counter wraps, and without guards all counters are 0
* `SharedLocks.UnlocksOwn`: an unlock is of what the hart has acquired

## Main results

* `SharedLocks.countsBalanced_of_run`: the counters are balanced when guards come back
-/

namespace AsyncKernel

namespace SharedLocks

variable {M R : Type}

/-- No counter wraps below zero; and when no operation is in progress and no guard exists, all
counters are 0 and every hart that took part has interrupts on. -/
structure CountsBalanced (s : Parties ℕ (Control M R) (State M R)) : Prop where
  wraps : ∀ hart next, s.control hart = .counting .decrement next →
    ∃ count, s.shared.interrupts.table[hart]? = some count ∧ 0 < count
  released : (∀ hart, s.control hart = .idle) → s.shared.guards = [] →
    (∀ count ∈ s.shared.interrupts.table, count = 0) ∧
      ∀ hart ∈ s.shared.participants, s.shared.interrupts.sie hart = 0x222

/-- An unlock is of what the hart has acquired. -/
def UnlocksOwn (l : ℕ × Label M R) : Prop :=
  match l.2 with
  | .call (.unlock guard) => guard.acquirer = l.1
  | _ => True

instance (l : ℕ × Label M R) : Decidable (UnlocksOwn l) :=
  match l with
  | (_, .call (.unlock _)) => inferInstanceAs (Decidable (_ = _))
  | (_, .call (.lock _)) | (_, .call (.tryLock _)) | (_, .call (.rwLock _ _)) | (_, .run)
  | (_, .send _ _) => .isTrue trivial

variable [DecidableEq M] [DecidableEq R]

/-- The runs in which every guard is unlocked by the hart that has acquired it, and that the
counters survive. -/
def returningSystem (M R : Type) [DecidableEq M] [DecidableEq R] :
    TransitionSystem (Parties ℕ (Control M R) (State M R)) (ℕ × Label M R) :=
  (system Boot).restrict fun s l _ => Counts s l ∧ UnlocksOwn l

variable {s : Parties ℕ (Control M R) (State M R)}

/-- **The counters are balanced when guards come back.** -/
theorem countsBalanced_of_run (h : (returningSystem M R).Reachable s) : CountsBalanced s := by
  have hasserted : Asserted False False s := by
    refine h.invariant (fun _ hboot => asserted_boot hboot) ?_
    rintro s ⟨hart, label⟩ s' hasserted ⟨hnext, hcounts, hunlock⟩
    refine asserted_next hasserted hnext hcounts ?_ False.elim
    rintro guard rfl
    exact hunlock
  constructor
  · intro hart next hdecrement
    have hcount := (hasserted hart).1.count
    rw [hdecrement] at hcount
    simp only [Control.owed, Control.pending, State.count] at hcount
    -- a counter that is missing would count 0
    cases hentry : s.shared.interrupts.table[hart]? with
    | none =>
      rw [hentry] at hcount
      simp at hcount
    | some count =>
      rw [hentry] at hcount
      simp only [Option.getD_some] at hcount
      exact ⟨count, rfl, by omega⟩
  · intro hidle hguards
    have hzero : ∀ hart, s.shared.acquired hart = 0 := by
      intro hart
      simp [State.acquired, hguards]
    refine ⟨fun count hcount => ?_, fun hart hparticipant => ?_⟩
    · obtain ⟨hart, hentry⟩ := List.getElem?_of_mem hcount
      have hbalance := (hasserted hart).1.count
      rw [hidle hart, State.count_eq hentry, hzero hart] at hbalance
      exact hbalance
    · have hmasked := (hasserted hart).2
      rw [hidle hart] at hmasked
      exact hmasked.rest rfl (hzero hart) (Or.inr hparticipant)

/-- A shared guard of the lock 0. -/
def readGuard (acquirer owner : ℕ) : Guard ℕ ℕ := ⟨.rwLock .shared 0, acquirer, owner⟩

/-- The guard of hart 0 goes to hart 1 and comes back before it is unlocked. -/
theorem countsBalanced_of_run_returned : ∃ s : Parties ℕ (Control ℕ ℕ) (State ℕ ℕ),
    (returningSystem ℕ ℕ).Reachable s ∧ s.shared.guards = [] ∧ s.shared.participants = [0, 0] ∧
      CountsBalanced s := by
  have hinit : (returningSystem ℕ ℕ).Reachable (boot ℕ ℕ) := .init boot_boot
  have hreachable := hinit.foldlM_restrict (fun s l _ => decide (Counts s l ∧ UnlocksOwn l))
    [(0, .call (.rwLock 0 .lockShared)), (0, .run), (0, .run), (0, .run), (0, .run), (0, .run),
      (0, .run), (0, .send (readGuard 0 0) 1), (1, .send (readGuard 0 1) 0),
      (0, .call (.unlock (readGuard 0 0))), (0, .run), (0, .run), (0, .run)]
    (fun _ _ _ h => h) (fun _ _ _ h => of_decide_eq_true h) rfl
  exact ⟨_, hreachable, rfl, rfl, countsBalanced_of_run hreachable⟩

/-- Hart 1 locks and unlocks, so that it has an entry; hart 0 locks and sends the guard to hart 1,
which is about to unlock it. -/
def sendLabels : List (ℕ × Label ℕ ℕ) :=
  [(1, .call (.rwLock 0 .lockShared)), (1, .run), (1, .run), (1, .run), (1, .run), (1, .run), (1, .run),
    (1, .call (.unlock (readGuard 1 1))), (1, .run), (1, .run), (1, .run),
    (0, .call (.rwLock 0 .lockShared)), (0, .run), (0, .run), (0, .run), (0, .run), (0, .run),
    (0, .send (readGuard 0 0) 1), (1, .call (.unlock (readGuard 0 1))), (1, .run)]

/-- The counter of hart 1 is decremented at 0; and when no guard is left, the counters are 1 and
2^64 - 1, and the interrupts of hart 0 are off. -/
theorem not_countsBalanced_sent :
    (∃ s : Parties ℕ (Control ℕ ℕ) (State ℕ ℕ), (system Boot).Reachable s ∧
      s.control 1 = .counting .decrement none ∧ s.shared.interrupts.table[1]? = some 0 ∧
      ¬ CountsBalanced s) ∧
      ∃ s : Parties ℕ (Control ℕ ℕ) (State ℕ ℕ), (system Boot).Reachable s ∧
        (∀ hart, s.control hart = .idle) ∧ s.shared.guards = [] ∧
        s.shared.interrupts.table = [1, usizeCard - 1] ∧ s.shared.interrupts.sie 0 = 0 ∧
        ¬ CountsBalanced s := by
  have hinit : (system Boot).Reachable (boot ℕ ℕ) := .init boot_boot
  constructor
  · have hrun : sendLabels.foldlM (Parties.next move) (boot ℕ ℕ) = some _ := rfl
    have hreachable := hinit.foldlM (fun _ _ _ h => h) hrun
    refine ⟨_, hreachable, rfl, rfl, fun hbalanced => ?_⟩
    obtain ⟨count, hcount, hpos⟩ := hbalanced.wraps 1 none rfl
    obtain rfl := Option.some.inj hcount
    exact absurd hpos (lt_irrefl 0)
  · have hrun : (sendLabels ++ [(1, Label.run)]).foldlM (Parties.next move) (boot ℕ ℕ) = some _ :=
      rfl
    have hreachable := hinit.foldlM (fun _ _ _ h => h) hrun
    obtain ⟨s, hs, hidle, hguards, htable, hsie⟩ :
        ∃ s : Parties ℕ (Control ℕ ℕ) (State ℕ ℕ), (system Boot).Reachable s ∧
          (∀ hart, s.control hart = .idle) ∧ s.shared.guards = [] ∧
          s.shared.interrupts.table = [1, usizeCard - 1] ∧ s.shared.interrupts.sie 0 = 0 := by
      refine ⟨_, hreachable, fun hart => ?_, rfl, rfl, rfl⟩
      by_cases hone : hart = 1
      · subst hone
        rfl
      · simp [hone, boot]
    refine ⟨s, hs, hidle, hguards, htable, hsie, fun hbalanced => ?_⟩
    have hone := (hbalanced.released hidle hguards).1 1 (by simp [htable])
    cases hone

end SharedLocks

end AsyncKernel
