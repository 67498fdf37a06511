import AsyncKernel.Locks.InterruptsOff

/-!
# Nested shared mutexes

A hart that has an entry in the table of lock counts may hold any number of shared mutexes and
release them in any order: between its operations the counter is the number of its guards, and
interrupts are on exactly when it has none. Operations of other harts interleave with its own in any
order, and may be in progress when the hart starts. One of them can take the entry of the hart away: a
hart with a smaller id that has checked the table before the entry was there resizes it afterwards.

The mutexes of a hart are at different addresses, so their number fits into the counter.

## Main definitions

* `SharedLocks.Address`: where a lock is
* `SharedLocks.Consistent`: what holds of the guards in every run
* `SharedLocks.State.onMutexes`: a state without the guards of reader/writer locks
* `SharedLocks.CountsMutexes`: what the counter and `sie` of a hart are to be
* `SharedLocks.Nested`: what holds of a hart with an entry

## Main results

* `SharedLocks.Moves.mutexesExclusive`: a step keeps the exclusion of the mutexes
* `SharedLocks.Moves.onMutexes`, `SharedLocks.Moves.frame_onMutexes`: a step without the guards of
  reader/writer locks
* `SharedLocks.nested_mutexes`: the counter and the interrupts between operations
-/

namespace AsyncKernel

namespace SharedLocks

/-- The address of a lock: a reference is not null, and the lock does not reach the end of the
address space. -/
structure Address where
  value : ℕ
  pos : 0 < value
  lt : value + 1 < usizeCard
  deriving DecidableEq, Repr

/-! ## The mutexes -/

section Mutexes

variable {M R : Type} [DecidableEq M] [DecidableEq R]

/-- A mutex is held at most once, and only while it is locked. -/
def State.MutexesExclusive (s : State M R) : Prop :=
  ∀ m, s.guards.countP (fun g => g.held = .mutex m) ≤ (s.locked m).toNat

/-- An acquisition leaves the mutexes locked as they are, or acquires one that was not. -/
theorem Acquisition.step_locked {a : Acquisition M R} {s s' : State M R}
    {result : Acquisition M R ⊕ Bool} (h : a.step s = (result, s')) :
    (s'.locked = s.locked ∧ (result = .inr true → ∀ m, a.held ≠ .mutex m)) ∨
      ∃ m, a.held = .mutex m ∧ result = .inr true ∧ s.locked m = false ∧
        s'.locked = Function.update s.locked m true := by
  cases a with
  | mutex m blocking =>
    simp only [step] at h
    cases hlocked : s.locked m with
    | false =>
      simp only [hlocked, RawSpinlock.tryLock] at h
      obtain ⟨rfl, rfl⟩ := Prod.mk.inj h
      exact Or.inr ⟨m, rfl, rfl, hlocked, rfl⟩
    | true =>
      simp only [hlocked, RawSpinlock.tryLock] at h
      obtain ⟨rfl, rfl⟩ := Prod.mk.inj h
      refine Or.inl ⟨?_, by cases blocking <;> simp⟩
      simp [← hlocked]
  | rwLock r op attempt =>
    simp only [step] at h
    split at h
    all_goals
      obtain ⟨rfl, rfl⟩ := Prod.mk.inj h
      exact Or.inl ⟨rfl, fun _ m => by simp [held]⟩

/-- **A step keeps the exclusion of the mutexes.** -/
theorem Moves.mutexesExclusive {hart : ℕ} {l : Label M R} {control control' : Control M R}
    {s s' : State M R} (h : Moves hart s l control control' s') (hs : s.MutexesExclusive)
    (hrelease : ∀ g, control = .releasing g → g ∈ s.guards) : s'.MutexesExclusive := by
  intro m
  have hm := hs m
  cases h with
  | call | counting | counted | panics => exact hm
  | acquiring a hstep | refused a hstep =>
    obtain ⟨hlocked, -⟩ | ⟨_, -, hresult, -⟩ := Acquisition.step_locked hstep
    · rw [(Acquisition.step_same hstep).2.1, hlocked]
      exact hm
    · cases hresult
  | acquired a hstep =>
    simp only [List.countP_cons, (Acquisition.step_same hstep).2.1]
    obtain ⟨hlocked, hheld⟩ | ⟨m', hheld, -, hfree, hlocked⟩ := Acquisition.step_locked hstep
    · rw [hlocked]
      simpa [hheld rfl m] using hm
    · -- the mutex was free, so it had no guard
      rw [hlocked]
      by_cases hm' : m' = m
      · subst hm'
        rw [hfree] at hm
        simpa [hheld] using hm
      · simpa [hheld, hm', Function.update_of_ne (Ne.symm hm')] using hm
  | releasing guard =>
    have hguard := hrelease guard rfl
    simp only [release_guards, List.countP_erase, hguard, true_and]
    cases hheld : guard.held with
    | rwLock kind r =>
      simp only [State.release, hheld]
      simpa using hm
    | mutex m' =>
      simp only [State.release, hheld]
      by_cases hm' : m' = m
      · -- it was the only guard of the mutex
        subst hm'
        have hone : s.guards.countP (fun g => g.held = .mutex m') ≤ 1 :=
          hm.trans (Bool.toNat_le _)
        simp [RawSpinlock.unlock]
        omega
      · simpa [hm', Function.update_of_ne (Ne.symm hm')] using hm
  | send guard receiver hguard _ hsend =>
    simp only [List.countP_cons, List.countP_erase, hguard, true_and]
    cases hheld : guard.held with
    | rwLock kind r => simpa using hm
    | mutex m' => simp [hheld, Held.isSend] at hsend

/-! ## The guards of a run -/

/-- A guard of a mutex was there before, or the hart has just acquired it. -/
theorem Moves.mem_guards_of_mutex {hart : ℕ} {l : Label M R} {control control' : Control M R}
    {s s' : State M R} (h : Moves hart s l control control' s') {g : Guard M R} (hg : g ∈ s'.guards)
    (hmutex : g.held.isSend = false) : g ∈ s.guards ∨ g.owner = g.acquirer := by
  cases hsend : l.isSend with
  | false =>
    rcases h.mem_guards hsend hg with hold | ⟨a, -, rfl⟩
    · exact Or.inl hold
    · exact Or.inr rfl
  | true =>
    cases h with
    | send guard receiver _ _ hguard =>
      rcases List.mem_cons.mp hg with rfl | hold
      · cases hmutex.symm.trans hguard
      · exact Or.inl (List.mem_of_mem_erase hold)
    | _ => cases hsend

/-- What holds of the guards in every run: a hart releases what it owns, a guard of a mutex is owned
by the hart that has acquired it, and the mutexes exclude. -/
structure Consistent (s : Parties ℕ (Control M R) (State M R)) : Prop where
  releasing : ∀ hart g, s.control hart = .releasing g → g ∈ s.shared.guards ∧ g.owner = hart
  owner : ∀ g ∈ s.shared.guards, g.held.isSend = false → g.owner = g.acquirer
  exclusive : s.shared.MutexesExclusive

theorem Consistent.next {s s' : Parties ℕ (Control M R) (State M R)} {l : ℕ × Label M R}
    (h : Consistent s) (hnext : s.next move l = some s') : Consistent s' := by
  obtain ⟨mover, label⟩ := l
  obtain ⟨control', shared', hmove, hs'⟩ := Parties.next_eq_some hnext
  have hmoves := moves_of_move hmove
  refine ⟨?_, ?_, ?_⟩
  · refine Parties.assertions (A := fun hart control shared =>
      ∀ g, control = .releasing g → g ∈ shared.guards ∧ g.owner = hart) hnext ?_ ?_
    · intro control shared hmove'
      exact (moves_of_move hmove').leads_to.1
    · intro control shared hmove' other hne g hg
      obtain ⟨hguard, howner⟩ := h.releasing other g hg
      exact ⟨(moves_of_move hmove').keeps_guard hne
        (fun g hg => (h.releasing mover g hg).2) g hguard howner, howner⟩
  · rw [hs']
    intro g hg hmutex
    rcases hmoves.mem_guards_of_mutex hg hmutex with hold | hnew
    · exact h.owner g hold hmutex
    · exact hnew
  · rw [hs']
    exact hmoves.mutexesExclusive h.exclusive fun g hg => (h.releasing mover g hg).1

theorem Consistent.of_reachable {s : Parties ℕ (Control M R) (State M R)}
    (h : (system Boot).Reachable s) : Consistent s := by
  refine h.invariant (fun s hboot => ?_) fun s l s' hs hstep => hs.next hstep
  refine ⟨fun hart g hg => ?_, fun g hg => ?_, fun m => ?_⟩
  · rw [hboot.control hart] at hg
    cases hg
  · rw [hboot.guards] at hg
    cases hg
  · rw [hboot.guards]
    exact Nat.zero_le _

/-! ## A state without the guards of reader/writer locks -/

/-- The state without the guards of reader/writer locks. -/
def State.onMutexes (s : State M R) : State M R :=
  { s with guards := s.guards.filter fun g => !g.held.isSend }

omit [DecidableEq M] [DecidableEq R] in
theorem State.mem_onMutexes {s : State M R} {g : Guard M R} :
    g ∈ s.onMutexes.guards ↔ g ∈ s.guards ∧ g.held.isSend = false := by
  simp [State.onMutexes]

theorem State.MutexesExclusive.onMutexes {s : State M R} (h : s.MutexesExclusive) :
    s.onMutexes.MutexesExclusive := fun m =>
  (List.Sublist.countP_le List.filter_sublist).trans (h m)

theorem Acquisition.step_onMutexes {a : Acquisition M R} {s s' : State M R}
    {result : Acquisition M R ⊕ Bool} (h : a.step s = (result, s')) :
    a.step s.onMutexes = (result, s'.onMutexes) := by
  cases a with
  | mutex m blocking =>
    cases hlocked : s.locked m <;>
      simp only [step, State.onMutexes, hlocked, RawSpinlock.tryLock] at h ⊢ <;>
      obtain ⟨rfl, rfl⟩ := Prod.mk.inj h <;> rfl
  | rwLock r op attempt =>
    simp only [step, State.onMutexes] at h ⊢
    split at h <;> obtain ⟨rfl, rfl⟩ := Prod.mk.inj h <;> rfl

theorem State.release_onMutexes (s : State M R) {guard : Guard M R}
    (hguard : guard.held.isSend = false) :
    (s.release guard).onMutexes = s.onMutexes.release guard := by
  unfold State.release
  cases hheld : guard.held with
  | mutex m => simp only [State.onMutexes, List.erase_filter]
  | rwLock kind r =>
    rw [hheld] at hguard
    cases hguard

/-- An operation of a mutex, or a step of one. -/
def Label.onMutex : Label M R → Bool
  | .call (.lock _) | .call (.tryLock _) | .run => true
  | .call (.unlock guard) => !guard.held.isSend
  | .call (.rwLock _ _) | .send _ _ => false

/-- What a hart that uses mutexes is doing. -/
structure Control.OnMutexes (control : Control M R) : Prop where
  acquires : ∀ a, (control = .acquiring a ∨ ∃ stage, control = .counting stage (some a)) →
    a.held.isSend = false
  releases : ∀ g, control = .releasing g → g.held.isSend = false

/-- A hart that calls operations of mutexes only uses mutexes. -/
theorem Moves.controlOnMutexes {hart : ℕ} {l : Label M R} {control control' : Control M R}
    {s s' : State M R} (h : Moves hart s l control control' s') (hcontrol : control.OnMutexes)
    (hl : l.onMutex = true) : control'.OnMutexes := by
  refine ⟨fun a ha => ?_, fun g hg => ?_⟩
  · cases h with
    | call request =>
      cases request with
      | lock m | tryLock m =>
        rcases ha with ha | ⟨stage, ha⟩ <;> cases ha
        rfl
      | rwLock r op => cases hl
      | unlock guard => rcases ha with ha | ⟨stage, ha⟩ <;> cases ha
    | counting next hsteps =>
      rcases ha with ha | ⟨stage, ha⟩
      · cases ha
      · cases ha
        exact hcontrol.acquires a (Or.inr ⟨_, rfl⟩)
    | counted next hsteps =>
      cases next with
      | none => rcases ha with ha | ⟨stage, ha⟩ <;> cases ha
      | some a' =>
        rcases ha with ha | ⟨stage, ha⟩
        · cases ha
          exact hcontrol.acquires a (Or.inr ⟨_, rfl⟩)
        · cases ha
    | acquiring a' hstep =>
      rcases ha with ha | ⟨stage, ha⟩
      · cases ha
        rw [(Acquisition.step_running hstep).2]
        exact hcontrol.acquires a' (Or.inl rfl)
      · cases ha
    | acquired a' hstep =>
      cases hblocking : a'.blocking <;> rw [hblocking] at ha <;> rcases ha with ha | ⟨stage, ha⟩ <;>
        cases ha
    | panics | refused | releasing | send => rcases ha with ha | ⟨stage, ha⟩ <;> cases ha
  · cases h with
    | call request =>
      cases request with
      | lock m | tryLock m => cases hg
      | rwLock r op => cases hl
      | unlock guard =>
        obtain rfl : guard = g := by
          cases hg
          rfl
        simpa [Label.onMutex] using hl
    | counted next hsteps => cases next <;> cases hg
    | acquired a' hstep => cases hblocking : a'.blocking <;> rw [hblocking] at hg <;> cases hg
    | counting | panics | acquiring | refused | releasing | send => cases hg

/-- **A step of a hart that uses mutexes**, without the guards of reader/writer locks. -/
theorem Moves.onMutexes {hart : ℕ} {l : Label M R} {control control' : Control M R} {s s' : State M R}
    (h : Moves hart s l control control' s') (hcontrol : control.OnMutexes) (hl : l.onMutex = true) :
    Moves hart s.onMutexes l control control' s'.onMutexes := by
  cases h with
  | call request hpermitted =>
    refine .call request ?_
    cases request with
    | lock m | tryLock m | rwLock r op => trivial
    | unlock guard =>
      obtain ⟨hguard, howner⟩ := hpermitted
      exact ⟨State.mem_onMutexes.mpr ⟨hguard, by simpa [Label.onMutex] using hl⟩, howner⟩
  | counting next hsteps => exact .counting next hsteps
  | counted next hsteps => exact .counted next hsteps
  | panics next hstage hentry => exact .panics next hstage hentry
  | acquiring a hstep => exact .acquiring a (Acquisition.step_onMutexes hstep)
  | refused a hstep => exact .refused a (Acquisition.step_onMutexes hstep)
  | @acquired a s' hstep =>
    have hmutex : a.held.isSend = false := hcontrol.acquires a (Or.inl rfl)
    have hguards : ((⟨a.held, hart, hart⟩ : Guard M R) :: s'.guards).filter
        (fun g => !g.held.isSend) = ⟨a.held, hart, hart⟩ :: s'.onMutexes.guards :=
      List.filter_cons_of_pos (by simp [hmutex])
    have hmoves : Moves hart s.onMutexes .run (.acquiring a) _ _ :=
      .acquired a (Acquisition.step_onMutexes hstep)
    rw [← hguards] at hmoves
    exact hmoves
  | releasing guard =>
    have hmoves : Moves hart s.onMutexes .run (.releasing guard) enable _ := .releasing guard
    rw [← s.release_onMutexes (hcontrol.releases guard rfl)] at hmoves
    exact hmoves
  | send => cases hl

/-- **What a step of another hart leaves alone**, without the guards of reader/writer locks, when it
does not resize away the entry of the hart. -/
theorem Moves.frame_onMutexes {hart other : ℕ} {l : Label M R} {control control' : Control M R}
    {s s' : State M R} (h : Moves other s l control control' s') (hne : hart ≠ other)
    (hresize : ∀ next, control = .counting .resize next →
      hart ≤ other ∨ s.interrupts.table.length ≤ other + 1)
    (hrelease : ∀ g, control = .releasing g →
      g.owner = other ∧ (g.held.isSend = false → g.acquirer = other)) :
    Frame hart s.onMutexes s'.onMutexes := by
  have hguard : ∀ g, g ∈ s.onMutexes.guards → g.owner = hart → g ∈ s'.onMutexes.guards := by
    intro g hg howner
    obtain ⟨hmem, hmutex⟩ := State.mem_onMutexes.mp hg
    exact State.mem_onMutexes.mpr
      ⟨h.keeps_guard hne (fun g hg => (hrelease g hg).1) g hmem howner, hmutex⟩
  cases h with
  | call | panics => exact .of_same rfl rfl hguard Iff.rfl
  | counting next hsteps =>
    exact Frame.of_steps (s := s.onMutexes) hsteps hne fun hstage => hresize _ (by rw [hstage])
  | counted next hsteps =>
    exact Frame.of_steps (s := s.onMutexes) hsteps hne fun hstage => hresize _ (by rw [hstage])
  | acquiring a hstep | refused a hstep =>
    obtain ⟨hinterrupts, -, hparticipants⟩ := Acquisition.step_same hstep
    exact .of_same hinterrupts (acquired_step (Acquisition.step_onMutexes hstep) hart) hguard
      (by simp [State.onMutexes, hparticipants])
  | acquired a hstep =>
    obtain ⟨hinterrupts, hguards, hparticipants⟩ := Acquisition.step_same hstep
    refine .of_same hinterrupts ?_ hguard ?_
    · simp only [State.acquired, State.onMutexes, hguards, List.filter_cons]
      split <;> simp [Ne.symm hne]
    · simp [State.onMutexes, hparticipants, hne]
  | releasing guard =>
    refine .of_same (release_interrupts s guard) ?_ hguard (by simp [State.onMutexes, hne])
    -- a guard of a mutex that is released is one of the other hart
    have hother : ¬ (guard ∈ s.onMutexes.guards ∧ guard.acquirer = hart) := by
      rintro ⟨hmem, hacquirer⟩
      have hmutex := (State.mem_onMutexes.mp hmem).2
      exact hne (hacquirer.symm.trans ((hrelease guard rfl).2 hmutex))
    have hcount := countP_acquirer_erase s.onMutexes.guards guard hart
    rw [if_neg hother, Nat.sub_zero] at hcount
    simp only [State.acquired, State.onMutexes, release_guards, ← List.erase_filter] at hcount ⊢
    exact hcount
  | send guard receiver hmem _ hsend =>
    refine .of_same rfl ?_ hguard Iff.rfl
    have hnot : guard ∉ s.onMutexes.guards := fun hmem => by
      cases hsend.symm.trans (State.mem_onMutexes.mp hmem).2
    have hguards : ({ guard with owner := receiver } :: s.guards.erase guard).filter
        (fun g => !g.held.isSend) = s.onMutexes.guards := by
      rw [List.filter_cons_of_neg (by simp [hsend]), ← List.erase_filter]
      exact List.erase_of_not_mem hnot
    exact congrArg (List.countP fun g => g.acquirer = hart) hguards

end Mutexes

variable {R : Type} [DecidableEq R]

/-- The address of a mutex. -/
def Held.address : Held Address R → ℕ
  | .mutex m => m.value
  | .rwLock _ _ => 0

/-- The guards of a hart that holds only mutexes fit into its counter. -/
theorem State.MutexesExclusive.acquired_lt {s : State Address R}
    (h : s.MutexesExclusive) {hart : ℕ}
    (hmutex : ∀ g ∈ s.guards, g.acquirer = hart → ∃ m, g.held = .mutex m) :
    s.acquired hart + 1 < usizeCard := by
  let locks := (s.guards.filter fun g => g.acquirer = hart).map Guard.held
  have hlength : s.acquired hart = locks.length := by
    rw [List.length_map]
    exact List.countP_eq_length_filter
  have hlocks : ∀ held ∈ locks, ∃ m, held = .mutex m := by
    intro held hheld
    obtain ⟨g, hg, rfl⟩ := List.mem_map.mp hheld
    obtain ⟨hg, hacquirer⟩ := List.mem_filter.mp hg
    exact hmutex g hg (by simpa using hacquirer)
  -- No two of the guards are of one mutex, so their addresses are different.
  have hnodup : locks.Nodup := by
    rw [List.nodup_iff_count_le_one]
    intro held
    by_cases hheld : held ∈ locks
    · obtain ⟨m, rfl⟩ := hlocks held hheld
      have hcount : locks.count (.mutex m) ≤ s.guards.countP fun g => g.held = .mutex m := by
        have hsublist : (s.guards.filter fun g => g.acquirer = hart).Sublist s.guards :=
          List.filter_sublist
        rw [List.count, List.countP_map]
        refine (List.countP_congr fun g _ => ?_).trans_le hsublist.countP_le
        simp
      exact hcount.trans ((h m).trans (Bool.toNat_le _))
    · rw [List.count_eq_zero_of_not_mem hheld]
      exact Nat.zero_le 1
  have haddresses : (locks.map Held.address).Nodup := by
    refine List.Nodup.map_on ?_ hnodup
    intro held hheld held' hheld' heq
    obtain ⟨m, rfl⟩ := hlocks held hheld
    obtain ⟨m', rfl⟩ := hlocks held' hheld'
    obtain ⟨value, _, _⟩ := m
    obtain ⟨value', _, _⟩ := m'
    simpa [Held.address] using heq
  have hsubset : (locks.map Held.address).toFinset ⊆ Finset.Ioo 0 (usizeCard - 1) := by
    intro value hvalue
    obtain ⟨held, hheld, rfl⟩ := List.mem_map.mp (List.mem_toFinset.mp hvalue)
    obtain ⟨m, rfl⟩ := hlocks held hheld
    have hpos := m.pos
    have hlt := m.lt
    simp only [Held.address, Finset.mem_Ioo]
    omega
  have hcard := Finset.card_le_card hsubset
  rw [List.toFinset_card_of_nodup haddresses, List.length_map, Nat.card_Ioo, ← hlength] at hcard
  simp only [usizeCard] at hcard ⊢
  omega

/-! ## One hart among others -/

/-- How many mutexes a hart holds. -/
def State.heldMutexes {M R : Type} (s : State M R) (hart : ℕ) : ℕ :=
  s.guards.countP fun g => g.owner = hart && !g.held.isSend

/-- **What the counter and `sie` of a hart are to be**: between operations the counter is the number of
its mutexes, and interrupts are on exactly when it holds none; and the counter never wraps below
zero. -/
structure CountsMutexes {M R : Type} (hart : ℕ) (s : Parties ℕ (Control M R) (State M R)) : Prop where
  between : s.control hart = .idle →
    s.shared.interrupts.table[hart]? = some (s.shared.heldMutexes hart) ∧
      s.shared.interrupts.sie hart = if 0 < s.shared.heldMutexes hart then 0 else 0x222
  wraps : ∀ next, s.control hart = .counting .decrement next →
    ∃ count, s.shared.interrupts.table[hart]? = some count ∧ 0 < count

/-- The hart has an entry, holds no mutex and has interrupts on. The others may be anywhere. -/
structure Start (hart : ℕ) (s : Parties ℕ (Control Address R) (State Address R)) : Prop where
  consistent : Consistent s
  control : s.control hart = .idle
  entry : s.shared.interrupts.table[hart]? = some 0
  sie : s.shared.interrupts.sie hart = 0x222
  guards : ∀ g ∈ s.shared.guards, g.held.isSend = false → g.owner ≠ hart

/-- The hart calls operations of mutexes only. -/
def UsesMutexes (hart : ℕ) (l : ℕ × Label Address R) : Prop := l.1 = hart → l.2.onMutex = true

instance (hart : ℕ) (l : ℕ × Label Address R) : Decidable (UsesMutexes hart l) :=
  inferInstanceAs (Decidable (_ → _))

/-- A hart with a smaller id resizes the table to less than its length. -/
def ResizesAway (hart : ℕ) (s : Parties ℕ (Control Address R) (State Address R))
    (l : ℕ × Label Address R) : Prop :=
  ResizesStale s l = true ∧ l.1 < hart

instance (hart : ℕ) (s : Parties ℕ (Control Address R) (State Address R))
    (l : ℕ × Label Address R) : Decidable (ResizesAway hart s l) :=
  inferInstanceAs (Decidable (_ ∧ _))

/-- The runs of a hart with an entry that uses mutexes, among other harts. -/
def mutexSystem (R : Type) [DecidableEq R] (hart : ℕ) :
    TransitionSystem (Parties ℕ (Control Address R) (State Address R)) (ℕ × Label Address R) :=
  (system (Start hart)).restrict fun _ l _ => UsesMutexes hart l

/-- The runs in which no hart resizes away the entry. -/
def nestedSystem (R : Type) [DecidableEq R] (hart : ℕ) :
    TransitionSystem (Parties ℕ (Control Address R) (State Address R)) (ℕ × Label Address R) :=
  (system (Start hart)).restrict fun s l _ => UsesMutexes hart l ∧ ¬ ResizesAway hart s l

/-- What holds of a hart with an entry that uses mutexes. -/
structure Nested (hart : ℕ) (s : Parties ℕ (Control Address R) (State Address R)) : Prop where
  consistent : Consistent s
  balanced : Balanced hart (s.control hart) s.shared.onMutexes
  masked : Masked True False hart (s.control hart) s.shared.onMutexes
  uses : (s.control hart).OnMutexes
  entry : hart < s.shared.interrupts.table.length

variable {hart : ℕ} {s s' : Parties ℕ (Control Address R) (State Address R)}

theorem Moves.entry {other : ℕ} {label : Label Address R} {control control' : Control Address R}
    {s s' : State Address R} (h : Moves other s label control control' s')
    (hentry : other < s.interrupts.table.length) : other < s'.interrupts.table.length := by
  cases h with
  | call | panics | send => exact hentry
  | counting next hsteps | counted next hsteps => exact hsteps.own_entry hentry
  | acquiring a hstep | refused a hstep | acquired a hstep =>
    have hinterrupts := (Acquisition.step_same hstep).1
    simpa only [hinterrupts] using hentry
  | releasing guard =>
    dsimp only
    rw [release_interrupts]
    exact hentry

/-- The mutexes of a hart fit into its counter. -/
theorem Consistent.acquired_lt (h : Consistent s) (hart : ℕ) :
    s.shared.onMutexes.acquired hart + 1 < usizeCard := by
  refine h.exclusive.onMutexes.acquired_lt fun g hg _ => ?_
  have hmutex := (State.mem_onMutexes.mp hg).2
  cases hheld : g.held with
  | mutex m => exact ⟨m, rfl⟩
  | rwLock kind r =>
    rw [hheld] at hmutex
    cases hmutex

/-- A step of the hart keeps what holds of it. -/
theorem Nested.own {label : Label Address R} (h : Nested hart s)
    (hnext : s.next move (hart, label) = some s') (hl : label.onMutex = true) : Nested hart s' := by
  have hconsistent := h.consistent.next hnext
  obtain ⟨control', shared', hmove, rfl⟩ := Parties.next_eq_some hnext
  have hmoves := moves_of_move hmove
  have hprojected := hmoves.onMutexes h.uses hl
  have hbalanced' := h.balanced.move hprojected (h.consistent.acquired_lt hart) (by
    rintro g rfl
    obtain ⟨hguard, howner⟩ := hmoves.permitted
    exact (h.consistent.owner g hguard (by simpa [Label.onMutex] using hl)).symm.trans howner)
  have hmasked' := h.masked.move h.balanced hbalanced' hprojected fun a _ hearly => hearly.elim
  have huses' := hmoves.controlOnMutexes h.uses hl
  refine ⟨hconsistent, ?_, ?_, ?_, hmoves.entry h.entry⟩
  all_goals
    dsimp only
    rw [Function.update_self]
    assumption

/-- A step of another hart that does not resize away the entry keeps it. -/
theorem Nested.other {other : ℕ} {label : Label Address R} (h : Nested hart s)
    (hnext : s.next move (other, label) = some s') (hne : hart ≠ other)
    (hkeeps : ¬ ResizesAway hart s (other, label)) : Nested hart s' := by
  have hconsistent := h.consistent.next hnext
  obtain ⟨control', shared', hmove, rfl⟩ := Parties.next_eq_some hnext
  have hmoves := moves_of_move hmove
  have hframe : Frame hart s.shared.onMutexes shared'.onMutexes := by
    refine hmoves.frame_onMutexes hne (fun next hcontrol => ?_) fun g hg => ?_
    · have hrun : label = .run := by
        rw [hcontrol] at hmoves
        cases hmoves <;> rfl
      subst hrun
      rcases Nat.lt_or_ge other hart with hlt | hle
      · have hfresh : ResizesStale s (other, .run) = false := by
          rw [← Bool.not_eq_true]
          exact fun hstale => hkeeps ⟨hstale, hlt⟩
        exact Or.inr (length_le_of_not_resizesStale (l := (other, .run)) hfresh hcontrol)
      · exact Or.inl hle
    · obtain ⟨hguard, howner⟩ := h.consistent.releasing other g hg
      exact ⟨howner, fun hmutex => (h.consistent.owner g hguard hmutex).symm.trans howner⟩
  refine ⟨hconsistent, ?_, ?_, ?_, hframe.entry h.entry⟩
  all_goals
    dsimp only
    rw [Function.update_of_ne hne]
  · exact h.balanced.frame hframe
  · exact h.masked.frame hframe
  · exact h.uses

theorem Start.nested (h : Start hart s) : Nested hart s := by
  have hzero : s.shared.onMutexes.acquired hart = 0 := by
    rw [State.acquired, List.countP_eq_zero]
    intro g hg
    obtain ⟨hguard, hmutex⟩ := State.mem_onMutexes.mp hg
    have howner := h.consistent.owner g hguard hmutex
    simpa [← howner] using h.guards g hguard hmutex
  refine ⟨h.consistent, ?_, ?_, ?_, (List.getElem?_eq_some_iff.mp h.entry).1⟩
  all_goals rw [h.control]
  · refine .of_count ?_ (Or.inl rfl)
    rw [State.count_eq (s := s.shared.onMutexes) h.entry, hzero]
    rfl
  · refine ⟨by simp [Control.phase], by simp [Control.phase], fun _ hpos => ?_, fun _ _ _ => h.sie⟩
    omega
  · exact ⟨by simp, by simp⟩

/-- The mutexes that a hart holds are those that it has acquired. -/
theorem Consistent.heldMutexes_eq (h : Consistent s) (hart : ℕ) :
    s.shared.heldMutexes hart = s.shared.onMutexes.acquired hart := by
  rw [State.heldMutexes, State.acquired, State.onMutexes, List.countP_filter]
  refine List.countP_congr fun g hg => ?_
  cases hmutex : g.held.isSend with
  | true => simp
  | false => simp [h.owner g hg hmutex]

theorem Nested.countsMutexes (h : Nested hart s) : CountsMutexes hart s := by
  have hcount : s.shared.interrupts.table[hart]? = some (s.shared.onMutexes.count hart) := by
    rw [State.count, State.onMutexes, List.getElem?_eq_getElem h.entry]
    rfl
  have hheld := h.consistent.heldMutexes_eq hart
  have hbalance := h.balanced.count
  constructor
  · intro hidle
    have hmasked := h.masked
    rw [hidle] at hbalance hmasked
    rw [hheld]
    refine ⟨?_, ?_⟩
    · rw [hcount]
      exact congrArg some hbalance
    · split
      · rename_i hpos
        exact hmasked.held rfl hpos
      · exact hmasked.rest rfl (by omega) (Or.inl trivial)
  · intro next hdecrement
    rw [hdecrement] at hbalance
    refine ⟨_, hcount, ?_⟩
    simp only [Control.owed, Control.pending] at hbalance
    omega

/-- **Nested shared mutexes may be released in any order**, when no hart resizes away the entry of the
hart that holds them. -/
theorem nested_mutexes (h : (nestedSystem R hart).Reachable s) : CountsMutexes hart s := by
  refine Nested.countsMutexes (h.invariant (fun _ hstart => hstart.nested) ?_)
  rintro s ⟨mover, label⟩ s' hnested ⟨hnext, hl, hkeeps⟩
  by_cases hmover : mover = hart
  · subst hmover
    exact hnested.own hnext (hl rfl)
  · exact hnested.other hnext (Ne.symm hmover) hkeeps

/-- Two mutexes. -/
def firstMutex : Address := ⟨8, by decide, by decide⟩

def secondMutex : Address := ⟨16, by decide, by decide⟩

/-- Harts 0 and 1 have entries, and nothing is held. -/
def twoEntries : Parties ℕ (Control Address Unit) (State Address Unit) :=
  ⟨fun _ => .idle, ⟨[0, 0], fun _ => 0x222⟩, fun _ => false, fun _ => 0, [], []⟩

theorem start_twoEntries : Start 1 twoEntries := by
  refine ⟨⟨fun hart g hg => ?_, fun g hg => ?_, fun m => ?_⟩, rfl, rfl, rfl, fun g hg => ?_⟩
  · cases hg
  · cases hg
  · exact Nat.zero_le _
  · cases hg

/-- Hart 1 locks a mutex, hart 0 sends it the guard of another lock, and hart 1 tries a second mutex
and releases the first one first. -/
theorem nested_mutexes_first_released : ∃ s : Parties ℕ (Control Address Unit) (State Address Unit),
    (nestedSystem Unit 1).Reachable s ∧
      s.shared.guards = [⟨.mutex secondMutex, 1, 1⟩, ⟨.rwLock .shared (), 0, 1⟩] ∧
      CountsMutexes 1 s := by
  have hinit : (nestedSystem Unit 1).Reachable twoEntries := .init start_twoEntries
  have hreachable := hinit.foldlM_restrict
    (fun s l _ => decide (UsesMutexes 1 l ∧ ¬ ResizesAway 1 s l))
    [(1, .call (.lock firstMutex)), (1, .run), (1, .run), (1, .run), (1, .run),
      (0, .call (.rwLock () .lockShared)), (0, .run), (0, .run), (0, .run), (0, .run), (0, .run),
      (0, .send ⟨.rwLock .shared (), 0, 0⟩ 1),
      (1, .call (.tryLock secondMutex)), (1, .run), (1, .run), (1, .run), (1, .run),
      (1, .call (.unlock ⟨.mutex firstMutex, 1, 1⟩)), (1, .run), (1, .run)]
    (fun _ _ _ h => h) (fun _ _ _ h => of_decide_eq_true h) rfl
  exact ⟨_, hreachable, rfl, nested_mutexes hreachable⟩

/-- Hart 0 finds that the table has no entry for it; then hart 1 locks a mutex and unlocks it. -/
def beforeResize : List (ℕ × Label Address Unit) :=
  [(0, .call (.lock firstMutex)), (0, .run), (0, .run),
    (1, .call (.lock secondMutex)), (1, .run), (1, .run), (1, .run), (1, .run), (1, .run),
    (1, .call (.unlock ⟨.mutex secondMutex, 1, 1⟩)), (1, .run), (1, .run), (1, .run)]

/-- Hart 1 locks the mutex again, and hart 0 resizes the table. -/
def resizeAway : List (ℕ × Label Address Unit) :=
  [(1, .call (.lock secondMutex)), (1, .run), (1, .run), (1, .run), (1, .run), (0, .run)]

/-- The counter of hart 1 is dropped while it holds a mutex. -/
theorem not_countsMutexes_resized :
    ∃ s₀ s : Parties ℕ (Control Address Unit) (State Address Unit),
      (system Boot).Reachable s₀ ∧ Start 1 s₀ ∧ (mutexSystem Unit 1).Reachable s ∧
        s.control 1 = .idle ∧ s.shared.interrupts.table = [0] ∧ s.shared.heldMutexes 1 = 1 ∧
        ¬ CountsMutexes 1 s := by
  have hboot : (system Boot).Reachable (boot Address Unit) := .init boot_boot
  have hrun : beforeResize.foldlM (Parties.next move) (boot Address Unit) = some _ := rfl
  have hreachable := hboot.foldlM (fun _ _ _ h => h) hrun
  have hstart : Start 1 _ :=
    ⟨Consistent.of_reachable hreachable, rfl, rfl, rfl, fun g hg => by cases hg⟩
  have hinit : (mutexSystem Unit 1).Reachable _ := .init hstart
  have hafter := hinit.foldlM_restrict (fun _ l _ => decide (UsesMutexes 1 l)) resizeAway
    (fun _ _ _ h => h) (fun _ _ _ h => of_decide_eq_true h) rfl
  refine ⟨_, _, hreachable, hstart, hafter, rfl, rfl, rfl, fun hcounts => ?_⟩
  obtain ⟨hentry, -⟩ := hcounts.between rfl
  cases hentry

end SharedLocks

end AsyncKernel
