import AsyncKernel.Locks.Spin

/-!
# The simple shared mutex

`RawSharedLock` of `simple_shared` in `kernel_lock` saves `sie` of the hart that acquires it in the
lock, and restores it from there. A release gives the internal lock up before it loads what was
saved, so in between another hart can acquire the lock and save its own `sie`, which the first hart
then gets.

## Main definitions

* `SimpleShared.Control`, `SimpleShared.move`: the operations, step by step
* `SimpleShared.Overwrites`: a hart saves its `sie` over the one that another hart is about to load

## Main results

* `SimpleShared.restores_of_run`: the runs in which every unlock restores `sie`
-/

namespace AsyncKernel

namespace SimpleShared

/-- Where a hart is in `lock`, `try_lock` or `unlock`. -/
inductive Control
  | idle
  /-- `try_lock` of the internal lock -/
  | compareExchange (blocking : Bool)
  /-- `read_sie()` -/
  | readSie
  /-- the store to `old_sie` -/
  | store (sie : ℕ)
  /-- `write_sie(0)` -/
  | mask
  /-- `unlock` of the internal lock -/
  | release
  /-- the load of `old_sie` -/
  | load
  /-- `write_sie` of what was loaded -/
  | restore (sie : ℕ)
  deriving DecidableEq, Repr

/-- The lock, `sie` of every hart, and what is known of the acquisitions. -/
structure State (Hart : Type) where
  locked : Bool
  oldSie : ℕ
  sie : Hart → ℕ
  /-- the hart that holds the internal lock -/
  owner : Option Hart
  /-- `sie` of a hart right before its latest acquisition -/
  before : Hart → ℕ

inductive Label
  | lock
  | tryLock
  /-- by the hart that holds the lock -/
  | unlock
  /-- the next step of the operation -/
  | run
  deriving DecidableEq, Repr

variable {Hart : Type} [DecidableEq Hart]

/-- What a hart does. -/
def move (hart : Hart) : Label → Control → State Hart → Option (Control × State Hart)
  | .lock, .idle, s => some (.compareExchange true, s)
  | .tryLock, .idle, s => some (.compareExchange false, s)
  | .unlock, .idle, s => if s.owner = some hart then some (.release, s) else none
  | .run, .compareExchange blocking, s =>
    match RawSpinlock.tryLock s.locked with
    | (true, locked) => some (.readSie, { s with
        locked
        owner := some hart
        before := Function.update s.before hart (s.sie hart) })
    -- `lock` is `while !self.try_lock() {}`
    | (false, locked) => some (if blocking then .compareExchange blocking else .idle, { s with locked })
  | .run, .readSie, s => some (.store (s.sie hart), s)
  | .run, .store sie, s => some (.mask, { s with oldSie := sie })
  | .run, .mask, s => some (.idle, { s with sie := Function.update s.sie hart 0 })
  | .run, .release, s => some (.load, { s with locked := RawSpinlock.unlock s.locked, owner := none })
  | .run, .load, s => some (.restore s.oldSie, s)
  | .run, .restore sie, s => some (.idle, { s with sie := Function.update s.sie hart sie })
  | _, _, _ => none

/-- The lock is free, and `sie` of every hart is arbitrary. -/
structure Start (s : Parties Hart Control (State Hart)) : Prop where
  control : ∀ hart, s.control hart = .idle
  locked : s.shared.locked = false
  oldSie : s.shared.oldSie = 0
  owner : s.shared.owner = none

/-- **Harts that share a simple shared mutex.** -/
def system (Hart : Type) [DecidableEq Hart] :
    TransitionSystem (Parties Hart Control (State Hart)) (Hart × Label) :=
  Parties.system Start move

/-- What a step stores to `old_sie`, if it does. -/
def saves (s : Parties Hart Control (State Hart)) (l : Hart × Label) : Option ℕ :=
  match l.2, s.control l.1 with
  | .run, .store sie => some sie
  | _, _ => none

/-- A hart saves its `sie` while another hart is about to load a different one. -/
def Overwrites (s : Parties Hart Control (State Hart)) (l : Hart × Label) : Prop :=
  ∃ sie ∈ saves s l, ∃ other, s.control other = .load ∧ s.shared.before other ≠ sie

instance [Fintype Hart] (s : Parties Hart Control (State Hart)) (l : Hart × Label) :
    Decidable (Overwrites s l) :=
  inferInstanceAs (Decidable
    (∃ sie ∈ saves s l, ∃ other, s.control other = .load ∧ s.shared.before other ≠ sie))

/-- After the last step of an unlock `sie` of the hart is what it was before the acquisition. -/
def Restores (t : Transition (Parties Hart Control (State Hart)) (Hart × Label)) : Prop :=
  ∀ hart sie, t.label = (hart, .run) → t.before.control hart = .restore sie →
    t.after.shared.sie hart = t.before.shared.before hart

/-! ## The runs -/

/-- What a step of a hart can do. -/
inductive Moves (hart : Hart) (s : State Hart) : Label → Control → Control → State Hart → Prop
  | lock : Moves hart s .lock .idle (.compareExchange true) s
  | tryLock : Moves hart s .tryLock .idle (.compareExchange false) s
  | unlock (h : s.owner = some hart) : Moves hart s .unlock .idle .release s
  | acquired (blocking : Bool) (h : s.locked = false) :
    Moves hart s .run (.compareExchange blocking) .readSie { s with
      locked := true
      owner := some hart
      before := Function.update s.before hart (s.sie hart) }
  | refused (blocking : Bool) (h : s.locked = true) : Moves hart s .run (.compareExchange blocking)
      (if blocking then .compareExchange blocking else .idle) s
  | readSie : Moves hart s .run .readSie (.store (s.sie hart)) s
  | store (sie : ℕ) : Moves hart s .run (.store sie) .mask { s with oldSie := sie }
  | mask : Moves hart s .run .mask .idle { s with sie := Function.update s.sie hart 0 }
  | release : Moves hart s .run .release .load { s with locked := false, owner := none }
  | load : Moves hart s .run .load (.restore s.oldSie) s
  | restore (sie : ℕ) :
    Moves hart s .run (.restore sie) .idle { s with sie := Function.update s.sie hart sie }

theorem moves_of_move {hart : Hart} {l : Label} {control control' : Control} {s s' : State Hart}
    (h : move hart l control s = some (control', s')) : Moves hart s l control control' s' := by
  unfold move at h
  split at h
  · obtain ⟨rfl, rfl⟩ := Prod.mk.inj (Option.some.inj h)
    exact .lock
  · obtain ⟨rfl, rfl⟩ := Prod.mk.inj (Option.some.inj h)
    exact .tryLock
  · split at h
    · rename_i howner
      obtain ⟨rfl, rfl⟩ := Prod.mk.inj (Option.some.inj h)
      exact .unlock howner
    · cases h
  · rename_i blocking
    cases hlocked : s.locked with
    | false =>
      simp only [hlocked, RawSpinlock.tryLock] at h
      obtain ⟨rfl, rfl⟩ := Prod.mk.inj (Option.some.inj h)
      exact .acquired blocking hlocked
    | true =>
      simp only [hlocked, RawSpinlock.tryLock] at h
      obtain ⟨rfl, rfl⟩ := Prod.mk.inj (Option.some.inj h)
      have hsame : { s with locked := true } = s := by rw [← hlocked]
      rw [hsame]
      exact .refused blocking hlocked
  · obtain ⟨rfl, rfl⟩ := Prod.mk.inj (Option.some.inj h)
    exact .readSie
  · obtain ⟨rfl, rfl⟩ := Prod.mk.inj (Option.some.inj h)
    exact .store _
  · obtain ⟨rfl, rfl⟩ := Prod.mk.inj (Option.some.inj h)
    exact .mask
  · obtain ⟨rfl, rfl⟩ := Prod.mk.inj (Option.some.inj h)
    exact .release
  · obtain ⟨rfl, rfl⟩ := Prod.mk.inj (Option.some.inj h)
    exact .load
  · obtain ⟨rfl, rfl⟩ := Prod.mk.inj (Option.some.inj h)
    exact .restore _
  · cases h

/-- What a hart asserts, wherever it is. -/
def Saved (hart : Hart) : Control → State Hart → Prop
  | .idle, s | .compareExchange _, s => s.owner = some hart → s.oldSie = s.before hart
  | .readSie, s => s.owner = some hart ∧ s.sie hart = s.before hart
  | .store sie, s => s.owner = some hart ∧ sie = s.before hart
  | .mask, s | .release, s => s.owner = some hart ∧ s.oldSie = s.before hart
  | .load, s => s.owner ≠ some hart ∧ s.oldSie = s.before hart
  | .restore sie, s => s.owner ≠ some hart ∧ sie = s.before hart

/-- A step establishes the assertion of its own hart. -/
theorem Saved.move {hart : Hart} {l : Label} {control control' : Control} {s s' : State Hart}
    (h : Saved hart control s) (hmoves : Moves hart s l control control' s') :
    Saved hart control' s' := by
  cases hmoves with
  | lock | tryLock => exact h
  | unlock howner => exact ⟨howner, h howner⟩
  | acquired blocking => exact ⟨rfl, by simp⟩
  | refused blocking => cases blocking <;> exact h
  | readSie => exact h
  | store sie => exact ⟨h.1, h.2⟩
  | mask => exact fun _ => h.2
  | release => exact ⟨by simp, h.2⟩
  | load => exact ⟨h.1, h.2⟩
  | restore sie => exact fun howner => absurd howner h.1

/-- A step keeps the assertions of the other harts, unless it overwrites what one of them is about
to load. -/
theorem Saved.frame {hart other : Hart} {l : Label} {control control' : Control}
    {s s' : State Hart} (hmoves : Moves hart s l control control' s')
    (hsaved : Saved hart control s) (howner : s.owner ≠ none → s.locked = true)
    (hne : other ≠ hart) {control₁ : Control}
    (h : Saved other control₁ s)
    (hload : ∀ sie, control = .store sie → control₁ = .load → s.before other = sie) :
    Saved other control₁ s' := by
  cases hmoves with
  | lock | tryLock | unlock | refused | readSie | load => exact h
  | acquired blocking hlocked =>
    -- The lock was free, so the other hart does not hold it.
    have hnone : s.owner = none := by
      by_contra hsome
      rw [howner hsome] at hlocked
      cases hlocked
    have hbefore : Function.update s.before hart (s.sie hart) other = s.before other :=
      Function.update_of_ne hne _ _
    cases control₁ <;> simp_all [Saved, Ne.symm hne]
  | store sie =>
    -- The hart holds the lock, so the other hart is not between its acquisition and its release.
    have hhart : s.owner = some hart := hsaved.1
    cases control₁ <;> simp_all [Saved, Ne.symm hne]
  | mask | restore =>
    have hsie : ∀ sie, Function.update s.sie hart sie other = s.sie other :=
      fun sie => Function.update_of_ne hne _ _
    cases control₁ <;> simp_all [Saved]
  | release =>
    have hhart : s.owner = some hart := hsaved.1
    cases control₁ <;> simp_all [Saved, Ne.symm hne]

theorem Moves.locked_of_owner {hart : Hart} {l : Label} {control control' : Control}
    {s s' : State Hart} (h : Moves hart s l control control' s')
    (howner : s.owner ≠ none → s.locked = true) : s'.owner ≠ none → s'.locked = true := by
  cases h with
  | acquired => exact fun _ => rfl
  | release => exact fun hnone => absurd rfl hnone
  | lock | tryLock | unlock | refused | readSie | store | mask | load | restore => exact howner

/-- The assertions of all harts, and a lock that is held is locked. -/
structure Consistent (s : Parties Hart Control (State Hart)) : Prop where
  locked : s.shared.owner ≠ none → s.shared.locked = true
  saved : ∀ hart, Saved hart (s.control hart) s.shared

omit [DecidableEq Hart] in
theorem Start.consistent {s : Parties Hart Control (State Hart)} (h : Start s) : Consistent s := by
  refine ⟨fun hnone => absurd h.owner hnone, fun hart => ?_⟩
  rw [h.control hart]
  intro howner
  rw [h.owner] at howner
  cases howner

/-- A step keeps the assertions, unless it overwrites what another hart is about to load. -/
theorem Consistent.next {s s' : Parties Hart Control (State Hart)} {l : Hart × Label}
    (h : Consistent s) (hnext : s.next move l = some s') (hl : ¬ Overwrites s l) :
    Consistent s' := by
  obtain ⟨hart, label⟩ := l
  constructor
  · obtain ⟨control, shared, hmove, rfl⟩ := Parties.next_eq_some hnext
    exact (moves_of_move hmove).locked_of_owner h.locked
  · refine Parties.assertions hnext ?_ ?_
    · intro control shared hmove
      exact (h.saved hart).move (moves_of_move hmove)
    · intro control shared hmove other hne
      have hmoves := moves_of_move hmove
      refine Saved.frame hmoves (h.saved hart) h.locked hne (h.saved other) ?_
      intro sie hstore hload
      have hrun : label = .run := by
        rw [hstore] at hmoves
        cases hmoves
        rfl
      by_contra hsie
      exact hl ⟨sie, by simp [saves, hrun, hstore], other, hload, hsie⟩

/-- **The runs in which every unlock restores `sie`**: those in which no hart saves its `sie` while
another hart, between its release and its load, is about to load a different one. -/
theorem restores_of_run {s : Parties Hart Control (State Hart)} (hstart : Start s)
    {run : List (Transition (Parties Hart Control (State Hart)) (Hart × Label))}
    (h : (system Hart).IsRun s run) (hrun : ∀ t ∈ run, ¬ Overwrites t.before t.label) :
    ∀ t ∈ run, Restores t := by
  have hconsistent := h.invariant hstart.consistent fun t ht hconsistent hstep =>
    hconsistent.next hstep (hrun t ht)
  intro t ht hart sie hlabel hcontrol
  have hstep := h.step ht
  rw [hlabel] at hstep
  obtain ⟨control, shared, hmove, hafter⟩ := Parties.next_eq_some hstep
  have hsaved := (hconsistent t ht).1.saved hart
  rw [hcontrol] at hmove hsaved
  obtain ⟨-, rfl⟩ := Prod.mk.inj (Option.some.inj hmove)
  rw [hafter]
  exact (Function.update_self ..).trans hsaved.2

/-- The lock is free, and `sie` is 0x2 of one hart and 0x20 of the other. -/
def twoHarts : Parties Bool Control (State Bool) :=
  ⟨fun _ => .idle, false, 0, fun hart => if hart then 0x2 else 0x20, none, fun _ => 0⟩

theorem twoHarts_start : Start twoHarts := ⟨fun _ => rfl, rfl, rfl, rfl⟩

/-- The transitions from `twoHarts` along a list of labels. -/
def twoHartsRun (labels : List (Bool × Label)) :
    List (Transition (Parties Bool Control (State Bool)) (Bool × Label)) :=
  TransitionSystem.follow (Parties.next move) twoHarts labels

theorem isRun_twoHartsRun (labels : List (Bool × Label)) :
    (system Bool).IsRun twoHarts (twoHartsRun labels) :=
  TransitionSystem.isRun_follow (fun _ _ _ h => h) _ _

/-- One hart locks and unlocks, the other one waits for it and then does so too. -/
theorem restores_of_run_in_turn :
    let run := twoHartsRun [(true, .lock), (true, .run), (true, .run), (false, .lock), (false, .run),
      (true, .run), (true, .run), (true, .unlock), (true, .run), (true, .run), (false, .run),
      (true, .run), (false, .run), (false, .run), (false, .run), (false, .unlock), (false, .run),
      (false, .run), (false, .run)]
    Start twoHarts ∧ (∃ t ∈ run, t.before.control false = .restore 0x20) ∧ ∀ t ∈ run, Restores t := by
  intro run
  have hfinished : ∃ t ∈ run, t.before.control false = .restore 0x20 := by decide
  exact ⟨twoHarts_start, hfinished,
    restores_of_run twoHarts_start (isRun_twoHartsRun _) (by decide)⟩

/-- One hart releases the lock, the other one acquires it and saves its `sie`, and the first one
then loads that: its `sie` was 0x2 and is 0x20. -/
theorem not_restores_overwritten :
    let run := twoHartsRun [(true, .lock), (true, .run), (true, .run), (true, .run), (true, .run),
      (true, .unlock), (true, .run), (false, .lock), (false, .run), (false, .run), (false, .run),
      (true, .run), (true, .run)]
    Start twoHarts ∧ (system Bool).IsRun twoHarts run ∧
      (∃ t ∈ run, t.label = (true, .run) ∧ t.before.control true = .restore 0x20 ∧
        t.before.shared.before true = 0x2 ∧ t.after.shared.sie true = 0x20) ∧
      ¬ ∀ t ∈ run, Restores t := by
  intro run
  have hrestored : ∃ t ∈ run, t.label = (true, .run) ∧ t.before.control true = .restore 0x20 ∧
      t.before.shared.before true = 0x2 ∧ t.after.shared.sie true = 0x20 := by
    decide
  refine ⟨twoHarts_start, isRun_twoHartsRun _, hrestored, fun hrestores => ?_⟩
  obtain ⟨t, ht, hlabel, hcontrol, hbefore, hafter⟩ := hrestored
  have hsame := hrestores t ht true 0x20 hlabel hcontrol
  rw [hbefore, hafter] at hsame
  cases hsame

end SimpleShared

end AsyncKernel
