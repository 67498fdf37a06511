import AsyncKernel.Locks.Spin

/-!
# The table of lock counts

`HART_LOCK_COUNT` of `kernel_lock` holds how many shared locks each hart holds. A hart that is about
to hold one turns its interrupts off and counts it, and turns them on again when it has given up the
last. The length of the table is checked under a read guard and the table is resized under a write
guard, so between the two another hart may have made the table longer; `resize_with` then makes it
shorter again, and drops the counts of other harts.

Each access to the table under a guard is one atomic step.

## Main definitions

* `resizeWith`: `Vec::resize_with`, for a table of counters
* `Stage`, `Stage.step`: `lock_and_disable_interrupts` and
  `unlock_and_enable_interrupts_if_necessary`, step by step
* `HartLockCount.system`: harts that call the two functions
* `HartLockCount.ResizesStale`: a resize after the table has become longer

## Main results

* `getElem?_resizeWith`: the table after a resize
* `HartLockCount.keeps_iff_of_run`: the runs in which the table never shrinks, no hart's counter is
  lost and every index is in bounds
-/

namespace AsyncKernel

/-- `resize_with(len, || AtomicUsize::new(0))`. -/
def resizeWith (table : List ℕ) (len : ℕ) : List ℕ :=
  table.take len ++ List.replicate (len - table.length) 0

@[simp] theorem length_resizeWith (table : List ℕ) (len : ℕ) :
    (resizeWith table len).length = len := by
  simp [resizeWith]
  omega

/-- A resize keeps what is left of the table, and fills it up with zeros. -/
theorem getElem?_resizeWith (table : List ℕ) (len i : ℕ) :
    (resizeWith table len)[i]? = if i < len then some (table[i]?.getD 0) else none := by
  split
  · rename_i hi
    by_cases htable : i < table.length
    · have htake : i < (table.take len).length := by simp [hi, htable]
      rw [resizeWith, List.getElem?_append_left htake, List.getElem?_take_of_lt hi,
        List.getElem?_eq_getElem htable]
      rfl
    · have htake : (table.take len).length ≤ i := by
        simp
        omega
      have hnone : table[i]? = none := List.getElem?_eq_none (by omega)
      have hreplicate : i - (table.take len).length < len - table.length := by
        simp
        omega
      rw [resizeWith, List.getElem?_append_right htake, List.getElem?_replicate_of_lt hreplicate,
        hnone]
      rfl
  · rename_i hi
    apply List.getElem?_eq_none
    simp
    omega

/-- The table of lock counts, and `sie` of every hart. -/
structure Interrupts where
  table : List ℕ
  sie : ℕ → ℕ

/-- `write_sie`. -/
def Interrupts.writeSie (s : Interrupts) (hart value : ℕ) : Interrupts :=
  { s with sie := Function.update s.sie hart value }

/-- Where a hart is in one of the two functions. -/
inductive Stage
  /-- `write_sie(0)` -/
  | disable
  /-- `create_hart_lock_count_entry_if_necessary`: the length, under a read guard -/
  | check
  /-- `create_hart_lock_count_entry_if_necessary`: the resize, under a write guard -/
  | resize
  /-- `fetch_add`, under a read guard -/
  | increment
  /-- `fetch_sub`, under a read guard -/
  | decrement
  /-- `write_sie(0x222)` -/
  | enable
  deriving DecidableEq, Repr

/-- `lock_and_disable_interrupts`: where it starts, if it does anything. -/
def lockAndDisableInterrupts (inInterruptContext : Bool) : Option Stage :=
  if !inInterruptContext then some .disable else none

/-- `unlock_and_enable_interrupts_if_necessary`: where it starts, if it does anything. -/
def unlockAndEnableInterruptsIfNecessary (inInterruptContext : Bool) : Option Stage :=
  if !inInterruptContext then some .decrement else none

/-- `HART_LOCK_COUNT.read()[load_hartid()]` is out of bounds. -/
structure IndexOutOfBounds where
  deriving DecidableEq, Repr

/-- One step of one of the two functions, which returns after it when there is no next stage. -/
def Stage.step (hart : ℕ) (s : Interrupts) :
    Stage → Except IndexOutOfBounds (Option Stage × Interrupts)
  | .disable => .ok (some .check, s.writeSie hart 0)
  | .check => .ok (some (if hart < s.table.length then .increment else .resize), s)
  | .resize => .ok (some .increment, { s with table := resizeWith s.table (hart + 1) })
  | .increment =>
    match s.table[hart]? with
    | some count => .ok (none, { s with table := s.table.set hart (wrappingAdd count 1) })
    | none => .error ⟨⟩
  | .decrement =>
    match s.table[hart]? with
    | some count =>
      -- this was the last lock remaining for this hart
      .ok (if count = 1 then some .enable else none,
        { s with table := s.table.set hart (wrappingSub count 1) })
    | none => .error ⟨⟩
  | .enable => .ok (none, s.writeSie hart 0x222)

/-- What a step of one of the functions can do. -/
inductive Stage.Steps (hart : ℕ) (s : Interrupts) : Stage → Option Stage → Interrupts → Prop
  | disable : Steps hart s .disable (some .check) (s.writeSie hart 0)
  | found (h : hart < s.table.length) : Steps hart s .check (some .increment) s
  | missing (h : s.table.length ≤ hart) : Steps hart s .check (some .resize) s
  | resize : Steps hart s .resize (some .increment) { s with table := resizeWith s.table (hart + 1) }
  | increment {count : ℕ} (h : s.table[hart]? = some count) :
    Steps hart s .increment none { s with table := s.table.set hart (wrappingAdd count 1) }
  | last (h : s.table[hart]? = some 1) :
    Steps hart s .decrement (some .enable) { s with table := s.table.set hart (wrappingSub 1 1) }
  | decrement {count : ℕ} (h : s.table[hart]? = some count) (hcount : count ≠ 1) :
    Steps hart s .decrement none { s with table := s.table.set hart (wrappingSub count 1) }
  | enable : Steps hart s .enable none (s.writeSie hart 0x222)

section Steps

variable {hart : ℕ} {s s' : Interrupts} {stage : Stage} {next : Option Stage}

theorem Stage.steps_of_step (h : stage.step hart s = .ok (next, s')) :
    Steps hart s stage next s' := by
  unfold Stage.step at h
  split at h
  · obtain ⟨rfl, rfl⟩ := Prod.mk.inj (Except.ok.inj h)
    exact .disable
  · obtain ⟨rfl, rfl⟩ := Prod.mk.inj (Except.ok.inj h)
    split
    · rename_i hentry
      exact .found hentry
    · rename_i hentry
      exact .missing (Nat.le_of_not_lt hentry)
  · obtain ⟨rfl, rfl⟩ := Prod.mk.inj (Except.ok.inj h)
    exact .resize
  · split at h
    · rename_i hcount
      obtain ⟨rfl, rfl⟩ := Prod.mk.inj (Except.ok.inj h)
      exact .increment hcount
    · cases h
  · split at h
    · rename_i count hcount
      obtain ⟨rfl, rfl⟩ := Prod.mk.inj (Except.ok.inj h)
      split
      · rename_i hone
        subst hone
        exact .last hcount
      · rename_i hone
        exact .decrement hcount hone
    · cases h
  · obtain ⟨rfl, rfl⟩ := Prod.mk.inj (Except.ok.inj h)
    exact .enable

/-- A step fails only where the table is indexed and the hart has no entry. -/
theorem Stage.step_eq_error {e : IndexOutOfBounds} (h : stage.step hart s = .error e) :
    (stage = .increment ∨ stage = .decrement) ∧ s.table.length ≤ hart := by
  cases stage with
  | disable | check | resize | enable => cases h
  | increment =>
    simp only [Stage.step] at h
    split at h
    · cases h
    · rename_i hnone
      exact ⟨Or.inl rfl, List.getElem?_eq_none_iff.mp hnone⟩
  | decrement =>
    simp only [Stage.step] at h
    split at h
    · cases h
    · rename_i hnone
      exact ⟨Or.inr rfl, List.getElem?_eq_none_iff.mp hnone⟩

/-- When a resize is not to less than the length, the table does not become shorter. -/
theorem Stage.Steps.length_le (h : Steps hart s stage next s')
    (hresize : stage = .resize → s.table.length ≤ hart + 1) :
    s.table.length ≤ s'.table.length := by
  cases h with
  | resize => simpa using hresize rfl
  | disable | found | missing | increment | last | decrement | enable => simp [Interrupts.writeSie]

/-- A hart does not lose its own entry. -/
theorem Stage.Steps.own_entry (h : Steps hart s stage next s') (hentry : hart < s.table.length) :
    hart < s'.table.length := by
  cases h with
  | resize => simp
  | disable | found | missing | enable => exact hentry
  | increment | last | decrement => simpa using hentry

/-- What a step leaves alone for another hart, unless it resizes away the other's entry. -/
theorem Stage.Steps.frame {other : ℕ} (h : Steps hart s stage next s') (hne : other ≠ hart)
    (hresize : stage = .resize → other ≤ hart ∨ s.table.length ≤ hart + 1) :
    s'.table[other]?.getD 0 = s.table[other]?.getD 0 ∧
      (other < s.table.length → other < s'.table.length) ∧ s'.sie other = s.sie other := by
  cases h with
  | found | missing => exact ⟨rfl, id, rfl⟩
  | disable | enable => exact ⟨rfl, id, Function.update_of_ne hne _ _⟩
  | resize =>
    refine ⟨?_, fun hentry => ?_, rfl⟩
    · rw [getElem?_resizeWith]
      split
      · rfl
      · rw [List.getElem?_eq_none]
        have := hresize rfl
        omega
    · have := hresize rfl
      rw [length_resizeWith]
      omega
  | increment | last | decrement =>
    refine ⟨?_, fun hentry => ?_, rfl⟩
    · rw [List.getElem?_set_ne hne.symm]
    · simpa using hentry

end Steps

namespace HartLockCount

/-- What a hart is doing. -/
inductive Status
  | idle
  | running (stage : Stage)
  | panicked
  deriving DecidableEq, Repr

/-- What a hart is doing, and how many of its locks have no matching unlock yet. -/
structure Control where
  status : Status
  held : ℕ
  deriving DecidableEq, Repr

inductive Label
  | lock
  /-- an unlock, after a matching lock -/
  | unlock
  /-- the next step of the call -/
  | run
  deriving DecidableEq, Repr

/-- The calls of a hart outside interrupt context. -/
def move (hart : ℕ) : Label → Control → Interrupts → Option (Control × Interrupts)
  | .lock, ⟨.idle, held⟩, s => (lockAndDisableInterrupts false).map (⟨.running ·, held⟩, s)
  | .unlock, ⟨.idle, held + 1⟩, s =>
    (unlockAndEnableInterruptsIfNecessary false).map (⟨.running ·, held⟩, s)
  | .run, ⟨.running stage, held⟩, s =>
    match stage.step hart s with
    | .ok (some stage, s) => some (⟨.running stage, held⟩, s)
    | .ok (none, s) => some (⟨.idle, if stage = .increment then held + 1 else held⟩, s)
    | .error _ => some (⟨.panicked, held⟩, s)
  | _, _, _ => none

/-- **Harts that call the two functions.** A hart is its id, and the table starts empty. -/
def system : TransitionSystem (Parties ℕ Control Interrupts) (ℕ × Label) :=
  Parties.system (fun s => (∀ hart, s.control hart = ⟨.idle, 0⟩) ∧ s.shared.table = []) move

/-- A resize of the table, by a hart. -/
def Resizes (s : Parties ℕ Control Interrupts) (l : ℕ × Label) : Prop :=
  l.2 = .run ∧ (s.control l.1).status = .running .resize

/-- A resize when the table is already longer than what it is resized to. -/
def ResizesStale (s : Parties ℕ Control Interrupts) (l : ℕ × Label) : Prop :=
  Resizes s l ∧ l.1 + 1 < s.shared.table.length

instance (s : Parties ℕ Control Interrupts) (l : ℕ × Label) : Decidable (ResizesStale s l) :=
  inferInstanceAs (Decidable ((_ ∧ _) ∧ _))

/-- A step after which the table is not shorter, no hart's counter is lost by the resize of another
hart, and no index has been out of bounds. -/
structure Keeps (t : Transition (Parties ℕ Control Interrupts) (ℕ × Label)) : Prop where
  length : t.before.shared.table.length ≤ t.after.shared.table.length
  counter : Resizes t.before t.label → ∀ hart, hart ≠ t.label.1 →
    ∀ count, t.before.shared.table[hart]? = some count → t.after.shared.table[hart]? = some count
  bounds : ∀ hart, (t.after.control hart).status ≠ .panicked

/-! ## The runs -/

/-- A hart that has a counter, or is about to index the table, has an entry. -/
structure Bounded (hart : ℕ) (control : Control) (s : Interrupts) : Prop where
  panicked : control.status ≠ .panicked
  held : 0 < control.held → hart < s.table.length
  indexes : control.status = .running .increment ∨ control.status = .running .decrement →
    hart < s.table.length

theorem Bounded.mono {hart : ℕ} {control : Control} {s s' : Interrupts} (h : Bounded hart control s)
    (hlength : s.table.length ≤ s'.table.length) : Bounded hart control s' :=
  ⟨h.panicked, fun hheld => (h.held hheld).trans_le hlength,
    fun hindexes => (h.indexes hindexes).trans_le hlength⟩

/-- What a hart does keeps its own bounds and the length, if it does not resize a table that is
longer by then. -/
theorem Bounded.move {hart : ℕ} {l : Label} {control control' : Control} {s s' : Interrupts}
    (h : Bounded hart control s) (hmove : move hart l control s = some (control', s'))
    (hresize : l = .run → control.status = .running .resize → s.table.length ≤ hart + 1) :
    s.table.length ≤ s'.table.length ∧ Bounded hart control' s' := by
  unfold HartLockCount.move at hmove
  split at hmove
  · -- a lock starts
    obtain ⟨rfl, rfl⟩ := Prod.mk.inj (Option.some.inj hmove)
    exact ⟨le_rfl, by simp, h.held, by simp⟩
  · -- an unlock starts, and the hart has an entry because it has locked before
    obtain ⟨rfl, rfl⟩ := Prod.mk.inj (Option.some.inj hmove)
    have hentry : hart < s.table.length := h.held (Nat.succ_pos _)
    exact ⟨le_rfl, by simp, fun _ => hentry, fun _ => hentry⟩
  · rename_i stage held
    split at hmove
    · rename_i next s₁ hstep
      obtain ⟨rfl, rfl⟩ := Prod.mk.inj (Option.some.inj hmove)
      have hsteps := Stage.steps_of_step hstep
      have hlength := hsteps.length_le fun hstage => hresize rfl (congrArg Status.running hstage)
      refine ⟨hlength, by simp, fun hheld => (h.held hheld).trans_le hlength, fun hindexes => ?_⟩
      cases hsteps with
      | found hentry => exact hentry
      | resize => simp
      | disable | missing | last => simp at hindexes
    · rename_i s₁ hstep
      obtain ⟨rfl, rfl⟩ := Prod.mk.inj (Option.some.inj hmove)
      have hsteps := Stage.steps_of_step hstep
      have hlength := hsteps.length_le fun hstage => hresize rfl (congrArg Status.running hstage)
      refine ⟨hlength, by simp, fun hheld => ?_, by simp⟩
      cases hsteps with
      | increment => exact (h.indexes (Or.inl rfl)).trans_le hlength
      | decrement => exact (h.indexes (Or.inr rfl)).trans_le hlength
      | enable => exact h.held (by simpa using hheld)
    · -- the index is not out of bounds
      rename_i e hstep
      obtain ⟨hstage, hentry⟩ := Stage.step_eq_error hstep
      have hindexes := h.indexes (hstage.imp (congrArg Status.running) (congrArg Status.running))
      omega
  · cases hmove

/-- A resize of a table that is not longer by then keeps all counters. -/
theorem move_resize {hart : ℕ} {control control' : Control} {s s' : Interrupts}
    (hmove : move hart .run control s = some (control', s'))
    (hcontrol : control.status = .running .resize) :
    s'.table = resizeWith s.table (hart + 1) := by
  obtain ⟨status, held⟩ := control
  dsimp only at hcontrol
  subst hcontrol
  obtain ⟨-, rfl⟩ := Prod.mk.inj (Option.some.inj hmove)
  rfl

/-- **The runs in which the table never shrinks**, no hart's counter is lost and every index is in
bounds: those in which no hart resizes a table that has become longer since the hart checked it. -/
theorem keeps_iff_of_run {s : Parties ℕ Control Interrupts} (hinit : system.init s)
    {run : List (Transition (Parties ℕ Control Interrupts) (ℕ × Label))}
    (h : system.IsRun s run) :
    (∀ t ∈ run, Keeps t) ↔ ∀ t ∈ run, ¬ ResizesStale t.before t.label := by
  have hresize : ∀ t : Transition (Parties ℕ Control Interrupts) (ℕ × Label),
      ¬ ResizesStale t.before t.label → t.label.2 = .run →
        (t.before.control t.label.1).status = .running .resize →
        t.before.shared.table.length ≤ t.label.1 + 1 := by
    intro t hfresh hlabel hcontrol
    by_contra hlong
    exact hfresh ⟨⟨hlabel, hcontrol⟩, Nat.lt_of_not_le hlong⟩
  -- Every hart that indexes the table has an entry, and no step takes it away.
  refine h.forall_good_iff (fun s => ∀ hart, Bounded hart (s.control hart) s.shared) ?_ ?_ ?_ ?_
  · intro hart
    rw [hinit.1 hart]
    exact ⟨by simp, by simp, by simp⟩
  · intro t hstep hbounded hfresh
    refine Parties.assertions (i := t.label.1) (l := t.label.2) hstep ?_ ?_
    · intro control shared hmove
      exact ((hbounded _).move hmove (hresize t hfresh)).2
    · intro control shared hmove hart _
      exact (hbounded hart).mono ((hbounded _).move hmove (hresize t hfresh)).1
  · intro t hstep hbefore hafter hfresh
    obtain ⟨control, shared, hmove, hnext⟩ :=
      Parties.next_eq_some (i := t.label.1) (l := t.label.2) hstep
    have hshared : t.after.shared = shared := by rw [hnext]
    refine ⟨?_, ?_, fun hart => (hafter hart).panicked⟩
    · rw [hshared]
      exact ((hbefore _).move hmove (hresize t hfresh)).1
    · rintro ⟨hlabel, hcontrol⟩ hart - count hcount
      have hlong := hresize t hfresh hlabel hcontrol
      obtain ⟨hentry, -⟩ := List.getElem?_eq_some_iff.mp hcount
      rw [hlabel] at hmove
      rw [hshared, move_resize hmove hcontrol, getElem?_resizeWith, if_pos (by omega), hcount]
      rfl
  · -- A resize of a longer table makes it shorter.
    rintro t hstep - ⟨⟨hlabel, hcontrol⟩, hstale⟩ hkeeps
    have hnext : t.before.next move (t.label.1, .run) = some t.after := by
      rw [← hlabel]
      exact hstep
    obtain ⟨control, shared, hmove, hafter⟩ := Parties.next_eq_some hnext
    have hlength := hkeeps.length
    rw [hafter] at hlength
    dsimp only at hlength
    rw [move_resize hmove hcontrol, length_resizeWith] at hlength
    omega

/-- No hart has called yet, and interrupts are on. -/
def boot : Parties ℕ Control Interrupts := ⟨fun _ => ⟨.idle, 0⟩, [], fun _ => 0x222⟩

/-- The transitions from `boot` along a list of labels. -/
def bootRun (labels : List (ℕ × Label)) :
    List (Transition (Parties ℕ Control Interrupts) (ℕ × Label)) :=
  TransitionSystem.follow (Parties.next move) boot labels

theorem isRun_bootRun (labels : List (ℕ × Label)) : system.IsRun boot (bootRun labels) :=
  TransitionSystem.isRun_follow (fun _ _ _ h => h) _ _

/-- Hart 1 locks, then hart 0, then both unlock: nothing is lost. -/
theorem keeps_iff_of_run_in_turn :
    system.init boot ∧ ∀ t ∈ bootRun (
      [(1, .lock), (1, .run), (1, .run), (1, .run), (1, .run),
        (0, .lock), (0, .run), (0, .run), (0, .run), (1, .unlock), (1, .run), (1, .run),
        (0, .unlock), (0, .run), (0, .run)]), Keeps t := by
  have hinit : system.init boot := ⟨fun _ => rfl, rfl⟩
  exact ⟨hinit, (keeps_iff_of_run hinit (isRun_bootRun _)).mpr (by decide)⟩

/-- Hart 0 checks the table, hart 1 checks it, resizes it and counts its lock, and hart 0 resizes it
again: the table is shorter, and the unlock of hart 1 indexes out of bounds. -/
theorem not_keeps_two_harts :
    let run := bootRun [(0, .lock), (0, .run), (0, .run), (1, .lock), (1, .run), (1, .run), (1, .run),
      (1, .run), (0, .run), (1, .unlock), (1, .run)]
    system.init boot ∧ system.IsRun boot run ∧ (¬ ∀ t ∈ run, Keeps t) ∧
      (∃ t ∈ run, t.before.shared.table = [0, 1] ∧ t.after.shared.table = [0]) ∧
      ∃ t ∈ run, (t.after.control 1).status = .panicked := by
  intro run
  have hinit : system.init boot := ⟨fun _ => rfl, rfl⟩
  have hshorter : ∃ t ∈ run, t.before.shared.table = [0, 1] ∧ t.after.shared.table = [0] := by
    decide
  have hpanicked : ∃ t ∈ run, (t.after.control 1).status = .panicked := by decide
  refine ⟨hinit, isRun_bootRun _, fun hkeeps => ?_, hshorter, hpanicked⟩
  obtain ⟨t, ht, hbefore, hafter⟩ := hshorter
  have hlength := (hkeeps t ht).length
  simp [hbefore, hafter] at hlength

end HartLockCount

end AsyncKernel
