import AsyncKernel.Foundation.Transition
import AsyncKernel.Locks.Spin

/-!
# Reference counts

`arcinject`: handles to a value, or to a part of it, that share one allocation with two counters.
`Arc` has no `Drop`, the clones of `ArcInject` and `WeakInject` copy their pointers, and
`uninject_alloc` copies the handle and then drops the original. So these operations change the
handles and leave the counters as they were, or the other way round.

## Main definitions

* `ArcInner.decStrongAndDrop`, `ArcInner.decWeakAndDrop`: the operations on the counters
* `ArcInject.system`: the operations on the handles of one allocation
* `ArcInject.Counted`: the operations that adjust the counter of the handle

## Main results

* `ArcInject.accurate_iff`: the runs in which the counters are those of the handles
-/

namespace AsyncKernel

/-- The counters of an allocation, and how often its value and itself have been dropped. -/
structure ArcInner where
  strong : ℕ
  weak : ℕ
  dataDrops : ℕ
  selfDrops : ℕ
  deriving DecidableEq, Repr

namespace ArcInner

/-- `ArcInner::new`. -/
def new : ArcInner := ⟨0, 0, 0, 0⟩

variable (inner : ArcInner)

/-- `strong.fetch_add(1)`. -/
def addStrong : ArcInner := { inner with strong := wrappingAdd inner.strong 1 }

/-- `weak.fetch_add(1)`. -/
def addWeak : ArcInner := { inner with weak := wrappingAdd inner.weak 1 }

/-- `drop_data`. -/
def dropData : ArcInner := { inner with dataDrops := inner.dataDrops + 1 }

/-- `drop_self`. -/
def dropSelf : ArcInner := { inner with selfDrops := inner.selfDrops + 1 }

/-- `dec_strong_and_drop`. -/
def decStrongAndDrop : ArcInner :=
  let rest := { inner with strong := wrappingSub inner.strong 1 }
  if inner.strong = 1 then
    let rest := rest.dropData
    if rest.weak = 0 then rest.dropSelf else rest
  else rest

/-- `dec_weak_and_drop`. -/
def decWeakAndDrop : ArcInner :=
  let rest := { inner with weak := wrappingSub inner.weak 1 }
  if inner.weak = 1 then
    let rest := if rest.strong = 0 then rest.dropData else rest
    rest.dropSelf
  else rest

/-- `upgrade`, when nothing comes between its load and its exchange: the counters when it returns a
handle. -/
def upgrade : Option ArcInner := if inner.strong = 0 then none else some inner.addStrong

/-- The allocation has not been freed. -/
def Live : Prop := inner.selfDrops = 0

instance : Decidable inner.Live := inferInstanceAs (Decidable (inner.selfDrops = 0))

variable {inner}

/-- What `dec_strong_and_drop` does. -/
theorem decStrongAndDrop_eq : inner.decStrongAndDrop = {
    strong := wrappingSub inner.strong 1
    weak := inner.weak
    dataDrops := inner.dataDrops + if inner.strong = 1 then 1 else 0
    selfDrops := inner.selfDrops + if inner.strong = 1 ∧ inner.weak = 0 then 1 else 0 } := by
  by_cases hstrong : inner.strong = 1
  · by_cases hweak : inner.weak = 0
    · simp [decStrongAndDrop, dropData, dropSelf, hstrong, hweak]
    · simp [decStrongAndDrop, dropData, hstrong, hweak]
  · simp [decStrongAndDrop, hstrong]

/-- What `dec_weak_and_drop` does. -/
theorem decWeakAndDrop_eq : inner.decWeakAndDrop = {
    strong := inner.strong
    weak := wrappingSub inner.weak 1
    dataDrops := inner.dataDrops + if inner.weak = 1 ∧ inner.strong = 0 then 1 else 0
    selfDrops := inner.selfDrops + if inner.weak = 1 then 1 else 0 } := by
  by_cases hweak : inner.weak = 1
  · by_cases hstrong : inner.strong = 0
    · simp [decWeakAndDrop, dropData, dropSelf, hstrong, hweak]
    · simp [decWeakAndDrop, dropSelf, hstrong, hweak]
  · simp [decWeakAndDrop, hweak]

end ArcInner

namespace ArcInject

/-- The counters and the handles that have not been dropped. -/
structure State where
  inner : ArcInner
  arcs : ℕ
  injects : ℕ
  weaks : ℕ
  deriving DecidableEq, Repr

inductive Label
  /-- `ArcInject::new` -/
  | inject
  | cloneInject
  | downgrade
  | cloneWeak
  | upgrade
  | uninjectAlloc
  | dropArc
  | dropInject
  | dropWeak
  deriving DecidableEq, Repr

/-- There is room for one more handle: every handle is at least as wide as a pointer, and they are
in different places of the memory. -/
def State.Room (s : State) : Prop := s.arcs + s.injects + s.weaks < usizeCard / 8

/-- What an operation needs: the handle that it is called on, and room for the one that it
returns. -/
def Enabled (s : State) : Label → Prop
  | .inject => 0 < s.arcs ∧ s.Room
  | .cloneInject | .downgrade => 0 < s.injects ∧ s.Room
  | .cloneWeak | .upgrade => 0 < s.weaks ∧ s.Room
  | .uninjectAlloc | .dropInject => 0 < s.injects
  | .dropArc => 0 < s.arcs
  | .dropWeak => 0 < s.weaks

/-- What an operation does. -/
def State.apply (s : State) : Label → State
  | .inject => { s with inner := s.inner.addStrong, injects := s.injects + 1 }
  -- `clone` copies the pointers
  | .cloneInject => { s with injects := s.injects + 1 }
  | .downgrade => { s with inner := s.inner.addWeak, weaks := s.weaks + 1 }
  | .cloneWeak => { s with weaks := s.weaks + 1 }
  | .upgrade =>
    match s.inner.upgrade with
    | some inner => { s with inner, injects := s.injects + 1 }
    | none => s
  -- `transmute_copy(&this)`, and then `this` goes out of scope
  | .uninjectAlloc => { s with
      inner := s.inner.decStrongAndDrop
      arcs := s.arcs + 1
      injects := s.injects - 1 }
  -- `Arc` has no `Drop`
  | .dropArc => { s with arcs := s.arcs - 1 }
  | .dropInject => { s with inner := s.inner.decStrongAndDrop, injects := s.injects - 1 }
  | .dropWeak => { s with inner := s.inner.decWeakAndDrop, weaks := s.weaks - 1 }

instance (s : State) : Decidable s.Room :=
  inferInstanceAs (Decidable (s.arcs + s.injects + s.weaks < usizeCard / 8))

instance (s : State) (l : Label) : Decidable (Enabled s l) :=
  match l with
  | .inject | .cloneInject | .downgrade | .cloneWeak | .upgrade =>
    inferInstanceAs (Decidable (_ ∧ _))
  | .uninjectAlloc | .dropInject | .dropArc | .dropWeak => inferInstanceAs (Decidable (0 < _))

/-- The state after an operation, as long as the allocation is live. -/
def next (s : State) (l : Label) : Option State :=
  if s.inner.Live ∧ Enabled s l then some (s.apply l) else none

/-- `Arc::new`. -/
def start : State := ⟨{ ArcInner.new with strong := 1 }, 1, 0, 0⟩

/-- **The operations on the handles of one allocation.** -/
def system : TransitionSystem State Label where
  init s := s = start
  step s l s' := next s l = some s'

/-- The counters are those of the handles. -/
def Accurate (s : State) : Prop := s.inner.strong = s.arcs + s.injects ∧ s.inner.weak = s.weaks

instance (s : State) : Decidable (Accurate s) := inferInstanceAs (Decidable (_ ∧ _))

/-- The operations that adjust the counter of the handle. -/
def Counted : Label → Prop
  | .inject | .downgrade | .upgrade | .dropInject | .dropWeak => True
  | .cloneInject | .cloneWeak | .uninjectAlloc | .dropArc => False

instance : DecidablePred Counted := fun l =>
  match l with
  | .inject | .downgrade | .upgrade | .dropInject | .dropWeak => instDecidableTrue
  | .cloneInject | .cloneWeak | .uninjectAlloc | .dropArc => instDecidableFalse

/-! ## What an operation does to the counters -/

variable {s s' : State} {l : Label}

theorem next_eq_some (h : next s l = some s') : s.inner.Live ∧ Enabled s l ∧ s' = s.apply l := by
  unfold next at h
  split at h
  · rename_i henabled
    exact ⟨henabled.1, henabled.2, (Option.some.inj h).symm⟩
  · cases h

/-- The counters are those of the handles, of which there is an `Arc`, and they fit into memory. -/
structure Consistent (s : State) : Prop where
  accurate : Accurate s
  arcs : 0 < s.arcs
  room : s.arcs + s.injects + s.weaks ≤ usizeCard / 8

theorem consistent_start : Consistent start := by
  refine ⟨⟨rfl, rfl⟩, Nat.one_pos, ?_⟩
  decide

/-- The counters fit into their words, with room for one more. -/
theorem Consistent.lt (h : Consistent s) :
    s.inner.strong + 1 < usizeCard ∧ s.inner.weak + 1 < usizeCard := by
  obtain ⟨⟨hstrong, hweak⟩, -, hroom⟩ := h
  rw [hstrong, hweak]
  simp only [usizeCard] at hroom ⊢
  omega

/-- **An operation that adjusts its counter keeps the counters.** -/
theorem Consistent.apply (h : Consistent s) (henabled : Enabled s l) (hl : Counted l) :
    Consistent (s.apply l) := by
  obtain ⟨hstrong, hweak⟩ := h.lt
  obtain ⟨⟨hs, hw⟩, harcs, hroom⟩ := h
  cases l with
  | cloneInject | cloneWeak | uninjectAlloc | dropArc => cases hl
  | inject =>
    obtain ⟨-, hmore⟩ := henabled
    refine ⟨⟨?_, hw⟩, harcs, ?_⟩
    · simp only [State.apply, ArcInner.addStrong, wrappingAdd_of_lt hstrong]
      omega
    · simp only [State.apply, State.Room] at hmore ⊢
      omega
  | downgrade =>
    obtain ⟨-, hmore⟩ := henabled
    refine ⟨⟨hs, ?_⟩, harcs, ?_⟩
    · simp only [State.apply, ArcInner.addWeak, wrappingAdd_of_lt hweak]
      omega
    · simp only [State.apply, State.Room] at hmore ⊢
      omega
  | upgrade =>
    obtain ⟨-, hmore⟩ := henabled
    -- there is an `Arc`, so there is something to upgrade to
    have hupgrade : s.inner.upgrade = some s.inner.addStrong := if_neg (by omega)
    simp only [State.apply, hupgrade]
    refine ⟨⟨?_, hw⟩, harcs, ?_⟩
    · simp only [ArcInner.addStrong, wrappingAdd_of_lt hstrong]
      omega
    · simp only [State.Room] at hmore ⊢
      omega
  | dropInject =>
    have hinject : 0 < s.injects := henabled
    refine ⟨⟨?_, ?_⟩, harcs, ?_⟩
    · simp only [State.apply, ArcInner.decStrongAndDrop_eq]
      rw [wrappingSub_of_le (by omega) (by omega)]
      omega
    · simp only [State.apply, ArcInner.decStrongAndDrop_eq]
      exact hw
    · simp only [State.apply]
      omega
  | dropWeak =>
    have hhandle : 0 < s.weaks := henabled
    refine ⟨⟨?_, ?_⟩, harcs, ?_⟩
    · simp only [State.apply, ArcInner.decWeakAndDrop_eq]
      exact hs
    · simp only [State.apply, ArcInner.decWeakAndDrop_eq]
      rw [wrappingSub_of_le (by omega) (by omega)]
      omega
    · simp only [State.apply]
      omega

/-- An operation that does not adjust its counter leaves an allocation with wrong counters. -/
theorem Consistent.not_accurate (h : Consistent s) (henabled : Enabled s l) (hlive : s.inner.Live)
    (hl : ¬ Counted l) : (s.apply l).inner.Live ∧ ¬ Accurate (s.apply l) := by
  obtain ⟨hstrong, hweak⟩ := h.lt
  obtain ⟨⟨hs, hw⟩, harcs, hroom⟩ := h
  cases l with
  | inject | downgrade | upgrade | dropInject | dropWeak => exact absurd trivial hl
  | cloneInject =>
    refine ⟨hlive, fun haccurate => ?_⟩
    have hstrong' : s.inner.strong = s.arcs + (s.injects + 1) := haccurate.1
    omega
  | cloneWeak =>
    refine ⟨hlive, fun haccurate => ?_⟩
    have hweak' : s.inner.weak = s.weaks + 1 := haccurate.2
    omega
  | uninjectAlloc =>
    have hinject : 0 < s.injects := henabled
    simp only [State.apply, Accurate, ArcInner.Live, ArcInner.decStrongAndDrop_eq]
    refine ⟨?_, fun haccurate => ?_⟩
    · -- the `Arc` and the handle that is converted have both been counted
      rw [if_neg (by omega)]
      exact hlive
    · have hstrong' := haccurate.1
      rw [wrappingSub_of_le (by omega) (by omega)] at hstrong'
      omega
  | dropArc =>
    refine ⟨hlive, fun haccurate => ?_⟩
    have hstrong' : s.inner.strong = s.arcs - 1 + s.injects := haccurate.1
    omega

/-- **The runs in which the counters are those of the handles**: those without a drop of an `Arc`, a
clone or `uninject_alloc`. -/
theorem accurate_iff {run : List (Transition State Label)} (h : system.IsRun start run) :
    (∀ t ∈ run, (t.before.inner.Live → Accurate t.before) ∧
      (t.after.inner.Live → Accurate t.after)) ↔ ∀ t ∈ run, Counted t.label := by
  refine (h.forall_good_iff Consistent consistent_start ?_ ?_ ?_).trans
    (forall₂_congr fun _ _ => not_not)
  · intro t hstep hbefore hcounted
    obtain ⟨-, henabled, hafter⟩ := next_eq_some hstep
    rw [hafter]
    exact hbefore.apply henabled (not_not.mp hcounted)
  · intro t _ hbefore hafter _
    exact ⟨fun _ => hbefore.accurate, fun _ => hafter.accurate⟩
  · intro t hstep hbefore hl haccurate
    obtain ⟨hlive, henabled, hafter⟩ := next_eq_some hstep
    obtain ⟨hlive', hnot⟩ := hbefore.not_accurate henabled hlive hl
    rw [← hafter] at hlive' hnot
    exact hnot (haccurate.2 hlive')

/-- The transitions of a new allocation along a list of operations. -/
def startRun (labels : List Label) : List (Transition State Label) :=
  TransitionSystem.follow next start labels

theorem isRun_startRun (labels : List Label) : system.IsRun start (startRun labels) :=
  TransitionSystem.isRun_follow (fun _ _ _ h => h) _ _

/-- A handle is downgraded and dropped, and upgraded again. -/
theorem accurate_iff_upgraded :
    let run := startRun [.inject, .downgrade, .dropInject, .upgrade, .dropWeak]
    run.length = 5 ∧ ∀ t ∈ run, (t.before.inner.Live → Accurate t.before) ∧
      (t.after.inner.Live → Accurate t.after) := by
  intro run
  have hlength : run.length = 5 := by decide
  exact ⟨hlength, (accurate_iff (isRun_startRun _)).mpr (by decide)⟩

/-- A handle is cloned: there are three strong handles, and the counter is 2. -/
theorem not_accurate_clone :
    let run := startRun [.inject, .cloneInject]
    system.IsRun start run ∧
      (∃ t ∈ run, t.after.inner.Live ∧ t.after.inner.strong = 2 ∧ t.after.arcs = 1 ∧
        t.after.injects = 2) ∧
      ¬ ∀ t ∈ run, (t.before.inner.Live → Accurate t.before) ∧
        (t.after.inner.Live → Accurate t.after) := by
  intro run
  have hcloned : ∃ t ∈ run, t.after.inner.Live ∧ t.after.inner.strong = 2 ∧ t.after.arcs = 1 ∧
      t.after.injects = 2 := by decide
  refine ⟨isRun_startRun _, hcloned, fun haccurate => ?_⟩
  obtain ⟨t, ht, hlive, hstrong, harcs, hinjects⟩ := hcloned
  have hcount := ((haccurate t ht).2 hlive).1
  rw [hstrong, harcs, hinjects] at hcount
  cases hcount

end ArcInject

end AsyncKernel
