import AsyncKernel.ArcInject.Counts

/-!
# Destruction

The last strong handle drops the value, and the allocation with it when there is no weak handle. The
last weak handle drops the allocation whatever the counter of the strong handles is, and the value
once more when that is zero. So the destruction is right as long as no weak handle is the last one
to be dropped of its kind.

## Main definitions

* `ArcInject.Destroy.system`: the operations on accurate counters; an operation on an allocation that
  has been freed is recorded
* `ArcInject.Destroy.Sound`: nothing is destroyed twice or too early by a step
* `ArcInject.Destroy.LastWeak`: the last weak handle is dropped

## Main results

* `ArcInject.Destroy.sound_iff`: the runs in which nothing is destroyed twice or too early
-/

namespace AsyncKernel

namespace ArcInject.Destroy

/-- The counters and the handles that have not been dropped. -/
structure State where
  inner : ArcInner
  strongs : ℕ
  weaks : ℕ
  /-- an operation has been called after the allocation was freed -/
  touched : Bool
  deriving DecidableEq, Repr

inductive Label
  /-- `ArcInject::new` -/
  | inject
  | downgrade
  | upgrade
  | decStrongAndDrop
  | decWeakAndDrop
  deriving DecidableEq, Repr

/-- There is room for one more handle. -/
def State.Room (s : State) : Prop := s.strongs + s.weaks < usizeCard / 8

/-- What an operation needs: the handle that it is called on, and room for the one that it
returns. -/
def Enabled (s : State) : Label → Prop
  | .inject | .downgrade => 0 < s.strongs ∧ s.Room
  | .upgrade => 0 < s.weaks ∧ s.Room
  | .decStrongAndDrop => 0 < s.strongs
  | .decWeakAndDrop => 0 < s.weaks

/-- What an operation does. -/
def State.apply (s : State) : Label → State
  | .inject => { s with inner := s.inner.addStrong, strongs := s.strongs + 1 }
  | .downgrade => { s with inner := s.inner.addWeak, weaks := s.weaks + 1 }
  | .upgrade =>
    match s.inner.upgrade with
    | some inner => { s with inner, strongs := s.strongs + 1 }
    | none => s
  | .decStrongAndDrop => { s with inner := s.inner.decStrongAndDrop, strongs := s.strongs - 1 }
  | .decWeakAndDrop => { s with inner := s.inner.decWeakAndDrop, weaks := s.weaks - 1 }

instance (s : State) : Decidable s.Room :=
  inferInstanceAs (Decidable (s.strongs + s.weaks < usizeCard / 8))

instance (s : State) (l : Label) : Decidable (Enabled s l) :=
  match l with
  | .inject | .downgrade | .upgrade => inferInstanceAs (Decidable (_ ∧ _))
  | .decStrongAndDrop | .decWeakAndDrop => inferInstanceAs (Decidable (0 < _))

/-- The state after an operation. What happens after an operation on an allocation that has been
freed is undefined. -/
def next (s : State) (l : Label) : Option State :=
  if Enabled s l ∧ s.touched = false then
    if s.inner.Live then some (s.apply l) else some { s with touched := true }
  else none

/-- Accurate counters, of at least one strong handle. -/
structure Start (s : State) : Prop where
  strong : s.inner.strong = s.strongs
  weak : s.inner.weak = s.weaks
  strongs : 0 < s.strongs
  room : s.strongs + s.weaks ≤ usizeCard / 8
  dataDrops : s.inner.dataDrops = 0
  selfDrops : s.inner.selfDrops = 0
  touched : s.touched = false

/-- **The operations on an allocation with accurate counters.** -/
def system : TransitionSystem State Label where
  init := Start
  step s l s' := next s l = some s'

/-- The value is dropped once, with the last strong handle; the allocation is dropped once, with the
last handle; no operation touches it afterwards; and an upgrade succeeds when the counter of strong
handles is positive. -/
structure Sound (t : Transition State Label) : Prop where
  data_once : t.after.inner.dataDrops ≤ 1
  data_last : t.after.inner.dataDrops ≠ t.before.inner.dataDrops →
    t.label = .decStrongAndDrop ∧ t.after.strongs = 0
  self_once : t.after.inner.selfDrops ≤ 1
  self_last : t.after.inner.selfDrops ≠ t.before.inner.selfDrops →
    t.after.strongs = 0 ∧ t.after.weaks = 0
  untouched : t.after.touched = false
  upgrade : t.label = .upgrade →
    (t.after.strongs = t.before.strongs + 1 ↔ 0 < t.before.inner.strong)

/-- The last weak handle is dropped. -/
def LastWeak (s : State) (l : Label) : Prop := l = .decWeakAndDrop ∧ s.inner.weak = 1

instance (s : State) (l : Label) : Decidable (LastWeak s l) := inferInstanceAs (Decidable (_ ∧ _))

/-! ## The runs -/

variable {s s' : State} {l : Label}

theorem next_eq_some (h : next s l = some s') : Enabled s l ∧ s.touched = false ∧
    (s.inner.Live → s' = s.apply l) ∧ (¬ s.inner.Live → s'.touched = true) := by
  unfold next at h
  split at h
  · rename_i henabled
    refine ⟨henabled.1, henabled.2, fun hlive => ?_, fun hlive => ?_⟩
    · rw [if_pos hlive] at h
      exact (Option.some.inj h).symm
    · rw [if_neg hlive] at h
      obtain rfl := Option.some.inj h
      rfl
  · cases h

/-- The counters are those of the handles, and what has been dropped is what has no handles. -/
structure Consistent (s : State) : Prop where
  strong : s.inner.strong = s.strongs
  weak : s.inner.weak = s.weaks
  room : s.strongs + s.weaks ≤ usizeCard / 8
  dataDrops : s.inner.dataDrops = if s.strongs = 0 then 1 else 0
  selfDrops : s.inner.selfDrops = if s.strongs = 0 ∧ s.weaks = 0 then 1 else 0
  touched : s.touched = false

theorem Start.consistent (h : Start s) : Consistent s where
  strong := h.strong
  weak := h.weak
  room := h.room
  dataDrops := by rw [if_neg h.strongs.ne', h.dataDrops]
  selfDrops := by rw [if_neg fun hnone => h.strongs.ne' hnone.1, h.selfDrops]
  touched := h.touched

/-- Whoever has a handle has a live allocation. -/
theorem Consistent.live (h : Consistent s) (henabled : Enabled s l) : s.inner.Live := by
  have hhandle : 0 < s.strongs ∨ 0 < s.weaks := by
    cases l with
    | inject | downgrade => exact Or.inl henabled.1
    | upgrade => exact Or.inr henabled.1
    | decStrongAndDrop => exact Or.inl henabled
    | decWeakAndDrop => exact Or.inr henabled
  rw [ArcInner.Live, h.selfDrops, if_neg]
  omega

/-- **An operation keeps the counters**, unless it drops the last weak handle. -/
theorem Consistent.apply (h : Consistent s) (henabled : Enabled s l) (hl : ¬ LastWeak s l) :
    Consistent (s.apply l) := by
  obtain ⟨hstrong, hweak, hroom, hdata, hself, htouched⟩ := h
  have hwords : s.strongs + 1 < usizeCard ∧ s.weaks + 1 < usizeCard := by
    simp only [usizeCard] at hroom ⊢
    omega
  cases l with
  | inject =>
    obtain ⟨hhandle, hmore⟩ := henabled
    constructor
    · simp only [State.apply, ArcInner.addStrong, wrappingAdd_of_lt hwords.1, hstrong]
    · exact hweak
    · simp only [State.apply, State.Room] at hmore ⊢
      omega
    · simpa [State.apply, ArcInner.addStrong, hhandle.ne'] using hdata
    · simpa [State.apply, ArcInner.addStrong, hhandle.ne'] using hself
    · exact htouched
  | downgrade =>
    obtain ⟨hhandle, hmore⟩ := henabled
    constructor
    · exact hstrong
    · simp only [State.apply, ArcInner.addWeak, wrappingAdd_of_lt hwords.2, hweak]
    · simp only [State.apply, State.Room] at hmore ⊢
      omega
    · exact hdata
    · simpa [State.apply, ArcInner.addWeak, hhandle.ne'] using hself
    · exact htouched
  | upgrade =>
    obtain ⟨hhandle, hmore⟩ := henabled
    by_cases hzero : s.inner.strong = 0
    · have hupgrade : s.inner.upgrade = none := if_pos hzero
      simp only [State.apply, hupgrade]
      exact ⟨hstrong, hweak, hroom, hdata, hself, htouched⟩
    · have hupgrade : s.inner.upgrade = some s.inner.addStrong := if_neg hzero
      rw [hstrong] at hzero
      simp only [State.apply, hupgrade]
      constructor
      · simp only [ArcInner.addStrong, wrappingAdd_of_lt hwords.1, hstrong]
      · exact hweak
      · simp only [State.Room] at hmore ⊢
        omega
      · simpa [ArcInner.addStrong, hzero] using hdata
      · simpa [ArcInner.addStrong, hzero] using hself
      · exact htouched
  | decStrongAndDrop =>
    have hhandle : 0 < s.strongs := henabled
    have hlast : s.strongs - 1 = 0 ↔ s.strongs = 1 := by omega
    constructor
    · simp only [State.apply, ArcInner.decStrongAndDrop_eq]
      rw [hstrong, wrappingSub_of_le (by omega) (by omega)]
    · simp only [State.apply, ArcInner.decStrongAndDrop_eq, hweak]
    · simp only [State.apply]
      omega
    · simp [State.apply, ArcInner.decStrongAndDrop_eq, hdata, hhandle.ne', hstrong, hlast]
    · simp [State.apply, ArcInner.decStrongAndDrop_eq, hself, hhandle.ne', hstrong, hweak, hlast]
    · exact htouched
  | decWeakAndDrop =>
    have hhandle : 0 < s.weaks := henabled
    have hnot : s.inner.weak ≠ 1 := fun hweak => hl ⟨rfl, hweak⟩
    have hmore : s.weaks - 1 ≠ 0 := by omega
    constructor
    · simp only [State.apply, ArcInner.decWeakAndDrop_eq, hstrong]
    · simp only [State.apply, ArcInner.decWeakAndDrop_eq]
      rw [hweak, wrappingSub_of_le (by omega) (by omega)]
    · simp only [State.apply]
      omega
    · simp [State.apply, ArcInner.decWeakAndDrop_eq, hdata, hnot]
    · simp [State.apply, ArcInner.decWeakAndDrop_eq, hself, hnot, hhandle.ne', hmore]
    · exact htouched

/-- Only the drop of a strong handle makes the last one of them go. -/
theorem apply_strongs_eq_zero_iff (henabled : Enabled s l) (hl : l ≠ .decStrongAndDrop)
    (hstrong : s.inner.strong = s.strongs) : (s.apply l).strongs = 0 ↔ s.strongs = 0 := by
  cases l with
  | inject => simp [State.apply, henabled.1.ne']
  | downgrade | decWeakAndDrop => rfl
  | upgrade =>
    by_cases hzero : s.inner.strong = 0
    · simp [State.apply, ArcInner.upgrade, hzero]
    · simp [State.apply, ArcInner.upgrade, hzero, ← hstrong]
  | decStrongAndDrop => exact absurd rfl hl

/-- What an operation destroys has no handles any more. -/
theorem Consistent.sound (h : Consistent s) (henabled : Enabled s l) (hl : ¬ LastWeak s l) :
    Sound ⟨s, l, s.apply l⟩ := by
  have hafter := h.apply henabled hl
  constructor
  · rw [hafter.dataDrops]
    split <;> simp
  · intro hne
    dsimp only at hne ⊢
    rw [h.dataDrops, hafter.dataDrops] at hne
    by_cases hdec : l = .decStrongAndDrop
    · refine ⟨hdec, ?_⟩
      subst hdec
      have hhandle : 0 < s.strongs := henabled
      rw [if_neg hhandle.ne'] at hne
      by_contra hmore
      exact hne (if_neg hmore)
    · exact absurd (if_congr (apply_strongs_eq_zero_iff henabled hdec h.strong) rfl rfl) hne
  · rw [hafter.selfDrops]
    split <;> simp
  · intro hne
    dsimp only at hne ⊢
    rw [h.live henabled, hafter.selfDrops] at hne
    by_contra hmore
    exact hne (if_neg hmore)
  · exact hafter.touched
  · rintro rfl
    by_cases hzero : s.inner.strong = 0
    · simp [State.apply, ArcInner.upgrade, hzero]
    · simp [State.apply, ArcInner.upgrade, hzero, Nat.pos_of_ne_zero hzero]

/-- The drop of the last weak handle is not sound: either there are strong handles to the allocation
that it frees, or it drops the value a second time. -/
theorem Consistent.not_sound (h : Consistent s) (hl : LastWeak s l) :
    ¬ Sound ⟨s, l, s.apply l⟩ := by
  obtain ⟨rfl, hweak⟩ := hl
  intro hsound
  have hself : (s.apply .decWeakAndDrop).inner.selfDrops ≠ s.inner.selfDrops := by
    simp [State.apply, ArcInner.decWeakAndDrop_eq, hweak]
  have hstrongs : s.strongs = 0 := (hsound.self_last hself).1
  have hdata : (s.apply .decWeakAndDrop).inner.dataDrops ≠ s.inner.dataDrops := by
    simp [State.apply, ArcInner.decWeakAndDrop_eq, hweak, h.strong, hstrongs]
  cases (hsound.data_last hdata).1

/-- What a step does to an accurate allocation. -/
theorem Consistent.next (h : Consistent s) (hnext : next s l = some s') :
    Enabled s l ∧ s' = s.apply l := by
  obtain ⟨henabled, -, hlive, -⟩ := next_eq_some hnext
  exact ⟨henabled, hlive (h.live henabled)⟩

/-- **The runs in which nothing is destroyed twice or too early**: those in which no weak handle is
dropped while the counter of the weak handles is one. -/
theorem sound_iff {run : List (Transition State Label)} (hstart : Start s)
    (h : system.IsRun s run) : (∀ t ∈ run, Sound t) ↔ ∀ t ∈ run, ¬ LastWeak t.before t.label := by
  refine h.forall_good_iff Consistent hstart.consistent ?_ ?_ ?_
  · rintro ⟨before, label, after⟩ hstep hbefore hlast
    obtain ⟨henabled, hafter⟩ := hbefore.next hstep
    obtain rfl : after = before.apply label := hafter
    exact hbefore.apply henabled hlast
  · rintro ⟨before, label, after⟩ hstep hbefore - hlast
    obtain ⟨henabled, hafter⟩ := hbefore.next hstep
    obtain rfl : after = before.apply label := hafter
    exact hbefore.sound henabled hlast
  · rintro ⟨before, label, after⟩ hstep hbefore hlast
    obtain rfl : after = before.apply label := (hbefore.next hstep).2
    exact hbefore.not_sound hlast

/-- A value with one strong handle. -/
def oneHandle : State := ⟨⟨1, 0, 0, 0⟩, 1, 0, false⟩

theorem oneHandle_start : Start oneHandle := ⟨rfl, rfl, Nat.one_pos, by decide, rfl, rfl, rfl⟩

/-- The transitions from `oneHandle` along a list of operations. -/
def oneHandleRun (labels : List Label) : List (Transition State Label) :=
  TransitionSystem.follow next oneHandle labels

theorem isRun_oneHandleRun (labels : List Label) :
    system.IsRun oneHandle (oneHandleRun labels) :=
  TransitionSystem.isRun_follow (fun _ _ _ h => h) _ _

/-- The value is dropped while there are two weak handles, of which one is dropped. -/
theorem sound_iff_two_weak :
    let run := oneHandleRun [.downgrade, .downgrade, .upgrade, .decStrongAndDrop, .decStrongAndDrop,
      .upgrade, .decWeakAndDrop]
    Start oneHandle ∧ run.length = 7 ∧ ∀ t ∈ run, Sound t := by
  intro run
  have hlength : run.length = 7 := by decide
  exact ⟨oneHandle_start, hlength,
    (sound_iff oneHandle_start (isRun_oneHandleRun _)).mpr (by decide)⟩

/-- A weak handle is dropped while there is a strong one: the allocation is freed, and the drop of the
strong handle touches it. -/
theorem not_sound_weak_first :
    let run := oneHandleRun [.downgrade, .decWeakAndDrop, .decStrongAndDrop]
    Start oneHandle ∧ system.IsRun oneHandle run ∧
      (∃ t ∈ run, t.label = .decWeakAndDrop ∧ t.after.inner.selfDrops = 1 ∧ t.after.strongs = 1) ∧
      (∃ t ∈ run, t.label = .decStrongAndDrop ∧ t.after.touched = true) ∧ ¬ ∀ t ∈ run, Sound t := by
  intro run
  have hfreed : ∃ t ∈ run, t.label = .decWeakAndDrop ∧ t.after.inner.selfDrops = 1 ∧
      t.after.strongs = 1 := by decide
  have htouched : ∃ t ∈ run, t.label = .decStrongAndDrop ∧ t.after.touched = true := by decide
  refine ⟨oneHandle_start, isRun_oneHandleRun _, hfreed, htouched, fun hsound => ?_⟩
  obtain ⟨t, ht, -, htouch⟩ := htouched
  rw [(hsound t ht).untouched] at htouch
  cases htouch

end ArcInject.Destroy

end AsyncKernel
