import AsyncKernel.Foundation.Transition

/-!
# A loop that polls when it has been woken

A loop drives one machine. A flag says that the machine asks to be polled; the loop takes the flag,
polls the machine when it was set, and goes idle for a while otherwise. What happens to the machine
from outside happens between any two steps of the loop, and may set the flag.

A machine is quiet when there is nothing to do and it is going to set the flag once there is. The
loop may go idle on a quiet machine only, and the rule says when it does.

## Main definitions

* `WakeLoop.Machine`: what a poll and an event do to a machine, and whether they set the flag
* `WakeLoop.next`, `WakeLoop.system`: the loop
* `WakeLoop.Notifies`: a machine that sets the flag whenever it ceases to be quiet
* `WakeLoop.Asks`: the events that make a machine ask for a poll

## Main results

* `WakeLoop.awake_before`: the flag is set or the machine is quiet, wherever the loop does not poll
* `WakeLoop.exists_poll`: a machine that asks for a poll is polled within two turns of the loop
* `WakeLoop.idle_iff`: the runs in which the loop does not go idle on a machine that asks for a poll
-/

namespace WakeLoop

variable {S L : Type}

/-- A machine with its polls and the events from outside. With the new state they give whether the
flag has been set. A poll without a result does not return, and an event without one cannot happen. -/
structure Machine (S L : Type) where
  poll : S → Option (S × Bool)
  event : S → L → Option (S × Bool)

/-- Where the loop is. -/
inductive Control
  /-- before it takes the flag -/
  | checking
  /-- the flag was set -/
  | polling
  /-- the flag was not set -/
  | idling
  /-- in a poll that does not return -/
  | stuck
  deriving DecidableEq, Repr

/-- The flag, the loop and the machine. -/
structure State (S : Type) where
  flag : Bool
  control : Control
  machine : S
  deriving DecidableEq, Repr

inductive Label (L : Type)
  | swap
  | poll
  | idle
  | event (l : L)
  deriving DecidableEq, Repr

/-- A step of the loop, or an event. -/
def next (m : Machine S L) (s : State S) : Label L → Option (State S)
  | .swap =>
    if s.control = .checking then
      some { s with flag := false, control := if s.flag then .polling else .idling }
    else none
  | .poll =>
    if s.control = .polling then
      match m.poll s.machine with
      | some (machine, woken) => some ⟨s.flag || woken, .checking, machine⟩
      | none => some { s with control := .stuck }
    else none
  | .idle => if s.control = .idling then some { s with control := .checking } else none
  | .event l =>
    if s.control = .stuck then none
    else (m.event s.machine l).map fun r => { s with flag := s.flag || r.2, machine := r.1 }

/-- **The loop**, from a flag that is set. -/
def system (m : Machine S L) (init : S → Prop) : TransitionSystem (State S) (Label L) where
  init s := s.flag = true ∧ s.control = .checking ∧ init s.machine
  step s l s' := next m s l = some s'

variable {m : Machine S L} {init : S → Prop} {Quiet : S → Prop} {s s' : State S}

/-- What a step can do. -/
inductive Steps (m : Machine S L) (s : State S) : Label L → State S → Prop
  | taken (hcontrol : s.control = .checking) (hflag : s.flag = true) :
    Steps m s .swap { s with flag := false, control := .polling }
  | refused (hcontrol : s.control = .checking) (hflag : s.flag = false) :
    Steps m s .swap { s with flag := false, control := .idling }
  | polled {machine : S} {woken : Bool} (hcontrol : s.control = .polling)
      (hpoll : m.poll s.machine = some (machine, woken)) :
    Steps m s .poll ⟨s.flag || woken, .checking, machine⟩
  | stuck (hcontrol : s.control = .polling) (hpoll : m.poll s.machine = none) :
    Steps m s .poll { s with control := .stuck }
  | idled (hcontrol : s.control = .idling) : Steps m s .idle { s with control := .checking }
  | event {machine : S} {woken : Bool} {l : L} (hcontrol : s.control ≠ .stuck)
      (hevent : m.event s.machine l = some (machine, woken)) :
    Steps m s (.event l) { s with flag := s.flag || woken, machine }

theorem steps_of_next {l : Label L} (h : next m s l = some s') : Steps m s l s' := by
  cases l with
  | swap =>
    obtain ⟨hcontrol, h⟩ := Option.ite_none_right_eq_some.mp h
    obtain rfl := Option.some.inj h
    cases hflag : s.flag with
    | true => exact .taken hcontrol hflag
    | false => exact .refused hcontrol hflag
  | poll =>
    obtain ⟨hcontrol, h⟩ := Option.ite_none_right_eq_some.mp h
    split at h
    · rename_i machine woken hpoll
      obtain rfl := Option.some.inj h
      exact .polled hcontrol hpoll
    · rename_i hpoll
      obtain rfl := Option.some.inj h
      exact .stuck hcontrol hpoll
  | idle =>
    obtain ⟨hcontrol, h⟩ := Option.ite_none_right_eq_some.mp h
    obtain rfl := Option.some.inj h
    exact .idled hcontrol
  | event l =>
    obtain ⟨hcontrol, h⟩ := Option.ite_none_left_eq_some.mp h
    obtain ⟨⟨machine, woken⟩, hevent, rfl⟩ := Option.map_eq_some_iff.mp h
    exact .event hcontrol hevent

/-- **A machine that sets the flag whenever it ceases to be quiet**: it is quiet after a poll that
has not set the flag, and stays so under events that do not set it. -/
structure Notifies (m : Machine S L) (Quiet : S → Prop) : Prop where
  poll : ∀ s s', m.poll s = some (s', false) → Quiet s'
  event : ∀ s l s', Quiet s → m.event s l = some (s', false) → Quiet s'

/-- The loop is between two polls. -/
def Resting (s : State S) : Prop := s.control = .checking ∨ s.control = .idling

/-- Between two polls the flag is set, or the machine is quiet. -/
def Awake (Quiet : S → Prop) (s : State S) : Prop := Resting s → s.flag = true ∨ Quiet s.machine

/-- A flag that an event or a poll has set, or not. -/
theorem flag_or {flag woken : Bool} {s' : S} (h : woken = false → flag = true ∨ Quiet s') :
    (flag || woken) = true ∨ Quiet s' := by
  cases woken with
  | true => exact Or.inl (Bool.or_true flag)
  | false => simpa using h rfl

theorem Awake.next (hm : Notifies m Quiet) {l : Label L} (h : Awake Quiet s)
    (hstep : next m s l = some s') : Awake Quiet s' := by
  intro hresting
  cases steps_of_next hstep with
  | taken hcontrol hflag => simp [Resting] at hresting
  | refused hcontrol hflag =>
    -- the flag was not set, so the machine is quiet
    refine Or.inr ((h (Or.inl hcontrol)).resolve_left ?_)
    simp [hflag]
  | polled hcontrol hpoll =>
    refine flag_or fun hwoken => Or.inr ?_
    subst hwoken
    exact hm.poll _ _ hpoll
  | stuck hcontrol hpoll => simp [Resting] at hresting
  | idled hcontrol => exact h (Or.inr hcontrol)
  | event hcontrol hevent =>
    refine flag_or fun hwoken => ?_
    subst hwoken
    exact (h hresting).imp_right fun hquiet => hm.event _ _ _ hquiet hevent

/-- **No request is lost**: between two polls the flag is set, or the machine is quiet. -/
theorem awake_before (hm : Notifies m Quiet) {l₁ l₂ : List (Transition (State S) (Label L))}
    {t : Transition (State S) (Label L)} (hinit : (system m init).init s)
    (h : (system m init).IsRun s (l₁ ++ t :: l₂)) : Awake Quiet t.before :=
  h.before (fun _ => Or.inl hinit.1) fun _ _ hawake hstep => hawake.next hm hstep

/-- The loop has the flag set before it, or is about to poll. -/
def Called (s : State S) : Prop := Resting s → s.flag = true

/-- Until the next poll the loop keeps the flag, or polls. -/
theorem Called.next {l : Label L} (h : Called s) (hl : l ≠ .poll) (hstep : next m s l = some s') :
    Called s' := by
  intro hresting
  cases steps_of_next hstep with
  | taken hcontrol hflag => simp [Resting] at hresting
  | refused hcontrol hflag => simp [h (Or.inl hcontrol)] at hflag
  | polled hcontrol hpoll => exact absurd rfl hl
  | stuck hcontrol hpoll => exact absurd rfl hl
  | idled hcontrol => exact h (Or.inr hcontrol)
  | event hcontrol hevent => simp [h hresting]

/-- A loop that takes the flag it was called with polls. -/
theorem Called.not_resting (h : Called s) (hstep : WakeLoop.next m s .swap = some s') :
    ¬ Resting s' := by
  cases steps_of_next hstep with
  | taken hcontrol hflag => simp [Resting]
  | refused hcontrol hflag => simp [h (Or.inl hcontrol)] at hflag

theorem not_resting_next {l : Label L} (h : ¬ Resting s) (hl : l ≠ .poll)
    (hstep : next m s l = some s') : ¬ Resting s' := by
  cases steps_of_next hstep with
  | taken hcontrol hflag => exact absurd (Or.inl hcontrol) h
  | refused hcontrol hflag => exact absurd (Or.inl hcontrol) h
  | polled hcontrol hpoll => exact absurd rfl hl
  | stuck hcontrol hpoll => exact absurd rfl hl
  | idled hcontrol => exact absurd (Or.inr hcontrol) h
  | event hcontrol hevent => exact h

/-- **A machine that asks for a poll is polled within two turns of the loop**: before the loop looks at
the flag for the second time. -/
theorem exists_poll {l₁ l₂ l₃ : List (Transition (State S) (Label L))}
    {t₁ t₂ : Transition (State S) (Label L)} (hcalled : Called s)
    (h : (system m init).IsRun s (l₁ ++ t₁ :: (l₂ ++ t₂ :: l₃))) (h₁ : t₁.label = .swap)
    (h₂ : t₂.label = .swap) : ∃ t ∈ l₁ ++ l₂, t.label = .poll := by
  by_contra! hnone
  -- without a poll the first look at the flag leads to a poll that is never made
  have hbefore : Called t₁.before := h.before hcalled fun u hu hI hstep =>
    hI.next (hnone u (List.mem_append_left _ hu)) hstep
  have ht₁ : next m t₁.before .swap = some t₁.after :=
    h₁ ▸ h.step (List.mem_append_right _ List.mem_cons_self)
  have hrest : ¬ Resting t₂.before := h.after.before (I := fun s => ¬ Resting s)
    (hbefore.not_resting ht₁) fun u hu hI hstep =>
      not_resting_next hI (hnone u (List.mem_append_right _ hu)) hstep
  have ht₂ : next m t₂.before .swap = some t₂.after :=
    h₂ ▸ h.after.step (List.mem_append_right _ List.mem_cons_self)
  exact hrest (Or.inl (Option.ite_none_right_eq_some.mp ht₂).1)

/-! ## Idling -/

/-- The events that make the machine ask for a poll, and only these disturb a quiet machine. -/
structure Asks (m : Machine S L) (Quiet Asking : S → Prop) (calls : L → Prop) : Prop where
  quiet : ∀ s, Quiet s → ¬ Asking s
  keeps : ∀ s l r, Quiet s → ¬ calls l → m.event s l = some r → Quiet r.1
  asks : ∀ s l r, calls l → m.event s l = some r → Asking r.1

variable {Asking : S → Prop} {calls : L → Prop}

/-- The loop is about to go idle on a machine that asks for a poll. -/
def Oversleeps (Asking : S → Prop) (s : State S) : Prop := s.control = .idling ∧ Asking s.machine

/-- An event makes the machine ask for a poll after the flag was found clear. -/
def Late (calls : L → Prop) (t : Transition (State S) (Label L)) : Prop :=
  t.before.control = .idling ∧ ∃ l, t.label = .event l ∧ calls l

/-- What an event does to the loop and to the machine. -/
theorem next_event {l : L} (h : next m s (.event l) = some s') :
    s'.control = s.control ∧ ∃ r, m.event s.machine l = some r ∧ r.1 = s'.machine := by
  cases steps_of_next h with
  | event hcontrol hevent => exact ⟨rfl, _, hevent, rfl⟩

theorem Late.oversleeps (ha : Asks m Quiet Asking calls) {t : Transition (State S) (Label L)}
    (h : Late calls t) (hstep : next m t.before t.label = some t.after) :
    Oversleeps Asking t.after := by
  obtain ⟨hidling, l, hl, hcalls⟩ := h
  rw [hl] at hstep
  obtain ⟨hcontrol, r, hevent, hmachine⟩ := next_event hstep
  refine ⟨hcontrol.trans hidling, ?_⟩
  rw [← hmachine]
  exact ha.asks _ _ _ hcalls hevent

/-- The machine is quiet when the loop is about to go idle. -/
def IdlesQuiet (Quiet : S → Prop) (s : State S) : Prop := s.control = .idling → Quiet s.machine

/-- A step that is not late leaves the loop idle on a quiet machine only. -/
theorem IdlesQuiet.next (ha : Asks m Quiet Asking calls) {l : Label L} (hawake : Awake Quiet s)
    (h : IdlesQuiet Quiet s) (hlate : s.control = .idling → ∀ e, l = .event e → ¬ calls e)
    (hstep : next m s l = some s') : IdlesQuiet Quiet s' := by
  intro hidling
  cases steps_of_next hstep with
  | refused hcontrol hflag =>
    -- the flag was not set, so the machine was quiet
    exact (hawake (Or.inl hcontrol)).resolve_left (by simp [hflag])
  | event hcontrol hevent => exact ha.keeps _ _ _ (h hidling) (hlate hidling _ rfl) hevent
  | taken hcontrol hflag => cases hidling
  | polled hcontrol hpoll => cases hidling
  | stuck hcontrol hpoll => cases hidling
  | idled hcontrol => cases hidling

/-- **The runs in which the loop does not go idle on a machine that asks for a poll**: those in which
no event makes it ask between the moment the flag was found clear and the idling. -/
theorem idle_iff (hm : Notifies m Quiet) (ha : Asks m Quiet Asking calls)
    {run : List (Transition (State S) (Label L))} (hinit : (system m init).init s)
    (h : (system m init).IsRun s run) :
    (∀ t ∈ run, ¬ Oversleeps Asking t.after) ↔ ∀ t ∈ run, ¬ Late calls t := by
  have hidle : IdlesQuiet Quiet s := by
    intro hidling
    rw [hinit.2.1] at hidling
    cases hidling
  refine h.forall_good_iff (fun s => Awake Quiet s ∧ IdlesQuiet Quiet s)
    ⟨fun _ => Or.inl hinit.1, hidle⟩ ?_ ?_ ?_
  · rintro t hstep ⟨hawake, hquiet⟩ hlate
    exact ⟨hawake.next hm hstep, hquiet.next ha hawake
      (fun hidling e he hcalls => hlate ⟨hidling, e, he, hcalls⟩) hstep⟩
  · rintro t - - ⟨-, hquiet⟩ - ⟨hidling, hasking⟩
    exact ha.quiet _ (hquiet hidling) hasking
  · exact fun t hstep _ hlate hgood => hgood (hlate.oversleeps ha hstep)

end WakeLoop
