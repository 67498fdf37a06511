import Mathlib.Tactic

/-!
# Transition systems

Labelled transition systems, the states they reach and the runs they take. A run is the list of its
transitions, each with the states before and after it, so that a property of runs can speak of every
state that is passed.

## Main definitions

* `TransitionSystem S L`: initial states and labelled steps
* `TransitionSystem.Reachable`: the states of the runs from an initial state
* `TransitionSystem.IsRun`: a list of transitions, each from where the one before it ended
* `TransitionSystem.follow`: the run along a list of labels
* `TransitionSystem.restrict`: the steps that meet a condition
* `TransitionSystem.Separated`: some transitions of a run are separated by others
* `Transition.map`: a transition seen through a map of states

## Main results

* `TransitionSystem.Reachable.invariant`: what holds initially and is kept by every step holds of
  every reachable state
* `TransitionSystem.Reachable.foldlM`: a list of labels that can be followed
* `TransitionSystem.Reachable.simulate`: a system that another one simulates reaches only states
  related to reachable states of the other
* `TransitionSystem.IsRun.invariant`: the invariant rule along one run
* `TransitionSystem.IsRun.length_le`: the ranking rule, by which runs end
* `TransitionSystem.IsRun.flag_iff`: the rule of a flag that steps only clear
* `TransitionSystem.IsRun.separated`: the alternation rule
* `TransitionSystem.IsRun.forall_good_iff`: the runs without bad steps are those with good steps only
* `TransitionSystem.IsRun.lift`: a run of a system that sees less than another is a run of the other
-/

/-- A labelled transition system. -/
structure TransitionSystem (S L : Type) where
  init : S → Prop
  step : S → L → S → Prop

/-- A step that has been taken. -/
structure Transition (S L : Type) where
  before : S
  label : L
  after : S

/-- A transition seen through a map of states. -/
def Transition.map {S S' L : Type} (f : S → S') (t : Transition S L) : Transition S' L :=
  ⟨f t.before, t.label, f t.after⟩

namespace TransitionSystem

variable {S L : Type} {T : TransitionSystem S L} {s s' : S}

/-- The states of the runs from an initial state. -/
inductive Reachable (T : TransitionSystem S L) : S → Prop
  | init {s : S} (h : T.init s) : Reachable T s
  | step {s s' : S} {l : L} (h : Reachable T s) (hstep : T.step s l s') : Reachable T s'

/-- **The invariant rule**: what holds initially and is kept by every step holds of every reachable
state. -/
theorem Reachable.invariant {I : S → Prop} (h : T.Reachable s) (hinit : ∀ s, T.init s → I s)
    (hstep : ∀ s l s', I s → T.step s l s' → I s') : I s := by
  induction h with
  | init h => exact hinit _ h
  | step _ h ih => exact hstep _ _ _ ih h

/-- A list of labels that can be followed leads to a reachable state. -/
theorem Reachable.foldlM {next : S → L → Option S}
    (hnext : ∀ s l s', next s l = some s' → T.step s l s') (h : T.Reachable s) {labels : List L}
    (hrun : labels.foldlM next s = some s') : T.Reachable s' := by
  induction labels generalizing s with
  | nil =>
    obtain rfl := Option.some.inj hrun
    exact h
  | cons l labels ih =>
    rw [List.foldlM_cons] at hrun
    obtain ⟨s₁, hs₁, hrun⟩ := Option.bind_eq_some_iff.mp hrun
    exact ih (h.step (hnext _ _ _ hs₁)) hrun

/-- **The simulation rule**: when every step is matched by a step of `T'`, or by none, a reachable
state is related to a reachable state of `T'`. -/
theorem Reachable.simulate {S' L' : Type} {T' : TransitionSystem S' L'} {R : S → S' → Prop}
    (h : T.Reachable s) (hinit : ∀ s, T.init s → ∃ a, T'.init a ∧ R s a)
    (hstep : ∀ s l s' a, R s a → T.step s l s' → ∃ a', R s' a' ∧ (a' = a ∨ ∃ l', T'.step a l' a')) :
    ∃ a, T'.Reachable a ∧ R s a := by
  induction h with
  | init h =>
    obtain ⟨a, ha, hR⟩ := hinit _ h
    exact ⟨a, .init ha, hR⟩
  | step _ h ih =>
    obtain ⟨a, ha, hR⟩ := ih
    -- The step is matched by none of `T'` (the state `a` stays) or by one step of `T'`.
    obtain ⟨a', hR', rfl | ⟨l', hl'⟩⟩ := hstep _ _ _ a hR h
    · exact ⟨a', ha, hR'⟩
    · exact ⟨a', ha.step hl', hR'⟩

/-- A run from `s`: every transition is a step from the state where the one before it ended. -/
def IsRun (T : TransitionSystem S L) : S → List (Transition S L) → Prop
  | _, [] => True
  | s, t :: run => t.before = s ∧ T.step s t.label t.after ∧ IsRun T t.after run

theorem IsRun.step {run : List (Transition S L)} (h : T.IsRun s run) {t : Transition S L}
    (ht : t ∈ run) : T.step t.before t.label t.after := by
  induction run generalizing s with
  | nil => cases ht
  | cons u run ih =>
    obtain ⟨rfl, hstep, hrun⟩ := h
    rcases List.mem_cons.mp ht with rfl | ht
    · exact hstep
    · exact ih hrun ht

/-- **The invariant rule of a run**: what holds at its start and is kept by each of its steps holds
before and after all of them. -/
theorem IsRun.invariant {I : S → Prop} {run : List (Transition S L)} (h : T.IsRun s run) (h₀ : I s)
    (hstep : ∀ t ∈ run, I t.before → T.step t.before t.label t.after → I t.after) :
    ∀ t ∈ run, I t.before ∧ I t.after := by
  induction run generalizing s with
  | nil =>
    intro t ht
    cases ht
  | cons u run ih =>
    obtain ⟨rfl, hu, hrun⟩ := h
    have hafter : I u.after := hstep u List.mem_cons_self h₀ hu
    intro t ht
    rcases List.mem_cons.mp ht with rfl | ht
    · exact ⟨h₀, hafter⟩
    · exact ih hrun hafter (fun t ht => hstep t (List.mem_cons_of_mem _ ht)) t ht

/-- **The ranking rule**: when a rank becomes smaller with every step, under an invariant, no run has
more steps than the rank at its start. -/
theorem IsRun.length_le {I : S → Prop} (rank : S → ℕ) {run : List (Transition S L)}
    (h : T.IsRun s run) (h₀ : I s)
    (hstep : ∀ s l s', I s → T.step s l s' → I s' ∧ rank s' < rank s) :
    run.length ≤ rank s := by
  induction run generalizing s with
  | nil => exact Nat.zero_le _
  | cons t run ih =>
    obtain ⟨rfl, ht, hrun⟩ := h
    obtain ⟨hafter, hlt⟩ := hstep _ _ _ h₀ ht
    have hle := ih hrun hafter
    rw [List.length_cons]
    omega

/-- What comes after a transition of a run is a run. -/
theorem IsRun.after {l₁ l₂ : List (Transition S L)} {t : Transition S L}
    (h : T.IsRun s (l₁ ++ t :: l₂)) : T.IsRun t.after l₂ := by
  induction l₁ generalizing s with
  | nil => exact h.2.2
  | cons u l₁ ih => exact ih h.2.2

/-- The invariant rule of a run, up to a transition. -/
theorem IsRun.before {I : S → Prop} {l₁ l₂ : List (Transition S L)} {t : Transition S L}
    (h : T.IsRun s (l₁ ++ t :: l₂)) (h₀ : I s)
    (hstep : ∀ u ∈ l₁, I u.before → T.step u.before u.label u.after → I u.after) : I t.before := by
  induction l₁ generalizing s with
  | nil => exact h.1 ▸ h₀
  | cons u l₁ ih =>
    obtain ⟨rfl, hu, hrun⟩ := h
    exact ih hrun (hstep u List.mem_cons_self h₀ hu) fun v hv => hstep v (List.mem_cons_of_mem _ hv)

/-- **The rule of a flag** that every step either leaves or clears: it is set up to a transition if it
was set at the start and no step before has cleared it, and only then. -/
theorem IsRun.flag_iff (flag : S → Prop) {clears : Transition S L → Prop}
    {l₁ l₂ : List (Transition S L)} {t : Transition S L} (h : T.IsRun s (l₁ ++ t :: l₂))
    (hstep : ∀ u ∈ l₁, T.step u.before u.label u.after →
      (flag u.after ↔ flag u.before ∧ ¬ clears u)) :
    flag t.before ↔ flag s ∧ ∀ u ∈ l₁, ¬ clears u := by
  induction l₁ generalizing s with
  | nil =>
    obtain ⟨rfl, -, -⟩ := h
    exact ⟨fun hflag => ⟨hflag, fun u hu => absurd hu List.not_mem_nil⟩, And.left⟩
  | cons u l₁ ih =>
    obtain ⟨rfl, hu, hrun⟩ := h
    rw [ih hrun fun v hv => hstep v (List.mem_cons_of_mem _ hv), hstep u List.mem_cons_self hu,
      List.forall_mem_cons, and_assoc]

/-- Between any two transitions with `P` there is one with `Q`. -/
def Separated (P Q : Transition S L → Prop) (run : List (Transition S L)) : Prop :=
  ∀ l₁ t l₂ u l₃, run = l₁ ++ t :: (l₂ ++ u :: l₃) → P t → P u → ∃ v ∈ l₂, Q v

/-- **The alternation rule**: when a transition with `P` finds a flag set and clears it, and only
transitions with `Q` set it again, then there is one with `Q` between any two with `P`. -/
theorem IsRun.separated (flag : S → Prop) {P Q : Transition S L → Prop}
    {run : List (Transition S L)} (h : T.IsRun s run)
    (hP : ∀ t, T.step t.before t.label t.after → P t → flag t.before ∧ ¬ flag t.after)
    (hQ : ∀ t, T.step t.before t.label t.after → ¬ Q t → ¬ flag t.before → ¬ flag t.after) :
    Separated P Q run := by
  rintro l₁ t l₂ u l₃ rfl ht hu
  by_contra hnone
  have hclear := (hP t (h.step (by simp)) ht).2
  have hbefore : ¬ flag u.before := h.after.before (I := fun s => ¬ flag s) hclear
    fun v hv hv' hstep => hQ v hstep (fun hQv => hnone ⟨v, hv, hQv⟩) hv'
  exact hbefore (hP u (h.step (by simp)) hu).1

/-- **The characterisation rule**: when an invariant is kept by every step but the bad ones, and under
the invariant the steps that are good are those that are not bad, then the runs with good steps only
are those without bad ones. -/
theorem IsRun.forall_good_iff (I : S → Prop) {good bad : Transition S L → Prop}
    {run : List (Transition S L)} (h : T.IsRun s run) (h₀ : I s)
    (hkeeps : ∀ t, T.step t.before t.label t.after → I t.before → ¬ bad t → I t.after)
    (hgood : ∀ t, T.step t.before t.label t.after → I t.before → I t.after → ¬ bad t → good t)
    (hbad : ∀ t, T.step t.before t.label t.after → I t.before → bad t → ¬ good t) :
    (∀ t ∈ run, good t) ↔ ∀ t ∈ run, ¬ bad t := by
  constructor
  · intro hall
    have hinvariant := h.invariant h₀ fun t ht hbefore hstep =>
      hkeeps t hstep hbefore fun hb => hbad t hstep hbefore hb (hall t ht)
    exact fun t ht hb => hbad t (h.step ht) (hinvariant t ht).1 hb (hall t ht)
  · intro hnone
    have hinvariant := h.invariant h₀ fun t ht hbefore hstep => hkeeps t hstep hbefore (hnone t ht)
    intro t ht
    obtain ⟨hbefore, hafter⟩ := hinvariant t ht
    exact hgood t (h.step ht) hbefore hafter (hnone t ht)

/-- **The lifting rule**: when every step that is seen of a state of `T'` is a step of `T'`, a run
that is seen is a run of `T'`. -/
theorem IsRun.lift {S' : Type} {T' : TransitionSystem S' L} {f : S' → S}
    (hstep : ∀ a l s', T.step (f a) l s' → ∃ a', T'.step a l a' ∧ f a' = s') {a : S'}
    {run : List (Transition S L)} (h : T.IsRun (f a) run) :
    ∃ run', T'.IsRun a run' ∧ run'.map (Transition.map f) = run := by
  induction run generalizing a with
  | nil => exact ⟨[], trivial, rfl⟩
  | cons t run ih =>
    obtain ⟨hbefore, ht, hrun⟩ := h
    obtain ⟨a', ha', hafter⟩ := hstep a t.label t.after ht
    rw [← hafter] at hrun
    obtain ⟨run', hrun', hmap⟩ := ih hrun
    refine ⟨⟨a, t.label, a'⟩ :: run', ⟨rfl, ha', hrun'⟩, ?_⟩
    rw [List.map_cons, hmap, Transition.map, ← hbefore, hafter]

/-- The transitions along a list of labels, as far as it can be followed. -/
def follow (next : S → L → Option S) : S → List L → List (Transition S L)
  | _, [] => []
  | s, l :: labels =>
    match next s l with
    | some s' => ⟨s, l, s'⟩ :: follow next s' labels
    | none => []

theorem isRun_follow {next : S → L → Option S}
    (hnext : ∀ s l s', next s l = some s' → T.step s l s') (s : S) (labels : List L) :
    T.IsRun s (follow next s labels) := by
  induction labels generalizing s with
  | nil => trivial
  | cons l labels ih =>
    unfold follow
    split
    · rename_i s' hs'
      exact ⟨rfl, hnext _ _ _ hs', ih s'⟩
    · trivial

/-- The steps that meet a condition. -/
def restrict (T : TransitionSystem S L) (ok : S → L → S → Prop) : TransitionSystem S L where
  init := T.init
  step s l s' := T.step s l s' ∧ ok s l s'

/-- A run whose steps meet a condition. -/
theorem IsRun.restrict {ok : S → L → S → Prop} {run : List (Transition S L)} (h : T.IsRun s run)
    (hok : ∀ t ∈ run, ok t.before t.label t.after) : (T.restrict ok).IsRun s run := by
  induction run generalizing s with
  | nil => trivial
  | cons t run ih =>
    obtain ⟨rfl, hstep, hrun⟩ := h
    obtain ⟨hfirst, hok⟩ := List.forall_mem_cons.mp hok
    exact ⟨rfl, ⟨hstep, hfirst⟩, ih hrun hok⟩

/-- A list of labels that can be followed with steps that meet a condition. -/
theorem Reachable.foldlM_restrict {ok : S → L → S → Prop} {next : S → L → Option S}
    (h : (T.restrict ok).Reachable s) (okay : S → L → S → Bool) (labels : List L)
    (hnext : ∀ s l s', next s l = some s' → T.step s l s')
    (hokay : ∀ s l s', okay s l s' = true → ok s l s')
    (hrun : labels.foldlM (fun s l => (next s l).filter (okay s l)) s = some s') :
    (T.restrict ok).Reachable s' := by
  refine h.foldlM (fun s l s' hs' => ?_) hrun
  obtain ⟨hs', hok⟩ := Option.filter_eq_some_iff.mp hs'
  exact ⟨hnext s l s' hs', hokay s l s' hok⟩

end TransitionSystem
