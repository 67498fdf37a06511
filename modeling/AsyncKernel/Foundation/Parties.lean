import AsyncKernel.Foundation.Transition

/-!
# Parties that share a state

Any number of parties, each with a control of its own, act on one shared state and take turns in any
order. What a party does depends on its control and on the shared state, and changes only these.

## Main definitions

* `Parties`: the controls of the parties and the shared state
* `Parties.next`, `Parties.system`: one party moves

## Main results

* `Parties.next_eq_some`: what a step can do
* `Parties.assertions`: assertions of the parties are kept by a step when the party that moves
  establishes its own again and keeps those of the others
* `Parties.sum_rank_lt`: the sum of the ranks of some parties becomes smaller when one of them moves
  to a smaller rank
-/

/-- The controls of the parties and the state they share. -/
structure Parties (I C S : Type) where
  control : I → C
  shared : S

namespace Parties

variable {I C S L : Type} [DecidableEq I]

/-- The party `l.1` moves. There is no result when it cannot. -/
def next (move : I → L → C → S → Option (C × S)) (s : Parties I C S) (l : I × L) :
    Option (Parties I C S) := do
  let (c, shared) ← move l.1 l.2 (s.control l.1) s.shared
  return ⟨Function.update s.control l.1 c, shared⟩

/-- **Parties that take turns.** -/
def system (init : Parties I C S → Prop) (move : I → L → C → S → Option (C × S)) :
    TransitionSystem (Parties I C S) (I × L) where
  init := init
  step s l s' := s.next move l = some s'

variable {move : I → L → C → S → Option (C × S)} {s s' : Parties I C S} {i : I} {l : L}

theorem next_eq_some (h : s.next move (i, l) = some s') : ∃ c shared,
    move i l (s.control i) s.shared = some (c, shared) ∧
      s' = ⟨Function.update s.control i c, shared⟩ := by
  obtain ⟨⟨c, shared⟩, hmove, h⟩ := Option.bind_eq_some_iff.mp h
  exact ⟨c, shared, hmove, (Option.some.inj h).symm⟩

/-- **The rule of the parties' assertions.** Each party asserts something of its control and of the
shared state. -/
theorem assertions {A : I → C → S → Prop} (h : s.next move (i, l) = some s')
    (hself : ∀ c shared, move i l (s.control i) s.shared = some (c, shared) → A i c shared)
    (hother : ∀ c shared, move i l (s.control i) s.shared = some (c, shared) →
      ∀ j, j ≠ i → A j (s.control j) shared) :
    ∀ j, A j (s'.control j) s'.shared := by
  obtain ⟨c, shared, hmove, rfl⟩ := next_eq_some h
  intro j
  dsimp only
  -- The party that has moved, or one that has not.
  by_cases hj : j = i
  · subst hj
    rw [Function.update_self]
    exact hself c shared hmove
  · rw [Function.update_of_ne hj]
    exact hother c shared hmove j hj

/-- **The rule of the parties' ranks.** -/
theorem sum_rank_lt {rank : C → ℕ} {parties : Finset I} (h : s.next move (i, l) = some s')
    (hi : i ∈ parties)
    (hrank : ∀ c shared, move i l (s.control i) s.shared = some (c, shared) →
      rank c < rank (s.control i)) :
    ∑ j ∈ parties, rank (s'.control j) < ∑ j ∈ parties, rank (s.control j) := by
  obtain ⟨c, shared, hmove, rfl⟩ := next_eq_some h
  refine Finset.sum_lt_sum (fun j _ => ?_) ⟨i, hi, ?_⟩
  · dsimp only
    by_cases hj : j = i
    · subst hj
      rw [Function.update_self]
      exact (hrank c shared hmove).le
    · rw [Function.update_of_ne hj]
  · dsimp only
    rw [Function.update_self]
    exact hrank c shared hmove

end Parties
