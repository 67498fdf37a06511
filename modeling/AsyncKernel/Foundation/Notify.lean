import AsyncKernel.Foundation.Transition

/-!
# Registration and notification

Producers push items to a queue and then wake whoever is registered; consumers register and then
take the queue. The two steps of a producer and the two steps of a consumer interleave in any order.
A consumer that has taken the queue and leaves cannot miss an item: when the queue is not empty, a
producer is about to wake it, or it has been woken since it registered.

## Main definitions

* `Notify.Parked`: a waker that has been registered, and when
* `Notify.Parked.Kept`: it is in the list of the wakers, or has been woken since
* `Notify.Registration`: the waker of a consumer, and how far it has come
* `Notify.State`, `Notify.system`: the queue, the registered wakers and the parties

## Main results

* `Notify.reachable_kept`: a registered waker is in the list, or has been woken since
* `Notify.reachable_informed`: no item is missed
-/

namespace Notify

variable {ι W Q : Type}

/-! ## Parked wakers -/

/-- A waker that has been registered. -/
structure Parked (W : Type) where
  waker : W
  /-- how many wakers had been woken when it was registered -/
  since : ℕ
  deriving DecidableEq, Repr

namespace Parked

/-- The waker has been woken since it was registered. -/
def Woken (p : Parked W) (woken : List W) : Prop := p.waker ∈ woken.drop p.since

instance [DecidableEq W] (p : Parked W) (woken : List W) : Decidable (p.Woken woken) :=
  inferInstanceAs (Decidable (p.waker ∈ woken.drop p.since))

/-- The waker is in the list, or has been woken since it was registered. -/
structure Kept (p : Parked W) (wakers woken : List W) : Prop where
  since_le : p.since ≤ woken.length
  mem : p.waker ∈ wakers ∨ p.Woken woken

variable {p : Parked W} {waker : W} {wakers woken more : List W}

theorem Woken.append (h : p.Woken woken) : p.Woken (woken ++ more) := by
  rw [Woken, List.drop_append]
  exact List.mem_append_left _ h

theorem woken_append_of_mem (h : p.waker ∈ more) (hle : p.since ≤ woken.length) :
    p.Woken (woken ++ more) := by
  rw [Woken, List.drop_append, Nat.sub_eq_zero_of_le hle, List.drop_zero]
  exact List.mem_append_right _ h

theorem Woken.of_append (h : p.Woken (woken ++ more)) : p.Woken woken ∨ p.waker ∈ more := by
  rw [Woken, List.drop_append] at h
  exact (List.mem_append.mp h).imp_right List.mem_of_mem_drop

theorem kept_register : Kept ⟨waker, woken.length⟩ (wakers ++ [waker]) woken :=
  ⟨le_rfl, Or.inl (List.mem_append_right _ List.mem_cons_self)⟩

theorem Kept.push (h : p.Kept wakers woken) : p.Kept (wakers ++ more) woken :=
  ⟨h.since_le, h.mem.imp_left (List.mem_append_left _)⟩

/-- **Whoever is taken from the list is woken.** -/
theorem Kept.wake {first : List W} (h : p.Kept (first ++ wakers) woken) :
    p.Kept wakers (woken ++ first) := by
  refine ⟨h.since_le.trans (by simp), ?_⟩
  rcases h.mem with hmem | hwoken
  · rcases List.mem_append.mp hmem with hfirst | hwakers
    · exact Or.inr (woken_append_of_mem hfirst h.since_le)
    · exact Or.inl hwakers
  · exact Or.inr hwoken.append

/-- What is asserted of all that are parked, after one of them has been replaced. -/
theorem forall_update_iff [DecidableEq ι] {parked : ι → Option (Parked W)} {i : ι}
    {new : Option (Parked W)} {Q : Parked W → Prop} :
    (∀ j, ∀ p ∈ Function.update parked i new j, Q p) ↔
      (∀ p ∈ new, Q p) ∧ ∀ j, j ≠ i → ∀ p ∈ parked j, Q p :=
  Function.forall_update_iff parked fun _ new => ∀ p ∈ new, Q p

end Parked

/-! ## Producers and consumers -/

/-- A consumer that has registered. -/
structure Registration (W : Type) where
  waker : W
  /-- how many wakers had been woken when it registered -/
  since : ℕ
  /-- it has taken the queue -/
  taken : Bool

/-- The queue, the registered wakers, the wakers woken so far, the producers between their two steps
and the consumers that have registered. -/
structure State (ι W Q : Type) where
  queue : List Q
  wakers : List W
  woken : List W
  notifying : Set ι
  registered : ι → Option (Registration W)

/-- The waker of a consumer has been woken since it registered. -/
def Registration.Woken (r : Registration W) (woken : List W) : Prop := r.waker ∈ woken.drop r.since

namespace State

/-- The first step of a producer. -/
def push (a : State ι W Q) (i : ι) (item : Q) : State ι W Q :=
  { a with queue := a.queue ++ [item], notifying := insert i a.notifying }

/-- The second step of a producer. -/
def notify (a : State ι W Q) (i : ι) : State ι W Q :=
  { a with wakers := [], woken := a.woken ++ a.wakers, notifying := a.notifying \ {i} }

/-- The first step of a consumer. -/
def register [DecidableEq ι] (a : State ι W Q) (i : ι) (waker : W) : State ι W Q where
  queue := a.queue
  wakers := a.wakers ++ [waker]
  woken := a.woken
  notifying := a.notifying
  registered := Function.update a.registered i (some ⟨waker, a.woken.length, false⟩)

/-- The second step of a consumer. -/
def take [DecidableEq ι] (a : State ι W Q) (i : ι) (r : Registration W) : State ι W Q where
  queue := []
  wakers := a.wakers
  woken := a.woken
  notifying := a.notifying
  registered := Function.update a.registered i (some { r with taken := true })

end State

inductive Label (ι W Q : Type)
  | push (i : ι) (item : Q)
  | notify (i : ι)
  | register (i : ι) (waker : W)
  | take (i : ι)

/-- The steps of the parties. -/
def system (ι W Q : Type) [DecidableEq ι] : TransitionSystem (State ι W Q) (Label ι W Q) where
  init a := a = ⟨[], [], [], ∅, fun _ => none⟩
  step a l a' := match l with
    | .push i item => a' = a.push i item
    | .notify i => a' = a.notify i
    | .register i waker => a' = a.register i waker
    | .take i => ∃ r, a.registered i = some r ∧ a' = a.take i r

variable {a a' : State ι W Q} {i : ι} {r : Registration W}

/-- The waker is in the list, or has been woken since it was registered. -/
structure Kept (a : State ι W Q) (r : Registration W) : Prop where
  since_le : r.since ≤ a.woken.length
  mem : r.waker ∈ a.wakers ∨ r.Woken a.woken

theorem Registration.Woken.append {woken more : List W} (h : r.Woken woken) :
    r.Woken (woken ++ more) :=
  Parked.Woken.append (p := ⟨r.waker, r.since⟩) h

theorem Registration.woken_append_of_mem {woken more : List W} (h : r.waker ∈ more)
    (hle : r.since ≤ woken.length) : r.Woken (woken ++ more) :=
  Parked.woken_append_of_mem (p := ⟨r.waker, r.since⟩) h hle

/-- A notification wakes every registered consumer. -/
theorem Kept.woken (h : Kept a r) : r.Woken (a.woken ++ a.wakers) := by
  rcases h.mem with hmem | hwoken
  · exact Registration.woken_append_of_mem hmem h.since_le
  · exact hwoken.append

variable [DecidableEq ι]

theorem registered_update {f : ι → Option (Registration W)} {i j : ι} {r r' : Registration W}
    (h : Function.update f j (some r') i = some r) : r = r' ∧ i = j ∨ f i = some r := by
  by_cases hij : i = j
  · subst hij
    rw [Function.update_self] at h
    exact Or.inl ⟨(Option.some.inj h).symm, rfl⟩
  · rw [Function.update_of_ne hij] at h
    exact Or.inr h

/-- **A registered waker is in the list, or has been woken since.** -/
theorem reachable_kept (h : (system ι W Q).Reachable a) :
    ∀ i r, a.registered i = some r → Kept a r := by
  refine h.invariant (I := fun a => ∀ i r, a.registered i = some r → Kept a r) ?_ ?_
  · rintro _ rfl i r hr
    cases hr
  · intro a l a' ih hstep i r hr
    cases l with
    | push j item =>
      obtain rfl := hstep
      exact ⟨(ih i r hr).since_le, (ih i r hr).mem⟩
    | notify j =>
      obtain rfl := hstep
      refine ⟨(ih i r hr).since_le.trans ?_, Or.inr (ih i r hr).woken⟩
      simp [State.notify]
    | register j waker =>
      obtain rfl := hstep
      rcases registered_update hr with ⟨rfl, -⟩ | hold
      · exact ⟨le_rfl, Or.inl (by simp [State.register])⟩
      · exact ⟨(ih i r hold).since_le,
          (ih i r hold).mem.imp_left fun hmem => List.mem_append_left _ hmem⟩
    | take j =>
      obtain ⟨r', hr', rfl⟩ := hstep
      rcases registered_update hr with ⟨rfl, -⟩ | hold
      · exact ⟨(ih j r' hr').since_le, (ih j r' hr').mem⟩
      · exact ⟨(ih i r hold).since_le, (ih i r hold).mem⟩

/-- **No item is missed**: when the queue is not empty after a consumer has taken it, a producer is
about to wake the consumer or it has been woken since it registered. -/
theorem reachable_informed (h : (system ι W Q).Reachable a) :
    ∀ i r, a.registered i = some r → r.taken = true → a.queue ≠ [] →
      a.notifying.Nonempty ∨ r.Woken a.woken := by
  refine (h.invariant (I := fun a => (system ι W Q).Reachable a ∧ ∀ i r, a.registered i = some r →
    r.taken = true → a.queue ≠ [] → a.notifying.Nonempty ∨ r.Woken a.woken) ?_ ?_).2
  · rintro _ rfl
    exact ⟨.init rfl, fun _ _ _ _ hqueue => absurd rfl hqueue⟩
  · -- Reachability is part of the invariant, so that `reachable_kept` applies at a notification.
    rintro a l a' ⟨hreach, ih⟩ hstep
    refine ⟨hreach.step hstep, fun i r hr htaken hqueue => ?_⟩
    cases l with
    | push j item =>
      obtain rfl := hstep
      -- the item arrives with a producer that has yet to notify
      exact Or.inl ⟨j, Set.mem_insert _ _⟩
    | notify j =>
      obtain rfl := hstep
      -- the notification wakes every registered consumer, this one among them
      exact Or.inr (reachable_kept hreach i r hr).woken
    | register j waker =>
      obtain rfl := hstep
      rcases registered_update hr with ⟨rfl, -⟩ | hold
      · -- a consumer that has just registered has not taken the queue
        cases htaken
      · exact ih i r hold htaken hqueue
    | take j =>
      obtain ⟨r', hr', rfl⟩ := hstep
      -- whoever takes the queue leaves it empty
      exact absurd rfl hqueue

end Notify
