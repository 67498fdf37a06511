import AsyncKernel.Executor.Schedule

/-!
# Futures that wait in the spawn queue

`spawn` puts a future into the spawn queue and wakes nobody: the future is started by the next poll
of a handle. The owner of the executor makes one when the context waker of its latest poll is woken.
A future is stranded when it is in the queue and this waker has not been woken.

The context wakers are woken in the order in which they are registered, so the wakers that have been
woken are the first of those that have been registered, and a registration is known by its number.

## Main definitions

* `Executor.registered`: the context wakers registered so far
* `Watched`: an executor, with what its owner has seen of the polls of its handle
* `Watched.Stranded`: a future waits in the queue, and nobody is told
* `Watched.Strands`: a call that leaves a future so

## Main results

* `Executor.handlePoll_registered`: a poll of a handle registers its waker, once
* `Watched.stranded_iff_of_run`: the runs in which no future is stranded
-/

namespace AsyncKernel

variable {F W E : Type}

namespace Executor

variable {behaviour : Behaviour F E} {guard : Guard} {queueHeld : Bool} {s s' s₁ : Executor F W E}

/-! ## The context wakers -/

/-- The context wakers registered so far, in order: those that have been woken, and the others. -/
def registered (s : Executor F W E) : List W := s.woken ++ s.wakers

/-- What wakes of tasks do to the context wakers. -/
structure Notifies (wakes : List ℕ) (s s' : Executor F W E) : Prop where
  woken : s'.woken = if wakes = [] then s.woken else s.registered
  wakers : s'.wakers = if wakes = [] then s.wakers else []

namespace Notifies

variable {wakes wakes' : List ℕ}

theorem refl (s : Executor F W E) : Notifies [] s s := ⟨rfl, rfl⟩

theorem registered_eq (h : Notifies wakes s s') : s'.registered = s.registered := by
  unfold registered
  rw [h.woken, h.wakers]
  by_cases hwakes : wakes = []
  · rw [if_pos hwakes, if_pos hwakes]
  · rw [if_neg hwakes, if_neg hwakes, List.append_nil, registered]

theorem trans (h : Notifies wakes s s₁) (h' : Notifies wakes' s₁ s') :
    Notifies (wakes ++ wakes') s s' := by
  have hregistered := h.registered_eq
  refine ⟨?_, ?_⟩
  · rw [h'.woken, h.woken, hregistered]
    cases wakes <;> cases wakes' <;> simp
  · rw [h'.wakers, h.wakers]
    cases wakes <;> cases wakes' <;> simp

/-- The wakers that have been woken stay the first ones. -/
theorem woken_prefix (h : Notifies wakes s s') : s.woken <+: s'.woken := by
  rw [h.woken]
  split
  · exact List.prefix_rfl
  · exact List.prefix_append s.woken s.wakers

end Notifies

theorem act_notifies (s : Executor F W E) (a : Action F) :
    Outcome (fun _ => True) (fun s' => Notifies a.wake?.toList s s') (act guard queueHeld s a) := by
  cases a with
  | spawn future =>
    cases queueHeld with
    | true => trivial
    | false => exact ⟨rfl, rfl⟩
  | wake index => exact ⟨rfl, rfl⟩
  | enter => trivial

theorem act_foldlM_notifies (s : Executor F W E) (actions : List (Action F)) :
    Outcome (fun _ => True) (fun s' => Notifies (actions.filterMap Action.wake?) s s')
      (actions.foldlM (act guard queueHeld) s) := by
  induction actions generalizing s with
  | nil => exact Notifies.refl s
  | cons a actions ih =>
    rw [List.foldlM_cons, filterMap_cons_eq_append]
    refine (act_notifies s a).bind fun s₁ h => ?_
    exact (ih s₁).mono (fun _ h => h) fun s' h' => h.trans h'

/-- The wakes of a poll reach every context waker. -/
theorem pollFuture_notifies {index : ℕ} {task : F} (h : s.tasks[index]? = some (some task)) :
    Outcome (fun _ => True) (fun s' => Notifies (behaviour task s.env).1.wakes s s')
      (pollFuture behaviour guard queueHeld s index) := by
  unfold pollFuture
  rw [h]
  refine (act_foldlM_notifies _ _).bind ?_
  rintro s' ⟨hwoken, hwakers⟩
  exact ⟨hwoken, hwakers⟩

theorem pollFuture_registered (s : Executor F W E) (index : ℕ) :
    Outcome (fun _ => True) (fun s' => s'.registered = s.registered)
      (pollFuture behaviour guard queueHeld s index) := by
  refine pollFuture_rule (fun task htask => ?_) fun _ => rfl
  exact (pollFuture_notifies htask).mono (fun _ h => h) fun s' h => h.registered_eq

theorem pushTask_notifies (s : Executor F W E) (task : F) :
    Outcome (fun _ => True) (fun r => Notifies (behaviour task s.env).1.wakes s r.2)
      (s.pushTask behaviour guard queueHeld task) := by
  obtain ⟨hplaced, -⟩ := s.place_facts task
  refine (pollFuture_notifies (s := { s with tasks := (s.place task).2 }) hplaced).bind ?_
  rintro s' ⟨hwoken, hwakers⟩
  exact ⟨hwoken, hwakers⟩

theorem foldlM_registered {α : Type} {g : Executor F W E → α → Except Conflict (Executor F W E)}
    (h : ∀ s a, Outcome (fun _ => True) (fun s' => s'.registered = s.registered) (g s a))
    (l : List α) (s : Executor F W E) :
    Outcome (fun _ => True) (fun s' => s'.registered = s.registered) (l.foldlM g s) := by
  refine Outcome.foldlM (I := fun s' : Executor F W E => s'.registered = s.registered)
    (fun s₁ a h₁ => ?_) rfl l
  exact (h s₁ a).mono (fun _ h => h) fun s' h' => h'.trans h₁

theorem drainQueue_registered (s : Executor F W E) :
    Outcome (fun _ => True) (fun s' => s'.registered = s.registered)
      (s.drainQueue behaviour guard) := by
  refine foldlM_registered (fun s₁ task => ?_) s.taskQueue { s with taskQueue := [] }
  exact (pushTask_notifies s₁ task).bind fun r hr => hr.registered_eq

theorem wakePending_registered (s : Executor F W E) :
    Outcome (fun _ => True) (fun r => r.2.registered = s.registered)
      (s.wakePending behaviour guard) :=
  (foldlM_registered pollFuture_registered s.wakeQueue { s with wakeQueue := [] }).bind
    fun _ h => h

/-- **A poll of a handle registers its waker**, once. -/
theorem handlePoll_registered (s : Executor F W E) (waker : W) :
    Outcome (fun _ => True) (fun r => r.2.registered = s.registered ++ [waker])
      (s.handlePoll behaviour guard waker) := by
  rw [handlePoll]
  refine (foldlM_registered pollFuture_registered (List.range' 0 s.tasks.length) s).bind
    fun s₁ h₁ => ?_
  refine (drainQueue_registered s₁).bind fun s₂ h₂ => ?_
  -- Before and after the registration the wakers are only woken.
  have hpoll : (s₂.poll waker).2.registered = s.registered ++ [waker] := by
    rw [poll_eq, ← h₁, ← h₂, registered, registered, List.append_assoc]
  refine (wakePending_registered (s₂.poll waker).2).bind ?_
  rintro ⟨isEmpty, s₃⟩ h₃
  dsimp only
  split
  · refine (drainQueue_registered s₃).bind fun s₄ h₄ => ?_
    exact h₄.trans (h₃.trans hpoll)
  · exact h₃.trans hpoll

end Executor

/-! ## The owner of an executor -/

/-- An executor, with what its owner has seen of the polls of its handle. -/
structure Watched (F W E : Type) where
  executor : Executor F W E
  /-- the latest registration: its number and the context waker -/
  latest : Option (ℕ × W)
  /-- some poll has returned `Pending` -/
  pended : Bool

namespace Watched

/-- A new executor. -/
def new (env : E) : Watched F W E := ⟨Executor.new env, none, false⟩

/-- What the owner sees of a call that leads to `executor`. -/
def watch (s : Watched F W E) (l : Executor.Label F W E) (executor : Executor F W E) :
    Watched F W E :=
  match l with
  | .poll waker result =>
    ⟨executor, some (s.executor.registered.length, waker), s.pended || result = .pending⟩
  | _ => { s with executor }

/-- **A program that uses an executor**, with what the owner sees. -/
def system (behaviour : Behaviour F E) (guard : Guard) :
    TransitionSystem (Watched F W E) (Executor.Label F W E) where
  init s := ∃ env, s = new env
  step s l s' := ∃ executor, (Executor.system behaviour guard).step s.executor l executor ∧
    s' = s.watch l executor

/-- The context waker of the latest poll has been woken since its registration. -/
def Woken (s : Watched F W E) : Prop :=
  ∃ n waker, s.latest = some (n, waker) ∧ s.executor.woken[n]? = some waker

/-- **A future is stranded**: it waits in the spawn queue after a poll has returned `Pending`, and
the waker of the latest poll has not been woken. -/
structure Stranded (s : Watched F W E) : Prop where
  pended : s.pended = true
  waiting : s.executor.taskQueue ≠ []
  unwoken : ¬ s.Woken

/-- A call that puts a future into the spawn queue and wakes no task. -/
def Silent (behaviour : Behaviour F E) (s : Watched F W E) : Executor.Label F W E → Prop
  | .spawn _ => True
  | .pushTask future =>
    (behaviour future s.executor.env).1.spawns ≠ [] ∧ (behaviour future s.executor.env).1.wakes = []
  | _ => False

/-- **A call that strands a future**: a silent one, when a poll has returned `Pending` and the waker
of the latest poll has not been woken. -/
structure Strands (behaviour : Behaviour F E) (s : Watched F W E) (l : Executor.Label F W E) :
    Prop where
  pended : s.pended = true
  unwoken : ¬ s.Woken
  silent : s.Silent behaviour l

/-- The latest registration is one of the executor's, and there is one once a poll has returned. -/
structure Registers (s : Watched F W E) : Prop where
  latest : ∀ n waker, s.latest = some (n, waker) → s.executor.registered[n]? = some waker
  pended : s.pended = true → s.latest.isSome = true

variable {behaviour : Behaviour F E} {guard : Guard} {s s' : Watched F W E}
  {executor : Executor F W E}

/-- Wakes of tasks keep the registrations. -/
theorem Registers.notifies {wakes : List ℕ} (h : s.Registers)
    (hnotifies : Executor.Notifies wakes s.executor executor) :
    ({ s with executor } : Watched F W E).Registers := by
  refine ⟨fun n waker hlatest => ?_, h.pended⟩
  dsimp only at hlatest ⊢
  rw [hnotifies.registered_eq]
  exact h.latest n waker hlatest

/-- A waker that has been woken stays so. -/
theorem Woken.notifies {wakes : List ℕ} (h : s.Woken)
    (hnotifies : Executor.Notifies wakes s.executor executor) :
    ({ s with executor } : Watched F W E).Woken := by
  obtain ⟨n, waker, hlatest, hwoken⟩ := h
  refine ⟨n, waker, hlatest, ?_⟩
  obtain ⟨hlt, rfl⟩ := List.getElem?_eq_some_iff.mp hwoken
  exact List.prefix_iff_getElem?.mp hnotifies.woken_prefix n hlt

/-- A wake of a task wakes the context waker of the latest poll. -/
theorem woken_of_notifies {wakes : List ℕ} (h : s.Registers) (hpended : s.pended = true)
    (hnotifies : Executor.Notifies wakes s.executor executor) (hwakes : wakes ≠ []) :
    ({ s with executor } : Watched F W E).Woken := by
  obtain ⟨⟨n, waker⟩, hlatest⟩ := Option.isSome_iff_exists.mp (h.pended hpended)
  refine ⟨n, waker, hlatest, ?_⟩
  dsimp only
  rw [hnotifies.woken, if_neg hwakes]
  exact h.latest n waker hlatest

/-- **What a call does**: a poll of the handle registers its waker and leaves the spawn queue empty;
any other call wakes tasks and puts futures into the queue, and it is silent when it does only the
latter. -/
theorem step_cases {l : Executor.Label F W E} (h : (system behaviour guard).step s l s') :
    (¬ s.Silent behaviour l ∧ s'.executor.taskQueue = [] ∧ ∃ waker,
      s'.latest = some (s.executor.registered.length, waker) ∧
      s'.executor.registered = s.executor.registered ++ [waker]) ∨
    ∃ executor spawns wakes, s' = { s with executor } ∧
      Executor.Notifies wakes s.executor executor ∧
      executor.taskQueue = s.executor.taskQueue ++ spawns ∧
      (s.Silent behaviour l ↔ spawns ≠ [] ∧ wakes = []) := by
  obtain ⟨executor, hstep, rfl⟩ := h
  cases l with
  | spawn future =>
    refine Or.inr ⟨executor, [future], [], rfl, ?_, ?_, by simp [Silent]⟩
    · exact hstep ▸ ⟨rfl, rfl⟩
    · rw [hstep]
      rfl
  | pushTask future =>
    obtain ⟨index, hpush⟩ := hstep
    have hnotifies := (Executor.pushTask_notifies s.executor future).post_of_eq_ok hpush
    obtain ⟨-, -, htaskQueue, -, -⟩ :=
      (Executor.pushTask_outcome s.executor future).post_of_eq_ok hpush
    exact Or.inr ⟨executor, _, _, rfl, hnotifies, htaskQueue, Iff.rfl⟩
  | wake index =>
    refine Or.inr ⟨executor, [], [index], rfl, ?_, ?_, by simp [Silent]⟩
    · exact hstep ▸ ⟨rfl, rfl⟩
    · rw [hstep, List.append_nil]
      rfl
  | poll waker result =>
    have hpoll : s.executor.handlePoll behaviour guard waker = .ok (result, executor) := by
      rw [← Executor.pollHandle_eq]
      exact hstep
    have hregistered := (Executor.handlePoll_registered s.executor waker).post_of_eq_ok hpoll
    obtain ⟨-, htaskQueue⟩ :=
      (Executor.handlePoll_outcome behaviour guard s.executor waker).post_of_eq_ok hpoll
    exact Or.inl ⟨fun h => h, htaskQueue, waker, rfl, hregistered⟩
  | environment env =>
    refine Or.inr ⟨executor, [], [], rfl, ?_, ?_, by simp [Silent]⟩
    · exact hstep ▸ ⟨rfl, rfl⟩
    · rw [hstep, List.append_nil]

theorem Registers.step {l : Executor.Label F W E} (h : s.Registers)
    (hstep : (system behaviour guard).step s l s') : s'.Registers := by
  rcases step_cases hstep with ⟨-, -, waker, hlatest, hregistered⟩ |
    ⟨executor, spawns, wakes, rfl, hnotifies, -⟩
  · refine ⟨fun n waker' hlatest' => ?_, fun _ => by rw [hlatest]; rfl⟩
    rw [hlatest] at hlatest'
    obtain ⟨rfl, rfl⟩ := Prod.mk.inj (Option.some.inj hlatest')
    rw [hregistered]
    simp
  · exact h.notifies hnotifies

/-- A call that strands no future leaves none stranded. -/
theorem not_stranded_step {l : Executor.Label F W E} (h : s.Registers) (hs : ¬ s.Stranded)
    (hl : ¬ s.Strands behaviour l) (hstep : (system behaviour guard).step s l s') :
    ¬ s'.Stranded := by
  rintro ⟨hpended, hwaiting, hunwoken⟩
  rcases step_cases hstep with ⟨-, hempty, -⟩ |
    ⟨executor, spawns, wakes, rfl, hnotifies, htaskQueue, hsilent⟩
  · exact hwaiting hempty
  dsimp only at hpended hwaiting
  have hbefore : ¬ s.Woken := fun h => hunwoken (h.notifies hnotifies)
  have hwakes : wakes = [] := by
    by_contra hne
    exact hunwoken (woken_of_notifies h hpended hnotifies hne)
  -- The waker is not woken before the call either, so the queue was empty, and the call is silent.
  have hqueue : s.executor.taskQueue = [] := by
    by_contra hne
    exact hs ⟨hpended, hne, hbefore⟩
  refine hl ⟨hpended, hbefore, hsilent.mpr ⟨?_, hwakes⟩⟩
  rwa [htaskQueue, hqueue, List.nil_append] at hwaiting

/-- A call that strands a future leaves it stranded. -/
theorem Strands.stranded {l : Executor.Label F W E} (h : s.Strands behaviour l)
    (hstep : (system behaviour guard).step s l s') : s'.Stranded := by
  rcases step_cases hstep with ⟨hloud, -⟩ |
    ⟨executor, spawns, wakes, rfl, hnotifies, htaskQueue, hsilent⟩
  · exact absurd h.silent hloud
  obtain ⟨hspawns, rfl⟩ := hsilent.mp h.silent
  refine ⟨h.pended, ?_, ?_⟩
  · dsimp only
    rw [htaskQueue]
    exact List.append_ne_nil_of_right_ne_nil _ hspawns
  · rintro ⟨n, waker, hlatest, hwoken⟩
    refine h.unwoken ⟨n, waker, hlatest, ?_⟩
    rwa [hnotifies.woken, if_pos rfl] at hwoken

theorem not_stranded_new (env : E) : ¬ (new env : Watched F W E).Stranded := by
  intro h
  cases h.pended

theorem registers_new (env : E) : (new env : Watched F W E).Registers :=
  ⟨nofun, nofun⟩

/-- **The runs in which no future is stranded**: those in which no call puts a future into the spawn
queue without waking a task, after a poll has returned `Pending` and before the waker of the latest
poll is woken. -/
theorem stranded_iff_of_run {env : E}
    {run : List (Transition (Watched F W E) (Executor.Label F W E))}
    (h : (system behaviour guard).IsRun (new env) run) :
    (∀ t ∈ run, ¬ t.after.Stranded) ↔ ∀ t ∈ run, ¬ t.before.Strands behaviour t.label := by
  refine h.forall_good_iff (fun s => s.Registers ∧ ¬ s.Stranded)
    ⟨registers_new env, not_stranded_new env⟩ ?_ ?_ ?_
  · intro t hstep hbefore hstrands
    exact ⟨hbefore.1.step hstep, not_stranded_step hbefore.1 hbefore.2 hstrands hstep⟩
  · intro t _ _ hafter _
    exact hafter.2
  · intro t hstep _ hstrands hnever
    exact hnever (hstrands.stranded hstep)

/-! ## A second future -/

/-- A future has been spawned, and a poll of the handle has finished it and returned `Pending`. -/
def polledOnce : Watched Bool Unit Unit := ⟨⟨[none], [()], [], [], [], ()⟩, some (0, ()), true⟩

/-- Then a task has been woken. -/
def wokenOnce : Watched Bool Unit Unit := ⟨⟨[none], [], [0], [], [()], ()⟩, some (0, ()), true⟩

/-- A call of `spawn`. -/
def spawnCall (s : Watched Bool Unit Unit) :
    Transition (Watched Bool Unit Unit) (Executor.Label Bool Unit Unit) :=
  ⟨s, .spawn true, { s with executor := s.executor.spawn true }⟩

/-- A second future is spawned after the poll, at once. -/
def respawn : List (Transition (Watched Bool Unit Unit) (Executor.Label Bool Unit Unit)) :=
  [spawnCall (new ()), ⟨(spawnCall (new ())).after, .poll () .pending, polledOnce⟩,
    spawnCall polledOnce]

/-- A second future is spawned after the poll, when a task has been woken. -/
def wakeRespawn : List (Transition (Watched Bool Unit Unit) (Executor.Label Bool Unit Unit)) :=
  [spawnCall (new ()), ⟨(spawnCall (new ())).after, .poll () .pending, polledOnce⟩,
    ⟨polledOnce, .wake 0, wokenOnce⟩, spawnCall wokenOnce]

/-- The waker of the poll has been woken when the second future is spawned. -/
theorem stranded_iff_of_run_wakeRespawn :
    (system Executor.sleeper .refCell).IsRun (new ()) wakeRespawn ∧
      ∀ t ∈ wakeRespawn, ¬ t.after.Stranded := by
  have hrun : (system Executor.sleeper .refCell).IsRun (new ()) wakeRespawn :=
    ⟨rfl, ⟨_, rfl, rfl⟩, rfl, ⟨_, rfl, rfl⟩, rfl, ⟨_, rfl, rfl⟩, rfl, ⟨_, rfl, rfl⟩, trivial⟩
  refine ⟨hrun, (stranded_iff_of_run hrun).mpr fun t ht hstrands => ?_⟩
  simp only [wakeRespawn, List.mem_cons, List.not_mem_nil, or_false] at ht
  rcases ht with rfl | rfl | rfl | rfl
  · cases hstrands.pended
  · exact hstrands.silent
  · exact hstrands.silent
  · exact hstrands.unwoken ⟨0, (), rfl, rfl⟩

/-- The second future is stranded: the waker of the poll has not been woken. -/
theorem stranded_respawn :
    (system Executor.sleeper .refCell).IsRun (new ()) respawn ∧
      ¬ ∀ t ∈ respawn, ¬ t.after.Stranded := by
  refine ⟨⟨rfl, ⟨_, rfl, rfl⟩, rfl, ⟨_, rfl, rfl⟩, rfl, ⟨_, rfl, rfl⟩, trivial⟩, fun h => ?_⟩
  refine h (spawnCall polledOnce) (by simp [respawn]) ⟨rfl, List.cons_ne_nil _ _, ?_⟩
  rintro ⟨n, waker, -, hwoken⟩
  cases hwoken

end Watched

end AsyncKernel
