import AsyncKernel.Executor.Schedule

/-!
# Futures come to their end

A poll of a handle polls every live task and every queued future at least once. So when each poll
brings a future closer to its end, and what it spawns is closer to its end than it was itself, the
executor is done after as many polls of its handle as its futures are away from their ends, wherever
tasks are woken and whatever happens around the executor in between.

## Main definitions

* `Polled.Reaches`: what a poll leaves of a future and what it spawns satisfy a condition
* `Executor.Holds`: all futures of an executor satisfy a condition
* `Shrinks`: a poll brings a future closer to its end

## Main results

* `Executor.handlePoll_holds`: what holds of the futures of an executor after a poll of its handle
* `Executor.done_of_polls`: after enough polls the executor is done
-/

namespace AsyncKernel

variable {F W E : Type}

/-- What a poll leaves of a future satisfies the condition, and so do the futures it spawns. -/
structure Polled.Reaches (B : F → Prop) (p : Polled F) : Prop where
  next : ∀ g ∈ p.next, B g
  spawns : ∀ g ∈ p.spawns, B g

/-- A poll of a future with `A` reaches `B`. -/
def Leads (behaviour : Behaviour F E) (A B : F → Prop) : Prop :=
  ∀ f, A f → ∀ env, (behaviour f env).1.Reaches B

/-- **A poll brings a future closer to its end**, and so are the futures that it spawns. -/
def Shrinks (behaviour : Behaviour F E) (rank : F → ℕ) : Prop :=
  ∀ f env, (behaviour f env).1.Reaches fun g => rank g < rank f

theorem Shrinks.leads {behaviour : Behaviour F E} {rank : F → ℕ} (h : Shrinks behaviour rank)
    {m n : ℕ} (hmn : m ≤ n + 1) :
    Leads behaviour (fun f => rank f < m) (fun f => rank f < n) := by
  intro f hf env
  refine ⟨fun g hg => ?_, fun g hg => ?_⟩
  · have := (h f env).next g hg
    omega
  · have := (h f env).spawns g hg
    omega

namespace Executor

variable {behaviour : Behaviour F E} {guard : Guard} {queueHeld : Bool} {s s' : Executor F W E}
  {A B : F → Prop}

/-- All live tasks satisfy the condition. -/
def Tasks (B : F → Prop) (s : Executor F W E) : Prop := ∀ f, some f ∈ s.tasks → B f

/-- **All futures of an executor satisfy the condition**, in its slots and in its queue. -/
structure Holds (B : F → Prop) (s : Executor F W E) : Prop where
  tasks : s.Tasks B
  taskQueue : ∀ f ∈ s.taskQueue, B f

theorem Holds.mono (h : s.Holds B) (hBA : ∀ f, B f → A f) : s.Holds A :=
  ⟨fun f hf => hBA f (h.tasks f hf), fun f hf => hBA f (h.taskQueue f hf)⟩

theorem mem_set {tasks : List (Option F)} {index : ℕ} {slot : Option F} {f : F}
    (h : some f ∈ tasks.set index slot) : some f ∈ tasks ∨ slot = some f :=
  (List.mem_or_eq_of_mem_set h).imp_right Eq.symm

/-- A poll of one task, where polls keep to the condition. -/
theorem pollFuture_holds (hB : Leads behaviour B B) (h : s.Holds B) (index : ℕ) :
    Outcome (fun _ => True) (Holds B) (pollFuture behaviour guard queueHeld s index) := by
  refine pollFuture_rule (fun task htask => ?_) fun _ => h
  refine (pollFuture_outcome htask).mono (fun _ _ => trivial) ?_
  rintro s' ⟨-, htasks, -, htaskQueue, -⟩
  have hreaches := hB task (h.tasks task (List.mem_of_getElem? htask)) s.env
  refine ⟨fun f hf => ?_, fun f hf => ?_⟩
  · rw [htasks] at hf
    rcases mem_set hf with hf | hf
    · exact h.tasks f hf
    · exact hreaches.next f hf
  · rw [htaskQueue] at hf
    rcases List.mem_append.mp hf with hf | hf
    · exact h.taskQueue f hf
    · exact hreaches.spawns f hf

/-- The slots before the index of the loop of `poll_all` have been polled, the others have not. -/
structure Reached (A B : F → Prop) (length index : ℕ) (s : Executor F W E) : Prop where
  length : s.tasks.length = length
  polled : ∀ (i : ℕ), i < index → ∀ f, s.tasks[i]? = some (some f) → B f
  others : ∀ (i : ℕ) (f : F), s.tasks[i]? = some (some f) → A f
  taskQueue : ∀ f ∈ s.taskQueue, A f

theorem pollFuture_reached (hA : Leads behaviour A B) (hBA : ∀ f, B f → A f) {length index : ℕ}
    (h : s.Reached A B length index) :
    Outcome (fun _ => True) (Reached A B length (index + 1))
      (pollFuture behaviour guard queueHeld s index) := by
  refine pollFuture_rule (fun task htask => ?_) fun hempty => ?_
  · refine (pollFuture_outcome htask).mono (fun _ _ => trivial) ?_
    rintro s' ⟨-, htasks, -, htaskQueue, -⟩
    have hreaches := hA task (h.others index task htask) s.env
    -- Only the slot at the index has changed.
    have hslot : ∀ i f, s'.tasks[i]? = some (some f) →
        B f ∨ i ≠ index ∧ s.tasks[i]? = some (some f) := by
      intro i f hf
      rw [htasks] at hf
      by_cases hi : index = i
      · subst hi
        rw [List.getElem?_set_self (List.getElem?_eq_some_iff.mp htask).1] at hf
        exact Or.inl (hreaches.next f (Option.some.inj hf))
      · rw [List.getElem?_set_ne hi] at hf
        exact Or.inr ⟨Ne.symm hi, hf⟩
    refine ⟨by rw [htasks, List.length_set, h.length], fun i hi f hf => ?_, fun i f hf => ?_,
      fun f hf => ?_⟩
    · rcases hslot i f hf with hB | ⟨hne, hf⟩
      · exact hB
      · exact h.polled i (by omega) f hf
    · rcases hslot i f hf with hB | ⟨-, hf⟩
      · exact hBA f hB
      · exact h.others i f hf
    · rw [htaskQueue] at hf
      rcases List.mem_append.mp hf with hf | hf
      · exact h.taskQueue f hf
      · exact hBA f (hreaches.spawns f hf)
  · -- nothing is polled
    refine ⟨h.length, fun i hi f hf => ?_, h.others, h.taskQueue⟩
    rcases Nat.lt_succ_iff_lt_or_eq.mp hi with hi | rfl
    · exact h.polled i hi f hf
    · exact absurd hf (hempty f)

/-- `poll_all` reaches every task. -/
theorem pollAll_holds (hA : Leads behaviour A B) (hBA : ∀ f, B f → A f) (h : s.Holds A) :
    Outcome (fun _ => True) (fun s' => s'.Tasks B ∧ ∀ f ∈ s'.taskQueue, A f)
      (s.pollAll behaviour guard) := by
  have hstart : s.Reached A B s.tasks.length 0 :=
    ⟨rfl, fun i hi => absurd hi (Nat.not_lt_zero i),
      fun i f hf => h.tasks f (List.mem_of_getElem? hf), h.taskQueue⟩
  refine (Outcome.foldlM_range' (Reached A B s.tasks.length)
    (fun k s' _ _ h' => pollFuture_reached hA hBA h') hstart).mono (fun _ h => h) ?_
  intro s' h'
  refine ⟨fun f hf => ?_, h'.taskQueue⟩
  obtain ⟨i, hi, hget⟩ := List.getElem_of_mem hf
  have hlength := h'.length
  exact h'.polled i (by omega) f (by rw [List.getElem?_eq_getElem hi, hget])

/-- `push_task` polls the new task in its slot. -/
theorem pushTask_holds (hA : Leads behaviour A B) (h : s.Holds B) {task : F} (htask : A task) :
    Outcome (fun _ => True) (fun r => r.2.Holds B) (s.pushTask behaviour guard queueHeld task) := by
  have hplaced := (s.place_facts task).1
  refine Outcome.bind ((pollFuture_outcome (s := { s with tasks := (s.place task).2 })
    hplaced).mono (fun _ _ => trivial) fun _ h => h) ?_
  rintro s' ⟨-, htasks, -, htaskQueue, -⟩
  have hreaches := hA task htask s.env
  have hlength := free_le_length s.tasks
  refine ⟨fun f hf => ?_, fun f hf => ?_⟩
  · -- the other slots are as they were
    dsimp only at hf htasks
    rw [htasks, place_eq, set_put _ hlength] at hf
    obtain ⟨i, hi, hget⟩ := List.getElem_of_mem hf
    have hslot := List.getElem?_eq_getElem hi
    rw [hget] at hslot
    by_cases hfree : i = TaskSlots.free s.tasks
    · rw [hfree, getElem?_put_self hlength] at hslot
      exact hreaches.next f (Option.some.inj hslot)
    · rw [getElem?_put_ne hlength hfree] at hslot
      exact h.tasks f (List.mem_of_getElem? hslot)
  · dsimp only at hf htaskQueue
    rw [htaskQueue] at hf
    rcases List.mem_append.mp hf with hf | hf
    · exact h.taskQueue f hf
    · exact hreaches.spawns f hf

/-- The loop over the spawn queue reaches every queued future. -/
theorem drainQueue_holds (hA : Leads behaviour A B) (h : s.Tasks B)
    (hqueue : ∀ f ∈ s.taskQueue, A f) :
    Outcome (fun _ => True) (Holds B) (s.drainQueue behaviour guard) := by
  refine Outcome.foldlM_of_mem (I := Holds B) (fun s task htask h => ?_)
    ⟨h, fun f hf => absurd hf (by simp)⟩
  refine (pushTask_holds hA h (hqueue task htask)).bind ?_
  rintro ⟨index, s₁⟩ h₁
  exact h₁

/-- `wake_pending` keeps to a condition that polls keep to. -/
theorem wakePending_holds (hB : Leads behaviour B B) (h : s.Holds B) :
    Outcome (fun _ => True) (fun r => r.2.Holds B) (s.wakePending behaviour guard) := by
  have hloop : Outcome (fun _ => True) (Holds B)
      (s.wakeQueue.foldlM (pollFuture behaviour guard false) { s with wakeQueue := [] }) :=
    Outcome.foldlM (f := pollFuture behaviour guard false) (s := { s with wakeQueue := [] })
      (fun s index h => pollFuture_holds hB h index) ⟨h.tasks, h.taskQueue⟩ s.wakeQueue
  exact hloop.bind fun s' h' => h'

/-- **A poll of a handle reaches every future.** -/
theorem handlePoll_holds (hA : Leads behaviour A B) (hB : Leads behaviour B B)
    (hBA : ∀ f, B f → A f) (h : s.Holds A) (waker : W) :
    Outcome (fun _ => True) (fun r => r.2.Holds B) (s.handlePoll behaviour guard waker) := by
  refine (pollAll_holds hA hBA h).bind fun s₁ h₁ => ?_
  refine (drainQueue_holds hA h₁.1 h₁.2).bind fun s₂ h₂ => ?_
  rw [poll_eq]
  refine (wakePending_holds hB (s := { s₂ with wakers := s₂.wakers ++ [waker] })
    ⟨h₂.tasks, h₂.taskQueue⟩).bind ?_
  rintro ⟨isEmpty, s₃⟩ h₃
  dsimp only
  split
  · exact (drainQueue_holds hB h₃.tasks h₃.taskQueue).bind fun s₄ h₄ => h₄
  · exact h₃

/-! ## Runs -/

/-- A poll of a handle. -/
def Label.isPoll : Label F W E → Bool
  | .poll _ _ => true
  | _ => false

/-- A future is handed to the executor. -/
def Label.Hands : Label F W E → Prop
  | .spawn _ => True
  | .pushTask _ => True
  | _ => False

theorem done_of_holds (h : s.Holds fun _ => False) : s.Done := by
  refine ⟨fun slot hslot => ?_, List.eq_nil_iff_forall_not_mem.mpr h.taskQueue⟩
  cases slot with
  | none => rfl
  | some f => exact absurd (h.tasks f hslot) id

/-- One step leaves the futures as far from their ends as they were, and a poll closer. -/
theorem step_holds {rank : F → ℕ} (hshrinks : Shrinks behaviour rank) {n : ℕ} {l : Label F W E}
    (hhands : ¬ l.Hands) (h : s.Holds fun f => rank f < n)
    (hstep : (system behaviour guard).step s l s') :
    s'.Holds fun f => rank f < n - if l.isPoll then 1 else 0 := by
  cases l with
  | spawn future => exact absurd trivial hhands
  | pushTask future => exact absurd trivial hhands
  | wake index =>
    obtain rfl := hstep
    exact ⟨h.tasks, h.taskQueue⟩
  | environment env =>
    obtain rfl := hstep
    exact ⟨h.tasks, h.taskQueue⟩
  | poll waker result =>
    have hpoll : pollHandle behaviour guard s waker = .ok (result, s') := hstep
    rw [pollHandle_eq] at hpoll
    show s'.Holds fun f => rank f < n - 1
    exact (handlePoll_holds (hshrinks.leads (by omega)) (hshrinks.leads (by omega))
      (fun f hf => by omega) h waker).post_of_eq_ok hpoll

/-- The futures are closer to their ends by the number of polls. -/
theorem run_holds {rank : F → ℕ} (hshrinks : Shrinks behaviour rank) {n : ℕ}
    (h : s.Holds fun f => rank f < n) {run : List (Transition (Executor F W E) (Label F W E))}
    {t : Transition (Executor F W E) (Label F W E)}
    (hrun : (system behaviour guard).IsRun s (run ++ [t]))
    (hhands : ∀ u ∈ run ++ [t], ¬ u.label.Hands) :
    t.after.Holds fun f => rank f < n - (run ++ [t]).countP fun u => u.label.isPoll := by
  induction run generalizing s n with
  | nil =>
    obtain ⟨rfl, hstep, -⟩ := hrun
    have := step_holds hshrinks (hhands t List.mem_cons_self) h hstep
    simpa [List.countP_cons] using this
  | cons u run ih =>
    obtain ⟨rfl, hstep, hrun⟩ := hrun
    have hu := step_holds hshrinks (hhands u List.mem_cons_self) h hstep
    have := ih hu hrun fun v hv => hhands v (List.mem_cons_of_mem _ hv)
    rw [List.cons_append, List.countP_cons]
    refine this.mono fun f hf => ?_
    omega

/-- **After enough polls the executor is done.** Each poll brings a future closer to its end, by the
rank; the futures start within `n` of it, and no further ones are handed to the executor. Then no
future is left after `n` polls of the handle, wherever they stand in the run. -/
theorem done_of_polls {rank : F → ℕ} (hshrinks : Shrinks behaviour rank) {n : ℕ}
    (h : s.Holds fun f => rank f < n) {run : List (Transition (Executor F W E) (Label F W E))}
    {t : Transition (Executor F W E) (Label F W E)}
    (hrun : (system behaviour guard).IsRun s (run ++ [t]))
    (hhands : ∀ u ∈ run ++ [t], ¬ u.label.Hands)
    (hpolls : n ≤ (run ++ [t]).countP fun u => u.label.isPoll) : t.after.Done := by
  have hholds := run_holds hshrinks h hrun hhands
  exact done_of_holds (hholds.mono fun f hf => by omega)

/-- A future that is polled as often as its number says, and once more. It spawns one that is polled
once less often. -/
def countdown : Behaviour ℕ Unit := fun k _ =>
  (⟨match k with | 0 => [] | k + 1 => [.spawn k], match k with | 0 => none | k + 1 => some k⟩, ())

theorem shrinks_countdown : Shrinks countdown id := by
  intro k env
  cases k with
  | zero =>
    refine ⟨fun g hg => ?_, fun g hg => ?_⟩
    · cases hg
    · cases hg
  | succ k =>
    refine ⟨fun g hg => ?_, fun g hg => ?_⟩
    · obtain rfl := Option.some.inj hg
      exact Nat.lt_succ_self _
    · obtain rfl := List.mem_singleton.mp hg
      exact Nat.lt_succ_self _

/-- Two polls, after which the task and what it has spawned are finished. -/
theorem done_of_polls_countdown :
    Done (⟨[none, none], [(), ()], [], [], [], ()⟩ : Executor ℕ Unit Unit) := by
  let s₀ : Executor ℕ Unit Unit := ⟨[some 1], [], [], [], [], ()⟩
  let s₁ : Executor ℕ Unit Unit := ⟨[some 0, none], [()], [], [], [], ()⟩
  let s₂ : Executor ℕ Unit Unit := ⟨[none, none], [(), ()], [], [], [], ()⟩
  have hrun : (system countdown .refCell).IsRun s₀
      ([⟨s₀, .poll () .ready, s₁⟩] ++ [⟨s₁, .poll () .pending, s₂⟩]) :=
    ⟨rfl, rfl, rfl, rfl, trivial⟩
  refine done_of_polls shrinks_countdown (n := 2) (s := s₀) ⟨?_, ?_⟩ hrun ?_ ?_
  · intro f hf
    obtain rfl := Option.some.inj (List.mem_singleton.mp hf)
    decide
  · intro f hf
    cases hf
  · intro u hu
    rcases List.mem_pair.mp hu with rfl | rfl <;> exact id
  · exact le_rfl

end Executor

end AsyncKernel
