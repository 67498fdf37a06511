import Mathlib.Data.List.ReduceOption
import AsyncKernel.Executor.Model

/-!
# What a poll of a handle reports

A poll of a handle first polls its tasks and the futures of its spawn queue, once each: a round. The
result it reports is computed from the tasks that are left after the round, with the two answers
exchanged, and kept when no task has been woken by then. So `Ready` is reported exactly when tasks
are left and none was woken.

## Main definitions

* `Polled.wakes`, `Polled.spawns`, `Polled.Conflicts`: what the actions of a poll come to
* `polls`: the polls of a list of futures, one after the other
* `Executor.Done`: no live task and an empty spawn queue
* `Executor.Unwoken`: the round leaves a live task and wakes none

## Main results

* `pollAll_outcome`, `drain_outcome`: the two parts of a round
* `handlePoll_ready_iff`: when a poll of a handle reports `Ready`
* `ready_done_iff_of_run`: the runs in which `Ready` is reported only when the executor is done
-/

namespace AsyncKernel

variable {F W E : Type}

/-! ## One poll of a future -/

namespace Action

/-- The index that is woken. -/
def wake? : Action F → Option ℕ
  | .wake index => some index
  | _ => none

/-- The future that is spawned. -/
def spawn? : Action F → Option F
  | .spawn future => some future
  | _ => none

/-- The action accesses a field that is held. -/
def conflicts (queueHeld : Bool) : Action F → Bool
  | .spawn _ => queueHeld
  | .wake _ => false
  | .enter => true

end Action

namespace Polled

def wakes (p : Polled F) : List ℕ := p.actions.filterMap Action.wake?

def spawns (p : Polled F) : List F := p.actions.filterMap Action.spawn?

/-- Some action accesses a field that is held. -/
def Conflicts (queueHeld : Bool) (p : Polled F) : Prop :=
  ∃ a ∈ p.actions, a.conflicts queueHeld = true

end Polled

namespace Executor

variable {behaviour : Behaviour F E} {guard : Guard} {queueHeld : Bool} {s s' s₁ : Executor F W E}

/-- What actions do: the tasks and the environment stay, and the two queues grow. -/
structure Queued (s s' : Executor F W E) (spawns : List F) (wakes : List ℕ) : Prop where
  tasks : s'.tasks = s.tasks
  env : s'.env = s.env
  taskQueue : s'.taskQueue = s.taskQueue ++ spawns
  wakeQueue : s'.wakeQueue = s.wakeQueue ++ wakes

theorem Queued.trans {spawns spawns' : List F} {wakes wakes' : List ℕ}
    (h : Queued s s₁ spawns wakes) (h' : Queued s₁ s' spawns' wakes') :
    Queued s s' (spawns ++ spawns') (wakes ++ wakes') := by
  refine ⟨h'.tasks.trans h.tasks, h'.env.trans h.env, ?_, ?_⟩
  · rw [h'.taskQueue, h.taskQueue, List.append_assoc]
  · rw [h'.wakeQueue, h.wakeQueue, List.append_assoc]

theorem act_outcome (s : Executor F W E) (a : Action F) :
    Outcome (fun _ => a.conflicts queueHeld = true)
      (fun s' => ¬ a.conflicts queueHeld = true ∧ Queued s s' a.spawn?.toList a.wake?.toList)
      (act guard queueHeld s a) := by
  cases a with
  | spawn future =>
    cases queueHeld with
    | true => exact rfl
    | false => exact ⟨by simp [Action.conflicts], rfl, rfl, rfl, by simp [spawn, Action.wake?]⟩
  | wake index => exact ⟨by simp [Action.conflicts], rfl, rfl, by simp [wake, Action.spawn?], rfl⟩
  | enter => exact rfl

theorem filterMap_cons_eq_append {α β : Type} (f : α → Option β) (a : α) (l : List α) :
    (a :: l).filterMap f = (f a).toList ++ l.filterMap f := by
  cases h : f a <;> simp [h]

theorem act_foldlM_outcome (s : Executor F W E) (actions : List (Action F)) :
    Outcome (fun _ => ∃ a ∈ actions, a.conflicts queueHeld = true)
      (fun s' => (¬ ∃ a ∈ actions, a.conflicts queueHeld = true) ∧
        Queued s s' (actions.filterMap Action.spawn?) (actions.filterMap Action.wake?))
      (actions.foldlM (act guard queueHeld) s) := by
  induction actions generalizing s with
  | nil => exact ⟨by simp, rfl, rfl, by simp, by simp⟩
  | cons a actions ih =>
    rw [List.foldlM_cons]
    -- A conflict of the first action ends the poll; otherwise the rest acts on the grown queues.
    refine ((act_outcome s a).mono (fun _ h => ⟨a, List.mem_cons_self, h⟩) fun _ h => h).bind ?_
    rintro s₁ ⟨hfree, hqueued⟩
    refine (ih s₁).mono (fun _ => ?_) fun s' => ?_
    · rintro ⟨b, hb, hconflict⟩
      exact ⟨b, List.mem_cons_of_mem _ hb, hconflict⟩
    · rintro ⟨hfree', hqueued'⟩
      refine ⟨?_, ?_⟩
      · rintro ⟨b, hb, hconflict⟩
        rcases List.mem_cons.mp hb with rfl | hb
        · exact hfree hconflict
        · exact hfree' ⟨b, hb, hconflict⟩
      · rw [filterMap_cons_eq_append, filterMap_cons_eq_append]
        exact hqueued.trans hqueued'

/-- An empty slot, or none, is not polled. -/
theorem pollFuture_empty {index : ℕ} (h : ∀ task, s.tasks[index]? ≠ some (some task)) :
    pollFuture behaviour guard queueHeld s index = .ok s := by
  unfold pollFuture
  split
  · rename_i task htask
    exact absurd htask (h task)
  · rfl

/-- A slot is polled by whether it holds a task. -/
theorem pollFuture_rule {fail : Conflict → Prop} {post : Executor F W E → Prop} {index : ℕ}
    (htask : ∀ task, s.tasks[index]? = some (some task) →
      Outcome fail post (pollFuture behaviour guard queueHeld s index))
    (hempty : (∀ task, s.tasks[index]? ≠ some (some task)) → post s) :
    Outcome fail post (pollFuture behaviour guard queueHeld s index) := by
  by_cases h : ∃ task, s.tasks[index]? = some (some task)
  · obtain ⟨task, h⟩ := h
    exact htask task h
  · have hnone : ∀ task, s.tasks[index]? ≠ some (some task) := fun task htask => h ⟨task, htask⟩
    rw [pollFuture_empty hnone]
    exact hempty hnone

/-- **One poll of a task**: its slot gets what is left of it, and its actions are performed. -/
theorem pollFuture_outcome {index : ℕ} {task : F} (h : s.tasks[index]? = some (some task)) :
    Outcome (fun _ => (behaviour task s.env).1.Conflicts queueHeld)
      (fun s' => ¬ (behaviour task s.env).1.Conflicts queueHeld ∧
        s'.tasks = s.tasks.set index (behaviour task s.env).1.next ∧
        s'.env = (behaviour task s.env).2 ∧
        s'.taskQueue = s.taskQueue ++ (behaviour task s.env).1.spawns ∧
        s'.wakeQueue = s.wakeQueue ++ (behaviour task s.env).1.wakes)
      (pollFuture behaviour guard queueHeld s index) := by
  unfold pollFuture
  rw [h]
  dsimp only
  refine (act_foldlM_outcome _ _).bind ?_
  rintro s' ⟨hfree, hqueued⟩
  refine ⟨hfree, ?_, hqueued.env, hqueued.taskQueue, hqueued.wakeQueue⟩
  dsimp only
  rw [hqueued.tasks]

end Executor

/-! ## A round -/

/-- The polls of futures, one after the other. -/
def polls (behaviour : Behaviour F E) : List F → E → List (Polled F) × E
  | [], env => ([], env)
  | task :: tasks, env =>
    let (polled, env) := behaviour task env
    let (rest, env) := polls behaviour tasks env
    (polled :: rest, env)

theorem polls_cons (behaviour : Behaviour F E) (task : F) (tasks : List F) (env : E) :
    polls behaviour (task :: tasks) env =
      ((behaviour task env).1 :: (polls behaviour tasks (behaviour task env).2).1,
        (polls behaviour tasks (behaviour task env).2).2) := rfl

namespace Executor

variable {behaviour : Behaviour F E} {guard : Guard} {queueHeld : Bool} {s s' s₁ : Executor F W E}

/-- What polls of futures have done, besides their slots. -/
structure Polls (behaviour : Behaviour F E) (queueHeld : Bool) (tasks : List F)
    (s s' : Executor F W E) : Prop where
  free : ∀ p ∈ (polls behaviour tasks s.env).1, ¬ p.Conflicts queueHeld
  env : s'.env = (polls behaviour tasks s.env).2
  taskQueue : s'.taskQueue = s.taskQueue ++ (polls behaviour tasks s.env).1.flatMap Polled.spawns
  wakeQueue : s'.wakeQueue = s.wakeQueue ++ (polls behaviour tasks s.env).1.flatMap Polled.wakes

theorem Polls.nil : Polls behaviour queueHeld [] s s :=
  ⟨by simp [polls], rfl, by simp [polls], by simp [polls]⟩

theorem Polls.cons {task : F} {tasks : List F}
    (hfree : ¬ (behaviour task s.env).1.Conflicts queueHeld)
    (henv : s₁.env = (behaviour task s.env).2)
    (htaskQueue : s₁.taskQueue = s.taskQueue ++ (behaviour task s.env).1.spawns)
    (hwakeQueue : s₁.wakeQueue = s.wakeQueue ++ (behaviour task s.env).1.wakes)
    (h : Polls behaviour queueHeld tasks s₁ s') :
    Polls behaviour queueHeld (task :: tasks) s s' := by
  obtain ⟨hfree', henv', htaskQueue', hwakeQueue'⟩ := h
  rw [henv] at hfree' henv' htaskQueue' hwakeQueue'
  refine ⟨fun p hp => ?_, henv', ?_, ?_⟩
  · rcases List.mem_cons.mp hp with rfl | hp
    · exact hfree
    · exact hfree' p hp
  · rw [htaskQueue', htaskQueue, polls_cons, List.flatMap_cons, List.append_assoc]
  · rw [hwakeQueue', hwakeQueue, polls_cons, List.flatMap_cons, List.append_assoc]

/-- Some slot holds a future. -/
def Live (tasks : List (Option F)) : Prop := ∃ task, some task ∈ tasks

/-- Some future is not finished by its poll. -/
def Unfinished (polled : List (Polled F)) : Prop := ∃ p ∈ polled, p.next.isSome = true

@[simp] theorem live_nil : Live ([] : List (Option F)) ↔ False := by simp [Live]

@[simp] theorem live_append {tasks tasks' : List (Option F)} :
    Live (tasks ++ tasks') ↔ Live tasks ∨ Live tasks' := by
  simp [Live, exists_or]

@[simp] theorem live_cons {slot : Option F} {tasks : List (Option F)} :
    Live (slot :: tasks) ↔ slot.isSome = true ∨ Live tasks := by
  cases slot <;> simp [Live]

@[simp] theorem unfinished_nil : Unfinished ([] : List (Polled F)) ↔ False := by simp [Unfinished]

@[simp] theorem unfinished_cons {p : Polled F} {polled : List (Polled F)} :
    Unfinished (p :: polled) ↔ p.next.isSome = true ∨ Unfinished polled := by
  simp [Unfinished]

/-- The part of `poll_all` from an index on: `done` are the slots before it. -/
theorem pollAll_from (rest done : List (Option F)) (hs : s.tasks = done ++ rest) :
    Outcome (fun _ => ∃ p ∈ (polls behaviour rest.reduceOption s.env).1, p.Conflicts false)
      (fun s' => Polls behaviour false rest.reduceOption s s' ∧ ∃ rest', s'.tasks = done ++ rest' ∧
        (Live rest' ↔ Unfinished (polls behaviour rest.reduceOption s.env).1))
      ((List.range' done.length rest.length).foldlM (pollFuture behaviour guard false) s) := by
  induction rest generalizing done s with
  | nil =>
    refine ⟨Polls.nil, [], hs, ?_⟩
    simp [polls]
  | cons slot rest ih =>
    have hslot : s.tasks[done.length]? = some slot := by rw [hs]; simp
    rw [List.length_cons, List.range'_succ, List.foldlM_cons]
    cases slot with
    | none =>
      -- an empty slot is skipped and stays empty
      have hempty : pollFuture behaviour guard false s done.length = .ok s :=
        pollFuture_empty fun task htask => by
          rw [hslot] at htask
          cases htask
      rw [hempty, ok_bind, List.reduceOption_cons_of_none]
      have hih := ih (done ++ [none]) (by rw [hs]; simp)
      rw [List.length_append] at hih
      refine hih.mono (fun _ h => h) ?_
      rintro s' ⟨hpolls, rest', htasks, hlive⟩
      refine ⟨hpolls, none :: rest', by rw [htasks]; simp, ?_⟩
      rw [← hlive]
      simp
    | some task =>
      -- the task is polled, and its slot keeps what is left of it
      rw [List.reduceOption_cons_of_some, polls_cons]
      refine ((pollFuture_outcome hslot).mono
        (fun _ h => ⟨_, List.mem_cons_self, h⟩) fun _ h => h).bind ?_
      rintro s₁ ⟨hfree, htasks₁, henv₁, htaskQueue₁, hwakeQueue₁⟩
      have hih := ih (done ++ [(behaviour task s.env).1.next]) (s := s₁) (by
        rw [htasks₁, hs]
        simp)
      rw [List.length_append, henv₁] at hih
      refine hih.mono (fun _ => ?_) ?_
      · rintro ⟨p, hp, hconflict⟩
        exact ⟨p, List.mem_cons_of_mem _ hp, hconflict⟩
      · rintro s' ⟨hpolls, rest', htasks, hlive⟩
        refine ⟨Polls.cons hfree henv₁ htaskQueue₁ hwakeQueue₁ hpolls,
          (behaviour task s.env).1.next :: rest', by rw [htasks]; simp, ?_⟩
        rw [live_cons, unfinished_cons, hlive]

/-- **`poll_all`**: every live task is polled once. -/
theorem pollAll_outcome (s : Executor F W E) :
    Outcome (fun _ => ∃ p ∈ (polls behaviour s.tasks.reduceOption s.env).1, p.Conflicts false)
      (fun s' => Polls behaviour false s.tasks.reduceOption s s' ∧
        (Live s'.tasks ↔ Unfinished (polls behaviour s.tasks.reduceOption s.env).1))
      (s.pollAll behaviour guard) := by
  refine (pollAll_from s.tasks [] rfl).mono (fun _ h => h) ?_
  rintro s' ⟨hpolls, rest', htasks, hlive⟩
  refine ⟨hpolls, ?_⟩
  rw [htasks, List.nil_append, hlive]

theorem live_set_of_empty {tasks : List (Option F)} {index : ℕ} (h : tasks[index]? = some none)
    (slot : Option F) : Live (tasks.set index slot) ↔ Live tasks ∨ slot.isSome = true := by
  obtain ⟨hlt, hget⟩ := List.getElem?_eq_some_iff.mp h
  rw [List.set_eq_take_append_cons_drop, if_pos hlt]
  conv_rhs => rw [← List.take_append_drop index tasks, List.drop_eq_getElem_cons hlt, hget]
  simp
  tauto

/-- A new task gets a slot that was empty. -/
theorem place_facts (s : Executor F W E) (task : F) :
    (s.place task).2[(s.place task).1]? = some (some task) ∧ ∀ slot,
      (Live ((s.place task).2.set (s.place task).1 slot) ↔ Live s.tasks ∨ slot.isSome = true) := by
  unfold place
  cases hfind : s.tasks.findIdx? Option.isNone with
  | some index =>
    obtain ⟨hlt, hnone, -⟩ := List.findIdx?_eq_some_iff_getElem.mp hfind
    have hslot : s.tasks[index]? = some none := by
      rw [List.getElem?_eq_getElem hlt, Option.isNone_iff_eq_none.mp hnone]
    refine ⟨by simp [hlt], fun slot => ?_⟩
    rw [List.set_set, live_set_of_empty hslot]
  | none =>
    refine ⟨by simp, fun slot => ?_⟩
    rw [List.set_append_right _ _ le_rfl]
    simp

/-- **`push_task`**: the task is polled once, in a slot that was empty. -/
theorem pushTask_outcome (s : Executor F W E) (task : F) :
    Outcome (fun _ => (behaviour task s.env).1.Conflicts queueHeld)
      (fun r => ¬ (behaviour task s.env).1.Conflicts queueHeld ∧
        r.2.env = (behaviour task s.env).2 ∧
        r.2.taskQueue = s.taskQueue ++ (behaviour task s.env).1.spawns ∧
        r.2.wakeQueue = s.wakeQueue ++ (behaviour task s.env).1.wakes ∧
        (Live r.2.tasks ↔ Live s.tasks ∨ (behaviour task s.env).1.next.isSome = true))
      (s.pushTask behaviour guard queueHeld task) := by
  obtain ⟨hplaced, hlive⟩ := s.place_facts task
  refine (pollFuture_outcome (s := { s with tasks := (s.place task).2 }) hplaced).bind ?_
  rintro s' ⟨hfree, htasks, henv, htaskQueue, hwakeQueue⟩
  refine ⟨hfree, henv, htaskQueue, hwakeQueue, ?_⟩
  dsimp only at htasks ⊢
  rw [htasks, hlive]

/-- The loop over the spawn queue: every queued future is polled once. -/
theorem drain_outcome (queue : List F) (s : Executor F W E) :
    Outcome (fun _ => ∃ p ∈ (polls behaviour queue s.env).1, p.Conflicts true)
      (fun s' => Polls behaviour true queue s s' ∧
        (Live s'.tasks ↔ Live s.tasks ∨ Unfinished (polls behaviour queue s.env).1))
      (queue.foldlM (fun s task => do
        let (_, s) ← pushTask behaviour guard true s task
        return s) s) := by
  -- On the queue: the first future is placed and polled, and the others follow in the state it
  -- leaves.
  induction queue generalizing s with
  | nil => exact ⟨Polls.nil, by simp [polls]⟩
  | cons task queue ih =>
    rw [List.foldlM_cons, polls_cons, bind_assoc]
    refine ((pushTask_outcome s task).mono
      (fun _ h => ⟨_, List.mem_cons_self, h⟩) fun _ h => h).bind ?_
    rintro ⟨index, s₁⟩ ⟨hfree, henv, htaskQueue, hwakeQueue, hlive⟩
    dsimp only at henv htaskQueue hwakeQueue hlive
    have hih := ih s₁
    rw [henv] at hih
    refine hih.mono (fun _ => ?_) ?_
    · rintro ⟨p, hp, hconflict⟩
      exact ⟨p, List.mem_cons_of_mem _ hp, hconflict⟩
    · rintro s' ⟨hpolls, hlive'⟩
      refine ⟨Polls.cons hfree henv htaskQueue hwakeQueue hpolls, ?_⟩
      rw [hlive', hlive, unfinished_cons, or_assoc]

/-! ## The result -/

/-- The polls of a round: of the live tasks, and of the spawn queue with what these have spawned. -/
def round (behaviour : Behaviour F E) (s : Executor F W E) : List (Polled F) × List (Polled F) :=
  let first := polls behaviour s.tasks.reduceOption s.env
  (first.1, (polls behaviour (s.taskQueue ++ first.1.flatMap Polled.spawns) first.2).1)

/-- A round without conflicts. -/
def RoundFree (behaviour : Behaviour F E) (s : Executor F W E) : Prop :=
  (∀ p ∈ (s.round behaviour).1, ¬ p.Conflicts false) ∧
    ∀ p ∈ (s.round behaviour).2, ¬ p.Conflicts true

/-- **A round.** It fails exactly on a conflict. -/
theorem round_outcome (behaviour : Behaviour F E) (guard : Guard) (s : Executor F W E) :
    Outcome (fun _ => ¬ s.RoundFree behaviour)
      (fun s' => s.RoundFree behaviour ∧
        s'.wakeQueue = s.wakeQueue ++ (s.round behaviour).1.flatMap Polled.wakes ++
          (s.round behaviour).2.flatMap Polled.wakes ∧
        (Live s'.tasks ↔
          Unfinished (s.round behaviour).1 ∨ Unfinished (s.round behaviour).2))
      (do
        let s ← s.pollAll behaviour guard
        s.drainQueue behaviour guard) := by
  refine ((pollAll_outcome s).mono (fun _ => ?_) fun _ h => h).bind ?_
  · rintro ⟨p, hp, hconflict⟩ hfree
    exact hfree.1 p hp hconflict
  · rintro s₁ ⟨hpolls, hlive⟩
    -- What the live tasks have spawned stands behind what was queued before.
    have hqueue : (polls behaviour s₁.taskQueue s₁.env).1 = (s.round behaviour).2 := by
      rw [hpolls.taskQueue, hpolls.env]
      rfl
    refine (drain_outcome s₁.taskQueue { s₁ with taskQueue := [] }).mono (fun _ => ?_) ?_
    · rintro ⟨p, hp, hconflict⟩ hfree
      exact hfree.2 p (hqueue ▸ hp) hconflict
    · rintro s' ⟨hpolls', hlive'⟩
      have hwakeQueue := hpolls'.wakeQueue
      have hfree := hpolls'.free
      dsimp only at hwakeQueue hfree hlive'
      rw [hqueue] at hwakeQueue hfree hlive'
      refine ⟨⟨hpolls.free, hfree⟩, ?_, ?_⟩
      · rw [hwakeQueue, hpolls.wakeQueue]
        rfl
      · rw [hlive', hlive]
        rfl

theorem checkIfDone_eq_false_iff : s.checkIfDone = false ↔ Live s.tasks := by
  simp only [checkIfDone, Bool.not_eq_false', List.any_eq_true, Live]
  constructor
  · rintro ⟨slot, hslot, hsome⟩
    obtain ⟨task, rfl⟩ := Option.isSome_iff_exists.mp hsome
    exact ⟨task, hslot⟩
  · rintro ⟨task, htask⟩
    exact ⟨_, htask, rfl⟩

/-- What is left of a poll of a handle after the round. -/
def finishPoll (behaviour : Behaviour F E) (guard : Guard) (s : Executor F W E) (waker : W) :
    Except Conflict (Poll × Executor F W E) := do
  let (r, s) := s.poll waker
  let (isEmpty, s) ← s.wakePending behaviour guard
  if isEmpty = false then
    let s ← s.drainQueue behaviour guard
    return (.pending, s)
  else
    return (r, s)

theorem handlePoll_eq (s : Executor F W E) (waker : W) :
    s.handlePoll behaviour guard waker = (do
      let s ← (do
        let s ← s.pollAll behaviour guard
        s.drainQueue behaviour guard)
      s.finishPoll behaviour guard waker) := by
  rw [handlePoll, bind_assoc]
  rfl

theorem poll_eq (s : Executor F W E) (waker : W) :
    s.poll waker = (if s.checkIfDone then .pending else .ready,
      { s with wakers := s.wakers ++ [waker] }) := by
  show (if s.checkIfDone then _ else _) = _
  cases s.checkIfDone <;> rfl

theorem wakePending_of_nil (h : s.wakeQueue = []) :
    s.wakePending behaviour guard = .ok (true, s) := by
  rw [wakePending, h]
  show Except.ok (true, { s with wakeQueue := [] }) = _
  rw [← h]

theorem wakePending_isEmpty {isEmpty : Bool}
    (h : s.wakePending behaviour guard = .ok (isEmpty, s')) : isEmpty = s.wakeQueue.isEmpty := by
  obtain ⟨s₁, -, h⟩ := bind_eq_ok_iff.mp h
  exact (congrArg Prod.fst (Except.ok.inj h)).symm

/-- With a wake queue that is not empty the result is `Pending`. Otherwise nothing is polled, and
the result is `Ready` when a task is live. -/
theorem finishPoll_eq_ready_iff {waker : W} :
    s.finishPoll behaviour guard waker = .ok (.ready, s') ↔
      s.wakeQueue = [] ∧ Live s.tasks ∧ s' = { s with wakers := s.wakers ++ [waker] } := by
  rw [finishPoll, poll_eq]
  dsimp only
  -- Whether a task was woken by the round, or before it, decides if the answer is kept.
  by_cases hqueue : s.wakeQueue = []
  · -- none was woken: the answer of `poll`, `Ready` for a live task
    have hpending : wakePending behaviour guard { s with wakers := s.wakers ++ [waker] } = _ :=
      wakePending_of_nil hqueue
    rw [hpending, ok_bind, if_neg (by simp), ← checkIfDone_eq_false_iff]
    cases s.checkIfDone with
    | true => simp [pure, Except.pure]
    | false => simp [pure, Except.pure, hqueue, eq_comm]
  · constructor
    · intro h
      -- some task was woken: whatever its poll does, the answer is `Pending`
      obtain ⟨⟨isEmpty, s₁⟩, hpending, h⟩ := bind_eq_ok_iff.mp h
      have hfalse : isEmpty = false :=
        (wakePending_isEmpty hpending).trans (List.isEmpty_eq_false_iff.mpr hqueue)
      rw [if_pos hfalse] at h
      obtain ⟨s₂, -, h⟩ := bind_eq_ok_iff.mp h
      cases h
    · rintro ⟨hnil, -⟩
      exact absurd hnil hqueue

/-- The round of a poll leaves a live task and wakes none. -/
structure Unwoken (behaviour : Behaviour F E) (s : Executor F W E) : Prop where
  wakeQueue : s.wakeQueue = []
  free : s.RoundFree behaviour
  wakes : ∀ p, p ∈ (s.round behaviour).1 ∨ p ∈ (s.round behaviour).2 → p.wakes = []
  unfinished : Unfinished (s.round behaviour).1 ∨ Unfinished (s.round behaviour).2

/-- **When a poll of a handle reports `Ready`**: its round leaves a live task and wakes none. -/
theorem handlePoll_ready_iff {waker : W} :
    (∃ s', s.handlePoll behaviour guard waker = .ok (.ready, s')) ↔ s.Unwoken behaviour := by
  have hround := round_outcome behaviour guard s
  rw [handlePoll_eq]
  constructor
  · rintro ⟨s', h⟩
    obtain ⟨s₁, hs₁, hfinish⟩ := bind_eq_ok_iff.mp h
    obtain ⟨hfree, hwakeQueue, hlive⟩ := hround.post_of_eq_ok hs₁
    obtain ⟨hnil, hlive', -⟩ := finishPoll_eq_ready_iff.mp hfinish
    rw [hwakeQueue, List.append_eq_nil_iff, List.append_eq_nil_iff, List.flatMap_eq_nil_iff,
      List.flatMap_eq_nil_iff] at hnil
    refine ⟨hnil.1.1, hfree, fun p hp => ?_, hlive.mp hlive'⟩
    rcases hp with hp | hp
    · exact hnil.1.2 p hp
    · exact hnil.2 p hp
  · rintro ⟨hqueue, hfree, hwakes, hunfinished⟩
    obtain ⟨s₁, hs₁, -, hwakeQueue, hlive⟩ := hround.exists_ok fun _ h => absurd hfree h
    refine ⟨_, bind_eq_ok_iff.mpr ⟨s₁, hs₁, finishPoll_eq_ready_iff.mpr ⟨?_, hlive.mpr hunfinished,
      rfl⟩⟩⟩
    rw [hwakeQueue, hqueue, List.flatMap_eq_nil_iff.mpr fun p hp => hwakes p (Or.inl hp),
      List.flatMap_eq_nil_iff.mpr fun p hp => hwakes p (Or.inr hp)]
    rfl

/-- A poll that reports `Ready` leaves a live task. -/
theorem live_of_handlePoll_ready {waker : W}
    (h : s.handlePoll behaviour guard waker = .ok (.ready, s')) : Live s'.tasks := by
  rw [handlePoll_eq] at h
  obtain ⟨s₁, -, hfinish⟩ := bind_eq_ok_iff.mp h
  obtain ⟨-, hlive, rfl⟩ := finishPoll_eq_ready_iff.mp hfinish
  exact hlive

/-- No slot holds a future, and none is waiting in the spawn queue. -/
structure Done (s : Executor F W E) : Prop where
  tasks : ∀ slot ∈ s.tasks, slot = none
  taskQueue : s.taskQueue = []

theorem Done.not_live (h : s.Done) : ¬ Live s.tasks := by
  rintro ⟨task, htask⟩
  cases h.tasks _ htask

/-- **The runs in which `Ready` is reported only when the executor is done**: those without a poll
in whose round a live task is left and none is woken. -/
theorem ready_done_iff_of_run {env : E} {run : List (Transition (Executor F W E) (Label F W E))}
    (h : (system behaviour guard).IsRun (new env) run) :
    (∀ t ∈ run, ∀ waker, t.label = .poll waker .ready → t.after.Done) ↔
      ∀ t ∈ run, ∀ waker result, t.label = .poll waker result → ¬ t.before.Unwoken behaviour := by
  -- Every poll of the run is a call of the handle that returned.
  have hpoll : ∀ t ∈ run, ∀ waker result, t.label = .poll waker result →
      t.before.handlePoll behaviour guard waker = .ok (result, t.after) := by
    intro t ht waker result hlabel
    have hstep := h.step ht
    rw [hlabel] at hstep
    rw [← pollHandle_eq]
    exact hstep
  constructor
  · -- Such a poll reports `Ready`, whatever its label says, and leaves a live task.
    intro hdone t ht waker result hlabel hunwoken
    obtain ⟨s', hready⟩ := handlePoll_ready_iff.mpr hunwoken
    have hsame := (hpoll t ht waker result hlabel).symm.trans hready
    obtain ⟨rfl, rfl⟩ := Prod.mk.inj (Except.ok.inj hsame)
    exact (hdone t ht waker hlabel).not_live (live_of_handlePoll_ready hready)
  · -- Without such polls `Ready` is never reported.
    intro hwoken t ht waker hlabel
    exact absurd (handlePoll_ready_iff.mp ⟨_, hpoll t ht waker .ready hlabel⟩)
      (hwoken t ht waker .ready hlabel)

/-! ## A future that finishes and a future that sleeps -/

/-- `true` finishes at once, and `false` never and wakes nothing. -/
def sleeper : Behaviour Bool Unit := fun finishes _ =>
  (⟨[], if finishes then none else some false⟩, ())

/-- A future is spawned, and the handle is polled. -/
def spawnPoll (future : Bool) (result : Poll) (after : Executor Bool Unit Unit) :
    List (Transition (Executor Bool Unit Unit) (Label Bool Unit Unit)) :=
  [⟨new (), .spawn future, (new ()).spawn future⟩,
    ⟨(new ()).spawn future, .poll () result, after⟩]

/-- A future that finishes: the poll reports `Pending`. -/
theorem ready_done_iff_of_run_finished :
    (system sleeper .refCell).IsRun (new ())
        (spawnPoll true .pending ⟨[none], [()], [], [], [], ()⟩) ∧
      ∀ t ∈ spawnPoll true .pending ⟨[none], [()], [], [], [], ()⟩, ∀ waker,
        t.label = .poll waker .ready → t.after.Done := by
  have hrun : (system sleeper .refCell).IsRun (new ())
      (spawnPoll true .pending ⟨[none], [()], [], [], [], ()⟩) := ⟨rfl, rfl, rfl, rfl, trivial⟩
  refine ⟨hrun, (ready_done_iff_of_run hrun).mpr fun t ht waker result hlabel hunwoken => ?_⟩
  rcases List.mem_pair.mp ht with rfl | rfl
  · cases hlabel
  · rcases hunwoken.unfinished with ⟨p, hp, hnext⟩ | ⟨p, hp, hnext⟩
    · cases hp
    · rw [List.mem_singleton.mp hp] at hnext
      cases hnext

/-- A future that sleeps: the poll reports `Ready` with the future in its slot. -/
theorem not_ready_done_sleeping :
    (system sleeper .refCell).IsRun (new ())
        (spawnPoll false .ready ⟨[some false], [()], [], [], [], ()⟩) ∧
      ¬ ∀ t ∈ spawnPoll false .ready ⟨[some false], [()], [], [], [], ()⟩, ∀ waker,
        t.label = .poll waker .ready → t.after.Done := by
  refine ⟨⟨rfl, rfl, rfl, rfl, trivial⟩, fun h => ?_⟩
  have hdone := h _ (List.mem_cons_of_mem _ List.mem_cons_self) () rfl
  cases hdone.tasks (some false) List.mem_cons_self

end Executor

end AsyncKernel
