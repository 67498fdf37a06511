import AsyncKernel.Executor.Round

/-!
# The polls of one poll of a handle

A poll of a handle polls futures in four places: the live tasks, the spawn queue, the woken tasks
and what these have spawned. The spawn queue is held in the second and in the fourth. Which futures
are polled, in which order and what they do is a function of the executor and of the behaviour of
the futures, with no regard to what is held; the first action in this schedule that accesses
something held is where the poll of the handle stops.

## Main definitions

* `TaskSlots`: the slots and the environment, all that the schedule depends on
* `Executor.schedule`: the polls of futures in a poll of a handle, with whether the queue is held
* `Executor.firstConflict`: the first access to something that is held
* `Executor.SpawnsWhenStarted`: this is a spawn by a future from the spawn queue

## Main results

* `Executor.handlePoll_outcome`: a poll of a handle follows its schedule
* `Executor.queue_conflict_iff`: when a poll of a handle accesses the queue while it holds it
-/

namespace AsyncKernel

variable {F W E : Type}

/-! ## The schedule -/

/-- The field that an action accesses although it is held. -/
def Action.conflict? (queueHeld : Bool) : Action F → Option Held
  | .spawn _ => if queueHeld then some .queue else none
  | .wake _ => none
  | .enter => some .executor

/-- The first field that a poll accesses although it is held. -/
def Polled.conflict? (queueHeld : Bool) (p : Polled F) : Option Held :=
  p.actions.findSome? (Action.conflict? queueHeld)

/-- The slots of an executor, and the environment. -/
structure TaskSlots (F E : Type) where
  tasks : List (Option F)
  env : E

namespace TaskSlots

variable (behaviour : Behaviour F E)

/-- The first empty slot, or one more. -/
def free (tasks : List (Option F)) : ℕ := (tasks.findIdx? Option.isNone).getD tasks.length

/-- The slots with one of them replaced, or one more. -/
def put (tasks : List (Option F)) (index : ℕ) (slot : Option F) : List (Option F) :=
  if index < tasks.length then tasks.set index slot else tasks ++ [slot]

/-- A poll of the task in a slot. -/
def pollAt (s : TaskSlots F E) (index : ℕ) : List (Polled F) × TaskSlots F E :=
  match s.tasks[index]? with
  | some (some task) =>
    let (polled, env) := behaviour task s.env
    ([polled], ⟨s.tasks.set index polled.next, env⟩)
  | _ => ([], s)

/-- The first poll of a new task, which gets the first empty slot. -/
def start (s : TaskSlots F E) (task : F) : List (Polled F) × TaskSlots F E :=
  let (polled, env) := behaviour task s.env
  ([polled], ⟨put s.tasks (free s.tasks) polled.next, env⟩)

/-- Polls one after the other. -/
def each {α : Type} (f : TaskSlots F E → α → List (Polled F) × TaskSlots F E) :
    List α → TaskSlots F E → List (Polled F) × TaskSlots F E
  | [], s => ([], s)
  | a :: as, s =>
    let (polled, s) := f s a
    let (rest, s) := each f as s
    (polled ++ rest, s)

end TaskSlots

namespace Executor

/-- The slots of an executor, and its environment. -/
def slots (s : Executor F W E) : TaskSlots F E := ⟨s.tasks, s.env⟩

section Schedule

variable (behaviour : Behaviour F E) (s : Executor F W E)

/-- The polls of `poll_all`. -/
def livePolls : List (Polled F) × TaskSlots F E :=
  TaskSlots.each (TaskSlots.pollAt behaviour) (List.range' 0 s.tasks.length) s.slots

/-- The polls of the loop over the spawn queue. -/
def queuedPolls : List (Polled F) × TaskSlots F E :=
  TaskSlots.each (TaskSlots.start behaviour)
    (s.taskQueue ++ (s.livePolls behaviour).1.flatMap Polled.spawns) (s.livePolls behaviour).2

/-- The polls of `wake_pending`. -/
def wokenPolls : List (Polled F) × TaskSlots F E :=
  TaskSlots.each (TaskSlots.pollAt behaviour)
    (s.wakeQueue ++ (s.livePolls behaviour).1.flatMap Polled.wakes ++
      (s.queuedPolls behaviour).1.flatMap Polled.wakes)
    (s.queuedPolls behaviour).2

/-- The polls of the loop over the spawn queue after `wake_pending`. -/
def spawnedPolls : List (Polled F) × TaskSlots F E :=
  TaskSlots.each (TaskSlots.start behaviour) ((s.wokenPolls behaviour).1.flatMap Polled.spawns)
    (s.wokenPolls behaviour).2

/-- **The polls of futures in a poll of a handle**, in order, with whether the queue is held. -/
def schedule : List (Bool × Polled F) :=
  (s.livePolls behaviour).1.map (false, ·) ++ (s.queuedPolls behaviour).1.map (true, ·) ++
    (s.wokenPolls behaviour).1.map (false, ·) ++ (s.spawnedPolls behaviour).1.map (true, ·)

/-- The first access of the schedule to something that is held. -/
def firstConflict : Option Held := (s.schedule behaviour).findSome? fun p => p.2.conflict? p.1

/-- **A future spawns when it is started from the spawn queue**, and the call gets there: no earlier
poll of the schedule accesses something held, and the future only wakes tasks before it spawns. -/
def SpawnsWhenStarted : Prop :=
  ∃ earlier p later, s.schedule behaviour = earlier ++ (true, p) :: later ∧
    (∀ q ∈ earlier, q.2.conflict? q.1 = none) ∧
    ∃ wakes future rest, p.actions = wakes ++ .spawn future :: rest ∧
      ∀ a ∈ wakes, ∃ index, a = .wake index

end Schedule

/-! ## A poll of a handle follows its schedule -/

variable {behaviour : Behaviour F E} {guard : Guard} {queueHeld : Bool} {s s' : Executor F W E}

/-- What is left of a computation that polls futures: it stops at the first access to something held
and otherwise leaves the slots, the environment and the two queues as the polls do. -/
def Follows (guard : Guard) (queueHeld : Bool) (s : Executor F W E)
    (polls : List (Polled F) × TaskSlots F E) : Except Conflict (Executor F W E) → Prop :=
  Outcome (fun e => e.guard = guard ∧ polls.1.findSome? (Polled.conflict? queueHeld) = some e.field)
    fun s' => polls.1.findSome? (Polled.conflict? queueHeld) = none ∧ s'.slots = polls.2 ∧
      s'.taskQueue = s.taskQueue ++ polls.1.flatMap Polled.spawns ∧
      s'.wakeQueue = s.wakeQueue ++ polls.1.flatMap Polled.wakes

/-- The first action that accesses something held is where a poll of a future stops. -/
theorem act_foldlM_field (s : Executor F W E) (actions : List (Action F)) :
    Outcome (fun e => e.guard = guard ∧
        actions.findSome? (Action.conflict? queueHeld) = some e.field)
      (fun _ => actions.findSome? (Action.conflict? queueHeld) = none)
      (actions.foldlM (act guard queueHeld) s) := by
  induction actions generalizing s with
  | nil => exact rfl
  | cons a actions ih =>
    rw [List.foldlM_cons, List.findSome?_cons]
    cases a with
    | spawn future =>
      cases queueHeld with
      | true => exact ⟨rfl, rfl⟩
      | false => exact ih (s.spawn future)
    | wake index => exact ih (s.wake index)
    | enter => exact ⟨rfl, rfl⟩

theorem pollFuture_follows (s : Executor F W E) (index : ℕ) :
    Follows guard queueHeld s (s.slots.pollAt behaviour index)
      (pollFuture behaviour guard queueHeld s index) := by
  refine pollFuture_rule (fun task htask => ?_) fun hnone => ?_
  · have hfield : Outcome (fun e => e.guard = guard ∧
          (behaviour task s.env).1.conflict? queueHeld = some e.field)
        (fun _ => (behaviour task s.env).1.conflict? queueHeld = none)
        (pollFuture behaviour guard queueHeld s index) := by
      unfold pollFuture
      rw [htask]
      exact (act_foldlM_field _ _).bind fun _ h => h
    have hpollAt : s.slots.pollAt behaviour index = ([(behaviour task s.env).1],
        ⟨s.tasks.set index (behaviour task s.env).1.next, (behaviour task s.env).2⟩) := by
      simp only [TaskSlots.pollAt, slots, htask]
    rw [hpollAt]
    refine ((pollFuture_outcome htask).and hfield).mono ?_ ?_
    · rintro e ⟨-, hguard, hconflict⟩
      exact ⟨hguard, by simp [hconflict]⟩
    · rintro s' ⟨⟨-, htasks, henv, htaskQueue, hwakeQueue⟩, hconflict⟩
      refine ⟨by simp [hconflict], ?_, by simpa using htaskQueue, by simpa using hwakeQueue⟩
      rw [slots, htasks, henv]
  · -- no task in the slot
    have hpollAt : s.slots.pollAt behaviour index = ([], s.slots) := by
      unfold TaskSlots.pollAt
      split
      · rename_i task htask
        exact absurd htask (hnone task)
      · rfl
    rw [hpollAt]
    exact ⟨rfl, rfl, by simp, by simp⟩

/-- A new task gets the first empty slot, or one more. -/
theorem place_eq (s : Executor F W E) (task : F) :
    s.place task = (TaskSlots.free s.tasks,
      TaskSlots.put s.tasks (TaskSlots.free s.tasks) (some task)) := by
  unfold place TaskSlots.free TaskSlots.put
  cases hfind : s.tasks.findIdx? Option.isNone with
  | some index =>
    obtain ⟨hlt, -⟩ := List.findIdx?_eq_some_iff_getElem.mp hfind
    simp [hlt]
  | none => simp

theorem free_le_length (tasks : List (Option F)) : TaskSlots.free tasks ≤ tasks.length := by
  unfold TaskSlots.free
  cases hfind : tasks.findIdx? Option.isNone with
  | some index =>
    obtain ⟨hlt, -⟩ := List.findIdx?_eq_some_iff_getElem.mp hfind
    exact hlt.le
  | none => exact le_rfl

/-- The slot that a new task gets is empty. -/
theorem getElem?_free (tasks : List (Option F)) (task : F) :
    tasks[TaskSlots.free tasks]? ≠ some (some task) := by
  unfold TaskSlots.free
  cases hfind : tasks.findIdx? Option.isNone with
  | some index =>
    obtain ⟨hlt, hnone, -⟩ := List.findIdx?_eq_some_iff_getElem.mp hfind
    rw [Option.getD_some, List.getElem?_eq_getElem hlt, Option.isNone_iff_eq_none.mp hnone]
    simp
  | none => simp

theorem getElem?_put_self {tasks : List (Option F)} {index : ℕ} (h : index ≤ tasks.length)
    (slot : Option F) : (TaskSlots.put tasks index slot)[index]? = some slot := by
  unfold TaskSlots.put
  split
  · rename_i hlt
    simp [hlt]
  · obtain rfl : index = tasks.length := by omega
    simp

theorem getElem?_put_ne {tasks : List (Option F)} {index j : ℕ} (h : index ≤ tasks.length)
    (hne : j ≠ index) (slot : Option F) : (TaskSlots.put tasks index slot)[j]? = tasks[j]? := by
  unfold TaskSlots.put
  split
  · exact List.getElem?_set_ne hne.symm
  · obtain rfl : index = tasks.length := by omega
    by_cases hlt : j < tasks.length
    · exact List.getElem?_append_left hlt
    · rw [List.getElem?_eq_none (by simp; omega), List.getElem?_eq_none (by omega)]

theorem set_put (tasks : List (Option F)) {index : ℕ} (h : index ≤ tasks.length)
    (slot slot' : Option F) :
    (TaskSlots.put tasks index slot).set index slot' = TaskSlots.put tasks index slot' := by
  unfold TaskSlots.put
  split
  · rw [List.set_set]
  · obtain rfl : index = tasks.length := by omega
    rw [List.set_append_right _ _ le_rfl]
    simp

theorem pushTask_follows (s : Executor F W E) (task : F) :
    Follows guard queueHeld s (s.slots.start behaviour task) (do
      let (_, s) ← pushTask behaviour guard queueHeld s task
      return s) := by
  have hfree := free_le_length s.tasks
  -- `push_task` is a poll of the slot that the task has been put into.
  have hstart : s.slots.start behaviour task =
      ({ s with tasks := TaskSlots.put s.tasks (TaskSlots.free s.tasks) (some task) } :
        Executor F W E).slots.pollAt behaviour (TaskSlots.free s.tasks) := by
    simp only [TaskSlots.start, TaskSlots.pollAt, slots, getElem?_put_self hfree, set_put _ hfree]
  rw [hstart, pushTask, place_eq, bind_assoc]
  exact (pollFuture_follows _ _).bind fun _ h => h

/-- **The rule of a loop that polls futures.** -/
theorem foldlM_follows {α : Type} {f : TaskSlots F E → α → List (Polled F) × TaskSlots F E}
    {g : Executor F W E → α → Except Conflict (Executor F W E)}
    (h : ∀ s a, Follows guard queueHeld s (f s.slots a) (g s a)) (l : List α)
    (s : Executor F W E) :
    Follows guard queueHeld s (TaskSlots.each f l s.slots) (l.foldlM g s) := by
  induction l generalizing s with
  | nil => exact ⟨rfl, rfl, by simp [TaskSlots.each], by simp [TaskSlots.each]⟩
  | cons a l ih =>
    have heach : TaskSlots.each f (a :: l) s.slots =
        ((f s.slots a).1 ++ (TaskSlots.each f l (f s.slots a).2).1,
          (TaskSlots.each f l (f s.slots a).2).2) := rfl
    rw [List.foldlM_cons, heach]
    -- A conflict of the first poll ends the loop; otherwise the rest follows the slots it leaves.
    refine ((h s a).mono ?_ fun _ h => h).bind ?_
    · rintro e ⟨hguard, hconflict⟩
      exact ⟨hguard, by simp [List.findSome?_append, hconflict]⟩
    · rintro s₁ ⟨hnone, hslots, htaskQueue, hwakeQueue⟩
      have hrest := ih s₁
      rw [hslots] at hrest
      refine hrest.mono ?_ ?_
      · rintro e ⟨hguard, hconflict⟩
        exact ⟨hguard, by simp [List.findSome?_append, hnone, hconflict]⟩
      · rintro s' ⟨hnone', hslots', htaskQueue', hwakeQueue'⟩
        refine ⟨by simp [List.findSome?_append, hnone, hnone'], hslots', ?_, ?_⟩
        · rw [htaskQueue', htaskQueue, List.flatMap_append, List.append_assoc]
        · rw [hwakeQueue', hwakeQueue, List.flatMap_append, List.append_assoc]

theorem drainQueue_follows (s : Executor F W E) :
    Follows guard true { s with taskQueue := [] }
      (TaskSlots.each (TaskSlots.start behaviour) s.taskQueue s.slots)
      (s.drainQueue behaviour guard) :=
  foldlM_follows pushTask_follows s.taskQueue { s with taskQueue := [] }

/-- A future that accesses nothing held while the queue is held does not spawn. -/
theorem flatMap_spawns_eq_nil {polled : List (Polled F)}
    (h : polled.findSome? (Polled.conflict? true) = none) : polled.flatMap Polled.spawns = [] := by
  refine List.flatMap_eq_nil_iff.mpr fun p hp => List.filterMap_eq_nil_iff.mpr fun a ha => ?_
  have ha := List.findSome?_eq_none_iff.mp (List.findSome?_eq_none_iff.mp h p hp) a ha
  cases a with
  | spawn future => cases ha
  | wake index => rfl
  | enter => rfl

theorem firstConflict_eq (behaviour : Behaviour F E) (s : Executor F W E) :
    s.firstConflict behaviour =
      ((((s.livePolls behaviour).1.findSome? (Polled.conflict? false)).or
        ((s.queuedPolls behaviour).1.findSome? (Polled.conflict? true))).or
        ((s.wokenPolls behaviour).1.findSome? (Polled.conflict? false))).or
        ((s.spawnedPolls behaviour).1.findSome? (Polled.conflict? true)) := by
  simp only [firstConflict, schedule, List.findSome?_append, List.findSome?_map]
  rfl

/-- `wake_pending`: the tasks of the wake queue are polled. -/
theorem wakePending_outcome (s : Executor F W E) {woken : List (Polled F) × TaskSlots F E}
    (hwoken : TaskSlots.each (TaskSlots.pollAt behaviour) s.wakeQueue s.slots = woken) :
    Outcome (fun e => e.guard = guard ∧
        woken.1.findSome? (Polled.conflict? false) = some e.field)
      (fun r => r.1 = s.wakeQueue.isEmpty ∧ woken.1.findSome? (Polled.conflict? false) = none ∧
        r.2.slots = woken.2 ∧ r.2.taskQueue = s.taskQueue ++ woken.1.flatMap Polled.spawns)
      (s.wakePending behaviour guard) := by
  have hfollows : Follows guard false { s with wakeQueue := [] } woken
      (s.wakeQueue.foldlM (pollFuture behaviour guard false) { s with wakeQueue := [] }) :=
    hwoken ▸ foldlM_follows pollFuture_follows s.wakeQueue { s with wakeQueue := [] }
  refine Outcome.bind hfollows ?_
  rintro s' ⟨hnone, hslots, htaskQueue, -⟩
  exact ⟨rfl, hnone, hslots, htaskQueue⟩

/-- What is left of a poll of a handle after the round. -/
theorem finishPoll_outcome (s : Executor F W E) (waker : W)
    {woken spawned : List (Polled F) × TaskSlots F E} (htaskQueue : s.taskQueue = [])
    (hwoken : TaskSlots.each (TaskSlots.pollAt behaviour) s.wakeQueue s.slots = woken)
    (hspawned : TaskSlots.each (TaskSlots.start behaviour) (woken.1.flatMap Polled.spawns) woken.2 =
      spawned) :
    Outcome (fun e => e.guard = guard ∧
        (woken.1.findSome? (Polled.conflict? false)).or
          (spawned.1.findSome? (Polled.conflict? true)) = some e.field)
      (fun r => (woken.1.findSome? (Polled.conflict? false)).or
          (spawned.1.findSome? (Polled.conflict? true)) = none ∧ r.2.taskQueue = [])
      (s.finishPoll behaviour guard waker) := by
  rw [finishPoll, poll_eq]
  refine ((wakePending_outcome { s with wakers := s.wakers ++ [waker] } hwoken).mono ?_
    fun _ h => h).bind ?_
  · rintro e ⟨hguard, hconflict⟩
    exact ⟨hguard, by rw [hconflict, Option.some_or]⟩
  · rintro ⟨isEmpty, s₁⟩ ⟨rfl, hnone, hslots, htaskQueue₁⟩
    dsimp only at hslots htaskQueue₁ ⊢
    rw [htaskQueue, List.nil_append] at htaskQueue₁
    rw [hnone, Option.none_or]
    split
    · -- some task was woken: what the polls have spawned is started
      have hfollows : Follows guard true { s₁ with taskQueue := [] } spawned
          (s₁.drainQueue behaviour guard) := by
        rw [← hspawned, ← htaskQueue₁, ← hslots]
        exact drainQueue_follows s₁
      refine Outcome.bind hfollows ?_
      rintro s₂ ⟨hnone₂, -, htaskQueue₂, -⟩
      rw [flatMap_spawns_eq_nil hnone₂] at htaskQueue₂
      exact ⟨hnone₂, htaskQueue₂⟩
    · -- none was woken, so nothing was polled
      rename_i hempty
      have hnil : s.wakeQueue = [] := by simpa using hempty
      obtain rfl : woken = ([], s.slots) := by
        rw [← hwoken, hnil]
        rfl
      obtain rfl : spawned = ([], s.slots) := hspawned.symm
      exact ⟨rfl, htaskQueue₁⟩

/-- **A poll of a handle follows its schedule**: it stops at the first access to something held, and
returns with an empty spawn queue when there is none. -/
theorem handlePoll_outcome (behaviour : Behaviour F E) (guard : Guard) (s : Executor F W E)
    (waker : W) :
    Outcome (fun e => e.guard = guard ∧ s.firstConflict behaviour = some e.field)
      (fun r => s.firstConflict behaviour = none ∧ r.2.taskQueue = [])
      (s.handlePoll behaviour guard waker) := by
  rw [handlePoll_eq, bind_assoc, firstConflict_eq]
  have hlive : Follows guard false s (s.livePolls behaviour) (s.pollAll behaviour guard) :=
    foldlM_follows pollFuture_follows (List.range' 0 s.tasks.length) s
  refine (hlive.mono ?_ fun _ h => h).bind ?_
  · rintro e ⟨hguard, hconflict⟩
    exact ⟨hguard, by simp only [hconflict, Option.some_or]⟩
  rintro s₁ ⟨hnone₁, hslots₁, htaskQueue₁, hwakeQueue₁⟩
  have hqueued : Follows guard true { s₁ with taskQueue := [] } (s.queuedPolls behaviour)
      (s₁.drainQueue behaviour guard) := by
    rw [queuedPolls, ← htaskQueue₁, ← hslots₁]
    exact drainQueue_follows s₁
  refine (hqueued.mono ?_ fun _ h => h).bind ?_
  · rintro e ⟨hguard, hconflict⟩
    exact ⟨hguard, by simp only [hnone₁, hconflict, Option.none_or, Option.some_or]⟩
  rintro s₂ ⟨hnone₂, hslots₂, htaskQueue₂, hwakeQueue₂⟩
  -- The queue is held in the loop, so what the loop starts has spawned nothing.
  rw [flatMap_spawns_eq_nil hnone₂] at htaskQueue₂
  rw [hnone₁, hnone₂, Option.or_assoc, Option.none_or]
  refine finishPoll_outcome s₂ waker htaskQueue₂ ?_ rfl
  rw [hslots₂, hwakeQueue₂, hwakeQueue₁]
  rfl

theorem conflict?_eq_queue_iff (p : Polled F) : p.conflict? true = some .queue ↔
    ∃ wakes future rest, p.actions = wakes ++ .spawn future :: rest ∧
      ∀ a ∈ wakes, ∃ index, a = .wake index := by
  unfold Polled.conflict?
  rw [List.findSome?_eq_some_iff]
  have hwake : ∀ a : Action F, a.conflict? true = none ↔ ∃ index, a = .wake index := by
    intro a
    cases a <;> simp [Action.conflict?]
  have hspawn : ∀ a : Action F, a.conflict? true = some .queue ↔ ∃ future, a = .spawn future := by
    intro a
    cases a <;> simp [Action.conflict?]
  simp only [hwake, hspawn]
  constructor
  · rintro ⟨wakes, a, rest, hactions, ⟨future, rfl⟩, hwakes⟩
    exact ⟨wakes, future, rest, hactions, hwakes⟩
  · rintro ⟨wakes, future, rest, hactions, hwakes⟩
    exact ⟨wakes, .spawn future, rest, hactions, ⟨future, rfl⟩, hwakes⟩

/-- While the queue is not held, a poll accesses nothing that is held but the executor. -/
theorem conflict?_false_ne_queue (p : Polled F) : p.conflict? false ≠ some .queue := by
  intro h
  obtain ⟨-, a, -, -, ha, -⟩ := List.findSome?_eq_some_iff.mp h
  cases a <;> cases ha

theorem firstConflict_eq_queue_iff :
    s.firstConflict behaviour = some .queue ↔ s.SpawnsWhenStarted behaviour := by
  unfold firstConflict SpawnsWhenStarted
  rw [List.findSome?_eq_some_iff]
  constructor
  · rintro ⟨earlier, ⟨queueHeld, p⟩, later, hschedule, hp, hearlier⟩
    cases queueHeld with
    | true => exact ⟨earlier, p, later, hschedule, hearlier, (conflict?_eq_queue_iff p).mp hp⟩
    | false => exact absurd hp (conflict?_false_ne_queue p)
  · rintro ⟨earlier, p, later, hschedule, hearlier, hp⟩
    exact ⟨earlier, (true, p), later, hschedule, (conflict?_eq_queue_iff p).mpr hp, hearlier⟩

/-- **When a poll of a handle accesses the spawn queue while it holds it**: exactly when a future
spawns that it starts from the queue. -/
theorem queue_conflict_iff (behaviour : Behaviour F E) (guard : Guard) (s : Executor F W E)
    (waker : W) :
    pollHandle behaviour guard s waker ≠ .error ⟨guard, .queue⟩ ↔
      ¬ s.SpawnsWhenStarted behaviour := by
  have houtcome := handlePoll_outcome behaviour guard s waker
  rw [not_iff_not, pollHandle_eq, ← firstConflict_eq_queue_iff]
  cases hpoll : s.handlePoll behaviour guard waker with
  | ok r =>
    rw [hpoll] at houtcome
    simp [houtcome.1]
  | error e =>
    rw [hpoll] at houtcome
    obtain ⟨hguard, hconflict⟩ := houtcome
    rw [hconflict]
    constructor
    · intro h
      rw [Except.error.inj h]
    · intro h
      rw [← hguard, ← Option.some.inj h]

/-- `true` spawns a future when it is polled, and both finish at once. -/
def spawner : Behaviour Bool Unit := fun spawns _ =>
  (⟨if spawns then [.spawn false] else [], none⟩, ())

/-- A queued future that spawns in its first poll: the queue is accessed a second time, by either
executor. -/
theorem queue_conflict_spawner :
    LocalExecutorHandle.poll spawner ((new ()).spawn true) () = .error ⟨.refCell, .queue⟩ ∧
      SendExecutorHandle.poll spawner ((new ()).spawn true) () = .error ⟨.mutex, .queue⟩ :=
  ⟨rfl, rfl⟩

end Executor

end AsyncKernel
