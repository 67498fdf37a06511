import AsyncKernel.Executor.Relabel
import AsyncKernel.Executor.Schedule

/-!
# Where the futures of an executor are

Futures are numbered in the order in which they are submitted, by `spawn`, by `push_task` or by a
future that is polled, and every poll is recorded with the number of the future and whether it
returned `Ready`. Numbers and records change nothing in what an executor does, so every run of a
program has a numbered run behind it.

In a numbered run, the numbers in the spawn queue, in the slots and of the completed futures are all
the numbers given out, each once. A future that is polled is in a slot, so it is not a completed
one, whatever index the wake came with.

## Main definitions

* `Ledger`: the environment, the number of futures submitted, and the polls
* `track`: a poll of a numbered future
* `Tracked`, `Tracked.system`: an executor of numbered futures, and the programs that use it
* `Tracked.Accounted`: every future is in one place, and is not polled after it has returned `Ready`

## Main results

* `Tracked.exists_run`: every run has a numbered run behind it
* `Tracked.Accounted.step`: every call keeps the accounts
* `Tracked.accounted_of_run`: no future is lost, duplicated or polled after its completion
-/

namespace AsyncKernel

variable {F W E : Type}

/-! ## Numbered futures -/

/-- The environment of numbered futures. -/
structure Ledger (E : Type) where
  env : E
  /-- how many futures have been submitted, which is the number of the next one -/
  submitted : ℕ
  /-- the polls so far: of which future, and whether it returned `Ready` -/
  polled : List (ℕ × Bool)

namespace Ledger

def new (env : E) : Ledger E := ⟨env, 0, []⟩

/-- The futures that have returned `Ready`, once for each time. -/
def completed (ledger : Ledger E) : List ℕ := (ledger.polled.filter Prod.snd).map Prod.fst

/-- No future is polled after it has returned `Ready`. -/
def NotPolledAfterReady (ledger : Ledger E) : Prop :=
  ledger.polled.Pairwise fun earlier later => earlier.2 = true → later.1 ≠ earlier.1

/-- The record of one more poll. -/
theorem NotPolledAfterReady.concat {ledger : Ledger E} (h : ledger.NotPolledAfterReady) {id : ℕ}
    (ready : Bool) (hid : id ∉ ledger.completed) :
    (ledger.polled ++ [(id, ready)]).Pairwise
      fun earlier later => earlier.2 = true → later.1 ≠ earlier.1 := by
  refine List.pairwise_append.mpr ⟨h, List.pairwise_singleton _ _, ?_⟩
  rintro earlier hearlier later hlater hready heq
  rw [List.mem_singleton.mp hlater] at heq
  refine hid ?_
  rw [show id = earlier.1 from heq]
  exact List.mem_map_of_mem (List.mem_filter.mpr ⟨hearlier, hready⟩)

end Ledger

/-- The futures that are spawned are numbered from `n` on. -/
def number (n : ℕ) : List (Action F) → List (Action (ℕ × F))
  | [] => []
  | .spawn future :: actions => .spawn (n, future) :: number (n + 1) actions
  | .wake index :: actions => .wake index :: number n actions
  | .enter :: actions => .enter :: number n actions

/-- **A poll of a numbered future**: it keeps its number, and the poll is recorded. -/
def track (behaviour : Behaviour F E) : Behaviour (ℕ × F) (Ledger E) := fun task ledger =>
  let (polled, env) := behaviour task.2 ledger.env
  (⟨number ledger.submitted polled.actions, polled.next.map (task.1, ·)⟩,
    ⟨env, ledger.submitted + polled.spawns.length,
      ledger.polled ++ [(task.1, polled.next.isNone)]⟩)

theorem number_relabel (n : ℕ) (actions : List (Action F)) :
    (number n actions).map (Action.relabel Prod.snd) = actions := by
  induction actions generalizing n with
  | nil => rfl
  | cons a actions ih =>
    cases a with
    | spawn future => exact congrArg (Action.spawn future :: ·) (ih (n + 1))
    | wake index => exact congrArg (Action.wake index :: ·) (ih n)
    | enter => exact congrArg (Action.enter :: ·) (ih n)

theorem number_spawns (n : ℕ) (actions : List (Action F)) :
    ((number n actions).filterMap Action.spawn?).map Prod.fst =
      List.range' n (actions.filterMap Action.spawn?).length := by
  induction actions generalizing n with
  | nil => rfl
  | cons a actions ih =>
    cases a with
    | spawn future => exact congrArg (n :: ·) (ih (n + 1))
    | wake index => exact ih n
    | enter => exact ih n

/-- Numbers and records change nothing in what a poll does. -/
theorem track_relabels (behaviour : Behaviour F E) :
    Behaviour.Relabels Prod.snd Ledger.env (track behaviour) behaviour := by
  rintro ⟨id, future⟩ ledger
  have hactions := number_relabel ledger.submitted (behaviour future ledger.env).1.actions
  have hnext : ((behaviour future ledger.env).1.next.map (id, ·)).map Prod.snd =
      (behaviour future ledger.env).1.next := by
    cases (behaviour future ledger.env).1.next <;> rfl
  simp only [track, Polled.relabel, hactions, hnext]

/-! ## The tasks in the slots -/

/-- A slot that is written: the other slots stay. -/
theorem reduceOption_set_perm {α : Type} {tasks : List (Option α)} {index : ℕ}
    (h : index < tasks.length) (slot : Option α) :
    (tasks.set index slot).reduceOption.Perm
      (slot.toList ++ (tasks.eraseIdx index).reduceOption) := by
  have hperm := (List.set_perm_cons_eraseIdx h slot).filterMap id
  rwa [Executor.filterMap_cons_eq_append] at hperm

theorem reduceOption_perm {α : Type} {tasks : List (Option α)} {index : ℕ} {slot : Option α}
    (h : tasks[index]? = some slot) :
    tasks.reduceOption.Perm (slot.toList ++ (tasks.eraseIdx index).reduceOption) := by
  obtain ⟨hlt, rfl⟩ := List.getElem?_eq_some_iff.mp h
  have hperm := reduceOption_set_perm hlt tasks[index]
  rwa [List.set_getElem_self] at hperm

/-- A new task is put besides the others. -/
theorem reduceOption_put_perm {α : Type} (tasks : List (Option α)) (task : α) :
    (TaskSlots.put tasks (TaskSlots.free tasks) (some task)).reduceOption.Perm
      (task :: tasks.reduceOption) := by
  have hfree := Executor.getElem?_free tasks
  unfold TaskSlots.put
  split
  · rename_i hlt
    have hnone : tasks[TaskSlots.free tasks]? = some none := by
      cases hslot : tasks[TaskSlots.free tasks] with
      | none => rw [List.getElem?_eq_getElem hlt, hslot]
      | some live =>
        exact absurd (by rw [List.getElem?_eq_getElem hlt, hslot]) (hfree live)
    exact (reduceOption_set_perm hlt (some task)).trans ((reduceOption_perm hnone).symm.cons task)
  · rw [List.reduceOption_append]
    exact List.perm_append_comm

/-! ## Numbered runs -/

/-- An executor of numbered futures. -/
abbrev Tracked (F W E : Type) := Executor (ℕ × F) W (Ledger E)

namespace Tracked

variable {behaviour : Behaviour F E} {guard : Guard} {queueHeld : Bool} {s s' : Tracked F W E}

/-- The executor without numbers and records. -/
def erase (s : Tracked F W E) : Executor F W E := s.relabel Prod.snd Ledger.env

/-- One more future is submitted. -/
def submit (s : Tracked F W E) : Tracked F W E :=
  { s with env := { s.env with submitted := s.env.submitted + 1 } }

/-- **A program that uses an executor**, with numbers and records. -/
def system (behaviour : Behaviour F E) (guard : Guard) :
    TransitionSystem (Tracked F W E) (Executor.Label F W E) where
  init s := ∃ env, s = Executor.new (Ledger.new env)
  step s l s' := match l with
    | .spawn future => s' = s.submit.spawn (s.env.submitted, future)
    | .pushTask future => ∃ index,
        s.submit.pushTask (track behaviour) guard false (s.env.submitted, future) = .ok (index, s')
    | .wake index => s' = s.wake index
    | .poll waker result => Executor.pollHandle (track behaviour) guard s waker = .ok (result, s')
    | .environment env => s' = { s with env := { s.env with env } }

/-- A call on the executor without numbers is one on the executor with numbers. -/
theorem exists_step {l : Executor.Label F W E} {t : Executor F W E}
    (h : (Executor.system behaviour guard).step s.erase l t) :
    ∃ s', (system behaviour guard).step s l s' ∧ s'.erase = t := by
  cases l with
  | spawn future =>
    refine ⟨_, rfl, ?_⟩
    rw [h]
    exact (Executor.spawn_relabel s.submit (s.env.submitted, future)).symm
  | pushTask future =>
    obtain ⟨index, hpush⟩ := h
    have hrelabel : s.erase.pushTask behaviour guard false future =
        (s.submit.pushTask (track behaviour) guard false (s.env.submitted, future)).map
          (Prod.map id erase) :=
      Executor.pushTask_relabel (track_relabels behaviour) s.submit (s.env.submitted, future)
    obtain ⟨⟨index', s'⟩, hs', herase⟩ := map_eq_ok_iff.mp (hrelabel.symm.trans hpush)
    exact ⟨s', ⟨index', hs'⟩, (Prod.mk.inj herase).2⟩
  | wake index => exact ⟨_, rfl, h.symm⟩
  | poll waker result =>
    have hrelabel : Executor.pollHandle behaviour guard s.erase waker =
        (Executor.pollHandle (track behaviour) guard s waker).map (Prod.map id erase) :=
      Executor.pollHandle_relabel (track_relabels behaviour) s waker
    obtain ⟨⟨result', s'⟩, hs', herase⟩ := map_eq_ok_iff.mp (hrelabel.symm.trans h)
    obtain ⟨rfl, rfl⟩ := Prod.mk.inj herase
    exact ⟨s', hs', rfl⟩
  | environment env => exact ⟨_, rfl, h.symm⟩

/-- **Every run has a numbered run behind it.** -/
theorem exists_run {env : E} {run : List (Transition (Executor F W E) (Executor.Label F W E))}
    (h : (Executor.system behaviour guard).IsRun (Executor.new env) run) :
    ∃ tracked, (system behaviour guard).IsRun (Executor.new (Ledger.new env)) tracked ∧
      tracked.map (Transition.map erase) = run :=
  TransitionSystem.IsRun.lift (f := erase) (fun _ _ _ hstep => exists_step hstep) h

/-! ## The accounts -/

/-- The numbers of the futures in the spawn queue, in the slots, and of the completed ones. -/
def places (s : Tracked F W E) : List ℕ :=
  s.taskQueue.map Prod.fst ++ s.tasks.reduceOption.map Prod.fst ++ s.env.completed

/-- **The accounts of an executor**, besides the futures that are `held`: every number given out is
in exactly one place, and no future is polled after it has returned `Ready`. -/
structure Accounted (held : List ℕ) (s : Tracked F W E) : Prop where
  places : (held ++ s.places).Perm (List.range s.env.submitted)
  notPolledAfterReady : s.env.NotPolledAfterReady

theorem Accounted.not_completed {held : List ℕ} (h : s.Accounted held) {task : ℕ × F}
    (htask : some task ∈ s.tasks) : task.1 ∉ s.env.completed := by
  have hnodup : (held ++ s.places).Nodup := h.places.nodup_iff.mpr List.nodup_range
  have hslots : task.1 ∈ s.taskQueue.map Prod.fst ++ s.tasks.reduceOption.map Prod.fst :=
    List.mem_append_right _ (List.mem_map_of_mem (List.reduceOption_mem_iff.mpr htask))
  intro hcompleted
  exact List.disjoint_of_nodup_append (List.Nodup.of_append_right hnodup) hslots hcompleted

/-- What a poll of a numbered future leaves of the places: its own number goes on being in a slot,
or becomes one of a completed future, and the numbers of what it spawns are new. -/
theorem places_poll {held : List ℕ} {index : ℕ} {task : ℕ × F}
    (htask : s.tasks[index]? = some (some task)) (h : s.Accounted held)
    (htasks : s'.tasks = s.tasks.set index (track behaviour task s.env).1.next)
    (htaskQueue : s'.taskQueue = s.taskQueue ++ (track behaviour task s.env).1.spawns)
    (henv : s'.env = (track behaviour task s.env).2) :
    (held ++ s'.places).Perm (List.range s'.env.submitted) := by
  obtain ⟨hlt, -⟩ := List.getElem?_eq_some_iff.mp htask
  have hbefore := (reduceOption_perm htask).map Prod.fst
  have hafter := (reduceOption_set_perm hlt (track behaviour task s.env).1.next).map Prod.fst
  have hspawns : (track behaviour task s.env).1.spawns.map Prod.fst =
      List.range' s.env.submitted (behaviour task.2 s.env.env).1.spawns.length :=
    number_spawns _ _
  have hcompleted : s'.env.completed = s.env.completed ++
      if (behaviour task.2 s.env.env).1.next.isNone then [task.1] else [] := by
    rw [henv]
    cases hnext : (behaviour task.2 s.env.env).1.next <;>
      simp [track, Ledger.completed, hnext]
  have hsubmitted : List.range s'.env.submitted = List.range s.env.submitted ++
      List.range' s.env.submitted (behaviour task.2 s.env.env).1.spawns.length := by
    rw [henv]
    show List.range (_ + _) = _
    rw [List.range_eq_range', List.range_eq_range', ← List.range'_append_1, Nat.zero_add]
  have hnext : (track behaviour task s.env).1.next.toList.map Prod.fst ++
      (if (behaviour task.2 s.env.env).1.next.isNone then [task.1] else []) = [task.1] := by
    cases hnext : (behaviour task.2 s.env.env).1.next <;> simp [track, hnext]
  rw [hsubmitted]
  refine List.perm_iff_count.mpr fun id => ?_
  -- Count one number: every place has it as often as before, but for the move to the completed.
  have hplaces := h.places.count_eq id
  have hbefore := hbefore.count_eq id
  have hafter := hafter.count_eq id
  have hnext := congrArg (List.count id) hnext
  rw [← htasks] at hafter
  simp only [places, htaskQueue, hcompleted, List.map_append, hspawns, List.count_append,
    Option.toList_some, List.map_singleton] at hplaces hbefore hafter hnext ⊢
  omega

namespace Accounted

variable {held : List ℕ}

/-- **A poll of a slot keeps the accounts**, with a live task in it or not. -/
theorem pollFuture (h : s.Accounted held) (index : ℕ) :
    Outcome (fun _ => True) (Accounted held)
      (Executor.pollFuture (track behaviour) guard queueHeld s index) := by
  refine Executor.pollFuture_rule (fun task htask => ?_) fun _ => h
  refine (Executor.pollFuture_outcome htask).mono (fun _ _ => trivial) ?_
  rintro s' ⟨-, htasks, henv, htaskQueue, -⟩
  refine ⟨places_poll htask h htasks htaskQueue henv, ?_⟩
  rw [henv]
  exact h.notPolledAfterReady.concat _ (h.not_completed (List.mem_of_getElem? htask))

/-- `push_task` gives a slot to a future that is held. -/
theorem pushTask (task : ℕ × F) (h : s.Accounted (task.1 :: held)) :
    Outcome (fun _ => True) (fun r => Accounted held r.2)
      (Executor.pushTask (track behaviour) guard queueHeld s task) := by
  have hplaced : Accounted held
      { s with tasks := TaskSlots.put s.tasks (TaskSlots.free s.tasks) (some task) } := by
    refine ⟨?_, h.notPolledAfterReady⟩
    refine List.Perm.trans (List.perm_iff_count.mpr fun id => ?_) h.places
    have hput := ((reduceOption_put_perm s.tasks task).map Prod.fst).count_eq id
    simp only [Tracked.places, List.count_append, List.cons_append, List.map_cons,
      List.count_cons] at hput ⊢
    omega
  unfold Executor.pushTask
  rw [Executor.place_eq]
  exact (hplaced.pollFuture _).bind fun s' h' => h'

/-- The loop over the spawn queue: the futures that have been taken from it are held. -/
theorem pushTasks {queue : List (ℕ × F)} (h : s.Accounted (queue.map Prod.fst)) :
    Outcome (fun _ => True) (Accounted [])
      (queue.foldlM (fun s task => do
        let (_, s) ← Executor.pushTask (track behaviour) guard true s task
        return s) s) := by
  induction queue generalizing s with
  | nil => exact h
  | cons task queue ih =>
    rw [List.foldlM_cons, bind_assoc]
    exact (pushTask task h).bind fun r hr => ih hr

theorem drainQueue (h : s.Accounted []) :
    Outcome (fun _ => True) (Accounted []) (Executor.drainQueue (track behaviour) guard s) := by
  refine pushTasks ⟨?_, h.notPolledAfterReady⟩
  have hplaces := h.places
  simpa [Tracked.places] using hplaces

theorem pollFutures (h : s.Accounted []) (indices : List ℕ) :
    Outcome (fun _ => True) (Accounted [])
      (indices.foldlM (Executor.pollFuture (track behaviour) guard queueHeld) s) :=
  Outcome.foldlM (fun _ index h => h.pollFuture index) h indices

theorem handlePoll (h : s.Accounted []) (waker : W) :
    Outcome (fun _ => True) (fun r => Accounted [] r.2)
      (Executor.handlePoll (track behaviour) guard s waker) := by
  rw [Executor.handlePoll]
  refine (h.pollFutures (List.range' 0 s.tasks.length)).bind fun s₁ h₁ => ?_
  refine h₁.drainQueue.bind fun s₂ h₂ => ?_
  -- The registration and the wake queue are not among the accounts.
  rw [Executor.poll_eq]
  have hpending : Outcome (fun _ => True) (fun r => Accounted [] r.2)
      (Executor.wakePending (track behaviour) guard
        { s₂ with wakers := s₂.wakers ++ [waker] }) := by
    refine Outcome.bind (pollFutures ?_ s₂.wakeQueue) fun s₃ h₃ => h₃
    exact ⟨h₂.places, h₂.notPolledAfterReady⟩
  refine hpending.bind ?_
  rintro ⟨isEmpty, s₃⟩ h₃
  dsimp only
  split
  · exact h₃.drainQueue.bind fun s₄ h₄ => h₄
  · exact h₃

/-- The number of a future that is submitted is held until it is given a place. -/
theorem submit (h : s.Accounted []) : s.submit.Accounted [s.env.submitted] := by
  refine ⟨?_, h.notPolledAfterReady⟩
  have hrange : List.range s.submit.env.submitted =
      List.range s.env.submitted ++ [s.env.submitted] := List.range_succ
  rw [hrange]
  exact List.perm_append_comm.trans (h.places.append_right [s.env.submitted])

/-- `spawn` puts a future that is held into the spawn queue. -/
theorem spawn {task : ℕ × F} (h : s.Accounted [task.1]) :
    Accounted [] (Executor.spawn s task) := by
  refine ⟨List.Perm.trans (List.perm_iff_count.mpr fun id => ?_) h.places, h.notPolledAfterReady⟩
  simp only [Tracked.places, Executor.spawn, List.nil_append, List.map_append, List.count_append,
    List.map_singleton]
  omega

/-- **Every call keeps the accounts.** -/
theorem step {l : Executor.Label F W E} (h : s.Accounted [])
    (hstep : (system behaviour guard).step s l s') : s'.Accounted [] := by
  cases l with
  | spawn future =>
    obtain rfl : s' = s.submit.spawn (s.env.submitted, future) := hstep
    exact spawn h.submit
  | pushTask future =>
    obtain ⟨index, hpush⟩ := hstep
    exact (pushTask (s.env.submitted, future) h.submit).post_of_eq_ok hpush
  | wake index =>
    obtain rfl : s' = s.wake index := hstep
    exact ⟨h.places, h.notPolledAfterReady⟩
  | poll waker result =>
    have hpoll : Executor.handlePoll (track behaviour) guard s waker = .ok (result, s') := by
      rw [← Executor.pollHandle_eq]
      exact hstep
    exact (h.handlePoll waker).post_of_eq_ok hpoll
  | environment env =>
    obtain rfl : s' = { s with env := { s.env with env } } := hstep
    exact ⟨h.places, h.notPolledAfterReady⟩

end Accounted

/-- **`push_task` displaces no live future**: the slot that it returns held none, and the other
slots stay as they are. -/
theorem pushTask_slot {s s' : Executor F W E} {task : F} {index : ℕ}
    (h : s.pushTask behaviour guard queueHeld task = .ok (index, s')) :
    (∀ live, s.tasks[index]? ≠ some (some live)) ∧
      ∀ j, j ≠ index → s'.tasks[j]? = s.tasks[j]? := by
  have hfree := Executor.free_le_length s.tasks
  unfold Executor.pushTask at h
  rw [Executor.place_eq] at h
  obtain ⟨s₁, hpoll, h⟩ := bind_eq_ok_iff.mp h
  obtain ⟨rfl, rfl⟩ := Prod.mk.inj (Except.ok.inj h)
  refine ⟨Executor.getElem?_free s.tasks, fun j hj => ?_⟩
  obtain ⟨-, htasks, -⟩ := (Executor.pollFuture_outcome
    (Executor.getElem?_put_self hfree (some task))).post_of_eq_ok hpoll
  rw [htasks, Executor.set_put _ hfree, Executor.getElem?_put_ne hfree hj]

/-- **No future is lost, duplicated or polled after its completion.** Behind every run there is a
numbered one, in which every future that has been submitted is in exactly one place and no future is
polled after it has returned `Ready`; and `push_task` gives a slot that holds no live future, and
changes no other. -/
theorem accounted_of_run {env : E}
    {run : List (Transition (Executor F W E) (Executor.Label F W E))}
    (h : (Executor.system behaviour guard).IsRun (Executor.new env) run) :
    (∃ tracked, (system behaviour guard).IsRun (Executor.new (Ledger.new env)) tracked ∧
      tracked.map (Transition.map erase) = run ∧ ∀ t ∈ tracked, t.after.Accounted []) ∧
    ∀ (s : Executor F W E) (queueHeld : Bool) (task : F) (index : ℕ) (s' : Executor F W E),
      s.pushTask behaviour guard queueHeld task = .ok (index, s') →
        (∀ live, s.tasks[index]? ≠ some (some live)) ∧
          ∀ j, j ≠ index → s'.tasks[j]? = s.tasks[j]? := by
  refine ⟨?_, fun s queueHeld task index s' hpush => pushTask_slot hpush⟩
  obtain ⟨tracked, htracked, herase⟩ := exists_run h
  refine ⟨tracked, htracked, herase, fun t ht => ?_⟩
  have hnew : Accounted [] (Executor.new (Ledger.new env) : Tracked F W E) :=
    ⟨List.Perm.refl _, List.Pairwise.nil⟩
  exact (htracked.invariant hnew (fun t _ hbefore hstep => hbefore.step hstep) t ht).2

/-- A future finishes, a second one gets its slot, and the waker of the first one fires. -/
def reuse : List (Transition (Executor Bool Unit Unit) (Executor.Label Bool Unit Unit)) :=
  [⟨Executor.new (), .spawn true, (Executor.new ()).spawn true⟩,
    ⟨(Executor.new ()).spawn true, .poll () .pending, ⟨[none], [()], [], [], [], ()⟩⟩,
    ⟨⟨[none], [()], [], [], [], ()⟩, .pushTask false, ⟨[some false], [()], [], [], [], ()⟩⟩,
    ⟨⟨[some false], [()], [], [], [], ()⟩, .wake 0, ⟨[some false], [], [0], [], [()], ()⟩⟩,
    ⟨⟨[some false], [], [0], [], [()], ()⟩, .poll () .pending,
      ⟨[some false], [()], [], [], [()], ()⟩⟩]

theorem accounted_of_run_reuse :
    (Executor.system Executor.sleeper .refCell).IsRun (Executor.new ()) reuse ∧
      ∃ tracked, (system Executor.sleeper .refCell).IsRun (Executor.new (Ledger.new ())) tracked ∧
        tracked.map (Transition.map erase) = reuse ∧ ∀ t ∈ tracked, t.after.Accounted [] := by
  have hrun : (Executor.system Executor.sleeper .refCell).IsRun (Executor.new ()) reuse :=
    ⟨rfl, rfl, rfl, rfl, rfl, ⟨0, rfl⟩, rfl, rfl, rfl, rfl, trivial⟩
  exact ⟨hrun, (accounted_of_run hrun).1⟩

end Tracked

end AsyncKernel
