import AsyncKernel.Executor.Stranded
import AsyncKernel.Foundation.WakeLoop

/-!
# The loop of a hart

`run_neverending_future` of `kernel_executor` polls the future of a hart when the flag behind its
waker is set, and idles otherwise. The future of a hart awaits the handle of its `LocalExecutor`
(`common_hart_code`): every poll of the future is a poll of the handle, with the waker of the loop,
and when that returns `Ready`, or panics, the hart spins for ever.

A poll of the handle registers the waker before it takes the wake queue. So a task that is woken
sets the flag, whether a future wakes it in the poll or something else between two polls. The one gap is
between the swap that finds the flag clear and the idling.

## Main definitions

* `Executor.Informed`: when a task waits in the wake queue, all registered wakers have been woken
* `Executor.machine`: an executor as the machine of the loop
* `hartLoop`: the loop of a hart

## Main results

* `Executor.handlePoll_informed`: a poll of a handle leaves nobody uninformed
* `hartLoop_polls_woken`: a woken task is polled within two turns of the loop
* `hartLoop_idle_iff`: the runs in which the hart does not idle while a task waits
-/

namespace AsyncKernel

variable {F W E : Type}

namespace Executor

variable {behaviour : Behaviour F E} {guard : Guard} {queueHeld : Bool} {s s' : Executor F W E}

/-! ## Who is informed -/

/-- When a task waits in the wake queue, all registered wakers have been woken. -/
def Informed (s : Executor F W E) : Prop := s.wakeQueue ≠ [] → s.wakers = []

/-- Wakes that reach the registered wakers keep them informed. -/
theorem Informed.notifies {wakes : List ℕ} (h : s.Informed) (hnotifies : Notifies wakes s s')
    (hqueue : s'.wakeQueue = s.wakeQueue ++ wakes) : s'.Informed := by
  intro hne
  rw [hnotifies.wakers]
  split
  · rename_i hwakes
    refine h fun hnil => hne ?_
    rw [hqueue, hnil, hwakes, List.append_nil]
  · rfl

theorem pollFuture_informed (h : s.Informed) (index : ℕ) :
    Outcome (fun _ => True) Informed (pollFuture behaviour guard queueHeld s index) := by
  refine pollFuture_rule (fun task htask => ?_) fun _ => h
  refine ((pollFuture_notifies htask).and (pollFuture_outcome htask)).mono (fun _ _ => trivial) ?_
  rintro s' ⟨hnotifies, -, -, -, -, hwakeQueue⟩
  exact h.notifies hnotifies hwakeQueue

theorem drainQueue_informed (h : s.Informed) :
    Outcome (fun _ => True) Informed (s.drainQueue behaviour guard) := by
  refine Outcome.foldlM (I := Informed) (fun s task hs => ?_) (s := { s with taskQueue := [] }) h _
  refine (((pushTask_notifies s task).and (pushTask_outcome s task)).mono (fun _ _ => trivial)
    fun _ h => h).bind ?_
  rintro r ⟨hnotifies, -, -, -, hwakeQueue, -⟩
  exact hs.notifies hnotifies hwakeQueue

/-- **A poll of a handle leaves nobody uninformed**, whatever was the case before: the wake queue is
taken after the waker has been registered. -/
theorem handlePoll_informed (s : Executor F W E) (waker : W) :
    Outcome (fun _ => True) (fun r => r.2.Informed) (s.handlePoll behaviour guard waker) := by
  rw [handlePoll_eq]
  refine ((round_outcome behaviour guard s).mono (fun _ _ => trivial) fun _ h => h).bind
    fun s₁ _ => ?_
  rw [finishPoll, poll_eq]
  -- an empty wake queue informs everybody, and the polls of the woken tasks keep it so
  have hpending : Outcome (fun _ => True) (fun r => r.2.Informed)
      (wakePending behaviour guard { s₁ with wakers := s₁.wakers ++ [waker] }) :=
    (Outcome.foldlM (fun s index hs => pollFuture_informed hs index) (I := Informed)
      (fun hne => absurd rfl hne) s₁.wakeQueue).bind fun _ h => h
  refine hpending.bind ?_
  rintro ⟨isEmpty, s₂⟩ h₂
  dsimp only
  split
  · exact (drainQueue_informed h₂).bind fun s₃ h₃ => h₃
  · exact h₂

/-! ## The machine of the loop -/

/-- What happens to an executor between two steps of the loop. -/
inductive Event (F E : Type)
  | spawn (future : F)
  | wake (index : ℕ)
  | environment (env : E)
  deriving DecidableEq, Repr

/-- **An executor as the machine of the loop.** The one waker that is registered is that of the
loop, whose `wake` and `wake_by_ref` store `true` in the flag. -/
def machine (behaviour : Behaviour F E) : WakeLoop.Machine (Executor F Unit E) (Event F E) where
  poll s := match LocalExecutorHandle.poll behaviour s () with
    | .ok (.pending, s') => some (s', s.woken.length < s'.woken.length)
    -- `handle.await` returns, and `loop {}` follows; a panic ends in a loop as well
    | _ => none
  event s
    | .spawn future => some (s.spawn future, false)
    | .wake index => some (s.wake index, s.wakers ≠ [])
    | .environment env => some ({ s with env }, false)

/-- No task waits in the wake queue, and the waker of the loop is registered. -/
structure Quiet (s : Executor F Unit E) : Prop where
  wakeQueue : s.wakeQueue = []
  wakers : s.wakers ≠ []

/-- **The executor calls the loop** whenever a task has been woken. -/
theorem machine_notifies (behaviour : Behaviour F E) :
    WakeLoop.Notifies (machine behaviour) Quiet := by
  refine ⟨fun s s' hpoll => ?_, fun s l s' hquiet hevent => ?_⟩
  · dsimp only [machine] at hpoll
    split at hpoll
    · rename_i s₁ hpoll'
      have hok : s.handlePoll behaviour .refCell () = .ok (.pending, s₁) := hpoll'
      obtain ⟨rfl, hwoken⟩ := Prod.mk.inj (Option.some.inj hpoll)
      have hlength := congrArg List.length
        ((handlePoll_registered s ()).post_of_eq_ok hok)
      -- nobody has been woken, so the waker that the poll has registered is still there
      have hwakers : s₁.wakers ≠ [] := by
        intro hnil
        simp only [registered, hnil, List.append_nil, List.length_append, List.length_singleton,
          decide_eq_false_iff_not] at hlength hwoken
        omega
      refine ⟨?_, hwakers⟩
      by_contra hne
      exact hwakers ((handlePoll_informed s ()).post_of_eq_ok hok hne)
    · cases hpoll
  · cases l with
    | spawn future =>
      obtain rfl := (Prod.mk.inj (Option.some.inj hevent)).1
      exact ⟨hquiet.wakeQueue, hquiet.wakers⟩
    | wake index =>
      -- the waker of the loop is registered, so the wake sets the flag
      obtain ⟨-, hwoken⟩ := Prod.mk.inj (Option.some.inj hevent)
      exact absurd hquiet.wakers (by simpa using hwoken)
    | environment env =>
      obtain rfl := (Prod.mk.inj (Option.some.inj hevent)).1
      exact ⟨hquiet.wakeQueue, hquiet.wakers⟩

/-- A wake puts a task into the wake queue, and the other events leave a quiet executor quiet. -/
theorem machine_asks (behaviour : Behaviour F E) :
    WakeLoop.Asks (machine behaviour) Quiet (fun s => s.wakeQueue ≠ [])
      (fun e => ∃ index, e = .wake index) := by
  refine ⟨fun s hquiet hne => hne hquiet.wakeQueue, fun s e r hquiet hcalls hevent => ?_, ?_⟩
  · cases e with
    | spawn future =>
      obtain rfl := Option.some.inj hevent
      exact ⟨hquiet.wakeQueue, hquiet.wakers⟩
    | wake index => exact absurd ⟨index, rfl⟩ hcalls
    | environment env =>
      obtain rfl := Option.some.inj hevent
      exact ⟨hquiet.wakeQueue, hquiet.wakers⟩
  · rintro s _ r ⟨index, rfl⟩ hevent
    obtain rfl := Option.some.inj hevent
    simp [wake]

end Executor

/-! ## The loop of a hart -/

/-- The state of a hart: the flag of its waker, the loop and the executor. -/
abbrev HartLoop (F E : Type) := WakeLoop.State (Executor F Unit E)

/-- A step of a hart. -/
abbrev HartLoop.Step (F E : Type) :=
  Transition (HartLoop F E) (WakeLoop.Label (Executor.Event F E))

/-- **The loop of a hart**, from a new executor. -/
def hartLoop (behaviour : Behaviour F E) :
    TransitionSystem (HartLoop F E) (WakeLoop.Label (Executor.Event F E)) :=
  WakeLoop.system (Executor.machine behaviour) fun s => ∃ env, s = Executor.new env

variable {behaviour : Behaviour F E} {s : HartLoop F E}

/-- **A woken task is polled within two turns of the loop**: between a wake of a task and the second
look at the flag after it the hart polls its executor. -/
theorem hartLoop_polls_woken (h₀ : (hartLoop behaviour).init s)
    {l₀ l₁ l₂ l₃ : List (HartLoop.Step F E)} {t t₁ t₂ : HartLoop.Step F E} {index : ℕ}
    (h : (hartLoop behaviour).IsRun s (l₀ ++ t :: (l₁ ++ t₁ :: (l₂ ++ t₂ :: l₃))))
    (ht : t.label = .event (.wake index)) (ht₁ : t₁.label = .swap) (ht₂ : t₂.label = .swap) :
    ∃ u ∈ l₁ ++ l₂, u.label = .poll := by
  have hm := Executor.machine_notifies behaviour
  have ha := Executor.machine_asks behaviour
  have hbefore : WakeLoop.Awake Executor.Quiet t.before := WakeLoop.awake_before hm h₀ h
  have hstep : WakeLoop.next (Executor.machine behaviour) t.before (.event (.wake index)) =
      some t.after := ht ▸ h.step (List.mem_append_right _ List.mem_cons_self)
  -- a task waits after the wake, so the executor is not quiet, and the flag is set
  obtain ⟨-, r, hevent, hmachine⟩ := WakeLoop.next_event hstep
  have hwaits : t.after.machine.wakeQueue ≠ [] := hmachine ▸ ha.asks _ _ r ⟨index, rfl⟩ hevent
  refine WakeLoop.exists_poll (fun hresting => ?_) h.after ht₁ ht₂
  exact (hbefore.next hm hstep hresting).resolve_right fun hquiet => ha.quiet _ hquiet hwaits

/-- A task that wakes itself in every poll. -/
def ticker : Behaviour Unit Unit := fun _ _ => (⟨[.wake 0], some ()⟩, ())

/-- An executor whose task waits to be polled for the first time, and has been woken already. -/
def tickerWoken : Executor Unit Unit Unit := ⟨[], [], [0], [()], [], ()⟩

/-- The executor after the poll. -/
def tickerPolled : Executor Unit Unit Unit := ⟨[some ()], [], [0, 0], [], [()], ()⟩

/-- The task is woken, and polled in the next turn. -/
theorem hartLoop_polls_woken_ticker :
    (Executor.machine ticker).poll tickerWoken = some (tickerPolled, true) ∧
      ∃ u ∈ [] ++ [(⟨⟨false, .polling, tickerWoken⟩, .poll, ⟨true, .checking, tickerPolled⟩⟩ :
        HartLoop.Step Unit Unit)], u.label = .poll := by
  have hpoll : (Executor.machine ticker).poll tickerWoken = some (tickerPolled, true) := rfl
  let start : HartLoop Unit Unit := ⟨true, .checking, Executor.new ()⟩
  let spawned : HartLoop Unit Unit := ⟨true, .checking, (Executor.new ()).spawn ()⟩
  have hrun : (hartLoop ticker).IsRun start
      ([⟨start, .event (.spawn ()), spawned⟩] ++
        ⟨spawned, .event (.wake 0), ⟨true, .checking, tickerWoken⟩⟩ ::
          ([] ++ ⟨⟨true, .checking, tickerWoken⟩, .swap, ⟨false, .polling, tickerWoken⟩⟩ ::
            ([⟨⟨false, .polling, tickerWoken⟩, .poll, ⟨true, .checking, tickerPolled⟩⟩] ++
              ⟨⟨true, .checking, tickerPolled⟩, .swap, ⟨false, .polling, tickerPolled⟩⟩ :: []))) :=
    ⟨rfl, rfl, rfl, rfl, rfl, rfl, rfl, rfl, rfl, rfl, trivial⟩
  exact ⟨hpoll, hartLoop_polls_woken ⟨rfl, rfl, (), rfl⟩ hrun rfl rfl rfl⟩

/-- **The runs in which the hart does not idle while a woken task waits**: those in which no task is
woken between the moment the loop has found the flag clear and its idling. -/
theorem hartLoop_idle_iff (h₀ : (hartLoop behaviour).init s) {run : List (HartLoop.Step F E)}
    (h : (hartLoop behaviour).IsRun s run) :
    (∀ t ∈ run, t.after.control = .idling → t.after.machine.wakeQueue = []) ↔
      ∀ t ∈ run, t.before.control = .idling → ∀ index, t.label ≠ .event (.wake index) := by
  have hiff := WakeLoop.idle_iff (Executor.machine_notifies behaviour)
    (Executor.machine_asks behaviour) h₀ h
  constructor
  · intro hall t ht hidling index hlabel
    refine hiff.mp (fun u hu hsleep => hsleep.2 (hall u hu hsleep.1)) t ht ?_
    exact ⟨hidling, _, hlabel, index, rfl⟩
  · intro hnone t ht hidling
    by_contra hne
    refine hiff.mpr (fun u hu => ?_) t ht ⟨hidling, hne⟩
    rintro ⟨hidling', _, hlabel, index, rfl⟩
    exact hnone u hu hidling' index hlabel

/-- The task of a hart that has nothing else to do: it asks to be polled again, so the hart does not
idle. -/
theorem hartLoop_idle_iff_ticker :
    let run : List (HartLoop.Step Unit Unit) :=
      [⟨⟨true, .checking, Executor.new ()⟩, .swap, ⟨false, .polling, Executor.new ()⟩⟩,
        ⟨⟨false, .polling, Executor.new ()⟩, .event (.wake 0),
          ⟨false, .polling, (Executor.new ()).wake 0⟩⟩]
    (hartLoop ticker).IsRun ⟨true, .checking, Executor.new ()⟩ run ∧
      ∀ t ∈ run, t.after.control = .idling → t.after.machine.wakeQueue = [] := by
  intro run
  have hrun : (hartLoop ticker).IsRun ⟨true, .checking, Executor.new ()⟩ run :=
    ⟨rfl, rfl, rfl, rfl, trivial⟩
  refine ⟨hrun, (hartLoop_idle_iff ⟨rfl, rfl, (), rfl⟩ hrun).mpr fun t ht hidling => ?_⟩
  rcases List.mem_pair.mp ht with rfl | rfl
  · cases hidling
  · cases hidling

end AsyncKernel
