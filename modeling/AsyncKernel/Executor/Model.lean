import AsyncKernel.Foundation.Outcome
import AsyncKernel.Foundation.Transition

/-!
# The executors

`LocalExecutor` and `SendExecutor` of `kernel_executor`: one executor keeps its shared fields in
`RefCell`s and the other in spin mutexes, and the code is the same otherwise. A future is a value of
any type; what one poll of it does to the executor is a list of actions, and it may read and write
the rest of the program, its environment.

`for i in self.queue.borrow_mut().drain(..)` keeps the borrow of the spawn queue for the whole loop,
so a future that is polled in the loop and spawns borrows the queue a second time. The executor
itself is borrowed whenever a future is polled.

## Main definitions

* `Behaviour`, `Polled`, `Action`: what a poll of a future does
* `Executor`: the fields of an executor and the wakers it has woken
* `Executor.pollFuture`, `Executor.pollAll`, `Executor.wakePending`, `Executor.pushTask`
* `Executor.handlePoll`: `poll` of a handle
* `Executor.system`: the steps of a program that uses an executor
-/

namespace AsyncKernel

/-- `Poll<()>`. -/
inductive Poll
  | ready
  | pending
  deriving DecidableEq, Repr

/-- How an executor guards its shared fields. -/
inductive Guard
  /-- `RefCell`, in `LocalExecutor` -/
  | refCell
  /-- a spin `Mutex`, in `SendExecutor` -/
  | mutex
  deriving DecidableEq, Repr

/-- A field that is accessed while the same call already holds it. -/
inductive Held
  | queue
  | executor
  deriving DecidableEq, Repr

/-- A second access to a field that is held: a `BorrowMutError` panic of a `RefCell`, a deadlock of
a spin mutex. -/
structure Conflict where
  guard : Guard
  field : Held
  deriving DecidableEq, Repr

/-- What a future does to its executor while it is polled. -/
inductive Action (F : Type)
  /-- `spawn` on a handle of the executor -/
  | spawn (future : F)
  /-- `wake` of the waker of a task -/
  | wake (index : ℕ)
  /-- `push_task` or `poll`, which lock the executor -/
  | enter
  deriving DecidableEq, Repr

/-- One poll of a future: what it does, and what it leaves of the future, none on `Ready`. -/
structure Polled (F : Type) where
  actions : List (Action F)
  next : Option F
  deriving DecidableEq, Repr

/-- The futures of a program: what a poll does in an environment. -/
abbrev Behaviour (F E : Type) := F → E → Polled F × E

/-- An executor, the context wakers that it has woken, and the environment of its futures. -/
structure Executor (F W E : Type) where
  tasks : List (Option F)
  wakers : List W
  wakeQueue : List ℕ
  /-- `task_queue`, which is the `queue` of the handles -/
  taskQueue : List F
  /-- the context wakers woken so far, in order -/
  woken : List W
  env : E
  deriving DecidableEq, Repr

namespace Executor

variable {F W E : Type}

/-- `LocalExecutor::new` and `SendExecutor::new`. -/
def new (env : E) : Executor F W E := ⟨[], [], [], [], [], env⟩

/-- `LocalWaker::rc_wake_by_ref` and `SendWaker::wake`: the index is queued, and the registered
wakers are drained and woken. -/
def wake (s : Executor F W E) (index : ℕ) : Executor F W E :=
  { s with wakeQueue := s.wakeQueue ++ [index], woken := s.woken ++ s.wakers, wakers := [] }

/-- `spawn` of a handle. -/
def spawn (s : Executor F W E) (future : F) : Executor F W E :=
  { s with taskQueue := s.taskQueue ++ [future] }

/-- An action of a future. The executor is locked, and `queueHeld` says whether the queue is. -/
def act (guard : Guard) (queueHeld : Bool) (s : Executor F W E) :
    Action F → Except Conflict (Executor F W E)
  -- `queueHeld` is false in `poll_all` and `wake_pending`, and true in the loop over the queue
  | .spawn future => if queueHeld then .error ⟨guard, .queue⟩ else .ok (s.spawn future)
  | .wake index => .ok (s.wake index)
  | .enter => .error ⟨guard, .executor⟩

/-- `check_if_done`. -/
def checkIfDone (s : Executor F W E) : Bool := !s.tasks.any Option.isSome

/-- The slot of a new task: the first empty one, or one more. -/
def place (s : Executor F W E) (task : F) : ℕ × List (Option F) :=
  match s.tasks.findIdx? Option.isNone with
  -- `iter_mut().enumerate().filter(|(_, val)| val.is_none()).next()`
  | some index => (index, s.tasks.set index (some task))
  | none => (s.tasks.length, s.tasks ++ [some task])

/-- `poll` of the executor itself. It registers the waker, and answers `Pending` when it is done. -/
def poll (s : Executor F W E) (waker : W) : Poll × Executor F W E :=
  let s := { s with wakers := s.wakers ++ [waker] }
  -- the two answers stand in the source's order
  if s.checkIfDone then (.pending, s) else (.ready, s)

section Behaviour

variable (behaviour : Behaviour F E) (guard : Guard)

/-- `poll_future`. -/
def pollFuture (queueHeld : Bool) (s : Executor F W E) (index : ℕ) :
    Except Conflict (Executor F W E) :=
  match s.tasks[index]? with
  | some (some task) => do
    let (polled, env) := behaviour task s.env
    let s ← polled.actions.foldlM (act guard queueHeld) { s with env }
    -- `task.take()` on `Ready`; a pending task stays in its slot as what is left of it
    return { s with tasks := s.tasks.set index polled.next }
  -- a slot that is empty, or an index beyond the slots
  | _ => .ok s

/-- `wake_pending`: whether the wake queue was empty. -/
def wakePending (s : Executor F W E) : Except Conflict (Bool × Executor F W E) := do
  let q := s.wakeQueue
  -- a task that is woken by these polls stays in the wake queue
  let s ← q.foldlM (pollFuture behaviour guard false) { s with wakeQueue := [] }
  return (q.isEmpty, s)

/-- `poll_all`. -/
def pollAll (s : Executor F W E) : Except Conflict (Executor F W E) :=
  -- `0..self.tasks.len()`: the polls change slots but not their number
  (List.range' 0 s.tasks.length).foldlM (pollFuture behaviour guard false) s

/-- `push_task`: the task goes to its slot and is polled. -/
def pushTask (queueHeld : Bool) (s : Executor F W E) (task : F) :
    Except Conflict (ℕ × Executor F W E) := do
  let (index, tasks) := s.place task
  let s ← pollFuture behaviour guard queueHeld { s with tasks } index
  return (index, s)

/-- The loop over the spawn queue, which holds the queue. -/
def drainQueue (s : Executor F W E) : Except Conflict (Executor F W E) :=
  -- `drain(..)` takes the queue as it is when the loop starts
  s.taskQueue.foldlM (fun s task => do
    let (_, s) ← pushTask behaviour guard true s task
    return s) { s with taskQueue := [] }

/-- `poll` of a handle. -/
def handlePoll (s : Executor F W E) (waker : W) : Except Conflict (Poll × Executor F W E) := do
  let s ← s.pollAll behaviour guard
  let s ← s.drainQueue behaviour guard
  let (r, s) := s.poll waker
  let (isEmpty, s) ← s.wakePending behaviour guard
  -- some task was woken: what the polls have spawned is started, and `r` is discarded
  if isEmpty = false then
    let s ← s.drainQueue behaviour guard
    return (.pending, s)
  else
    return (r, s)

end Behaviour

end Executor

/-- `poll` of `LocalExecutorHandle`. -/
def LocalExecutorHandle.poll {F W E : Type} (behaviour : Behaviour F E) (s : Executor F W E)
    (waker : W) : Except Conflict (Poll × Executor F W E) :=
  s.handlePoll behaviour .refCell waker

/-- `poll` of `SendExecutorHandle`. -/
def SendExecutorHandle.poll {F W E : Type} (behaviour : Behaviour F E) (s : Executor F W E)
    (waker : W) : Except Conflict (Poll × Executor F W E) :=
  s.handlePoll behaviour .mutex waker

namespace Executor

variable {F W E : Type}

/-- `poll` of a handle of the executor with the given guards. -/
def pollHandle (behaviour : Behaviour F E) :
    Guard → Executor F W E → W → Except Conflict (Poll × Executor F W E)
  | .refCell => LocalExecutorHandle.poll behaviour
  | .mutex => SendExecutorHandle.poll behaviour

theorem pollHandle_eq (behaviour : Behaviour F E) (guard : Guard) (s : Executor F W E) (waker : W) :
    pollHandle behaviour guard s waker = s.handlePoll behaviour guard waker := by
  cases guard <;> rfl

/-- What a program does with an executor between polls of its tasks. -/
inductive Label (F W E : Type)
  | spawn (future : F)
  | pushTask (future : F)
  | wake (index : ℕ)
  | poll (waker : W) (result : Poll)
  /-- the environment changes, whatever the reason -/
  | environment (env : E)

/-- **A program that uses an executor**, one call after the other. A call that runs into a conflict
does not return, and is no step. -/
def system (behaviour : Behaviour F E) (guard : Guard) :
    TransitionSystem (Executor F W E) (Label F W E) where
  init s := ∃ env, s = new env
  step s l s' := match l with
    | .spawn future => s' = s.spawn future
    | .pushTask future => ∃ index, s.pushTask behaviour guard false future = .ok (index, s')
    | .wake index => s' = s.wake index
    | .poll waker result => pollHandle behaviour guard s waker = .ok (result, s')
    | .environment env => s' = { s with env }

end Executor

end AsyncKernel
