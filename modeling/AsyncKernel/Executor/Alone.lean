import Mathlib.Logic.Relation
import AsyncKernel.Executor.Round
import AsyncKernel.Executor.Harts

/-!
# A call that is not interleaved

The instructions of a poll, run one after the other while no other call runs, do what
`Executor.handlePoll` does. So the two models of `SendExecutorHandle::poll` agree: the one of its
calls one after the other, and the one of its interleavings.

## Main definitions

* `Runs`: instructions of one call, one after the other

## Main results

* `runs_pollFuture`, `runs_drainQueue`: the parts of a poll
* `runs_handlePoll`: a poll
-/

namespace AsyncKernel

open Executor Relation

variable {F W E : Type} {behaviour : Behaviour F E} {i : ℕ}

/-- Instructions of the call `i`, one after the other. -/
def Runs (behaviour : Behaviour F E) (i : ℕ) :
    Call F W × Shared F W E → Call F W × Shared F W E → Prop :=
  ReflTransGen fun p q => p.1.step behaviour i p.2 = some q

/-- The call with other instructions to do. -/
def Call.withTodo (call : Call F W) (todo : List (Instr F)) : Call F W := { call with todo }

variable {call : Call F W} {s : Shared F W E} {e e' : Executor F W E}
  {holder queueHolder : Option ℕ}
  {queueHeld : Bool} {instr : Instr F} {rest : List (Instr F)} {p q r : Call F W × Shared F W E}

theorem Runs.trans (h : Runs behaviour i p q) (h' : Runs behaviour i q r) : Runs behaviour i p r :=
  ReflTransGen.trans h h'

theorem Runs.exec (h : (call.withTodo rest).exec behaviour i s instr = some q)
    (h' : Runs behaviour i q r) : Runs behaviour i (call.withTodo (instr :: rest), s) r :=
  ReflTransGen.head h h'

/-- An action. The queue is free unless the big step holds it. -/
theorem runs_act {action : Action F} (hfree : queueHeld = false → queueHolder = none)
    (h : act .mutex queueHeld e action = .ok e') :
    Runs behaviour i (call.withTodo (.act action :: rest), ⟨e, holder, queueHolder⟩)
      (call.withTodo rest, ⟨e', holder, queueHolder⟩) := by
  cases action with
  | spawn future =>
    cases queueHeld with
    | true => cases h
    | false =>
      obtain rfl := Except.ok.inj h
      -- the queue is free, so the call does not wait
      exact .exec (if_pos (hfree rfl)) .refl
  | wake index =>
    obtain rfl := Except.ok.inj h
    -- Both steps of the wake, with nothing between them.
    have hdrain : Runs behaviour i (call.withTodo (.drainWakers :: rest),
        ⟨{ e with wakeQueue := e.wakeQueue ++ [index] }, holder, queueHolder⟩)
        (call.withTodo rest, ⟨e.wake index, holder, queueHolder⟩) := .exec rfl .refl
    exact .exec rfl hdrain
  | enter => cases h

/-- A fold of computations, when each of them is what an instruction does. -/
theorem runs_foldlM {A : Type} {f : Executor F W E → A → Except Conflict (Executor F W E)}
    (instruction : A → Instr F)
    (hone : ∀ e e' a rest, f e a = .ok e' →
      Runs behaviour i (call.withTodo (instruction a :: rest), ⟨e, holder, queueHolder⟩)
        (call.withTodo rest, ⟨e', holder, queueHolder⟩))
    {list : List A} (h : list.foldlM f e = .ok e') :
    Runs behaviour i (call.withTodo (list.map instruction ++ rest), ⟨e, holder, queueHolder⟩)
      (call.withTodo rest, ⟨e', holder, queueHolder⟩) := by
  induction list generalizing e with
  | nil =>
    obtain rfl := Except.ok.inj h
    exact .refl
  | cons a list ih =>
    rw [List.foldlM_cons] at h
    obtain ⟨e₁, h₁, h⟩ := bind_eq_ok_iff.mp h
    exact (hone _ _ a _ h₁).trans (ih h)

theorem runs_acts {actions : List (Action F)} (hfree : queueHeld = false → queueHolder = none)
    (h : actions.foldlM (act .mutex queueHeld) e = .ok e') :
    Runs behaviour i (call.withTodo (actions.map .act ++ rest), ⟨e, holder, queueHolder⟩)
      (call.withTodo rest, ⟨e', holder, queueHolder⟩) :=
  runs_foldlM .act (fun _ _ _ _ => runs_act hfree) h

/-- **A poll of a future.** -/
theorem runs_pollFuture {index : ℕ} (hfree : queueHeld = false → queueHolder = none)
    (h : pollFuture behaviour .mutex queueHeld e index = .ok e') :
    Runs behaviour i (call.withTodo (.pollFuture index :: rest), ⟨e, holder, queueHolder⟩)
      (call.withTodo rest, ⟨e', holder, queueHolder⟩) := by
  by_cases htask : ∃ task, e.tasks[index]? = some (some task)
  · obtain ⟨task, htask⟩ := htask
    rw [pollFuture, htask] at h
    obtain ⟨e₁, hacts, h⟩ := bind_eq_ok_iff.mp h
    obtain rfl := Except.ok.inj h
    -- The actions of the future, and then its slot.
    have hfinish : Runs behaviour i
        (call.withTodo (.finishFuture index (behaviour task e.env).1.next :: rest),
          ⟨e₁, holder, queueHolder⟩) (call.withTodo rest, ⟨_, holder, queueHolder⟩) :=
      .exec rfl .refl
    refine .exec ?_ ((runs_acts hfree hacts).trans hfinish)
    simp only [Call.exec, htask, Call.before, Call.withTodo, List.append_assoc,
      List.singleton_append]
  · -- an empty slot is skipped by both
    have hnone : ∀ task, e.tasks[index]? ≠ some (some task) := fun task h => htask ⟨task, h⟩
    rw [pollFuture_empty hnone] at h
    obtain rfl := Except.ok.inj h
    refine .exec ?_ .refl
    dsimp only [Call.exec]
    split
    · rename_i task htask'
      exact absurd htask' (hnone task)
    · rfl

theorem runs_pollFutures {indices : List ℕ} (hfree : queueHeld = false → queueHolder = none)
    (h : indices.foldlM (pollFuture behaviour .mutex queueHeld) e = .ok e') :
    Runs behaviour i (call.withTodo (indices.map .pollFuture ++ rest), ⟨e, holder, queueHolder⟩)
      (call.withTodo rest, ⟨e', holder, queueHolder⟩) :=
  runs_foldlM .pollFuture (fun _ _ _ _ => runs_pollFuture hfree) h

theorem runs_pushTask {task : F} {index : ℕ} (hfree : queueHeld = false → queueHolder = none)
    (h : pushTask behaviour .mutex queueHeld e task = .ok (index, e')) :
    Runs behaviour i (call.withTodo (.pushTask task :: rest), ⟨e, holder, queueHolder⟩)
      (call.withTodo rest, ⟨e', holder, queueHolder⟩) := by
  obtain ⟨e₁, hpoll, h⟩ := bind_eq_ok_iff.mp h
  obtain ⟨-, rfl⟩ := Prod.mk.inj (Except.ok.inj h)
  exact .exec rfl (runs_pollFuture hfree hpoll)

/-- The futures of the spawn queue, with the queue held. -/
theorem runs_pushTasks {tasks : List F}
    (h : tasks.foldlM (fun e task => do
      let (_, e) ← pushTask behaviour .mutex true e task
      return e) e = .ok e') :
    Runs behaviour i
      (call.withTodo ((tasks.flatMap fun task =>
        [.lockExecutor, .pushTask task, .unlockExecutor]) ++ rest), ⟨e, none, queueHolder⟩)
      (call.withTodo rest, ⟨e', none, queueHolder⟩) := by
  induction tasks generalizing e with
  | nil =>
    obtain rfl := Except.ok.inj h
    exact .refl
  | cons task tasks ih =>
    rw [List.foldlM_cons] at h
    obtain ⟨e₁, hbody, h⟩ := bind_eq_ok_iff.mp h
    obtain ⟨⟨index, e₂⟩, hpush, he⟩ := bind_eq_ok_iff.mp hbody
    obtain rfl : e₂ = e₁ := Except.ok.inj he
    -- The executor is locked for this future, and free again for the next one.
    have hunlock : Runs behaviour i (call.withTodo (.unlockExecutor :: ((tasks.flatMap fun task =>
        [.lockExecutor, .pushTask task, .unlockExecutor]) ++ rest)), ⟨e₂, some i, queueHolder⟩)
        (call.withTodo rest, ⟨e', none, queueHolder⟩) := .exec rfl (ih h)
    exact .exec rfl ((runs_pushTask (by simp) hpush).trans hunlock)

/-- **The loop over the spawn queue.** -/
theorem runs_drainQueue (h : e.drainQueue behaviour .mutex = .ok e') :
    Runs behaviour i
      (call.withTodo (.lockQueue :: .drainQueue :: .unlockQueue :: rest), ⟨e, none, none⟩)
      (call.withTodo rest, ⟨e', none, none⟩) := by
  have hunlock : Runs behaviour i (call.withTodo (.unlockQueue :: rest), ⟨e', none, some i⟩)
      (call.withTodo rest, ⟨e', none, none⟩) := .exec rfl .refl
  have hdrain : Runs behaviour i
      (call.withTodo (.drainQueue :: .unlockQueue :: rest), ⟨e, none, some i⟩)
      (call.withTodo rest, ⟨e', none, none⟩) := .exec rfl ((runs_pushTasks h).trans hunlock)
  exact .exec rfl hdrain

/-- The end of a poll, after `wake_pending`. -/
theorem runs_conclude {result : Poll} (h : (if call.isEmpty = false then do
        let e ← e.drainQueue behaviour .mutex
        return (.pending, e)
      else return (call.answer, e)) =
        (.ok (result, e') : Except Conflict (Poll × Executor F W E))) :
    ∃ call' : Call F W, call'.result = some result ∧
      Runs behaviour i (call.withTodo [.conclude], ⟨e, none, none⟩) (call', ⟨e', none, none⟩) := by
  by_cases hempty : call.isEmpty = false
  · rw [if_pos hempty] at h
    obtain ⟨e₁, hdrain, h⟩ := bind_eq_ok_iff.mp h
    obtain ⟨rfl, rfl⟩ := Prod.mk.inj (Except.ok.inj h)
    have hret : Runs behaviour i (({ call with answer := .pending }).withTodo [.ret],
        ⟨e₁, none, none⟩) (_, ⟨e₁, none, none⟩) := .exec rfl .refl
    exact ⟨_, rfl, .exec (if_pos hempty) ((runs_drainQueue hdrain).trans hret)⟩
  · rw [if_neg hempty] at h
    obtain ⟨rfl, rfl⟩ := Prod.mk.inj (Except.ok.inj h)
    have hret : Runs behaviour i (call.withTodo [.ret], ⟨e, none, none⟩) (_, ⟨e, none, none⟩) :=
      .exec rfl .refl
    exact ⟨_, rfl, .exec (if_neg hempty) hret⟩

/-- **A poll of a handle**, run alone, does what `handlePoll` does. -/
theorem runs_handlePoll {waker : W} {result : Poll}
    (h : SendExecutorHandle.poll behaviour e waker = .ok (result, e')) :
    ∃ call' : Call F W, call'.result = some result ∧
      Runs behaviour i ((Request.poll waker).start, ⟨e, none, none⟩) (call', ⟨e', none, none⟩) := by
  -- The states between the parts of the call: after `poll_all`, the spawn queue and `wake_pending`.
  obtain ⟨e₁, hall, h⟩ := bind_eq_ok_iff.mp h
  obtain ⟨e₂, hdrain, h⟩ := bind_eq_ok_iff.mp h
  rw [poll_eq] at h
  obtain ⟨⟨isEmpty, e₃⟩, hwake, h⟩ := bind_eq_ok_iff.mp h
  obtain ⟨e₄, hpolls, he⟩ := bind_eq_ok_iff.mp hwake
  obtain ⟨rfl, rfl⟩ := Prod.mk.inj (Except.ok.inj he)
  -- The local state of the call at each part.
  let start : Call F W := (Request.poll waker).start
  let registered : Call F W := { start with registeredAt := some e₂.woken.length }
  let answered : Call F W :=
    { registered with answer := if e₂.checkIfDone then .pending else .ready }
  let woken : Call F W := { answered with isEmpty := e₂.wakeQueue.isEmpty }
  obtain ⟨call', hresult, hconclude⟩ : ∃ call' : Call F W, call'.result = some result ∧
    Runs behaviour i (woken.withTodo [.conclude], ⟨e₄, none, none⟩) (call', ⟨e', none, none⟩) :=
      runs_conclude h
  refine ⟨call', hresult, ?_⟩
  -- the parts from the last to the first
  have hunlock : Runs behaviour i (woken.withTodo pollTail, ⟨e₄, some i, none⟩)
      (call', ⟨e', none, none⟩) := .exec rfl hconclude
  have hwake : Runs behaviour i (answered.withTodo (.wakePending :: pollTail),
      ⟨{ e₂ with wakers := e₂.wakers ++ [waker] }, some i, none⟩) (call', ⟨e', none, none⟩) :=
    .exec rfl ((runs_pollFutures (fun _ => rfl) hpolls).trans hunlock)
  have hlock : Runs behaviour i (answered.withTodo (.lockExecutor :: .wakePending :: pollTail),
      ⟨{ e₂ with wakers := e₂.wakers ++ [waker] }, none, none⟩) (call', ⟨e', none, none⟩) :=
    .exec rfl hwake
  have hanswer : Runs behaviour i
      (answered.withTodo (.unlockExecutor :: .lockExecutor :: .wakePending :: pollTail),
        ⟨{ e₂ with wakers := e₂.wakers ++ [waker] }, some i, none⟩) (call', ⟨e', none, none⟩) :=
    .exec rfl hlock
  have hcheck : Runs behaviour i (registered.withTodo (pollMiddle ++ .wakePending :: pollTail),
      ⟨{ e₂ with wakers := e₂.wakers ++ [waker] }, some i, none⟩) (call', ⟨e', none, none⟩) :=
    .exec rfl hanswer
  have hregister : Runs behaviour i
      (start.withTodo (.register :: (pollMiddle ++ .wakePending :: pollTail)), ⟨e₂, some i, none⟩)
      (call', ⟨e', none, none⟩) := .exec rfl hcheck
  have hlock₁ : Runs behaviour i (start.withTodo
      (.lockExecutor :: .register :: (pollMiddle ++ .wakePending :: pollTail)), ⟨e₂, none, none⟩)
      (call', ⟨e', none, none⟩) := .exec rfl hregister
  have hunlock₁ : Runs behaviour i (start.withTodo (.unlockExecutor :: .lockQueue :: .drainQueue ::
      .unlockQueue :: .lockExecutor :: .register :: (pollMiddle ++ .wakePending :: pollTail)),
      ⟨e₁, some i, none⟩) (call', ⟨e', none, none⟩) :=
    .exec rfl ((runs_drainQueue hdrain).trans hlock₁)
  have hpollAll : Runs behaviour i (start.withTodo (.pollAll :: .unlockExecutor :: .lockQueue ::
      .drainQueue :: .unlockQueue :: .lockExecutor :: .register ::
      (pollMiddle ++ .wakePending :: pollTail)), ⟨e, some i, none⟩) (call', ⟨e', none, none⟩) :=
    .exec rfl ((runs_pollFutures (fun _ => rfl) hall).trans hunlock₁)
  exact ReflTransGen.head rfl hpollAll

end AsyncKernel
