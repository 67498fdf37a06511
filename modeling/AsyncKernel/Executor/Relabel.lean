import AsyncKernel.Executor.Round

/-!
# Relabeling the futures of an executor

An executor never looks at a future: it keeps it, moves it and polls it. So a map of futures, and
one of environments, that agree with what polls do, agree with every call on an executor.

## Main definitions

* `Action.relabel`, `Polled.relabel`, `Executor.relabel`: the futures replaced
* `Behaviour.Relabels`: a poll of a replaced future does what a poll of the future does

## Main results

* `Executor.pushTask_relabel`, `Executor.pollHandle_relabel`: a call on a relabeled executor
-/

namespace AsyncKernel

variable {F F' W E E' : Type}

def Action.relabel (φ : F → F') : Action F → Action F'
  | .spawn future => .spawn (φ future)
  | .wake index => .wake index
  | .enter => .enter

def Polled.relabel (φ : F → F') (p : Polled F) : Polled F' :=
  ⟨p.actions.map (Action.relabel φ), p.next.map φ⟩

/-- A poll of a replaced future does what a poll of the future does. -/
def Behaviour.Relabels (φ : F → F') (ψ : E → E') (behaviour : Behaviour F E)
    (behaviour' : Behaviour F' E') : Prop :=
  ∀ future env, behaviour' (φ future) (ψ env) =
    ((behaviour future env).1.relabel φ, ψ (behaviour future env).2)

namespace Executor

/-- The futures and the environment replaced. -/
def relabel (φ : F → F') (ψ : E → E') (s : Executor F W E) : Executor F' W E' where
  tasks := s.tasks.map (Option.map φ)
  wakers := s.wakers
  wakeQueue := s.wakeQueue
  taskQueue := s.taskQueue.map φ
  woken := s.woken
  env := ψ s.env

variable {φ : F → F'} {ψ : E → E'} {behaviour : Behaviour F E} {behaviour' : Behaviour F' E'}
  {guard : Guard} {queueHeld : Bool}

theorem spawn_relabel (s : Executor F W E) (future : F) :
    (s.relabel φ ψ).spawn (φ future) = (s.spawn future).relabel φ ψ := by
  simp [spawn, relabel]

theorem act_relabel (s : Executor F W E) (a : Action F) :
    act guard queueHeld (s.relabel φ ψ) (a.relabel φ) =
      (act guard queueHeld s a).map (relabel φ ψ) := by
  cases a with
  | spawn future =>
    cases queueHeld with
    | true => rfl
    | false => exact congrArg Except.ok (spawn_relabel s future)
  | wake index => rfl
  | enter => rfl

theorem act_foldlM_relabel (s : Executor F W E) (actions : List (Action F)) :
    (actions.map (Action.relabel φ)).foldlM (act guard queueHeld) (s.relabel φ ψ) =
      (actions.foldlM (act guard queueHeld) s).map (relabel φ ψ) :=
  foldlM_map_eq act_relabel actions s

theorem set_relabel (s : Executor F W E) (index : ℕ) (slot : Option F) :
    { s.relabel φ ψ with tasks := (s.relabel φ ψ).tasks.set index (slot.map φ) } =
      ({ s with tasks := s.tasks.set index slot } : Executor F W E).relabel φ ψ := by
  simp [relabel, List.map_set]

theorem place_relabel (s : Executor F W E) (task : F) :
    (s.relabel φ ψ).place (φ task) = ((s.place task).1, (s.place task).2.map (Option.map φ)) := by
  have hfind : (s.relabel φ ψ).tasks.findIdx? Option.isNone = s.tasks.findIdx? Option.isNone := by
    simp only [relabel, List.findIdx?_map]
    congr 1
    funext slot
    simp
  unfold place
  rw [hfind]
  cases s.tasks.findIdx? Option.isNone with
  | some index => simp [relabel, List.map_set]
  | none => simp [relabel]

section Relabels

variable (h : Behaviour.Relabels φ ψ behaviour behaviour')

include h

theorem pollFuture_relabel (s : Executor F W E) (index : ℕ) :
    pollFuture behaviour' guard queueHeld (s.relabel φ ψ) index =
      (pollFuture behaviour guard queueHeld s index).map (relabel φ ψ) := by
  by_cases htask : ∃ task, s.tasks[index]? = some (some task)
  · obtain ⟨task, htask⟩ := htask
    have htask' : (s.relabel φ ψ).tasks[index]? = some (some (φ task)) := by
      simp [relabel, htask]
    have henv : (s.relabel φ ψ).env = ψ s.env := rfl
    unfold pollFuture
    rw [htask, htask']
    dsimp only
    rw [henv, h task s.env]
    -- The actions are performed on the relabeled executor, and then its slot is written.
    refine (congrArg (· >>= _) (act_foldlM_relabel (ψ := ψ)
      { s with env := (behaviour task s.env).2 } (behaviour task s.env).1.actions)).trans
      (bind_map_eq (fun s₁ => ?_) _)
    exact congrArg Except.ok (set_relabel s₁ index _)
  · have hnone : ∀ task, s.tasks[index]? ≠ some (some task) := fun task h => htask ⟨task, h⟩
    have hnone' : ∀ task, (s.relabel φ ψ).tasks[index]? ≠ some (some task) := by
      intro task htask
      simp only [relabel, List.getElem?_map, Option.map_eq_some_iff] at htask
      obtain ⟨slot, hslot, future, rfl, -⟩ := htask
      exact hnone future hslot
    rw [pollFuture_empty hnone, pollFuture_empty hnone']
    rfl

theorem pushTask_relabel (s : Executor F W E) (task : F) :
    (s.relabel φ ψ).pushTask behaviour' guard queueHeld (φ task) =
      (s.pushTask behaviour guard queueHeld task).map (Prod.map id (relabel φ ψ)) := by
  unfold pushTask
  rw [place_relabel]
  refine (congrArg (· >>= _) (pollFuture_relabel h { s with tasks := (s.place task).2 }
    (s.place task).1)).trans (bind_map_eq (fun s₁ => ?_) _)
  rfl

theorem drainQueue_relabel (s : Executor F W E) :
    (s.relabel φ ψ).drainQueue behaviour' guard =
      (s.drainQueue behaviour guard).map (relabel φ ψ) := by
  refine foldlM_map_eq (m := relabel φ ψ) (k := φ) (fun s₁ task => ?_) s.taskQueue
    { s with taskQueue := [] }
  rw [pushTask_relabel h]
  refine bind_map_eq (fun r => ?_) _
  rfl

theorem foldlM_pollFuture_relabel (indices : List ℕ) (s : Executor F W E) :
    indices.foldlM (pollFuture behaviour' guard queueHeld) (s.relabel φ ψ) =
      (indices.foldlM (pollFuture behaviour guard queueHeld) s).map (relabel φ ψ) := by
  have hfold : (indices.map id).foldlM (pollFuture behaviour' guard queueHeld) (s.relabel φ ψ) =
      (indices.foldlM (pollFuture behaviour guard queueHeld) s).map (relabel φ ψ) :=
    foldlM_map_eq (pollFuture_relabel h) indices s
  rwa [List.map_id] at hfold

theorem wakePending_relabel (s : Executor F W E) :
    (s.relabel φ ψ).wakePending behaviour' guard =
      (s.wakePending behaviour guard).map (Prod.map id (relabel φ ψ)) := by
  refine (congrArg (· >>= _) (foldlM_pollFuture_relabel h s.wakeQueue
    { s with wakeQueue := [] })).trans (bind_map_eq (fun s₁ => ?_) _)
  rfl

theorem pollAll_relabel (s : Executor F W E) :
    (s.relabel φ ψ).pollAll behaviour' guard = (s.pollAll behaviour guard).map (relabel φ ψ) := by
  unfold pollAll
  rw [foldlM_pollFuture_relabel h, relabel, List.length_map]

omit h in
theorem poll_relabel (s : Executor F W E) (waker : W) :
    (s.relabel φ ψ).poll waker = Prod.map id (relabel φ ψ) (s.poll waker) := by
  have hdone : (s.relabel φ ψ).checkIfDone = s.checkIfDone := by
    simp only [checkIfDone, relabel, List.any_map]
    congr 2
    funext slot
    simp
  rw [poll_eq, poll_eq, hdone]
  rfl

theorem finishPoll_relabel (s : Executor F W E) (waker : W) :
    (s.relabel φ ψ).finishPoll behaviour' guard waker =
      (s.finishPoll behaviour guard waker).map (Prod.map id (relabel φ ψ)) := by
  unfold finishPoll
  rw [poll_relabel]
  refine (congrArg (· >>= _) (wakePending_relabel h (s.poll waker).2)).trans
    (bind_map_eq (fun r => ?_) _)
  obtain ⟨isEmpty, s₁⟩ := r
  cases isEmpty with
  | true => rfl
  | false =>
    refine (congrArg (· >>= _) (drainQueue_relabel h s₁)).trans (bind_map_eq (fun s₂ => ?_) _)
    rfl

/-- **A poll of a handle of a relabeled executor.** -/
theorem pollHandle_relabel (s : Executor F W E) (waker : W) :
    pollHandle behaviour' guard (s.relabel φ ψ) waker =
      (pollHandle behaviour guard s waker).map (Prod.map id (relabel φ ψ)) := by
  rw [pollHandle_eq, pollHandle_eq, handlePoll_eq, handlePoll_eq, bind_assoc, bind_assoc,
    pollAll_relabel h]
  refine bind_map_eq (fun s₁ => ?_) _
  rw [drainQueue_relabel h]
  exact bind_map_eq (fun s₂ => finishPoll_relabel h s₂ waker) _

end Relabels

end Executor

end AsyncKernel
