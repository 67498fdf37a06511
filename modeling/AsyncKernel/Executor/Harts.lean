import AsyncKernel.Foundation.Notify
import AsyncKernel.Executor.Model

/-!
# Harts that share an executor

Any number of harts call into one `SendExecutor`. A call is a list of instructions; an instruction
is one access to a field behind a lock, or a step without one, and the instructions of the calls
interleave in any order. A wake is two instructions: the index is queued, and the registered wakers
are drained and woken. A call that finds a lock taken waits.

## Main definitions

* `Instr`: the instructions
* `Request`, `Request.code`: the calls that harts make
* `Call`, `Call.step`: a call in progress, and its next instruction
* `Harts`, `Harts.next`, `harts`: the executor, its locks and the calls
* `Call.BetweenSteps`: a wake has queued its index and not yet woken

## Main results

* `Call.exec_inner`: what an inner instruction can do
* `simulates`: the harts are parties of the registration protocol
* `wake_not_lost`: no wake-up is lost
-/

namespace AsyncKernel

variable {F W E : Type}

/-! ## The instructions -/

inductive Instr (F : Type)
  | lockExecutor
  | unlockExecutor
  | lockQueue
  | unlockQueue
  /-- `poll_all` -/
  | pollAll
  /-- `poll_future`: the future is polled -/
  | pollFuture (index : ℕ)
  /-- something that the future does -/
  | act (action : Action F)
  /-- the second step of a wake -/
  | drainWakers
  /-- `poll_future`: the poll of the future returns -/
  | finishFuture (index : ℕ) (next : Option F)
  /-- the loop over the spawn queue -/
  | drainQueue
  /-- `push_task` -/
  | pushTask (task : F)
  /-- `poll` of the executor: the waker is registered -/
  | register
  /-- `poll` of the executor: the answer -/
  | checkIfDone
  /-- `wake_pending`: the wake queue is taken -/
  | wakePending
  /-- the branch on the result of `wake_pending` -/
  | conclude
  | ret
  deriving DecidableEq, Repr

/-- A call that a hart makes. -/
inductive Request (F W : Type)
  | poll (waker : W)
  | wake (index : ℕ)
  | spawn (future : F)
  | pushTask (future : F)

/-- `poll` of a handle up to the registration of the waker. -/
def pollHead : List (Instr F) :=
  [.lockExecutor, .pollAll, .unlockExecutor, .lockQueue, .drainQueue, .unlockQueue, .lockExecutor]

/-- `poll` of a handle from the registration to `wake_pending`. -/
def pollMiddle : List (Instr F) := [.checkIfDone, .unlockExecutor, .lockExecutor]

/-- `poll` of a handle after `wake_pending`. -/
def pollTail : List (Instr F) := [.unlockExecutor, .conclude]

/-- The instructions of a call. -/
def Request.code : Request F W → List (Instr F)
  | .poll _ => pollHead ++ .register :: (pollMiddle ++ .wakePending :: pollTail)
  | .wake index => [.act (.wake index)]
  | .spawn future => [.act (.spawn future)]
  | .pushTask future => [.lockExecutor, .pushTask future, .unlockExecutor]

/-- A call in progress. -/
structure Call (F W : Type) where
  /-- the context waker, of a poll -/
  waker : Option W
  todo : List (Instr F)
  /-- the local variable `r` -/
  answer : Poll
  /-- what `wake_pending` has returned -/
  isEmpty : Bool
  result : Option Poll
  /-- how many wakers had been woken when the context waker was registered -/
  registeredAt : Option ℕ

/-- The executor and its locks, each with the call that holds it. -/
structure Shared (F W E : Type) where
  executor : Executor F W E
  executorHolder : Option ℕ
  queueHolder : Option ℕ

/-- The calls of all harts, in the order in which they were made. -/
structure Harts (F W E : Type) where
  shared : Shared F W E
  calls : List (Call F W)

def Request.start (request : Request F W) : Call F W where
  waker := match request with
    | .poll waker => some waker
    | _ => none
  todo := request.code
  answer := .pending
  isEmpty := true
  result := none
  registeredAt := none

namespace Call

/-- Further instructions before the rest of a call. -/
def before (instrs : List (Instr F)) (call : Call F W) : Call F W :=
  { call with todo := instrs ++ call.todo }

/-- One instruction of the call `i`, whose `todo` is what comes after it. There is no result when
the call has to wait. -/
def exec (behaviour : Behaviour F E) (i : ℕ) (call : Call F W) (s : Shared F W E) :
    Instr F → Option (Call F W × Shared F W E)
  | .lockExecutor =>
    if s.executorHolder = none then some (call, { s with executorHolder := some i }) else none
  | .unlockExecutor => some (call, { s with executorHolder := none })
  | .lockQueue =>
    if s.queueHolder = none then some (call, { s with queueHolder := some i }) else none
  | .unlockQueue => some (call, { s with queueHolder := none })
  -- `&mut self` of the loop is the executor's lock, which the call holds until `unlockExecutor`
  | .pollAll =>
    some (call.before ((List.range' 0 s.executor.tasks.length).map .pollFuture), s)
  | .pollFuture index =>
    match s.executor.tasks[index]? with
    | some (some task) =>
      let (polled, env) := behaviour task s.executor.env
      -- what the future does comes before its slot is written
      some (call.before (polled.actions.map .act ++ [.finishFuture index polled.next]),
        { s with executor := { s.executor with env } })
    | _ => some (call, s)
  -- the two steps of a wake: other calls may run before `drainWakers`
  | .act (.wake index) =>
    some (call.before [.drainWakers], { s with
      executor := { s.executor with wakeQueue := s.executor.wakeQueue ++ [index] } })
  | .drainWakers =>
    some (call, { s with executor := { s.executor with
      woken := s.executor.woken ++ s.executor.wakers
      wakers := [] } })
  | .act (.spawn future) =>
    -- one access to the queue; the call waits while another call, or itself, holds it
    if s.queueHolder = none then some (call, { s with executor := s.executor.spawn future })
    else none
  -- the executor is held by the call that polls the future
  | .act .enter => none
  | .finishFuture index next =>
    some (call, { s with executor := { s.executor with
      tasks := s.executor.tasks.set index next } })
  | .drainQueue =>
    -- `self.executor.lock().push_task(i)` for every drained future: a lock for each
    some (call.before (s.executor.taskQueue.flatMap fun task =>
        [.lockExecutor, .pushTask task, .unlockExecutor]),
      { s with executor := { s.executor with taskQueue := [] } })
  | .pushTask task =>
    let (index, tasks) := s.executor.place task
    some (call.before [.pollFuture index], { s with executor := { s.executor with tasks } })
  | .register =>
    match call.waker with
    | some waker =>
      -- `woken` only grows, so its length is the time of the registration
      some ({ call with registeredAt := some s.executor.woken.length },
        { s with executor := { s.executor with wakers := s.executor.wakers ++ [waker] } })
    | none => some (call, s)
  | .checkIfDone =>
    some ({ call with answer := if s.executor.checkIfDone then .pending else .ready }, s)
  | .wakePending =>
    some ({ call.before (s.executor.wakeQueue.map .pollFuture) with
        isEmpty := s.executor.wakeQueue.isEmpty },
      { s with executor := { s.executor with wakeQueue := [] } })
  | .conclude =>
    if call.isEmpty = false then
      some ({ call.before [.lockQueue, .drainQueue, .unlockQueue, .ret]
        with answer := .pending }, s)
    else some (call.before [.ret], s)
  | .ret => some ({ call with todo := [], result := some call.answer }, s)

/-- The next instruction of the call `i`. -/
def step (behaviour : Behaviour F E) (i : ℕ) (call : Call F W) (s : Shared F W E) :
    Option (Call F W × Shared F W E) :=
  match call.todo with
  | [] => none
  | instr :: rest => exec behaviour i { call with todo := rest } s instr

/-- A wake has queued its index and not yet woken. -/
def BetweenSteps (call : Call F W) : Prop := call.todo.head? = some .drainWakers

end Call

/-! ## The harts -/

inductive HartLabel (F W E : Type)
  | call (request : Request F W)
  | run (i : ℕ)
  /-- the environment changes, whatever the reason -/
  | environment (env : E)

/-- What follows a state: a new call, the next instruction of a call, or another environment. -/
def Harts.next (behaviour : Behaviour F E) (s : Harts F W E) :
    HartLabel F W E → Option (Harts F W E)
  | .call request => some { s with calls := s.calls ++ [request.start] }
  | .run i => do
    let call ← s.calls[i]?
    let (call, shared) ← call.step behaviour i s.shared
    return ⟨shared, s.calls.set i call⟩
  | .environment env =>
    some { s with shared := { s.shared with executor := { s.shared.executor with env } } }

/-- A new executor, and no calls yet. -/
def Harts.new (env : E) : Harts F W E := ⟨⟨Executor.new env, none, none⟩, []⟩

/-- **Harts that share an executor.** -/
def harts (behaviour : Behaviour F E) : TransitionSystem (Harts F W E) (HartLabel F W E) where
  init s := ∃ env, s = Harts.new env
  step s l s' := s.next behaviour l = some s'

theorem Harts.next_run {behaviour : Behaviour F E} {s s' : Harts F W E} {i : ℕ}
    (h : s.next behaviour (.run i) = some s') : ∃ call call' shared', s.calls[i]? = some call ∧
      call.step behaviour i s.shared = some (call', shared') ∧
      s' = ⟨shared', s.calls.set i call'⟩ := by
  obtain ⟨call, hcall, h⟩ := Option.bind_eq_some_iff.mp h
  obtain ⟨⟨call', shared'⟩, hstep, h⟩ := Option.bind_eq_some_iff.mp h
  exact ⟨call, call', shared', hcall, hstep, (Option.some.inj h).symm⟩

/-! ## What an instruction can do -/

namespace Instr

/-- An instruction of a part of a call, and not one of the four that lead from part to part. -/
def inner : Instr F → Bool
  | register | wakePending | conclude | ret => false
  | _ => true

/-- An instruction after the wake queue has been taken. -/
def late : Instr F → Bool
  | register | wakePending => false
  | _ => true

theorem late_of_inner {instr : Instr F} (h : instr.inner = true) : instr.late = true := by
  cases instr <;> first | rfl | cases h

end Instr

/-- The fields that take part in a notification are the same. -/
structure SameNotify (s s' : Shared F W E) : Prop where
  wakeQueue : s'.executor.wakeQueue = s.executor.wakeQueue
  wakers : s'.executor.wakers = s.executor.wakers
  woken : s'.executor.woken = s.executor.woken

/-- The first step of a wake. -/
structure Pushes (index : ℕ) (s s' : Shared F W E) : Prop where
  wakeQueue : s'.executor.wakeQueue = s.executor.wakeQueue ++ [index]
  wakers : s'.executor.wakers = s.executor.wakers
  woken : s'.executor.woken = s.executor.woken

/-- The second step of a wake. -/
structure Wakes (s s' : Shared F W E) : Prop where
  wakeQueue : s'.executor.wakeQueue = s.executor.wakeQueue
  wakers : s'.executor.wakers = []
  woken : s'.executor.woken = s.executor.woken ++ s.executor.wakers

/-- A call goes on with further instructions before its rest. -/
structure Continues (call call' : Call F W) (more : List (Instr F)) : Prop where
  waker : call'.waker = call.waker
  todo : call'.todo = more ++ call.todo
  result : call'.result = call.result
  registeredAt : call'.registeredAt = call.registeredAt

section Exec

variable {behaviour : Behaviour F E} {i : ℕ} {call call' : Call F W} {s s' : Shared F W E}
  {instr : Instr F}

theorem Call.continues_before (call : Call F W) (more : List (Instr F)) :
    Continues call (call.before more) more :=
  ⟨rfl, rfl, rfl, rfl⟩

/-- What an inner instruction does: it puts further inner instructions before the rest of the call,
and is one of the steps of a wake or does not touch what takes part in one. -/
def InnerStep (instr : Instr F) (call call' : Call F W) (s s' : Shared F W E) : Prop :=
  ∃ more, (∀ x ∈ more, x.inner = true) ∧ Continues call call' more ∧
    ((instr ≠ .drainWakers ∧ SameNotify s s') ∨
      (∃ index, instr = .act (.wake index) ∧ more = [.drainWakers] ∧ Pushes index s s') ∨
      instr = .drainWakers ∧ Wakes s s')

theorem InnerStep.of_same {r : Call F W × Shared F W E} (more : List (Instr F))
    (h : some r = some (call', s')) (hinstr : instr ≠ .drainWakers)
    (hmore : ∀ x ∈ more, x.inner = true) (hcontinues : Continues call r.1 more)
    (hsame : SameNotify s r.2) : InnerStep instr call call' s s' := by
  obtain rfl := Option.some.inj h
  exact ⟨more, hmore, hcontinues, Or.inl ⟨hinstr, hsame⟩⟩

/-- **An inner instruction.** -/
theorem Call.exec_inner (hinner : instr.inner = true)
    (h : call.exec behaviour i s instr = some (call', s')) : InnerStep instr call call' s s' := by
  cases instr with
  | lockExecutor =>
    obtain ⟨-, h⟩ := Option.ite_none_right_eq_some.mp h
    exact .of_same [] h nofun nofun (call.continues_before []) ⟨rfl, rfl, rfl⟩
  -- the locks do not take part in a notification
  | unlockExecutor => exact .of_same [] h nofun nofun (call.continues_before []) ⟨rfl, rfl, rfl⟩
  | lockQueue =>
    obtain ⟨-, h⟩ := Option.ite_none_right_eq_some.mp h
    exact .of_same [] h nofun nofun (call.continues_before []) ⟨rfl, rfl, rfl⟩
  | unlockQueue => exact .of_same [] h nofun nofun (call.continues_before []) ⟨rfl, rfl, rfl⟩
  | pollAll =>
    exact .of_same _ h nofun (by simp [Instr.inner]) (call.continues_before _) ⟨rfl, rfl, rfl⟩
  | pollFuture index =>
    dsimp only [Call.exec] at h
    split at h
    · refine .of_same _ h nofun (fun x hx => ?_) (call.continues_before _) ⟨rfl, rfl, rfl⟩
      rcases List.mem_append.mp hx with hx | hx
      · obtain ⟨action, -, rfl⟩ := List.mem_map.mp hx
        rfl
      · rw [List.mem_singleton.mp hx]
        rfl
    · exact .of_same [] h nofun nofun (call.continues_before []) ⟨rfl, rfl, rfl⟩
  | act action =>
    cases action with
    | wake index =>
      obtain ⟨rfl, rfl⟩ := Prod.mk.inj (Option.some.inj h)
      exact ⟨_, by simp [Instr.inner], call.continues_before _,
        Or.inr (Or.inl ⟨index, rfl, rfl, rfl, rfl, rfl⟩)⟩
    | spawn future =>
      obtain ⟨-, h⟩ := Option.ite_none_right_eq_some.mp h
      exact .of_same [] h nofun nofun (call.continues_before []) ⟨rfl, rfl, rfl⟩
    | enter => cases h
  | drainWakers =>
    obtain ⟨rfl, rfl⟩ := Prod.mk.inj (Option.some.inj h)
    exact ⟨[], nofun, call.continues_before [], Or.inr (Or.inr ⟨rfl, rfl, rfl, rfl⟩)⟩
  | finishFuture index next =>
    exact .of_same [] h nofun nofun (call.continues_before []) ⟨rfl, rfl, rfl⟩
  | drainQueue =>
    refine .of_same _ h nofun (fun x hx => ?_) (call.continues_before _) ⟨rfl, rfl, rfl⟩
    obtain ⟨task, -, hx⟩ := List.mem_flatMap.mp hx
    simp only [List.mem_cons, List.not_mem_nil, or_false] at hx
    rcases hx with rfl | rfl | rfl <;> rfl
  | pushTask task =>
    exact .of_same _ h nofun (by simp [Instr.inner]) (call.continues_before _) ⟨rfl, rfl, rfl⟩
  | checkIfDone =>
    exact .of_same [] h nofun nofun ⟨rfl, rfl, rfl, rfl⟩ ⟨rfl, rfl, rfl⟩
  | register => cases hinner
  | wakePending => cases hinner
  | conclude => cases hinner
  | ret => cases hinner

end Exec

/-! ## The registration protocol -/

section Simulation

variable {behaviour : Behaviour F E} {i : ℕ} {call call' : Call F W} {s : Harts F W E}
  {shared' : Shared F W E} {a a' : Notify.State ℕ W ℕ} {r : Option (Notify.Registration W)}

/-- How far a call has come, and what it is in the protocol: a poll registers, takes the queue and
returns, and other calls take no part as consumers. -/
inductive Progress (call : Call F W) : Option (Notify.Registration W) → Prop
  | other (hwaker : call.waker = none) (htodo : ∀ x ∈ call.todo, x.inner = true) :
        Progress call none
  | started (waker : W) (rest : List (Instr F)) (hwaker : call.waker = some waker)
      (hrest : ∀ x ∈ rest, x.inner = true)
      (htodo : call.todo = rest ++ .register :: (pollMiddle ++ .wakePending :: pollTail)) :
      Progress call none
  | registered (waker : W) (since : ℕ) (rest : List (Instr F)) (hwaker : call.waker = some waker)
      (hsince : call.registeredAt = some since) (hrest : ∀ x ∈ rest, x.inner = true)
      (htodo : call.todo = rest ++ .wakePending :: pollTail) :
      Progress call (some ⟨waker, since, false⟩)
  | taken (waker : W) (since : ℕ) (hwaker : call.waker = some waker)
      (hsince : call.registeredAt = some since) (htodo : ∀ x ∈ call.todo, x.late = true) :
      Progress call (some ⟨waker, since, true⟩)

theorem Request.progress (request : Request F W) : Progress request.start none := by
  cases request with
  | poll waker => exact .started waker pollHead rfl (by simp [pollHead, Instr.inner]) rfl
  | wake index => exact .other rfl (by simp [Request.start, Request.code, Instr.inner])
  | spawn future => exact .other rfl (by simp [Request.start, Request.code, Instr.inner])
  | pushTask future => exact .other rfl (by simp [Request.start, Request.code, Instr.inner])

theorem exists_rest_of_inner {instr stop : Instr F} {pre rest code : List (Instr F)}
    (h : pre ++ stop :: code = instr :: rest) (hinner : instr.inner = true)
    (hstop : stop.inner = false) : ∃ pre', pre = instr :: pre' ∧ rest = pre' ++ stop :: code := by
  cases pre with
  | nil =>
    -- `stop` would be the inner instruction
    obtain ⟨rfl, -⟩ := List.cons.inj h
    rw [hinner] at hstop
    cases hstop
  | cons x pre' =>
    obtain ⟨rfl, rfl⟩ := List.cons.inj h
    exact ⟨pre', rfl, rfl⟩

/-- An inner instruction leaves a call in its part. -/
theorem Progress.inner {instr : Instr F} {rest more : List (Instr F)} (h : Progress call r)
    (htodo : call.todo = instr :: rest) (hinner : instr.inner = true)
    (hmore : ∀ x ∈ more, x.inner = true)
    (hcontinues : Continues { call with todo := rest } call' more) : Progress call' r := by
  obtain ⟨hwaker', htodo', -, hsince'⟩ := hcontinues
  dsimp only at hwaker' htodo' hsince'
  -- More inner instructions in front of inner ones: the part of the call stays the same.
  have happend : ∀ {l : List (Instr F)}, (∀ x ∈ l, x.inner = true) →
      ∀ x ∈ more ++ l, x.inner = true := by
    intro l hl x hx
    rcases List.mem_append.mp hx with hx | hx
    · exact hmore x hx
    · exact hl x hx
  cases h with
  | other hwaker hall =>
    refine .other (hwaker'.trans hwaker) ?_
    rw [htodo']
    exact happend fun x hx => hall x (htodo ▸ List.mem_cons_of_mem _ hx)
  | started waker pre hwaker hpre hcode =>
    obtain ⟨pre', rfl, rfl⟩ := exists_rest_of_inner (hcode.symm.trans htodo) hinner rfl
    refine .started waker (more ++ pre') (hwaker'.trans hwaker)
      (happend fun x hx => hpre x (List.mem_cons_of_mem _ hx)) ?_
    rw [htodo', List.append_assoc]
  | registered waker since pre hwaker hsince hpre hcode =>
    obtain ⟨pre', rfl, rfl⟩ := exists_rest_of_inner (hcode.symm.trans htodo) hinner rfl
    refine .registered waker since (more ++ pre') (hwaker'.trans hwaker) (hsince'.trans hsince)
      (happend fun x hx => hpre x (List.mem_cons_of_mem _ hx)) ?_
    rw [htodo', List.append_assoc]
  | taken waker since hwaker hsince hall =>
    refine .taken waker since (hwaker'.trans hwaker) (hsince'.trans hsince) fun x hx => ?_
    rw [htodo'] at hx
    rcases List.mem_append.mp hx with hx | hx
    · exact Instr.late_of_inner (hmore x hx)
    · exact hall x (htodo ▸ List.mem_cons_of_mem _ hx)

/-- The harts and the protocol: the same queue and wakers, the calls between the two steps of a wake
are producers, and the polls are consumers. -/
structure Simulates (s : Harts F W E) (a : Notify.State ℕ W ℕ) : Prop where
  queue : a.queue = s.shared.executor.wakeQueue
  wakers : a.wakers = s.shared.executor.wakers
  woken : a.woken = s.shared.executor.woken
  notifying : ∀ i ∈ a.notifying, ∃ call, s.calls[i]? = some call ∧ call.BetweenSteps
  progress : ∀ i call, s.calls[i]? = some call → Progress call (a.registered i)
  fresh : ∀ i, s.calls.length ≤ i → a.registered i = none

/-- One call has gone on, in the executor and in the protocol. -/
theorem Simulates.update (h : Simulates s a) (hcall : s.calls[i]? = some call)
    (hqueue : a'.queue = shared'.executor.wakeQueue) (hwakers : a'.wakers = shared'.executor.wakers)
    (hwoken : a'.woken = shared'.executor.woken)
    (hnotifying : ∀ j ∈ a'.notifying, j ≠ i → j ∈ a.notifying)
    (hself : i ∈ a'.notifying → call'.BetweenSteps)
    (hregistered : ∀ j, j ≠ i → a'.registered j = a.registered j)
    (hprogress : Progress call' (a'.registered i)) :
    Simulates ⟨shared', s.calls.set i call'⟩ a' := by
  have hlt : i < s.calls.length := (List.getElem?_eq_some_iff.mp hcall).1
  -- The call `i` is as the hypotheses say; the other calls have not moved.
  refine ⟨hqueue, hwakers, hwoken, fun j hj => ?_, fun j c hj => ?_, fun j hj => ?_⟩
  · by_cases hij : j = i
    · subst hij
      exact ⟨call', by simp [hlt], hself hj⟩
    · obtain ⟨c, hc, hbetween⟩ := h.notifying j (hnotifying j hj hij)
      exact ⟨c, by simpa [List.getElem?_set_ne (Ne.symm hij)] using hc, hbetween⟩
  · by_cases hij : j = i
    · subst hij
      obtain rfl : call' = c := by simpa [hlt] using hj
      exact hprogress
    · rw [hregistered j hij]
      exact h.progress j c (by simpa [List.getElem?_set_ne (Ne.symm hij)] using hj)
  · rw [List.length_set] at hj
    rw [hregistered j (by omega), h.fresh j hj]

/-- A step of the harts is a step of the protocol or none. -/
def Matched (s : Harts F W E) (a : Notify.State ℕ W ℕ) : Prop :=
  ∃ a', Simulates s a' ∧ (a' = a ∨ ∃ l, (Notify.system ℕ W ℕ).step a l a')

/-- A call that is not at the second step of a wake is no producer. -/
theorem Simulates.not_notifying {instr : Instr F} {rest : List (Instr F)} (h : Simulates s a)
    (hcall : s.calls[i]? = some call) (htodo : call.todo = instr :: rest)
    (hne : instr ≠ .drainWakers) : i ∉ a.notifying := by
  intro hself
  obtain ⟨c, hc, hbetween⟩ := h.notifying i hself
  obtain rfl : call = c := Option.some.inj (hcall.symm.trans hc)
  rw [Call.BetweenSteps, htodo] at hbetween
  exact hne (Option.some.inj hbetween)

theorem Simulates.exec_inner {instr : Instr F} {rest : List (Instr F)} (h : Simulates s a)
    (hcall : s.calls[i]? = some call) (htodo : call.todo = instr :: rest)
    (hinner : instr.inner = true)
    (hexec : { call with todo := rest }.exec behaviour i s.shared instr = some (call', shared')) :
    Matched ⟨shared', s.calls.set i call'⟩ a := by
  obtain ⟨more, hmore, hcontinues, heffect⟩ := Call.exec_inner hinner hexec
  have hprogress : Progress call' (a.registered i) :=
    (h.progress i call hcall).inner htodo hinner hmore hcontinues
  -- No step of the protocol, the first step of a producer, or its second step.
  rcases heffect with ⟨hne, hsame⟩ | ⟨index, -, rfl, hpush⟩ | ⟨rfl, hwakes⟩
  · refine ⟨a, h.update hcall (h.queue.trans hsame.wakeQueue.symm)
      (h.wakers.trans hsame.wakers.symm) (h.woken.trans hsame.woken.symm) (fun j hj _ => hj)
      (fun hself => absurd hself (h.not_notifying hcall htodo hne)) (fun _ _ => rfl) hprogress,
      Or.inl rfl⟩
  · refine ⟨a.push i index, h.update hcall ?_ (h.wakers.trans hpush.wakers.symm)
      (h.woken.trans hpush.woken.symm)
      (fun j hj hij => (Set.mem_insert_iff.mp hj).resolve_left hij) (fun _ => ?_) (fun _ _ => rfl)
      hprogress, Or.inr ⟨.push i index, rfl⟩⟩
    · rw [hpush.wakeQueue, ← h.queue]
      rfl
    · rw [Call.BetweenSteps, hcontinues.todo]
      rfl
  · refine ⟨a.notify i, h.update hcall (h.queue.trans hwakes.wakeQueue.symm) hwakes.wakers.symm ?_
      (fun j hj _ => hj.1) (fun hself => absurd rfl hself.2) (fun _ _ => rfl) hprogress,
      Or.inr ⟨.notify i, rfl⟩⟩
    rw [hwakes.woken, ← h.woken, ← h.wakers]
    rfl

theorem stop_of_not_inner {instr stop : Instr F} {pre rest code : List (Instr F)}
    (h : pre ++ stop :: code = instr :: rest) (hpre : ∀ x ∈ pre, x.inner = true)
    (hinstr : instr.inner = false) : instr = stop ∧ rest = code := by
  cases pre with
  | nil =>
    obtain ⟨rfl, rfl⟩ := List.cons.inj h
    exact ⟨rfl, rfl⟩
  | cons x pre' =>
    obtain ⟨rfl, -⟩ := List.cons.inj h
    rw [hpre x List.mem_cons_self] at hinstr
    cases hinstr

/-- What a call at an instruction that is not inner has done. -/
theorem Progress.at_stop {instr : Instr F} {rest : List (Instr F)} (h : Progress call r)
    (htodo : call.todo = instr :: rest) (hinstr : instr.inner = false) :
    (instr = .register ∧ r = none ∧ rest = pollMiddle ++ .wakePending :: pollTail ∧
        ∃ waker, call.waker = some waker) ∨
      ∃ waker since, call.waker = some waker ∧ call.registeredAt = some since ∧
        ((instr = .wakePending ∧ r = some ⟨waker, since, false⟩ ∧ rest = pollTail) ∨
          instr.late = true ∧ r = some ⟨waker, since, true⟩ ∧ ∀ x ∈ rest, x.late = true) := by
  cases h with
  | other hwaker hall =>
    rw [hall instr (htodo ▸ List.mem_cons_self)] at hinstr
    cases hinstr
  | started waker pre hwaker hpre hcode =>
    obtain ⟨rfl, rfl⟩ := stop_of_not_inner (hcode.symm.trans htodo) hpre hinstr
    exact Or.inl ⟨rfl, rfl, rfl, waker, hwaker⟩
  | registered waker since pre hwaker hsince hpre hcode =>
    obtain ⟨rfl, rfl⟩ := stop_of_not_inner (hcode.symm.trans htodo) hpre hinstr
    exact Or.inr ⟨waker, since, hwaker, hsince, Or.inl ⟨rfl, rfl, rfl⟩⟩
  | taken waker since hwaker hsince hall =>
    exact Or.inr ⟨waker, since, hwaker, hsince, Or.inr ⟨hall instr (htodo ▸ List.mem_cons_self),
      rfl,
      fun x hx => hall x (htodo ▸ List.mem_cons_of_mem _ hx)⟩⟩

theorem Simulates.exec_register {rest : List (Instr F)} (h : Simulates s a)
    (hcall : s.calls[i]? = some call) (htodo : call.todo = .register :: rest)
    (hexec : { call with todo := rest }.exec behaviour i s.shared .register =
      some (call', shared')) :
    Matched ⟨shared', s.calls.set i call'⟩ a := by
  -- A call registers only once, so it is in its first part.
  obtain ⟨-, -, rfl, waker, hwaker⟩ | ⟨_, _, -, -, ⟨hinstr, -⟩ | ⟨hlate, -⟩⟩ :=
    (h.progress i call hcall).at_stop htodo rfl
  · dsimp only [Call.exec] at hexec
    rw [hwaker] at hexec
    obtain ⟨rfl, rfl⟩ := Prod.mk.inj (Option.some.inj hexec)
    refine ⟨a.register i waker, h.update hcall h.queue ?_ h.woken (fun j hj _ => hj)
      (fun hself => absurd hself (h.not_notifying hcall htodo nofun))
      (fun j hij => Function.update_of_ne hij ..) ?_, Or.inr ⟨.register i waker, rfl⟩⟩
    · rw [← h.wakers]
      rfl
    · rw [show (a.register i waker).registered i = some ⟨waker, a.woken.length, false⟩ from
        Function.update_self .., h.woken]
      exact .registered waker _ pollMiddle rfl rfl (by simp [pollMiddle, Instr.inner]) rfl
  · cases hinstr
  · cases hlate

theorem Simulates.exec_wakePending {rest : List (Instr F)} (h : Simulates s a)
    (hcall : s.calls[i]? = some call) (htodo : call.todo = .wakePending :: rest)
    (hexec : { call with todo := rest }.exec behaviour i s.shared .wakePending =
      some (call', shared')) :
    Matched ⟨shared', s.calls.set i call'⟩ a := by
  have hprogress := h.progress i call hcall
  -- The wake queue is taken by a call that has registered and has not taken it yet.
  obtain ⟨hinstr, -⟩ | ⟨waker, since, hwaker, hsince, ⟨-, hr, rfl⟩ | ⟨hlate, -⟩⟩ :=
    hprogress.at_stop htodo rfl
  · cases hinstr
  · obtain ⟨rfl, rfl⟩ := Prod.mk.inj (Option.some.inj hexec)
    refine ⟨a.take i ⟨waker, since, false⟩, h.update hcall rfl h.wakers h.woken (fun j hj _ => hj)
      (fun hself => absurd hself (h.not_notifying hcall htodo nofun))
      (fun j hij => Function.update_of_ne hij ..) ?_, Or.inr ⟨.take i, _, hr, rfl⟩⟩
    rw [show (a.take i ⟨waker, since, false⟩).registered i = some ⟨waker, since, true⟩ from
      Function.update_self ..]
    -- what is left are the polls of the woken tasks and the end of the call
    refine .taken waker since hwaker hsince fun x hx => ?_
    rcases List.mem_append.mp hx with hx | hx
    · obtain ⟨index, -, rfl⟩ := List.mem_map.mp hx
      rfl
    · simp only [pollTail, List.mem_cons, List.not_mem_nil, or_false] at hx
      rcases hx with rfl | rfl <;> rfl
  · cases hlate

/-- The instructions after the wake queue has been taken that end a poll. -/
theorem Simulates.exec_late {instr : Instr F} {rest : List (Instr F)} (h : Simulates s a)
    (hcall : s.calls[i]? = some call) (htodo : call.todo = instr :: rest)
    (hinstr : instr = .conclude ∨ instr = .ret)
    (hexec : { call with todo := rest }.exec behaviour i s.shared instr = some (call', shared')) :
    Matched ⟨shared', s.calls.set i call'⟩ a := by
  have hprogress := h.progress i call hcall
  have hstop : instr.inner = false := by rcases hinstr with rfl | rfl <;> rfl
  obtain ⟨rfl, -⟩ | ⟨waker, since, hwaker, hsince, ⟨rfl, -⟩ | ⟨-, hr, hrest⟩⟩ :=
    hprogress.at_stop htodo hstop
  · simp at hinstr
  · simp at hinstr
  · -- The executor stays, and the call goes on with instructions after the wake queue was taken.
    obtain ⟨rfl, hwaker', hsince', hlate⟩ : shared' = s.shared ∧ call'.waker = some waker ∧
        call'.registeredAt = some since ∧ ∀ x ∈ call'.todo, x.late = true := by
      rcases hinstr with rfl | rfl
      · dsimp only [Call.exec] at hexec
        split at hexec
        · obtain ⟨rfl, rfl⟩ := Prod.mk.inj (Option.some.inj hexec)
          refine ⟨rfl, hwaker, hsince, fun x hx => ?_⟩
          rcases List.mem_append.mp hx with hx | hx
          · simp only [List.mem_cons, List.not_mem_nil, or_false] at hx
            rcases hx with rfl | rfl | rfl | rfl <;> rfl
          · exact hrest x hx
        · obtain ⟨rfl, rfl⟩ := Prod.mk.inj (Option.some.inj hexec)
          refine ⟨rfl, hwaker, hsince, fun x hx => ?_⟩
          rcases List.mem_append.mp hx with hx | hx
          · rw [List.mem_singleton.mp hx]
            rfl
          · exact hrest x hx
      · obtain ⟨rfl, rfl⟩ := Prod.mk.inj (Option.some.inj hexec)
        exact ⟨rfl, hwaker, hsince, nofun⟩
    refine ⟨a, h.update hcall h.queue h.wakers h.woken (fun j hj _ => hj)
      (fun hself => absurd hself (h.not_notifying hcall htodo ?_)) (fun _ _ => rfl) ?_, Or.inl rfl⟩
    · rcases hinstr with rfl | rfl <;> exact nofun
    · rw [hr]
      exact .taken waker since hwaker' hsince' hlate

/-- An instruction of a call. -/
theorem Simulates.run (h : Simulates s a) (hcall : s.calls[i]? = some call)
    (hstep : call.step behaviour i s.shared = some (call', shared')) :
    Matched ⟨shared', s.calls.set i call'⟩ a := by
  unfold Call.step at hstep
  split at hstep
  · cases hstep
  · rename_i instr rest htodo
    cases hinner : instr.inner with
    | true => exact h.exec_inner hcall htodo hinner hstep
    | false =>
      cases instr with
      | register => exact h.exec_register hcall htodo hstep
      | wakePending => exact h.exec_wakePending hcall htodo hstep
      | conclude => exact h.exec_late hcall htodo (Or.inl rfl) hstep
      | ret => exact h.exec_late hcall htodo (Or.inr rfl) hstep
      | _ => cases hinner

/-- A new call. -/
theorem Simulates.request (h : Simulates s a) (request : Request F W) :
    Simulates { s with calls := s.calls ++ [request.start] } a := by
  refine ⟨h.queue, h.wakers, h.woken, fun i hi => ?_, fun i c hc => ?_, fun i hi => ?_⟩
  · obtain ⟨c, hc, hbetween⟩ := h.notifying i hi
    exact ⟨c, by rw [List.getElem?_append_left (List.getElem?_eq_some_iff.mp hc).1, hc], hbetween⟩
  · dsimp only at hc
    rcases lt_or_ge i s.calls.length with hlt | hge
    · rw [List.getElem?_append_left hlt] at hc
      exact h.progress i c hc
    · rw [List.getElem?_append_right hge, List.getElem?_singleton] at hc
      obtain ⟨-, hc⟩ := Option.ite_none_right_eq_some.mp hc
      rw [← Option.some.inj hc, h.fresh i hge]
      exact request.progress
  · dsimp only at hi
    rw [List.length_append] at hi
    exact h.fresh i (by omega)

/-- **The harts are parties of the registration protocol.** -/
theorem simulates (h : (harts behaviour).Reachable s) :
    ∃ a, (Notify.system ℕ W ℕ).Reachable a ∧ Simulates s a := by
  refine h.simulate ?_ ?_
  · rintro _ ⟨env, rfl⟩
    exact ⟨_, rfl, rfl, rfl, rfl, nofun, nofun, fun _ _ => rfl⟩
  · intro s l s' a hsim hstep
    cases l with
    | call request =>
      obtain rfl := Option.some.inj hstep
      exact ⟨a, hsim.request request, Or.inl rfl⟩
    | run i =>
      obtain ⟨call, call', shared', hcall, hexec, rfl⟩ := Harts.next_run hstep
      exact hsim.run hcall hexec
    | environment env =>
      obtain rfl := Option.some.inj hstep
      exact ⟨a, ⟨hsim.queue, hsim.wakers, hsim.woken, hsim.notifying, hsim.progress, hsim.fresh⟩,
        Or.inl rfl⟩

/-- A call that returns has nothing left to do. -/
theorem Call.step_result {s s' : Shared F W E}
    (h : call.step behaviour i s = some (call', s')) (hresult : call.result = none)
    (hresult' : call'.result ≠ none) : call'.todo = [] := by
  unfold Call.step at h
  split at h
  · cases h
  · rename_i instr rest htodo
    cases hinner : instr.inner with
    | true =>
      obtain ⟨more, -, hcontinues, -⟩ := Call.exec_inner hinner h
      -- inner instructions do not return
      exact absurd (hcontinues.result.trans hresult) hresult'
    | false =>
      cases instr with
      | register =>
        dsimp only [Call.exec] at h
        split at h <;>
        · obtain ⟨rfl, -⟩ := Prod.mk.inj (Option.some.inj h)
          exact absurd hresult hresult'
      | wakePending =>
        obtain ⟨rfl, -⟩ := Prod.mk.inj (Option.some.inj h)
        exact absurd hresult hresult'
      | conclude =>
        dsimp only [Call.exec] at h
        split at h <;>
        · obtain ⟨rfl, -⟩ := Prod.mk.inj (Option.some.inj h)
          exact absurd hresult hresult'
      | ret =>
        obtain ⟨rfl, -⟩ := Prod.mk.inj (Option.some.inj h)
        rfl
      | _ => cases hinner

theorem todo_of_result (h : (harts behaviour).Reachable s) :
    ∀ call ∈ s.calls, call.result ≠ none → call.todo = [] := by
  refine h.invariant (I := fun s => ∀ call ∈ s.calls, call.result ≠ none → call.todo = []) ?_ ?_
  · rintro _ ⟨env, rfl⟩
    exact nofun
  · intro s l s' ih hstep call hcall hresult
    cases l with
    | call request =>
      obtain rfl := Option.some.inj hstep
      rcases List.mem_append.mp hcall with hcall | hcall
      · exact ih call hcall hresult
      · rw [List.mem_singleton.mp hcall] at hresult
        exact absurd rfl hresult
    | run i =>
      obtain ⟨c, c', shared', hc, hexec, rfl⟩ := Harts.next_run hstep
      rcases List.mem_or_eq_of_mem_set hcall with hcall | rfl
      · exact ih call hcall hresult
      · refine Call.step_result hexec ?_ hresult
        -- a call that had returned before has no instruction to run
        by_contra hne
        have htodo := ih c (List.mem_of_getElem? hc) hne
        rw [Call.step, htodo] at hexec
        cases hexec
    | environment env =>
      obtain rfl := Option.some.inj hstep
      exact ih call hcall hresult

/-- **No wake-up is lost**: when a poll has returned and the wake queue is not empty, the context
waker of the poll has been woken since it was registered, or a wake is between its two steps. -/
theorem wake_not_lost (h : (harts behaviour).Reachable s) (hcall : s.calls[i]? = some call)
    {waker : W}
    (hwaker : call.waker = some waker) (hresult : call.result = some .pending)
    (hqueue : s.shared.executor.wakeQueue ≠ []) :
    (∃ since, call.registeredAt = some since ∧ waker ∈ s.shared.executor.woken.drop since) ∨
      ∃ call' ∈ s.calls, call'.BetweenSteps := by
  have htodo : call.todo = [] :=
    todo_of_result h call (List.mem_of_getElem? hcall) (by simp [hresult])
  obtain ⟨a, ha, hsim⟩ := simulates h
  -- The call has returned, so in the protocol it is a consumer that has taken the queue.
  have hprogress := hsim.progress i call hcall
  obtain ⟨since, hsince, hr⟩ : ∃ since, call.registeredAt = some since ∧
      a.registered i = some ⟨waker, since, true⟩ := by
    generalize a.registered i = r at hprogress
    cases hprogress with
    | other hnone => simp [hnone] at hwaker
    | started _ rest _ _ hcode => simp [htodo] at hcode
    | registered _ _ rest _ _ _ hcode => simp [htodo] at hcode
    | taken waker' since hwaker' hsince =>
      obtain rfl := Option.some.inj (hwaker'.symm.trans hwaker)
      exact ⟨since, hsince, rfl⟩
  -- A producer about to notify is a call between the two steps of a wake.
  rcases Notify.reachable_informed ha i _ hr rfl (hsim.queue ▸ hqueue) with ⟨j, hj⟩ | hwoken
  · obtain ⟨call', hcall', hbetween⟩ := hsim.notifying j hj
    exact Or.inr ⟨call', List.mem_of_getElem? hcall', hbetween⟩
  · refine Or.inl ⟨since, hsince, ?_⟩
    rw [← hsim.woken]
    exact hwoken

end Simulation

/-! ## A future that wakes itself -/

/-- Every poll of the future wakes task 0. -/
def restless : Behaviour Unit Unit := fun _ _ => (⟨[.wake 0], some ()⟩, ())

/-- The future is spawned, and the handle is polled. -/
def restlessRun : List (HartLabel Unit Unit Unit) :=
  [.call (.spawn ()), .run 0, .call (.poll ())] ++ List.replicate 29 (.run 1)

/-- The state after the poll. -/
def restlessEnd : Harts Unit Unit Unit where
  shared := ⟨⟨[some ()], [], [0], [], [()], ()⟩, none, none⟩
  calls := [⟨none, [], .pending, true, none, none⟩,
    ⟨some (), [], .pending, false, some .pending, some 0⟩]

/-- The future wakes itself in `wake_pending`, after the context waker was registered. -/
theorem wake_not_lost_restless :
    restlessEnd.shared.executor.wakeQueue ≠ [] ∧
      ((∃ since, (some 0 : Option ℕ) = some since ∧
          () ∈ restlessEnd.shared.executor.woken.drop since) ∨
        ∃ call ∈ restlessEnd.calls, call.BetweenSteps) := by
  have hrun : restlessRun.foldlM (Harts.next restless) (Harts.new ()) = some restlessEnd := rfl
  have hreach : (harts restless).Reachable restlessEnd :=
    .foldlM (fun _ _ _ h => h) (.init ⟨(), rfl⟩) hrun
  have hqueue : restlessEnd.shared.executor.wakeQueue ≠ [] := by decide
  exact ⟨hqueue, wake_not_lost (i := 1) hreach rfl rfl rfl hqueue⟩

end AsyncKernel
