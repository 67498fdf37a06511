import AsyncKernel.Executor.Harts

/-!
# The locks of an executor

A call of a hart holds the lock of the executor while it polls futures, and the lock of the spawn
queue while it starts what the queue holds. The instructions of a call are checked against the locks
that it holds: every instruction that touches the tasks stands where the executor is held, and the
queue is never locked while the executor is. So two futures of one executor are never polled at the
same time.

## Main definitions

* `Phase`, `Instr.after?`: the locks that a call holds, and the instructions that suit them
* `Expansion`: the instructions that an instruction puts before the rest of its call
* `Harts.Disciplined`: every call has the locks that its instructions need
* `Call.Polling`: a call is inside a poll of a future

## Main results

* `Call.exec_expands`: what an instruction does to its call and to the locks
* `Call.exec_eq_none_iff`: when a call waits
* `disciplined`: the locks are used as they are meant to be
* `poll_exclusive`: one future is polled at a time
-/

namespace AsyncKernel

variable {F W E : Type}

/-! ## The locks that a call holds -/

/-- How far a call has come with its locks. -/
inductive Phase
  | holds (executor queue : Bool)
  | returned
  deriving DecidableEq, Repr

namespace Instr

/-- The instruction may stand where a call holds these locks. -/
def suits (executor queue : Bool) : Instr F → Bool
  | lockExecutor => !executor
  -- the queue is never locked while the executor is
  | lockQueue => !executor && !queue
  | unlockQueue | drainQueue => !executor && queue
  -- `&mut self`
  | unlockExecutor | pollAll | pollFuture _ | finishFuture _ _ | pushTask _ | register
  | checkIfDone | wakePending => executor
  -- a future acts while the executor is held, and a wake or a spawn may be a call of its own
  | act (.spawn _) => executor || !queue
  | act .enter => executor
  | act (.wake _) | drainWakers => true
  | conclude | ret => !executor && !queue

/-- The locks after the instruction. -/
def leaves (executor queue : Bool) : Instr F → Phase
  | lockExecutor => .holds true queue
  | unlockExecutor => .holds false queue
  | lockQueue => .holds executor true
  | unlockQueue => .holds executor false
  | conclude | ret => .returned
  | _ => .holds executor queue

/-- The locks after an instruction that suits the locks before. -/
def after? : Phase → Instr F → Option Phase
  | .holds executor queue, instr =>
    if instr.suits executor queue then some (instr.leaves executor queue) else none
  | .returned, _ => none

theorem after?_eq_some_iff {executor queue : Bool} {instr : Instr F} {phase : Phase} :
    after? (.holds executor queue) instr = some phase ↔
      instr.suits executor queue = true ∧ instr.leaves executor queue = phase := by
  rw [after?, Option.ite_none_right_eq_some, Option.some_inj]

end Instr

/-- The instructions suit the locks, and leave none of them held. -/
def Phase.Keeps (phase : Phase) (todo : List (Instr F)) : Prop :=
  todo.foldlM Instr.after? phase = some (.holds false false) ∨
    todo.foldlM Instr.after? phase = some .returned

/-- Instructions that suit the locks and leave them as they are. -/
def Phase.Fixes (phase : Phase) (instrs : List (Instr F)) : Prop :=
  instrs.foldlM Instr.after? phase = some phase

theorem Phase.keeps_cons {phase : Phase} {instr : Instr F} {rest : List (Instr F)} :
    phase.Keeps (instr :: rest) ↔
      ∃ phase', Instr.after? phase instr = some phase' ∧ phase'.Keeps rest := by
  unfold Phase.Keeps
  rw [List.foldlM_cons]
  cases Instr.after? phase instr with
  | none => simp
  | some phase' => simp

theorem Phase.keeps_append {phase phase' : Phase} {instrs rest : List (Instr F)}
    (h : instrs.foldlM Instr.after? phase = some phase') :
    phase.Keeps (instrs ++ rest) ↔ phase'.Keeps rest := by
  unfold Phase.Keeps
  rw [List.foldlM_append, h]
  rfl

/-- A call that has returned has nothing left to do. -/
theorem Phase.eq_nil_of_returned {rest : List (Instr F)} (h : Phase.returned.Keeps rest) :
    rest = [] := by
  cases rest with
  | nil => rfl
  | cons instr rest =>
    obtain ⟨phase, hafter, -⟩ := Phase.keeps_cons.mp h
    cases hafter

/-- A call that has nothing left to do holds no lock. -/
theorem Phase.eq_of_keeps_nil {executor queue : Bool}
    (h : (Phase.holds executor queue).Keeps ([] : List (Instr F))) :
    executor = false ∧ queue = false := by
  rcases h with h | h
  · obtain ⟨rfl, rfl⟩ := Phase.holds.inj (Option.some.inj h)
    exact ⟨rfl, rfl⟩
  · cases Option.some.inj h

theorem Phase.fixes_append {phase : Phase} {l l' : List (Instr F)} (h : phase.Fixes l)
    (h' : phase.Fixes l') : phase.Fixes (l ++ l') := by
  unfold Phase.Fixes
  rw [List.foldlM_append, h]
  exact h'

theorem Phase.fixes_flatMap {A : Type} {phase : Phase} {f : A → List (Instr F)}
    (h : ∀ a, phase.Fixes (f a)) (l : List A) : phase.Fixes (l.flatMap f) := by
  induction l with
  | nil => rfl
  | cons a l ih =>
    rw [List.flatMap_cons]
    exact Phase.fixes_append (h a) ih

theorem Phase.fixes_map {A : Type} {phase : Phase} {f : A → Instr F}
    (h : ∀ a, Instr.after? phase (f a) = some phase) (l : List A) : phase.Fixes (l.map f) := by
  rw [List.map_eq_flatMap]
  refine Phase.fixes_flatMap (fun a => ?_) l
  unfold Phase.Fixes
  rw [List.foldlM_cons, h]
  rfl

/-! ## What an instruction puts before the rest of its call -/

/-- The instructions that an instruction is replaced by. -/
inductive Expansion (behaviour : Behaviour F E) : Instr F → List (Instr F) → Prop
  | done {instr : Instr F} (h : instr ≠ .conclude) : Expansion behaviour instr []
  | pollAll (n : ℕ) : Expansion behaviour .pollAll ((List.range' 0 n).map .pollFuture)
  | pollFuture (index : ℕ) (task : F) (env : E) : Expansion behaviour (.pollFuture index)
      ((behaviour task env).1.actions.map .act ++ [.finishFuture index (behaviour task env).1.next])
  | wake (index : ℕ) : Expansion behaviour (.act (.wake index)) [.drainWakers]
  | drainQueue (queue : List F) : Expansion behaviour .drainQueue (queue.flatMap fun task =>
      [.lockExecutor, .pushTask task, .unlockExecutor])
  | pushTask (task : F) (index : ℕ) : Expansion behaviour (.pushTask task) [.pollFuture index]
  | wakePending (indices : List ℕ) : Expansion behaviour .wakePending (indices.map .pollFuture)
  | started : Expansion behaviour .conclude [.lockQueue, .drainQueue, .unlockQueue, .ret]
  | concluded : Expansion behaviour .conclude [.ret]

/-- The calls that hold the executor and the queue. -/
def Shared.holders (s : Shared F W E) : Option ℕ × Option ℕ := (s.executorHolder, s.queueHolder)

/-- The holders after an instruction of the call `i`. -/
def Instr.holders (i : ℕ) : Instr F → Option ℕ × Option ℕ → Option ℕ × Option ℕ
  | .lockExecutor, holders => (some i, holders.2)
  | .unlockExecutor, holders => (none, holders.2)
  | .lockQueue, holders => (holders.1, some i)
  | .unlockQueue, holders => (holders.1, none)
  | _, holders => holders

section Exec

variable {behaviour : Behaviour F E} {i : ℕ} {call call' : Call F W} {s s' : Shared F W E}
  {instr : Instr F}

/-- What an instruction does to its call and to the locks. -/
def Expands (behaviour : Behaviour F E) (i : ℕ) (instr : Instr F) (call call' : Call F W)
    (s s' : Shared F W E) : Prop :=
  (∃ more, Expansion behaviour instr more ∧
    (instr = .ret ∧ call'.todo = [] ∨ instr ≠ .ret ∧ call'.todo = more ++ call.todo)) ∧
    s'.holders = instr.holders i s.holders

theorem Expands.of_some {r : Call F W × Shared F W E} (more : List (Instr F))
    (h : some r = some (call', s')) (hexpansion : Expansion behaviour instr more)
    (hret : instr ≠ .ret) (htodo : r.1.todo = more ++ call.todo)
    (hholders : r.2.holders = instr.holders i s.holders) :
    Expands behaviour i instr call call' s s' := by
  obtain rfl := Option.some.inj h
  exact ⟨⟨more, hexpansion, Or.inr ⟨hret, htodo⟩⟩, hholders⟩

/-- **What an instruction does** to its call and to the locks. -/
theorem Call.exec_expands (h : call.exec behaviour i s instr = some (call', s')) :
    Expands behaviour i instr call call' s s' := by
  cases instr with
  | lockExecutor =>
    obtain ⟨-, h⟩ := Option.ite_none_right_eq_some.mp h
    exact .of_some [] h (.done nofun) nofun rfl rfl
  | unlockExecutor => exact .of_some [] h (.done nofun) nofun rfl rfl
  | lockQueue =>
    obtain ⟨-, h⟩ := Option.ite_none_right_eq_some.mp h
    exact .of_some [] h (.done nofun) nofun rfl rfl
  | unlockQueue => exact .of_some [] h (.done nofun) nofun rfl rfl
  | pollAll => exact .of_some _ h (.pollAll _) nofun rfl rfl
  | pollFuture index =>
    dsimp only [Call.exec] at h
    split at h
    · exact .of_some _ h (.pollFuture index _ _) nofun rfl rfl
    · -- nothing to poll
      exact .of_some [] h (.done nofun) nofun rfl rfl
  | act action =>
    cases action with
    | wake index => exact .of_some _ h (.wake index) nofun rfl rfl
    | spawn future =>
      obtain ⟨-, h⟩ := Option.ite_none_right_eq_some.mp h
      exact .of_some [] h (.done nofun) nofun rfl rfl
    | enter => cases h
  | drainWakers => exact .of_some [] h (.done nofun) nofun rfl rfl
  | finishFuture index next => exact .of_some [] h (.done nofun) nofun rfl rfl
  | drainQueue => exact .of_some _ h (.drainQueue _) nofun rfl rfl
  | pushTask task => exact .of_some _ h (.pushTask task _) nofun rfl rfl
  | register =>
    dsimp only [Call.exec] at h
    split at h
    · exact .of_some [] h (.done nofun) nofun rfl rfl
    · exact .of_some [] h (.done nofun) nofun rfl rfl
  | checkIfDone => exact .of_some [] h (.done nofun) nofun rfl rfl
  | wakePending => exact .of_some _ h (.wakePending _) nofun rfl rfl
  | conclude =>
    dsimp only [Call.exec] at h
    split at h
    · exact .of_some _ h .started nofun rfl rfl
    · exact .of_some _ h .concluded nofun rfl rfl
  | ret =>
    obtain ⟨rfl, rfl⟩ := Prod.mk.inj (Option.some.inj h)
    exact ⟨⟨[], .done nofun, Or.inl ⟨rfl, rfl⟩⟩, rfl⟩

/-- **When a call waits**: at a lock that is held, at a spawn while the queue is held, and for ever
when a future enters its executor. -/
theorem Call.exec_eq_none_iff : call.exec behaviour i s instr = none ↔
    (instr = .lockExecutor ∧ s.executorHolder ≠ none) ∨
      (instr = .lockQueue ∧ s.queueHolder ≠ none) ∨
      (∃ future, instr = .act (.spawn future) ∧ s.queueHolder ≠ none) ∨ instr = .act .enter := by
  cases instr with
  | act action => cases action <;> simp [Call.exec]
  | pollFuture index =>
    dsimp only [Call.exec]
    split <;> simp
  | register =>
    dsimp only [Call.exec]
    split <;> simp
  | conclude =>
    dsimp only [Call.exec]
    split <;> simp
  | _ => simp [Call.exec]

end Exec

/-! ## The discipline -/

/-- The locks that the call `i` holds. -/
def phaseOf (i : ℕ) (holders : Option ℕ × Option ℕ) : Phase :=
  .holds (holders.1 == some i) (holders.2 == some i)

/-- **Every call has the locks that its instructions need**, and the locks are held by calls. -/
structure Harts.Disciplined (s : Harts F W E) : Prop where
  keeps : ∀ (i : ℕ) (call : Call F W), s.calls[i]? = some call →
    (phaseOf i s.shared.holders).Keeps call.todo
  executorHolder : ∀ i, s.shared.executorHolder = some i → i < s.calls.length
  queueHolder : ∀ i, s.shared.queueHolder = some i → i < s.calls.length

theorem Request.keeps (request : Request F W) :
    (Phase.holds false false).Keeps request.start.todo := by
  cases request with
  | poll waker => exact Or.inr rfl
  | wake index => exact Or.inl rfl
  | spawn future => exact Or.inl rfl
  | pushTask future => exact Or.inl rfl

section Locks

variable {behaviour : Behaviour F E} {i j : ℕ} {instr : Instr F} {more : List (Instr F)}
  {holders : Option ℕ × Option ℕ} {phase : Phase}

theorem after?_phaseOf : Instr.after? (phaseOf i holders) instr = some phase ↔
    instr.suits (holders.1 == some i) (holders.2 == some i) = true ∧
      instr.leaves (holders.1 == some i) (holders.2 == some i) = phase :=
  Instr.after?_eq_some_iff

/-- The locks that a call holds after an instruction. -/
theorem phaseOf_holders (hconclude : instr ≠ .conclude) (hret : instr ≠ .ret) :
    phaseOf i (instr.holders i holders) =
      instr.leaves (holders.1 == some i) (holders.2 == some i) := by
  cases instr with
  | conclude => exact absurd rfl hconclude
  | ret => exact absurd rfl hret
  | lockExecutor => simp [phaseOf, Instr.holders, Instr.leaves]
  | lockQueue => simp [phaseOf, Instr.holders, Instr.leaves]
  | _ => rfl

/-- A step of a call leaves the locks of the other calls as they are. -/
theorem phaseOf_holders_ne (hij : j ≠ i)
    (hsuits : instr.suits (holders.1 == some i) (holders.2 == some i) = true)
    (hexecutor : instr = .lockExecutor → holders.1 = none)
    (hqueue : instr = .lockQueue → holders.2 = none) :
    phaseOf j (instr.holders i holders) = phaseOf j holders := by
  obtain ⟨executor, queue⟩ := holders
  have hne : (some i == some j) = false :=
    beq_eq_false_iff_ne.mpr fun h => hij (Option.some.inj h).symm
  cases instr with
  | lockExecutor =>
    obtain rfl := hexecutor rfl
    rw [phaseOf, Instr.holders, hne]
    rfl
  | lockQueue =>
    obtain rfl := hqueue rfl
    rw [phaseOf, Instr.holders, hne]
    rfl
  | unlockExecutor =>
    -- only the holder releases the lock
    obtain rfl : executor = some i := beq_iff_eq.mp hsuits
    rw [phaseOf, phaseOf, hne]
    rfl
  | unlockQueue =>
    obtain rfl : queue = some i := beq_iff_eq.mp (Bool.and_eq_true_iff.mp hsuits).2
    rw [phaseOf, phaseOf, hne]
    rfl
  | _ => rfl

/-- **What replaces an instruction suits the locks as it does.** -/
theorem Expansion.foldlM_after? (h : Expansion behaviour instr more) (hret : instr ≠ .ret)
    (hafter : Instr.after? (phaseOf i holders) instr = some phase) :
    more.foldlM Instr.after? (phaseOf i (instr.holders i holders)) = some phase := by
  obtain ⟨hsuits, hleaves⟩ := after?_phaseOf.mp hafter
  cases h with
  | done hconclude => exact congrArg some ((phaseOf_holders hconclude hret).trans hleaves)
  | pollAll n =>
    obtain rfl : phaseOf i holders = phase := hleaves
    refine Phase.fixes_map (fun index => ?_) _
    exact after?_phaseOf.mpr ⟨hsuits, rfl⟩
  | pollFuture index task env =>
    obtain rfl : phaseOf i holders = phase := hleaves
    refine Phase.fixes_append (Phase.fixes_map (fun action => ?_) _) ?_
    · -- what a future does leaves the locks as they are
      refine after?_phaseOf.mpr ⟨?_, rfl⟩
      cases action with
      | wake index => rfl
      | spawn future => exact Bool.or_eq_true_iff.mpr (Or.inl hsuits)
      | enter => exact hsuits
    · exact Phase.fixes_map (f := fun _ : Unit => .finishFuture index _)
        (fun _ => after?_phaseOf.mpr ⟨hsuits, rfl⟩) [()]
  | wake index =>
    obtain rfl : phaseOf i holders = phase := hleaves
    exact Phase.fixes_map (f := fun _ : Unit => .drainWakers) (fun _ => hafter) [()]
  | drainQueue queue =>
    obtain rfl : phaseOf i holders = phase := hleaves
    obtain ⟨hexecutor, hqueue⟩ := Bool.and_eq_true_iff.mp hsuits
    rw [Bool.not_eq_true'] at hexecutor
    show (phaseOf i holders).Fixes _
    rw [phaseOf, hexecutor, hqueue]
    refine Phase.fixes_flatMap (fun task => ?_) queue
    rfl
  | pushTask task index =>
    obtain rfl : phaseOf i holders = phase := hleaves
    refine Phase.fixes_map (fun index => ?_) [index]
    exact after?_phaseOf.mpr ⟨hsuits, rfl⟩
  | wakePending indices =>
    obtain rfl : phaseOf i holders = phase := hleaves
    refine Phase.fixes_map (fun index => ?_) indices
    exact after?_phaseOf.mpr ⟨hsuits, rfl⟩
  | started =>
    obtain ⟨hexecutor, hqueue⟩ := Bool.and_eq_true_iff.mp hsuits
    rw [Bool.not_eq_true'] at hexecutor hqueue
    show List.foldlM Instr.after? (phaseOf i holders) _ = _
    rw [phaseOf, hexecutor, hqueue, ← hleaves]
    rfl
  | concluded =>
    have hret' : Instr.after? (phaseOf i holders) (.ret (F := F)) = some phase :=
      after?_phaseOf.mpr ⟨hsuits, hleaves⟩
    show List.foldlM Instr.after? (phaseOf i holders) _ = _
    rw [List.foldlM_cons, hret']
    rfl

theorem holders_eq_or (h : (instr.holders i holders).1 = some j) : j = i ∨ holders.1 = some j := by
  cases instr with
  | lockExecutor => exact Or.inl (Option.some.inj h).symm
  | unlockExecutor => cases h
  | _ => exact Or.inr h

theorem queueHolder_eq_or (h : (instr.holders i holders).2 = some j) :
    j = i ∨ holders.2 = some j := by
  cases instr with
  | lockQueue => exact Or.inl (Option.some.inj h).symm
  | unlockQueue => cases h
  | _ => exact Or.inr h

end Locks

section Discipline

variable {behaviour : Behaviour F E} {i j : ℕ} {s s' : Harts F W E} {call call' : Call F W}
  {shared' : Shared F W E} {instr : Instr F} {rest : List (Instr F)} {l : HartLabel F W E}

/-- The next instruction of a call suits the locks that the call holds. -/
theorem Harts.Disciplined.suits (h : s.Disciplined) (hcall : s.calls[i]? = some call)
    (htodo : call.todo = instr :: rest) :
    instr.suits (s.shared.executorHolder == some i) (s.shared.queueHolder == some i) = true ∧
      (instr.leaves (s.shared.executorHolder == some i)
        (s.shared.queueHolder == some i)).Keeps rest := by
  have hkeeps := h.keeps i call hcall
  rw [htodo] at hkeeps
  obtain ⟨phase, hafter, hrest⟩ := Phase.keeps_cons.mp hkeeps
  obtain ⟨hsuits, rfl⟩ := after?_phaseOf.mp hafter
  exact ⟨hsuits, hrest⟩

/-- A step of a call leaves the other calls with the locks that they hold. -/
theorem Harts.Disciplined.phaseOf_ne (h : s.Disciplined) (hcall : s.calls[i]? = some call)
    (htodo : call.todo = instr :: rest)
    (hexec : { call with todo := rest }.exec behaviour i s.shared instr = some (call', shared')) :
    ∀ j, j ≠ i → phaseOf j shared'.holders = phaseOf j s.shared.holders := by
  intro j hij
  obtain ⟨-, hholders⟩ := Call.exec_expands hexec
  -- a lock that the call takes is free
  have hwaits := mt Call.exec_eq_none_iff.mpr (ne_of_eq_of_ne hexec nofun)
  push Not at hwaits
  rw [hholders]
  exact phaseOf_holders_ne hij (h.suits hcall htodo).1 (fun hinstr => hwaits.1 hinstr)
    fun hinstr => hwaits.2.1 hinstr

/-- A step of a call keeps to the discipline. -/
theorem Harts.Disciplined.run (h : s.Disciplined) (hcall : s.calls[i]? = some call)
    (hstep : call.step behaviour i s.shared = some (call', shared')) :
    Harts.Disciplined ⟨shared', s.calls.set i call'⟩ := by
  unfold Call.step at hstep
  split at hstep
  · cases hstep
  rename_i instr rest htodo
  obtain ⟨hsuits, hrest⟩ := h.suits hcall htodo
  have hothers := h.phaseOf_ne hcall htodo hstep
  obtain ⟨⟨more, hexpansion, htodo'⟩, hholders⟩ := Call.exec_expands hstep
  have hlt : i < s.calls.length := (List.getElem?_eq_some_iff.mp hcall).1
  refine ⟨fun j c hc => ?_, fun j hj => ?_, fun j hj => ?_⟩
  · by_cases hij : j = i
    · subst hij
      obtain rfl : call' = c := by simpa [hlt] using hc
      dsimp only
      rw [hholders]
      rcases htodo' with ⟨rfl, htodo'⟩ | ⟨hret, htodo'⟩
      · -- the call has returned, and holds no lock
        obtain ⟨hexecutor, hqueue⟩ := Bool.and_eq_true_iff.mp hsuits
        rw [Bool.not_eq_true'] at hexecutor hqueue
        show (phaseOf j s.shared.holders).Keeps call'.todo
        rw [htodo', phaseOf, show (s.shared.holders.1 == some j) = false from hexecutor,
          show (s.shared.holders.2 == some j) = false from hqueue]
        exact Or.inl rfl
      · rw [htodo', Phase.keeps_append
          (hexpansion.foldlM_after? hret (after?_phaseOf.mpr ⟨hsuits, rfl⟩))]
        exact hrest
    · rw [hothers j hij]
      exact h.keeps j c (by simpa [List.getElem?_set_ne (Ne.symm hij)] using hc)
  · rw [List.length_set]
    have hholder := congrArg Prod.fst hholders
    rcases holders_eq_or (hholder.symm.trans hj) with rfl | hj
    · exact hlt
    · exact h.executorHolder j hj
  · rw [List.length_set]
    have hholder := congrArg Prod.snd hholders
    rcases queueHolder_eq_or (hholder.symm.trans hj) with rfl | hj
    · exact hlt
    · exact h.queueHolder j hj

/-- A new call holds no lock. -/
theorem Harts.Disciplined.request (h : s.Disciplined) (request : Request F W) :
    Harts.Disciplined { s with calls := s.calls ++ [request.start] } := by
  have hlength : (s.calls ++ [request.start]).length = s.calls.length + 1 := by simp
  refine ⟨fun i c hc => ?_, fun i hi => ?_, fun i hi => ?_⟩
  · dsimp only at hc
    rcases lt_or_ge i s.calls.length with hlt | hge
    · rw [List.getElem?_append_left hlt] at hc
      exact h.keeps i c hc
    · rw [List.getElem?_append_right hge, List.getElem?_singleton] at hc
      obtain ⟨-, hc⟩ := Option.ite_none_right_eq_some.mp hc
      obtain rfl := Option.some.inj hc
      -- the index is not that of a call before
      have hexecutor : (s.shared.executorHolder == some i) = false :=
        beq_eq_false_iff_ne.mpr fun hi => absurd (h.executorHolder i hi) (by omega)
      have hqueue : (s.shared.queueHolder == some i) = false :=
        beq_eq_false_iff_ne.mpr fun hi => absurd (h.queueHolder i hi) (by omega)
      have hphase : phaseOf i s.shared.holders = .holds false false :=
        congrArg₂ Phase.holds hexecutor hqueue
      rw [hphase]
      exact request.keeps
  · have := h.executorHolder i hi
    dsimp only
    omega
  · have := h.queueHolder i hi
    dsimp only
    omega

theorem Harts.Disciplined.step (h : s.Disciplined) (hstep : (harts behaviour).step s l s') :
    s'.Disciplined := by
  cases l with
  | call request =>
    obtain rfl := Option.some.inj hstep
    exact h.request request
  | run i =>
    obtain ⟨call, call', shared', hcall, hexec, rfl⟩ := Harts.next_run hstep
    exact h.run hcall hexec
  | environment env =>
    obtain rfl := Option.some.inj hstep
    exact ⟨h.keeps, h.executorHolder, h.queueHolder⟩

/-- **The locks are used as they are meant to be**, in every reachable state. -/
theorem disciplined (h : (harts behaviour).Reachable s) : s.Disciplined := by
  refine h.invariant ?_ fun s l s' hs hstep => hs.step hstep
  rintro _ ⟨env, rfl⟩
  exact ⟨nofun, nofun, nofun⟩

/-! ## One future at a time -/

/-- The call is inside a poll of a future. -/
def Call.Polling (call : Call F W) : Prop :=
  ∃ acts index next rest, call.todo = acts ++ .finishFuture index next :: rest ∧
    ∀ x ∈ acts, x = .drainWakers ∨ ∃ action, x = .act action

/-- What a future does leaves the locks as they are. -/
theorem Phase.keeps_of_acts {executor queue : Bool} {acts : List (Instr F)}
    (hacts : ∀ x ∈ acts, x = .drainWakers ∨ ∃ action, x = .act action)
    (h : (Phase.holds executor queue).Keeps (acts ++ rest)) :
    (Phase.holds executor queue).Keeps rest := by
  induction acts with
  | nil => exact h
  | cons x acts ih =>
    obtain ⟨phase, hafter, h⟩ := Phase.keeps_cons.mp h
    obtain ⟨-, hleaves⟩ := Instr.after?_eq_some_iff.mp hafter
    refine ih (fun y hy => hacts y (List.mem_cons_of_mem _ hy)) ?_
    rcases hacts x List.mem_cons_self with rfl | ⟨action, rfl⟩
    · obtain rfl : Phase.holds executor queue = phase := hleaves
      exact h
    · obtain rfl : Phase.holds executor queue = phase := hleaves
      exact h

/-- A call inside a poll of a future holds the executor. -/
theorem Harts.Disciplined.executorHolder_of_polling (h : s.Disciplined)
    (hcall : s.calls[i]? = some call) (hpolling : call.Polling) :
    s.shared.executorHolder = some i := by
  obtain ⟨acts, index, next, rest, htodo, hacts⟩ := hpolling
  have hkeeps := h.keeps i call hcall
  rw [htodo] at hkeeps
  obtain ⟨phase, hafter, -⟩ := Phase.keeps_cons.mp (Phase.keeps_of_acts hacts hkeeps)
  exact beq_iff_eq.mp (Instr.after?_eq_some_iff.mp hafter).1

/-- Without the executor an instruction changes no task and polls no future. -/
theorem Call.exec_tasks {s s' : Shared F W E} {queue : Bool}
    (hsuits : instr.suits false queue = true)
    (h : call.exec behaviour i s instr = some (call', s')) :
    s'.executor.tasks = s.executor.tasks ∧ s'.executor.env = s.executor.env := by
  cases instr with
  | lockExecutor =>
    obtain ⟨-, h⟩ := Option.ite_none_right_eq_some.mp h
    obtain ⟨-, rfl⟩ := Prod.mk.inj (Option.some.inj h)
    exact ⟨rfl, rfl⟩
  | lockQueue =>
    obtain ⟨-, h⟩ := Option.ite_none_right_eq_some.mp h
    obtain ⟨-, rfl⟩ := Prod.mk.inj (Option.some.inj h)
    exact ⟨rfl, rfl⟩
  | unlockQueue =>
    obtain ⟨-, rfl⟩ := Prod.mk.inj (Option.some.inj h)
    exact ⟨rfl, rfl⟩
  | drainQueue =>
    obtain ⟨-, rfl⟩ := Prod.mk.inj (Option.some.inj h)
    exact ⟨rfl, rfl⟩
  | act action =>
    cases action with
    | wake index =>
      obtain ⟨-, rfl⟩ := Prod.mk.inj (Option.some.inj h)
      exact ⟨rfl, rfl⟩
    | spawn future =>
      obtain ⟨-, h⟩ := Option.ite_none_right_eq_some.mp h
      obtain ⟨-, rfl⟩ := Prod.mk.inj (Option.some.inj h)
      exact ⟨rfl, rfl⟩
    | enter => cases h
  | drainWakers =>
    obtain ⟨-, rfl⟩ := Prod.mk.inj (Option.some.inj h)
    exact ⟨rfl, rfl⟩
  | conclude =>
    dsimp only [Call.exec] at h
    split at h
    · obtain ⟨-, rfl⟩ := Prod.mk.inj (Option.some.inj h)
      exact ⟨rfl, rfl⟩
    · obtain ⟨-, rfl⟩ := Prod.mk.inj (Option.some.inj h)
      exact ⟨rfl, rfl⟩
  | ret =>
    obtain ⟨-, rfl⟩ := Prod.mk.inj (Option.some.inj h)
    exact ⟨rfl, rfl⟩
  -- the others need the executor
  | _ => cases hsuits

/-- **One future is polled at a time**: while a call polls a future no other call does, and none of
them changes a task or runs a future. -/
theorem poll_exclusive (h : (harts behaviour).Reachable s) (hcall : s.calls[i]? = some call)
    (hpolling : call.Polling) :
    (∀ (j : ℕ) (call' : Call F W), s.calls[j]? = some call' → call'.Polling → j = i) ∧
      ∀ j s', j ≠ i → s.next behaviour (.run j) = some s' →
        s'.shared.executor.tasks = s.shared.executor.tasks ∧
          s'.shared.executor.env = s.shared.executor.env := by
  have hdisciplined := disciplined h
  have hholder := hdisciplined.executorHolder_of_polling hcall hpolling
  refine ⟨fun j call' hcall' hpolling' => ?_, fun j s' hij hnext => ?_⟩
  · have hholder' := hdisciplined.executorHolder_of_polling hcall' hpolling'
    exact Option.some.inj (hholder'.symm.trans hholder)
  · obtain ⟨call', call'', shared', hcall', hstep, rfl⟩ := Harts.next_run hnext
    unfold Call.step at hstep
    split at hstep
    · cases hstep
    rename_i instr rest htodo
    have hsuits := (hdisciplined.suits hcall' htodo).1
    rw [hholder, beq_eq_false_iff_ne.mpr fun hj => hij (Option.some.inj hj).symm] at hsuits
    exact Call.exec_tasks hsuits hstep

end Discipline

/-! ## A future that spawns while its executor starts others -/

/-- `true` spawns a future whenever it is polled, and `false` finishes at once. -/
def breeder : Behaviour Bool Unit := fun breeds _ =>
  (⟨if breeds then [.spawn false] else [], if breeds then some true else none⟩, ())

/-- The task is pushed and spawns; a poll of one hart starts what it has spawned, and a poll of
another hart polls the task. -/
def crossedRun : List (HartLabel Bool Unit Unit) :=
  .call (.pushTask true) :: List.replicate 6 (.run 0) ++
    .call (.poll ()) :: List.replicate 8 (.run 1) ++ .call (.poll ()) :: List.replicate 3 (.run 2)

/-- What the polls have left to do after the spawn queue, and after the tasks. -/
def crossedTail : List (Instr Bool) :=
  [.unlockQueue, .lockExecutor, .register, .checkIfDone, .unlockExecutor, .lockExecutor,
    .wakePending, .unlockExecutor, .conclude]

/-- One poll holds the queue and waits for the executor, and the other the other way around. -/
def crossedEnd : Harts Bool Unit Unit where
  shared := ⟨⟨[some true], [], [], [], [], ()⟩, some 2, some 1⟩
  calls := [⟨none, [], .pending, true, none, none⟩,
    ⟨some (), [.lockExecutor, .pushTask false, .unlockExecutor, .lockExecutor, .pushTask false,
      .unlockExecutor] ++ crossedTail, .pending, true, none, none⟩,
    ⟨some (), [.act (.spawn false), .finishFuture 0 (some true), .unlockExecutor, .lockQueue,
      .drainQueue] ++ crossedTail, .pending, true, none, none⟩]

theorem reachable_crossedEnd : (harts breeder).Reachable crossedEnd :=
  .foldlM (fun _ _ _ h => h) (.init ⟨(), rfl⟩)
    (show crossedRun.foldlM (Harts.next breeder) (Harts.new ()) = some crossedEnd from rfl)

/-- The task is polled by one call, which no other call does. -/
theorem poll_exclusive_breeder :
    (∃ call, crossedEnd.calls[2]? = some call ∧ call.Polling) ∧
      ∀ (j : ℕ) (call : Call Bool Unit), crossedEnd.calls[j]? = some call → call.Polling →
        j = 2 := by
  have hpolling : ∃ call, crossedEnd.calls[2]? = some call ∧ call.Polling :=
    ⟨_, rfl, [.act (.spawn false)], 0, some true, _, rfl, by simp⟩
  obtain ⟨call, hcall, hcalled⟩ := hpolling
  exact ⟨⟨call, hcall, hcalled⟩, (poll_exclusive reachable_crossedEnd hcall hcalled).1⟩

end AsyncKernel
