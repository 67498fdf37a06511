import Mathlib.Logic.Hydra
import AsyncKernel.Executor.Locking

/-!
# Deadlocks of harts that share an executor

A poll of a handle locks the spawn queue while it starts what the queue holds, and for each of these
futures it locks the executor besides. So a future that spawns while it is polled may find the queue
held, by its own call or by another one that waits for the executor in turn. These are the
deadlocks, with the calls into the executor from inside a future: there are no others, none of them
ever ends, and all calls come to an end unless one of them is reached.

## Main definitions

* `Harts.Deadlock`: the three kinds of deadlocks
* `Harts.Proceeds`: a step of a call, while the environment changes
* `OnlyWakes`: futures that only wake tasks while they are polled

## Main results

* `deadlock_forever`: a deadlock does not end
* `harts_settle`: without new calls all calls return, or run into a deadlock
* `harts_finish`: with futures that only wake tasks all calls return
-/

namespace AsyncKernel

variable {F W E : Type}

section Deadlock

variable {behaviour : Behaviour F E} {i j : ℕ} {s s' : Harts F W E} {call call' : Call F W}
  {shared' : Shared F W E} {instr : Instr F} {rest : List (Instr F)} {l : HartLabel F W E}

/-! ## Calls that wait -/

/-- **The three kinds of deadlocks.** A future that is polled enters its executor; it spawns
although its own call starts it from the queue; or it spawns while another call starts what the
queue holds and waits for the executor. -/
inductive Harts.Deadlock (s : Harts F W E) : Prop
  | reentry (i : ℕ) (call : Call F W) (rest : List (Instr F)) (hcall : s.calls[i]? = some call)
      (hexecutor : s.shared.executorHolder = some i) (htodo : call.todo = .act .enter :: rest)
  | respawn (i : ℕ) (call : Call F W) (future : F) (rest : List (Instr F))
      (hcall : s.calls[i]? = some call) (hexecutor : s.shared.executorHolder = some i)
      (hqueue : s.shared.queueHolder = some i) (htodo : call.todo = .act (.spawn future) :: rest)
  | crossed (i j : ℕ) (call call' : Call F W) (future : F) (rest rest' : List (Instr F))
      (hne : j ≠ i) (hcall : s.calls[i]? = some call) (hcall' : s.calls[j]? = some call')
      (hexecutor : s.shared.executorHolder = some i) (hqueue : s.shared.queueHolder = some j)
      (htodo : call.todo = .act (.spawn future) :: rest)
      (htodo' : call'.todo = .lockExecutor :: rest')

/-- All calls have returned. -/
def Harts.Finished (s : Harts F W E) : Prop := ∀ call ∈ s.calls, call.todo = []

/-- No call can go on. -/
def Harts.Resting (behaviour : Behaviour F E) (s : Harts F W E) : Prop :=
  ∀ i, s.next behaviour (.run i) = none

theorem Harts.next_run_eq_none (hcall : s.calls[i]? = some call) (htodo : call.todo = instr :: rest)
    (h : s.next behaviour (.run i) = none) :
    { call with todo := rest }.exec behaviour i s.shared instr = none := by
  by_contra hne
  obtain ⟨⟨call', shared'⟩, hexec⟩ := Option.ne_none_iff_exists'.mp hne
  have hstep : call.step behaviour i s.shared = some (call', shared') := by
    rw [Call.step, htodo]
    exact hexec
  rw [Harts.next, hcall] at h
  dsimp only [Option.bind_eq_bind, Option.bind_some] at h
  rw [hstep] at h
  cases h

/-- A call that holds a lock has something left to do. -/
theorem Harts.Disciplined.exists_todo (h : s.Disciplined)
    (hholder : s.shared.executorHolder = some i ∨ s.shared.queueHolder = some i) :
    ∃ call instr rest, s.calls[i]? = some call ∧ call.todo = instr :: rest := by
  have hlt : i < s.calls.length := hholder.elim (h.executorHolder i) (h.queueHolder i)
  have hcall := List.getElem?_eq_getElem hlt
  cases htodo : (s.calls[i]).todo with
  | cons instr rest => exact ⟨_, instr, rest, hcall, htodo⟩
  | nil =>
    have hkeeps := h.keeps i _ hcall
    rw [htodo] at hkeeps
    obtain ⟨hexecutor, hqueue⟩ := Phase.eq_of_keeps_nil hkeeps
    rcases hholder with hholder | hholder
    · exact absurd hholder (beq_eq_false_iff_ne.mp hexecutor)
    · exact absurd hholder (beq_eq_false_iff_ne.mp hqueue)

/-- When the executor is held and no call can go on, there is a deadlock. -/
theorem Harts.Disciplined.deadlock_of_held (h : s.Disciplined) (hrest : s.Resting behaviour)
    (hexecutor : s.shared.executorHolder = some i) : s.Deadlock := by
  obtain ⟨call, instr, rest, hcall, htodo⟩ := h.exists_todo (Or.inl hexecutor)
  have hsuits := (h.suits hcall htodo).1
  rw [beq_iff_eq.mpr hexecutor] at hsuits
  -- The holder waits for the queue, or enters the executor.
  rcases Call.exec_eq_none_iff.mp (next_run_eq_none hcall htodo (hrest i)) with
    ⟨rfl, -⟩ | ⟨rfl, -⟩ | ⟨future, rfl, hqueue⟩ | rfl
  · cases hsuits
  · cases hsuits
  · obtain ⟨j, hqueue⟩ := Option.ne_none_iff_exists'.mp hqueue
    by_cases hij : j = i
    · subst hij
      exact .respawn j call future rest hcall hexecutor hqueue htodo
    · -- another call holds the queue, and waits for the executor
      obtain ⟨call', instr', rest', hcall', htodo'⟩ := h.exists_todo (Or.inr hqueue)
      have hsuits' := (h.suits hcall' htodo').1
      rw [beq_iff_eq.mpr hqueue, hexecutor,
        beq_eq_false_iff_ne.mpr fun hj => hij (Option.some.inj hj).symm] at hsuits'
      rcases Call.exec_eq_none_iff.mp (next_run_eq_none hcall' htodo' (hrest j)) with
        ⟨rfl, -⟩ | ⟨rfl, -⟩ | ⟨future', rfl, -⟩ | rfl
      · exact .crossed i j call call' future rest rest' hij hcall hcall' hexecutor hqueue htodo
          htodo'
      · cases hsuits'
      · cases hsuits'
      · cases hsuits'
  · exact .reentry i call rest hcall hexecutor htodo

/-- **When no call can go on**, all have returned or there is a deadlock. -/
theorem Harts.Disciplined.finished_or_deadlock (h : s.Disciplined) (hrest : s.Resting behaviour) :
    s.Finished ∨ s.Deadlock := by
  cases hexecutor : s.shared.executorHolder with
  | some i => exact Or.inr (h.deadlock_of_held hrest hexecutor)
  | none =>
    -- With a free executor no call waits, neither a holder of the queue nor any other.
    have hfree : s.shared.queueHolder = none := by
      by_contra hne
      obtain ⟨j, hqueue⟩ := Option.ne_none_iff_exists'.mp hne
      obtain ⟨call, instr, rest, hcall, htodo⟩ := h.exists_todo (Or.inr hqueue)
      have hsuits := (h.suits hcall htodo).1
      rw [beq_iff_eq.mpr hqueue, hexecutor] at hsuits
      rcases Call.exec_eq_none_iff.mp (next_run_eq_none hcall htodo (hrest j)) with
        ⟨-, hheld⟩ | ⟨rfl, -⟩ | ⟨future, rfl, -⟩ | rfl
      · exact hheld hexecutor
      · cases hsuits
      · cases hsuits
      · cases hsuits
    refine Or.inl fun call hmem => ?_
    obtain ⟨i, hcall⟩ := List.mem_iff_getElem?.mp hmem
    by_contra hne
    obtain ⟨instr, rest, htodo⟩ := List.exists_cons_of_ne_nil hne
    have hsuits := (h.suits hcall htodo).1
    rw [hexecutor] at hsuits
    rcases Call.exec_eq_none_iff.mp (next_run_eq_none hcall htodo (hrest i)) with
      ⟨-, hheld⟩ | ⟨-, hheld⟩ | ⟨future, -, hheld⟩ | rfl
    · exact hheld hexecutor
    · exact hheld hfree
    · exact hheld hfree
    · cases hsuits

/-! ### A deadlock does not end -/

/-- A call that waits takes no step. -/
theorem Harts.not_next_run {k : ℕ} (hnext : s.next behaviour (.run k) = some s')
    (hcall : s.calls[k]? = some call) (htodo : call.todo = instr :: rest) :
    { call with todo := rest }.exec behaviour k s.shared instr ≠ none := by
  intro hnone
  obtain ⟨c, c', shared', hc, hstep, -⟩ := Harts.next_run hnext
  obtain rfl := Option.some.inj (hcall.symm.trans hc)
  rw [Call.step, htodo] at hstep
  cases hnone.symm.trans hstep

/-- A step of one call leaves the others, and the locks that they hold. -/
theorem Harts.Disciplined.next_ne (h : s.Disciplined) {k : ℕ}
    (hnext : s.next behaviour (.run k) = some s') (hik : i ≠ k) :
    s'.calls[i]? = s.calls[i]? ∧
      (s.shared.executorHolder = some i → s'.shared.executorHolder = some i) ∧
      (s.shared.queueHolder = some i → s'.shared.queueHolder = some i) := by
  obtain ⟨call, call', shared', hcall, hstep, rfl⟩ := Harts.next_run hnext
  unfold Call.step at hstep
  split at hstep
  · cases hstep
  rename_i instr rest htodo
  obtain ⟨hexecutor, hqueue⟩ := Phase.holds.inj (h.phaseOf_ne hcall htodo hstep i hik)
  refine ⟨List.getElem?_set_ne hik.symm, fun hi => ?_, fun hi => ?_⟩
  · exact beq_iff_eq.mp (hexecutor.trans (beq_iff_eq.mpr hi))
  · exact beq_iff_eq.mp (hqueue.trans (beq_iff_eq.mpr hi))

/-- A deadlock persists, with the executor held by the same call. -/
theorem Harts.Deadlock.step (hdisciplined : s.Disciplined) (h : s.Deadlock)
    (hstep : (harts behaviour).step s l s') :
    s'.Deadlock ∧ s'.shared.executorHolder = s.shared.executorHolder := by
  cases l with
  | call request =>
    obtain rfl := Option.some.inj hstep
    have hcalls : ∀ (i : ℕ) (call : Call F W), s.calls[i]? = some call →
        (s.calls ++ [request.start])[i]? = some call := by
      intro i call hcall
      rw [List.getElem?_append_left (List.getElem?_eq_some_iff.mp hcall).1, hcall]
    refine ⟨?_, rfl⟩
    cases h with
    | reentry i call rest hcall hexecutor htodo =>
      exact .reentry i call rest (hcalls i call hcall) hexecutor htodo
    | respawn i call future rest hcall hexecutor hqueue htodo =>
      exact .respawn i call future rest (hcalls i call hcall) hexecutor hqueue htodo
    | crossed i j call call' future rest rest' hne hcall hcall' hexecutor hqueue htodo htodo' =>
      exact .crossed i j call call' future rest rest' hne (hcalls i call hcall)
        (hcalls j call' hcall') hexecutor hqueue htodo htodo'
  | environment env =>
    obtain rfl := Option.some.inj hstep
    refine ⟨?_, rfl⟩
    cases h with
    | reentry i call rest hcall hexecutor htodo => exact .reentry i call rest hcall hexecutor htodo
    | respawn i call future rest hcall hexecutor hqueue htodo =>
      exact .respawn i call future rest hcall hexecutor hqueue htodo
    | crossed i j call call' future rest rest' hne hcall hcall' hexecutor hqueue htodo htodo' =>
      exact .crossed i j call call' future rest rest' hne hcall hcall' hexecutor hqueue htodo htodo'
  | run k =>
    -- The calls of the deadlock take no step, and the others leave their locks.
    cases h with
    | reentry i call rest hcall hexecutor htodo =>
      have hik : i ≠ k := by
        rintro rfl
        exact Harts.not_next_run hstep hcall htodo
          (Call.exec_eq_none_iff.mpr (Or.inr (Or.inr (Or.inr rfl))))
      obtain ⟨hcalls, hexecutor', -⟩ := hdisciplined.next_ne hstep hik
      exact ⟨.reentry i call rest (hcalls.trans hcall) (hexecutor' hexecutor) htodo,
        (hexecutor' hexecutor).trans hexecutor.symm⟩
    | respawn i call future rest hcall hexecutor hqueue htodo =>
      have hik : i ≠ k := by
        rintro rfl
        exact Harts.not_next_run hstep hcall htodo (Call.exec_eq_none_iff.mpr
          (Or.inr (Or.inr (Or.inl ⟨future, rfl, by rw [hqueue]; exact nofun⟩))))
      obtain ⟨hcalls, hexecutor', hqueue'⟩ := hdisciplined.next_ne hstep hik
      exact ⟨.respawn i call future rest (hcalls.trans hcall) (hexecutor' hexecutor)
        (hqueue' hqueue) htodo, (hexecutor' hexecutor).trans hexecutor.symm⟩
    | crossed i j call call' future rest rest' hne hcall hcall' hexecutor hqueue htodo htodo' =>
      have hik : i ≠ k := by
        rintro rfl
        exact Harts.not_next_run hstep hcall htodo (Call.exec_eq_none_iff.mpr
          (Or.inr (Or.inr (Or.inl ⟨future, rfl, by rw [hqueue]; exact nofun⟩))))
      have hjk : j ≠ k := by
        rintro rfl
        exact Harts.not_next_run hstep hcall' htodo' (Call.exec_eq_none_iff.mpr
          (Or.inl ⟨rfl, by rw [hexecutor]; exact nofun⟩))
      obtain ⟨hcalls, hexecutor', -⟩ := hdisciplined.next_ne hstep hik
      obtain ⟨hcalls', -, hqueue'⟩ := hdisciplined.next_ne hstep hjk
      exact ⟨.crossed i j call call' future rest rest' hne (hcalls.trans hcall)
        (hcalls'.trans hcall') (hexecutor' hexecutor) (hqueue' hqueue) htodo htodo',
        (hexecutor' hexecutor).trans hexecutor.symm⟩

/-- **A deadlock does not end**: the executor stays with the call that holds it. -/
theorem deadlock_forever (h : (harts behaviour).Reachable s) (hdeadlock : s.Deadlock)
    {run : List (Transition (Harts F W E) (HartLabel F W E))}
    (hrun : (harts behaviour).IsRun s run) :
    ∀ t ∈ run, t.after.Deadlock ∧ t.after.shared.executorHolder = s.shared.executorHolder := by
  have hinvariant := hrun.invariant (I := fun s' => s'.Disciplined ∧ s'.Deadlock ∧
    s'.shared.executorHolder = s.shared.executorHolder) ⟨disciplined h, hdeadlock, rfl⟩ ?_
  · exact fun t ht => (hinvariant t ht).2.2
  · rintro t - ⟨hdisciplined, hdead, hholder⟩ hstep
    obtain ⟨hdead', hholder'⟩ := hdead.step hdisciplined hstep
    exact ⟨hdisciplined.step hstep, hdead', hholder'.trans hholder⟩

/-! ## All calls come to an end -/

/-- How far the instructions are nested that an instruction is replaced by. -/
def Instr.depth : Instr F → ℕ
  | .conclude => 5
  | .drainQueue => 4
  | .pollAll | .pushTask _ | .wakePending => 3
  | .pollFuture _ => 2
  | .act _ => 1
  | _ => 0

theorem Expansion.depth_lt {more : List (Instr F)} (h : Expansion behaviour instr more) :
    ∀ x ∈ more, x.depth < instr.depth := by
  intro x hx
  cases h with
  | done => cases hx
  | pollAll n =>
    obtain ⟨index, -, rfl⟩ := List.mem_map.mp hx
    exact Nat.lt_succ_self 2
  | pollFuture index task env =>
    rcases List.mem_append.mp hx with hx | hx
    · obtain ⟨action, -, rfl⟩ := List.mem_map.mp hx
      exact Nat.lt_succ_self 1
    · rw [List.mem_singleton.mp hx]
      exact Nat.zero_lt_two
  | wake index =>
    rw [List.mem_singleton.mp hx]
    exact Nat.zero_lt_one
  | drainQueue queue =>
    obtain ⟨task, -, hx⟩ := List.mem_flatMap.mp hx
    simp only [List.mem_cons, List.not_mem_nil, or_false] at hx
    rcases hx with rfl | rfl | rfl <;> simp [Instr.depth]
  | pushTask task index =>
    rw [List.mem_singleton.mp hx]
    exact Nat.lt_succ_self 2
  | wakePending indices =>
    obtain ⟨index, -, rfl⟩ := List.mem_map.mp hx
    exact Nat.lt_succ_self 2
  | started =>
    simp only [List.mem_cons, List.not_mem_nil, or_false] at hx
    rcases hx with rfl | rfl | rfl | rfl <;> simp [Instr.depth]
  | concluded =>
    rw [List.mem_singleton.mp hx]
    exact Nat.zero_lt_succ 4

/-- What all calls have left to do. -/
def Harts.pending (s : Harts F W E) : Multiset (Instr F) :=
  (s.calls.map fun call => (call.todo : Multiset (Instr F))).sum

/-- Instructions are replaced by others that are nested less far. -/
def Shallower (instr instr' : Instr F) : Prop := instr.depth < instr'.depth

theorem wellFounded_shallower : WellFounded (Shallower (F := F)) :=
  InvImage.wf Instr.depth Nat.lt_wfRel.wf

/-- **A step of a call replaces one instruction** by others that are nested less far. -/
theorem Harts.Disciplined.cutExpand (h : s.Disciplined) (hcall : s.calls[i]? = some call)
    (hstep : call.step behaviour i s.shared = some (call', shared')) :
    Relation.CutExpand Shallower (Harts.pending ⟨shared', s.calls.set i call'⟩) s.pending := by
  unfold Call.step at hstep
  split at hstep
  · cases hstep
  rename_i instr rest htodo
  obtain ⟨⟨more, hexpansion, htodo'⟩, -⟩ := Call.exec_expands hstep
  -- A call that returns has no instruction left.
  obtain ⟨more', hdepth, htodo'⟩ : ∃ more', (∀ x ∈ more', Shallower x instr) ∧
      call'.todo = more' ++ rest := by
    rcases htodo' with ⟨rfl, htodo'⟩ | ⟨-, htodo'⟩
    · refine ⟨[], nofun, ?_⟩
      rw [htodo', Phase.eq_nil_of_returned (h.suits hcall htodo).2]
      rfl
    · exact ⟨more, hexpansion.depth_lt, htodo'⟩
  obtain ⟨hlt, hget⟩ := List.getElem?_eq_some_iff.mp hcall
  have hsplit : s.calls = s.calls.take i ++ call :: s.calls.drop (i + 1) := by
    rw [← hget, ← List.drop_eq_getElem_cons hlt, List.take_append_drop]
  refine ⟨more', instr, hdepth, ?_⟩
  unfold Harts.pending
  rw [List.set_eq_take_append_cons_drop, if_pos hlt]
  conv_rhs => rw [hsplit]
  simp only [List.map_append, List.map_cons, List.sum_append, List.sum_cons, htodo, htodo']
  rw [← Multiset.cons_coe, ← Multiset.coe_add, ← Multiset.singleton_add]
  abel

/-- The harts go on with the calls that they have made, while the environment changes. -/
def Harts.Proceeds (behaviour : Behaviour F E) (s' s : Harts F W E) : Prop :=
  ∃ env i, ((s.next behaviour (.environment env)).bind fun s => s.next behaviour (.run i)) = some s'

theorem Harts.Disciplined.acc_proceeds (h : s.Disciplined) : Acc (Harts.Proceeds behaviour) s := by
  have hwf : WellFounded (Relation.CutExpand (Shallower (F := F))) :=
    haveI : Std.Irrefl (Shallower (F := F)) := ⟨fun _ => lt_irrefl _⟩
    wellFounded_shallower.cutExpand
  -- On what is left to do, which the environment does not change.
  induction hp : s.pending using hwf.induction generalizing s with
  | _ p ih =>
    subst hp
    refine ⟨s, ?_⟩
    rintro s' ⟨env, i, hnext⟩
    have henv : (harts behaviour).step s (.environment env) _ := rfl
    obtain ⟨call, call', shared', hcall, hstep, rfl⟩ := Harts.next_run hnext
    have hdisciplined := h.step henv
    exact ih _ (hdisciplined.cutExpand hcall hstep) (hdisciplined.run hcall hstep) rfl

/-- **All calls return, or run into a deadlock**: without new calls the harts take finitely many
steps, in whatever order, and when no step is left all calls have returned or there is a
deadlock. -/
theorem harts_settle (h : (harts behaviour).Reachable s) :
    Acc (Harts.Proceeds behaviour) s ∧ (s.Resting behaviour → s.Finished ∨ s.Deadlock) :=
  ⟨(disciplined h).acc_proceeds, fun hrest => (disciplined h).finished_or_deadlock hrest⟩

/-! ## Futures that only wake -/

/-- Futures that do nothing to their executor while they are polled but wake tasks. -/
def OnlyWakes (behaviour : Behaviour F E) : Prop :=
  ∀ f env, ∀ a ∈ (behaviour f env).1.actions, ∃ index, a = .wake index

/-- A call spawns only as a call of its own, and does not enter the executor. -/
structure Call.Quiet (call : Call F W) : Prop where
  spawn : ∀ future, .act (.spawn future) ∈ call.todo → call.todo = [.act (.spawn future)]
  enter : .act .enter ∉ call.todo

theorem Request.quiet (request : Request F W) : request.start.Quiet := by
  cases request with
  | poll waker =>
    exact ⟨by simp [Request.start, Request.code, pollHead, pollMiddle, pollTail],
      by simp [Request.start, Request.code, pollHead, pollMiddle, pollTail]⟩
  | wake index =>
    exact ⟨by simp [Request.start, Request.code], by simp [Request.start, Request.code]⟩
  | spawn future =>
    refine ⟨fun future' hmem => ?_, by simp [Request.start, Request.code]⟩
    obtain rfl : future' = future := by simpa [Request.start, Request.code] using hmem
    rfl
  | pushTask future =>
    exact ⟨by simp [Request.start, Request.code], by simp [Request.start, Request.code]⟩

/-- What replaces an instruction only wakes tasks. -/
theorem Expansion.act_mem {more : List (Instr F)} (hwakes : OnlyWakes behaviour)
    (h : Expansion behaviour instr more) {action : Action F} (hmem : .act action ∈ more) :
    ∃ index, action = .wake index := by
  cases h with
  | pollFuture index task env =>
    rcases List.mem_append.mp hmem with hmem | hmem
    · obtain ⟨a, ha, haction⟩ := List.mem_map.mp hmem
      obtain rfl := Instr.act.inj haction
      exact hwakes task env a ha
    · cases List.mem_singleton.mp hmem
  | drainQueue queue =>
    obtain ⟨task, -, hmem⟩ := List.mem_flatMap.mp hmem
    simp at hmem
  | _ => simp at hmem

theorem Call.Quiet.step {s s' : Shared F W E} (hwakes : OnlyWakes behaviour) (h : call.Quiet)
    (hstep : call.step behaviour i s = some (call', s')) : call'.Quiet := by
  unfold Call.step at hstep
  split at hstep
  · cases hstep
  rename_i instr rest htodo
  obtain ⟨⟨more, hexpansion, ⟨-, htodo'⟩ | ⟨-, htodo'⟩⟩, -⟩ := Call.exec_expands hstep
  · exact ⟨by simp [htodo'], by simp [htodo']⟩
  · -- A spawn in the rest would be the whole call.
    have hact : ∀ action, .act action ∈ call'.todo →
        (∃ index, action = .wake index) ∨ .act action ∈ rest := by
      intro action hmem
      rw [htodo'] at hmem
      exact (List.mem_append.mp hmem).imp_left (hexpansion.act_mem hwakes)
    refine ⟨fun future hmem => ?_, fun hmem => ?_⟩
    · rcases hact _ hmem with ⟨index, hindex⟩ | hmem
      · cases hindex
      · have hall := h.spawn future (htodo ▸ List.mem_cons_of_mem _ hmem)
        rw [htodo] at hall
        rw [(List.cons.inj hall).2] at hmem
        cases hmem
    · rcases hact _ hmem with ⟨index, hindex⟩ | hmem
      · cases hindex
      · exact h.enter (htodo ▸ List.mem_cons_of_mem _ hmem)

theorem quiet (hwakes : OnlyWakes behaviour) (h : (harts behaviour).Reachable s) :
    ∀ call ∈ s.calls, call.Quiet := by
  refine h.invariant (I := fun s => ∀ call ∈ s.calls, call.Quiet) ?_ ?_
  · rintro _ ⟨env, rfl⟩
    exact nofun
  · intro s l s' ih hstep call hmem
    cases l with
    | call request =>
      obtain rfl := Option.some.inj hstep
      rcases List.mem_append.mp hmem with hmem | hmem
      · exact ih call hmem
      · rw [List.mem_singleton.mp hmem]
        exact request.quiet
    | run i =>
      obtain ⟨c, c', shared', hc, hexec, rfl⟩ := Harts.next_run hstep
      rcases List.mem_or_eq_of_mem_set hmem with hmem | rfl
      · exact ih call hmem
      · exact (ih c (List.mem_of_getElem? hc)).step hwakes hexec
    | environment env =>
      obtain rfl := Option.some.inj hstep
      exact ih call hmem

/-- **Harts whose futures only wake tasks do not run into a deadlock**: when no call can go on, all
have returned. -/
theorem harts_finish (hwakes : OnlyWakes behaviour) (h : (harts behaviour).Reachable s)
    (hrest : s.Resting behaviour) : s.Finished := by
  have hdisciplined := disciplined h
  -- A call that holds the executor and spawns would have to release it afterwards.
  have hspawn : ∀ (i : ℕ) (call : Call F W) future rest, s.calls[i]? = some call →
      s.shared.executorHolder = some i → call.todo ≠ .act (.spawn future) :: rest := by
    intro i call future rest hcall hexecutor htodo
    have hall := (quiet hwakes h call (List.mem_of_getElem? hcall)).spawn future
      (htodo ▸ List.mem_cons_self)
    have hkeeps := (hdisciplined.suits hcall hall).2
    rw [beq_iff_eq.mpr hexecutor] at hkeeps
    cases (Phase.eq_of_keeps_nil hkeeps).1
  rcases hdisciplined.finished_or_deadlock hrest with hfinished | hdeadlock
  · exact hfinished
  · cases hdeadlock with
    | reentry i call rest hcall hexecutor htodo =>
      exact absurd (htodo ▸ List.mem_cons_self)
        (quiet hwakes h call (List.mem_of_getElem? hcall)).enter
    | respawn i call future rest hcall hexecutor hqueue htodo =>
      exact absurd htodo (hspawn i call future rest hcall hexecutor)
    | crossed i j call call' future rest rest' hne hcall hcall' hexecutor hqueue htodo htodo' =>
      exact absurd htodo (hspawn i call future rest hcall hexecutor)

end Deadlock

/-! ## Two polls that wait for each other -/

theorem resting_crossedEnd : crossedEnd.Resting breeder := by
  intro i
  match i with
  | 0 => rfl
  | 1 => rfl
  | 2 => rfl
  | i + 3 => rfl

/-- The two polls have run into a deadlock. -/
theorem harts_settle_breeder : crossedEnd.Finished ∨ crossedEnd.Deadlock :=
  (harts_settle reachable_crossedEnd).2 resting_crossedEnd

/-- A future that wakes itself, polled once: the calls have returned. -/
theorem harts_finish_restless : restlessEnd.Finished := by
  have hreach : (harts restless).Reachable restlessEnd :=
    .foldlM (fun _ _ _ h => h) (.init ⟨(), rfl⟩)
      (show restlessRun.foldlM (Harts.next restless) (Harts.new ()) = some restlessEnd from rfl)
  refine harts_finish (fun f env a ha => ⟨0, List.mem_singleton.mp ha⟩) hreach fun i => ?_
  match i with
  | 0 => rfl
  | 1 => rfl
  | i + 2 => rfl

/-- A third call changes nothing about the deadlock. -/
theorem deadlock_forever_breeder :
    crossedEnd.Deadlock ∧
      ∀ t ∈ TransitionSystem.follow (Harts.next breeder) crossedEnd
          [.call (.wake 0), .run 3, .run 3],
        t.after.Deadlock ∧ t.after.shared.executorHolder = some 2 := by
  have hdeadlock : crossedEnd.Deadlock :=
    .crossed 2 1 _ _ false _ _ nofun rfl rfl rfl rfl rfl rfl
  exact ⟨hdeadlock, deadlock_forever reachable_crossedEnd hdeadlock
    (TransitionSystem.isRun_follow (fun _ _ _ h => h) crossedEnd _)⟩

end AsyncKernel
