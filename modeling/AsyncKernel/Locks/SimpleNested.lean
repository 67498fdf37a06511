import AsyncKernel.Locks.SimpleShared

/-!
# Nested simple shared mutexes

One hart and any number of simple shared mutexes. Each mutex remembers the mask that was in force when
it was acquired, and its release writes it back. The mutex that was acquired first remembers the mask
of the hart, and all others remember 0; so interrupts stay off until the last release when the first
mutex is the last one to be released.

## Main definitions

* `SimpleShared.Mutexes`, `Mutexes.tryLock`, `Mutexes.lock`, `Mutexes.unlock`: the operations
* `SimpleShared.ReleasesFirst`: the mutex that was acquired first is released before others

## Main results

* `Mutexes.tryLock_steps`, `Mutexes.unlock_steps`: the operations are the steps of a hart
* `SimpleShared.off_while_held_iff`: the sequences in which interrupts stay off until the last release
-/

namespace AsyncKernel

namespace SimpleShared

/-- The mutexes, `sie` of the hart and the mutexes it holds, the latest one first. -/
structure Mutexes (M : Type) where
  locked : M → Bool
  oldSie : M → ℕ
  sie : ℕ
  held : List M

namespace Mutexes

variable {M : Type} [DecidableEq M] (s : Mutexes M) (m : M)

/-- `try_lock`. -/
def tryLock : Bool × Mutexes M :=
  match RawSpinlock.tryLock (s.locked m) with
  | (true, locked) => (true, {
      locked := Function.update s.locked m locked
      oldSie := Function.update s.oldSie m s.sie
      sie := 0
      held := m :: s.held })
  | (false, locked) => (false, { s with locked := Function.update s.locked m locked })

/-- `lock`, which does not return while the mutex is locked. -/
def lock : Option (Mutexes M) :=
  match s.tryLock m with
  | (true, s) => some s
  | (false, _) => none

/-- `unlock`. -/
def unlock : Mutexes M where
  locked := Function.update s.locked m (RawSpinlock.unlock (s.locked m))
  oldSie := s.oldSie
  sie := s.oldSie m
  held := s.held.erase m

/-! ## The operations are the steps of a hart -/

/-- What a hart sees of one mutex. -/
def view : Bool × ℕ × ℕ := (s.locked m, s.oldSie m, s.sie)

variable {Hart : Type} [DecidableEq Hart] (hart : Hart)

/-- The steps of one operation, when no other hart moves. -/
def steps (labels : List Label) (shared : State Hart) : Option (Control × State Hart) :=
  labels.foldlM (fun (c : Control × State Hart) l => move hart l c.1 c.2) (.idle, shared)

/-- A hart sees in the state of one mutex what it sees of the mutex among others. -/
def Seen (shared : State Hart) : Prop := (shared.locked, shared.oldSie, shared.sie hart) = s.view m

variable {s m hart} {shared : State Hart}

theorem tryLock_steps (h : s.Seen m hart shared) (hlocked : s.locked m = false) :
    ∃ shared', steps hart [.tryLock, .run, .run, .run, .run] shared = some (.idle, shared') ∧
      (s.tryLock m).2.Seen m hart shared' := by
  obtain ⟨hfree, hrest⟩ := Prod.mk.inj h
  obtain ⟨hold, hsie⟩ := Prod.mk.inj hrest
  rw [hlocked] at hfree
  refine ⟨{ shared with
    locked := true
    oldSie := shared.sie hart
    sie := Function.update shared.sie hart 0
    owner := some hart
    before := Function.update shared.before hart (shared.sie hart) }, ?_, ?_⟩
  · simp [steps, move, hfree, RawSpinlock.tryLock]
  · simp [Seen, view, tryLock, hlocked, RawSpinlock.tryLock, hsie]

theorem unlock_steps (h : s.Seen m hart shared) (howner : shared.owner = some hart) :
    ∃ shared', steps hart [.unlock, .run, .run, .run] shared = some (.idle, shared') ∧
      (s.unlock m).Seen m hart shared' := by
  obtain ⟨hlocked, hrest⟩ := Prod.mk.inj h
  obtain ⟨hold, hsie⟩ := Prod.mk.inj hrest
  refine ⟨{ shared with
    locked := RawSpinlock.unlock shared.locked
    owner := none
    sie := Function.update shared.sie hart shared.oldSie }, ?_, ?_⟩
  · simp [steps, move, howner]
  · simp [Seen, view, unlock, hold, hlocked]

end Mutexes

/-! ## Sequences of operations -/

inductive MutexOp (M : Type)
  | lock (m : M)
  | tryLock (m : M)
  /-- of a mutex that the hart holds -/
  | unlock (m : M)
  deriving DecidableEq, Repr

variable {M : Type} [DecidableEq M]

/-- An operation. There is no result when it does not return, or is not permitted. -/
def Mutexes.next (s : Mutexes M) : MutexOp M → Option (Mutexes M)
  | .lock m => s.lock m
  | .tryLock m => some (s.tryLock m).2
  | .unlock m => if m ∈ s.held then some (s.unlock m) else none

/-- **The operations of a hart that starts without a mutex**, whose mask is `mask`. -/
def mutexSystem (M : Type) [DecidableEq M] (mask : ℕ) : TransitionSystem (Mutexes M) (MutexOp M) where
  init s := s.held = [] ∧ s.sie = mask
  step s l s' := s.next l = some s'

/-- `sie` is 0 while a mutex is held, and the mask of the start otherwise. -/
def OffWhileHeld (mask : ℕ) (s : Mutexes M) : Prop := s.sie = if s.held = [] then mask else 0

/-- The mutex that was acquired first is released while others are held, and the mask is not 0. -/
def ReleasesFirst (mask : ℕ) (s : Mutexes M) (l : MutexOp M) : Prop :=
  ∃ m, l = .unlock m ∧ s.held.getLast? = some m ∧ s.held ≠ [m] ∧ mask ≠ 0

/-- What the mutexes remember: the first one the mask of the start, and all others 0. -/
structure Remembers (mask : ℕ) (s : Mutexes M) : Prop where
  locked : ∀ m ∈ s.held, s.locked m = true
  nodup : s.held.Nodup
  off : OffWhileHeld mask s
  oldSie : ∀ m ∈ s.held, s.oldSie m = if s.held.getLast? = some m then mask else 0

/-- The last element stays the last one when another one is erased. -/
theorem getLast?_erase {l : List M} {b m : M} (h : l.getLast? = some b) (hne : b ≠ m) :
    (l.erase m).getLast? = some b := by
  obtain ⟨front, rfl⟩ := List.getLast?_eq_some_iff.mp h
  by_cases hm : m ∈ front
  · rw [List.erase_append_left _ hm]
    simp
  · rw [List.erase_append_right _ hm, List.erase_of_not_mem (by simpa using hne.symm)]
    simp

variable {mask : ℕ} {s s' : Mutexes M} {m : M} {l : MutexOp M}

theorem Remembers.tryLock (h : Remembers mask s) : Remembers mask (s.tryLock m).2 := by
  unfold Mutexes.tryLock
  cases hlocked : s.locked m with
  | true =>
    have hsame : Function.update s.locked m true = s.locked := by
      rw [← hlocked, Function.update_eq_self]
    simp only [RawSpinlock.tryLock, Bool.true_eq_false, if_false, hsame]
    exact h
  | false =>
    simp only [RawSpinlock.tryLock, if_true]
    have hnew : m ∉ s.held := by
      intro hm
      rw [h.locked m hm] at hlocked
      cases hlocked
    refine ⟨?_, List.nodup_cons.mpr ⟨hnew, h.nodup⟩, rfl, ?_⟩
    · intro m' hm'
      rcases List.mem_cons.mp hm' with rfl | hm'
      · exact Function.update_self ..
      · have hne : m' ≠ m := fun heq => hnew (heq ▸ hm')
        exact (Function.update_of_ne hne _ _).trans (h.locked m' hm')
    · intro m' hm'
      dsimp only
      rcases List.mem_cons.mp hm' with rfl | hm'
      · -- it is the first one when none was held before
        rw [Function.update_self, h.off]
        cases hheld : s.held with
        | nil => simp
        | cons m₁ rest =>
          have hlast : (m' :: m₁ :: rest).getLast? ≠ some m' := by
            rw [List.getLast?_cons_cons]
            intro hlast
            exact hnew (hheld ▸ List.mem_of_getLast? hlast)
          rw [if_neg hlast, if_neg (List.cons_ne_nil _ _)]
      · have hne : m' ≠ m := fun heq => hnew (heq ▸ hm')
        rw [Function.update_of_ne hne, h.oldSie m' hm']
        obtain ⟨m₁, rest, hheld⟩ := List.exists_cons_of_ne_nil (List.ne_nil_of_mem hm')
        rw [hheld, List.getLast?_cons_cons]

/-- An unlock keeps what the mutexes remember, unless it is of the first one while others are held. -/
theorem Remembers.unlock (h : Remembers mask s) (hm : m ∈ s.held)
    (hfirst : ¬ ReleasesFirst mask s (.unlock m)) : Remembers mask (s.unlock m) := by
  have hlocked : ∀ m' ∈ s.held.erase m, (s.unlock m).locked m' = true := by
    intro m' hm'
    obtain ⟨hne, hm'⟩ := (List.Nodup.mem_erase_iff h.nodup).mp hm'
    exact (Function.update_of_ne hne _ _).trans (h.locked m' hm')
  have hnodup := h.nodup.erase m
  have hold := h.oldSie m hm
  by_cases hlast : s.held.getLast? = some m
  · rw [if_pos hlast] at hold
    by_cases honly : s.held = [m]
    · have hnil : s.held.erase m = [] := by simp [honly]
      refine ⟨hlocked, hnodup, ?_, fun m' hm' => ?_⟩
      · exact hold.trans (if_pos hnil).symm
      · change m' ∈ s.held.erase m at hm'
        rw [hnil] at hm'
        cases hm'
    · -- the mask is 0, and so is what all mutexes remember
      have hzero : mask = 0 := by
        by_contra hmask
        exact hfirst ⟨m, rfl, hlast, honly, hmask⟩
      subst hzero
      refine ⟨hlocked, hnodup, ?_, fun m' hm' => ?_⟩
      · exact hold.trans (ite_self 0).symm
      · exact (h.oldSie m' (List.mem_of_mem_erase hm')).trans ((ite_self 0).trans (ite_self 0).symm)
  · -- the first mutex is another one, and stays the first one
    rw [if_neg hlast] at hold
    obtain ⟨b, hb⟩ := Option.ne_none_iff_exists'.mp
      (fun hnone => List.ne_nil_of_mem hm (List.getLast?_eq_none_iff.mp hnone))
    have hne : b ≠ m := fun heq => hlast (heq ▸ hb)
    have hkeeps := getLast?_erase hb hne
    refine ⟨hlocked, hnodup, ?_, fun m' hm' => ?_⟩
    · have hnonempty : s.held.erase m ≠ [] := by
        intro hnil
        rw [hnil] at hkeeps
        cases hkeeps
      exact hold.trans (if_neg hnonempty).symm
    · change s.oldSie m' = if (s.held.erase m).getLast? = some m' then mask else 0
      rw [hkeeps, ← hb]
      exact h.oldSie m' (List.mem_of_mem_erase hm')

/-- **An operation keeps what the mutexes remember**, unless it releases the first one while others
are held. -/
theorem Remembers.next (h : Remembers mask s) (hnext : s.next l = some s')
    (hfirst : ¬ ReleasesFirst mask s l) : Remembers mask s' := by
  cases l with
  | lock m =>
    have htry := h.tryLock (m := m)
    simp only [Mutexes.next, Mutexes.lock] at hnext
    split at hnext
    · rename_i hlock
      obtain rfl := Option.some.inj hnext
      rw [hlock] at htry
      exact htry
    · cases hnext
  | tryLock m =>
    obtain rfl := Option.some.inj hnext
    exact h.tryLock
  | unlock m =>
    simp only [Mutexes.next] at hnext
    split at hnext
    · rename_i hm
      obtain rfl := Option.some.inj hnext
      exact h.unlock hm hfirst
    · cases hnext

/-- The release of the first mutex turns interrupts on while others are held. -/
theorem ReleasesFirst.not_off (h : Remembers mask s) (hfirst : ReleasesFirst mask s l)
    (hnext : s.next l = some s') : ¬ OffWhileHeld mask s' := by
  obtain ⟨m, rfl, hlast, honly, hmask⟩ := hfirst
  have hm := List.mem_of_getLast? hlast
  rw [Mutexes.next, if_pos hm] at hnext
  obtain rfl := Option.some.inj hnext
  have hnonempty : s.held.erase m ≠ [] := by
    intro hnil
    rcases List.erase_eq_nil_iff.mp hnil with hnil | hone
    · exact List.ne_nil_of_mem hm hnil
    · exact honly hone
  have hold : s.oldSie m = mask := (h.oldSie m hm).trans (if_pos hlast)
  intro hoff
  have hzero : s.oldSie m = 0 := hoff.trans (if_neg hnonempty)
  exact hmask (hold.symm.trans hzero)

/-- **The sequences in which interrupts stay off until the last release**, and the mask is then
restored: those in which no release is of the mutex that was acquired first while others are held, or
with a mask of 0 all. -/
theorem off_while_held_iff {s₀ : Mutexes M} (h₀ : (mutexSystem M mask).init s₀)
    {run : List (Transition (Mutexes M) (MutexOp M))} (h : (mutexSystem M mask).IsRun s₀ run) :
    (∀ t ∈ run, OffWhileHeld mask t.after) ↔ ∀ t ∈ run, ¬ ReleasesFirst mask t.before t.label := by
  have hstart : Remembers mask s₀ := by
    obtain ⟨hheld, hsie⟩ := h₀
    refine ⟨?_, ?_, ?_, ?_⟩
    · simp [hheld]
    · simp [hheld]
    · rw [OffWhileHeld, if_pos hheld, hsie]
    · simp [hheld]
  refine h.forall_good_iff (Remembers mask) hstart ?_ ?_ ?_
  · intro t hstep hremembers hfirst
    exact hremembers.next hstep hfirst
  · intro t _ _ hafter _
    exact hafter.off
  · intro t hstep hremembers hfirst
    exact hfirst.not_off hremembers hstep

/-- No mutex is held, and the mask is `0x222`. -/
def noMutex : Mutexes ℕ := ⟨fun _ => false, fun _ => 0, 0x222, []⟩

/-- The transitions from `noMutex` along a list of operations. -/
def mutexRun (ops : List (MutexOp ℕ)) : List (Transition (Mutexes ℕ) (MutexOp ℕ)) :=
  TransitionSystem.follow Mutexes.next noMutex ops

theorem isRun_mutexRun (ops : List (MutexOp ℕ)) : (mutexSystem ℕ 0x222).IsRun noMutex (mutexRun ops) :=
  TransitionSystem.isRun_follow (fun _ _ _ h => h) _ _

/-- Three mutexes, of which the first one is released last. -/
theorem off_while_held_iff_first_last :
    let run := mutexRun [.lock 0, .lock 1, .tryLock 2, .unlock 1, .unlock 2, .unlock 0]
    run.length = 6 ∧ ((∀ t ∈ run, OffWhileHeld 0x222 t.after) ↔
      ∀ t ∈ run, ¬ ReleasesFirst 0x222 t.before t.label) :=
  have hstart : (mutexSystem ℕ 0x222).init noMutex := ⟨rfl, rfl⟩
  ⟨rfl, off_while_held_iff hstart (isRun_mutexRun _)⟩

/-- Of two mutexes the one that was acquired first is released first: interrupts are on while the
other one is held, and off when none is. -/
theorem not_off_while_held :
    let run := mutexRun [.lock 0, .lock 1, .unlock 0, .unlock 1]
    (mutexSystem ℕ 0x222).init noMutex ∧ (mutexSystem ℕ 0x222).IsRun noMutex run ∧
      (∃ t ∈ run, t.after.held = [1] ∧ t.after.sie = 0x222) ∧
      (∃ t ∈ run, t.after.held = [] ∧ t.after.sie = 0) ∧
      ¬ ∀ t ∈ run, OffWhileHeld 0x222 t.after := by
  intro run
  have hon : ∃ t ∈ run, t.after.held = [1] ∧ t.after.sie = 0x222 := by decide
  have hoff : ∃ t ∈ run, t.after.held = [] ∧ t.after.sie = 0 := by decide
  refine ⟨⟨rfl, rfl⟩, isRun_mutexRun _, hon, hoff, fun hall => ?_⟩
  obtain ⟨t, ht, hheld, hsie⟩ := hon
  have hzero := hall t ht
  rw [OffWhileHeld, hheld, hsie] at hzero
  cases hzero

end SimpleShared

end AsyncKernel
