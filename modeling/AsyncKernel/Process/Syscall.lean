import AsyncKernel.Process.Switch

/-!
# System calls

`do_syscall` and `do_syscall_and_drop_if_exit` of `kernel_syscall`. The number of the call is
converted to an enumeration, but the pattern `Exit` of the match on it is a variable, since the names
of the enumeration have not been imported: every call exits. `switch_to_and_come_back` resets the
state of a process, also of one that has exited.

## Main definitions

* `SyscallNumbers`, `Process.doSyscall`, `Process.doSyscallAndDropIfExit`: the calls
* `Process.switchToAndComeBack`: what a switch does to the state of a process
* `Process.Lawful`: a process has exited when it has made the call for it, and other calls do nothing
* `Process.Stray`: an unknown call of a process that has not exited, or a switch to one that has

## Main results

* `Process.lawful_iff`: the runs in which processes exit by the call for it
-/

namespace AsyncKernel

inductive SyscallNumbers
  | exit
  | unknown
  deriving DecidableEq, Repr

/-- `SyscallNumbers::from`. -/
def SyscallNumbers.fromPrimitive : ℕ → SyscallNumbers
  | 1 => .exit
  | _ => .unknown

namespace Process

/-- `do_syscall`, with the trap frames. -/
def doSyscall (frames : Frames) (process : Process) : Frames × Process :=
  let syscallNumberValue := (frames process.trapFrame).generalRegisters a7
  match SyscallNumbers.fromPrimitive syscallNumberValue with
  -- the pattern is a variable, so the second one, `Unknown`, is not reached
  | _Exit => (frames, { process with state := .exited })

/-- `do_syscall_and_drop_if_exit`: what it returns is the container, unless the process has exited. -/
def doSyscallAndDropIfExit {C : Type} (container : C) (frames : Frames) (process : Process) :
    (Frames × Process) × Option C :=
  let (frames, process) := doSyscall frames process
  match process.state with
  | .exited => ((frames, process), none)
  | _ => ((frames, process), some container)

/-- `switch_to_and_come_back`: the trap frames are those after the process has run. -/
def switchToAndComeBack (after : Frames) (process : Process) : Frames × Process :=
  let process := { process with state := .running }
  (after, { process with state := .paused })

/-! ## Runs -/

/-- A process, the trap frames, and the numbers of the calls that the process has made. -/
structure Session where
  frames : Frames
  process : Process
  calls : List ℕ

inductive Request
  /-- `do_syscall`, with these registers in the trap frame -/
  | syscall (registers : Fin 32 → ℕ)
  /-- `switch_to_and_come_back` -/
  | switch (after : Frames)

/-- The trap frames after the process has put registers into its own. -/
def Session.load (s : Session) (registers : Fin 32 → ℕ) : Frames :=
  Function.update s.frames s.process.trapFrame
    { s.frames s.process.trapFrame with generalRegisters := registers }

def Session.next (s : Session) : Request → Session
  | .syscall registers =>
    let (frames, process) := doSyscall (s.load registers) s.process
    ⟨frames, process, registers a7 :: s.calls⟩
  | .switch after =>
    let (frames, process) := switchToAndComeBack after s.process
    ⟨frames, process, s.calls⟩

/-- **The system calls of a process, and the switches to it**, from a state that is not `Exited`. -/
def sessions : TransitionSystem Session Request where
  init s := s.process.state ≠ .exited ∧ s.calls = []
  step s l s' := s.next l = s'

/-- A process has exited when it has made the call for it, and a call with another number does nothing
to its state and its trap frame. -/
structure Lawful (t : Transition Session Request) : Prop where
  exited_iff : t.after.process.state = .exited ↔ 1 ∈ t.after.calls
  unknown : ∀ registers, t.label = .syscall registers → registers a7 ≠ 1 →
    t.after.process = t.before.process ∧ t.after.frames = t.before.load registers

/-- A call with a number that is not 1 from a process that has not made the call with the number 1, or
a switch to a process that has. -/
def Stray (s : Session) : Request → Prop
  | .syscall registers => registers a7 ≠ 1 ∧ 1 ∉ s.calls
  | .switch _ => 1 ∈ s.calls

instance (s : Session) : DecidablePred (Stray s)
  | .syscall registers => inferInstanceAs (Decidable (registers a7 ≠ 1 ∧ 1 ∉ s.calls))
  | .switch _ => inferInstanceAs (Decidable (1 ∈ s.calls))

/-- Every call exits. -/
theorem doSyscall_eq (frames : Frames) (process : Process) :
    doSyscall frames process = (frames, { process with state := .exited }) := rfl

/-- The container is dropped when the process has exited. -/
theorem doSyscallAndDropIfExit_eq_none_iff {C : Type} (container : C) (frames : Frames)
    (process : Process) : (doSyscallAndDropIfExit container frames process).2 = none ↔
      (doSyscallAndDropIfExit container frames process).1.2.state = .exited := by
  unfold doSyscallAndDropIfExit
  cases hstate : (doSyscall frames process).2.state <;> simp [hstate]

/-- The process has exited when it has made the call for it. -/
def Session.Settled (s : Session) : Prop := s.process.state = .exited ↔ 1 ∈ s.calls

variable {s s₀ : Session} {l : Request}

/-- **A request settles a process again** unless it is stray. -/
theorem Session.settled_next (hstray : ¬ Stray s l) : (s.next l).Settled := by
  cases l with
  | syscall registers =>
    rw [Stray, not_and_or, not_not, not_not] at hstray
    refine iff_of_true rfl ?_
    rcases hstray with hexit | hold
    · rw [← hexit]
      exact List.mem_cons_self
    · exact List.mem_cons_of_mem _ hold
  | switch after => exact iff_of_false (by simp [Session.next, switchToAndComeBack]) hstray

/-- A stray request leaves a process that has not exited by the call for it, or one that has not
exited although it has made the call. -/
theorem Stray.not_settled (h : Stray s l) : ¬ (s.next l).Settled := by
  intro hsettled
  cases l with
  | syscall registers =>
    rcases List.mem_cons.mp (hsettled.mp rfl) with hexit | hold
    · exact h.1 hexit.symm
    · exact h.2 hold
  | switch after =>
    have hexited := hsettled.mpr h
    cases hexited

/-- **The runs in which processes exit by the call for it**: those without a stray request. In any run
the container of a process is dropped when the process has exited. -/
theorem lawful_iff {run : List (Transition Session Request)} (h₀ : sessions.init s₀)
    (h : sessions.IsRun s₀ run) :
    ((∀ t ∈ run, Lawful t) ↔ ∀ t ∈ run, ¬ Stray t.before t.label) ∧
      ∀ (C : Type) (container : C) (frames : Frames) (process : Process),
        (doSyscallAndDropIfExit container frames process).2 = none ↔
          (doSyscallAndDropIfExit container frames process).1.2.state = .exited := by
  have hstart : s₀.Settled := iff_of_false h₀.1 (by simp [h₀.2])
  refine ⟨h.forall_good_iff Session.Settled hstart ?_ ?_ ?_,
    fun _ container frames process => doSyscallAndDropIfExit_eq_none_iff container frames process⟩
  · intro t hstep _ hstray
    have hnext : t.before.next t.label = t.after := hstep
    rw [← hnext]
    exact Session.settled_next hstray
  · intro t hstep hbefore hafter hstray
    refine ⟨hafter, fun registers hlabel hunknown => ?_⟩
    rw [hlabel, Stray, not_and_or, not_not, not_not] at hstray
    -- the process has exited before
    have hexited : t.before.process.state = .exited := hbefore.mpr (hstray.resolve_left hunknown)
    have hafter : t.before.next (.syscall registers) = t.after := hlabel ▸ hstep
    rw [← hafter, Session.next, doSyscall_eq, ← hexited]
    exact ⟨rfl, rfl⟩
  · intro t hstep _ hstray hlawful
    have hsettled : (t.before.next t.label).Settled := hstep.symm ▸ hlawful.exited_iff
    exact hstray.not_settled hsettled

/-- Registers of a process that makes a call. -/
def callRegisters (number : ℕ) : Fin 32 → ℕ := Function.update (fun _ => 0) a7 number

/-- A process that has not made a call. -/
def quiet : Session := ⟨fun _ => TrapFrame.zeroed, ⟨0x80400000, .paused⟩, []⟩

/-- The transitions of the process along a list of requests. -/
def sessionRun (requests : List Request) : List (Transition Session Request) :=
  TransitionSystem.follow (fun s l => some (s.next l)) quiet requests

theorem isRun_sessionRun (requests : List Request) : sessions.IsRun quiet (sessionRun requests) :=
  TransitionSystem.isRun_follow (fun _ _ _ h => Option.some.inj h) _ _

/-- A process that runs, and then exits. -/
theorem lawful_iff_exit :
    let run := sessionRun [.switch quiet.frames, .syscall (callRegisters 1)]
    ((∀ t ∈ run, Lawful t) ↔ ∀ t ∈ run, ¬ Stray t.before t.label) ∧
      ∀ (C : Type) (container : C) (frames : Frames) (process : Process),
        (doSyscallAndDropIfExit container frames process).2 = none ↔
          (doSyscallAndDropIfExit container frames process).1.2.state = .exited :=
  lawful_iff ⟨by decide, rfl⟩ (isRun_sessionRun _)

/-- A call with an unknown number exits. -/
theorem not_lawful_unknown :
    let run := sessionRun [.syscall (callRegisters 64)]
    sessions.init quiet ∧ sessions.IsRun quiet run ∧
      (∃ t ∈ run, t.after.process.state = .exited ∧ t.after.calls = [64]) ∧
      ¬ ∀ t ∈ run, Lawful t := by
  intro run
  refine ⟨⟨by decide, rfl⟩, isRun_sessionRun _, ⟨_, List.mem_cons_self, rfl, rfl⟩, fun hlawful => ?_⟩
  have hexited := (hlawful _ List.mem_cons_self).exited_iff
  exact absurd (hexited.mp rfl) (by decide)

-- A switch to a process that has exited revives it.
example : (sessionRun [.syscall (callRegisters 1), .switch quiet.frames]).map
    (fun t => t.after.process.state) = [.exited, .paused] := rfl

end Process

end AsyncKernel
