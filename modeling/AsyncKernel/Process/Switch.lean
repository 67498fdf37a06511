import AsyncKernel.Foundation.Transition
import AsyncKernel.Locks.Spin

/-!
# Switching to a process and back

`Process::switch_to_and_come_back` of `kernel_process` allocates a trap frame, stores the registers
of the kernel there, and switches to the trap frame of the process; `sscratch` points to the trap
frame that a hart has switched to. A trap in the process switches to the frame in `restore_context`,
which is the one that was allocated. It is freed when the call returns, and `sscratch` still points
to it, so that the next frame that is allocated may be there.

A switch and a trap are one step each, up to their `sret`: an interrupt that comes between the
`csrw sie` and the `sret` of `switch_to_supervisor_frame` is not modelled. A freed frame keeps what it
holds until another frame is allocated at its address.

## Main definitions

* `TrapFrame`, `TrapFrame.inheritFrom`: the frames and how they are made
* `Cpu.switchToSupervisorFrame`, `Cpu.trap`: the routines in assembly and `trap_handler`
* `Process.system`: harts that create processes, switch to them and come back
* `Process.Restores`: `sscratch` is what it was before the call, and points to a live frame

## Main results

* `Process.comes_back`: a call returns to its caller with the first trap in the process
* `Process.not_restores`: no call restores `sscratch`
-/

namespace AsyncKernel

/-- A pointer to this struct is placed in `sscratch`. -/
structure TrapFrame where
  generalRegisters : Fin 32 → ℕ
  pc : ℕ
  hartid : ℕ
  pid : ℕ
  interruptStack : ℕ
  flags : ℕ
  satp : ℕ
  kernelSatp : ℕ
  hartLocals : ℕ
  processRawPtr : ℕ
  restoreContext : ℕ
  deriving DecidableEq

namespace TrapFrame

/-- `zeroed`, which is also the default. -/
def zeroed : TrapFrame := ⟨fun _ => 0, 0, 0, 0, 0, 0, 0, 0, 0, 0, 0⟩

/-- `set_interrupt_context`. -/
def setInterruptContext (this : TrapFrame) : TrapFrame := { this with flags := this.flags ||| 1 }

/-- `zeroed_interrupt_context`. -/
def zeroedInterruptContext : TrapFrame := { zeroed with flags := 1 }

/-- `inherit_from`. -/
def inheritFrom (this other : TrapFrame) : TrapFrame := { this with
  hartid := other.hartid
  hartLocals := other.hartLocals
  interruptStack := other.interruptStack
  flags := other.flags
  satp := other.satp }

end TrapFrame

/-! ## The routines in assembly -/

/-- The trap frames by their addresses, whether they are live or have been freed. -/
abbrev Frames : Type := ℕ → TrapFrame

/-- The bits of `sstatus` that traps change. -/
structure Sstatus where
  sie : Bool
  spie : Bool
  spp : Bool
  deriving DecidableEq, Repr

/-- What a hart has in its registers. -/
structure Cpu where
  registers : Fin 32 → ℕ
  pc : ℕ
  sscratch : ℕ
  sepc : ℕ
  satp : ℕ
  sie : ℕ
  sstatus : Sstatus
  deriving DecidableEq

/-- `Registers::Ra`. -/
def ra : Fin 32 := 1

/-- `Registers::Sp`. -/
def sp : Fin 32 := 2

/-- `Registers::A7`. -/
def Process.a7 : Fin 32 := 17

namespace Cpu

variable (cpu : Cpu) (frames : Frames)

/-- `sret`. -/
def sret : Cpu := { cpu with pc := cpu.sepc, sstatus := ⟨cpu.sstatus.spie, true, false⟩ }

/-- `restore_volatile_registers`. -/
def restoreVolatileRegisters : Cpu := { cpu with
  registers := fun i => if i = 0 then 0 else (frames cpu.sscratch).generalRegisters i }

/-- `switch_to_supervisor_frame`. -/
def switchToSupervisorFrame (a : ℕ) : Cpu :=
  let cpu := { cpu with
    sscratch := a
    sepc := (frames a).pc
    satp := (frames a).satp
    sie := 0x222
    sstatus.spp := true }
  (cpu.restoreVolatileRegisters frames).sret

/-- `store_volatile_registers`. -/
def storeVolatileRegisters : Frames := Function.update frames cpu.sscratch
  { frames cpu.sscratch with generalRegisters := cpu.registers }

/-- `s_trap_vector` up to the call of `trap_handler`. -/
def sTrapVector : Cpu × Frames :=
  let frames := cpu.storeVolatileRegisters frames
  let t5 := cpu.sscratch
  let cpu := { cpu with
    satp := (frames t5).kernelSatp
    registers := Function.update cpu.registers sp (frames t5).interruptStack }
  (cpu, Function.update frames t5 { frames t5 with pc := cpu.sepc })

/-- `s_trap_vector` after `trap_handler` has returned. -/
def trapExit : Cpu :=
  let cpu := { cpu with
    sepc := (frames cpu.sscratch).pc
    satp := (frames cpu.sscratch).satp }
  (cpu.restoreVolatileRegisters frames).sret

/-- `trap_handler`, without what it does to the device that has interrupted, and what follows it. -/
def trapHandler : Cpu :=
  let ctx := (frames cpu.sscratch).restoreContext
  if ctx ≠ 0 then cpu.switchToSupervisorFrame frames ctx else cpu.trapExit frames

/-- A trap, up to the `sret` that leaves it. -/
def trap : Cpu × Frames :=
  let cpu := { cpu with sepc := cpu.pc, sstatus := ⟨false, cpu.sstatus.sie, true⟩ }
  let (cpu, frames) := cpu.sTrapVector frames
  (cpu.trapHandler frames, frames)

/-- `store_to_trap_frame_and_run_function` up to the call of the function: it pushes `ra`, and stores
the registers and the address of `.before_return`. -/
def storeToTrapFrame (beforeReturn a : ℕ) : Cpu × Frames :=
  let cpu := { cpu with
    registers := Function.update cpu.registers sp (wrappingSub (cpu.registers sp) 16) }
  (cpu, Function.update frames a
    { frames a with generalRegisters := cpu.registers, pc := beforeReturn })

/-- `.before_return`: it pops the word on the stack to `ra`, and returns there. -/
def beforeReturn (stacked : ℕ) : Cpu := { cpu with
  registers := Function.update (Function.update cpu.registers ra stacked) sp
    (wrappingAdd (cpu.registers sp) 16)
  pc := stacked }

/-- A trap with a context to restore switches to it. -/
theorem trap_of_ne_zero (h : (frames cpu.sscratch).restoreContext ≠ 0) :
    ∃ cpu', (cpu.trap frames).1 = switchToSupervisorFrame cpu' (cpu.trap frames).2
      (frames cpu.sscratch).restoreContext := by
  refine ⟨(sTrapVector { cpu with
    sepc := cpu.pc
    sstatus := ⟨false, cpu.sstatus.sie, true⟩ } frames).1, ?_⟩
  simp [trap, sTrapVector, storeVolatileRegisters, trapHandler, h]

variable {cpu frames}

@[simp] theorem switchToSupervisorFrame_sscratch (a : ℕ) :
    (cpu.switchToSupervisorFrame frames a).sscratch = a := rfl

@[simp] theorem switchToSupervisorFrame_pc (a : ℕ) :
    (cpu.switchToSupervisorFrame frames a).pc = (frames a).pc := rfl

theorem switchToSupervisorFrame_registers (a : ℕ) {r : Fin 32} (hr : r ≠ 0) :
    (cpu.switchToSupervisorFrame frames a).registers r = (frames a).generalRegisters r := if_neg hr

/-- A trap stores the registers and the counter of the program, and leaves the rest of the frames as
it is. -/
theorem trap_frames : (cpu.trap frames).2 = Function.update frames cpu.sscratch
    { frames cpu.sscratch with generalRegisters := cpu.registers, pc := cpu.pc } := by
  simp [trap, sTrapVector, storeVolatileRegisters]

/-- A trap without a context to restore returns to where it came from. -/
theorem trap_of_eq_zero (h : (frames cpu.sscratch).restoreContext = 0) :
    (cpu.trap frames).1.sscratch = cpu.sscratch ∧ (cpu.trap frames).1.pc = cpu.pc := by
  simp [trap, sTrapVector, storeVolatileRegisters, trapHandler, trapExit, restoreVolatileRegisters,
    sret, h]

end Cpu

/-! ## Processes -/

inductive ProcessState
  | running
  | paused
  | exited
  deriving DecidableEq, Repr

/-- A process. Its trap frame is in a `Box`. -/
structure Process where
  trapFrame : ℕ
  state : ProcessState
  deriving DecidableEq, Repr

namespace Process

variable {ι : Type}

/-- A call of `switch_to_and_come_back`. -/
structure Call (ι : Type) where
  process : ι
  /-- `my_trap_frame` -/
  frame : ℕ
  /-- the word that is pushed for `.before_return` -/
  stacked : ℕ
  /-- `sscratch` before the call -/
  before : ℕ
  deriving DecidableEq, Repr

/-- A hart, its `HartLocals` pointer and the call that it is in, if it runs a process. -/
structure Hart (ι : Type) where
  cpu : Cpu
  hartLocals : ℕ
  call : Option (Call ι)
  deriving DecidableEq

/-- The harts that have been set up, the trap frames, the addresses of the live ones, and the
processes. -/
structure State (ι : Type) where
  harts : ℕ → Option (Hart ι)
  frames : Frames
  live : Finset ℕ
  processes : ι → Option Process

/-- What a hart can do. The addresses are those of what it allocates. -/
inductive Label (ι : Type)
  /-- `setup_hart_state_and_metadata` -/
  | setup (cpu : Cpu) (hartLocals frame stack : ℕ)
  /-- `new_supervisor`, with a constructor that leaves the trap frame alone -/
  | newSupervisor (i : ι) (frame stack function : ℕ)
  /-- `switch_to_and_come_back`, up to the first instruction of the process -/
  | switchTo (i : ι) (frame : ℕ)
  /-- instructions of the kernel or of the process, which leave `sscratch` alone -/
  | exec (cpu : Cpu)
  | trap
  deriving DecidableEq

/-- `Box::new` returns an address that is not null and not in use. -/
def State.Fresh (s : State ι) (a : ℕ) : Prop := a ≠ 0 ∧ a ∉ s.live

instance (s : State ι) (a : ℕ) : Decidable (s.Fresh a) := inferInstanceAs (Decidable (_ ∧ _))

/-- `setup_hart_trap_frame`. -/
def setupHartTrapFrame (hartid hartLocals : ℕ) : TrapFrame :=
  let trapFrame := { TrapFrame.zeroed with hartid }
  { trapFrame.setInterruptContext with hartLocals }

/-- The trap frame of `setup_hart_state_and_metadata`. -/
def hartFrame (hartid hartLocals stack satp : ℕ) : TrapFrame :=
  { setupHartTrapFrame hartid hartLocals with
    pid := 1
    interruptStack := stack
    satp
    kernelSatp := satp }

/-- The trap frame of `new_supervisor`, from the one of the hart that calls it. -/
def supervisorFrame (thisFrame : TrapFrame) (stack function : ℕ) : TrapFrame :=
  { TrapFrame.zeroed with
    generalRegisters := Function.update TrapFrame.zeroed.generalRegisters sp stack
    pc := function
    satp := thisFrame.satp
    kernelSatp := thisFrame.satp
    interruptStack := thisFrame.interruptStack }

/-- `my_trap_frame` of `switch_to_and_come_back`, when it has inherited from another frame. -/
def myTrapFrame (other : TrapFrame) (satp : ℕ) : TrapFrame :=
  { TrapFrame.zeroedInterruptContext.inheritFrom other with
    satp
    kernelSatp := satp }

/-- The frames after `new_supervisor`: the new one is at `frame`, and it is zeroed before the one that
`sscratch` points to is read. -/
def createSupervisor (frames : Frames) (sscratch frame stack function : ℕ) : Frames :=
  let frames := Function.update frames frame TrapFrame.zeroed
  Function.update frames frame (supervisorFrame (frames sscratch) stack function)

theorem createSupervisor_eq (frames : Frames) (sscratch frame stack function : ℕ) :
    createSupervisor frames sscratch frame stack function = Function.update frames frame
      (supervisorFrame (Function.update frames frame TrapFrame.zeroed sscratch) stack function) :=
  Function.update_idem ..

theorem createSupervisor_of_ne (frames : Frames) (sscratch stack function : ℕ) {frame a : ℕ}
    (h : a ≠ frame) : createSupervisor frames sscratch frame stack function a = frames a := by
  rw [createSupervisor_eq, Function.update_of_ne h]

theorem createSupervisor_self (frames : Frames) (sscratch frame stack function : ℕ) :
    createSupervisor frames sscratch frame stack function frame =
      supervisorFrame (Function.update frames frame TrapFrame.zeroed sscratch) stack function := by
  rw [createSupervisor_eq, Function.update_self]

variable [DecidableEq ι] (beforeReturn : ℕ)

/-- `switch_to_and_come_back` up to the first instruction of the process, whose frame is at
`trapFrame`: the new frame is at `frame`. -/
def enter (cpu : Cpu) (frames : Frames) (trapFrame frame : ℕ) : Cpu × Frames :=
  let frames := Function.update frames frame TrapFrame.zeroedInterruptContext
  let frames := Function.update frames frame (myTrapFrame (frames cpu.sscratch) cpu.satp)
  let (cpu, frames) := cpu.storeToTrapFrame frames beforeReturn frame
  -- `run`
  let frames := Function.update frames trapFrame { frames trapFrame with restoreContext := frame }
  (cpu.switchToSupervisorFrame frames trapFrame, frames)

/-- What a hart does. Where a hart goes that restores the context of another call, or from a frame
that has been overwritten, is not modelled. -/
def next (s : State ι) : ℕ × Label ι → Option (State ι)
  | (hartid, .setup cpu hartLocals frame stack) =>
    if s.harts hartid = none ∧ hartLocals ≠ 0 ∧ s.Fresh frame then
      some { s with
        harts := Function.update s.harts hartid
          (some ⟨{ cpu with sscratch := frame, sstatus.sie := true }, hartLocals, none⟩)
        frames := Function.update s.frames frame (hartFrame hartid hartLocals stack cpu.satp)
        live := insert frame s.live }
    else none
  | (hartid, .newSupervisor i frame stack function) =>
    match s.harts hartid with
    | none => none
    | some hart =>
      if s.processes i = none ∧ s.Fresh frame then
        some { s with
          frames := createSupervisor s.frames hart.cpu.sscratch frame stack function
          live := insert frame s.live
          processes := Function.update s.processes i (some ⟨frame, .paused⟩) }
      else none
  | (hartid, .switchTo i frame) =>
    match s.harts hartid, s.processes i with
    | some ⟨cpu, hartLocals, none⟩, some process =>
      -- the call has a mutable reference to the process
      if process.state ≠ .running ∧ s.Fresh frame then
        let (cpu', frames) := enter beforeReturn cpu s.frames process.trapFrame frame
        some ⟨Function.update s.harts hartid
            (some ⟨cpu', hartLocals, some ⟨i, frame, cpu.registers ra, cpu.sscratch⟩⟩),
          frames, insert frame s.live,
          Function.update s.processes i (some { process with state := .running })⟩
      else none
    | _, _ => none
  | (hartid, .exec cpu) =>
    match s.harts hartid with
    | none => none
    | some hart => some { s with
        harts := Function.update s.harts hartid
          (some { hart with cpu := { cpu with sscratch := hart.cpu.sscratch } }) }
  | (hartid, .trap) =>
    match s.harts hartid with
    | none => none
    | some hart =>
      let (cpu, frames) := hart.cpu.trap s.frames
      let ctx := (s.frames hart.cpu.sscratch).restoreContext
      if ctx = 0 then
        some { s with harts := Function.update s.harts hartid (some { hart with cpu }), frames }
      else
        match hart.call with
        | none => none
        | some call =>
          if ctx = call.frame ∧ cpu.pc = beforeReturn then
            -- the call returns, and `my_trap_frame` is dropped
            some ⟨Function.update s.harts hartid
                (some ⟨cpu.beforeReturn call.stacked, hart.hartLocals, none⟩),
              frames, s.live.erase call.frame,
              Function.update s.processes call.process
                ((s.processes call.process).map fun process => { process with state := .paused })⟩
          else none

/-- No hart has been set up, and there are no processes. -/
def start (frames : Frames) : State ι := ⟨fun _ => none, frames, ∅, fun _ => none⟩

/-- **Harts that create processes, switch to them and come back.** -/
def system : TransitionSystem (State ι) (ℕ × Label ι) where
  init s := ∃ frames, s = start frames
  step s l s' := next beforeReturn s l = some s'

variable {beforeReturn : ℕ} {s s' : State ι} {hartid : ℕ} {call : Call ι}

/-! ## What a step does -/

/-- What a step can do. -/
inductive Steps (beforeReturn : ℕ) (s : State ι) : ℕ × Label ι → State ι → Prop
  | setup {hartid : ℕ} (cpu : Cpu) {hartLocals frame : ℕ} (stack : ℕ)
      (hlocals : hartLocals ≠ 0) (hfresh : s.Fresh frame) :
    Steps beforeReturn s (hartid, .setup cpu hartLocals frame stack) { s with
      harts := Function.update s.harts hartid
        (some ⟨{ cpu with sscratch := frame, sstatus.sie := true }, hartLocals, none⟩)
      frames := Function.update s.frames frame (hartFrame hartid hartLocals stack cpu.satp)
      live := insert frame s.live }
  | newSupervisor {hartid : ℕ} {hart : Hart ι} {i : ι} {frame : ℕ} (stack function : ℕ)
      (hhart : s.harts hartid = some hart) (hfresh : s.Fresh frame) :
    Steps beforeReturn s (hartid, .newSupervisor i frame stack function) { s with
      frames := createSupervisor s.frames hart.cpu.sscratch frame stack function
      live := insert frame s.live
      processes := Function.update s.processes i (some ⟨frame, .paused⟩) }
  | switchTo {hartid : ℕ} {cpu : Cpu} {hartLocals : ℕ} {i : ι} {process : Process} {frame : ℕ}
      (hhart : s.harts hartid = some ⟨cpu, hartLocals, none⟩)
      (hprocess : s.processes i = some process) (hfresh : s.Fresh frame) :
    Steps beforeReturn s (hartid, .switchTo i frame)
      ⟨Function.update s.harts hartid
          (some ⟨(enter beforeReturn cpu s.frames process.trapFrame frame).1, hartLocals,
            some ⟨i, frame, cpu.registers ra, cpu.sscratch⟩⟩),
        (enter beforeReturn cpu s.frames process.trapFrame frame).2, insert frame s.live,
        Function.update s.processes i (some { process with state := .running })⟩
  | exec {hartid : ℕ} {hart : Hart ι} (cpu : Cpu) (hhart : s.harts hartid = some hart) :
    Steps beforeReturn s (hartid, .exec cpu) { s with
      harts := Function.update s.harts hartid
        (some { hart with cpu := { cpu with sscratch := hart.cpu.sscratch } }) }
  | handled {hartid : ℕ} {hart : Hart ι} (hhart : s.harts hartid = some hart)
      (hctx : (s.frames hart.cpu.sscratch).restoreContext = 0) :
    Steps beforeReturn s (hartid, .trap) { s with
      harts := Function.update s.harts hartid
        (some { hart with cpu := (hart.cpu.trap s.frames).1 })
      frames := (hart.cpu.trap s.frames).2 }
  | returns {hartid : ℕ} {hart : Hart ι} {call : Call ι} (hhart : s.harts hartid = some hart)
      (hcall : hart.call = some call) (hnull : call.frame ≠ 0)
      (hctx : (s.frames hart.cpu.sscratch).restoreContext = call.frame) :
    Steps beforeReturn s (hartid, .trap)
      ⟨Function.update s.harts hartid
          (some ⟨(hart.cpu.trap s.frames).1.beforeReturn call.stacked, hart.hartLocals, none⟩),
        (hart.cpu.trap s.frames).2, s.live.erase call.frame,
        Function.update s.processes call.process
          ((s.processes call.process).map fun process => { process with state := .paused })⟩

theorem steps_of_next {l : ℕ × Label ι} (h : next beforeReturn s l = some s') :
    Steps beforeReturn s l s' := by
  obtain ⟨hartid, l⟩ := l
  cases l with
  | setup cpu hartLocals frame stack =>
    simp only [next] at h
    split at h
    · rename_i hsetup
      obtain rfl := Option.some.inj h
      exact .setup cpu stack hsetup.2.1 hsetup.2.2
    · cases h
  | newSupervisor i frame stack function =>
    simp only [next] at h
    split at h
    · cases h
    · rename_i hart hhart
      split at h
      · rename_i hnew
        obtain rfl := Option.some.inj h
        exact .newSupervisor stack function hhart hnew.2
      · cases h
  | switchTo i frame =>
    simp only [next] at h
    split at h
    · rename_i cpu hartLocals process hhart hprocess
      split at h
      · rename_i hswitch
        obtain rfl := Option.some.inj h
        exact .switchTo hhart hprocess hswitch.2
      · cases h
    · cases h
  | exec cpu =>
    simp only [next] at h
    split at h
    · cases h
    · rename_i hart hhart
      obtain rfl := Option.some.inj h
      exact .exec cpu hhart
  | trap =>
    simp only [next] at h
    split at h
    · cases h
    · rename_i hart hhart
      split at h
      · rename_i hctx
        obtain rfl := Option.some.inj h
        exact .handled hhart hctx
      · rename_i hctx
        split at h
        · cases h
        · rename_i call hcall
          split at h
          · rename_i hreturn
            obtain rfl := Option.some.inj h
            exact .returns hhart hcall (hreturn.1 ▸ hctx) hreturn.1
          · cases h

/-! ## Coming back -/

/-- A hart comes back from a call: the step ends in the kernel, and has started in a process. -/
def Returns (hartid : ℕ) (call : Call ι) (t : Transition (State ι) (ℕ × Label ι)) : Prop :=
  t.label = (hartid, .trap) ∧ (∃ hart ∈ t.before.harts hartid, hart.call = some call) ∧
    ∃ hart ∈ t.after.harts hartid, hart.call = none

/-- `sscratch` is what it was before the call, and points to a live frame. -/
def Restores (hartid : ℕ) (call : Call ι) (s : State ι) : Prop :=
  ∃ hart ∈ s.harts hartid, hart.cpu.sscratch = call.before ∧ hart.cpu.sscratch ∈ s.live

instance (hartid : ℕ) (call : Call ι) (t : Transition (State ι) (ℕ × Label ι)) :
    Decidable (Returns hartid call t) := inferInstanceAs (Decidable (_ ∧ _ ∧ _))

instance (hartid : ℕ) (call : Call ι) (s : State ι) : Decidable (Restores hartid call s) :=
  inferInstanceAs (Decidable (∃ hart ∈ s.harts hartid, _))

/-- After a call `sscratch` points to the frame that the call has allocated and freed. -/
theorem sscratch_of_returns {t : Transition (State ι) (ℕ × Label ι)}
    (h : next beforeReturn t.before t.label = some t.after) (hreturns : Returns hartid call t) :
    call.frame ∉ t.after.live ∧
      ∀ hart ∈ t.after.harts hartid, hart.cpu.sscratch = call.frame := by
  obtain ⟨before, label, after⟩ := t
  obtain ⟨rfl, ⟨hart, hhart, hcall⟩, hart', hhart', hcall'⟩ := hreturns
  dsimp only at h hhart hhart' ⊢
  cases steps_of_next h with
  | handled hhart₁ hctx =>
    -- a trap that does not restore a context stays in the process
    obtain rfl := Option.some.inj (hhart₁.symm.trans hhart)
    simp only [Function.update_self, Option.mem_some_iff] at hhart'
    subst hhart'
    cases hcall.symm.trans hcall'
  | returns hhart₁ hcall₁ hnull hctx =>
    obtain rfl := Option.some.inj (hhart₁.symm.trans hhart)
    obtain rfl := Option.some.inj (hcall₁.symm.trans hcall)
    refine ⟨Finset.notMem_erase _ _, fun hart₂ hhart₂ => ?_⟩
    simp only [Function.update_self, Option.mem_some_iff] at hhart₂
    subst hhart₂
    obtain ⟨cpu, hcpu⟩ := Cpu.trap_of_ne_zero _ _ (hctx ▸ hnull)
    rw [Cpu.beforeReturn, hcpu, Cpu.switchToSupervisorFrame_sscratch]
    exact hctx

/-- What `enter` has written to the frame of the process. -/
theorem enter_frames_self {cpu : Cpu} {frames : Frames} {trapFrame frame : ℕ}
    (h : trapFrame ≠ frame) : (enter beforeReturn cpu frames trapFrame frame).2 trapFrame =
      { frames trapFrame with restoreContext := frame } := by
  simp [enter, Cpu.storeToTrapFrame, h]

/-- What `enter` has stored of the kernel. -/
theorem enter_frames_frame {cpu : Cpu} {frames : Frames} {trapFrame frame : ℕ}
    (h : trapFrame ≠ frame) : ((enter beforeReturn cpu frames trapFrame frame).2 frame).pc =
        beforeReturn ∧
      ((enter beforeReturn cpu frames trapFrame frame).2 frame).generalRegisters =
        Function.update cpu.registers sp (wrappingSub (cpu.registers sp) 16) := by
  simp [enter, Cpu.storeToTrapFrame, h.symm]

/-- The registers of the kernel after the way through `.before_return`. -/
theorem beforeReturn_registers {cpu cpu' : Cpu} (hsp : cpu.registers sp < usizeCard)
    (h : ∀ r, r ≠ 0 → cpu'.registers r =
      Function.update cpu.registers sp (wrappingSub (cpu.registers sp) 16) r) :
    ∀ r, r ≠ 0 → (cpu'.beforeReturn (cpu.registers ra)).registers r = cpu.registers r := by
  intro r hr
  by_cases hrsp : r = sp
  · subst hrsp
    have hpopped : wrappingAdd (wrappingSub (cpu.registers sp) 16) 16 = cpu.registers sp := by
      simp only [wrappingAdd, wrappingSub, usizeCard] at hsp ⊢
      omega
    simp [Cpu.beforeReturn, h sp (by decide), hpopped]
  · by_cases hrra : r = ra
    · subst hrra
      simp [Cpu.beforeReturn, hrsp]
    · simp [Cpu.beforeReturn, hrsp, hrra, h r hr]

theorem next_switchTo (beforeReturn : ℕ) {cpu : Cpu} {hartLocals : ℕ} {i : ι} {process : Process}
    {frame : ℕ} (hhart : s.harts hartid = some ⟨cpu, hartLocals, none⟩)
    (hprocess : s.processes i = some process)
    (hstate : process.state ≠ .running) (hfresh : s.Fresh frame) :
    next beforeReturn s (hartid, .switchTo i frame) = some
      ⟨Function.update s.harts hartid
          (some ⟨(enter beforeReturn cpu s.frames process.trapFrame frame).1, hartLocals,
            some ⟨i, frame, cpu.registers ra, cpu.sscratch⟩⟩),
        (enter beforeReturn cpu s.frames process.trapFrame frame).2, insert frame s.live,
        Function.update s.processes i (some { process with state := .running })⟩ := by
  simp [next, hhart, hprocess, hstate, hfresh]

theorem next_exec (beforeReturn : ℕ) {hart : Hart ι} (hhart : s.harts hartid = some hart)
    (cpu : Cpu) :
    next beforeReturn s (hartid, .exec cpu) = some { s with
      harts := Function.update s.harts hartid
        (some { hart with cpu := { cpu with sscratch := hart.cpu.sscratch } }) } := by
  simp [next, hhart]

/-- The trap with which a call returns. -/
theorem next_trap {hart : Hart ι} (hhart : s.harts hartid = some hart) (hcall : hart.call = some call)
    (hctx : (s.frames hart.cpu.sscratch).restoreContext = call.frame) (hnull : call.frame ≠ 0)
    (hpc : (hart.cpu.trap s.frames).1.pc = beforeReturn) :
    next beforeReturn s (hartid, .trap) = some
      ⟨Function.update s.harts hartid
          (some ⟨(hart.cpu.trap s.frames).1.beforeReturn call.stacked, hart.hartLocals, none⟩),
        (hart.cpu.trap s.frames).2, s.live.erase call.frame,
        Function.update s.processes call.process
          ((s.processes call.process).map fun process => { process with state := .paused })⟩ := by
  simp [next, hhart, hcall, hctx, hnull, hpc]

/-- A trap in a process that `enter` has switched to restores the kernel. -/
theorem trap_enter (beforeReturn : ℕ) (cpu : Cpu) (frames : Frames) {trapFrame frame : ℕ}
    (hne : trapFrame ≠ frame) (hnull : frame ≠ 0) (cpu₁ : Cpu) :
    ∃ cpu₂ frames₂, (Cpu.trap { cpu₁ with sscratch := trapFrame }
        (enter beforeReturn cpu frames trapFrame frame).2).1 =
        Cpu.switchToSupervisorFrame cpu₂ frames₂ frame ∧
      (frames₂ frame).pc = beforeReturn ∧
      (frames₂ frame).generalRegisters =
        Function.update cpu.registers sp (wrappingSub (cpu.registers sp) 16) := by
  have hctx : ((enter beforeReturn cpu frames trapFrame frame).2 trapFrame).restoreContext = frame :=
    by rw [enter_frames_self hne]
  obtain ⟨cpu₂, hcpu₂⟩ := Cpu.trap_of_ne_zero { cpu₁ with sscratch := trapFrame }
    (enter beforeReturn cpu frames trapFrame frame).2 (by rwa [hctx])
  rw [hctx] at hcpu₂
  refine ⟨cpu₂, _, hcpu₂, ?_⟩
  -- the trap writes to the frame of the process
  rw [Cpu.trap_frames, Function.update_of_ne hne.symm]
  exact enter_frames_frame hne

/-- **A call comes back.** A hart in the kernel that calls `switch_to_and_come_back` runs the process,
with any instructions, until the first trap; then it is back behind the call of
`store_to_trap_frame_and_run_function`, with the registers that this one has stored, and `sscratch`
points to the frame that has been allocated and freed. What the Rust code around it does to the
registers that a caller saves is not modelled. -/
theorem comes_back {cpu : Cpu} {hartLocals : ℕ} {i : ι} {process : Process} {frame : ℕ}
    (hhart : s.harts hartid = some ⟨cpu, hartLocals, none⟩) (hprocess : s.processes i = some process)
    (hstate : process.state ≠ .running) (hlive : process.trapFrame ∈ s.live) (hfresh : s.Fresh frame)
    (hsp : cpu.registers sp < usizeCard) (cpu₁ : Cpu) :
    ∃ s₁ s₂ s₃ cpu', next beforeReturn s (hartid, .switchTo i frame) = some s₁ ∧
      next beforeReturn s₁ (hartid, .exec cpu₁) = some s₂ ∧
      next beforeReturn s₂ (hartid, .trap) = some s₃ ∧
      s₃.harts hartid = some ⟨cpu', hartLocals, none⟩ ∧ s₃.live = s.live ∧
      cpu'.pc = cpu.registers ra ∧ (∀ r, r ≠ 0 → cpu'.registers r = cpu.registers r) ∧
      cpu'.sscratch = frame := by
  have hne : process.trapFrame ≠ frame := by
    rintro rfl
    exact hfresh.2 hlive
  obtain ⟨cpu₂, frames₂, htrap, hpc, hregisters⟩ :=
    trap_enter beforeReturn cpu s.frames hne hfresh.1 cpu₁
  refine ⟨_, _, _, _, next_switchTo beforeReturn hhart hprocess hstate hfresh,
    next_exec beforeReturn (Function.update_self ..) cpu₁,
    next_trap (Function.update_self ..) rfl ?_ hfresh.1 ?_, Function.update_self .., ?_, rfl, ?_, ?_⟩
  · exact congrArg TrapFrame.restoreContext (enter_frames_self hne)
  · exact (congrArg Cpu.pc htrap).trans hpc
  · exact Finset.erase_insert hfresh.2
  · refine beforeReturn_registers hsp fun r hr => ?_
    calc (Cpu.trap _ _).1.registers r
      _ = (cpu₂.switchToSupervisorFrame frames₂ frame).registers r :=
        congrFun (congrArg Cpu.registers htrap) r
      _ = (frames₂ frame).generalRegisters r := Cpu.switchToSupervisorFrame_registers frame hr
      _ = _ := congrFun hregisters r
  · exact congrArg Cpu.sscratch htrap

/-- **No call restores `sscratch`.** Whatever the harts have done, when a call returns `sscratch` is
not what it was before, or points to a frame that is not live. -/
theorem not_restores {run : List (Transition (State ι) (ℕ × Label ι))}
    (h : (system beforeReturn).IsRun s run) :
    ∀ t ∈ run, ∀ hartid call, Returns hartid call t → ¬ Restores hartid call t.after := by
  rintro t ht hartid call hreturns ⟨hart, hhart, -, hlive⟩
  obtain ⟨hfreed, hsscratch⟩ := sscratch_of_returns (h.step ht) hreturns
  rw [hsscratch hart hhart] at hlive
  exact hfreed hlive

/-- The transitions along a list of labels, when there are no harts and processes yet. -/
def startRun (labels : List (ℕ × Label Unit)) :
    List (Transition (State Unit) (ℕ × Label Unit)) :=
  TransitionSystem.follow (next 0x80) (start fun _ => TrapFrame.zeroed) labels

theorem isRun_startRun (labels : List (ℕ × Label Unit)) :
    (system 0x80).IsRun (start fun _ => TrapFrame.zeroed) (startRun labels) :=
  TransitionSystem.isRun_follow (fun _ _ _ h => h) _ _

/-- What a hart has in its registers when it starts. -/
def bootCpu : Cpu := ⟨fun _ => 0, 0, 0, 0, 0, 0, ⟨false, false, false⟩⟩

/-- A hart creates a process, switches to it, and takes a trap there. -/
def switchAndTrap : List (ℕ × Label Unit) :=
  [(3, .setup bootCpu 0x1000 0x2000 0x3000), (3, .newSupervisor () 0x4000 0x5000 0x6000),
    (3, .switchTo () 0x7000), (3, .exec bootCpu), (3, .trap)]

/-- The hart comes back from the call. -/
theorem not_restores_switchAndTrap :
    let run := startRun switchAndTrap
    (∃ t ∈ run, Returns 3 ⟨(), 0x7000, 0, 0x2000⟩ t) ∧
      ∀ t ∈ run, ∀ hartid call, Returns hartid call t → ¬ Restores hartid call t.after := by
  intro run
  have hreturns : ∃ t ∈ run, Returns 3 ⟨(), 0x7000, 0, 0x2000⟩ t := by decide
  exact ⟨hreturns, not_restores (isRun_startRun _)⟩

/-- `sscratch` of the hart was 0x2000 before the call, and is 0x7000 afterwards, where nothing is
live. -/
theorem sscratch_dangles :
    let run := startRun switchAndTrap
    (system 0x80).IsRun (start fun _ => TrapFrame.zeroed) run ∧
      (∃ t ∈ run, Returns 3 ⟨(), 0x7000, 0, 0x2000⟩ t ∧
        (∃ hart ∈ t.after.harts 3, hart.cpu.sscratch = 0x7000) ∧ 0x7000 ∉ t.after.live) ∧
      ¬ ∀ t ∈ run, ∀ hartid call, Returns hartid call t → Restores hartid call t.after := by
  intro run
  have hdangles : ∃ t ∈ run, Returns 3 ⟨(), 0x7000, 0, 0x2000⟩ t ∧
      (∃ hart ∈ t.after.harts 3, hart.cpu.sscratch = 0x7000) ∧ 0x7000 ∉ t.after.live := by decide
  refine ⟨isRun_startRun _, hdangles, fun hrestores => ?_⟩
  obtain ⟨t, ht, hreturns, ⟨hart, hhart, hsscratch⟩, hfreed⟩ := hdangles
  obtain ⟨hart', hhart', -, hlive⟩ := hrestores t ht 3 _ hreturns
  obtain rfl := Option.some.inj (hhart.symm.trans hhart')
  rw [hsscratch] at hlive
  exact hfreed hlive

end Process

end AsyncKernel
