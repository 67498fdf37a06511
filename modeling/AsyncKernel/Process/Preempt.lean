import AsyncKernel.Process.Switch

/-!
# The timer that takes a process off its hart

The task of a hart sets the timer, prints a line and switches to a process, over and over
(`common_hart_code`). `trap_handler` makes the interrupt that it handles nonpending: for the timer it
asks for an interrupt at `u64::MAX`, which never comes. So an interrupt of the timer that a hart takes
before it has switched is gone for the process, which then keeps the hart for as long as nothing else
interrupts it.

The firmware is a parameter. What its specification says of the timer is `Firmware.IsTimer`: a call
clears what is pending, the timer becomes pending some time after the deadline, and a deadline of
`u64::MAX` is infinitely far away. A hart takes any interrupt that is enabled and pending, between any
two of its steps. The switch to the process and the way back to the kernel are one step each:
interrupts between the `csrw sie` and the `sret` of `switch_to_supervisor_frame` are not modelled.

## Main definitions

* `Preempt.Firmware`, `Preempt.Firmware.IsTimer`: the timer of a firmware
* `Preempt.Sources.trapHandler`: what `trap_handler` does to the sources of interrupts
* `Preempt.system`: a hart that sets its timer and switches to a process
* `Preempt.Armed`: the timer is pending, or has a deadline

## Main results

* `Preempt.comes_back_iff`: when the timer takes a process off its hart
* `Preempt.handled_once`: no interrupt of the timer, and no software interrupt, is handled twice
-/

namespace AsyncKernel

/-- `u64::MAX`. -/
def u64Max : ℕ := 2 ^ 64 - 1

/-- `saturating_add`. -/
def saturatingAdd (a b : ℕ) : ℕ := min (a + b) u64Max

namespace Preempt

/-- The interrupts of the supervisor. -/
inductive Cause
  | software
  | timer
  | external
  deriving DecidableEq, Repr

/-- `SUPERVISOR_SOFTWARE`, `SUPERVISOR_TIMER` and `SUPERVISOR_EXTERNAL`. -/
def Cause.code : Cause → ℕ
  | .software => 1
  | .timer => 5
  | .external => 9

/-- What `scause` holds after an interrupt. -/
def Cause.scause (cause : Cause) : BitVec 64 := BitVec.ofNat 64 (2 ^ 63 + cause.code)

theorem Cause.scause_injective : Function.Injective Cause.scause := by
  intro cause cause' heq
  cases cause <;> cases cause' <;> first | rfl | exact absurd heq (by decide)

/-- The timer of the firmware: what `sbi_set_timer` makes of its state and of `STIP`, and what it does
when it sets `STIP`, at a time of the clock. -/
structure Firmware (φ : Type) where
  setTimer : φ → Bool → ℕ → φ × Bool
  fire : φ → ℕ → Option φ

/-- What the specification says of the timer, when its states have these deadlines. -/
structure Firmware.IsTimer {φ : Type} (F : Firmware φ) (deadline : φ → ℕ) : Prop where
  /-- A call clears the interrupt. -/
  clears : ∀ f stip time, (F.setTimer f stip time).2 = false
  programs : ∀ f stip time, deadline (F.setTimer f stip time).1 = time
  /-- `u64::MAX` is infinitely far in the future. -/
  never : ∀ f now, deadline f = u64Max → F.fire f now = none
  early : ∀ f now, now < deadline f → F.fire f now = none
  late : ∀ f now, deadline f ≠ u64Max → deadline f ≤ now → (F.fire f now).isSome = true

/-- The clock, the state of the firmware, and the bits `SSIP`, `STIP` and `SEIP`. -/
structure Sources (φ : Type) where
  time : ℕ
  firmware : φ
  ssip : Bool
  stip : Bool
  seip : Bool
  deriving DecidableEq, Repr

/-- `XCAUSE_DESCRIPTION`. -/
def xcauseDescription : List String :=
  ["Instruction address misaligned", "Instruction access fault", "Illegal instruction",
    "Breakpoint", "Load address misaligned", "Load access fault", "Store/AMO address misaligned",
    "Store/AMO access fault", "Enviornment call from U-mode", "Enviornment call from S-mode",
    "<Reserved>", "Enviornment call from M-mode", "Instruction page fault", "Load page fault",
    "<Reserved>", "Store/AMO page fault"]

variable {φ : Type} (F : Firmware φ)

namespace Sources

/-- `set_absolute_timer`. -/
def setAbsoluteTimer (s : Sources φ) (time : ℕ) : Sources φ :=
  let (firmware, stip) := F.setTimer s.firmware s.stip time
  { s with firmware, stip }

/-- `make_interrupt_nonpending`. -/
def makeInterruptNonpending (s : Sources φ) (cause : ℕ) : Sources φ :=
  if cause = Cause.timer.code then s.setAbsoluteTimer F u64Max
  else if cause = Cause.software.code then { s with ssip := false }
  -- `SUPERVISOR_EXTERNAL => {}`, and a line is printed for an unknown cause
  else s

/-- `is_interrupt` of `trap_handler`. -/
def isInterrupt (scause : BitVec 64) : Bool := scause >>> 63 != 0

/-- `cause` of `trap_handler`. -/
def causeOf (scause : BitVec 64) : ℕ := (scause <<< 1 >>> 1).toNat

/-- `trap_handler`, up to the choice of the context. It panics at an exception without a
description. -/
def trapHandler (s : Sources φ) (scause : BitVec 64) : Option (Sources φ) :=
  if isInterrupt scause then some (s.makeInterruptNonpending F (causeOf scause))
  else xcauseDescription[causeOf scause]?.map fun _ => s

end Sources

/-! ## A hart -/

/-- Where the hart is in the loop of `common_hart_code`. -/
inductive Place
  /-- before `read_time` in `set_relative_timer` -/
  | readTime
  /-- before the call of the firmware, with the time that has been read -/
  | setTimer (time : ℕ)
  /-- up to the `sret` of `switch_to_and_come_back` -/
  | switchTo
  | process
  deriving DecidableEq, Repr

/-- A hart, and the trap that it handles. -/
structure Hart (φ : Type) where
  place : Place
  scause : Option (BitVec 64)
  sstatus : Sstatus
  sie : ℕ
  sources : Sources φ
  deriving DecidableEq, Repr

inductive Label
  /-- the next statement of the loop -/
  | step
  /-- an instruction of the kernel or of the process that writes `sstatus`, `sie` or `sip` -/
  | exec (enable : Bool) (sie : ℕ) (ssip : Bool)
  | trap (cause : Cause)
  | exception (scause : BitVec 64)
  /-- `trap_handler`, and the way back -/
  | handle
  | tick (n : ℕ)
  /-- the timer becomes pending -/
  | fire
  /-- another hart sets `SSIP` -/
  | software
  | external (pending : Bool)
  deriving DecidableEq, Repr

namespace Hart

variable (h : Hart φ)

/-- The bit of `sip` for an interrupt. -/
def pending : Cause → Bool
  | .software => h.sources.ssip
  | .timer => h.sources.stip
  | .external => h.sources.seip

/-- The hart takes an interrupt that is pending and enabled. -/
def Takes (cause : Cause) : Prop :=
  h.sstatus.sie = true ∧ h.sie.testBit cause.code = true ∧ h.pending cause = true

instance (cause : Cause) : Decidable (h.Takes cause) := inferInstanceAs (Decidable (_ ∧ _ ∧ _))

/-- The loop of `common_hart_code`. -/
def advance : Option (Hart φ) :=
  match h.place with
  | .readTime => some { h with place := .setTimer h.sources.time }
  | .setTimer time => some { h with
      place := .switchTo
      sources := h.sources.setAbsoluteTimer F (saturatingAdd time 0x1000000) }
  | .switchTo => some { h with
      place := .process
      sie := 0x222
      sstatus := ⟨h.sstatus.spie, true, false⟩ }
  | .process => none

/-- What the hart does on a trap. -/
def enterTrap (scause : BitVec 64) : Hart φ :=
  { h with scause := some scause, sstatus := ⟨false, h.sstatus.sie, true⟩ }

/-- The way back from `trap_handler`. The frame of a process has a context to restore, the kernel,
and the frame that the kernel runs with has none. -/
def leaveTrap (sources : Sources φ) : Hart φ where
  place := if h.place = .process then .readTime else h.place
  scause := none
  sstatus := ⟨h.sstatus.spie, true, false⟩
  sie := if h.place = .process then 0x222 else h.sie
  sources := sources

end Hart

/-- What happens on a hart. A panic is no step. -/
def next (h : Hart φ) : Label → Option (Hart φ)
  | .step => if h.scause = none then h.advance F else none
  | .exec enable sie ssip =>
    if h.scause = none then
      some { h with sstatus.sie := enable, sie := sie, sources.ssip := ssip }
    else none
  | .trap cause =>
    if h.scause = none ∧ h.Takes cause then some (h.enterTrap cause.scause) else none
  | .exception scause =>
    if h.scause = none ∧ Sources.isInterrupt scause = false then some (h.enterTrap scause) else none
  | .handle => h.scause.bind fun scause => (h.sources.trapHandler F scause).map h.leaveTrap
  | .tick n => some { h with sources.time := h.sources.time + n }
  | .fire =>
    (F.fire h.sources.firmware h.sources.time).map fun firmware =>
      { h with sources.firmware := firmware, sources.stip := true }
  | .software => some { h with sources.ssip := true }
  | .external pending => some { h with sources.seip := pending }

/-- **A hart that sets its timer and switches to a process**, over and over. -/
def system : TransitionSystem (Hart φ) Label where
  init h := h.place = .readTime ∧ h.scause = none
  step h l h' := next F h l = some h'

/-! ## What a step does -/

/-- What a step can do. -/
inductive Steps (h : Hart φ) : Label → Hart φ → Prop
  | readTime (hplace : h.place = .readTime) :
    Steps h .step { h with place := .setTimer h.sources.time }
  | setTimer {time deadline : ℕ} (hplace : h.place = .setTimer time)
      (hdeadline : deadline = saturatingAdd time 0x1000000) : Steps h .step { h with
      place := .switchTo
      sources := h.sources.setAbsoluteTimer F deadline }
  | switchTo (hplace : h.place = .switchTo) : Steps h .step { h with
      place := .process
      sie := 0x222
      sstatus := ⟨h.sstatus.spie, true, false⟩ }
  | exec (enable : Bool) (sie : ℕ) (ssip : Bool) : Steps h (.exec enable sie ssip)
      { h with sstatus.sie := enable, sie := sie, sources.ssip := ssip }
  | trap (cause : Cause) (hpending : h.pending cause = true) :
    Steps h (.trap cause) (h.enterTrap cause.scause)
  | exception (scause : BitVec 64) (hscause : Sources.isInterrupt scause = false) :
    Steps h (.exception scause) (h.enterTrap scause)
  | handle {scause : BitVec 64} {sources : Sources φ} (hscause : h.scause = some scause)
      (hsources : h.sources.trapHandler F scause = some sources) :
    Steps h .handle (h.leaveTrap sources)
  | tick (n : ℕ) : Steps h (.tick n) { h with sources.time := h.sources.time + n }
  | fire {firmware : φ} (hfire : F.fire h.sources.firmware h.sources.time = some firmware) :
    Steps h .fire { h with sources.firmware := firmware, sources.stip := true }
  | software : Steps h .software { h with sources.ssip := true }
  | external (pending : Bool) : Steps h (.external pending) { h with sources.seip := pending }

variable {F} {h h' : Hart φ} {l : Label}

theorem steps_of_next (hstep : next F h l = some h') : Steps F h l h' := by
  cases l with
  | step =>
    obtain ⟨-, hadvance⟩ := Option.ite_none_right_eq_some.mp hstep
    cases hplace : h.place with
    | readTime =>
      simp only [Hart.advance, hplace] at hadvance
      exact Option.some.inj hadvance ▸ .readTime hplace
    | setTimer time =>
      simp only [Hart.advance, hplace] at hadvance
      exact Option.some.inj hadvance ▸ .setTimer hplace rfl
    | switchTo =>
      simp only [Hart.advance, hplace] at hadvance
      exact Option.some.inj hadvance ▸ .switchTo hplace
    | process =>
      simp only [Hart.advance, hplace] at hadvance
      cases hadvance
  | exec enable sie ssip =>
    obtain ⟨-, hexec⟩ := Option.ite_none_right_eq_some.mp hstep
    exact Option.some.inj hexec ▸ .exec enable sie ssip
  | trap cause =>
    obtain ⟨⟨-, -, -, hpending⟩, htrap⟩ := Option.ite_none_right_eq_some.mp hstep
    exact Option.some.inj htrap ▸ .trap cause hpending
  | exception scause =>
    obtain ⟨⟨-, hscause⟩, htrap⟩ := Option.ite_none_right_eq_some.mp hstep
    exact Option.some.inj htrap ▸ .exception scause hscause
  | handle =>
    obtain ⟨scause, hscause, hmap⟩ := Option.bind_eq_some_iff.mp hstep
    obtain ⟨sources, hsources, rfl⟩ := Option.map_eq_some_iff.mp hmap
    exact .handle hscause hsources
  | tick n => exact Option.some.inj hstep ▸ .tick n
  | fire =>
    obtain ⟨firmware, hfire, rfl⟩ := Option.map_eq_some_iff.mp hstep
    exact .fire hfire
  | software => exact Option.some.inj hstep ▸ .software
  | external pending => exact Option.some.inj hstep ▸ .external pending

/-- What `scause` holds after an interrupt, from the code that `trap_handler` finds in it. -/
theorem eq_of_isInterrupt {scause : BitVec 64} (hinterrupt : Sources.isInterrupt scause = true)
    {cause : Cause} (hcause : Sources.causeOf scause = cause.code) : scause = cause.scause := by
  have hhigh : scause.toNat / 2 ^ 63 ≠ 0 := by
    intro hzero
    have hshift : scause >>> 63 = 0#64 := BitVec.eq_of_toNat_eq (by
      rw [BitVec.toNat_ushiftRight, Nat.shiftRight_eq_div_pow, hzero]
      rfl)
    rw [Sources.isInterrupt, hshift] at hinterrupt
    cases hinterrupt
  have hlow : scause.toNat * 2 % 2 ^ 64 / 2 = cause.code := by
    rw [← hcause, Sources.causeOf, BitVec.toNat_ushiftRight, BitVec.toNat_shiftLeft,
      Nat.shiftRight_eq_div_pow, Nat.shiftLeft_eq]
  have hlt := scause.isLt
  refine BitVec.eq_of_toNat_eq ?_
  rw [Cause.scause, BitVec.toNat_ofNat]
  omega

/-- **What `trap_handler` does to the sources**: it disarms the timer after an interrupt of the timer,
and clears `SSIP` after a software interrupt. -/
theorem Sources.trapHandler_cases {s s' : Sources φ} {scause : BitVec 64}
    (hhandler : s.trapHandler F scause = some s') :
    (scause = Cause.timer.scause ∧ s' = s.setAbsoluteTimer F u64Max) ∨
      (scause = Cause.software.scause ∧ s' = { s with ssip := false }) ∨
      (scause ≠ Cause.timer.scause ∧ scause ≠ Cause.software.scause ∧ s' = s) := by
  rw [trapHandler] at hhandler
  by_cases hinterrupt : isInterrupt scause = true
  · rw [if_pos hinterrupt, makeInterruptNonpending] at hhandler
    by_cases htimer : causeOf scause = Cause.timer.code
    · rw [if_pos htimer] at hhandler
      exact Or.inl ⟨eq_of_isInterrupt hinterrupt htimer, (Option.some.inj hhandler).symm⟩
    · rw [if_neg htimer] at hhandler
      by_cases hsoftware : causeOf scause = Cause.software.code
      · rw [if_pos hsoftware] at hhandler
        exact Or.inr (Or.inl
          ⟨eq_of_isInterrupt hinterrupt hsoftware, (Option.some.inj hhandler).symm⟩)
      · rw [if_neg hsoftware] at hhandler
        refine Or.inr (Or.inr ⟨?_, ?_, (Option.some.inj hhandler).symm⟩)
        · rintro rfl
          exact htimer rfl
        · rintro rfl
          exact hsoftware rfl
  · rw [if_neg hinterrupt] at hhandler
    obtain ⟨-, -, rfl⟩ := Option.map_eq_some_iff.mp hhandler
    refine Or.inr (Or.inr ⟨?_, ?_, rfl⟩)
    · rintro rfl
      exact hinterrupt rfl
    · rintro rfl
      exact hinterrupt rfl

/-- The clock does not go back. -/
theorem time_le (hstep : next F h l = some h') : h.sources.time ≤ h'.sources.time := by
  cases steps_of_next hstep with
  | tick n => exact Nat.le_add_right _ n
  | handle hscause hsources =>
    rcases Sources.trapHandler_cases hsources with ⟨-, rfl⟩ | ⟨-, rfl⟩ | ⟨-, -, rfl⟩ <;>
      exact Nat.le_refl h.sources.time
  | _ => exact Nat.le_refl h.sources.time

/-- A trap is taken for an interrupt that is pending. -/
theorem pending_of_scause (hstep : next F h l = some h') {cause : Cause}
    (hscause : h'.scause = some cause.scause) :
    h.scause = some cause.scause ∨ h.pending cause = true := by
  cases steps_of_next hstep with
  | trap cause' hpending =>
    obtain rfl := Cause.scause_injective (Option.some.inj hscause)
    exact Or.inr hpending
  | exception scause hinterrupt =>
    obtain rfl := Option.some.inj hscause
    cases cause <;> cases hinterrupt
  | handle hscause' hsources => cases hscause
  | _ => exact Or.inl hscause

/-! ## The bits that a trap and a switch change -/

/-- The bits after a trap. -/
theorem trap_bits (cpu : Cpu) (frames : Frames) :
    (cpu.trap frames).1.sstatus = ⟨cpu.sstatus.sie, true, false⟩ ∧
      (cpu.trap frames).1.sie =
        if (frames cpu.sscratch).restoreContext ≠ 0 then 0x222 else cpu.sie := by
  by_cases hcontext : (frames cpu.sscratch).restoreContext = 0
  · simp [Cpu.trap, Cpu.sTrapVector, Cpu.storeVolatileRegisters, Cpu.trapHandler, Cpu.trapExit,
      Cpu.restoreVolatileRegisters, Cpu.sret, hcontext]
  · simp [Cpu.trap, Cpu.sTrapVector, Cpu.storeVolatileRegisters, Cpu.trapHandler,
      Cpu.switchToSupervisorFrame, Cpu.restoreVolatileRegisters, Cpu.sret, hcontext]

/-- **A trap changes the bits as the routines in assembly do**: the frame of a process has a context
to restore, the one of the kernel has none. -/
theorem leaveTrap_enterTrap (cpu : Cpu) (frames : Frames) (hsstatus : h.sstatus = cpu.sstatus)
    (hsie : h.sie = cpu.sie)
    (hcontext : h.place = .process ↔ (frames cpu.sscratch).restoreContext ≠ 0)
    (scause : BitVec 64) (sources : Sources φ) :
    ((h.enterTrap scause).leaveTrap sources).sstatus = (cpu.trap frames).1.sstatus ∧
      ((h.enterTrap scause).leaveTrap sources).sie = (cpu.trap frames).1.sie := by
  obtain ⟨htrapStatus, htrapSie⟩ := trap_bits cpu frames
  rw [htrapStatus, htrapSie, ← hsstatus, ← hsie]
  refine ⟨rfl, ?_⟩
  by_cases hplace : h.place = .process
  · exact (if_pos hplace).trans (if_pos (hcontext.mp hplace)).symm
  · exact (if_neg hplace).trans (if_neg (mt hcontext.mpr hplace)).symm

/-- The switch changes them as `switch_to_and_come_back` does. -/
theorem advance_switchTo (beforeReturn : ℕ) (cpu : Cpu) (frames : Frames) (trapFrame frame : ℕ)
    (hsstatus : h.sstatus = cpu.sstatus) (hplace : h.place = .switchTo) :
    ∀ h' ∈ h.advance F,
      h'.sstatus = (Process.enter beforeReturn cpu frames trapFrame frame).1.sstatus ∧
        h'.sie = (Process.enter beforeReturn cpu frames trapFrame frame).1.sie := by
  intro h' hh'
  simp only [Hart.advance, hplace] at hh'
  obtain rfl := Option.some.inj hh'
  exact ⟨congrArg (fun sstatus => Sstatus.mk sstatus.spie true false) hsstatus, rfl⟩

/-! ## The timer of a process -/

/-- The timer is pending, or has a deadline that comes. -/
def Armed (deadline : φ → ℕ) (h : Hart φ) : Prop :=
  h.sources.stip = true ∨ deadline h.sources.firmware ≠ u64Max

/-- The loop sets the timer. -/
def SetsTimer (t : Transition (Hart φ) Label) : Prop :=
  t.label = .step ∧ ∃ time, t.before.place = .setTimer time

/-- `trap_handler` handles an interrupt. -/
def Handles (cause : Cause) (t : Transition (Hart φ) Label) : Prop :=
  t.label = .handle ∧ t.before.scause = some cause.scause

variable {t u : Transition (Hart φ) Label} {deadline : φ → ℕ}

/-- The timer is disarmed with a deadline that does not come. -/
theorem armed_setAbsoluteTimer (hF : F.IsTimer deadline) (s : Sources φ) (time : ℕ) :
    (s.setAbsoluteTimer F time).stip = true ∨
      deadline (s.setAbsoluteTimer F time).firmware ≠ u64Max ↔ time ≠ u64Max := by
  have hclears : (s.setAbsoluteTimer F time).stip = false := hF.clears ..
  have hprograms : deadline (s.setAbsoluteTimer F time).firmware = time := hF.programs ..
  rw [hclears, hprograms, or_iff_right Bool.false_ne_true]

/-- Only the loop arms the timer, and only `trap_handler` disarms it. -/
theorem armed_iff (hF : F.IsTimer deadline) (hstep : next F t.before t.label = some t.after)
    (hnot : ¬ SetsTimer t) :
    Armed deadline t.after ↔ Armed deadline t.before ∧ ¬ Handles .timer t := by
  obtain ⟨h, l, h'⟩ := t
  dsimp only at hstep ⊢
  have hkeeps : l ≠ .handle → (Armed deadline h' ↔ Armed deadline h) →
      (Armed deadline h' ↔ Armed deadline h ∧ ¬ Handles .timer ⟨h, l, h'⟩) := by
    intro hl hiff
    rw [hiff]
    exact ⟨fun harmed => ⟨harmed, fun hhandles => hl hhandles.1⟩, And.left⟩
  cases steps_of_next hstep with
  | readTime hplace | switchTo hplace | exec | trap | exception | tick | software | external =>
    exact hkeeps (by rintro ⟨⟩) Iff.rfl
  | @setTimer time deadline hplace => exact absurd ⟨rfl, time, hplace⟩ hnot
  | fire hfire =>
    refine hkeeps (by rintro ⟨⟩) ⟨fun _ => Or.inr fun hnever => ?_, fun _ => Or.inl rfl⟩
    cases (hF.never _ _ hnever).symm.trans hfire
  | @handle scause sources hscause hsources =>
    rcases Sources.trapHandler_cases hsources with ⟨rfl, rfl⟩ | ⟨rfl, rfl⟩ | ⟨htimer, -, rfl⟩
    · refine ⟨fun harmed => ?_, fun hno => absurd ⟨rfl, hscause⟩ hno.2⟩
      exact absurd rfl ((armed_setAbsoluteTimer hF h.sources u64Max).mp harmed)
    · refine ⟨fun harmed => ⟨harmed, fun hhandles => ?_⟩, fun hand => hand.1⟩
      cases hscause.symm.trans hhandles.2
    · refine ⟨fun harmed => ⟨harmed, fun hhandles => htimer ?_⟩, fun hand => hand.1⟩
      exact Option.some.inj (hscause.symm.trans hhandles.2)

/-- The loop sets the timer to `0x1000000` ticks after the time that it has read. -/
theorem sources_of_setTimer {time : ℕ} (hstep : next F t.before t.label = some t.after)
    (hlabel : t.label = .step) (hplace : t.before.place = .setTimer time) :
    t.after.scause = none ∧
      t.after.sources = t.before.sources.setAbsoluteTimer F (saturatingAdd time 0x1000000) := by
  obtain ⟨h, l, h'⟩ := t
  obtain rfl : l = .step := hlabel
  dsimp only at hplace hstep ⊢
  obtain ⟨hscause, hadvance⟩ := Option.ite_none_right_eq_some.mp hstep
  simp only [Hart.advance, hplace] at hadvance
  obtain rfl := Option.some.inj hadvance
  exact ⟨hscause, rfl⟩

/-- The deadline that the loop sets comes, unless the clock is at its end. -/
theorem armed_of_setTimer (hF : F.IsTimer deadline) {time : ℕ}
    (hstep : next F t.before t.label = some t.after) (hlabel : t.label = .step)
    (hplace : t.before.place = .setTimer time) :
    Armed deadline t.after ↔ time + 0x1000000 < u64Max := by
  rw [Armed, (sources_of_setTimer hstep hlabel hplace).2, armed_setAbsoluteTimer hF, saturatingAdd]
  exact min_eq_right_iff.not.trans not_le

/-! ## The way back to the kernel -/

/-- The hart runs the process. -/
structure InProcess (h : Hart φ) : Prop where
  place : h.place = .process
  scause : h.scause = none

/-- Nothing but the timer interrupts the hart. -/
def Label.Quiet : Label → Prop
  | .exec _ _ ssip => ssip = false
  | .external pending => pending = false
  | .exception _ | .software => False
  | .step | .trap _ | .handle | .tick _ | .fire => True

/-- The hart can come back to its loop with nothing but the timer to interrupt it. -/
def ComesBack (F : Firmware φ) (h : Hart φ) : Prop :=
  ∃ run, (system F).IsRun h run ∧ (∀ t ∈ run, t.label.Quiet) ∧ ∃ t ∈ run, t.after.place = .readTime

theorem ComesBack.of_step (hback : ComesBack F h') (hstep : next F h l = some h') (hl : l.Quiet) :
    ComesBack F h := by
  obtain ⟨run, hrun, hquiet, t, ht, hplace⟩ := hback
  refine ⟨⟨h, l, h'⟩ :: run, ⟨rfl, hstep, hrun⟩, ?_, t, List.mem_cons_of_mem _ ht, hplace⟩
  exact List.forall_mem_cons.mpr ⟨hl, hquiet⟩

/-- A process is interrupted when the timer is pending. -/
theorem comesBack_of_stip (hprocess : InProcess h) (hstip : h.sources.stip = true) :
    ComesBack F h := by
  -- The process enables its interrupts.
  let enabled : Hart φ := { h with sstatus.sie := true, sie := 0x222, sources.ssip := false }
  let trapped := enabled.enterTrap Cause.timer.scause
  let disarmed := trapped.sources.setAbsoluteTimer F u64Max
  have henabled : (0x222).testBit Cause.timer.code = true := by decide
  have hexec : next F h (.exec true 0x222 false) = some enabled := if_pos hprocess.scause
  have htrap : next F enabled (.trap .timer) = some trapped :=
    if_pos ⟨hprocess.scause, rfl, henabled, hstip⟩
  have hhandle : next F trapped .handle = some (trapped.leaveTrap disarmed) := rfl
  have hback : ComesBack F trapped := by
    refine ⟨[⟨trapped, .handle, trapped.leaveTrap disarmed⟩], ⟨rfl, hhandle, trivial⟩, ?_, _,
      List.mem_singleton_self _, if_pos hprocess.place⟩
    exact List.forall_mem_singleton.mpr trivial
  exact (hback.of_step htrap trivial).of_step hexec rfl

theorem comesBack_of_armed (hF : F.IsTimer deadline) (hprocess : InProcess h)
    (harmed : Armed deadline h) : ComesBack F h := by
  rcases harmed with hstip | hdeadline
  · exact comesBack_of_stip hprocess hstip
  · -- The clock goes on to the deadline.
    let later : Hart φ :=
      { h with sources.time := h.sources.time + deadline h.sources.firmware }
    have htick : next F h (.tick (deadline h.sources.firmware)) = some later := rfl
    obtain ⟨firmware, hfirmware⟩ := Option.isSome_iff_exists.mp
      (hF.late later.sources.firmware later.sources.time hdeadline (Nat.le_add_left _ _))
    let fired : Hart φ := { later with sources.firmware := firmware, sources.stip := true }
    have hfire : next F later .fire = some fired := Option.map_eq_some_iff.mpr ⟨_, hfirmware, rfl⟩
    have hback : ComesBack F fired := comesBack_of_stip ⟨hprocess.place, hprocess.scause⟩ rfl
    exact (hback.of_step hfire trivial).of_step htick trivial

/-- A process that nothing interrupts. -/
structure Alone (deadline : φ → ℕ) (h : Hart φ) : Prop where
  process : InProcess h
  ssip : h.sources.ssip = false
  seip : h.sources.seip = false
  armed : ¬ Armed deadline h

theorem Alone.step (hF : F.IsTimer deadline) (halone : Alone deadline h)
    (hstep : next F h l = some h') (hl : l.Quiet) : Alone deadline h' := by
  obtain ⟨⟨hplace, hscause⟩, hssip, hseip, harmed⟩ := halone
  cases steps_of_next hstep with
  | readTime hplace' => cases hplace.symm.trans hplace'
  | setTimer hplace' => cases hplace.symm.trans hplace'
  | switchTo hplace' => cases hplace.symm.trans hplace'
  | exec enable sie ssip => exact ⟨⟨hplace, hscause⟩, hl, hseip, harmed⟩
  | trap cause hpending =>
    -- no bit of `sip` is set
    cases cause with
    | software => cases hssip.symm.trans hpending
    | timer => exact absurd (Or.inl hpending) harmed
    | external => cases hseip.symm.trans hpending
  | exception => exact False.elim hl
  | handle hscause' => cases hscause.symm.trans hscause'
  | tick n => exact ⟨⟨hplace, hscause⟩, hssip, hseip, harmed⟩
  | fire hfire =>
    have hnever : deadline h.sources.firmware = u64Max := not_not.mp fun hne => harmed (Or.inr hne)
    cases (hF.never _ _ hnever).symm.trans hfire
  | software => exact False.elim hl
  | external pending => exact ⟨⟨hplace, hscause⟩, hssip, hl, harmed⟩

theorem Alone.not_comesBack (hF : F.IsTimer deadline) (halone : Alone deadline h) :
    ¬ ComesBack F h := by
  rintro ⟨run, hrun, hquiet, t, ht, hplace⟩
  have hstays := hrun.invariant halone fun u hu hbefore hstep => hbefore.step hF hstep (hquiet u hu)
  cases hplace.symm.trans (hstays t ht).2.process.place

/-- Before the deadline that was set at some time the timer has not been pending. -/
def Early (deadline : φ → ℕ) (time : ℕ) (h : Hart φ) : Prop :=
  h.sources.time < time + 0x1000000 →
    h.scause ≠ some Cause.timer.scause ∧ h.sources.stip = false ∧
      deadline h.sources.firmware = saturatingAdd time 0x1000000

theorem early_of_setTimer (hF : F.IsTimer deadline) {time : ℕ}
    (hstep : next F t.before t.label = some t.after) (hlabel : t.label = .step)
    (hplace : t.before.place = .setTimer time) :
    Early deadline time t.after := by
  intro _
  obtain ⟨hscause, hsources⟩ := sources_of_setTimer hstep hlabel hplace
  rw [hscause, hsources]
  exact ⟨by rintro ⟨⟩, hF.clears .., hF.programs ..⟩

theorem Early.step (hF : F.IsTimer deadline) {time : ℕ} (hearly : Early deadline time t.before)
    (hstep : next F t.before t.label = some t.after) (hnot : ¬ SetsTimer t) :
    Early deadline time t.after := by
  intro hlt
  obtain ⟨hscause, hstip, hdeadline⟩ := hearly ((time_le hstep).trans_lt hlt)
  refine ⟨fun htimer => ?_, ?_⟩
  · rcases pending_of_scause hstep htimer with hbefore | hpending
    · exact hscause hbefore
    · cases hstip.symm.trans hpending
  · obtain ⟨h, l, h'⟩ := t
    dsimp only at hstep hscause hstip hdeadline hlt ⊢
    cases steps_of_next hstep with
    | @setTimer time _ hplace => exact absurd ⟨rfl, time, hplace⟩ hnot
    | handle hscause' hsources =>
      rcases Sources.trapHandler_cases hsources with ⟨rfl, rfl⟩ | ⟨-, rfl⟩ | ⟨-, -, rfl⟩
      · exact absurd hscause' hscause
      · exact ⟨hstip, hdeadline⟩
      · exact ⟨hstip, hdeadline⟩
    | fire hfire =>
      -- the deadline has been reached, or is at the end of the clock
      have hle : deadline h.sources.firmware ≤ h.sources.time :=
        not_lt.mp fun hlt => by cases (hF.early _ _ hlt).symm.trans hfire
      have hne : deadline h.sources.firmware ≠ u64Max :=
        fun hnever => by cases (hF.never _ _ hnever).symm.trans hfire
      rw [hdeadline] at hle hne
      rcases min_choice (time + 0x1000000) u64Max with hsum | hend
      · rw [saturatingAdd, hsum] at hle
        exact absurd hlt (not_lt.mpr hle)
      · exact absurd hend hne
    | _ => exact ⟨hstip, hdeadline⟩

theorem InProcess.not_setsTimer (hprocess : InProcess t.after)
    (hstep : next F t.before t.label = some t.after) : ¬ SetsTimer t := by
  obtain ⟨h, l, h'⟩ := t
  rintro ⟨hlabel, time, hplace⟩
  dsimp only at hprocess hstep hlabel hplace
  subst hlabel
  cases steps_of_next hstep with
  | readTime hplace' => cases hplace.symm.trans hplace'
  | setTimer hplace' => cases hprocess.place
  | switchTo hplace' => cases hplace.symm.trans hplace'

theorem InProcess.not_handles (hprocess : InProcess t.after)
    (hstep : next F t.before t.label = some t.after) (cause : Cause) : ¬ Handles cause t := by
  obtain ⟨h, l, h'⟩ := t
  rintro ⟨hlabel, -⟩
  dsimp only at hprocess hstep hlabel
  subst hlabel
  cases steps_of_next hstep with
  | handle hscause hsources =>
    have hplace := hprocess.place
    rw [Hart.leaveTrap] at hplace
    by_cases hbefore : h.place = .process
    · cases (if_pos hbefore).symm.trans hplace
    · exact hbefore ((if_neg hbefore).symm.trans hplace)

/-- **When the timer takes a process off its hart**: a hart that runs a process, and that nothing else
interrupts, can come back if and only if it has not handled an interrupt of the timer since it set the
timer (and the deadline is not beyond the end of the clock). It has not within `0x1000000` ticks of
reading the time. -/
theorem comes_back_iff (hF : F.IsTimer deadline) {time : ℕ} {l₁ l₂ : List (Transition (Hart φ) Label)}
    (hrun : (system F).IsRun h (t :: (l₁ ++ u :: l₂))) (hlabel : t.label = .step)
    (hplace : t.before.place = .setTimer time) (hl₁ : ∀ v ∈ l₁, ¬ SetsTimer v)
    (hprocess : InProcess u.after) (hssip : u.after.sources.ssip = false)
    (hseip : u.after.sources.seip = false) :
    (ComesBack F u.after ↔ time + 0x1000000 < u64Max ∧ ∀ v ∈ l₁, ¬ Handles .timer v) ∧
      (u.after.sources.time < time + 0x1000000 → ∀ v ∈ l₁, ¬ Handles .timer v) := by
  obtain ⟨rfl, hset, hafter⟩ := hrun
  have hlast : next F u.before u.label = some u.after :=
    hafter.step (List.mem_append_right l₁ List.mem_cons_self)
  refine ⟨?_, fun hlt v hv hhandles => ?_⟩
  · have harmed : Armed deadline u.after ↔
        time + 0x1000000 < u64Max ∧ ∀ v ∈ l₁, ¬ Handles .timer v := by
      rw [armed_iff hF hlast (hprocess.not_setsTimer hlast),
        and_iff_left (hprocess.not_handles hlast .timer),
        hafter.flag_iff (Armed deadline) fun v hv hstep => armed_iff hF hstep (hl₁ v hv),
        armed_of_setTimer hF hset hlabel hplace]
    rw [← harmed]
    refine ⟨fun hback => ?_, comesBack_of_armed hF hprocess⟩
    by_contra hnot
    exact Alone.not_comesBack hF ⟨hprocess, hssip, hseip, hnot⟩ hback
  · obtain ⟨l₀, l₃, rfl⟩ := List.append_of_mem hv
    rw [List.append_assoc, List.cons_append] at hafter
    have hearly : Early deadline time v.before :=
      hafter.before (early_of_setTimer hF hset hlabel hplace) fun w hw hbefore hstep =>
        hbefore.step hF hstep (hl₁ w (List.mem_append_left _ hw))
    -- the clock has passed the deadline when the interrupt is handled, and goes on
    have hlate : time + 0x1000000 ≤ v.before.sources.time := by
      by_contra hnot
      exact (hearly (not_le.mp hnot)).1 hhandles.2
    have hstep : next F v.before v.label = some v.after :=
      hafter.step (List.mem_append_right l₀ List.mem_cons_self)
    have hbefore : time + 0x1000000 ≤ u.before.sources.time :=
      hafter.after.before (I := fun h => time + 0x1000000 ≤ h.sources.time)
        (hlate.trans (time_le hstep)) fun w _ hw hstep => hw.trans (time_le hstep)
    exact absurd hlt (not_lt.mpr (hbefore.trans (time_le hlast)))

/-- A firmware that has no deadline after it has set `STIP`. -/
def machineTimer : Firmware ℕ where
  setTimer _ _ time := (time, false)
  fire deadline now := if deadline ≤ now ∧ deadline ≠ u64Max then some u64Max else none

theorem isTimer_machineTimer : machineTimer.IsTimer id where
  clears _ _ _ := rfl
  programs _ _ _ := rfl
  never _ _ hnever := if_neg fun hfire => hfire.2 hnever
  early _ _ hearly := if_neg fun hfire => not_lt.mpr hfire.1 hearly
  late _ _ hne hle := congrArg Option.isSome (if_pos ⟨hle, hne⟩)

/-- A hart that has read the time, with its interrupts enabled. -/
def aboutToSet : Hart ℕ :=
  ⟨.setTimer 0, none, ⟨true, true, false⟩, 0x222, ⟨0, u64Max, false, false, false⟩⟩

/-- The transitions along a list of labels. -/
def loopRun (labels : List Label) : List (Transition (Hart ℕ) Label) :=
  TransitionSystem.follow (next machineTimer) aboutToSet labels

theorem isRun_loopRun (labels : List Label) :
    (system machineTimer).IsRun aboutToSet (loopRun labels) :=
  TransitionSystem.isRun_follow (fun _ _ _ h => h) _ _

/-- The hart switches at once. -/
def prompt : List Label := [.step, .tick 100, .step]

/-- The line takes so long to print that the timer interrupts the kernel. -/
def late : List Label := [.step, .tick 0x1000000, .fire, .trap .timer, .handle, .step]

/-- The timer takes the process off the hart that has switched at once, but not the other one. -/
theorem comes_back_iff_late :
    (∃ u ∈ loopRun prompt, InProcess u.after ∧ ComesBack machineTimer u.after) ∧
      ∃ u ∈ loopRun late, InProcess u.after ∧ ¬ ComesBack machineTimer u.after := by
  have hnot : ∀ labels, (∀ v ∈ (loopRun labels).drop 1 |>.dropLast, v.label ≠ .step) →
      ∀ v ∈ (loopRun labels).drop 1 |>.dropLast, ¬ SetsTimer v :=
    fun _ hlabels v hv hsets => hlabels v hv hsets.1
  constructor
  · let switched := (loopRun prompt).get ⟨2, by decide⟩
    have hrun : (system machineTimer).IsRun aboutToSet ((loopRun prompt).get ⟨0, by decide⟩ ::
        (((loopRun prompt).drop 1).dropLast ++ switched :: [])) := isRun_loopRun prompt
    have hprocess : InProcess switched.after := ⟨rfl, rfl⟩
    have hlabels : ∀ v ∈ ((loopRun prompt).drop 1).dropLast, v.label = .tick 100 := by decide
    obtain ⟨hiff, -⟩ := comes_back_iff isTimer_machineTimer hrun rfl rfl
      (hnot prompt fun v hv hstep => by cases (hlabels v hv).symm.trans hstep) hprocess rfl rfl
    refine ⟨switched, List.get_mem _ _, hprocess, hiff.mpr ⟨by decide, fun v hv hhandles => ?_⟩⟩
    cases (hlabels v hv).symm.trans hhandles.1
  · let switched := (loopRun late).get ⟨5, by decide⟩
    have hrun : (system machineTimer).IsRun aboutToSet ((loopRun late).get ⟨0, by decide⟩ ::
        (((loopRun late).drop 1).dropLast ++ switched :: [])) := isRun_loopRun late
    have hprocess : InProcess switched.after := ⟨rfl, rfl⟩
    obtain ⟨hiff, -⟩ := comes_back_iff isTimer_machineTimer hrun rfl rfl (hnot late (by decide))
      hprocess rfl rfl
    refine ⟨switched, List.get_mem _ _, hprocess, fun hback => ?_⟩
    exact (hiff.mp hback).2 (((loopRun late).drop 1).dropLast.get ⟨3, by decide⟩)
      (List.get_mem _ _) ⟨rfl, rfl⟩

/-! ## Interrupts are handled once -/

/-- The hart itself, or another one, sets `SSIP`. -/
def Raises (t : Transition (Hart φ) Label) : Prop :=
  t.label = .software ∨ ∃ enable sie, t.label = .exec enable sie true

/-- A software interrupt that has not been handled. -/
def Raised (h : Hart φ) : Prop :=
  h.sources.ssip = true ∨ h.scause = some Cause.software.scause

/-- An interrupt of the timer that has not been handled, or will come. -/
def Due (deadline : φ → ℕ) (h : Hart φ) : Prop :=
  Armed deadline h ∨ h.scause = some Cause.timer.scause

theorem not_due_of_handles (hF : F.IsTimer deadline)
    (hstep : next F t.before t.label = some t.after) (hhandles : Handles .timer t) :
    ¬ Due deadline t.after := by
  have hnot : ¬ SetsTimer t := fun hsets => by cases hhandles.1.symm.trans hsets.1
  rintro (harmed | hscause)
  · exact ((armed_iff hF hstep hnot).mp harmed).2 hhandles
  · obtain ⟨h, l, h'⟩ := t
    obtain ⟨rfl, hbefore⟩ : l = .handle ∧ h.scause = some Cause.timer.scause := hhandles
    dsimp only at hstep hscause
    cases steps_of_next hstep with
    | handle hscause' hsources => cases hscause

theorem not_due_of_not_setsTimer (hF : F.IsTimer deadline)
    (hstep : next F t.before t.label = some t.after) (hnot : ¬ SetsTimer t)
    (hdue : ¬ Due deadline t.before) : ¬ Due deadline t.after := by
  rintro (harmed | hscause)
  · exact hdue (Or.inl ((armed_iff hF hstep hnot).mp harmed).1)
  · rcases pending_of_scause hstep hscause with hbefore | hpending
    · exact hdue (Or.inr hbefore)
    · exact hdue (Or.inl (Or.inl hpending))

theorem not_raised_of_handles (hstep : next F t.before t.label = some t.after)
    (hhandles : Handles .software t) : ¬ Raised t.after := by
  obtain ⟨h, l, h'⟩ := t
  obtain ⟨rfl, hbefore⟩ : l = .handle ∧ h.scause = some Cause.software.scause := hhandles
  dsimp only at hstep ⊢
  cases steps_of_next hstep with
  | handle hscause hsources =>
    obtain rfl := Option.some.inj (hbefore.symm.trans hscause)
    rcases Sources.trapHandler_cases hsources with ⟨htimer, -⟩ | ⟨-, rfl⟩ | ⟨-, hne, -⟩
    · cases htimer
    · rintro (hssip | hscause)
      · cases hssip
      · cases hscause
    · exact absurd rfl hne

theorem not_raised_of_not_raises (hstep : next F t.before t.label = some t.after)
    (hnot : ¬ Raises t) (hraised : ¬ Raised t.before) : ¬ Raised t.after := by
  rintro (hssip | hscause)
  · refine hraised (Or.inl ?_)
    obtain ⟨h, l, h'⟩ := t
    dsimp only at hstep hssip ⊢
    cases steps_of_next hstep with
    | exec enable sie ssip =>
      obtain rfl : ssip = true := hssip
      exact absurd (Or.inr ⟨enable, sie, rfl⟩) hnot
    | software => exact absurd (Or.inl rfl) hnot
    | handle hscause hsources =>
      rcases Sources.trapHandler_cases hsources with ⟨-, rfl⟩ | ⟨-, rfl⟩ | ⟨-, -, rfl⟩
      · exact hssip
      · cases hssip
      · exact hssip
    | _ => exact hssip
  · rcases pending_of_scause hstep hscause with hbefore | hpending
    · exact hraised (Or.inr hbefore)
    · exact hraised (Or.inl hpending)

/-- **Interrupts are handled once**: between two interrupts of the timer that a hart handles it sets
the timer, and between two software interrupts `SSIP` is set. -/
theorem handled_once (hF : F.IsTimer deadline) {run : List (Transition (Hart φ) Label)}
    (hrun : (system F).IsRun h run) :
    TransitionSystem.Separated (Handles .timer) SetsTimer run ∧
      TransitionSystem.Separated (Handles .software) Raises run :=
  ⟨hrun.separated (Due deadline)
      (fun _ hstep hhandles => ⟨Or.inr hhandles.2, not_due_of_handles hF hstep hhandles⟩)
      fun _ hstep hnot => not_due_of_not_setsTimer hF hstep hnot,
    hrun.separated Raised
      (fun _ hstep hhandles => ⟨Or.inr hhandles.2, not_raised_of_handles hstep hhandles⟩)
      fun _ hstep hnot => not_raised_of_not_raises hstep hnot⟩

/-- Two turns of the loop, each of which ends with an interrupt of the timer. -/
def twice : List Label :=
  [.step, .tick 0x1000000, .fire, .step, .trap .timer, .handle, .step, .step, .tick 0x1000000, .fire,
    .step, .trap .timer, .handle]

theorem handled_once_twice : ∃ v ∈ ((loopRun twice).drop 6).dropLast, SetsTimer v := by
  have hrun : loopRun twice = (loopRun twice).take 5 ++ (loopRun twice).get ⟨5, by decide⟩ ::
      (((loopRun twice).drop 6).dropLast ++ (loopRun twice).get ⟨12, by decide⟩ :: []) := rfl
  exact (handled_once isTimer_machineTimer (isRun_loopRun twice)).1 _ _ _ _ _ hrun ⟨rfl, rfl⟩ ⟨rfl, rfl⟩

end Preempt

end AsyncKernel
