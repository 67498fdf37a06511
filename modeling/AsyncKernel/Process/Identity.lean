import AsyncKernel.Process.Switch

/-!
# Which hart is this

`load_hartid` and `HartLocals::current` read the trap frame that `sscratch` points to.
`setup_hart_trap_frame` writes the hart and its `HartLocals` there, and `inherit_from` copies them, but
the trap frame of a process that `new_supervisor` makes has neither. So they tell the truth as long as
no hart switches to a process.

## Main definitions

* `Process.loadHartid`, `Process.currentLocals`: what the kernel takes the hart and its locals to be
* `Process.Truthful`: they are the hart's own
* `Process.Switches`: a hart switches to a process

## Main results

* `Process.truthful_iff`: the runs in which every hart knows which one it is
-/

namespace AsyncKernel

namespace Process

variable {ι : Type}

/-- `load_hartid`, on a hart that has been set up. -/
def loadHartid (s : State ι) (hart : Hart ι) : ℕ := (s.frames hart.cpu.sscratch).hartid

/-- `HartLocals::current`: it panics when the pointer is null. -/
def currentLocals (s : State ι) (hart : Hart ι) : Option ℕ :=
  let hartLocals := (s.frames hart.cpu.sscratch).hartLocals
  if hartLocals = 0 then none else some hartLocals

/-- The trap frame that `sscratch` of a hart points to has the hart and its `HartLocals`, so that the
kernel takes itself to be on that hart. -/
def Truthful (s : State ι) : Prop := ∀ hartid, ∀ hart ∈ s.harts hartid,
  ((s.frames hart.cpu.sscratch).hartid = hartid ∧
    (s.frames hart.cpu.sscratch).hartLocals = hart.hartLocals) ∧
  loadHartid s hart = hartid ∧ currentLocals s hart = some hart.hartLocals

/-- A hart calls `switch_to_and_come_back`. -/
def Switches : Label ι → Prop
  | .switchTo _ _ => True
  | .setup _ _ _ _ | .newSupervisor _ _ _ _ | .exec _ | .trap => False

instance : DecidablePred (Switches (ι := ι)) := fun l =>
  match l with
  | .switchTo _ _ => instDecidableTrue
  | .setup _ _ _ _ | .newSupervisor _ _ _ _ | .exec _ | .trap => instDecidableFalse

/-! ## The runs -/

/-- What is known of a hart in the kernel that knows which one it is. -/
structure Knows (frames : Frames) (live : Finset ℕ) (hartid : ℕ) (hart : Hart ι) : Prop where
  kernel : hart.call = none
  locals : hart.hartLocals ≠ 0
  live : hart.cpu.sscratch ∈ live
  hartid : (frames hart.cpu.sscratch).hartid = hartid
  hartLocals : (frames hart.cpu.sscratch).hartLocals = hart.hartLocals

/-- Every hart is in the kernel and knows which one it is, and the frames of the processes have no
`HartLocals`. -/
structure Consistent (s : State ι) : Prop where
  harts : ∀ hartid, ∀ hart ∈ s.harts hartid, Knows s.frames s.live hartid hart
  processes : ∀ i, ∀ process ∈ s.processes i,
    process.trapFrame ∈ s.live ∧ (s.frames process.trapFrame).hartLocals = 0

variable {s s' : State ι} {hartid : ℕ} {l : Label ι}

theorem Consistent.truthful (h : Consistent s) : Truthful s := by
  intro hartid hart hhart
  obtain ⟨-, hlocals, -, hid, hpointer⟩ := h.harts hartid hart hhart
  refine ⟨⟨hid, hpointer⟩, hid, ?_⟩
  simp only [currentLocals, hpointer]
  exact if_neg hlocals

theorem consistent_start (frames : Frames) : Consistent (start frames : State ι) := by
  constructor
  · intro hartid hart hhart
    cases hhart
  · intro i process hprocess
    cases hprocess

/-- Frames that are allocated, and registers that are stored in frames, keep what is known. -/
theorem Consistent.frames (h : Consistent s) {frames : Frames} {live : Finset ℕ}
    (hlive : s.live ⊆ live) (hsame : ∀ a ∈ s.live, (frames a).hartid = (s.frames a).hartid ∧
      (frames a).hartLocals = (s.frames a).hartLocals) : Consistent { s with frames, live } := by
  constructor
  · intro hartid hart hhart
    obtain ⟨hkernel, hlocals, hmem, hid, hpointer⟩ := h.harts hartid hart hhart
    obtain ⟨hid', hpointer'⟩ := hsame _ hmem
    exact ⟨hkernel, hlocals, hlive hmem, hid'.trans hid, hpointer'.trans hpointer⟩
  · intro i process hprocess
    obtain ⟨hmem, hzero⟩ := h.processes i process hprocess
    exact ⟨hlive hmem, (hsame _ hmem).2.trans hzero⟩

/-- A new frame is none of those that are in use. -/
theorem Consistent.allocate (h : Consistent s) {frame : ℕ} (hfresh : s.Fresh frame)
    (trapFrame : TrapFrame) : Consistent { s with
      frames := Function.update s.frames frame trapFrame
      live := insert frame s.live } := by
  refine h.frames (Finset.subset_insert _ _) fun a ha => ?_
  have hne : a ≠ frame := by
    rintro rfl
    exact hfresh.2 ha
  rw [Function.update_of_ne hne]
  exact ⟨rfl, rfl⟩

/-- A trap stores the registers in the frame of the hart, and leaves what the frames say of harts. -/
theorem Consistent.stored (h : Consistent s) (cpu : Cpu) :
    Consistent { s with frames := (cpu.trap s.frames).2 } := by
  refine h.frames subset_rfl fun a _ => ?_
  rw [Cpu.trap_frames]
  by_cases ha : a = cpu.sscratch
  · subst ha
    simp
  · simp [ha]

/-- A hart takes a place among the harts. -/
theorem Consistent.hart (h : Consistent s) {hart : Hart ι}
    (hhart : Knows s.frames s.live hartid hart) :
    Consistent { s with harts := Function.update s.harts hartid (some hart) } := by
  refine ⟨fun other hart' hhart' => ?_, h.processes⟩
  dsimp only at hhart'
  by_cases hother : other = hartid
  · subst hother
    rw [Function.update_self, Option.mem_some_iff] at hhart'
    subst hhart'
    exact hhart
  · rw [Function.update_of_ne hother] at hhart'
    exact h.harts other hart' hhart'

variable [DecidableEq ι] {beforeReturn : ℕ}

/-- **A step that does not switch to a process keeps what the harts know.** -/
theorem Consistent.step (h : Consistent s) (hstep : Steps beforeReturn s (hartid, l) s')
    (hl : ¬ Switches l) : Consistent s' := by
  cases hstep with
  | switchTo => exact absurd trivial hl
  | setup cpu stack hlocals hfresh =>
    refine (h.allocate hfresh _).hart ⟨rfl, hlocals, Finset.mem_insert_self _ _, ?_, ?_⟩
    · simp [hartFrame, setupHartTrapFrame, TrapFrame.setInterruptContext]
    · simp [hartFrame, setupHartTrapFrame]
  | @newSupervisor _ hart i frame stack function hhart hfresh =>
    have hallocated := h.allocate hfresh (supervisorFrame
      (Function.update s.frames frame TrapFrame.zeroed hart.cpu.sscratch) stack function)
    rw [← createSupervisor_eq] at hallocated
    refine ⟨hallocated.harts, fun j process hprocess => ?_⟩
    dsimp only at hprocess
    by_cases hj : j = i
    · subst hj
      rw [Function.update_self, Option.mem_some_iff] at hprocess
      subst hprocess
      simp [createSupervisor_self, supervisorFrame, TrapFrame.zeroed]
    · rw [Function.update_of_ne hj] at hprocess
      exact hallocated.processes j process hprocess
  | exec cpu hhart =>
    obtain ⟨hkernel, hlocals, hlive, hid, hpointer⟩ := h.harts hartid _ hhart
    exact h.hart ⟨hkernel, hlocals, hlive, hid, hpointer⟩
  | @handled _ hart hhart hctx =>
    have hstored := h.stored hart.cpu
    obtain ⟨hkernel, hlocals, hlive, hid, hpointer⟩ := hstored.harts hartid hart hhart
    have hsame := (Cpu.trap_of_eq_zero hctx).1
    refine hstored.hart ⟨hkernel, hlocals, ?_, ?_, ?_⟩
    · rwa [hsame]
    · rwa [hsame]
    · rwa [hsame]
  | returns hhart hcall =>
    -- no hart is in a call
    cases (h.harts hartid _ hhart).kernel.symm.trans hcall

/-- A hart that switches to a process does not know which one it is. -/
theorem Consistent.not_truthful (h : Consistent s) (hstep : Steps beforeReturn s (hartid, l) s')
    (hl : Switches l) : ¬ Truthful s' := by
  cases hstep with
  | setup | newSupervisor | exec | handled | returns => cases hl
  | @switchTo _ cpu hartLocals i process frame hhart hprocess hfresh =>
    obtain ⟨hlive, hzero⟩ := h.processes i process hprocess
    have hne : process.trapFrame ≠ frame := by
      rintro rfl
      exact hfresh.2 hlive
    have hnone : ((enter beforeReturn cpu s.frames process.trapFrame frame).2
        process.trapFrame).hartLocals = 0 := by
      rw [enter_frames_self hne]
      exact hzero
    intro htruthful
    have hpointer := (htruthful hartid _ (Function.update_self ..)).1.2
    exact (h.harts hartid _ hhart).locals (hpointer.symm.trans hnone)

/-- **The runs in which every hart knows which one it is**: those in which no hart switches to a
process. -/
theorem truthful_iff {run : List (Transition (State ι) (ℕ × Label ι))} {frames : Frames}
    (h : (system beforeReturn).IsRun (start frames) run) :
    (∀ t ∈ run, Truthful t.before ∧ Truthful t.after) ↔ ∀ t ∈ run, ¬ Switches t.label.2 := by
  refine h.forall_good_iff Consistent (consistent_start frames) ?_ ?_ ?_
  · intro t hstep hbefore hswitch
    exact hbefore.step (steps_of_next hstep) hswitch
  · intro t _ hbefore hafter _
    exact ⟨hbefore.truthful, hafter.truthful⟩
  · intro t hstep hbefore hswitch htruthful
    exact hbefore.not_truthful (steps_of_next hstep) hswitch htruthful.2

/-- Two harts are set up, and one of them creates a process and takes a trap. -/
theorem truthful_iff_two_harts :
    let run := startRun [(0, .setup bootCpu 0x1000 0x2000 0x3000),
      (3, .setup bootCpu 0x1100 0x2100 0x3100), (3, .newSupervisor () 0x4000 0x5000 0x6000),
      (3, .trap)]
    run.length = 4 ∧ ∀ t ∈ run, Truthful t.before ∧ Truthful t.after := by
  intro run
  have hlength : run.length = 4 := by decide
  exact ⟨hlength, (truthful_iff (isRun_startRun _)).mpr (by decide)⟩

/-- Hart 3 has switched to a process: it takes itself to be hart 0, without any `HartLocals`. -/
theorem not_truthful_in_process :
    let run := startRun switchAndTrap
    (system 0x80).IsRun (start fun _ => TrapFrame.zeroed) run ∧
      (∃ t ∈ run, ∃ hart ∈ t.after.harts 3, loadHartid t.after hart = 0 ∧
        currentLocals t.after hart = none) ∧
      ¬ ∀ t ∈ run, Truthful t.before ∧ Truthful t.after := by
  intro run
  have hprocess : ∃ t ∈ run, ∃ hart ∈ t.after.harts 3, loadHartid t.after hart = 0 ∧
      currentLocals t.after hart = none := by decide
  refine ⟨isRun_startRun _, hprocess, fun htruthful => ?_⟩
  obtain ⟨t, ht, hart, hhart, hzero, -⟩ := hprocess
  have hthree := ((htruthful t ht).2 3 hart hhart).2.1
  rw [hzero] at hthree
  cases hthree

end Process

end AsyncKernel
