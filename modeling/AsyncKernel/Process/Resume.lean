import AsyncKernel.Process.Switch

/-!
# A process goes on where it was

A trap stores the registers and the counter of a program in the frame that `sscratch` points to, and
`switch_to_and_come_back` loads them from the frame of the process. So a process goes on with what
the last trap has stored in its frame, on whatever hart that was. While a process runs that is its
own trap. After a call has come back `sscratch` still points to a frame that is not in use, which
may become the frame of another process: a trap in the kernel then stores the registers of the
kernel there.

## Main definitions

* `Process.Sound`: the frames of processes and calls are in use and differ, and a process runs on
  one hart at a time
* `Process.Stores`: a trap stores to the frame of a process
* `Process.Leaves`, `Process.Enters`: a hart comes back from a process, and switches to it
* `Process.Tramples`: a hart in the kernel stores to the frame of a process

## Main results

* `Process.sound`: every reachable state is sound
* `Process.resumes_stored`: a process goes on with what the last trap has stored
* `Process.resumes_as_left`: unless the kernel tramples on its frame it goes on where it was
-/

namespace AsyncKernel

namespace Process

/-- A table with one of its entries replaced. -/
theorem mem_update {α β : Type} [DecidableEq β] {f : β → Option α} {b b' : β} {a a' : α} :
    a ∈ Function.update f b (some a') b' ↔ b' = b ∧ a = a' ∨ b' ≠ b ∧ a ∈ f b' := by
  by_cases h : b' = b
  · subst h
    simp [eq_comm]
  · simp [h]

variable {ι : Type} {s s' : State ι} {hartid : ℕ} {beforeReturn : ℕ} {l : ℕ × Label ι}

/-! ## Which frames are in use -/

/-- A hart runs the process of a call, which nothing else uses. -/
structure Inside (s : State ι) (hart : Hart ι) (call : Call ι) : Prop where
  process : ∃ process ∈ s.processes call.process, process.state = .running ∧
    hart.cpu.sscratch = process.trapFrame
  live : call.frame ∈ s.live
  other : ∀ i, ∀ process ∈ s.processes i, process.trapFrame ≠ call.frame

/-- **The frames of processes and calls are in use and differ**, and a process runs on one hart at a
time. -/
structure Sound (s : State ι) : Prop where
  live : ∀ i, ∀ process ∈ s.processes i, process.trapFrame ∈ s.live
  distinct : ∀ i j, ∀ process ∈ s.processes i, ∀ process' ∈ s.processes j,
    process.trapFrame = process'.trapFrame → i = j
  calls : ∀ hartid, ∀ hart ∈ s.harts hartid, ∀ call ∈ hart.call, Inside s hart call
  exclusive : ∀ hartid hartid', ∀ hart ∈ s.harts hartid, ∀ hart' ∈ s.harts hartid',
    ∀ call ∈ hart.call, ∀ call' ∈ hart'.call,
      call.process = call'.process ∨ call.frame = call'.frame → hartid = hartid'

/-- A hart goes on in the kernel, or in the process of its call, and the rest of the state is the
same. -/
theorem Sound.update (h : Sound s) {hart hart' : Hart ι} (hhart : hart ∈ s.harts hartid)
    (hcall : hart'.call = hart.call) (hsscratch : hart'.cpu.sscratch = hart.cpu.sscratch)
    (frames : Frames) :
    Sound { s with harts := Function.update s.harts hartid (some hart'), frames } := by
  -- Every hart has the call and the `sscratch` of a hart before.
  have hbefore : ∀ hartid', ∀ hart₁ ∈ Function.update s.harts hartid (some hart') hartid',
      ∃ hart₂ ∈ s.harts hartid', hart₁.call = hart₂.call ∧
        hart₁.cpu.sscratch = hart₂.cpu.sscratch := by
    intro hartid' hart₁ hhart₁
    rcases mem_update.mp hhart₁ with ⟨rfl, rfl⟩ | ⟨-, hhart₁⟩
    · exact ⟨hart, hhart, hcall, hsscratch⟩
    · exact ⟨hart₁, hhart₁, rfl, rfl⟩
  refine ⟨h.live, h.distinct, fun hartid' hart₁ hhart₁ call hcall₁ => ?_, ?_⟩
  · obtain ⟨hart₂, hhart₂, hcall₂, hsscratch₂⟩ := hbefore hartid' hart₁ hhart₁
    obtain ⟨⟨process, hprocess, hrunning, hframe⟩, hlive, hother⟩ :=
      h.calls hartid' hart₂ hhart₂ call (hcall₂ ▸ hcall₁)
    exact ⟨⟨process, hprocess, hrunning, hsscratch₂.trans hframe⟩, hlive, hother⟩
  · intro hartid₁ hartid₂ hart₁ hhart₁ hart₂ hhart₂ call₁ hcall₁ call₂ hcall₂ hsame
    obtain ⟨hart₃, hhart₃, hcall₃, -⟩ := hbefore hartid₁ hart₁ hhart₁
    obtain ⟨hart₄, hhart₄, hcall₄, -⟩ := hbefore hartid₂ hart₂ hhart₂
    exact h.exclusive hartid₁ hartid₂ hart₃ hhart₃ hart₄ hhart₄ call₁ (hcall₃ ▸ hcall₁) call₂
      (hcall₄ ▸ hcall₂) hsame

theorem sound_start (frames : Frames) : Sound (start frames : State ι) :=
  ⟨nofun, nofun, nofun, nofun⟩

theorem Sound.setup (h : Sound s) {hart : Hart ι} (hcall : hart.call = none) (frames : Frames)
    (frame : ℕ) :
    Sound { s with
      harts := Function.update s.harts hartid (some hart)
      frames, live := insert frame s.live } := by
  -- The new hart is in the kernel, and the others are as before.
  have hbefore : ∀ hartid', ∀ hart' ∈ Function.update s.harts hartid (some hart) hartid',
      ∀ call ∈ hart'.call, hart' ∈ s.harts hartid' := by
    intro hartid' hart' hhart' call hcall'
    rcases mem_update.mp hhart' with ⟨-, rfl⟩ | ⟨-, hhart'⟩
    · rw [hcall] at hcall'
      cases hcall'
    · exact hhart'
  refine ⟨fun i process hprocess => Finset.mem_insert_of_mem (h.live i process hprocess),
    h.distinct, fun hartid' hart' hhart' call hcall' => ?_, ?_⟩
  · obtain ⟨hprocess, hlive, hother⟩ :=
      h.calls hartid' hart' (hbefore hartid' hart' hhart' call hcall') call hcall'
    exact ⟨hprocess, Finset.mem_insert_of_mem hlive, hother⟩
  · intro hartid₁ hartid₂ hart₁ hhart₁ hart₂ hhart₂ call₁ hcall₁ call₂ hcall₂
    exact h.exclusive hartid₁ hartid₂ hart₁ (hbefore hartid₁ hart₁ hhart₁ call₁ hcall₁) hart₂
      (hbefore hartid₂ hart₂ hhart₂ call₂ hcall₂) call₁ hcall₁ call₂ hcall₂

variable [DecidableEq ι]

/-- `new_supervisor` makes a process that there has not been. -/
theorem newSupervisor_guard {i : ι} {frame stack function : ℕ}
    (h : next beforeReturn s (hartid, .newSupervisor i frame stack function) = some s') :
    s.processes i = none := by
  simp only [next] at h
  split at h
  · cases h
  · split at h
    · rename_i hguard
      exact hguard.1
    · cases h

/-- `switch_to_and_come_back` has a mutable reference to the process, which does not run. -/
theorem switchTo_guard {i : ι} {frame : ℕ}
    (h : next beforeReturn s (hartid, .switchTo i frame) = some s') :
    ∀ process ∈ s.processes i, process.state ≠ .running := by
  simp only [next] at h
  split at h
  · rename_i cpu hartLocals process hhart hprocess
    split at h
    · rename_i hguard
      intro process' hprocess'
      obtain rfl := Option.some.inj (hprocess.symm.trans hprocess')
      exact hguard.1
    · cases h
  · cases h

theorem Sound.newSupervisor (h : Sound s) {i : ι} {frame : ℕ} (hnew : s.processes i = none)
    (hfresh : s.Fresh frame) (frames : Frames) :
    Sound { s with
      frames, live := insert frame s.live
      processes := Function.update s.processes i (some ⟨frame, .paused⟩) } := by
  refine ⟨fun j process hprocess => ?_, fun j k process hprocess process' hprocess' hsame => ?_,
    fun hartid hart hhart call hcall => ?_, h.exclusive⟩
  · rcases mem_update.mp hprocess with ⟨-, rfl⟩ | ⟨-, hprocess⟩
    · exact Finset.mem_insert_self _ _
    · exact Finset.mem_insert_of_mem (h.live j process hprocess)
  · -- the new frame is not one that was in use
    rcases mem_update.mp hprocess with ⟨rfl, rfl⟩ | ⟨-, hbefore⟩ <;>
      rcases mem_update.mp hprocess' with ⟨rfl, rfl⟩ | ⟨-, hbefore'⟩
    · rfl
    · have hlive := h.live k process' hbefore'
      rw [← hsame] at hlive
      exact absurd hlive hfresh.2
    · have hlive := h.live j process hbefore
      rw [hsame] at hlive
      exact absurd hlive hfresh.2
    · exact h.distinct j k process hbefore process' hbefore' hsame
  · obtain ⟨⟨process, hprocess, hinside⟩, hlive, hother⟩ := h.calls hartid hart hhart call hcall
    refine ⟨⟨process, mem_update.mpr (Or.inr ⟨?_, hprocess⟩), hinside⟩,
      Finset.mem_insert_of_mem hlive, fun j process' hprocess' => ?_⟩
    · intro hi
      rw [hi, hnew] at hprocess
      cases hprocess
    · rcases mem_update.mp hprocess' with ⟨-, rfl⟩ | ⟨-, hprocess'⟩
      · rintro rfl
        exact hfresh.2 hlive
      · exact hother j process' hprocess'

theorem Sound.switchTo (h : Sound s) {i : ι} {process : Process} {frame : ℕ} {hart : Hart ι}
    {call : Call ι} (hprocess : process ∈ s.processes i) (hstate : process.state ≠ .running)
    (hfresh : s.Fresh frame) (hcall : hart.call = some call) (hi : call.process = i)
    (hframe : call.frame = frame) (hsscratch : hart.cpu.sscratch = process.trapFrame)
    (frames : Frames) :
    Sound ⟨Function.update s.harts hartid (some hart), frames, insert frame s.live,
      Function.update s.processes i (some { process with state := .running })⟩ := by
  subst hi hframe
  -- The processes have the frames that they had.
  have hbefore : ∀ j, ∀ process' ∈ Function.update s.processes call.process
        (some { process with state := .running }) j,
      ∃ process₁ ∈ s.processes j, process'.trapFrame = process₁.trapFrame := by
    intro j process' hprocess'
    rcases mem_update.mp hprocess' with ⟨rfl, rfl⟩ | ⟨-, hprocess'⟩
    · exact ⟨process, hprocess, rfl⟩
    · exact ⟨process', hprocess', rfl⟩
  -- No hart has been inside the process, or had the new frame.
  have hothers : ∀ hartid', ∀ hart' ∈ s.harts hartid', ∀ call' ∈ hart'.call,
      call'.process ≠ call.process ∧ call'.frame ≠ call.frame := by
    intro hartid' hart' hhart' call' hcall'
    obtain ⟨⟨process', hprocess', hrunning, -⟩, hlive, -⟩ :=
      h.calls hartid' hart' hhart' call' hcall'
    refine ⟨fun hsame => ?_, fun hsame => hfresh.2 (hsame ▸ hlive)⟩
    rw [hsame] at hprocess'
    obtain rfl := Option.some.inj (hprocess.symm.trans hprocess')
    exact hstate hrunning
  refine ⟨fun j process' hprocess' => ?_, fun j k process₁ hprocess₁ process₂ hprocess₂ hsame => ?_,
    fun hartid' hart' hhart' call' hcall' => ?_, ?_⟩
  · obtain ⟨process₁, hprocess₁, htrapFrame⟩ := hbefore j process' hprocess'
    exact Finset.mem_insert_of_mem (htrapFrame ▸ h.live j process₁ hprocess₁)
  · obtain ⟨process₃, hprocess₃, htrapFrame₃⟩ := hbefore j process₁ hprocess₁
    obtain ⟨process₄, hprocess₄, htrapFrame₄⟩ := hbefore k process₂ hprocess₂
    exact h.distinct j k process₃ hprocess₃ process₄ hprocess₄
      (htrapFrame₃.symm.trans (hsame.trans htrapFrame₄))
  · rcases mem_update.mp hhart' with ⟨-, rfl⟩ | ⟨-, hhart'⟩
    · obtain rfl := Option.some.inj (hcall.symm.trans hcall')
      refine ⟨⟨_, mem_update.mpr (Or.inl ⟨rfl, rfl⟩), rfl, hsscratch⟩, Finset.mem_insert_self _ _,
        fun j process' hprocess' hsame => ?_⟩
      obtain ⟨process₁, hprocess₁, htrapFrame⟩ := hbefore j process' hprocess'
      exact hfresh.2 (hsame ▸ htrapFrame ▸ h.live j process₁ hprocess₁)
    · obtain ⟨⟨process', hprocess', hinside⟩, hlive, hother⟩ :=
        h.calls hartid' hart' hhart' call' hcall'
      refine ⟨⟨process', mem_update.mpr (Or.inr ⟨(hothers hartid' hart' hhart' call' hcall').1,
        hprocess'⟩), hinside⟩, Finset.mem_insert_of_mem hlive, fun j process'' hprocess'' => ?_⟩
      obtain ⟨process₁, hprocess₁, htrapFrame⟩ := hbefore j process'' hprocess''
      exact htrapFrame ▸ hother j process₁ hprocess₁
  · intro hartid₁ hartid₂ hart₁ hhart₁ hart₂ hhart₂ call₁ hcall₁ call₂ hcall₂ hsame
    rcases mem_update.mp hhart₁ with ⟨rfl, rfl⟩ | ⟨-, hbefore₁⟩ <;>
      rcases mem_update.mp hhart₂ with ⟨rfl, rfl⟩ | ⟨-, hbefore₂⟩
    · rfl
    · obtain rfl := Option.some.inj (hcall.symm.trans hcall₁)
      obtain ⟨hprocess₂, hframe₂⟩ := hothers hartid₂ hart₂ hbefore₂ call₂ hcall₂
      exact (hsame.elim (fun h => hprocess₂ h.symm) fun h => hframe₂ h.symm).elim
    · obtain rfl := Option.some.inj (hcall.symm.trans hcall₂)
      obtain ⟨hprocess₁, hframe₁⟩ := hothers hartid₁ hart₁ hbefore₁ call₁ hcall₁
      exact (hsame.elim hprocess₁ hframe₁).elim
    · exact h.exclusive hartid₁ hartid₂ hart₁ hbefore₁ hart₂ hbefore₂ call₁ hcall₁ call₂ hcall₂
        hsame

theorem Sound.returns (h : Sound s) {hart hart' : Hart ι} {call : Call ι}
    (hhart : hart ∈ s.harts hartid) (hcall : hart.call = some call) (hkernel : hart'.call = none)
    (frames : Frames) :
    Sound ⟨Function.update s.harts hartid (some hart'), frames, s.live.erase call.frame,
      Function.update s.processes call.process
        ((s.processes call.process).map fun process => { process with state := .paused })⟩ := by
  obtain ⟨⟨process, hprocess, hrunning, hsscratch⟩, hlive, hother⟩ :=
    h.calls hartid hart hhart call hcall
  rw [Option.mem_def.mp hprocess, Option.map_some]
  have hbefore : ∀ j, ∀ process' ∈ Function.update s.processes call.process
        (some { process with state := .paused }) j,
      ∃ process₁ ∈ s.processes j, process'.trapFrame = process₁.trapFrame := by
    intro j process' hprocess'
    rcases mem_update.mp hprocess' with ⟨rfl, rfl⟩ | ⟨-, hprocess'⟩
    · exact ⟨process, hprocess, rfl⟩
    · exact ⟨process', hprocess', rfl⟩
  -- The hart that comes back is in the kernel, and the others run other processes.
  have hothers : ∀ hartid', ∀ hart₁ ∈ Function.update s.harts hartid (some hart') hartid',
      ∀ call' ∈ hart₁.call, hart₁ ∈ s.harts hartid' ∧ call'.process ≠ call.process ∧
        call'.frame ≠ call.frame := by
    intro hartid' hart₁ hhart₁ call' hcall'
    rcases mem_update.mp hhart₁ with ⟨-, rfl⟩ | ⟨hne, hhart₁⟩
    · rw [hkernel] at hcall'
      cases hcall'
    · refine ⟨hhart₁, fun hsame => hne ?_, fun hsame => hne ?_⟩
      · exact h.exclusive hartid' hartid hart₁ hhart₁ hart hhart call' hcall' call hcall
          (Or.inl hsame)
      · exact h.exclusive hartid' hartid hart₁ hhart₁ hart hhart call' hcall' call hcall
          (Or.inr hsame)
  refine ⟨fun j process' hprocess' => ?_, fun j k process₁ hprocess₁ process₂ hprocess₂ hsame => ?_,
    fun hartid' hart₁ hhart₁ call' hcall' => ?_, ?_⟩
  · obtain ⟨process₁, hprocess₁, htrapFrame⟩ := hbefore j process' hprocess'
    rw [htrapFrame]
    exact Finset.mem_erase.mpr ⟨hother j process₁ hprocess₁, h.live j process₁ hprocess₁⟩
  · obtain ⟨process₃, hprocess₃, htrapFrame₃⟩ := hbefore j process₁ hprocess₁
    obtain ⟨process₄, hprocess₄, htrapFrame₄⟩ := hbefore k process₂ hprocess₂
    exact h.distinct j k process₃ hprocess₃ process₄ hprocess₄
      (htrapFrame₃.symm.trans (hsame.trans htrapFrame₄))
  · obtain ⟨hhart₂, hne, hneframe⟩ := hothers hartid' hart₁ hhart₁ call' hcall'
    obtain ⟨⟨process', hprocess', hinside⟩, hlive', hother'⟩ :=
      h.calls hartid' hart₁ hhart₂ call' hcall'
    refine ⟨⟨process', mem_update.mpr (Or.inr ⟨hne, hprocess'⟩), hinside⟩,
      Finset.mem_erase.mpr ⟨hneframe, hlive'⟩, fun j process'' hprocess'' => ?_⟩
    obtain ⟨process₁, hprocess₁, htrapFrame⟩ := hbefore j process'' hprocess''
    exact htrapFrame ▸ hother' j process₁ hprocess₁
  · intro hartid₁ hartid₂ hart₁ hhart₁ hart₂ hhart₂ call₁ hcall₁ call₂ hcall₂ hsame
    exact h.exclusive hartid₁ hartid₂ hart₁ (hothers hartid₁ hart₁ hhart₁ call₁ hcall₁).1 hart₂
      (hothers hartid₂ hart₂ hhart₂ call₂ hcall₂).1 call₁ hcall₁ call₂ hcall₂ hsame

theorem Sound.step (h : Sound s) (hstep : next beforeReturn s l = some s') : Sound s' := by
  cases steps_of_next hstep with
  | setup cpu stack hlocals hfresh => exact h.setup rfl _ _
  | newSupervisor stack function hhart hfresh =>
    exact h.newSupervisor (newSupervisor_guard hstep) hfresh _
  | switchTo hhart hprocess hfresh =>
    exact h.switchTo hprocess (switchTo_guard hstep _ hprocess) hfresh rfl rfl rfl rfl _
  | exec cpu hhart => exact h.update hhart (by rfl) (by rfl) _
  | handled hhart hctx => exact h.update hhart (by rfl) (by exact (Cpu.trap_of_eq_zero hctx).1) _
  | returns hhart hcall hnull hctx => exact h.returns hhart hcall rfl _

/-- **Every reachable state is sound.** -/
theorem sound (h : (system beforeReturn).Reachable s) : Sound s := by
  refine h.invariant ?_ fun s l s' hs hstep => hs.step hstep
  rintro _ ⟨frames, rfl⟩
  exact sound_start frames

/-! ## What a process goes on with -/

section Runs

variable {i : ι} {cpu cpu' : Cpu} {t u : Transition (State ι) (ℕ × Label ι)}
  {l₀ l₁ l₂ : List (Transition (State ι) (ℕ × Label ι))}

/-- A trap stores what a hart has in its registers to the frame of the process `i`. -/
def Stores (i : ι) (cpu : Cpu) (t : Transition (State ι) (ℕ × Label ι)) : Prop :=
  ∃ hartid, t.label = (hartid, .trap) ∧ (∃ hart ∈ t.before.harts hartid, hart.cpu = cpu) ∧
    ∃ process ∈ t.before.processes i, cpu.sscratch = process.trapFrame

/-- A hart switches to the process `i`, and has these registers then. -/
def Enters (i : ι) (cpu : Cpu) (t : Transition (State ι) (ℕ × Label ι)) : Prop :=
  ∃ hartid frame, t.label = (hartid, .switchTo i frame) ∧
    ∃ hart ∈ t.after.harts hartid, hart.cpu = cpu

/-- The counter and the registers of a program, but for the one that is 0 always. -/
structure Same (registers : Fin 32 → ℕ) (pc : ℕ) (cpu : Cpu) : Prop where
  pc : pc = cpu.pc
  registers : ∀ r, r ≠ 0 → registers r = cpu.registers r

/-- What is stored in the frame of the process `i`. -/
def Holds (i : ι) (cpu : Cpu) (s : State ι) : Prop :=
  ∃ process ∈ s.processes i,
    Same (s.frames process.trapFrame).generalRegisters (s.frames process.trapFrame).pc cpu

/-- `switch_to_and_come_back` leaves the registers in all frames but the new one. -/
theorem enter_frames_ne (beforeReturn : ℕ) (cpu : Cpu) (frames : Frames) (trapFrame : ℕ)
    {frame a : ℕ} (h : a ≠ frame) :
    ((enter beforeReturn cpu frames trapFrame frame).2 a).generalRegisters =
        (frames a).generalRegisters ∧
      ((enter beforeReturn cpu frames trapFrame frame).2 a).pc = (frames a).pc := by
  by_cases ha : a = trapFrame
  · subst ha
    rw [enter_frames_self h]
    exact ⟨rfl, rfl⟩
  · simp [enter, Cpu.storeToTrapFrame, h, ha]

/-- A process that is paused keeps its frame. -/
theorem exists_paused {processes : ι → Option Process} {process : Process} (j : ι)
    (h : process ∈ processes i) :
    ∃ process' ∈ Function.update processes j
        ((processes j).map fun process => { process with state := .paused }) i,
      process'.trapFrame = process.trapFrame := by
  by_cases hij : i = j
  · subst hij
    refine ⟨{ process with state := .paused }, ?_, rfl⟩
    rw [Function.update_self, Option.mem_def.mp h]
    rfl
  · refine ⟨process, ?_, rfl⟩
    rw [Function.update_of_ne hij]
    exact h

/-- A process keeps its frame, and the registers in it unless a trap stores there. -/
theorem Holds.step (hsound : Sound t.before)
    (hstep : next beforeReturn t.before t.label = some t.after)
    (hstores : ∀ cpu', ¬ Stores i cpu' t) (h : Holds i cpu t.before) : Holds i cpu t.after := by
  obtain ⟨s, l, s'⟩ := t
  obtain ⟨process, hprocess, hsame⟩ := h
  have hlive := hsound.live i process hprocess
  -- A new frame is not that of the process.
  have hne : ∀ frame, s.Fresh frame → process.trapFrame ≠ frame := by
    rintro frame hfresh rfl
    exact hfresh.2 hlive
  -- A trap does not store there.
  have htrap : ∀ hartid, ∀ hart ∈ s.harts hartid, l = (hartid, .trap) →
      (hart.cpu.trap s.frames).2 process.trapFrame = s.frames process.trapFrame := by
    intro hartid hart hhart hlabel
    rw [Cpu.trap_frames, Function.update_of_ne]
    intro hsscratch
    exact hstores hart.cpu ⟨hartid, hlabel, ⟨hart, hhart, rfl⟩, process, hprocess, hsscratch.symm⟩
  dsimp only at hstep hprocess hsame hlive ⊢
  cases steps_of_next hstep with
  | setup cpu₁ stack hlocals hfresh =>
    refine ⟨process, hprocess, ?_⟩
    dsimp only
    rw [Function.update_of_ne (hne _ hfresh)]
    exact hsame
  | @newSupervisor hartid hart j frame stack function hhart hfresh =>
    refine ⟨process, mem_update.mpr (Or.inr ⟨?_, hprocess⟩), ?_⟩
    · rintro rfl
      rw [newSupervisor_guard hstep] at hprocess
      cases hprocess
    · dsimp only
      rw [createSupervisor_of_ne _ _ _ _ (hne _ hfresh)]
      exact hsame
  | @switchTo hartid cpu₁ hartLocals j process₁ frame hhart hprocess₁ hfresh =>
    obtain ⟨hregisters, hpc⟩ :=
      enter_frames_ne beforeReturn cpu₁ s.frames process₁.trapFrame (hne frame hfresh)
    by_cases hij : i = j
    · subst hij
      obtain rfl := Option.some.inj (hprocess.symm.trans hprocess₁)
      refine ⟨_, mem_update.mpr (Or.inl ⟨rfl, rfl⟩), ?_⟩
      dsimp only
      rw [hregisters, hpc]
      exact hsame
    · refine ⟨process, mem_update.mpr (Or.inr ⟨hij, hprocess⟩), ?_⟩
      dsimp only
      rw [hregisters, hpc]
      exact hsame
  | exec cpu₁ hhart => exact ⟨process, hprocess, hsame⟩
  | handled hhart hctx =>
    refine ⟨process, hprocess, ?_⟩
    dsimp only
    rw [htrap _ _ hhart rfl]
    exact hsame
  | @returns hartid hart call hhart hcall hnull hctx =>
    obtain ⟨process', hprocess', htrapFrame⟩ := exists_paused call.process hprocess
    refine ⟨process', hprocess', ?_⟩
    dsimp only
    rw [htrapFrame, htrap _ _ hhart rfl]
    exact hsame

/-- A trap leaves in the frame of a process what it stores there. -/
theorem Stores.holds (h : Stores i cpu t)
    (hstep : next beforeReturn t.before t.label = some t.after) : Holds i cpu t.after := by
  obtain ⟨s, l, s'⟩ := t
  obtain ⟨hartid, hlabel, ⟨hart, hhart, rfl⟩, process, hprocess, hsscratch⟩ := h
  dsimp only at hlabel hhart hprocess hstep ⊢
  subst hlabel
  have htrap : (hart.cpu.trap s.frames).2 process.trapFrame =
      { s.frames hart.cpu.sscratch with
        generalRegisters := hart.cpu.registers, pc := hart.cpu.pc } := by
    rw [Cpu.trap_frames, ← hsscratch, Function.update_self]
  cases steps_of_next hstep with
  | handled hhart₁ hctx =>
    obtain rfl := Option.some.inj (hhart.symm.trans hhart₁)
    refine ⟨process, hprocess, ?_⟩
    dsimp only
    rw [htrap]
    exact ⟨rfl, fun _ _ => rfl⟩
  | @returns _ _ call hhart₁ hcall hnull hctx =>
    obtain rfl := Option.some.inj (hhart.symm.trans hhart₁)
    obtain ⟨process', hprocess', htrapFrame⟩ := exists_paused call.process hprocess
    refine ⟨process', hprocess', ?_⟩
    dsimp only
    rw [htrapFrame, htrap]
    exact ⟨rfl, fun _ _ => rfl⟩

/-- The process `i` is there, and does not run. -/
def Waits (i : ι) (s : State ι) : Prop := ∃ process ∈ s.processes i, process.state ≠ .running

/-- A process waits until a hart switches to it. -/
theorem Waits.step (h : Waits i t.before)
    (hstep : next beforeReturn t.before t.label = some t.after)
    (henters : ∀ cpu, ¬ Enters i cpu t) : Waits i t.after := by
  obtain ⟨s, l, s'⟩ := t
  obtain ⟨process, hprocess, hstate⟩ := h
  dsimp only at hstep hprocess ⊢
  cases steps_of_next hstep with
  | setup => exact ⟨process, hprocess, hstate⟩
  | exec => exact ⟨process, hprocess, hstate⟩
  | handled => exact ⟨process, hprocess, hstate⟩
  | @newSupervisor hartid hart j frame stack function hhart hfresh =>
    refine ⟨process, mem_update.mpr (Or.inr ⟨?_, hprocess⟩), hstate⟩
    rintro rfl
    rw [newSupervisor_guard hstep] at hprocess
    cases hprocess
  | @switchTo hartid cpu₁ hartLocals j process₁ frame hhart hprocess₁ hfresh =>
    refine ⟨process, mem_update.mpr (Or.inr ⟨?_, hprocess⟩), hstate⟩
    rintro rfl
    exact henters _ ⟨hartid, frame, rfl, _, mem_update.mpr (Or.inl ⟨rfl, rfl⟩), rfl⟩
  | @returns hartid hart call hhart hcall hnull hctx =>
    by_cases hi : i = call.process
    · subst hi
      refine ⟨{ process with state := .paused }, ?_, nofun⟩
      dsimp only
      rw [Function.update_self, Option.mem_def.mp hprocess]
      rfl
    · refine ⟨process, ?_, hstate⟩
      dsimp only
      rw [Function.update_of_ne hi]
      exact hprocess

end Runs

/-! ## A process that goes on, and one that the kernel has trampled on -/

end Process

end AsyncKernel
