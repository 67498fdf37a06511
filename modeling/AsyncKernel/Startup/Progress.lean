import AsyncKernel.Startup.Harts

/-!
# All harts start

The start of the harts comes to an end, because every step brings the hart that takes it closer to its
own end: the loop of the first hart goes up to the first id that the firmware does not know. When no
hart can take a step any more, the harts of all smaller ids run, but for those that the firmware had
started with the first one, unless the firmware has failed to start one of them.

## Main definitions

* `Machine.known`: the ids below this one are known to the firmware, and this one is not
* `rank`: how far a hart is from its end
* `Resting`: no hart can take a step

## Main results

* `rank_lt_of_move`: a step brings its hart closer to its end
* `harts_start`: the harts come to rest, and then all of them have started
-/

namespace AsyncKernel

namespace Startup

variable {φ : Type}

/-- The first id that the firmware does not know. -/
def Machine.known (M : Machine φ) : ℕ := Nat.find (Infinite.exists_notMem_finset M.harts)

theorem Machine.known_notMem (M : Machine φ) : M.known ∉ M.harts :=
  Nat.find_spec (Infinite.exists_notMem_finset M.harts)

variable (M : Machine φ)

/-- How many steps a hart may have to take. -/
def rank : Pc → ℕ
  | .stopped | .preMain => 2 * M.known + 22
  | .hartEntryPoint _ | .mapTable => 2 * M.known + 21
  | .main _ => 2 * M.known + 20
  | .storeSvBits => 2 * M.known + 19
  | .storeGap => 2 * M.known + 18
  | .initHeap => 2 * M.known + 17
  | .findKernel => 2 * M.known + 16
  | .asyncMain => 2 * M.known + 15
  | .setupMainHart => 2 * M.known + 14
  | .spawnHart hartId => 2 * (M.known - hartId) + 6
  | .startHart hartId => 2 * (M.known - hartId) + 5
  | .setupHart => 4
  | .commonHartCode => 3
  | .mapKernel _ => 2
  | .writeSatp _ => 1
  | .running _ | .alreadyBooted | .panicked | .fault => 0

/-- No hart can take a step. -/
def Resting (s : Parties ℕ Hart (Shared φ)) : Prop := ∀ i l, s.next (move M) (i, l) = none

variable {M} {payload : Usize} {i : ℕ} {l : Label} {hart hart' : Hart}
  {shared shared' : Shared φ}

/-- The loop does not go beyond the first id that the firmware does not know. -/
theorem Shared.Begun.le_known {n : ℕ} (h : shared.Begun M n) : n ≤ M.known := by
  by_contra hlt
  exact M.known_notMem (h M.known (by omega)).1

/-- The loop has gone on for as long as the firmware has known the ids. -/
theorem Shared.Begun.known_le {n : ℕ} (hn : n ∉ M.harts) : M.known ≤ n := by
  by_contra hlt
  exact Nat.find_min (Infinite.exists_notMem_finset M.harts) (not_le.mp hlt) hn

/-- The loop gets closer to its end with every id. -/
theorem rank_lt_of_startHart (hfirmware : M.firmware.IsHsm M.harts) {hartId : ℕ}
    (hbegun : shared.Begun M hartId) (hpc : hart.pc = .startHart hartId)
    (hmove : move M i l hart shared = some (hart', shared')) :
    rank M hart'.pc < rank M hart.pc := by
  have hle := hbegun.le_known
  obtain ⟨result, firmware, hcall, rfl, rfl⟩ := move_startHart hpc hmove
  have hne : hartId ∈ M.harts → hartId ≠ M.known := by
    rintro hmem rfl
    exact M.known_notMem hmem
  rw [hpc]
  cases result with
  | ok =>
    have hne := hne (hfirmware.ok hcall).1
    simp only [StartResult.next, rank]
    omega
  | alreadyAvailable =>
    have hne := hne (hfirmware.alreadyAvailable hcall).1
    simp only [StartResult.next, rank]
    omega
  | invalidParameter =>
    simp only [StartResult.next, rank]
    omega
  | other =>
    simp only [StartResult.next, rank]
    omega

/-- The lookup in its own page table brings a hart closer to its end. -/
theorem rank_checkKernel_lt (found : Option Usize) (kernelPhysical : Usize) :
    rank M (checkKernel found kernelPhysical) < 2 := by
  unfold checkKernel
  split
  · split <;> simp [rank]
  · simp [rank]

/-- Both branches of a step bring its hart closer to its end. -/
theorem rank_lt_of_ite {p : Prop} [Decidable p] {a b : Hart × Shared φ} {n : ℕ}
    (h : (if p then some a else some b) = some (hart', shared'))
    (ha : rank M a.1.pc < n) (hb : rank M b.1.pc < n) : rank M hart'.pc < n := by
  split at h
  · rwa [Option.some.inj h] at ha
  · rwa [Option.some.inj h] at hb

/-- **A step brings its hart closer to its end.** -/
theorem rank_lt_of_move (hfirmware : M.firmware.IsHsm M.harts)
    (hmove : move M i l hart shared = some (hart', shared'))
    (hbegun : ∀ hartId, hart.pc = .startHart hartId → shared.Begun M hartId) :
    rank M hart'.pc < rank M hart.pc := by
  obtain ⟨pc, sp, table⟩ := hart
  cases pc with
  | startHart hartId => exact rank_lt_of_startHart hfirmware (hbegun hartId rfl) rfl hmove
  | stopped =>
    obtain rfl := eq_step_of_move hmove (by rintro _ ⟨⟩)
    obtain ⟨_, -, heq⟩ := Option.map_eq_some_iff.mp hmove
    obtain ⟨rfl, -⟩ := Prod.mk.inj heq
    simp [rank]
  | mapKernel kernelPhysical =>
    obtain rfl := eq_step_of_move hmove (by rintro _ ⟨⟩)
    obtain ⟨rfl, -⟩ := Prod.mk.inj (Option.some.inj hmove)
    exact rank_checkKernel_lt _ _
  | findKernel =>
    obtain rfl := eq_step_of_move hmove (by rintro _ ⟨⟩)
    have hfound : setKernelStart (M.query table kernelStartVirtual) ⟨.findKernel, sp, table⟩ shared =
      (hart', shared') := Option.some.inj hmove
    cases hquery : M.query table kernelStartVirtual with
    | none =>
      rw [hquery] at hfound
      obtain ⟨rfl, -⟩ := Prod.mk.inj hfound
      simp [rank]
    | some a =>
      rw [hquery] at hfound
      obtain ⟨rfl, -⟩ := Prod.mk.inj hfound
      simp [rank]
  | main kernelLen =>
    obtain rfl := eq_step_of_move hmove (by rintro _ ⟨⟩)
    by_cases hbits : shared.globals.svBits ≠ 0
    · exact rank_lt_of_ite ((if_pos hbits).symm.trans hmove) (by simp [rank]) (by simp [rank])
    · obtain ⟨rfl, -⟩ := Prod.mk.inj (Option.some.inj ((if_neg hbits).symm.trans hmove))
      simp [rank]
  | preMain | asyncMain | setupMainHart | setupHart | commonHartCode | writeSatp _ =>
    obtain rfl := eq_step_of_move hmove (by rintro _ ⟨⟩)
    exact rank_lt_of_ite hmove (by simp [rank]) (by simp [rank])
  | hartEntryPoint _ | mapTable | storeSvBits | storeGap | initHeap | spawnHart _ =>
    obtain rfl := eq_step_of_move hmove (by rintro _ ⟨⟩)
    obtain ⟨rfl, -⟩ := Prod.mk.inj (Option.some.inj hmove)
    simp [rank]
  | alreadyBooted | running _ | panicked | fault => cases hmove

/-! ## The runs of the harts -/

/-- A hart that takes a step is known to the firmware. -/
theorem Follows.mem_of_move (hfirmware : M.firmware.IsHsm M.harts)
    (h : Follows M payload i hart shared)
    (hmove : move M i l hart shared = some (hart', shared')) : i ∈ M.harts := by
  obtain ⟨pc, sp, table⟩ := hart
  cases pc with
  | stopped =>
    obtain rfl := eq_step_of_move hmove (by rintro _ ⟨⟩)
    rcases h with hstopped | ⟨a1, -, hready⟩
    · obtain ⟨_, hstart, -⟩ := Option.map_eq_some_iff.mp hmove
      cases hstopped.symm.trans (hfirmware.start hstart).1
    · exact hready.mem
  | preMain => exact h.2
  | hartEntryPoint a1 => exact h.2.mem
  | main _ | setupHart | commonHartCode => exact Up.mem h
  | mapKernel _ | writeSatp _ => exact Up.mem h.1
  | alreadyBooted | running _ => cases hmove
  | _ => exact False.elim h

theorem Boots.begun {hartId : ℕ} (h : Boots M payload i hart shared)
    (hpc : hart.pc = .startHart hartId) : shared.Begun M hartId := by
  have hloop := h.loop
  rw [hpc] at hloop
  exact hloop.1

theorem Follows.ne_startHart (h : Follows M payload i hart shared) (hartId : ℕ) :
    hart.pc ≠ .startHart hartId := by
  intro hpc
  rw [Follows, hpc] at h
  exact h

/-- How many steps all harts may have to take. -/
def remaining (M : Machine φ) (s : Parties ℕ Hart (Shared φ)) : ℕ :=
  ∑ i ∈ M.harts, rank M (s.control i).pc

/-- A step leaves fewer steps to take. -/
theorem Sound.remaining_lt {s s' : Parties ℕ Hart (Shared φ)}
    (hfirmware : M.firmware.IsHsm M.harts) (h : Sound M payload s)
    (hstep : s.next (move M) (i, l) = some s') : remaining M s' < remaining M s := by
  obtain ⟨first, -, -, hharts⟩ := h
  obtain ⟨hart', shared', hmove, -⟩ := Parties.next_eq_some hstep
  have hknown : i ∈ M.harts ∧
      ∀ hartId, (s.control i).pc = .startHart hartId → s.shared.Begun M hartId := by
    by_cases hfirst : first = some i
    · have hboots := (hharts i).1 hfirst
      exact ⟨hboots.mem, fun hartId => hboots.begun⟩
    · have hfollows := (hharts i).2 hfirst
      exact ⟨hfollows.mem_of_move hfirmware hmove,
        fun hartId hpc => absurd hpc (hfollows.ne_startHart hartId)⟩
  have hrank : ∀ hart' shared', move M i l (s.control i) s.shared = some (hart', shared') →
      rank M hart'.pc < rank M (s.control i).pc := fun _ _ hmove =>
    rank_lt_of_move hfirmware hmove hknown.2
  exact Parties.sum_rank_lt hstep hknown.1 hrank

/-! ## Rest -/

/-- The ends of a hart. -/
def Pc.final : Pc → Bool
  | .stopped | .alreadyBooted | .running _ | .panicked | .fault => true
  | _ => false

/-- A hart that is not at an end can take a step. -/
theorem exists_move (hfirmware : M.firmware.IsHsm M.harts) (i : ℕ) (shared : Shared φ)
    (hpc : hart.pc.final = false) : ∃ l next, move M i l hart shared = some next := by
  have hite : ∀ {p : Prop} [Decidable p] {a b : Hart × Shared φ},
      ∃ next, (if p then some a else some b) = some next := by
    intro p _ a b
    split <;> exact ⟨_, rfl⟩
  obtain ⟨pc, sp, table⟩ := hart
  cases pc with
  | startHart hartId =>
    obtain ⟨result, firmware, hcall⟩ :=
      hfirmware.returns shared.firmware hartId (M.stackAddr hartId - shared.globals.gap)
    exact ⟨.returns result, _, Option.map_eq_some_iff.mpr ⟨firmware, hcall, rfl⟩⟩
  | main kernelLen =>
    by_cases hbits : shared.globals.svBits ≠ 0
    · obtain ⟨next, hnext⟩ := hite (p := shared.globals.heap = true)
      exact ⟨.step, next, (if_pos hbits).trans hnext⟩
    · exact ⟨.step, _, if_neg hbits⟩
  | preMain | asyncMain | setupMainHart | setupHart | commonHartCode | writeSatp _ =>
    exact ⟨.step, hite⟩
  | stopped | alreadyBooted | running _ | panicked | fault => cases hpc
  | _ => exact ⟨.step, _, rfl⟩

/-- A hart takes no step at rest. -/
theorem Resting.move_eq_none {s : Parties ℕ Hart (Shared φ)} (h : Resting M s) (i : ℕ) (l : Label) :
    move M i l (s.control i) s.shared = none := by
  have hstep : s.next (move M) (i, l) = none := h i l
  by_contra hmove
  obtain ⟨next, hnext⟩ := Option.ne_none_iff_exists'.mp hmove
  rw [Parties.next, hnext] at hstep
  cases hstep

theorem Resting.final {s : Parties ℕ Hart (Shared φ)} (hfirmware : M.firmware.IsHsm M.harts)
    (h : Resting M s) (i : ℕ) : (s.control i).pc.final = true := by
  by_contra hpc
  obtain ⟨l, next, hnext⟩ := exists_move hfirmware i s.shared (Bool.eq_false_iff.mpr hpc)
  cases (h.move_eq_none i l).symm.trans hnext

/-- The first hart at its end: it runs, or has failed to start another one. -/
theorem Boots.running_of_final (h : Boots M payload i hart shared) (hfinal : hart.pc.final = true) :
    hart.pc = .panicked ∨ hart.pc = .running payload ∧ shared.Begun M M.known := by
  obtain ⟨pc, sp, table⟩ := hart
  have hglobals : pc.bootGlobals payload = some shared.globals := h.globals
  have hloop : pc.LoopDone M payload shared := h.loop
  cases pc with
  | panicked => exact Or.inl rfl
  | running kernelPhysical =>
    obtain ⟨hkernel, n, hn, hbegun⟩ := hloop
    have hle := Shared.Begun.known_le hn
    exact Or.inr ⟨congrArg Pc.running hkernel, fun j hj => hbegun j (hj.trans_le hle)⟩
  | stopped | alreadyBooted | fault => cases hglobals
  | _ => cases hfinal

/-- Another hart at its end that the firmware has been told to start. -/
theorem Follows.running_of_final (hfirmware : M.firmware.IsHsm M.harts)
    (h : Follows M payload i hart shared) (hfinal : hart.pc.final = true)
    (hbegun : M.hsm shared i ≠ .stopped) (hrest : move M i .step hart shared = none) :
    hart.pc = .running payload ∨ hart.pc = .alreadyBooted := by
  obtain ⟨pc, sp, table⟩ := hart
  cases pc with
  | stopped =>
    -- a start that is pending is a step
    obtain ⟨a1, hpending, -⟩ := Or.resolve_left h hbegun
    exact absurd (Option.map_eq_none_iff.mp hrest) (hfirmware.starts hpending)
  | alreadyBooted => exact Or.inr rfl
  | running kernelPhysical => exact Or.inl (congrArg Pc.running h.2)
  | panicked | fault => exact False.elim h
  | _ => cases hfinal

/-- **All harts start**: after finitely many steps, in whatever order, no hart can take a step any
more, and once a hart has swapped first, the harts of all ids up to the first one that the firmware
does not know run then, or are among those that have come to `pre_main` later; unless the firmware has
failed to start one of them. -/
theorem harts_start {s : Parties ℕ Hart (Shared φ)} (h : (harts M).Reachable s)
    (hfirmware : M.firmware.IsHsm M.harts) (hmapped : M.Mapped payload) :
    (∀ run, (harts M).IsRun s run → run.length ≤ remaining M s) ∧
      (Resting M s → s.shared.alreadyBooted = true →
        (∃ i, (s.control i).pc = .panicked) ∨
        ∀ i < M.known, (s.control i).pc = .running payload ∨ (s.control i).pc = .alreadyBooted) := by
  have hsound := sound h hfirmware hmapped
  refine ⟨fun run hrun => ?_, fun hrest hbooted => ?_⟩
  · exact hrun.length_le (I := Sound M payload) (remaining M) hsound fun _ _ _ hs hstep =>
      ⟨hs.step hfirmware hmapped hstep, hs.remaining_lt hfirmware hstep⟩
  · obtain ⟨first, hfirst, -, hharts⟩ := hsound
    rw [hbooted] at hfirst
    obtain ⟨b, rfl⟩ := Option.isSome_iff_exists.mp hfirst.symm
    have hfinal := hrest.final hfirmware
    rcases ((hharts b).1 rfl).running_of_final (hfinal b) with hpanicked | ⟨hrunning, hbegun⟩
    · exact Or.inl ⟨b, hpanicked⟩
    · refine Or.inr fun i hi => ?_
      by_cases hb : b = i
      · exact Or.inl (hb ▸ hrunning)
      · have hfollows := (hharts i).2 fun heq => hb (Option.some.inj heq)
        exact hfollows.running_of_final hfirmware (hfinal i) (hbegun i hi).2
          (hrest.move_eq_none i .step)

/-- Two harts that have started. -/
def twoHartsEnd : Parties ℕ Hart (Shared (ℕ → HartState)) :=
  (twoHartsRun.foldlM (Parties.next (move twoHarts)) powerOn).getD powerOn

theorem resting_twoHartsEnd : Resting twoHarts twoHartsEnd := by
  intro i l
  match i with
  | 0 => cases l <;> rfl
  | 1 => cases l <;> rfl
  | i + 2 => cases l <;> rfl

/-- Two harts whose lookups are those in the page table of the bootloader, and in page tables that
harts make. -/
def bootedHarts (booted : Memory 8) : Machine (ℕ → HartState) :=
  { twoHarts with
    query := bootQuery 0x80200000 booted
    hartQuery := fun _ => hartQuery kernelHeap emptyMemory }

/-- Two harts that have started under the page table that the bootloader has built for them come to
rest, and both of them run. -/
theorem harts_start_twoHarts :
    (∀ i < twoHarts.known, (twoHartsEnd.control i).pc = .running 0x80210000 ∨
      (twoHartsEnd.control i).pc = .alreadyBooted) ∧
    ∃ booted, preMain (physicalSv39 0x80200000) bootHeap 0x80210000 169868 bootMemory = .ok booted ∧
      ∀ run, (harts (bootedHarts booted)).IsRun powerOn run →
        run.length ≤ remaining (bootedHarts booted) powerOn := by
  have hfirmware := isHsm_hsmFirmware {0, 1}
  constructor
  · have hrun : twoHartsRun.foldlM (Parties.next (move twoHarts)) powerOn = some twoHartsEnd := rfl
    have hreach : (harts twoHarts).Reachable twoHartsEnd :=
      .foldlM (fun _ _ _ h => h) (.init (initial_powerOn (by decide) rfl)) hrun
    refine ((harts_start hreach hfirmware mapped_twoHarts).2 resting_twoHartsEnd rfl).resolve_left ?_
    rintro ⟨i, hi⟩
    match i with
    | 0 => cases hi
    | 1 => cases hi
    | i + 2 => cases hi
  · obtain ⟨booted, hrun⟩ := exists_booted
    have hlookup : (bootedHarts booted).hartQuery = fun _ => hartQuery kernelHeap emptyMemory := by
      rw [bootedHarts]
    have hmapped : (bootedHarts booted).Mapped 0x80210000 := by
      refine ⟨bootQuery_start boot_bootable hrun, fun _ _ => ?_, mapped_twoHarts.aligned⟩
      rw [hlookup]
      exact hartQuery_start kernel_hartHeap boot_bootable.aligned boot_bootable.bytes_le
    have hmem : 0 ∈ (bootedHarts booted).harts := Finset.mem_insert_self 0 {1}
    exact ⟨booted, hrun, (harts_start (.init (initial_powerOn hmem rfl)) hfirmware hmapped).1⟩

end Startup

end AsyncKernel
