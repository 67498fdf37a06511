import AsyncKernel.Foundation.Parties
import AsyncKernel.Paging.Boot

/-!
# Starting the harts

The first hart that swaps `ALREADY_BOOTED` maps the kernel and goes on to its `main`, where it sets the
statics of the kernel and starts the other harts, one id after the other, until the firmware knows an
id no more. It hands each of them a stack with the value of `satp` in its last word, at the physical
address of this word. A hart that the firmware has started loads `satp` from there, and takes the
other branch of `main`, because `SV_BITS` is set. It needs what the first hart has set up before: the
heap, the executor that all harts share, and the address of the kernel. Every hart makes a page table
of its own in `common_hart_code`, and goes on with it; what follows is not modelled.

The firmware and the crate `sbi` are a parameter. What their specification says of the harts is
`Firmware.IsHsm`.

## Main definitions

* `Firmware`, `Firmware.IsHsm`: the harts as the firmware starts them
* `Machine`: what is fixed before the harts start
* `Pc`, `Globals`, `Shared`: what a hart does next, the statics of the kernel, and what all harts see
* `move`, `harts`: one step of a hart, and the harts in any order
* `Sound`: what every hart may rely on

## Main results

* `sound`: every reachable state is sound
* `harts_safe`: no hart faults, one hart boots, and every hart has its own stack, the page table of
  the bootloader and then one of its own, and the statics
* `hartQuery_start`: a hart finds the kernel in the page table that it has made
-/

namespace AsyncKernel

namespace Startup

/-- What the firmware knows of a hart. -/
inductive HartState
  | stopped
  | startPending (opaqueArg : Usize)
  | started
  deriving DecidableEq, Repr

/-- What `hart_start` of the crate `sbi` returns. -/
inductive StartResult
  | ok
  | alreadyAvailable
  | invalidParameter
  /-- another `SbiError` -/
  | other
  deriving DecidableEq, Repr

/-- The firmware, with the crate `sbi`: what it knows of a hart, what a call of `hart_start` with an id
and an opaque argument makes of its state when it returns a result, and what starting a hart does,
which has the opaque argument in `a1`. -/
structure Firmware (φ : Type) where
  status : φ → ℕ → HartState
  hartStart : φ → ℕ → Usize → StartResult → Option φ
  start : φ → ℕ → Option (Usize × φ)

/-- What the specification says of a firmware that knows some ids. -/
structure Firmware.IsHsm {φ : Type} (F : Firmware φ) (harts : Finset ℕ) : Prop where
  returns : ∀ f i a, ∃ result f', F.hartStart f i a result = some f'
  /-- The hart was stopped, and will start. -/
  ok : ∀ {f i a f'}, F.hartStart f i a .ok = some f' → i ∈ harts ∧ F.status f i = .stopped ∧
    F.status f' = Function.update (F.status f) i (.startPending a)
  alreadyAvailable : ∀ {f i a f'}, F.hartStart f i a .alreadyAvailable = some f' →
    i ∈ harts ∧ F.status f i ≠ .stopped ∧ F.status f' = F.status f
  invalidParameter : ∀ {f i a f'}, F.hartStart f i a .invalidParameter = some f' →
    i ∉ harts ∧ F.status f' = F.status f
  other : ∀ {f i a f'}, F.hartStart f i a .other = some f' → F.status f' = F.status f
  start : ∀ {f i a f'}, F.start f i = some (a, f') → F.status f i = .startPending a ∧
    F.status f' = Function.update (F.status f) i .started
  /-- A hart whose start is pending starts. -/
  starts : ∀ {f i a}, F.status f i = .startPending a → F.start f i ≠ none

/-- What is fixed before the harts start. -/
structure Machine (φ : Type) where
  /-- the ids that the firmware knows -/
  harts : Finset ℕ
  firmware : Firmware φ
  /-- `TABLE` -/
  table : Usize
  /-- `ALIGNED_BYTES.len()` -/
  payloadLen : ℕ
  /-- `_stack_start` -/
  stackStart : Usize
  /-- the lookup of an address in the page table of a `satp` -/
  query : Usize → Usize → Option Usize
  /-- the end of the stack that the loop allocates for an id -/
  stackEnd : ℕ → Usize
  /-- what `hart_entry` itself takes of the stack -/
  entryFrame : Usize
  /-- where a hart allocates the root of its own page table -/
  hartTable : ℕ → Usize
  /-- the lookup of an address in the page table that a hart makes for a kernel -/
  hartQuery : ℕ → Usize → Usize → Option Usize

/-- What a hart does next. -/
inductive Pc
  /-- in the firmware -/
  | stopped
  /-- `pre_main`, up to the swap -/
  | preMain
  /-- `loop {}` -/
  | alreadyBooted
  /-- the map calls of `pre_main`, and `satp` -/
  | mapTable
  /-- `hart_entry_point` and `hart_entry`, with a pointer to the stack -/
  | hartEntryPoint (a1 : Usize)
  /-- `main`, up to the load of `SV_BITS` -/
  | main (kernelLen : ℕ)
  | storeSvBits
  | storeGap
  | initHeap
  | findKernel
  /-- `async_main`, up to the executor -/
  | asyncMain
  /-- `setup_hart_state_and_metadata`, of the first hart and of the others -/
  | setupMainHart
  | setupHart
  /-- the loop of `async_main`: a stack for an id, and the call of the firmware -/
  | spawnHart (hartId : ℕ)
  | startHart (hartId : ℕ)
  /-- `common_hart_code`, up to the load of the address of the kernel -/
  | commonHartCode
  /-- its map calls and the lookup, with the address that it has loaded -/
  | mapKernel (kernelPhysical : Usize)
  | writeSatp (kernelPhysical : Usize)
  /-- what follows, which is not modelled -/
  | running (kernelPhysical : Usize)
  /-- an error of the firmware that is not handled -/
  | panicked
  /-- an `unwrap` of `None`, an assertion that fails, or an allocation without a heap -/
  | fault
  deriving DecidableEq, Repr

structure Hart where
  pc : Pc
  sp : Usize
  satp : Usize
  deriving DecidableEq, Repr

/-- The statics of the kernel: `SV_BITS`, `GAP`, whether the allocator has been initialized,
`KERNEL_START_PHYSICAL`, and whether there is a `GLOBAL_EXECUTOR`. -/
structure Globals where
  svBits : ℕ
  gap : Usize
  heap : Bool
  kernelStart : Usize
  executor : Bool
  deriving DecidableEq, Repr

/-- What all harts see. The words of the memory are under their physical addresses. -/
structure Shared (φ : Type) where
  alreadyBooted : Bool
  globals : Globals
  words : Usize → Usize
  firmware : φ

/-- A hart goes on, or a call of the firmware returns. -/
inductive Label
  | step
  | returns (result : StartResult)
  deriving DecidableEq, Repr

variable {φ : Type} (M : Machine φ)

/-- The last word of the stack for an id, where the kernel sees it. -/
def Machine.stackAddr (hartId : ℕ) : Usize := M.stackEnd hartId - 8

/-- What the firmware knows of the harts. -/
def Machine.hsm (shared : Shared φ) : ℕ → HartState := M.firmware.status shared.firmware

/-- What the loop makes of the result of `hart_start`. -/
def StartResult.next (hartId : ℕ) : StartResult → Pc
  | .ok | .alreadyAvailable => .spawnHart (hartId + 1)
  | .invalidParameter => .commonHartCode
  | .other => .panicked

/-- The address of the kernel, when it has been found. -/
def setKernelStart (found : Option Usize) (hart : Hart) (shared : Shared φ) : Hart × Shared φ :=
  match found with
  | some a => ({ hart with pc := .asyncMain }, { shared with globals.kernelStart := a })
  | none => ({ hart with pc := .fault }, shared)

/-- What a hart does after the lookup in its own page table. -/
def checkKernel (found : Option Usize) (kernelPhysical : Usize) : Pc :=
  match found with
  | some a => if a ≠ 0 then .writeSatp kernelPhysical else .fault
  | none => .fault

/-- One step of a hart. -/
def move (hartid : ℕ) (l : Label) (hart : Hart) (shared : Shared φ) :
    Option (Hart × Shared φ) :=
  match hart.pc, l with
  | .stopped, .step =>
    (M.firmware.start shared.firmware hartid).map fun started =>
      ({ hart with pc := .hartEntryPoint started.1 }, { shared with firmware := started.2 })
  | .preMain, .step =>
    if shared.alreadyBooted then some ({ hart with pc := .alreadyBooted }, shared)
    else some ({ hart with pc := .mapTable }, { shared with alreadyBooted := true })
  | .mapTable, .step =>
    some (⟨.main (paddedLen M.payloadLen), M.stackStart + gap 39, satp M.table⟩, shared)
  | .hartEntryPoint a1, .step =>
    -- the stack pointer is moved to the upper half by a constant
    some (⟨.main 0, a1 - M.entryFrame + 0xffffffc000000000, shared.words a1⟩, shared)
  | .main _, .step =>
    if shared.globals.svBits ≠ 0 then
      if shared.globals.heap then some ({ hart with pc := .setupHart }, shared)
      else some ({ hart with pc := .fault }, shared)
    else some ({ hart with pc := .storeSvBits }, shared)
  | .storeSvBits, .step =>
    some ({ hart with pc := .storeGap }, { shared with globals.svBits := 39 })
  | .storeGap, .step =>
    some ({ hart with pc := .initHeap }, { shared with globals.gap := gap 39 })
  | .initHeap, .step =>
    some ({ hart with pc := .findKernel }, { shared with globals.heap := true })
  | .findKernel, .step =>
    some (setKernelStart (M.query hart.satp kernelStartVirtual) hart shared)
  | .asyncMain, .step =>
    if shared.globals.heap then
      some ({ hart with pc := .setupMainHart }, { shared with globals.executor := true })
    else some ({ hart with pc := .fault }, shared)
  | .setupMainHart, .step =>
    if shared.globals.executor ∧ shared.globals.heap then
      some ({ hart with pc := .spawnHart 0 }, shared)
    else some ({ hart with pc := .fault }, shared)
  | .spawnHart hartId, .step =>
    -- the page table of the bootloader maps the upper half to physical memory
    some ({ hart with pc := .startHart hartId },
      { shared with words :=
          Function.update shared.words (virtToPhys (M.stackAddr hartId)) hart.satp })
  | .startHart hartId, .returns result =>
    (M.firmware.hartStart shared.firmware hartId (M.stackAddr hartId - shared.globals.gap)
      result).map fun firmware =>
        ({ hart with pc := result.next hartId }, { shared with firmware })
  | .setupHart, .step =>
    if shared.globals.executor ∧ shared.globals.heap then
      some ({ hart with pc := .commonHartCode }, shared)
    else some ({ hart with pc := .fault }, shared)
  | .commonHartCode, .step =>
    if shared.globals.heap then
      some ({ hart with pc := .mapKernel shared.globals.kernelStart }, shared)
    else some ({ hart with pc := .fault }, shared)
  | .mapKernel kernelPhysical, .step =>
    some ({ hart with
      pc := checkKernel (M.hartQuery hartid kernelPhysical (kernelStartVirtual + 0x1000))
        kernelPhysical }, shared)
  | .writeSatp kernelPhysical, .step =>
    if M.hartTable hartid &&& 4095 = 0 then
      some ({ hart with
        pc := .running kernelPhysical
        satp := satp (M.hartTable hartid - shared.globals.gap) }, shared)
    else some ({ hart with pc := .fault }, shared)
  | _, _ => none

/-- The statics before `main`. -/
def Globals.zero : Globals := ⟨0, 0, false, 0, false⟩

/-- The firmware has started some harts at `pre_main`. -/
def Initial (s : Parties ℕ Hart (Shared φ)) : Prop :=
  s.shared.alreadyBooted = false ∧ s.shared.globals = .zero ∧
    ∀ i, (s.control i).pc = .stopped ∧ M.hsm s.shared i = .stopped ∨
      (s.control i).pc = .preMain ∧ M.hsm s.shared i = .started ∧ i ∈ M.harts

/-- **The harts of a machine**, in any order. -/
def harts : TransitionSystem (Parties ℕ Hart (Shared φ)) (ℕ × Label) :=
  Parties.system (Initial M) (move M)

/-! ## What a hart may rely on -/

/-- What the page tables of a machine hold: that of the bootloader the payload, and those that the
harts make for it something behind its first page. The allocator aligns their roots. -/
structure Machine.Mapped (payload : Usize) : Prop where
  boot : M.query (satp M.table) kernelStartVirtual = some payload
  own : ∀ i ∈ M.harts, ∃ a ≠ 0, M.hartQuery i payload (kernelStartVirtual + 0x1000) = some a
  aligned : ∀ i ∈ M.harts, M.hartTable i &&& 4095 = 0

/-- The statics from the loop of `async_main` on. -/
def Globals.up (payload : Usize) : Globals := ⟨39, AsyncKernel.gap 39, true, payload, true⟩

/-- The statics that the first hart has set. -/
def Pc.bootGlobals (payload : Usize) : Pc → Option Globals
  | .mapTable | .main _ | .storeSvBits => some .zero
  | .storeGap => some ⟨39, 0, false, 0, false⟩
  | .initHeap => some ⟨39, gap 39, false, 0, false⟩
  | .findKernel => some ⟨39, gap 39, true, 0, false⟩
  | .asyncMain => some ⟨39, gap 39, true, payload, false⟩
  | .setupMainHart | .spawnHart _ | .startHart _ | .commonHartCode | .mapKernel _ | .writeSatp _
  | .running _ | .panicked => some (.up payload)
  | _ => none

/-- The page table of a hart that has got to `main`. -/
def Pc.table (i : ℕ) : Pc → Usize
  | .running _ => satp (virtToPhys (M.hartTable i))
  | _ => satp M.table

/-- The harts of all ids below one are known to the firmware, and started. -/
def Shared.Begun (shared : Shared φ) (n : ℕ) : Prop :=
  ∀ i < n, i ∈ M.harts ∧ M.hsm shared i ≠ .stopped

/-- What the loop of the first hart has done. -/
def Pc.LoopDone (payload : Usize) (shared : Shared φ) : Pc → Prop
  | .spawnHart hartId => shared.Begun M hartId
  | .startHart hartId => shared.Begun M hartId ∧
      shared.words (virtToPhys (M.stackAddr hartId)) = satp M.table
  | .commonHartCode => ∃ n, n ∉ M.harts ∧ shared.Begun M n
  | .mapKernel kernelPhysical | .writeSatp kernelPhysical | .running kernelPhysical =>
    kernelPhysical = payload ∧ ∃ n, n ∉ M.harts ∧ shared.Begun M n
  | _ => True

/-- The hart that has swapped first. -/
structure Boots (payload : Usize) (i : ℕ) (hart : Hart) (shared : Shared φ) : Prop where
  mem : i ∈ M.harts
  started : M.hsm shared i = .started
  globals : hart.pc.bootGlobals payload = some shared.globals
  loaded : hart.pc ≠ .mapTable →
    hart.satp = hart.pc.table M i ∧ hart.sp = M.stackStart + gap 39
  loop : hart.pc.LoopDone M payload shared

/-- A hart may start with a pointer to its stack. -/
structure Ready (payload : Usize) (i : ℕ) (a1 : Usize) (shared : Shared φ) : Prop where
  mem : i ∈ M.harts
  globals : shared.globals = .up payload
  stack : a1 = virtToPhys (M.stackAddr i)
  word : shared.words a1 = satp M.table

/-- A hart has started, with the page table of the first one or one of its own, and a stack of its
own. -/
structure Up (payload : Usize) (i : ℕ) (hart : Hart) (shared : Shared φ) : Prop where
  mem : i ∈ M.harts
  started : M.hsm shared i = .started
  globals : shared.globals = .up payload
  table : hart.satp = hart.pc.table M i
  stack : hart.sp = M.stackAddr i - M.entryFrame

theorem Up.withPc {M : Machine φ} {payload : Usize} {i : ℕ} {hart : Hart} {shared : Shared φ}
    (h : Up M payload i hart shared) (pc : Pc) (hpc : pc.table M i = hart.pc.table M i) :
    Up M payload i { hart with pc } shared :=
  ⟨h.mem, h.started, h.globals, h.table.trans hpc.symm, h.stack⟩

/-- Any other hart. -/
def Follows (payload : Usize) (i : ℕ) (hart : Hart) (shared : Shared φ) : Prop :=
  match hart.pc with
  | .stopped => M.hsm shared i = .stopped ∨
      ∃ a1, M.hsm shared i = .startPending a1 ∧ Ready M payload i a1 shared
  | .preMain => M.hsm shared i = .started ∧ i ∈ M.harts
  | .alreadyBooted => M.hsm shared i = .started
  | .hartEntryPoint a1 => M.hsm shared i = .started ∧ Ready M payload i a1 shared
  | .main _ | .setupHart | .commonHartCode => Up M payload i hart shared
  | .mapKernel kernelPhysical | .writeSatp kernelPhysical | .running kernelPhysical =>
    Up M payload i hart shared ∧ kernelPhysical = payload
  | _ => False

/-- **What every hart may rely on**: one hart has swapped first, or none, and all others follow. -/
def Sound (payload : Usize) (s : Parties ℕ Hart (Shared φ)) : Prop :=
  ∃ first : Option ℕ, s.shared.alreadyBooted = first.isSome ∧
    (first = none → s.shared.globals = .zero) ∧
    ∀ i, (first = some i → Boots M payload i (s.control i) s.shared) ∧
      (first ≠ some i → Follows M payload i (s.control i) s.shared)

variable {M} {payload : Usize} {i j : ℕ} {l : Label} {hart hart' : Hart}
  {shared shared' : Shared φ}

theorem sound_of_initial {s : Parties ℕ Hart (Shared φ)} (h : Initial M s) : Sound M payload s := by
  obtain ⟨hbooted, hglobals, hharts⟩ := h
  refine ⟨none, hbooted, fun _ => hglobals, fun i => ⟨nofun, fun _ => ?_⟩⟩
  rcases hharts i with ⟨hpc, hhsm⟩ | ⟨hpc, hhsm, hmem⟩
  · rw [Follows, hpc]
    exact Or.inl hhsm
  · rw [Follows, hpc]
    exact ⟨hhsm, hmem⟩

/-! ## Steps of the first hart -/

theorem Ready.mono {a1 : Usize} (h : Ready M payload i a1 shared)
    (hglobals : shared.globals = .up payload → shared'.globals = .up payload)
    (hwords : ∀ a, shared.words a = satp M.table → shared'.words a = satp M.table) :
    Ready M payload i a1 shared' :=
  ⟨h.mem, hglobals h.globals, h.stack, hwords _ h.word⟩

/-- What a hart relies on stays as it is while the statics and the words for other harts do. -/
theorem Follows.mono (h : Follows M payload i hart shared)
    (hglobals : shared.globals = .up payload → shared'.globals = .up payload)
    (hwords : ∀ a, shared.words a = satp M.table → shared'.words a = satp M.table)
    (hhsm : M.hsm shared' i = M.hsm shared i) : Follows M payload i hart shared' := by
  have hup : ∀ {hart}, Up M payload i hart shared → Up M payload i hart shared' :=
    fun h => ⟨h.mem, hhsm.trans h.started, hglobals h.globals, h.table, h.stack⟩
  obtain ⟨pc, sp, table⟩ := hart
  cases pc with
  | stopped =>
    rcases h with hstopped | ⟨a1, hpending, hready⟩
    · exact Or.inl (hhsm.trans hstopped)
    · exact Or.inr ⟨a1, hhsm.trans hpending, hready.mono hglobals hwords⟩
  | preMain => exact ⟨hhsm.trans h.1, h.2⟩
  | alreadyBooted => exact hhsm.trans h
  | hartEntryPoint a1 => exact ⟨hhsm.trans h.1, h.2.mono hglobals hwords⟩
  | main _ | setupHart | commonHartCode => exact hup h
  | mapKernel _ | writeSatp _ | running _ => exact ⟨hup h.1, h.2⟩
  | _ => exact h

/-- Every hart but a stopped one has been started. -/
theorem Follows.started (h : Follows M payload i hart shared) (hpc : hart.pc ≠ .stopped) :
    M.hsm shared i = .started := by
  obtain ⟨pc, sp, table⟩ := hart
  cases pc with
  | stopped => exact absurd rfl hpc
  | preMain => exact h.1
  | alreadyBooted => exact h
  | hartEntryPoint a1 => exact h.1
  | main _ | setupHart | commonHartCode => exact Up.started h
  | mapKernel _ | writeSatp _ | running _ => exact Up.started h.1
  | _ => exact False.elim h

/-- A hart that is stopped may be started with its stack. -/
theorem Follows.start (h : Follows M payload i hart shared) (hstopped : M.hsm shared i = .stopped)
    {a1 : Usize} (hready : Ready M payload i a1 shared) {firmware : φ}
    (hfirmware : M.firmware.status firmware i = .startPending a1) :
    Follows M payload i hart { shared with firmware } := by
  have hpc : hart.pc = .stopped := by
    by_contra hpc
    cases hstopped.symm.trans (h.started hpc)
  rw [Follows, hpc]
  exact Or.inr ⟨a1, hfirmware, ⟨hready.mem, hready.globals, hready.stack, hready.word⟩⟩

/-- The statics are not all set while there is no executor. -/
theorem ne_up {g : Globals} (h : g.executor = false) : g ≠ .up payload := by
  rintro rfl
  exact Bool.noConfusion h

/-- Once the statics are set, `GAP` gives the physical address. -/
theorem sub_gap {g : Globals} (h : g = .up payload) (a : Usize) : a - g.gap = virtToPhys a :=
  congrArg (a - ·) (congrArg Globals.gap h)

/-- The step of the first hart sets a static. -/
theorem follows_of_globals {g : Globals} (hglobals : shared.globals.executor = false)
    (h : Follows M payload i hart shared) :
    Follows M payload i hart { shared with globals := g } :=
  h.mono (fun hup => absurd hup (ne_up hglobals)) (fun _ h => h) rfl

theorem Shared.Begun.succ {n : ℕ} (h : shared.Begun M n) (hmem : n ∈ M.harts)
    (hn : M.hsm shared n ≠ .stopped) : shared.Begun M (n + 1) := by
  intro j hj
  rcases Nat.lt_succ_iff_lt_or_eq.mp hj with hlt | rfl
  · exact h j hlt
  · exact ⟨hmem, hn⟩

theorem Shared.Begun.mono {n : ℕ} (h : shared.Begun M n)
    (hhsm : ∀ j, M.hsm shared j ≠ .stopped → M.hsm shared' j ≠ .stopped) : shared'.Begun M n :=
  fun j hj => ⟨(h j hj).1, hhsm j (h j hj).2⟩

/-- What the call of the firmware does. -/
theorem move_startHart {hartId : ℕ} (hpc : hart.pc = .startHart hartId)
    (hmove : move M i l hart shared = some (hart', shared')) :
    ∃ result firmware, M.firmware.hartStart shared.firmware hartId
        (M.stackAddr hartId - shared.globals.gap) result = some firmware ∧
      hart' = { hart with pc := result.next hartId } ∧ shared' = { shared with firmware } := by
  obtain ⟨pc, sp, table⟩ := hart
  obtain rfl : pc = .startHart hartId := hpc
  cases l with
  | step => cases hmove
  | returns result =>
    obtain ⟨firmware, hcall, heq⟩ := Option.map_eq_some_iff.mp hmove
    obtain ⟨rfl, rfl⟩ := Prod.mk.inj heq
    exact ⟨result, firmware, hcall, rfl, rfl⟩

/-- What a step of the first hart leaves to it and to the others. -/
structure Keeps (payload : Usize) (i : ℕ) (hart' : Hart) (shared shared' : Shared φ) : Prop where
  boots : Boots M payload i hart' shared'
  follows : ∀ j ≠ i, ∀ other, Follows M payload j other shared → Follows M payload j other shared'
  booted : shared'.alreadyBooted = shared.alreadyBooted

/-- The call of the firmware leaves the harts as they are. -/
theorem Boots.keeps_of_status_eq (h : Boots M payload i hart shared) {firmware : φ} {pc : Pc}
    (hstatus : M.firmware.status firmware = M.hsm shared) (hmap : hart.pc ≠ .mapTable)
    (hglobals : pc.bootGlobals payload = hart.pc.bootGlobals payload)
    (htable : pc.table M i = hart.pc.table M i)
    (hloop : pc.LoopDone M payload { shared with firmware }) :
    Keeps (M := M) payload i { hart with pc } shared { shared with firmware } := by
  refine ⟨⟨h.mem, ?_, hglobals.trans h.globals, fun _ => ?_, hloop⟩,
    fun j _ _ hother => hother.mono (fun h => h) (fun _ h => h) (congrFun hstatus j), rfl⟩
  · exact (congrFun hstatus i).trans h.started
  · exact ⟨(h.loaded hmap).1.trans htable.symm, (h.loaded hmap).2⟩

theorem Boots.keeps_startHart (hfirmware : M.firmware.IsHsm M.harts) {hartId : ℕ}
    (h : Boots M payload i hart shared) (hpc : hart.pc = .startHart hartId)
    (hmove : move M i l hart shared = some (hart', shared')) :
    Keeps (M := M) payload i hart' shared shared' := by
  have hglobals := h.globals
  have hloop := h.loop
  have hmap : hart.pc ≠ .mapTable := by simp [hpc]
  rw [hpc] at hglobals hloop
  obtain ⟨hbegun, hword⟩ := hloop
  have hup : shared.globals = .up payload := (Option.some.inj hglobals).symm
  obtain ⟨result, firmware, hcall, rfl, rfl⟩ := move_startHart hpc hmove
  have hsame : M.firmware.status firmware = M.hsm shared →
      ({ shared with firmware } : Shared φ).Begun M hartId := fun hstatus =>
    hbegun.mono fun j hj => (congrFun hstatus j).trans_ne hj
  have hbefore : ∀ {pc : Pc}, pc.bootGlobals payload = some (.up payload) →
      pc.bootGlobals payload = hart.pc.bootGlobals payload := fun {_} hpc' => by
    rw [hpc', hpc]
    rfl
  have htable : hart.pc.table M i = satp M.table := by
    rw [hpc]
    rfl
  cases result with
  | other =>
    exact h.keeps_of_status_eq (hfirmware.other hcall) hmap (hbefore rfl) htable.symm trivial
  | invalidParameter =>
    obtain ⟨hnone, hstatus⟩ := hfirmware.invalidParameter hcall
    exact h.keeps_of_status_eq hstatus hmap (hbefore rfl) htable.symm
      ⟨hartId, hnone, hsame hstatus⟩
  | alreadyAvailable =>
    obtain ⟨hhart, hstopped, hstatus⟩ := hfirmware.alreadyAvailable hcall
    exact h.keeps_of_status_eq hstatus hmap (hbefore rfl) htable.symm
      ((hsame hstatus).succ hhart ((congrFun hstatus hartId).trans_ne hstopped))
  | ok =>
    obtain ⟨hhart, hstopped, hstatus⟩ := hfirmware.ok hcall
    have hne : i ≠ hartId := by
      rintro rfl
      cases hstopped.symm.trans h.started
    rw [sub_gap hup] at hstatus
    have hother : ∀ j ≠ hartId, M.firmware.status firmware j = M.hsm shared j := fun j hj => by
      rw [hstatus, Function.update_of_ne hj]
      rfl
    have hpending : M.firmware.status firmware hartId =
        .startPending (virtToPhys (M.stackAddr hartId)) := by
      rw [hstatus, Function.update_self]
    refine ⟨⟨h.mem, (hother i hne).trans h.started, (hbefore rfl).trans h.globals, fun _ => ?_, ?_⟩,
      fun j _ other hfollows => ?_, rfl⟩
    · exact ⟨(h.loaded hmap).1.trans htable, (h.loaded hmap).2⟩
    · refine Shared.Begun.succ (hbegun.mono fun j hj => ?_) hhart ?_
      · by_cases hj' : j = hartId
        · subst hj'
          exact absurd hstopped hj
        · exact (hother j hj').trans_ne hj
      · exact hpending.trans_ne (by rintro ⟨⟩)
    · by_cases hj : j = hartId
      · subst hj
        exact hfollows.start hstopped ⟨hhart, hup, rfl, hword⟩ hpending
      · exact hfollows.mono (fun h => h) (fun _ h => h) (hother j hj)

/-- Only a call of the firmware returns. -/
theorem eq_step_of_move {next : Hart × Shared φ} (hmove : move M i l hart shared = some next)
    (hpc : ∀ hartId, hart.pc ≠ .startHart hartId) : l = .step := by
  cases l with
  | step => rfl
  | returns result =>
    obtain ⟨pc, sp, table⟩ := hart
    cases pc with
    | startHart hartId => exact absurd rfl (hpc hartId)
    | _ => cases hmove

/-- The first hart goes on, and leaves everything else as it is. -/
theorem Boots.keeps_pc (h : Boots M payload i hart shared) {pc : Pc} (hmap : hart.pc ≠ .mapTable)
    (hglobals : pc.bootGlobals payload = hart.pc.bootGlobals payload)
    (htable : pc.table M i = hart.pc.table M i) (hloop : pc.LoopDone M payload shared) :
    Keeps (M := M) payload i { hart with pc } shared shared :=
  h.keeps_of_status_eq (show M.firmware.status shared.firmware = M.hsm shared from rfl) hmap
    hglobals htable hloop

/-- The first hart sets a static that is not set yet. -/
theorem Boots.keeps_globals (h : Boots M payload i hart shared)
    (hexecutor : shared.globals.executor = false) {pc : Pc} {g : Globals}
    (hg : pc.bootGlobals payload = some g) (hpc : hart.pc ≠ .mapTable)
    (htable : pc.table M i = hart.pc.table M i)
    (hloop : pc.LoopDone M payload { shared with globals := g }) :
    Keeps (M := M) payload i { hart with pc } shared { shared with globals := g } :=
  ⟨⟨h.mem, h.started, hg, fun _ => ⟨(h.loaded hpc).1.trans htable.symm, (h.loaded hpc).2⟩, hloop⟩,
    fun _ _ _ hother => follows_of_globals hexecutor hother, rfl⟩

/-- The lookup in the page table that a hart has made finds the kernel. -/
theorem Machine.Mapped.checkKernel (h : M.Mapped payload) (hi : i ∈ M.harts) :
    checkKernel (M.hartQuery i payload (kernelStartVirtual + 0x1000)) payload =
      .writeSatp payload := by
  obtain ⟨a, ha, hquery⟩ := h.own i hi
  rw [hquery]
  exact if_pos ha

/-- **A step of the first hart.** -/
theorem Boots.keeps (hfirmware : M.firmware.IsHsm M.harts) (hmapped : M.Mapped payload)
    (h : Boots M payload i hart shared) (hmove : move M i l hart shared = some (hart', shared')) :
    Keeps (M := M) payload i hart' shared shared' := by
  obtain ⟨pc, sp, table⟩ := hart
  have hglobals : pc.bootGlobals payload = some shared.globals := h.globals
  have hloop : pc.LoopDone M payload shared := h.loop
  cases pc with
  | startHart hartId => exact h.keeps_startHart hfirmware rfl hmove
  | mapTable =>
    obtain rfl := eq_step_of_move hmove (by rintro _ ⟨⟩)
    obtain ⟨rfl, rfl⟩ := Prod.mk.inj (Option.some.inj hmove)
    exact ⟨⟨h.mem, h.started, hglobals, fun _ => ⟨rfl, rfl⟩, trivial⟩, fun _ _ _ h => h, rfl⟩
  | main kernelLen =>
    obtain rfl := eq_step_of_move hmove (by rintro _ ⟨⟩)
    have hbits : ¬ shared.globals.svBits ≠ 0 := by
      rw [← Option.some.inj hglobals]
      exact fun hne => hne rfl
    obtain ⟨rfl, rfl⟩ := Prod.mk.inj (Option.some.inj ((if_neg hbits).symm.trans hmove))
    exact h.keeps_pc (by rintro ⟨⟩) rfl rfl trivial
  | storeSvBits =>
    obtain rfl := eq_step_of_move hmove (by rintro _ ⟨⟩)
    obtain ⟨rfl, rfl⟩ := Prod.mk.inj (Option.some.inj hmove)
    have hbefore := (Option.some.inj hglobals).symm
    refine h.keeps_globals (congrArg Globals.executor hbefore) ?_ (by rintro ⟨⟩) rfl trivial
    rw [hbefore]
    rfl
  | storeGap =>
    obtain rfl := eq_step_of_move hmove (by rintro _ ⟨⟩)
    obtain ⟨rfl, rfl⟩ := Prod.mk.inj (Option.some.inj hmove)
    have hbefore := (Option.some.inj hglobals).symm
    refine h.keeps_globals (congrArg Globals.executor hbefore) ?_ (by rintro ⟨⟩) rfl trivial
    rw [hbefore]
    rfl
  | initHeap =>
    obtain rfl := eq_step_of_move hmove (by rintro _ ⟨⟩)
    obtain ⟨rfl, rfl⟩ := Prod.mk.inj (Option.some.inj hmove)
    have hbefore := (Option.some.inj hglobals).symm
    refine h.keeps_globals (congrArg Globals.executor hbefore) ?_ (by rintro ⟨⟩) rfl trivial
    rw [hbefore]
    rfl
  | findKernel =>
    obtain rfl := eq_step_of_move hmove (by rintro _ ⟨⟩)
    have hbefore := (Option.some.inj hglobals).symm
    have htable : table = satp M.table := (h.loaded (by rintro ⟨⟩)).1
    have hfound := Option.some.inj hmove
    dsimp only at hfound
    rw [htable, hmapped.boot] at hfound
    obtain ⟨rfl, rfl⟩ := Prod.mk.inj hfound
    rw [← htable]
    refine h.keeps_globals (congrArg Globals.executor hbefore) ?_ (by rintro ⟨⟩) rfl trivial
    rw [hbefore]
    rfl
  | asyncMain =>
    obtain rfl := eq_step_of_move hmove (by rintro _ ⟨⟩)
    have hbefore := (Option.some.inj hglobals).symm
    have hheap : shared.globals.heap = true := congrArg Globals.heap hbefore
    obtain ⟨rfl, rfl⟩ := Prod.mk.inj (Option.some.inj ((if_pos hheap).symm.trans hmove))
    refine h.keeps_globals (congrArg Globals.executor hbefore) ?_ (by rintro ⟨⟩) rfl trivial
    rw [hbefore]
    rfl
  | setupMainHart =>
    obtain rfl := eq_step_of_move hmove (by rintro _ ⟨⟩)
    have hup := (Option.some.inj hglobals).symm
    have hset : shared.globals.executor ∧ shared.globals.heap := by
      rw [hup]
      exact ⟨rfl, rfl⟩
    obtain ⟨rfl, rfl⟩ := Prod.mk.inj (Option.some.inj ((if_pos hset).symm.trans hmove))
    exact h.keeps_pc (by rintro ⟨⟩) rfl rfl fun j hj => absurd hj (Nat.not_lt_zero j)
  | spawnHart hartId =>
    obtain rfl := eq_step_of_move hmove (by rintro _ ⟨⟩)
    obtain ⟨rfl, rfl⟩ := Prod.mk.inj (Option.some.inj hmove)
    have hloaded := h.loaded (by rintro ⟨⟩)
    -- the word that is written is the one that other harts may rely on already
    have hword : ∀ a, shared.words a = satp M.table →
        Function.update shared.words (virtToPhys (M.stackAddr hartId)) table a = satp M.table := by
      intro a ha
      rw [Function.update_apply]
      split
      · exact hloaded.1
      · exact ha
    exact ⟨⟨h.mem, h.started, hglobals, fun _ => hloaded, hloop,
      (Function.update_self ..).trans hloaded.1⟩,
      fun j _ _ hother => hother.mono (fun h => h) hword rfl, rfl⟩
  | commonHartCode =>
    obtain rfl := eq_step_of_move hmove (by rintro _ ⟨⟩)
    have hup := (Option.some.inj hglobals).symm
    have hheap : shared.globals.heap = true := congrArg Globals.heap hup
    obtain ⟨rfl, rfl⟩ := Prod.mk.inj (Option.some.inj ((if_pos hheap).symm.trans hmove))
    have hkernel : shared.globals.kernelStart = payload := congrArg Globals.kernelStart hup
    exact h.keeps_pc (by rintro ⟨⟩) rfl rfl ⟨hkernel, hloop⟩
  | mapKernel kernelPhysical =>
    obtain rfl := eq_step_of_move hmove (by rintro _ ⟨⟩)
    obtain ⟨rfl, hdone⟩ := hloop
    obtain ⟨rfl, rfl⟩ := Prod.mk.inj (Option.some.inj hmove)
    rw [hmapped.checkKernel h.mem]
    exact h.keeps_pc (by rintro ⟨⟩) rfl rfl ⟨rfl, hdone⟩
  | writeSatp kernelPhysical =>
    obtain rfl := eq_step_of_move hmove (by rintro _ ⟨⟩)
    obtain ⟨rfl, rfl⟩ := Prod.mk.inj
      (Option.some.inj ((if_pos (hmapped.aligned i h.mem)).symm.trans hmove))
    have hup : shared.globals = .up payload := (Option.some.inj hglobals).symm
    rw [sub_gap hup]
    exact ⟨⟨h.mem, h.started, hglobals, fun _ => ⟨rfl, (h.loaded (by rintro ⟨⟩)).2⟩, hloop⟩,
      fun _ _ _ h => h, rfl⟩
  | running _ => cases hmove
  | panicked => cases hmove
  | stopped => cases hglobals
  | preMain => cases hglobals
  | alreadyBooted => cases hglobals
  | hartEntryPoint _ => cases hglobals
  | setupHart => cases hglobals
  | fault => cases hglobals

/-! ## Steps of the other harts -/

/-- The firmware has started a hart. -/
structure StartsHart (i : ℕ) (shared shared' : Shared φ) : Prop where
  others : ∀ j ≠ i, M.hsm shared' j = M.hsm shared j
  started : M.hsm shared' i = .started
  booted : shared'.alreadyBooted = shared.alreadyBooted
  globals : shared'.globals = shared.globals
  words : shared'.words = shared.words

theorem Follows.start_other (h : Follows M payload j hart shared)
    (hstarts : StartsHart (M := M) i shared shared') (hj : j ≠ i) :
    Follows M payload j hart shared' :=
  h.mono (fun h => hstarts.globals.trans h) (fun a h => (congrFun hstarts.words a).trans h)
    (hstarts.others j hj)

theorem Shared.Begun.start {n : ℕ} (h : shared.Begun M n)
    (hstarts : StartsHart (M := M) i shared shared') : shared'.Begun M n := by
  refine h.mono fun j hj => ?_
  by_cases hji : j = i
  · subst hji
    exact hstarts.started.trans_ne (by rintro ⟨⟩)
  · exact (hstarts.others j hji).trans_ne hj

theorem Boots.start_other (h : Boots M payload j hart shared)
    (hstarts : StartsHart (M := M) i shared shared') (hj : j ≠ i) :
    Boots M payload j hart shared' := by
  refine ⟨h.mem, (hstarts.others j hj).trans h.started, ?_, h.loaded, ?_⟩
  · rw [hstarts.globals]
    exact h.globals
  · obtain ⟨pc, sp, table⟩ := hart
    have hloop : pc.LoopDone M payload shared := h.loop
    cases pc with
    | spawnHart hartId => exact hloop.start hstarts
    | startHart hartId => exact ⟨hloop.1.start hstarts, (congrFun hstarts.words _).trans hloop.2⟩
    | commonHartCode =>
      obtain ⟨n, hn, hbegun⟩ := hloop
      exact ⟨n, hn, hbegun.start hstarts⟩
    | mapKernel _ | writeSatp _ | running _ =>
      obtain ⟨hkernel, n, hn, hbegun⟩ := hloop
      exact ⟨hkernel, n, hn, hbegun.start hstarts⟩
    | _ => trivial

/-- Up to the constant that `hart_entry` adds, the stack of a hart is the one that it was given. -/
theorem stack_eq (a frame : Usize) :
    virtToPhys a - frame + 0xffffffc000000000 = a - frame := by
  have hgap : gap 39 = 0xffffffc000000000 := by decide
  rw [virtToPhys, hgap]
  generalize (0xffffffc000000000 : Usize) = g
  bv_omega

/-- What a step of another hart does. -/
theorem Follows.step (hfirmware : M.firmware.IsHsm M.harts) (hmapped : M.Mapped payload)
    (h : Follows M payload i hart shared)
    (hmove : move M i l hart shared = some (hart', shared')) :
    hart.pc = .preMain ∧ shared.alreadyBooted = false ∧ hart' = { hart with pc := .mapTable } ∧
        shared' = { shared with alreadyBooted := true } ∨
      Follows M payload i hart' shared' ∧
        (shared' = shared ∨ StartsHart (M := M) i shared shared') := by
  obtain ⟨pc, sp, table⟩ := hart
  cases pc with
  | stopped =>
    obtain rfl := eq_step_of_move hmove (by rintro _ ⟨⟩)
    obtain ⟨⟨a, firmware⟩, hstart, heq⟩ := Option.map_eq_some_iff.mp hmove
    obtain ⟨rfl, rfl⟩ := Prod.mk.inj heq
    obtain ⟨hpending, hstatus⟩ := hfirmware.start hstart
    have hstarted : M.firmware.status firmware i = .started := by
      rw [hstatus, Function.update_self]
    have hothers : ∀ j ≠ i, M.firmware.status firmware j = M.hsm shared j := fun j hj => by
      rw [hstatus, Function.update_of_ne hj]
      rfl
    rcases h with hstopped | ⟨a1, hbefore, hready⟩
    · cases hstopped.symm.trans hpending
    · obtain rfl := HartState.startPending.inj (hbefore.symm.trans hpending)
      exact Or.inr ⟨⟨hstarted, hready.mono (fun h => h) (fun _ h => h)⟩,
        Or.inr ⟨hothers, hstarted, rfl, rfl, rfl⟩⟩
  | preMain =>
    obtain rfl := eq_step_of_move hmove (by rintro _ ⟨⟩)
    cases hbooted : shared.alreadyBooted with
    | true =>
      obtain ⟨rfl, rfl⟩ := Prod.mk.inj (Option.some.inj ((if_pos hbooted).symm.trans hmove))
      exact Or.inr ⟨h.1, Or.inl rfl⟩
    | false =>
      have hnot : ¬ shared.alreadyBooted = true := by simp [hbooted]
      obtain ⟨rfl, rfl⟩ := Prod.mk.inj (Option.some.inj ((if_neg hnot).symm.trans hmove))
      exact Or.inl ⟨rfl, rfl, rfl, rfl⟩
  | hartEntryPoint a1 =>
    obtain rfl := eq_step_of_move hmove (by rintro _ ⟨⟩)
    obtain ⟨rfl, rfl⟩ := Prod.mk.inj (Option.some.inj hmove)
    obtain ⟨hstarted, hready⟩ := h
    refine Or.inr ⟨⟨hready.mem, hstarted, hready.globals, hready.word, ?_⟩, Or.inl rfl⟩
    dsimp only
    rw [hready.stack, stack_eq]
  | main kernelLen =>
    obtain rfl := eq_step_of_move hmove (by rintro _ ⟨⟩)
    have hup : Up M payload i ⟨.main kernelLen, sp, table⟩ shared := h
    have hbits : shared.globals.svBits ≠ 0 := by
      rw [hup.globals]
      exact Nat.succ_ne_zero _
    have hheap : shared.globals.heap = true := congrArg Globals.heap hup.globals
    obtain ⟨rfl, rfl⟩ := Prod.mk.inj
      (Option.some.inj (((if_pos hbits).trans (if_pos hheap)).symm.trans hmove))
    exact Or.inr ⟨hup.withPc .setupHart rfl, Or.inl rfl⟩
  | setupHart =>
    obtain rfl := eq_step_of_move hmove (by rintro _ ⟨⟩)
    have hup : Up M payload i ⟨.setupHart, sp, table⟩ shared := h
    have hset : shared.globals.executor ∧ shared.globals.heap :=
      ⟨congrArg Globals.executor hup.globals, congrArg Globals.heap hup.globals⟩
    obtain ⟨rfl, rfl⟩ := Prod.mk.inj (Option.some.inj ((if_pos hset).symm.trans hmove))
    exact Or.inr ⟨hup.withPc .commonHartCode rfl, Or.inl rfl⟩
  | commonHartCode =>
    obtain rfl := eq_step_of_move hmove (by rintro _ ⟨⟩)
    have hup : Up M payload i ⟨.commonHartCode, sp, table⟩ shared := h
    have hheap : shared.globals.heap = true := congrArg Globals.heap hup.globals
    obtain ⟨rfl, rfl⟩ := Prod.mk.inj (Option.some.inj ((if_pos hheap).symm.trans hmove))
    exact Or.inr ⟨⟨hup.withPc _ rfl, congrArg Globals.kernelStart hup.globals⟩, Or.inl rfl⟩
  | mapKernel kernelPhysical =>
    obtain rfl := eq_step_of_move hmove (by rintro _ ⟨⟩)
    obtain ⟨hup, rfl⟩ := h
    obtain ⟨rfl, rfl⟩ := Prod.mk.inj (Option.some.inj hmove)
    rw [hmapped.checkKernel hup.mem]
    exact Or.inr ⟨⟨hup.withPc _ rfl, rfl⟩, Or.inl rfl⟩
  | writeSatp kernelPhysical =>
    obtain rfl := eq_step_of_move hmove (by rintro _ ⟨⟩)
    obtain ⟨hup, rfl⟩ := h
    obtain ⟨rfl, rfl⟩ := Prod.mk.inj
      (Option.some.inj ((if_pos (hmapped.aligned i hup.mem)).symm.trans hmove))
    rw [sub_gap hup.globals]
    exact Or.inr ⟨⟨⟨hup.mem, hup.started, hup.globals, rfl, hup.stack⟩, rfl⟩, Or.inl rfl⟩
  | alreadyBooted => cases hmove
  | running _ => cases hmove
  | _ => exact False.elim h

/-! ## All harts -/

/-- The hart that swaps first finds no static set. -/
theorem Follows.boots (h : Follows M payload i hart shared) (hpc : hart.pc = .preMain)
    (hglobals : shared.globals = .zero) :
    Boots M payload i { hart with pc := .mapTable } { shared with alreadyBooted := true } := by
  rw [Follows, hpc] at h
  exact ⟨h.2, h.1, congrArg some hglobals.symm, fun hne => absurd rfl hne, trivial⟩

/-- **A step keeps what the harts may rely on.** -/
theorem Sound.step {s s' : Parties ℕ Hart (Shared φ)} (h : Sound M payload s)
    (hfirmware : M.firmware.IsHsm M.harts) (hmapped : M.Mapped payload)
    (hstep : s.next (move M) (i, l) = some s') : Sound M payload s' := by
  obtain ⟨first, hbooted, hnone, hharts⟩ := h
  obtain ⟨hart', shared', hmove, rfl⟩ := Parties.next_eq_some hstep
  by_cases hfirst : first = some i
  · have hkeeps := ((hharts i).1 hfirst).keeps hfirmware hmapped hmove
    refine ⟨first, hkeeps.booted.trans hbooted, fun hfirst' => ?_, fun j => ?_⟩
    · cases hfirst.symm.trans hfirst'
    · by_cases hj : j = i
      · subst hj
        dsimp only
        rw [Function.update_self]
        exact ⟨fun _ => hkeeps.boots, fun hne => absurd hfirst hne⟩
      · dsimp only
        rw [Function.update_of_ne hj]
        refine ⟨fun hfirst' => ?_, fun hne => hkeeps.follows j hj _ ((hharts j).2 hne)⟩
        exact absurd (Option.some.inj (hfirst'.symm.trans hfirst)) hj
  · have hfollows := (hharts i).2 hfirst
    rcases hfollows.step hfirmware hmapped hmove with
      ⟨hpc, hfalse, rfl, rfl⟩ | ⟨hafter, hshared⟩
    · -- the first swap
      have hisNone : first = none := by
        rw [← Option.not_isSome_iff_eq_none, ← hbooted, hfalse]
        exact Bool.false_ne_true
      refine ⟨some i, rfl, fun h => ?_, fun j => ?_⟩
      · cases h
      · by_cases hj : j = i
        · subst hj
          dsimp only
          rw [Function.update_self]
          exact ⟨fun _ => hfollows.boots hpc (hnone hisNone), fun hne => absurd rfl hne⟩
        · dsimp only
          rw [Function.update_of_ne hj]
          refine ⟨fun h => absurd (Option.some.inj h).symm hj, fun _ => ?_⟩
          have hother := (hharts j).2 (by rw [hisNone]; rintro ⟨⟩)
          exact hother.mono (fun h => h) (fun _ h => h) rfl
    · refine ⟨first, ?_, ?_, fun j => ?_⟩
      · rcases hshared with rfl | hstarts
        · exact hbooted
        · exact hstarts.booted.trans hbooted
      · rcases hshared with rfl | hstarts
        · exact hnone
        · exact fun hfirst => hstarts.globals.trans (hnone hfirst)
      · by_cases hj : j = i
        · subst hj
          dsimp only
          rw [Function.update_self]
          exact ⟨fun h => absurd h hfirst, fun _ => hafter⟩
        · dsimp only
          rw [Function.update_of_ne hj]
          rcases hshared with rfl | hstarts
          · exact hharts j
          · exact ⟨fun h => ((hharts j).1 h).start_other hstarts hj,
              fun h => ((hharts j).2 h).start_other hstarts hj⟩

/-- **Every reachable state is sound.** -/
theorem sound {s : Parties ℕ Hart (Shared φ)} (h : (harts M).Reachable s)
    (hfirmware : M.firmware.IsHsm M.harts) (hmapped : M.Mapped payload) : Sound M payload s :=
  h.invariant (fun _ => sound_of_initial) fun _ _ _ hsound hstep =>
    hsound.step hfirmware hmapped hstep

/-! ## Safety -/

/-- A hart sets up what the others need, or has failed to start one of them. -/
def Pc.boots : Pc → Bool
  | .mapTable | .storeSvBits | .storeGap | .initHeap | .findKernel | .asyncMain | .setupMainHart
  | .spawnHart _ | .startHart _ | .panicked => true
  | _ => false

/-- A hart has got to `main`. -/
def Pc.inKernel : Pc → Bool
  | .stopped | .preMain | .alreadyBooted | .mapTable | .hartEntryPoint _ | .fault => false
  | _ => true

/-- The address of the kernel that a hart has loaded. -/
def Pc.kernelPhysical : Pc → Option Usize
  | .mapKernel kernelPhysical | .writeSatp kernelPhysical | .running kernelPhysical =>
    some kernelPhysical
  | _ => none

theorem Follows.boots_eq_false (h : Follows M payload i hart shared) : hart.pc.boots = false := by
  obtain ⟨pc, sp, table⟩ := hart
  cases pc with
  | mapTable | storeSvBits | storeGap | initHeap | findKernel | asyncMain | setupMainHart
  | spawnHart _ | startHart _ | panicked => exact False.elim h
  | _ => rfl

theorem Follows.up (h : Follows M payload i hart shared) (hpc : hart.pc.inKernel = true) :
    Up M payload i hart shared := by
  obtain ⟨pc, sp, table⟩ := hart
  cases pc with
  | main _ | setupHart | commonHartCode => exact h
  | mapKernel _ | writeSatp _ | running _ => exact h.1
  | stopped | preMain | alreadyBooted | mapTable | hartEntryPoint _ | fault => cases hpc
  | _ => exact False.elim h

theorem Follows.kernelPhysical_eq (h : Follows M payload i hart shared) :
    ∀ a ∈ hart.pc.kernelPhysical, a = payload := by
  intro a ha
  obtain ⟨pc, sp, table⟩ := hart
  cases pc with
  | mapKernel _ | writeSatp _ | running _ => exact (Option.some.inj ha).symm.trans h.2
  | _ => cases ha

theorem Boots.kernelPhysical_eq (h : Boots M payload i hart shared) :
    ∀ a ∈ hart.pc.kernelPhysical, a = payload := by
  intro a ha
  obtain ⟨pc, sp, table⟩ := hart
  have hloop : pc.LoopDone M payload shared := h.loop
  cases pc with
  | mapKernel _ | writeSatp _ | running _ => exact (Option.some.inj ha).symm.trans hloop.1
  | _ => cases ha

theorem Boots.ne_fault (h : Boots M payload i hart shared) : hart.pc ≠ .fault := by
  intro hpc
  have hglobals := h.globals
  rw [hpc] at hglobals
  cases hglobals

theorem Follows.ne_fault (h : Follows M payload i hart shared) : hart.pc ≠ .fault := by
  intro hpc
  rw [Follows, hpc] at h
  exact h

/-- The stacks of different harts. -/
theorem sp_injective {a b frame : Usize} (h : a - 8 - frame = b - 8 - frame) : a = b := by
  bv_omega

/-- **The harts start safely**, in whatever order they take their steps: none of them unwraps a `None`,
fails an assertion or allocates without a heap, one of them at most boots, all that have got to `main`
use the page table of the bootloader until they go on with their own, and stacks of their own, and all
that have loaded the address of the kernel have the right one. -/
theorem harts_safe {s : Parties ℕ Hart (Shared φ)} (h : (harts M).Reachable s)
    (hfirmware : M.firmware.IsHsm M.harts) (hmapped : M.Mapped payload)
    (hstacks : Set.InjOn M.stackEnd M.harts)
    (hmain : ∀ i ∈ M.harts, M.stackStart + gap 39 ≠ M.stackAddr i - M.entryFrame) :
    (∀ i, (s.control i).pc ≠ .fault) ∧
      (∀ i j, (s.control i).pc.boots = true → (s.control j).pc.boots = true → i = j) ∧
      (∀ i, (s.control i).pc.inKernel = true → (s.control i).satp = (s.control i).pc.table M i) ∧
      (∀ i j, (s.control i).pc.inKernel = true → (s.control j).pc.inKernel = true →
        (s.control i).sp = (s.control j).sp → i = j) ∧
      ∀ i, ∀ a ∈ (s.control i).pc.kernelPhysical, a = payload := by
  obtain ⟨first, -, -, hharts⟩ := sound h hfirmware hmapped
  have hfirst : ∀ i, (s.control i).pc.boots = true → first = some i := by
    intro i hboots
    by_contra hne
    exact Bool.false_ne_true (((hharts i).2 hne).boots_eq_false.symm.trans hboots)
  have hloaded : ∀ i, first = some i → (s.control i).pc.inKernel = true →
      (s.control i).satp = (s.control i).pc.table M i ∧
        (s.control i).sp = M.stackStart + gap 39 := by
    intro i hi hpc
    refine ((hharts i).1 hi).loaded fun hmap => ?_
    rw [hmap] at hpc
    cases hpc
  refine ⟨fun i => ?_, fun i j hi hj => ?_, fun i hpc => ?_, fun i j hi hj hsp => ?_, fun i => ?_⟩
  · by_cases hi : first = some i
    · exact ((hharts i).1 hi).ne_fault
    · exact ((hharts i).2 hi).ne_fault
  · exact Option.some.inj ((hfirst i hi).symm.trans (hfirst j hj))
  · by_cases hi : first = some i
    · exact (hloaded i hi hpc).1
    · exact (((hharts i).2 hi).up hpc).table
  · by_cases hfirst₁ : first = some i
    · by_cases hfirst₂ : first = some j
      · exact Option.some.inj (hfirst₁.symm.trans hfirst₂)
      · -- the stack of the first hart is none of the others
        have hup := ((hharts j).2 hfirst₂).up hj
        rw [(hloaded i hfirst₁ hi).2, hup.stack] at hsp
        exact absurd hsp (hmain j hup.mem)
    · have hup₁ := ((hharts i).2 hfirst₁).up hi
      by_cases hfirst₂ : first = some j
      · rw [(hloaded j hfirst₂ hj).2, hup₁.stack] at hsp
        exact absurd hsp.symm (hmain i hup₁.mem)
      · have hup₂ := ((hharts j).2 hfirst₂).up hj
        rw [hup₁.stack, hup₂.stack] at hsp
        exact hstacks hup₁.mem hup₂.mem (sp_injective hsp)
  · by_cases hi : first = some i
    · exact ((hharts i).1 hi).kernelPhysical_eq
    · exact ((hharts i).2 hi).kernelPhysical_eq

/-- The lookup of `main` in the page table that the bootloader has built. -/
def bootQuery (table : Usize) (booted : Memory 8) (satp va : Usize) : Option Usize :=
  match (kernelSv39 (satp <<< 12)).query (seen (physicalSv39 table) booted) va with
  | .ok (.ok physical) => some physical
  | _ => none

/-- `main` finds the payload in the page table of the bootloader. -/
theorem bootQuery_start {table bytes : Usize} {heap : Allocator 8} {mem booted : Memory 8} {len : ℕ}
    (h : Bootable table heap mem bytes len)
    (hrun : preMain (physicalSv39 table) heap bytes len mem = .ok booted) :
    bootQuery table booted (satp table) kernelStartVirtual = some bytes := by
  rw [bootQuery, h.query_start hrun]

/-- The lookup of `common_hart_code` in the page table that it has made. -/
def hartQuery (heap : Allocator 8) (mem : Memory 8) (kernelPhysical va : Usize) : Option Usize :=
  match commonHartSpace heap physToVirt virtToPhys kernelPhysical mem with
  | .ok (sv39, mem) =>
    match sv39.query mem va with
    | .ok (.ok physical) => some physical
    | _ => none
  | .error _ => none

/-- **A hart finds the kernel in the page table that it has made.** -/
theorem hartQuery_start {heap : Allocator 8} {mem : Memory 8} (h : HartHeap heap mem)
    (haligned : 4096 ∣ payload.toNat) (hle : payload.toNat + 2 ^ 21 ≤ 0x3f80000000) :
    ∃ a ≠ 0, hartQuery heap mem payload (kernelStartVirtual + 0x1000) = some a := by
  obtain ⟨r, hspace, hquery⟩ := commonHartSpace_query h.fresh h.room haligned h.clean
  have hva : (kernelStartVirtual + 0x1000).toNat % pageSize 3 = 0x7f80001000 := by
    rw [show pageSize 3 = 2 ^ 39 from rfl]
    decide
  have hvpn : ¬ vpn 2 (kernelStartVirtual + 0x1000).toNat < 256 := by
    rw [vpn, show pageSize 2 = 2 ^ 30 from rfl]
    decide
  have himage : InImage 0x100000 0x7f80001000 := by decide
  have hhigh : 2 ^ 38 ≤ (kernelStartVirtual + 0x1000).toNat % pageSize 3 := by
    rw [hva]
    norm_num
  have hleaf := kernelEntries_leafResult haligned (hle.trans (by norm_num)) hhigh
  rw [hva, imageTranslation, if_pos himage] at hleaf
  refine ⟨BitVec.ofNat 64 (payload.toNat + (0x7f80001000 - 0x7f80000000)), fun hzero => ?_, ?_⟩
  · have hnat := congrArg BitVec.toNat hzero
    rw [BitVec.toNat_ofNat, Nat.mod_eq_of_lt (by omega), show (0 : Usize).toNat = 0 from rfl] at hnat
    omega
  · have hfound := hquery (kernelStartVirtual + 0x1000)
    rw [if_neg hvpn, hleaf] at hfound
    simp only [hartQuery, hspace, hfound]

/-! ## A machine with two harts -/

/-- A firmware that may fail to start a hart at any time. -/
def hsmFirmware (harts : Finset ℕ) : Firmware (ℕ → HartState) where
  status hsm := hsm
  hartStart hsm i opaqueArg
    | .ok =>
      if i ∈ harts ∧ hsm i = .stopped then some (Function.update hsm i (.startPending opaqueArg))
      else none
    | .alreadyAvailable => if i ∈ harts ∧ hsm i ≠ .stopped then some hsm else none
    | .invalidParameter => if i ∈ harts then none else some hsm
    | .other => some hsm
  start hsm i :=
    match hsm i with
    | .startPending opaqueArg => some (opaqueArg, Function.update hsm i .started)
    | _ => none

theorem isHsm_hsmFirmware (harts : Finset ℕ) : (hsmFirmware harts).IsHsm harts where
  returns hsm _ _ := ⟨.other, hsm, rfl⟩
  ok h := by
    obtain ⟨⟨hmem, hstopped⟩, hsome⟩ := Option.ite_none_right_eq_some.mp h
    exact ⟨hmem, hstopped, (Option.some.inj hsome).symm⟩
  alreadyAvailable h := by
    obtain ⟨⟨hmem, hstopped⟩, hsome⟩ := Option.ite_none_right_eq_some.mp h
    exact ⟨hmem, hstopped, (Option.some.inj hsome).symm⟩
  invalidParameter h := by
    obtain ⟨hmem, hsome⟩ := Option.ite_none_left_eq_some.mp h
    exact ⟨hmem, (Option.some.inj hsome).symm⟩
  other h := (Option.some.inj h).symm
  start {hsm i a hsm'} h := by
    cases hstate : hsm i with
    | startPending opaqueArg =>
      simp only [hsmFirmware, hstate] at h
      obtain ⟨rfl, rfl⟩ := Prod.mk.inj (Option.some.inj h)
      exact ⟨hstate, rfl⟩
    | stopped => simp [hsmFirmware, hstate] at h
    | started => simp [hsmFirmware, hstate] at h
  starts {hsm i a} h := by
    have hstate : hsm i = .startPending a := h
    simp [hsmFirmware, hstate]

/-- The first hart is in `pre_main`, and the others are in the firmware. -/
def powerOn : Parties ℕ Hart (Shared (ℕ → HartState)) where
  control := fun i => ⟨if i = 0 then .preMain else .stopped, 0, 0⟩
  shared := ⟨false, .zero, fun _ => 0, fun i => if i = 0 then .started else .stopped⟩

def twoHarts : Machine (ℕ → HartState) where
  harts := {0, 1}
  firmware := hsmFirmware {0, 1}
  table := 0x80200000
  payloadLen := 169868
  stackStart := 0x80300000
  query := fun _ _ => some 0x80210000
  stackEnd := fun hartId => BitVec.ofNat 64 (0xffffffc082001000 + hartId * 4096)
  entryFrame := 16
  hartTable := fun hartId => BitVec.ofNat 64 (0xffffffc082011000 + hartId * 4096)
  hartQuery := fun _ kernelPhysical _ => some (kernelPhysical + 0x1000)

theorem mapped_twoHarts : twoHarts.Mapped 0x80210000 where
  boot := rfl
  own _ _ := ⟨0x80211000, by decide, rfl⟩
  aligned := by decide

theorem initial_powerOn {M : Machine (ℕ → HartState)} (hmem : 0 ∈ M.harts)
    (hfirmware : M.firmware = hsmFirmware M.harts) : Initial M powerOn := by
  have hhsm : M.hsm powerOn.shared = powerOn.shared.firmware := by
    rw [Machine.hsm, hfirmware]
    rfl
  refine ⟨rfl, rfl, fun i => ?_⟩
  rw [hhsm]
  by_cases hi : i = 0
  · subst hi
    exact Or.inr ⟨rfl, rfl, hmem⟩
  · exact Or.inl ⟨if_neg hi, if_neg hi⟩

/-- The second hart starts while the loop of the first one goes on. -/
def twoHartsRun : List (ℕ × Label) :=
  List.replicate 10 (0, .step) ++
    [(0, .returns .alreadyAvailable), (0, .step), (0, .returns .ok)] ++
    List.replicate 7 (1, .step) ++ [(0, .step), (0, .returns .invalidParameter)] ++
    List.replicate 3 (0, .step)

/-- Both harts run, on different stacks and with page tables of their own. -/
theorem harts_safe_twoHarts : ∃ s, (harts twoHarts).Reachable s ∧
    (s.control 0).pc = .running 0x80210000 ∧ (s.control 1).pc = .running 0x80210000 ∧
    (s.control 0).sp ≠ (s.control 1).sp ∧ (s.control 0).satp ≠ (s.control 1).satp := by
  have hrun : (twoHartsRun.foldlM (Parties.next (move twoHarts)) powerOn).map
      (fun s => ((s.control 0).pc, (s.control 1).pc)) =
      some (.running 0x80210000, .running 0x80210000) := by decide +kernel
  obtain ⟨s, hs, hpcs⟩ := Option.map_eq_some_iff.mp hrun
  obtain ⟨hpc₀, hpc₁⟩ := Prod.mk.inj hpcs
  have hreach : (harts twoHarts).Reachable s :=
    .foldlM (fun _ _ _ h => h) (.init (initial_powerOn (by decide) rfl)) hs
  have hstacks : Set.InjOn twoHarts.stackEnd twoHarts.harts := by
    intro i hi j hj h
    revert i j
    decide
  obtain ⟨-, -, hsatp, hsp, -⟩ := harts_safe hreach (isHsm_hsmFirmware {0, 1}) mapped_twoHarts
    hstacks (by decide)
  refine ⟨s, hreach, hpc₀, hpc₁, fun heq => ?_, ?_⟩
  · exact absurd (hsp 0 1 (by rw [hpc₀]; rfl) (by rw [hpc₁]; rfl) heq) (by decide)
  · rw [hsatp 0 (by rw [hpc₀]; rfl), hsatp 1 (by rw [hpc₁]; rfl), hpc₀, hpc₁]
    decide

end Startup

end AsyncKernel
