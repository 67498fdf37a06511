import AsyncKernel.Paging.Refine

/-!
# Runs of `map` calls

`map` as a whole, and the states that sequences of calls reach from a zeroed root table. Every such
state represents a tree whose tables are the allocated pages.

## Main definitions

* `MapCall.decanonical`: the call with the address that `map_internal` gets
* `Represents`: the memory below the root represents the entries of a tree
* `ZeroRoot`, `Reachable`: a zeroed root table, and the states that calls reach
* `MapCall.Valid`: the arguments that a call of Sv39 is meant for
* `identityHeap`, `zeroMemory`: a machine whose physical memory is mapped one to one

## Main results

* `decanonicalizeAddress_eq_ok`: the bits above the address width are dropped
* `map_outcome`: a call does to the tree what `MapCall.mapEntries` does
* `Reachable.represents`: every reachable state represents a tree
* `Represents.query_eq`: the lookup in a state is the lookup in its tree
-/

namespace AsyncKernel

open Bits

variable {levels : ℕ}

/-! ## Decanonical addresses -/

theorem upperMask_eq_ok (hlo : 1 ≤ levels) (hhi : levels ≤ 5) :
    GenericPaging.upperMask levels 8 = .ok (~~~BitVec.ofNat 64 (2 ^ (12 + 9 * levels) - 1)) := by
  interval_cases levels <;> rfl

/-- The bits above the address width are dropped. -/
theorem decanonicalizeAddress_eq_ok (hlo : 1 ≤ levels) (hhi : levels ≤ 5) (a : Usize) :
    GenericPaging.decanonicalizeAddress levels 8 a =
      .ok (a &&& BitVec.ofNat 64 (2 ^ (12 + 9 * levels) - 1)) := by
  rw [GenericPaging.decanonicalizeAddress, upperMask_eq_ok hlo hhi, ok_bind, BitVec.not_not]
  rfl

/-- With six levels the width is more than 64 bits and the subtraction overflows. -/
theorem decanonicalizeAddress_six (a : Usize) :
    GenericPaging.decanonicalizeAddress 6 8 a = .error .overflow := rfl

/-- The call with the address that `map_internal` gets. -/
def MapCall.decanonical (levels : ℕ) (c : MapCall) : MapCall :=
  { c with virtualAddr := c.virtualAddr &&& BitVec.ofNat 64 (2 ^ (12 + 9 * levels) - 1) }

theorem MapCall.toNat_decanonical (hhi : levels ≤ 5) (c : MapCall) :
    (c.decanonical levels).virtualAddr.toNat = c.virtualAddr.toNat % pageSize levels :=
  toNat_and_lowMask _ (by omega)

/-- `map` is `map_internal` on aligned arguments. -/
theorem map_eq_mapInternal (hlo : 1 ≤ levels) (hhi : levels ≤ 5) (paging : GenericPaging levels 8)
    (heap : Allocator 8) {c : MapCall} (mem : Memory 8) (h : (c.decanonical levels).Aligned) :
    paging.map heap c mem = mapInternal paging.physToVirt paging.virtToPhys heap
      (c.decanonical levels) (levels - 1) paging.table 0 mem := by
  have hv : c.virtualAddr &&& BitVec.ofNat 64 (2 ^ (12 + 9 * levels) - 1) &&& 0xfff = 0 :=
    (and_fff_eq_zero_iff _).mpr h.virtual
  have hp : c.physicalAddr &&& 0xfff = 0 := (and_fff_eq_zero_iff _).mpr h.physical
  have hl : c.length &&& 0xfff = 0 := (and_fff_eq_zero_iff _).mpr h.length
  rw [GenericPaging.map, decanonicalizeAddress_eq_ok hlo hhi, ok_bind, assertThat_eq_ok hv,
    assertThat_eq_ok hp, assertThat_eq_ok hl]
  rfl

theorem assertThat_eq_ok_iff {p : Prop} [Decidable p] {u : Unit} : assertThat p = .ok u ↔ p := by
  unfold assertThat
  split <;> simp [*]

/-- A call that returns was made with aligned arguments and a range that does not overflow. -/
theorem aligned_of_map_eq_ok (hlo : 1 ≤ levels) (hhi : levels ≤ 5) {paging : GenericPaging levels 8}
    {heap : Allocator 8} {c : MapCall} {mem mem' : Memory 8}
    (h : paging.map heap c mem = .ok mem') :
    (c.decanonical levels).Aligned ∧ (levels ≠ 1 → 0 < (c.decanonical levels).stop) ∧
      (c.decanonical levels).stop < 2 ^ 64 := by
  have haligned : (c.decanonical levels).Aligned := by
    rw [GenericPaging.map, decanonicalizeAddress_eq_ok hlo hhi, ok_bind] at h
    obtain ⟨_, hv, h⟩ := bind_eq_ok_iff.mp h
    obtain ⟨_, hp, h⟩ := bind_eq_ok_iff.mp h
    obtain ⟨_, hl, -⟩ := bind_eq_ok_iff.mp h
    exact ⟨(and_fff_eq_zero_iff _).mp (assertThat_eq_ok_iff.mp hp),
      (and_fff_eq_zero_iff _).mp (assertThat_eq_ok_iff.mp hv),
      (and_fff_eq_zero_iff _).mp (assertThat_eq_ok_iff.mp hl)⟩
  rw [map_eq_mapInternal hlo hhi paging heap mem haligned, mapInternal_eq] at h
  -- The bounds of the first loop are computed before anything else.
  obtain ⟨n, hend, -⟩ := bind_eq_ok_iff.mp h
  obtain ⟨hpos, hlt⟩ := MapCall.stop_of_vpnEnd_eq_ok hend
  exact ⟨haligned, fun h1 => hpos (by omega), hlt⟩

/-! ## States -/

/-- The memory below the root table represents the entries `D` of a tree, whose tables are the pages
allocated since page `n₀`. -/
structure Represents (paging : GenericPaging levels 8) (heap : Allocator 8) (n₀ : ℕ) (D : Set ℕ)
    (mem : Memory 8) (entries : ℕ → PageNode (levels - 1)) : Prop where
  started : n₀ ≤ mem.allocated
  capacity : mem.allocated ≤ heap.capacity
  rep : ∃ below, TableRep paging.virtToPhys heap mem D paging.table entries below ∧
    (⋃ v, below v) = Set.Ico n₀ mem.allocated

section Represents

variable {paging : GenericPaging levels 8} {heap : Allocator 8} {n₀ : ℕ} {D : Set ℕ}
  {mem mem' : Memory 8} {entries : ℕ → PageNode (levels - 1)} {c : MapCall}

theorem Represents.owned (h : Represents paging heap n₀ D mem entries) {below : ℕ → Set ℕ}
    (hunion : (⋃ v, below v) = Set.Ico n₀ mem.allocated) (v : ℕ) : Owned heap n₀ (below v) := by
  intro n hn
  have hmem : n ∈ Set.Ico n₀ mem.allocated := hunion ▸ Set.mem_iUnion.mpr ⟨v, hn⟩
  exact ⟨hmem.1, lt_of_lt_of_le hmem.2 h.capacity⟩

/-- **The lookup in a state is the lookup in its tree.** -/
theorem Represents.query_eq (hfresh : FreshPages paging heap n₀)
    (h : Represents paging heap n₀ D mem entries) (hhi : levels ≤ 6) {va : Usize}
    (hva : vpn (levels - 1) va.toNat ∈ D) :
    paging.query mem va =
      leafResult levels va ((entries (vpn (levels - 1) va.toNat)).leafAt va.toNat) := by
  obtain ⟨below, hrep, hunion⟩ := h.rep
  exact hrep.queryFrom_eq hfresh (h.owned hunion) (by omega) hva

/-- The leaf of the tree is the leaf that the lookup reads. -/
theorem Represents.readsAt (hfresh : FreshPages paging heap n₀)
    (h : Represents paging heap n₀ D mem entries) (hhi : levels ≤ 5) {va : Usize}
    (hva : vpn (levels - 1) va.toNat ∈ D) :
    Reads paging.physToVirt mem va (levels - 1) paging.table
        ((entries (vpn (levels - 1) va.toNat)).leafAt va.toNat).1
        ((entries (vpn (levels - 1) va.toNat)).leafAt va.toNat).2 ∧
      ((entries (vpn (levels - 1) va.toNat)).leafAt va.toNat).2.isLeaf = true := by
  obtain ⟨below, hrep, hunion⟩ := h.rep
  exact hrep.reads_leafAt hfresh (h.owned hunion) (by omega) hva

theorem Represents.leafAt_bound (h : Represents paging heap n₀ D mem entries) {va : ℕ}
    (hva : vpn (levels - 1) va ∈ D) :
    ((entries (vpn (levels - 1) va)).leafAt va).2.value.toNat +
      pageSize ((entries (vpn (levels - 1) va)).leafAt va).1 / 4 ≤ 2 ^ 55 := by
  obtain ⟨below, hrep, -⟩ := h.rep
  obtain ⟨e, -, hnode⟩ := hrep.slot _ hva
  exact hnode.leafAt_bound va

/-- **A call does to the tree what `mapEntries` does.** It fails only without memory, and leaves the
root entries it does not come to as they are. -/
theorem map_outcome (hfresh : FreshPages paging heap n₀) (hlo : 1 ≤ levels) (hhi : levels ≤ 5)
    (h : Represents paging heap n₀ D mem entries) (hc : (c.decanonical levels).Runs)
    (hpos : levels ≠ 1 → 0 < (c.decanonical levels).stop)
    (hD : ∀ v, (c.decanonical levels).Visits (levels - 1) v → v ∈ D) :
    Outcome (OutOfMemory heap mem ((c.decanonical levels).newTables (levels - 1) entries))
      (fun mem' => Represents paging heap n₀ D mem'
          ((c.decanonical levels).mapEntries (levels - 1) 0 entries) ∧
        mem'.allocated = mem.allocated + (c.decanonical levels).newTables (levels - 1) entries ∧
        ∀ v, ¬ (c.decanonical levels).Visits (levels - 1) v →
          mem'.slot paging.table v = mem.slot paging.table v)
      (paging.map heap c mem) := by
  obtain ⟨below, hrep, hunion⟩ := h.rep
  -- The root table is none of the pages of the allocator.
  have hout : ∀ pages, Outside heap n₀ mem paging.table pages := fun pages m hm hmcap heq =>
    absurd heq.symm (hfresh.ne_root m hm hmcap)
  have hsize : pageSize (levels - 1 + 1) ≤ 2 ^ 57 := pageSize_le (j := 5) (by omega)
  rw [map_eq_mapInternal hlo hhi paging heap mem hc.aligned]
  refine (mapInternal_outcome hfresh hc (fun h1 => hpos (by omega)) (by omega) mem paging.table 0 D
    entries below hrep hD hunion.le (hout _) h.started h.capacity (by simp)
    (by simpa using hsize)).mono (fun _ h => h) fun mem' hmapped => ?_
  have halloc := hmapped.allocated
  have hstarted := h.started
  obtain ⟨below', hrep', hunion'⟩ := hmapped.rep
  refine ⟨⟨by omega, hmapped.capacity, below', hrep', ?_⟩, halloc, fun v hv => ?_⟩
  · rw [hunion', hunion, Set.Ico_union_Ico_eq_Ico hstarted (by omega)]
  · -- the entries of the root that the loop does not come to
    refine hmapped.frame _ _ (fun h => hv h.2) fun n hn heq => ?_
    rw [hunion, Set.Ico_union_Ico_eq_Ico hstarted (by omega)] at hn
    exact hfresh.ne_root n hn.1 (lt_of_lt_of_le hn.2 hmapped.capacity) heq.symm

end Represents

/-! ## Reachable states -/

/-- The root table is zeroed. -/
def ZeroRoot (paging : GenericPaging levels 8) (mem : Memory 8) : Prop :=
  mem.tables paging.table = some Table.zeroed

/-- The states that sequences of calls reach from `mem₀`, when every call returns and is `ok` for
the state it is made in. -/
inductive Reachable (paging : GenericPaging levels 8) (heap : Allocator 8)
    (ok : Memory 8 → MapCall → Prop) (mem₀ : Memory 8) : Memory 8 → Prop
  | refl : Reachable paging heap ok mem₀ mem₀
  | step {mem mem' : Memory 8} {c : MapCall} (h : Reachable paging heap ok mem₀ mem)
      (hc : ok mem c) (hmap : paging.map heap c mem = .ok mem') : Reachable paging heap ok mem₀ mem'

/-- A call writes leaves: its flags have `READ` or `EXECUTE`, or not `VALID`. -/
def LeafFlags (_ : Memory 8) (c : MapCall) : Prop := leafBits c.flags = true

section Reachable

variable {paging : GenericPaging levels 8} {heap : Allocator 8} {mem₀ mem mem' : Memory 8}
  {c : MapCall}

theorem Reachable.mono {ok ok' : Memory 8 → MapCall → Prop}
    (h : Reachable paging heap ok mem₀ mem) (hok : ∀ mem c, ok mem c → ok' mem c) :
    Reachable paging heap ok' mem₀ mem := by
  induction h with
  | refl => exact Reachable.refl
  | step _ hc hmap ih => exact Reachable.step ih (hok _ _ hc) hmap

theorem ZeroRoot.slot (h : ZeroRoot paging mem) {v : ℕ} (hv : v < 512) :
    mem.slot paging.table v = some Entry.zeroed := by
  have : v < 4096 / 8 := hv
  simp [Memory.slot, show mem.tables paging.table = _ from h, Table.zeroed, this]

/-- Leaves without flags at the indices `D` of the root are a tree without tables. -/
theorem represents_zeroed {D : Set ℕ} (hhi : levels ≤ 6)
    (hslot : ∀ v ∈ D, mem.slot paging.table v = some Entry.zeroed)
    (hcap : mem.allocated ≤ heap.capacity) :
    Represents paging heap mem.allocated D mem (fun _ => .leaf Entry.zeroed) := by
  refine ⟨le_rfl, hcap, fun _ => ∅, ⟨fun v hv => ⟨_, hslot v hv, ?_⟩, fun _ _ => rfl,
    fun _ _ _ h => h.elim⟩, by simp⟩
  have hsize : pageSize (levels - 1) ≤ pageSize 5 := pageSize_le (by omega)
  rw [show pageSize 5 = 2 ^ 57 from rfl] at hsize
  have hbound : Entry.zeroed.value.toNat + pageSize (levels - 1) / 4 ≤ 2 ^ 55 := by
    rw [show Entry.zeroed.value.toNat = 0 from rfl]
    omega
  generalize levels - 1 = l at hbound
  cases l <;> exact ⟨rfl, rfl, hbound, rfl⟩

/-- **Every reachable state represents a tree.** -/
theorem Reachable.represents (hfresh : FreshPages paging heap mem₀.allocated) (hlo : 1 ≤ levels)
    (hhi : levels ≤ 6) (hzero : ZeroRoot paging mem₀)
    (h : Reachable paging heap LeafFlags mem₀ mem) :
    ∃ entries, Represents paging heap mem₀.allocated (Set.Iio 512) mem entries := by
  -- On the run: the zeroed root, and one call at a time.
  induction h with
  | refl => exact ⟨_, represents_zeroed hhi (fun v hv => hzero.slot hv) hfresh.started⟩
  | @step mem mem' c h hc hmap ih =>
    obtain ⟨entries, hrep⟩ := ih
    have hhi' : levels ≤ 5 := by
      -- with six levels the call would have overflowed
      by_contra hsix
      obtain rfl : levels = 6 := by omega
      rw [GenericPaging.map, decanonicalizeAddress_six] at hmap
      cases hmap
    obtain ⟨haligned, hpos, hlt⟩ := aligned_of_map_eq_ok hlo hhi' hmap
    exact ⟨_, ((map_outcome hfresh hlo hhi' hrep ⟨haligned, hc, hlt⟩ hpos fun v hv =>
      hv.lt).post_of_eq_ok hmap).1⟩

/-- With six levels no call returns. -/
theorem Reachable.eq_of_six {paging : Sv65} {ok : Memory 8 → MapCall → Prop}
    (h : Reachable paging heap ok mem₀ mem) : mem = mem₀ := by
  cases h with
  | refl => rfl
  | step _ _ hmap =>
    rw [GenericPaging.map, decanonicalizeAddress_six] at hmap
    cases hmap

end Reachable

/-! ## Valid calls of Sv39 -/

namespace MapCall

/-- The arguments a call is meant for: aligned, with a range below `2 ^ 39` and the flags of a valid
leaf. -/
@[mk_iff]
structure Valid (c : MapCall) : Prop where
  physical : 4096 ∣ c.physicalAddr.toNat
  virtual : 4096 ∣ c.virtualAddr.toNat
  length : 4096 ∣ c.length.toNat
  range : (c.decanonical 3).virtualAddr.toNat + c.length.toNat ≤ 2 ^ 39
  flags_lt : c.flags.toNat < 256
  valid : c.flags.getLsbD 0 = true
  readExecute : c.flags.getLsbD 1 = true ∨ c.flags.getLsbD 3 = true

instance (c : MapCall) : Decidable c.Valid := decidable_of_iff _ (valid_iff c).symm

variable {c : MapCall}

theorem Valid.aligned (h : c.Valid) : (c.decanonical 3).Aligned := by
  refine ⟨h.physical, ?_, h.length⟩
  rw [toNat_decanonical (by norm_num)]
  exact (Nat.dvd_mod_iff (page_dvd_pageSize 3)).mpr h.virtual

theorem Valid.leafFlags (h : c.Valid) : leafBits c.flags = true := by
  rcases h.readExecute with hbit | hbit <;> simp [leafBits, hbit]

theorem Valid.stop_le (h : c.Valid) : (c.decanonical 3).stop ≤ 2 ^ 39 := h.range

end MapCall

section Valid

variable {paging : Sv39} {heap : Allocator 8} {mem : Memory 8} {c : MapCall}

/-- A valid call that does not wrap below 0 returns, unless there is no memory. -/
theorem MapCall.Valid.map_returns {n₀ : ℕ} (hc : c.Valid) (hfresh : FreshPages paging heap n₀)
    {entries : ℕ → PageNode 2} (h : Represents paging heap n₀ (Set.Iio 512) mem entries)
    (hpos : 0 < (c.decanonical 3).stop) (hmem : paging.map heap c mem ≠ .error .outOfMemory) :
    ∃ mem', paging.map heap c mem = .ok mem' := by
  have hstop := hc.stop_le
  obtain ⟨mem', hmap, -⟩ := (map_outcome hfresh (by norm_num) (by norm_num) h
    ⟨hc.aligned, hc.leafFlags, by omega⟩ (fun _ => hpos) fun v hv =>
      hv.lt).exists_ok fun f hf => by
        rw [hf.1]
        exact hmem
  exact ⟨mem', hmap⟩

end Valid

/-! ## A machine with identity mapping -/

/-- Pages from `0x2000` on. -/
def identityHeap : Allocator 8 where
  capacity := 2 ^ 30
  page := fun n => BitVec.ofNat 64 ((n + 2) * 4096)
  stale := fun _ => Table.zeroed

/-- The memory with a zeroed root table at `0x1000`. -/
def zeroMemory : Memory 8 := Memory.uniform 0x1000 Entry.zeroed

theorem toNat_identityHeap_page {n : ℕ} (hn : n < identityHeap.capacity) :
    (identityHeap.page n).toNat = (n + 2) * 4096 := by
  have hn' : n < 2 ^ 30 := hn
  show (BitVec.ofNat 64 ((n + 2) * 4096)).toNat = _
  rw [BitVec.toNat_ofNat, Nat.mod_eq_of_lt (by omega)]

theorem identity_fresh : FreshPages identitySv39 identityHeap 0 where
  started := Nat.zero_le _
  injective := fun m n _ _ hm hn heq => by
    have := congrArg BitVec.toNat heq
    rw [toNat_identityHeap_page hm, toNat_identityHeap_page hn] at this
    omega
  ne_root := fun n _ hn heq => by
    have := congrArg BitVec.toNat heq
    rw [toNat_identityHeap_page hn, show identitySv39.table.toNat = 4096 from rfl] at this
    omega
  ne_null := fun n _ hn heq => by
    have := congrArg BitVec.toNat heq
    rw [toNat_identityHeap_page hn, show (0 : Usize).toNat = 0 from rfl] at this
    omega
  inverse := fun _ _ _ => rfl
  aligned := fun n _ hn => by
    show 4096 ∣ (identityHeap.page n).toNat
    rw [toNat_identityHeap_page hn]
    exact Nat.dvd_mul_left _ _
  phys_ne_zero := fun n _ hn heq => by
    have : (identityHeap.page n).toNat = 0 := congrArg BitVec.toNat heq
    rw [toNat_identityHeap_page hn] at this
    omega
  phys_lt := fun n _ hn => by
    show (identityHeap.page n).toNat < _
    rw [toNat_identityHeap_page hn]
    have : n < 2 ^ 30 := hn
    omega

theorem zeroMemory_zeroRoot : ZeroRoot identitySv39 zeroMemory := by
  simp [ZeroRoot, zeroMemory, Memory.uniform, identitySv39, Table.zeroed]

theorem zeroMemory_represents : Represents identitySv39 identityHeap 0 (Set.Iio 512) zeroMemory
    (fun _ => .leaf Entry.zeroed) :=
  represents_zeroed (by norm_num) (fun _ hv => zeroMemory_zeroRoot.slot hv) (Nat.zero_le _)

/-- The heap is large enough for one call. -/
theorem zeroMemory_map_ne {c : MapCall} (hc : c.Valid) (hpos : 0 < (c.decanonical 3).stop) :
    identitySv39.map identityHeap c zeroMemory ≠ .error .outOfMemory := by
  intro hmem
  have hstop := hc.stop_le
  have hout := map_outcome identity_fresh (by norm_num) (by norm_num) zeroMemory_represents
    ⟨hc.aligned, hc.leafFlags, by omega⟩ (fun _ => hpos) fun v hv => hv.lt
  rw [hmem] at hout
  -- A call adds at most 512 tables of level 1 and 512 of level 0 below each of them.
  have hle := MapCall.newTables_le (c := c.decanonical 3) (l := 2)
    (fun _ => .leaf Entry.zeroed)
  have hlt := hout.2
  rw [show identityHeap.capacity = 2 ^ 30 from rfl, show zeroMemory.allocated = 0 from rfl] at hlt
  have hbound : 512 * MapCall.tableBound 2 < 2 ^ 30 := by decide
  have : (c.decanonical 3).newTables (3 - 1) (fun _ => PageNode.leaf Entry.zeroed) =
    (c.decanonical 3).newTables 2 (fun _ => PageNode.leaf Entry.zeroed) := rfl
  omega

/-- One page at 0. -/
def pageCall : MapCall := ⟨0, 0, 0x1000, 0xf⟩

theorem pageCall_valid : pageCall.Valid := by
  decide

end AsyncKernel
