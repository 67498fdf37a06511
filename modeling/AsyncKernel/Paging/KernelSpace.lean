import AsyncKernel.Paging.Coverage

/-!
# The address space of the kernel

`common_hart_code` makes a root table and maps physical memory into the upper half, and then the
kernel over the first megabyte of a gigapage. The first call finds leaves in the upper half and
writes gigapages; the second one splits a gigapage into megapages and a megapage into pages.

## Main definitions

* `directCall`, `kernelCall`, `mapKernel`: the two calls of `common_hart_code`
* `LeafRoot`: a root table with leaves in its upper half

## Main results

* `mapInternal_leaves`: a call that comes to leaves and splits none of them
* `visit_kernelCall`: which addresses the second call rewrites
* `mapKernel_query`: the address space that the two calls make
-/

namespace AsyncKernel

open Bits

/-- `KERNEL_START_VIRTUAL`. -/
def kernelStartVirtual : Usize := BitVec.allOnes 64 - 0x80000000 + 1

/-- Physical memory into the upper half. -/
def directCall : MapCall := ⟨0, (1 : Usize) <<< 38, (1 : Usize) <<< 38, 0xf⟩

/-- The kernel to its virtual address. -/
def kernelCall (kernelPhysical : Usize) : MapCall :=
  ⟨kernelPhysical, kernelStartVirtual, 0x100000, 0xf⟩

/-- The two calls of `common_hart_code`. -/
def mapKernel (paging : Sv39) (heap : Allocator 8) (kernelPhysical : Usize) (mem : Memory 8) :
    Except Fault (Memory 8) := do
  let mem ← paging.map heap directCall mem
  paging.map heap (kernelCall kernelPhysical) mem

/-! ## The arguments of the calls -/

theorem directCall_valid : directCall.Valid := by
  decide

theorem directCall_visits (v : ℕ) : (directCall.decanonical 3).Visits 2 v ↔ 256 ≤ v ∧ v < 512 := by
  rw [MapCall.Visits, show (directCall.decanonical 3).first 2 = 256 by decide,
    show (directCall.decanonical 3).last 2 = 511 by decide]
  omega

theorem directCall_splits (v : ℕ) : (directCall.decanonical 3).splits 2 v = false := by
  have hstart : (directCall.decanonical 3).startMisaligned 2 8 = false := by decide
  have hend : (directCall.decanonical 3).endMisaligned 2 8 = false := by decide
  rw [MapCall.splits, MapCall.splitsAt, hstart, hend, Bool.and_false, Bool.and_false]
  rfl

section KernelCall

variable {kernelPhysical : Usize}

theorem kernelCall_virtual :
    ((kernelCall kernelPhysical).decanonical 3).virtualAddr.toNat = 0x7f80000000 := by
  show (kernelStartVirtual &&& BitVec.ofNat 64 (2 ^ (12 + 9 * 3) - 1)).toNat = 0x7f80000000
  decide

theorem kernelCall_length : (kernelCall kernelPhysical).length.toNat = 0x100000 := rfl

theorem kernelCall_stop : ((kernelCall kernelPhysical).decanonical 3).stop = 0x7f80100000 := by
  show ((kernelCall kernelPhysical).decanonical 3).virtualAddr.toNat +
    (kernelCall kernelPhysical).length.toNat = 0x7f80100000
  rw [kernelCall_virtual, kernelCall_length]

theorem kernelCall_valid (h : 4096 ∣ kernelPhysical.toNat) : (kernelCall kernelPhysical).Valid := by
  have hvirtual : 4096 ∣ kernelStartVirtual.toNat := by decide
  have hflags : (0xf : Usize).getLsbD 0 = true := by decide
  have hread : (0xf : Usize).getLsbD 1 = true := by decide
  refine ⟨h, hvirtual, ?_, ?_, ?_, hflags, Or.inl hread⟩
  · rw [kernelCall_length]
    decide
  · rw [kernelCall_virtual, kernelCall_length]
    norm_num
  · show (0xf : Usize).toNat < 256
    decide

/-- The loops of the second call. -/
theorem kernelCall_bounds (kernelPhysical : Usize) :
    ((kernelCall kernelPhysical).decanonical 3).first 2 = 510 ∧
      ((kernelCall kernelPhysical).decanonical 3).last 2 = 510 ∧
      ((kernelCall kernelPhysical).decanonical 3).first 1 = 0 ∧
      ((kernelCall kernelPhysical).decanonical 3).last 1 = 0 ∧
      ((kernelCall kernelPhysical).decanonical 3).first 0 = 0 ∧
      ((kernelCall kernelPhysical).decanonical 3).last 0 = 256 := by
  unfold MapCall.last MapCall.first
  rw [kernelCall_virtual, kernelCall_stop]
  decide

theorem kernelCall_visits_two (v : ℕ) :
    ((kernelCall kernelPhysical).decanonical 3).Visits 2 v ↔ v = 510 := by
  obtain ⟨hfirst, hlast, -⟩ := kernelCall_bounds kernelPhysical
  rw [MapCall.Visits, hfirst, hlast]
  omega

theorem kernelCall_visits_one (v : ℕ) :
    ((kernelCall kernelPhysical).decanonical 3).Visits 1 v ↔ v = 0 := by
  obtain ⟨-, -, hfirst, hlast, -⟩ := kernelCall_bounds kernelPhysical
  rw [MapCall.Visits, hfirst, hlast]
  omega

theorem kernelCall_visits_zero (v : ℕ) :
    ((kernelCall kernelPhysical).decanonical 3).Visits 0 v ↔ v ≤ 256 := by
  obtain ⟨-, -, -, -, hfirst, hlast⟩ := kernelCall_bounds kernelPhysical
  rw [MapCall.Visits, hfirst, hlast]
  omega

/-- The range of the kernel ends inside a gigapage and inside a megapage, which are split. -/
theorem kernelCall_splits (h : 4096 ∣ kernelPhysical.toNat) {l v : ℕ} (hl : 1 ≤ l) (hl' : l ≤ 2)
    (hv : ((kernelCall kernelPhysical).decanonical 3).Visits l v) :
    ((kernelCall kernelPhysical).decanonical 3).splits l v = true := by
  obtain ⟨-, hlast₂, -, hlast₁, -⟩ := kernelCall_bounds kernelPhysical
  rw [MapCall.splits, MapCall.splitsAt_iff (kernelCall_valid h).aligned (by omega), kernelCall_stop]
  refine Or.inr ⟨?_, Or.inl ?_⟩
  · interval_cases l
    · rw [(kernelCall_visits_one v).mp hv, hlast₁]
    · rw [(kernelCall_visits_two v).mp hv, hlast₂]
  · interval_cases l <;> decide

/-- **Which addresses the second call rewrites**, when they lie in a gigapage: the pages of the
kernel and one more. -/
theorem visit_kernelCall (h : 4096 ∣ kernelPhysical.toNat) (va : ℕ) :
    ((kernelCall kernelPhysical).decanonical 3).visit va 2 2 =
      if vpn 2 va = 510 then
        if vpn 1 va = 0 then if vpn 0 va ≤ 256 then .rewritten 0 else .missed 0 else .missed 1
      else .missed 2 := by
  have hsplit : ∀ l, 1 ≤ l → l ≤ 2 →
      ((kernelCall kernelPhysical).decanonical 3).Visits l (vpn l va) →
      ¬ (((kernelCall kernelPhysical).decanonical 3).splits l (vpn l va) = false) := by
    intro l hl hl' hv
    rw [kernelCall_splits h hl hl' hv]
    simp
  -- Level by level: the gigapage 510, its first megapage, and the first pages of that.
  unfold MapCall.visit
  refine ite_congr (propext (kernelCall_visits_two _)) (fun h2 => ?_) fun _ => rfl
  rw [if_neg fun hs => hsplit 2 (by norm_num) le_rfl ((kernelCall_visits_two _).mpr h2) hs.2]
  unfold MapCall.visit
  refine ite_congr (propext (kernelCall_visits_one _)) (fun h1 => ?_) fun _ => rfl
  rw [if_neg fun hs => hsplit 1 le_rfl (by norm_num) ((kernelCall_visits_one _).mpr h1) hs.2]
  unfold MapCall.visit
  exact ite_congr (propext (kernelCall_visits_zero _)) (fun _ => rfl) fun _ => rfl

end KernelCall

/-! ## The first call -/

section Direct

variable {mem : Memory 8} {c : MapCall} {table offset : Usize} {l : ℕ}

/-- **A call that comes to leaves and splits none of them** writes its entries over them and changes
nothing else, whatever the rest of the memory holds. -/
theorem mapInternal_leaves (paging : Sv39) (heap : Allocator 8) (hl : l + 1 ≤ 4)
    (hpos : 0 < c.stop) (hstop : c.stop < 2 ^ 64)
    (hoffset : offset.toNat + pageSize (l + 2) ≤ 2 ^ 57)
    (hsplits : ∀ v, c.splits (l + 1) v = false)
    (hleaves : ∀ v, c.Visits (l + 1) v → ∃ e, mem.slot table v = some e ∧ e.isLeaf = true) :
    Outcome (fun _ => False) (fun mem' => mem'.allocated = mem.allocated ∧ ∀ b v, mem'.slot b v =
        if b = table ∧ c.Visits (l + 1) v then
          some (c.newEntry (MapCall.entryAddress (l + 1) offset v))
        else mem.slot b v)
      (mapInternal paging.physToVirt paging.virtToPhys heap c (l + 1) table offset mem) := by
  have hfirst := c.first_le_last (l + 1)
  have hlast := c.last_lt (l + 1)
  rw [mapInternal_eq, MapCall.vpnEnd_eq_ok (by omega) (fun _ => hpos) hstop, ok_bind,
    c.vpnStart_eight (by omega)]
  -- The entries before the index are written, and the memory is as it was otherwise.
  let I : ℕ → Memory 8 → Prop := fun k s => s.allocated = mem.allocated ∧ ∀ b v, s.slot b v =
    if b = table ∧ c.first (l + 1) ≤ v ∧ v < k then
      some (c.newEntry (MapCall.entryAddress (l + 1) offset v))
    else mem.slot b v
  have hstart : I (c.first (l + 1)) mem := ⟨rfl, fun b v => (if_neg (by omega)).symm⟩
  refine (Outcome.foldlM_range' I (fun k s hk hk' hI => ?_) hstart).mono (fun _ h => h)
    fun mem' hI => ?_
  · -- one entry: it still holds the leaf it held at the start
    obtain ⟨halloc, hslots⟩ := hI
    obtain ⟨e, hslot, hleaf⟩ := hleaves k ⟨hk, by omega⟩
    have hslot' : s.slot table k = some e := by rw [hslots, if_neg (by omega), hslot]
    rw [mapBody_succ hslot' hl (by omega) hoffset, hsplits, Bool.and_false, if_neg (by simp),
      pure_bind]
    dsimp only
    rw [Entry.tryAsTable_of_leaf hleaf]
    refine Outcome.of_eq_ok (Memory.writeEntry_eq_ok hslot' _)
      ⟨by simpa using halloc, fun b v => ?_⟩
    rw [Memory.slot_setSlot hslot', hslots]
    by_cases hbv : b = table ∧ v = k
    · obtain ⟨rfl, rfl⟩ := hbv
      rw [if_pos ⟨rfl, rfl⟩, if_pos ⟨rfl, hk, by omega⟩]
    · rw [if_neg hbv]
      refine if_congr ⟨fun h => ⟨h.1, h.2.1, by omega⟩, fun h => ⟨h.1, h.2.1, ?_⟩⟩ rfl rfl
      have : v ≠ k := fun hv => hbv ⟨h.1, hv⟩
      omega
  · obtain ⟨halloc, hslots⟩ := hI
    refine ⟨halloc, fun b v => ?_⟩
    rw [hslots]
    exact if_congr (and_congr Iff.rfl (and_congr Iff.rfl (by omega))) rfl rfl

/-- A root table with leaves in its upper half. -/
def LeafRoot (paging : Sv39) (mem : Memory 8) : Prop :=
  ∀ v, 256 ≤ v → v < 512 → ∃ e, mem.slot paging.table v = some e ∧ e.isLeaf = true

/-- The gigapages of the upper half after the first call. -/
def directEntries : ℕ → PageNode 2 := fun v =>
  .leaf ((directCall.decanonical 3).newEntry (MapCall.entryAddress 2 0 v))

/-- **The first call** makes the gigapages of the upper half, and leaves the lower half alone. -/
theorem directCall_outcome {paging : Sv39} (heap : Allocator 8) (h : LeafRoot paging mem)
    (hcap : mem.allocated ≤ heap.capacity) :
    ∃ mem', paging.map heap directCall mem = .ok mem' ∧ mem'.allocated = mem.allocated ∧
      Represents paging heap mem.allocated (Set.Ico 256 512) mem' directEntries ∧
      ∀ v < 256, mem'.slot paging.table v = mem.slot paging.table v := by
  have hoffset : (0 : Usize).toNat + pageSize 3 ≤ 2 ^ 57 := by decide
  -- Nothing is split, so the call needs no memory and cannot fail.
  obtain ⟨mem', hmap, halloc, hslots⟩ := (mapInternal_leaves paging heap
    (c := directCall.decanonical 3) (l := 1) (by norm_num) (by decide) (by decide) hoffset
    directCall_splits fun v hv => by
      obtain ⟨hlo, hhi⟩ := (directCall_visits v).mp hv
      exact h v hlo hhi).exists_ok fun _ h => h.elim
  refine ⟨mem', ?_, halloc, ⟨by omega, by omega, fun _ => ∅, ⟨fun v hv => ?_, fun _ _ => rfl,
    fun _ _ _ h => h.elim⟩, by simp [halloc]⟩, fun v hv => ?_⟩
  · rw [map_eq_mapInternal (by norm_num) (by norm_num) paging heap mem directCall_valid.aligned]
    exact hmap
  · refine ⟨_, by rw [hslots, if_pos ⟨rfl, (directCall_visits v).mpr hv⟩], ?_⟩
    have hruns : (directCall.decanonical 3).Runs :=
      ⟨directCall_valid.aligned, directCall_valid.leafFlags, by decide⟩
    obtain ⟨hbits, hbound⟩ := hruns.newEntry_facts (l := 2) (by norm_num)
      (entryAddress_bounds (v := v) (by norm_num) hv.2 hoffset (by simp)).1
    exact ⟨rfl, hbits, hbound, rfl⟩
  · rw [hslots, if_neg fun h => ?_]
    have := ((directCall_visits v).mp h.2).1
    omega

/-- The tables of the root cover the addresses from 0 on. -/
theorem zero_eq_pageStart (va : ℕ) : (0 : Usize) = pageStart 3 (va % pageSize 3) := by
  rw [pageStart, Nat.div_eq_of_lt (Nat.mod_lt _ (pageSize_pos 3)), Nat.zero_mul]
  rfl

/-- The leaf of an address of the upper half after the first call. -/
theorem directEntries_leafAt (va : ℕ) :
    (directEntries (vpn 2 va)).leafAt va =
      (2, (directCall.decanonical 3).newEntry (pageStart 2 (va % pageSize 3))) := by
  have hvpn : vpn 2 (va % pageSize 3) = vpn 2 va := by
    rw [vpn, vpn, show pageSize 2 = 2 ^ 30 from rfl, show pageSize 3 = 2 ^ 39 from rfl]
    omega
  have hlt : va % pageSize 3 < pageSize 3 := Nat.mod_lt _ (pageSize_pos 3)
  rw [directEntries, PageNode.leafAt_leaf, zero_eq_pageStart va, ← hvpn,
    entryAddress_pageStart (by norm_num) (lt_of_lt_of_le hlt (by decide))]

end Direct

/-! ## The second call -/

section Kernel

variable {paging : Sv39} {heap : Allocator 8} {n₀ : ℕ} {mem : Memory 8} {kernelPhysical : Usize}

/-- The tree of the upper half after the two calls. -/
def kernelEntries (kernelPhysical : Usize) : ℕ → PageNode 2 :=
  ((kernelCall kernelPhysical).decanonical 3).mapEntries 2 0 directEntries

/-- The second call makes two tables: one for the gigapage and one for the megapage. -/
theorem kernelCall_newTables (h : 4096 ∣ kernelPhysical.toNat) :
    ((kernelCall kernelPhysical).decanonical 3).newTables 2 directEntries = 2 := by
  obtain ⟨hfirst₂, hlast₂, hfirst₁, hlast₁, -, -⟩ := kernelCall_bounds kernelPhysical
  -- One entry is visited at each of the two upper levels, and it is a leaf that is split.
  have hsplit₂ := kernelCall_splits h (l := 2) (by norm_num) le_rfl
    ((kernelCall_visits_two 510).mpr rfl)
  have hsplit₁ := kernelCall_splits h (l := 1) le_rfl (by norm_num)
    ((kernelCall_visits_one 0).mpr rfl)
  rw [MapCall.newTables, hfirst₂, hlast₂, Nat.Ico_succ_singleton, Finset.sum_singleton,
    directEntries, MapCall.newTablesAt_split hsplit₂, MapCall.newTables, hfirst₁, hlast₁,
    Nat.Ico_succ_singleton, Finset.sum_singleton, pieces, MapCall.newTablesAt_split hsplit₁,
    MapCall.newTables]
  simp [MapCall.newTablesAt]

/-- **The second call** after the first one. -/
theorem kernelCall_outcome (hfresh : FreshPages paging heap n₀) (h : 4096 ∣ kernelPhysical.toNat)
    (hrep : Represents paging heap n₀ (Set.Ico 256 512) mem directEntries)
    (hroom : mem.allocated + 2 ≤ heap.capacity) :
    ∃ mem', paging.map heap (kernelCall kernelPhysical) mem = .ok mem' ∧
      Represents paging heap n₀ (Set.Ico 256 512) mem' (kernelEntries kernelPhysical) ∧
      ∀ v < 256, mem'.slot paging.table v = mem.slot paging.table v := by
  have hvalid := kernelCall_valid h
  have hstop : ((kernelCall kernelPhysical).decanonical 3).stop = 0x7f80100000 := kernelCall_stop
  obtain ⟨mem', hmap, hrep', -, hslots⟩ := (map_outcome hfresh (by norm_num) (by norm_num) hrep
    ⟨hvalid.aligned, hvalid.leafFlags, by omega⟩ (fun _ => by omega) fun v hv => by
      obtain rfl := (kernelCall_visits_two v).mp hv
      decide).exists_ok fun f hf => by
        have hlt : heap.capacity < mem.allocated +
          ((kernelCall kernelPhysical).decanonical 3).newTables 2 directEntries := hf.2
        rw [kernelCall_newTables h] at hlt
        omega
  refine ⟨mem', hmap, hrep', fun v hv => hslots v fun hvisit => ?_⟩
  have := (kernelCall_visits_two v).mp hvisit
  omega

/-- **The two calls** from a root table with leaves in its upper half: the tree they make does not
depend on these leaves. -/
theorem mapKernel_outcome (hfresh : FreshPages paging heap mem.allocated)
    (hroom : mem.allocated + 2 ≤ heap.capacity) (h : 4096 ∣ kernelPhysical.toNat)
    (hroot : LeafRoot paging mem) :
    ∃ mem', mapKernel paging heap kernelPhysical mem = .ok mem' ∧
      Represents paging heap mem.allocated (Set.Ico 256 512) mem' (kernelEntries kernelPhysical) ∧
      ∀ v < 256, mem'.slot paging.table v = mem.slot paging.table v := by
  obtain ⟨mem₁, hmap₁, halloc, hrep₁, hslots₁⟩ := directCall_outcome heap hroot (by omega)
  obtain ⟨mem₂, hmap₂, hrep₂, hslots₂⟩ := kernelCall_outcome hfresh h hrep₁ (by omega)
  refine ⟨mem₂, ?_, hrep₂, fun v hv => (hslots₂ v hv).trans (hslots₁ v hv)⟩
  rw [mapKernel, hmap₁, ok_bind, hmap₂]

/-- The leaf of an address of the upper half after the two calls. -/
theorem kernelEntries_leafAt (va : ℕ) :
    (kernelEntries kernelPhysical (vpn 2 va)).leafAt va =
      ((kernelCall kernelPhysical).decanonical 3).effect (va % pageSize 3) 2 2
        ((directCall.decanonical 3).newEntry (pageStart 2 (va % pageSize 3))) := by
  have hlt : va % pageSize 3 < pageSize 3 := Nat.mod_lt _ (pageSize_pos 3)
  rw [← leafAt_mod (n := 3) _ _ (by norm_num), kernelEntries]
  refine leafAt_mapEntries (by norm_num) (lt_of_lt_of_le hlt (by decide)) (zero_eq_pageStart va) ?_
  rw [directEntries_leafAt, Nat.mod_mod]

/-- An entry of the first call: a valid gigapage, at the address minus `2 ^ 38`. -/
theorem directEntry_facts (va : ℕ) :
    ((directCall.decanonical 3).newEntry (pageStart 2 (va % pageSize 3))).value.getLsbD 0 = true ∧
      2 ^ (9 * 2) ∣ ((directCall.decanonical 3).newEntry (pageStart 2 (va % pageSize 3))).ppn ∧
      ((directCall.decanonical 3).newEntry (pageStart 2 (va % pageSize 3))).target 2 va %
          pageSize 3 =
        (va + (2 ^ 64 - 2 ^ 38)) % pageSize 3 ∧
      ((directCall.decanonical 3).newEntry (pageStart 2 (va % pageSize 3))).value.toNat +
        pageSize 2 / 4 ≤ 2 ^ 55 := by
  have haligned := directCall_valid.aligned
  have hflags : (directCall.decanonical 3).flags.toNat < 2 ^ 10 := by decide
  have hdelta : (directCall.decanonical 3).delta = 2 ^ 64 - 2 ^ 38 := by decide
  have hlt : va % pageSize 3 < 2 ^ 64 := lt_trans (Nat.mod_lt _ (pageSize_pos 3)) (by decide)
  refine ⟨?_, ?_, ?_, ?_⟩
  · rw [MapCall.getLsbD_newEntry haligned (page_dvd_pageStart hlt) (by norm_num)]
    decide
  · rw [MapCall.dvd_ppn_newEntry haligned hflags hlt (by norm_num), hdelta]
    decide
  · rw [← Entry.target_mod _ (show 2 ≤ 3 by norm_num),
      MapCall.target_newEntry haligned hflags hlt (by norm_num), hdelta, Nat.mod_add_mod]
  · have hlt' := (directCall.decanonical 3).newEntry_lt (pageStart 2 (va % pageSize 3))
    rw [show pageSize 2 = 2 ^ 30 from rfl]
    omega

/-- An address of the kernel after the two calls: its page is rewritten at level 0. -/
theorem kernel_leafResult (halign : 4096 ∣ kernelPhysical.toNat)
    (hbound : kernelPhysical.toNat + 2 ^ 21 ≤ 2 ^ 39) {o : ℕ} (ho : o < 0x100000) {va : Usize}
    (hva : va.toNat % pageSize 3 = 0x7f80000000 + o) :
    leafResult 3 va ((kernelEntries kernelPhysical (vpn 2 va.toNat)).leafAt va.toNat) =
      .ok (.ok (kernelPhysical + BitVec.ofNat 64 o)) := by
  have hvalid := kernelCall_valid halign
  have hvisit : ((kernelCall kernelPhysical).decanonical 3).visit (va.toNat % pageSize 3) 2 2 =
      .rewritten 0 := by
    rw [visit_kernelCall halign, hva, vpn, vpn, vpn, show pageSize 2 = 2 ^ 30 from rfl,
      show pageSize 1 = 2 ^ 21 from rfl, show pageSize 0 = 2 ^ 12 from rfl, if_pos (by omega),
      if_pos (by omega), if_pos (by omega)]
  -- The offset wraps when the kernel is loaded below its virtual address; modulo `2 ^ 39` it is
  -- right.
  have hdelta := ((kernelCall kernelPhysical).decanonical 3).virtual_add_delta
  rw [kernelCall_virtual, show ((kernelCall kernelPhysical).decanonical 3).physicalAddr =
    kernelPhysical from rfl] at hdelta
  have hdvd : pageSize 0 ∣ ((kernelCall kernelPhysical).decanonical 3).delta :=
    MapCall.page_dvd_delta hvalid.aligned
  rw [kernelEntries_leafAt, MapCall.effect, hvisit]
  dsimp only
  rw [leafResult_rewritten (by norm_num) (by norm_num) hvalid.aligned hvalid.flags_lt hvalid.valid,
    if_pos hdvd]
  have hsum : (va.toNat + ((kernelCall kernelPhysical).decanonical 3).delta) % pageSize 3 =
      kernelPhysical.toNat + o := by
    rw [show pageSize 3 = 2 ^ 39 from rfl] at hva ⊢
    omega
  rw [hsum, BitVec.ofNat_add, BitVec.ofNat_toNat, BitVec.setWidth_eq]

/-- Another address of the upper half after the two calls: it keeps the translation of the first. -/
theorem direct_leafResult (halign : 4096 ∣ kernelPhysical.toNat) {x : ℕ} (hx : x < 2 ^ 38)
    (hout : ¬ (0x7f80000000 ≤ 2 ^ 38 + x ∧ 2 ^ 38 + x < 0x7f80000000 + 2 ^ 21)) {va : Usize}
    (hva : va.toNat % pageSize 3 = 2 ^ 38 + x) :
    leafResult 3 va ((kernelEntries kernelPhysical (vpn 2 va.toNat)).leafAt va.toNat) =
      .ok (.ok (BitVec.ofNat 64 x)) := by
  -- Outside of the megapage the second call misses the address, and may have split its gigapage.
  obtain ⟨j, hvisit⟩ : ∃ j, ((kernelCall kernelPhysical).decanonical 3).visit
      (va.toNat % pageSize 3) 2 2 = .missed j := by
    rw [visit_kernelCall halign, hva, vpn, vpn, show pageSize 2 = 2 ^ 30 from rfl,
      show pageSize 1 = 2 ^ 21 from rfl]
    split
    · rw [if_neg (by omega)]
      exact ⟨1, rfl⟩
    · exact ⟨2, rfl⟩
  obtain ⟨hv, hdvd, htarget, hle⟩ := directEntry_facts va.toNat
  rw [kernelEntries_leafAt, MapCall.effect, hvisit]
  dsimp only
  rw [leafResult_missed (by norm_num) (by norm_num) hle, hv, if_neg (by simp),
    if_pos ((Nat.pow_dvd_pow 2 (by omega)).trans hdvd), htarget]
  have hsum : (va.toNat + (2 ^ 64 - 2 ^ 38)) % pageSize 3 = x := by
    rw [show pageSize 3 = 2 ^ 39 from rfl] at hva ⊢
    omega
  rw [hsum]

/-- **The address space of the kernel**: the kernel is at its virtual address, and the rest of the
upper half but one megapage is physical memory. -/
theorem mapKernel_query (hfresh : FreshPages paging heap mem.allocated)
    (hroom : mem.allocated + 2 ≤ heap.capacity) (halign : 4096 ∣ kernelPhysical.toNat)
    (hbound : kernelPhysical.toNat + 2 ^ 21 ≤ 2 ^ 39) {t : Table 8}
    (ht : mem.tables paging.table = some t)
    (hzero : ∀ v, 256 ≤ v → v < 512 → t.entries[v]? = some Entry.zeroed) :
    ∃ mem', mapKernel paging heap kernelPhysical mem = .ok mem' ∧
      (∀ o < 0x100000, paging.query mem' (kernelStartVirtual + BitVec.ofNat 64 o) =
        .ok (.ok (kernelPhysical + BitVec.ofNat 64 o))) ∧
      ∀ x < 2 ^ 38, ¬ (0x7f80000000 ≤ 2 ^ 38 + x ∧ 2 ^ 38 + x < 0x7f80000000 + 2 ^ 21) →
        paging.query mem' (BitVec.ofNat 64 (2 ^ 38 + x)) = .ok (.ok (BitVec.ofNat 64 x)) := by
  have hroot : LeafRoot paging mem := fun v hlo hhi => by
    refine ⟨Entry.zeroed, ?_, rfl⟩
    rw [Memory.slot, ht]
    exact hzero v hlo hhi
  obtain ⟨mem', hmap, hrep, -⟩ := mapKernel_outcome hfresh hroom halign hroot
  -- The addresses in question lie in the half of the root that the calls have made.
  have hupper : ∀ {va : Usize}, 2 ^ 38 ≤ va.toNat % pageSize 3 →
      vpn 2 va.toNat ∈ Set.Ico 256 512 := by
    intro va hva
    refine ⟨?_, vpn_lt _ _⟩
    rw [show pageSize 3 = 2 ^ 39 from rfl] at hva
    rw [vpn, show pageSize 2 = 2 ^ 30 from rfl]
    omega
  refine ⟨mem', hmap, fun o ho => ?_, fun x hx hout => ?_⟩
  · have hva : (kernelStartVirtual + BitVec.ofNat 64 o).toNat % pageSize 3 = 0x7f80000000 + o := by
      rw [BitVec.toNat_add, BitVec.toNat_ofNat,
        show kernelStartVirtual.toNat = 0xffffffff80000000 by decide,
        show pageSize 3 = 2 ^ 39 from rfl]
      omega
    rw [hrep.query_eq hfresh (by norm_num) (hupper (by omega))]
    exact kernel_leafResult halign hbound ho hva
  · have hva : (BitVec.ofNat 64 (2 ^ 38 + x) : Usize).toNat % pageSize 3 = 2 ^ 38 + x := by
      rw [BitVec.toNat_ofNat, show pageSize 3 = 2 ^ 39 from rfl]
      omega
    rw [hrep.query_eq hfresh (by norm_num) (hupper (by omega))]
    exact direct_leafResult halign hx hout hva

/-- A kernel at `0x80200000`. -/
theorem mapKernel_query_identity :
    ∃ mem', mapKernel identitySv39 identityHeap 0x80200000 zeroMemory = .ok mem' ∧
      (∀ o < 0x100000, identitySv39.query mem' (kernelStartVirtual + BitVec.ofNat 64 o) =
        .ok (.ok (0x80200000 + BitVec.ofNat 64 o))) ∧
      ∀ x < 2 ^ 38, ¬ (0x7f80000000 ≤ 2 ^ 38 + x ∧ 2 ^ 38 + x < 0x7f80000000 + 2 ^ 21) →
        identitySv39.query mem' (BitVec.ofNat 64 (2 ^ 38 + x)) = .ok (.ok (BitVec.ofNat 64 x)) :=
  mapKernel_query identity_fresh (by decide) (by decide) (by decide) zeroMemory_zeroRoot
    fun v _ hv => by
      have : v < 4096 / 8 := hv
      simp [Table.zeroed, this]

end Kernel

end AsyncKernel
