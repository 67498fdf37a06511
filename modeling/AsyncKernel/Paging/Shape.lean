import AsyncKernel.Paging.Lookup
import AsyncKernel.Paging.Run

/-!
# Page tables are trees

The shape of the page tables in the memory of a run, in the terms of the lookup: the entries that
the lookup of some address reads, the tables that they are in, and the pages that they point to.

## Main definitions

* `PointsTo`: an entry that some lookup reads points to a page
* `IsTree`: pointers lead to allocated pages, each page has one pointer, and leaves end every walk

## Main results

* `Represents.isTree`: a memory that represents a tree is one
* `isTree_of_reachable`: the page tables of a run are a tree
-/

namespace AsyncKernel

variable {levels : ℕ}

/-- The entry at a table and an index, which the lookup of some address reads, points to a page. -/
def PointsTo (paging : GenericPaging levels 8) (mem : Memory 8) (page : Usize)
    (place : Usize × ℕ) : Prop :=
  ∃ va i e, Walk paging.physToVirt mem va (levels - 1) paging.table i place.1 ∧
    getVpnNumber va i 8 = place.2 ∧ mem.slot place.1 place.2 = some e ∧ e.isLeaf = false ∧
    paging.physToVirt e.address = page

/-- The page tables are a tree of bounded depth over the pages allocated since page `n₀`. -/
structure IsTree (paging : GenericPaging levels 8) (heap : Allocator 8) (n₀ : ℕ)
    (mem : Memory 8) : Prop where
  leaf_of_level_zero : ∀ va e, paging.ReadsAt mem va 0 e → e.isLeaf = true
  pointer : ∀ va i e, paging.ReadsAt mem va i e → e.isLeaf = false →
    1 ≤ i ∧ ∃ n, n₀ ≤ n ∧ n < mem.allocated ∧ paging.physToVirt e.address = heap.page n
  pointer_unique : ∀ n, n₀ ≤ n → n < mem.allocated →
    ∃! place, PointsTo paging mem (heap.page n) place
  query_ne_pageFault : ∀ va, paging.query mem va ≠ .ok (.error .pageFault)

section Shape

variable {paging : GenericPaging levels 8} {heap : Allocator 8} {n₀ : ℕ} {mem : Memory 8} {l : ℕ}
  {table : Usize}

/-- The pointers that a lookup reads below an entry lead to the pages of the entry. -/
theorem PageNode.Rep.exists_page (hfresh : FreshPages paging heap n₀) {node : PageNode l}
    {x : Entry} {pages : Set ℕ} (h : node.Rep paging.virtToPhys heap mem x pages)
    (howned : Owned heap n₀ pages) (hl : l ≤ 6) {va : Usize}
    (hslot : mem.slot table (vpn l va.toNat) = some x) {i : ℕ} {e : Entry}
    (hread : Reads paging.physToVirt mem va l table i e) (hptr : e.isLeaf = false) :
    1 ≤ i ∧ ∃ n ∈ pages, paging.physToVirt e.address = heap.page n := by
  induction node generalizing table x pages with
  | @leaf l e' =>
    obtain ⟨rfl, -, hleaf, -, -, -⟩ := h.leaf_facts
    rw [← getVpnNumber_eight hl] at hslot
    have hx : Reads paging.physToVirt mem va l table l x := ⟨table, Walk.root, hslot⟩
    obtain ⟨t, hwalk, ht⟩ := hread
    -- The walk of a leaf goes nowhere: it stays at this table, or would have passed the leaf.
    rcases Nat.eq_or_lt_of_le hwalk.le_top with rfl | hlt
    · obtain rfl := hwalk.eq_root
      obtain rfl : x = e := Option.some.inj (hslot.symm.trans ht)
      rw [hleaf] at hptr
      cases hptr
    · rw [hwalk.isLeaf_eq_false hlt hx] at hleaf
      cases hleaf
  | @table l entries ih =>
    obtain ⟨n, below, -, rfl, -, -, -, -, haddr, -, -, htable⟩ := h.table_facts hfresh howned
    obtain ⟨t, hwalk, ht⟩ := hread
    rw [← getVpnNumber_eight hl] at hslot
    -- The pointer to this page, or one that is read further down.
    rcases hwalk.head_cases with ⟨rfl, rfl⟩ | ⟨x', hslot', -, -, hbelow⟩
    · obtain rfl : x = e := Option.some.inj (hslot.symm.trans ht)
      exact ⟨by omega, n, Set.mem_insert _ _, haddr⟩
    · obtain rfl : x = x' := Option.some.inj (hslot.symm.trans hslot')
      rw [haddr] at hbelow
      obtain ⟨y, hy, hrep⟩ := htable.slot _ (vpn_lt l va.toNat)
      obtain ⟨hi, m, hm, hpage⟩ := ih _ hrep
        (fun k hk => howned k (Set.mem_insert_of_mem _ (Set.mem_iUnion.mpr ⟨_, hk⟩))) (by omega) hy
        ⟨t, hbelow, ht⟩
      exact ⟨hi, m, Set.mem_insert_of_mem _ (Set.mem_iUnion.mpr ⟨_, hm⟩), hpage⟩

/-- An address with a given index at a level and a given offset below. -/
theorem exists_vpn_address (hl : l + 1 ≤ 4) {v r : ℕ} (hv : v < 512) (hr : r < pageSize (l + 1)) :
    ∃ va : Usize, va.toNat = v * pageSize (l + 1) + r ∧ va.toNat < pageSize (l + 1 + 1) ∧
      getVpnNumber va (l + 1) 8 = v := by
  have hsize : pageSize (l + 1 + 1) ≤ 2 ^ 57 := pageSize_le (j := 5) (by omega)
  have hlt : v * pageSize (l + 1) + r < pageSize (l + 1 + 1) := by
    have hnext := Nat.mul_le_mul_right (pageSize (l + 1)) (show v + 1 ≤ 512 by omega)
    rw [Nat.add_mul, Nat.one_mul, ← pageSize_succ] at hnext
    omega
  have hval : (BitVec.ofNat 64 (v * pageSize (l + 1) + r) : Usize).toNat =
      v * pageSize (l + 1) + r := by
    rw [BitVec.toNat_ofNat, Nat.mod_eq_of_lt (by omega)]
  refine ⟨BitVec.ofNat 64 (v * pageSize (l + 1) + r), hval, ?_, ?_⟩
  · rw [hval]
    exact hlt
  · rw [getVpnNumber_eight (by omega), hval, vpn_mul_add hv hr]

/-- Every page of an entry has a pointer that some lookup reads. -/
theorem PageNode.Rep.exists_pointer (hfresh : FreshPages paging heap n₀) {node : PageNode l}
    {x : Entry} {pages : Set ℕ} (h : node.Rep paging.virtToPhys heap mem x pages)
    (howned : Owned heap n₀ pages) (hl : l ≤ 4) {v : ℕ} (hv : v < 512)
    (hslot : mem.slot table v = some x) {n : ℕ} (hn : n ∈ pages) :
    ∃ va i t e, va.toNat < pageSize (l + 1) ∧ vpn l va.toNat = v ∧
      Walk paging.physToVirt mem va l table i t ∧ mem.slot t (getVpnNumber va i 8) = some e ∧
      e.isLeaf = false ∧ paging.physToVirt e.address = heap.page n := by
  induction node generalizing table x pages v with
  | leaf e' =>
    obtain ⟨-, -, -, -, -, rfl⟩ := h.leaf_facts
    exact hn.elim
  | @table l entries ih =>
    obtain ⟨m, below, -, rfl, -, -, -, hptr, haddr, hnull, -, htable⟩ := h.table_facts hfresh howned
    -- The page of this table, or one below some entry of it.
    rcases hn with rfl | hn
    · obtain ⟨va, hval, hlt, hvpn⟩ := exists_vpn_address hl hv (pageSize_pos _)
      refine ⟨va, l + 1, table, x, hlt, ?_, Walk.root, hvpn ▸ hslot, hptr, haddr⟩
      rw [← getVpnNumber_eight (by omega), hvpn]
    · obtain ⟨w, hw⟩ := Set.mem_iUnion.mp hn
      have hw512 : w < 512 := by
        by_contra hge
        rw [htable.empty w hge] at hw
        exact hw
      obtain ⟨y, hy, hrep⟩ := htable.slot w hw512
      obtain ⟨va', i, t, e, hlt', hvpn', hwalk, ht, hptr', hpage⟩ := ih w hrep
        (fun k hk => howned k (Set.mem_insert_of_mem _ (Set.mem_iUnion.mpr ⟨_, hk⟩))) (by omega)
        hw512 hy hw
      obtain ⟨va, hval, hlt, hvpn⟩ := exists_vpn_address hl hv hlt'
      -- The address for the page below, with the index of this table put in front.
      have hcongr : ∀ j ≤ l, getVpnNumber va' j 8 = getVpnNumber va j 8 := by
        intro j hj
        rw [getVpnNumber_eight (by omega), getVpnNumber_eight (by omega), hval,
          vpn_mul_add_of_lt (by omega)]
      refine ⟨va, i, t, e, hlt, ?_, Walk.cons (hvpn.symm ▸ hslot) hptr hnull ?_, ?_, hptr', hpage⟩
      · rw [← getVpnNumber_eight (by omega), hvpn]
      · rw [haddr]
        exact hwalk.congr hcongr
      · rw [← hcongr i hwalk.le_top]
        exact ht

/-- The pages below an entry hold what the lookups through it point to. -/
theorem TableRep.mem_below (hfresh : FreshPages paging heap n₀) {D : Set ℕ}
    {entries : ℕ → PageNode l} {below : ℕ → Set ℕ}
    (h : TableRep paging.virtToPhys heap mem D table entries below)
    (howned : ∀ v, Owned heap n₀ (below v)) (hl : l ≤ 6) {va : Usize} (hva : vpn l va.toNat ∈ D)
    {i n : ℕ} {t : Usize} {e : Entry} (hn : n₀ ≤ n) (hcap : n < heap.capacity)
    (hwalk : Walk paging.physToVirt mem va l table i t)
    (ht : mem.slot t (getVpnNumber va i 8) = some e) (hptr : e.isLeaf = false)
    (hpage : paging.physToVirt e.address = heap.page n) : n ∈ below (vpn l va.toNat) := by
  obtain ⟨x, hx, hrep⟩ := h.slot _ hva
  obtain ⟨-, k, hk, hpage'⟩ := hrep.exists_page hfresh (howned _) hl hx ⟨t, hwalk, ht⟩ hptr
  obtain ⟨hk₀, hkcap⟩ := howned _ k hk
  obtain rfl := hfresh.injective n k hn hk₀ hcap hkcap (hpage.symm.trans hpage')
  exact hk

/-- Two pointers to one page are in one place. -/
theorem TableRep.pointer_unique (hfresh : FreshPages paging heap n₀) {D : Set ℕ}
    {entries : ℕ → PageNode l} {below : ℕ → Set ℕ}
    (h : TableRep paging.virtToPhys heap mem D table entries below)
    (howned : ∀ v, Owned heap n₀ (below v)) (hl : l ≤ 6) {va va' : Usize}
    (hva : vpn l va.toNat ∈ D) (hva' : vpn l va'.toNat ∈ D) {i i' n : ℕ} {t t' : Usize}
    {e e' : Entry} (hn : n₀ ≤ n) (hcap : n < heap.capacity)
    (hwalk : Walk paging.physToVirt mem va l table i t)
    (ht : mem.slot t (getVpnNumber va i 8) = some e) (hptr : e.isLeaf = false)
    (hpage : paging.physToVirt e.address = heap.page n)
    (hwalk' : Walk paging.physToVirt mem va' l table i' t')
    (ht' : mem.slot t' (getVpnNumber va' i' 8) = some e') (hptr' : e'.isLeaf = false)
    (hpage' : paging.physToVirt e'.address = heap.page n) :
    t = t' ∧ getVpnNumber va i 8 = getVpnNumber va' i' 8 := by
  induction l generalizing D table below with
  | zero =>
    obtain ⟨x, hx, hrep⟩ := h.slot _ hva
    obtain ⟨hi, -⟩ := hrep.exists_page hfresh (howned _) hl hx ⟨t, hwalk, ht⟩ hptr
    have := hwalk.le_top
    omega
  | succ l ih =>
    have hn₁ := h.mem_below hfresh howned hl hva hn hcap hwalk ht hptr hpage
    have hn₂ := h.mem_below hfresh howned hl hva' hn hcap hwalk' ht' hptr' hpage'
    -- The pages below two entries are disjoint, so both lookups go through one entry.
    have hv : vpn (l + 1) va.toNat = vpn (l + 1) va'.toNat := h.disjoint _ _ n hn₁ hn₂
    obtain ⟨x, hx, hrep⟩ := h.slot _ hva
    cases hnode : entries (vpn (l + 1) va.toNat) with
    | leaf e₀ =>
      rw [hnode] at hrep
      obtain ⟨-, -, -, -, -, hempty⟩ := hrep.leaf_facts
      rw [hempty] at hn₁
      exact hn₁.elim
    | table entries' =>
      rw [hnode] at hrep
      obtain ⟨m, below', -, hpages, hnot, hm, hmcap, -, haddr, -, -, htable⟩ :=
        hrep.table_facts hfresh (howned _)
      have howned' : ∀ v, Owned heap n₀ (below' v) := fun v k hk => by
        refine howned (vpn (l + 1) va.toNat) k ?_
        rw [hpages]
        exact Set.mem_insert_of_mem _ (Set.mem_iUnion.mpr ⟨v, hk⟩)
      have hx' : mem.slot table (vpn (l + 1) va'.toNat) = some x := hv ▸ hx
      rw [← getVpnNumber_eight hl] at hx hx'
      rcases hwalk.head_cases with ⟨rfl, rfl⟩ | ⟨y, hy, -, -, hdown⟩ <;>
        rcases hwalk'.head_cases with ⟨rfl, rfl⟩ | ⟨y', hy', -, -, hdown'⟩
      · refine ⟨rfl, ?_⟩
        rw [getVpnNumber_eight hl, getVpnNumber_eight hl, hv]
      · -- the page of this entry is not below itself
        obtain rfl : x = e := Option.some.inj (hx.symm.trans ht)
        obtain rfl : x = y' := Option.some.inj (hx'.symm.trans hy')
        obtain rfl := hfresh.injective m n hm hn hmcap hcap (haddr.symm.trans hpage)
        rw [haddr] at hdown'
        exact absurd (htable.mem_below hfresh howned' (by omega) (vpn_lt _ _) hn hcap hdown' ht'
          hptr' hpage') (hnot _)
      · obtain rfl : x = e' := Option.some.inj (hx'.symm.trans ht')
        obtain rfl : x = y := Option.some.inj (hx.symm.trans hy)
        obtain rfl := hfresh.injective m n hm hn hmcap hcap (haddr.symm.trans hpage')
        rw [haddr] at hdown
        exact absurd (htable.mem_below hfresh howned' (by omega) (vpn_lt _ _) hn hcap hdown ht
          hptr hpage) (hnot _)
      · obtain rfl : x = y := Option.some.inj (hx.symm.trans hy)
        obtain rfl : x = y' := Option.some.inj (hx'.symm.trans hy')
        rw [haddr] at hdown hdown'
        exact ih htable howned' (by omega) (vpn_lt _ _) (vpn_lt _ _) hdown hdown'

end Shape

/-- **A memory that represents a tree is one.** -/
theorem Represents.isTree {paging : GenericPaging levels 8} {heap : Allocator 8} {n₀ : ℕ}
    {mem : Memory 8} {entries : ℕ → PageNode (levels - 1)} (hfresh : FreshPages paging heap n₀)
    (hhi : levels ≤ 6) (h : Represents paging heap n₀ (Set.Iio 512) mem entries)
    (hpages : levels ≤ 5 ∨ mem.allocated = n₀) : IsTree paging heap n₀ mem := by
  obtain ⟨below, hrep, hunion⟩ := h.rep
  have howned := h.owned hunion
  have hread : ∀ va i e, paging.ReadsAt mem va i e → e.isLeaf = false → 1 ≤ i ∧
      ∃ n, n₀ ≤ n ∧ n < mem.allocated ∧ paging.physToVirt e.address = heap.page n := by
    intro va i e hread hptr
    obtain ⟨x, hx, hnode⟩ := hrep.slot _ (vpn_lt (levels - 1) va.toNat)
    obtain ⟨hi, n, hn, hpage⟩ := hnode.exists_page hfresh (howned _) (by omega) hx hread hptr
    have hmem : n ∈ Set.Ico n₀ mem.allocated := hunion ▸ Set.mem_iUnion.mpr ⟨_, hn⟩
    exact ⟨hi, n, hmem.1, hmem.2, hpage⟩
  refine ⟨fun va e hzero => ?_, hread, fun n hn hlt => ?_, fun va hquery => ?_⟩
  · -- level 0
    by_contra hptr
    obtain ⟨hi, -⟩ := hread va 0 e hzero (Bool.not_eq_true _ ▸ hptr)
    omega
  · have hmem : n ∈ ⋃ v, below v := by
      rw [hunion]
      exact ⟨hn, hlt⟩
    -- the page is below some entry of the root, which leads to a pointer to it
    obtain ⟨v, hv⟩ := Set.mem_iUnion.mp hmem
    have hv512 : v < 512 := by
      by_contra hge
      rw [hrep.empty v hge] at hv
      exact hv
    obtain ⟨x, hx, hnode⟩ := hrep.slot v hv512
    obtain ⟨va, i, t, e, -, -, hwalk, ht, hptr, hpage⟩ :=
      hnode.exists_pointer hfresh (howned v) (by omega) hv512 hx hv
    refine ⟨(t, getVpnNumber va i 8), ⟨va, i, e, hwalk, rfl, ht, hptr, hpage⟩, ?_⟩
    rintro ⟨t', w⟩ ⟨va', i', e', hwalk', rfl, ht', hptr', hpage'⟩
    obtain ⟨rfl, hidx⟩ := TableRep.pointer_unique hfresh hrep howned (by omega) (vpn_lt _ _)
      (vpn_lt _ _) hn (lt_of_lt_of_le hlt h.capacity) hwalk ht hptr hpage hwalk' ht' hptr' hpage'
    exact Prod.ext rfl hidx.symm
  · -- a lookup ends in a leaf, so it does not run out of levels
    rw [h.query_eq hfresh hhi (vpn_lt _ _), leafResult] at hquery
    split at hquery
    · cases hquery
    · obtain ⟨_, -, hok⟩ := bind_eq_ok_iff.mp hquery
      cases hok

/-- A call of a run: its flags are those of a leaf. -/
def LeafCall (_ : Memory 8) (c : MapCall) : Prop :=
  c.flags.toNat < 256 ∧ (c.flags.getLsbD 1 = true ∨ c.flags.getLsbD 3 = true)

theorem LeafCall.leafFlags {mem : Memory 8} {c : MapCall} (h : LeafCall mem c) :
    LeafFlags mem c := by
  rcases h.2 with hbit | hbit <;> simp [LeafFlags, leafBits, hbit]

/-- **The page tables of a run are a tree of bounded depth.** -/
theorem isTree_of_reachable {paging : GenericPaging levels 8} {heap : Allocator 8}
    {mem₀ mem : Memory 8} (hlo : 1 ≤ levels) (hhi : levels ≤ 6)
    (hfresh : FreshPages paging heap mem₀.allocated) (hzero : ZeroRoot paging mem₀)
    (h : Reachable paging heap LeafCall mem₀ mem) : IsTree paging heap mem₀.allocated mem := by
  obtain ⟨entries, hrep⟩ := Reachable.represents hfresh hlo hhi hzero
    (h.mono fun mem c hc => hc.leafFlags)
  refine hrep.isTree hfresh hhi ?_
  rcases Nat.lt_or_ge levels 6 with hlt | hge
  · exact Or.inl (by omega)
  · obtain rfl : levels = 6 := by omega
    exact Or.inr (by rw [h.eq_of_six])

/-- Mapping one page makes a tree of three tables. -/
theorem isTree_of_reachable_page :
    ∃ mem, identitySv39.map identityHeap pageCall zeroMemory = .ok mem ∧
      IsTree identitySv39 identityHeap 0 mem := by
  obtain ⟨mem, hmap⟩ := pageCall_valid.map_returns identity_fresh zeroMemory_represents (by decide)
    (zeroMemory_map_ne pageCall_valid (by decide))
  exact ⟨mem, hmap, isTree_of_reachable (by norm_num) (by norm_num) identity_fresh
    zeroMemory_zeroRoot (Reachable.step Reachable.refl ⟨by decide, by decide⟩ hmap)⟩

end AsyncKernel
