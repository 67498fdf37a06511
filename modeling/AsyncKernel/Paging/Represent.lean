import AsyncKernel.Paging.Tree
import AsyncKernel.Paging.Walk

/-!
# Memories that represent page trees

The relation between the memory of the code and the trees of the abstract model. A node is
represented by an entry and by the set of allocated pages below it; the pages of different entries
of a table are disjoint, so a change of one page leaves every other entry as it was.

## Main definitions

* `FreshPages`: what the code relies on from the allocator and the address conversions
* `PageNode.Rep`: an entry and a set of pages represent a node
* `TableRep`: a table represents the entries of a tree
* `leafResult`: what a lookup makes of the leaf it ends in

## Main results

* `PageNode.Rep.frame`: a representation depends on its own pages only
* `TableRep.update`: one entry of a represented table changes
* `TableRep.queryFrom_eq`: the lookup in memory is the lookup in the tree
* `TableRep.reads_leafAt`: the leaf of the tree is the leaf that the lookup reads
-/

namespace AsyncKernel

open Bits

variable {levels : ℕ}

/-- What the paging code relies on, from page `n₀` of the allocator on: pages are distinct from each
other and from the root table, at non-null addresses; their physical addresses are aligned, not 0
and below `2 ^ 56`, and convert back. -/
structure FreshPages (paging : GenericPaging levels 8) (heap : Allocator 8) (n₀ : ℕ) : Prop where
  started : n₀ ≤ heap.capacity
  injective : ∀ m n, n₀ ≤ m → n₀ ≤ n → m < heap.capacity → n < heap.capacity →
    heap.page m = heap.page n → m = n
  ne_root : ∀ n, n₀ ≤ n → n < heap.capacity → heap.page n ≠ paging.table
  ne_null : ∀ n, n₀ ≤ n → n < heap.capacity → heap.page n ≠ 0
  inverse : ∀ n, n₀ ≤ n → n < heap.capacity →
    paging.physToVirt (paging.virtToPhys (heap.page n)) = heap.page n
  aligned : ∀ n, n₀ ≤ n → n < heap.capacity → 4096 ∣ (paging.virtToPhys (heap.page n)).toNat
  phys_ne_zero : ∀ n, n₀ ≤ n → n < heap.capacity → paging.virtToPhys (heap.page n) ≠ 0
  phys_lt : ∀ n, n₀ ≤ n → n < heap.capacity → (paging.virtToPhys (heap.page n)).toNat < 2 ^ 56

/-! ## Pointers to tables -/

section Pointer

variable {virtToPhys : Usize → Usize} {table : Usize}

theorem toNat_tablePointer (h : 4096 ∣ (virtToPhys table).toNat) :
    (tablePointer virtToPhys table).value.toNat = (virtToPhys table).toNat / 4 + 1 := by
  -- A page-aligned address has bits from 12 on, so shifted it has none below 10: no flag but
  -- `VALID`.
  obtain ⟨k, hk⟩ := h
  have hquot : (virtToPhys table >>> 2).toNat = (virtToPhys table).toNat / 4 := by
    rw [BitVec.toNat_ushiftRight, Nat.shiftRight_eq_div_pow]
  rw [tablePointer, BitVec.or_comm, toNat_or_of_dvd_of_lt (k := 10) (by rw [hquot]; omega)
    (by decide), hquot]
  rfl

theorem getLsbD_tablePointer (h : 4096 ∣ (virtToPhys table).toNat) {k : ℕ} (hk : 0 < k)
    (hk' : k < 10) : (tablePointer virtToPhys table).value.getLsbD k = false := by
  obtain ⟨m, hm⟩ := h
  have hone : (tablePointer virtToPhys table).value.toNat % 2 ^ 10 =
      (1 : Usize).toNat % 2 ^ 10 := by
    rw [toNat_tablePointer ⟨m, hm⟩, hm, show 4096 * m / 4 = 2 ^ 10 * m by omega,
      Nat.mul_add_mod]
    rfl
  rw [getLsbD_congr hone hk']
  interval_cases k <;> rfl

theorem getLsbD_tablePointer_zero (h : 4096 ∣ (virtToPhys table).toNat) :
    (tablePointer virtToPhys table).value.getLsbD 0 = true := by
  obtain ⟨m, hm⟩ := h
  rw [getLsbD_iff, toNat_tablePointer ⟨m, hm⟩, hm]
  omega

theorem tablePointer_isLeaf (h : 4096 ∣ (virtToPhys table).toNat) (hne : virtToPhys table ≠ 0) :
    (tablePointer virtToPhys table).isLeaf = false := by
  rw [← Bool.not_eq_true, Entry.isLeaf_iff, leafBits, getLsbD_tablePointer_zero h,
    getLsbD_tablePointer h (by norm_num) (by norm_num),
    getLsbD_tablePointer h (by norm_num) (by norm_num), toNat_tablePointer h]
  have hpos : (virtToPhys table).toNat ≠ 0 := fun h0 => hne (BitVec.eq_of_toNat_eq h0)
  obtain ⟨k, hk⟩ := h
  simp only [Bool.not_true, Bool.or_self, Bool.false_eq_true, false_or, not_lt]
  omega

theorem tablePointer_address (h : 4096 ∣ (virtToPhys table).toNat) :
    (tablePointer virtToPhys table).address = virtToPhys table := by
  refine BitVec.eq_of_toNat_eq ?_
  -- The address mask drops `VALID`, and the shift back restores the address.
  rw [Entry.toNat_address, toNat_tablePointer h]
  have hlt := (virtToPhys table).isLt
  obtain ⟨k, hk⟩ := h
  omega

theorem tablePointer_getLsbD_60 (h : 4096 ∣ (virtToPhys table).toNat)
    (hlt : (virtToPhys table).toNat < 2 ^ 56) :
    (tablePointer virtToPhys table).value.getLsbD 60 = false := by
  refine getLsbD_eq_false_of_lt ?_
  rw [toNat_tablePointer h]
  omega

theorem tablePointer_and_rwx (h : 4096 ∣ (virtToPhys table).toNat) :
    (tablePointer virtToPhys table).value &&& EntryBits.rwx = 0 := by
  have hw := (and_twoPow_eq_zero_iff_getLsbD (tablePointer virtToPhys table).value (k := 2)
    (by norm_num)).mpr (getLsbD_tablePointer h (by norm_num) (by norm_num))
  have hrx := (and_readExecute_eq_zero_iff (tablePointer virtToPhys table).value).mpr
    ⟨getLsbD_tablePointer h (by norm_num) (by norm_num),
      getLsbD_tablePointer h (by norm_num) (by norm_num)⟩
  rw [show EntryBits.rwx = (EntryBits.read ||| EntryBits.execute) ||| BitVec.ofNat 64 (2 ^ 2) by
    decide, BitVec.and_or_distrib_left, hw, hrx]
  rfl

end Pointer

/-! ## Representation -/

/-- The indices `D` of a table hold entries that satisfy `R`, with disjoint sets of pages below. -/
structure TableHolds (mem : Memory 8) (D : Set ℕ) (table : Usize)
    (R : ℕ → Entry → Set ℕ → Prop) (below : ℕ → Set ℕ) : Prop where
  slot : ∀ v ∈ D, ∃ e, mem.slot table v = some e ∧ R v e (below v)
  empty : ∀ v, v ∉ D → below v = ∅
  disjoint : ∀ v w n, n ∈ below v → n ∈ below w → v = w

section Rep

variable (virtToPhys : Usize → Usize) (heap : Allocator 8)

/-- An entry represents a node, with the set of pages of the allocator that hold the tables below
it. A leaf has the flag bits of one, and the addresses of its page stay below `2 ^ 57`. -/
def PageNode.Rep (mem : Memory 8) : {l : ℕ} → PageNode l → Entry → Set ℕ → Prop
  | l, .leaf e, x, pages =>
    x = e ∧ leafBits e.value = true ∧ e.value.toNat + pageSize l / 4 ≤ 2 ^ 55 ∧ pages = ∅
  | _, .table entries, x, pages => ∃ n below, x = tablePointer virtToPhys (heap.page n) ∧
    pages = insert n (⋃ v, below v) ∧ (∀ v, n ∉ below v) ∧
    TableHolds mem (Set.Iio 512) (heap.page n) (fun v => (entries v).Rep mem) below

/-- A table represents entries of a tree, at the indices `D`. -/
abbrev TableRep (mem : Memory 8) (D : Set ℕ) (table : Usize) {l : ℕ} (entries : ℕ → PageNode l)
    (below : ℕ → Set ℕ) : Prop :=
  TableHolds mem D table (fun v => (entries v).Rep virtToPhys heap mem) below

end Rep

variable {virtToPhys : Usize → Usize} {heap : Allocator 8} {mem mem' : Memory 8} {l : ℕ}

/-- A representation depends on its own pages only. -/
theorem PageNode.Rep.frame {node : PageNode l} {x : Entry} {pages : Set ℕ}
    (h : node.Rep virtToPhys heap mem x pages)
    (hkeep : ∀ n ∈ pages, ∀ v, mem'.slot (heap.page n) v = mem.slot (heap.page n) v) :
    node.Rep virtToPhys heap mem' x pages := by
  -- On the tree: the page of the table itself is kept, and so are the pages below it.
  induction node generalizing x pages with
  | leaf e => exact h
  | table entries ih =>
    obtain ⟨n, below, rfl, rfl, hn, htable⟩ := h
    refine ⟨n, below, rfl, rfl, hn, fun v hv => ?_, htable.empty, htable.disjoint⟩
    obtain ⟨e, hslot, hrep⟩ := htable.slot v hv
    refine ⟨e, ?_, ih v hrep fun m hm => hkeep m ?_⟩
    · rw [hkeep n (Set.mem_insert _ _), hslot]
    · exact Set.mem_insert_of_mem _ (Set.mem_iUnion.mpr ⟨v, hm⟩)

/-- **One entry of a represented table changes**: the other entries keep their slots and their
pages. -/
theorem TableRep.update {D : Set ℕ} {table : Usize} {entries : ℕ → PageNode l} {below : ℕ → Set ℕ}
    (h : TableRep virtToPhys heap mem D table entries below) {v : ℕ} (hv : v ∈ D) {e : Entry}
    {node : PageNode l} {pages : Set ℕ} (hslot : mem'.slot table v = some e)
    (hrep : node.Rep virtToPhys heap mem' e pages)
    (hpages : ∀ w n, w ≠ v → n ∈ below w → n ∉ pages)
    (hother : ∀ w, w ≠ v → mem'.slot table w = mem.slot table w)
    (hkeep : ∀ w n, w ≠ v → n ∈ below w → ∀ i,
      mem'.slot (heap.page n) i = mem.slot (heap.page n) i) :
    TableRep virtToPhys heap mem' D table (Function.update entries v node)
      (Function.update below v pages) := by
  refine ⟨fun w hw => ?_, fun w hw => ?_, fun w w' n hn hn' => ?_⟩
  · by_cases hwv : w = v
    · subst hwv
      exact ⟨e, hslot, by simpa using hrep⟩
    · obtain ⟨e', hslot', hrep'⟩ := h.slot w hw
      refine ⟨e', (hother w hwv).trans hslot', ?_⟩
      simp only [Function.update_of_ne hwv]
      exact hrep'.frame fun n hn => hkeep w n hwv hn
  · rw [Function.update_of_ne (by rintro rfl; exact hw hv)]
    exact h.empty w hw
  · -- A page below two entries: neither, one or both of them are the changed one.
    by_cases hwv : w = v <;> by_cases hwv' : w' = v
    · rw [hwv, hwv']
    · subst hwv
      rw [Function.update_self] at hn
      rw [Function.update_of_ne hwv'] at hn'
      exact absurd hn (hpages w' n hwv' hn')
    · subst hwv'
      rw [Function.update_self] at hn'
      rw [Function.update_of_ne hwv] at hn
      exact absurd hn' (hpages w n hwv hn)
    · rw [Function.update_of_ne hwv] at hn
      rw [Function.update_of_ne hwv'] at hn'
      exact h.disjoint w w' n hn hn'

/-- A represented leaf is a leaf, without bit 60. -/
theorem PageNode.Rep.leaf_facts {e x : Entry} {pages : Set ℕ}
    (h : (PageNode.leaf e : PageNode l).Rep virtToPhys heap mem x pages) :
    x = e ∧ leafBits e.value = true ∧ e.isLeaf = true ∧ e.value.getLsbD 60 = false ∧
      e.value.toNat + pageSize l / 4 ≤ 2 ^ 55 ∧ pages = ∅ := by
  obtain ⟨rfl, hbits, hbound, rfl⟩ : x = e ∧ leafBits e.value = true ∧
    e.value.toNat + pageSize l / 4 ≤ 2 ^ 55 ∧ pages = ∅ := by
    cases l <;> exact h
  exact ⟨rfl, hbits, Entry.isLeaf_of_leafBits hbits, getLsbD_eq_false_of_lt (by omega), hbound, rfl⟩

/-- Every leaf of a represented node has the bounds of a represented leaf. -/
theorem PageNode.Rep.leafAt_bound {node : PageNode l} {x : Entry} {pages : Set ℕ}
    (h : node.Rep virtToPhys heap mem x pages) (va : ℕ) :
    (node.leafAt va).2.value.toNat + pageSize (node.leafAt va).1 / 4 ≤ 2 ^ 55 := by
  induction node generalizing x pages with
  | leaf e =>
    obtain ⟨-, -, -, -, hbound, -⟩ := h.leaf_facts
    rwa [PageNode.leafAt_leaf]
  | table entries ih =>
    obtain ⟨n, below, -, -, -, htable⟩ := h
    obtain ⟨e, -, hrep⟩ := htable.slot _ (vpn_lt _ va)
    exact ih _ hrep

/-! ## Lookup -/

/-- What a lookup makes of the leaf it ends in. -/
def leafResult (levels : ℕ) (va : Usize) (leaf : ℕ × Entry) :
    Except Fault (Except PageLookupError Usize) :=
  if leaf.2.value.getLsbD 0 = false then .ok (.error .invalid) else do
    assertThat (∀ j ∈ List.range leaf.1, getVpnNumber leaf.2.address j 8 = 0)
    return .ok (translatedAddress levels 8 va leaf.2 leaf.1)

/-- A lookup that comes to an entry with the flag bits of a leaf ends there. -/
theorem queryFrom_eq_leafResult {physToVirt : Usize → Usize} {i : ℕ} {table va : Usize}
    {e : Entry} (hslot : mem.slot table (getVpnNumber va i 8) = some e)
    (hbits : leafBits e.value = true) (h60 : e.value.getLsbD 60 = false) :
    queryFrom levels physToVirt mem va i table = leafResult levels va (i, e) := by
  rw [leafResult]
  cases hv : e.value.getLsbD 0 with
  | false => rw [queryFrom_invalid hslot hv, if_pos rfl]
  | true => rw [queryFrom_leaf hslot (Entry.isLeaf_of_leafBits hbits) hv h60, if_neg (by simp)]

/-- The pages of a representation are pages that the allocator has handed out. -/
def Owned (heap : Allocator 8) (n₀ : ℕ) (pages : Set ℕ) : Prop :=
  ∀ n ∈ pages, n₀ ≤ n ∧ n < heap.capacity

section Lookup

variable {paging : GenericPaging levels 8} {n₀ : ℕ} {D : Set ℕ} {table : Usize}
  {entries : ℕ → PageNode l} {below : ℕ → Set ℕ} {va : Usize}

/-- A pointer to a page of the allocator. -/
theorem FreshPages.pointer_facts (hfresh : FreshPages paging heap n₀) {n : ℕ} (hn : n₀ ≤ n)
    (hcap : n < heap.capacity) :
    (tablePointer paging.virtToPhys (heap.page n)).isLeaf = false ∧
      paging.physToVirt (tablePointer paging.virtToPhys (heap.page n)).address = heap.page n ∧
      (tablePointer paging.virtToPhys (heap.page n)).value.getLsbD 60 = false := by
  have haligned := hfresh.aligned n hn hcap
  refine ⟨tablePointer_isLeaf haligned (hfresh.phys_ne_zero n hn hcap), ?_,
    tablePointer_getLsbD_60 haligned (hfresh.phys_lt n hn hcap)⟩
  rw [tablePointer_address haligned, hfresh.inverse n hn hcap]

/-- A represented table: its page, the way to it, and its entries. -/
theorem PageNode.Rep.table_facts (hfresh : FreshPages paging heap n₀) {e : Entry} {pages : Set ℕ}
    (h : (PageNode.table entries).Rep paging.virtToPhys heap mem e pages)
    (howned : Owned heap n₀ pages) :
    ∃ n below, e = tablePointer paging.virtToPhys (heap.page n) ∧
      pages = insert n (⋃ v, below v) ∧ (∀ v, n ∉ below v) ∧ n₀ ≤ n ∧ n < heap.capacity ∧
      e.isLeaf = false ∧ paging.physToVirt e.address = heap.page n ∧
      paging.physToVirt e.address ≠ 0 ∧ e.value.getLsbD 60 = false ∧
      TableRep paging.virtToPhys heap mem (Set.Iio 512) (heap.page n) entries below := by
  obtain ⟨n, below, rfl, rfl, hnot, htable⟩ := h
  obtain ⟨hn, hcap⟩ := howned n (Set.mem_insert _ _)
  obtain ⟨hptr, haddr, h60⟩ := hfresh.pointer_facts hn hcap
  refine ⟨n, below, rfl, rfl, hnot, hn, hcap, hptr, haddr, ?_, h60, htable⟩
  rw [haddr]
  exact hfresh.ne_null n hn hcap

/-- **The lookup in memory is the lookup in the tree.** -/
theorem PageNode.Rep.queryFrom_eq (hfresh : FreshPages paging heap n₀) {node : PageNode l}
    {e : Entry} {pages : Set ℕ} (h : node.Rep paging.virtToPhys heap mem e pages)
    (howned : Owned heap n₀ pages) (hl : l ≤ 6) (hslot : mem.slot table (vpn l va.toNat) = some e) :
    queryFrom levels paging.physToVirt mem va l table =
      leafResult levels va (node.leafAt va.toNat) := by
  -- On the tree: a leaf ends the lookup, and a table makes it go on in the page of the table.
  induction node generalizing table e pages with
  | leaf e' =>
    obtain ⟨rfl, hbits, -, h60, -, -⟩ := h.leaf_facts
    rw [← getVpnNumber_eight hl] at hslot
    rw [PageNode.leafAt_leaf, queryFrom_eq_leafResult hslot hbits h60]
  | table entries ih =>
    obtain ⟨n, below, -, rfl, -, -, -, hptr, haddr, hnull, h60, htable⟩ :=
      h.table_facts hfresh howned
    obtain ⟨e', hslot', hrep'⟩ := htable.slot _ (vpn_lt _ va.toNat)
    rw [← getVpnNumber_eight hl] at hslot
    -- the pointer converts back to the page, where the entry of `va` represents its node
    rw [queryFrom_pointer hslot hptr hnull h60, haddr, PageNode.leafAt_table]
    exact ih _ hrep' (fun m hm => howned m (Set.mem_insert_of_mem _ (Set.mem_iUnion.mpr ⟨_, hm⟩)))
      (by omega) hslot'

/-- **The leaf of the tree is the leaf that the lookup reads.** -/
theorem PageNode.Rep.reads_leafAt (hfresh : FreshPages paging heap n₀) {node : PageNode l}
    {e : Entry} {pages : Set ℕ} (h : node.Rep paging.virtToPhys heap mem e pages)
    (howned : Owned heap n₀ pages) (hl : l ≤ 6) (hslot : mem.slot table (vpn l va.toNat) = some e) :
    Reads paging.physToVirt mem va l table (node.leafAt va.toNat).1 (node.leafAt va.toNat).2 ∧
      (node.leafAt va.toNat).2.isLeaf = true := by
  induction node generalizing table e pages with
  | leaf e' =>
    obtain ⟨rfl, -, hleaf, -, -, -⟩ := h.leaf_facts
    rw [← getVpnNumber_eight hl] at hslot
    rw [PageNode.leafAt_leaf]
    exact ⟨⟨table, Walk.root, hslot⟩, hleaf⟩
  | table entries ih =>
    obtain ⟨n, below, -, rfl, -, -, -, hptr, haddr, hnull, -, htable⟩ := h.table_facts hfresh howned
    obtain ⟨e', hslot', hrep'⟩ := htable.slot _ (vpn_lt _ va.toNat)
    rw [← getVpnNumber_eight hl] at hslot
    rw [PageNode.leafAt_table]
    obtain ⟨⟨t, hwalk, ht⟩, hleaf⟩ := ih _ hrep'
      (fun m hm => howned m (Set.mem_insert_of_mem _ (Set.mem_iUnion.mpr ⟨_, hm⟩))) (by omega)
      hslot'
    -- the walk of the table below, with the pointer to it in front
    refine ⟨⟨t, Walk.cons hslot hptr hnull ?_, ht⟩, hleaf⟩
    rw [haddr]
    exact hwalk

theorem TableRep.queryFrom_eq (hfresh : FreshPages paging heap n₀)
    (h : TableRep paging.virtToPhys heap mem D table entries below)
    (howned : ∀ v, Owned heap n₀ (below v)) (hl : l ≤ 6) (hva : vpn l va.toNat ∈ D) :
    queryFrom levels paging.physToVirt mem va l table =
      leafResult levels va ((entries (vpn l va.toNat)).leafAt va.toNat) := by
  obtain ⟨e, hslot, hrep⟩ := h.slot _ hva
  exact hrep.queryFrom_eq hfresh (howned _) hl hslot

theorem TableRep.reads_leafAt (hfresh : FreshPages paging heap n₀)
    (h : TableRep paging.virtToPhys heap mem D table entries below)
    (howned : ∀ v, Owned heap n₀ (below v)) (hl : l ≤ 6) (hva : vpn l va.toNat ∈ D) :
    Reads paging.physToVirt mem va l table ((entries (vpn l va.toNat)).leafAt va.toNat).1
        ((entries (vpn l va.toNat)).leafAt va.toNat).2 ∧
      ((entries (vpn l va.toNat)).leafAt va.toNat).2.isLeaf = true := by
  obtain ⟨e, hslot, hrep⟩ := h.slot _ hva
  exact hrep.reads_leafAt hfresh (howned _) hl hslot

end Lookup

end AsyncKernel
