import AsyncKernel.Paging.Represent

/-!
# `map` on memory refines `map` on trees

`map_internal` walks the entries of a table and goes down into the tables it finds or makes. On a
memory that represents a tree it does to the tree what `MapCall.mapEntries` does, adds the tables
that `MapCall.newTables` counts, and changes no slot besides. The only failure is an allocator
without pages.

## Main definitions

* `MapCall.Runs`: a call whose loops run and whose entries are leaves
* `SameExcept`: two memories differ in one table and some pages only
* `EntryMapped`, `TableMapped`: what a call has done to an entry and to a table
* `mapBody`: the body of the loop

## Main results

* `EntryMapped.write`, `EntryMapped.descend`: writing an entry, and going down into its table
* `mapInternal_outcome`: the loop, by induction on the level
-/

namespace AsyncKernel

open Bits

/-- A call whose range ends below `2 ^ 64` and whose entries are leaves. -/
structure MapCall.Runs (c : MapCall) : Prop where
  aligned : c.Aligned
  leafFlags : leafBits c.flags = true
  stop_lt : c.stop < 2 ^ 64

variable {levels : ℕ} {paging : GenericPaging levels 8} {heap : Allocator 8} {n₀ : ℕ}
  {mem mem₁ mem₂ : Memory 8} {l : ℕ} {table : Usize} {c : MapCall}

/-! ## Changes of the memory -/

/-- The second memory differs from the first in the slots `S` of one table and in some pages. -/
def SameExcept (heap : Allocator 8) (mem mem' : Memory 8) (table : Usize)
    (S pages : Set ℕ) : Prop :=
  ∀ b v, ¬ (b = table ∧ v ∈ S) → (∀ n ∈ pages, b ≠ heap.page n) → mem'.slot b v = mem.slot b v

namespace SameExcept

variable {S S' pages pages' : Set ℕ}

theorem refl : SameExcept heap mem mem table S pages := fun _ _ _ _ => rfl

theorem mono (h : SameExcept heap mem mem₁ table S pages) (hS : S ⊆ S') (hpages : pages ⊆ pages') :
    SameExcept heap mem mem₁ table S' pages' := fun b v hb hn =>
  h b v (fun h => hb ⟨h.1, hS h.2⟩) fun n hmem => hn n (hpages hmem)

theorem trans (h : SameExcept heap mem mem₁ table S pages)
    (h' : SameExcept heap mem₁ mem₂ table S pages) : SameExcept heap mem mem₂ table S pages :=
  fun b v hb hn => (h' b v hb hn).trans (h b v hb hn)

end SameExcept

/-- An entry has become `node`: it represents it with its old pages and the new ones, `count` of
them, and nothing else has changed. -/
structure EntryMapped (paging : GenericPaging levels 8) (heap : Allocator 8) (mem mem' : Memory 8)
    (table : Usize) (v : ℕ) {l : ℕ} (node : PageNode l) (pages : Set ℕ) (count : ℕ) : Prop where
  rep : ∃ e, mem'.slot table v = some e ∧ node.Rep paging.virtToPhys heap mem' e
    (pages ∪ Set.Ico mem.allocated mem'.allocated)
  allocated : mem'.allocated = mem.allocated + count
  capacity : mem'.allocated ≤ heap.capacity
  frame : SameExcept heap mem mem' table {v} (pages ∪ Set.Ico mem.allocated mem'.allocated)

/-- The entries of a table have become `entries`, with the slots `S` written. -/
structure TableMapped (paging : GenericPaging levels 8) (heap : Allocator 8) (mem mem' : Memory 8)
    (D : Set ℕ) (table : Usize) {l : ℕ} (entries : ℕ → PageNode l) (S pages : Set ℕ)
    (count : ℕ) : Prop where
  rep : ∃ below, TableRep paging.virtToPhys heap mem' D table entries below ∧
    (⋃ v, below v) = pages ∪ Set.Ico mem.allocated mem'.allocated
  allocated : mem'.allocated = mem.allocated + count
  capacity : mem'.allocated ≤ heap.capacity
  frame : SameExcept heap mem mem' table S (pages ∪ Set.Ico mem.allocated mem'.allocated)

/-- The table is not one of the pages below it and not one still to be allocated. -/
def Outside (heap : Allocator 8) (n₀ : ℕ) (mem : Memory 8) (table : Usize) (pages : Set ℕ) : Prop :=
  ∀ m, n₀ ≤ m → m < heap.capacity → table = heap.page m → m < mem.allocated ∧ m ∉ pages

theorem Outside.ne_page {pages pages' : Set ℕ} (h : Outside heap n₀ mem table pages)
    (hn₀ : n₀ ≤ mem.allocated) (hpages : pages ⊆ Set.Ico n₀ mem.allocated)
    (hcap : mem₁.allocated ≤ heap.capacity) (hle : mem.allocated ≤ mem₁.allocated)
    (hpages' : pages' ⊆ pages ∪ Set.Ico mem.allocated mem₁.allocated) :
    ∀ n ∈ pages', table ≠ heap.page n := by
  intro n hn heq
  rcases hpages' hn with hold | ⟨hlo, hhi⟩
  · obtain ⟨hlo, hhi⟩ := hpages hold
    exact (h n hlo (by omega) heq).2 hold
  · have := (h n (by omega) (by omega) heq).1
    omega

section Step

variable {D S pages : Set ℕ} {entries : ℕ → PageNode l} {count : ℕ}

theorem TableMapped.start {below : ℕ → Set ℕ} (hcap : mem.allocated ≤ heap.capacity)
    (h : TableRep paging.virtToPhys heap mem D table entries below) :
    TableMapped paging heap mem mem D table entries ∅ (⋃ v, below v) 0 :=
  ⟨⟨below, h, by simp⟩, rfl, hcap, SameExcept.refl⟩

/-- A union in which one set has grown. -/
theorem iUnion_update_union (f : ℕ → Set ℕ) (v : ℕ) (more : Set ℕ) :
    ⋃ w, Function.update f v (f v ∪ more) w = (⋃ w, f w) ∪ more := by
  ext n
  simp only [Set.mem_iUnion, Set.mem_union]
  rw [Function.exists_update_iff f fun _ set => n ∈ set]
  constructor
  · rintro ((hold | hmore) | ⟨w, -, hw⟩)
    · exact Or.inl ⟨v, hold⟩
    · exact Or.inr hmore
    · exact Or.inl ⟨w, hw⟩
  · rintro (⟨w, hw⟩ | hmore)
    · by_cases hwv : w = v
      · subst hwv
        exact Or.inl (Or.inl hw)
      · exact Or.inr ⟨w, hwv, hw⟩
    · exact Or.inl (Or.inr hmore)

/-- **One step of the loop**: an entry of a table that is being mapped is mapped. -/
theorem TableMapped.step (hfresh : FreshPages paging heap n₀)
    (h : TableMapped paging heap mem mem₁ D table entries S pages count) (hn₀ : n₀ ≤ mem.allocated)
    (hpages : pages ⊆ Set.Ico n₀ mem.allocated) (hout : Outside heap n₀ mem table pages)
    {below : ℕ → Set ℕ} (hrep : TableRep paging.virtToPhys heap mem₁ D table entries below)
    (hunion : (⋃ v, below v) = pages ∪ Set.Ico mem.allocated mem₁.allocated) {v : ℕ} (hv : v ∈ D)
    {node : PageNode l} {more : ℕ}
    (hentry : EntryMapped paging heap mem₁ mem₂ table v node (below v) more) :
    TableMapped paging heap mem mem₂ D table (Function.update entries v node) (insert v S) pages
      (count + more) := by
  have hle := h.allocated
  have hle' := hentry.allocated
  have hcap := hentry.capacity
  have hbelow : ∀ w, below w ⊆ pages ∪ Set.Ico mem.allocated mem₁.allocated := fun w n hn =>
    hunion ▸ Set.mem_iUnion.mpr ⟨w, hn⟩
  -- The pages in use before the step were handed out before it.
  have hbound : ∀ w, ∀ n ∈ below w, n₀ ≤ n ∧ n < mem₁.allocated := by
    intro w n hn
    rcases hbelow w hn with hold | ⟨hlo, hhi⟩
    · have := hpages hold
      exact ⟨this.1, by have := this.2; omega⟩
    · exact ⟨by omega, hhi⟩
  have hIco : Set.Ico mem.allocated mem₁.allocated ∪ Set.Ico mem₁.allocated mem₂.allocated =
      Set.Ico mem.allocated mem₂.allocated :=
    Set.Ico_union_Ico_eq_Ico (by omega) (by omega)
  have hnew : below v ∪ Set.Ico mem₁.allocated mem₂.allocated ⊆
      pages ∪ Set.Ico mem.allocated mem₂.allocated := by
    rw [← hIco, ← Set.union_assoc]
    exact Set.union_subset_union_left _ (hbelow v)
  have hout' := hout.ne_page hn₀ hpages hcap (by omega) hnew
  -- the pages below another entry are neither below this one nor new
  have hdisj : ∀ w n, w ≠ v → n ∈ below w →
      n ∉ below v ∪ Set.Ico mem₁.allocated mem₂.allocated := by
    rintro w n hw hn (hmem | ⟨hlo, -⟩)
    · exact hw (hrep.disjoint w v n hn hmem)
    · have := (hbound w n hn).2
      omega
  obtain ⟨e, hslot, hnode⟩ := hentry.rep
  refine ⟨⟨_, TableRep.update hrep hv hslot hnode hdisj (fun w hw => ?_)
    (fun w n hw hn i => ?_), ?_⟩, by omega, hcap, ?_⟩
  · -- the other slots of this table
    exact hentry.frame table w (fun h => hw h.2) hout'
  · -- the pages below the other entries: not this table, and not one that the step may have written
    obtain ⟨hlo, hhi⟩ := hbound w n hn
    refine hentry.frame _ i ?_ fun m hm heq => ?_
    · rintro ⟨heq, -⟩
      exact hout.ne_page hn₀ hpages hcap (by omega) (Set.union_subset_union_right _
        (Set.Ico_subset_Ico_right (by omega))) n (hbelow w hn) heq.symm
    · have hmlt : n₀ ≤ m ∧ m < heap.capacity := by
        rcases hm with hmem | ⟨hmlo, hmhi⟩
        · have := hbound v m hmem
          exact ⟨this.1, by omega⟩
        · exact ⟨by omega, by omega⟩
      obtain rfl := hfresh.injective n m hlo hmlt.1 (by omega) hmlt.2 heq
      exact hdisj w n hw hn hm
  · -- the pages in use: the old ones and those handed out since the loop began
    rw [iUnion_update_union, hunion, Set.union_assoc, hIco]
  · -- nothing else has changed, before the step and in it
    refine (h.frame.mono (Set.subset_insert _ _) (Set.union_subset_union_right _
      (Set.Ico_subset_Ico_right (by omega)))).trans (hentry.frame.mono ?_ hnew)
    exact Set.singleton_subset_iff.mpr (Set.mem_insert _ _)

end Step

/-! ## One entry -/

section Entry

variable {v : ℕ} {e : Entry} {pages : Set ℕ} {count : ℕ}

/-- Writing a leaf over a leaf. -/
theorem EntryMapped.write (hslot : mem.slot table v = some e)
    (hcap : mem.allocated ≤ heap.capacity) {new : Entry} (hbits : leafBits new.value = true)
    (hbound : new.value.toNat + pageSize l / 4 ≤ 2 ^ 55) :
    EntryMapped paging heap mem (mem.setSlot table v new) table v (.leaf new : PageNode l) ∅ 0 := by
  refine ⟨⟨new, Memory.slot_setSlot_self hslot new, ?_⟩, by simp, by simpa using hcap,
    fun b w hb _ => ?_⟩
  · cases l <;> exact ⟨rfl, hbits, hbound, by simp⟩
  · rw [Memory.slot_setSlot hslot, if_neg (by simpa using hb)]

/-- Going down into the table that an entry points to. -/
theorem EntryMapped.descend {n : ℕ} {entries : ℕ → PageNode l} {S : Set ℕ}
    (h : TableMapped paging heap mem mem₁ (Set.Iio 512) (heap.page n) entries S pages count)
    (hslot : mem.slot table v = some (tablePointer paging.virtToPhys (heap.page n)))
    (hn : n < mem.allocated) (hpages : n ∉ pages)
    (hout : ∀ m ∈ insert n pages ∪ Set.Ico mem.allocated mem₁.allocated, table ≠ heap.page m) :
    EntryMapped paging heap mem mem₁ table v (.table entries) (insert n pages) count := by
  obtain ⟨below, hrep, hunion⟩ := h.rep
  -- What the call below has written lies in the page `n` or below it.
  have hframe : SameExcept heap mem mem₁ table {v}
      (insert n pages ∪ Set.Ico mem.allocated mem₁.allocated) := fun b w hb hne => by
    refine h.frame b w ?_ fun m hm => hne m ?_
    · rintro ⟨rfl, -⟩
      exact hne n (Or.inl (Set.mem_insert _ _)) rfl
    · exact Set.union_subset_union_left _ (Set.subset_insert _ _) hm
  refine ⟨⟨_, ?_, n, below, rfl, ?_, fun w hw => ?_, hrep⟩, h.allocated, h.capacity, hframe⟩
  · -- the pointer itself is not in the page it points to
    rw [← hslot]
    refine h.frame table v ?_ fun m hm => hout m ?_
    · rintro ⟨heq, -⟩
      exact hout n (Or.inl (Set.mem_insert _ _)) heq
    · exact Set.union_subset_union_left _ (Set.subset_insert _ _) hm
  · rw [hunion, Set.insert_union]
  · have hmem : n ∈ pages ∪ Set.Ico mem.allocated mem₁.allocated := by
      rw [← hunion]
      exact Set.mem_iUnion.mpr ⟨w, hw⟩
    rcases hmem with hmem | ⟨hlo, -⟩
    · exact hpages hmem
    · omega

/-- The memory after a split: the new table, and the pointer to it in place of the leaf. -/
def splitMemory (paging : GenericPaging levels 8) (heap : Allocator 8) (mem : Memory 8)
    (t : Table 8) (table : Usize) (v : ℕ) : Memory 8 :=
  (mem.addTable (heap.page mem.allocated) t).setSlot table v
    (tablePointer paging.virtToPhys (heap.page mem.allocated))

theorem splitMemory_allocated (t : Table 8) :
    (splitMemory paging heap mem t table v).allocated = mem.allocated + 1 := by
  simp [splitMemory]

theorem slot_splitMemory (t : Table 8) (hslot : mem.slot table v = some e)
    (hne : table ≠ heap.page mem.allocated) (b : Usize) (w : ℕ) :
    (splitMemory paging heap mem t table v).slot b w =
      if b = table ∧ w = v then some (tablePointer paging.virtToPhys (heap.page mem.allocated))
      else if b = heap.page mem.allocated then t.entries[w]? else mem.slot b w := by
  have hslot' : (mem.addTable (heap.page mem.allocated) t).slot table v = some e := by
    rw [Memory.slot_addTable, if_neg hne, hslot]
  rw [splitMemory, Memory.slot_setSlot hslot', Memory.slot_addTable]

/-- The new table of a split represents the pieces of the leaf. -/
theorem splitMemory_tableRep (hl : l ≤ 5) {t : Table 8} (hslot : mem.slot table v = some e)
    (hne : table ≠ heap.page mem.allocated) (hbits : leafBits e.value = true)
    (hbound : e.value.toNat + pageSize (l + 1) / 4 ≤ 2 ^ 55)
    (ht : ∀ i < 512, t.entries[i]? = some (piece e (getVpnSize l 8) i)) :
    TableRep paging.virtToPhys heap (splitMemory paging heap mem t table v) (Set.Iio 512)
      (heap.page mem.allocated) (pieces l e) (fun _ => ∅) := by
  refine ⟨fun w hw => ⟨piece e (getVpnSize l 8) w, ?_, ?_⟩, fun _ _ => rfl, fun _ _ _ h => h.elim⟩
  · rw [slot_splitMemory t hslot hne, if_neg (fun h => hne h.1.symm), if_pos rfl, ht w hw]
  · -- The pieces fit into the leaf, so no piece wraps or reaches a reserved bit.
    obtain ⟨hval, hfits⟩ := toNat_piece hl hbound hw
    have hleaf : leafBits (piece e (getVpnSize l 8) w).value = true := by
      rw [← hbits]
      exact leafBits_congr (piece_mod hl e w)
    cases l <;> exact ⟨rfl, hleaf, by rw [hval]; exact hfits, rfl⟩

/-- A leaf that is split first, and then mapped as the table it has become. -/
theorem EntryMapped.split {t : Table 8} {node : PageNode l} (hslot : mem.slot table v = some e)
    (hne : table ≠ heap.page mem.allocated)
    (h : EntryMapped paging heap (splitMemory paging heap mem t table v) mem₁ table v node
      {mem.allocated} count) :
    EntryMapped paging heap mem mem₁ table v node ∅ (1 + count) := by
  have hle := h.allocated
  rw [splitMemory_allocated] at hle
  -- The page of the new table and those handed out below it are one interval.
  have hset : ({mem.allocated} : Set ℕ) ∪
      Set.Ico (splitMemory paging heap mem t table v).allocated mem₁.allocated =
        ∅ ∪ Set.Ico mem.allocated mem₁.allocated := by
    rw [splitMemory_allocated]
    ext n
    simp only [Set.mem_union, Set.mem_singleton_iff, Set.mem_Ico, Set.mem_empty_iff_false, false_or]
    omega
  refine ⟨?_, by omega, h.capacity, ?_⟩
  · rw [← hset]
    exact h.rep
  · have hfirst : SameExcept heap mem (splitMemory paging heap mem t table v) table {v}
        (∅ ∪ Set.Ico mem.allocated mem₁.allocated) := fun b w hb hpages => by
      rw [slot_splitMemory t hslot hne, if_neg (by simpa using hb), if_neg]
      exact hpages _ (Or.inr ⟨le_rfl, by omega⟩)
    exact hfirst.trans (hset ▸ h.frame)

end Entry

/-! ## The loop -/

/-- The body of the loop of `map_internal`. -/
def mapBody (paging : GenericPaging levels 8) (heap : Allocator 8) (c : MapCall) (level : ℕ)
    (table offset : Usize) (vpnEnd : ℕ) (mem : Memory 8) (vpnNumber : ℕ) :
    Except Fault (Memory 8) := do
  assertThat (vpnNumber < 512)
  let entry ← mem.readEntry table vpnNumber
  let currentAddress ← currentAddress 8 level offset vpnNumber
  match level with
  | 0 => mem.writeEntry table vpnNumber (c.newEntry currentAddress)
  | level + 1 =>
    let (entry, mem) ←
      if entry.isLeaf && c.splitsAt (level + 1) 8 vpnEnd vpnNumber then do
        let (entry, mem) ← entry.split (getVpnSize level 8) paging.virtToPhys heap mem
        let mem ← mem.writeEntry table vpnNumber entry
        pure (entry, mem)
      else pure (entry, mem)
    match ← entry.tryAsTable paging.physToVirt with
    | some table =>
      mapInternal paging.physToVirt paging.virtToPhys heap c level table currentAddress mem
    | none => mem.writeEntry table vpnNumber (c.newEntry currentAddress)

theorem mapInternal_eq (paging : GenericPaging levels 8) (heap : Allocator 8) (c : MapCall)
    (level : ℕ) (table offset : Usize) (mem : Memory 8) :
    mapInternal paging.physToVirt paging.virtToPhys heap c level table offset mem = (do
      let vpnEnd ← c.vpnEnd level 8
      (List.range' (c.vpnStart level 8) (vpnEnd + 1 - c.vpnStart level 8)).foldlM
        (mapBody paging heap c level table offset vpnEnd) mem) := by
  cases level <;> rfl

/-- The address of an entry is computed without overflow. -/
theorem currentAddress_eq_ok {v : ℕ} {offset : Usize} (hl : l ≤ 4) (hv : v < 512)
    (hoffset : offset.toNat + pageSize (l + 1) ≤ 2 ^ 57) :
    currentAddress 8 l offset v = .ok (MapCall.entryAddress l offset v) ∧
      (MapCall.entryAddress l offset v).toNat = offset.toNat + v * pageSize l := by
  have hsucc := pageSize_succ l
  have hmul : v * pageSize l ≤ 512 * pageSize l := Nat.mul_le_mul_right _ hv.le
  have hval : (BitVec.ofNat 64 v : Usize).toNat = v := by
    rw [BitVec.toNat_ofNat]
    omega
  have hsize := toNat_getVpnSize (show l ≤ 5 by omega)
  have hlt : (BitVec.ofNat 64 v : Usize).toNat * (getVpnSize l 8).toNat < 2 ^ 64 := by
    rw [hval, hsize]
    omega
  have hprod := Usize.toNat_mul_of_lt hlt
  rw [hval, hsize] at hprod
  have hsum : offset.toNat + (BitVec.ofNat 64 v * getVpnSize l 8).toNat < 2 ^ 64 := by
    rw [hprod]
    omega
  constructor
  · rw [currentAddress, Usize.checkedMul_eq_ok hlt]
    exact Usize.checkedAdd_eq_ok hsum
  · rw [MapCall.entryAddress, Usize.toNat_add_of_lt hsum, hprod]

/-- The address of an entry is a multiple of 4096, and its page ends in its table. -/
theorem entryAddress_bounds {v : ℕ} {offset : Usize} (hl : l ≤ 4) (hv : v < 512)
    (hoffset : offset.toNat + pageSize (l + 1) ≤ 2 ^ 57) (halign : 4096 ∣ offset.toNat) :
    4096 ∣ (MapCall.entryAddress l offset v).toNat ∧
      (MapCall.entryAddress l offset v).toNat + pageSize l ≤ 2 ^ 57 := by
  rw [(currentAddress_eq_ok hl hv hoffset).2]
  refine ⟨(Nat.dvd_add_right halign).mpr ((page_dvd_pageSize l).mul_left _), ?_⟩
  have hmul := Nat.mul_le_mul_right (pageSize l) (show v + 1 ≤ 512 by omega)
  rw [Nat.add_mul, Nat.one_mul] at hmul
  rw [pageSize_succ] at hoffset
  omega

/-- A written entry is a leaf at every level. -/
theorem MapCall.Runs.newEntry_facts (hc : c.Runs) (hl : l ≤ 4) {address : Usize}
    (h : 4096 ∣ address.toNat) : leafBits (c.newEntry address).value = true ∧
      (c.newEntry address).value.toNat + pageSize l / 4 ≤ 2 ^ 55 := by
  refine ⟨by rw [MapCall.leafBits_newEntry hc.aligned h, hc.leafFlags], ?_⟩
  have hlt := c.newEntry_lt address
  have hsize : pageSize l ≤ pageSize 4 := pageSize_le hl
  rw [show pageSize 4 = 2 ^ 48 from rfl] at hsize
  omega

/-- The failures of a call: the allocator has fewer pages than the call needs. -/
def OutOfMemory (heap : Allocator 8) (mem : Memory 8) (count : ℕ) (f : Fault) : Prop :=
  f = .outOfMemory ∧ heap.capacity < mem.allocated + count

/-- **`map_internal` at a level refines `map` on the entries of a tree.** -/
def RefinesAt (paging : GenericPaging levels 8) (heap : Allocator 8) (n₀ : ℕ) (c : MapCall)
    (l : ℕ) : Prop :=
  ∀ (mem : Memory 8) (table offset : Usize) (D : Set ℕ) (entries : ℕ → PageNode l)
    (below : ℕ → Set ℕ), TableRep paging.virtToPhys heap mem D table entries below →
    (∀ v, c.Visits l v → v ∈ D) → (⋃ v, below v) ⊆ Set.Ico n₀ mem.allocated →
    Outside heap n₀ mem table (⋃ v, below v) → n₀ ≤ mem.allocated →
    mem.allocated ≤ heap.capacity → 4096 ∣ offset.toNat →
    offset.toNat + pageSize (l + 1) ≤ 2 ^ 57 →
    Outcome (OutOfMemory heap mem (c.newTables l entries))
      (fun mem' => TableMapped paging heap mem mem' D table (c.mapEntries l offset entries)
        {v | c.Visits l v} (⋃ v, below v) (c.newTables l entries))
      (mapInternal paging.physToVirt paging.virtToPhys heap c l table offset mem)

section Body

variable {v : ℕ} {e : Entry} {pages : Set ℕ} {offset : Usize}

theorem mapBody_zero_outcome (hc : c.Runs) {node : PageNode 0} (hslot : mem.slot table v = some e)
    (hrep : node.Rep paging.virtToPhys heap mem e pages) (hcap : mem.allocated ≤ heap.capacity)
    (hv : v < 512) (halign : 4096 ∣ offset.toNat) (hoffset : offset.toNat + pageSize 1 ≤ 2 ^ 57)
    (last : ℕ) :
    Outcome (OutOfMemory heap mem (c.newTablesAt 0 v node))
      (fun mem' => EntryMapped paging heap mem mem' table v
        (c.mapNode 0 (MapCall.entryAddress 0 offset v) v node) pages (c.newTablesAt 0 v node))
      (mapBody paging heap c 0 table offset last mem v) := by
  cases node with
  | leaf e' =>
    obtain ⟨rfl, -, -, -, -, rfl⟩ := hrep.leaf_facts
    obtain ⟨hbits, hbound⟩ := hc.newEntry_facts (l := 0) (by norm_num)
      (entryAddress_bounds (by norm_num) hv hoffset halign).1
    rw [mapBody, assertThat_eq_ok hv, Memory.readEntry_eq_ok hslot,
      (currentAddress_eq_ok (by norm_num) hv hoffset).1]
    refine Outcome.of_eq_ok (Memory.writeEntry_eq_ok hslot _) ?_
    exact EntryMapped.write hslot hcap hbits hbound

/-- The body of the loop above level 0, once the entry has been read. -/
theorem mapBody_succ (hslot : mem.slot table v = some e) (hl : l + 1 ≤ 4) (hv : v < 512)
    (hoffset : offset.toNat + pageSize (l + 2) ≤ 2 ^ 57) :
    mapBody paging heap c (l + 1) table offset (c.last (l + 1)) mem v = (do
      let r ← if e.isLeaf && c.splits (l + 1) v then do
          let (entry, mem) ← e.split (getVpnSize l 8) paging.virtToPhys heap mem
          let mem ← mem.writeEntry table v entry
          pure (entry, mem)
        else pure (e, mem)
      match ← r.1.tryAsTable paging.physToVirt with
      | some table =>
        mapInternal paging.physToVirt paging.virtToPhys heap c l table
          (MapCall.entryAddress (l + 1) offset v) r.2
      | none => r.2.writeEntry table v (c.newEntry (MapCall.entryAddress (l + 1) offset v))) := by
  rw [mapBody, assertThat_eq_ok hv, Memory.readEntry_eq_ok hslot,
    (currentAddress_eq_ok hl hv hoffset).1]
  rfl

/-- The body of the loop on an entry that points to a table. -/
theorem mapBody_table_outcome (hfresh : FreshPages paging heap n₀) (hl : l + 1 ≤ 4)
    (ih : RefinesAt paging heap n₀ c l) {entries : ℕ → PageNode l}
    (hslot : mem.slot table v = some e)
    (hrep : (PageNode.table entries).Rep paging.virtToPhys heap mem e pages)
    (hpages : pages ⊆ Set.Ico n₀ mem.allocated) (hout : Outside heap n₀ mem table pages)
    (hn₀ : n₀ ≤ mem.allocated) (hcap : mem.allocated ≤ heap.capacity) (hv : v < 512)
    (halign : 4096 ∣ offset.toNat) (hoffset : offset.toNat + pageSize (l + 2) ≤ 2 ^ 57) :
    Outcome (OutOfMemory heap mem (c.newTables l entries))
      (fun mem' => EntryMapped paging heap mem mem' table v
        (.table (c.mapEntries l (MapCall.entryAddress (l + 1) offset v) entries)) pages
        (c.newTables l entries))
      (mapBody paging heap c (l + 1) table offset (c.last (l + 1)) mem v) := by
  obtain ⟨halign', hoffset'⟩ := entryAddress_bounds hl hv hoffset halign
  obtain ⟨n, below, rfl, rfl, hnot, hn, hncap, hptr, haddr, hnull, -, htable⟩ :=
    hrep.table_facts hfresh fun m hm => ⟨(hpages hm).1, lt_of_lt_of_le (hpages hm).2 hcap⟩
  have hnlt : n < mem.allocated := (hpages (Set.mem_insert _ _)).2
  have hbelow : (⋃ v, below v) ⊆ Set.Ico n₀ mem.allocated := (Set.subset_insert _ _).trans hpages
  have hnot' : n ∉ ⋃ v, below v := fun h => by
    obtain ⟨w, hw⟩ := Set.mem_iUnion.mp h
    exact hnot w hw
  rw [mapBody_succ hslot hl hv hoffset, hptr, Bool.false_and, if_neg (by simp), pure_bind]
  -- The recursive call, in the page of the table: it is one of the pages in use, and not one of
  -- those below it.
  have hsub := ih mem (heap.page n) _ _ entries below htable
    (fun w hw => hw.lt) hbelow
    (fun m hm hmcap heq => by
      obtain rfl := hfresh.injective n m hn hm hncap hmcap heq
      exact ⟨hnlt, hnot'⟩) hn₀ hcap halign' hoffset'
  dsimp only
  rw [Entry.tryAsTable_of_pointer hptr hnull, haddr]
  refine hsub.mono (fun _ h => h) fun mem' h => ?_
  have hle := h.allocated
  exact EntryMapped.descend h hslot hnlt hnot'
    (hout.ne_page hn₀ hpages h.capacity (by omega) subset_rfl)

/-- The body of the loop on a leaf that is not split. -/
theorem mapBody_leaf_outcome (hc : c.Runs) (hl : l + 1 ≤ 4)
    (hsplits : c.splits (l + 1) v = false) (hslot : mem.slot table v = some e)
    (hleaf : e.isLeaf = true) (hcap : mem.allocated ≤ heap.capacity) (hv : v < 512)
    (halign : 4096 ∣ offset.toNat) (hoffset : offset.toNat + pageSize (l + 2) ≤ 2 ^ 57) :
    Outcome (OutOfMemory heap mem 0)
      (fun mem' => EntryMapped paging heap mem mem' table v
        (.leaf (c.newEntry (MapCall.entryAddress (l + 1) offset v)) : PageNode (l + 1)) ∅ 0)
      (mapBody paging heap c (l + 1) table offset (c.last (l + 1)) mem v) := by
  obtain ⟨hbits, hbound⟩ := hc.newEntry_facts (l := l + 1) hl
    (entryAddress_bounds hl hv hoffset halign).1
  rw [mapBody_succ hslot hl hv hoffset, hsplits, Bool.and_false, if_neg (by simp), pure_bind]
  dsimp only
  rw [Entry.tryAsTable_of_leaf hleaf]
  refine Outcome.of_eq_ok (Memory.writeEntry_eq_ok hslot _) ?_
  exact EntryMapped.write hslot hcap hbits hbound

/-- Splitting a leaf of a represented table. -/
theorem FreshPages.split_outcome (hfresh : FreshPages paging heap n₀) (hl : l ≤ 4)
    (hbound : e.value.toNat + pageSize (l + 1) / 4 ≤ 2 ^ 55) (hn₀ : n₀ ≤ mem.allocated) :
    Outcome (fun f => f = .outOfMemory ∧ heap.capacity ≤ mem.allocated)
      (fun r => mem.allocated < heap.capacity ∧ ∃ t : Table 8,
        r = (tablePointer paging.virtToPhys (heap.page mem.allocated),
          mem.addTable (heap.page mem.allocated) t) ∧
        ∀ i < 512, t.entries[i]? = some (piece e (getVpnSize l 8) i))
      (e.split (getVpnSize l 8) paging.virtToPhys heap mem) := by
  -- The running address of the split stays far below `2 ^ 64`.
  have hroom : e.value.toNat + 4096 / 8 * (getVpnSize l 8 >>> 2).toNat < 2 ^ 64 := by
    rw [BitVec.toNat_ushiftRight, Nat.shiftRight_eq_div_pow, toNat_getVpnSize (by omega)]
    have hsucc := pageSize_succ l
    omega
  refine Entry.split_outcome e (getVpnSize l 8) paging.virtToPhys heap mem hroom fun hlt => ?_
  have haligned := hfresh.aligned _ hn₀ hlt
  refine ⟨(hfresh.pointer_facts hn₀ hlt).1, ?_, tablePointer_and_rwx haligned⟩
  exact (and_valid_eq_zero_iff _).not.mpr (by simp [getLsbD_tablePointer_zero haligned])

/-- The body of the loop on a leaf that is split. -/
theorem mapBody_split_outcome (hfresh : FreshPages paging heap n₀) (hl : l + 1 ≤ 4)
    (ih : RefinesAt paging heap n₀ c l) (hsplits : c.splits (l + 1) v = true)
    (hslot : mem.slot table v = some e) (hbits : leafBits e.value = true)
    (hbound : e.value.toNat + pageSize (l + 1) / 4 ≤ 2 ^ 55)
    (hout : Outside heap n₀ mem table ∅) (hn₀ : n₀ ≤ mem.allocated)
    (hcap : mem.allocated ≤ heap.capacity) (hv : v < 512) (halign : 4096 ∣ offset.toNat)
    (hoffset : offset.toNat + pageSize (l + 2) ≤ 2 ^ 57) :
    Outcome (OutOfMemory heap mem (1 + c.newTables l (pieces l e)))
      (fun mem' => EntryMapped paging heap mem mem' table v
        (.table (c.mapEntries l (MapCall.entryAddress (l + 1) offset v) (pieces l e))) ∅
        (1 + c.newTables l (pieces l e)))
      (mapBody paging heap c (l + 1) table offset (c.last (l + 1)) mem v) := by
  obtain ⟨halign', hoffset'⟩ := entryAddress_bounds hl hv hoffset halign
  have hne : mem.allocated < heap.capacity → table ≠ heap.page mem.allocated := fun hlt h => by
    have := (hout mem.allocated hn₀ hlt h).1
    omega
  rw [mapBody_succ hslot hl hv hoffset, hsplits, Entry.isLeaf_of_leafBits hbits, Bool.and_self,
    if_pos rfl]
  -- The split needs one page; without it the call fails as admitted.
  have hsplit : Outcome (OutOfMemory heap mem (1 + c.newTables l (pieces l e))) _
      (e.split (getVpnSize l 8) paging.virtToPhys heap mem) :=
    (hfresh.split_outcome (by omega) hbound hn₀).mono
      (fun f hf => ⟨hf.1, by have := hf.2; omega⟩) fun _ h => h
  refine hsplit.bind ?_
  rintro _ ⟨hlt, t, rfl, ht⟩
  have hslot' : (mem.addTable (heap.page mem.allocated) t).slot table v = some e := by
    rw [Memory.slot_addTable, if_neg (hne hlt), hslot]
  obtain ⟨hptr, haddr, -⟩ := hfresh.pointer_facts hn₀ hlt
  have hnull := hfresh.ne_null mem.allocated hn₀ hlt
  rw [← haddr] at hnull
  dsimp only
  rw [Memory.writeEntry_eq_ok hslot', ok_bind, pure_bind, ← splitMemory,
    Entry.tryAsTable_of_pointer hptr hnull, haddr]
  -- The recursive call, in the new table: it represents the pieces and has nothing below it.
  have hsub := ih _ (heap.page mem.allocated) _ _ (pieces l e) (fun _ => ∅)
    (splitMemory_tableRep (by omega) hslot (hne hlt) hbits hbound ht)
    (fun w hw => hw.lt) (by simp)
    (fun m hm hmcap heq => by
      obtain rfl := hfresh.injective _ m hn₀ hm hlt hmcap heq
      simp [splitMemory_allocated])
    (by rw [splitMemory_allocated]; omega) (by rw [splitMemory_allocated]; omega) halign' hoffset'
  refine hsub.mono (fun f hf => ⟨hf.1, ?_⟩) fun mem' h => ?_
  · have := hf.2
    rw [splitMemory_allocated] at this
    omega
  · have hle := h.allocated
    rw [splitMemory_allocated] at hle
    have hptrSlot : (splitMemory paging heap mem t table v).slot table v =
        some (tablePointer paging.virtToPhys (heap.page mem.allocated)) := by
      rw [slot_splitMemory t hslot (hne hlt), if_pos ⟨rfl, rfl⟩]
    have hentry := EntryMapped.descend h hptrSlot ?_ ?_ ?_
    · rw [Set.iUnion_empty, insert_empty_eq] at hentry
      exact EntryMapped.split hslot (hne hlt) hentry
    · rw [splitMemory_allocated]
      omega
    · simp
    · rw [splitMemory_allocated]
      refine hout.ne_page hn₀ (Set.empty_subset _) h.capacity (by omega) ?_
      intro m hm
      simp only [Set.iUnion_empty, insert_empty_eq, Set.mem_union, Set.mem_singleton_iff,
        Set.mem_Ico, Set.mem_empty_iff_false, false_or] at hm ⊢
      omega

/-- **One entry**: the body of the loop does to an entry what `mapNode` does to its node. -/
theorem mapBody_outcome (hfresh : FreshPages paging heap n₀) (hc : c.Runs) (hl : l ≤ 4)
    (ih : ∀ l', l = l' + 1 → RefinesAt paging heap n₀ c l') {node : PageNode l}
    (hslot : mem.slot table v = some e) (hrep : node.Rep paging.virtToPhys heap mem e pages)
    (hpages : pages ⊆ Set.Ico n₀ mem.allocated) (hout : Outside heap n₀ mem table pages)
    (hn₀ : n₀ ≤ mem.allocated) (hcap : mem.allocated ≤ heap.capacity) (hv : v < 512)
    (halign : 4096 ∣ offset.toNat) (hoffset : offset.toNat + pageSize (l + 1) ≤ 2 ^ 57) :
    Outcome (OutOfMemory heap mem (c.newTablesAt l v node))
      (fun mem' => EntryMapped paging heap mem mem' table v
        (c.mapNode l (MapCall.entryAddress l offset v) v node) pages (c.newTablesAt l v node))
      (mapBody paging heap c l table offset (c.last l) mem v) := by
  -- One case for each branch of the source: level 0, a table, a leaf that is kept or split.
  cases l with
  | zero => exact mapBody_zero_outcome hc hslot hrep hcap hv halign hoffset _
  | succ l =>
    cases node with
    | table entries =>
      rw [MapCall.mapNode_table, MapCall.newTablesAt_table]
      exact mapBody_table_outcome hfresh hl (ih l rfl) hslot hrep hpages hout hn₀ hcap hv halign
        hoffset
    | leaf e' =>
      obtain ⟨rfl, hbits, hleaf, -, hbound, rfl⟩ := hrep.leaf_facts
      cases hsplits : c.splits (l + 1) v with
      | false =>
        rw [MapCall.mapNode_leaf hsplits, MapCall.newTablesAt_leaf hsplits]
        exact mapBody_leaf_outcome hc hl hsplits hslot hleaf hcap hv halign hoffset
      | true =>
        rw [MapCall.mapNode_split hsplits, MapCall.newTablesAt_split hsplits]
        exact mapBody_split_outcome hfresh hl (ih l rfl) hsplits hslot hbits hbound hout hn₀ hcap hv
          halign hoffset

end Body

/-- The entries of a table when the loop has come to index `k`. -/
def MapCall.mapUpTo (c : MapCall) (l : ℕ) (offset : Usize) (entries : ℕ → PageNode l) (k : ℕ) :
    ℕ → PageNode l := fun w =>
  if c.first l ≤ w ∧ w < k then c.mapNode l (MapCall.entryAddress l offset w) w (entries w)
  else entries w

theorem MapCall.mapUpTo_succ {offset : Usize} {entries : ℕ → PageNode l} {k : ℕ}
    (hk : c.first l ≤ k) : c.mapUpTo l offset entries (k + 1) =
      Function.update (c.mapUpTo l offset entries k) k
        (c.mapNode l (MapCall.entryAddress l offset k) k (c.mapUpTo l offset entries k k)) := by
  funext w
  by_cases hw : w = k
  · subst hw
    rw [Function.update_self, mapUpTo, mapUpTo, if_pos ⟨hk, by omega⟩, if_neg (by omega)]
  · rw [Function.update_of_ne hw, mapUpTo, mapUpTo]
    exact if_congr (by omega) rfl rfl

theorem MapCall.mapUpTo_last {offset : Usize} {entries : ℕ → PageNode l} :
    c.mapUpTo l offset entries (c.last l + 1) = c.mapEntries l offset entries := by
  funext w
  exact if_congr (and_congr Iff.rfl Nat.lt_succ_iff) rfl rfl

/-- The tables added before index `k`. -/
theorem MapCall.sum_newTablesAt_succ_le {entries : ℕ → PageNode l} {k : ℕ} (hk : c.first l ≤ k)
    (hk' : k < c.last l + 1) :
    ∑ w ∈ Finset.Ico (c.first l) k, c.newTablesAt l w (entries w) + c.newTablesAt l k (entries k) ≤
      c.newTables l entries := by
  rw [← Finset.sum_Ico_succ_top hk]
  exact Finset.sum_le_sum_of_subset (Finset.Ico_subset_Ico_right hk')

/-- The loop at a level, when the recursive calls refine. -/
theorem refinesAt_of_below (hfresh : FreshPages paging heap n₀) (hc : c.Runs)
    (hpos : l ≠ 0 → 0 < c.stop) (hl : l ≤ 4)
    (ih : ∀ l', l = l' + 1 → RefinesAt paging heap n₀ c l') : RefinesAt paging heap n₀ c l := by
  intro mem table offset D entries below htable hvisits hpages hout hn₀ hcap halign hoffset
  have hfirst := c.first_le_last l
  rw [mapInternal_eq, MapCall.vpnEnd_eq_ok (by omega) hpos hc.stop_lt, ok_bind,
    c.vpnStart_eight (by omega)]
  -- the entries before the index are mapped, and the tables they need are allocated
  let I : ℕ → Memory 8 → Prop := fun k s =>
    TableMapped paging heap mem s D table (c.mapUpTo l offset entries k)
      {w | c.first l ≤ w ∧ w < k} (⋃ v, below v)
      (∑ w ∈ Finset.Ico (c.first l) k, c.newTablesAt l w (entries w))
  have hstart : I (c.first l) mem := by
    have hnone : c.mapUpTo l offset entries (c.first l) = entries := by
      funext w
      exact if_neg (by omega)
    have hempty : {w | c.first l ≤ w ∧ w < c.first l} = ∅ := by
      ext w
      simp only [Set.mem_ofPred_eq, Set.mem_empty_iff_false, iff_false]
      omega
    simp only [I, hnone, hempty, Finset.Ico_self, Finset.sum_empty]
    exact TableMapped.start hcap htable
  refine (Outcome.foldlM_range' I (fun k s hk hk' hI => ?_) hstart).mono (fun _ h => h)
    fun mem' hI => ?_
  · obtain ⟨below', hrep', hunion⟩ := hI.rep
    have hkD : k ∈ D := hvisits k ⟨hk, by omega⟩
    have hkept : c.mapUpTo l offset entries k k = entries k := if_neg (by omega)
    have halloc := hI.allocated
    obtain ⟨e, hslot, hnode⟩ := hrep'.slot k hkD
    have hbelow : below' k ⊆ (⋃ v, below v) ∪ Set.Ico mem.allocated s.allocated := fun n hn =>
      hunion ▸ Set.mem_iUnion.mpr ⟨k, hn⟩
    have howned : below' k ⊆ Set.Ico n₀ s.allocated := fun n hn => by
      rcases hbelow hn with hold | ⟨hlo, hhi⟩
      · exact ⟨(hpages hold).1, by have := (hpages hold).2; omega⟩
      · exact ⟨by omega, hhi⟩
    -- Pages handed out since the loop began are not this table, which is older.
    have hout' : Outside heap n₀ s table (below' k) := fun m hm hmcap heq => by
      obtain ⟨hlt, hnot⟩ := hout m hm hmcap heq
      refine ⟨by omega, fun hmem => ?_⟩
      rcases hbelow hmem with hold | ⟨hlo, -⟩
      · exact hnot hold
      · omega
    have hbody := mapBody_outcome hfresh hc hl ih hslot hnode howned hout' (by omega) hI.capacity
      (by have := c.last_lt l; omega) halign hoffset
    rw [hkept] at hbody
    refine hbody.mono (fun f hf => ⟨hf.1, ?_⟩) fun s' hs' => ?_
    · -- out of memory at this entry is out of memory for the whole call
      have hle : _ ≤ c.newTables l entries := c.sum_newTablesAt_succ_le hk (by omega)
      have := hf.2
      omega
    · have hstep := hI.step hfresh hn₀ hpages hout hrep' hunion hkD hs'
      have hset : insert k {w | c.first l ≤ w ∧ w < k} = {w | c.first l ≤ w ∧ w < k + 1} := by
        ext w
        simp only [Set.mem_insert_iff, Set.mem_ofPred_eq]
        omega
      show TableMapped _ _ _ _ _ _ _ _ _ _
      rw [MapCall.mapUpTo_succ hk, hkept, Finset.sum_Ico_succ_top hk, ← hset]
      exact hstep
  · have hend : c.first l + (c.last l + 1 - c.first l) = c.last l + 1 := by omega
    have hset : {w | c.first l ≤ w ∧ w < c.last l + 1} = {v | c.Visits l v} := by
      ext w
      exact and_congr Iff.rfl Nat.lt_succ_iff
    rw [hend] at hI
    simp only [I, hset, MapCall.mapUpTo_last] at hI
    exact hI

/-- **`map_internal` refines `map` on trees**, at every level. -/
theorem mapInternal_outcome (hfresh : FreshPages paging heap n₀) (hc : c.Runs)
    (hpos : l ≠ 0 → 0 < c.stop) (hl : l ≤ 4) : RefinesAt paging heap n₀ c l := by
  induction l with
  | zero => exact refinesAt_of_below hfresh hc hpos hl nofun
  | succ l ih =>
    refine refinesAt_of_below hfresh hc hpos hl fun l' hl' => ?_
    obtain rfl : l = l' := Nat.succ.inj hl'
    exact ih (fun _ => hpos (Nat.succ_ne_zero l)) (by omega)

end AsyncKernel
