import AsyncKernel.Foundation.Outcome
import AsyncKernel.Paging.Fields

/-!
# The memory as a set of slots

Reads and writes of the paging code, as equations on the entry found at a table and an index. The
two ways the code changes the memory are a write into one slot and `Entry::split`, which adds a
table.

## Main definitions

* `Memory.slot`: the entry at a table and an index
* `Memory.setSlot`, `Memory.addTable`: the two changes of the memory
* `tablePointer`: the entry that points to a table
* `piece`: the entries of a split leaf

## Main results

* `Memory.readEntry_eq_ok_iff`, `Memory.writeEntry_eq_ok`: the accessors in terms of slots
* `Entry.split_outcome`: a split adds one table, of the pieces of the leaf
-/

namespace AsyncKernel

variable {ptesize : ℕ}

namespace Memory

/-- The entry at a table and an index. -/
def slot (mem : Memory ptesize) (table : Usize) (index : ℕ) : Option Entry :=
  (mem.tables table).bind fun t => t.entries[index]?

/-- The memory with one slot replaced. -/
def setSlot (mem : Memory ptesize) (table : Usize) (index : ℕ) (entry : Entry) : Memory ptesize :=
  match mem.tables table with
  | some t => mem.store table ⟨t.entries.setIfInBounds index entry⟩
  | none => mem

/-- The memory with one more allocated table. -/
def addTable (mem : Memory ptesize) (table : Usize) (t : Table ptesize) : Memory ptesize :=
  { mem.store table t with allocated := mem.allocated + 1 }

@[simp] theorem setSlot_allocated (mem : Memory ptesize) (table : Usize) (index : ℕ)
    (entry : Entry) : (mem.setSlot table index entry).allocated = mem.allocated := by
  unfold setSlot
  split <;> rfl

@[simp] theorem addTable_allocated (mem : Memory ptesize) (table : Usize) (t : Table ptesize) :
    (mem.addTable table t).allocated = mem.allocated + 1 := rfl

theorem slot_store (mem : Memory ptesize) (table : Usize) (t : Table ptesize) (a : Usize) (v : ℕ) :
    (mem.store table t).slot a v = if a = table then t.entries[v]? else mem.slot a v := by
  by_cases h : a = table
  · subst h
    simp [slot, store]
  · simp [slot, store, h]

theorem slot_addTable (mem : Memory ptesize) (table : Usize) (t : Table ptesize) (a : Usize)
    (v : ℕ) : (mem.addTable table t).slot a v = if a = table then t.entries[v]? else mem.slot a v :=
  slot_store mem table t a v

theorem slot_setSlot {mem : Memory ptesize} {table : Usize} {index : ℕ} {entry : Entry}
    (h : mem.slot table index = some entry) (new : Entry) (a : Usize) (v : ℕ) :
    (mem.setSlot table index new).slot a v =
      if a = table ∧ v = index then some new else mem.slot a v := by
  obtain ⟨t, ht, he⟩ := Option.bind_eq_some_iff.mp h
  have hlt : index < 4096 / ptesize := (Vector.getElem?_eq_some_iff.mp he).1
  have hset : mem.setSlot table index new =
      mem.store table ⟨t.entries.setIfInBounds index new⟩ := by
    simp only [setSlot, ht]
  rw [hset, slot_store]
  -- Another table is not touched; in this one only the index is.
  by_cases ha : a = table
  · subst ha
    rw [if_pos rfl, Vector.getElem?_setIfInBounds]
    by_cases hv : v = index
    · subst hv
      simp [hlt]
    · rw [if_neg (Ne.symm hv), if_neg (by tauto), slot, ht]
      rfl
  · simp [ha]

theorem slot_setSlot_self {mem : Memory ptesize} {table : Usize} {index : ℕ} {entry : Entry}
    (h : mem.slot table index = some entry) (new : Entry) :
    (mem.setSlot table index new).slot table index = some new := by
  rw [slot_setSlot h, if_pos ⟨rfl, rfl⟩]

/-- Writing the entry that a slot holds. -/
theorem setSlot_eq_self {mem : Memory ptesize} {table : Usize} {index : ℕ} {entry : Entry}
    (h : mem.slot table index = some entry) : mem.setSlot table index entry = mem := by
  obtain ⟨t, ht, he⟩ := Option.bind_eq_some_iff.mp h
  have hentries : t.entries.setIfInBounds index entry = t.entries := by
    obtain ⟨hlt, hentry⟩ := Vector.getElem?_eq_some_iff.mp he
    refine Vector.ext fun i hi => ?_
    rw [Vector.getElem_setIfInBounds]
    split
    · rename_i hindex
      subst hindex
      exact hentry.symm
    · rfl
  simp only [setSlot, ht, store, hentries]
  rw [show (⟨t.entries⟩ : Table ptesize) = t from rfl, ← ht, Function.update_eq_self]

theorem readEntry_eq_ok_iff {mem : Memory ptesize} {table : Usize} {index : ℕ} {entry : Entry} :
    mem.readEntry table index = .ok entry ↔ mem.slot table index = some entry := by
  unfold readEntry deref slot
  cases ht : mem.tables table with
  | none => simp [bind, Except.bind]
  | some t =>
    cases he : t.entries[index]? with
    | none => simp [bind, Except.bind, he]
    | some e => simp [bind, Except.bind, he]

/-- Slots that hold the same, in bounds, are read alike. -/
theorem readEntry_congr {mem mem' : Memory ptesize} {table : Usize} {index : ℕ}
    (hlt : index < 4096 / ptesize) (h : mem'.slot table index = mem.slot table index) :
    mem'.readEntry table index = mem.readEntry table index := by
  have hread : ∀ mem : Memory ptesize, mem.readEntry table index =
      (mem.slot table index).elim (.error .danglingTable) .ok := by
    intro mem
    unfold readEntry deref slot
    cases mem.tables table with
    | none => rfl
    | some t => simp [hlt, bind, Except.bind]
  rw [hread, hread, h]

theorem readEntry_eq_ok {mem : Memory ptesize} {table : Usize} {index : ℕ} {entry : Entry}
    (h : mem.slot table index = some entry) : mem.readEntry table index = .ok entry :=
  readEntry_eq_ok_iff.mpr h

theorem writeEntry_eq_ok {mem : Memory ptesize} {table : Usize} {index : ℕ} {entry : Entry}
    (h : mem.slot table index = some entry) (new : Entry) :
    mem.writeEntry table index new = .ok (mem.setSlot table index new) := by
  obtain ⟨t, ht, he⟩ := Option.bind_eq_some_iff.mp h
  have hlt : index < 4096 / ptesize := (Vector.getElem?_eq_some_iff.mp he).1
  simp [writeEntry, deref, setSlot, ht, hlt, bind, Except.bind]

end Memory

/-! ## Splitting -/

/-- The entry that points to a table. -/
def tablePointer (virtToPhys : Usize → Usize) (table : Usize) : Entry :=
  ⟨(1 : Usize) ||| (virtToPhys table >>> 2)⟩

/-- Entry `index` of the table a leaf is split into. -/
def piece (e : Entry) (increment : Usize) (index : ℕ) : Entry :=
  ⟨(e.value &&& ~~~EntryBits.addressMask) |||
    ((e.value &&& EntryBits.addressMask) + BitVec.ofNat 64 index * (increment >>> 2))⟩

/-- The loop of a split writes the pieces. -/
theorem Table.fill_outcome (t : Table ptesize) (flags step start : Usize)
    (h : start.toNat + 4096 / ptesize * step.toNat < 2 ^ 64) :
    Outcome (fun _ => False) (fun r => ∀ i < 4096 / ptesize,
      r.1.entries[i]? = some ⟨flags ||| (start + BitVec.ofNat 64 i * step)⟩)
      (t.fill flags step start) := by
  set n := 4096 / ptesize with hn
  have hn' : n ≤ 4096 := Nat.div_le_self _ _
  -- the running address is `start + k * step`, and the first `k` entries are written
  let I : ℕ → Table ptesize × Usize → Prop := fun k s =>
    s.2 = start + BitVec.ofNat 64 k * step ∧ ∀ i < k,
      s.1.entries[i]? = some ⟨flags ||| (start + BitVec.ofNat 64 i * step)⟩
  -- By the bound the running address never wraps.
  have hrunning : ∀ k ≤ n, (start + BitVec.ofNat 64 k * step).toNat =
      start.toNat + k * step.toNat := by
    intro k hk
    have hk64 : (BitVec.ofNat 64 k).toNat = k := by
      rw [BitVec.toNat_ofNat, Nat.mod_eq_of_lt (by omega)]
    have hle : k * step.toNat ≤ n * step.toNat := Nat.mul_le_mul_right _ hk
    have hmul : (BitVec.ofNat 64 k * step).toNat = k * step.toNat := by
      rw [Usize.toNat_mul_of_lt (by rw [hk64]; omega), hk64]
    rw [Usize.toNat_add_of_lt (by rw [hmul]; omega), hmul]
  rw [Table.fill, List.range_eq_range']
  refine (Outcome.foldlM_range' I (fun k s _ hk hI => ?_)
    ⟨by simp, fun i hi => absurd hi (by omega)⟩).mono (fun _ h => h)
      (fun r hI i hi => hI.2 i (by omega))
  obtain ⟨hcur, hwritten⟩ := hI
  have hk' : k < n := by omega
  have hadd : s.2.toNat + step.toNat < 2 ^ 64 := by
    rw [hcur, hrunning k hk'.le]
    have := Nat.mul_le_mul_right step.toNat (show k + 1 ≤ n by omega)
    rw [Nat.add_mul, Nat.one_mul] at this
    omega
  rw [Usize.checkedAdd_eq_ok hadd]
  refine ⟨?_, fun i hi => ?_⟩
  · show s.2 + step = start + BitVec.ofNat 64 (k + 1) * step
    rw [hcur, show BitVec.ofNat 64 (k + 1) = BitVec.ofNat 64 k + 1 from BitVec.ofNat_add ..,
      BitVec.add_mul, BitVec.add_assoc]
    congr 2
    exact (BitVec.one_mul step).symm
  · show (s.1.entries.setIfInBounds k _)[i]? = _
    rw [Vector.getElem?_setIfInBounds]
    by_cases hik : k = i
    · subst hik
      rw [if_pos rfl, if_pos (by omega), hcur]
    · rw [if_neg hik]
      exact hwritten i (by omega)

/-- **A split adds one table**, of the pieces of the leaf, and returns a pointer to it. It fails
only when the allocator has no page left. -/
theorem Entry.split_outcome (e : Entry) (increment : Usize) (virtToPhys : Usize → Usize)
    (heap : Allocator ptesize) (mem : Memory ptesize)
    (hroom : e.value.toNat + 4096 / ptesize * (increment >>> 2).toNat < 2 ^ 64)
    (hptr : mem.allocated < heap.capacity →
      (tablePointer virtToPhys (heap.page mem.allocated)).isLeaf = false ∧
      (tablePointer virtToPhys (heap.page mem.allocated)).value &&& 1 ≠ 0 ∧
      (tablePointer virtToPhys (heap.page mem.allocated)).value &&& EntryBits.rwx = 0) :
    Outcome (fun f => f = .outOfMemory ∧ heap.capacity ≤ mem.allocated)
      (fun r => mem.allocated < heap.capacity ∧ ∃ t : Table ptesize,
        r = (tablePointer virtToPhys (heap.page mem.allocated),
          mem.addTable (heap.page mem.allocated) t) ∧
        ∀ i < 4096 / ptesize, t.entries[i]? = some (piece e increment i))
      (e.split increment virtToPhys heap mem) := by
  have hstart : (e.value &&& EntryBits.addressMask).toNat ≤ e.value.toNat := by
    rw [toNat_and_addressMask]
    exact Nat.div_mul_le_self _ _
  unfold Entry.split Table.boxedZeroed
  -- Either the allocator hands out its next page or there is none left.
  by_cases hcap : mem.allocated < heap.capacity
  · obtain ⟨hleaf, hvalid, hrwx⟩ := hptr hcap
    have hderef : (mem.addTable (heap.page mem.allocated) (heap.stale mem.allocated)).deref
        (heap.page mem.allocated) = .ok (heap.stale mem.allocated) := by
      simp [Memory.deref, Memory.addTable, Memory.store]
    -- Whatever the page held, the loop writes all of its entries.
    obtain ⟨r, hr, hentries⟩ := (Table.fill_outcome (heap.stale mem.allocated)
      (e.value &&& ~~~EntryBits.addressMask) (increment >>> 2) (e.value &&& EntryBits.addressMask)
      (by omega)).exists_ok (fun _ h => h.elim)
    have hstore : (mem.addTable (heap.page mem.allocated) (heap.stale mem.allocated)).store
        (heap.page mem.allocated) r.1 = mem.addTable (heap.page mem.allocated) r.1 := by
      simp [Memory.addTable, Memory.store]
    have hasserts : ∀ (p : Entry) (m : Memory ptesize), p.isLeaf = false → p.value &&& 1 ≠ 0 →
        p.value &&& EntryBits.rwx = 0 → (do
          assertThat (p.isLeaf = false)
          assertThat (p.value &&& 1 ≠ 0)
          assertThat (p.value &&& EntryBits.rwx = 0)
          return (p, m)) = (.ok (p, m) : Except Fault (Entry × Memory ptesize)) := by
      intro p m h₁ h₂ h₃
      rw [assertThat_eq_ok h₁, assertThat_eq_ok h₂, assertThat_eq_ok h₃]
      rfl
    refine Outcome.of_eq_ok (a := (tablePointer virtToPhys (heap.page mem.allocated),
      mem.addTable (heap.page mem.allocated) r.1)) ?_ ⟨hcap, r.1, rfl, hentries⟩
    rw [if_pos hcap]
    simp only [bind, Except.bind]
    rw [show ({ mem.store (heap.page mem.allocated) (heap.stale mem.allocated) with
        allocated := mem.allocated + 1 } : Memory ptesize) =
          mem.addTable (heap.page mem.allocated) (heap.stale mem.allocated) from rfl, hderef]
    simp only [hr, hstore]
    exact hasserts _ _ hleaf hvalid hrwx
  · rw [if_neg hcap]
    exact ⟨rfl, by omega⟩

end AsyncKernel
