import AsyncKernel.Paging.Slots

/-!
# Walks of a virtual address

A lookup goes from the root table down the entries that are no leaves. The walk is a relation on an
arbitrary memory: it holds of the tables the lookup comes to, whether or not they form a tree. The
lookup is then read off the walk, entry by entry.

## Main definitions

* `Walk`: the tables that the lookup of an address comes to
* `Reads`: the entries that it reads there

## Main results

* `queryFrom_invalid`, `queryFrom_reserved`, `queryFrom_pointer`, `queryFrom_leaf`: one step of the
  lookup
* `queryFrom_cases`: what a lookup that returns can have read
* `Walk.queryFrom_eq`: a lookup continues from every table of its walk
* `Walk.unique`, `Walk.exists_parent`: the walk is a chain
-/

namespace AsyncKernel

variable {ptesize : ℕ}

/-- The lookup of `va` from `root` at level `top` comes to a table at a level. -/
inductive Walk (physToVirt : Usize → Usize) (mem : Memory ptesize) (va : Usize) (top : ℕ)
    (root : Usize) : ℕ → Usize → Prop
  | root : Walk physToVirt mem va top root top root
  | step {i : ℕ} {table : Usize} {e : Entry} (h : Walk physToVirt mem va top root (i + 1) table)
      (hslot : mem.slot table (getVpnNumber va (i + 1) ptesize) = some e)
      (hptr : e.isLeaf = false) (hnull : physToVirt e.address ≠ 0) :
      Walk physToVirt mem va top root i (physToVirt e.address)

/-- The lookup of `va` reads an entry at a level. -/
def Reads (physToVirt : Usize → Usize) (mem : Memory ptesize) (va : Usize) (top : ℕ)
    (root : Usize) (i : ℕ) (e : Entry) : Prop :=
  ∃ table, Walk physToVirt mem va top root i table ∧
    mem.slot table (getVpnNumber va i ptesize) = some e

namespace Walk

variable {physToVirt : Usize → Usize} {mem mem' : Memory ptesize} {va : Usize} {top i : ℕ}
  {root table : Usize}

theorem le_top (h : Walk physToVirt mem va top root i table) : i ≤ top := by
  induction h with
  | root => exact le_rfl
  | step _ _ _ _ ih => omega

/-- A table below the root has a table above it that points to it. -/
theorem exists_parent (h : Walk physToVirt mem va top root i table) (hi : i < top) :
    ∃ parent e, Walk physToVirt mem va top root (i + 1) parent ∧
      mem.slot parent (getVpnNumber va (i + 1) ptesize) = some e ∧ e.isLeaf = false ∧
      physToVirt e.address ≠ 0 ∧ table = physToVirt e.address := by
  cases h with
  | root => omega
  | step h hslot hptr hnull => exact ⟨_, _, h, hslot, hptr, hnull, rfl⟩

theorem eq_root (h : Walk physToVirt mem va top root top table) : table = root := by
  generalize hi : top = i at h
  cases h with
  | root => rfl
  | step h _ _ _ =>
    have := h.le_top
    omega

/-- A walk comes to one table at each level. -/
theorem unique {table' : Usize} (h : Walk physToVirt mem va top root i table)
    (h' : Walk physToVirt mem va top root i table') : table = table' := by
  induction h generalizing table' with
  | root => exact (eq_root h').symm
  | step h hslot _ _ ih =>
    -- The tables above are the same by induction, so their entries are, and what they point to.
    obtain ⟨parent, e, hparent, hslot', -, -, rfl⟩ := exists_parent h' (by
      have := h.le_top
      omega)
    obtain rfl := ih hparent
    obtain rfl : _ = e := Option.some.inj (hslot.symm.trans hslot')
    rfl

/-- A walk from the table that an entry of the root points to. -/
theorem cons {e : Entry} (hslot : mem.slot root (getVpnNumber va (top + 1) ptesize) = some e)
    (hptr : e.isLeaf = false) (hnull : physToVirt e.address ≠ 0)
    (h : Walk physToVirt mem va top (physToVirt e.address) i table) :
    Walk physToVirt mem va (top + 1) root i table := by
  induction h with
  | root => exact Walk.step Walk.root hslot hptr hnull
  | step _ hslot' hptr' hnull' ih => exact Walk.step ih hslot' hptr' hnull'

/-- A walk stays at the root or goes on from the table below it. -/
theorem head_cases (h : Walk physToVirt mem va (top + 1) root i table) :
    (i = top + 1 ∧ table = root) ∨ ∃ e,
      mem.slot root (getVpnNumber va (top + 1) ptesize) = some e ∧ e.isLeaf = false ∧
        physToVirt e.address ≠ 0 ∧ Walk physToVirt mem va top (physToVirt e.address) i table := by
  induction h with
  | root => exact Or.inl ⟨rfl, rfl⟩
  | @step i table e h hslot hptr hnull ih =>
    rcases ih with ⟨hi, rfl⟩ | ⟨e', hslot', hptr', hnull', hwalk⟩
    · obtain rfl : i = top := by omega
      exact Or.inr ⟨e, hslot, hptr, hnull, Walk.root⟩
    · exact Or.inr ⟨e', hslot', hptr', hnull', Walk.step hwalk hslot hptr hnull⟩

/-- A walk above the entry it ends in passes pointers only. -/
theorem isLeaf_eq_false (h : Walk physToVirt mem va top root i table) {j : ℕ} (hij : i < j)
    {e : Entry} (hr : Reads physToVirt mem va top root j e) : e.isLeaf = false := by
  induction h with
  | root =>
    obtain ⟨t, ht, -⟩ := hr
    have := ht.le_top
    omega
  | @step i table e' h hslot hptr hnull ih =>
    -- The last pointer of the walk, or one above it.
    rcases Nat.eq_or_lt_of_le hij with rfl | hlt
    · obtain ⟨t, ht, he⟩ := hr
      obtain rfl := ht.unique h
      obtain rfl : e = e' := Option.some.inj (he.symm.trans hslot)
      exact hptr
    · exact ih hlt

/-- A walk depends on the virtual page numbers of the levels it passes. -/
theorem congr {va' : Usize} (h : Walk physToVirt mem va top root i table)
    (hva : ∀ j ≤ top, getVpnNumber va j ptesize = getVpnNumber va' j ptesize) :
    Walk physToVirt mem va' top root i table := by
  induction h with
  | root => exact Walk.root
  | step h hslot hptr hnull ih => exact Walk.step ih (hva _ h.le_top ▸ hslot) hptr hnull

end Walk

/-- A walk ends in one entry: the last level it reads has one leaf. -/
theorem Reads.unique_leaf {physToVirt : Usize → Usize} {mem : Memory ptesize} {va : Usize}
    {top i j : ℕ} {root : Usize} {e e' : Entry} (h : Reads physToVirt mem va top root i e)
    (h' : Reads physToVirt mem va top root j e') (he : e.isLeaf = true) (he' : e'.isLeaf = true) :
    i = j ∧ e = e' := by
  obtain ⟨t, ht, hs⟩ := h
  obtain ⟨t', ht', hs'⟩ := h'
  -- The walk to the lower leaf would pass the upper one as a pointer.
  rcases lt_trichotomy i j with hlt | rfl | hlt
  · rw [ht.isLeaf_eq_false hlt ⟨t', ht', hs'⟩] at he'
    cases he'
  · obtain rfl := ht.unique ht'
    exact ⟨rfl, Option.some.inj (hs.symm.trans hs')⟩
  · rw [ht'.isLeaf_eq_false hlt ⟨t, ht, hs⟩] at he
    cases he

/-! ## A memory with one table -/

/-- Sv39 with the root table at `0x1000` and physical memory mapped one to one. -/
def identitySv39 : Sv39 := ⟨0x1000, id, id⟩

namespace Memory

/-- A memory that holds one table, with the same entry in every slot. -/
def uniform (root : Usize) (e : Entry) : Memory ptesize where
  tables := fun table => if table = root then some ⟨Vector.replicate (4096 / ptesize) e⟩ else none
  allocated := 0

theorem slot_uniform (root : Usize) (e : Entry) {index : ℕ} (h : index < 4096 / ptesize) :
    (uniform root e : Memory ptesize).slot root index = some e := by
  simp [slot, uniform, h]

theorem slot_uniform_eq_some {root table : Usize} {e e' : Entry} {index : ℕ}
    (h : (uniform root e : Memory ptesize).slot table index = some e') : e' = e := by
  by_cases ht : table = root
  · simp only [slot, uniform, ht, if_true, Option.bind_some] at h
    obtain ⟨hlt, he⟩ := Vector.getElem?_eq_some_iff.mp h
    rw [← he, Vector.getElem_replicate]
  · simp [slot, uniform, ht] at h

end Memory

/-- A walk in a memory with one table of leaves stays at the root. -/
theorem walk_uniform {physToVirt : Usize → Usize} {va : Usize} {top i : ℕ} {root table : Usize}
    {e : Entry} (he : e.isLeaf = true)
    (h : Walk physToVirt (Memory.uniform root e : Memory ptesize) va top root i table) :
    i = top ∧ table = root := by
  rcases Nat.eq_or_lt_of_le h.le_top with rfl | hlt
  · exact ⟨rfl, h.eq_root⟩
  · -- a table below the root would have a pointer above it, and there is only the leaf `e`
    obtain ⟨parent, p, -, hp, hptr, -⟩ := h.exists_parent hlt
    rw [Memory.slot_uniform_eq_some hp, he] at hptr
    cases hptr

/-! ## One step of the lookup -/

/-- The second comparison of the write-only test is never true: `WRITE` is not 1. -/
theorem and_write_ne_one (x : Usize) : x &&& EntryBits.write ≠ 1 := by
  intro h
  -- bit 0 of the masked word is clear, and bit 0 of 1 is set
  have := congrArg (fun y : Usize => y.getLsbD 0) h
  simp [EntryBits.write] at this

/-- The reserved-bits test reads bit 60 alone. -/
theorem reservedTest_iff (x : Usize) :
    (x >>> 54) &&& ((1 : Usize) <<< (7 - 1)) ≠ 0 ↔ x.getLsbD 60 = true := by
  have h := and_twoPow_eq_zero_iff_getLsbD (x >>> 54) (k := 6) (by norm_num)
  rw [BitVec.getLsbD_ushiftRight] at h
  rw [show (1 : Usize) <<< (7 - 1) = BitVec.ofNat 64 (2 ^ 6) by decide, ne_eq, h]
  simp

theorem getLsbD_zero_of_isLeaf_eq_false {e : Entry} (h : e.isLeaf = false) :
    e.value.getLsbD 0 = true := by
  have := (Entry.isLeaf_iff e).not.mp (by simp [h])
  simp only [leafBits, Bool.or_eq_true, Bool.not_eq_true', not_or, Bool.not_eq_false] at this
  exact this.1.2

theorem Entry.asTable_eq_ok {e : Entry} {physToVirt : Usize → Usize} (h : e.isLeaf = false)
    (hnull : physToVirt e.address ≠ 0) : e.asTable physToVirt = .ok (physToVirt e.address) := by
  have hv : e.value &&& 1 ≠ 0 := (and_valid_eq_zero_iff e.value).not.mpr (by
    rw [getLsbD_zero_of_isLeaf_eq_false h]
    simp)
  rw [Entry.asTable, assertThat_eq_ok hv]
  exact if_neg hnull

theorem Entry.tryAsTable_of_leaf {e : Entry} {physToVirt : Usize → Usize} (h : e.isLeaf = true) :
    e.tryAsTable physToVirt = .ok none := by
  rw [Entry.tryAsTable, if_pos h]

theorem Entry.tryAsTable_of_pointer {e : Entry} {physToVirt : Usize → Usize}
    (h : e.isLeaf = false) (hnull : physToVirt e.address ≠ 0) :
    e.tryAsTable physToVirt = .ok (some (physToVirt e.address)) := by
  rw [Entry.tryAsTable, if_neg (by simp [h]), Entry.asTable_eq_ok h hnull]
  rfl

/-- An entry that is not a leaf leads to its table. -/
theorem Entry.tryAsTable_eq_ok {e : Entry} {physToVirt : Usize → Usize} {o : Option Usize}
    (hleaf : e.isLeaf = false) (h : e.tryAsTable physToVirt = .ok o) :
    physToVirt e.address ≠ 0 ∧ o = some (physToVirt e.address) := by
  by_cases hnull : physToVirt e.address = 0
  · rw [Entry.tryAsTable, if_neg (by simp [hleaf]), Entry.asTable, if_pos hnull] at h
    obtain ⟨_, h, -⟩ := bind_eq_ok_iff.mp h
    obtain ⟨_, -, h⟩ := bind_eq_ok_iff.mp h
    cases h
  · rw [Entry.tryAsTable_of_pointer hleaf hnull] at h
    exact ⟨hnull, (Except.ok.inj h).symm⟩

section Step

variable {levels i : ℕ} {physToVirt : Usize → Usize} {mem : Memory ptesize} {va table : Usize}
  {pte : Entry}

theorem queryFrom_invalid (hslot : mem.slot table (getVpnNumber va i ptesize) = some pte)
    (hv : pte.value.getLsbD 0 = false) :
    queryFrom levels physToVirt mem va i table = .ok (.error .invalid) := by
  rw [queryFrom, Memory.readEntry_eq_ok hslot]
  simp only [bind, Except.bind]
  rw [if_pos ((and_valid_eq_zero_iff _).mpr hv)]
  rfl

/-- A valid entry, in an 8-byte scheme without bit 60, is followed or translated. -/
theorem queryFrom_valid (hslot : mem.slot table (getVpnNumber va i ptesize) = some pte)
    (hv : pte.value.getLsbD 0 = true) (hr : 4 < ptesize → pte.value.getLsbD 60 = false) :
    queryFrom levels physToVirt mem va i table = (do
      match ← pte.tryAsTable physToVirt with
      | some thisTable =>
        match i with
        | 0 => return .error .pageFault
        | i + 1 => queryFrom levels physToVirt mem va i thisTable
      | none =>
        assertThat (∀ j ∈ List.range i, getVpnNumber pte.address j ptesize = 0)
        return .ok (translatedAddress levels ptesize va pte i)) := by
  rw [queryFrom, Memory.readEntry_eq_ok hslot]
  simp only [bind, Except.bind]
  rw [if_neg ((and_valid_eq_zero_iff _).not.mpr (by simp [hv])),
    if_neg (fun h => and_write_ne_one _ h.2)]
  refine if_neg fun h => ?_
  have hclear := hr h.1
  rw [(reservedTest_iff _).mp h.2] at hclear
  cases hclear

end Step

section Query

variable {levels i : ℕ} {physToVirt : Usize → Usize} {mem : Memory 8} {va table : Usize}
  {pte : Entry}

theorem queryFrom_reserved (hslot : mem.slot table (getVpnNumber va i 8) = some pte)
    (hv : pte.value.getLsbD 0 = true) (hr : pte.value.getLsbD 60 = true) :
    queryFrom levels physToVirt mem va i table = .ok (.error .reservedBitSet) := by
  rw [queryFrom, Memory.readEntry_eq_ok hslot]
  simp only [bind, Except.bind]
  rw [if_neg ((and_valid_eq_zero_iff _).not.mpr (by simp [hv])),
    if_neg (fun h => and_write_ne_one _ h.2),
    if_pos ⟨by norm_num, (reservedTest_iff _).mpr hr⟩]
  rfl

/-- A valid entry without bit 60 is followed or translated. -/
theorem queryFrom_unreserved (hslot : mem.slot table (getVpnNumber va i 8) = some pte)
    (hv : pte.value.getLsbD 0 = true) (hr : pte.value.getLsbD 60 = false) :
    queryFrom levels physToVirt mem va i table = (do
      match ← pte.tryAsTable physToVirt with
      | some thisTable =>
        match i with
        | 0 => return .error .pageFault
        | i + 1 => queryFrom levels physToVirt mem va i thisTable
      | none =>
        assertThat (∀ j ∈ List.range i, getVpnNumber pte.address j 8 = 0)
        return .ok (translatedAddress levels 8 va pte i)) :=
  queryFrom_valid hslot hv fun _ => hr

theorem queryFrom_pointer (hslot : mem.slot table (getVpnNumber va (i + 1) 8) = some pte)
    (hptr : pte.isLeaf = false) (hnull : physToVirt pte.address ≠ 0)
    (hr : pte.value.getLsbD 60 = false) :
    queryFrom levels physToVirt mem va (i + 1) table =
      queryFrom levels physToVirt mem va i (physToVirt pte.address) := by
  rw [queryFrom_unreserved hslot (getLsbD_zero_of_isLeaf_eq_false hptr) hr,
    Entry.tryAsTable_of_pointer hptr hnull]
  rfl

theorem queryFrom_leaf (hslot : mem.slot table (getVpnNumber va i 8) = some pte)
    (hleaf : pte.isLeaf = true) (hv : pte.value.getLsbD 0 = true)
    (hr : pte.value.getLsbD 60 = false) :
    queryFrom levels physToVirt mem va i table = (do
      assertThat (∀ j ∈ List.range i, getVpnNumber pte.address j 8 = 0)
      return .ok (translatedAddress levels 8 va pte i)) := by
  rw [queryFrom_unreserved hslot hv hr, Entry.tryAsTable_of_leaf hleaf]
  rfl

/-- **One step of a lookup that returns**: the entry it reads is invalid, has bit 60 set, points to
a table, or is a leaf that passes the alignment assertion. -/
theorem queryFrom_cases {r : Except PageLookupError Usize}
    (h : queryFrom levels physToVirt mem va i table = .ok r) :
    ∃ pte, mem.slot table (getVpnNumber va i 8) = some pte ∧
      ((pte.value.getLsbD 0 = false ∧ r = .error .invalid) ∨
        (pte.value.getLsbD 0 = true ∧ pte.value.getLsbD 60 = true ∧ r = .error .reservedBitSet) ∨
        (pte.isLeaf = false ∧ pte.value.getLsbD 60 = false ∧ physToVirt pte.address ≠ 0 ∧
          ((i = 0 ∧ r = .error .pageFault) ∨ ∃ j, i = j + 1 ∧
            queryFrom levels physToVirt mem va j (physToVirt pte.address) = .ok r)) ∨
        (pte.isLeaf = true ∧ pte.value.getLsbD 0 = true ∧ pte.value.getLsbD 60 = false ∧
          (∀ j < i, getVpnNumber pte.address j 8 = 0) ∧
          r = .ok (translatedAddress levels 8 va pte i))) := by
  cases hread : mem.readEntry table (getVpnNumber va i 8) with
  | error f =>
    rw [queryFrom, hread] at h
    cases h
  | ok pte =>
    have hslot := Memory.readEntry_eq_ok_iff.mp hread
    refine ⟨pte, hslot, ?_⟩
    -- The four outcomes in the order of the tests of the source.
    cases hv : pte.value.getLsbD 0 with
    | false =>
      rw [queryFrom_invalid hslot hv] at h
      exact Or.inl ⟨rfl, (Except.ok.inj h).symm⟩
    | true =>
      cases hr : pte.value.getLsbD 60 with
      | true =>
        rw [queryFrom_reserved hslot hv hr] at h
        exact Or.inr (Or.inl ⟨rfl, rfl, (Except.ok.inj h).symm⟩)
      | false =>
        cases hleaf : pte.isLeaf with
        | true =>
          rw [queryFrom_leaf hslot hleaf hv hr] at h
          obtain ⟨_, hassert, h⟩ := bind_eq_ok_iff.mp h
          refine Or.inr (Or.inr (Or.inr ⟨rfl, rfl, rfl, fun j hj => ?_, (Except.ok.inj h).symm⟩))
          by_contra hne
          rw [assertThat_eq_error fun hall => hne (hall j (List.mem_range.mpr hj))] at hassert
          cases hassert
        | false =>
          have hnull : physToVirt pte.address ≠ 0 := by
            rw [queryFrom_unreserved hslot hv hr] at h
            obtain ⟨o, htry, -⟩ := bind_eq_ok_iff.mp h
            exact (Entry.tryAsTable_eq_ok hleaf htry).1
          refine Or.inr (Or.inr (Or.inl ⟨rfl, rfl, hnull, ?_⟩))
          cases i with
          | zero =>
            rw [queryFrom_unreserved hslot hv hr, Entry.tryAsTable_of_pointer hleaf hnull] at h
            exact Or.inl ⟨rfl, (Except.ok.inj h).symm⟩
          | succ j =>
            rw [queryFrom_pointer hslot hleaf hnull hr] at h
            exact Or.inr ⟨j, rfl, h⟩

/-- **A lookup continues from every table of its walk**, when no pointer above has bit 60 set. -/
theorem Walk.queryFrom_eq {top : ℕ} {root : Usize} (h : Walk physToVirt mem va top root i table)
    (hr : ∀ j e, i < j → Reads physToVirt mem va top root j e → e.value.getLsbD 60 = false) :
    queryFrom levels physToVirt mem va top root = queryFrom levels physToVirt mem va i table := by
  induction h with
  | root => rfl
  | @step i table e h hslot hptr hnull ih =>
    rw [ih fun j e' hj => hr j e' (by omega)]
    exact queryFrom_pointer hslot hptr hnull (hr (i + 1) e (by omega) ⟨table, h, hslot⟩)

/-- A lookup continues from every table of its walk, or has reported a reserved bit before. -/
theorem Walk.queryFrom_eq_or {top : ℕ} {root : Usize}
    (h : Walk physToVirt mem va top root i table) :
    queryFrom levels physToVirt mem va top root = queryFrom levels physToVirt mem va i table ∨
      queryFrom levels physToVirt mem va top root = .ok (.error .reservedBitSet) := by
  induction h with
  | root => exact Or.inl rfl
  | @step i table e h hslot hptr hnull ih =>
    rcases ih with ih | ih
    · rw [ih]
      cases h60 : e.value.getLsbD 60 with
      | false => exact Or.inl (queryFrom_pointer hslot hptr hnull h60)
      | true => exact Or.inr (queryFrom_reserved hslot (getLsbD_zero_of_isLeaf_eq_false hptr) h60)
    · exact Or.inr ih

end Query

end AsyncKernel
