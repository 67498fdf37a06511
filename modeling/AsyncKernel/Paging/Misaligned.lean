import AsyncKernel.Paging.Lookup

/-!
# When a lookup does not return

The comment at step 6 quotes the architecture, which raises a page fault for a misaligned superpage;
the code under it asserts that there is none. At level 0 the code takes a reference to the table of a
pointer before it reports a page fault, and unwraps it. And where it leaves the walk of the
architecture it may come to an address that holds no table, or stop before the superpage.

## Main definitions

* `GenericPaging.Admits`: the lookup comes to an entry, past no bit 60
* `ValidPointers`: the pointers on the walk of the architecture lead to tables
* `ReportsMisaligned`: the lookup returns, and reports a misaligned superpage

## Main results

* `query_outcome`: the ways in which a lookup fails
* `reportsMisaligned_iff`: when the lookup reports a misaligned superpage
-/

namespace AsyncKernel

open Bits

variable {levels : ℕ}

/-- The lookup of `va` comes to a valid entry, and neither it nor an entry above has bit 60 set. -/
structure GenericPaging.Admits (paging : GenericPaging levels 8) (mem : Memory 8) (va : Usize)
    (i : ℕ) (e : Entry) : Prop where
  reads : paging.ReadsAt mem va i e
  valid : e.value.getLsbD 0 = true
  unreserved : ∀ j e', i ≤ j → paging.ReadsAt mem va j e' → e'.value.getLsbD 60 = false

/-- The pointers above level 0 on the walk of the architecture lead to tables. -/
structure ValidPointers (paging : GenericPaging levels 8) (mem : Memory 8) (va : Usize) : Prop where
  root : (mem.tables paging.table).isSome
  pointer : ∀ i e, paging.Reaches mem va (i + 1) e → e.IsPointer →
    paging.physToVirt e.tableAddress ≠ 0 ∧ (mem.tables (paging.physToVirt e.tableAddress)).isSome

namespace Entry

/-- A readable or executable leaf of level `i` whose page number is not that of a page of that
level. -/
def Misaligned (e : Entry) (i : ℕ) : Prop :=
  (e.value.getLsbD 1 = true ∨ e.value.getLsbD 3 = true) ∧ ¬ e.SuperpageAligned i

/-- A pointer to a table at the null address. -/
def NullPointer (e : Entry) (physToVirt : Usize → Usize) : Prop :=
  e.isLeaf = false ∧ physToVirt e.address = 0

end Entry

/-- The walk of the architecture ends in a misaligned superpage: valid, and past step 3. -/
structure GenericPaging.EndsMisaligned (paging : GenericPaging levels 8) (mem : Memory 8)
    (va : Usize) (i : ℕ) (e : Entry) : Prop where
  reaches : paging.Reaches mem va i e
  valid : e.value.getLsbD 0 = true
  unreserved : ¬ e.ReservedEncoding
  misaligned : e.Misaligned i

/-- The lookup of `va` returns, and reports a misaligned superpage as a page fault. -/
structure ReportsMisaligned (paging : GenericPaging levels 8) (mem : Memory 8)
    (va : Usize) : Prop where
  returns : ∃ r, paging.query mem va = .ok r
  pageFault : ∀ i e, paging.EndsMisaligned mem va i e →
    paging.query mem va = .ok (.error .pageFault)

section Lookup

variable {paging : GenericPaging levels 8} {mem : Memory 8} {va table : Usize} {i : ℕ} {e : Entry}

theorem exists_slot (htable : (mem.tables table).isSome) (a : Usize) (i : ℕ) :
    ∃ e, mem.slot table (getVpnNumber a i 8) = some e := by
  obtain ⟨t, ht⟩ := Option.isSome_iff_exists.mp htable
  have hlt : getVpnNumber a i 8 < 4096 / 8 := getVpnNumber_lt a i
  exact ⟨t.entries[getVpnNumber a i 8], by simp [Memory.slot, ht, hlt]⟩

/-- A valid leaf with an address that is not aligned is readable or executable. -/
theorem Entry.misaligned_of_not_superpageAligned (hleaf : e.isLeaf = true)
    (hvalid : e.value.getLsbD 0 = true) (h : ¬ e.SuperpageAligned i) : e.Misaligned i := by
  refine ⟨?_, h⟩
  rcases (Entry.isLeaf_iff e).mp hleaf with hbits | hlt
  · rw [leafBits, hvalid] at hbits
    simpa only [Bool.or_eq_true, Bool.not_true, Bool.or_false] using hbits
  · exact absurd (Entry.superpageAligned_of_lt hlt i) h

/-- A pointer to the null address is unwrapped, at level 0 too. -/
theorem queryFrom_nullPointer (hslot : mem.slot table (getVpnNumber va i 8) = some e)
    (hvalid : e.value.getLsbD 0 = true) (h60 : e.value.getLsbD 60 = false)
    (he : e.NullPointer paging.physToVirt) :
    queryFrom levels paging.physToVirt mem va i table = .error .unwrapNone := by
  have hbit : e.value &&& 1 ≠ 0 := (and_valid_eq_zero_iff e.value).not.mpr (by simp [hvalid])
  rw [queryFrom_unreserved hslot hvalid h60, Entry.tryAsTable, if_neg (by simp [he.1]),
    Entry.asTable, assertThat_eq_ok hbit, ok_bind, if_pos he.2]
  rfl

namespace GenericPaging.Admits

/-- The lookup comes to every entry that the walk admits. -/
theorem query_eq (h : paging.Admits mem va i e) : ∃ table,
    mem.slot table (getVpnNumber va i 8) = some e ∧
      paging.query mem va = queryFrom levels paging.physToVirt mem va i table := by
  obtain ⟨table, hwalk, hslot⟩ := h.reads
  refine ⟨table, hslot, hwalk.queryFrom_eq fun j e' hj hread => ?_⟩
  exact h.unreserved j e' hj.le hread

theorem not_reserved (h : paging.Admits mem va i e) : e.value.getLsbD 60 = false :=
  h.unreserved i e le_rfl h.reads

/-- A misaligned superpage fails the assertion. -/
theorem query_eq_assertion (h : paging.Admits mem va i e) (he : e.Misaligned i) :
    paging.query mem va = .error .assertion := by
  obtain ⟨table, hslot, hquery⟩ := h.query_eq
  have hleaf : e.isLeaf = true := by
    refine Entry.isLeaf_of_leafBits ?_
    rcases he.1 with hbit | hbit <;> simp [leafBits, hbit]
  rw [hquery, queryFrom_leaf hslot hleaf h.valid h.not_reserved, assertThat_eq_error]
  · rfl
  · intro hall
    exact he.2 fun j hj => hall j (List.mem_range.mpr hj)

theorem query_eq_unwrapNone (h : paging.Admits mem va i e)
    (he : e.NullPointer paging.physToVirt) : paging.query mem va = .error .unwrapNone := by
  obtain ⟨table, hslot, hquery⟩ := h.query_eq
  rw [hquery, queryFrom_nullPointer hslot h.valid h.not_reserved he]

end GenericPaging.Admits

/-- The lookup comes to a table, past no bit 60. -/
structure GenericPaging.ComesTo (paging : GenericPaging levels 8) (mem : Memory 8) (va : Usize)
    (i : ℕ) (table : Usize) : Prop where
  walk : Walk paging.physToVirt mem va (levels - 1) paging.table i table
  unreserved : ∀ j e, i < j → paging.ReadsAt mem va j e → e.value.getLsbD 60 = false

theorem GenericPaging.ComesTo.query_eq (h : paging.ComesTo mem va i table) :
    paging.query mem va = queryFrom levels paging.physToVirt mem va i table :=
  h.walk.queryFrom_eq fun j e' hj hread => h.unreserved j e' hj hread

theorem GenericPaging.ComesTo.admits (h : paging.ComesTo mem va i table)
    (hslot : mem.slot table (getVpnNumber va i 8) = some e) (hvalid : e.value.getLsbD 0 = true)
    (h60 : e.value.getLsbD 60 = false) : paging.Admits mem va i e := by
  refine ⟨⟨table, h.walk, hslot⟩, hvalid, fun j e' hj hread => ?_⟩
  rcases Nat.eq_or_lt_of_le hj with rfl | hlt
  · obtain ⟨table', hwalk', hslot'⟩ := hread
    obtain rfl := h.walk.unique hwalk'
    obtain rfl : e = e' := Option.some.inj (hslot.symm.trans hslot')
    exact h60
  · exact h.unreserved j e' hlt hread

/-- **How the lookup of `va` fails**: at a misaligned superpage, at a pointer to the null address, or
where there is no table. -/
inductive FailsAt (paging : GenericPaging levels 8) (mem : Memory 8) (va : Usize) : Fault → Prop
  | misaligned {i : ℕ} {e : Entry} (h : paging.Admits mem va i e) (he : e.Misaligned i) :
      FailsAt paging mem va .assertion
  | nullPointer {i : ℕ} {e : Entry} (h : paging.Admits mem va i e)
      (he : e.NullPointer paging.physToVirt) : FailsAt paging mem va .unwrapNone
  | dangling {i : ℕ} {table : Usize} (h : paging.ComesTo mem va i table)
      (htable : mem.tables table = none) : FailsAt paging mem va .danglingTable

theorem FailsAt.query_eq {f : Fault} (h : FailsAt paging mem va f) :
    paging.query mem va = .error f := by
  cases h with
  | misaligned h he => exact h.query_eq_assertion he
  | nullPointer h he => exact h.query_eq_unwrapNone he
  | @dangling i table h htable =>
    rw [h.query_eq, queryFrom, Memory.readEntry, Memory.deref, htable]
    rfl

/-- The lookup comes to a pointer at level 0. -/
def GenericPaging.EndsInPointer (paging : GenericPaging levels 8) (mem : Memory 8)
    (va : Usize) : Prop :=
  ∃ e, paging.Admits mem va 0 e ∧ e.isLeaf = false

/-- What a lookup that returns has come to: a page fault is reported for a pointer at level 0. -/
def Reported (paging : GenericPaging levels 8) (mem : Memory 8) (va : Usize)
    (r : Except PageLookupError Usize) : Prop :=
  r = .error .pageFault → paging.EndsInPointer mem va

/-- The lookup from a table on, when the lookup below a pointer is known. -/
theorem queryFrom_outcome_of_below (hcomes : paging.ComesTo mem va i table)
    (hbelow : ∀ i' table', i = i' + 1 → paging.ComesTo mem va i' table' →
      Outcome (FailsAt paging mem va) (Reported paging mem va)
        (queryFrom levels paging.physToVirt mem va i' table')) :
    Outcome (FailsAt paging mem va) (Reported paging mem va)
      (queryFrom levels paging.physToVirt mem va i table) := by
  cases htable : mem.tables table with
  | none =>
    have hquery := (FailsAt.dangling hcomes htable).query_eq
    rw [← hcomes.query_eq, hquery]
    exact FailsAt.dangling hcomes htable
  | some t =>
    obtain ⟨e, hslot⟩ := exists_slot (by rw [htable]; rfl) va i
    cases hvalid : e.value.getLsbD 0 with
    | false => exact Outcome.of_eq_ok (queryFrom_invalid hslot hvalid) nofun
    | true =>
      cases h60 : e.value.getLsbD 60 with
      | true => exact Outcome.of_eq_ok (queryFrom_reserved hslot hvalid h60) nofun
      | false =>
        have hadmits : paging.Admits mem va i e := hcomes.admits hslot hvalid h60
        cases hleaf : e.isLeaf with
        | true =>
          by_cases halign : e.SuperpageAligned i
          · rw [queryFrom_leaf hslot hleaf hvalid h60,
              assertThat_eq_ok fun j hj => halign j (List.mem_range.mp hj)]
            exact nofun
          · have hmisaligned := Entry.misaligned_of_not_superpageAligned hleaf hvalid halign
            rw [queryFrom_leaf hslot hleaf hvalid h60,
              assertThat_eq_error fun h => halign fun j hj => h j (List.mem_range.mpr hj)]
            exact FailsAt.misaligned hadmits hmisaligned
        | false =>
          by_cases hnull : paging.physToVirt e.address = 0
          · -- the reference to the table comes before the test of the level
            rw [queryFrom_nullPointer hslot hvalid h60 ⟨hleaf, hnull⟩]
            exact FailsAt.nullPointer hadmits ⟨hleaf, hnull⟩
          · cases i with
            | zero =>
              rw [queryFrom_unreserved hslot hvalid h60, Entry.tryAsTable_of_pointer hleaf hnull]
              exact fun _ => ⟨e, hadmits, hleaf⟩
            | succ i =>
              rw [queryFrom_pointer hslot hleaf hnull h60]
              exact hbelow i _ rfl ⟨Walk.step hcomes.walk hslot hleaf hnull,
                fun j e' hj hread => hadmits.unreserved j e' hj hread⟩

/-- The lookup from a table on. -/
theorem queryFrom_outcome (hcomes : paging.ComesTo mem va i table) :
    Outcome (FailsAt paging mem va) (Reported paging mem va)
      (queryFrom levels paging.physToVirt mem va i table) := by
  -- On the level: an entry ends the lookup or points to a table of the level below.
  induction i generalizing table with
  | zero => exact queryFrom_outcome_of_below hcomes nofun
  | succ i ih =>
    refine queryFrom_outcome_of_below hcomes fun i' table' hi hcomes' => ?_
    obtain rfl : i = i' := Nat.succ.inj hi
    exact ih hcomes'

/-- **The ways in which a lookup fails**, and what it reports a page fault for. -/
theorem query_outcome : Outcome (FailsAt paging mem va) (Reported paging mem va)
    (paging.query mem va) := by
  refine queryFrom_outcome ⟨Walk.root, fun j e' hj hread => ?_⟩
  obtain ⟨table, hwalk, -⟩ := hread
  have hle := hwalk.le_top
  omega

/-- The lookup that comes to a pointer at level 0 reports a page fault. -/
theorem query_eq_pageFault (h : paging.EndsInPointer mem va)
    (hreturns : ∀ f, ¬ FailsAt paging mem va f) :
    paging.query mem va = .ok (.error .pageFault) := by
  obtain ⟨e, hadmits, hleaf⟩ := h
  obtain ⟨table, hslot, hquery⟩ := hadmits.query_eq
  have hnull : paging.physToVirt e.address ≠ 0 := fun hnull =>
    hreturns _ (FailsAt.nullPointer hadmits ⟨hleaf, hnull⟩)
  rw [hquery, queryFrom_unreserved hslot hadmits.valid hadmits.not_reserved,
    Entry.tryAsTable_of_pointer hleaf hnull]
  rfl

/-- **When the lookup reports a misaligned superpage**: it fails nowhere, and the walk of the
architecture ends in a misaligned superpage only where the lookup, which has left that walk, ends in a
pointer at level 0. -/
theorem reportsMisaligned_iff (paging : GenericPaging levels 8) (mem : Memory 8) (va : Usize) :
    ReportsMisaligned paging mem va ↔ (∀ f, ¬ FailsAt paging mem va f) ∧
      ∀ i e, paging.EndsMisaligned mem va i e → paging.EndsInPointer mem va := by
  constructor
  · rintro ⟨⟨r, hr⟩, hpageFault⟩
    refine ⟨fun f hf => ?_, fun i e hends => ?_⟩
    · rw [hf.query_eq] at hr
      cases hr
    · have houtcome : Outcome (FailsAt paging mem va) (Reported paging mem va)
          (paging.query mem va) := query_outcome
      rw [hpageFault i e hends] at houtcome
      exact houtcome rfl
  · rintro ⟨hreturns, hends⟩
    have houtcome : Outcome (FailsAt paging mem va) (Reported paging mem va)
        (paging.query mem va) := query_outcome
    obtain ⟨r, hr, -⟩ := houtcome.exists_ok fun f hf => absurd hf (hreturns f)
    exact ⟨⟨r, hr⟩, fun i e h => query_eq_pageFault (hends i e h) hreturns⟩

/-- **Behind pointers that it follows the lookup comes to the superpage** that the walk of the
architecture ends in, and stops the kernel. -/
theorem GenericPaging.EndsMisaligned.query_eq (h : paging.EndsMisaligned mem va i e)
    (hfollowed : ∀ j e', i < j → paging.Reaches mem va j e' → e'.Followed paging.physToVirt) :
    paging.query mem va = .error .assertion := by
  obtain ⟨⟨table, hwalk, hslot⟩, habove⟩ := h.reaches.readsAt hfollowed
  have h60 : e.value.getLsbD 60 = false :=
    Entry.not_reserved_60 fun hres => h.unreserved (Or.inr ⟨h.valid, hres⟩)
  exact (GenericPaging.ComesTo.admits ⟨hwalk, habove⟩ hslot h.valid h60).query_eq_assertion
    h.misaligned

end Lookup

/-! ## Tables of one entry -/

theorem validPointers_uniform {e : Entry} (he : ¬ e.IsPointer) (va : Usize) :
    ValidPointers identitySv39 (Memory.uniform 0x1000 e) va where
  root := by simp [Memory.uniform, identitySv39]
  pointer := by
    rintro i e' ⟨table, -, hslot⟩ hptr
    obtain rfl := Memory.slot_uniform_eq_some hslot
    exact absurd hptr he

/-- A gigapage at physical address `0x1000` stops the kernel. -/
theorem not_reportsMisaligned_gigapage :
    identitySv39.query (Memory.uniform 0x1000 ⟨0x40f⟩) 0 = .error .assertion ∧
      ¬ ∀ (levels : ℕ) (paging : GenericPaging levels 8) (mem : Memory 8) (va : Usize),
        3 ≤ levels → levels ≤ 5 → ValidPointers paging mem va → ReportsMisaligned paging mem va := by
  have hmisaligned : (⟨0x40f⟩ : Entry).Misaligned 2 := by
    refine ⟨by decide, ?_⟩
    unfold Entry.SuperpageAligned
    decide
  have hunreserved : ¬ (⟨0x40f⟩ : Entry).ReservedEncoding := by
    rintro (⟨-, hread, -⟩ | ⟨-, hres⟩)
    · cases hread
    · exact Entry.not_reservedBitSet_of_lt (by decide) hres
  have hends : identitySv39.EndsMisaligned (Memory.uniform 0x1000 ⟨0x40f⟩) 0 2 ⟨0x40f⟩ :=
    ⟨reaches_uniform _ _, by decide, hunreserved, hmisaligned⟩
  have hquery := hends.query_eq followed_above_root
  have hpointers : ValidPointers identitySv39 (Memory.uniform 0x1000 ⟨0x40f⟩) 0 :=
    validPointers_uniform (fun hptr => by cases hptr.read) 0
  refine ⟨hquery, fun hall => ?_⟩
  obtain ⟨⟨r, hr⟩, -⟩ := hall 3 identitySv39 _ 0 (by norm_num) (by norm_num) hpointers
  rw [hquery] at hr
  cases hr

end AsyncKernel
