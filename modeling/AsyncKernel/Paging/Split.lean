import AsyncKernel.Paging.Alignment

/-!
# A split keeps the translation

`Entry::split` on one entry of arbitrary page tables, not only of those that `map` builds. The
lookups that come to the entry go one level deeper and end in a piece, which is the entry moved by
the distance of the piece; all others read what they read before.

## Main definitions

* `splitEntry`: `split` on an entry of a table
* `Entry.Splittable`: an invalid entry, or an aligned leaf without software bits
* `GenericPaging.HoldsAt`: an entry of a table at one level of the tree

## Main results

* `queryFrom_congr_slot`: a lookup depends on the slots that it reads
* `leafResult_cut`: the result of a piece is the result of the leaf
* `splitEntry_query`: a split keeps the result of every lookup, and the flags
-/

namespace AsyncKernel

variable {levels : ℕ}

/-- `entry.split` on an entry of a table at level `i + 1`, with the size of a page of level `i`. -/
def splitEntry (paging : GenericPaging levels 8) (heap : Allocator 8) (table : Usize) (index i : ℕ)
    (mem : Memory 8) : Except Fault (Memory 8) := do
  let entry ← mem.readEntry table index
  let (entry, mem) ← entry.split (getVpnSize i 8) paging.virtToPhys heap mem
  mem.writeEntry table index entry

/-- The bits from 54 on are clear, and the entry is invalid, or a valid leaf of level `i` with `READ`
or `EXECUTE`, without software bits, whose address is a multiple of the size of its page. -/
structure Entry.Splittable (e : Entry) (i : ℕ) : Prop where
  lt : e.value.toNat < 2 ^ 54
  kind : e.value.getLsbD 0 = false ∨
    (e.value.getLsbD 1 = true ∨ e.value.getLsbD 3 = true) ∧ e.NoSoftwareBits ∧
      (getVpnSize i 8).toNat ∣ e.address.toNat

/-- The tree has an entry in a table, at level `i`; every walk that comes to the table comes to it at
that level. -/
structure GenericPaging.HoldsAt (paging : GenericPaging levels 8) (mem : Memory 8) (table : Usize)
    (index i : ℕ) (e : Entry) : Prop where
  reached : ∃ va, Walk paging.physToVirt mem va (levels - 1) paging.table i table ∧
    getVpnNumber va i 8 = index
  slot : mem.slot table index = some e
  level : ∀ va j, Walk paging.physToVirt mem va (levels - 1) paging.table j table → j = i

/-! ## Lookups that read the same -/

section Congr

variable {physToVirt : Usize → Usize} {mem mem' : Memory 8} {va table : Usize} {i : ℕ} {e : Entry}

/-- A lookup depends on the slot that it reads, and on the lookup below it. -/
theorem queryFrom_congr_slot
    (hslot : mem'.slot table (getVpnNumber va i 8) = mem.slot table (getVpnNumber va i 8))
    (hbelow : ∀ j e, i = j + 1 → mem.slot table (getVpnNumber va i 8) = some e →
      e.isLeaf = false → physToVirt e.address ≠ 0 →
        queryFrom levels physToVirt mem' va j (physToVirt e.address) =
          queryFrom levels physToVirt mem va j (physToVirt e.address)) :
    queryFrom levels physToVirt mem' va i table = queryFrom levels physToVirt mem va i table := by
  have hread := Memory.readEntry_congr (getVpnNumber_lt va i) hslot
  cases hentry : mem.readEntry table (getVpnNumber va i 8) with
  | error f =>
    rw [hentry] at hread
    rw [queryFrom, queryFrom, hread, hentry]
    rfl
  | ok pte =>
    have hpte := Memory.readEntry_eq_ok_iff.mp hentry
    have hpte' := hslot.trans hpte
    -- The tests of the source have the same outcome, up to the call for the table below.
    cases hv : pte.value.getLsbD 0 with
    | false => rw [queryFrom_invalid hpte' hv, queryFrom_invalid hpte hv]
    | true =>
      cases h60 : pte.value.getLsbD 60 with
      | true => rw [queryFrom_reserved hpte' hv h60, queryFrom_reserved hpte hv h60]
      | false =>
        rw [queryFrom_unreserved hpte' hv h60, queryFrom_unreserved hpte hv h60]
        cases htry : pte.tryAsTable physToVirt with
        | error f => rfl
        | ok next =>
          cases i with
          | zero => rfl
          | succ j =>
            cases hleaf : pte.isLeaf with
            | true =>
              obtain rfl : none = next :=
                Except.ok.inj ((Entry.tryAsTable_of_leaf hleaf).symm.trans htry)
              rfl
            | false =>
              obtain ⟨hnull, rfl⟩ := Entry.tryAsTable_eq_ok hleaf htry
              exact hbelow j pte rfl hpte hleaf hnull

end Congr

/-! ## The result of a piece -/

section Piece

variable {e : Entry} {i : ℕ}

theorem Entry.Splittable.leafBits (h : e.Splittable i) : leafBits e.value = true := by
  rcases h.kind with hv | ⟨hbit | hbit, -, -⟩
  · rw [AsyncKernel.leafBits, hv]
    simp
  · simp [AsyncKernel.leafBits, hbit]
  · simp [AsyncKernel.leafBits, hbit]

theorem Entry.Splittable.bound (h : e.Splittable (i + 1)) (hi : i ≤ 3) :
    e.value.toNat + pageSize (i + 1) / 4 ≤ 2 ^ 55 := by
  have hlt := h.lt
  have hsize : pageSize (i + 1) ≤ pageSize 4 := pageSize_le (by omega)
  rw [show pageSize 4 = 2 ^ 48 from rfl] at hsize
  omega

/-- The piece of a leaf at an address has the result of the leaf. -/
theorem leafResult_cut (h : e.Splittable (i + 1)) (hl : levels ≤ 5) (hi : i + 1 < levels)
    (va : Usize) :
    leafResult levels va (i, e.cut (i + 1) i va.toNat) = leafResult levels va (i + 1, e) := by
  have hbound := h.bound (by omega)
  rw [leafResult_eq hl (by omega), leafResult_eq hl hi, Entry.getLsbD_cut hbound _ (by norm_num),
    Entry.target_cut (by omega) hbound]
  rcases h.kind with hv | ⟨-, hplain, hdvd⟩
  · rw [if_pos hv, if_pos hv]
  · -- an aligned leaf has aligned pieces
    have halign := (hplain.dvd_address_iff (by omega)).mp hdvd
    have hpiece : 2 ^ (9 * i) ∣ (e.cut (i + 1) i va.toNat).ppn :=
      (Entry.dvd_ppn_cut hbound _).mpr ((Nat.pow_dvd_pow 2 (by omega)).trans halign)
    rw [if_pos halign, if_pos hpiece]

end Piece

section Split

variable {paging : GenericPaging levels 8} {heap : Allocator 8} {mem mem' : Memory 8}
  {table : Usize} {index i : ℕ} {e : Entry} {t : Table 8}

/-- The lookup that comes to the split entry ends in a piece of it. -/
theorem queryFrom_splitMemory_self (hfresh : FreshPages paging heap mem.allocated)
    (hcap : mem.allocated < heap.capacity) (hl : levels ≤ 5) (hi : i + 1 < levels)
    (hslot : mem.slot table index = some e) (he : e.Splittable (i + 1))
    (hne : table ≠ heap.page mem.allocated)
    (ht : ∀ w < 512, t.entries[w]? = some (piece e (getVpnSize i 8) w)) {va : Usize}
    (hva : getVpnNumber va (i + 1) 8 = index) :
    queryFrom levels paging.physToVirt (splitMemory paging heap mem t table index) va (i + 1) table =
      queryFrom levels paging.physToVirt mem va (i + 1) table := by
  obtain ⟨hptr, haddr, h60⟩ := hfresh.pointer_facts le_rfl hcap
  have hnull := hfresh.ne_null mem.allocated le_rfl hcap
  rw [← haddr] at hnull
  have hlt := he.lt
  have hbound := he.bound (by omega)
  -- before the split: the entry itself
  have he60 : e.value.getLsbD 60 = false := getLsbD_eq_false_of_lt (by omega)
  rw [← hva] at hslot
  rw [queryFrom_eq_leafResult hslot he.leafBits he60]
  -- after the split: the pointer, and the piece in the new table
  have hpointer : (splitMemory paging heap mem t table index).slot table
      (getVpnNumber va (i + 1) 8) =
        some (tablePointer paging.virtToPhys (heap.page mem.allocated)) := by
    rw [← hva, slot_splitMemory t hslot hne, if_pos ⟨rfl, rfl⟩]
  have hvpn := getVpnNumber_eight (show i ≤ 6 by omega) va
  have hpiece : (splitMemory paging heap mem t table index).slot (heap.page mem.allocated)
      (getVpnNumber va i 8) = some (e.cut (i + 1) i va.toNat) := by
    rw [← hva, slot_splitMemory t hslot hne, if_neg (fun h => hne h.1.symm), if_pos rfl,
      ht _ (getVpnNumber_lt va i), hvpn, piece_vpn (by omega)]
  have hbits : leafBits (e.cut (i + 1) i va.toNat).value = true := by
    rw [← piece_vpn (by omega), leafBits_congr (piece_mod (by omega) e _), he.leafBits]
  have hpiece60 : (e.cut (i + 1) i va.toNat).value.getLsbD 60 = false := by
    obtain ⟨hval, hfits⟩ := toNat_piece (by omega) hbound (vpn_lt i va.toNat)
    rw [piece_vpn (by omega)] at hval
    exact getLsbD_eq_false_of_lt (by omega)
  rw [queryFrom_pointer hpointer hptr hnull h60, haddr,
    queryFrom_eq_leafResult hpiece hbits hpiece60, leafResult_cut he hl hi]

/-- **The lookups after a split**, from every table that a walk came to before. -/
theorem queryFrom_splitMemory (hfresh : FreshPages paging heap mem.allocated)
    (hcap : mem.allocated < heap.capacity) (hl : levels ≤ 5) (hi : i + 1 < levels)
    (hholds : paging.HoldsAt mem table index (i + 1) e) (he : e.Splittable (i + 1))
    (hunused : ∀ va j, ¬ Walk paging.physToVirt mem va (levels - 1) paging.table j
      (heap.page mem.allocated))
    (ht : ∀ w < 512, t.entries[w]? = some (piece e (getVpnSize i 8) w)) {va : Usize} {j : ℕ}
    {table' : Usize} (hwalk : Walk paging.physToVirt mem va (levels - 1) paging.table j table') :
    queryFrom levels paging.physToVirt (splitMemory paging heap mem t table index) va j table' =
      queryFrom levels paging.physToVirt mem va j table' := by
  have hne : table ≠ heap.page mem.allocated := by
    obtain ⟨va₀, hwalk₀, -⟩ := hholds.reached
    rintro rfl
    exact hunused va₀ _ hwalk₀
  -- On the level: the split entry, or one that the split leaves as it is.
  induction j generalizing table' with
  | zero =>
    refine queryFrom_congr_slot ?_ nofun
    rw [slot_splitMemory t hholds.slot hne, if_neg, if_neg]
    · rintro rfl
      exact hunused va 0 hwalk
    · rintro ⟨rfl, -⟩
      cases hholds.level va 0 hwalk
  | succ j ih =>
    by_cases hplace : table' = table ∧ getVpnNumber va (j + 1) 8 = index
    · obtain ⟨rfl, hva⟩ := hplace
      obtain rfl : j = i := Nat.succ.inj (hholds.level va _ hwalk)
      exact queryFrom_splitMemory_self hfresh hcap hl hi hholds.slot he hne ht hva
    · refine queryFrom_congr_slot ?_ fun j' pte hj hpte hleaf hnull => ?_
      · rw [slot_splitMemory t hholds.slot hne, if_neg hplace, if_neg]
        rintro rfl
        exact hunused va _ hwalk
      · obtain rfl : j = j' := Nat.succ.inj hj
        exact ih (Walk.step hwalk hpte hleaf hnull)

/-- **A split keeps the translation**: on an entry of a tree it returns, every lookup has the result
that it had before, and the entries of the new table have the flags of the old entry. -/
theorem splitEntry_query (hlo : 1 ≤ levels) (hl : levels ≤ 5)
    (hfresh : FreshPages paging heap mem.allocated) (hcap : mem.allocated < heap.capacity)
    (hholds : paging.HoldsAt mem table index (i + 1) e) (he : e.Splittable (i + 1))
    (hunused : ∀ va j, ¬ Walk paging.physToVirt mem va (levels - 1) paging.table j
      (heap.page mem.allocated)) :
    ∃ mem', splitEntry paging heap table index i mem = .ok mem' ∧
      (∀ va, paging.query mem' va = paging.query mem va) ∧
      ∀ w < 512, ∃ e', mem'.slot (heap.page mem.allocated) w = some e' ∧
        e'.value.toNat % 256 = e.value.toNat % 256 := by
  obtain ⟨va₀, hwalk₀, hindex⟩ := hholds.reached
  have hi : i + 1 < levels := by
    have := hwalk₀.le_top
    omega
  have hne : table ≠ heap.page mem.allocated := by
    rintro rfl
    exact hunused va₀ _ hwalk₀
  -- the new table holds the pieces
  obtain ⟨r, hsplit, -, t, rfl, ht⟩ := (hfresh.split_outcome (by omega) (he.bound (by omega))
    le_rfl).exists_ok fun f hf => absurd hf.2 (by omega)
  have hslot : (mem.addTable (heap.page mem.allocated) t).slot table index = some e := by
    rw [Memory.slot_addTable, if_neg hne, hholds.slot]
  refine ⟨splitMemory paging heap mem t table index, ?_, fun va => ?_, fun w hw => ?_⟩
  · rw [splitEntry, Memory.readEntry_eq_ok hholds.slot, ok_bind, hsplit, ok_bind]
    exact Memory.writeEntry_eq_ok hslot _
  · exact queryFrom_splitMemory hfresh hcap hl hi hholds he hunused ht Walk.root
  · refine ⟨_, ?_, piece_mod (l := i) (by omega) e w⟩
    rw [slot_splitMemory t hholds.slot hne, if_neg (fun h => hne h.1.symm), if_pos rfl, ht w hw]

/-- A gigapage at physical address 0, split into megapages. -/
theorem splitEntry_query_gigapage :
    ∃ mem', splitEntry identitySv39 identityHeap 0x1000 0 1 (Memory.uniform 0x1000 ⟨0xf⟩) =
        .ok mem' ∧
      (∀ va, identitySv39.query mem' va = identitySv39.query (Memory.uniform 0x1000 ⟨0xf⟩) va) ∧
      ∀ w < 512, ∃ e', mem'.slot (identityHeap.page 0) w = some e' ∧ e'.value.toNat % 256 = 0xf := by
  have hleaf : (⟨0xf⟩ : Entry).isLeaf = true := by decide
  have hholds : identitySv39.HoldsAt (Memory.uniform 0x1000 ⟨0xf⟩) 0x1000 0 2 ⟨0xf⟩ :=
    ⟨⟨0, Walk.root, by decide⟩, Memory.slot_uniform _ _ (by norm_num),
      fun va j hwalk => (walk_uniform hleaf hwalk).1⟩
  have hsplittable : (⟨0xf⟩ : Entry).Splittable 2 := by
    refine ⟨by decide, Or.inr ⟨by decide, ?_, by decide⟩⟩
    unfold Entry.NoSoftwareBits
    decide
  refine splitEntry_query (by norm_num) (by norm_num) identity_fresh (by decide) hholds hsplittable
    fun va j hwalk => ?_
  -- the first page of the allocator is not the root table
  have hroot := (walk_uniform hleaf hwalk).2
  exact identity_fresh.ne_root 0 le_rfl (by decide) hroot

end Split

end AsyncKernel
