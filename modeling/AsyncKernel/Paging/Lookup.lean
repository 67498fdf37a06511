import AsyncKernel.Paging.Architecture

/-!
# What a lookup returns

The lookup against the architecture it follows, on an arbitrary memory. The address that `query`
assembles has `9 * LEVELS` bits of the physical page number where the architecture has 44; of the
encodings that the architecture reserves, `query` rejects those with bit 60 set and no others. And it
loses its way at a pointer that it does not follow as the architecture does.

## Main definitions

* `GenericPaging.Translates`: the lookup follows the walk, and the page number fits
* `RejectsReserved`: a lookup rejects every reserved encoding on the walk

## Main results

* `query_eq_riscvAddress_iff`: when the lookup returns the address of the architecture
* `rejectsReserved_iff`: when the lookup rejects the reserved encodings
-/

namespace AsyncKernel

open Bits

/-! ## The translated address -/

section Address

variable {levels i : ℕ} {pte : Entry}

theorem toNat_shiftLeft_two_mod {x : Usize} {n : ℕ} (hn : n ≤ 64) :
    (x <<< 2).toNat % 2 ^ n = x.toNat * 4 % 2 ^ n := by
  rw [BitVec.toNat_shiftLeft, Nat.shiftLeft_eq]
  exact Nat.mod_mod_of_dvd _ (Nat.pow_dvd_pow 2 hn)

/-- The part of the assembled address that comes from the entry. -/
theorem shiftLeft_two_field (hl : levels ≤ 5) (i : ℕ) (x : Usize) :
    (x <<< 2).toNat % pageSize levels / pageSize i =
      x.toNat / 2 ^ 10 % 2 ^ (9 * levels) / 2 ^ (9 * i) := by
  rw [pageSize, pageSize, toNat_shiftLeft_two_mod (by omega), Nat.pow_add 2 12 (9 * i),
    ← Nat.div_div_eq_div_mul, Nat.pow_add 2 12 (9 * levels), Nat.mod_mul_right_div_self]
  congr 2
  omega

theorem toNat_translatedAddress_eight (hl : levels ≤ 5) (hi : i < levels) (va : Usize)
    (pte : Entry) : (translatedAddress levels 8 va pte i).toNat =
      pte.value.toNat / 2 ^ 10 % 2 ^ (9 * levels) / 2 ^ (9 * i) * pageSize i +
        va.toNat % pageSize i := by
  rw [toNat_translatedAddress isPteSize_eight (by rw [vpnBits_eight]; omega) hi, vpnBits_eight,
    Nat.mul_comm i 9, Nat.mul_comm levels 9, ← pageSize.eq_1 i, ← pageSize.eq_1 levels,
    shiftLeft_two_field hl, Nat.add_comm]

/-- Without reserved bits the page number in the low 54 bits is the whole page number. -/
theorem ppn44_mod (hl : levels ≤ 5) (hr : ¬ pte.ReservedBitSet) :
    pte.value.toNat / 2 ^ 10 % 2 ^ (9 * levels) = pte.ppn44 % 2 ^ (9 * levels) := by
  -- Sv57 reads 45 bits; the topmost one is the reserved bit 54.
  have h54 : pte.value.toNat / 2 ^ 54 % 2 = 0 := by
    have := (getLsbD_iff pte.value 54).not.mp fun h => hr ⟨54, by omega, by omega, h⟩
    omega
  rw [Entry.ppn44]
  interval_cases levels <;> omega

/-- **The assembled address is that of the architecture** when the page number fits into the
fields of the scheme, and only then. -/
theorem toNat_translatedAddress_eq_riscvAddress_iff (hl : levels ≤ 5) (hi : i < levels)
    (va : Usize) (hr : ¬ pte.ReservedBitSet) :
    (translatedAddress levels 8 va pte i).toNat = riscvAddress va pte i ↔
      pte.ppn44 < 2 ^ (9 * levels) := by
  rw [toNat_translatedAddress_eight hl hi, riscvAddress, Nat.add_right_cancel_iff,
    Nat.mul_left_inj (pageSize_pos i).ne', ppn44_mod hl hr]
  exact mod_div_eq_div_iff _ (by omega)

end Address

section Query

variable {levels : ℕ} {self : GenericPaging levels 8} {mem : Memory 8} {va : Usize} {i : ℕ}
  {pte : Entry}

/-- A lookup that comes to an aligned valid leaf, past no bit 60, returns the assembled address. -/
theorem query_of_reads_leaf (hread : self.ReadsAt mem va i pte) (hvalid : pte.value.getLsbD 0 = true)
    (hleaf : pte.isLeaf = true) (h60 : pte.value.getLsbD 60 = false)
    (habove : ∀ j e, i < j → self.ReadsAt mem va j e → e.value.getLsbD 60 = false)
    (halign : pte.SuperpageAligned i) :
    self.query mem va = .ok (.ok (translatedAddress levels 8 va pte i)) := by
  obtain ⟨table, hwalk, hslot⟩ := hread
  rw [GenericPaging.query, hwalk.queryFrom_eq fun j e hj => habove j e hj,
    queryFrom_leaf hslot hleaf hvalid h60, assertThat_eq_ok]
  · rfl
  · intro j hj
    exact halign j (List.mem_range.mp hj)

/-- Behind pointers that it follows the lookup comes to the entries of the architecture. -/
theorem GenericPaging.Reaches.readsAt (h : self.Reaches mem va i pte)
    (hfollowed : ∀ j e, i < j → self.Reaches mem va j e → e.Followed self.physToVirt) :
    self.ReadsAt mem va i pte ∧
      ∀ j e, i < j → self.ReadsAt mem va j e → e.value.getLsbD 60 = false := by
  obtain ⟨table, hriscv, hslot⟩ := h
  obtain ⟨hwalk, habove⟩ := hriscv.walk fun j t e hj ht he => hfollowed j e hj ⟨t, ht, he⟩
  exact ⟨⟨table, hwalk, hslot⟩, fun j e hj hread =>
    Entry.not_reserved_60 (habove j e hj hread).unreserved⟩

/-- **The lookup keeps to the walk to a leaf**, and the page number of the leaf fits into `9 * LEVELS`
bits; or a pointer without an address, which is taken for a leaf, happens to give the right address. -/
def GenericPaging.Translates (self : GenericPaging levels 8) (mem : Memory 8) (va : Usize) (i : ℕ)
    (pte : Entry) : Prop :=
  ((∀ j e, i < j → self.Reaches mem va j e → e.Followed self.physToVirt) ∧
      pte.ppn44 < 2 ^ (9 * levels)) ∨
    ∃ j e, i < j ∧ self.Reaches mem va j e ∧ e.value.toNat < 2 ^ 8 ∧
      (∀ k e', j < k → self.Reaches mem va k e' → e'.Followed self.physToVirt) ∧
      riscvAddress va pte i = va.toNat % pageSize j

/-- A pointer without an address ends the lookup: it is taken for a leaf at address 0. -/
theorem query_of_bare_pointer (hhi : levels ≤ 5) {j : ℕ} {e : Entry} (hj : j < levels)
    (hreach : self.Reaches mem va j e) (hptr : e.IsPointer) (hbare : e.value.toNat < 2 ^ 8)
    (hfollowed : ∀ k e', j < k → self.Reaches mem va k e' → e'.Followed self.physToVirt) :
    ∃ pa, self.query mem va = .ok (.ok pa) ∧ pa.toNat = va.toNat % pageSize j := by
  obtain ⟨hread, habove⟩ := hreach.readsAt hfollowed
  refine ⟨_, query_of_reads_leaf hread hptr.valid (hptr.isLeaf_iff.mpr hbare)
    (Entry.not_reserved_60 hptr.unreserved) habove (Entry.superpageAligned_of_lt hbare j), ?_⟩
  have hnone : e.value.toNat / 2 ^ 10 = 0 :=
    Nat.div_eq_of_lt (hbare.trans (Nat.pow_lt_pow_right (by norm_num) (by norm_num)))
  rw [toNat_translatedAddress_eight hhi hj, hnone]
  simp

/-- A pointer with an address that the lookup does not follow leads it to no table. -/
theorem query_of_lost_pointer (hpages : self.InPages mem) {j : ℕ} {e : Entry} (hj : 0 < j)
    (hreach : self.Reaches mem va j e) (hptr : e.IsPointer) (haddress : 2 ^ 8 ≤ e.value.toNat)
    (hnot : ¬ e.Followed self.physToVirt)
    (hfollowed : ∀ k e', j < k → self.Reaches mem va k e' → e'.Followed self.physToVirt)
    (r : Except PageLookupError Usize) : self.query mem va ≠ .ok r := by
  intro hquery
  obtain ⟨⟨table, hwalk, hslot⟩, habove⟩ := hreach.readsAt hfollowed
  have hleaf : e.isLeaf = false := by
    rw [← Bool.not_eq_true, hptr.isLeaf_iff]
    exact not_lt.mpr haddress
  rw [GenericPaging.query, hwalk.queryFrom_eq fun k e' hk => habove k e' hk] at hquery
  obtain ⟨e', hslot', hcases⟩ := queryFrom_cases hquery
  obtain rfl : e = e' := Option.some.inj (hslot.symm.trans hslot')
  rcases hcases with ⟨hinvalid, -⟩ | ⟨-, h60, -⟩ | ⟨-, -, hnull, ⟨rfl, -⟩ | ⟨j', rfl, hnext⟩⟩ |
    ⟨htaken, -⟩
  · cases hinvalid.symm.trans hptr.valid
  · cases h60.symm.trans (Entry.not_reserved_60 hptr.unreserved)
  · exact absurd hj (lt_irrefl 0)
  · -- the table that the lookup reads next lies in a page, so its address is that of the pointer
    obtain ⟨next, hnext, -⟩ := queryFrom_cases hnext
    have htable : (mem.tables (self.physToVirt e.address)).isSome := by
      obtain ⟨t, ht, -⟩ := Option.bind_eq_some_iff.mp hnext
      rw [ht]
      rfl
    obtain ⟨hpage, hlt⟩ := hpages _ htable
    have heq := Entry.address_eq_of_page hptr.unreserved hpage hlt
    obtain ⟨h8, h9, h61⟩ := (Entry.address_eq_tableAddress_iff hptr.unreserved).mp heq
    exact hnot ⟨h8, h9, h61, haddress, heq ▸ hnull⟩
  · cases hleaf.symm.trans htaken

/-- **When the lookup returns the address of the architecture**: when it follows the pointers on the
walk and the physical page number of the leaf fits into `9 * LEVELS` bits. And only then, where the
tables lie in pages of the physical memory, but for a coincidence. -/
theorem query_eq_riscvAddress_iff (hlo : 1 ≤ levels) (hhi : levels ≤ 5)
    (hreach : self.Reaches mem va i pte) (hvalid : pte.value.getLsbD 0 = true)
    (hleaf : pte.value.getLsbD 1 = true ∨ pte.value.getLsbD 3 = true)
    (hres : ¬ pte.ReservedBitSet) (halign : pte.SuperpageAligned i) :
    (self.Translates mem va i pte →
        ∃ pa, self.query mem va = .ok (.ok pa) ∧ pa.toNat = riscvAddress va pte i) ∧
      (self.InPages mem → (∃ pa, self.query mem va = .ok (.ok pa) ∧
        pa.toNat = riscvAddress va pte i) → self.Translates mem va i pte) := by
  have htop := hreach.le_top
  have hisLeaf : pte.isLeaf = true := by
    refine Entry.isLeaf_of_leafBits ?_
    rcases hleaf with h | h <;> simp [leafBits, h]
  -- the lookup that keeps to the walk comes to the leaf
  have hkeeps : (∀ j e, i < j → self.Reaches mem va j e → e.Followed self.physToVirt) →
      self.query mem va = .ok (.ok (translatedAddress levels 8 va pte i)) := by
    intro hfollowed
    obtain ⟨hread, habove⟩ := hreach.readsAt hfollowed
    exact query_of_reads_leaf hread hvalid hisLeaf (Entry.not_reserved_60 hres) habove halign
  have hfits := toNat_translatedAddress_eq_riscvAddress_iff hhi (show i < levels by omega) va hres
  constructor
  · rintro (⟨hfollowed, hlt⟩ | ⟨j, e, hij, hreach', hbare, hfollowed, hsame⟩)
    · exact ⟨_, hkeeps hfollowed, hfits.mpr hlt⟩
    · have htop' := hreach'.le_top
      obtain ⟨pa, hquery, hpa⟩ := query_of_bare_pointer hhi (by omega) hreach'
        (hreach.isPointer hij hreach') hbare hfollowed
      exact ⟨pa, hquery, hpa.trans hsame.symm⟩
  · rintro hpages ⟨pa, hquery, hpa⟩
    rcases followed_or_first self mem va i with
      hfollowed | ⟨j, e, hij, hreach', hnot, hfollowed⟩
    · rw [hkeeps hfollowed] at hquery
      obtain rfl : _ = pa := Except.ok.inj (Except.ok.inj hquery)
      exact Or.inl ⟨hfollowed, hfits.mp hpa⟩
    · have htop' := hreach'.le_top
      have hptr := hreach.isPointer hij hreach'
      rcases lt_or_ge e.value.toNat (2 ^ 8) with hbare | haddress
      · obtain ⟨pa', hquery', hpa'⟩ :=
          query_of_bare_pointer hhi (by omega) hreach' hptr hbare hfollowed
        obtain rfl : pa = pa' := Except.ok.inj (Except.ok.inj (hquery.symm.trans hquery'))
        exact Or.inr ⟨j, e, hij, hreach', hbare, hfollowed, hpa.symm.trans hpa'⟩
      · exact absurd hquery (query_of_lost_pointer hpages (by omega) hreach' hptr haddress hnot
          hfollowed _)

theorem reaches_uniform (e : Entry) (va : Usize) :
    identitySv39.Reaches (Memory.uniform 0x1000 e) va 2 e :=
  ⟨_, RiscvWalk.root, Memory.slot_uniform _ _ (by
    rw [getVpnNumber_eight (by norm_num)]
    exact vpn_lt _ _)⟩

theorem inPages_uniform (e : Entry) : identitySv39.InPages (Memory.uniform 0x1000 e) := by
  intro a ha
  by_cases hroot : a = 0x1000
  · subst hroot
    decide
  · have hnone : (Memory.uniform 0x1000 e : Memory 8).tables (identitySv39.physToVirt a) = none :=
      if_neg hroot
    rw [hnone] at ha
    cases ha

/-- Above the root there is no pointer. -/
theorem followed_above_root {self : Sv39} {mem : Memory 8} {va : Usize} (j : ℕ) (e : Entry)
    (hj : 2 < j) (hreach : self.Reaches mem va j e) : e.Followed self.physToVirt := by
  have htop : j ≤ 3 - 1 := hreach.le_top
  omega

/-- A gigapage at physical address 0. -/
theorem query_eq_riscvAddress_iff_gigapage :
    ((∃ pa, identitySv39.query (Memory.uniform 0x1000 ⟨0xf⟩) 0x1234 = .ok (.ok pa) ∧
      pa.toNat = riscvAddress 0x1234 ⟨0xf⟩ 2) ↔
        identitySv39.Translates (Memory.uniform 0x1000 ⟨0xf⟩) 0x1234 2 ⟨0xf⟩) ∧
      identitySv39.Translates (Memory.uniform 0x1000 ⟨0xf⟩) 0x1234 2 ⟨0xf⟩ := by
  obtain ⟨hif, honly⟩ := query_eq_riscvAddress_iff (by norm_num) (by norm_num)
    (reaches_uniform ⟨0xf⟩ 0x1234) (by decide) (by decide)
    (Entry.not_reservedBitSet_of_lt (by decide)) (by unfold Entry.SuperpageAligned; decide)
  exact ⟨⟨honly (inPages_uniform ⟨0xf⟩), hif⟩, Or.inl ⟨followed_above_root, by decide⟩⟩

/-- A gigapage at physical address `2 ^ 39` is translated to physical address 0. -/
theorem query_ne_riscvAddress_gigapage :
    ¬ ∀ (levels i : ℕ) (self : GenericPaging levels 8) (mem : Memory 8) (va : Usize) (pte : Entry),
      3 ≤ levels → levels ≤ 5 → self.Reaches mem va i pte → pte.value.getLsbD 0 = true →
      pte.value.getLsbD 1 = true ∨ pte.value.getLsbD 3 = true → ¬ pte.ReservedBitSet →
      pte.SuperpageAligned i →
      ∃ pa, self.query mem va = .ok (.ok pa) ∧ pa.toNat = riscvAddress va pte i := by
  intro hall
  have hreach := reaches_uniform ⟨0x200000000f⟩ 0
  have hres : ¬ (⟨0x200000000f⟩ : Entry).ReservedBitSet :=
    Entry.not_reservedBitSet_of_lt (by decide)
  have halign : (⟨0x200000000f⟩ : Entry).SuperpageAligned 2 := by
    unfold Entry.SuperpageAligned
    decide
  obtain ⟨pa, hpa, hval⟩ := hall 3 2 identitySv39 _ 0 ⟨0x200000000f⟩ (by norm_num) (by norm_num)
    hreach (by decide) (by decide) hres halign
  obtain ⟨hread, habove⟩ := hreach.readsAt followed_above_root
  rw [query_of_reads_leaf hread (by decide) (by decide) (by decide) habove halign] at hpa
  obtain rfl : _ = pa := Except.ok.inj (Except.ok.inj hpa)
  rw [toNat_translatedAddress_eq_riscvAddress_iff (by norm_num) (by norm_num) _ hres] at hval
  revert hval
  decide

/-! ## Reserved encodings -/

/-- The errors of a lookup: write-only is not among them, and a reserved bit is reported for bit 60
of a valid entry that the lookup reads. -/
theorem queryFrom_error {physToVirt : Usize → Usize} {top i : ℕ} {root table : Usize}
    {err : PageLookupError} (hwalk : Walk physToVirt mem va top root i table)
    (h : queryFrom levels physToVirt mem va i table = .ok (.error err)) :
    err ≠ .writeOnly ∧ (err = .reservedBitSet → ∃ j e, Reads physToVirt mem va top root j e ∧
      e.value.getLsbD 0 = true ∧ e.value.getLsbD 60 = true) := by
  -- On the level: the lookup reports at this entry or goes on to the table below.
  induction i generalizing table with
  | zero =>
    obtain ⟨pte, hslot, hcases⟩ := queryFrom_cases h
    rcases hcases with ⟨-, hr⟩ | ⟨hv, h60, hr⟩ | ⟨-, -, -, ⟨-, hr⟩ | ⟨j, hj, -⟩⟩ | ⟨-, -, -, -, hr⟩
    · cases hr
      exact ⟨nofun, nofun⟩
    · cases hr
      exact ⟨nofun, fun _ => ⟨0, pte, ⟨table, hwalk, hslot⟩, hv, h60⟩⟩
    · cases hr
      exact ⟨nofun, nofun⟩
    · cases hj
    · cases hr
  | succ i ih =>
    obtain ⟨pte, hslot, hcases⟩ := queryFrom_cases h
    rcases hcases with ⟨-, hr⟩ | ⟨hv, h60, hr⟩ | ⟨hptr, -, hnull, ⟨hi, -⟩ | ⟨j, hj, hnext⟩⟩ |
      ⟨-, -, -, -, hr⟩
    · cases hr
      exact ⟨nofun, nofun⟩
    · cases hr
      exact ⟨nofun, fun _ => ⟨i + 1, pte, ⟨table, hwalk, hslot⟩, hv, h60⟩⟩
    · cases hi
    · cases hj
      exact ih (Walk.step hwalk hslot hptr hnull) hnext
    · cases hr

/-- A valid entry with bit 60 set on the walk makes the lookup report a reserved bit. -/
theorem query_of_reads_60 {i : ℕ} {e : Entry} (hread : self.ReadsAt mem va i e)
    (hv : e.value.getLsbD 0 = true) (h60 : e.value.getLsbD 60 = true) :
    self.query mem va = .ok (.error .reservedBitSet) := by
  obtain ⟨table, hwalk, hslot⟩ := hread
  have hor : self.query mem va = queryFrom levels self.physToVirt mem va i table ∨
      self.query mem va = .ok (.error .reservedBitSet) := hwalk.queryFrom_eq_or
  rcases hor with h | h
  · rw [h]
    exact queryFrom_reserved hslot hv h60
  · exact h

/-- The lookup of `va` rejects the reserved encoding that the walk of the architecture comes to: a
write-only entry with `WriteOnly`, another valid entry with a reserved bit with `ReservedBitSet`; when
it returns an address there is neither. -/
structure RejectsReserved (paging : GenericPaging levels 8) (mem : Memory 8)
    (va : Usize) : Prop where
  writeOnly : ∀ i e, paging.Reaches mem va i e → e.WriteOnly →
    paging.query mem va = .ok (.error .writeOnly)
  reserved : ∀ i e, paging.Reaches mem va i e → e.value.getLsbD 0 = true → ¬ e.WriteOnly →
    e.ReservedBitSet → paging.query mem va = .ok (.error .reservedBitSet)
  accepted : ∀ pa, paging.query mem va = .ok (.ok pa) → ∀ i e, paging.Reaches mem va i e →
    ¬ e.ReservedEncoding

/-- **When the lookup rejects the reserved encodings**: the walk of the architecture comes to no
write-only entry, and if it comes to a reserved bit then bit 60 is set in some valid entry that the
lookup would read. -/
theorem rejectsReserved_iff (self : GenericPaging levels 8) (mem : Memory 8) (va : Usize) :
    RejectsReserved self mem va ↔
      (∀ i e, self.Reaches mem va i e → ¬ e.WriteOnly) ∧
      ((∃ i e, self.Reaches mem va i e ∧ e.value.getLsbD 0 = true ∧ e.ReservedBitSet) →
        ∃ i e, self.ReadsAt mem va i e ∧ e.value.getLsbD 0 = true ∧
          e.value.getLsbD 60 = true) := by
  constructor
  · intro h
    -- The lookup never reports `WriteOnly`, so there must be nothing to report it for.
    have hwo : ∀ i e, self.Reaches mem va i e → ¬ e.WriteOnly := fun i e hreach hw =>
      (queryFrom_error Walk.root (h.writeOnly i e hreach hw)).1 rfl
    refine ⟨hwo, ?_⟩
    rintro ⟨i, e, hreach, hv, hres⟩
    exact (queryFrom_error Walk.root (h.reserved i e hreach hv (hwo i e hreach) hres)).2 rfl
  · rintro ⟨hwo, hres⟩
    -- Whichever reserved bit is met first, the entry with bit 60 makes the lookup report one.
    have hreported : ∀ i e, self.Reaches mem va i e → e.value.getLsbD 0 = true →
        e.ReservedBitSet → self.query mem va = .ok (.error .reservedBitSet) := by
      intro i e hreach hv hr
      obtain ⟨i', e', hread', hv', h60⟩ := hres ⟨i, e, hreach, hv, hr⟩
      exact query_of_reads_60 hread' hv' h60
    refine ⟨fun i e hreach hw => absurd hw (hwo i e hreach),
      fun i e hreach hv _ hr => hreported i e hreach hv hr, fun pa hpa i e hreach he => ?_⟩
    rcases he with hw | ⟨hv, hr⟩
    · exact hwo i e hreach hw
    · rw [hreported i e hreach hv hr] at hpa
      cases hpa

/-- A write-only entry without an address is translated. -/
theorem not_rejectsReserved_writeOnly :
    ¬ ∀ (levels : ℕ) (self : GenericPaging levels 8) (mem : Memory 8) (va : Usize),
      3 ≤ levels → levels ≤ 5 → RejectsReserved self mem va := by
  intro hall
  have hrejects := hall 3 identitySv39 (Memory.uniform 0x1000 ⟨5⟩) 0 (by norm_num) (by norm_num)
  have h := hrejects.writeOnly 2 ⟨5⟩ (reaches_uniform ⟨5⟩ 0) ⟨by decide, by decide, by decide⟩
  exact (queryFrom_error Walk.root h).1 rfl

end Query

end AsyncKernel
