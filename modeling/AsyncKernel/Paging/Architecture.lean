import AsyncKernel.Paging.Walk

/-!
# The walk of the architecture

The algorithm that the comments of `query` quote, on the memory of the page tables: a valid entry
without permissions and without reserved bits points to the table at its page number, readable or
executable ones are leaves, and the other valid ones are reserved.

`query` goes another way at some pointers. `is_leaf` takes a pointer with page number 0 for a leaf,
and `address` keeps the software bits 8 and 9 and bit 61.

## Main definitions

* `Entry.ReservedBitSet`, `Entry.WriteOnly`, `Entry.SuperpageAligned`: the tests of the architecture
* `RiscvWalk`, `GenericPaging.Reaches`: the tables and entries that the architecture comes to
* `riscvAddress`: the translated address of the architecture
* `Entry.Followed`: a pointer that `query` follows as the architecture does

## Main results

* `RiscvWalk.walk`: the lookup comes to the tables of the architecture behind such pointers
-/

namespace AsyncKernel

open Bits

namespace Entry

/-- One of the bits 54 to 60 is set. -/
def ReservedBitSet (e : Entry) : Prop := ∃ k, 54 ≤ k ∧ k ≤ 60 ∧ e.value.getLsbD k = true

/-- Valid, not readable, writable. -/
def WriteOnly (e : Entry) : Prop :=
  e.value.getLsbD 0 = true ∧ e.value.getLsbD 1 = false ∧ e.value.getLsbD 2 = true

/-- Valid, and write-only or with a reserved bit. -/
def ReservedEncoding (e : Entry) : Prop :=
  e.WriteOnly ∨ e.value.getLsbD 0 = true ∧ e.ReservedBitSet

/-- The page number of the entry is that of a page of level `i`. -/
def SuperpageAligned (e : Entry) (i : ℕ) : Prop := ∀ j < i, getVpnNumber e.address j 8 = 0

/-- The 44 bits of the physical page number. -/
def ppn44 (e : Entry) : ℕ := e.value.toNat / 2 ^ 10 % 2 ^ 44

/-- The physical address of the table that a pointer points to: `pte.ppn × PAGESIZE`. -/
def tableAddress (e : Entry) : Usize := BitVec.ofNat 64 (e.ppn44 * 4096)

/-- A pointer to the next level: valid, with no permission and no reserved bit. -/
structure IsPointer (e : Entry) : Prop where
  valid : e.value.getLsbD 0 = true
  read : e.value.getLsbD 1 = false
  write : e.value.getLsbD 2 = false
  execute : e.value.getLsbD 3 = false
  unreserved : ¬ e.ReservedBitSet

/-- A pointer that `query` follows to the same table: the bits that `address` keeps besides the page
number are clear, the entry is not taken for a leaf, and the reference to the table is not null. -/
structure Followed (e : Entry) (physToVirt : Usize → Usize) : Prop where
  bit8 : e.value.getLsbD 8 = false
  bit9 : e.value.getLsbD 9 = false
  bit61 : e.value.getLsbD 61 = false
  address : 2 ^ 8 ≤ e.value.toNat
  notNull : physToVirt e.tableAddress ≠ 0

end Entry

/-- The algorithm for `va` from `root` at level `top` comes to a table at a level. -/
inductive RiscvWalk (physToVirt : Usize → Usize) (mem : Memory 8) (va : Usize) (top : ℕ)
    (root : Usize) : ℕ → Usize → Prop
  | root : RiscvWalk physToVirt mem va top root top root
  | step {i : ℕ} {table : Usize} {e : Entry}
      (h : RiscvWalk physToVirt mem va top root (i + 1) table)
      (hslot : mem.slot table (getVpnNumber va (i + 1) 8) = some e) (hptr : e.IsPointer) :
      RiscvWalk physToVirt mem va top root i (physToVirt e.tableAddress)

/-- Step 8 of the architecture: the page offset and the page numbers below `i` of the virtual
address, and the rest of the physical page number of the entry. -/
def riscvAddress (va : Usize) (pte : Entry) (i : ℕ) : ℕ :=
  pte.ppn44 / 2 ^ (9 * i) * pageSize i + va.toNat % pageSize i

namespace GenericPaging

variable {levels : ℕ}

/-- The lookup of `va` in a scheme reads an entry at a level. -/
def ReadsAt (self : GenericPaging levels 8) (mem : Memory 8) (va : Usize) (i : ℕ) (e : Entry) :
    Prop :=
  Reads self.physToVirt mem va (levels - 1) self.table i e

/-- The algorithm comes to an entry at a level. -/
def Reaches (self : GenericPaging levels 8) (mem : Memory 8) (va : Usize) (i : ℕ) (e : Entry) :
    Prop :=
  ∃ table, RiscvWalk self.physToVirt mem va (levels - 1) self.table i table ∧
    mem.slot table (getVpnNumber va i 8) = some e

/-- Tables lie in pages of the physical memory, whose addresses have 56 bits. -/
def InPages (self : GenericPaging levels 8) (mem : Memory 8) : Prop :=
  ∀ a, (mem.tables (self.physToVirt a)).isSome → 4096 ∣ a.toNat ∧ a.toNat < 2 ^ 56

end GenericPaging

/-! ## Pointers -/

namespace Entry

variable {e : Entry}

theorem not_reserved_60 (h : ¬ e.ReservedBitSet) : e.value.getLsbD 60 = false := by
  cases h60 : e.value.getLsbD 60 with
  | false => rfl
  | true => exact absurd ⟨60, by omega, by omega, h60⟩ h

theorem not_reservedBitSet_of_lt (h : e.value.toNat < 2 ^ 54) : ¬ e.ReservedBitSet := by
  rintro ⟨k, hk, -, hbit⟩
  rw [getLsbD_iff, Nat.div_eq_of_lt (lt_of_lt_of_le h (Nat.pow_le_pow_right (by omega) hk))] at hbit
  cases hbit

/-- A pointer without an address is taken for a leaf. -/
theorem IsPointer.isLeaf_iff (h : e.IsPointer) : e.isLeaf = true ↔ e.value.toNat < 2 ^ 8 := by
  have hbits : leafBits e.value = false := by
    rw [leafBits, h.valid, h.read, h.execute]
    rfl
  rw [Entry.isLeaf_iff, hbits]
  simp

theorem toNat_tableAddress (e : Entry) : e.tableAddress.toNat = e.ppn44 * 4096 := by
  rw [tableAddress, BitVec.toNat_ofNat, ppn44]
  omega

/-- Without reserved bits the bits 54 to 60 are 0 as a number. -/
theorem reserved_field_eq_zero (h : ¬ e.ReservedBitSet) : e.value.toNat / 2 ^ 54 % 2 ^ 7 = 0 := by
  have hbit : ∀ k, 54 ≤ k → k ≤ 60 → e.value.toNat / 2 ^ k % 2 = 0 := by
    intro k hk hk'
    have hclear := (getLsbD_iff e.value k).not.mp fun hset => h ⟨k, hk, hk', hset⟩
    omega
  have h54 := hbit 54 (by omega) (by omega)
  have h55 := hbit 55 (by omega) (by omega)
  have h56 := hbit 56 (by omega) (by omega)
  have h57 := hbit 57 (by omega) (by omega)
  have h58 := hbit 58 (by omega) (by omega)
  have h59 := hbit 59 (by omega) (by omega)
  have h60 := hbit 60 (by omega) (by omega)
  omega

/-- **Where `address` is the page number times the page size.** -/
theorem address_eq_tableAddress_iff (h : ¬ e.ReservedBitSet) : e.address = e.tableAddress ↔
    e.value.getLsbD 8 = false ∧ e.value.getLsbD 9 = false ∧ e.value.getLsbD 61 = false := by
  have hfield := reserved_field_eq_zero h
  have hlt := e.value.isLt
  rw [← BitVec.toNat_inj, toNat_address, toNat_tableAddress, ppn44]
  simp only [← Bool.not_eq_true, getLsbD_iff]
  omega

/-- An address of a page of the physical memory is the page number times the page size. -/
theorem address_eq_of_page (h : ¬ e.ReservedBitSet) (hpage : 4096 ∣ e.address.toNat)
    (hlt : e.address.toNat < 2 ^ 56) : e.address = e.tableAddress := by
  have hfield := reserved_field_eq_zero h
  have hvalue := e.value.isLt
  rw [toNat_address] at hpage hlt
  rw [← BitVec.toNat_inj, toNat_address, toNat_tableAddress, ppn44]
  omega

theorem Followed.isLeaf_eq_false {physToVirt : Usize → Usize} (h : e.Followed physToVirt)
    (hptr : e.IsPointer) : e.isLeaf = false := by
  rw [← Bool.not_eq_true, hptr.isLeaf_iff]
  exact not_lt.mpr h.address

theorem Followed.address_eq {physToVirt : Usize → Usize} (h : e.Followed physToVirt)
    (hptr : e.IsPointer) : e.address = e.tableAddress :=
  (address_eq_tableAddress_iff hptr.unreserved).mpr ⟨h.bit8, h.bit9, h.bit61⟩

/-- An entry without an address is aligned. -/
theorem superpageAligned_of_lt (h : e.value.toNat < 2 ^ 8) (i : ℕ) : e.SuperpageAligned i := by
  have hzero : e.address = 0 := by
    have hnone : e.value.toNat / 256 = 0 := Nat.div_eq_of_lt h
    refine BitVec.eq_of_toNat_eq ?_
    rw [toNat_address, hnone]
    rfl
  intro j _
  rw [hzero]
  simp [getVpnNumber]

end Entry

/-! ## The two walks -/

section Walk

variable {physToVirt : Usize → Usize} {mem : Memory 8} {va root table : Usize} {top i : ℕ}

namespace RiscvWalk

theorem le_top (h : RiscvWalk physToVirt mem va top root i table) : i ≤ top := by
  induction h with
  | root => exact le_rfl
  | step _ _ _ ih => omega

/-- A walk comes to one table at each level. -/
theorem unique {table' : Usize} (h : RiscvWalk physToVirt mem va top root i table)
    (h' : RiscvWalk physToVirt mem va top root i table') : table = table' := by
  induction h generalizing table' with
  | root =>
    cases h' with
    | root => rfl
    | step h' =>
      have hle := h'.le_top
      omega
  | step h hslot hptr ih =>
    cases h' with
    | root =>
      have hle := h.le_top
      omega
    | step h' hslot' hptr' =>
      obtain rfl := ih h'
      obtain rfl := Option.some.inj (hslot.symm.trans hslot')
      rfl

/-- A walk above the entry it ends in passes pointers only. -/
theorem isPointer {j : ℕ} {t : Usize} {e : Entry}
    (h : RiscvWalk physToVirt mem va top root i table) (hij : i < j)
    (h' : RiscvWalk physToVirt mem va top root j t)
    (hslot' : mem.slot t (getVpnNumber va j 8) = some e) : e.IsPointer := by
  induction h with
  | root =>
    have hle := h'.le_top
    omega
  | step h hslot hptr ih =>
    -- The last pointer of the walk, or one above it.
    rcases Nat.eq_or_lt_of_le hij with rfl | hlt
    · obtain rfl := h.unique h'
      obtain rfl := Option.some.inj (hslot.symm.trans hslot')
      exact hptr
    · exact ih hlt

/-- **The lookup comes to the tables of the architecture**, as long as it follows the pointers. -/
theorem walk (h : RiscvWalk physToVirt mem va top root i table)
    (hfollowed : ∀ j t e, i < j → RiscvWalk physToVirt mem va top root j t →
      mem.slot t (getVpnNumber va j 8) = some e → e.Followed physToVirt) :
    Walk physToVirt mem va top root i table ∧
      ∀ j e, i < j → Reads physToVirt mem va top root j e → e.IsPointer := by
  -- On the walk of the architecture, whose last pointer is followed.
  induction h with
  | root =>
    refine ⟨Walk.root, fun j e hj hread => ?_⟩
    obtain ⟨t, hwalk, -⟩ := hread
    have hle := hwalk.le_top
    omega
  | @step i table e h hslot hptr ih =>
    obtain ⟨hwalk, habove⟩ := ih fun j t e hj => hfollowed j t e (by omega)
    have he : e.Followed physToVirt := hfollowed (i + 1) table e (by omega) h hslot
    have hleaf := he.isLeaf_eq_false hptr
    have haddress := he.address_eq hptr
    refine ⟨?_, fun j e' hj hread => ?_⟩
    · rw [← haddress]
      exact Walk.step hwalk hslot hleaf (haddress ▸ he.notNull)
    · rcases Nat.eq_or_lt_of_le hj with rfl | hlt
      · obtain ⟨t, hwalk', hslot'⟩ := hread
        obtain rfl := hwalk.unique hwalk'
        obtain rfl : e = e' := Option.some.inj (hslot.symm.trans hslot')
        exact hptr
      · exact habove j e' hlt hread

end RiscvWalk

variable {levels : ℕ} {self : GenericPaging levels 8} {e : Entry}

theorem GenericPaging.Reaches.le_top (h : self.Reaches mem va i e) : i ≤ levels - 1 := by
  obtain ⟨table, hwalk, -⟩ := h
  exact hwalk.le_top

/-- What the algorithm comes to above an entry is a pointer. -/
theorem GenericPaging.Reaches.isPointer {j : ℕ} {e' : Entry} (h : self.Reaches mem va i e)
    (hij : i < j) (h' : self.Reaches mem va j e') : e'.IsPointer := by
  obtain ⟨table, hwalk, -⟩ := h
  obtain ⟨table', hwalk', hslot'⟩ := h'
  exact hwalk.isPointer hij hwalk' hslot'

/-- The pointers above an entry are all followed, or there is a first one that is not. -/
theorem followed_or_first (self : GenericPaging levels 8) (mem : Memory 8) (va : Usize) (i : ℕ) :
    (∀ j e, i < j → self.Reaches mem va j e → e.Followed self.physToVirt) ∨
      ∃ j e, i < j ∧ self.Reaches mem va j e ∧ ¬ e.Followed self.physToVirt ∧
        ∀ k e', j < k → self.Reaches mem va k e' → e'.Followed self.physToVirt := by
  -- On the distance to the root: above a pointer that is not followed there is a first one.
  generalize hn : levels - 1 - i = n
  induction n using Nat.strong_induction_on generalizing i with
  | _ n ih =>
    by_cases hall : ∀ j e, i < j → self.Reaches mem va j e → e.Followed self.physToVirt
    · exact Or.inl hall
    · push Not at hall
      obtain ⟨j, e, hij, hreach, hnot⟩ := hall
      have hj := hreach.le_top
      rcases ih (levels - 1 - j) (by omega) j rfl with habove | ⟨k, e', hjk, hfirst⟩
      · exact Or.inr ⟨j, e, hij, hreach, hnot, habove⟩
      · exact Or.inr ⟨k, e', hij.trans hjk, hfirst⟩

end Walk

end AsyncKernel
