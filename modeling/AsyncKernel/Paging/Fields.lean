import AsyncKernel.Foundation.Bits
import AsyncKernel.Paging.GenericPaging

/-!
# The arithmetic of addresses and entries

The bit-level formulas of `kernel_paging`, read as arithmetic on the values of the words: a virtual
page number is a field of the address, the assembled translation is a sum of fields, and the flag
tests are tests of single bits.

## Main definitions

* `vpnBits ptesize`: the width of a virtual page number
* `pageSize i`: the size of a page at level `i`, for 8-byte entries
* `vpn i a`: virtual page number `i` of the address value `a`

## Main results

* `getVpnNumber_eq_field`, `getLsbD_setVpnNumber`: reading and writing a field
* `getLsbD_foldl_setVpnNumber`: copying fields from an address
* `toNat_translatedAddress`: the address that a lookup assembles
* `Entry.isLeaf_iff`: what makes an entry a leaf
-/

namespace AsyncKernel

open Bits

/-! ## Checked arithmetic -/

namespace Usize

theorem checkedAdd_eq_ok {a b : Usize} (h : a.toNat + b.toNat < 2 ^ 64) :
    checkedAdd a b = .ok (a + b) := by
  rw [checkedAdd, if_pos h]

theorem checkedSub_eq_ok {a b : Usize} (h : b.toNat ≤ a.toNat) :
    checkedSub a b = .ok (a - b) := by
  rw [checkedSub, if_pos h]

theorem checkedMul_eq_ok {a b : Usize} (h : a.toNat * b.toNat < 2 ^ 64) :
    checkedMul a b = .ok (a * b) := by
  rw [checkedMul, if_pos h]

theorem toNat_add_of_lt {a b : Usize} (h : a.toNat + b.toNat < 2 ^ 64) :
    (a + b).toNat = a.toNat + b.toNat := by
  rw [BitVec.toNat_add, Nat.mod_eq_of_lt h]

theorem toNat_sub_of_le {a b : Usize} (h : b.toNat ≤ a.toNat) :
    (a - b).toNat = a.toNat - b.toNat :=
  BitVec.toNat_sub_of_le h

theorem toNat_mul_of_lt {a b : Usize} (h : a.toNat * b.toNat < 2 ^ 64) :
    (a * b).toNat = a.toNat * b.toNat := by
  rw [BitVec.toNat_mul, Nat.mod_eq_of_lt h]

end Usize

theorem assertThat_eq_ok {p : Prop} [Decidable p] (h : p) : assertThat p = .ok () := if_pos h

theorem assertThat_eq_error {p : Prop} [Decidable p] (h : ¬ p) :
    assertThat p = .error .assertion := if_neg h

theorem and_fff_eq_zero_iff (a : Usize) : a &&& 0xfff = 0 ↔ 4096 ∣ a.toNat := by
  have h := toNat_and_lowMask a (k := 12) (by norm_num)
  rw [← BitVec.toNat_inj, show (0xfff : Usize) = BitVec.ofNat 64 (2 ^ 12 - 1) from rfl, h,
    Nat.dvd_iff_mod_eq_zero]
  rfl

/-! ## Virtual page numbers -/

/-- The width of a virtual page number. -/
def vpnBits (ptesize : ℕ) : ℕ := 12 - ptesize.log2

@[simp] theorem vpnBits_eight : vpnBits 8 = 9 := rfl

/-- The entry sizes of the schemes. -/
def IsPteSize (ptesize : ℕ) : Prop := ptesize = 4 ∨ ptesize = 8

theorem isPteSize_eight : IsPteSize 8 := Or.inr rfl

section Fields

variable {ptesize i : ℕ}

theorem getVpnOffset_eq (hi : 12 + i * vpnBits ptesize < 2 ^ 8) :
    getVpnOffset i ptesize = 12 + i * vpnBits ptesize :=
  Nat.mod_eq_of_lt hi

theorem getEntryCount_sub_one (hp : IsPteSize ptesize) :
    getEntryCount ptesize - 1 = BitVec.ofNat 64 (2 ^ vpnBits ptesize - 1) := by
  rcases hp with rfl | rfl <;> rfl

theorem vpnBits_le (hp : IsPteSize ptesize) : vpnBits ptesize ≤ 16 := by
  rcases hp with rfl | rfl <;> decide

theorem vpnBits_pos (hp : IsPteSize ptesize) : 0 < vpnBits ptesize := by
  rcases hp with rfl | rfl <;> decide

/-- A virtual page number is a field of the address. -/
theorem getVpnNumber_eq_field (hp : IsPteSize ptesize) (hi : 12 + i * vpnBits ptesize < 2 ^ 8)
    (a : Usize) :
    getVpnNumber a i ptesize = field (12 + i * vpnBits ptesize) (vpnBits ptesize) a.toNat := by
  have hw := vpnBits_le hp
  rw [getVpnNumber, getEntryCount_sub_one hp, toNat_and_lowMask _ (by omega), getVpnOffset_eq hi,
    BitVec.toNat_ushiftRight, Nat.shiftRight_eq_div_pow]
  exact Nat.mod_eq_of_lt (lt_of_lt_of_le (field_lt _ _ _) (Nat.pow_le_pow_right (by omega) hw))

theorem testBit_getVpnNumber (hp : IsPteSize ptesize) (hi : 12 + i * vpnBits ptesize < 2 ^ 8)
    (a : Usize) (k : ℕ) : (getVpnNumber a i ptesize).testBit k =
      (decide (k < vpnBits ptesize) && a.getLsbD (12 + i * vpnBits ptesize + k)) := by
  rw [getVpnNumber_eq_field hp hi, testBit_field, BitVec.testBit_toNat]

theorem getVpnNumber_lt_two_pow (hp : IsPteSize ptesize) (hi : 12 + i * vpnBits ptesize < 2 ^ 8)
    (a : Usize) : getVpnNumber a i ptesize < 2 ^ vpnBits ptesize := by
  rw [getVpnNumber_eq_field hp hi]
  exact field_lt _ _ _

/-- The bits of a field. -/
theorem vpnField_iff (hp : IsPteSize ptesize) {j k : ℕ} :
    12 + j * vpnBits ptesize ≤ k ∧ k < 12 + j * vpnBits ptesize + vpnBits ptesize ↔
      12 ≤ k ∧ (k - 12) / vpnBits ptesize = j := by
  rw [Nat.div_eq_iff (vpnBits_pos hp)]
  have hpos := vpnBits_pos hp
  omega

/-- Writing a virtual page number replaces the bits of its field. -/
theorem getLsbD_setVpnNumber (hp : IsPteSize ptesize)
    (hi : 12 + i * vpnBits ptesize + vpnBits ptesize ≤ 64) (a : Usize) {v : ℕ}
    (hv : v < 2 ^ vpnBits ptesize) (k : ℕ) : (setVpnNumber a i v ptesize).getLsbD k =
      if 12 ≤ k ∧ (k - 12) / vpnBits ptesize = i then v.testBit (k - (12 + i * vpnBits ptesize))
      else a.getLsbD k := by
  have hval : (BitVec.ofNat 64 v).toNat = v := by
    rw [BitVec.toNat_ofNat, Nat.mod_eq_of_lt]
    exact lt_of_lt_of_le hv (Nat.pow_le_pow_right (by omega) (by omega))
  rw [setVpnNumber, getEntryCount_sub_one hp, getVpnOffset_eq (by omega),
    getLsbD_replaceField _ _ hi (by rwa [hval]), ← BitVec.testBit_toNat (BitVec.ofNat 64 v), hval]
  exact if_congr (vpnField_iff hp) rfl rfl

/-- **Copying fields from an address**, one after the other: their bits are those of the address. -/
theorem getLsbD_foldl_setVpnNumber (hp : IsPteSize ptesize) (a : Usize) {order : List ℕ}
    (horder : ∀ j ∈ order, 12 + j * vpnBits ptesize + vpnBits ptesize ≤ 64) (x : Usize) (k : ℕ) :
    (order.foldl (fun x j => setVpnNumber x j (getVpnNumber a j ptesize) ptesize) x).getLsbD k =
      if 12 ≤ k ∧ (k - 12) / vpnBits ptesize ∈ order then a.getLsbD k else x.getLsbD k := by
  induction order generalizing x with
  | nil => simp
  | cons j order ih =>
    obtain ⟨hj, horder⟩ := List.forall_mem_cons.mp horder
    have hlt := getVpnNumber_lt_two_pow (i := j) hp (by omega) a
    rw [List.foldl_cons, ih horder, getLsbD_setVpnNumber hp hj x hlt]
    by_cases hrest : 12 ≤ k ∧ (k - 12) / vpnBits ptesize ∈ order
    · rw [if_pos hrest, if_pos ⟨hrest.1, List.mem_cons_of_mem _ hrest.2⟩]
    rw [if_neg hrest]
    by_cases hfirst : 12 ≤ k ∧ (k - 12) / vpnBits ptesize = j
    · -- a bit of the field that is written first, and not again
      obtain ⟨hlow, hhigh⟩ := (vpnField_iff hp).mpr hfirst
      have hmem : (k - 12) / vpnBits ptesize ∈ j :: order := hfirst.2 ▸ List.mem_cons_self
      rw [if_pos hfirst, if_pos ⟨hfirst.1, hmem⟩, testBit_getVpnNumber hp (by omega),
        decide_eq_true (by omega), Bool.true_and, Nat.add_sub_cancel' hlow]
    · rw [if_neg hfirst, if_neg fun h => (List.mem_cons.mp h.2).elim (fun hq => hfirst ⟨h.1, hq⟩)
        fun hq => hrest ⟨h.1, hq⟩]

/-- The bits of consecutive fields. -/
theorem vpnFields_iff (hp : IsPteSize ptesize) {start n k : ℕ} :
    12 ≤ k ∧ (k - 12) / vpnBits ptesize ∈ List.range' start n ↔
      12 + start * vpnBits ptesize ≤ k ∧ k < 12 + (start + n) * vpnBits ptesize := by
  have hpos := vpnBits_pos hp
  rw [List.mem_range'_1, Nat.le_div_iff_mul_le hpos, Nat.div_lt_iff_lt_mul hpos]
  omega

/-- The field of a level lies in the word. -/
theorem field_fits {levels : ℕ} (hl : 12 + levels * vpnBits ptesize ≤ 64) {j : ℕ} (hj : j < levels) :
    12 + j * vpnBits ptesize + vpnBits ptesize ≤ 64 := by
  have hle := Nat.mul_le_mul_right (vpnBits ptesize) (Nat.succ_le_of_lt hj)
  rw [Nat.succ_mul] at hle
  omega

end Fields

/-! ## The translated address -/

section Translation

variable {ptesize : ℕ}

theorem toNat_getPageOffset (a : Usize) : (getPageOffset a).toNat = a.toNat % 2 ^ 12 := by
  rw [getPageOffset, show (((1 : Usize) <<< 12) - 1) = BitVec.ofNat 64 (2 ^ 12 - 1) by decide,
    toNat_and_lowMask _ (by omega)]

theorem getLsbD_getPageOffset (a : Usize) (k : ℕ) :
    (getPageOffset a).getLsbD k = (decide (k < 12) && a.getLsbD k) := by
  rw [← BitVec.testBit_toNat, toNat_getPageOffset, Nat.testBit_mod_two_pow, BitVec.testBit_toNat]

/-- The translated address: the fields below level `i` and the page offset of the virtual address,
and the fields from level `i` on of the entry, up to the width of the scheme. -/
theorem toNat_translatedAddress {levels i : ℕ} (hp : IsPteSize ptesize)
    (hl : 12 + levels * vpnBits ptesize ≤ 64) (hi : i < levels) (va : Usize) (pte : Entry) :
    (translatedAddress levels ptesize va pte i).toNat =
      va.toNat % 2 ^ (12 + i * vpnBits ptesize) +
        (pte.value <<< 2).toNat % 2 ^ (12 + levels * vpnBits ptesize) /
          2 ^ (12 + i * vpnBits ptesize) * 2 ^ (12 + i * vpnBits ptesize) := by
  have hfirst : ∀ j ∈ List.range' 0 (i + 1), 12 + j * vpnBits ptesize + vpnBits ptesize ≤ 64 :=
    fun j hj => field_fits hl (by have := List.mem_range'_1.mp hj; omega)
  have hsecond : ∀ j ∈ List.range' i (levels - i),
      12 + j * vpnBits ptesize + vpnBits ptesize ≤ 64 :=
    fun j hj => field_fits hl (by have := List.mem_range'_1.mp hj; omega)
  have hlow : va.toNat % 2 ^ (12 + i * vpnBits ptesize) < 2 ^ (12 + i * vpnBits ptesize) :=
    Nat.mod_lt _ (Nat.two_pow_pos _)
  have hwidth : 12 + i * vpnBits ptesize + vpnBits ptesize = 12 + (i + 1) * vpnBits ptesize := by
    ring
  have hle : 12 + (i + 1) * vpnBits ptesize ≤ 12 + levels * vpnBits ptesize :=
    Nat.add_le_add_left (Nat.mul_le_mul_right _ hi) 12
  refine Nat.eq_of_testBit_eq fun k => ?_
  rw [Nat.add_comm, Nat.mul_comm, Nat.testBit_two_pow_mul_add _ hlow, BitVec.testBit_toNat,
    translatedAddress, getLsbD_foldl_setVpnNumber hp _ hsecond,
    getLsbD_foldl_setVpnNumber hp _ hfirst, getLsbD_getPageOffset]
  rw [if_congr (vpnFields_iff hp) rfl (if_congr (vpnFields_iff hp) rfl rfl),
    show i + (levels - i) = levels by omega, Nat.zero_mul, Nat.add_zero, Nat.zero_add]
  by_cases hbelow : k < 12 + i * vpnBits ptesize
  · -- below field `i`: a field of the virtual address, or its page offset
    rw [if_neg (by omega), if_pos hbelow, Nat.testBit_mod_two_pow, BitVec.testBit_toNat]
    by_cases hoffset : k < 12
    · simp [hbelow, hoffset]
    · rw [if_pos (by omega), decide_eq_true hbelow, Bool.true_and]
  · -- from field `i` on: a field of the entry, or nothing
    rw [if_neg hbelow, Nat.testBit_div_two_pow, Nat.sub_add_cancel (by omega),
      Nat.testBit_mod_two_pow, BitVec.testBit_toNat]
    by_cases habove : k < 12 + levels * vpnBits ptesize
    · rw [if_pos (by omega), decide_eq_true habove, Bool.true_and]
    · rw [if_neg (by omega), if_neg (by omega), decide_eq_false habove,
        decide_eq_false (by omega)]
      rfl

end Translation

/-! ## Pages of 8-byte schemes -/

/-- The size of a page at level `i`. -/
def pageSize (i : ℕ) : ℕ := 2 ^ (12 + 9 * i)

/-- Virtual page number `i` of an address value. -/
def vpn (i a : ℕ) : ℕ := a / pageSize i % 512

theorem pageSize_pos (i : ℕ) : 0 < pageSize i := Nat.two_pow_pos _

theorem pageSize_succ (i : ℕ) : pageSize (i + 1) = 512 * pageSize i := by
  rw [pageSize, pageSize, show 12 + 9 * (i + 1) = 9 + (12 + 9 * i) by ring, Nat.pow_add]

theorem pageSize_dvd {i j : ℕ} (h : i ≤ j) : pageSize i ∣ pageSize j :=
  Nat.pow_dvd_pow 2 (by omega)

theorem pageSize_le {i j : ℕ} (h : i ≤ j) : pageSize i ≤ pageSize j :=
  Nat.le_of_dvd (pageSize_pos j) (pageSize_dvd h)

theorem pageSize_dvd_word {i : ℕ} (hi : i ≤ 5) : pageSize i ∣ 2 ^ 64 :=
  Nat.pow_dvd_pow 2 (by omega)

theorem four_dvd_pageSize (i : ℕ) : 4 ∣ pageSize i := by
  rw [pageSize, Nat.pow_add]
  exact Dvd.dvd.mul_right (by norm_num) _

theorem page_dvd_pageSize (i : ℕ) : 4096 ∣ pageSize i := pageSize_dvd (Nat.zero_le i)

theorem vpn_lt (i a : ℕ) : vpn i a < 512 := Nat.mod_lt _ (by norm_num)

/-- The offset in a page of level `i + 1`: a virtual page number and the offset in a page of level
`i`. -/
theorem mod_pageSize_succ (i a : ℕ) :
    a % pageSize (i + 1) = vpn i a * pageSize i + a % pageSize i := by
  rw [pageSize_succ, Nat.mul_comm 512, Nat.mod_mul, vpn, Nat.mul_comm, Nat.add_comm]

/-- The virtual page number of an address that is put together from one. -/
theorem vpn_mul_add {i v r : ℕ} (hv : v < 512) (hr : r < pageSize i) :
    vpn i (v * pageSize i + r) = v := by
  rw [vpn, Nat.mul_comm, Nat.mul_add_div (pageSize_pos i), Nat.div_eq_of_lt hr, Nat.add_zero,
    Nat.mod_eq_of_lt hv]

/-- The virtual page numbers below depend on the offset. -/
theorem vpn_mul_add_of_lt {i j : ℕ} (hj : j < i) (v r : ℕ) :
    vpn j (v * pageSize i + r) = vpn j r := by
  obtain ⟨k, hk⟩ := pageSize_dvd (show j + 1 ≤ i by omega)
  rw [vpn, vpn, hk, pageSize_succ, show v * (512 * pageSize j * k) + r =
    pageSize j * (512 * (v * k)) + r by ring, Nat.mul_add_div (pageSize_pos j), Nat.mul_add_mod]

theorem getVpnNumber_lt (a : Usize) (i : ℕ) : getVpnNumber a i 8 < 512 := by
  rw [getVpnNumber, getEntryCount_sub_one isPteSize_eight, vpnBits_eight,
    toNat_and_lowMask _ (by norm_num)]
  omega

theorem getVpnNumber_eight {i : ℕ} (hi : i ≤ 6) (a : Usize) :
    getVpnNumber a i 8 = vpn i a.toNat := by
  rw [getVpnNumber_eq_field isPteSize_eight (by rw [vpnBits_eight]; omega), vpnBits_eight, field,
    vpn, pageSize, Nat.mul_comm i 9]
  rfl

theorem toNat_getVpnSize {i : ℕ} (hi : i ≤ 5) : (getVpnSize i 8).toNat = pageSize i := by
  rw [getVpnSize, getVpnOffset_eq (by rw [vpnBits_eight]; omega), vpnBits_eight,
    BitVec.toNat_shiftLeft, Nat.shiftLeft_eq, pageSize, Nat.mul_comm i 9]
  have : (2 : ℕ) ^ (12 + 9 * i) < 2 ^ 64 := Nat.pow_lt_pow_right (by omega) (by omega)
  rw [show (1 : Usize).toNat = 1 from rfl, Nat.one_mul, Nat.mod_eq_of_lt this]

/-- The alignment mask of a level tests divisibility by its page size. -/
theorem and_alignMask_ne_zero {i : ℕ} (hi : i ≤ 5) (x : Usize) :
    ((alignMask i 8 &&& x) != 0) = decide (x.toNat % pageSize i ≠ 0) := by
  -- The mask is a low mask, so masking leaves the remainder modulo the page size.
  have hmask : alignMask i 8 = BitVec.ofNat 64 (2 ^ (12 + 9 * i) - 1) := by
    refine BitVec.eq_of_toNat_eq ?_
    have hpos := pageSize_pos i
    rw [alignMask, Usize.toNat_sub_of_le (by rw [toNat_getVpnSize hi]; exact hpos),
      toNat_getVpnSize hi, toNat_ofNat_lowMask (by omega)]
    rfl
  have hval : (alignMask i 8 &&& x).toNat = x.toNat % pageSize i := by
    rw [hmask, BitVec.and_comm, toNat_and_lowMask _ (by omega), pageSize]
  by_cases h : x.toNat % pageSize i = 0
  · have : alignMask i 8 &&& x = 0 := BitVec.eq_of_toNat_eq (hval.trans h)
    rw [this]
    simp [h]
  · have : alignMask i 8 &&& x ≠ 0 := by
      intro h0
      rw [h0] at hval
      exact h hval.symm
    rw [bne_iff_ne.mpr this]
    simp [h]

/-! ## Flag bits -/

theorem getLsbD_iff (x : Usize) (k : ℕ) : x.getLsbD k = true ↔ x.toNat / 2 ^ k % 2 = 1 := by
  rw [← BitVec.testBit_toNat, Nat.testBit_eq_decide_div_mod_eq, decide_eq_true_iff]

theorem getLsbD_eq_false_of_lt {x : Usize} {k : ℕ} (h : x.toNat < 2 ^ k) :
    x.getLsbD k = false := by
  rw [← Bool.not_eq_true, getLsbD_iff, Nat.div_eq_of_lt h]
  norm_num

theorem and_twoPow_eq_zero_iff_getLsbD (x : Usize) {k : ℕ} (hk : k < 64) :
    x &&& BitVec.ofNat 64 (2 ^ k) = 0 ↔ x.getLsbD k = false := by
  rw [and_twoPow_eq_zero_iff x hk, ← Bool.not_eq_true, getLsbD_iff]
  omega

theorem and_valid_eq_zero_iff (x : Usize) : x &&& EntryBits.valid = 0 ↔ x.getLsbD 0 = false :=
  and_twoPow_eq_zero_iff_getLsbD x (k := 0) (by norm_num)

/-- Words with the same remainder modulo `2 ^ n` have the same bits below `n`. -/
theorem getLsbD_congr {x y : Usize} {n k : ℕ} (h : x.toNat % 2 ^ n = y.toNat % 2 ^ n)
    (hk : k < n) : x.getLsbD k = y.getLsbD k := by
  rw [← BitVec.testBit_toNat, ← BitVec.testBit_toNat]
  have hx := Nat.testBit_mod_two_pow x.toNat n k
  have hy := Nat.testBit_mod_two_pow y.toNat n k
  rw [h] at hx
  simpa [hk] using hx.symm.trans hy

theorem and_readExecute_eq_zero_iff (x : Usize) :
    x &&& (EntryBits.read ||| EntryBits.execute) = 0 ↔
      x.getLsbD 1 = false ∧ x.getLsbD 3 = false := by
  rw [BitVec.and_or_distrib_left, show (0 : Usize) = 0#64 from rfl, BitVec.or_eq_zero_iff]
  exact and_congr (and_twoPow_eq_zero_iff_getLsbD x (k := 1) (by norm_num))
    (and_twoPow_eq_zero_iff_getLsbD x (k := 3) (by norm_num))

theorem toNat_and_addressMask (x : Usize) :
    (x &&& EntryBits.addressMask).toNat = x.toNat / 256 * 256 := by
  rw [show EntryBits.addressMask = ~~~BitVec.ofNat 64 (2 ^ 8 - 1) by decide]
  exact toNat_and_not_lowMask x 8

theorem toNat_and_not_addressMask (x : Usize) :
    (x &&& ~~~EntryBits.addressMask).toNat = x.toNat % 256 := by
  rw [show ~~~EntryBits.addressMask = BitVec.ofNat 64 (2 ^ 8 - 1) by decide]
  exact toNat_and_lowMask x (by norm_num)

/-- The flag bits of an entry that map or split wrote: readable or executable, or not valid. -/
def leafBits (x : Usize) : Bool := x.getLsbD 1 || x.getLsbD 3 || !x.getLsbD 0

theorem leafBits_congr {x y : Usize} (h : x.toNat % 256 = y.toNat % 256) :
    leafBits x = leafBits y := by
  unfold leafBits
  rw [getLsbD_congr (n := 8) (k := 0) h (by norm_num), getLsbD_congr (n := 8) (k := 1) h
    (by norm_num), getLsbD_congr (n := 8) (k := 3) h (by norm_num)]

namespace Entry

/-- A leaf has the flag bits of a leaf, or no address. -/
theorem isLeaf_iff (e : Entry) :
    e.isLeaf = true ↔ leafBits e.value = true ∨ e.value.toNat < 256 := by
  have hrx := and_readExecute_eq_zero_iff e.value
  have hv := and_valid_eq_zero_iff e.value
  -- Nothing is left by the address mask when only the 8 flag bits are set.
  have ha : e.value &&& EntryBits.addressMask = 0 ↔ e.value.toNat < 256 := by
    rw [← BitVec.toNat_inj, toNat_and_addressMask]
    simp
  simp only [isLeaf, leafBits, Bool.or_eq_true, bne_iff_ne, beq_iff_eq, Bool.not_eq_true', ne_eq,
    hrx, hv, ha]
  cases e.value.getLsbD 1 <;> cases e.value.getLsbD 3 <;> simp

theorem isLeaf_of_leafBits {e : Entry} (h : leafBits e.value = true) : e.isLeaf = true :=
  (isLeaf_iff e).mpr (Or.inl h)

/-- The physical page number of an entry, with the bits above it. -/
def ppn (e : Entry) : ℕ := e.value.toNat / 2 ^ 10

theorem toNat_address (e : Entry) :
    e.address.toNat = e.value.toNat / 256 * 1024 % 2 ^ 64 := by
  rw [address, BitVec.toNat_shiftLeft, toNat_and_addressMask, Nat.shiftLeft_eq]
  congr 1
  omega

end Entry

end AsyncKernel
