import AsyncKernel.Paging.Fields

/-!
# The fields of an address

An address is its page offset, its virtual page numbers, and what lies above the last of them. The
fields do not overlap and leave no bit out, so a virtual page number reads back as it was written,
nothing else changes, and the page offset with all the numbers is the address below the width of the
scheme.

## Main definitions

* `DecomposesExactly`: the fields of an address are independent and complete

## Main results

* `decomposesExactly`: this holds of every address, for every scheme that fits into a word
-/

namespace AsyncKernel

section Decompose

variable {ptesize levels : ℕ}

/-- An entry count is the number of the values of a virtual page number. -/
theorem toNat_getEntryCount (hp : IsPteSize ptesize) :
    (getEntryCount ptesize).toNat = 2 ^ vpnBits ptesize := by
  rcases hp with rfl | rfl <;> rfl

/-- A virtual page number reads back as it was written. -/
theorem getVpnNumber_setVpnNumber (hp : IsPteSize ptesize) (a : Usize) {i v : ℕ}
    (hi : 12 + i * vpnBits ptesize + vpnBits ptesize ≤ 64) (hv : v < 2 ^ vpnBits ptesize) :
    getVpnNumber (setVpnNumber a i v ptesize) i ptesize = v := by
  refine Nat.eq_of_testBit_eq fun k => ?_
  rw [testBit_getVpnNumber hp (by omega), getLsbD_setVpnNumber hp hi a hv]
  by_cases hk : k < vpnBits ptesize
  · rw [if_pos ((vpnField_iff hp).mp ⟨by omega, by omega⟩), Nat.add_sub_cancel_left,
      decide_eq_true hk, Bool.true_and]
  · rw [decide_eq_false hk, Bool.false_and]
    exact (Nat.testBit_lt_two_pow
      (hv.trans_le (Nat.pow_le_pow_right two_pos (Nat.le_of_not_lt hk)))).symm

/-- Writing a virtual page number keeps the others. -/
theorem getVpnNumber_setVpnNumber_of_ne (hp : IsPteSize ptesize) (a : Usize) {i j v : ℕ}
    (hi : 12 + i * vpnBits ptesize + vpnBits ptesize ≤ 64)
    (hj : 12 + j * vpnBits ptesize + vpnBits ptesize ≤ 64) (hne : j ≠ i)
    (hv : v < 2 ^ vpnBits ptesize) :
    getVpnNumber (setVpnNumber a i v ptesize) j ptesize = getVpnNumber a j ptesize := by
  refine Nat.eq_of_testBit_eq fun k => ?_
  rw [testBit_getVpnNumber hp (by omega), testBit_getVpnNumber hp (by omega),
    getLsbD_setVpnNumber hp hi a hv]
  by_cases hk : k < vpnBits ptesize
  · -- a bit of field `j`, which is not one of field `i`
    have hfield := (vpnField_iff hp (j := j) (k := 12 + j * vpnBits ptesize + k)).mp
      ⟨by omega, by omega⟩
    rw [if_neg fun h => hne (hfield.2.symm.trans h.2)]
  · rw [decide_eq_false hk, Bool.false_and, Bool.false_and]

/-- Writing a virtual page number keeps the bits below and above its field. -/
theorem getLsbD_setVpnNumber_of_outside (hp : IsPteSize ptesize) (a : Usize) {i v k : ℕ}
    (hi : 12 + i * vpnBits ptesize + vpnBits ptesize ≤ 64) (hv : v < 2 ^ vpnBits ptesize)
    (hk : k < getVpnOffset i ptesize ∨ getVpnOffset i ptesize + vpnBits ptesize ≤ k) :
    (setVpnNumber a i v ptesize).getLsbD k = a.getLsbD k := by
  rw [getVpnOffset_eq (by omega)] at hk
  have houtside : ¬ (12 ≤ k ∧ (k - 12) / vpnBits ptesize = i) := by
    intro h
    have hfield := (vpnField_iff hp).mpr h
    omega
  rw [getLsbD_setVpnNumber hp hi a hv, if_neg houtside]

/-- The page offset and the virtual page numbers, written in any order, are the address up to the
width of the scheme. -/
theorem toNat_foldl_setVpnNumber (hp : IsPteSize ptesize)
    (hlevels : 12 + levels * vpnBits ptesize ≤ 64) (a : Usize) {order : List ℕ}
    (horder : order.Perm (List.range levels)) :
    (order.foldl (fun x j => setVpnNumber x j (getVpnNumber a j ptesize) ptesize)
      (getPageOffset a)).toNat = a.toNat % 2 ^ getVpnOffset levels ptesize := by
  have hfits : ∀ j ∈ order, 12 + j * vpnBits ptesize + vpnBits ptesize ≤ 64 :=
    fun j hj => field_fits hlevels (List.mem_range.mp (horder.mem_iff.mp hj))
  -- The fields of all the levels are the bits from the page offset to the width of the scheme.
  have hbits : ∀ k, 12 ≤ k ∧ (k - 12) / vpnBits ptesize ∈ order ↔
      12 ≤ k ∧ k < 12 + levels * vpnBits ptesize := by
    intro k
    rw [horder.mem_iff, List.range_eq_range', vpnFields_iff hp, Nat.zero_mul, Nat.add_zero,
      Nat.zero_add]
  refine Nat.eq_of_testBit_eq fun k => ?_
  rw [BitVec.testBit_toNat, getLsbD_foldl_setVpnNumber hp a hfits, getLsbD_getPageOffset,
    getVpnOffset_eq (by omega), Nat.testBit_mod_two_pow, BitVec.testBit_toNat,
    if_congr (hbits k) rfl rfl]
  by_cases hoffset : k < 12
  · rw [if_neg (by omega), decide_eq_true hoffset, decide_eq_true (by omega)]
  by_cases hbelow : k < 12 + levels * vpnBits ptesize
  · rw [if_pos (by omega), decide_eq_true hbelow, Bool.true_and]
  · rw [if_neg (by omega), decide_eq_false hoffset, decide_eq_false hbelow]

variable (ptesize levels) in
/-- The virtual page numbers of `a` at the levels below `levels` are independent of one another, and
with the page offset they are all of the address that the scheme translates. -/
structure DecomposesExactly (a : Usize) : Prop where
  get_set : ∀ i < levels, ∀ v < (getEntryCount ptesize).toNat,
    getVpnNumber (setVpnNumber a i v ptesize) i ptesize = v
  get_set_ne : ∀ i < levels, ∀ j < levels, j ≠ i → ∀ v < (getEntryCount ptesize).toNat,
    getVpnNumber (setVpnNumber a i v ptesize) j ptesize = getVpnNumber a j ptesize
  frame : ∀ i < levels, ∀ v < (getEntryCount ptesize).toNat, ∀ k,
    k < getVpnOffset i ptesize ∨ getVpnOffset i ptesize + (12 - ptesize.log2) ≤ k →
      (setVpnNumber a i v ptesize).getLsbD k = a.getLsbD k
  rebuild : ∀ order : List ℕ, order.Perm (List.range levels) →
    (order.foldl (fun x j => setVpnNumber x j (getVpnNumber a j ptesize) ptesize)
      (getPageOffset a)).toNat = a.toNat % 2 ^ getVpnOffset levels ptesize

/-- **The fields of an address are an exact decomposition** of it. -/
theorem decomposesExactly (hp : IsPteSize ptesize)
    (hlevels : 12 + levels * (12 - ptesize.log2) ≤ 64) (a : Usize) :
    DecomposesExactly ptesize levels a where
  get_set _ hi _ hv :=
    getVpnNumber_setVpnNumber hp a (field_fits hlevels hi) (toNat_getEntryCount hp ▸ hv)
  get_set_ne _ hi _ hj hne _ hv :=
    getVpnNumber_setVpnNumber_of_ne hp a (field_fits hlevels hi) (field_fits hlevels hj) hne
      (toNat_getEntryCount hp ▸ hv)
  frame _ hi _ hv _ hk :=
    getLsbD_setVpnNumber_of_outside hp a (field_fits hlevels hi) (toNat_getEntryCount hp ▸ hv) hk
  rebuild _ horder := toNat_foldl_setVpnNumber hp hlevels a horder

/-- Every address of the widest scheme of 4-byte entries that fits into a word. -/
theorem decomposesExactly_five_levels : DecomposesExactly 4 5 0xfedcba9876543210 :=
  decomposesExactly (Or.inl rfl) (by decide) _

end Decompose

end AsyncKernel
