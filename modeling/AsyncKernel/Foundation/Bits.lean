import Mathlib.Data.Nat.Bitwise
import Mathlib.Tactic

/-!
# Masks, shifts and bit fields of machine words

A masked or shifted word is read as a quotient or a remainder of its value: a low mask is a
remainder, its complement a rounding down, a disjoint `or` a sum. A *field* of a word is `width`
consecutive bits from `offset` on; replacing one keeps the bits below and above it.

## Main results

* `toNat_and_lowMask`, `toNat_and_not_lowMask`: the low bits and the remaining bits of a word
* `and_twoPow_eq_zero_iff`: testing one bit with a mask
* `toNat_or_of_dvd_of_lt`: an `or` of words without common bits is a sum
* `or_not_lowMask_eq_signExtend`, `and_lowMask_eq_signExtend`: masks that extend the sign
* `testBit_field`, `getLsbD_replaceField`: reading a field, and clearing one and writing a value into
  it
-/

namespace Bits

variable {w : ℕ}

/-! ## Masks -/

theorem toNat_ofNat_lowMask {k : ℕ} (hk : k ≤ w) :
    (BitVec.ofNat w (2 ^ k - 1)).toNat = 2 ^ k - 1 := by
  rw [BitVec.toNat_ofNat]
  have hpow : 2 ^ k ≤ 2 ^ w := Nat.pow_le_pow_right (by omega) hk
  have hpos : 0 < 2 ^ k := Nat.two_pow_pos k
  exact Nat.mod_eq_of_lt (by omega)

/-- A low mask keeps the remainder. -/
theorem toNat_and_lowMask (x : BitVec w) {k : ℕ} (hk : k ≤ w) :
    (x &&& BitVec.ofNat w (2 ^ k - 1)).toNat = x.toNat % 2 ^ k := by
  rw [BitVec.toNat_and, toNat_ofNat_lowMask hk, Nat.and_two_pow_sub_one_eq_mod]

theorem getLsbD_lowMask {k i : ℕ} :
    (BitVec.ofNat w (2 ^ k - 1)).getLsbD i = (decide (i < w) && decide (i < k)) := by
  rw [BitVec.getLsbD_ofNat, Nat.testBit_two_pow_sub_one]

theorem testBit_eq_false_of_le (x : BitVec w) {i : ℕ} (hi : w ≤ i) : x.toNat.testBit i = false :=
  Nat.testBit_lt_two_pow (lt_of_lt_of_le x.isLt (Nat.pow_le_pow_right (by omega) hi))

/-- The complement of a low mask rounds down. -/
theorem toNat_and_not_lowMask (x : BitVec w) (k : ℕ) :
    (x &&& ~~~BitVec.ofNat w (2 ^ k - 1)).toNat = x.toNat / 2 ^ k * 2 ^ k := by
  rw [Nat.mul_comm]
  -- Compare bit by bit; bits of `x` from `w` on are clear, so the two masks agree there.
  refine Nat.eq_of_testBit_eq fun i => ?_
  rw [Nat.testBit_two_pow_mul, Nat.testBit_div_two_pow, BitVec.testBit_toNat, BitVec.getLsbD_and,
    BitVec.getLsbD_not, getLsbD_lowMask, ← BitVec.testBit_toNat]
  by_cases hw : i < w
  · by_cases hk : i < k
    · simp [hw, hk, show ¬ k ≤ i by omega]
    · simp [hw, hk, show k ≤ i by omega]
  · simp [testBit_eq_false_of_le x (by omega : w ≤ i)]
    intro hk
    rw [Nat.sub_add_cancel hk]
    exact testBit_eq_false_of_le x (by omega)

/-- Masking with one bit tests that bit. -/
theorem and_twoPow_eq_zero_iff (x : BitVec w) {k : ℕ} (hk : k < w) :
    x &&& BitVec.ofNat w (2 ^ k) = 0 ↔ x.toNat / 2 ^ k % 2 = 0 := by
  have hpow : 2 ^ k < 2 ^ w := Nat.pow_lt_pow_right (by omega) hk
  rw [← BitVec.toNat_inj, BitVec.toNat_and, BitVec.toNat_ofNat, Nat.mod_eq_of_lt hpow,
    Nat.and_two_pow x.toNat, Nat.testBit_eq_decide_div_mod_eq]
  rcases Nat.mod_two_eq_zero_or_one (x.toNat / 2 ^ k) with h | h <;> simp [h]

/-- An `or` of a multiple of `2 ^ k` with a word below `2 ^ k` is their sum. -/
theorem toNat_or_of_dvd_of_lt {x y : BitVec w} {k : ℕ} (hx : 2 ^ k ∣ x.toNat)
    (hy : y.toNat < 2 ^ k) : (x ||| y).toNat = x.toNat + y.toNat := by
  obtain ⟨a, ha⟩ := hx
  rw [BitVec.toNat_or, ha, ← Nat.two_pow_add_eq_or_of_lt hy]

/-! ## Sign extension -/

/-- Setting the bits from `k` on extends the sign of a word whose bit below `k` is set. -/
theorem or_not_lowMask_eq_signExtend (x : BitVec w) {k : ℕ} (hk : 0 < k)
    (hsign : x.getLsbD (k - 1) = true) :
    x ||| ~~~BitVec.ofNat w (2 ^ k - 1) = (x.setWidth k).signExtend w := by
  refine BitVec.eq_of_getLsbD_eq fun i hi => ?_
  rw [BitVec.getLsbD_or, BitVec.getLsbD_not, getLsbD_lowMask, BitVec.getLsbD_signExtend,
    BitVec.getLsbD_setWidth, BitVec.msb_setWidth, hsign]
  by_cases hik : i < k <;> simp [hi, hik, hk]

/-- Clearing the bits from `k` on extends the sign of a word whose bit below `k` is clear. -/
theorem and_lowMask_eq_signExtend (x : BitVec w) {k : ℕ} (hsign : x.getLsbD (k - 1) = false) :
    x &&& BitVec.ofNat w (2 ^ k - 1) = (x.setWidth k).signExtend w := by
  refine BitVec.eq_of_getLsbD_eq fun i hi => ?_
  rw [BitVec.getLsbD_and, getLsbD_lowMask, BitVec.getLsbD_signExtend, BitVec.getLsbD_setWidth,
    BitVec.msb_setWidth, hsign]
  by_cases hik : i < k <;> simp [hi, hik]

/-- A sign extension keeps the low bits. -/
theorem toNat_signExtend_mod (x : BitVec w) {k : ℕ} (hk : k ≤ w) :
    ((x.setWidth k).signExtend w).toNat % 2 ^ k = x.toNat % 2 ^ k := by
  rw [← BitVec.toNat_setWidth, ← BitVec.toNat_setWidth]
  congr 1
  refine BitVec.eq_of_getLsbD_eq fun i hi => ?_
  rw [BitVec.getLsbD_setWidth, BitVec.getLsbD_signExtend, BitVec.getLsbD_setWidth]
  simp [hi, show i < w by omega]

/-! ## Fields -/

/-- The `width` bits of `a` from `offset` on. -/
def field (offset width a : ℕ) : ℕ := a / 2 ^ offset % 2 ^ width

theorem field_lt (offset width a : ℕ) : field offset width a < 2 ^ width :=
  Nat.mod_lt _ (Nat.two_pow_pos _)

theorem testBit_field (offset width a k : ℕ) :
    (field offset width a).testBit k = (decide (k < width) && a.testBit (offset + k)) := by
  rw [field, Nat.testBit_mod_two_pow, Nat.testBit_div_two_pow, Nat.add_comm]

/-- A field does not depend on the bits above it. -/
theorem field_mod_two_pow {offset width n : ℕ} (h : offset + width ≤ n) (a : ℕ) :
    field offset width (a % 2 ^ n) = field offset width a := by
  obtain ⟨k, rfl⟩ := Nat.exists_eq_add_of_le h
  rw [field, field, Nat.pow_add, Nat.pow_add, Nat.mul_assoc, Nat.mod_mul_right_div_self,
    Nat.mod_mul_right_mod]

/-- Dropping the bits from `b` on changes the bits from `a` on, unless there are none. -/
theorem mod_div_eq_div_iff (q : ℕ) {a b : ℕ} (h : a ≤ b) :
    q % 2 ^ b / 2 ^ a = q / 2 ^ a ↔ q < 2 ^ b := by
  constructor
  · intro heq
    by_contra hlt
    -- Otherwise the quotient keeps a bit from `c` on, which the remainder has lost.
    obtain ⟨c, rfl⟩ := Nat.exists_eq_add_of_le h
    rw [Nat.pow_add, Nat.mod_mul_right_div_self] at heq
    have hle : 2 ^ c ≤ q / 2 ^ a := by
      rw [Nat.le_div_iff_mul_le (Nat.two_pow_pos a), Nat.mul_comm, ← Nat.pow_add]
      omega
    have := Nat.mod_lt (q / 2 ^ a) (Nat.two_pow_pos c)
    omega
  · intro hlt
    rw [Nat.mod_eq_of_lt hlt]

/-- Replacing a field changes its own bits only. -/
theorem getLsbD_replaceField (x y : BitVec w) {offset width k : ℕ} (hw : offset + width ≤ w)
    (hy : y.toNat < 2 ^ width) :
    ((x &&& ~~~(BitVec.ofNat w (2 ^ width - 1) <<< offset)) ||| (y <<< offset)).getLsbD k =
      if offset ≤ k ∧ k < offset + width then y.getLsbD (k - offset) else x.getLsbD k := by
  by_cases hkw : k < w
  · rw [BitVec.getLsbD_or, BitVec.getLsbD_and, BitVec.getLsbD_not, BitVec.getLsbD_shiftLeft,
      BitVec.getLsbD_shiftLeft, getLsbD_lowMask]
    by_cases hlow : offset ≤ k
    · by_cases hhigh : k < offset + width
      · rw [if_pos ⟨hlow, hhigh⟩]
        simp [hkw, show ¬ k < offset by omega, show k - offset < width by omega,
          show k - offset < w by omega]
      · -- above the field, where `y` has no bits
        have hclear : y.getLsbD (k - offset) = false := by
          rw [← BitVec.testBit_toNat]
          exact Nat.testBit_lt_two_pow
            (hy.trans_le (Nat.pow_le_pow_right two_pos (show width ≤ k - offset by omega)))
        rw [if_neg fun h => hhigh h.2]
        simp [hkw, hclear, show ¬ k - offset < width by omega]
    · rw [if_neg fun h => hlow h.1]
      simp [hkw, show k < offset by omega]
  · have hge : w ≤ k := Nat.le_of_not_lt hkw
    rw [if_neg (by omega), BitVec.getLsbD_of_ge _ _ hge, BitVec.getLsbD_of_ge _ _ hge]

end Bits
