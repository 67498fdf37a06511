import AsyncKernel.Paging.Fields
import AsyncKernel.Foundation.Outcome

/-!
# Canonical addresses

The bits of an address above the width of a scheme. `canonicalize_address` makes them copies of the
highest bit below, `decanonicalize_address` clears them; the lookup does not read them and `map`
drops them first. So the two forms of an address are the same address for both.

## Main definitions

* `IsScheme`: the schemes of the architecture
* `GenericPaging.Indistinguishable`: two addresses that every lookup and every `map` treat alike

## Main results

* `upperMask_of_isScheme`: the mask is that of the bits above the width, for all four widths
* `queryFrom_congr`: the lookup reads the fields of its levels and the page offset
* `canonical_interchangeable`: an address, its canonical and its decanonical form
-/

namespace AsyncKernel

open Bits

/-- Sv32, Sv39, Sv48 and Sv57. -/
def IsScheme (levels ptesize : ℕ) : Prop := (levels, ptesize) ∈ [(2, 4), (3, 8), (4, 8), (5, 8)]

variable {levels ptesize : ℕ}

/-- The width of a scheme: the fields of its levels above the page offset. -/
theorem IsScheme.width (h : IsScheme levels ptesize) : IsPteSize ptesize ∧
    getVpnOffset levels ptesize = 12 + levels * vpnBits ptesize ∧
      12 < getVpnOffset levels ptesize ∧ getVpnOffset levels ptesize < 64 := by
  simp only [IsScheme, List.mem_cons, Prod.mk.injEq, List.not_mem_nil, or_false] at h
  obtain ⟨rfl, rfl⟩ | ⟨rfl, rfl⟩ | ⟨rfl, rfl⟩ | ⟨rfl, rfl⟩ := h <;>
    exact ⟨by unfold IsPteSize; omega, by decide, by decide, by decide⟩

namespace GenericPaging

/-- Two virtual addresses have the same result in every lookup, and in every call of `map` that is
otherwise the same. -/
def Indistinguishable (levels ptesize : ℕ) (a b : Usize) : Prop :=
  ∀ (self : GenericPaging levels ptesize) (mem : Memory ptesize), self.query mem a = self.query mem b ∧
    ∀ (heap : Allocator ptesize) (c : MapCall),
      self.map heap { c with virtualAddr := a } mem = self.map heap { c with virtualAddr := b } mem

/-! ## The mask -/

theorem upperMask_of_isScheme (h : IsScheme levels ptesize) :
    upperMask levels ptesize = .ok (~~~BitVec.ofNat 64 (2 ^ getVpnOffset levels ptesize - 1)) := by
  simp only [IsScheme, List.mem_cons, Prod.mk.injEq, List.not_mem_nil, or_false] at h
  obtain ⟨rfl, rfl⟩ | ⟨rfl, rfl⟩ | ⟨rfl, rfl⟩ | ⟨rfl, rfl⟩ := h <;> rfl

section Forms

variable (h : IsScheme levels ptesize) (a : Usize)

include h

theorem canonicalizeAddress_eq_signExtend : canonicalizeAddress levels ptesize a =
    .ok ((a.setWidth (getVpnOffset levels ptesize)).signExtend 64) := by
  obtain ⟨-, -, hlo, hhi⟩ := h.width
  have hbit : (a >>> (getVpnOffset levels ptesize - 1)) &&& 1 = 0 ↔
      a.getLsbD (getVpnOffset levels ptesize - 1) = false := by
    have hfirst := and_twoPow_eq_zero_iff_getLsbD (a >>> (getVpnOffset levels ptesize - 1))
      (k := 0) (by norm_num)
    rw [BitVec.getLsbD_ushiftRight, Nat.add_zero] at hfirst
    exact hfirst
  rw [canonicalizeAddress, upperMask_of_isScheme h, ok_bind, BitVec.not_not]
  cases hsign : a.getLsbD (getVpnOffset levels ptesize - 1) with
  | true =>
    rw [if_pos (hbit.not.mpr (by simp [hsign])), or_not_lowMask_eq_signExtend a (by omega) hsign]
    rfl
  | false =>
    rw [if_neg (not_not.mpr (hbit.mpr hsign)), and_lowMask_eq_signExtend a hsign]
    rfl

theorem decanonicalizeAddress_of_isScheme : decanonicalizeAddress levels ptesize a =
    .ok (a &&& BitVec.ofNat 64 (2 ^ getVpnOffset levels ptesize - 1)) := by
  rw [decanonicalizeAddress, upperMask_of_isScheme h, ok_bind, BitVec.not_not]
  rfl

end Forms

/-! ## Addresses with the same low bits -/

section LowBits

variable {a b table : Usize} {i : ℕ} {mem : Memory ptesize} {physToVirt : Usize → Usize}

theorem translatedAddress_congr (hvpn : ∀ j ≤ i, getVpnNumber a j ptesize = getVpnNumber b j ptesize)
    (hoffset : getPageOffset a = getPageOffset b) (pte : Entry) :
    translatedAddress levels ptesize a pte i = translatedAddress levels ptesize b pte i := by
  have hfields : (List.range' 0 (i + 1)).foldl
        (fun pa j => setVpnNumber pa j (getVpnNumber a j ptesize) ptesize) (getPageOffset b) =
      (List.range' 0 (i + 1)).foldl
        (fun pa j => setVpnNumber pa j (getVpnNumber b j ptesize) ptesize) (getPageOffset b) := by
    refine List.foldl_ext _ _ _ fun pa j hj => ?_
    have hlt := (List.mem_range'_1.mp hj).2
    rw [hvpn j (by omega)]
  simp only [translatedAddress, hoffset, hfields]

/-- The lookup reads the fields of its levels and the page offset. -/
theorem queryFrom_congr (hvpn : ∀ j ≤ i, getVpnNumber a j ptesize = getVpnNumber b j ptesize)
    (hoffset : getPageOffset a = getPageOffset b) :
    queryFrom levels physToVirt mem a i table = queryFrom levels physToVirt mem b i table := by
  induction i generalizing table with
  | zero =>
    unfold queryFrom
    rw [hvpn 0 le_rfl]
    simp only [translatedAddress_congr hvpn hoffset]
  | succ i ih =>
    unfold queryFrom
    rw [hvpn (i + 1) le_rfl]
    simp only [translatedAddress_congr hvpn hoffset, ih fun j hj => hvpn j (by omega)]

/-- Addresses with the same bits below the width of the scheme. -/
theorem indistinguishable_of_mod_eq (h : IsScheme levels ptesize)
    (hmod : a.toNat % 2 ^ getVpnOffset levels ptesize = b.toNat % 2 ^ getVpnOffset levels ptesize) :
    Indistinguishable levels ptesize a b := by
  obtain ⟨hp, hwidth, hlo, hhi⟩ := h.width
  intro self mem
  constructor
  · have hvpn : ∀ j ≤ levels - 1, getVpnNumber a j ptesize = getVpnNumber b j ptesize := by
      intro j hj
      have hlevel : j + 1 ≤ levels := by
        have : levels ≠ 0 := by
          rintro rfl
          omega
        omega
      have hle := Nat.mul_le_mul_right (vpnBits ptesize) hlevel
      rw [Nat.add_mul, Nat.one_mul] at hle
      rw [getVpnNumber_eq_field hp (by omega), getVpnNumber_eq_field hp (by omega),
        ← field_mod_two_pow (n := getVpnOffset levels ptesize) (by omega), hmod,
        field_mod_two_pow (by omega)]
    have hoffset : getPageOffset a = getPageOffset b := by
      refine BitVec.eq_of_toNat_eq ?_
      have hdvd := Nat.pow_dvd_pow 2 hlo.le
      rw [toNat_getPageOffset, toNat_getPageOffset, ← Nat.mod_mod_of_dvd _ hdvd, hmod,
        Nat.mod_mod_of_dvd _ hdvd]
    exact queryFrom_congr hvpn hoffset
  · intro heap c
    have hmask : a &&& BitVec.ofNat 64 (2 ^ getVpnOffset levels ptesize - 1) =
        b &&& BitVec.ofNat 64 (2 ^ getVpnOffset levels ptesize - 1) := by
      refine BitVec.eq_of_toNat_eq ?_
      rw [toNat_and_lowMask _ hhi.le, toNat_and_lowMask _ hhi.le, hmod]
    rw [map, map, decanonicalizeAddress_of_isScheme h, decanonicalizeAddress_of_isScheme h, hmask]

end LowBits

/-- **The forms of an address are interchangeable**: the canonical form extends the sign, each of
the two conversions undoes the other one, and neither a lookup nor `map` tells the forms apart. -/
theorem canonical_interchangeable (h : IsScheme levels ptesize) (a : Usize) :
    ∃ canonical decanonical,
      canonicalizeAddress levels ptesize a = .ok canonical ∧
      canonical = (a.setWidth (getVpnOffset levels ptesize)).signExtend 64 ∧
      decanonicalizeAddress levels ptesize a = .ok decanonical ∧
      decanonicalizeAddress levels ptesize canonical = .ok decanonical ∧
      canonicalizeAddress levels ptesize decanonical = .ok canonical ∧
      Indistinguishable levels ptesize canonical a ∧
      Indistinguishable levels ptesize decanonical a := by
  obtain ⟨-, -, -, hhi⟩ := h.width
  have hcanonical := toNat_signExtend_mod a hhi.le
  have hdecanonical := toNat_and_lowMask a hhi.le
  have hlow : (a &&& BitVec.ofNat 64 (2 ^ getVpnOffset levels ptesize - 1)).toNat %
      2 ^ getVpnOffset levels ptesize = a.toNat % 2 ^ getVpnOffset levels ptesize := by
    rw [hdecanonical, Nat.mod_mod]
  refine ⟨_, _, canonicalizeAddress_eq_signExtend h a, rfl, decanonicalizeAddress_of_isScheme h a,
    ?_, ?_, indistinguishable_of_mod_eq h hcanonical, indistinguishable_of_mod_eq h hlow⟩
  · rw [decanonicalizeAddress_of_isScheme h]
    congr 1
    refine BitVec.eq_of_toNat_eq ?_
    rw [toNat_and_lowMask _ hhi.le, hdecanonical, hcanonical]
  · rw [canonicalizeAddress_eq_signExtend h]
    congr 2
    refine BitVec.eq_of_toNat_eq ?_
    rw [BitVec.toNat_setWidth, BitVec.toNat_setWidth, hlow]

/-- An address of the upper half of Sv39. -/
theorem canonical_interchangeable_upper :
    ∃ canonical decanonical : Usize,
      canonicalizeAddress 3 8 0x7f12345678 = .ok canonical ∧
      canonical = ((0x7f12345678 : Usize).setWidth (getVpnOffset 3 8)).signExtend 64 ∧
      decanonicalizeAddress 3 8 0x7f12345678 = .ok decanonical ∧
      decanonicalizeAddress 3 8 canonical = .ok decanonical ∧
      canonicalizeAddress 3 8 decanonical = .ok canonical ∧
      Indistinguishable 3 8 canonical 0x7f12345678 ∧
      Indistinguishable 3 8 decanonical 0x7f12345678 :=
  canonical_interchangeable (by unfold IsScheme; decide) 0x7f12345678

example : canonicalizeAddress 3 8 0x7f12345678 = .ok 0xffffffff12345678 := by decide

end GenericPaging

end AsyncKernel
