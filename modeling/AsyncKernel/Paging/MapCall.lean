import AsyncKernel.Paging.Fields

/-!
# The arithmetic of one `map` call

The loop bounds, the alignment tests and the written entries of `map_internal`, for 8-byte entries,
as arithmetic on the values of the arguments.

## Main definitions

* `MapCall.Aligned`: what `map` asserts of its arguments
* `MapCall.first`, `MapCall.last`: the bounds of the loop at a level
* `MapCall.delta`: the wrapping difference of the physical and the virtual address

## Main results

* `MapCall.vpnEnd_eq_ok`: the loop bounds are `first` and `last`
* `MapCall.splitsAt_iff`: which entries of a level are split
* `MapCall.newEntry_mod`, `MapCall.ppn_newEntry`: the flags and the page number of a written entry
* `MapCall.newEntry_exact`: the value of a written entry, exactly
-/

namespace AsyncKernel

open Bits

namespace MapCall

/-- What `map` asserts: the addresses and the length are multiples of the page size. -/
structure Aligned (c : MapCall) : Prop where
  physical : 4096 ∣ c.physicalAddr.toNat
  virtual : 4096 ∣ c.virtualAddr.toNat
  length : 4096 ∣ c.length.toNat

variable (c : MapCall)

/-- One past the last byte of the range. -/
def stop : ℕ := c.virtualAddr.toNat + c.length.toNat

/-- The first index of the loop at a level. -/
def first (level : ℕ) : ℕ := vpn level c.virtualAddr.toNat

/-- The last index of the loop at a level: at level 0 that of the byte past the range, at the other
levels that of its last byte, and 511 when this lies before the first index. -/
def last (level : ℕ) : ℕ :=
  let index := vpn level (if level = 0 then c.stop else c.stop - 1)
  if index < c.first level then 511 else index

/-- The wrapping difference of the physical and the virtual address. -/
def delta : ℕ := (c.physicalAddr - c.virtualAddr).toNat

theorem virtual_add_delta :
    (c.virtualAddr.toNat + c.delta) % 2 ^ 64 = c.physicalAddr.toNat := by
  have hv := c.virtualAddr.isLt
  have hp := c.physicalAddr.isLt
  rw [delta, BitVec.toNat_sub]
  omega

theorem vpnStart_eight {level : ℕ} (hl : level ≤ 6) : c.vpnStart level 8 = c.first level :=
  getVpnNumber_eight hl _

theorem last_lt (level : ℕ) : c.last level < 512 := by
  unfold last
  extract_lets index
  split
  · norm_num
  · exact vpn_lt _ _

theorem first_le_last (level : ℕ) : c.first level ≤ c.last level := by
  have := vpn_lt level c.virtualAddr.toNat
  unfold last
  extract_lets index
  split
  · unfold first
    omega
  · omega

variable {c}

/-- The loop bounds are computed without overflow when the range is not empty at 0 and ends below
`2 ^ 64`. -/
theorem vpnEnd_eq_ok {level : ℕ} (hl : level ≤ 6) (hpos : level ≠ 0 → 0 < c.stop)
    (hstop : c.stop < 2 ^ 64) : c.vpnEnd level 8 = .ok (c.last level) := by
  have hadd : (c.virtualAddr + c.length).toNat = c.stop := Usize.toNat_add_of_lt hstop
  -- `virtual_addr + length` and the subtraction of 1 are both checked.
  have hend : c.virtEnd level = .ok (c.virtualAddr + c.length - if level = 0 then 0 else 1) := by
    rw [virtEnd, Usize.checkedAdd_eq_ok hstop]
    refine Usize.checkedSub_eq_ok ?_
    rw [hadd]
    split
    · exact Nat.zero_le _
    · exact hpos ‹_›
  have hval : (c.virtualAddr + c.length - if level = 0 then 0 else 1).toNat =
      if level = 0 then c.stop else c.stop - 1 := by
    split
    · rw [show (0 : Usize) = 0#64 from rfl, BitVec.sub_zero, hadd]
    · rw [Usize.toNat_sub_of_le (by rw [hadd]; exact hpos ‹_›), hadd]
      rfl
  rw [vpnEnd, hend]
  simp only [bind, Except.bind]
  rw [getVpnNumber_eight hl, hval, c.vpnStart_eight hl, last]
  exact (apply_ite Except.ok _ _ _).symm

/-- A call whose loop bounds overflow does not pass its first level. -/
theorem stop_of_vpnEnd_eq_ok {level n : ℕ} (h : c.vpnEnd level 8 = .ok n) :
    (level ≠ 0 → 0 < c.stop) ∧ c.stop < 2 ^ 64 := by
  unfold vpnEnd virtEnd Usize.checkedAdd Usize.checkedSub at h
  by_cases hstop : c.virtualAddr.toNat + c.length.toNat < 2 ^ 64
  · refine ⟨fun hl => ?_, hstop⟩
    rw [if_pos hstop, if_neg hl] at h
    simp only [bind, Except.bind] at h
    rw [Usize.toNat_add_of_lt hstop] at h
    -- at the levels above 0 an empty range at 0 makes `0 - 1` overflow
    by_contra hpos
    rw [if_neg (show ¬ (1 : Usize).toNat ≤ c.virtualAddr.toNat + c.length.toNat from hpos)] at h
    cases h
  · rw [if_neg hstop] at h
    cases h

/-! ## Alignment -/

theorem page_dvd_delta (h : c.Aligned) : 4096 ∣ c.delta := by
  obtain ⟨⟨p, hp⟩, ⟨v, hv⟩, -⟩ := h
  unfold delta
  rw [BitVec.toNat_sub, hp, hv]
  omega

theorem offset_shiftLeft (h : c.Aligned) : c.offset <<< 2 = c.physicalAddr - c.virtualAddr := by
  refine BitVec.eq_of_toNat_eq ?_
  have hd := page_dvd_delta h
  have hlt := (c.physicalAddr - c.virtualAddr).isLt
  unfold delta at hd
  -- The two bits that the shift to the right drops are clear.
  rw [offset, BitVec.toNat_shiftLeft, BitVec.toNat_ushiftRight, Nat.shiftRight_eq_div_pow,
    Nat.shiftLeft_eq]
  omega

/-- The start of the range, virtual or physical, is not aligned to a level. -/
theorem startMisaligned_iff (h : c.Aligned) {level : ℕ} (hl : level ≤ 5) :
    c.startMisaligned level 8 = true ↔
      ¬ pageSize level ∣ c.virtualAddr.toNat ∨ ¬ pageSize level ∣ c.physicalAddr.toNat := by
  rw [startMisaligned, and_alignMask_ne_zero hl, and_alignMask_ne_zero hl, offset_shiftLeft h,
    BitVec.add_comm c.virtualAddr, BitVec.sub_add_cancel]
  simp [Nat.dvd_iff_mod_eq_zero]

/-- The end of the range, virtual or physical, is not aligned to a level. -/
theorem endMisaligned_iff (h : c.Aligned) {level : ℕ} (hl : level ≤ 5) :
    c.endMisaligned level 8 = true ↔
      ¬ pageSize level ∣ c.stop ∨ ¬ pageSize level ∣ c.physicalAddr.toNat + c.length.toNat := by
  -- The virtual end moved by the difference is the physical end, in wrapping arithmetic.
  have hsum : c.virtualAddr + c.length + (c.physicalAddr - c.virtualAddr) =
      c.physicalAddr + c.length := by
    bv_omega
  rw [endMisaligned, and_alignMask_ne_zero hl, and_alignMask_ne_zero hl, offset_shiftLeft h, hsum,
    BitVec.toNat_add, BitVec.toNat_add, Nat.mod_mod_of_dvd _ (pageSize_dvd_word hl),
    Nat.mod_mod_of_dvd _ (pageSize_dvd_word hl)]
  simp [stop, Nat.dvd_iff_mod_eq_zero]

/-- Which entries of a level are split, when they are leaves. -/
theorem splitsAt_iff (h : c.Aligned) {level : ℕ} (hl : level ≤ 5) (v : ℕ) :
    c.splitsAt level 8 (c.last level) v = true ↔
      (v = c.first level ∧ (¬ pageSize level ∣ c.virtualAddr.toNat ∨
        ¬ pageSize level ∣ c.physicalAddr.toNat)) ∨
      (v = c.last level ∧ (¬ pageSize level ∣ c.stop ∨
        ¬ pageSize level ∣ c.physicalAddr.toNat + c.length.toNat)) := by
  rw [splitsAt, Bool.or_eq_true, Bool.and_eq_true, Bool.and_eq_true, beq_iff_eq, beq_iff_eq,
    startMisaligned_iff h hl, endMisaligned_iff h hl, c.vpnStart_eight (by omega)]

/-! ## Written entries -/

theorem toNat_newEntry (c : MapCall) (cur : Usize) :
    (c.newEntry cur).value.toNat =
      ((cur.toNat / 4 ||| c.flags.toNat) + c.delta / 4) % 2 ^ 54 := by
  rw [newEntry, unreservedBitsMask, toNat_and_lowMask _ (by norm_num), BitVec.toNat_add,
    BitVec.toNat_or, BitVec.toNat_ushiftRight, offset, BitVec.toNat_ushiftRight,
    Nat.shiftRight_eq_div_pow, Nat.shiftRight_eq_div_pow, delta]
  exact Nat.mod_mod_of_dvd _ (Nat.pow_dvd_pow 2 (by norm_num))

theorem newEntry_lt (c : MapCall) (cur : Usize) : (c.newEntry cur).value.toNat < 2 ^ 54 := by
  rw [toNat_newEntry]
  exact Nat.mod_lt _ (by norm_num)

/-- A written entry carries the flags of the call. -/
theorem newEntry_mod (h : c.Aligned) {cur : Usize} (hcur : 4096 ∣ cur.toNat) :
    (c.newEntry cur).value.toNat % 2 ^ 10 = c.flags.toNat % 2 ^ 10 := by
  obtain ⟨a, ha⟩ := hcur
  obtain ⟨d, hd⟩ := page_dvd_delta h
  -- Page-aligned addresses have no bits in the flags, and neither has the difference.
  have hor : (cur.toNat / 4 ||| c.flags.toNat) % 2 ^ 10 = c.flags.toNat % 2 ^ 10 := by
    rw [Nat.or_mod_two_pow, ha, show 4096 * a / 4 % 2 ^ 10 = 0 by omega, Nat.zero_or]
  rw [toNat_newEntry, hd]
  omega

/-- A written entry carries the page number of its address, moved by the difference of the physical
and the virtual address. -/
theorem ppn_newEntry (h : c.Aligned) (hflags : c.flags.toNat < 2 ^ 10) {cur : Usize}
    (hcur : 4096 ∣ cur.toNat) :
    (c.newEntry cur).ppn = (cur.toNat + c.delta) / 4096 % 2 ^ 44 := by
  obtain ⟨a, ha⟩ := hcur
  obtain ⟨d, hd⟩ := page_dvd_delta h
  -- The flags lie below the page number, so the `or` is a sum and the carry stops there.
  have hor : cur.toNat / 4 ||| c.flags.toNat = 2 ^ 10 * a + c.flags.toNat := by
    rw [ha, show 4096 * a / 4 = 2 ^ 10 * a by omega, Nat.two_pow_add_eq_or_of_lt hflags]
  rw [Entry.ppn, toNat_newEntry, hor, hd, ha]
  omega

theorem leafBits_newEntry (h : c.Aligned) {cur : Usize} (hcur : 4096 ∣ cur.toNat) :
    leafBits (c.newEntry cur).value = leafBits c.flags := by
  have := newEntry_mod h hcur
  exact leafBits_congr (by omega)

theorem getLsbD_newEntry (h : c.Aligned) {cur : Usize} (hcur : 4096 ∣ cur.toNat) {k : ℕ}
    (hk : k < 10) : (c.newEntry cur).value.getLsbD k = c.flags.getLsbD k :=
  getLsbD_congr (newEntry_mod h hcur) hk

/-! ## The value of a written entry, exactly -/

/-- **The shifted difference is exact modulo the width of the page number**: what the wrapped
difference has lost by its shift is a multiple of `2 ^ 44` pages. -/
theorem page_add_delta (h : c.Aligned) {cur : Usize} (hcur : 4096 ∣ cur.toNat) :
    (((cur.toNat + c.delta) / 4096 % 2 ^ 44 : ℕ) : ℤ) =
      ((cur.toNat : ℤ) + c.physicalAddr.toNat - c.virtualAddr.toNat) / 4096 % 2 ^ 44 := by
  obtain ⟨a, ha⟩ := hcur
  obtain ⟨d, hd⟩ := page_dvd_delta h
  -- The virtual address and the difference make up the physical address, and the carry a whole word.
  have hwrap := Nat.div_add_mod (c.virtualAddr.toNat + c.delta) (2 ^ 64)
  rw [virtual_add_delta] at hwrap
  set carry := (c.virtualAddr.toNat + c.delta) / 2 ^ 64
  have hsum : (cur.toNat : ℤ) + c.physicalAddr.toNat - c.virtualAddr.toNat =
      4096 * (a + d - 2 ^ 52 * carry) := by
    omega
  rw [hsum, Int.mul_ediv_cancel_left _ (by norm_num), ha, hd]
  omega

/-- **The value that `map` writes is exact**: the flags, and modulo `2 ^ 44` the page number of the
current address moved by the difference of the physical and the virtual address. -/
theorem newEntry_exact (c : MapCall) (cur : Usize) (hphysical : 4096 ∣ c.physicalAddr.toNat)
    (hvirtual : 4096 ∣ c.virtualAddr.toNat) (hcur : 4096 ∣ cur.toNat)
    (hflags : c.flags.toNat < 1024) :
    (c.newEntry cur).value.toNat % 2 ^ 10 = c.flags.toNat ∧
      (∀ k, 54 ≤ k → (c.newEntry cur).value.getLsbD k = false) ∧
      (((c.newEntry cur).value.toNat / 2 ^ 10 % 2 ^ 44 : ℕ) : ℤ) =
        ((cur.toNat : ℤ) + c.physicalAddr.toNat - c.virtualAddr.toNat) / 4096 % 2 ^ 44 := by
  -- The length is no part of the value, so that it may as well be 0.
  have haligned : Aligned { c with length := 0 } := ⟨hphysical, hvirtual, dvd_zero _⟩
  have hlt := newEntry_lt c cur
  refine ⟨?_, fun k hk => ?_, ?_⟩
  · exact (newEntry_mod haligned hcur).trans (Nat.mod_eq_of_lt hflags)
  · exact Nat.testBit_lt_two_pow (hlt.trans_le (Nat.pow_le_pow_right two_pos hk))
  · have hppn := ppn_newEntry haligned hflags hcur
    rw [← page_add_delta haligned hcur, ← hppn, Entry.ppn, Nat.mod_eq_of_lt (by omega)]
    rfl

/-- A physical address below the virtual one: the pages from `0x8020_0000` on at `0x4000_0000`. -/
theorem newEntry_exact_below :
    let c : MapCall := ⟨0x40000000, 0x80200000, 0, 7⟩
    (c.newEntry 0x80200000).value.toNat % 2 ^ 10 = 7 ∧
      (∀ k, 54 ≤ k → (c.newEntry 0x80200000).value.getLsbD k = false) ∧
      (((c.newEntry 0x80200000).value.toNat / 2 ^ 10 % 2 ^ 44 : ℕ) : ℤ) =
        (0x80200000 + 0x40000000 - 0x80200000) / 4096 % 2 ^ 44 :=
  newEntry_exact ⟨0x40000000, 0x80200000, 0, 7⟩ 0x80200000 (by decide) (by decide) (by decide)
    (by decide)

end MapCall

end AsyncKernel
