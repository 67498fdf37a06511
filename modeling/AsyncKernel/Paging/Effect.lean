import AsyncKernel.Paging.Lookup
import AsyncKernel.Paging.Run

/-!
# What a call does to the translation of an address

A call comes to the leaf of an address from the root down. Either it rewrites the leaf, or a part of
it, at some level, or its loop at some level passes the address by. This is decided by the arguments
and by the level of the leaf alone.

## Main definitions

* `Visit`, `MapCall.visit`: where the call rewrites or misses an address
* `MapCall.effect`: the leaf of an address after the call
* `Entry.target`: the physical address a leaf gives
* `GenericPaging.LeafAt`: the leaf that the lookup of an address ends in

## Main results

* `leafAt_mapEntries`: `map` on trees has this effect on every address
* `leafResult_eq`: the result of a lookup as arithmetic on its leaf
* `query_map_eq`: the lookup of an address after a call
-/

namespace AsyncKernel

open Bits

/-- How the loops of a call treat an address. -/
inductive Visit
  /-- the leaf, or the part of it, at a level is written -/
  | rewritten (level : ℕ)
  /-- the loop at a level does not come to the address -/
  | missed (level : ℕ)
  deriving DecidableEq, Repr

/-- The address of the page of level `j` that holds `va`. -/
def pageStart (j va : ℕ) : Usize := BitVec.ofNat 64 (va / pageSize j * pageSize j)

namespace MapCall

variable (c : MapCall)

/-- How a call treats the address `va`, from the table at level `l` down, when its leaf is at level
`i`. -/
def visit (va : ℕ) : ℕ → ℕ → Visit
  | 0, _ => if c.Visits 0 (vpn 0 va) then .rewritten 0 else .missed 0
  | l + 1, i =>
    if c.Visits (l + 1) (vpn (l + 1) va) then
      if i = l + 1 ∧ c.splits (l + 1) (vpn (l + 1) va) = false then .rewritten (l + 1)
      -- a leaf that is split is, one level down, a leaf of level `l`
      else visit va l (min i l)
    else .missed (l + 1)

/-- The leaf of `va` after a call, when it was `e` at level `i`. -/
def effect (va l i : ℕ) (e : Entry) : ℕ × Entry :=
  match c.visit va l i with
  | .rewritten j => (j, c.newEntry (pageStart j va))
  | .missed j => (min i j, e.cut i (min i j) va)

variable {c} {va l i : ℕ}

theorem visit_level_le {j : ℕ} (h : c.visit va l i = .rewritten j ∨ c.visit va l i = .missed j) :
    j ≤ l := by
  induction l generalizing i with
  | zero =>
    unfold visit at h
    split at h <;> simp_all
  | succ l ih =>
    unfold visit at h
    split at h
    · split at h
      · simp_all
      · exact (ih h).trans (Nat.le_succ l)
    · simp_all

/-- A part of a leaf is treated as the leaf is. -/
theorem effect_cut (e : Entry) (va l : ℕ) :
    c.effect va l l (e.cut (l + 1) l va) =
      match c.visit va l l with
      | .rewritten j => (j, c.newEntry (pageStart j va))
      | .missed j => (min (l + 1) j, e.cut (l + 1) (min (l + 1) j) va) := by
  unfold effect
  cases hvisit : c.visit va l l with
  | rewritten j => rfl
  | missed j =>
    have hj := visit_level_le (Or.inr hvisit)
    simp only [Nat.min_eq_right hj, Nat.min_eq_right (hj.trans (Nat.le_succ l))]
    rw [Entry.cut_cut _ (Nat.le_succ l) hj]

end MapCall

theorem entryAddress_pageStart {l va : ℕ} (hl : l ≤ 4) (hva : va < 2 ^ 57) :
    MapCall.entryAddress l (pageStart (l + 1) va) (vpn l va) = pageStart l va := by
  -- The address of the page, from the address of the table it is in and its index.
  have hsplit : va / pageSize l * pageSize l =
      va / pageSize (l + 1) * pageSize (l + 1) + vpn l va * pageSize l := by
    rw [vpn, pageSize_succ, Nat.mul_comm 512, ← Nat.div_div_eq_div_mul,
      Nat.mul_comm (pageSize l) 512, ← Nat.mul_assoc, ← Nat.add_mul, Nat.div_add_mod']
  have hle : va / pageSize l * pageSize l ≤ va := Nat.div_mul_le_self _ _
  refine BitVec.eq_of_toNat_eq ?_
  have hsize := toNat_getVpnSize (show l ≤ 5 by omega)
  have hvpn := vpn_lt l va
  have hval : (BitVec.ofNat 64 (vpn l va) : Usize).toNat = vpn l va := by
    rw [BitVec.toNat_ofNat]
    omega
  have hprod : (BitVec.ofNat 64 (vpn l va) * getVpnSize l 8).toNat = vpn l va * pageSize l := by
    rw [Usize.toNat_mul_of_lt (by rw [hval, hsize]; omega), hval, hsize]
  rw [MapCall.entryAddress, BitVec.toNat_add, hprod, pageStart, pageStart, BitVec.toNat_ofNat,
    BitVec.toNat_ofNat]
  omega

/-- **`map` on trees has the effect on every address.** -/
theorem leafAt_mapEntries {c : MapCall} {va l i : ℕ} {e : Entry} {offset : Usize}
    {entries : ℕ → PageNode l} (hl : l ≤ 4) (hva : va < 2 ^ 57)
    (hoffset : offset = pageStart (l + 1) va) (h : (entries (vpn l va)).leafAt va = (i, e)) :
    (c.mapEntries l offset entries (vpn l va)).leafAt va = c.effect va l i e := by
  -- On the level, along the recursion of `mapNode`; `offset` is the address of the table.
  induction l generalizing offset i e with
  | zero =>
    have hi : i = 0 := by
      have := PageNode.leafAt_le (entries (vpn 0 va)) va
      rw [h] at this
      exact Nat.le_zero.mp this
    subst hi
    unfold MapCall.mapEntries MapCall.effect MapCall.visit
    split
    · rw [MapCall.mapNode_zero, PageNode.leafAt_leaf, hoffset,
        entryAddress_pageStart (by norm_num) hva]
    · rw [h]
      show (0, e) = (0, e.cut 0 0 va)
      rw [Entry.cut_self]
  | succ l ih =>
    have haddr : MapCall.entryAddress (l + 1) offset (vpn (l + 1) va) = pageStart (l + 1) va := by
      rw [hoffset, entryAddress_pageStart hl hva]
    have hi : i ≤ l + 1 := by
      have := PageNode.leafAt_le (entries (vpn (l + 1) va)) va
      rwa [h] at this
    unfold MapCall.mapEntries MapCall.effect MapCall.visit
    by_cases hvisit : c.Visits (l + 1) (vpn (l + 1) va)
    · rw [if_pos hvisit, if_pos hvisit, haddr]
      cases hnode : entries (vpn (l + 1) va) with
      | leaf e' =>
        rw [hnode, PageNode.leafAt_leaf] at h
        obtain ⟨rfl, rfl⟩ := Prod.mk.inj h
        cases hsplits : c.splits (l + 1) (vpn (l + 1) va) with
        -- the leaf is overwritten
        | false => rw [MapCall.mapNode_leaf hsplits, PageNode.leafAt_leaf, if_pos ⟨rfl, rfl⟩]
        | true =>
          -- the leaf is split, and its part at this address is treated one level down
          rw [MapCall.mapNode_split hsplits, PageNode.leafAt_table, if_neg (by simp),
            Nat.min_eq_right (Nat.le_succ l),
            ih (by omega) rfl (i := l) (e := e'.cut (l + 1) l va), MapCall.effect_cut]
          rw [pieces, PageNode.leafAt_leaf, piece_vpn (by omega)]
      | table entries' =>
        rw [hnode, PageNode.leafAt_table] at h
        have hi' : i ≤ l := by
          have := PageNode.leafAt_le (entries' (vpn l va)) va
          rwa [h] at this
        rw [MapCall.mapNode_table, PageNode.leafAt_table, if_neg (by omega), Nat.min_eq_left hi',
          ih (by omega) rfl h]
        rfl
    · -- the loop does not come to the entry, which stays as it is
      rw [if_neg hvisit, if_neg hvisit, h]
      simp only [Nat.min_eq_left hi, Entry.cut_self]

/-! ## Addresses and leaves -/

/-- The leaf of an address depends on the address in its table only. -/
theorem leafAt_mod {l : ℕ} (entries : ℕ → PageNode l) (va : ℕ) {n : ℕ} (hn : l < n) :
    (entries (vpn l (va % pageSize n))).leafAt (va % pageSize n) =
      (entries (vpn l va)).leafAt va := by
  have hvpn : ∀ i < n, vpn i (va % pageSize n) = vpn i va := by
    intro i hi
    obtain ⟨k, hk⟩ := Nat.exists_eq_add_of_lt hi
    have hpow : pageSize n = pageSize i * (512 * 2 ^ (9 * k)) := by
      rw [pageSize, pageSize, hk, show 12 + 9 * (i + k + 1) = (12 + 9 * i) + (9 + 9 * k) by ring,
        Nat.pow_add, Nat.pow_add 2 9]
    rw [vpn, vpn, hpow, Nat.mod_mul_right_div_self, Nat.mod_mul_right_mod]
  -- Every table on the way is at a level below `n`.
  have hnode : ∀ (m : ℕ) (node : PageNode m), m ≤ n → node.leafAt (va % pageSize n) =
      node.leafAt va := by
    intro m node hm
    induction node with
    | leaf e => rw [PageNode.leafAt_leaf, PageNode.leafAt_leaf]
    | table entries ih =>
      rw [PageNode.leafAt_table, PageNode.leafAt_table, hvpn _ (by omega)]
      exact ih _ (by omega)
  rw [hvpn l hn]
  exact hnode l _ hn.le

namespace Entry

/-- The physical address that a leaf of level `i` gives for `va`. -/
def target (e : Entry) (i va : ℕ) : ℕ := e.ppn * 4096 + va % pageSize i

theorem superpageAligned_iff (e : Entry) {i : ℕ} (hi : i ≤ 5) :
    e.SuperpageAligned i ↔ 2 ^ (9 * i) ∣ e.ppn := by
  -- The fields of the address are the 9-bit digits of the page number.
  have haddr : ∀ j < i, getVpnNumber e.address j 8 = e.ppn / 2 ^ (9 * j) % 512 := by
    intro j hj
    rw [getVpnNumber_eight (by omega), vpn, pageSize, toNat_address, ppn]
    have h64 : (2 : ℕ) ^ 64 = 2 ^ (12 + 9 * j) * (512 * 2 ^ (43 - 9 * j)) := by
      rw [show (512 : ℕ) = 2 ^ 9 from rfl, ← Nat.pow_add, ← Nat.pow_add]
      congr 1
      omega
    rw [h64, Nat.mod_mul_right_div_self, Nat.mod_mul_right_mod, Nat.pow_add,
      ← Nat.div_div_eq_div_mul]
    congr 2
    omega
  constructor
  · -- digit by digit, from the lowest one
    intro h
    clear hi
    induction i with
    | zero => simp
    | succ i ih =>
      obtain ⟨k, hk⟩ := ih (fun j hj => haddr j (by omega)) fun j hj => h j (by omega)
      have hlast := h i (by omega)
      rw [haddr i (by omega), hk, Nat.mul_div_cancel_left _ (Nat.two_pow_pos _)] at hlast
      rw [hk, show 9 * (i + 1) = 9 * i + 9 by ring, Nat.pow_add]
      exact Nat.mul_dvd_mul_left _ (Nat.dvd_of_mod_eq_zero hlast)
  · rintro ⟨k, hk⟩ j hj
    rw [haddr j hj, hk, show 9 * i = 9 * j + (9 + 9 * (i - j - 1)) by omega, Nat.pow_add,
      Nat.mul_assoc, Nat.mul_div_cancel_left _ (Nat.two_pow_pos _), Nat.pow_add, Nat.mul_assoc]
    exact Nat.mul_mod_right _ _

end Entry

/-- **The result of a lookup, from its leaf**: invalid, the address of the leaf up to the width of
the scheme, or a failed assertion for a misaligned superpage. -/
theorem leafResult_eq {levels i : ℕ} (hl : levels ≤ 5) (hi : i < levels) (va : Usize) (e : Entry) :
    leafResult levels va (i, e) =
      if e.value.getLsbD 0 = false then .ok (.error .invalid)
      else if 2 ^ (9 * i) ∣ e.ppn then
        .ok (.ok (BitVec.ofNat 64 (e.target i va.toNat % pageSize levels)))
      else .error .assertion := by
  unfold leafResult
  by_cases hv : e.value.getLsbD 0 = false
  · rw [if_pos hv, if_pos hv]
  rw [if_neg hv, if_neg hv]
  have hiff := Entry.superpageAligned_iff e (show i ≤ 5 by omega)
  by_cases ha : 2 ^ (9 * i) ∣ e.ppn
  · rw [if_pos ha, assertThat_eq_ok fun j hj => hiff.mpr ha j (List.mem_range.mp hj)]
    show Except.ok (Except.ok _) = _
    congr 2
    refine BitVec.eq_of_toNat_eq ?_
    have hlt : pageSize levels < 2 ^ 64 := Nat.pow_lt_pow_right (by norm_num) (by omega)
    have hmod := Nat.mod_lt (e.target i va.toNat) (pageSize_pos levels)
    have hval : (BitVec.ofNat 64 (e.target i va.toNat % pageSize levels) : Usize).toNat =
        e.target i va.toNat % pageSize levels := by
      rw [BitVec.toNat_ofNat, Nat.mod_eq_of_lt (by omega)]
    rw [toNat_translatedAddress_eight hl hi, hval, ← Entry.ppn.eq_1, Entry.target]
    obtain ⟨k, hk⟩ := ha
    -- The page number is `2 ^ (9 * i) * k`, so cutting it to the fields of the scheme cuts `k`.
    have hsplit : (2 : ℕ) ^ (9 * levels) = 2 ^ (9 * i) * 2 ^ (9 * (levels - i)) := by
      rw [← Nat.pow_add]
      congr 1
      omega
    have hsize : pageSize levels = pageSize i * 2 ^ (9 * (levels - i)) := by
      rw [pageSize, pageSize, Nat.pow_add, hsplit, Nat.pow_add, Nat.mul_assoc]
    have hvlt := Nat.mod_lt va.toNat (pageSize_pos i)
    rw [hk, hsplit, Nat.mul_mod_mul_left, Nat.mul_div_cancel_left _ (Nat.two_pow_pos _), hsize,
      show 2 ^ (9 * i) * k * 4096 = pageSize i * k by
        rw [pageSize, Nat.pow_add, Nat.mul_comm (2 ^ (9 * i) * k), Nat.mul_assoc],
      Nat.mod_mul, Nat.mul_add_mod, Nat.mod_mod, Nat.mul_add_div (pageSize_pos i),
      Nat.div_eq_of_lt hvlt, Nat.add_zero, Nat.add_comm, Nat.mul_comm (pageSize i)]
  · rw [if_neg ha,
      assertThat_eq_error fun h => ha (hiff.mp fun j hj => h j (List.mem_range.mpr hj))]
    rfl

/-! ## Parts of leaves and written entries -/

section Cut

variable {e : Entry} {i j va : ℕ}

/-- The part of a leaf has the address of the leaf plus the distance of the part. -/
theorem Entry.toNat_cut (he : e.value.toNat + pageSize i / 4 ≤ 2 ^ 55) (va : ℕ) :
    (e.cut i j va).value.toNat =
      e.value.toNat + va % pageSize i / pageSize j * 2 ^ (9 * j) * 2 ^ 10 := by
  have hquarter : pageSize j / 4 = 2 ^ (9 * j) * 2 ^ 10 := by
    rw [pageSize, show 12 + 9 * j = 9 * j + 10 + 2 by ring, Nat.pow_add, Nat.pow_add]
    exact Nat.mul_div_cancel _ (by norm_num)
  -- The distance of the part is less than the size of the leaf, so the sum does not wrap.
  have hle : va % pageSize i / pageSize j * (pageSize j / 4) ≤ pageSize i / 4 := by
    obtain ⟨k, hk⟩ := four_dvd_pageSize j
    have hlt := Nat.mod_lt va (pageSize_pos i)
    have hmul := Nat.div_mul_le_self (va % pageSize i) (pageSize j)
    rw [hk] at hmul ⊢
    rw [Nat.mul_div_cancel_left _ (by norm_num)]
    have : va % pageSize i / (4 * k) * (4 * k) = 4 * (va % pageSize i / (4 * k) * k) := by ring
    omega
  rw [Entry.cut, BitVec.toNat_add, BitVec.toNat_ofNat, Nat.mod_eq_of_lt, Nat.mod_eq_of_lt, hquarter,
    Nat.mul_assoc]
  · omega
  · rw [Nat.mod_eq_of_lt (by omega)]
    omega

theorem Entry.ppn_cut (he : e.value.toNat + pageSize i / 4 ≤ 2 ^ 55) (va : ℕ) :
    (e.cut i j va).ppn = e.ppn + va % pageSize i / pageSize j * 2 ^ (9 * j) := by
  rw [Entry.ppn, Entry.toNat_cut he, Nat.add_mul_div_right _ _ (by norm_num), Entry.ppn]

/-- A split leaves the translation of every address as it was. -/
theorem Entry.target_cut (hj : j ≤ i) (he : e.value.toNat + pageSize i / 4 ≤ 2 ^ 55) (va : ℕ) :
    (e.cut i j va).target j va = e.target i va := by
  rw [Entry.target, Entry.target, Entry.ppn_cut he]
  have hsize : pageSize j = 2 ^ (9 * j) * 4096 := by
    rw [pageSize, Nat.pow_add, Nat.mul_comm]
  have hmod : va % pageSize i % pageSize j = va % pageSize j :=
    Nat.mod_mod_of_dvd _ (pageSize_dvd hj)
  have hdiv := Nat.div_add_mod (va % pageSize i) (pageSize j)
  rw [hmod] at hdiv
  -- What the page number gains is what the offset in the page loses.
  have hprod : va % pageSize i / pageSize j * 2 ^ (9 * j) * 4096 =
      pageSize j * (va % pageSize i / pageSize j) := by
    rw [Nat.mul_assoc, ← hsize, Nat.mul_comm]
  rw [Nat.add_mul, hprod, Nat.add_assoc, hdiv]

theorem Entry.dvd_ppn_cut (he : e.value.toNat + pageSize i / 4 ≤ 2 ^ 55) (va : ℕ) :
    2 ^ (9 * j) ∣ (e.cut i j va).ppn ↔ 2 ^ (9 * j) ∣ e.ppn := by
  rw [Entry.ppn_cut he]
  exact Nat.dvd_add_left (Nat.dvd_mul_left _ _)

theorem Entry.getLsbD_cut (he : e.value.toNat + pageSize i / 4 ≤ 2 ^ 55) (va : ℕ)
    {k : ℕ} (hk : k < 10) : (e.cut i j va).value.getLsbD k = e.value.getLsbD k := by
  refine getLsbD_congr (n := 10) ?_ hk
  rw [Entry.toNat_cut he, Nat.add_mul_mod_self_right]

end Cut

section Written

variable {c : MapCall} {j va : ℕ}

theorem toNat_pageStart (hva : va < 2 ^ 64) :
    (pageStart j va).toNat = va / pageSize j * pageSize j := by
  rw [pageStart, BitVec.toNat_ofNat, Nat.mod_eq_of_lt]
  exact lt_of_le_of_lt (Nat.div_mul_le_self _ _) hva

theorem page_dvd_pageStart (hva : va < 2 ^ 64) : 4096 ∣ (pageStart j va).toNat := by
  rw [toNat_pageStart hva]
  exact (page_dvd_pageSize j).mul_left _

/-- A written superpage is aligned when the physical and the virtual address of the call agree
modulo its size. -/
theorem MapCall.dvd_ppn_newEntry (h : c.Aligned) (hflags : c.flags.toNat < 2 ^ 10)
    (hva : va < 2 ^ 64) (hj : j ≤ 4) :
    2 ^ (9 * j) ∣ (c.newEntry (pageStart j va)).ppn ↔ pageSize j ∣ c.delta := by
  obtain ⟨d, hd⟩ := MapCall.page_dvd_delta h
  have hsize : pageSize j = 4096 * 2 ^ (9 * j) := by rw [pageSize, Nat.pow_add]
  have hdvd : (2 : ℕ) ^ (9 * j) ∣ 2 ^ 44 := Nat.pow_dvd_pow 2 (by omega)
  rw [MapCall.ppn_newEntry h hflags (page_dvd_pageStart hva), toNat_pageStart hva,
    Nat.dvd_mod_iff hdvd, hd, hsize, Nat.mul_dvd_mul_iff_left (by norm_num),
    show va / (4096 * 2 ^ (9 * j)) * (4096 * 2 ^ (9 * j)) + 4096 * d =
      4096 * (2 ^ (9 * j) * (va / (4096 * 2 ^ (9 * j))) + d) by ring,
    Nat.mul_div_cancel_left _ (by norm_num)]
  exact Nat.dvd_add_right (Nat.dvd_mul_right _ _)

/-- A written aligned superpage moves the address by the difference of the physical and the virtual
address of the call. -/
theorem MapCall.target_newEntry (h : c.Aligned) (hflags : c.flags.toNat < 2 ^ 10)
    (hva : va < 2 ^ 64) {n : ℕ} (hn : n ≤ 4) :
    (c.newEntry (pageStart j va)).target j va % pageSize n = (va + c.delta) % pageSize n := by
  obtain ⟨d, hd⟩ := MapCall.page_dvd_delta h
  have hdiv : pageSize n ∣ 2 ^ 44 * 4096 := by
    rw [show 2 ^ 44 * 4096 = 2 ^ 56 from rfl]
    exact Nat.pow_dvd_pow 2 (by omega)
  have hsum : 4096 * ((pageStart j va).toNat / 4096) = (pageStart j va).toNat :=
    Nat.mul_div_cancel' (page_dvd_pageStart hva)
  -- The page number is cut to 44 bits, which is wider than every scheme up to Sv48.
  have hppn : (c.newEntry (pageStart j va)).ppn * 4096 =
      ((pageStart j va).toNat + c.delta) % (2 ^ 44 * 4096) := by
    rw [MapCall.ppn_newEntry h hflags (page_dvd_pageStart hva)]
    omega
  rw [Entry.target, hppn, Nat.add_mod, Nat.mod_mod_of_dvd _ hdiv, ← Nat.add_mod,
    toNat_pageStart hva]
  congr 1
  have := Nat.div_add_mod' va (pageSize j)
  omega

end Written

/-! ## The lookup after a call -/

/-- The leaf that the lookup of `va` ends in. -/
def GenericPaging.LeafAt {levels : ℕ} (paging : GenericPaging levels 8) (mem : Memory 8)
    (va : Usize) (i : ℕ) (e : Entry) : Prop :=
  paging.ReadsAt mem va i e ∧ e.isLeaf = true

theorem GenericPaging.LeafAt.unique {levels : ℕ} {paging : GenericPaging levels 8} {mem : Memory 8}
    {va : Usize} {i i' : ℕ} {e e' : Entry} (h : paging.LeafAt mem va i e)
    (h' : paging.LeafAt mem va i' e') : i = i' ∧ e = e' :=
  h.1.unique_leaf h'.1 h.2 h'.2

section AfterCall

variable {levels : ℕ} {paging : GenericPaging levels 8} {heap : Allocator 8} {n₀ : ℕ} {D : Set ℕ}
  {mem mem' : Memory 8} {entries : ℕ → PageNode (levels - 1)} {c : MapCall} {va : Usize} {i : ℕ}
  {e : Entry}

/-- The leaf that the lookup ends in is the leaf of the tree. -/
theorem Represents.leafAt_iff (hfresh : FreshPages paging heap n₀)
    (h : Represents paging heap n₀ D mem entries) (hhi : levels ≤ 5)
    (hva : vpn (levels - 1) va.toNat ∈ D) :
    paging.LeafAt mem va i e ↔
      (entries (vpn (levels - 1) va.toNat)).leafAt va.toNat = (i, e) := by
  obtain ⟨hreads, hleaf⟩ := h.readsAt hfresh hhi hva
  constructor
  · rintro ⟨hreads', hleaf'⟩
    obtain ⟨hi, he⟩ := hreads.unique_leaf hreads' hleaf hleaf'
    exact Prod.ext hi he
  · intro heq
    rw [heq] at hreads hleaf
    exact ⟨hreads, hleaf⟩

/-- The level and the bound of the leaf that a lookup ends in. -/
theorem Represents.leafAt_facts (hfresh : FreshPages paging heap n₀)
    (h : Represents paging heap n₀ D mem entries) (hlo : 1 ≤ levels) (hhi : levels ≤ 5)
    (hva : vpn (levels - 1) va.toNat ∈ D) (hleaf : paging.LeafAt mem va i e) :
    i < levels ∧ e.value.toNat + pageSize i / 4 ≤ 2 ^ 55 := by
  have heq := (h.leafAt_iff hfresh hhi hva).mp hleaf
  have hbound := h.leafAt_bound hva
  have hi := (entries (vpn (levels - 1) va.toNat)).leafAt_le va.toNat
  rw [heq] at hbound hi
  exact ⟨by dsimp only at hi; omega, hbound⟩

theorem Represents.exists_leafAt (hfresh : FreshPages paging heap n₀)
    (h : Represents paging heap n₀ D mem entries) (hhi : levels ≤ 5)
    (hva : vpn (levels - 1) va.toNat ∈ D) : ∃ i e, paging.LeafAt mem va i e :=
  ⟨_, _, (h.leafAt_iff hfresh hhi hva).mpr rfl⟩

/-- The lookup of an address, from the leaf it ends in. -/
theorem Represents.query_leafAt (hfresh : FreshPages paging heap n₀)
    (h : Represents paging heap n₀ D mem entries) (hhi : levels ≤ 5)
    (hva : vpn (levels - 1) va.toNat ∈ D) (hleaf : paging.LeafAt mem va i e) :
    paging.query mem va = leafResult levels va (i, e) := by
  rw [h.query_eq hfresh (by omega) hva, (h.leafAt_iff hfresh hhi hva).mp hleaf]

/-- **The leaf of an address after a call.** -/
theorem leafAt_map (hfresh : FreshPages paging heap n₀) (hlo : 1 ≤ levels) (hhi : levels ≤ 5)
    (h : Represents paging heap n₀ D mem entries) (hflags : leafBits c.flags = true)
    (hD : ∀ v, (c.decanonical levels).Visits (levels - 1) v → v ∈ D)
    (hmap : paging.map heap c mem = .ok mem') (hva : vpn (levels - 1) va.toNat ∈ D)
    (hleaf : paging.LeafAt mem va i e) :
    ∃ entries', Represents paging heap n₀ D mem' entries' ∧
      (entries' (vpn (levels - 1) va.toNat)).leafAt va.toNat =
        (c.decanonical levels).effect (va.toNat % pageSize levels) (levels - 1) i e := by
  obtain ⟨haligned, hpos, hlt⟩ := aligned_of_map_eq_ok hlo hhi hmap
  obtain ⟨hrep', -, -⟩ :=
    (map_outcome hfresh hlo hhi h ⟨haligned, hflags, hlt⟩ hpos hD).post_of_eq_ok hmap
  refine ⟨_, hrep', ?_⟩
  have hlt' : va.toNat % pageSize levels < pageSize (levels - 1 + 1) := by
    rw [Nat.sub_add_cancel hlo]
    exact Nat.mod_lt _ (pageSize_pos _)
  have hsize : pageSize (levels - 1 + 1) ≤ 2 ^ 57 := pageSize_le (j := 5) (by omega)
  -- The root table starts at address 0.
  have hzero : (0 : Usize) = pageStart (levels - 1 + 1) (va.toNat % pageSize levels) := by
    rw [pageStart, Nat.div_eq_of_lt hlt', Nat.zero_mul]
    rfl
  rw [(h.leafAt_iff hfresh hhi hva),
    ← leafAt_mod entries va.toNat (show levels - 1 < levels by omega)] at hleaf
  rw [← leafAt_mod _ va.toNat (show levels - 1 < levels by omega)]
  exact leafAt_mapEntries (by omega) (by omega) hzero hleaf

/-- **The lookup of an address after a call.** -/
theorem query_map_eq (hfresh : FreshPages paging heap n₀) (hlo : 1 ≤ levels) (hhi : levels ≤ 5)
    (h : Represents paging heap n₀ D mem entries) (hflags : leafBits c.flags = true)
    (hD : ∀ v, (c.decanonical levels).Visits (levels - 1) v → v ∈ D)
    (hmap : paging.map heap c mem = .ok mem') (hva : vpn (levels - 1) va.toNat ∈ D)
    (hleaf : paging.LeafAt mem va i e) :
    paging.query mem' va = leafResult levels va
      ((c.decanonical levels).effect (va.toNat % pageSize levels) (levels - 1) i e) := by
  obtain ⟨entries', hrep', heq⟩ := leafAt_map hfresh hlo hhi h hflags hD hmap hva hleaf
  rw [hrep'.query_eq hfresh (by omega) hva, heq]

end AfterCall

end AsyncKernel
