import AsyncKernel.Paging.Effect

/-!
# What a call maps and what it spares

`map` against its purpose, for Sv39: the addresses of the range get the translation that the
arguments say, and the other addresses keep theirs. The loop bounds of the
levels below the root are those of the whole range, and at level 0 the last index is that of the
byte past the range; so a call can miss addresses of its range and rewrite others. It does what it
is for exactly when the addresses it misses or rewrites beyond its range do not need it.

## Main definitions

* `MapCall.Valid`: the arguments a call is meant for
* `MapCall.Covers`, `MapCall.Spares`: what makes a call right for an address inside and outside of
  its range

## Main results

* `query_map_cases`: the lookup of an address after a call
* `map_covers_iff`: when a call maps its range
* `map_spares_iff`: when a call leaves the other addresses as they were
-/

namespace AsyncKernel

open Bits

namespace MapCall

variable {c : MapCall}

/-- The physical and the virtual address of a call agree modulo the size of a page. -/
def Congruent (c : MapCall) (j : ℕ) : Prop :=
  c.physicalAddr.toNat % pageSize j = c.virtualAddr.toNat % pageSize j

instance (c : MapCall) (j : ℕ) : Decidable (c.Congruent j) := inferInstanceAs (Decidable (_ = _))

theorem congruent_iff (c : MapCall) {j : ℕ} (hj : j ≤ 5) :
    c.Congruent j ↔ pageSize j ∣ c.delta := by
  have hadd : (c.virtualAddr.toNat + c.delta) % pageSize j = c.physicalAddr.toNat % pageSize j := by
    rw [← c.virtual_add_delta, Nat.mod_mod_of_dvd _ (pageSize_dvd_word hj)]
  rw [Congruent, ← hadd, Nat.dvd_iff_mod_eq_zero]
  constructor
  · intro h
    -- the virtual address cancels on both sides
    have hmod : c.virtualAddr.toNat + c.delta ≡ c.virtualAddr.toNat + 0 [MOD pageSize j] := h
    exact Nat.mod_eq_zero_of_dvd (Nat.modEq_zero_iff_dvd.mp (Nat.ModEq.add_left_cancel' _ hmod))
  · intro h
    rw [Nat.add_mod, h, Nat.add_zero, Nat.mod_mod]

end MapCall

/-! ## The result of a lookup after a call -/

section Results

variable {levels : ℕ} {c : MapCall} {va : Usize} {i j : ℕ} {e : Entry}

theorem Entry.target_mod (e : Entry) {n : ℕ} (h : j ≤ n) (a : ℕ) :
    e.target j (a % pageSize n) = e.target j a := by
  rw [Entry.target, Entry.target, Nat.mod_mod_of_dvd _ (pageSize_dvd h)]

/-- A rewritten address: it is moved by the difference of the physical and the virtual address,
unless it lies in a misaligned superpage. -/
theorem leafResult_rewritten (hl : levels ≤ 4) (hj : j < levels) (hc : c.Aligned)
    (hflags : c.flags.toNat < 256) (hvalid : c.flags.getLsbD 0 = true) (va : Usize) :
    leafResult levels va (j, c.newEntry (pageStart j (va.toNat % pageSize levels))) =
      if pageSize j ∣ c.delta then
        .ok (.ok (BitVec.ofNat 64 ((va.toNat + c.delta) % pageSize levels)))
      else .error .assertion := by
  have hva : va.toNat % pageSize levels < 2 ^ 64 := lt_of_le_of_lt (Nat.mod_le _ _) va.isLt
  rw [leafResult_eq (by omega) hj,
    MapCall.getLsbD_newEntry hc (page_dvd_pageStart hva) (by norm_num), hvalid, if_neg (by simp),
    ← Entry.target_mod _ hj.le, MapCall.target_newEntry hc (by omega) hva hl, Nat.mod_add_mod]
  exact if_congr (MapCall.dvd_ppn_newEntry hc (by omega) hva (by omega)) rfl rfl

/-- A missed address: it keeps its translation, which a split can free of a misaligned superpage. -/
theorem leafResult_missed (hl : levels ≤ 5) (hi : i < levels)
    (he : e.value.toNat + pageSize i / 4 ≤ 2 ^ 55) (j : ℕ) (va : Usize) :
    leafResult levels va (min i j, e.cut i (min i j) (va.toNat % pageSize levels)) =
      if e.value.getLsbD 0 = false then .ok (.error .invalid)
      else if 2 ^ (9 * min i j) ∣ e.ppn then
        .ok (.ok (BitVec.ofNat 64 (e.target i va.toNat % pageSize levels)))
      else .error .assertion := by
  have hmin : min i j ≤ i := Nat.min_le_left i j
  rw [leafResult_eq hl (by omega), Entry.getLsbD_cut he _ (by norm_num),
    ← Entry.target_mod _ (show min i j ≤ levels by omega), Entry.target_cut hmin he,
    Entry.target_mod _ hi.le]
  exact if_congr Iff.rfl rfl (if_congr (Entry.dvd_ppn_cut he _) rfl rfl)

theorem ofNat_inj_of_lt {a b : ℕ} (ha : a < 2 ^ 64) (hb : b < 2 ^ 64) :
    BitVec.ofNat 64 a = BitVec.ofNat 64 b ↔ a = b := by
  rw [← BitVec.toNat_inj, BitVec.toNat_ofNat, BitVec.toNat_ofNat, Nat.mod_eq_of_lt ha,
    Nat.mod_eq_of_lt hb]

/-- When a lookup from a leaf returns an address. -/
theorem leafOutcome_eq_ok_iff {valid : Bool} {aligned : Prop} [Decidable aligned] {a b : ℕ}
    (ha : a < 2 ^ 64) (hb : b < 2 ^ 64) :
    (if valid = false then .ok (.error .invalid)
      else if aligned then .ok (.ok (BitVec.ofNat 64 a)) else .error .assertion :
        Except Fault (Except PageLookupError Usize)) = .ok (.ok (BitVec.ofNat 64 b)) ↔
      valid = true ∧ aligned ∧ a = b := by
  cases valid with
  | false => simp
  | true =>
    by_cases h : aligned
    · rw [if_neg (by simp), if_pos h, Except.ok.injEq, Except.ok.injEq, ofNat_inj_of_lt ha hb]
      simp [h]
    · simp [h]

/-- **The lookup of an address after a call**: the address is rewritten or missed. -/
theorem query_map_cases {paging : GenericPaging levels 8} {heap : Allocator 8} {n₀ : ℕ}
    {D : Set ℕ} {mem mem' : Memory 8} {entries : ℕ → PageNode (levels - 1)}
    (hfresh : FreshPages paging heap n₀) (hlo : 1 ≤ levels) (hhi : levels ≤ 4)
    (h : Represents paging heap n₀ D mem entries) (hflags : c.flags.toNat < 256)
    (hvalid : c.flags.getLsbD 0 = true) (hbits : leafBits c.flags = true)
    (hD : ∀ v, (c.decanonical levels).Visits (levels - 1) v → v ∈ D)
    (hmap : paging.map heap c mem = .ok mem') (hva : vpn (levels - 1) va.toNat ∈ D)
    (hleaf : paging.LeafAt mem va i e) :
    (∃ j, j < levels ∧ (c.decanonical levels).visit (va.toNat % pageSize levels) (levels - 1) i =
        .rewritten j ∧
      paging.query mem' va = if (c.decanonical levels).Congruent j then
          .ok (.ok (BitVec.ofNat 64 ((va.toNat + (c.decanonical levels).delta) % pageSize levels)))
        else .error .assertion) ∨
    ∃ j, (c.decanonical levels).visit (va.toNat % pageSize levels) (levels - 1) i = .missed j ∧
      paging.query mem' va = if e.value.getLsbD 0 = false then .ok (.error .invalid)
        else if 2 ^ (9 * min i j) ∣ e.ppn then
          .ok (.ok (BitVec.ofNat 64 (e.target i va.toNat % pageSize levels)))
        else .error .assertion := by
  have haligned := (aligned_of_map_eq_ok hlo (by omega) hmap).1
  obtain ⟨hi, hbound⟩ := h.leafAt_facts hfresh hlo (by omega) hva hleaf
  have hquery := query_map_eq hfresh hlo (by omega) h hbits hD hmap hva hleaf
  -- The effect of the call on the leaf of the address decides.
  cases hvisit : (c.decanonical levels).visit (va.toNat % pageSize levels) (levels - 1) i with
  | rewritten j =>
    have hj := MapCall.visit_level_le (Or.inl hvisit)
    refine Or.inl ⟨j, by omega, rfl, ?_⟩
    rw [hquery, MapCall.effect, hvisit]
    dsimp only
    rw [leafResult_rewritten hhi (by omega) haligned hflags hvalid]
    exact if_congr (MapCall.congruent_iff _ (by omega)).symm rfl rfl
  | missed j =>
    refine Or.inr ⟨j, rfl, ?_⟩
    rw [hquery, MapCall.effect, hvisit]
    exact leafResult_missed (by omega) hi hbound j va

end Results

/-! ## The range -/

section Range

variable {paging : Sv39} {heap : Allocator 8} {mem₀ mem mem' : Memory 8} {c : MapCall}

/-- A call is right for an address of its range: it rewrites it in a page whose size divides the
distance to the physical address, or misses it where it already has the right translation, in a leaf
that is aligned as the call leaves it. -/
def MapCall.Covers (c : MapCall) (va i : ℕ) (e : Entry) : Prop :=
  match c.visit va 2 i with
  | .rewritten j => c.Congruent j
  | .missed j => e.value.getLsbD 0 = true ∧ 2 ^ (9 * min i j) ∣ e.ppn ∧
    e.target i va % 2 ^ 39 = c.physicalAddr.toNat + (va - c.virtualAddr.toNat)

/-- A call is right for an address outside of its range: it misses it and frees it of no misaligned
superpage, or rewrites it with the result that it has. -/
def MapCall.Spares (c : MapCall) (va i : ℕ) (e : Entry) : Prop :=
  match c.visit va 2 i with
  | .rewritten j => e.value.getLsbD 0 = true ∧
    ((c.Congruent j ∧ 2 ^ (9 * i) ∣ e.ppn ∧ e.target i va % 2 ^ 39 = (va + c.delta) % 2 ^ 39) ∨
      (¬ c.Congruent j ∧ ¬ 2 ^ (9 * i) ∣ e.ppn))
  | .missed j => e.value.getLsbD 0 = false ∨ 2 ^ (9 * i) ∣ e.ppn ∨ ¬ 2 ^ (9 * min i j) ∣ e.ppn

/-- The address that the lookup uses of an address of the range. -/
theorem MapCall.Valid.toNat_add_mod (h : c.Valid) {k : ℕ} (hk : k < c.length.toNat) :
    (c.virtualAddr + BitVec.ofNat 64 k).toNat % pageSize 3 =
      (c.decanonical 3).virtualAddr.toNat + k := by
  have hrange := h.range
  rw [toNat_decanonical (by norm_num)] at hrange ⊢
  rw [show pageSize 3 = 2 ^ 39 from rfl] at hrange ⊢
  rw [BitVec.toNat_add, BitVec.toNat_ofNat]
  omega

/-- One address of the range after a call. -/
theorem MapCall.Valid.query_eq_iff_covers {n₀ : ℕ} (hc : c.Valid)
    (hfresh : FreshPages paging heap n₀) {entries : ℕ → PageNode 2}
    (h : Represents paging heap n₀ (Set.Iio 512) mem entries)
    (hphys : c.physicalAddr.toNat + c.length.toNat ≤ 2 ^ 39)
    (hmap : paging.map heap c mem = .ok mem') {k i : ℕ} {e : Entry} (hk : k < c.length.toNat)
    (hleaf : paging.LeafAt mem (c.virtualAddr + BitVec.ofNat 64 k) i e) :
    paging.query mem' (c.virtualAddr + BitVec.ofNat 64 k) =
        .ok (.ok (c.physicalAddr + BitVec.ofNat 64 k)) ↔
      (c.decanonical 3).Covers ((c.decanonical 3).virtualAddr.toNat + k) i e := by
  have hw := hc.toNat_add_mod hk
  have hlen := c.length.isLt
  obtain ⟨hi, -⟩ := h.leafAt_facts hfresh (by norm_num) (by norm_num) (vpn_lt _ _) hleaf
  have hsum : c.physicalAddr + BitVec.ofNat 64 k = BitVec.ofNat 64 (c.physicalAddr.toNat + k) := by
    rw [BitVec.ofNat_add, BitVec.ofNat_toNat, BitVec.setWidth_eq]
  rw [hsum, MapCall.Covers, ← hw]
  rcases query_map_cases hfresh (by norm_num) (by norm_num) h hc.flags_lt hc.valid hc.leafFlags
    (fun v hv => hv.lt) hmap (vpn_lt _ _) hleaf with
    ⟨j, -, hvisit, hquery⟩ | ⟨j, hvisit, hquery⟩
  · -- rewritten: the address is right when the superpage is aligned, and only then
    rw [show 3 - 1 = 2 from rfl] at hvisit
    rw [hvisit, hquery]
    by_cases hcong : (c.decanonical 3).Congruent j
    · rw [if_pos hcong]
      refine iff_of_true ?_ hcong
      have hdelta := (c.decanonical 3).virtual_add_delta
      rw [show (c.decanonical 3).physicalAddr = c.physicalAddr from rfl] at hdelta
      rw [show pageSize 3 = 2 ^ 39 from rfl] at hw ⊢
      congr 3
      omega
    · rw [if_neg hcong]
      exact iff_of_false nofun hcong
  · -- missed: the old leaf decides, split to the level where the loop missed it
    rw [show 3 - 1 = 2 from rfl] at hvisit
    rw [hvisit, hquery, leafOutcome_eq_ok_iff
      (lt_trans (Nat.mod_lt _ (pageSize_pos 3)) (by norm_num [pageSize])) (by omega),
      Entry.target_mod _ hi.le, hw, Nat.add_sub_cancel_left]
    rfl

/-- One address outside of the range after a call. -/
theorem MapCall.Valid.query_eq_iff_spares {n₀ : ℕ} (hc : c.Valid)
    (hfresh : FreshPages paging heap n₀) {entries : ℕ → PageNode 2}
    (h : Represents paging heap n₀ (Set.Iio 512) mem entries)
    (hmap : paging.map heap c mem = .ok mem') {va : Usize} (hva : va.toNat < 2 ^ 39) {i : ℕ}
    {e : Entry} (hleaf : paging.LeafAt mem va i e) :
    paging.query mem' va = paging.query mem va ↔ (c.decanonical 3).Spares va.toNat i e := by
  obtain ⟨hi, -⟩ := h.leafAt_facts hfresh (by norm_num) (by norm_num) (vpn_lt _ _) hleaf
  have hlt : ∀ a, a % pageSize 3 < 2 ^ 64 := fun a =>
    lt_trans (Nat.mod_lt a (pageSize_pos 3)) (by norm_num [pageSize])
  have hw : va.toNat % pageSize 3 = va.toNat := Nat.mod_eq_of_lt hva
  rw [h.query_leafAt hfresh (by norm_num) (vpn_lt _ _) hleaf, leafResult_eq (by norm_num) hi,
    MapCall.Spares]
  rcases query_map_cases hfresh (by norm_num) (by norm_num) h hc.flags_lt hc.valid hc.leafFlags
    (fun v hv => hv.lt) hmap (vpn_lt _ _) hleaf with
    ⟨j, -, hvisit, hquery⟩ | ⟨j, hvisit, hquery⟩
  · rw [show 3 - 1 = 2 from rfl, hw] at hvisit
    rw [hvisit, hquery]
    by_cases hcong : (c.decanonical 3).Congruent j
    · rw [if_pos hcong, eq_comm, leafOutcome_eq_ok_iff (hlt _) (hlt _)]
      simp only [hcong, true_and, not_true_eq_false, false_and, or_false]
      rfl
    · rw [if_neg hcong]
      -- the new result is a failed assertion, so the old one must be one too
      cases e.value.getLsbD 0 with
      | false => simp
      | true => by_cases ha : 2 ^ (9 * i) ∣ e.ppn <;> simp [ha, hcong]
  · rw [show 3 - 1 = 2 from rfl, hw] at hvisit
    rw [hvisit, hquery]
    -- A split only makes a misaligned leaf aligned, never the other way round.
    have hmono : 2 ^ (9 * i) ∣ e.ppn → 2 ^ (9 * min i j) ∣ e.ppn := fun ha =>
      (Nat.pow_dvd_pow 2 (by omega)).trans ha
    cases e.value.getLsbD 0 with
    | false => simp
    | true =>
      by_cases ha : 2 ^ (9 * i) ∣ e.ppn
      · simp [ha, hmono ha]
      · by_cases hmin : 2 ^ (9 * min i j) ∣ e.ppn <;> simp [ha, hmin]

/-- **When a call maps its range**: the loops come to every address of it in a page whose size
divides the distance of the physical and the virtual address, or the address already is where the
call would put it. -/
theorem map_covers_iff (hfresh : FreshPages paging heap mem₀.allocated)
    (hzero : ZeroRoot paging mem₀) (hreach : Reachable paging heap LeafFlags mem₀ mem)
    (hc : c.Valid) (hpos : 0 < c.length.toNat)
    (hphys : c.physicalAddr.toNat + c.length.toNat ≤ 2 ^ 39)
    (hmem : paging.map heap c mem ≠ .error .outOfMemory) :
    (∃ mem', paging.map heap c mem = .ok mem' ∧ ∀ k < c.length.toNat,
      paging.query mem' (c.virtualAddr + BitVec.ofNat 64 k) =
        .ok (.ok (c.physicalAddr + BitVec.ofNat 64 k))) ↔
    ∀ k < c.length.toNat, ∀ i e,
      paging.LeafAt mem (c.virtualAddr + BitVec.ofNat 64 k) i e →
        (c.decanonical 3).Covers ((c.decanonical 3).virtualAddr.toNat + k) i e := by
  obtain ⟨entries, hrep⟩ := hreach.represents hfresh (by norm_num) (by norm_num) hzero
  obtain ⟨mem', hmap⟩ := hc.map_returns hfresh hrep
    (by show 0 < _ + c.length.toNat; omega) hmem
  constructor
  · rintro ⟨mem'', hmap', hquery⟩ k hk i e hleaf
    obtain rfl : mem' = mem'' := Except.ok.inj (hmap.symm.trans hmap')
    exact (hc.query_eq_iff_covers hfresh hrep hphys hmap hk hleaf).mp (hquery k hk)
  · intro hcovers
    refine ⟨mem', hmap, fun k hk => ?_⟩
    obtain ⟨i, e, hleaf⟩ := hrep.exists_leafAt hfresh (by norm_num) (vpn_lt 2
      (c.virtualAddr + BitVec.ofNat 64 k).toNat)
    exact (hc.query_eq_iff_covers hfresh hrep hphys hmap hk hleaf).mpr (hcovers k hk i e hleaf)

/-- **When a call leaves the other addresses as they were**: it returns, and every address outside
of its range that it rewrites or splits had the result that it has after the call. -/
theorem map_spares_iff (hfresh : FreshPages paging heap mem₀.allocated)
    (hzero : ZeroRoot paging mem₀) (hreach : Reachable paging heap LeafFlags mem₀ mem)
    (hc : c.Valid) (hmem : paging.map heap c mem ≠ .error .outOfMemory) :
    (∃ mem', paging.map heap c mem = .ok mem' ∧ ∀ va : Usize, va.toNat < 2 ^ 39 →
      ¬ ((c.decanonical 3).virtualAddr.toNat ≤ va.toNat ∧ va.toNat < (c.decanonical 3).stop) →
        paging.query mem' va = paging.query mem va) ↔
    0 < (c.decanonical 3).stop ∧ ∀ va : Usize, va.toNat < 2 ^ 39 →
      ¬ ((c.decanonical 3).virtualAddr.toNat ≤ va.toNat ∧ va.toNat < (c.decanonical 3).stop) →
        ∀ i e, paging.LeafAt mem va i e → (c.decanonical 3).Spares va.toNat i e := by
  obtain ⟨entries, hrep⟩ := hreach.represents hfresh (by norm_num) (by norm_num) hzero
  constructor
  · rintro ⟨mem', hmap, hquery⟩
    refine ⟨(aligned_of_map_eq_ok (by norm_num) (by norm_num) hmap).2.1 (by norm_num),
      fun va hva hout i e hleaf => ?_⟩
    exact (hc.query_eq_iff_spares hfresh hrep hmap hva hleaf).mp (hquery va hva hout)
  · rintro ⟨hpos, hspares⟩
    obtain ⟨mem', hmap⟩ := hc.map_returns hfresh hrep hpos hmem
    refine ⟨mem', hmap, fun va hva hout => ?_⟩
    obtain ⟨i, e, hleaf⟩ := hrep.exists_leafAt hfresh (by norm_num) (vpn_lt 2 va.toNat)
    exact (hc.query_eq_iff_spares hfresh hrep hmap hva hleaf).mpr (hspares va hva hout i e hleaf)

end Range

/-! ## A machine with identity mapping -/

section Identity

/-- The leaves of the zeroed root. -/
theorem zeroMemory_leafAt {va : Usize} {i : ℕ} {e : Entry} :
    identitySv39.LeafAt zeroMemory va i e ↔ i = 2 ∧ e = Entry.zeroed := by
  rw [zeroMemory_represents.leafAt_iff identity_fresh (by norm_num) (vpn_lt _ _),
    PageNode.leafAt_leaf, Prod.mk.injEq, eq_comm, @eq_comm _ Entry.zeroed]

/-- One gigabyte at 0. -/
def gigabyteCall : MapCall := ⟨0, 0, 0x40000000, 0xf⟩

theorem gigabyteCall_valid : gigabyteCall.Valid := by
  decide

theorem visit_gigabyteCall (va : ℕ) :
    (gigabyteCall.decanonical 3).visit va 2 2 =
      if vpn 2 va = 0 then .rewritten 2 else .missed 2 := by
  have hvisits : (gigabyteCall.decanonical 3).Visits 2 (vpn 2 va) ↔ vpn 2 va = 0 := by
    rw [MapCall.Visits, show (gigabyteCall.decanonical 3).first 2 = 0 by decide,
      show (gigabyteCall.decanonical 3).last 2 = 0 by decide]
    omega
  unfold MapCall.visit
  by_cases h : vpn 2 va = 0
  · rw [if_pos (hvisits.mpr h), if_pos h, h, if_pos ⟨rfl, by decide⟩]
  · rw [if_neg (mt hvisits.mp h), if_neg h]

/-- The call maps its range in one gigapage. -/
theorem map_covers_iff_gigabyte :
    ∃ mem', identitySv39.map identityHeap gigabyteCall zeroMemory = .ok mem' ∧
      ∀ k < gigabyteCall.length.toNat,
        identitySv39.query mem' (gigabyteCall.virtualAddr + BitVec.ofNat 64 k) =
          .ok (.ok (gigabyteCall.physicalAddr + BitVec.ofNat 64 k)) := by
  refine (map_covers_iff identity_fresh zeroMemory_zeroRoot Reachable.refl gigabyteCall_valid
    (by decide) (by decide) (zeroMemory_map_ne gigabyteCall_valid (by decide))).mpr ?_
  intro k hk i e hleaf
  obtain ⟨rfl, rfl⟩ := zeroMemory_leafAt.mp hleaf
  have hvpn : vpn 2 k = 0 := by
    have hlt : k < 2 ^ 30 := hk
    rw [vpn, show pageSize 2 = 2 ^ 30 from rfl]
    omega
  rw [MapCall.Covers, show (gigabyteCall.decanonical 3).virtualAddr.toNat = 0 from rfl,
    Nat.zero_add, visit_gigabyteCall, if_pos hvpn]
  rfl

/-- The call leaves the other addresses without a translation. -/
theorem map_spares_iff_gigabyte :
    ∃ mem', identitySv39.map identityHeap gigabyteCall zeroMemory = .ok mem' ∧
      ∀ va : Usize, va.toNat < 2 ^ 39 →
        ¬ ((gigabyteCall.decanonical 3).virtualAddr.toNat ≤ va.toNat ∧
          va.toNat < (gigabyteCall.decanonical 3).stop) →
          identitySv39.query mem' va = identitySv39.query zeroMemory va := by
  refine (map_spares_iff identity_fresh zeroMemory_zeroRoot Reachable.refl gigabyteCall_valid
    (zeroMemory_map_ne gigabyteCall_valid (by decide))).mpr ⟨by decide, ?_⟩
  intro va hva hout i e hleaf
  obtain ⟨rfl, rfl⟩ := zeroMemory_leafAt.mp hleaf
  have hge : 2 ^ 30 ≤ va.toNat := by
    by_contra hlt
    exact hout ⟨Nat.zero_le _, not_le.mp hlt⟩
  have hvpn : vpn 2 va.toNat ≠ 0 := by
    rw [vpn, show pageSize 2 = 2 ^ 30 from rfl]
    omega
  rw [MapCall.Spares, visit_gigabyteCall, if_neg hvpn]
  exact Or.inl rfl

/-- Three megapages whose physical addresses are not aligned. -/
def shiftedCall : MapCall := ⟨0x1000, 0, 0x600000, 0xf⟩

theorem shiftedCall_valid : shiftedCall.Valid := by
  decide

/-- The middle one of three megapages is written as a misaligned superpage. -/
theorem not_map_covers_shifted :
    ¬ ∀ (paging : Sv39) (heap : Allocator 8) (mem₀ mem : Memory 8) (c : MapCall),
      FreshPages paging heap mem₀.allocated → ZeroRoot paging mem₀ →
      Reachable paging heap (fun _ _ => True) mem₀ mem → c.Valid → 0 < c.length.toNat →
      c.physicalAddr.toNat + c.length.toNat ≤ 2 ^ 39 →
      paging.map heap c mem ≠ .error .outOfMemory →
      ∃ mem', paging.map heap c mem = .ok mem' ∧ ∀ k < c.length.toNat,
        paging.query mem' (c.virtualAddr + BitVec.ofNat 64 k) =
          .ok (.ok (c.physicalAddr + BitVec.ofNat 64 k)) := by
  intro hall
  obtain ⟨mem', hmap, hquery⟩ := hall identitySv39 identityHeap zeroMemory zeroMemory shiftedCall
    identity_fresh zeroMemory_zeroRoot Reachable.refl shiftedCall_valid (by decide) (by decide)
    (zeroMemory_map_ne shiftedCall_valid (by decide))
  have hcovers := (shiftedCall_valid.query_eq_iff_covers identity_fresh zeroMemory_represents
    (by decide) hmap (k := 0x200000) (by decide) (zeroMemory_leafAt.mpr ⟨rfl, rfl⟩)).mp
      (hquery 0x200000 (by decide))
  -- Only the first and the last megapage are split, and this is the one between them.
  have hvisit : (shiftedCall.decanonical 3).visit
      ((shiftedCall.decanonical 3).virtualAddr.toNat + 0x200000) 2 2 = .rewritten 1 := by decide
  rw [MapCall.Covers, hvisit] at hcovers
  revert hcovers
  show ¬ (shiftedCall.decanonical 3).Congruent 1
  decide

/-- The page past the range is mapped too. -/
theorem not_map_spares_page :
    ¬ ∀ (paging : Sv39) (heap : Allocator 8) (mem₀ mem : Memory 8) (c : MapCall),
      FreshPages paging heap mem₀.allocated → ZeroRoot paging mem₀ →
      Reachable paging heap (fun _ _ => True) mem₀ mem → c.Valid →
      paging.map heap c mem ≠ .error .outOfMemory →
      ∃ mem', paging.map heap c mem = .ok mem' ∧ ∀ va : Usize, va.toNat < 2 ^ 39 →
        ¬ ((c.decanonical 3).virtualAddr.toNat ≤ va.toNat ∧ va.toNat < (c.decanonical 3).stop) →
          paging.query mem' va = paging.query mem va := by
  intro hall
  obtain ⟨mem', hmap, hquery⟩ := hall identitySv39 identityHeap zeroMemory zeroMemory pageCall
    identity_fresh zeroMemory_zeroRoot Reachable.refl pageCall_valid
    (zeroMemory_map_ne pageCall_valid (by decide))
  have hleaf : identitySv39.LeafAt zeroMemory 0x1000 2 Entry.zeroed :=
    zeroMemory_leafAt.mpr ⟨rfl, rfl⟩
  have hspares := (pageCall_valid.query_eq_iff_spares identity_fresh zeroMemory_represents hmap
    (by decide) hleaf).mp (hquery 0x1000 (by decide) (by decide))
  -- At level 0 the last index is that of the byte past the range.
  have hvisit : (pageCall.decanonical 3).visit (0x1000 : Usize).toNat 2 2 = .rewritten 0 := by
    decide
  rw [MapCall.Spares, hvisit] at hspares
  exact absurd hspares.1 (by decide)

end Identity

end AsyncKernel
