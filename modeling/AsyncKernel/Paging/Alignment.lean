import AsyncKernel.Paging.Coverage

/-!
# Superpages over a run

The lookup asserts that a superpage is aligned to its size. `map` splits the first and the last
superpage of a range when the range is not aligned to it, and writes those between as they are; a
call installs a misaligned superpage exactly when it writes one whose size does not divide the
distance of its physical and its virtual address.

## Main definitions

* `AlignedLeaves`: every superpage is aligned and no lookup fails its assertion
* `InstallsAligned`: the superpages that a call writes are aligned

## Main results

* `alignedLeaves_of_reachable`: a run of calls that install aligned superpages keeps them aligned,
  and a call that installs another ends that
-/

namespace AsyncKernel

open Bits

/-- Every valid superpage has an address that is a multiple of its size, and no lookup fails its
assertion. -/
structure AlignedLeaves (paging : Sv39) (mem : Memory 8) : Prop where
  address : ∀ va i e, paging.LeafAt mem va i e → e.value.getLsbD 0 = true → 0 < i →
    (getVpnSize i 8).toNat ∣ e.address.toNat
  query : ∀ va, paging.query mem va ≠ .error .assertion

/-- The superpages that a call writes are aligned. -/
def InstallsAligned (paging : Sv39) (mem : Memory 8) (c : MapCall) : Prop :=
  ∀ va i e j, paging.LeafAt mem va i e →
    (c.decanonical 3).visit (va.toNat % 2 ^ 39) 2 i = .rewritten j → (c.decanonical 3).Congruent j

/-- The arguments of a call that maps something. -/
def ProperCall (_ : Memory 8) (c : MapCall) : Prop := c.Valid ∧ 0 < c.length.toNat

/-- An entry without the two software bits between its flags and its page number. -/
def Entry.NoSoftwareBits (e : Entry) : Prop := e.value.toNat % 2 ^ 10 < 256

/-- The address of a leaf is a multiple of the size of its page when its page number is. -/
theorem Entry.NoSoftwareBits.dvd_address_iff {e : Entry} (h : e.NoSoftwareBits)
    {i : ℕ} (hi : i ≤ 5) : (getVpnSize i 8).toNat ∣ e.address.toNat ↔ 2 ^ (9 * i) ∣ e.ppn := by
  -- The address mask keeps the software bits, which would be part of the address.
  have haddr : e.value.toNat / 256 * 1024 = 4096 * e.ppn := by
    unfold Entry.NoSoftwareBits at h
    rw [Entry.ppn]
    omega
  rw [toNat_getVpnSize hi, Entry.toNat_address, Nat.dvd_mod_iff (pageSize_dvd_word hi), haddr,
    pageSize, Nat.pow_add]
  exact Nat.mul_dvd_mul_iff_left (by norm_num)

section Step

variable {paging : Sv39} {heap : Allocator 8} {mem₀ mem mem' : Memory 8} {c : MapCall}

/-- The leaves of a state have no software bits. -/
def PlainLeaves (paging : Sv39) (mem : Memory 8) : Prop :=
  ∀ va i e, paging.LeafAt mem va i e → e.NoSoftwareBits

/-- Aligned leaves, by their page numbers. -/
theorem alignedLeaves_iff {n₀ : ℕ} (hfresh : FreshPages paging heap n₀) {entries : ℕ → PageNode 2}
    (h : Represents paging heap n₀ (Set.Iio 512) mem entries) (hplain : PlainLeaves paging mem) :
    AlignedLeaves paging mem ↔ ∀ va i e, paging.LeafAt mem va i e → e.value.getLsbD 0 = true →
      2 ^ (9 * i) ∣ e.ppn := by
  constructor
  · intro haligned va i e hleaf hv
    obtain ⟨hi, -⟩ := h.leafAt_facts hfresh (by norm_num) (by norm_num) (vpn_lt _ _) hleaf
    rcases Nat.eq_zero_or_pos i with rfl | hpos
    · simp
    · exact ((hplain va i e hleaf).dvd_address_iff (by omega)).mp
        (haligned.address va i e hleaf hv hpos)
  · intro hdvd
    refine ⟨fun va i e hleaf hv _ => ?_, fun va => ?_⟩
    · obtain ⟨hi, -⟩ := h.leafAt_facts hfresh (by norm_num) (by norm_num) (vpn_lt _ _) hleaf
      exact ((hplain va i e hleaf).dvd_address_iff (by omega)).mpr (hdvd va i e hleaf hv)
    · -- a failed assertion is a valid leaf that is not aligned
      obtain ⟨i, e, hleaf⟩ := h.exists_leafAt hfresh (by norm_num) (vpn_lt 2 va.toNat)
      obtain ⟨hi, -⟩ := h.leafAt_facts hfresh (by norm_num) (by norm_num) (vpn_lt _ _) hleaf
      rw [h.query_leafAt hfresh (by norm_num) (vpn_lt _ _) hleaf, leafResult_eq (by norm_num) hi]
      cases hv : e.value.getLsbD 0 with
      | false => simp
      | true => simp [hdvd va i e hleaf hv]

/-- The leaf of an address after a call, rewritten or missed. -/
theorem leafAt_map_cases {n₀ : ℕ} (hfresh : FreshPages paging heap n₀) {entries : ℕ → PageNode 2}
    (h : Represents paging heap n₀ (Set.Iio 512) mem entries) (hc : c.Valid)
    (hmap : paging.map heap c mem = .ok mem') (va : Usize) :
    ∃ i e, paging.LeafAt mem va i e ∧ i ≤ 2 ∧ e.value.toNat + pageSize i / 4 ≤ 2 ^ 55 ∧
      ((∃ j, j ≤ 2 ∧ (c.decanonical 3).visit (va.toNat % 2 ^ 39) 2 i = .rewritten j ∧
          paging.LeafAt mem' va j
            ((c.decanonical 3).newEntry (pageStart j (va.toNat % 2 ^ 39)))) ∨
        ∃ j, j ≤ i ∧ (∀ j', (c.decanonical 3).visit (va.toNat % 2 ^ 39) 2 i ≠ .rewritten j') ∧
          paging.LeafAt mem' va j (e.cut i j (va.toNat % 2 ^ 39))) := by
  obtain ⟨i, e, hleaf⟩ := h.exists_leafAt hfresh (by norm_num) (vpn_lt 2 va.toNat)
  obtain ⟨hi, hbound⟩ := h.leafAt_facts hfresh (by norm_num) (by norm_num) (vpn_lt _ _) hleaf
  obtain ⟨entries', hrep', heq⟩ := leafAt_map hfresh (by norm_num) (by norm_num) h hc.leafFlags
    (fun v hv => hv.lt) hmap (vpn_lt _ _) hleaf
  refine ⟨i, e, hleaf, by omega, hbound, ?_⟩
  have hiff : ∀ j e', paging.LeafAt mem' va j e' ↔
      (entries' (vpn (3 - 1) va.toNat)).leafAt va.toNat = (j, e') := fun j e' =>
    hrep'.leafAt_iff hfresh (by norm_num) (vpn_lt _ _)
  rw [MapCall.effect, show pageSize 3 = 2 ^ 39 from rfl] at heq
  -- A split of a missed leaf leaves a part of it, at the level where the loop missed it.
  cases hvisit : (c.decanonical 3).visit (va.toNat % 2 ^ 39) 2 i with
  | rewritten j =>
    have hj := MapCall.visit_level_le (Or.inl hvisit)
    refine Or.inl ⟨j, hj, rfl, (hiff _ _).mpr ?_⟩
    rw [heq, show 3 - 1 = 2 from rfl, hvisit]
  | missed j =>
    refine Or.inr ⟨min i j, Nat.min_le_left i j, ?_, (hiff _ _).mpr ?_⟩
    · intro j' h
      cases h
    · rw [heq, show 3 - 1 = 2 from rfl, hvisit]

theorem PlainLeaves.map {n₀ : ℕ} (hfresh : FreshPages paging heap n₀) {entries : ℕ → PageNode 2}
    (h : Represents paging heap n₀ (Set.Iio 512) mem entries) (hplain : PlainLeaves paging mem)
    (hc : c.Valid) (hmap : paging.map heap c mem = .ok mem') : PlainLeaves paging mem' := by
  intro va i' e' hleaf'
  obtain ⟨i, e, hleaf, -, hbound, ⟨j, -, -, hnew⟩ | ⟨j, -, -, hcut⟩⟩ :=
    leafAt_map_cases hfresh h hc hmap va
  · obtain ⟨-, rfl⟩ := hleaf'.unique hnew
    have hlt : va.toNat % 2 ^ 39 < 2 ^ 64 := by omega
    have hflags := hc.flags_lt
    rw [Entry.NoSoftwareBits, MapCall.newEntry_mod hc.aligned (page_dvd_pageStart hlt),
      show (c.decanonical 3).flags = c.flags from rfl]
    omega
  · obtain ⟨-, rfl⟩ := hleaf'.unique hcut
    rw [Entry.NoSoftwareBits, Entry.toNat_cut hbound, Nat.add_mul_mod_self_right]
    exact hplain va i e hleaf

/-- **One call**: from aligned superpages it leads to aligned superpages exactly when those that it
writes are aligned. -/
theorem AlignedLeaves.map_iff {n₀ : ℕ} (hfresh : FreshPages paging heap n₀)
    {entries : ℕ → PageNode 2} (h : Represents paging heap n₀ (Set.Iio 512) mem entries)
    (hplain : PlainLeaves paging mem) (haligned : AlignedLeaves paging mem) (hc : c.Valid)
    (hmap : paging.map heap c mem = .ok mem') :
    AlignedLeaves paging mem' ↔ InstallsAligned paging mem c := by
  have hflags : (c.decanonical 3).flags.toNat < 2 ^ 10 := by
    show c.flags.toNat < _
    have := hc.flags_lt
    omega
  -- Whether a written superpage is aligned does not depend on where it is written.
  have hnew : ∀ j ≤ 2, ∀ va : Usize,
      2 ^ (9 * j) ∣ ((c.decanonical 3).newEntry (pageStart j (va.toNat % 2 ^ 39))).ppn ↔
        (c.decanonical 3).Congruent j := fun j hj va => by
    rw [MapCall.dvd_ppn_newEntry hc.aligned hflags (by omega) (by omega),
      MapCall.congruent_iff _ (by omega)]
  have hstop := aligned_of_map_eq_ok (by norm_num) (by norm_num) hmap
  obtain ⟨hrep', -, -⟩ := (map_outcome hfresh (by norm_num) (by norm_num) h
    ⟨hc.aligned, hc.leafFlags, hstop.2.2⟩ hstop.2.1 fun v hv =>
      hv.lt).post_of_eq_ok hmap
  rw [alignedLeaves_iff hfresh hrep' (hplain.map hfresh h hc hmap)]
  rw [alignedLeaves_iff hfresh h hplain] at haligned
  constructor
  · -- a rewritten address shows the superpage that was written there
    intro haligned' va i e j hleaf hvisit
    obtain ⟨i', e', hleaf', -, -, ⟨j', hj', hvisit', hnew'⟩ | ⟨-, -, hmissed, -⟩⟩ :=
      leafAt_map_cases hfresh h hc hmap va
    · obtain ⟨rfl, rfl⟩ := hleaf.unique hleaf'
      obtain rfl : j = j' := Visit.rewritten.inj (hvisit.symm.trans hvisit')
      refine (hnew j hj' va).mp (haligned' va j _ hnew' ?_)
      rw [MapCall.getLsbD_newEntry hc.aligned (page_dvd_pageStart (by omega)) (by norm_num)]
      exact hc.valid
    · obtain ⟨rfl, rfl⟩ := hleaf.unique hleaf'
      exact absurd hvisit (hmissed j)
  · -- a leaf is a written one, or a part of one that was aligned
    intro hinstalls va i' e' hleaf' hv
    obtain ⟨i, e, hleaf, -, hbound, ⟨j, hj, hvisit, hnew'⟩ | ⟨j, hj, -, hcut⟩⟩ :=
      leafAt_map_cases hfresh h hc hmap va
    · obtain ⟨rfl, rfl⟩ := hleaf'.unique hnew'
      exact (hnew i' hj va).mpr (hinstalls va i e i' hleaf hvisit)
    · obtain ⟨rfl, rfl⟩ := hleaf'.unique hcut
      rw [Entry.getLsbD_cut hbound _ (by norm_num)] at hv
      exact (Entry.dvd_ppn_cut hbound _).mpr
        ((Nat.pow_dvd_pow 2 (by omega)).trans (haligned va i e hleaf hv))

end Step

section Run

variable {paging : Sv39} {heap : Allocator 8} {mem₀ mem : Memory 8}

theorem ZeroRoot.represents (hfresh : FreshPages paging heap mem₀.allocated)
    (hzero : ZeroRoot paging mem₀) : Represents paging heap mem₀.allocated (Set.Iio 512) mem₀
      (fun _ => .leaf Entry.zeroed) :=
  represents_zeroed (by norm_num) (fun _ hv => hzero.slot hv) hfresh.started

theorem ZeroRoot.eq_zeroed (hfresh : FreshPages paging heap mem₀.allocated)
    (hzero : ZeroRoot paging mem₀) {va : Usize} {i : ℕ} {e : Entry}
    (h : paging.LeafAt mem₀ va i e) : e = Entry.zeroed := by
  have := ((hzero.represents hfresh).leafAt_iff hfresh (by norm_num) (vpn_lt 2 va.toNat)).mp h
  rw [PageNode.leafAt_leaf] at this
  exact (Prod.mk.inj this).2.symm

theorem ZeroRoot.plainLeaves (hfresh : FreshPages paging heap mem₀.allocated)
    (hzero : ZeroRoot paging mem₀) : PlainLeaves paging mem₀ := by
  intro va i e h
  rw [hzero.eq_zeroed hfresh h]
  show 0 < 256
  norm_num

theorem ZeroRoot.alignedLeaves (hfresh : FreshPages paging heap mem₀.allocated)
    (hzero : ZeroRoot paging mem₀) : AlignedLeaves paging mem₀ := by
  refine (alignedLeaves_iff hfresh (hzero.represents hfresh) (hzero.plainLeaves hfresh)).mpr ?_
  intro va i e h hv
  rw [hzero.eq_zeroed hfresh h] at hv
  cases hv

/-- **Superpages over a run**: in every state that calls which install aligned superpages reach, the
superpages are aligned; and from there a call keeps them aligned exactly when it installs aligned
ones. -/
theorem alignedLeaves_of_reachable (hfresh : FreshPages paging heap mem₀.allocated)
    (hzero : ZeroRoot paging mem₀)
    (h : Reachable paging heap
      (fun mem c => ProperCall mem c ∧ InstallsAligned paging mem c) mem₀ mem) :
    AlignedLeaves paging mem ∧ ∀ c mem', ProperCall mem c → paging.map heap c mem = .ok mem' →
      (AlignedLeaves paging mem' ↔ InstallsAligned paging mem c) := by
  have hrep : ∀ {mem}, Reachable paging heap
      (fun mem c => ProperCall mem c ∧ InstallsAligned paging mem c) mem₀ mem →
      ∃ entries, Represents paging heap mem₀.allocated (Set.Iio 512) mem entries := fun h =>
    Reachable.represents hfresh (by norm_num) (by norm_num) hzero
      (h.mono fun _ _ hc => hc.1.1.leafFlags)
  -- The invariant of the run; without software bits in the leaves the step lemma would not apply.
  have hinv : PlainLeaves paging mem ∧ AlignedLeaves paging mem := by
    induction h with
    | refl => exact ⟨hzero.plainLeaves hfresh, hzero.alignedLeaves hfresh⟩
    | step h hc hmap ih =>
      obtain ⟨entries, hrep'⟩ := hrep h
      exact ⟨ih.1.map hfresh hrep' hc.1.1 hmap,
        (ih.2.map_iff hfresh hrep' ih.1 hc.1.1 hmap).mpr hc.2⟩
  refine ⟨hinv.2, fun c mem' hc hmap => ?_⟩
  obtain ⟨entries, hrep'⟩ := hrep h
  exact hinv.2.map_iff hfresh hrep' hinv.1 hc.1 hmap

/-- The gigapage of the identity mapping is aligned. -/
theorem alignedLeaves_of_reachable_gigabyte :
    ∃ mem, identitySv39.map identityHeap gigabyteCall zeroMemory = .ok mem ∧
      AlignedLeaves identitySv39 mem := by
  obtain ⟨mem, hmap⟩ := gigabyteCall_valid.map_returns identity_fresh zeroMemory_represents
    (by decide) (zeroMemory_map_ne gigabyteCall_valid (by decide))
  refine ⟨mem, hmap, (alignedLeaves_of_reachable identity_fresh zeroMemory_zeroRoot
    (Reachable.step Reachable.refl ⟨⟨gigabyteCall_valid, by decide⟩, ?_⟩ hmap)).1⟩
  intro va i e j hleaf hvisit
  obtain ⟨rfl, -⟩ := zeroMemory_leafAt.mp hleaf
  rw [visit_gigabyteCall] at hvisit
  split at hvisit
  · obtain rfl := Visit.rewritten.inj hvisit
    decide
  · cases hvisit

/-- A call over three megapages installs a misaligned one. -/
theorem not_alignedLeaves_shifted :
    ¬ ∀ (paging : Sv39) (heap : Allocator 8) (mem₀ mem : Memory 8),
      FreshPages paging heap mem₀.allocated → ZeroRoot paging mem₀ →
      Reachable paging heap ProperCall mem₀ mem → AlignedLeaves paging mem := by
  intro hall
  obtain ⟨mem, hmap⟩ := shiftedCall_valid.map_returns identity_fresh zeroMemory_represents
    (by decide) (zeroMemory_map_ne shiftedCall_valid (by decide))
  have haligned := hall identitySv39 identityHeap zeroMemory mem identity_fresh zeroMemory_zeroRoot
    (Reachable.step Reachable.refl ⟨shiftedCall_valid, by decide⟩ hmap)
  have hinstalls := (AlignedLeaves.map_iff identity_fresh zeroMemory_represents
    (zeroMemory_zeroRoot.plainLeaves identity_fresh)
    (zeroMemory_zeroRoot.alignedLeaves identity_fresh) shiftedCall_valid hmap).mp haligned
  -- The middle megapage is written as it is.
  have hvisit : (shiftedCall.decanonical 3).visit ((0x200000 : Usize).toNat % 2 ^ 39) 2 2 =
      .rewritten 1 := by decide
  have hcong := hinstalls 0x200000 2 Entry.zeroed 1 (zeroMemory_leafAt.mpr ⟨rfl, rfl⟩) hvisit
  revert hcong
  decide

end Run

end AsyncKernel
