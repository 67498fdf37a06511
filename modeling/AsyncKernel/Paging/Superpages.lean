import AsyncKernel.Paging.Effect
import AsyncKernel.Paging.Coverage
import AsyncKernel.Paging.Alignment
import AsyncKernel.Paging.Megapages

/-!
# Runs of calls in superpages

The loops of `map_internal` below the root run over the bounds of the whole range, and at level 0 up
to the page past it. A call over whole gigapages, or over whole megapages of one gigapage, is not
touched by either: it never comes to level 0 when no leaf is there, and one table at most is visited
in part. So from a zeroed root such calls build the address space that they say, whatever they
overwrite: the last call whose range contains an address decides.

## Main definitions

* `MapCall.Superpages`: a call over gigapages, or over megapages of one gigapage
* `mapCalls`: calls in one address space, one after the other
* `lastTranslation`: what the last call says of an address
* `Superspace`: an address space of superpages that answers as a list of calls says

## Main results

* `visit_superpages`: which superpages a call rewrites
* `Superspace.map`: one call
* `query_superpages`: a run of calls
-/

namespace AsyncKernel

open Bits

/-- The addresses and the length are multiples of the size of a page. -/
def MapCall.Whole (c : MapCall) (j : ℕ) : Prop :=
  pageSize j ∣ c.virtualAddr.toNat ∧ pageSize j ∣ c.physicalAddr.toNat ∧ pageSize j ∣ c.length.toNat

instance (c : MapCall) (j : ℕ) : Decidable (c.Whole j) := inferInstanceAs (Decidable (_ ∧ _ ∧ _))

/-- A call over whole gigapages, or over whole megapages of one gigapage. -/
structure MapCall.Superpages (c : MapCall) : Prop where
  valid : c.Valid
  pos : 0 < c.length.toNat
  physical_le : c.physicalAddr.toNat + c.length.toNat ≤ 2 ^ 39
  whole : (c.decanonical 3).Whole 2 ∨
    (c.decanonical 3).Whole 1 ∧ (c.decanonical 3).first 2 = (c.decanonical 3).last 2

/-- The calls, one after the other. -/
def mapCalls (paging : Sv39) (heap : Allocator 8) (calls : List MapCall) (mem : Memory 8) :
    Except Fault (Memory 8) :=
  calls.foldlM (fun mem c => paging.map heap c mem) mem

/-- What the last call whose range contains an address says of it, up to the bits above the
scheme. -/
def lastTranslation (calls : List MapCall) (va : Usize) : Except PageLookupError Usize :=
  lastResult (calls.map (MapCall.decanonical 3)) (BitVec.ofNat 64 (va.toNat % pageSize 3))

/-! ## The superpages that a call rewrites -/

section Visit

variable {c : MapCall} {va i : ℕ}

/-- The last index of a loop above level 0 that does not wrap. -/
theorem MapCall.last_eq {l : ℕ} (hl : l ≠ 0) (h : vpn l c.virtualAddr.toNat ≤ vpn l (c.stop - 1)) :
    c.last l = vpn l (c.stop - 1) := by
  unfold MapCall.last
  rw [if_neg hl]
  exact if_neg (not_lt.mpr h)

/-- The loop at the root comes to the gigapages of the range. -/
theorem MapCall.visits_two_iff (hstop : c.stop ≤ 2 ^ 39) (hpos : 0 < c.length.toNat)
    (hva : va < 2 ^ 39) :
    c.Visits 2 (vpn 2 va) ↔
      c.virtualAddr.toNat / 2 ^ 30 ≤ va / 2 ^ 30 ∧ va / 2 ^ 30 ≤ (c.stop - 1) / 2 ^ 30 := by
  have hsum : c.stop = c.virtualAddr.toNat + c.length.toNat := rfl
  have hvpn : ∀ a < 2 ^ 39, vpn 2 a = a / 2 ^ 30 := fun a ha => by
    rw [vpn, show pageSize 2 = 2 ^ 30 from rfl]
    omega
  have hfirst := hvpn c.virtualAddr.toNat (by omega)
  have hlast := hvpn (c.stop - 1) (by omega)
  rw [MapCall.Visits, MapCall.last_eq (by norm_num) (by omega), MapCall.first, hfirst, hlast,
    hvpn va hva]

/-- No superpage of a call over whole ones is split. -/
theorem MapCall.Whole.splits_eq_false {j : ℕ} (h : c.Whole j) (hc : c.Aligned) (hj : j ≤ 5) (v : ℕ) :
    c.splits j v = false := by
  obtain ⟨hvirtual, hphysical, hlength⟩ := h
  rw [Bool.eq_false_iff, ne_eq, MapCall.splits, MapCall.splitsAt_iff hc hj]
  rintro (⟨-, hstart | hstart⟩ | ⟨-, hend | hend⟩)
  · exact hstart hvirtual
  · exact hstart hphysical
  · exact hend (Dvd.dvd.add hvirtual hlength)
  · exact hend (Dvd.dvd.add hphysical hlength)

/-- The only gigapage of a call that is not over whole gigapages is split. -/
theorem MapCall.splits_of_not_whole (hc : c.Aligned) (hwhole : ¬ c.Whole 2)
    (hsingle : c.first 2 = c.last 2) : c.splits 2 (c.first 2) = true := by
  rw [MapCall.splits, MapCall.splitsAt_iff hc (by norm_num)]
  by_contra hsplits
  rw [not_or] at hsplits
  obtain ⟨hstart, hend⟩ := hsplits
  have hvirtual : pageSize 2 ∣ c.virtualAddr.toNat := by
    by_contra hv
    exact hstart ⟨rfl, Or.inl hv⟩
  have hphysical : pageSize 2 ∣ c.physicalAddr.toNat := by
    by_contra hp
    exact hstart ⟨rfl, Or.inr hp⟩
  have hsum : pageSize 2 ∣ c.stop := by
    by_contra hs
    exact hend ⟨hsingle, Or.inl hs⟩
  exact hwhole ⟨hvirtual, hphysical, (Nat.dvd_add_right hvirtual).mp hsum⟩

/-- The loop over the megapages of one gigapage comes to those of the range. -/
theorem MapCall.visits_one_iff (hpos : 0 < c.length.toNat)
    (hfirst : va / 2 ^ 30 = c.virtualAddr.toNat / 2 ^ 30)
    (hlast : va / 2 ^ 30 = (c.stop - 1) / 2 ^ 30) :
    c.Visits 1 (vpn 1 va) ↔
      c.virtualAddr.toNat / 2 ^ 21 ≤ va / 2 ^ 21 ∧ va / 2 ^ 21 ≤ (c.stop - 1) / 2 ^ 21 := by
  have hsum : c.stop = c.virtualAddr.toNat + c.length.toNat := rfl
  have hvpn : ∀ a, vpn 1 a = a / 2 ^ 21 % 512 := fun a => rfl
  have hstart := hvpn c.virtualAddr.toNat
  have hend := hvpn (c.stop - 1)
  rw [MapCall.Visits, MapCall.last_eq (by norm_num) (by omega), MapCall.first, hstart, hend,
    hvpn va]
  omega

/-- The loop over the megapages of a gigapage that lies in the range comes to all of them. -/
theorem MapCall.Whole.visits_one (h : c.Whole 2) (hpos : 0 < c.length.toNat) {v : ℕ}
    (hv : v < 512) : c.Visits 1 v := by
  obtain ⟨⟨a, ha⟩, -, ⟨b, hb⟩⟩ := h
  rw [show pageSize 2 = 2 ^ 30 from rfl] at ha hb
  have hsum : c.stop = c.virtualAddr.toNat + c.length.toNat := rfl
  have hvpn : ∀ a, vpn 1 a = a / 2 ^ 21 % 512 := fun a => rfl
  have hstart := hvpn c.virtualAddr.toNat
  have hend := hvpn (c.stop - 1)
  rw [MapCall.Visits, MapCall.last_eq (by norm_num) (by omega), MapCall.first, hstart, hend]
  omega

/-- **Which superpages a call rewrites**: those of its range, at a level where the physical and the
virtual address agree. -/
theorem visit_superpages (hc : c.Superpages) (hva : va < 2 ^ 39) (hi : 1 ≤ i) :
    if (c.decanonical 3).Contains va then
      ∃ j, 1 ≤ j ∧ j ≤ 2 ∧ (c.decanonical 3).visit va 2 i = .rewritten j ∧
        (c.decanonical 3).Congruent j
    else ∃ j, 1 ≤ j ∧ (c.decanonical 3).visit va 2 i = .missed j := by
  obtain ⟨hvalid, hpos, -, hwhole⟩ := hc
  have haligned := hvalid.aligned
  have hstop := hvalid.stop_le
  change 0 < (c.decanonical 3).length.toNat at hpos
  generalize c.decanonical 3 = c at *
  have hsum : c.stop = c.virtualAddr.toNat + c.length.toNat := rfl
  have hvisits := MapCall.visits_two_iff hstop hpos hva
  -- Pages of level `j` that are whole begin at multiples of their size, in both address spaces.
  have hcongruent : ∀ j, c.Whole j → c.Congruent j := fun j h => by
    rw [MapCall.Congruent, Nat.mod_eq_zero_of_dvd h.1, Nat.mod_eq_zero_of_dvd h.2.1]
  have hone : c.Whole 1 := by
    rcases hwhole with h | h
    · have hdvd : pageSize 1 ∣ pageSize 2 := pageSize_dvd (by norm_num)
      exact ⟨hdvd.trans h.1, hdvd.trans h.2.1, hdvd.trans h.2.2⟩
    · exact h.1
  have hmegapage : c.visit va 1 1 =
      if c.Visits 1 (vpn 1 va) then .rewritten 1 else .missed 1 := by
    unfold MapCall.visit
    exact if_congr Iff.rfl (if_pos ⟨rfl, hone.splits_eq_false haligned (by norm_num) _⟩) rfl
  unfold MapCall.visit
  by_cases htwo : c.Whole 2
  · -- gigapages: the loop at the root comes to those of the range
    obtain ⟨⟨a, ha⟩, -, ⟨b, hb⟩⟩ := id htwo
    rw [show pageSize 2 = 2 ^ 30 from rfl] at ha hb
    have hcontains : c.Contains va ↔ c.Visits 2 (vpn 2 va) := by
      rw [hvisits, MapCall.Contains, hsum]
      omega
    by_cases hin : c.Contains va
    · rw [if_pos hin, if_pos (hcontains.mp hin), htwo.splits_eq_false haligned (by norm_num)]
      by_cases h2 : i = 2
      · exact ⟨2, by norm_num, le_rfl, by rw [if_pos ⟨h2, rfl⟩], hcongruent 2 htwo⟩
      · refine ⟨1, le_rfl, by norm_num, ?_, hcongruent 1 hone⟩
        rw [if_neg fun h => h2 h.1, Nat.min_eq_right hi, hmegapage,
          if_pos (htwo.visits_one hpos (vpn_lt _ _))]
    · rw [if_neg hin, if_neg (mt hcontains.mpr hin)]
      exact ⟨2, by norm_num, rfl⟩
  · -- megapages of one gigapage, which is split
    obtain ⟨⟨a, ha⟩, -, ⟨b, hb⟩⟩ := id hone
    rw [show pageSize 1 = 2 ^ 21 from rfl] at ha hb
    have hsingle := (hwhole.resolve_left htwo).2
    have hsplits := MapCall.splits_of_not_whole haligned htwo hsingle
    have hgigapage : c.virtualAddr.toNat / 2 ^ 30 = (c.stop - 1) / 2 ^ 30 := by
      have hvpn : ∀ a < 2 ^ 39, vpn 2 a = a / 2 ^ 30 := fun a ha => by
        rw [vpn, show pageSize 2 = 2 ^ 30 from rfl]
        omega
      have hstart := hvpn c.virtualAddr.toNat (by omega)
      have hend := hvpn (c.stop - 1) (by omega)
      rw [MapCall.last_eq (by norm_num) (by omega), MapCall.first, hstart, hend] at hsingle
      exact hsingle
    by_cases hvisit : c.Visits 2 (vpn 2 va)
    · have hvpn : vpn 2 va = c.first 2 := by
        obtain ⟨hlo, hhi⟩ := hvisit
        omega
      obtain ⟨hlo, hhi⟩ := hvisits.mp hvisit
      have hvisits₁ := MapCall.visits_one_iff (c := c) hpos (show va / 2 ^ 30 = _ by omega)
        (by omega)
      have hcontains : c.Contains va ↔ c.Visits 1 (vpn 1 va) := by
        rw [hvisits₁, MapCall.Contains, hsum]
        omega
      -- whatever the level of the leaf, its megapages are treated one by one
      have hsplit : ¬ (i = 1 + 1 ∧ c.splits (1 + 1) (vpn (1 + 1) va) = false) := by
        rintro ⟨-, hnone⟩
        rw [show vpn (1 + 1) va = c.first 2 from hvpn, hsplits] at hnone
        cases hnone
      by_cases hin : c.Contains va
      · rw [if_pos hin, if_pos hvisit, if_neg hsplit, Nat.min_eq_right hi, hmegapage,
          if_pos (hcontains.mp hin)]
        exact ⟨1, le_rfl, by norm_num, rfl, hcongruent 1 hone⟩
      · rw [if_neg hin, if_pos hvisit, if_neg hsplit, Nat.min_eq_right hi, hmegapage,
          if_neg (mt hcontains.mpr hin)]
        exact ⟨1, le_rfl, rfl⟩
    · rw [if_neg hvisit, if_neg fun hin => hvisit (hvisits.mpr ?_)]
      · exact ⟨2, by norm_num, rfl⟩
      · obtain ⟨hlo, hhi⟩ := hin
        omega

end Visit

/-! ## Runs -/

/-- **An address space of superpages** that answers as a list of calls says: every leaf is a
superpage, aligned when it is valid. -/
structure Superspace (paging : Sv39) (heap : Allocator 8) (n₀ : ℕ) (mem : Memory 8)
    (calls : List MapCall) : Prop where
  represents : ∃ entries, Represents paging heap n₀ (Set.Iio 512) mem entries
  level : ∀ va i e, paging.LeafAt mem va i e → 1 ≤ i
  aligned : ∀ va i e, paging.LeafAt mem va i e → e.value.getLsbD 0 = true → 2 ^ (9 * i) ∣ e.ppn
  query : ∀ va, paging.query mem va = .ok (lastTranslation calls va)

section Run

variable {paging : Sv39} {heap : Allocator 8} {n₀ : ℕ} {mem mem' : Memory 8}
  {calls : List MapCall} {c : MapCall}

/-- The call made last decides about the addresses of its range, and no others. -/
theorem lastTranslation_append (hc : c.Superpages) (va : Usize) :
    lastTranslation (calls ++ [c]) va =
      if (c.decanonical 3).Contains (va.toNat % pageSize 3) then
        .ok (BitVec.ofNat 64 ((va.toNat + (c.decanonical 3).delta) % pageSize 3))
      else lastTranslation calls va := by
  have hphysical : (c.decanonical 3).physicalAddr.toNat + (c.decanonical 3).length.toNat ≤ 2 ^ 39 :=
    hc.physical_le
  have hdelta := (c.decanonical 3).virtual_add_delta
  have hlt : va.toNat % pageSize 3 < 2 ^ 39 := Nat.mod_lt _ (pageSize_pos 3)
  have hval : (BitVec.ofNat 64 (va.toNat % pageSize 3) : Usize).toNat = va.toNat % pageSize 3 := by
    rw [BitVec.toNat_ofNat]
    omega
  rw [lastTranslation, lastTranslation, lastResult, lastResult, List.map_append, List.map_singleton,
    lastCall_append, hval]
  by_cases hin : (c.decanonical 3).Contains (va.toNat % pageSize 3)
  · rw [if_pos hin, if_pos hin]
    obtain ⟨hlo, hhi⟩ := hin
    rw [MapCall.stop] at hhi
    -- The distance to the start of the range carries over, and the result stays below `2 ^ 39`.
    refine congrArg Except.ok (BitVec.eq_of_toNat_eq ?_)
    rw [BitVec.toNat_add, BitVec.toNat_sub, hval, BitVec.toNat_ofNat]
    rw [show pageSize 3 = 2 ^ 39 from rfl] at *
    omega
  · rw [if_neg hin, if_neg hin]

/-- **One address after a call**: its leaf is a superpage, aligned when it is valid, and the call
decides about it or leaves it as it was. -/
theorem exists_superleaf_map (hfresh : FreshPages paging heap n₀) {entries : ℕ → PageNode 2}
    (h : Represents paging heap n₀ (Set.Iio 512) mem entries) (hc : c.Superpages)
    (hmap : paging.map heap c mem = .ok mem') {va : Usize} {i : ℕ} {e : Entry}
    (hleaf : paging.LeafAt mem va i e) (hi : 1 ≤ i)
    (haligned : e.value.getLsbD 0 = true → 2 ^ (9 * i) ∣ e.ppn) :
    ∃ j e', paging.LeafAt mem' va j e' ∧ 1 ≤ j ∧
      (e'.value.getLsbD 0 = true → 2 ^ (9 * j) ∣ e'.ppn) ∧
      paging.query mem' va = if (c.decanonical 3).Contains (va.toNat % pageSize 3) then
          .ok (.ok (BitVec.ofNat 64 ((va.toNat + (c.decanonical 3).delta) % pageSize 3)))
        else paging.query mem va := by
  have hlt : va.toNat % pageSize 3 < 2 ^ 39 := Nat.mod_lt _ (pageSize_pos 3)
  have hflags := hc.valid.flags_lt
  obtain ⟨hi', hbound⟩ := h.leafAt_facts hfresh (by norm_num) (by norm_num) (vpn_lt _ _) hleaf
  obtain ⟨entries', hrep', heq⟩ := leafAt_map hfresh (by norm_num) (by norm_num) h
    hc.valid.leafFlags (fun v hv => hv.lt) hmap (vpn_lt _ _) hleaf
  have hafter : ∀ {j e'}, (entries' (vpn (3 - 1) va.toNat)).leafAt va.toNat = (j, e') →
      paging.LeafAt mem' va j e' ∧ paging.query mem' va = leafResult 3 va (j, e') := by
    intro j e' h
    have hleaf' := (hrep'.leafAt_iff hfresh (by norm_num) (vpn_lt _ _)).mpr h
    exact ⟨hleaf', hrep'.query_leafAt hfresh (by norm_num) (vpn_lt _ _) hleaf'⟩
  have hvisit := visit_superpages hc hlt hi
  rw [MapCall.effect] at heq
  by_cases hin : (c.decanonical 3).Contains (va.toNat % pageSize 3)
  · -- rewritten: the new superpage is aligned, as the call is
    rw [if_pos hin] at hvisit ⊢
    obtain ⟨j, hj, hj', hvisit, hcongruent⟩ := hvisit
    rw [show (MapCall.decanonical 3 c).visit _ (3 - 1) i = _ from hvisit] at heq
    obtain ⟨hleaf', hquery'⟩ := hafter heq
    have hdvd := (MapCall.congruent_iff _ (by omega)).mp hcongruent
    refine ⟨j, _, hleaf', hj, fun _ => ?_, hquery'.trans ?_⟩
    · refine (MapCall.dvd_ppn_newEntry hc.valid.aligned ?_ (by omega) (by omega)).mpr hdvd
      show c.flags.toNat < _
      omega
    · rw [leafResult_rewritten (by norm_num) (by omega) hc.valid.aligned hflags hc.valid.valid,
        if_pos hdvd]
  · -- missed: the old leaf, or the part of it that a split has left
    rw [if_neg hin] at hvisit ⊢
    obtain ⟨j, hj, hvisit⟩ := hvisit
    rw [show (MapCall.decanonical 3 c).visit _ (3 - 1) i = _ from hvisit] at heq
    obtain ⟨hleaf', hquery'⟩ := hafter heq
    refine ⟨min i j, _, hleaf', by omega, fun hv => ?_, hquery'.trans ?_⟩
    · rw [Entry.getLsbD_cut hbound _ (by norm_num)] at hv
      exact (Entry.dvd_ppn_cut hbound _).mpr
        ((Nat.pow_dvd_pow 2 (by omega)).trans (haligned hv))
    · rw [leafResult_missed (by norm_num) (by omega) hbound,
        h.query_leafAt hfresh (by norm_num) (vpn_lt _ _) hleaf, leafResult_eq (by norm_num) hi']
      refine if_ctx_congr Iff.rfl (fun _ => rfl) fun hv => ?_
      have hdvd := haligned (by simpa using hv)
      rw [if_pos hdvd, if_pos ((Nat.pow_dvd_pow 2 (by omega)).trans hdvd)]

/-- **One call.** -/
theorem Superspace.map (hfresh : FreshPages paging heap n₀)
    (h : Superspace paging heap n₀ mem calls) (hc : c.Superpages)
    (hmap : paging.map heap c mem = .ok mem') :
    Superspace paging heap n₀ mem' (calls ++ [c]) := by
  obtain ⟨entries, hrep⟩ := h.represents
  have hleaf : ∀ va, ∃ i e, paging.LeafAt mem va i e := fun va =>
    hrep.exists_leafAt hfresh (by norm_num) (vpn_lt _ _)
  -- The leaf of an address after the call comes from the one before.
  have hafter : ∀ va, ∃ j e', paging.LeafAt mem' va j e' ∧ 1 ≤ j ∧
      (e'.value.getLsbD 0 = true → 2 ^ (9 * j) ∣ e'.ppn) ∧
      paging.query mem' va = .ok (lastTranslation (calls ++ [c]) va) := by
    intro va
    obtain ⟨i, e, hleaf⟩ := hleaf va
    obtain ⟨j, e', hleaf', hj, haligned', hquery'⟩ := exists_superleaf_map hfresh hrep hc hmap hleaf
      (h.level va i e hleaf) (h.aligned va i e hleaf)
    refine ⟨j, e', hleaf', hj, haligned', ?_⟩
    rw [hquery', lastTranslation_append hc, h.query]
    exact (apply_ite Except.ok _ _ _).symm
  obtain ⟨hpos, hlt⟩ := (aligned_of_map_eq_ok (by norm_num) (by norm_num) hmap).2
  obtain ⟨hrep', -, -⟩ := (map_outcome hfresh (by norm_num) (by norm_num) hrep
    ⟨hc.valid.aligned, hc.valid.leafFlags, hlt⟩ hpos fun v hv => hv.lt).post_of_eq_ok hmap
  refine ⟨⟨_, hrep'⟩, fun va i e hleaf => ?_, fun va i e hleaf hv => ?_, fun va => ?_⟩
  · obtain ⟨j, e', hleaf', hj, -⟩ := hafter va
    obtain ⟨rfl, -⟩ := hleaf.unique hleaf'
    exact hj
  · obtain ⟨j, e', hleaf', -, haligned', -⟩ := hafter va
    obtain ⟨rfl, rfl⟩ := hleaf.unique hleaf'
    exact haligned' hv
  · obtain ⟨-, -, -, -, -, hquery'⟩ := hafter va
    exact hquery'

/-- A zeroed root is an address space of superpages in which nothing is mapped. -/
theorem superspace_zeroed (hfresh : FreshPages paging heap mem.allocated)
    (hzero : ZeroRoot paging mem) : Superspace paging heap mem.allocated mem [] := by
  have hrep := hzero.represents hfresh
  have hleaf : ∀ va i e, paging.LeafAt mem va i e → i = 2 ∧ e = Entry.zeroed := by
    intro va i e hleaf
    have heq := (hrep.leafAt_iff hfresh (by norm_num) (vpn_lt _ _)).mp hleaf
    rw [PageNode.leafAt_leaf] at heq
    obtain ⟨rfl, rfl⟩ := Prod.mk.inj heq
    exact ⟨rfl, rfl⟩
  refine ⟨⟨_, hrep⟩, fun va i e h => ?_, fun va i e h hv => ?_, fun va => ?_⟩
  · obtain ⟨rfl, -⟩ := hleaf va i e h
    norm_num
  · obtain ⟨-, rfl⟩ := hleaf va i e h
    simp [Entry.zeroed] at hv
  · rw [hrep.query_eq hfresh (by norm_num) (vpn_lt _ _), PageNode.leafAt_leaf]
    rfl

theorem Superspace.run (hfresh : FreshPages paging heap n₀) {calls₀ : List MapCall}
    (h : Superspace paging heap n₀ mem calls₀) (hcalls : ∀ c ∈ calls, c.Superpages)
    (hrun : mapCalls paging heap calls mem = .ok mem') :
    Superspace paging heap n₀ mem' (calls₀ ++ calls) := by
  induction calls generalizing mem calls₀ with
  | nil =>
    obtain rfl := Except.ok.inj hrun
    rwa [List.append_nil]
  | cons c calls ih =>
    rw [mapCalls, List.foldlM_cons] at hrun
    obtain ⟨mem₁, hmap, hrun⟩ := bind_eq_ok_iff.mp hrun
    have hnext := h.map hfresh (hcalls c List.mem_cons_self) hmap
    have hall := ih hnext (fun c hc => hcalls c (List.mem_cons_of_mem _ hc)) hrun
    rwa [List.append_assoc] at hall

/-- Calls in superpages fail only without memory. -/
theorem Superspace.returns (hfresh : FreshPages paging heap n₀) {calls₀ : List MapCall}
    (h : Superspace paging heap n₀ mem calls₀) (hcalls : ∀ c ∈ calls, c.Superpages)
    (hmemory : mapCalls paging heap calls mem ≠ .error .outOfMemory) :
    ∃ mem', mapCalls paging heap calls mem = .ok mem' := by
  induction calls generalizing mem calls₀ with
  | nil => exact ⟨mem, rfl⟩
  | cons c calls ih =>
    have hc := hcalls c List.mem_cons_self
    obtain ⟨entries, hrep⟩ := h.represents
    rw [mapCalls, List.foldlM_cons] at hmemory
    obtain ⟨mem₁, hmap⟩ := hc.valid.map_returns hfresh hrep
      (lt_of_lt_of_le hc.pos (Nat.le_add_left _ _)) fun herror => hmemory (by rw [herror]; rfl)
    rw [hmap, ok_bind] at hmemory
    obtain ⟨mem', hrun⟩ := ih (h.map hfresh hc hmap)
      (fun c hc => hcalls c (List.mem_cons_of_mem _ hc)) hmemory
    refine ⟨mem', ?_⟩
    rw [mapCalls, List.foldlM_cons, hmap, ok_bind]
    exact hrun

/-- **A run of calls in superpages** builds the address space that the calls say: every lookup
answers as the last call whose range contains the address does. -/
theorem query_superpages (hfresh : FreshPages paging heap mem.allocated)
    (hzero : ZeroRoot paging mem) (hcalls : ∀ c ∈ calls, c.Superpages)
    (hmemory : mapCalls paging heap calls mem ≠ .error .outOfMemory) :
    ∃ mem', mapCalls paging heap calls mem = .ok mem' ∧
      ∀ va, paging.query mem' va = .ok (lastTranslation calls va) := by
  have hstart := superspace_zeroed hfresh hzero
  obtain ⟨mem', hrun⟩ := hstart.returns hfresh hcalls hmemory
  exact ⟨mem', hrun, (hstart.run hfresh hcalls hrun).query⟩

end Run

/-! ## A gigapage with a hole -/

/-- A megapage of `gigabyteCall`, at another place. -/
def megapageCall : MapCall := ⟨0x80000000, 0x200000, 0x200000, 0xf⟩

theorem gigabyteCall_superpages : gigabyteCall.Superpages :=
  ⟨gigabyteCall_valid, by decide, by decide, Or.inl (by decide)⟩

theorem megapageCall_superpages : megapageCall.Superpages :=
  ⟨by decide, by decide, by decide, Or.inr (by decide)⟩

/-- With room for its tables a call returns. -/
theorem exists_map_of_room {paging : Sv39} {heap : Allocator 8} {n₀ : ℕ} {mem : Memory 8}
    {calls : List MapCall} {c : MapCall} (hfresh : FreshPages paging heap n₀)
    (h : Superspace paging heap n₀ mem calls) (hc : c.Superpages)
    (hroom : mem.allocated + 512 * MapCall.tableBound 2 ≤ heap.capacity) :
    ∃ mem', paging.map heap c mem = .ok mem' ∧ Superspace paging heap n₀ mem' (calls ++ [c]) ∧
      mem'.allocated ≤ mem.allocated + 512 * MapCall.tableBound 2 := by
  obtain ⟨entries, hrep⟩ := h.represents
  have hstop := hc.valid.stop_le
  have hpos : 0 < (c.decanonical 3).stop := lt_of_lt_of_le hc.pos (Nat.le_add_left _ _)
  have hle : (c.decanonical 3).newTables 2 entries ≤ 512 * MapCall.tableBound 2 :=
    MapCall.newTables_le _
  obtain ⟨mem', hmap, -, hallocated, -⟩ := (map_outcome hfresh (by norm_num) (by norm_num) hrep
    ⟨hc.valid.aligned, hc.valid.leafFlags, by omega⟩ (fun _ => hpos) fun v hv =>
      hv.lt).exists_ok fun f hf => by
        have hlt : heap.capacity < mem.allocated + (c.decanonical 3).newTables 2 entries := hf.2
        omega
  have hallocated' : mem'.allocated = mem.allocated + (c.decanonical 3).newTables 2 entries :=
    hallocated
  exact ⟨mem', hmap, h.map hfresh hc hmap, by omega⟩

/-- A gigapage whose second megapage lies elsewhere. -/
theorem query_superpages_hole :
    ∃ mem', mapCalls identitySv39 identityHeap [gigabyteCall, megapageCall] zeroMemory = .ok mem' ∧
      ∀ va, identitySv39.query mem' va =
        .ok (lastTranslation [gigabyteCall, megapageCall] va) := by
  have hbound : 512 * MapCall.tableBound 2 + 512 * MapCall.tableBound 2 < 2 ^ 30 := by decide
  have hcapacity : identityHeap.capacity = 2 ^ 30 := rfl
  have hnone : zeroMemory.allocated = 0 := rfl
  obtain ⟨mem₁, hmap₁, hspace₁, hallocated₁⟩ := exists_map_of_room identity_fresh
    (superspace_zeroed identity_fresh zeroMemory_zeroRoot) gigabyteCall_superpages (by omega)
  obtain ⟨mem₂, hmap₂, -, -⟩ := exists_map_of_room identity_fresh hspace₁ megapageCall_superpages
    (by omega)
  refine query_superpages identity_fresh zeroMemory_zeroRoot ?_ ?_
  · rintro c hc
    rcases List.mem_pair.mp hc with rfl | rfl
    · exact gigabyteCall_superpages
    · exact megapageCall_superpages
  · rw [mapCalls, List.foldlM_cons, hmap₁, ok_bind, List.foldlM_cons, hmap₂, ok_bind]
    rintro ⟨⟩

end AsyncKernel
