import AsyncKernel.Paging.Canonical
import AsyncKernel.Paging.Lookup
import AsyncKernel.Paging.MapCall

/-!
# Megapages of Sv32

Sv32 has tables of 1024 entries, of which `map_internal` writes those below 512: the assertion in its
loop bounds every index by the number of entries of an 8-byte scheme. A call over whole megapages
below 2 GiB writes the entries of its range in the root table; a call that ends above stops at entry
512, or at its first entry when that comes later.

## Main definitions

* `MapCall.Megapages`: a call over whole megapages
* `lastCall`, `lastResult`: the last call of a list whose range contains an address
* `RootHolds`: the entries of the root table after a list of calls

## Main results

* `map_megapages_outcome`: one call, with the index at which it fails
* `megapages_iff`: the lists of calls that map what they say
-/

namespace AsyncKernel

open Bits

/-- A call over whole megapages below 4 GiB, with the flags of a valid leaf. -/
@[mk_iff isMegapages_iff]
structure MapCall.Megapages (c : MapCall) : Prop where
  physical : 2 ^ 22 ∣ c.physicalAddr.toNat
  virtual : 2 ^ 22 ∣ c.virtualAddr.toNat
  length : 2 ^ 22 ∣ c.length.toNat
  pos : 0 < c.length.toNat
  stop_le : c.stop ≤ 2 ^ 32
  physical_le : c.physicalAddr.toNat + c.length.toNat ≤ 2 ^ 32
  flags_lt : c.flags.toNat < 256
  valid : c.flags.getLsbD 0 = true
  readExecute : c.flags.getLsbD 1 = true ∨ c.flags.getLsbD 3 = true

instance (c : MapCall) : Decidable c.Megapages :=
  decidable_of_iff _ (MapCall.isMegapages_iff c).symm

/-! ## The last call -/

/-- The range of a call contains an address. -/
def MapCall.Contains (c : MapCall) (a : ℕ) : Prop := c.virtualAddr.toNat ≤ a ∧ a < c.stop

instance (c : MapCall) (a : ℕ) : Decidable (c.Contains a) := inferInstanceAs (Decidable (_ ∧ _))

/-- The last call whose range contains an address. -/
def lastCall (calls : List MapCall) (a : ℕ) : Option MapCall :=
  (calls.filter fun c => c.Contains a).getLast?

/-- The address that the last call gives, when there is one. -/
def lastResult (calls : List MapCall) (va : Usize) : Except PageLookupError Usize :=
  match lastCall calls va.toNat with
  | some c => .ok (c.physicalAddr + (va - c.virtualAddr))
  | none => .error .invalid

/-- The calls, one after the other. -/
def mapAll (paging : Sv32) (heap : Allocator 4) (calls : List MapCall) (mem : Memory 4) :
    Except Fault (Memory 4) :=
  calls.foldlM (fun mem c => paging.map heap c mem) mem

/-- The entry of the root table for a megapage. -/
def rootEntry (calls : List MapCall) (v : ℕ) : Entry :=
  match lastCall calls (v * 2 ^ 22) with
  | some c => c.newEntry (BitVec.ofNat 64 (v * 2 ^ 22))
  | none => Entry.zeroed

/-- The root table after a list of calls. -/
def RootHolds (paging : Sv32) (mem : Memory 4) (calls : List MapCall) : Prop :=
  ∀ v < 1024, mem.slot paging.table v = some (rootEntry calls v)

theorem lastCall_append (calls : List MapCall) (c : MapCall) (a : ℕ) :
    lastCall (calls ++ [c]) a = if c.Contains a then some c else lastCall calls a := by
  rw [lastCall, List.filter_append, List.getLast?_append]
  by_cases h : c.Contains a
  · simp [h]
  · simp [h, lastCall]

theorem mem_of_lastCall {calls : List MapCall} {a : ℕ} {c : MapCall} (h : lastCall calls a = some c) :
    c ∈ calls ∧ c.Contains a := by
  have hmem := List.mem_filter.mp (List.mem_of_getLast? h)
  exact ⟨hmem.1, of_decide_eq_true hmem.2⟩

theorem rootEntry_append (calls : List MapCall) (c : MapCall) (v : ℕ) :
    rootEntry (calls ++ [c]) v = if c.Contains (v * 2 ^ 22) then
      c.newEntry (BitVec.ofNat 64 (v * 2 ^ 22)) else rootEntry calls v := by
  rw [rootEntry, lastCall_append]
  by_cases h : c.Contains (v * 2 ^ 22)
  · rw [if_pos h, if_pos h]
  · rw [if_neg h, if_neg h, rootEntry]

/-! ## The arithmetic of one call -/

namespace MapCall.Megapages

variable {c : MapCall} (h : c.Megapages)

include h

theorem aligned : c.Aligned :=
  ⟨(by norm_num : 4096 ∣ 2 ^ 22).trans h.physical, (by norm_num : 4096 ∣ 2 ^ 22).trans h.virtual,
    (by norm_num : 4096 ∣ 2 ^ 22).trans h.length⟩

theorem leafFlags : leafBits c.flags = true := by
  rcases h.readExecute with hbit | hbit <;> simp [leafBits, hbit]

end MapCall.Megapages

theorem isPteSize_four : IsPteSize 4 := Or.inl rfl

theorem getVpnNumber_four_zero (a : Usize) : getVpnNumber a 0 4 = a.toNat / 2 ^ 12 % 2 ^ 10 :=
  getVpnNumber_eq_field isPteSize_four (by decide) a

theorem getVpnNumber_four_one (a : Usize) : getVpnNumber a 1 4 = a.toNat / 2 ^ 22 % 2 ^ 10 :=
  getVpnNumber_eq_field isPteSize_four (by decide) a

theorem and_alignMask_four (x : Usize) :
    ((alignMask 1 4 &&& x) != 0) = decide (x.toNat % 2 ^ 22 ≠ 0) := by
  have hval : (alignMask 1 4 &&& x).toNat = x.toNat % 2 ^ 22 := by
    rw [show alignMask 1 4 = BitVec.ofNat 64 (2 ^ 22 - 1) by decide, BitVec.and_comm,
      toNat_and_lowMask _ (by norm_num)]
  rw [← hval, Bool.eq_iff_iff, bne_iff_ne, decide_eq_true_iff, ne_eq, ne_eq, ← BitVec.toNat_inj]
  rfl

namespace MapCall.Megapages

variable {c : MapCall} (h : c.Megapages)

include h

theorem startMisaligned_eq_false : c.startMisaligned 1 4 = false := by
  rw [MapCall.startMisaligned, and_alignMask_four, and_alignMask_four, offset_shiftLeft h.aligned,
    BitVec.add_comm c.virtualAddr, BitVec.sub_add_cancel, Nat.mod_eq_zero_of_dvd h.virtual,
    Nat.mod_eq_zero_of_dvd h.physical]
  rfl

theorem endMisaligned_eq_false : c.endMisaligned 1 4 = false := by
  have hsum : c.virtualAddr + c.length + (c.physicalAddr - c.virtualAddr) =
      c.physicalAddr + c.length := by
    bv_omega
  have hvirtual : (c.virtualAddr + c.length).toNat % 2 ^ 22 = 0 := by
    rw [BitVec.toNat_add, Nat.mod_mod_of_dvd _ (by norm_num : 2 ^ 22 ∣ 2 ^ 64)]
    exact Nat.mod_eq_zero_of_dvd (Nat.dvd_add h.virtual h.length)
  have hphysical : (c.physicalAddr + c.length).toNat % 2 ^ 22 = 0 := by
    rw [BitVec.toNat_add, Nat.mod_mod_of_dvd _ (by norm_num : 2 ^ 22 ∣ 2 ^ 64)]
    exact Nat.mod_eq_zero_of_dvd (Nat.dvd_add h.physical h.length)
  rw [MapCall.endMisaligned, and_alignMask_four, and_alignMask_four, offset_shiftLeft h.aligned, hsum,
    hvirtual, hphysical]
  rfl

/-- No entry is split. -/
theorem splitsAt_eq_false (vpnEnd v : ℕ) : c.splitsAt 1 4 vpnEnd v = false := by
  rw [MapCall.splitsAt, h.startMisaligned_eq_false, h.endMisaligned_eq_false, Bool.and_false,
    Bool.and_false, Bool.or_false]

theorem vpnStart_eq : c.vpnStart 1 4 = c.virtualAddr.toNat / 2 ^ 22 := by
  have hstop := h.stop_le
  have hpos := h.pos
  rw [MapCall.vpnStart, getVpnNumber_four_one, Nat.mod_eq_of_lt]
  unfold MapCall.stop at hstop
  omega

theorem vpnEnd_eq : c.vpnEnd 1 4 = .ok ((c.stop - 1) / 2 ^ 22) := by
  have hstop := h.stop_le
  have hpos := h.pos
  unfold MapCall.stop at hstop ⊢
  have hadd : (c.virtualAddr + c.length).toNat = c.virtualAddr.toNat + c.length.toNat :=
    Usize.toNat_add_of_lt (by omega)
  have hone : (1 : Usize).toNat ≤ (c.virtualAddr + c.length).toNat := by
    rw [hadd, show (1 : Usize).toNat = 1 from rfl]
    omega
  have hlast : getVpnNumber (c.virtualAddr + c.length - 1) 1 4 =
      (c.virtualAddr.toNat + c.length.toNat - 1) / 2 ^ 22 := by
    rw [getVpnNumber_four_one, Usize.toNat_sub_of_le hone, hadd, show (1 : Usize).toNat = 1 from rfl,
      Nat.mod_eq_of_lt (by omega)]
  rw [MapCall.vpnEnd, MapCall.virtEnd, Usize.checkedAdd_eq_ok (by omega), ok_bind,
    if_neg (by norm_num), Usize.checkedSub_eq_ok hone, ok_bind, hlast, h.vpnStart_eq, if_neg]
  · rfl
  · have := Nat.div_le_div_right (c := 2 ^ 22)
      (show c.virtualAddr.toNat ≤ c.virtualAddr.toNat + c.length.toNat - 1 by omega)
    omega

/-- The loop comes to the megapages of the range. -/
theorem visits_iff (v : ℕ) :
    c.virtualAddr.toNat / 2 ^ 22 ≤ v ∧ v < (c.stop - 1) / 2 ^ 22 + 1 ↔ c.Contains (v * 2 ^ 22) := by
  obtain ⟨w, hw⟩ := h.virtual
  obtain ⟨n, hn⟩ := h.length
  have hpos := h.pos
  unfold MapCall.Contains MapCall.stop
  omega

end MapCall.Megapages

/-! ## One call -/

section Step

variable {paging : Sv32} {heap : Allocator 4} {mem mem' : Memory 4} {calls : List MapCall}
  {c : MapCall}

theorem toNat_megapage {v : ℕ} (hv : v < 1024) :
    (BitVec.ofNat 64 (v * 2 ^ 22) : Usize).toNat = v * 2 ^ 22 := by
  rw [BitVec.toNat_ofNat, Nat.mod_eq_of_lt (by omega)]

theorem page_dvd_megapage {v : ℕ} (hv : v < 1024) :
    4096 ∣ (BitVec.ofNat 64 (v * 2 ^ 22) : Usize).toNat := by
  rw [toNat_megapage hv]
  omega

theorem currentAddress_four {v : ℕ} (hv : v < 1024) :
    currentAddress 4 1 0 v = .ok (BitVec.ofNat 64 (v * 2 ^ 22)) := by
  have hsize : getVpnSize 1 4 = BitVec.ofNat 64 (2 ^ 22) := by decide
  have hval : (BitVec.ofNat 64 v : Usize).toNat = v := by
    rw [BitVec.toNat_ofNat, Nat.mod_eq_of_lt (by omega)]
  have hmul : BitVec.ofNat 64 v * getVpnSize 1 4 = BitVec.ofNat 64 (v * 2 ^ 22) := by
    rw [hsize, ← BitVec.ofNat_mul]
  rw [currentAddress, Usize.checkedMul_eq_ok, ok_bind, hmul, Usize.checkedAdd_eq_ok]
  · exact congrArg Except.ok (BitVec.zero_add _)
  · rw [toNat_megapage hv, show (0 : Usize).toNat = 0 from rfl]
    omega
  · rw [hsize, hval, show (BitVec.ofNat 64 (2 ^ 22) : Usize).toNat = 2 ^ 22 from rfl]
    omega

theorem rootEntry_isLeaf (hcalls : ∀ c ∈ calls, c.Megapages) {v : ℕ} (hv : v < 1024) :
    (rootEntry calls v).isLeaf = true := by
  rw [rootEntry]
  cases hlast : lastCall calls (v * 2 ^ 22) with
  | none =>
    show Entry.zeroed.isLeaf = true
    decide
  | some c =>
    have hc := hcalls c (mem_of_lastCall hlast).1
    refine Entry.isLeaf_of_leafBits ?_
    rw [MapCall.leafBits_newEntry hc.aligned (page_dvd_megapage hv), hc.leafFlags]

/-- **One call**: it writes the megapages of its range, and fails when one of them is entry 512 or
above. -/
theorem mapInternal_megapages_outcome (hroot : RootHolds paging mem calls)
    (hcalls : ∀ c ∈ calls, c.Megapages) (hc : c.Megapages) :
    Outcome (fun f => f = .assertion ∧ 2 ^ 31 < c.stop)
      (fun mem' => c.stop ≤ 2 ^ 31 ∧ RootHolds paging mem' (calls ++ [c]))
      (mapInternal paging.physToVirt paging.virtToPhys heap c 1 paging.table 0 mem) := by
  have hfirst : c.virtualAddr.toNat / 2 ^ 22 ≤ (c.stop - 1) / 2 ^ 22 := by
    have hpos := hc.pos
    refine Nat.div_le_div_right ?_
    unfold MapCall.stop
    omega
  have hstop := hc.stop_le
  unfold mapInternal
  rw [hc.vpnEnd_eq, ok_bind, hc.vpnStart_eq]
  set first := c.virtualAddr.toNat / 2 ^ 22 with hfirst_eq
  set last := (c.stop - 1) / 2 ^ 22 with hlast_eq
  -- the entries before the index are written, and no index before it was 512 or above
  let I : ℕ → Memory 4 → Prop := fun k s => (k ≤ 512 ∨ k = first) ∧ ∀ v < 1024,
    s.slot paging.table v = some (if first ≤ v ∧ v < k then
      c.newEntry (BitVec.ofNat 64 (v * 2 ^ 22)) else rootEntry calls v)
  have hstart : I first mem := by
    refine ⟨Or.inr rfl, fun v hv => ?_⟩
    rw [if_neg (by omega), hroot v hv]
  refine (Outcome.foldlM_range' I (fun k s hk hk' hI => ?_) hstart).mono (fun _ h => h)
    fun mem' hI => ?_
  · obtain ⟨hbound, hslots⟩ := hI
    by_cases hk512 : k < 512
    · have hslot := hslots k (by omega)
      rw [if_neg (by omega)] at hslot
      refine Outcome.of_eq_ok (a := s.setSlot paging.table k
        (c.newEntry (BitVec.ofNat 64 (k * 2 ^ 22)))) ?_ ⟨Or.inl (by omega), fun v hv => ?_⟩
      · rw [assertThat_eq_ok hk512, ok_bind, Memory.readEntry_eq_ok hslot, ok_bind,
          currentAddress_four (by omega), ok_bind]
        dsimp only
        rw [show c.splitsAt (0 + 1) 4 last k = false from hc.splitsAt_eq_false last k, Bool.and_false,
          if_neg (by simp), pure_bind, Entry.tryAsTable_of_leaf (rootEntry_isLeaf hcalls (by omega)),
          ok_bind]
        exact Memory.writeEntry_eq_ok hslot _
      · rw [Memory.slot_setSlot hslot, hslots v hv]
        by_cases hvk : v = k
        · subst hvk
          rw [if_pos ⟨rfl, rfl⟩, if_pos (by omega)]
        · rw [if_neg (by simp [hvk])]
          exact congrArg some (if_congr (by omega) rfl rfl)
    · rw [assertThat_eq_error hk512]
      refine ⟨rfl, ?_⟩
      have hle : 512 ≤ last := by omega
      rw [hlast_eq, Nat.le_div_iff_mul_le (by norm_num)] at hle
      omega
  · obtain ⟨hbound, hslots⟩ := hI
    have hend : first + (last + 1 - first) = last + 1 := by omega
    rw [hend] at hbound hslots
    have hle : last < 512 := by omega
    refine ⟨?_, fun v hv => ?_⟩
    · -- the range ends with a whole megapage
      obtain ⟨w, hw⟩ := hc.virtual
      obtain ⟨n, hn⟩ := hc.length
      unfold MapCall.stop at hlast_eq ⊢
      omega
    · rw [hslots v hv, rootEntry_append]
      exact congrArg some (if_congr (hc.visits_iff v) rfl rfl)

/-- `map` is `map_internal` from the root table. -/
theorem map_megapages_eq (hc : c.Megapages) (mem : Memory 4) : paging.map heap c mem =
    mapInternal paging.physToVirt paging.virtToPhys heap c 1 paging.table 0 mem := by
  have hstop := hc.stop_le
  have hpos := hc.pos
  have hva : c.virtualAddr &&& BitVec.ofNat 64 (2 ^ getVpnOffset 2 4 - 1) = c.virtualAddr := by
    refine BitVec.eq_of_toNat_eq ?_
    rw [toNat_and_lowMask _ (by decide), show getVpnOffset 2 4 = 32 from rfl, Nat.mod_eq_of_lt]
    unfold MapCall.stop at hstop
    omega
  rw [GenericPaging.map, GenericPaging.decanonicalizeAddress_of_isScheme (by unfold IsScheme; decide),
    ok_bind, hva, assertThat_eq_ok ((and_fff_eq_zero_iff _).mpr hc.aligned.virtual),
    assertThat_eq_ok ((and_fff_eq_zero_iff _).mpr hc.aligned.physical),
    assertThat_eq_ok ((and_fff_eq_zero_iff _).mpr hc.aligned.length)]
  rfl

/-- **One call**: it writes the megapages of its range below 2 GiB, and fails when the range ends
above. -/
theorem map_megapages_outcome (hroot : RootHolds paging mem calls)
    (hcalls : ∀ c ∈ calls, c.Megapages) (hc : c.Megapages) :
    Outcome (fun f => f = .assertion ∧ 2 ^ 31 < c.stop)
      (fun mem' => c.stop ≤ 2 ^ 31 ∧ RootHolds paging mem' (calls ++ [c]))
      (paging.map heap c mem) := by
  rw [map_megapages_eq hc]
  exact mapInternal_megapages_outcome hroot hcalls hc

/-- A call whose range ends above 2 GiB fails. -/
theorem map_eq_assertion (hroot : RootHolds paging mem calls) (hcalls : ∀ c ∈ calls, c.Megapages)
    (hc : c.Megapages) (hstop : 2 ^ 31 < c.stop) : paging.map heap c mem = .error .assertion := by
  have hmap : Outcome _ _ (paging.map heap c mem) := map_megapages_outcome hroot hcalls hc
  cases hresult : paging.map heap c mem with
  | ok mem' =>
    have hle := (hmap.post_of_eq_ok hresult).1
    omega
  | error f =>
    rw [hresult] at hmap
    rw [hmap.1]

/-- The frame of a megapage in the range of a call, and the entry that the call writes for it. -/
theorem MapCall.Megapages.exists_frame (hc : c.Megapages) {v : ℕ} (hv : v < 1024)
    (hcontains : c.Contains (v * 2 ^ 22)) : ∃ frame < 1024,
      c.physicalAddr.toNat + (v * 2 ^ 22 - c.virtualAddr.toNat) = frame * 2 ^ 22 ∧
        (c.newEntry (BitVec.ofNat 64 (v * 2 ^ 22))).value.toNat =
          frame * 2 ^ 20 + c.flags.toNat := by
  have hcur := page_dvd_megapage hv
  have hflags := hc.flags_lt
  have hphysical := hc.physical_le
  obtain ⟨hlo, hhi⟩ := hcontains
  obtain ⟨p, hp⟩ := hc.physical
  obtain ⟨w, hw⟩ := hc.virtual
  have hdelta := c.virtual_add_delta
  have hppn := MapCall.ppn_newEntry hc.aligned (by omega) hcur
  have hlow := MapCall.newEntry_mod hc.aligned hcur
  rw [toNat_megapage hv, Entry.ppn] at hppn
  unfold MapCall.stop at hhi
  exact ⟨p + (v - w), by omega, by omega, by omega⟩

/-- Whether the range of a call contains an address depends on its megapage. -/
theorem MapCall.Megapages.contains_iff (hc : c.Megapages) (a : ℕ) :
    c.Contains a ↔ c.Contains (a / 2 ^ 22 * 2 ^ 22) := by
  obtain ⟨w, hw⟩ := hc.virtual
  obtain ⟨n, hn⟩ := hc.length
  unfold MapCall.Contains MapCall.stop
  omega

theorem lastCall_megapage (hcalls : ∀ c ∈ calls, c.Megapages) (a : ℕ) :
    lastCall calls a = lastCall calls (a / 2 ^ 22 * 2 ^ 22) := by
  rw [lastCall, lastCall]
  congr 1
  refine List.filter_congr fun c hc => ?_
  rw [decide_eq_decide]
  exact (hcalls c hc).contains_iff a

/-- The address that a lookup assembles from the entry of a megapage. -/
theorem MapCall.Megapages.translatedAddress_eq (hc : c.Megapages) {va : Usize}
    (hva : va.toNat < 2 ^ 32) (hcontains : c.Contains (va.toNat / 2 ^ 22 * 2 ^ 22)) :
    translatedAddress 2 4 va (c.newEntry (BitVec.ofNat 64 (va.toNat / 2 ^ 22 * 2 ^ 22))) 1 =
      c.physicalAddr + (va - c.virtualAddr) := by
  obtain ⟨frame, hframe, hphysical, hvalue⟩ := hc.exists_frame (by omega) hcontains
  have hflags := hc.flags_lt
  have hlo := hcontains.1
  have hdistance : (va - c.virtualAddr).toNat = va.toNat - c.virtualAddr.toNat :=
    Usize.toNat_sub_of_le (by omega)
  have hsum : (c.physicalAddr + (va - c.virtualAddr)).toNat =
      c.physicalAddr.toNat + (va.toNat - c.virtualAddr.toNat) := by
    rw [Usize.toNat_add_of_lt (by omega), hdistance]
  refine BitVec.eq_of_toNat_eq ?_
  rw [hsum, toNat_translatedAddress isPteSize_four (by decide) (by norm_num),
    toNat_shiftLeft_two_mod (by decide), hvalue, show vpnBits 4 = 10 from rfl]
  omega

/-- The entry of a megapage is aligned. -/
theorem MapCall.Megapages.getVpnNumber_address (hc : c.Megapages) {v : ℕ} (hv : v < 1024)
    (hcontains : c.Contains (v * 2 ^ 22)) :
    getVpnNumber (c.newEntry (BitVec.ofNat 64 (v * 2 ^ 22))).address 0 4 = 0 := by
  obtain ⟨frame, hframe, -, hvalue⟩ := hc.exists_frame hv hcontains
  have hflags := hc.flags_lt
  rw [getVpnNumber_four_zero, Entry.toNat_address, hvalue]
  omega

/-- **The lookups after a list of calls.** -/
theorem query_of_rootHolds (hroot : RootHolds paging mem calls)
    (hcalls : ∀ c ∈ calls, c.Megapages) {va : Usize} (hva : va.toNat < 2 ^ 32) :
    paging.query mem va = .ok (lastResult calls va) := by
  have hvlt : va.toNat / 2 ^ 22 < 1024 := by omega
  have hslot : mem.slot paging.table (getVpnNumber va 1 4) =
      some (rootEntry calls (va.toNat / 2 ^ 22)) := by
    rw [getVpnNumber_four_one, Nat.mod_eq_of_lt (by omega)]
    exact hroot _ hvlt
  have hleaf := rootEntry_isLeaf hcalls hvlt
  rw [lastResult, lastCall_megapage hcalls]
  cases hlast : lastCall calls (va.toNat / 2 ^ 22 * 2 ^ 22) with
  | none =>
    rw [rootEntry, hlast] at hslot
    have hvalid : Entry.zeroed.value.getLsbD 0 = false := by decide
    exact queryFrom_invalid hslot hvalid
  | some c =>
    obtain ⟨hmem, hcontains⟩ := mem_of_lastCall hlast
    have hc := hcalls c hmem
    rw [rootEntry, hlast] at hslot hleaf
    have hvalid : (c.newEntry (BitVec.ofNat 64 (va.toNat / 2 ^ 22 * 2 ^ 22))).value.getLsbD 0 =
        true := by
      rw [MapCall.getLsbD_newEntry hc.aligned (page_dvd_megapage hvlt) (by norm_num), hc.valid]
    have halign : ∀ j ∈ List.range 1, getVpnNumber
        (c.newEntry (BitVec.ofNat 64 (va.toNat / 2 ^ 22 * 2 ^ 22))).address j 4 = 0 := by
      intro j hj
      obtain rfl : j = 0 := by simpa using hj
      exact hc.getVpnNumber_address hvlt hcontains
    have hquery : paging.query mem va = _ :=
      queryFrom_valid hslot hvalid fun h => absurd h (by norm_num)
    rw [Entry.tryAsTable_of_leaf hleaf, ok_bind] at hquery
    dsimp only at hquery
    rw [assertThat_eq_ok halign, hc.translatedAddress_eq hva hcontains] at hquery
    exact hquery

/-- **A list of calls**: it returns when no range ends above 2 GiB, and the root table then holds
what the last calls have written. -/
theorem mapAll_megapages (hroot : RootHolds paging mem []) (hcalls : ∀ c ∈ calls, c.Megapages) :
    Outcome (fun _ => ∃ c ∈ calls, 2 ^ 31 < c.stop)
      (fun mem' => (∀ c ∈ calls, c.stop ≤ 2 ^ 31) ∧ RootHolds paging mem' calls)
      (mapAll paging heap calls mem) := by
  -- On the calls, the last one at the end.
  induction calls using List.reverseRecOn with
  | nil => exact ⟨nofun, hroot⟩
  | append_singleton calls c ih =>
    have hcalls' : ∀ c ∈ calls, c.Megapages := fun c' hc' =>
      hcalls c' (List.mem_append_left _ hc')
    have hc := hcalls c (List.mem_append_right _ List.mem_cons_self)
    have hbefore : Outcome (fun _ => ∃ c' ∈ calls ++ [c], 2 ^ 31 < c'.stop)
        (fun mem' => (∀ c ∈ calls, c.stop ≤ 2 ^ 31) ∧ RootHolds paging mem' calls)
        (mapAll paging heap calls mem) :=
      (ih hcalls').mono (fun _ ⟨c', hc', hlt⟩ => ⟨c', List.mem_append_left _ hc', hlt⟩) fun _ h => h
    rw [mapAll, List.foldlM_append]
    refine hbefore.bind fun mem₁ ⟨hstops, hroot₁⟩ => ?_
    rw [List.foldlM_cons]
    refine ((map_megapages_outcome hroot₁ hcalls' hc).mono (fun _ hf => ?_) fun _ h => h).bind
      fun mem₂ ⟨hstop, hroot₂⟩ => ?_
    · exact ⟨c, List.mem_append_right _ List.mem_cons_self, hf.2⟩
    · refine ⟨fun c' hc' => ?_, hroot₂⟩
      rcases List.mem_append.mp hc' with hold | hnew
      · exact hstops c' hold
      · rwa [List.mem_singleton.mp hnew]

end Step

/-! ## The lists of calls that map what they say -/

/-- The memory has a zeroed root table. -/
def ZeroRoot32 (paging : Sv32) (mem : Memory 4) : Prop :=
  mem.tables paging.table = some Table.zeroed

theorem ZeroRoot32.rootHolds {paging : Sv32} {mem : Memory 4} (h : ZeroRoot32 paging mem) :
    RootHolds paging mem [] := by
  intro v hv
  have hlt : v < 4096 / 4 := hv
  simp [Memory.slot, show mem.tables paging.table = _ from h, Table.zeroed, hlt, rootEntry, lastCall]

/-- **The lists of calls over whole megapages that map what they say**: no range ends above 2 GiB.
With one that does, a call fails. -/
theorem megapages_iff {paging : Sv32} {heap : Allocator 4} {mem : Memory 4}
    (hzero : ZeroRoot32 paging mem) {calls : List MapCall} (hcalls : ∀ c ∈ calls, c.Megapages) :
    (∃ mem', mapAll paging heap calls mem = .ok mem' ∧ ∀ va : Usize, va.toNat < 2 ^ 32 →
      paging.query mem' va = .ok (lastResult calls va)) ↔ ∀ c ∈ calls, c.stop ≤ 2 ^ 31 := by
  have hrun : Outcome _ _ (mapAll paging heap calls mem) := mapAll_megapages hzero.rootHolds hcalls
  constructor
  · rintro ⟨mem', hmap, -⟩
    exact (hrun.post_of_eq_ok hmap).1
  · intro hstops
    obtain ⟨mem', hmap, -, hroot⟩ := hrun.exists_ok fun f ⟨c, hc, hlt⟩ =>
      absurd (hstops c hc) (by omega)
    exact ⟨mem', hmap, fun va hva => query_of_rootHolds hroot hcalls hva⟩

/-- Sv32 with the root table at `0x1000`. -/
def identitySv32 : Sv32 := ⟨0x1000, id, id⟩

/-- No pages: calls over whole megapages need none. -/
def noPages : Allocator 4 := ⟨0, fun _ => 0, fun _ => Table.zeroed⟩

/-- The lower 2 GiB, mapped one to one. -/
theorem megapages_iff_lower :
    let calls := [⟨0, 0, 0x80000000, 7⟩]
    (∃ mem', mapAll identitySv32 noPages calls (Memory.uniform 0x1000 Entry.zeroed) = .ok mem' ∧
      ∀ va : Usize, va.toNat < 2 ^ 32 →
        identitySv32.query mem' va = .ok (lastResult calls va)) ↔ ∀ c ∈ calls, c.stop ≤ 2 ^ 31 := by
  intro calls
  have hcall : (⟨0, 0, 0x80000000, 7⟩ : MapCall).Megapages := by
    decide
  have hzero : ZeroRoot32 identitySv32 (Memory.uniform 0x1000 Entry.zeroed) := rfl
  exact megapages_iff hzero (List.forall_mem_singleton.mpr hcall)

/-- One megapage at 2 GiB. -/
theorem not_megapages_upper :
    identitySv32.map noPages ⟨0, 0x80000000, 0x400000, 7⟩ (Memory.uniform 0x1000 Entry.zeroed) =
        .error .assertion ∧
      ¬ ∀ (paging : Sv32) (heap : Allocator 4) (mem : Memory 4), ZeroRoot32 paging mem →
        ∀ calls : List MapCall, (∀ c ∈ calls, c.Megapages) →
          ∃ mem', mapAll paging heap calls mem = .ok mem' ∧ ∀ va : Usize, va.toNat < 2 ^ 32 →
            paging.query mem' va = .ok (lastResult calls va) := by
  have hcall : (⟨0, 0x80000000, 0x400000, 7⟩ : MapCall).Megapages := by
    decide
  have hzero : ZeroRoot32 identitySv32 (Memory.uniform 0x1000 Entry.zeroed) := rfl
  refine ⟨map_eq_assertion hzero.rootHolds nofun hcall (by decide), fun hall => ?_⟩
  obtain ⟨mem', hmap, -⟩ := hall identitySv32 noPages _ hzero _ (List.forall_mem_singleton.mpr hcall)
  have hstop := ((mapAll_megapages hzero.rootHolds
    (List.forall_mem_singleton.mpr hcall)).post_of_eq_ok hmap).1 _ List.mem_cons_self
  revert hstop
  decide

end AsyncKernel
