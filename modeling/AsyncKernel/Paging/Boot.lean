import AsyncKernel.Paging.KernelSpace
import AsyncKernel.Paging.StaleRoot
import AsyncKernel.Paging.Superpages

/-!
# From the bootloader to a hart

`pre_main` makes the first page table: physical memory in both halves, and over the upper one the
kernel image. Under this table `main` looks the image up to learn its physical address, and every
hart makes a table of its own, which maps one megabyte from that address on, and switches to it.

The two tables give an address of the upper half the same translation exactly when both map it to
the image, or neither does.

## Main definitions

* `MapCall.Image`: a call that maps an image of less than 2 MiB at `0x7f80000000`
* `preMain`: the page table of the bootloader
* `seen`: the memory that a program sees under a page table
* `Relocates`: two memories that hold the same page table at different addresses

## Main results

* `leafResult_image`: which addresses an image call rewrites
* `preMain_query`: the address space of the bootloader
* `main_query`: `main` finds the physical address of the image
* `query_kept_iff`: when a hart keeps the translation of an address
-/

namespace AsyncKernel

open Bits

/-! ## Calls that map an image -/

/-- A call that maps an image of less than 2 MiB at `0x7f80000000`. -/
structure MapCall.Image (c : MapCall) : Prop where
  virtual : (c.decanonical 3).virtualAddr.toNat = 0x7f80000000
  physical : 4096 ∣ c.physicalAddr.toNat
  length : 4096 ∣ c.length.toNat
  pos : 0 < c.length.toNat
  lt : c.length.toNat < 2 ^ 21
  flags : c.flags = 0xf

/-- The pages of an image, and one more: at level 0 the last index is that of the byte past the
range. -/
def InImage (length va : ℕ) : Prop := 0x7f80000000 ≤ va ∧ va < 0x7f80000000 + length + 4096

instance (length va : ℕ) : Decidable (InImage length va) := inferInstanceAs (Decidable (_ ∧ _))

section Image

variable {c : MapCall}

namespace MapCall.Image

variable (h : c.Image)

include h

theorem valid : c.Valid := by
  have hvirtual := h.virtual
  rw [toNat_decanonical (by norm_num), show pageSize 3 = 2 ^ 39 from rfl] at hvirtual
  have hlt := h.lt
  refine ⟨h.physical, by omega, h.length, ?_, ?_, ?_, ?_⟩
  · rw [h.virtual]
    omega
  · rw [h.flags]
    decide
  · rw [h.flags]
    decide
  · rw [h.flags]
    decide

theorem stop_eq : (c.decanonical 3).stop = 0x7f80000000 + c.length.toNat := by
  rw [MapCall.stop, h.virtual]
  rfl

/-- The loops of the call. -/
theorem bounds : (c.decanonical 3).first 2 = 510 ∧ (c.decanonical 3).last 2 = 510 ∧
    (c.decanonical 3).first 1 = 0 ∧ (c.decanonical 3).last 1 = 0 ∧
    (c.decanonical 3).first 0 = 0 ∧ (c.decanonical 3).last 0 = c.length.toNat / 4096 := by
  have hpos := h.pos
  have hlt := h.lt
  have hvirtual := h.virtual
  have hstop := h.stop_eq
  have hvpn₂ : ∀ a, vpn 2 a = a / 2 ^ 30 % 512 := fun a => rfl
  have hvpn₁ : ∀ a, vpn 1 a = a / 2 ^ 21 % 512 := fun a => rfl
  have hvpn₀ : ∀ a, vpn 0 a = a / 2 ^ 12 % 512 := fun a => rfl
  have hlast₀ : (c.decanonical 3).last 0 = vpn 0 (c.decanonical 3).stop := by
    unfold MapCall.last MapCall.first
    rw [if_pos rfl]
    refine if_neg (not_lt.mpr ?_)
    rw [hvpn₀, hvpn₀, hvirtual]
    omega
  refine ⟨?_, ?_, ?_, ?_, ?_, ?_⟩
  · rw [MapCall.first, hvpn₂, hvirtual]
    norm_num
  · rw [MapCall.last_eq (by norm_num) (by rw [hvpn₂, hvpn₂]; omega), hvpn₂]
    omega
  · rw [MapCall.first, hvpn₁, hvirtual]
    norm_num
  · rw [MapCall.last_eq (by norm_num) (by rw [hvpn₁, hvpn₁]; omega), hvpn₁]
    omega
  · rw [MapCall.first, hvpn₀, hvirtual]
    norm_num
  · rw [hlast₀, hvpn₀]
    omega

/-- The image ends inside a gigapage and inside a megapage, which are split. -/
theorem splits_eq_true {l v : ℕ} (hl : 1 ≤ l) (hl' : l ≤ 2) (hv : (c.decanonical 3).Visits l v) :
    (c.decanonical 3).splits l v = true := by
  obtain ⟨hfirst₂, hlast₂, hfirst₁, hlast₁, -, -⟩ := h.bounds
  have hpos := h.pos
  have hlt := h.lt
  rw [MapCall.splits, MapCall.splitsAt_iff h.valid.aligned (by omega), h.stop_eq]
  obtain ⟨hlo, hhi⟩ := hv
  refine Or.inr ⟨?_, Or.inl ?_⟩
  · interval_cases l <;> omega
  · interval_cases l
    · rw [show pageSize 1 = 2 ^ 21 from rfl]
      omega
    · rw [show pageSize 2 = 2 ^ 30 from rfl]
      omega

/-- **Which addresses the call rewrites**, when they lie in superpages. -/
theorem visit {va i : ℕ} (hva : va < 2 ^ 39) (hi : 1 ≤ i) :
    if InImage c.length.toNat va then (c.decanonical 3).visit va 2 i = .rewritten 0
    else ∃ j, (c.decanonical 3).visit va 2 i = .missed j := by
  obtain ⟨hfirst₂, hlast₂, hfirst₁, hlast₁, hfirst₀, hlast₀⟩ := h.bounds
  have hlt := h.lt
  have hlength := h.length
  have hvisits : InImage c.length.toNat va ↔ (c.decanonical 3).Visits 2 (vpn 2 va) ∧
      (c.decanonical 3).Visits 1 (vpn 1 va) ∧ (c.decanonical 3).Visits 0 (vpn 0 va) := by
    rw [InImage, MapCall.Visits, MapCall.Visits, MapCall.Visits, hfirst₂, hlast₂, hfirst₁, hlast₁,
      hfirst₀, hlast₀, vpn, vpn, vpn, show pageSize 2 = 2 ^ 30 from rfl,
      show pageSize 1 = 2 ^ 21 from rfl, show pageSize 0 = 2 ^ 12 from rfl]
    omega
  -- A superpage that the loops come to is split.
  have hsplit : ∀ l, l ≤ 1 → ∀ i, (c.decanonical 3).Visits (l + 1) (vpn (l + 1) va) →
      ¬ (i = l + 1 ∧ (c.decanonical 3).splits (l + 1) (vpn (l + 1) va) = false) := by
    rintro l hl i hv ⟨-, hnone⟩
    rw [h.splits_eq_true (by omega) (by omega) hv] at hnone
    cases hnone
  have hone : (c.decanonical 3).visit va 1 1 =
      if (c.decanonical 3).Visits 1 (vpn 1 va) then
        if (c.decanonical 3).Visits 0 (vpn 0 va) then .rewritten 0 else .missed 0
      else .missed 1 := by
    unfold MapCall.visit
    refine ite_congr rfl (fun hv => ?_) fun _ => rfl
    rw [if_neg (hsplit 0 (by norm_num) 1 hv)]
    unfold MapCall.visit
    rfl
  have htwo : (c.decanonical 3).visit va 2 i =
      if (c.decanonical 3).Visits 2 (vpn 2 va) then (c.decanonical 3).visit va 1 1
      else .missed 2 := by
    unfold MapCall.visit
    refine ite_congr rfl (fun hv => ?_) fun _ => rfl
    rw [if_neg (hsplit 1 le_rfl i hv), Nat.min_eq_right hi]
    rfl
  rw [htwo, hone]
  by_cases hin : InImage c.length.toNat va
  · obtain ⟨h2, h1, h0⟩ := hvisits.mp hin
    rw [if_pos hin, if_pos h2, if_pos h1, if_pos h0]
  · rw [if_neg hin]
    split
    · split
      · split
        · rename_i h2 h1 h0
          exact absurd (hvisits.mpr ⟨h2, h1, h0⟩) hin
        · exact ⟨0, rfl⟩
      · exact ⟨1, rfl⟩
    · exact ⟨2, rfl⟩

end MapCall.Image

/-- **An image call over superpages**: the pages of the image are moved to it, and the other
addresses keep their translation. -/
theorem leafResult_image (hc : c.Image) (hphysical : c.physicalAddr.toNat + 2 ^ 21 ≤ 2 ^ 39)
    {va : Usize} {i : ℕ} {e : Entry} (hi : 1 ≤ i) (hi' : i ≤ 2)
    (hbound : e.value.toNat + pageSize i / 4 ≤ 2 ^ 55)
    (haligned : e.value.getLsbD 0 = true → 2 ^ (9 * i) ∣ e.ppn) :
    leafResult 3 va ((c.decanonical 3).effect (va.toNat % pageSize 3) 2 i e) =
      if InImage c.length.toNat (va.toNat % pageSize 3) then
        .ok (.ok (BitVec.ofNat 64
          (c.physicalAddr.toNat + (va.toNat % pageSize 3 - 0x7f80000000))))
      else leafResult 3 va (i, e) := by
  have hlt : va.toNat % pageSize 3 < 2 ^ 39 := Nat.mod_lt _ (pageSize_pos 3)
  have hvisit := hc.visit hlt hi
  have hvalid := hc.valid
  rw [MapCall.effect]
  by_cases hin : InImage c.length.toNat (va.toNat % pageSize 3)
  · rw [if_pos hin] at hvisit ⊢
    -- The offset wraps when the image is below its virtual address; modulo `2 ^ 39` it is right.
    have hdelta := (c.decanonical 3).virtual_add_delta
    rw [hc.virtual, show (c.decanonical 3).physicalAddr = c.physicalAddr from rfl] at hdelta
    have hdvd : pageSize 0 ∣ (c.decanonical 3).delta := MapCall.page_dvd_delta hvalid.aligned
    have hlength := hc.length
    have hlengthLt := hc.lt
    obtain ⟨hlo, hhi⟩ := hin
    rw [hvisit]
    dsimp only
    rw [leafResult_rewritten (by norm_num) (by norm_num) hvalid.aligned hvalid.flags_lt
      hvalid.valid, if_pos hdvd]
    refine congrArg (fun n => Except.ok (Except.ok (BitVec.ofNat 64 n))) ?_
    rw [show pageSize 3 = 2 ^ 39 from rfl] at hlo hhi hlt ⊢
    omega
  · rw [if_neg hin] at hvisit ⊢
    obtain ⟨j, hvisit⟩ := hvisit
    rw [hvisit]
    dsimp only
    rw [leafResult_missed (by norm_num) (by omega) hbound, leafResult_eq (by norm_num) (by omega)]
    refine if_ctx_congr Iff.rfl (fun _ => rfl) fun hv => ?_
    have hdvd := haligned (by simpa using hv)
    rw [if_pos hdvd, if_pos ((Nat.pow_dvd_pow 2 (by omega)).trans hdvd)]

end Image

/-- The translation of an address of `2 ^ 39`: to the image, or to physical memory in both
halves. -/
def imageTranslation (physical : Usize) (length w : ℕ) : ℕ :=
  if InImage length w then physical.toNat + (w - 0x7f80000000) else w % 2 ^ 38

/-! ## The bootloader -/

/-- Physical memory into the lower half. -/
def identityCall : MapCall := ⟨0, 0, (1 : Usize) <<< 38, 0xf⟩

/-- The length of the payload, padded to pages. -/
def paddedLen (len : ℕ) : ℕ := (len / 4096 + 1) * 4096

/-- The payload to the upper half. -/
def payloadCall (bytes : Usize) (len : ℕ) : MapCall :=
  ⟨bytes, 0x7f80000000, BitVec.ofNat 64 (paddedLen len), 0xf⟩

/-- The page table of `pre_main`, for a payload of `len` bytes at `bytes`. -/
def preMain (paging : Sv39) (heap : Allocator 8) (bytes : Usize) (len : ℕ) (mem : Memory 8) :
    Except Fault (Memory 8) := do
  let mem ← paging.map heap identityCall mem
  let mem ← paging.map heap directCall mem
  paging.map heap (payloadCall bytes len) mem

theorem identityCall_superpages : identityCall.Superpages :=
  ⟨by decide, by decide, by decide, Or.inl (by decide)⟩

theorem directCall_superpages : directCall.Superpages :=
  ⟨directCall_valid, by decide, by decide, Or.inl (by decide)⟩

theorem toNat_paddedLen {len : ℕ} (hlen : paddedLen len < 2 ^ 21) :
    (BitVec.ofNat 64 (paddedLen len) : Usize).toNat = paddedLen len := by
  rw [BitVec.toNat_ofNat]
  omega

theorem payloadCall_image {bytes : Usize} {len : ℕ} (hbytes : 4096 ∣ bytes.toNat)
    (hlen : paddedLen len < 2 ^ 21) : (payloadCall bytes len).Image := by
  have hlength : (payloadCall bytes len).length.toNat = paddedLen len := toNat_paddedLen hlen
  refine ⟨?_, hbytes, ?_, ?_, ?_, rfl⟩
  · rw [MapCall.toNat_decanonical (by norm_num)]
    show (0x7f80000000 : Usize).toNat % pageSize 3 = _
    decide
  · rw [hlength]
    exact Nat.dvd_mul_left _ _
  · rw [hlength, paddedLen]
    omega
  · rw [hlength]
    exact hlen

theorem kernelCall_image {kernelPhysical : Usize} (h : 4096 ∣ kernelPhysical.toNat) :
    (kernelCall kernelPhysical).Image :=
  ⟨kernelCall_virtual, h, by rw [kernelCall_length]; decide, by rw [kernelCall_length]; decide,
    by rw [kernelCall_length]; decide, rfl⟩

/-- The first two calls map physical memory into both halves. -/
theorem lastTranslation_physical (va : Usize) :
    lastTranslation [identityCall, directCall] va =
      .ok (BitVec.ofNat 64 (va.toNat % pageSize 3 % 2 ^ 38)) := by
  have hlt : va.toNat % pageSize 3 < 2 ^ 39 := Nat.mod_lt _ (pageSize_pos 3)
  have hidentity : ∀ w, (identityCall.decanonical 3).Contains w ↔ w < 2 ^ 38 := fun w => by
    rw [MapCall.Contains, show (identityCall.decanonical 3).virtualAddr.toNat = 0 by decide,
      show (identityCall.decanonical 3).stop = 2 ^ 38 by decide]
    omega
  have hdirect : ∀ w, (directCall.decanonical 3).Contains w ↔ 2 ^ 38 ≤ w ∧ w < 2 ^ 39 := fun w => by
    rw [MapCall.Contains, show (directCall.decanonical 3).virtualAddr.toNat = 2 ^ 38 by decide,
      show (directCall.decanonical 3).stop = 2 ^ 39 by decide]
  rw [show [identityCall, directCall] = ([] ++ [identityCall]) ++ [directCall] from rfl,
    lastTranslation_append directCall_superpages, lastTranslation_append identityCall_superpages,
    show (directCall.decanonical 3).delta = 2 ^ 64 - 2 ^ 38 by decide,
    show (identityCall.decanonical 3).delta = 0 by decide]
  by_cases hhalf : va.toNat % pageSize 3 < 2 ^ 38
  · rw [if_neg (by rw [hdirect]; omega), if_pos ((hidentity _).mpr hhalf)]
    rw [Nat.add_zero, Nat.mod_eq_of_lt hhalf]
  · rw [if_pos ((hdirect _).mpr ⟨by omega, hlt⟩)]
    refine congrArg (fun n => Except.ok (BitVec.ofNat 64 n)) ?_
    rw [show pageSize 3 = 2 ^ 39 from rfl] at hhalf hlt ⊢
    omega

section Bootloader

variable {paging : Sv39} {heap : Allocator 8} {mem mem' : Memory 8} {bytes : Usize} {len : ℕ}

/-- The tree of the bootloader, and the lookup in it. -/
theorem preMain_represents (hfresh : FreshPages paging heap mem.allocated)
    (hzero : ZeroRoot paging mem) (hbytes : 4096 ∣ bytes.toNat) (hlen : paddedLen len < 2 ^ 21)
    (hphysical : bytes.toNat + 2 ^ 21 ≤ 2 ^ 39)
    (hrun : preMain paging heap bytes len mem = .ok mem') :
    (∃ entries, Represents paging heap mem.allocated (Set.Iio 512) mem' entries) ∧
      ∀ va, paging.query mem' va =
        .ok (.ok (BitVec.ofNat 64 (imageTranslation bytes (paddedLen len)
          (va.toNat % pageSize 3)))) := by
  rw [preMain] at hrun
  obtain ⟨mem₁, hmap₁, hrun⟩ := bind_eq_ok_iff.mp hrun
  obtain ⟨mem₂, hmap₂, hmap₃⟩ := bind_eq_ok_iff.mp hrun
  have himage := payloadCall_image hbytes hlen
  have hspace := ((superspace_zeroed hfresh hzero).map hfresh identityCall_superpages hmap₁).map
    hfresh directCall_superpages hmap₂
  obtain ⟨entries, hrep⟩ := hspace.represents
  have hlength : (payloadCall bytes len).length.toNat = paddedLen len := toNat_paddedLen hlen
  obtain ⟨hpos, hlt⟩ := (aligned_of_map_eq_ok (by norm_num) (by norm_num) hmap₃).2
  obtain ⟨hrep', -, -⟩ := (map_outcome hfresh (by norm_num) (by norm_num) hrep
    ⟨himage.valid.aligned, himage.valid.leafFlags, hlt⟩ hpos fun v hv => hv.lt).post_of_eq_ok hmap₃
  refine ⟨⟨_, hrep'⟩, fun va => ?_⟩
  -- The third call over the superpages of the first two.
  obtain ⟨i, e, hleaf⟩ := hrep.exists_leafAt hfresh (by norm_num) (vpn_lt 2 va.toNat)
  obtain ⟨hi, hbound⟩ := hrep.leafAt_facts hfresh (by norm_num) (by norm_num) (vpn_lt _ _) hleaf
  rw [query_map_eq hfresh (by norm_num) (by norm_num) hrep himage.valid.leafFlags
    (fun v hv => hv.lt) hmap₃ (vpn_lt _ _) hleaf]
  refine (leafResult_image himage hphysical (hspace.level va i e hleaf) (by omega) hbound
    (hspace.aligned va i e hleaf)).trans ?_
  rw [hlength, ← hrep.query_leafAt hfresh (by norm_num) (vpn_lt _ _) hleaf, hspace.query,
    imageTranslation]
  split
  · rfl
  · exact congrArg Except.ok (lastTranslation_physical va)

end Bootloader

/-! ## One page table at different addresses -/

section Relocation

variable {levels : ℕ} {paging paging' : GenericPaging levels 8} {heap heap' : Allocator 8}
  {mem mem' : Memory 8} {n₀ : ℕ} {D : Set ℕ} {entries : ℕ → PageNode (levels - 1)}

/-- **Two memories hold the same page table**, whose tables are at other addresses but have the same
physical ones. -/
structure Relocates (paging : GenericPaging levels 8) (heap : Allocator 8) (mem : Memory 8)
    (paging' : GenericPaging levels 8) (heap' : Allocator 8) (mem' : Memory 8) (n₀ : ℕ) : Prop where
  capacity : heap'.capacity = heap.capacity
  allocated : mem'.allocated = mem.allocated
  root : ∀ v, mem'.slot paging'.table v = mem.slot paging.table v
  page : ∀ n, n₀ ≤ n → n < heap.capacity → ∀ v,
    mem'.slot (heap'.page n) v = mem.slot (heap.page n) v
  physical : ∀ n, n₀ ≤ n → n < heap.capacity →
    paging'.virtToPhys (heap'.page n) = paging.virtToPhys (heap.page n)

theorem PageNode.Rep.relocate {virtToPhys virtToPhys' : Usize → Usize} {l : ℕ} {node : PageNode l}
    {x : Entry} {pages : Set ℕ} (h : node.Rep virtToPhys heap mem x pages)
    (hpage : ∀ n ∈ pages, ∀ v, mem'.slot (heap'.page n) v = mem.slot (heap.page n) v)
    (hphysical : ∀ n ∈ pages, virtToPhys' (heap'.page n) = virtToPhys (heap.page n)) :
    node.Rep virtToPhys' heap' mem' x pages := by
  induction node generalizing x pages with
  | leaf e => exact h
  | table entries ih =>
    obtain ⟨n, below, rfl, rfl, hn, htable⟩ := h
    refine ⟨n, below, ?_, rfl, hn, fun v hv => ?_, htable.empty, htable.disjoint⟩
    · rw [tablePointer, tablePointer, hphysical n (Set.mem_insert _ _)]
    · obtain ⟨e, hslot, hrep⟩ := htable.slot v hv
      have hbelow : ∀ m ∈ below v, m ∈ insert n (⋃ v, below v) := fun m hm =>
        Set.mem_insert_of_mem _ (Set.mem_iUnion.mpr ⟨v, hm⟩)
      refine ⟨e, ?_, ih v hrep (fun m hm => hpage m (hbelow m hm)) fun m hm =>
        hphysical m (hbelow m hm)⟩
      rw [hpage n (Set.mem_insert _ _), hslot]

/-- **A relocated page table represents the same tree.** -/
theorem Represents.relocate (h : Represents paging heap n₀ D mem entries)
    (hrelocates : Relocates paging heap mem paging' heap' mem' n₀) :
    Represents paging' heap' n₀ D mem' entries := by
  obtain ⟨below, hrep, hunion⟩ := h.rep
  have hallocated := hrelocates.allocated
  have howned := h.owned hunion
  refine ⟨hallocated ▸ h.started, ?_, below, ⟨fun v hv => ?_, hrep.empty, hrep.disjoint⟩, ?_⟩
  · rw [hallocated, hrelocates.capacity]
    exact h.capacity
  · obtain ⟨e, hslot, hnode⟩ := hrep.slot v hv
    refine ⟨e, (hrelocates.root v).trans hslot, hnode.relocate (fun n hn => ?_) fun n hn => ?_⟩
    · exact hrelocates.page n (howned v n hn).1 (howned v n hn).2
    · exact hrelocates.physical n (howned v n hn).1 (howned v n hn).2
  · rw [hunion, hallocated]

end Relocation

/-! ## The kernel under the page table of the bootloader -/

/-- `GAP`. -/
def gap (svBits : ℕ) : Usize := 0 - (1 : Usize) <<< (svBits - 1)

/-- `phys_to_virt` of the kernel. -/
def physToVirt (physAddr : Usize) : Usize := physAddr + gap 39

/-- `virt_to_phys` of the kernel. -/
def virtToPhys (virtAddr : Usize) : Usize := virtAddr - gap 39

/-- The value of `satp` for a root table at a physical address. -/
def satp (table : Usize) : Usize := (table >>> 12) ||| ((8 : Usize) <<< 60)

/-- A page table at its physical addresses, as the bootloader and the hardware use it. -/
def physicalSv39 (table : Usize) : Sv39 := ⟨table, id, id⟩

/-- A page table with the conversions of the kernel. -/
def kernelSv39 (table : Usize) : Sv39 := ⟨table, physToVirt, virtToPhys⟩

/-- **The memory that a program sees under a page table**: a load comes to the physical address that
the lookup of its address gives. -/
def seen (paging : Sv39) (mem : Memory 8) : Memory 8 where
  tables := fun a =>
    match paging.query mem a with
    | .ok (.ok physical) => mem.tables physical
    | _ => none
  allocated := mem.allocated

theorem toNat_gap : (gap 39).toNat = 2 ^ 64 - 2 ^ 38 := by
  decide

theorem satp_shiftLeft {table : Usize} (haligned : 4096 ∣ table.toNat)
    (hlt : table.toNat < 2 ^ 56) : satp table <<< 12 = table := by
  -- The mode is above the page number, and shifted out.
  have hmode : ((8 : Usize) <<< 60) <<< 12 = 0 := by decide
  have hpage : (table >>> 12) <<< 12 = table := by
    refine BitVec.eq_of_toNat_eq ?_
    rw [BitVec.toNat_shiftLeft, BitVec.toNat_ushiftRight, Nat.shiftRight_eq_div_pow,
      Nat.shiftLeft_eq]
    omega
  rw [satp, BitVec.shiftLeft_or_distrib, hmode, hpage]
  exact BitVec.or_zero

/-- The root table of the bootloader and its heap lie in physical memory, below the addresses over
which it maps the image. -/
structure LowMemory (table : Usize) (heap : Allocator 8) (n₀ : ℕ) : Prop where
  aligned : 4096 ∣ table.toNat
  table_lt : table.toNat < 2 ^ 38
  page_lt : ∀ n, n₀ ≤ n → n < heap.capacity → (heap.page n).toNat < 0x3f80000000

/-- What the bootloader starts from: a zeroed root table, fresh pages, and a payload of less than
2 MiB below the image. -/
structure Bootable (table : Usize) (heap : Allocator 8) (mem : Memory 8) (bytes : Usize)
    (len : ℕ) : Prop where
  low : LowMemory table heap mem.allocated
  fresh : FreshPages (physicalSv39 table) heap mem.allocated
  zero : ZeroRoot (physicalSv39 table) mem
  aligned : 4096 ∣ bytes.toNat
  len_lt : paddedLen len < 2 ^ 21
  bytes_le : bytes.toNat + 2 ^ 21 ≤ 0x3f80000000

/-- The pages of a heap at the addresses of the kernel. -/
structure KernelPages (heap heap' : Allocator 8) : Prop where
  capacity : heap'.capacity = heap.capacity
  page : ∀ n, heap'.page n = physToVirt (heap.page n)

theorem exists_kernelPages (heap : Allocator 8) : ∃ heap', KernelPages heap heap' :=
  ⟨⟨heap.capacity, fun n => physToVirt (heap.page n), heap.stale⟩, rfl, fun _ => rfl⟩

theorem toNat_physToVirt {a : Usize} (h : a.toNat < 2 ^ 38) :
    (physToVirt a).toNat = a.toNat + (2 ^ 64 - 2 ^ 38) := by
  rw [physToVirt, BitVec.toNat_add, toNat_gap]
  omega

theorem virtToPhys_physToVirt (a : Usize) : virtToPhys (physToVirt a) = a := by
  rw [virtToPhys, physToVirt, BitVec.add_sub_cancel]

theorem physToVirt_virtToPhys (a : Usize) : physToVirt (virtToPhys a) = a := by
  rw [virtToPhys, physToVirt, BitVec.sub_add_cancel]

section Main

variable {table bytes : Usize} {heap heap' : Allocator 8} {mem booted : Memory 8} {len n₀ : ℕ}

theorem LowMemory.freshPages (hlow : LowMemory table heap n₀) (hpages : KernelPages heap heap')
    (hfresh : FreshPages (physicalSv39 table) heap n₀) :
    FreshPages (kernelSv39 table) heap' n₀ := by
  have hcapacity := hpages.capacity
  have hvalue : ∀ n, n₀ ≤ n → n < heap'.capacity →
      (heap'.page n).toNat = (heap.page n).toNat + (2 ^ 64 - 2 ^ 38) := fun n hn hn' => by
    have := hlow.page_lt n hn (hcapacity ▸ hn')
    rw [hpages.page, toNat_physToVirt (by omega)]
  have hphysical : ∀ n, (kernelSv39 table).virtToPhys (heap'.page n) = heap.page n := fun n => by
    rw [hpages.page]
    exact virtToPhys_physToVirt _
  refine ⟨hcapacity ▸ hfresh.started, fun m n hm hn hm' hn' heq => ?_, fun n hn hn' heq => ?_,
    fun n hn hn' heq => ?_, fun n _ _ => physToVirt_virtToPhys _, fun n hn hn' => ?_,
    fun n hn hn' => ?_, fun n hn hn' => ?_⟩
  · refine hfresh.injective m n hm hn (hcapacity ▸ hm') (hcapacity ▸ hn') ?_
    rw [← hphysical m, heq, hphysical n]
  · have hlt := hlow.table_lt
    have hnat := congrArg BitVec.toNat heq
    rw [hvalue n hn hn', show (kernelSv39 table).table = table from rfl] at hnat
    omega
  · have hnat := congrArg BitVec.toNat heq
    rw [hvalue n hn hn', show (0 : Usize).toNat = 0 from rfl] at hnat
    omega
  · rw [hphysical]
    exact hfresh.aligned n hn (hcapacity ▸ hn')
  · rw [hphysical]
    exact hfresh.phys_ne_zero n hn (hcapacity ▸ hn')
  · rw [hphysical]
    exact hfresh.phys_lt n hn (hcapacity ▸ hn')

/-- A load from memory that is mapped comes to it. -/
theorem seen_slot {paging : Sv39} {a physical : Usize}
    (h : paging.query mem a = .ok (.ok physical)) (v : ℕ) :
    (seen paging mem).slot a v = mem.slot physical v := by
  have htables : (seen paging mem).tables a = mem.tables physical := by
    simp only [seen, h]
  rw [Memory.slot, Memory.slot, htables]

/-- **The kernel sees the page table of the bootloader** through it. -/
theorem LowMemory.relocates (hlow : LowMemory table heap n₀) (hpages : KernelPages heap heap')
    (hquery : ∀ va, (physicalSv39 table).query booted va =
      .ok (.ok (BitVec.ofNat 64 (imageTranslation bytes (paddedLen len)
        (va.toNat % pageSize 3))))) :
    Relocates (physicalSv39 table) heap booted (kernelSv39 table) heap'
      (seen (physicalSv39 table) booted) n₀ := by
  refine ⟨hpages.capacity, rfl, fun v => ?_, fun n hn hn' v => ?_, fun n _ _ => ?_⟩
  · -- the root table is in the lower half
    have hlt := hlow.table_lt
    refine seen_slot ?_ v
    have hmod : table.toNat % pageSize 3 = table.toNat :=
      Nat.mod_eq_of_lt (hlt.trans (by norm_num [pageSize]))
    rw [show (kernelSv39 table).table = table from rfl,
      show (physicalSv39 table).table = table from rfl, hquery, hmod, imageTranslation,
      if_neg fun h => ?_, Nat.mod_eq_of_lt hlt, BitVec.ofNat_toNat, BitVec.setWidth_eq]
    have := h.1
    omega
  · -- the pages of the heap are in the upper half, below the image
    have hlt := hlow.page_lt n hn hn'
    refine seen_slot ?_ v
    have hmod : (physToVirt (heap.page n)).toNat % pageSize 3 = (heap.page n).toNat + 2 ^ 38 := by
      rw [toNat_physToVirt (by omega), show pageSize 3 = 2 ^ 39 from rfl]
      omega
    rw [hpages.page, hquery, hmod, imageTranslation, if_neg fun h => ?_, Nat.add_mod_right,
      Nat.mod_eq_of_lt (by omega), BitVec.ofNat_toNat, BitVec.setWidth_eq]
    have := h.1
    omega
  · rw [hpages.page]
    exact virtToPhys_physToVirt _

/-- The lookup of the address at which the kernel starts, under the page table of the
bootloader. -/
theorem Bootable.query_start (h : Bootable table heap mem bytes len)
    (hrun : preMain (physicalSv39 table) heap bytes len mem = .ok booted) :
    (kernelSv39 (satp table <<< 12)).query (seen (physicalSv39 table) booted) kernelStartVirtual =
      .ok (.ok bytes) := by
  obtain ⟨hlow, hfresh, hzero, hbytes, hlen, hle⟩ := h
  obtain ⟨⟨entries, hrep⟩, hquery⟩ := preMain_represents hfresh hzero hbytes hlen (by omega) hrun
  obtain ⟨heap', hpages⟩ := exists_kernelPages heap
  have hkernel := hrep.relocate (hlow.relocates hpages hquery)
  rw [satp_shiftLeft hlow.aligned (hlow.table_lt.trans (by norm_num)),
    hkernel.query_eq (hlow.freshPages hpages hfresh) (by norm_num) (vpn_lt _ _),
    ← hrep.query_eq hfresh (by norm_num) (vpn_lt _ _), hquery,
    show kernelStartVirtual.toNat % pageSize 3 = 0x7f80000000 by decide, imageTranslation,
    if_pos ⟨le_rfl, by omega⟩, Nat.sub_self, Nat.add_zero, BitVec.ofNat_toNat, BitVec.setWidth_eq]

end Main

/-! ## A hart -/

/-- What the kernel sees of physical memory, at its physical addresses. -/
def atPhysical (mem : Memory 8) : Memory 8 where
  tables := fun physAddr => mem.tables (physToVirt physAddr)
  allocated := mem.allocated

/-- The pages of the kernel at their physical addresses. -/
structure PhysicalPages (heap heap' : Allocator 8) : Prop where
  capacity : heap'.capacity = heap.capacity
  page : ∀ n, heap'.page n = virtToPhys (heap.page n)

/-- What a hart relies on for its page table: fresh pages, a clean one for the root, and room for
two tables more. -/
structure HartHeap (heap : Allocator 8) (mem : Memory 8) : Prop where
  fresh : FreshPages (hartSv39 heap physToVirt virtToPhys mem) heap (mem.allocated + 1)
  root_aligned : 4096 ∣ (virtToPhys (heap.page mem.allocated)).toNat
  root_lt : (virtToPhys (heap.page mem.allocated)).toNat < 2 ^ 56
  room : mem.allocated + 3 ≤ heap.capacity
  clean : CleanRoot (heap.stale mem.allocated)

section Hart

variable {root kernelPhysical : Usize} {heap heap' : Allocator 8} {mem : Memory 8} {n₀ : ℕ}

/-- Pages that are fresh for the kernel are fresh at their physical addresses. -/
theorem PhysicalPages.freshPages (hpages : PhysicalPages heap heap')
    (hfresh : FreshPages (kernelSv39 root) heap n₀) :
    FreshPages (physicalSv39 (virtToPhys root)) heap' n₀ := by
  have hcapacity := hpages.capacity
  have hinjective : ∀ {a b : Usize}, virtToPhys a = virtToPhys b → a = b := fun {a b} heq => by
    rw [← physToVirt_virtToPhys a, heq, physToVirt_virtToPhys]
  have hphysical : ∀ n, (physicalSv39 (virtToPhys root)).virtToPhys (heap'.page n) =
      (kernelSv39 root).virtToPhys (heap.page n) := fun n => by
    rw [hpages.page]
    rfl
  refine ⟨hcapacity ▸ hfresh.started, fun m n hm hn hm' hn' heq => ?_, fun n hn hn' heq => ?_,
    fun n hn hn' heq => ?_, fun n _ _ => rfl, fun n hn hn' => ?_, fun n hn hn' => ?_,
    fun n hn hn' => ?_⟩
  · rw [hpages.page, hpages.page] at heq
    exact hfresh.injective m n hm hn (hcapacity ▸ hm') (hcapacity ▸ hn') (hinjective heq)
  · rw [hpages.page] at heq
    exact hfresh.ne_root n hn (hcapacity ▸ hn') (hinjective heq)
  · rw [hpages.page] at heq
    exact hfresh.phys_ne_zero n hn (hcapacity ▸ hn') heq
  · rw [hphysical]
    exact hfresh.aligned n hn (hcapacity ▸ hn')
  · rw [hphysical]
    exact hfresh.phys_ne_zero n hn (hcapacity ▸ hn')
  · rw [hphysical]
    exact hfresh.phys_lt n hn (hcapacity ▸ hn')

/-- **The hardware finds the page table of a hart** at its physical addresses. -/
theorem PhysicalPages.relocates (hpages : PhysicalPages heap heap') (root : Usize) :
    Relocates (kernelSv39 root) heap mem (physicalSv39 (virtToPhys root)) heap' (atPhysical mem)
      n₀ := by
  have hslot : ∀ a v, (atPhysical mem).slot (virtToPhys a) v = mem.slot a v := fun a v => by
    rw [Memory.slot, Memory.slot, atPhysical]
    dsimp only
    rw [physToVirt_virtToPhys]
  refine ⟨hpages.capacity, ?_, fun v => hslot root v, fun n _ _ v => ?_, fun n _ _ => ?_⟩
  · rw [atPhysical]
  · rw [hpages.page, hslot]
  · rw [hpages.page]
    rfl

/-- The leaf of an address of the upper half in the tree of a hart. -/
theorem kernelEntries_leafResult (halign : 4096 ∣ kernelPhysical.toNat)
    (hphysical : kernelPhysical.toNat + 2 ^ 21 ≤ 2 ^ 39) {va : Usize}
    (hva : 2 ^ 38 ≤ va.toNat % pageSize 3) :
    leafResult 3 va ((kernelEntries kernelPhysical (vpn 2 va.toNat)).leafAt va.toNat) =
      .ok (.ok (BitVec.ofNat 64 (imageTranslation kernelPhysical 0x100000
        (va.toNat % pageSize 3)))) := by
  obtain ⟨hv, hdvd, htarget, hbound⟩ := directEntry_facts va.toNat
  have hlt : va.toNat % pageSize 3 < 2 ^ 39 := Nat.mod_lt _ (pageSize_pos 3)
  rw [kernelEntries_leafAt, leafResult_image (kernelCall_image halign) hphysical (by norm_num)
    le_rfl hbound fun _ => hdvd, kernelCall_length, imageTranslation]
  split
  · rfl
  · -- the gigapage of the first call
    have hmod : (va.toNat + (2 ^ 64 - 2 ^ 38)) % pageSize 3 = va.toNat % pageSize 3 % 2 ^ 38 := by
      rw [show pageSize 3 = 2 ^ 39 from rfl] at hva ⊢
      omega
    rw [leafResult_eq (by norm_num) (by norm_num), hv, if_neg (by simp), if_pos hdvd, htarget, hmod]

end Hart

/-! ## A machine -/

/-- Pages of the bootloader, from 4 GiB on. -/
def bootHeap : Allocator 8 where
  capacity := 2 ^ 20
  page := fun n => BitVec.ofNat 64 (0x100000000 + n * 4096)
  stale := fun _ => Table.zeroed

/-- A zeroed `TABLE`. -/
def bootMemory : Memory 8 := Memory.uniform 0x80200000 Entry.zeroed

theorem toNat_bootHeap_page {n : ℕ} (hn : n < bootHeap.capacity) :
    (bootHeap.page n).toNat = 0x100000000 + n * 4096 := by
  have hn' : n < 2 ^ 20 := hn
  show (BitVec.ofNat 64 (0x100000000 + n * 4096)).toNat = _
  rw [BitVec.toNat_ofNat, Nat.mod_eq_of_lt (by omega)]

theorem boot_bootable : Bootable 0x80200000 bootHeap bootMemory 0x80210000 169868 where
  low := ⟨by decide, by decide, fun n _ hn => by
    have hn' : n < 2 ^ 20 := hn
    rw [toNat_bootHeap_page hn]
    omega⟩
  fresh := by
    refine ⟨Nat.zero_le _, fun m n _ _ hm hn heq => ?_, fun n _ hn heq => ?_,
      fun n _ hn heq => ?_, fun _ _ _ => rfl, fun n _ hn => ?_, fun n _ hn heq => ?_,
      fun n _ hn => ?_⟩
    · have := congrArg BitVec.toNat heq
      rw [toNat_bootHeap_page hm, toNat_bootHeap_page hn] at this
      omega
    · have := congrArg BitVec.toNat heq
      rw [toNat_bootHeap_page hn,
        show (physicalSv39 0x80200000).table.toNat = 0x80200000 from rfl] at this
      omega
    · have := congrArg BitVec.toNat heq
      rw [toNat_bootHeap_page hn, show (0 : Usize).toNat = 0 from rfl] at this
      omega
    · show 4096 ∣ (bootHeap.page n).toNat
      rw [toNat_bootHeap_page hn]
      omega
    · have : (bootHeap.page n).toNat = 0 := congrArg BitVec.toNat heq
      rw [toNat_bootHeap_page hn] at this
      omega
    · have hn' : n < 2 ^ 20 := hn
      show (bootHeap.page n).toNat < _
      rw [toNat_bootHeap_page hn]
      omega
  zero := by simp [ZeroRoot, bootMemory, Memory.uniform, physicalSv39, Table.zeroed]
  aligned := by decide
  len_lt := by decide
  bytes_le := by decide

/-- The calls of the bootloader return. -/
theorem exists_booted :
    ∃ booted, preMain (physicalSv39 0x80200000) bootHeap 0x80210000 169868 bootMemory =
      .ok booted := by
  obtain ⟨-, hfresh, hzero, haligned, hlen, -⟩ := boot_bootable
  have himage := payloadCall_image haligned hlen
  have hbound : 3 * (512 * MapCall.tableBound 2) < 2 ^ 20 := by decide
  have hcapacity : bootHeap.capacity = 2 ^ 20 := rfl
  have hnone : bootMemory.allocated = 0 := rfl
  obtain ⟨mem₁, hmap₁, hspace₁, hallocated₁⟩ := exists_map_of_room hfresh
    (superspace_zeroed hfresh hzero) identityCall_superpages (by omega)
  obtain ⟨mem₂, hmap₂, hspace₂, hallocated₂⟩ := exists_map_of_room hfresh hspace₁
    directCall_superpages (by omega)
  obtain ⟨entries, hrep⟩ := hspace₂.represents
  have hstop := himage.valid.stop_le
  have hpos : 0 < ((payloadCall 0x80210000 169868).decanonical 3).stop :=
    lt_of_lt_of_le himage.pos (Nat.le_add_left _ _)
  have hle : ((payloadCall 0x80210000 169868).decanonical 3).newTables 2 entries ≤
    512 * MapCall.tableBound 2 := MapCall.newTables_le _
  obtain ⟨mem₃, hmap₃, -⟩ := (map_outcome hfresh (by norm_num) (by norm_num) hrep
    ⟨himage.valid.aligned, himage.valid.leafFlags, by omega⟩ (fun _ => hpos) fun v hv =>
      hv.lt).exists_ok fun f hf => by
        have hlt : bootHeap.capacity < mem₂.allocated +
          ((payloadCall 0x80210000 169868).decanonical 3).newTables 2 entries := hf.2
        omega
  exact ⟨mem₃, by rw [preMain, hmap₁, ok_bind, hmap₂, ok_bind, hmap₃]⟩

/-- Pages of the kernel, from `0x82000000` of physical memory on. -/
def kernelHeap : Allocator 8 where
  capacity := 16
  page := fun n => physToVirt (BitVec.ofNat 64 (0x82000000 + n * 4096))
  stale := fun _ => Table.zeroed

theorem toNat_virtToPhys_kernelHeap {n : ℕ} (hn : n < 16) :
    (virtToPhys (kernelHeap.page n)).toNat = 0x82000000 + n * 4096 := by
  rw [kernelHeap, virtToPhys_physToVirt, BitVec.toNat_ofNat]
  omega

theorem kernel_hartHeap : HartHeap kernelHeap emptyMemory where
  fresh := by
    have hcapacity : kernelHeap.capacity = 16 := rfl
    have hphysical : ∀ n, (hartSv39 kernelHeap physToVirt virtToPhys emptyMemory).virtToPhys
        (kernelHeap.page n) = virtToPhys (kernelHeap.page n) := fun n => by
      rw [hartSv39]
    have hinjective : ∀ m n, m < 16 → n < 16 → kernelHeap.page m = kernelHeap.page n → m = n :=
      fun m n hm hn heq => by
        have := congrArg (fun a => (virtToPhys a).toNat) heq
        rw [toNat_virtToPhys_kernelHeap hm, toNat_virtToPhys_kernelHeap hn] at this
        omega
    rw [show emptyMemory.allocated + 1 = 1 from rfl]
    refine ⟨by decide, fun m n _ _ hm hn => hinjective m n hm hn, fun n hn hn' heq => ?_,
      fun n _ hn heq => ?_, fun n _ _ => physToVirt_virtToPhys _, fun n _ hn => ?_,
      fun n _ hn heq => ?_, fun n _ hn => ?_⟩
    · -- the root is page 0
      have := hinjective n 0 hn' (by norm_num) heq
      omega
    · have := toNat_virtToPhys_kernelHeap hn
      rw [heq, show (virtToPhys 0).toNat = 2 ^ 38 by decide] at this
      omega
    · rw [hphysical, toNat_virtToPhys_kernelHeap hn]
      omega
    · rw [hphysical] at heq
      have := toNat_virtToPhys_kernelHeap hn
      rw [heq, show (0 : Usize).toNat = 0 from rfl] at this
      omega
    · rw [hphysical, toNat_virtToPhys_kernelHeap hn]
      omega
  root_aligned := by
    rw [toNat_virtToPhys_kernelHeap (show emptyMemory.allocated < 16 by decide)]
    decide
  root_lt := by
    rw [toNat_virtToPhys_kernelHeap (show emptyMemory.allocated < 16 by decide)]
    decide
  room := by decide
  clean := by
    refine ⟨fun v hv e he => ?_, fun v hv e he => ?_⟩ <;> rw [uniformTable_eq_some he] <;> decide

end AsyncKernel
