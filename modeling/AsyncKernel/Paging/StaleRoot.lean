import AsyncKernel.Paging.KernelSpace

/-!
# The address space of a hart and the prior contents of its root table

The root table of `common_hart_code` comes from `Table::boxed_zeroed`, which zeroes nothing. The
address space does not depend on what the page held before exactly when the page was clean: no valid
entry in the lower half, and no pointer to a table in the upper half.

One direction is `mapKernel_outcome`. For the other, the calls write valid entries only, so a valid
entry of the lower half stays, and so does an entry of the lower half that a stale pointer makes the
first call write. A lookup that is led through valid entries does not report `Invalid`.

## Main definitions

* `commonHartSpace`: the page table of a hart
* `StaleIndependent`: two prior contents of the heap give the same address space
* `CleanRoot`: no valid entry in the lower half, and leaves in the upper half
* `Kept`: valid entries stay valid, and new tables begin with one

## Main results

* `mapInternal_kept`: a call keeps valid entries, by induction on the level
* `exists_query_ne_invalid`: a lookup through valid entries does not report `Invalid`
* `staleIndependent_of_cleanRoot`: when the address space does not depend on stale contents
-/

namespace AsyncKernel

open Bits

/-- The page table of `common_hart_code`: a new root table and the two calls. -/
def commonHartSpace (heap : Allocator 8) (physToVirt virtToPhys : Usize → Usize)
    (kernelPhysical : Usize) (mem : Memory 8) : Except Fault (Sv39 × Memory 8) := do
  let (table, mem) ← Table.boxedZeroed heap mem
  let sv39 : Sv39 := ⟨table, physToVirt, virtToPhys⟩
  let mem ← mapKernel sv39 heap kernelPhysical mem
  return (sv39, mem)

/-- The page tables built over two prior contents of the heap give the same result for every
address, and `Invalid` for every address of the lower half. -/
def StaleIndependent (heap : Allocator 8) (physToVirt virtToPhys : Usize → Usize)
    (kernelPhysical : Usize) (mem : Memory 8) (stale₁ stale₂ : ℕ → Table 8) : Prop :=
  ∃ r₁ r₂,
    commonHartSpace { heap with stale := stale₁ } physToVirt virtToPhys kernelPhysical mem =
      .ok r₁ ∧
    commonHartSpace { heap with stale := stale₂ } physToVirt virtToPhys kernelPhysical mem =
      .ok r₂ ∧
    (∀ va, r₁.1.query r₁.2 va = r₂.1.query r₂.2 va) ∧
    ∀ va : Usize, va.toNat % 2 ^ 39 < 2 ^ 38 → r₁.1.query r₁.2 va = .ok (.error .invalid)

/-- No valid entry in the lower half, and leaves in the upper half. -/
structure CleanRoot (t : Table 8) : Prop where
  lower : ∀ v < 256, ∀ e, t.entries[v]? = some e → e.value.getLsbD 0 = false
  upper : ∀ v, 256 ≤ v → ∀ e, t.entries[v]? = some e → e.isLeaf = true

/-! ## Valid entries stay -/

/-- A valid entry. -/
def Memory.ValidAt (mem : Memory 8) (table : Usize) (v : ℕ) : Prop :=
  ∃ e, mem.slot table v = some e ∧ e.value.getLsbD 0 = true

variable {paging : Sv39} {heap : Allocator 8} {n₀ : ℕ} {mem mem₁ mem₂ : Memory 8} {c : MapCall}
  {l v : ℕ} {table offset : Usize} {e : Entry}

/-- Every table is the root or a page that was allocated since page `n₀`. -/
structure OnlyOwn (paging : Sv39) (heap : Allocator 8) (n₀ : ℕ) (mem : Memory 8) : Prop where
  started : n₀ ≤ mem.allocated
  own : ∀ a v e, mem.slot a v = some e → a = paging.table ∨
    ∃ m, n₀ ≤ m ∧ m < mem.allocated ∧ m < heap.capacity ∧ a = heap.page m

/-- Valid entries stay valid, and new tables begin with a valid entry. -/
structure Kept (paging : Sv39) (heap : Allocator 8) (n₀ : ℕ) (mem mem' : Memory 8) : Prop where
  valid : ∀ a v, mem.ValidAt a v → mem'.ValidAt a v
  new : ∀ a v e, mem'.slot a v = some e → (∃ e', mem.slot a v = some e') ∨ mem'.ValidAt a 0
  own : OnlyOwn paging heap n₀ mem'

theorem Kept.refl (h : OnlyOwn paging heap n₀ mem) : Kept paging heap n₀ mem mem :=
  ⟨fun _ _ h => h, fun _ _ e he => Or.inl ⟨e, he⟩, h⟩

theorem Kept.trans (h : Kept paging heap n₀ mem mem₁) (h' : Kept paging heap n₀ mem₁ mem₂) :
    Kept paging heap n₀ mem mem₂ := by
  refine ⟨fun a v hv => h'.valid a v (h.valid a v hv), fun a v e he => ?_, h'.own⟩
  rcases h'.new a v e he with ⟨e', he'⟩ | hvalid
  · exact (h.new a v e' he').imp_right (h'.valid a 0)
  · exact Or.inr hvalid

/-- Writing a valid entry. -/
theorem Kept.setSlot (hown : OnlyOwn paging heap n₀ mem) (hslot : mem.slot table v = some e)
    {new : Entry} (hnew : new.value.getLsbD 0 = true) :
    Kept paging heap n₀ mem (mem.setSlot table v new) ∧
      (mem.setSlot table v new).ValidAt table v := by
  have hself : (mem.setSlot table v new).ValidAt table v :=
    ⟨new, Memory.slot_setSlot_self hslot new, hnew⟩
  have hcases : ∀ a w, (a = table ∧ w = v) ∨ (mem.setSlot table v new).slot a w = mem.slot a w := by
    intro a w
    by_cases h : a = table ∧ w = v
    · exact Or.inl h
    · exact Or.inr (by rw [Memory.slot_setSlot hslot, if_neg h])
  refine ⟨⟨fun a w hvalid => ?_, fun a w e' he' => Or.inl ?_, ⟨by simpa using hown.started, ?_⟩⟩,
    hself⟩
  · rcases hcases a w with ⟨rfl, rfl⟩ | heq
    · exact hself
    · rwa [Memory.ValidAt, heq]
  · rcases hcases a w with ⟨rfl, rfl⟩ | heq
    · exact ⟨e, hslot⟩
    · exact ⟨e', heq ▸ he'⟩
  · intro a w e' he'
    rw [Memory.setSlot_allocated]
    rcases hcases a w with ⟨rfl, rfl⟩ | heq
    · exact hown.own _ _ _ hslot
    · exact hown.own _ _ _ (heq ▸ he')

section Split

variable {t : Table 8} (hfresh : FreshPages paging heap n₀) (hown : OnlyOwn paging heap n₀ mem)
  (hcap : mem.allocated < heap.capacity)

include hfresh hown hcap

theorem OnlyOwn.ne_page {a : Usize} (hslot : mem.slot a v = some e) :
    a ≠ heap.page mem.allocated := by
  intro heq
  -- The next page is neither the root nor a page that was handed out before.
  rcases hown.own _ _ _ hslot with hroot | ⟨m, hm, hlt, hmcap, hpage⟩
  · exact hfresh.ne_root _ hown.started hcap (heq.symm.trans hroot)
  · have := hfresh.injective m mem.allocated hm hown.started hmcap hcap (hpage.symm.trans heq)
    omega

theorem OnlyOwn.splitMemory (hslot : mem.slot table v = some e) :
    OnlyOwn paging heap n₀ (splitMemory paging heap mem t table v) := by
  have hstarted := hown.started
  refine ⟨by rw [splitMemory_allocated]; omega, fun a w e' he' => ?_⟩
  rw [splitMemory_allocated]
  have hold : ∀ w e', mem.slot a w = some e' → a = paging.table ∨
      ∃ m, n₀ ≤ m ∧ m < mem.allocated + 1 ∧ m < heap.capacity ∧ a = heap.page m := by
    intro w e' he'
    refine (hown.own a w e' he').imp_right ?_
    rintro ⟨m, hm, hlt, hmcap, hpage⟩
    exact ⟨m, hm, by omega, hmcap, hpage⟩
  rw [slot_splitMemory t hslot (hown.ne_page hfresh hcap hslot)] at he'
  by_cases hself : a = table ∧ w = v
  · obtain ⟨rfl, rfl⟩ := hself
    exact hold _ _ hslot
  · rw [if_neg hself] at he'
    by_cases hpage : a = heap.page mem.allocated
    · exact Or.inr ⟨_, hstarted, Nat.lt_succ_self _, hcap, hpage⟩
    · rw [if_neg hpage] at he'
      exact hold _ _ he'

/-- A split keeps valid entries once the first entry of the new table is valid. -/
theorem Kept.of_splitMemory (hslot : mem.slot table v = some e)
    (h : Kept paging heap n₀ (AsyncKernel.splitMemory paging heap mem t table v) mem₁)
    (hfirst : mem₁.ValidAt (heap.page mem.allocated) 0) :
    Kept paging heap n₀ mem mem₁ ∧ mem₁.ValidAt table v := by
  have hne := hown.ne_page hfresh hcap hslot
  have hslots : ∀ b w, (AsyncKernel.splitMemory paging heap mem t table v).slot b w = _ :=
    slot_splitMemory t hslot hne
  -- The pointer to the new table is valid.
  have hptr : mem₁.ValidAt table v := h.valid _ _
    ⟨_, by rw [hslots, if_pos ⟨rfl, rfl⟩],
      getLsbD_tablePointer_zero (hfresh.aligned _ hown.started hcap)⟩
  refine ⟨⟨fun a w hvalid => ?_, fun a w e' he' => ?_, h.own⟩, hptr⟩
  · by_cases hself : a = table ∧ w = v
    · obtain ⟨rfl, rfl⟩ := hself
      exact hptr
    · obtain ⟨e', he', hbit⟩ := hvalid
      refine h.valid _ _ ⟨e', ?_, hbit⟩
      rw [hslots, if_neg hself, if_neg (hown.ne_page hfresh hcap he'), he']
  · rcases h.new a w e' he' with ⟨e'', he''⟩ | hvalid
    · rw [hslots] at he''
      by_cases hself : a = table ∧ w = v
      · obtain ⟨rfl, rfl⟩ := hself
        exact Or.inl ⟨e, hslot⟩
      · rw [if_neg hself] at he''
        by_cases hpage : a = heap.page mem.allocated
        · subst hpage
          exact Or.inr hfirst
        · rw [if_neg hpage] at he''
          exact Or.inl ⟨e'', he''⟩
    · exact Or.inr hvalid

end Split

/-- A split that returns has added a table and made a pointer to it. -/
theorem Entry.split_added (e : Entry) (increment : Usize) (virtToPhys : Usize → Usize)
    (heap : Allocator 8) (mem : Memory 8) :
    Outcome (fun _ => True) (fun r => mem.allocated < heap.capacity ∧ ∃ t : Table 8,
      r = (tablePointer virtToPhys (heap.page mem.allocated),
        mem.addTable (heap.page mem.allocated) t))
      (e.split increment virtToPhys heap mem) := by
  cases hsplit : e.split increment virtToPhys heap mem with
  | error f => trivial
  | ok r =>
    unfold Entry.split Table.boxedZeroed at hsplit
    by_cases hcap : mem.allocated < heap.capacity
    · rw [if_pos hcap, ok_bind] at hsplit
      obtain ⟨_, -, hsplit⟩ := bind_eq_ok_iff.mp hsplit
      obtain ⟨filled, -, hsplit⟩ := bind_eq_ok_iff.mp hsplit
      obtain ⟨_, -, hsplit⟩ := bind_eq_ok_iff.mp hsplit
      obtain ⟨_, -, hsplit⟩ := bind_eq_ok_iff.mp hsplit
      obtain ⟨_, -, hsplit⟩ := bind_eq_ok_iff.mp hsplit
      refine ⟨hcap, filled.1, ?_⟩
      rw [← Except.ok.inj hsplit]
      simp [tablePointer, Memory.addTable, Memory.store]
    · rw [if_neg hcap] at hsplit
      cases hsplit

/-- A call that writes valid entries, from the first entry of the tables below the root on. -/
structure MapCall.Marks (c : MapCall) : Prop where
  aligned : c.Aligned
  valid : c.flags.getLsbD 0 = true
  pos : 0 < c.stop
  stop_lt : c.stop < 2 ^ 64
  first : ∀ l < 2, c.first l = 0

/-- What a call at a level does: the memory is kept, and the entry it began with was there and is
valid now. -/
def KeepsAt (paging : Sv39) (heap : Allocator 8) (n₀ : ℕ) (c : MapCall) (l : ℕ) : Prop :=
  ∀ (mem : Memory 8) (table offset : Usize), OnlyOwn paging heap n₀ mem → 4096 ∣ offset.toNat →
    offset.toNat + pageSize (l + 1) ≤ 2 ^ 57 →
    Outcome (fun _ => True) (fun mem' => Kept paging heap n₀ mem mem' ∧
        (∃ e, mem.slot table (c.first l) = some e) ∧ mem'.ValidAt table (c.first l))
      (mapInternal paging.physToVirt paging.virtToPhys heap c l table offset mem)

/-- The body of the loop reads its entry. -/
theorem exists_slot_of_mapBody
    (h : mapBody paging heap c l table offset (c.last l) mem v = .ok mem₁) :
    ∃ e, mem.slot table v = some e := by
  unfold mapBody at h
  obtain ⟨_, -, h⟩ := bind_eq_ok_iff.mp h
  obtain ⟨e, hread, -⟩ := bind_eq_ok_iff.mp h
  exact ⟨e, Memory.readEntry_eq_ok_iff.mp hread⟩

/-- The body of the loop on an entry that is not a leaf goes down into its table. -/
theorem mapBody_pointer_kept (hl : l + 1 ≤ 2) (ih : KeepsAt paging heap n₀ c l)
    (hown : OnlyOwn paging heap n₀ mem) (hv : v < 512) (halign : 4096 ∣ offset.toNat)
    (hoffset : offset.toNat + pageSize (l + 2) ≤ 2 ^ 57) (hslot : mem.slot table v = some e)
    (hptr : e.isLeaf = false) :
    Outcome (fun _ => True) (fun mem' => Kept paging heap n₀ mem mem' ∧
        (∃ e', mem.slot (paging.physToVirt e.address) (c.first l) = some e') ∧
        mem'.ValidAt (paging.physToVirt e.address) (c.first l))
      (mapBody paging heap c (l + 1) table offset (c.last (l + 1)) mem v) := by
  obtain ⟨halign', hoffset'⟩ := entryAddress_bounds (by omega) hv hoffset halign
  rw [mapBody_succ hslot (by omega) hv hoffset, hptr, Bool.false_and, if_neg (by simp), pure_bind]
  dsimp only
  cases htry : e.tryAsTable paging.physToVirt with
  | error f => trivial
  | ok o =>
    obtain ⟨-, rfl⟩ := Entry.tryAsTable_eq_ok hptr htry
    exact ih mem _ _ hown halign' hoffset'

/-- **One entry**: the body of the loop keeps valid entries, and makes its entry valid. -/
theorem mapBody_kept (hfresh : FreshPages paging heap n₀) (hc : c.Marks) (hl : l ≤ 2)
    (ih : ∀ l', l = l' + 1 → KeepsAt paging heap n₀ c l') (hown : OnlyOwn paging heap n₀ mem)
    (hv : v < 512) (halign : 4096 ∣ offset.toNat)
    (hoffset : offset.toNat + pageSize (l + 1) ≤ 2 ^ 57) (hslot : mem.slot table v = some e) :
    Outcome (fun _ => True)
      (fun mem' => Kept paging heap n₀ mem mem' ∧ mem'.ValidAt table v)
      (mapBody paging heap c l table offset (c.last l) mem v) := by
  obtain ⟨halign', -⟩ := entryAddress_bounds (by omega) hv hoffset halign
  -- Two of the branches write the entry of the call, which is valid.
  have hwrite : Outcome (fun _ => True)
      (fun mem' => Kept paging heap n₀ mem mem' ∧ mem'.ValidAt table v)
      (mem.writeEntry table v (c.newEntry (MapCall.entryAddress l offset v))) := by
    refine Outcome.of_eq_ok (Memory.writeEntry_eq_ok hslot _) (Kept.setSlot hown hslot ?_)
    rw [MapCall.getLsbD_newEntry hc.aligned halign' (by norm_num), hc.valid]
  cases l with
  | zero =>
    rw [mapBody, assertThat_eq_ok hv, Memory.readEntry_eq_ok hslot,
      (currentAddress_eq_ok (by norm_num) hv hoffset).1]
    exact hwrite
  | succ l =>
    cases hleaf : e.isLeaf with
    | false =>
      refine (mapBody_pointer_kept hl (ih l rfl) hown hv halign hoffset hslot hleaf).mono
        (fun _ h => h) fun mem' h => ⟨h.1, h.1.valid _ _ ⟨e, hslot, ?_⟩⟩
      exact getLsbD_zero_of_isLeaf_eq_false hleaf
    | true =>
      rw [mapBody_succ hslot (by omega) hv hoffset, hleaf, Bool.true_and]
      cases hsplits : c.splits (l + 1) v with
      | false =>
        rw [if_neg (by simp), pure_bind]
        dsimp only
        rw [Entry.tryAsTable_of_leaf hleaf]
        exact hwrite
      | true =>
        rw [if_pos rfl]
        -- the new table begins with an entry that the recursive call makes valid
        refine (Entry.split_added e _ _ heap mem).bind ?_
        rintro _ ⟨hcap, t, rfl⟩
        have hslot' : (mem.addTable (heap.page mem.allocated) t).slot table v = some e := by
          rw [Memory.slot_addTable, if_neg (hown.ne_page hfresh hcap hslot), hslot]
        obtain ⟨hptr, haddr, -⟩ := hfresh.pointer_facts hown.started hcap
        have hnull := hfresh.ne_null mem.allocated hown.started hcap
        rw [← haddr] at hnull
        dsimp only
        rw [Memory.writeEntry_eq_ok hslot', ok_bind, pure_bind, ← splitMemory,
          Entry.tryAsTable_of_pointer hptr hnull, haddr]
        refine (ih l rfl _ _ _ (hown.splitMemory hfresh hcap hslot) halign' ?_).mono (fun _ h => h)
          fun mem' h => Kept.of_splitMemory hfresh hown hcap hslot h.1 ?_
        · exact (entryAddress_bounds (by omega) hv hoffset halign).2
        · rw [← hc.first l (by omega)]
          exact h.2.2

/-- The loop at a level, when the recursive calls keep valid entries. -/
theorem keepsAt_of_below (hfresh : FreshPages paging heap n₀) (hc : c.Marks) (hl : l ≤ 2)
    (ih : ∀ l', l = l' + 1 → KeepsAt paging heap n₀ c l') : KeepsAt paging heap n₀ c l := by
  intro mem table offset hown halign hoffset
  have hfirst := c.first_le_last l
  have hlast := c.last_lt l
  rw [mapInternal_eq, MapCall.vpnEnd_eq_ok (by omega) (fun _ => hc.pos) hc.stop_lt, ok_bind,
    c.vpnStart_eight (by omega)]
  -- the first entry is there at the start, and valid once the loop has passed it
  let I : ℕ → Memory 8 → Prop := fun k s => Kept paging heap n₀ mem s ∧
    (c.first l = k → s = mem) ∧ (c.first l < k →
      (∃ e, mem.slot table (c.first l) = some e) ∧ s.ValidAt table (c.first l))
  have hstart : I (c.first l) mem :=
    ⟨Kept.refl hown, fun _ => rfl, fun h => absurd h (lt_irrefl _)⟩
  refine (Outcome.foldlM_range' I (fun k s hk hk' hI => ?_) hstart).mono (fun _ h => h)
    fun mem' hI => ⟨hI.1, hI.2.2 (by omega)⟩
  obtain ⟨hkept, hsame, hvalid⟩ := hI
  cases hbody : mapBody paging heap c l table offset (c.last l) s k with
  | error f => trivial
  | ok s' =>
    obtain ⟨e, hslot⟩ := exists_slot_of_mapBody hbody
    obtain ⟨hkept', hvalid'⟩ := (mapBody_kept hfresh hc hl ih hkept.own (by omega) halign hoffset
      hslot).post_of_eq_ok hbody
    refine ⟨hkept.trans hkept', fun h => by omega, fun _ => ?_⟩
    rcases hk.eq_or_lt with rfl | hlt
    · exact ⟨⟨e, hsame rfl ▸ hslot⟩, hvalid'⟩
    · exact (hvalid hlt).imp_right (hkept'.valid _ _)

/-- **A call keeps valid entries**, at every level. -/
theorem mapInternal_kept (hfresh : FreshPages paging heap n₀) (hc : c.Marks) (hl : l ≤ 2) :
    KeepsAt paging heap n₀ c l := by
  induction l with
  | zero => exact keepsAt_of_below hfresh hc hl nofun
  | succ l ih =>
    refine keepsAt_of_below hfresh hc hl fun l' hl' => ?_
    obtain rfl : l = l' := Nat.succ.inj hl'
    exact ih (by omega)

/-! ## The two calls on a stale root -/

theorem directCall_marks : (directCall.decanonical 3).Marks :=
  ⟨directCall_valid.aligned, directCall_valid.valid, by decide, by decide, by decide⟩

theorem kernelCall_marks {kernelPhysical : Usize} (h : 4096 ∣ kernelPhysical.toNat) :
    ((kernelCall kernelPhysical).decanonical 3).Marks := by
  obtain ⟨-, -, hfirst₁, -, hfirst₀, -⟩ := kernelCall_bounds kernelPhysical
  refine ⟨(kernelCall_valid h).aligned, (kernelCall_valid h).valid, ?_, ?_, fun l hl => ?_⟩
  · rw [kernelCall_stop]
    norm_num
  · rw [kernelCall_stop]
    norm_num
  · interval_cases l
    · exact hfirst₀
    · exact hfirst₁

/-- A call keeps valid entries. -/
theorem map_kept (hfresh : FreshPages paging heap n₀) (hc : (c.decanonical 3).Marks)
    (hown : OnlyOwn paging heap n₀ mem) (hmap : paging.map heap c mem = .ok mem₁) :
    Kept paging heap n₀ mem mem₁ := by
  rw [map_eq_mapInternal (by norm_num) (by norm_num) paging heap mem hc.aligned] at hmap
  exact ((mapInternal_kept hfresh hc le_rfl mem paging.table 0 hown (by simp)
    (by decide)).post_of_eq_ok hmap).1

/-- The first call when it has come to index `k`: until it meets a pointer, only the leaves before
the index have changed. -/
def DirectUpTo (paging : Sv39) (mem : Memory 8) (k : ℕ) (s : Memory 8) : Prop :=
  s.ValidAt paging.table 0 ∨
    (∀ v, 256 ≤ v → v < k → ∀ e, mem.slot paging.table v = some e → e.isLeaf = true) ∧
      ∀ a w, ¬ (a = paging.table ∧ w < k) → s.slot a w = mem.slot a w

/-- One entry of the first call. A pointer can only lead back to the root. -/
theorem DirectUpTo.step (hfresh : FreshPages paging heap n₀)
    (honly : ∀ a v e, mem.slot a v = some e → a = paging.table) {k : ℕ} (hk : k < 512)
    (hkept : Kept paging heap n₀ mem mem₁) (h : DirectUpTo paging mem k mem₁)
    (hbody : mapBody paging heap (directCall.decanonical 3) 2 paging.table 0
      ((directCall.decanonical 3).last 2) mem₁ k = .ok mem₂) :
    Kept paging heap n₀ mem mem₂ ∧ DirectUpTo paging mem (k + 1) mem₂ := by
  have hoffset : (0 : Usize).toNat + pageSize 3 ≤ 2 ^ 57 := by decide
  have hbelow : ∀ l', 2 = l' + 1 → KeepsAt paging heap n₀ (directCall.decanonical 3) l' :=
    fun l' hl' => mapInternal_kept hfresh directCall_marks (by omega)
  obtain ⟨e, hslot⟩ := exists_slot_of_mapBody hbody
  have hkept' := ((mapBody_kept hfresh directCall_marks le_rfl hbelow hkept.own hk (by simp)
    hoffset hslot).post_of_eq_ok hbody).1
  refine ⟨hkept.trans hkept', ?_⟩
  rcases h with hvalid | ⟨hleaves, hslots⟩
  · -- a pointer was met before, and the first entry stays valid
    exact Or.inl (hkept'.valid _ _ hvalid)
  · cases hleaf : e.isLeaf with
    | false =>
      obtain ⟨-, ⟨e', he'⟩, hvalid⟩ := (mapBody_pointer_kept le_rfl (hbelow 1 rfl) hkept.own
        hk (by simp) hoffset hslot hleaf).post_of_eq_ok hbody
      -- The call went down into a table that is there, and there is only the root.
      have hroot : paging.physToVirt e.address = paging.table := by
        by_contra hne
        rw [hslots _ _ fun h => hne h.1] at he'
        exact hne (honly _ _ _ he')
      rw [hroot, directCall_marks.first 1 (by norm_num)] at hvalid
      exact Or.inl hvalid
    | true =>
      -- a leaf is overwritten, and nothing else changes
      rw [mapBody_succ hslot (by norm_num) hk hoffset, hleaf, directCall_splits,
        Bool.and_false, if_neg (by simp), pure_bind] at hbody
      dsimp only at hbody
      rw [Entry.tryAsTable_of_leaf hleaf, ok_bind, Memory.writeEntry_eq_ok hslot] at hbody
      rw [← Except.ok.inj hbody]
      refine Or.inr ⟨fun v hlo hhi e' he' => ?_, fun a w haw => ?_⟩
      · rcases Nat.lt_succ_iff_lt_or_eq.mp hhi with hlt | rfl
        · exact hleaves v hlo hlt e' he'
        · rw [hslots _ _ (by omega), he'] at hslot
          rw [Option.some.inj hslot, hleaf]
      · rw [Memory.slot_setSlot hslot, if_neg fun h => haw ⟨h.1, by omega⟩,
          hslots a w fun h => haw ⟨h.1, by omega⟩]

/-- **The first call on a root that is the only table**: the upper half had leaves, or a pointer in
it led back to the root and the first entry is valid now. -/
theorem directCall_kept (hfresh : FreshPages paging heap n₀) (hown : OnlyOwn paging heap n₀ mem)
    (honly : ∀ a v e, mem.slot a v = some e → a = paging.table)
    (hmap : paging.map heap directCall mem = .ok mem₁) :
    mem₁.ValidAt paging.table 0 ∨
      ∀ v, 256 ≤ v → v < 512 → ∀ e, mem.slot paging.table v = some e → e.isLeaf = true := by
  have hfirst : (directCall.decanonical 3).first 2 = 256 := by decide
  have hlast : (directCall.decanonical 3).last 2 = 511 := by decide
  rw [map_eq_mapInternal (by norm_num) (by norm_num) paging heap mem directCall_marks.aligned,
    mapInternal_eq, MapCall.vpnEnd_eq_ok (by norm_num) (fun _ => directCall_marks.pos)
      directCall_marks.stop_lt, ok_bind, MapCall.vpnStart_eight _ (by norm_num),
    show 3 - 1 = 2 from rfl, hfirst, hlast] at hmap
  have hstart : DirectUpTo paging mem 256 mem := Or.inr ⟨fun v _ _ => by omega, fun _ _ _ => rfl⟩
  have hstep : ∀ k s, 256 ≤ k → k < 256 + (511 + 1 - 256) →
      Kept paging heap n₀ mem s ∧ DirectUpTo paging mem k s → Outcome (fun _ => True)
        (fun s' => Kept paging heap n₀ mem s' ∧ DirectUpTo paging mem (k + 1) s')
        (mapBody paging heap (directCall.decanonical 3) 2 paging.table 0 511 s k) := by
    intro k s _ hk hI
    cases hbody : mapBody paging heap (directCall.decanonical 3) 2 paging.table 0 511 s k with
    | error f => trivial
    | ok s' =>
      rw [← hlast] at hbody
      exact hI.2.step hfresh honly (by omega) hI.1 hbody
  exact ((Outcome.foldlM_range' _ hstep ⟨Kept.refl hown, hstart⟩).post_of_eq_ok hmap).2.imp_right
    fun h => h.1

/-! ## Lookups through valid entries -/

section Lookup

variable {levels i : ℕ} {physToVirt : Usize → Usize}

/-- `Invalid` comes from an invalid entry or from the table below. -/
theorem queryFrom_eq_invalid {va : Usize}
    (h : queryFrom levels physToVirt mem va i table = .ok (.error .invalid)) :
    ∃ e, mem.slot table (getVpnNumber va i 8) = some e ∧ (e.value.getLsbD 0 = false ∨ ∃ j,
      i = j + 1 ∧ queryFrom levels physToVirt mem va j (physToVirt e.address) =
        .ok (.error .invalid)) := by
  obtain ⟨e, hslot, ⟨hbit, -⟩ | ⟨-, -, hr⟩ | ⟨-, -, -, ⟨-, hr⟩ | hbelow⟩ | ⟨-, -, -, -, hr⟩⟩ :=
    queryFrom_cases h
  · exact ⟨e, hslot, Or.inl hbit⟩
  · cases hr
  · cases hr
  · exact ⟨e, hslot, Or.inr hbelow⟩
  · cases hr

/-- **A lookup through valid entries does not report `Invalid`**: when every table has a valid
entry, there are indices that lead from valid entry to valid entry, whatever these point to. -/
theorem exists_query_ne_invalid (levels : ℕ) (physToVirt : Usize → Usize) {pick : Usize → ℕ}
    (hpick : ∀ a, pick a < 512)
    (hvalid : ∀ a e, mem.slot a (pick a) = some e → e.value.getLsbD 0 = true) (hi : i ≤ 6)
    (table : Usize) :
    ∃ x : ℕ → ℕ, (∀ j, x j < 512) ∧ x i = pick table ∧ ∀ va : Usize,
      (∀ j ≤ i, vpn j va.toNat = x j) →
        queryFrom levels physToVirt mem va i table ≠ .ok (.error .invalid) := by
  induction i generalizing table with
  | zero =>
    refine ⟨fun _ => pick table, fun _ => hpick table, rfl, fun va hva h => ?_⟩
    obtain ⟨e, hslot, hbit | ⟨j, hj, -⟩⟩ := queryFrom_eq_invalid h
    · rw [getVpnNumber_eight hi, hva 0 le_rfl] at hslot
      rw [hvalid _ _ hslot] at hbit
      cases hbit
    · omega
  | succ i ih =>
    -- the indices below are those of the table that the picked entry points to
    obtain ⟨x, hx, -, hquery⟩ := ih (by omega)
      (physToVirt (((mem.slot table (pick table)).getD Entry.zeroed).address))
    refine ⟨Function.update x (i + 1) (pick table), fun j => ?_, Function.update_self ..,
      fun va hva h => ?_⟩
    · by_cases hj : j = i + 1
      · rw [hj, Function.update_self]
        exact hpick table
      · rw [Function.update_of_ne hj]
        exact hx j
    · obtain ⟨e, hslot, hcases⟩ := queryFrom_eq_invalid h
      rw [getVpnNumber_eight hi, hva (i + 1) le_rfl, Function.update_self] at hslot
      rcases hcases with hbit | ⟨j, hj, hbelow⟩
      · rw [hvalid _ _ hslot] at hbit
        cases hbit
      · obtain rfl : i = j := by omega
        rw [hslot] at hquery
        refine hquery va (fun j hj => ?_) hbelow
        rw [hva j (by omega), Function.update_of_ne (by omega)]

/-- An address with given page numbers. -/
theorem exists_vpn_eq {x : ℕ → ℕ} (hx : ∀ j, x j < 512) :
    ∃ va : Usize, ∀ j ≤ 2, vpn j va.toNat = x j := by
  have h₀ := hx 0
  have h₁ := hx 1
  have h₂ := hx 2
  refine ⟨BitVec.ofNat 64 (x 2 * 2 ^ 30 + x 1 * 2 ^ 21 + x 0 * 2 ^ 12), fun j hj => ?_⟩
  rw [BitVec.toNat_ofNat, Nat.mod_eq_of_lt (by omega), vpn]
  interval_cases j
  · rw [show pageSize 0 = 2 ^ 12 from rfl]
    omega
  · rw [show pageSize 1 = 2 ^ 21 from rfl]
    omega
  · rw [show pageSize 2 = 2 ^ 30 from rfl]
    omega

theorem lowerHalf_iff (va : ℕ) : va % 2 ^ 39 < 2 ^ 38 ↔ vpn 2 va < 256 := by
  rw [vpn, show pageSize 2 = 2 ^ 30 from rfl]
  omega

/-- With a valid entry in the lower half of the root, and in the other tables at index 0, a lookup
in the lower half does not report `Invalid`. -/
theorem exists_lowerHalf_query (hv : v < 256) (hroot : mem.ValidAt paging.table v)
    (hothers : ∀ a e, a ≠ paging.table → mem.slot a 0 = some e → e.value.getLsbD 0 = true) :
    ∃ va : Usize, va.toNat % 2 ^ 39 < 2 ^ 38 ∧ paging.query mem va ≠ .ok (.error .invalid) := by
  -- At the root the valid entry of the lower half, at every other table the first entry.
  let pick : Usize → ℕ := fun a => if a = paging.table then v else 0
  have hpick : ∀ a, pick a < 512 := by
    intro a
    dsimp only [pick]
    split <;> omega
  have hvalid : ∀ a e, mem.slot a (pick a) = some e → e.value.getLsbD 0 = true := by
    intro a e he
    by_cases ha : a = paging.table
    · obtain ⟨e', he', hbit⟩ := hroot
      rw [show pick a = v from if_pos ha, ha, he'] at he
      rwa [← Option.some.inj he]
    · rw [show pick a = 0 from if_neg ha] at he
      exact hothers a e ha he
  obtain ⟨x, hx, hx2, hne⟩ := exists_query_ne_invalid 3 paging.physToVirt hpick hvalid
    (show 2 ≤ 6 by norm_num) paging.table
  obtain ⟨va, hva⟩ := exists_vpn_eq hx
  refine ⟨va, (lowerHalf_iff _).mpr ?_, hne va hva⟩
  rw [hva 2 le_rfl, hx2, show pick paging.table = v from if_pos rfl]
  exact hv

end Lookup

/-! ## The address space of a hart -/

section Space

variable {physToVirt virtToPhys : Usize → Usize} {kernelPhysical : Usize}

/-- The paging scheme of a hart: its root is the next page of the allocator. -/
def hartSv39 (heap : Allocator 8) (physToVirt virtToPhys : Usize → Usize) (mem : Memory 8) : Sv39 :=
  ⟨heap.page mem.allocated, physToVirt, virtToPhys⟩

/-- The memory with the root table as the allocator hands it out. -/
def hartMemory (heap : Allocator 8) (mem : Memory 8) : Memory 8 :=
  mem.addTable (heap.page mem.allocated) (heap.stale mem.allocated)

theorem slot_hartMemory (v : ℕ) :
    (hartMemory heap mem).slot (hartSv39 heap physToVirt virtToPhys mem).table v =
      (heap.stale mem.allocated).entries[v]? := by
  rw [hartMemory, Memory.slot_addTable]
  exact if_pos rfl

theorem commonHartSpace_eq (hcap : mem.allocated < heap.capacity) :
    commonHartSpace heap physToVirt virtToPhys kernelPhysical mem = (do
      let mem' ← mapKernel (hartSv39 heap physToVirt virtToPhys mem) heap kernelPhysical
        (hartMemory heap mem)
      return (hartSv39 heap physToVirt virtToPhys mem, mem')) := by
  rw [commonHartSpace, Table.boxedZeroed, if_pos hcap]
  rfl

/-- What the allocator is relied on for does not include the contents of its pages. -/
theorem FreshPages.withStale (h : FreshPages (hartSv39 heap physToVirt virtToPhys mem) heap n₀)
    (stale : ℕ → Table 8) :
    FreshPages (hartSv39 { heap with stale } physToVirt virtToPhys mem) { heap with stale } n₀ :=
  ⟨h.started, h.injective, h.ne_root, h.ne_null, h.inverse, h.aligned, h.phys_ne_zero, h.phys_lt⟩

/-- **The address space over a clean root table.** -/
theorem commonHartSpace_query
    (hfresh : FreshPages (hartSv39 heap physToVirt virtToPhys mem) heap (mem.allocated + 1))
    (hroom : mem.allocated + 3 ≤ heap.capacity) (halign : 4096 ∣ kernelPhysical.toNat)
    (hclean : CleanRoot (heap.stale mem.allocated)) :
    ∃ r, commonHartSpace heap physToVirt virtToPhys kernelPhysical mem = .ok r ∧
      ∀ va : Usize, r.1.query r.2 va = if vpn 2 va.toNat < 256 then .ok (.error .invalid)
        else leafResult 3 va ((kernelEntries kernelPhysical (vpn 2 va.toNat)).leafAt va.toNat) := by
  have hentry : ∀ v < 512, ∃ e, (heap.stale mem.allocated).entries[v]? = some e := fun v hv =>
    ⟨_, Vector.getElem?_eq_getElem hv⟩
  have hroot : LeafRoot (hartSv39 heap physToVirt virtToPhys mem) (hartMemory heap mem) := by
    intro v hlo hhi
    obtain ⟨e, he⟩ := hentry v hhi
    exact ⟨e, by rw [slot_hartMemory, he], hclean.upper v hlo e he⟩
  obtain ⟨mem', hmap, hrep, hslots⟩ := mapKernel_outcome hfresh (show _ ≤ _ from hroom)
    halign hroot
  refine ⟨(_, mem'), by rw [commonHartSpace_eq (by omega), hmap]; rfl, fun va => ?_⟩
  dsimp only
  -- The lower half is as it was handed out, and the upper half is the tree of the two calls.
  by_cases hva : vpn 2 va.toNat < 256
  · obtain ⟨e, he⟩ := hentry (vpn 2 va.toNat) (by omega)
    rw [if_pos hva]
    have hslot : mem'.slot (hartSv39 heap physToVirt virtToPhys mem).table
        (getVpnNumber va 2 8) = some e := by
      rw [getVpnNumber_eight (by norm_num), hslots _ hva, slot_hartMemory, he]
    exact queryFrom_invalid hslot (hclean.lower _ hva e he)
  · rw [if_neg hva]
    exact hrep.query_eq hfresh (by norm_num) ⟨not_lt.mp hva, vpn_lt _ _⟩

/-- **A hart whose lower half is not mapped has a clean root table**, when there is no other table
that a stale entry could point to. -/
theorem cleanRoot_of_query
    (hfresh : FreshPages (hartSv39 heap physToVirt virtToPhys mem) heap (mem.allocated + 1))
    (hcap : mem.allocated < heap.capacity) (halign : 4096 ∣ kernelPhysical.toNat)
    (hempty : ∀ a, mem.tables a = none) {r : Sv39 × Memory 8}
    (hspace : commonHartSpace heap physToVirt virtToPhys kernelPhysical mem = .ok r)
    (hquery : ∀ va : Usize, va.toNat % 2 ^ 39 < 2 ^ 38 → r.1.query r.2 va = .ok (.error .invalid)) :
    CleanRoot (heap.stale mem.allocated) := by
  set paging := hartSv39 heap physToVirt virtToPhys mem with hpaging
  rw [commonHartSpace_eq hcap] at hspace
  obtain ⟨mem₂, hmap, hr⟩ := bind_eq_ok_iff.mp hspace
  obtain ⟨mem₁, hdirect, hkernel⟩ := bind_eq_ok_iff.mp hmap
  obtain rfl : (paging, mem₂) = r := Except.ok.inj hr
  -- The root is the only table, so a stale pointer leads back to it or faults.
  have honly : ∀ a v e, (hartMemory heap mem).slot a v = some e → a = paging.table := by
    intro a v e he
    by_contra hne
    rw [hartMemory, Memory.slot_addTable, if_neg (show ¬ a = heap.page mem.allocated from hne),
      Memory.slot, hempty a] at he
    cases he
  have hown : OnlyOwn paging heap (mem.allocated + 1) (hartMemory heap mem) :=
    ⟨le_rfl, fun a v e he => Or.inl (honly a v e he)⟩
  have hkept₁ := map_kept hfresh directCall_marks hown hdirect
  have hkept₂ := map_kept hfresh (kernelCall_marks halign) hkept₁.own hkernel
  have hkept := hkept₁.trans hkept₂
  -- a valid entry of the lower half at the end would lead a lookup through valid entries
  have hinvalid : ∀ v < 256, ¬ mem₂.ValidAt paging.table v := by
    intro v hv hvalid
    obtain ⟨va, hlower, hne⟩ := exists_lowerHalf_query hv hvalid fun a e ha he => by
      rcases hkept.new _ _ _ he with ⟨e', he'⟩ | ⟨e', he', hbit⟩
      · exact absurd (honly _ _ _ he') ha
      · rw [he] at he'
        rwa [Option.some.inj he']
    exact hne (hquery va hlower)
  refine ⟨fun v hv e he => ?_, fun v hv e he => ?_⟩
  · by_contra hbit
    refine hinvalid v hv (hkept.valid _ _ ⟨e, ?_, by simpa using hbit⟩)
    rw [hpaging, slot_hartMemory, he]
  · have hv' : v < 512 := (Vector.getElem?_eq_some_iff.mp he).1
    -- a pointer in the upper half would have made the first entry valid
    rcases directCall_kept hfresh hown honly hdirect with hvalid | hleaves
    · exact absurd (hkept₂.valid _ _ hvalid) (hinvalid 0 (by norm_num))
    · exact hleaves v hv hv' e (by rw [hpaging, slot_hartMemory, he])

/-- **When the address space does not depend on stale contents**: it does not when both contents of
the root table are clean, and, unless stale entries can point to other tables, only then. -/
theorem staleIndependent_of_cleanRoot
    (hfresh : FreshPages (hartSv39 heap physToVirt virtToPhys mem) heap (mem.allocated + 1))
    (hroom : mem.allocated + 3 ≤ heap.capacity) (halign : 4096 ∣ kernelPhysical.toNat)
    (stale₁ stale₂ : ℕ → Table 8) :
    (CleanRoot (stale₁ mem.allocated) ∧ CleanRoot (stale₂ mem.allocated) →
      StaleIndependent heap physToVirt virtToPhys kernelPhysical mem stale₁ stale₂) ∧
    ((∀ a, mem.tables a = none) →
      StaleIndependent heap physToVirt virtToPhys kernelPhysical mem stale₁ stale₂ →
        CleanRoot (stale₁ mem.allocated) ∧ CleanRoot (stale₂ mem.allocated)) := by
  refine ⟨fun ⟨hclean₁, hclean₂⟩ => ?_, fun hempty ⟨r₁, r₂, hspace₁, hspace₂, hsame, hlower⟩ => ?_⟩
  · obtain ⟨r₁, hspace₁, hquery₁⟩ := commonHartSpace_query (hfresh.withStale stale₁) hroom halign
      hclean₁
    obtain ⟨r₂, hspace₂, hquery₂⟩ := commonHartSpace_query (hfresh.withStale stale₂) hroom halign
      hclean₂
    refine ⟨r₁, r₂, hspace₁, hspace₂, fun va => by rw [hquery₁, hquery₂], fun va hva => ?_⟩
    rw [hquery₁, if_pos ((lowerHalf_iff _).mp hva)]
  · have hcap : mem.allocated < heap.capacity := by omega
    refine ⟨cleanRoot_of_query (hfresh.withStale stale₁) hcap halign hempty hspace₁ hlower,
      cleanRoot_of_query (hfresh.withStale stale₂) hcap halign hempty hspace₂ fun va hva => ?_⟩
    rw [← hsame, hlower va hva]

end Space

/-! ## Two prior contents on the identity machine -/

/-- A memory without tables. -/
def emptyMemory : Memory 8 := ⟨fun _ => none, 0⟩

/-- A page whose entries are all the same. -/
def uniformTable (e : Entry) : Table 8 := ⟨Vector.replicate (4096 / 8) e⟩

theorem uniformTable_eq_some {e e' : Entry} {v : ℕ}
    (h : (uniformTable e).entries[v]? = some e') : e' = e := by
  obtain ⟨hv, rfl⟩ := Vector.getElem?_eq_some_iff.mp h
  exact Vector.getElem_replicate hv

/-- The pages after the root of a hart are fresh for it. -/
theorem identity_hartFresh :
    FreshPages (hartSv39 identityHeap id id emptyMemory) identityHeap
      (emptyMemory.allocated + 1) where
  started := by decide
  injective := fun m n _ _ => identity_fresh.injective m n (Nat.zero_le _) (Nat.zero_le _)
  ne_root := fun n hn hcap heq => by
    have := identity_fresh.injective n 0 (Nat.zero_le _) le_rfl hcap (by decide) heq
    have : 0 + 1 ≤ n := hn
    omega
  ne_null := fun n _ => identity_fresh.ne_null n (Nat.zero_le _)
  inverse := fun n _ => identity_fresh.inverse n (Nat.zero_le _)
  aligned := fun n _ => identity_fresh.aligned n (Nat.zero_le _)
  phys_ne_zero := fun n _ => identity_fresh.phys_ne_zero n (Nat.zero_le _)
  phys_lt := fun n _ => identity_fresh.phys_lt n (Nat.zero_le _)

/-- A page of zeroes and a page of readable but invalid entries. -/
theorem staleIndependent_of_cleanRoot_identity :
    StaleIndependent identityHeap id id 0x80200000 emptyMemory (fun _ => uniformTable ⟨0⟩)
      (fun _ => uniformTable ⟨2⟩) := by
  refine (staleIndependent_of_cleanRoot identity_hartFresh (by decide) (by decide) _ _).1 ⟨?_, ?_⟩
  · refine ⟨fun v _ e he => ?_, fun v _ e he => ?_⟩ <;> rw [uniformTable_eq_some he] <;> decide
  · refine ⟨fun v _ e he => ?_, fun v _ e he => ?_⟩ <;> rw [uniformTable_eq_some he] <;> decide

/-- A page of zeroes and a page of valid leaves. -/
theorem not_staleIndependent_leaves :
    ¬ StaleIndependent identityHeap id id 0x80200000 emptyMemory (fun _ => uniformTable ⟨0⟩)
      (fun _ => uniformTable ⟨0xf⟩) := by
  rintro ⟨r₁, r₂, -, hspace₂, hsame, hlower⟩
  have hclean := cleanRoot_of_query (identity_hartFresh.withStale _) (by decide) (by decide)
    (fun _ => rfl) hspace₂ fun va hva => by rw [← hsame, hlower va hva]
  have hbit := hclean.lower 0 (by norm_num) ⟨0xf⟩ (by simp [uniformTable])
  exact absurd hbit (by decide)

end AsyncKernel
