import AsyncKernel.Paging.Shape

/-!
# A call that is repeated

`map` twice with the same arguments. On trees the second call finds in the place of every entry that
it comes to what the first one has left there, a leaf with the same value or a table, and neither
branch of the first call makes the second one take another. In memory a call that does not change
the tree writes every entry as it is and splits none.

## Main definitions

* `FixesAt`: a call that does not change the entries of a tree does not change the memory

## Main results

* `MapCall.mapEntries_mapEntries`: the second call on trees
* `mapInternal_fixed`: the second call in memory, by induction on the level
* `map_idempotent`: a repeated call returns and changes nothing
-/

namespace AsyncKernel

variable {levels : ℕ} {l : ℕ} {c : MapCall}

/-! ## The second call on trees -/

namespace MapCall

theorem mapEntries_mapEntries_of {offset : Usize} (entries : ℕ → PageNode l)
    (h : ∀ (w : ℕ) (address : Usize) (node : PageNode l),
      c.mapNode l address w (c.mapNode l address w node) = c.mapNode l address w node) :
    c.mapEntries l offset (c.mapEntries l offset entries) = c.mapEntries l offset entries := by
  funext w
  unfold mapEntries
  by_cases hw : c.Visits l w
  · simp only [if_pos hw, h]
  · simp only [if_neg hw]

/-- An entry that has been mapped: a table stays one, and a leaf is not split. -/
theorem mapNode_mapNode (v : ℕ) (address : Usize) (node : PageNode l) :
    c.mapNode l address v (c.mapNode l address v node) = c.mapNode l address v node := by
  induction l generalizing v address with
  | zero => rfl
  | succ l ih =>
    cases node with
    | table entries => rw [mapNode_table, mapNode_table, mapEntries_mapEntries_of _ ih]
    | leaf e =>
      cases hsplits : c.splits (l + 1) v with
      | false => rw [mapNode_leaf hsplits, mapNode_leaf hsplits]
      | true => rw [mapNode_split hsplits, mapNode_table, mapEntries_mapEntries_of _ ih]

theorem mapEntries_mapEntries (offset : Usize) (entries : ℕ → PageNode l) :
    c.mapEntries l offset (c.mapEntries l offset entries) = c.mapEntries l offset entries :=
  mapEntries_mapEntries_of entries mapNode_mapNode

end MapCall

/-! ## The second call in memory -/

section Fixed

variable {paging : GenericPaging levels 8} {heap : Allocator 8} {n₀ : ℕ} {mem : Memory 8}
  {table offset : Usize} {v : ℕ} {e : Entry} {pages : Set ℕ}

/-- A call that does not change the entries of the tree at a level does not change the memory. -/
def FixesAt (paging : GenericPaging levels 8) (heap : Allocator 8) (n₀ : ℕ) (c : MapCall)
    (l : ℕ) : Prop :=
  ∀ (mem : Memory 8) (table offset : Usize) (D : Set ℕ) (entries : ℕ → PageNode l)
    (below : ℕ → Set ℕ), TableRep paging.virtToPhys heap mem D table entries below →
    (∀ v, c.Visits l v → v ∈ D) → (∀ v, Owned heap n₀ (below v)) →
    c.mapEntries l offset entries = entries → 4096 ∣ offset.toNat →
    offset.toNat + pageSize (l + 1) ≤ 2 ^ 57 →
    mapInternal paging.physToVirt paging.virtToPhys heap c l table offset mem = .ok mem

/-- **One entry**: the body of the loop leaves the memory as it is when it leaves the node. -/
theorem mapBody_fixed (hfresh : FreshPages paging heap n₀) (hl : l ≤ 4)
    (ih : ∀ l', l = l' + 1 → FixesAt paging heap n₀ c l') {node : PageNode l}
    (hslot : mem.slot table v = some e) (hrep : node.Rep paging.virtToPhys heap mem e pages)
    (howned : Owned heap n₀ pages) (hv : v < 512) (halign : 4096 ∣ offset.toNat)
    (hoffset : offset.toNat + pageSize (l + 1) ≤ 2 ^ 57)
    (hfixed : c.mapNode l (MapCall.entryAddress l offset v) v node = node) :
    mapBody paging heap c l table offset (c.last l) mem v = .ok mem := by
  cases l with
  | zero =>
    cases node with
    | leaf e' =>
      obtain ⟨rfl, -⟩ := hrep.leaf_facts
      rw [MapCall.mapNode_zero] at hfixed
      rw [mapBody, assertThat_eq_ok hv, Memory.readEntry_eq_ok hslot,
        (currentAddress_eq_ok (by norm_num) hv hoffset).1]
      show mem.writeEntry table v _ = _
      rw [PageNode.leaf.inj hfixed, Memory.writeEntry_eq_ok hslot, Memory.setSlot_eq_self hslot]
  | succ l =>
    rw [mapBody_succ hslot hl hv hoffset]
    cases node with
    | table entries =>
      obtain ⟨n, below, rfl, rfl, -, hn, hncap, hptr, haddr, hnull, -, htable⟩ :=
        hrep.table_facts hfresh howned
      obtain ⟨halign', hoffset'⟩ := entryAddress_bounds hl hv hoffset halign
      rw [MapCall.mapNode_table] at hfixed
      rw [hptr, Bool.false_and, if_neg (by simp), pure_bind]
      dsimp only
      rw [Entry.tryAsTable_of_pointer hptr hnull, haddr]
      exact ih l rfl mem _ _ _ entries below htable (fun w hw => hw.lt)
        (fun w m hm => howned m (Set.mem_insert_of_mem _ (Set.mem_iUnion.mpr ⟨w, hm⟩)))
        (PageNode.table.inj hfixed) halign' hoffset'
    | leaf e' =>
      obtain ⟨rfl, -, hleaf, -⟩ := hrep.leaf_facts
      cases hsplits : c.splits (l + 1) v with
      | true =>
        -- a split would have made a table of the leaf
        rw [MapCall.mapNode_split hsplits] at hfixed
        cases hfixed
      | false =>
        rw [MapCall.mapNode_leaf hsplits] at hfixed
        rw [Bool.and_false, if_neg (by simp), pure_bind]
        dsimp only
        rw [Entry.tryAsTable_of_leaf hleaf]
        show mem.writeEntry table v _ = _
        rw [PageNode.leaf.inj hfixed, Memory.writeEntry_eq_ok hslot, Memory.setSlot_eq_self hslot]

/-- The loop at a level, when the recursive calls leave the memory as it is. -/
theorem fixesAt_of_below (hfresh : FreshPages paging heap n₀) (hpos : l ≠ 0 → 0 < c.stop)
    (hstop : c.stop < 2 ^ 64) (hl : l ≤ 4)
    (ih : ∀ l', l = l' + 1 → FixesAt paging heap n₀ c l') : FixesAt paging heap n₀ c l := by
  intro mem table offset D entries below htable hvisits howned hfixed halign hoffset
  rw [mapInternal_eq, MapCall.vpnEnd_eq_ok (by omega) hpos hstop, ok_bind,
    c.vpnStart_eight (by omega)]
  refine foldlM_eq_ok_self fun v hv => ?_
  have hvisit : c.Visits l v := by
    have hrange := List.mem_range'_1.mp hv
    exact ⟨hrange.1, by omega⟩
  obtain ⟨e, hslot, hrep⟩ := htable.slot v (hvisits v hvisit)
  have hnode := congrFun hfixed v
  rw [MapCall.mapEntries, if_pos hvisit] at hnode
  exact mapBody_fixed hfresh hl ih hslot hrep (howned v) hvisit.lt halign hoffset hnode

/-- **A call that does not change the tree does not change the memory**, at every level. -/
theorem mapInternal_fixed (hfresh : FreshPages paging heap n₀) (hpos : l ≠ 0 → 0 < c.stop)
    (hstop : c.stop < 2 ^ 64) (hl : l ≤ 4) : FixesAt paging heap n₀ c l := by
  induction l with
  | zero => exact fixesAt_of_below hfresh hpos hstop hl nofun
  | succ l ih =>
    refine fixesAt_of_below hfresh hpos hstop hl fun l' hl' => ?_
    obtain rfl : l = l' := Nat.succ.inj hl'
    exact ih (fun _ => hpos (Nat.succ_ne_zero l)) (by omega)

end Fixed

/-! ## Runs -/

section Run

variable {paging : GenericPaging levels 8} {heap : Allocator 8} {mem₀ mem mem' : Memory 8}

/-- **`map` is idempotent**: in every state of a run, a call that returns can be repeated; it then
returns, and leaves the number of pages and every entry of every table as they are. -/
theorem map_idempotent (hlo : 1 ≤ levels) (hhi : levels ≤ 6)
    (hfresh : FreshPages paging heap mem₀.allocated) (hzero : ZeroRoot paging mem₀)
    (h : Reachable paging heap LeafCall mem₀ mem) (hc : LeafCall mem c)
    (hmap : paging.map heap c mem = .ok mem') : paging.map heap c mem' = .ok mem' := by
  have hlevels : levels ≤ 5 := by
    by_contra hsix
    obtain rfl : levels = 6 := by omega
    rw [GenericPaging.map, decanonicalizeAddress_six] at hmap
    cases hmap
  obtain ⟨entries, hrep⟩ := Reachable.represents hfresh hlo hhi hzero (h.mono fun mem c hc =>
    hc.leafFlags)
  obtain ⟨haligned, hpos, hstop⟩ := aligned_of_map_eq_ok hlo hlevels hmap
  -- What the first call has done to the tree, the second one would do again.
  obtain ⟨hrep', -, -⟩ := (map_outcome hfresh hlo hlevels hrep ⟨haligned, hc.leafFlags, hstop⟩ hpos
    fun v hv => hv.lt).post_of_eq_ok hmap
  obtain ⟨below, htable, hunion⟩ := hrep'.rep
  have hsize : pageSize (levels - 1 + 1) ≤ 2 ^ 57 := pageSize_le (j := 5) (by omega)
  rw [map_eq_mapInternal hlo hlevels paging heap mem' haligned]
  exact mapInternal_fixed hfresh (fun h1 => hpos (by omega)) hstop (by omega) mem' paging.table 0
    (Set.Iio 512) _ below htable (fun v hv => hv.lt) (hrep'.owned hunion)
    (MapCall.mapEntries_mapEntries 0 entries) (by simp) (by simpa using hsize)

/-- One page, mapped twice. -/
theorem map_idempotent_page : ∃ mem, identitySv39.map identityHeap pageCall zeroMemory = .ok mem ∧
    identitySv39.map identityHeap pageCall mem = .ok mem := by
  obtain ⟨mem, hmap⟩ := pageCall_valid.map_returns identity_fresh zeroMemory_represents (by decide)
    (zeroMemory_map_ne pageCall_valid (by decide))
  exact ⟨mem, hmap, map_idempotent (by norm_num) (by norm_num) identity_fresh zeroMemory_zeroRoot
    Reachable.refl ⟨by decide, by decide⟩ hmap⟩

end Run

end AsyncKernel
