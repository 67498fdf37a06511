import AsyncKernel.Paging.Run

/-!
# Address spaces that share memory

Every hart builds page tables of its own, with pages from one allocator. A call of `map` writes to
the tables below its own root, so an address space is what its own calls have made of it, wherever
the calls for other address spaces stand in between and whatever pages these have taken.

## Main definitions

* `mapSpaces`: calls of `map` for several address spaces, one after the other
* `ownCalls`: the calls for one of them
* `Apart`: every address space represents a tree, with tables that it shares with no other

## Main results

* `Apart.map_outcome`: a call changes the tree of its own address space only
* `query_isolated`: an address space answers as if it were alone
-/

namespace AsyncKernel

open Bits

variable {ι : Type} {levels : ℕ}

/-- Calls of `map`, each for one of the address spaces. -/
def mapSpaces (spaces : ι → GenericPaging levels 8) (heap : Allocator 8) (calls : List (ι × MapCall))
    (mem : Memory 8) : Except Fault (Memory 8) :=
  calls.foldlM (fun mem call => (spaces call.1).map heap call.2 mem) mem

/-- The calls for one address space. -/
def ownCalls [DecidableEq ι] (i : ι) (calls : List (ι × MapCall)) : List (ι × MapCall) :=
  calls.filter fun call => call.1 = i

/-- What the address spaces rely on: each of them is given fresh pages, and they have different root
tables. -/
structure Separate (spaces : ι → GenericPaging levels 8) (heap : Allocator 8) (n₀ : ℕ) : Prop where
  fresh : ∀ i, FreshPages (spaces i) heap n₀
  roots : ∀ i j, (spaces i).table = (spaces j).table → i = j

/-- **Every address space represents a tree**, whose tables are pages allocated since page `n₀` that
no other address space has. -/
structure Apart (spaces : ι → GenericPaging levels 8) (heap : Allocator 8) (n₀ : ℕ)
    (mem : Memory 8) (entries : ι → ℕ → PageNode (levels - 1)) : Prop where
  started : n₀ ≤ mem.allocated
  capacity : mem.allocated ≤ heap.capacity
  rep : ∃ below : ι → ℕ → Set ℕ,
    (∀ i, TableRep (spaces i).virtToPhys heap mem (Set.Iio 512) (spaces i).table (entries i)
      (below i)) ∧
    (∀ i, (⋃ v, below i v) ⊆ Set.Ico n₀ mem.allocated) ∧
    ∀ i j n, n ∈ (⋃ v, below i v) → n ∈ (⋃ v, below j v) → i = j

section Apart

variable {spaces : ι → GenericPaging levels 8} {heap : Allocator 8} {n₀ : ℕ} {mem mem' : Memory 8}
  {entries : ι → ℕ → PageNode (levels - 1)} {c : MapCall} {i : ι}

/-- The lookup in an address space is the lookup in its tree. -/
theorem Apart.query_eq (hseparate : Separate spaces heap n₀)
    (h : Apart spaces heap n₀ mem entries) (hhi : levels ≤ 6) (i : ι) (va : Usize) :
    (spaces i).query mem va =
      leafResult levels va ((entries i (vpn (levels - 1) va.toNat)).leafAt va.toNat) := by
  obtain ⟨below, hrep, hpages, -⟩ := h.rep
  refine (hrep i).queryFrom_eq (hseparate.fresh i) (fun v n hn => ?_) (by omega) (vpn_lt _ _)
  obtain ⟨hlo, hlt⟩ := hpages i (Set.mem_iUnion.mpr ⟨v, hn⟩)
  exact ⟨hlo, lt_of_lt_of_le hlt h.capacity⟩

/-- The pages of an address space that is not called stay as they are. -/
theorem tableRep_frame {virtToPhys : Usize → Usize} {table : Usize} {D : Set ℕ} {l : ℕ}
    {entries : ℕ → PageNode l} {below : ℕ → Set ℕ}
    (h : TableRep virtToPhys heap mem D table entries below)
    (htable : ∀ v, mem'.slot table v = mem.slot table v)
    (hpages : ∀ n ∈ (⋃ v, below v), ∀ v, mem'.slot (heap.page n) v = mem.slot (heap.page n) v) :
    TableRep virtToPhys heap mem' D table entries below := by
  refine ⟨fun v hv => ?_, h.empty, h.disjoint⟩
  obtain ⟨e, hslot, hrep⟩ := h.slot v hv
  refine ⟨e, (htable v).trans hslot, hrep.frame fun n hn => hpages n ?_⟩
  exact Set.mem_iUnion.mpr ⟨v, hn⟩

/-- **A call changes the tree of its own address space only.** It fails only without memory. -/
theorem Apart.map_outcome [DecidableEq ι] (hseparate : Separate spaces heap n₀) (hlo : 1 ≤ levels)
    (hhi : levels ≤ 5) (h : Apart spaces heap n₀ mem entries) (i : ι)
    (hc : (c.decanonical levels).Runs)
    (hpos : levels ≠ 1 → 0 < (c.decanonical levels).stop) :
    Outcome (OutOfMemory heap mem ((c.decanonical levels).newTables (levels - 1) (entries i)))
      (fun mem' => Apart spaces heap n₀ mem' (Function.update entries i
          ((c.decanonical levels).mapEntries (levels - 1) 0 (entries i))) ∧
        mem'.allocated =
          mem.allocated + (c.decanonical levels).newTables (levels - 1) (entries i))
      ((spaces i).map heap c mem) := by
  obtain ⟨below, hrep, hpages, hdisjoint⟩ := h.rep
  have hfresh := hseparate.fresh i
  -- The root table is none of the pages of the allocator.
  have hout : Outside heap n₀ mem (spaces i).table (⋃ v, below i v) := fun m hm hmcap heq =>
    absurd heq.symm (hfresh.ne_root m hm hmcap)
  have hsize : pageSize (levels - 1 + 1) ≤ 2 ^ 57 := pageSize_le (j := 5) (by omega)
  rw [map_eq_mapInternal hlo hhi (spaces i) heap mem hc.aligned]
  refine (mapInternal_outcome hfresh hc (fun h1 => hpos (by omega)) (by omega) mem
    (spaces i).table 0 (Set.Iio 512) (entries i) (below i) (hrep i) (fun v hv => hv.lt) (hpages i)
    hout h.started h.capacity (by simp) (by simpa using hsize)).mono (fun _ h => h) ?_
  intro mem' hmapped
  obtain ⟨below', hrep', hunion'⟩ := hmapped.rep
  have hle := hmapped.allocated
  have hcap := hmapped.capacity
  have hstarted := h.started
  have hnew : (⋃ v, below' v) ⊆ Set.Ico n₀ mem'.allocated := by
    rw [hunion']
    rintro n (hn | ⟨hn, hn'⟩)
    · obtain ⟨hn, hn'⟩ := hpages i hn
      exact ⟨hn, by omega⟩
    · exact ⟨by omega, hn'⟩
  -- A page of another address space is no page of this one, old or new.
  have hother : ∀ j, j ≠ i → ∀ n ∈ (⋃ v, below j v), n ∉ (⋃ v, below' v) := by
    intro j hji n hn hn'
    rw [hunion'] at hn'
    rcases hn' with hn' | ⟨hn', -⟩
    · exact hji (hdisjoint j i n hn hn')
    · have := (hpages j hn).2
      omega
  have hkept : ∀ j, j ≠ i → TableRep (spaces j).virtToPhys heap mem' (Set.Iio 512)
      (spaces j).table (entries j) (below j) := by
    intro j hji
    refine tableRep_frame (hrep j) (fun v => hmapped.frame _ v (fun hv => ?_) fun n hn heq => ?_)
      fun n hn v => hmapped.frame _ v (fun hv => ?_) fun m hm heq => ?_
    · exact hji (hseparate.roots j i hv.1)
    · obtain ⟨hn, hn'⟩ := hnew (hunion' ▸ hn)
      exact (hseparate.fresh j).ne_root n hn (by omega) heq.symm
    · obtain ⟨hn, hn'⟩ := hpages j hn
      exact hfresh.ne_root n hn (by omega) hv.1
    · have hm' := hunion' ▸ hm
      obtain ⟨hlo, hlt⟩ := hpages j hn
      obtain ⟨hlo', hlt'⟩ := hnew hm'
      obtain rfl := hfresh.injective n m hlo hlo' (by omega) (by omega) heq
      exact hother j hji n hn hm'
  refine ⟨⟨by omega, hcap, Function.update below i below', fun j => ?_, fun j => ?_, ?_⟩, hle⟩
  · by_cases hji : j = i
    · subst hji
      rw [Function.update_self, Function.update_self]
      exact hrep'
    · rw [Function.update_of_ne hji, Function.update_of_ne hji]
      exact hkept j hji
  · by_cases hji : j = i
    · subst hji
      rw [Function.update_self]
      exact hnew
    · rw [Function.update_of_ne hji]
      intro n hn
      obtain ⟨hn, hn'⟩ := hpages j hn
      exact ⟨hn, by omega⟩
  · intro j k n hj hk
    by_cases hji : j = i <;> by_cases hki : k = i
    · rw [hji, hki]
    · subst hji
      rw [Function.update_self] at hj
      rw [Function.update_of_ne hki] at hk
      exact absurd hj (hother k hki n hk)
    · subst hki
      rw [Function.update_self] at hk
      rw [Function.update_of_ne hji] at hj
      exact absurd hk (hother j hji n hj)
    · rw [Function.update_of_ne hji] at hj
      rw [Function.update_of_ne hki] at hk
      exact hdisjoint j k n hj hk

/-- Zeroed root tables are apart. -/
theorem apart_zeroed (hhi : levels ≤ 5) (hzero : ∀ i, ZeroRoot (spaces i) mem)
    (hcap : mem.allocated ≤ heap.capacity) :
    Apart spaces heap mem.allocated mem fun _ _ => .leaf Entry.zeroed := by
  refine ⟨le_rfl, hcap, fun _ _ => ∅, fun j => ?_, fun j => by simp, fun j k n hn => by simp at hn⟩
  obtain ⟨below, hrep, hunion⟩ := (represents_zeroed (by omega)
    (fun v (hv : v ∈ Set.Iio 512) => (hzero j).slot hv) hcap).rep
  obtain rfl : below = fun _ => ∅ := by
    funext v
    rw [Set.Ico_self, Set.iUnion_eq_empty] at hunion
    exact hunion v
  exact hrep

end Apart

/-! ## Runs -/

section Runs

variable [DecidableEq ι] {spaces : ι → GenericPaging levels 8} {heap : Allocator 8} {n₀ : ℕ}
  {mem mem' : Memory 8} {entries : ι → ℕ → PageNode (levels - 1)} {i : ι}

/-- One address space in the memory that all share, and alone in a memory of its own: the same tree,
with no more pages. -/
structure Alone (spaces : ι → GenericPaging levels 8) (heap : Allocator 8) (n₀ : ℕ) (i : ι)
    (mem mem' : Memory 8) (entries : ι → ℕ → PageNode (levels - 1)) : Prop where
  apart : Apart spaces heap n₀ mem entries
  represents : Represents (spaces i) heap n₀ (Set.Iio 512) mem' (entries i)
  allocated : mem'.allocated ≤ mem.allocated

/-- **A call in the shared memory is followed by the address space alone**, if it is its own. -/
theorem Alone.step (hseparate : Separate spaces heap n₀) (hlo : 1 ≤ levels) (hhi : levels ≤ 5)
    (h : Alone spaces heap n₀ i mem mem' entries) {call : ι × MapCall}
    (hflags : leafBits call.2.flags = true) {mem₁ : Memory 8}
    (hmap : (spaces call.1).map heap call.2 mem = .ok mem₁) :
    ∃ mem₁' entries₁, mapSpaces spaces heap (ownCalls i [call]) mem' = .ok mem₁' ∧
      Alone spaces heap n₀ i mem₁ mem₁' entries₁ := by
  obtain ⟨j, c⟩ := call
  dsimp only at hflags hmap
  obtain ⟨haligned, hpos, hlt⟩ := aligned_of_map_eq_ok hlo hhi hmap
  obtain ⟨hapart, hallocated⟩ := (h.apart.map_outcome hseparate hlo hhi j
    ⟨haligned, hflags, hlt⟩ hpos).post_of_eq_ok hmap
  have hcapacity := hapart.capacity
  have hless := h.allocated
  by_cases hji : j = i
  · subst hji
    -- Alone it needs the same number of new tables, and has used no more pages.
    obtain ⟨mem₁', hmap', hrepresents, hallocated', -⟩ :=
      (AsyncKernel.map_outcome (hseparate.fresh j) hlo hhi h.represents ⟨haligned, hflags, hlt⟩
        hpos fun v hv => hv.lt).exists_ok fun f hf => by
          have := hf.2
          omega
    refine ⟨mem₁', _, ?_, hapart, ?_, by omega⟩
    · simp [mapSpaces, ownCalls, hmap']
    · rw [Function.update_self]
      exact hrepresents
  · refine ⟨mem', _, ?_, hapart, ?_, by omega⟩
    · simp [mapSpaces, ownCalls, hji]
      rfl
    · rw [Function.update_of_ne (Ne.symm hji)]
      exact h.represents

theorem Alone.run (hseparate : Separate spaces heap n₀) (hlo : 1 ≤ levels) (hhi : levels ≤ 5)
    {calls : List (ι × MapCall)} (hflags : ∀ call ∈ calls, leafBits call.2.flags = true)
    (h : Alone spaces heap n₀ i mem mem' entries) {mem₁ : Memory 8}
    (hrun : mapSpaces spaces heap calls mem = .ok mem₁) :
    ∃ mem₁' entries₁, mapSpaces spaces heap (ownCalls i calls) mem' = .ok mem₁' ∧
      Alone spaces heap n₀ i mem₁ mem₁' entries₁ := by
  induction calls generalizing mem mem' entries with
  | nil =>
    obtain rfl := Except.ok.inj hrun
    exact ⟨mem', entries, rfl, h⟩
  | cons call calls ih =>
    rw [mapSpaces, List.foldlM_cons] at hrun
    obtain ⟨mem₂, hmap, hrun⟩ := bind_eq_ok_iff.mp hrun
    obtain ⟨mem₂', entries₂, hown, halone⟩ :=
      h.step hseparate hlo hhi (hflags call List.mem_cons_self) hmap
    obtain ⟨mem₁', entries₁, hown', halone'⟩ :=
      ih (fun call hcall => hflags call (List.mem_cons_of_mem _ hcall)) halone hrun
    refine ⟨mem₁', entries₁, ?_, halone'⟩
    have hsplit : ownCalls i (call :: calls) = ownCalls i [call] ++ ownCalls i calls := by
      rw [ownCalls, ownCalls, ownCalls, ← List.filter_append]
      rfl
    rw [hsplit, mapSpaces, List.foldlM_append]
    exact bind_eq_ok_iff.mpr ⟨mem₂', hown, hown'⟩

/-- **Address spaces are isolated**: after any calls for all of them, every lookup in one of them
answers as if only its own calls had been made. -/
theorem query_isolated {mem₀ : Memory 8} (hlo : 1 ≤ levels) (hhi : levels ≤ 5)
    (hseparate : Separate spaces heap mem₀.allocated) (hzero : ∀ i, ZeroRoot (spaces i) mem₀)
    {calls : List (ι × MapCall)} (hflags : ∀ call ∈ calls, leafBits call.2.flags = true)
    (hrun : mapSpaces spaces heap calls mem₀ = .ok mem) (i : ι) :
    ∃ mem', mapSpaces spaces heap (ownCalls i calls) mem₀ = .ok mem' ∧
      ∀ va, (spaces i).query mem va = (spaces i).query mem' va := by
  have hfresh := hseparate.fresh i
  have hrepresents : Represents (spaces i) heap mem₀.allocated (Set.Iio 512) mem₀
      (fun _ => .leaf Entry.zeroed) :=
    represents_zeroed (by omega) (fun v hv => (hzero i).slot hv) hfresh.started
  obtain ⟨mem', entries, hown, halone⟩ := Alone.run hseparate hlo hhi hflags
    ⟨apart_zeroed hhi hzero hfresh.started, hrepresents, le_rfl⟩ hrun
  refine ⟨mem', hown, fun va => ?_⟩
  rw [halone.apart.query_eq hseparate (by omega) i va,
    halone.represents.query_eq hfresh (by omega) (vpn_lt _ _)]

end Runs

/-! ## Two address spaces -/

/-- A valid call of Sv39 that does not wrap below 0 returns when there is memory enough. -/
theorem Apart.exists_map [DecidableEq ι] {spaces : ι → Sv39} {heap : Allocator 8} {n₀ : ℕ}
    {mem : Memory 8} {entries : ι → ℕ → PageNode (3 - 1)} (hseparate : Separate spaces heap n₀)
    (h : Apart spaces heap n₀ mem entries) (i : ι) {c : MapCall} (hc : c.Valid)
    (hpos : 0 < (c.decanonical 3).stop)
    (hroom : mem.allocated + 512 * MapCall.tableBound 2 ≤ heap.capacity) :
    ∃ mem' entries', (spaces i).map heap c mem = .ok mem' ∧ Apart spaces heap n₀ mem' entries' ∧
      mem'.allocated ≤ mem.allocated + 512 * MapCall.tableBound 2 := by
  have hstop := hc.stop_le
  have hle : (c.decanonical 3).newTables (3 - 1) (entries i) ≤ 512 * MapCall.tableBound 2 :=
    MapCall.newTables_le _
  obtain ⟨mem', hmap, hapart, hallocated⟩ := (h.map_outcome hseparate (by norm_num) (by norm_num) i
    ⟨hc.aligned, hc.leafFlags, by omega⟩ fun _ => hpos).exists_ok fun f hf => by
      have := hf.2
      omega
  exact ⟨mem', _, hmap, hapart, by omega⟩

/-- Two root tables. -/
def twoSpaces (second : Bool) : Sv39 := ⟨if second then 0 else 0x1000, id, id⟩

/-- The memory with the two root tables, zeroed. -/
def twoRoots : Memory 8 where
  tables := fun table => if table = 0 ∨ table = 0x1000 then some Table.zeroed else none
  allocated := 0

theorem twoSpaces_separate : Separate twoSpaces identityHeap 0 where
  fresh := fun second => by
    obtain ⟨hstarted, hinjective, hroot, hnull, hinverse, haligned, hzero, hlt⟩ := identity_fresh
    refine ⟨hstarted, hinjective, fun n hn hcap => ?_, hnull, hinverse, haligned, hzero, hlt⟩
    cases second with
    | false => exact hroot n hn hcap
    | true => exact hnull n hn hcap
  roots := by decide

/-- Another page at 0. -/
def otherPageCall : MapCall := ⟨0x1000, 0, 0x1000, 0xf⟩

theorem otherPageCall_valid : otherPageCall.Valid := by
  decide

/-- The first address space answers as if the second were not there. -/
theorem query_isolated_two :
    ∃ mem mem', mapSpaces twoSpaces identityHeap [(false, pageCall), (true, otherPageCall)]
        twoRoots = .ok mem ∧
      mapSpaces twoSpaces identityHeap [(false, pageCall)] twoRoots = .ok mem' ∧
      ∀ va, (twoSpaces false).query mem va = (twoSpaces false).query mem' va := by
  have hzero : ∀ second, ZeroRoot (twoSpaces second) twoRoots := by
    intro second
    cases second <;> rfl
  have hbound : 512 * MapCall.tableBound 2 + 512 * MapCall.tableBound 2 < 2 ^ 30 := by decide
  have hcapacity : identityHeap.capacity = 2 ^ 30 := rfl
  have hnone : twoRoots.allocated = 0 := rfl
  obtain ⟨mem₁, entries₁, hmap₁, hapart₁, hallocated₁⟩ :=
    (apart_zeroed (by norm_num) hzero (Nat.zero_le _)).exists_map twoSpaces_separate false
      pageCall_valid (by decide) (by omega)
  obtain ⟨mem₂, -, hmap₂, -, -⟩ := hapart₁.exists_map twoSpaces_separate true otherPageCall_valid
    (by decide) (by omega)
  have hrun : mapSpaces twoSpaces identityHeap [(false, pageCall), (true, otherPageCall)]
      twoRoots = .ok mem₂ := by
    rw [mapSpaces, List.foldlM_cons, hmap₁, ok_bind, List.foldlM_cons, hmap₂, ok_bind]
    rfl
  have hownCalls : ownCalls false [(false, pageCall), (true, otherPageCall)] =
      [(false, pageCall)] := rfl
  obtain ⟨mem', hown, hquery⟩ := query_isolated (by norm_num) (by norm_num) twoSpaces_separate hzero
    (by decide) hrun false
  rw [hownCalls] at hown
  exact ⟨mem₂, mem', hrun, hown, hquery⟩

end AsyncKernel
