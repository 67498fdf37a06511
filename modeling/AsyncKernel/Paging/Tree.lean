import AsyncKernel.Paging.MapCall
import AsyncKernel.Paging.Slots

/-!
# Page tables as trees

The abstract model of the page tables: a tree whose leaves are entries, without addresses of tables.
The type bounds the depth, as the entries of a table at level 0 have no table below them. `map` is a
function on trees, and an address is looked up by following its virtual page numbers.

## Main definitions

* `PageNode l`: what an entry of a table at level `l` stands for
* `PageNode.leafAt`: the leaf that translates an address, with its level
* `MapCall.mapEntries`, `MapCall.mapNode`: `map` on the entries of a table and on one entry
* `MapCall.newTables`: how many tables a call adds
* `Entry.cut`: the part of a leaf that translates an address after splits

## Main results

* `piece_eq`: a piece of a leaf is the leaf, moved
* `Entry.cut_cut`: a leaf that is split twice
-/

namespace AsyncKernel

open Bits

/-- What an entry of a table at level `l` stands for: a leaf, or a table one level below. -/
inductive PageNode : ℕ → Type
  | leaf {l : ℕ} (e : Entry) : PageNode l
  | table {l : ℕ} (entries : ℕ → PageNode l) : PageNode (l + 1)

/-- The entries of the table a leaf is split into. -/
def pieces (l : ℕ) (e : Entry) : ℕ → PageNode l := fun v => .leaf (piece e (getVpnSize l 8) v)

namespace PageNode

/-- The leaf that translates `va`, with its level. -/
def leafAt : {l : ℕ} → PageNode l → ℕ → ℕ × Entry
  | l, .leaf e, _ => (l, e)
  | l + 1, .table entries, va => (entries (vpn l va)).leafAt va

/-- `Entry::split` on an entry that is a leaf. -/
def split {l : ℕ} : PageNode (l + 1) → PageNode (l + 1)
  | .leaf e => .table (pieces l e)
  | .table entries => .table entries

/-- A leaf counts one table when it is split. -/
def leafCount {l : ℕ} : PageNode l → ℕ
  | .leaf _ => 1
  | .table _ => 0

@[simp] theorem leafAt_leaf {l : ℕ} (e : Entry) (va : ℕ) :
    (leaf e : PageNode l).leafAt va = (l, e) := by
  cases l <;> rfl

@[simp] theorem leafAt_table {l : ℕ} (entries : ℕ → PageNode l) (va : ℕ) :
    (table entries).leafAt va = (entries (vpn l va)).leafAt va := rfl

theorem leafAt_le {l : ℕ} (node : PageNode l) (va : ℕ) : (node.leafAt va).1 ≤ l := by
  induction node with
  | leaf e => simp
  | table entries ih => exact (ih _).trans (Nat.le_succ _)

end PageNode

namespace MapCall

variable (c : MapCall)

/-- The loop at a level comes to an index. -/
def Visits (l v : ℕ) : Prop := c.first l ≤ v ∧ v ≤ c.last l

instance (l v : ℕ) : Decidable (c.Visits l v) := inferInstanceAs (Decidable (_ ∧ _))

/-- A leaf at an index that the loop comes to is split. -/
def splits (l v : ℕ) : Bool := c.splitsAt l 8 (c.last l) v

/-- The address of entry `v` of a table at level `l` that starts at `offset`. -/
def entryAddress (l : ℕ) (offset : Usize) (v : ℕ) : Usize :=
  offset + BitVec.ofNat 64 v * getVpnSize l 8

/-- `map` on an entry that the loop comes to, at index `v` and `address`. -/
def mapNode : (l : ℕ) → Usize → ℕ → PageNode l → PageNode l
  -- level 0 is written whatever it held
  | 0, address, _, _ => .leaf (c.newEntry address)
  | l + 1, address, v, node =>
    -- the source tests `is_leaf` before it splits; splitting a table leaves it as it is
    match if c.splits (l + 1) v then node.split else node with
    | .leaf _ => .leaf (c.newEntry address)
    | .table entries => .table fun w =>
      if c.Visits l w then mapNode l (entryAddress l address w) w (entries w) else entries w

/-- `map` on the entries of a table at level `l` that starts at `offset`. -/
def mapEntries (l : ℕ) (offset : Usize) (entries : ℕ → PageNode l) : ℕ → PageNode l := fun w =>
  if c.Visits l w then c.mapNode l (entryAddress l offset w) w (entries w) else entries w

/-- The tables that a call adds below an entry that the loop comes to. -/
def newTablesAt : (l : ℕ) → ℕ → PageNode l → ℕ
  | 0, _, _ => 0
  | l + 1, v, node =>
    (if c.splits (l + 1) v then node.leafCount else 0) +
      match if c.splits (l + 1) v then node.split else node with
      | .leaf _ => 0
      | .table entries => ∑ w ∈ Finset.Ico (c.first l) (c.last l + 1), newTablesAt l w (entries w)

/-- The tables that a call adds below the entries of a table. -/
def newTables (l : ℕ) (entries : ℕ → PageNode l) : ℕ :=
  ∑ w ∈ Finset.Ico (c.first l) (c.last l + 1), c.newTablesAt l w (entries w)

variable {c} {l v : ℕ} {address : Usize}

theorem Visits.lt (h : c.Visits l v) : v < 512 := lt_of_le_of_lt h.2 (c.last_lt l)

theorem mapNode_zero (node : PageNode 0) :
    c.mapNode 0 address v node = .leaf (c.newEntry address) := rfl

theorem mapNode_table (entries : ℕ → PageNode l) :
    c.mapNode (l + 1) address v (.table entries) = .table (c.mapEntries l address entries) := by
  rw [mapNode, show (PageNode.table entries).split = .table entries from rfl, ite_self]
  rfl

theorem mapNode_split {e : Entry} (h : c.splits (l + 1) v = true) :
    c.mapNode (l + 1) address v (.leaf e) = .table (c.mapEntries l address (pieces l e)) := by
  rw [mapNode, if_pos h]
  rfl

theorem mapNode_leaf {e : Entry} (h : c.splits (l + 1) v = false) :
    c.mapNode (l + 1) address v (.leaf e) = .leaf (c.newEntry address) := by
  rw [mapNode, if_neg (by simp [h])]

theorem newTablesAt_table (entries : ℕ → PageNode l) :
    c.newTablesAt (l + 1) v (.table entries) = c.newTables l entries := by
  rw [newTablesAt, show (PageNode.table entries).split = .table entries from rfl, ite_self,
    show (PageNode.table entries).leafCount = 0 from rfl, ite_self, Nat.zero_add]
  rfl

theorem newTablesAt_split {e : Entry} (h : c.splits (l + 1) v = true) :
    c.newTablesAt (l + 1) v (.leaf e) = 1 + c.newTables l (pieces l e) := by
  rw [newTablesAt, if_pos h, if_pos h]
  rfl

theorem newTablesAt_leaf {e : Entry} (h : c.splits (l + 1) v = false) :
    c.newTablesAt (l + 1) v (.leaf e) = 0 := by
  rw [newTablesAt, if_neg (by simp [h]), if_neg (by simp [h])]
  rfl

/-- A bound on the tables that a call adds below an entry of a table at level `l`. -/
def tableBound : ℕ → ℕ
  | 0 => 0
  | l + 1 => 1 + 512 * tableBound l

theorem sum_visited_le {f : ℕ → ℕ} {n : ℕ} (h : ∀ w, f w ≤ n) :
    ∑ w ∈ Finset.Ico (c.first l) (c.last l + 1), f w ≤ 512 * n := by
  calc ∑ w ∈ Finset.Ico (c.first l) (c.last l + 1), f w
      ≤ (Finset.Ico (c.first l) (c.last l + 1)).card • n :=
        Finset.sum_le_card_nsmul _ _ _ fun w _ => h w
    _ ≤ 512 * n := by
      rw [Nat.card_Ico, smul_eq_mul]
      exact Nat.mul_le_mul_right n (by have := c.last_lt l; omega)

theorem newTablesAt_le (node : PageNode l) : c.newTablesAt l v node ≤ tableBound l := by
  -- On the level, which is the depth of the recursion of `map_internal`.
  induction l generalizing v with
  | zero => exact le_rfl
  | succ l ih =>
    cases node with
    | table entries =>
      rw [newTablesAt_table]
      exact (sum_visited_le fun _ => ih _).trans (Nat.le_add_left _ _)
    | leaf e =>
      cases h : c.splits (l + 1) v with
      | false =>
        rw [newTablesAt_leaf h]
        exact Nat.zero_le _
      | true =>
        rw [newTablesAt_split h]
        exact Nat.add_le_add_left (sum_visited_le fun _ => ih _) 1

/-- A call adds at most a bounded number of tables. -/
theorem newTables_le (entries : ℕ → PageNode l) : c.newTables l entries ≤ 512 * tableBound l :=
  sum_visited_le fun _ => newTablesAt_le _

end MapCall

/-! ## Pieces of leaves -/

/-- A piece of a leaf is the leaf, moved to the address of the piece. -/
theorem piece_eq {l : ℕ} (hl : l ≤ 5) (e : Entry) (v : ℕ) :
    piece e (getVpnSize l 8) v = ⟨e.value + BitVec.ofNat 64 (v * (pageSize l / 4))⟩ := by
  have hstep : getVpnSize l 8 >>> 2 = BitVec.ofNat 64 (pageSize l / 4) := by
    refine BitVec.eq_of_toNat_eq ?_
    rw [BitVec.toNat_ushiftRight, Nat.shiftRight_eq_div_pow, toNat_getVpnSize hl,
      BitVec.toNat_ofNat]
    have := (getVpnSize l 8).isLt
    rw [toNat_getVpnSize hl] at this
    omega
  have hmoved : BitVec.ofNat 64 v * (getVpnSize l 8 >>> 2) =
      BitVec.ofNat 64 (v * (pageSize l / 4)) := by
    rw [hstep, BitVec.ofNat_mul]
  -- A step is a multiple of a page, so moving a leaf leaves its flags alone.
  have hlow : 256 ∣ (BitVec.ofNat 64 (v * (pageSize l / 4))).toNat := by
    have h256 : 256 ∣ v * (pageSize l / 4) := by
      obtain ⟨k, hk⟩ := page_dvd_pageSize l
      refine Dvd.dvd.mul_left ⟨4 * k, ?_⟩ v
      omega
    rw [BitVec.toNat_ofNat]
    omega
  -- the address bits of the sum are the sum of the address bits, and the flags are below them
  have hflags : (e.value &&& ~~~EntryBits.addressMask).toNat < 2 ^ 8 := by
    rw [toNat_and_not_addressMask]
    exact Nat.mod_lt _ (by norm_num)
  have haddr : 2 ^ 8 ∣ ((e.value &&& EntryBits.addressMask) +
      BitVec.ofNat 64 (v * (pageSize l / 4))).toNat := by
    rw [BitVec.toNat_add, toNat_and_addressMask]
    omega
  refine Entry.ext ?_
  rw [piece, hmoved]
  refine BitVec.eq_of_toNat_eq ?_
  rw [BitVec.or_comm, toNat_or_of_dvd_of_lt haddr hflags, BitVec.toNat_add, BitVec.toNat_add,
    toNat_and_addressMask, toNat_and_not_addressMask]
  omega

/-- The pieces of a leaf have its flags. -/
theorem piece_mod {l : ℕ} (hl : l ≤ 5) (e : Entry) (v : ℕ) :
    (piece e (getVpnSize l 8) v).value.toNat % 256 = e.value.toNat % 256 := by
  have hdvd : v * (pageSize l / 4) % 256 = 0 := by
    obtain ⟨k, hk⟩ := page_dvd_pageSize l
    rw [hk, show 4096 * k / 4 = 256 * (4 * k) by omega, Nat.mul_left_comm]
    exact Nat.mul_mod_right _ _
  rw [piece_eq hl, BitVec.toNat_add, BitVec.toNat_ofNat]
  omega

/-- The pieces of a leaf fit into it. -/
theorem toNat_piece {l : ℕ} (hl : l ≤ 5) {e : Entry}
    (hbound : e.value.toNat + pageSize (l + 1) / 4 ≤ 2 ^ 55) {v : ℕ} (hv : v < 512) :
    (piece e (getVpnSize l 8) v).value.toNat = e.value.toNat + v * (pageSize l / 4) ∧
      e.value.toNat + v * (pageSize l / 4) + pageSize l / 4 ≤ 2 ^ 55 := by
  have hsucc := pageSize_succ l
  have hmul : v * (pageSize l / 4) + pageSize l / 4 ≤ 512 * (pageSize l / 4) := by
    have := Nat.mul_le_mul_right (pageSize l / 4) (show v + 1 ≤ 512 by omega)
    rwa [Nat.add_mul, Nat.one_mul] at this
  refine ⟨?_, by omega⟩
  rw [piece_eq hl, BitVec.toNat_add, BitVec.toNat_ofNat]
  omega

/-- The part of a leaf of level `i` that translates `va` when the leaf is split down to level
`j`. -/
def Entry.cut (e : Entry) (i j va : ℕ) : Entry :=
  ⟨e.value + BitVec.ofNat 64 (va % pageSize i / pageSize j * (pageSize j / 4))⟩

theorem Entry.cut_self (e : Entry) (i va : ℕ) : e.cut i i va = e := by
  rw [cut, Nat.div_eq_of_lt (Nat.mod_lt _ (pageSize_pos i)), Nat.zero_mul]
  simp

/-- Splitting to level `k` and then to level `j` is splitting to level `j`. -/
theorem Entry.cut_cut (e : Entry) {i k j : ℕ} (hki : k ≤ i) (hjk : j ≤ k) (va : ℕ) :
    (e.cut i k va).cut k j va = e.cut i j va := by
  obtain ⟨p, hp⟩ := pageSize_dvd hki
  obtain ⟨q, hq⟩ := pageSize_dvd hjk
  obtain ⟨s, hs⟩ := four_dvd_pageSize j
  have hj := pageSize_pos j
  have hmod : va % pageSize i % pageSize k = va % pageSize k :=
    Nat.mod_mod_of_dvd _ (pageSize_dvd hki)
  set a := va % pageSize i with ha
  -- The number of pages of level `j` before `va`: those of whole pages of level `k`, and the rest.
  have hsum : a / pageSize j = a / pageSize k * q + va % pageSize k / pageSize j := by
    conv_lhs => rw [← Nat.div_add_mod a (pageSize k), hmod, hq, Nat.mul_assoc]
    rw [Nat.mul_add_div hj, hq, Nat.mul_comm q]
  refine Entry.ext ?_
  show e.value + BitVec.ofNat 64 _ + BitVec.ofNat 64 _ = e.value + BitVec.ofNat 64 _
  rw [BitVec.add_assoc, ← BitVec.ofNat_add, hsum]
  congr 2
  rw [hq, hs, Nat.mul_assoc 4 s q, Nat.mul_div_cancel_left _ (by norm_num),
    Nat.mul_div_cancel_left _ (by norm_num)]
  ring

/-- The piece of a leaf at the virtual page number of `va`. -/
theorem piece_vpn {l : ℕ} (hl : l ≤ 5) (e : Entry) (va : ℕ) :
    piece e (getVpnSize l 8) (vpn l va) = e.cut (l + 1) l va := by
  have hdiv : va % pageSize (l + 1) / pageSize l = vpn l va := by
    rw [mod_pageSize_succ, Nat.mul_comm, Nat.mul_add_div (pageSize_pos l),
      Nat.div_eq_of_lt (Nat.mod_lt _ (pageSize_pos l)), Nat.add_zero]
  rw [piece_eq hl, Entry.cut, hdiv]

end AsyncKernel
