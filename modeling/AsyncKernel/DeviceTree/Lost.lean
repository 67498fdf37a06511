import AsyncKernel.DeviceTree.Inverse

/-!
# Nodes that are lost

A child replaces one with the same key. Two siblings with different names have the same key when the
texts before the first `@` agree, and the texts after it are read as the same number: any text that is
no hexadecimal number of 64 bits is read as zero. So the tree that `build` returns has as many nodes
as the structure block when no two siblings clash in this way, and otherwise fewer.

## Main definitions

* `Node.count`: the nodes of a tree that has been built
* `Clash`: two names with the same key

## Main results

* `Node.count_insertChildren`: children are lost when their keys are not different
* `key_new_eq_iff`: different names have the same key when they clash
* `build_count_iff`: no node is lost when no two siblings clash
* `build_loses`: two PCI devices of which one is lost
-/

namespace AsyncKernel

namespace DeviceTree

namespace Node

mutual

/-- The number of nodes, with all children. -/
def count : Node → ℕ
  | mk _ _ children _ => 1 + countNames children

def countNames : List (Str × List (Option ℕ × Node)) → ℕ
  | [] => 0
  | (_, d) :: names => countAddresses d + countNames names

def countAddresses : List (Option ℕ × Node) → ℕ
  | [] => 0
  | (_, n) :: d => n.count + countAddresses d

end

variable {n other : Node} {others : List Node}

theorem countNames_eq (names : List (Str × List (Option ℕ × Node))) :
    countNames names = (names.map fun e => countAddresses e.2).sum := by
  induction names with
  | nil => rfl
  | cons e names ih => rw [countNames, ih, List.map_cons, List.sum_cons]

theorem countAddresses_eq (d : List (Option ℕ × Node)) :
    countAddresses d = (d.map fun e => e.2.count).sum := by
  induction d with
  | nil => rfl
  | cons e d ih => rw [countAddresses, ih, List.map_cons, List.sum_cons]

theorem count_eq (n : Node) : n.count = 1 + countNames n.children := by
  cases n
  rfl

theorem count_new (name : Str) : (Node.new name).count = 1 := rfl

@[simp] theorem count_insertProperties {entries : List (Str × PropertyValue)} :
    (n.insertProperties entries).count = n.count := by
  rw [count_eq, count_eq, insertProperties_children]

/-- The nodes after a child has been inserted: those of a child with its key are lost. -/
theorem count_insertChild (n other : Node) :
    (n.insertChild other).count + (n.child other.key).elim 0 count = n.count + other.count := by
  have hnames := Assoc.sum_insert (k := other.name) (m := n.children)
    (v := Assoc.insert other.unitAddress other ((n.children.lookup other.name).getD []))
    countAddresses
  have haddresses := Assoc.sum_insert (k := other.unitAddress) (v := other)
    (m := (n.children.lookup other.name).getD []) count
  have hlost : (n.child other.key).elim 0 count =
      (((n.children.lookup other.name).getD []).lookup other.unitAddress).elim 0 count := by
    rw [child, Node.key]
    cases n.children.lookup other.name <;> rfl
  have hmap : (n.children.lookup other.name).elim 0 countAddresses =
      countAddresses ((n.children.lookup other.name).getD []) := by
    cases n.children.lookup other.name <;> rfl
  rw [count_eq, count_eq, insertChild_children, countNames_eq, countNames_eq, hlost]
  rw [hmap, countAddresses_eq, countAddresses_eq] at hnames
  omega

theorem count_pos (n : Node) : 0 < n.count := by
  rw [count_eq]
  omega

theorem lost_eq_zero_iff {k : Str × Option ℕ} : (n.child k).elim 0 count = 0 ↔ n.child k = none := by
  cases n.child k with
  | none => exact iff_of_true rfl rfl
  | some c => exact iff_of_false (count_pos c).ne' (Option.some_ne_none c)

theorem child_insertChild_eq_none_iff {k : Str × Option ℕ} :
    (n.insertChild other).child k = none ↔ k ≠ other.key ∧ n.child k = none := by
  rw [child_insertChild]
  by_cases hk : k = other.key <;> simp [hk]

/-- There are not more nodes than have been inserted, and as many when the keys are different. -/
theorem count_insertChildren (n : Node) (others : List Node) :
    (n.insertChildren others).count ≤ n.count + (others.map count).sum ∧
      ((n.insertChildren others).count = n.count + (others.map count).sum ↔
        (others.map key).Nodup ∧ ∀ other ∈ others, n.child other.key = none) := by
  induction others generalizing n with
  | nil => simp [insertChildren]
  | cons other others ih =>
    have hfirst := count_insertChild n other
    obtain ⟨hle, hiff⟩ := ih (n.insertChild other)
    have hcons : n.insertChildren (other :: others) =
        (n.insertChild other).insertChildren others := rfl
    rw [hcons, List.map_cons, List.sum_cons, List.map_cons, List.nodup_cons]
    refine ⟨by omega, ?_⟩
    -- the first child replaces none, and none of the others replaces it
    have hothers : (∀ o ∈ others, (n.insertChild other).child o.key = none) ↔
        other.key ∉ others.map key ∧ ∀ o ∈ others, n.child o.key = none := by
      simp only [child_insertChild_eq_none_iff, List.mem_map, not_exists, not_and]
      exact forall₂_and
    rw [List.forall_mem_cons]
    constructor
    · intro heq
      have hnone := lost_eq_zero_iff.mp (show (n.child other.key).elim 0 count = 0 by omega)
      obtain ⟨hnodup, hchild⟩ := hiff.mp (by omega)
      obtain ⟨hnew, hold⟩ := hothers.mp hchild
      exact ⟨⟨hnew, hnodup⟩, hnone, hold⟩
    · rintro ⟨⟨hnew, hnodup⟩, hnone, hold⟩
      have hlost := lost_eq_zero_iff.mpr hnone
      have heq := hiff.mpr ⟨hnodup, hothers.mpr ⟨hnew, hold⟩⟩
      omega

end Node

variable {blob : Blob} {start : ℕ} {tokens : List Token} {t : Tree}

/-! ## Keys -/

/-- Two names with addresses: the same text before the first `@`, and texts after it that are read as
the same number. What is no number is read as zero. -/
def Clash (a b : Str) : Prop :=
  ∃ name x y, 0x40 ∉ name ∧ a = name ++ 0x40 :: x ∧ b = name ++ 0x40 :: y ∧
    (numeral x).getD 0 = (numeral y).getD 0

theorem key_new_of_mem {name : Str} (hname : 0x40 ∉ name) (address : Str) :
    (Node.new (name ++ 0x40 :: address)).key = (name, some ((numeral address).getD 0)) := by
  rw [Node.key, Node.new, Node.splitName, dropWhile_ne_append hname, takeWhile_ne_append hname,
    ← fromStrRadix_eq_numeral]
  rfl

theorem key_new_of_notMem {name : Str} (hname : 0x40 ∉ name) :
    (Node.new name).key = (name, none) := by
  rw [Node.key, Node.new, Node.splitName, dropWhile_ne_of_notMem hname]
  rfl

/-- Different names have the same key when they clash. -/
theorem key_new_eq_iff {a b : Str} (hab : a ≠ b) :
    (Node.new a).key = (Node.new b).key ↔ Clash a b := by
  constructor
  · intro h
    by_cases ha : 0x40 ∈ a
    · obtain ⟨name, x, rfl, hname⟩ := List.eq_append_cons_of_mem ha
      by_cases hb : 0x40 ∈ b
      · obtain ⟨name', y, rfl, hname'⟩ := List.eq_append_cons_of_mem hb
        rw [key_new_of_mem hname, key_new_of_mem hname', Prod.mk.injEq, Option.some.injEq] at h
        obtain ⟨rfl, hnumber⟩ := h
        exact ⟨name, x, y, hname, rfl, rfl, hnumber⟩
      · rw [key_new_of_mem hname, key_new_of_notMem hb] at h
        exact absurd (Prod.mk.inj h).2 (Option.some_ne_none _)
    · by_cases hb : 0x40 ∈ b
      · obtain ⟨name', y, rfl, hname'⟩ := List.eq_append_cons_of_mem hb
        rw [key_new_of_notMem ha, key_new_of_mem hname'] at h
        exact absurd (Prod.mk.inj h).2.symm (Option.some_ne_none _)
      · rw [key_new_of_notMem ha, key_new_of_notMem hb] at h
        exact absurd (Prod.mk.inj h).1 hab
  · rintro ⟨name, x, y, hname, rfl, rfl, hnumber⟩
    rw [key_new_of_mem hname, key_new_of_mem hname, hnumber]

/-- Trees with different names have different keys when no two of them clash. -/
theorem nodup_keys_iff {ts : List Tree} (hnames : (ts.map Tree.name).Nodup) :
    (ts.map Tree.key).Nodup ↔ ts.Pairwise fun a b => ¬ Clash a.name b.name := by
  rw [List.Nodup, List.pairwise_map] at hnames ⊢
  constructor
  · intro hkeys
    refine (hnames.and hkeys).imp fun h => ?_
    exact fun hclash => h.2 ((key_new_eq_iff h.1).mpr hclash)
  · intro hclash
    refine (hnames.and hclash).imp fun h => ?_
    exact fun hkey => h.2 ((key_new_eq_iff h.1).mp hkey)

/-! ## Trees -/

def Token.isBeginNode : Token → Bool
  | .beginNode _ => true
  | _ => false

/-- A tree has a token for the beginning of each of its nodes. -/
theorem countP_tokens (t : Tree) : t.tokens.countP Token.isBeginNode = t.subtrees.length := by
  induction t using Tree.induct with
  | node name properties children ih =>
    have hproperties : (properties.map Property.token).countP Token.isBeginNode = 0 := by
      rw [List.countP_eq_zero]
      intro tok htok
      obtain ⟨p, -, rfl⟩ := List.mem_map.mp htok
      exact Bool.false_ne_true
    have hchildren : (children.flatMap Tree.tokens).countP Token.isBeginNode =
        (children.flatMap Tree.subtrees).length := by
      rw [List.countP_flatMap, List.length_flatMap]
      exact congrArg List.sum (List.map_congr_left ih)
    rw [Tree.tokens, Tree.subtrees, Tree.listTokens_eq, Tree.listSubtrees_eq, List.countP_cons,
      List.countP_append, List.countP_append, hproperties, hchildren, List.length_cons]
    simp [Token.isBeginNode]

theorem countP_significant (tokens : List Token) :
    (significant tokens).countP Token.isBeginNode = tokens.countP Token.isBeginNode := by
  rw [significant, List.countP_filter]
  refine List.countP_congr fun tok _ => ?_
  cases tok <;> simp [Token.isBeginNode]

/-- The node of a tree has not more nodes than the tree, and as many when the children of each node
of the tree have different keys. -/
structure Counted (t : Tree) (n : Node) : Prop where
  key : n.key = t.key
  le : n.count ≤ t.subtrees.length
  eq_iff : n.count = t.subtrees.length ↔ ∀ t' ∈ t.subtrees, (t'.children.map Tree.key).Nodup

/-- The children of a node together. -/
theorem sum_counted {children : List Tree} {nodes : List Node}
    (h : List.Forall₂ Counted children nodes) :
    (nodes.map Node.count).sum ≤ (children.flatMap Tree.subtrees).length ∧
      ((nodes.map Node.count).sum = (children.flatMap Tree.subtrees).length ↔
        ∀ t' ∈ children.flatMap Tree.subtrees, (t'.children.map Tree.key).Nodup) := by
  induction h with
  | nil => exact ⟨le_rfl, iff_of_true rfl fun t' ht' => absurd ht' List.not_mem_nil⟩
  | cons hfirst _ ih =>
    obtain ⟨hle, hiff⟩ := ih
    have hfirstLe := hfirst.le
    rw [List.map_cons, List.sum_cons, List.flatMap_cons, List.length_append]
    refine ⟨by omega, ?_⟩
    rw [List.forall_mem_append, ← hfirst.eq_iff, ← hiff]
    omega

theorem insert_counted {name : Str} {properties : List Property} {children : List Tree}
    {entries : List (Str × PropertyValue)} {nodes : List Node}
    (hnodes : List.Forall₂ Counted children nodes) :
    Counted (.node name properties children)
      (((Node.new name).insertProperties entries).insertChildren nodes) := by
  obtain ⟨hle, hiff⟩ := Node.count_insertChildren ((Node.new name).insertProperties entries) nodes
  obtain ⟨hsumLe, hsumIff⟩ := sum_counted hnodes
  have hkeys : children.map Tree.key = nodes.map Node.key :=
    hnodes.map_eq fun t n h => h.key.symm
  have hfresh : ∀ other ∈ nodes,
      ((Node.new name).insertProperties entries).child other.key = none := by
    intro other _
    rw [child_insertProperties]
    rfl
  rw [Node.count_insertProperties, Node.count_new] at hle hiff
  have hlength : (Tree.node name properties children).subtrees.length =
      1 + (children.flatMap Tree.subtrees).length := by
    rw [Tree.subtrees, Tree.listSubtrees_eq, List.length_cons, Nat.add_comm]
  refine ⟨key_insert _ _ _, by omega, ?_⟩
  · rw [hlength, Tree.subtrees, Tree.listSubtrees_eq, List.forall_mem_cons, ← hsumIff]
    have hnodup : (nodes.map Node.key).Nodup ↔
        ((Tree.node name properties children).children.map Tree.key).Nodup := by
      rw [← hkeys]
      rfl
    rw [← hnodup]
    constructor
    · intro heq
      exact ⟨(hiff.mp (by omega)).1, by omega⟩
    · rintro ⟨hdifferent, hsum⟩
      have heq := hiff.mpr ⟨hdifferent, hfresh⟩
      omega

/-- **No node is lost when no two siblings clash**, and otherwise there are fewer nodes than the block
has tokens that begin one. -/
theorem build_count_iff (h : IsBlock blob start tokens t)
    (hnames : ∀ t' ∈ t.subtrees, (t'.children.map Tree.name).Nodup) :
    ∃ n, build blob start = .ok n ∧
      (n.count = tokens.countP Token.isBeginNode ↔
        ∀ t' ∈ t.subtrees, t'.children.Pairwise fun a b => ¬ Clash a.name b.name) ∧
      ((∀ t' ∈ t.subtrees, (t'.children.map Tree.key).Nodup) ↔
        ∀ t' ∈ t.subtrees, t'.children.Pairwise fun a b => ¬ Clash a.name b.name) := by
  have hkeys : (∀ t' ∈ t.subtrees, (t'.children.map Tree.key).Nodup) ↔
      ∀ t' ∈ t.subtrees, t'.children.Pairwise fun a b => ¬ Clash a.name b.name :=
    forall₂_congr fun t' ht' => nodup_keys_iff (hnames t' ht')
  have hnode : Outcome (fun _ => False) (Counted t) (t.toNode blob) :=
    toNode_outcome h.readable fun _ _ _ _ _ _ _ hnodes => insert_counted hnodes
  obtain ⟨n, hn, hcounted⟩ := hnode.exists_ok fun _ hfalse => hfalse.elim
  refine ⟨n, (build_eq_toNode h).trans hn, ?_, hkeys⟩
  rw [← hkeys, ← hcounted.eq_iff, ← countP_tokens, ← h.significant_eq, countP_significant]

/-- Two devices on a PCI bus, whose addresses are made of a device and a function. -/
def pci : Tree := .node [] [] [.node (ascii "pci@0,0") [] [], .node (ascii "pci@1,0") [] []]

def pciTokens : List Token :=
  [.beginNode [], .beginNode (ascii "pci@0,0"), .endNode, .beginNode (ascii "pci@1,0"), .endNode,
    .endNode]

/-- The tokens are behind the header. -/
def pciBlob : Blob where
  base := 0x82200000
  bytes := List.replicate 40 0 ++ pciTokens.flatMap Token.encode ++ word 9

theorem isBlock_pci : IsBlock pciBlob 0x82200028 pciTokens pci := by
  refine ⟨rfl, ?_, ?_, [], ?_⟩
  · decide +kernel
  · decide
  · decide

theorem build_count_iff_pci : ∃ n, build pciBlob 0x82200028 = .ok n ∧
    (n.count = pciTokens.countP Token.isBeginNode ↔
      ∀ t' ∈ pci.subtrees, t'.children.Pairwise fun a b => ¬ Clash a.name b.name) ∧
    ((∀ t' ∈ pci.subtrees, (t'.children.map Tree.key).Nodup) ↔
      ∀ t' ∈ pci.subtrees, t'.children.Pairwise fun a b => ¬ Clash a.name b.name) :=
  build_count_iff isBlock_pci (by decide)

/-- One of the two devices is lost: both addresses are read as zero. -/
theorem build_loses : IsBlock pciBlob 0x82200028 pciTokens pci ∧
    (∀ t' ∈ pci.subtrees, (t'.children.map Tree.name).Nodup) ∧
    ∃ n, build pciBlob 0x82200028 = .ok n ∧ n.count = 2 ∧
      pciTokens.countP Token.isBeginNode = 3 := by
  have hcount : (build pciBlob 0x82200028).map Node.count = .ok 2 := by decide +kernel
  obtain ⟨n, hn, hcount⟩ := map_eq_ok_iff.mp hcount
  exact ⟨isBlock_pci, by decide, n, hn, hcount, by decide⟩

end DeviceTree

end AsyncKernel
