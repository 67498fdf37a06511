import AsyncKernel.DeviceTree.Flatten

/-!
# Flattening and building

A tree of named nodes with properties is flattened into tokens: the name of a node, its properties,
its children, its end. `build` makes of the flattened tree the node `Tree.toNode`, in which every
node has been put into its parent. This node represents the tree when the properties of a node have
different names, and its children different keys: a child is found under the part of its name before
the first `@`, and the number of the part after it.

## Main definitions

* `Tree`, `Tree.tokens`: the trees, and how they are flattened
* `Tree.toNode`: the nodes that are put into each other
* `Represents`: a node has the properties and the children of a tree, and no others

## Main results

* `IsWritten.build_eq_toNode`: `build` makes the nodes of the tree
* `build_represents`: building inverts flattening
-/

namespace AsyncKernel

namespace DeviceTree

/-- A property of a node, whose name is at an offset in the strings block. -/
structure Property where
  name : Str
  nameOffset : ℕ
  value : List UInt8
  deriving DecidableEq, Repr

def Property.token (p : Property) : Token := .prop p.nameOffset p.value

/-- A device tree. -/
inductive Tree
  | node (name : Str) (properties : List Property) (children : List Tree)

namespace Tree

def name : Tree → Str
  | node name _ _ => name

def properties : Tree → List Property
  | node _ properties _ => properties

def children : Tree → List Tree
  | node _ _ children => children

/-- Induction over a tree, with a hypothesis for every child of a node. -/
theorem induct {P : Tree → Prop}
    (node : ∀ name properties children, (∀ t ∈ children, P t) → P (node name properties children)) :
    ∀ t, P t
  | .node name properties children =>
    node name properties children fun t _ => induct node t

/-- What a node is found under in its parent. -/
def key (t : Tree) : Str × Option ℕ := (Node.new t.name).key

mutual

/-- The tokens of a tree, without NOPs. -/
def tokens : Tree → List Token
  | node name properties children =>
    .beginNode name :: (properties.map Property.token ++ (listTokens children ++ [.endNode]))

def listTokens : List Tree → List Token
  | [] => []
  | t :: ts => t.tokens ++ listTokens ts

end

mutual

/-- A tree, and all trees below it. -/
def subtrees : Tree → List Tree
  | node name properties children => node name properties children :: listSubtrees children

def listSubtrees : List Tree → List Tree
  | [] => []
  | t :: ts => t.subtrees ++ listSubtrees ts

end

variable (blob : Blob)

/-- A property that is read: its name, and its guessed value. -/
def readProperty (p : Property) : Except Fault (Str × PropertyValue) := do
  let name ← blob.getString p.nameOffset
  let value ← PropertyValue.guess p.value (some name)
  return (name, value)

mutual

/-- The node of a tree. -/
def toNode : Tree → Except Fault Node
  | node name properties children => do
    let name ← fromUtf8 name
    let properties ← properties.mapM (readProperty blob)
    let children ← listToNode children
    return ((Node.new name).insertProperties properties).insertChildren children

def listToNode : List Tree → Except Fault (List Node)
  | [] => .ok []
  | t :: ts => do
    let n ← t.toNode
    let ns ← listToNode ts
    return n :: ns

end

@[simp] theorem listTokens_eq (ts : List Tree) : listTokens ts = ts.flatMap tokens := by
  induction ts with
  | nil => rfl
  | cons t ts ih => rw [listTokens, ih, List.flatMap_cons]

@[simp] theorem listSubtrees_eq (ts : List Tree) : listSubtrees ts = ts.flatMap subtrees := by
  induction ts with
  | nil => rfl
  | cons t ts ih => rw [listSubtrees, ih, List.flatMap_cons]

@[simp] theorem listToNode_eq (ts : List Tree) : listToNode blob ts = ts.mapM (toNode blob) := by
  induction ts with
  | nil => rfl
  | cons t ts ih =>
    rw [listToNode, ih, List.mapM_cons]

theorem self_mem_subtrees (t : Tree) : t ∈ t.subtrees := by
  obtain ⟨name, properties, children⟩ := t
  rw [subtrees]
  exact List.mem_cons_self

theorem mem_subtrees_of_child {name : Str} {properties : List Property} {children : List Tree}
    {c t : Tree} (hc : c ∈ children) (ht : t ∈ c.subtrees) :
    t ∈ (node name properties children).subtrees := by
  rw [subtrees, listSubtrees_eq]
  exact List.mem_cons_of_mem _ (List.mem_flatMap.mpr ⟨c, hc, ht⟩)

/-! ## The nodes of a tree -/

variable {blob}

/-- The tokens of properties insert them into the current node. -/
theorem foldlM_properties (properties : List Property) (s : Nodes) (n : Node) :
    (properties.map Property.token).foldlM (Token.apply blob) (s.beginNode n) =
      properties.mapM (readProperty blob) >>= fun entries =>
        .ok (s.beginNode (n.insertProperties entries)) := by
  induction properties generalizing n with
  | nil => rfl
  | cons p properties ih =>
    have hfirst : Token.apply blob (s.beginNode n) p.token = readProperty blob p >>= fun e =>
        .ok (s.beginNode (n.insertProperty e.1 e.2)) := by
      rw [readProperty, Property.token, Token.apply, bind_assoc]
      congr 1
      funext name
      rw [bind_assoc]
      rfl
    rw [List.map_cons, List.foldlM_cons, hfirst, List.mapM_cons, bind_assoc, bind_assoc]
    congr 1
    funext e
    rw [ok_bind, ih, bind_assoc]
    rfl

/-- The tokens of the children put their nodes into the current node. -/
theorem foldlM_children {ts : List Tree} (s : Nodes) (n : Node)
    (h : ∀ t ∈ ts, ∀ s, t.tokens.foldlM (Token.apply blob) s =
      t.toNode blob >>= fun c => .ok (s.beginNode c).endNode) :
    (ts.flatMap tokens).foldlM (Token.apply blob) (s.beginNode n) =
      ts.mapM (toNode blob) >>= fun children =>
        .ok (s.beginNode (n.insertChildren children)) := by
  induction ts generalizing n with
  | nil => rfl
  | cons t ts ih =>
    rw [List.flatMap_cons, List.foldlM_append, h t List.mem_cons_self, List.mapM_cons, bind_assoc,
      bind_assoc]
    congr 1
    funext c
    -- the child has begun in the current node, and ends in it
    have hchild : ((s.beginNode n).beginNode c).endNode = s.beginNode (n.insertChild c) := rfl
    rw [ok_bind, hchild, ih _ fun t' ht' => h t' (List.mem_cons_of_mem _ ht'), bind_assoc]
    rfl

/-- The tokens of a tree begin its node and end it. -/
theorem foldlM_tokens (t : Tree) : ∀ s : Nodes, t.tokens.foldlM (Token.apply blob) s =
    t.toNode blob >>= fun n => .ok (s.beginNode n).endNode := by
  induction t using induct with
  | node name properties children ih =>
    intro s
    rw [tokens, List.foldlM_cons, Token.apply, toNode, bind_assoc, bind_assoc]
    congr 1
    funext name
    rw [pure_bind, List.foldlM_append, foldlM_properties, bind_assoc, bind_assoc]
    congr 1
    funext entries
    rw [ok_bind, List.foldlM_append, listTokens_eq, foldlM_children s _ ih, listToNode_eq,
      bind_assoc, bind_assoc]
    rfl

/-! ## Structure blocks -/

/-- A node that can be flattened and read again. -/
@[mk_iff]
structure Readable (blob : Blob) (t : Tree) : Prop where
  noZero : 0 ∉ t.name
  utf8 : validUtf8 t.name = true
  offsets : ∀ p ∈ t.properties, p.nameOffset < 2 ^ 32 ∧ p.value.length < 2 ^ 32
  names : ∀ p ∈ t.properties, blob.getString p.nameOffset = .ok p.name
  values : ∀ p ∈ t.properties, ∃ v, PropertyValue.guess p.value (some p.name) = .ok v

instance (t : Tree) : Decidable (t.Readable blob) := decidable_of_iff' _ (readable_iff blob t)

/-- The properties of a node have different names, and its children different keys. -/
@[mk_iff]
structure Distinct (t : Tree) : Prop where
  properties : (t.properties.map Property.name).Nodup
  children : (t.children.map key).Nodup

instance (t : Tree) : Decidable t.Distinct := decidable_of_iff' _ (distinct_iff t)

/-- A node that can be flattened, with properties of any values. -/
@[mk_iff]
structure Written (blob : Blob) (t : Tree) : Prop where
  noZero : 0 ∉ t.name
  utf8 : validUtf8 t.name = true
  offsets : ∀ p ∈ t.properties, p.nameOffset < 2 ^ 32 ∧ p.value.length < 2 ^ 32
  names : ∀ p ∈ t.properties, blob.getString p.nameOffset = .ok p.name

instance (t : Tree) : Decidable (t.Written blob) := decidable_of_iff' _ (written_iff blob t)

theorem Readable.written {t : Tree} (h : t.Readable blob) : t.Written blob :=
  ⟨h.noZero, h.utf8, h.offsets, h.names⟩

theorem wellFormed_of_mem_tokens {t : Tree} (h : ∀ t' ∈ t.subtrees, t'.Written blob) :
    ∀ tok ∈ t.tokens, tok.WellFormed := by
  induction t using induct with
  | node name properties children ih =>
    have hnode := h _ (self_mem_subtrees _)
    intro tok htok
    rw [tokens, List.mem_cons, List.mem_append, List.mem_append, listTokens_eq, List.mem_flatMap,
      List.mem_map, List.mem_singleton] at htok
    rcases htok with rfl | ⟨p, hp, rfl⟩ | ⟨c, hc, htok⟩ | rfl
    · exact hnode.noZero
    · exact hnode.offsets p hp
    · exact ih c hc (fun t' ht' => h t' (mem_subtrees_of_child hc ht')) tok htok
    · trivial

end Tree

/-- The structure block of a tree, from `start` on: its tokens with NOPs between them, and the token
at the end. -/
structure IsBlock (blob : Blob) (start : ℕ) (tokens : List Token) (t : Tree) : Prop where
  aligned : start % 4 = 0
  readable : ∀ t' ∈ t.subtrees, t'.Readable blob
  significant_eq : significant tokens = t.tokens
  suffix_eq : ∃ rest, blob.suffix start = tokens.flatMap Token.encode ++ (word 9 ++ rest)

/-- The structure block of a tree with properties of any values. -/
structure IsWritten (blob : Blob) (start : ℕ) (tokens : List Token) (t : Tree) : Prop where
  aligned : start % 4 = 0
  written : ∀ t' ∈ t.subtrees, t'.Written blob
  significant_eq : significant tokens = t.tokens
  suffix_eq : ∃ rest, blob.suffix start = tokens.flatMap Token.encode ++ (word 9 ++ rest)

variable {blob : Blob} {start : ℕ} {tokens : List Token} {t : Tree}

theorem IsBlock.isWritten (h : IsBlock blob start tokens t) : IsWritten blob start tokens t :=
  ⟨h.aligned, fun t' ht' => (h.readable t' ht').written, h.significant_eq, h.suffix_eq⟩

/-- **`build` makes the nodes of the tree**, or fails as they do. -/
theorem IsWritten.build_eq_toNode (h : IsWritten blob start tokens t) :
    build blob start = t.toNode blob := by
  have hwellFormed : ∀ tok ∈ tokens, tok.WellFormed := by
    intro tok htok
    by_cases hnop : tok = .nop
    · rw [hnop]
      trivial
    · refine Tree.wellFormed_of_mem_tokens h.written tok ?_
      rw [← h.significant_eq]
      exact List.mem_filter.mpr ⟨htok, by simpa using hnop⟩
  obtain ⟨rest, hsuffix⟩ := h.suffix_eq
  rw [build_tokens hwellFormed h.aligned hsuffix, ← foldlM_significant, h.significant_eq,
    Tree.foldlM_tokens, bind_assoc]
  exact bind_pure _

theorem build_eq_toNode (h : IsBlock blob start tokens t) : build blob start = t.toNode blob :=
  h.isWritten.build_eq_toNode

/-! ## What the nodes represent -/

/-- A node has the properties and the children of a tree, and no others. -/
def Represents : Tree → Node → Prop
  | .node name properties children, n =>
    n.key = (Node.new name).key ∧
    (∀ p ∈ properties, ∃ v, PropertyValue.guess p.value (some p.name) = .ok v ∧
      n.property p.name = some v) ∧
    (∀ key, n.property key ≠ none → key ∈ properties.map Property.name) ∧
    (∀ t ∈ children, ∃ c, n.child t.key = some c ∧ Represents t c) ∧
    ∀ k, n.child k ≠ none → k ∈ children.map Tree.key

theorem Represents.key_eq {n : Node} (h : Represents t n) : n.key = t.key := by
  obtain ⟨name, properties, children⟩ := t
  rw [Represents] at h
  exact h.1

/-- The entry that a property of a tree becomes. -/
def IsEntry (p : Property) (e : Str × PropertyValue) : Prop :=
  e.1 = p.name ∧ PropertyValue.guess p.value (some p.name) = .ok e.2

theorem readProperty_outcome {p : Property} (ht : t.Readable blob) (hp : p ∈ t.properties) :
    Outcome (fun _ => False) (IsEntry p) (Tree.readProperty blob p) := by
  obtain ⟨value, hvalue⟩ := ht.values p hp
  refine Outcome.of_eq_ok (a := (p.name, value)) ?_ ⟨rfl, hvalue⟩
  rw [Tree.readProperty, ht.names p hp, ok_bind, hvalue]
  rfl

theorem key_insert (n : Node) (entries : List (Str × PropertyValue)) (nodes : List Node) :
    ((n.insertProperties entries).insertChildren nodes).key = n.key := by
  simp only [Node.key, Node.insertChildren_name, Node.insertProperties_name,
    Node.insertChildren_unitAddress, Node.insertProperties_unitAddress]

theorem child_insertProperties {n : Node} {entries : List (Str × PropertyValue)}
    {k : Str × Option ℕ} : (n.insertProperties entries).child k = n.child k := by
  rw [Node.child, Node.insertProperties_children, Node.child]

/-- The rule of the nodes of a tree: what holds of a node when it holds of its children holds of the
node of the tree. -/
theorem toNode_outcome {R : Tree → Node → Prop} (hreadable : ∀ t' ∈ t.subtrees, t'.Readable blob)
    (hnode : ∀ name properties children entries nodes,
      Tree.node name properties children ∈ t.subtrees →
      List.Forall₂ IsEntry properties entries → List.Forall₂ R children nodes →
      R (.node name properties children)
        (((Node.new name).insertProperties entries).insertChildren nodes)) :
    Outcome (fun _ => False) (R t) (t.toNode blob) := by
  induction t using Tree.induct with
  | node name properties children ih =>
    have hself := Tree.self_mem_subtrees (.node name properties children)
    have hchildren : ∀ c ∈ children, Outcome (fun _ => False) (R c) (c.toNode blob) := by
      intro c hc
      refine ih c hc (fun t ht => hreadable t (Tree.mem_subtrees_of_child hc ht)) ?_
      intro name' properties' children' entries nodes hmem
      exact hnode name' properties' children' entries nodes (Tree.mem_subtrees_of_child hc hmem)
    have hname : fromUtf8 name = .ok name := if_pos (hreadable _ hself).utf8
    rw [Tree.toNode, hname, ok_bind, Tree.listToNode_eq]
    refine (Outcome.mapM fun p hp => readProperty_outcome (hreadable _ hself) hp).bind
      fun entries hentries => ?_
    refine (Outcome.mapM hchildren).bind fun nodes hnodes => ?_
    exact hnode name properties children entries nodes hself hentries hnodes

/-- The node of a tree represents it, when the nodes of its children represent these. -/
theorem insert_represents {name : Str} {properties : List Property} {children : List Tree}
    {entries : List (Str × PropertyValue)} {nodes : List Node}
    (hdistinct : (Tree.node name properties children).Distinct)
    (hentries : List.Forall₂ IsEntry properties entries)
    (hnodes : List.Forall₂ Represents children nodes) :
    Represents (.node name properties children)
      (((Node.new name).insertProperties entries).insertChildren nodes) := by
  have hnames : properties.map Property.name = entries.map Prod.fst :=
    hentries.map_eq fun p e h => h.1.symm
  have hkeys : children.map Tree.key = nodes.map Node.key :=
    hnodes.map_eq fun t n h => h.key_eq.symm
  have hproperty : ∀ key, (((Node.new name).insertProperties entries).insertChildren nodes).property
      key = ((Node.new name).insertProperties entries).property key :=
    fun key => by rw [Node.property, Node.insertChildren_properties, Node.property]
  rw [Represents]
  refine ⟨key_insert _ _ _, ?_, ?_, ?_, ?_⟩
  · intro p hp
    obtain ⟨e, he, hname, hvalue⟩ := hentries.exists_of_mem hp
    refine ⟨e.2, hvalue, ?_⟩
    rw [hproperty, ← hname]
    exact Node.property_insertProperties_of_mem (hnames ▸ hdistinct.properties) he
  · intro key hkey
    by_contra hnot
    rw [hnames] at hnot
    rw [hproperty, Node.property_insertProperties_of_notMem hnot] at hkey
    exact hkey rfl
  · intro t ht
    obtain ⟨c, hc, hrepresents⟩ := hnodes.exists_of_mem ht
    refine ⟨c, ?_, hrepresents⟩
    rw [← hrepresents.key_eq]
    exact Node.child_insertChildren_of_mem (hkeys ▸ hdistinct.children) hc
  · intro k hk
    by_contra hnot
    rw [hkeys] at hnot
    rw [Node.child_insertChildren_of_notMem hnot, child_insertProperties] at hk
    exact hk rfl

/-- **Building inverts flattening.** The node that `build` makes of the structure block of a tree has
the properties and the children of the tree, each child under its own key, and no others. -/
theorem build_represents (h : IsBlock blob start tokens t)
    (hdistinct : ∀ t' ∈ t.subtrees, t'.Distinct) :
    ∃ n, build blob start = .ok n ∧ Represents t n := by
  have hnode : Outcome (fun _ => False) (Represents t) (t.toNode blob) :=
    toNode_outcome h.readable fun name properties children entries nodes hmem hentries hnodes =>
      insert_represents (hdistinct _ hmem) hentries hnodes
  rw [build_eq_toNode h]
  exact hnode.exists_ok fun _ hfalse => hfalse.elim

/-- Two processors, the first one with a register. -/
def cpus : Tree :=
  .node [] [⟨ascii "compatible", 4, ascii "riscv-virtio" ++ [0]⟩]
    [.node (ascii "cpu@0") [⟨ascii "reg", 0, word 0⟩] [], .node (ascii "cpu@1") [] []]

def cpusTokens : List Token :=
  [.nop, .beginNode [], .prop 4 (ascii "riscv-virtio" ++ [0]), .beginNode (ascii "cpu@0"), .nop,
    .prop 0 (word 0), .endNode, .beginNode (ascii "cpu@1"), .nop, .endNode, .endNode, .nop]

/-- The strings are 16 bytes after the beginning, and the tokens 32 bytes. -/
def cpusBlob : Blob where
  base := 0x82200000
  bytes := List.replicate 12 0 ++ word 16 ++ padded (ascii "reg" ++ [0] ++ ascii "compatible" ++ [0])
    ++ cpusTokens.flatMap Token.encode ++ word 9

theorem build_represents_cpus :
    ∃ n, build cpusBlob 0x82200020 = .ok n ∧ Represents cpus n := by
  have hblock : IsBlock cpusBlob 0x82200020 cpusTokens cpus := by
    refine ⟨rfl, ?_, ?_, [], ?_⟩
    · decide +kernel
    · decide
    · decide
  exact build_represents hblock (by decide)

end DeviceTree

end AsyncKernel
