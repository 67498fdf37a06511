import AsyncKernel.DeviceTree.Guess
import AsyncKernel.DeviceTree.Inverse
import AsyncKernel.DeviceTree.Phandles

/-!
# References to interrupt parents

A node names its interrupt parent by a handle, a cell of four bytes, and `link_phandles` replaces the
handle by a reference to the node that has it. It only sees the handles that `guess` has taken for
numbers: `guess` looks for texts first, and takes a cell whose first three bytes look like text for a
text, whatever the name of the property is. It does not see the nodes either that `insert_child` has
replaced by a sibling with the same key.

## Main definitions

* `Tree.find`, `Tree.value`: the nodes of a tree that `build` keeps, and their properties
* `Tree.Carries`: a node of the tree, kept or not, has a property
* `TextCell`: a cell that is taken for a text
* `Resolved`: what linking is to do
* `Tree.KeepsReferences`: `build` keeps the interrupt parents, and the nodes that they name

## Main results

* `PropertyValue.guess_word`: a cell that is not taken for a text is a number
* `Tree.Carries.unique`: when all values of a property are different, one node has a value
* `linkPhandles_resolved_iff`: handles are resolved when no cell of an interrupt parent is taken for a
  text, and no sibling replaces a node with an interrupt parent or a node that one names
-/

namespace AsyncKernel

namespace DeviceTree

/-! ## Cells -/

/-- A cell that is taken for a text: the first byte is no control character, and the next two are
not either, but for a zero byte after another byte. -/
def TextCell (h : ℕ) : Prop :=
  0x20 ≤ h / 2 ^ 24 % 256 ∧
    (0x20 ≤ h / 2 ^ 16 % 256 ∧ (h / 2 ^ 8 % 256 = 0 ∨ 0x20 ≤ h / 2 ^ 8 % 256) ∨
      h / 2 ^ 16 % 256 = 0 ∧ 0x20 ≤ h / 2 ^ 8 % 256)

instance : DecidablePred TextCell := fun h => by
  unfold TextCell
  infer_instance

theorem word_bigEndian {value : List UInt8} (h : value.length = 4) :
    word (bigEndian value) = value := by
  obtain ⟨b₀, b₁, b₂, b₃, rfl⟩ := List.length_eq_four.mp h
  have h₀ := b₀.toNat_lt
  have h₁ := b₁.toNat_lt
  have h₂ := b₂.toNat_lt
  have h₃ := b₃.toNat_lt
  simp only [bigEndian, word, List.foldl_cons, List.foldl_nil, List.cons.injEq, and_true]
  simp only [← UInt8.toNat_inj, UInt8.toNat_ofNat']
  omega

theorem bigEndian_lt {value : List UInt8} (h : value.length = 4) : bigEndian value < 2 ^ 32 := by
  obtain ⟨b₀, b₁, b₂, b₃, rfl⟩ := List.length_eq_four.mp h
  have h₀ := b₀.toNat_lt
  have h₁ := b₁.toNat_lt
  have h₂ := b₂.toNat_lt
  have h₃ := b₃.toNat_lt
  simp only [bigEndian, List.foldl_cons, List.foldl_nil]
  omega

theorem word_injOn {h h' : ℕ} (hh : h < 2 ^ 32) (hh' : h' < 2 ^ 32) (heq : word h = word h') :
    h = h' := by
  rw [← bigEndian_word hh, heq, bigEndian_word hh']

namespace PropertyValue

variable {value : List UInt8} {name : Option Str} {v : PropertyValue} {h : ℕ}

theorem ofNat_eq_zero_iff (n : ℕ) : UInt8.ofNat n = 0 ↔ n % 256 = 0 := by
  rw [← UInt8.toNat_inj, UInt8.toNat_ofNat']
  rfl

theorem ofNat_lt_iff (n : ℕ) : UInt8.ofNat n < 0x20 ↔ n % 256 < 0x20 := by
  rw [UInt8.lt_iff_toNat_lt, UInt8.toNat_ofNat']
  rfl

/-- The loop of `guess` on a cell. -/
theorem scan_word (h : ℕ) :
    (scan false true (word h).dropLast).1 = true ↔ TextCell h := by
  have hdrop : (word h).dropLast =
      [UInt8.ofNat (h / 2 ^ 24), UInt8.ofNat (h / 2 ^ 16), UInt8.ofNat (h / 2 ^ 8)] := rfl
  rw [hdrop, TextCell]
  simp only [scan, ofNat_eq_zero_iff, ofNat_lt_iff, apply_ite Prod.fst]
  split_ifs <;> simp_all

/-- **A cell that is not taken for a text is a number.** -/
theorem guess_word (hh : h < 2 ^ 32) (htext : ¬ TextCell h) (name : Str) :
    guess (word h) (some name) =
      .ok (if name = ascii "interrupt-parent" then .pHandleRaw h else .u32 h) := by
  rw [← scan_word] at htext
  have hstring : (scan false true (word h).dropLast).1 = false := by simpa using htext
  have hlist : (scan false true (word h).dropLast).2 = false := by
    by_contra hlist
    exact htext (scan_fst_of_snd (by simpa using hlist))
  have hempty : (word h).isEmpty = false := rfl
  rw [guess]
  simp only [hempty, hstring, hlist, Bool.false_eq_true, if_false, length_word, bigEndian_word hh,
    Option.getD_some, Nat.reduceEqDiff, if_true]
  split <;> rfl

/-- What `guess` returns: a number of four bytes only for a cell that is not taken for a text. -/
theorem guess_cases {name : Str} (hguess : guess value (some name) = .ok v) :
    ((∀ h, v ≠ .pHandleRaw h) ∧ (∀ target, v ≠ .pHandle target) ∧ ∀ h, v ≠ .u32 h) ∨
      ∃ h < 2 ^ 32, value = word h ∧ ¬ TextCell h ∧
        v = if name = ascii "interrupt-parent" then .pHandleRaw h else .u32 h := by
  have hvalue := hguess
  rw [guess] at hguess
  cases hscan : scan false true value.dropLast with
  | mk isString isStringList =>
    have hcell : value.length = 4 → ¬ isString = true → ∃ h < 2 ^ 32, value = word h ∧
        ¬ TextCell h ∧ v = if name = ascii "interrupt-parent" then .pHandleRaw h else .u32 h := by
      intro hfour hstring
      have hword := word_bigEndian hfour
      have htext : ¬ TextCell (bigEndian value) := by
        rw [← scan_word, hword, hscan]
        exact hstring
      rw [← hword, guess_word (bigEndian_lt hfour) htext] at hvalue
      exact ⟨_, bigEndian_lt hfour, hword.symm, htext, (Except.ok.inj hvalue).symm⟩
    simp only [hscan] at hguess
    split_ifs at hguess with hempty hlist hstring height hfour hname
    · obtain rfl := Except.ok.inj hguess
      simp
    · obtain ⟨list, -, hlist⟩ := bind_eq_ok_iff.mp hguess
      obtain rfl := Except.ok.inj hlist
      simp
    · obtain ⟨text, -, htext⟩ := bind_eq_ok_iff.mp hguess
      obtain rfl := Except.ok.inj htext
      simp
    · obtain rfl := Except.ok.inj hguess
      simp
    · exact Or.inr (hcell hfour hstring)
    · exact Or.inr (hcell hfour hstring)
    · obtain rfl := Except.ok.inj hguess
      simp

end PropertyValue

/-! ## What `build` keeps -/

namespace Tree

/-- The child of a key that `build` keeps: the last one. -/
def child (t : Tree) (k : Str × Option ℕ) : Option Tree :=
  (t.children.filter fun c => c.key = k).getLast?

/-- The node at a place. -/
def find (t : Tree) : Path → Option Tree
  | [] => some t
  | k :: path => (t.child k).bind fun c => c.find path

/-- The bytes of a property. -/
def value (t : Tree) (name : Str) : Option (List UInt8) :=
  (t.properties.filter fun p => p.name = name).getLast?.map Property.value

/-- The bytes of a property of the node at a place. -/
def valueAt (t : Tree) (path : Path) (name : Str) : Option (List UInt8) :=
  (t.find path).bind fun t' => t'.value name

end Tree

/-- A node has the guessed properties of a tree, and no others. -/
def Guessed (t : Tree) (n : Node) : Prop := ∀ name,
  Option.Rel (fun bytes v => PropertyValue.guess bytes (some name) = .ok v) (t.value name)
    (n.property name)

/-- A node has the nodes that `build` keeps of a tree, and no others. -/
structure Mirrors (t : Tree) (n : Node) : Prop where
  key_eq : n.key = t.key
  keyed : n.Keyed
  find : ∀ path, Option.Rel Guessed (t.find path) (n.find path)

theorem insert_mirrors {name : Str} {properties : List Property} {children : List Tree}
    {entries : List (Str × PropertyValue)} {nodes : List Node}
    (hentries : List.Forall₂ IsEntry properties entries)
    (hnodes : List.Forall₂ Mirrors children nodes) :
    Mirrors (.node name properties children)
      (((Node.new name).insertProperties entries).insertChildren nodes) := by
  have hkeyed : (((Node.new name).insertProperties entries).insertChildren nodes).Keyed := by
    refine Node.Keyed.insertChildren ?_ fun n hn => ?_
    · exact Node.keyed_congr (Node.keyed_new name) Node.insertProperties_children
    · obtain ⟨t, -, h⟩ := hnodes.flip.exists_of_mem hn
      exact h.keyed
  refine ⟨key_insert _ _ _, hkeyed, fun path => ?_⟩
  cases path with
  | nil =>
    refine Option.Rel.some fun key => ?_
    have hlast := hentries.getLast?_filter (p := fun p => p.name = key) (q := fun e => e.1 = key)
      fun p e h => by rw [h.1]
    rw [Node.property, Node.insertChildren_properties, ← Node.property,
      Node.property_insertProperties, Tree.value]
    have hnew : (Node.new name).property key = none := rfl
    rw [hnew, Option.or_none]
    refine hlast.map fun p e h => ?_
    rw [← of_decide_eq_true h.2]
    exact h.1.2
  | cons k path =>
    have hlast := hnodes.getLast?_filter (p := fun t => t.key = k) (q := fun n => n.key = k)
      fun t n h => by rw [h.key_eq]
    have hnew : (Node.new name).child k = none := rfl
    rw [Node.find, Node.child_insertChildren, child_insertProperties, hnew, Option.or_none,
      Option.map_id, Tree.find]
    exact hlast.bind fun t n h => h.1.find path

/-- **The node of a tree mirrors it**, when no value is taken for a text that is not UTF-8. -/
theorem build_mirrors {blob : Blob} {start : ℕ} {tokens : List Token} {t : Tree}
    (h : IsWritten blob start tokens t)
    (htexts : ∀ t' ∈ t.subtrees, ∀ p ∈ t'.properties, ∀ text ∈ PropertyValue.texts p.value,
      validUtf8 text = true) : ∃ n, build blob start = .ok n ∧ Mirrors t n := by
  have hreadable : ∀ t' ∈ t.subtrees, t'.Readable blob := by
    intro t' ht'
    have hwritten := h.written t' ht'
    exact ⟨hwritten.noZero, hwritten.utf8, hwritten.offsets, hwritten.names,
      fun p hp => PropertyValue.guess_ok_iff.mpr (htexts t' ht' p hp)⟩
  have hnode : Outcome (fun _ => False) (Mirrors t) (t.toNode blob) :=
    toNode_outcome hreadable fun _ _ _ _ _ _ => insert_mirrors
  rw [h.build_eq_toNode]
  exact hnode.exists_ok fun _ hfalse => hfalse.elim

/-- What `build` has returned for has no value that is taken for a text that is not UTF-8. -/
theorem toNode_texts {blob : Blob} {t : Tree} (hwritten : ∀ t' ∈ t.subtrees, t'.Written blob) :
    Outcome (fun _ => True) (fun _ => ∀ t' ∈ t.subtrees, ∀ p ∈ t'.properties,
      ∀ text ∈ PropertyValue.texts p.value, validUtf8 text = true) (t.toNode blob) := by
  induction t using Tree.induct with
  | node name properties children ih =>
    have hself := hwritten _ (Tree.self_mem_subtrees _)
    rw [Tree.toNode, Tree.listToNode_eq]
    have hname : Outcome (fun _ => True) (fun _ => True) (fromUtf8 name) := by
      cases fromUtf8 name <;> trivial
    have hproperty : ∀ p ∈ properties, Outcome (fun _ => True) (fun _ : Str × PropertyValue =>
        ∀ text ∈ PropertyValue.texts p.value, validUtf8 text = true)
        (Tree.readProperty blob p) := by
      intro p hp
      rw [Tree.readProperty, hself.names p hp, ok_bind]
      cases hguess : PropertyValue.guess p.value (some p.name) with
      | error e => trivial
      | ok v => exact PropertyValue.guess_ok_iff.mp ⟨v, hguess⟩
    refine hname.bind fun name' _ => (Outcome.mapM hproperty).bind fun entries hentries => ?_
    refine (Outcome.mapM fun c hc => ih c hc fun t' ht' =>
      hwritten t' (Tree.mem_subtrees_of_child hc ht')).bind fun nodes hnodes => ?_
    intro t' ht' p hp
    rw [Tree.subtrees, Tree.listSubtrees_eq, List.mem_cons, List.mem_flatMap] at ht'
    rcases ht' with rfl | ⟨c, hc, ht'⟩
    · obtain ⟨-, -, htexts⟩ := hentries.exists_of_mem hp
      exact htexts
    · obtain ⟨-, -, htexts⟩ := hnodes.exists_of_mem hc
      exact htexts t' ht' p hp

theorem Mirrors.valueAt {t : Tree} {n : Node} (h : Mirrors t n) (path : Path) (name : Str) :
    Option.Rel (fun bytes v => PropertyValue.guess bytes (some name) = .ok v)
      (t.valueAt path name) (n.valueAt path name) :=
  (h.find path).bind fun _ _ hguessed => hguessed name

/-! ## Different handles -/

namespace Tree

variable {t : Tree} {path path' : Path} {name : Str} {v : List UInt8}

/-- The values of a property in all nodes. -/
def valuesOf (t : Tree) (name : Str) : List (List UInt8) :=
  t.subtrees.flatMap fun t' => (t'.properties.filter fun p => p.name = name).map Property.value

theorem valuesOf_eq (t : Tree) (name : Str) : t.valuesOf name =
    (t.properties.filter fun p => p.name = name).map Property.value ++
      t.children.flatMap fun c => c.valuesOf name := by
  obtain ⟨_, properties, children⟩ := t
  rw [valuesOf, subtrees, listSubtrees_eq, List.flatMap_cons, List.flatMap_assoc]
  rfl

theorem mem_of_child_eq_some {c : Tree} {k : Str × Option ℕ} (h : t.child k = some c) :
    c ∈ t.children ∧ c.key = k := by
  obtain ⟨hmem, hkey⟩ := List.mem_filter.mp (List.mem_of_getLast? h)
  exact ⟨hmem, of_decide_eq_true hkey⟩

theorem mem_of_value_eq_some (h : t.value name = some v) :
    v ∈ (t.properties.filter fun p => p.name = name).map Property.value := by
  obtain ⟨p, hp, rfl⟩ := Option.map_eq_some_iff.mp h
  exact List.mem_map.mpr ⟨p, List.mem_of_getLast? hp, rfl⟩

/-- A node of a tree, and its place. Siblings with one key have the same place: `find` only finds the
last of them. -/
inductive Occurs : Tree → Path → Tree → Prop
  | self (t : Tree) : Occurs t [] t
  | child {t c t' : Tree} {path : Path} (mem : c ∈ t.children) (occurs : Occurs c path t') :
      Occurs t (c.key :: path) t'

/-- A node of a tree has a property with some bytes. -/
structure Carries (t : Tree) (path : Path) (t' : Tree) (name : Str) (v : List UInt8) : Prop where
  occurs : t.Occurs path t'
  mem : v ∈ (t'.properties.filter fun p => p.name = name).map Property.value

/-- `build` keeps a property of a node: no sibling replaces the node or one above it, and no other
property of the name replaces the property. -/
structure Keeps (t : Tree) (path : Path) (t' : Tree) (name : Str) (v : List UInt8) : Prop where
  find_eq : t.find path = some t'
  value_eq : t'.value name = some v

theorem occurs_of_find {t' : Tree} (h : t.find path = some t') : t.Occurs path t' := by
  induction path generalizing t with
  | nil =>
    obtain rfl := Option.some.inj h
    exact .self t
  | cons k path ih =>
    obtain ⟨c, hchild, hfind⟩ := Option.bind_eq_some_iff.mp h
    obtain ⟨hmem, rfl⟩ := mem_of_child_eq_some hchild
    exact .child hmem (ih hfind)

theorem valueAt_eq_some_iff : t.valueAt path name = some v ↔ ∃ t', t.Keeps path t' name v := by
  rw [valueAt, Option.bind_eq_some_iff]
  exact exists_congr fun t' => ⟨fun h => ⟨h.1, h.2⟩, fun h => ⟨h.find_eq, h.value_eq⟩⟩

theorem Keeps.valueAt {t' : Tree} (h : t.Keeps path t' name v) : t.valueAt path name = some v :=
  valueAt_eq_some_iff.mpr ⟨t', h⟩

theorem Keeps.carries {t' : Tree} (h : t.Keeps path t' name v) : t.Carries path t' name v :=
  ⟨occurs_of_find h.find_eq, mem_of_value_eq_some h.value_eq⟩

theorem Carries.mem_valuesOf {t' : Tree} (h : t.Carries path t' name v) : v ∈ t.valuesOf name := by
  obtain ⟨hoccurs, hmem⟩ := h
  induction hoccurs with
  | self t =>
    rw [valuesOf_eq]
    exact List.mem_append_left _ hmem
  | child hc _ ih =>
    rw [valuesOf_eq]
    exact List.mem_append_right _ (List.mem_flatMap.mpr ⟨_, hc, ih hmem⟩)

/-- **When all values of a property are different, one node has a value.** -/
theorem Carries.unique {a a' : Tree} (hnodup : (t.valuesOf name).Nodup)
    (h : t.Carries path a name v) (h' : t.Carries path' a' name v) : path = path' ∧ a = a' := by
  obtain ⟨hoccurs, hmem⟩ := h
  obtain ⟨hoccurs', hmem'⟩ := h'
  induction hoccurs generalizing path' with
  | self t =>
    rw [valuesOf_eq] at hnodup
    cases hoccurs' with
    | self => exact ⟨rfl, rfl⟩
    | child hc' hoccurs' =>
      exact absurd (List.mem_flatMap.mpr ⟨_, hc', Carries.mem_valuesOf ⟨hoccurs', hmem'⟩⟩)
        (List.disjoint_of_nodup_append hnodup hmem)
  | @child t c _ path hc hoccurs ih =>
    rw [valuesOf_eq] at hnodup
    cases hoccurs' with
    | self =>
      exact absurd (List.mem_flatMap.mpr ⟨c, hc, Carries.mem_valuesOf ⟨hoccurs, hmem⟩⟩)
        (List.disjoint_of_nodup_append hnodup hmem')
    | @child _ c' _ path' hc' hoccurs' =>
      obtain ⟨hnodup', hdisjoint⟩ := List.nodup_flatMap.mp hnodup.of_append_right
      by_cases hcc : c = c'
      · subst hcc
        obtain ⟨rfl, rfl⟩ := ih (hnodup' c hc) hmem hoccurs'
        exact ⟨rfl, rfl⟩
      · -- different children have different values
        have hsymm : Std.Symm (Function.onFun List.Disjoint fun c : Tree => c.valuesOf name) :=
          ⟨fun _ _ h => h.symm⟩
        have hpair := hdisjoint.forall hc hc' hcc
        exact absurd (Carries.mem_valuesOf ⟨hoccurs', hmem'⟩)
          (hpair (Carries.mem_valuesOf ⟨hoccurs, hmem⟩))

/-- When all values of a property are different, one place has a value. -/
theorem eq_of_valueAt (hnodup : (t.valuesOf name).Nodup) (h : t.valueAt path name = some v)
    (h' : t.valueAt path' name = some v) : path = path' := by
  obtain ⟨_, hkeeps⟩ := valueAt_eq_some_iff.mp h
  obtain ⟨_, hkeeps'⟩ := valueAt_eq_some_iff.mp h'
  exact (hkeeps.carries.unique hnodup hkeeps'.carries).1

/-- `build` keeps the interrupt parents of a tree, and the handles that they name. An interrupt parent
zero is free to be lost when a node has the handle zero. -/
structure KeepsReferences (t : Tree) : Prop where
  parent : ∀ h b B, h < 2 ^ 32 → t.Carries b B (ascii "interrupt-parent") (word h) →
    (h = 0 → ∀ a A, ¬ t.Carries a A (ascii "phandle") (word 0)) →
    t.Keeps b B (ascii "interrupt-parent") (word h)
  target : ∀ h a A b B, 0 < h → h < 2 ^ 32 → t.Carries a A (ascii "phandle") (word h) →
    t.Carries b B (ascii "interrupt-parent") (word h) → t.Keeps a A (ascii "phandle") (word h)

end Tree

/-! ## Resolving -/

/-- What linking is to do with the references of a tree, whichever of its nodes they are in. When a
node `A` has the handle of an interrupt parent of a node `B`, and the handle is not zero or the largest
one, then `B` and its interrupt parent are in the device tree, the interrupt parent is a reference to
the place of `A`, and the node there has the handle. A handle that no node has stays as it is, and
nothing else changes. -/
structure Resolved (t : Tree) (n n' : Node) : Prop where
  linked : ∀ h a A b B, 0 < h → h < 2 ^ 32 - 1 → t.Carries a A (ascii "phandle") (word h) →
    t.Carries b B (ascii "interrupt-parent") (word h) →
    t.Keeps b B (ascii "interrupt-parent") (word h) ∧
      n'.valueAt b (ascii "interrupt-parent") = some (.pHandle a) ∧
      n'.valueAt a (ascii "phandle") = some (.u32 h)
  raw : ∀ h b B, h < 2 ^ 32 → t.Carries b B (ascii "interrupt-parent") (word h) →
    (∀ a A, ¬ t.Carries a A (ascii "phandle") (word h)) →
    t.Keeps b B (ascii "interrupt-parent") (word h) ∧
      n'.valueAt b (ascii "interrupt-parent") = some (.pHandleRaw h)
  keys : ∀ path, (n'.find path).map Node.key = (n.find path).map Node.key
  others : ∀ path name, (name = ascii "interrupt-parent" →
    ∀ h < 2 ^ 32, t.valueAt path name ≠ some (word h)) → n'.valueAt path name = n.valueAt path name

variable {blob : Blob} {start : ℕ} {tokens : List Token} {t : Tree} {n : Node}

theorem valueAt_linkPhandles (path : Path) (name : Str) : n.linkPhandles.valueAt path name =
    (n.valueAt path name).map (Node.linkValue n.phandles) := Node.valueAt_mapValues name

/-- A guessed value: that of a property of the tree. -/
theorem Mirrors.exists_guess (h : Mirrors t n) {path : Path} {name : Str} {v : PropertyValue}
    (hv : n.valueAt path name = some v) :
    ∃ bytes, t.valueAt path name = some bytes ∧ PropertyValue.guess bytes (some name) = .ok v := by
  have hrel := h.valueAt path name
  rw [hv] at hrel
  generalize t.valueAt path name = x at hrel
  cases hrel with
  | some hguess => exact ⟨_, rfl, hguess⟩

theorem Mirrors.exists_valueAt (h : Mirrors t n) {path : Path} {name : Str} {bytes : List UInt8}
    (hbytes : t.valueAt path name = some bytes) :
    ∃ v, n.valueAt path name = some v ∧ PropertyValue.guess bytes (some name) = .ok v := by
  have hrel := h.valueAt path name
  rw [hbytes] at hrel
  generalize n.valueAt path name = x at hrel
  cases hrel with
  | some hguess => exact ⟨_, rfl, hguess⟩

/-- The handles that interrupt parents are guessed to have. -/
theorem Mirrors.pHandleRaw_iff (h : Mirrors t n) {path : Path} {name : Str} {handle : ℕ} :
    n.valueAt path name = some (.pHandleRaw handle) ↔ name = ascii "interrupt-parent" ∧
      handle < 2 ^ 32 ∧ ¬ TextCell handle ∧ t.valueAt path name = some (word handle) := by
  constructor
  · intro hv
    obtain ⟨bytes, hbytes, hguess⟩ := h.exists_guess hv
    obtain ⟨hraw, -, -⟩ | ⟨handle', hlt, rfl, htext, hvalue⟩ := PropertyValue.guess_cases hguess
    · exact absurd rfl (hraw handle)
    · split at hvalue
      · rename_i hname
        obtain rfl := PropertyValue.pHandleRaw.inj hvalue
        exact ⟨hname, hlt, htext, hbytes⟩
      · cases hvalue
  · rintro ⟨rfl, hlt, htext, hbytes⟩
    obtain ⟨v, hv, hguess⟩ := h.exists_valueAt hbytes
    rw [PropertyValue.guess_word hlt htext, if_pos rfl] at hguess
    rw [hv, Except.ok.inj hguess]

/-- The handles that nodes are guessed to have. -/
theorem Mirrors.phandle_iff (h : Mirrors t n) {path : Path} {handle : ℕ} :
    n.valueAt path (ascii "phandle") = some (.u32 handle) ↔
      handle < 2 ^ 32 ∧ ¬ TextCell handle ∧
        t.valueAt path (ascii "phandle") = some (word handle) := by
  have hname : ascii "phandle" ≠ ascii "interrupt-parent" := by decide
  constructor
  · intro hv
    obtain ⟨bytes, hbytes, hguess⟩ := h.exists_guess hv
    obtain ⟨-, -, hu32⟩ | ⟨handle', hlt, rfl, htext, hvalue⟩ := PropertyValue.guess_cases hguess
    · exact absurd rfl (hu32 handle)
    · rw [if_neg hname] at hvalue
      obtain rfl := PropertyValue.u32.inj hvalue
      exact ⟨hlt, htext, hbytes⟩
  · rintro ⟨hlt, htext, hbytes⟩
    obtain ⟨v, hv, hguess⟩ := h.exists_valueAt hbytes
    rw [PropertyValue.guess_word hlt htext, if_neg hname] at hguess
    rw [hv, Except.ok.inj hguess]

/-- Linking leaves what is no handle as it is. -/
theorem linkValue_eq_self {phandles : List (ℕ × Path)} {v : PropertyValue}
    (h : ∀ handle, v ≠ .pHandleRaw handle) : Node.linkValue phandles v = v := by
  cases v with
  | pHandleRaw handle => exact absurd rfl (h handle)
  | _ => rfl

/-- Linking resolves the handles when no cell of an interrupt parent is taken for a text, and `build`
keeps the references. -/
theorem Mirrors.resolved (h : Mirrors t n) (hnodup : (t.valuesOf (ascii "phandle")).Nodup)
    (htext : ∀ b B handle, handle < 2 ^ 32 →
      t.Carries b B (ascii "interrupt-parent") (word handle) → ¬ TextCell handle)
    (hkeeps : t.KeepsReferences) : Resolved t n n.linkPhandles := by
  refine ⟨?_, ?_, ?_, ?_⟩
  · intro handle a A b B hpos hmax ha hb
    have hlt : handle < 2 ^ 32 := by omega
    have hnot := htext b B handle hlt hb
    have hparent := hkeeps.parent handle b B hlt hb fun hzero => absurd hzero hpos.ne'
    have htarget := hkeeps.target handle a A b B hpos hlt ha hb
    have hraw := h.pHandleRaw_iff.mpr ⟨rfl, hlt, hnot, hparent.valueAt⟩
    have hu32 := h.phandle_iff.mpr ⟨hlt, hnot, htarget.valueAt⟩
    have hlookup := Node.lookup_phandles h.keyed hu32 fun path hpath =>
      Tree.eq_of_valueAt hnodup (h.phandle_iff.mp hpath).2.2 htarget.valueAt
    refine ⟨hparent, ?_, ?_⟩
    · rw [valueAt_linkPhandles, hraw, Option.map_some, Node.linkValue, hlookup]
    · rw [valueAt_linkPhandles, hu32]
      rfl
  · intro handle b B hlt hb hnone
    have hparent := hkeeps.parent handle b B hlt hb fun hzero => hzero ▸ hnone
    have hraw := h.pHandleRaw_iff.mpr ⟨rfl, hlt, htext b B handle hlt hb, hparent.valueAt⟩
    have hlookup := Node.lookup_phandles_eq_none h.keyed fun path hpath => by
      obtain ⟨A, ha⟩ := Tree.valueAt_eq_some_iff.mp (h.phandle_iff.mp hpath).2.2
      exact hnone path A ha.carries
    refine ⟨hparent, ?_⟩
    rw [valueAt_linkPhandles, hraw, Option.map_some, Node.linkValue, hlookup]
  · intro path
    rw [Node.linkPhandles, Node.find_mapValues, Option.map_map]
    congr 1
    funext m
    exact Node.mapValues_key
  · intro path name hother
    rw [valueAt_linkPhandles]
    cases hv : n.valueAt path name with
    | none => rfl
    | some v =>
      rw [Option.map_some, linkValue_eq_self]
      rintro handle rfl
      obtain ⟨rfl, hlt, -, hbytes⟩ := h.pHandleRaw_iff.mp hv
      exact hother rfl handle hlt hbytes

/-- An interrupt parent that is a handle or a reference once it is linked was no text before. -/
theorem Mirrors.not_textCell (h : Mirrors t n) {b : Path} {handle : ℕ} (hlt : handle < 2 ^ 32)
    (hb : t.valueAt b (ascii "interrupt-parent") = some (word handle)) {v : PropertyValue}
    (hlinked : n.linkPhandles.valueAt b (ascii "interrupt-parent") = some v)
    (hv : (∃ handle', v = .pHandleRaw handle') ∨ ∃ target, v = .pHandle target) :
    ¬ TextCell handle := by
  obtain ⟨v', hv', hguess⟩ := h.exists_valueAt hb
  rw [valueAt_linkPhandles, hv', Option.map_some] at hlinked
  obtain ⟨hraw, hpHandle, -⟩ | ⟨handle', hlt', hword, hnot, -⟩ := PropertyValue.guess_cases hguess
  · rw [linkValue_eq_self hraw] at hlinked
    obtain rfl := Option.some.inj hlinked
    obtain ⟨handle', rfl⟩ | ⟨target, rfl⟩ := hv
    · exact absurd rfl (hraw handle')
    · exact absurd rfl (hpHandle target)
  · exact word_injOn hlt hlt' hword ▸ hnot

/-- The largest handle is taken for a text that is not UTF-8. -/
theorem ne_max_of_texts (htexts : ∀ t' ∈ t.subtrees, ∀ p ∈ t'.properties,
      ∀ text ∈ PropertyValue.texts p.value, validUtf8 text = true) {name : Str} {handle : ℕ}
    (hmem : word handle ∈ t.valuesOf name) : handle ≠ 2 ^ 32 - 1 := by
  rintro rfl
  obtain ⟨t', ht', hmem⟩ := List.mem_flatMap.mp hmem
  obtain ⟨p, hp, hvalue⟩ := List.mem_map.mp hmem
  have hutf8 := htexts t' ht' p (List.mem_filter.mp hp).1
  rw [hvalue] at hutf8
  exact absurd hutf8 (by decide)

/-- **Handles are resolved when no cell of an interrupt parent is taken for a text, and no sibling
replaces a node that has an interrupt parent or that one names**, and `guess` does not panic on a text
that is not UTF-8. -/
theorem linkPhandles_resolved_iff (h : IsWritten blob start tokens t)
    (hnodup : (t.valuesOf (ascii "phandle")).Nodup) :
    (∃ n, build blob start = .ok n ∧ Resolved t n n.linkPhandles) ↔
      (∀ t' ∈ t.subtrees, ∀ p ∈ t'.properties, ∀ text ∈ PropertyValue.texts p.value,
        validUtf8 text = true) ∧
      (∀ b B handle, handle < 2 ^ 32 →
        t.Carries b B (ascii "interrupt-parent") (word handle) → ¬ TextCell handle) ∧
      t.KeepsReferences := by
  constructor
  · rintro ⟨n, hn, hresolved⟩
    have htexts := (toNode_texts h.written).post_of_eq_ok (h.build_eq_toNode ▸ hn)
    obtain ⟨n', hn', hmirrors⟩ := build_mirrors h htexts
    obtain rfl := Except.ok.inj (hn.symm.trans hn')
    -- an interrupt parent that names a node, and one that names none
    have hlinked : ∀ handle a A b B, 0 < handle → handle < 2 ^ 32 →
        t.Carries a A (ascii "phandle") (word handle) →
        t.Carries b B (ascii "interrupt-parent") (word handle) →
        (¬ TextCell handle ∧ t.Keeps b B (ascii "interrupt-parent") (word handle)) ∧
          t.Keeps a A (ascii "phandle") (word handle) := by
      intro handle a A b B hpos hlt ha hb
      have hmax := ne_max_of_texts htexts hb.mem_valuesOf
      obtain ⟨hkeeps, hvalue, hu32⟩ := hresolved.linked handle a A b B hpos (by omega) ha hb
      refine ⟨⟨hmirrors.not_textCell hlt hkeeps.valueAt hvalue (Or.inr ⟨a, rfl⟩), hkeeps⟩, ?_⟩
      have hunlinked : n.valueAt a (ascii "phandle") = some (.u32 handle) := by
        rwa [hresolved.others a (ascii "phandle") fun heq => absurd heq (by decide)] at hu32
      obtain ⟨A', hA'⟩ := Tree.valueAt_eq_some_iff.mp (hmirrors.phandle_iff.mp hunlinked).2.2
      obtain ⟨-, rfl⟩ := ha.unique hnodup hA'.carries
      exact hA'
    have hraw : ∀ handle b B, handle < 2 ^ 32 →
        t.Carries b B (ascii "interrupt-parent") (word handle) →
        (∀ a A, ¬ t.Carries a A (ascii "phandle") (word handle)) →
        ¬ TextCell handle ∧ t.Keeps b B (ascii "interrupt-parent") (word handle) := by
      intro handle b B hlt hb hnone
      obtain ⟨hkeeps, hvalue⟩ := hresolved.raw handle b B hlt hb hnone
      exact ⟨hmirrors.not_textCell hlt hkeeps.valueAt hvalue (Or.inl ⟨handle, rfl⟩), hkeeps⟩
    refine ⟨htexts, fun b B handle hlt hb hcell => ?_, fun handle b B hlt hb hzero => ?_,
      fun handle a A b B hpos hlt ha hb => (hlinked handle a A b B hpos hlt ha hb).2⟩
    · have hpos : handle ≠ 0 := by
        rintro rfl
        exact absurd hcell (by decide)
      by_cases hnone : ∀ a A, ¬ t.Carries a A (ascii "phandle") (word handle)
      · exact (hraw handle b B hlt hb hnone).1 hcell
      · push Not at hnone
        obtain ⟨a, A, ha⟩ := hnone
        exact (hlinked handle a A b B (by omega) hlt ha hb).1.1 hcell
    · by_cases hnone : ∀ a A, ¬ t.Carries a A (ascii "phandle") (word handle)
      · exact (hraw handle b B hlt hb hnone).2
      · have hpos : handle ≠ 0 := by
          rintro rfl
          exact hnone (hzero rfl)
        push Not at hnone
        obtain ⟨a, A, ha⟩ := hnone
        exact (hlinked handle a A b B (by omega) hlt ha hb).1.2
  · rintro ⟨htexts, hcells, hkeeps⟩
    obtain ⟨n, hn, hmirrors⟩ := build_mirrors h htexts
    exact ⟨n, hn, hmirrors.resolved hnodup hcells hkeeps⟩

/-- A device whose interrupt parent is an interrupt controller with a handle. -/
def controllerTree (handle : ℕ) : Tree :=
  .node [] [⟨ascii "interrupt-parent", 8, word handle⟩]
    [.node (ascii "plic@c000000") [⟨ascii "phandle", 0, word handle⟩] []]

/-- The strings are 16 bytes after the beginning, and the tokens 44 bytes. -/
def controllerBlob (handle : ℕ) : Blob where
  base := 0x82200000
  bytes := List.replicate 12 0 ++ word 16 ++
    padded (ascii "phandle" ++ [0] ++ ascii "interrupt-parent" ++ [0]) ++
    (controllerTree handle).tokens.flatMap Token.encode ++ word 9

/-- A small handle is resolved. -/
theorem linkPhandles_resolved_iff_controller :
    (∃ n, build (controllerBlob 3) 0x8220002c = .ok n ∧
        Resolved (controllerTree 3) n n.linkPhandles) ↔
      (∀ t' ∈ (controllerTree 3).subtrees, ∀ p ∈ t'.properties,
        ∀ text ∈ PropertyValue.texts p.value, validUtf8 text = true) ∧
      (∀ b B handle, handle < 2 ^ 32 →
        (controllerTree 3).Carries b B (ascii "interrupt-parent") (word handle) →
        ¬ TextCell handle) ∧
      (controllerTree 3).KeepsReferences := by
  have hwritten : IsWritten (controllerBlob 3) 0x8220002c (controllerTree 3).tokens
      (controllerTree 3) := by
    refine ⟨rfl, ?_, ?_, [], ?_⟩
    · decide +kernel
    · decide
    · decide +kernel
  exact linkPhandles_resolved_iff hwritten (by decide)

/-- A handle whose bytes are letters is taken for a text, and is not resolved. -/
theorem not_resolved_text :
    IsWritten (controllerBlob 0x41424344) 0x8220002c (controllerTree 0x41424344).tokens
        (controllerTree 0x41424344) ∧
      (∀ v ∈ (controllerTree 0x41424344).valuesOf (ascii "phandle"), v.length = 4) ∧
      ((controllerTree 0x41424344).valuesOf (ascii "phandle")).Nodup ∧
      ¬ ∃ n, build (controllerBlob 0x41424344) 0x8220002c = .ok n ∧
        Resolved (controllerTree 0x41424344) n n.linkPhandles := by
  refine ⟨⟨rfl, ?_, ?_, [], ?_⟩, by decide, by decide, ?_⟩
  · decide +kernel
  · decide
  · decide +kernel
  · rintro ⟨n, hn, hresolved⟩
    have hplic : (controllerTree 0x41424344).Carries [(ascii "plic", some 0xc000000)]
        (.node (ascii "plic@c000000") [⟨ascii "phandle", 0, word 0x41424344⟩] [])
        (ascii "phandle") (word 0x41424344) := by
      refine ⟨?_, by decide⟩
      have hkey : [(ascii "plic", some 0xc000000)] = [(Tree.node (ascii "plic@c000000")
          [⟨ascii "phandle", 0, word 0x41424344⟩] []).key] := by decide +kernel
      rw [hkey]
      exact .child (List.mem_singleton_self _) (.self _)
    obtain ⟨-, hlinked, -⟩ := hresolved.linked 0x41424344 _ _ [] _ (by decide) (by decide) hplic
      ⟨.self _, by decide⟩
    have hstring : (build (controllerBlob 0x41424344) 0x8220002c).map
        (fun n => n.linkPhandles.valueAt [] (ascii "interrupt-parent")) =
        .ok (some (.string [0x41, 0x42, 0x43])) := by decide +kernel
    rw [hn] at hstring
    exact absurd (hlinked.symm.trans (Except.ok.inj hstring)) (by decide)

end DeviceTree

end AsyncKernel
