import AsyncKernel.DeviceTree.Build

/-!
# Linking phandles

`link_phandles` of `fdt.rs` walks over the device tree twice. The first walk makes a map from the
handles of the nodes to the nodes, the second one replaces every handle that is in the map by a
reference to its node.

## Main definitions

* `Node.walk`: the nodes in the order in which a walk visits them
* `Node.mapValues`: a walk that changes the values of properties
* `Node.linkPhandles`: the device tree with references
* `Node.Keyed`: the maps of a device tree have different keys

## Main results

* `Node.mem_walk_iff`: a walk visits each node once, at its place
* `Node.find_mapValues`: a walk that changes values leaves the nodes where they are
* `Node.lookup_phandles`: the map of the first walk
-/

namespace AsyncKernel

namespace DeviceTree

/-! ## Walks -/

/-- The order of `BTreeMap<&str, _>`. -/
def nameLe (a b : Str) : Prop := a ≤ b

instance : DecidableRel nameLe := fun a b => inferInstanceAs (Decidable (a ≤ b))

/-- The order of `BTreeMap<Option<usize>, _>`. -/
def addressLe : Option ℕ → Option ℕ → Prop
  | none, _ => True
  | some _, none => False
  | some a, some b => a ≤ b

instance : DecidableRel addressLe
  | none, _ => inferInstanceAs (Decidable True)
  | some _, none => inferInstanceAs (Decidable False)
  | some a, some b => inferInstanceAs (Decidable (a ≤ b))

/-- The values of a map, in the order of its keys. -/
def values {κ α : Type} (le : κ → κ → Prop) [DecidableRel le] (m : List (κ × α)) : List α :=
  (m.insertionSort fun a b => le a.1 b.1).map Prod.snd

theorem mem_values {κ α : Type} {le : κ → κ → Prop} [DecidableRel le] {m : List (κ × α)} {v : α} :
    v ∈ values le m ↔ ∃ k, (k, v) ∈ m := by
  simp [values, List.mem_map, List.mem_insertionSort]

namespace Node

mutual

/-- `walk`: the nodes that are visited, with their places. -/
def walk : Node → List (Path × Node)
  | mk name unitAddress children properties =>
    ([], mk name unitAddress children properties) :: (values nameLe (walkNames children)).flatten

/-- The walks over the children, for each of their names. -/
def walkNames : List (Str × List (Option ℕ × Node)) → List (Str × List (Path × Node))
  | [] => []
  | (name, d) :: names =>
    (name, (values addressLe (walkAddresses name d)).flatten) :: walkNames names

/-- The walks over the children of a name, for each of their unit addresses. -/
def walkAddresses (name : Str) : List (Option ℕ × Node) → List (Option ℕ × List (Path × Node))
  | [] => []
  | (address, n) :: d =>
    (address, n.walk.map fun v => ((name, address) :: v.1, v.2)) :: walkAddresses name d

end

mutual

/-- `walk_mut` with a closure that changes the values of the properties of a node. -/
def mapValues (f : PropertyValue → PropertyValue) : Node → Node
  | mk name unitAddress children properties =>
    mk name unitAddress (mapNames f children) (properties.map fun e => (e.1, f e.2))

def mapNames (f : PropertyValue → PropertyValue) :
    List (Str × List (Option ℕ × Node)) → List (Str × List (Option ℕ × Node))
  | [] => []
  | (name, d) :: names => (name, mapAddresses f d) :: mapNames f names

def mapAddresses (f : PropertyValue → PropertyValue) :
    List (Option ℕ × Node) → List (Option ℕ × Node)
  | [] => []
  | (address, n) :: d => (address, n.mapValues f) :: mapAddresses f d

end

/-! ## Linking -/

/-- The closure of the first walk. -/
def insertPhandle (phandles : List (ℕ × Path)) (v : Path × Node) : List (ℕ × Path) :=
  match v.2.property (ascii "phandle") with
  | some (.u32 phandle) => Assoc.insert phandle v.1 phandles
  | _ => phandles

/-- The phandle map. -/
def phandles (n : Node) : List (ℕ × Path) := n.walk.foldl insertPhandle []

/-- What the second walk does to a value. -/
def linkValue (phandles : List (ℕ × Path)) : PropertyValue → PropertyValue
  | .pHandleRaw handle =>
    match phandles.lookup handle with
    | some target => .pHandle target
    | none => .pHandleRaw handle
  | value => value

/-- `link_phandles`. -/
def linkPhandles (n : Node) : Node := n.mapValues (linkValue n.phandles)

/-! ## What a walk visits -/

theorem walkAddresses_eq (name : Str) (d : List (Option ℕ × Node)) : walkAddresses name d =
    d.map fun a => (a.1, a.2.walk.map fun v => ((name, a.1) :: v.1, v.2)) := by
  induction d with
  | nil => rfl
  | cons a d ih => rw [walkAddresses, ih, List.map_cons]

theorem walkNames_eq (names : List (Str × List (Option ℕ × Node))) : walkNames names =
    names.map fun e => (e.1, (values addressLe (walkAddresses e.1 e.2)).flatten) := by
  induction names with
  | nil => rfl
  | cons e names ih => rw [walkNames, ih, List.map_cons]

/-- A walk visits the node itself, and what the walks over its children visit. -/
theorem mem_walk {n m : Node} {path : Path} : (path, m) ∈ n.walk ↔ path = [] ∧ m = n ∨
    ∃ e ∈ n.children, ∃ a ∈ e.2, ∃ path', path = (e.1, a.1) :: path' ∧ (path', m) ∈ a.2.walk := by
  obtain ⟨name, unitAddress, children, properties⟩ := n
  rw [walk, List.mem_cons, Prod.mk.injEq, List.mem_flatten]
  refine or_congr Iff.rfl ?_
  simp only [mem_values, walkNames_eq, walkAddresses_eq, List.mem_map, Prod.mk.injEq]
  constructor
  · rintro ⟨_, ⟨_, e, he, rfl, rfl⟩, hmem⟩
    obtain ⟨_, hvisits, hmem⟩ := List.mem_flatten.mp hmem
    obtain ⟨_, hvisits⟩ := mem_values.mp hvisits
    obtain ⟨a, ha, heq⟩ := List.mem_map.mp hvisits
    obtain ⟨rfl, rfl⟩ := Prod.mk.inj heq
    obtain ⟨v, hv, heq⟩ := List.mem_map.mp hmem
    obtain ⟨rfl, rfl⟩ := Prod.mk.inj heq
    exact ⟨e, he, a, ha, v.1, rfl, hv⟩
  · rintro ⟨e, he, a, ha, path', rfl, hmem⟩
    refine ⟨_, ⟨_, e, he, rfl, rfl⟩, List.mem_flatten.mpr
      ⟨a.2.walk.map fun v => ((e.1, a.1) :: v.1, v.2), ?_, ?_⟩⟩
    · exact mem_values.mpr ⟨a.1, List.mem_map.mpr ⟨a, ha, rfl⟩⟩
    · exact List.mem_map.mpr ⟨(path', m), hmem, rfl⟩

/-- The maps of a node, and of all nodes below it, have different keys. -/
inductive Keyed : Node → Prop
  | intro {n : Node} (names : (n.children.map Prod.fst).Nodup)
      (addresses : ∀ e ∈ n.children, (e.2.map Prod.fst).Nodup)
      (nodes : ∀ e ∈ n.children, ∀ a ∈ e.2, Keyed a.2) : Keyed n

/-- The value of a property of the node at a place. -/
def valueAt (n : Node) (path : Path) (name : Str) : Option PropertyValue :=
  (n.find path).bind fun m => m.property name

variable {n m other : Node} {path : Path} {f : PropertyValue → PropertyValue}

/-- The children are the nodes in the maps, when these have different keys. -/
theorem child_eq_some_iff (h : n.Keyed) {k : Str × Option ℕ} :
    n.child k = some m ↔ ∃ e ∈ n.children, ∃ a ∈ e.2, k = (e.1, a.1) ∧ m = a.2 := by
  obtain ⟨hnames, haddresses, -⟩ := h
  obtain ⟨name, address⟩ := k
  rw [child, Option.bind_eq_some_iff]
  constructor
  · rintro ⟨d, hd, hm⟩
    have hmem := (Assoc.mem_iff_lookup hnames).mpr hd
    exact ⟨_, hmem, _, (Assoc.mem_iff_lookup (haddresses _ hmem)).mpr hm, rfl, rfl⟩
  · rintro ⟨e, he, a, ha, heq, rfl⟩
    obtain ⟨rfl, rfl⟩ := Prod.mk.inj heq
    exact ⟨e.2, (Assoc.mem_iff_lookup hnames).mp he,
      (Assoc.mem_iff_lookup (haddresses e he)).mp ha⟩

/-- **A walk visits each node once, at its place.** -/
theorem mem_walk_iff (h : n.Keyed) : (path, m) ∈ n.walk ↔ n.find path = some m := by
  induction h generalizing path with
  | @intro n names addresses nodes ih =>
    rw [mem_walk]
    cases path with
    | nil =>
      rw [find, Option.some_inj]
      constructor
      · rintro (⟨-, rfl⟩ | ⟨e, he, a, ha, path', hnil, -⟩)
        · rfl
        · exact absurd hnil.symm (List.cons_ne_nil _ _)
      · rintro rfl
        exact Or.inl ⟨rfl, rfl⟩
    | cons k path =>
      rw [find, Option.bind_eq_some_iff]
      simp only [child_eq_some_iff ⟨names, addresses, nodes⟩]
      constructor
      · rintro (⟨hnil, -⟩ | ⟨e, he, a, ha, path', heq, hmem⟩)
        · exact absurd hnil (List.cons_ne_nil _ _)
        · obtain ⟨rfl, rfl⟩ := List.cons.inj heq
          exact ⟨a.2, ⟨e, he, a, ha, rfl, rfl⟩, (ih e he a ha).mp hmem⟩
      · rintro ⟨c, ⟨e, he, a, ha, rfl, rfl⟩, hfind⟩
        exact Or.inr ⟨e, he, a, ha, path, rfl, (ih e he a ha).mpr hfind⟩

theorem keyed_congr (h : n.Keyed) (hchildren : m.children = n.children) : m.Keyed := by
  obtain ⟨names, addresses, nodes⟩ := h
  exact ⟨hchildren ▸ names, hchildren ▸ addresses, hchildren ▸ nodes⟩

theorem keyed_new (name : Str) : (Node.new name).Keyed := by
  have hnone : (Node.new name).children = [] := rfl
  refine ⟨?_, ?_, ?_⟩ <;> simp [hnone]

/-- Maps have different keys after a child has been inserted. -/
theorem Keyed.insertChild (h : n.Keyed) (hother : other.Keyed) : (n.insertChild other).Keyed := by
  obtain ⟨names, addresses, nodes⟩ := h
  -- the map that the child is inserted into
  have hmap : (((n.children.lookup other.name).getD []).map Prod.fst).Nodup ∧
      ∀ a ∈ (n.children.lookup other.name).getD [], a.2.Keyed := by
    cases hlookup : n.children.lookup other.name with
    | none => simp
    | some d =>
      have hd := (Assoc.mem_iff_lookup names).mpr hlookup
      exact ⟨addresses _ hd, nodes _ hd⟩
  refine ⟨?_, ?_, ?_⟩
  · rw [insertChild_children]
    exact Assoc.nodup_insert names
  · rw [insertChild_children]
    intro e he
    rcases Assoc.eq_or_mem_of_mem_insert he with rfl | he
    · exact Assoc.nodup_insert hmap.1
    · exact addresses e he
  · rw [insertChild_children]
    intro e he a ha
    rcases Assoc.eq_or_mem_of_mem_insert he with rfl | he
    · rcases Assoc.eq_or_mem_of_mem_insert ha with rfl | ha
      · exact hother
      · exact hmap.2 a ha
    · exact nodes e he a ha

theorem Keyed.insertChildren {others : List Node} (h : n.Keyed)
    (hothers : ∀ other ∈ others, other.Keyed) : (n.insertChildren others).Keyed := by
  induction others generalizing n with
  | nil => exact h
  | cons other others ih =>
    rw [List.forall_mem_cons] at hothers
    exact ih (h.insertChild hothers.1) hothers.2

/-! ## The map of handles -/

theorem lookup_insertPhandles (visits : List (Path × Node)) (phandles : List (ℕ × Path)) (h : ℕ) :
    (visits.foldl insertPhandle phandles).lookup h =
      ((visits.filter fun v => v.2.property (ascii "phandle") = some (.u32 h)).getLast?.map
        Prod.fst).or (phandles.lookup h) := by
  induction visits using List.reverseRecOn with
  | nil => rfl
  | append_singleton visits v ih =>
    rw [List.foldl_append, List.foldl_cons, List.foldl_nil, List.filter_append, insertPhandle]
    split
    · rename_i phandle hphandle
      rw [Assoc.lookup_insert, ih]
      by_cases hh : h = phandle
      · simp [hphandle, hh]
      · have hne : ¬ phandle = h := fun heq => hh heq.symm
        simp [hphandle, hh, hne]
    · rename_i hother
      have hne : ¬ v.2.property (ascii "phandle") = some (.u32 h) := fun heq => hother h heq
      simp [ih, hne]

/-- **The map of the first walk**: a handle that one node has is found with the place of this node,
and a handle that no node has is not found. -/
theorem lookup_phandles (hkeyed : n.Keyed) {h : ℕ} {target : Path}
    (htarget : n.valueAt target (ascii "phandle") = some (.u32 h))
    (hunique : ∀ path, n.valueAt path (ascii "phandle") = some (.u32 h) → path = target) :
    n.phandles.lookup h = some target := by
  rw [phandles, lookup_insertPhandles, List.lookup_nil, Option.or_none, Option.map_eq_some_iff]
  obtain ⟨m, hfind, hm⟩ := Option.bind_eq_some_iff.mp htarget
  have hmem : (target, m) ∈ n.walk.filter
      fun v => v.2.property (ascii "phandle") = some (.u32 h) :=
    List.mem_filter.mpr ⟨(mem_walk_iff hkeyed).mpr hfind, decide_eq_true hm⟩
  -- the last node of this handle is the only one
  have hne := List.ne_nil_of_mem hmem
  obtain ⟨hlast, hu32⟩ := List.mem_filter.mp (List.getLast_mem hne)
  refine ⟨_, List.getLast?_eq_some_getLast hne, hunique _ ?_⟩
  exact Option.bind_eq_some_iff.mpr ⟨_, (mem_walk_iff hkeyed).mp hlast, of_decide_eq_true hu32⟩

theorem lookup_phandles_eq_none (hkeyed : n.Keyed) {h : ℕ}
    (hnone : ∀ path, n.valueAt path (ascii "phandle") ≠ some (.u32 h)) :
    n.phandles.lookup h = none := by
  rw [phandles, lookup_insertPhandles, List.lookup_nil, Option.or_none, Option.map_eq_none_iff,
    List.getLast?_eq_none_iff, List.filter_eq_nil_iff]
  rintro ⟨path, m⟩ hmem hm
  exact hnone path (Option.bind_eq_some_iff.mpr
    ⟨m, (mem_walk_iff hkeyed).mp hmem, of_decide_eq_true hm⟩)

/-! ## What a walk changes -/

theorem mapAddresses_eq (d : List (Option ℕ × Node)) :
    mapAddresses f d = d.map fun a => (a.1, a.2.mapValues f) := by
  induction d with
  | nil => rfl
  | cons a d ih => rw [mapAddresses, ih, List.map_cons]

theorem mapNames_eq (names : List (Str × List (Option ℕ × Node))) :
    mapNames f names = names.map fun e => (e.1, e.2.map fun a => (a.1, a.2.mapValues f)) := by
  induction names with
  | nil => rfl
  | cons e names ih => rw [mapNames, ih, List.map_cons, mapAddresses_eq]

@[simp] theorem mapValues_key : (n.mapValues f).key = n.key := by
  cases n
  rfl

theorem child_mapValues (k : Str × Option ℕ) :
    (n.mapValues f).child k = (n.child k).map (mapValues f) := by
  obtain ⟨name, unitAddress, children, properties⟩ := n
  simp only [mapValues, mapNames_eq, child, Node.children, Assoc.lookup_map]
  cases children.lookup k.1 with
  | none => rfl
  | some d => exact Assoc.lookup_map

theorem property_mapValues (key : Str) :
    (n.mapValues f).property key = (n.property key).map f := by
  obtain ⟨name, unitAddress, children, properties⟩ := n
  exact Assoc.lookup_map

/-- **A walk that changes values leaves the nodes where they are.** -/
theorem find_mapValues : (n.mapValues f).find path = (n.find path).map (mapValues f) := by
  induction path generalizing n with
  | nil => rfl
  | cons k path ih =>
    rw [find, find, child_mapValues]
    cases n.child k with
    | none => rfl
    | some c => exact ih

theorem valueAt_mapValues (name : Str) :
    (n.mapValues f).valueAt path name = (n.valueAt path name).map f := by
  rw [valueAt, valueAt, find_mapValues]
  cases n.find path with
  | none => rfl
  | some m => exact property_mapValues name

end Node

end DeviceTree

end AsyncKernel
