import Mathlib.Data.Nat.Digits.Lemmas
import AsyncKernel.DeviceTree.Phandles

/-!
# Paths

`Node::get` takes a path apart: the text before the first slash is the name of a child, with a unit
address after an `@`, and the rest is a path from there. `children_names_address` prints the texts
that children are found by.

## Main definitions

* `Node.get`, `Node.getChild`: the node at a path, and the child of its first component
* `Node.childNodes`, `Node.childrenNamesAddress`: the children, and the texts printed for them
* `Node.Built`: the nodes that `new`, `insert_child` and the insertion of properties make

## Main results

* `Node.fromStrRadix_hex`: a printed unit address is read back
* `Node.get_intercalate`: the path of printed texts leads to the node it was printed for
-/

namespace AsyncKernel

namespace DeviceTree

/-! ## Texts -/

/-- `splitn(2, separator)`: the text before the first separator, and what is after it, if there is
one. -/
def splitOnce (separator : UInt8) (text : Str) : Str × Option Str :=
  match text.dropWhile (· ≠ separator) with
  | [] => (text, none)
  | _ :: rest => (text.takeWhile (· ≠ separator), some rest)

theorem splitOnce_append {separator : UInt8} {text : Str} (h : separator ∉ text) (rest : Str) :
    splitOnce separator (text ++ separator :: rest) = (text, some rest) := by
  rw [splitOnce, dropWhile_ne_append h, takeWhile_ne_append h]

theorem splitOnce_of_notMem {separator : UInt8} {text : Str} (h : separator ∉ text) :
    splitOnce separator text = (text, none) := by
  rw [splitOnce, dropWhile_ne_of_notMem h]

/-- What is after a separator is shorter than the text. -/
theorem length_lt_of_splitOnce {separator : UInt8} {text first rest : Str}
    (h : splitOnce separator text = (first, some rest)) : rest.length < text.length := by
  have hle := (List.dropWhile_suffix (p := fun b => decide (b ≠ separator)) (l := text)).length_le
  rw [splitOnce] at h
  split at h
  · cases h
  · rename_i hdrop
    obtain ⟨-, hrest⟩ := Prod.mk.inj h
    obtain rfl := Option.some.inj hrest
    rw [hdrop, List.length_cons] at hle
    exact hle

/-- A digit of `{:x}`. -/
def hexDigit (digit : ℕ) : UInt8 :=
  if digit < 10 then UInt8.ofNat (0x30 + digit) else UInt8.ofNat (0x61 + (digit - 10))

/-- `{:x}`. -/
def hex (n : ℕ) : Str := if n = 0 then [0x30] else (Nat.digits 16 n).reverse.map hexDigit

theorem toDigit_hexDigit {digit : ℕ} (h : digit < 16) : toDigit (hexDigit digit) = some digit := by
  interval_cases digit <;> rfl

/-- The digits that are printed for a number. -/
theorem exists_hex (n : ℕ) : ∃ digits : List ℕ, digits ≠ [] ∧ (∀ digit ∈ digits, digit < 16) ∧
    hex n = digits.map hexDigit ∧ Nat.ofDigits 16 digits.reverse = n := by
  by_cases hn : n = 0
  · subst hn
    exact ⟨[0], by simp, by simp, rfl, rfl⟩
  · refine ⟨(Nat.digits 16 n).reverse, ?_, fun digit hdigit => ?_, if_neg hn, ?_⟩
    · rw [ne_eq, List.reverse_eq_nil_iff]
      exact Nat.digits_ne_nil_iff_ne_zero.mpr hn
    · exact Nat.digits_lt_base (by norm_num) (List.mem_reverse.mp hdigit)
    · rw [List.reverse_reverse, Nat.ofDigits_digits]

theorem mapM_toDigit {digits : List ℕ} (h : ∀ digit ∈ digits, digit < 16) :
    (digits.map hexDigit).mapM toDigit = some digits := by
  induction digits with
  | nil => rfl
  | cons digit digits ih =>
    obtain ⟨hdigit, hdigits⟩ := List.forall_mem_cons.mp h
    rw [List.map_cons, List.mapM_cons, toDigit_hexDigit hdigit, ih hdigits]
    rfl

/-- The bytes that are printed for a number are digits. -/
theorem ne_of_mem_hex {n : ℕ} {b c : UInt8} (hb : b ∈ hex n) (hc : toDigit c = none) : b ≠ c := by
  obtain ⟨digits, -, hlt, hhex, -⟩ := exists_hex n
  rw [hhex] at hb
  obtain ⟨digit, hdigit, rfl⟩ := List.mem_map.mp hb
  rintro rfl
  rw [toDigit_hexDigit (hlt digit hdigit)] at hc
  cases hc

theorem hex_ne_nil (n : ℕ) : hex n ≠ [] := by
  obtain ⟨digits, hne, -, hhex, -⟩ := exists_hex n
  rw [hhex]
  simpa using hne

/-- **A printed unit address is read back.** -/
theorem fromStrRadix_hex {n : ℕ} (h : n < usizeCard) : fromStrRadix (hex n) = some n := by
  obtain ⟨digits, hne, hlt, hhex, hvalue⟩ := exists_hex n
  obtain ⟨digit, rest, rfl⟩ := List.exists_cons_of_ne_nil hne
  have hplus : dropPlus (hex n) = hex n := by
    have hfirst : hexDigit digit ≠ 0x2b := ne_of_mem_hex (n := n) (by rw [hhex]; simp) rfl
    rw [hhex, List.map_cons, dropPlus, if_neg hfirst]
  rw [fromStrRadix_eq_numeral, numeral, hplus, hhex, mapM_toDigit hlt]
  simp only [hvalue, h, if_true]

/-! ## Children -/

namespace Node

/-- The child of the first component of a path. An `@` with nothing after it is for any unit address:
the first one. -/
def getChild (n : Node) (firstComponent : Str) : Option Node :=
  match splitOnce 0x40 firstComponent with
  | (_, none) => (n.children.lookup firstComponent).bind fun d => d.lookup none
  | (name, some address) =>
    if address.isEmpty then (n.children.lookup name).bind fun d => (values addressLe d).head?
    else (n.children.lookup name).bind fun d => d.lookup (some ((fromStrRadix address).getD 0))

/-- `get`. -/
def get (n : Node) (path : Str) : Option Node :=
  match _h : splitOnce 0x2f path with
  | (firstComponent, none) => n.getChild firstComponent
  | (firstComponent, some rest) =>
    (n.getChild firstComponent).bind fun child => child.get rest
termination_by path.length
decreasing_by exact length_lt_of_splitOnce _h

/-- `children`: the nodes in the maps, in the order of their names and unit addresses. -/
def childNodes (n : Node) : List Node :=
  (values nameLe (n.children.map fun e => (e.1, values addressLe e.2))).flatten

/-- What `children_names_address` prints for a child. -/
def nameAddress (n : Node) : Str :=
  match n.unitAddress with
  | some addr => n.name ++ 0x40 :: hex addr
  | none => n.name

/-- `children_names_address`. -/
def childrenNamesAddress (n : Node) : List Str := n.childNodes.map nameAddress

/-- The nodes that are made with `new`, `insert_child` and the insertion of properties. -/
inductive Built : Node → Prop
  | new (tokenName : Str) : Built (Node.new tokenName)
  | insertChild {n other : Node} (h : Built n) (hother : Built other) : Built (n.insertChild other)
  | insertProperty {n : Node} (h : Built n) (key : Str) (value : PropertyValue) :
      Built (n.insertProperty key value)

/-- The name of a node has no `@`, its unit address fits into a `usize`, and what is under a name and
a unit address has them. The same holds of all nodes below it. -/
inductive Named : Node → Prop
  | intro {n : Node} (name : 0x40 ∉ n.name) (unitAddress : ∀ a ∈ n.unitAddress, a < usizeCard)
      (key : ∀ e ∈ n.children, ∀ a ∈ e.2, a.2.key = (e.1, a.1))
      (nodes : ∀ e ∈ n.children, ∀ a ∈ e.2, Named a.2) : Named n

variable {n c other : Node}

theorem mem_childNodes_iff : c ∈ n.childNodes ↔ ∃ e ∈ n.children, ∃ a ∈ e.2, c = a.2 := by
  simp only [childNodes, List.mem_flatten, mem_values, List.mem_map, Prod.mk.injEq]
  constructor
  · rintro ⟨_, ⟨_, e, he, -, rfl⟩, hc⟩
    obtain ⟨address, hmem⟩ := mem_values.mp hc
    exact ⟨e, he, _, hmem, rfl⟩
  · rintro ⟨e, he, a, ha, rfl⟩
    exact ⟨_, ⟨_, e, he, rfl, rfl⟩, mem_values.mpr ⟨a.1, ha⟩⟩

theorem fromStrRadix_lt {src : Str} {value : ℕ} (h : fromStrRadix src = some value) :
    value < usizeCard := by
  rw [fromStrRadix_eq_numeral, numeral] at h
  split at h
  · dsimp only at h
    split at h
    · obtain rfl := Option.some.inj h
      assumption
    · cases h
  · cases h

theorem notMem_takeWhile (separator : UInt8) (text : Str) :
    separator ∉ text.takeWhile (· ≠ separator) := fun hmem => by
  simpa using List.mem_takeWhile_imp hmem

theorem named_new (tokenName : Str) : (Node.new tokenName).Named := by
  have hchildren : (Node.new tokenName).children = [] := rfl
  refine ⟨?_, ?_, by simp [hchildren], by simp [hchildren]⟩
  · -- the part of a text before the first `@`, or all of a text without one
    change 0x40 ∉ (splitName tokenName).1
    rw [splitName]
    split
    · rename_i hdrop
      intro hmem
      simpa using List.dropWhile_eq_nil_iff.mp hdrop 0x40 hmem
    · exact notMem_takeWhile 0x40 tokenName
  · intro a ha
    change a ∈ (splitName tokenName).2.map _ at ha
    obtain ⟨address, -, rfl⟩ := Option.map_eq_some_iff.mp (Option.mem_def.mp ha)
    cases haddress : fromStrRadix address with
    | none => norm_num [usizeCard]
    | some value => exact fromStrRadix_lt haddress

theorem Named.insertChild (h : n.Named) (hother : other.Named) : (n.insertChild other).Named := by
  obtain ⟨name, unitAddress, key, nodes⟩ := h
  -- a child is the new one, or one that was there
  have hchild : ∀ e ∈ (n.insertChild other).children, ∀ a ∈ e.2,
      (a.2 = other ∧ (e.1, a.1) = other.key) ∨ ∃ e' ∈ n.children, e'.1 = e.1 ∧ a ∈ e'.2 := by
    intro e he a ha
    rw [insertChild_children] at he
    rcases Assoc.eq_or_mem_of_mem_insert he with rfl | he
    · rcases Assoc.eq_or_mem_of_mem_insert ha with rfl | ha
      · exact Or.inl ⟨rfl, rfl⟩
      · cases hlookup : n.children.lookup other.name with
        | none =>
          rw [hlookup] at ha
          cases ha
        | some d =>
          rw [hlookup] at ha
          obtain ⟨before, after, hmap, -⟩ := List.lookup_eq_some_iff.mp hlookup
          exact Or.inr ⟨(other.name, d), hmap ▸ List.mem_append_right _ List.mem_cons_self, rfl, ha⟩
    · exact Or.inr ⟨e, he, rfl, ha⟩
  refine ⟨by rwa [insertChild_name], by rwa [insertChild_unitAddress], fun e he a ha => ?_,
    fun e he a ha => ?_⟩
  · rcases hchild e he a ha with ⟨hnew, hkey⟩ | ⟨e', he', hname, ha'⟩
    · rw [hnew, hkey]
    · rw [← hname, key e' he' a ha']
  · rcases hchild e he a ha with ⟨hnew, -⟩ | ⟨e', he', -, ha'⟩
    · rwa [hnew]
    · exact nodes e' he' a ha'

theorem Named.insertProperty (h : n.Named) (key : Str) (value : PropertyValue) :
    (n.insertProperty key value).Named := by
  obtain ⟨name, unitAddress, hkey, nodes⟩ := h
  refine ⟨?_, ?_, ?_, ?_⟩
  · rwa [insertProperty_name]
  · rwa [insertProperty_unitAddress]
  · rwa [insertProperty_children]
  · rwa [insertProperty_children]

theorem Built.named (h : n.Built) : n.Named := by
  induction h with
  | new tokenName => exact named_new tokenName
  | insertChild _ _ ih ihother => exact ih.insertChild ihother
  | insertProperty _ key value ih => exact ih.insertProperty key value

theorem Built.keyed (h : n.Built) : n.Keyed := by
  induction h with
  | new tokenName => exact keyed_new tokenName
  | insertChild _ _ ih ihother => exact ih.insertChild ihother
  | insertProperty _ key value ih => exact keyed_congr ih insertProperty_children

/-! ## Paths of printed texts -/

theorem slash_notMem_nameAddress (h : 0x2f ∉ c.name) : 0x2f ∉ c.nameAddress := by
  rw [nameAddress]
  cases c.unitAddress with
  | none => exact h
  | some addr =>
    have hhex : 0x2f ∉ hex addr := fun hmem => ne_of_mem_hex hmem rfl rfl
    simp [h, hhex]

/-- A child is found by the text that is printed for it. -/
theorem getChild_nameAddress (h : c.Named) (n : Node) :
    n.getChild c.nameAddress = n.child c.key := by
  obtain ⟨hname, hlt, -, -⟩ := h
  rw [child, key, nameAddress]
  cases haddress : c.unitAddress with
  | none =>
    simp only [getChild]
    rw [splitOnce_of_notMem hname]
  | some addr =>
    have hempty : (hex addr).isEmpty = false := by simpa using hex_ne_nil addr
    simp only [getChild]
    rw [splitOnce_append hname]
    simp only [hempty, fromStrRadix_hex (hlt addr haddress), Bool.false_eq_true, if_false,
      Option.getD_some]

/-- A child is under its name and its unit address. -/
theorem child_key_of_mem (hkeyed : n.Keyed) (hnamed : n.Named) (hc : c ∈ n.childNodes) :
    n.child c.key = some c ∧ c.Keyed ∧ c.Named := by
  obtain ⟨e, he, a, ha, rfl⟩ := mem_childNodes_iff.mp hc
  have hchild := child_eq_some_iff (m := a.2) (k := a.2.key) hkeyed
  obtain ⟨-, -, key, nodes⟩ := hnamed
  refine ⟨hchild.mpr ⟨e, he, a, ha, key e he a ha, rfl⟩, ?_, nodes e he a ha⟩
  obtain ⟨-, -, nodes⟩ := hkeyed
  exact nodes e he a ha

/-- One step of `get`, at the end of a path and before it. -/
theorem get_of_notMem {component : Str} (h : 0x2f ∉ component) (n : Node) :
    n.get component = n.getChild component := by
  rw [get]
  split
  · rename_i hsplit
    obtain ⟨rfl, -⟩ := Prod.mk.inj ((splitOnce_of_notMem h).symm.trans hsplit)
    rfl
  · rename_i hsplit
    cases (splitOnce_of_notMem h).symm.trans hsplit

theorem get_append {component : Str} (h : 0x2f ∉ component) (rest : Str) (n : Node) :
    n.get (component ++ 0x2f :: rest) = (n.getChild component).bind fun child => child.get rest := by
  rw [get]
  split
  · rename_i hsplit
    cases (splitOnce_append h rest).symm.trans hsplit
  · rename_i hsplit
    obtain ⟨rfl, hrest⟩ := Prod.mk.inj ((splitOnce_append h rest).symm.trans hsplit)
    obtain rfl := Option.some.inj hrest
    rfl

/-- **The path of printed texts leads to the node it was printed for**: from a node through children,
each a child of the one before. -/
theorem get_intercalate (hbuilt : n.Built) {nodes : List Node} (hne : nodes ≠ [])
    (hchain : List.IsChain (fun m c => c ∈ m.childNodes) (n :: nodes))
    (hslash : ∀ m ∈ nodes, 0x2f ∉ m.name) :
    n.get ([0x2f].intercalate (nodes.map nameAddress)) = some (nodes.getLast hne) := by
  have hkeyed := hbuilt.keyed
  have hnamed := hbuilt.named
  clear hbuilt
  -- On the nodes of the path, each of which is named and keyed again.
  induction nodes generalizing n with
  | nil => exact absurd rfl hne
  | cons c nodes ih =>
    obtain ⟨hc, hchain⟩ := List.isChain_cons_cons.mp hchain
    obtain ⟨hname, hslash⟩ := List.forall_mem_cons.mp hslash
    obtain ⟨hchild, hkeyed', hnamed'⟩ := child_key_of_mem hkeyed hnamed hc
    have hcomponent := slash_notMem_nameAddress hname
    cases nodes with
    | nil =>
      rw [List.map_singleton, List.intercalate_singleton, get_of_notMem hcomponent,
        getChild_nameAddress hnamed', hchild, List.getLast_singleton]
    | cons c' nodes =>
      have hrest := ih (List.cons_ne_nil _ _) hchain hslash hkeyed' hnamed'
      rw [List.map_cons, List.map_cons, List.intercalate_cons_cons, List.append_assoc,
        List.singleton_append, get_append hcomponent, getChild_nameAddress hnamed', hchild,
        Option.bind_some, ← List.map_cons, hrest, List.getLast_cons_cons]

/-- A serial port in a bus, with the text that is printed for it. -/
theorem get_intercalate_uart :
    let uart := Node.new (ascii "uart@10000000")
    let soc := (Node.new (ascii "soc")).insertChild uart
    let root := (Node.new []).insertChild soc
    soc.childrenNamesAddress = [ascii "uart@10000000"] ∧
      root.get (ascii "soc/uart@10000000") = some uart := by
  intro uart soc root
  have hsoc : soc.childNodes = [uart] := rfl
  have hroot : root.childNodes = [soc] := rfl
  have huart : uart.nameAddress = ascii "uart@10000000" := by
    have haddress : uart.unitAddress = some 0x10000000 := by decide +kernel
    have hname : uart.name = ascii "uart" := by decide +kernel
    simp only [nameAddress, haddress, hname, hex]
    norm_num
    decide +kernel
  have hbuilt : root.Built := (Built.new _).insertChild ((Built.new _).insertChild (.new _))
  have hget : root.get ([0x2f].intercalate ([soc, uart].map nameAddress)) = some uart := by
    refine get_intercalate hbuilt (List.cons_ne_nil _ _) ?_ ?_
    · simp [hroot, hsoc]
    · decide +kernel
  refine ⟨by rw [childrenNamesAddress, hsoc, List.map_singleton, huart], ?_⟩
  rw [List.map_cons, List.map_singleton, huart] at hget
  exact hget

end Node

end DeviceTree

end AsyncKernel
