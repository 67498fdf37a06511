import AsyncKernel.DeviceTree.Get
import AsyncKernel.DeviceTree.Lost
import AsyncKernel.DeviceTree.Resolve

/-!
# The device tree of a machine

`init` finds the structure block with the third word of the header, builds the tree, and links its
handles. The memory that the firmware hands over is an image: the header, the map of reserved memory,
the structure block, and the strings that the properties are named with. What `init` makes of an image
is asked for its nodes with paths, whose components are names as they have been written.

## Main definitions

* `init`: the device tree of a memory
* `Image`, `Image.blob`: what a firmware writes, and the memory that it is written to
* `IsComponent`: the texts that `get` takes for the name of a node
* `Loaded`: what the bytes of a property are read as, and linked to

## Main results

* `Image.isWritten`: the structure block of an image is one for `build`
* `Node.get_join`: a path of names leads to the node at their keys
* `init_image`: the nodes of an image are found with the paths of their names
-/

namespace AsyncKernel

namespace DeviceTree

/-- `init`: what it puts into `DEVICE_TREE_ROOT`. `offset_dt_struct` is the third word of
`FdtHeader`. -/
def init (blob : Blob) : Except Fault Node := do
  let offsetDtStruct ← blob.readU32 (blob.base + 8)
  let rootTree ← build blob (blob.base + offsetDtStruct)
  return rootTree.linkPhandles

/-! ## Images -/

/-- What is written behind a header: the map of reserved memory, the tokens and the strings. -/
structure Image where
  reserveMap : List UInt8
  tokens : List Token
  strings : List UInt8

namespace Image

variable (i : Image)

/-- The tokens, with the one at the end. -/
def structBlock : List UInt8 := i.tokens.flatMap Token.encode ++ word 9

/-- The header has ten words. -/
def offsetStruct : ℕ := 40 + i.reserveMap.length

def offsetStrings : ℕ := i.offsetStruct + i.structBlock.length

def totalSize : ℕ := i.offsetStrings + i.strings.length

/-- The words of `FdtHeader`, in their order. -/
def headerWords : List ℕ :=
  [0xd00dfeed, i.totalSize, i.offsetStruct, i.offsetStrings, 40, 17, 16, 0, i.strings.length,
    i.structBlock.length]

def bytes : List UInt8 :=
  i.headerWords.flatMap word ++ (i.reserveMap ++ (i.structBlock ++ i.strings))

/-- The memory that an image is written to. -/
def blob (base : ℕ) : Blob := ⟨base, i.bytes⟩

/-- The image of a tree: its tokens with NOPs between them, and strings with the names of its
properties. The strings may share bytes. -/
structure Holds (base : ℕ) (t : Tree) : Prop where
  aligned : base % 4 = 0
  reserved : i.reserveMap.length % 4 = 0
  fits : i.totalSize < 2 ^ 32
  significant_eq : significant i.tokens = t.tokens
  names : ∀ t' ∈ t.subtrees, 0 ∉ t'.name ∧ validUtf8 t'.name = true
  strings : ∀ t' ∈ t.subtrees, ∀ p ∈ t'.properties, 0 ∉ p.name ∧ validUtf8 p.name = true ∧
    (p.name ++ [0]) <+: i.strings.drop p.nameOffset

variable {i} {base : ℕ} {t : Tree}

theorem suffix_blob (i : Image) (base : ℕ) : (i.blob base).suffix base = i.bytes := by
  have hbase : (i.blob base).base = base := rfl
  rw [Blob.suffix, hbase, if_pos le_rfl, Nat.sub_self, List.drop_zero]
  rfl

theorem length_flatMap_word (words : List ℕ) : (words.flatMap word).length = 4 * words.length := by
  induction words with
  | nil => rfl
  | cons n words ih =>
    rw [List.flatMap_cons, List.length_append, ih, length_word, List.length_cons]
    omega

/-- The words of the header are read from their places. -/
theorem readU32_header {k n : ℕ} (hword : i.headerWords[k]? = some n) (hn : n < 2 ^ 32) :
    (i.blob base).readU32 (base + 4 * k) = .ok n := by
  obtain ⟨hk, rfl⟩ := List.getElem?_eq_some_iff.mp hword
  have hwords : i.headerWords.flatMap word = (i.headerWords.take k).flatMap word ++
      (word i.headerWords[k] ++ (i.headerWords.drop (k + 1)).flatMap word) := by
    rw [← List.flatMap_cons, List.getElem_cons_drop, ← List.flatMap_append, List.take_append_drop]
  have hsuffix := suffix_blob i base
  rw [bytes, hwords, List.append_assoc, List.append_assoc] at hsuffix
  have hlength : ((i.headerWords.take k).flatMap word).length = 4 * k := by
    rw [length_flatMap_word, List.length_take, min_eq_left hk.le]
  rw [← hlength]
  exact readU32_word hn (suffix_add hsuffix)

theorem suffix_offsetStruct :
    (i.blob base).suffix (base + i.offsetStruct) = i.structBlock ++ i.strings := by
  have hsuffix := suffix_blob i base
  rw [bytes, ← List.append_assoc] at hsuffix
  have hlength : (i.headerWords.flatMap word ++ i.reserveMap).length = i.offsetStruct := by
    rw [List.length_append, length_flatMap_word]
    rfl
  rw [← hlength]
  exact suffix_add hsuffix

theorem suffix_offsetStrings :
    (i.blob base).suffix (base + i.offsetStrings) = i.strings := by
  rw [offsetStrings, ← Nat.add_assoc]
  exact suffix_add suffix_offsetStruct

/-- A name is read from its place among the strings. -/
theorem getString_blob (h : i.Holds base t) {name : Str} {offset : ℕ} (hzero : 0 ∉ name)
    (hutf8 : validUtf8 name = true) (hstarts : (name ++ [0]) <+: i.strings.drop offset) :
    offset < i.strings.length ∧ (i.blob base).getString offset = .ok name := by
  obtain ⟨rest, hrest⟩ := hstarts
  have hlt : offset < i.strings.length := by
    by_contra hout
    rw [List.drop_eq_nil_of_le (by omega)] at hrest
    simp at hrest
  have hoffset : (i.blob base).readU32 (base + 12) = .ok i.offsetStrings := by
    refine readU32_header (k := 3) rfl ?_
    have hfits := h.fits
    rw [totalSize] at hfits
    omega
  have hsuffix : (i.blob base).suffix (base + i.offsetStrings) =
      i.strings.take offset ++ (name ++ 0 :: rest) := by
    rw [suffix_offsetStrings]
    calc i.strings = i.strings.take offset ++ i.strings.drop offset :=
          (List.take_append_drop _ _).symm
      _ = _ := by rw [← hrest, List.append_assoc, List.singleton_append]
  have htext := suffix_add hsuffix
  rw [List.length_take, min_eq_left hlt.le] at htext
  refine ⟨hlt, ?_⟩
  have hbase : (i.blob base).base = base := rfl
  rw [Blob.getString, hbase, hoffset, ok_bind, cStr_append hzero htext, ok_bind]
  exact if_pos hutf8

theorem length_le_length_flatMap {α β : Type} {f : α → List β} {l : List α} {a : α}
    (h : a ∈ l) : (f a).length ≤ (l.flatMap f).length := by
  obtain ⟨before, after, rfl⟩ := List.append_of_mem h
  rw [List.flatMap_append, List.flatMap_cons, List.length_append, List.length_append]
  omega

end Image

/-- The properties of a tree have tokens. -/
theorem Tree.token_mem_tokens {t t' : Tree} (ht' : t' ∈ t.subtrees) {p : Property}
    (hp : p ∈ t'.properties) : p.token ∈ t.tokens := by
  induction t using Tree.induct with
  | node name properties children ih =>
    rw [Tree.tokens, List.mem_cons, List.mem_append, List.mem_append, Tree.listTokens_eq]
    rw [Tree.subtrees, Tree.listSubtrees_eq, List.mem_cons, List.mem_flatMap] at ht'
    rcases ht' with rfl | ⟨c, hc, ht'⟩
    · exact Or.inr (Or.inl (List.mem_map.mpr ⟨p, hp, rfl⟩))
    · exact Or.inr (Or.inr (Or.inl (List.mem_flatMap.mpr ⟨c, hc, ih c hc ht'⟩)))

namespace Image

variable {i : Image} {base : ℕ} {t : Tree}

/-- **The structure block of an image is one for `build`**, and its header leads to it. -/
theorem isWritten (h : i.Holds base t) :
    IsWritten (i.blob base) (base + i.offsetStruct) i.tokens t := by
  have haligned := h.aligned
  have hreserved := h.reserved
  have hfits := h.fits
  have hsizes : i.structBlock.length + i.strings.length ≤ i.totalSize := by
    rw [totalSize, offsetStrings]
    omega
  refine ⟨?_, fun t' ht' => ?_, h.significant_eq, i.strings, ?_⟩
  · rw [offsetStruct]
    omega
  · obtain ⟨hzero, hutf8⟩ := h.names t' ht'
    refine ⟨hzero, hutf8, fun p hp => ?_, fun p hp => ?_⟩
    · obtain ⟨hpZero, hpUtf8, hstarts⟩ := h.strings t' ht' p hp
      have hoffset := (getString_blob h hpZero hpUtf8 hstarts).1
      -- the value of a property is in its token, and this one is in the block
      have hmem : p.token ∈ i.tokens := by
        have htoken := Tree.token_mem_tokens ht' hp
        rw [← h.significant_eq] at htoken
        exact (List.mem_filter.mp htoken).1
      have hvalue : p.value.length ≤ p.token.encode.length := by
        rw [Property.token, Token.encode, List.length_append, length_padded]
        omega
      have hblock := length_le_length_flatMap (f := Token.encode) hmem
      have htokens : i.structBlock.length = (i.tokens.flatMap Token.encode).length + 4 :=
        List.length_append
      exact ⟨by omega, by omega⟩
    · obtain ⟨hpZero, hpUtf8, hstarts⟩ := h.strings t' ht' p hp
      exact (getString_blob h hpZero hpUtf8 hstarts).2
  · rw [suffix_offsetStruct, structBlock, List.append_assoc]

/-- `init` builds the tree from the structure block, and links its handles. -/
theorem init_blob (h : i.Holds base t) : init (i.blob base) =
    build (i.blob base) (base + i.offsetStruct) >>= fun n => .ok n.linkPhandles := by
  have hoffset : (i.blob base).readU32 (base + 8) = .ok i.offsetStruct := by
    refine readU32_header (k := 2) rfl ?_
    have hfits := h.fits
    rw [totalSize, offsetStrings] at hfits
    omega
  have hbase : (i.blob base).base = base := rfl
  rw [init, hbase, hoffset]
  rfl

end Image

/-! ## Paths of names -/

/-- A component of a path that is taken for a name: it has no slash, and does not end in its first
`@`. -/
def IsComponent (text : Str) : Prop := 0x2f ∉ text ∧ (Node.splitName text).2 ≠ some []

instance (text : Str) : Decidable (IsComponent text) := inferInstanceAs (Decidable (_ ∧ _))

namespace Node

/-- A component leads to the child at its key. -/
theorem getChild_eq_child {text : Str} (h : IsComponent text) (n : Node) :
    n.getChild text = n.child (Node.new text).key := by
  by_cases hat : 0x40 ∈ text
  · obtain ⟨name, address, rfl, hname⟩ := List.eq_append_cons_of_mem hat
    have haddress : address.isEmpty = false := by
      have hne := h.2
      rw [splitName, dropWhile_ne_append hname] at hne
      simpa using hne
    rw [key_new_of_mem hname, child, getChild, splitOnce_append hname]
    simp only [haddress, fromStrRadix_eq_numeral, Bool.false_eq_true, if_false]
  · rw [key_new_of_notMem hat, child, getChild, splitOnce_of_notMem hat]

/-- **A path of names leads to the node at their keys.** -/
theorem get_join {texts : List Str} (hne : texts ≠ []) (htexts : ∀ text ∈ texts, IsComponent text)
    (n : Node) : n.get ([0x2f].intercalate texts) =
      n.find (texts.map fun text => (Node.new text).key) := by
  induction texts generalizing n with
  | nil => exact absurd rfl hne
  | cons text texts ih =>
    obtain ⟨htext, htexts⟩ := List.forall_mem_cons.mp htexts
    cases texts with
    | nil =>
      rw [List.intercalate_singleton, get_of_notMem htext.1, getChild_eq_child htext,
        List.map_singleton, find]
      exact (Option.bind_fun_some _).symm
    | cons text' texts =>
      rw [List.intercalate_cons_cons, List.append_assoc, List.singleton_append,
        get_append htext.1, getChild_eq_child htext, List.map_cons, find]
      congr 1
      funext c
      exact ih (List.cons_ne_nil _ _) htexts c

end Node

/-! ## What `init` makes of an image -/

/-- What the bytes of a property of a tree are read as, and linked to. -/
inductive Loaded (t : Tree) (name : Str) (bytes : List UInt8) : PropertyValue → Prop
  | linked {handle : ℕ} {target : Path}
      (guess : PropertyValue.guess bytes (some name) = .ok (.pHandleRaw handle))
      (target_eq : t.valueAt target (ascii "phandle") = some (word handle)) :
      Loaded t name bytes (.pHandle target)
  | unknown {handle : ℕ}
      (guess : PropertyValue.guess bytes (some name) = .ok (.pHandleRaw handle))
      (none : ∀ target, t.valueAt target (ascii "phandle") ≠ some (word handle)) :
      Loaded t name bytes (.pHandleRaw handle)
  | other {v : PropertyValue} (guess : PropertyValue.guess bytes (some name) = .ok v)
      (noHandle : ∀ handle, v ≠ .pHandleRaw handle) : Loaded t name bytes v

variable {i : Image} {base : ℕ} {t : Tree} {n : Node}

/-- Linking looks a handle up among those that the nodes of the tree have. -/
theorem Mirrors.loaded (h : Mirrors t n) (hnodup : (t.valuesOf (ascii "phandle")).Nodup) {name : Str}
    {bytes : List UInt8} {v : PropertyValue}
    (hguess : PropertyValue.guess bytes (some name) = .ok v) :
    Loaded t name bytes (Node.linkValue n.phandles v) := by
  obtain ⟨hraw, -, -⟩ | ⟨handle, hlt, -, htext, hvalue⟩ := PropertyValue.guess_cases hguess
  · rw [linkValue_eq_self hraw]
    exact .other hguess hraw
  · split at hvalue
    · subst hvalue
      rw [Node.linkValue]
      by_cases htarget : ∃ target, t.valueAt target (ascii "phandle") = some (word handle)
      · obtain ⟨target, htarget⟩ := htarget
        have hphandle := h.phandle_iff.mpr ⟨hlt, htext, htarget⟩
        rw [Node.lookup_phandles h.keyed hphandle fun path hpath =>
          Tree.eq_of_valueAt hnodup (h.phandle_iff.mp hpath).2.2 htarget]
        exact .linked hguess htarget
      · have hnone := not_exists.mp htarget
        rw [Node.lookup_phandles_eq_none h.keyed fun path hpath =>
          hnone path (h.phandle_iff.mp hpath).2.2]
        exact .unknown hguess hnone
    · subst hvalue
      exact .other hguess fun _ => PropertyValue.noConfusion

/-- A node has the linked properties of a tree, and no others. -/
def LoadedAs (t t' : Tree) (m : Node) : Prop := ∀ name,
  Option.Rel (Loaded t name) (t'.value name) (m.property name)

/-- **The nodes of an image are found with the paths of their names**: `init` returns when no value is
taken for a text that is not UTF-8, and the node that it returns has, at each path of names, the
linked properties of the tree that has been written, or no node where the tree has none. -/
theorem init_image (h : i.Holds base t) (hnodup : (t.valuesOf (ascii "phandle")).Nodup) :
    ((∃ root, init (i.blob base) = .ok root) ↔
      ∀ t' ∈ t.subtrees, ∀ p ∈ t'.properties, ∀ text ∈ PropertyValue.texts p.value,
        validUtf8 text = true) ∧
    ∀ root, init (i.blob base) = .ok root →
      ∀ texts, texts ≠ [] → (∀ text ∈ texts, IsComponent text) →
        Option.Rel (LoadedAs t) (t.find (texts.map fun text => (Node.new text).key))
          (root.get ([0x2f].intercalate texts)) := by
  have hwritten := Image.isWritten h
  have htexts : ∀ root, init (i.blob base) = .ok root →
      ∀ t' ∈ t.subtrees, ∀ p ∈ t'.properties, ∀ text ∈ PropertyValue.texts p.value,
        validUtf8 text = true := by
    intro root hroot
    rw [Image.init_blob h] at hroot
    obtain ⟨n, hn, -⟩ := bind_eq_ok_iff.mp hroot
    exact (toNode_texts hwritten.written).post_of_eq_ok (hwritten.build_eq_toNode ▸ hn)
  refine ⟨⟨fun ⟨root, hroot⟩ => htexts root hroot, fun hutf8 => ?_⟩,
    fun root hroot texts hne hall => ?_⟩
  · obtain ⟨n, hn, -⟩ := build_mirrors hwritten hutf8
    exact ⟨n.linkPhandles, by rw [Image.init_blob h, hn, ok_bind]⟩
  · obtain ⟨n, hn, hmirrors⟩ := build_mirrors hwritten (htexts root hroot)
    rw [Image.init_blob h, hn, ok_bind] at hroot
    obtain rfl := Except.ok.inj hroot
    rw [Node.get_join hne hall, Node.linkPhandles, Node.find_mapValues]
    have hvalues : ∀ t' m, Guessed t' m →
        LoadedAs t t' (m.mapValues (Node.linkValue n.phandles)) := by
      intro t' m hguessed name
      have hvalue := (hguessed name).map (f := id) (g := Node.linkValue n.phandles)
        fun bytes v hguess => hmirrors.loaded hnodup hguess
      rwa [Option.map_id, ← Node.property_mapValues] at hvalue
    have hfind := (hmirrors.find (texts.map fun text => (Node.new text).key)).map (f := id) hvalues
    rwa [Option.map_id] at hfind

/-- The interrupt controller of `controllerTree` in an image. -/
def controllerImage : Image where
  reserveMap := List.replicate 16 0
  tokens := .nop :: (controllerTree 3).tokens
  strings := ascii "phandle" ++ [0] ++ ascii "interrupt-parent" ++ [0]

theorem init_image_controller :
    ∃ root, init (controllerImage.blob 0x82200000) = .ok root ∧
      Option.Rel (LoadedAs (controllerTree 3))
        ((controllerTree 3).find [(ascii "plic", some 0xc000000)])
        (root.get (ascii "plic@c000000")) := by
  have hholds : controllerImage.Holds 0x82200000 (controllerTree 3) := by
    refine ⟨rfl, rfl, by decide, by decide, ?_, ?_⟩
    · decide +kernel
    · decide +kernel
  obtain ⟨hreturns, hpaths⟩ := init_image hholds (by decide)
  obtain ⟨root, hroot⟩ := hreturns.mpr (by decide +kernel)
  have hcomponent : ∀ text ∈ [ascii "plic@c000000"], IsComponent text := by decide +kernel
  have hkey : (Node.new (ascii "plic@c000000")).key = (ascii "plic", some 0xc000000) := by
    decide +kernel
  have hpath := hpaths root hroot _ (List.cons_ne_nil _ _) hcomponent
  rw [List.map_singleton, hkey, List.intercalate_singleton] at hpath
  exact ⟨root, hroot, hpath⟩

end DeviceTree

end AsyncKernel
