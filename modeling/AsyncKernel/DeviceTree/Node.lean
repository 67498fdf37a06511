import Mathlib.Data.List.TakeWhile
import AsyncKernel.Foundation.Assoc
import AsyncKernel.Locks.Spin

/-!
# The nodes of the device tree

`Node` and `PropertyValue` of `fdt.rs`. A node has the part of its name before the first `@`, and the
number that is read from the part after it. Its children are in a map from names to maps from unit
addresses, so that a child replaces one with the same name and the same number. What a property
holds is guessed from its bytes.

## Main definitions

* `Node.new`, `Node.insertChild`: how nodes are made and put into each other
* `fromStrRadix`: how a unit address is read
* `PropertyValue.guess`: what a property holds

## Main results

* `fromStrRadix_eq_numeral`: a unit address is read as the number that its digits denote
* `Node.child_insertChild`: the children of a node after one has been inserted
-/

namespace AsyncKernel

namespace DeviceTree

/-- The bytes of a `str`. -/
abbrev Str : Type := List UInt8

/-- The bytes of an ASCII text. -/
def ascii (text : String) : Str := text.toList.map fun c => UInt8.ofNat c.toNat

/-- What goes wrong: a read outside of the memory of the device tree, a panic, or no end. -/
inductive Fault
  | outOfBounds
  | panic
  | outOfFuel
  deriving DecidableEq, Repr

/-- A continuation byte of UTF-8. -/
def isContinuation (b : UInt8) : Bool := 0x80 ≤ b && b ≤ 0xbf

/-- Whether bytes are UTF-8. -/
def validUtf8 : List UInt8 → Bool
  | [] => true
  | a :: rest =>
    if a < 0x80 then validUtf8 rest
    else match rest with
    | [] => false
    | b :: rest =>
      if 0xc2 ≤ a && a ≤ 0xdf then isContinuation b && validUtf8 rest
      else match rest with
      | [] => false
      | c :: rest =>
        if a == 0xe0 then 0xa0 ≤ b && b ≤ 0xbf && isContinuation c && validUtf8 rest
        else if a == 0xed then 0x80 ≤ b && b ≤ 0x9f && isContinuation c && validUtf8 rest
        else if 0xe1 ≤ a && a ≤ 0xef then isContinuation b && isContinuation c && validUtf8 rest
        else match rest with
        | [] => false
        | d :: rest =>
          if a == 0xf0 then
            0x90 ≤ b && b ≤ 0xbf && isContinuation c && isContinuation d && validUtf8 rest
          else if 0xf1 ≤ a && a ≤ 0xf3 then
            isContinuation b && isContinuation c && isContinuation d && validUtf8 rest
          else a == 0xf4 && 0x80 ≤ b && b ≤ 0x8f && isContinuation c && isContinuation d &&
            validUtf8 rest

/-- `core::str::from_utf8(bytes).unwrap()`. -/
def fromUtf8 (bytes : List UInt8) : Except Fault Str :=
  if validUtf8 bytes then .ok bytes else .error .panic

/-! ## Texts up to a byte -/

section Separator

variable {separator : UInt8} {text : List UInt8}

theorem takeWhile_ne_append (h : separator ∉ text) (rest : List UInt8) :
    (text ++ separator :: rest).takeWhile (· ≠ separator) = text := by
  have hall : ∀ b ∈ text, decide (b ≠ separator) = true :=
    fun b hb => decide_eq_true fun heq => h (heq ▸ hb)
  rw [List.takeWhile_append_of_pos hall, List.takeWhile_cons_of_neg (by simp), List.append_nil]

theorem dropWhile_ne_append (h : separator ∉ text) (rest : List UInt8) :
    (text ++ separator :: rest).dropWhile (· ≠ separator) = separator :: rest := by
  have hall : ∀ b ∈ text, decide (b ≠ separator) = true :=
    fun b hb => decide_eq_true fun heq => h (heq ▸ hb)
  rw [List.dropWhile_append_of_pos hall, List.dropWhile_cons_of_neg (by simp)]

theorem dropWhile_ne_of_notMem (h : separator ∉ text) : text.dropWhile (· ≠ separator) = [] :=
  List.dropWhile_eq_nil_iff.mpr fun _ hb => decide_eq_true fun heq => h (heq ▸ hb)

end Separator

/-! ## Unit addresses -/

/-- `to_digit(16)`. -/
def toDigit (b : UInt8) : Option ℕ :=
  if 0x30 ≤ b && b ≤ 0x39 then some (b.toNat - 0x30)
  else if 0x41 ≤ b && b ≤ 0x46 then some (b.toNat - 0x41 + 10)
  else if 0x61 ≤ b && b ≤ 0x66 then some (b.toNat - 0x61 + 10)
  else none

/-- The loop of `from_str_radix`, with `checked_mul` and `checked_add`. -/
def readDigits (result : ℕ) : Str → Option ℕ
  | [] => some result
  | b :: digits =>
    match toDigit b with
    | none => none
    | some digit =>
      if result * 16 < usizeCard then
        if result * 16 + digit < usizeCard then readDigits (result * 16 + digit) digits else none
      else none

/-- `usize::from_str_radix(src, 16)`, without the kind of the error. -/
def fromStrRadix (src : Str) : Option ℕ :=
  match src with
  | [] => none
  | [b] => if b = 0x2b ∨ b = 0x2d then none else readDigits 0 [b]
  | b :: digits => if b = 0x2b then readDigits 0 digits else readDigits 0 (b :: digits)

/-- The text without a leading `+`. -/
def dropPlus : Str → Str
  | [] => []
  | b :: digits => if b = 0x2b then digits else b :: digits

/-- The number that a text denotes: hexadecimal digits, at least one, after an optional `+`, whose
number fits into a `usize`. -/
def numeral (src : Str) : Option ℕ :=
  match (dropPlus src).mapM toDigit with
  | some (digit :: digits) =>
    let value := Nat.ofDigits 16 (digit :: digits).reverse
    if value < usizeCard then some value else none
  | _ => none

/-- What the loop reads does not become smaller. -/
theorem le_foldl (digits : List ℕ) (result : ℕ) :
    result ≤ digits.foldl (fun value digit => value * 16 + digit) result := by
  induction digits generalizing result with
  | nil => exact le_rfl
  | cons digit digits ih =>
    calc result ≤ result * 16 + digit := by omega
      _ ≤ _ := ih _

/-- The loop reads the number of its digits, when that fits. -/
theorem readDigits_eq (src : Str) {result : ℕ} (h : result < usizeCard) :
    readDigits result src = (src.mapM toDigit).bind fun digits =>
      let value := digits.foldl (fun value digit => value * 16 + digit) result
      if value < usizeCard then some value else none := by
  induction src generalizing result with
  | nil => simp [readDigits, h]
  | cons b src ih =>
    rw [readDigits, List.mapM_cons]
    cases hb : toDigit b with
    | none => rfl
    | some digit =>
      by_cases hfits : result * 16 + digit < usizeCard
      · have hproduct : result * 16 < usizeCard := by omega
        simp only [hproduct, hfits, if_true, ih hfits]
        cases src.mapM toDigit <;> rfl
      · -- what has become too large stays too large
        have hlarge : ∀ digits : List ℕ, ¬ digits.foldl (fun value digit => value * 16 + digit)
            (result * 16 + digit) < usizeCard := by
          intro digits hvalue
          exact hfits ((le_foldl digits _).trans_lt hvalue)
        simp only [hfits, if_false, ite_self]
        cases src.mapM toDigit with
        | none => rfl
        | some digits => exact (if_neg (hlarge digits)).symm

theorem ofDigits_reverse (digits : List ℕ) : Nat.ofDigits 16 digits.reverse =
    digits.foldl (fun value digit => value * 16 + digit) 0 := by
  rw [Nat.ofDigits_eq_foldr, List.foldr_reverse]
  congr 1
  funext value digit
  rw [Nat.cast_id]
  ring

/-- A unit address is read as the number that its digits denote. -/
theorem fromStrRadix_eq_numeral (src : Str) : fromStrRadix src = numeral src := by
  have hpositive : 0 < usizeCard := by decide
  have hread : ∀ {src : Str}, dropPlus src ≠ [] → numeral src = readDigits 0 (dropPlus src) := by
    intro src hsrc
    rw [readDigits_eq _ hpositive, numeral]
    obtain ⟨b, digits, hb⟩ := List.exists_cons_of_ne_nil hsrc
    rw [hb, List.mapM_cons]
    cases toDigit b with
    | none => rfl
    | some digit =>
      cases digits.mapM toDigit with
      | none => rfl
      | some digits =>
        simp only [ofDigits_reverse]
        rfl
  match src with
  | [] => rfl
  | [b] =>
    by_cases hplus : b = 0x2b
    · subst hplus
      rfl
    · rw [hread (by simp [dropPlus, hplus])]
      by_cases hminus : b = 0x2d
      · subst hminus
        rfl
      · simp [fromStrRadix, dropPlus, hplus, hminus]
  | b :: c :: digits =>
    by_cases hplus : b = 0x2b
    · rw [hread (by simp [dropPlus, hplus])]
      simp [fromStrRadix, dropPlus, hplus]
    · rw [hread (by simp [dropPlus, hplus])]
      simp [fromStrRadix, dropPlus, hplus]

/-! ## Properties -/

/-- Where a node is below another one: the name and the unit address of each node on the way. -/
abbrev Path : Type := List (Str × Option ℕ)

/-- What a property holds. A reference to a node says where the node is below the root; references are
made by `link_phandles`. -/
inductive PropertyValue
  | empty
  | pHandleRaw (handle : ℕ)
  | pHandle (target : Path)
  | u32 (value : ℕ)
  | u64 (value : ℕ)
  | propSpecific (value : List UInt8)
  | string (value : Str)
  | stringList (values : List Str)
  deriving DecidableEq, Repr

/-- The number in big-endian bytes. -/
def bigEndian (bytes : List UInt8) : ℕ := bytes.foldl (fun value b => value * 256 + b.toNat) 0

namespace PropertyValue

/-- The loop over all bytes but the last one: whether it is a string, and whether it is a list of
strings. -/
def scan (isStringList prevIsZero : Bool) : List UInt8 → Bool × Bool
  | [] => (true, isStringList)
  | i :: rest =>
    if i = 0 ∧ prevIsZero = false then scan true true rest
    else if i < 0x20 then (false, false)
    else scan isStringList false rest

/-- The parts of a value that end in a zero byte. -/
def splitZero (part : List UInt8) : List UInt8 → List (List UInt8)
  | [] => []
  | i :: rest => if i = 0 then part :: splitZero [] rest else splitZero (part ++ [i]) rest

/-- `guess`. -/
def guess (value : List UInt8) (name : Option Str) : Except Fault PropertyValue :=
  if value.isEmpty then .ok .empty
  else
    let (isString, isStringList) := scan false true value.dropLast
    if isStringList then do
      let list ← (splitZero [] value).mapM fromUtf8
      return .stringList list
    else if isString then do
      let text ← fromUtf8 value.dropLast
      return .string text
    else if value.length = 8 then .ok (.u64 (bigEndian value))
    else if value.length = 4 then
      if name.getD [] = ascii "interrupt-parent" then .ok (.pHandleRaw (bigEndian value))
      else .ok (.u32 (bigEndian value))
    else .ok (.propSpecific value)

end PropertyValue

/-! ## Nodes -/

/-- A node, without what the kernel hangs on it later. The order of the entries of its maps, which
nothing depends on here, is the one in which they were inserted. -/
inductive Node
  | mk (name : Str) (unitAddress : Option ℕ) (children : List (Str × List (Option ℕ × Node)))
    (properties : List (Str × PropertyValue))

namespace Node

def name : Node → Str
  | mk name _ _ _ => name

def unitAddress : Node → Option ℕ
  | mk _ unitAddress _ _ => unitAddress

def children : Node → List (Str × List (Option ℕ × Node))
  | mk _ _ children _ => children

def properties : Node → List (Str × PropertyValue)
  | mk _ _ _ properties => properties

/-- `splitn(2, '@')`. -/
def splitName (tokenName : Str) : Str × Option Str :=
  match tokenName.dropWhile (· ≠ 0x40) with
  | [] => (tokenName, none)
  | _ :: address => (tokenName.takeWhile (· ≠ 0x40), some address)

/-- `new`. -/
def new (tokenName : Str) : Node :=
  let (name, address) := splitName tokenName
  mk name (address.map fun s => (fromStrRadix s).getD 0) [] []

/-- `insert_child`. -/
def insertChild : Node → Node → Node
  | mk name unitAddress children properties, other =>
    match children.lookup other.name with
    | some d => mk name unitAddress
        (Assoc.insert other.name (Assoc.insert other.unitAddress other d) children) properties
    | none => mk name unitAddress
        (Assoc.insert other.name (Assoc.insert other.unitAddress other []) children) properties

/-- `properties.insert`. -/
def insertProperty : Node → Str → PropertyValue → Node
  | mk name unitAddress children properties, key, value =>
    mk name unitAddress children (Assoc.insert key value properties)

/-- What a node is found under in its parent. -/
def key (n : Node) : Str × Option ℕ := (n.name, n.unitAddress)

/-- The child of a name and a unit address. -/
def child (n : Node) (k : Str × Option ℕ) : Option Node :=
  (n.children.lookup k.1).bind fun d => d.lookup k.2

/-- The node at a place. -/
def find (n : Node) : Path → Option Node
  | [] => some n
  | k :: path => (n.child k).bind fun c => c.find path

/-- The value of a property. -/
def property (n : Node) (key : Str) : Option PropertyValue := n.properties.lookup key

/-- Properties are inserted, one after the other. -/
def insertProperties (n : Node) (entries : List (Str × PropertyValue)) : Node :=
  entries.foldl (fun n e => n.insertProperty e.1 e.2) n

/-- Children are inserted, one after the other. -/
def insertChildren (n : Node) (others : List Node) : Node := others.foldl insertChild n

variable {n other : Node} {key key' : Str} {value : PropertyValue}

@[simp] theorem insertChild_name : (n.insertChild other).name = n.name := by
  cases n
  unfold insertChild
  dsimp only
  split <;> rfl

@[simp] theorem insertChild_unitAddress : (n.insertChild other).unitAddress = n.unitAddress := by
  cases n
  unfold insertChild
  dsimp only
  split <;> rfl

@[simp] theorem insertChild_properties : (n.insertChild other).properties = n.properties := by
  cases n
  unfold insertChild
  dsimp only
  split <;> rfl

/-- The children after one has been inserted, with or without a map for its name. -/
theorem insertChild_children : (n.insertChild other).children =
    Assoc.insert other.name
      (Assoc.insert other.unitAddress other ((n.children.lookup other.name).getD [])) n.children := by
  cases n
  unfold insertChild
  dsimp only
  split <;> rename_i h <;> simp [children, h]

/-- **The children of a node after one has been inserted.** -/
theorem child_insertChild (n other : Node) (k : Str × Option ℕ) :
    (n.insertChild other).child k = if k = other.key then some other else n.child k := by
  obtain ⟨name, address⟩ := k
  rw [child, insertChild_children, Assoc.lookup_insert]
  simp only [Node.key, Prod.mk.injEq]
  by_cases hname : name = other.name
  · subst hname
    by_cases haddress : address = other.unitAddress
    · simp [Assoc.lookup_insert, haddress]
    · cases h : n.children.lookup other.name <;> simp [Assoc.lookup_insert, haddress, child, h]
  · simp [hname, child]

@[simp] theorem insertProperty_name : (n.insertProperty key value).name = n.name := by
  cases n
  rfl

@[simp] theorem insertProperty_unitAddress :
    (n.insertProperty key value).unitAddress = n.unitAddress := by
  cases n
  rfl

@[simp] theorem insertProperty_children : (n.insertProperty key value).children = n.children := by
  cases n
  rfl

theorem property_insertProperty : (n.insertProperty key value).property key' =
    if key' = key then some value else n.property key' := by
  obtain ⟨name, unitAddress, children, properties⟩ := n
  exact Assoc.lookup_insert

/-! ### Several insertions -/

variable {entries : List (Str × PropertyValue)} {others : List Node}

@[simp] theorem insertProperties_name : (n.insertProperties entries).name = n.name :=
  Assoc.apply_foldl fun _ _ => insertProperty_name

@[simp] theorem insertProperties_unitAddress :
    (n.insertProperties entries).unitAddress = n.unitAddress :=
  Assoc.apply_foldl fun _ _ => insertProperty_unitAddress

@[simp] theorem insertProperties_children : (n.insertProperties entries).children = n.children :=
  Assoc.apply_foldl fun _ _ => insertProperty_children

@[simp] theorem insertChildren_name : (n.insertChildren others).name = n.name :=
  Assoc.apply_foldl fun _ _ => insertChild_name

@[simp] theorem insertChildren_unitAddress :
    (n.insertChildren others).unitAddress = n.unitAddress :=
  Assoc.apply_foldl fun _ _ => insertChild_unitAddress

@[simp] theorem insertChildren_properties :
    (n.insertChildren others).properties = n.properties :=
  Assoc.apply_foldl fun _ _ => insertChild_properties

theorem property_insertProperties : (n.insertProperties entries).property key =
    ((entries.filter fun e => e.1 = key).getLast?.map Prod.snd).or (n.property key) :=
  Assoc.find_foldl fun _ _ _ => property_insertProperty

theorem child_insertChildren {k : Str × Option ℕ} : (n.insertChildren others).child k =
    ((others.filter fun other => other.key = k).getLast?.map id).or (n.child k) :=
  Assoc.find_foldl child_insertChild

theorem property_insertProperties_of_mem {e : Str × PropertyValue}
    (hnodup : (entries.map Prod.fst).Nodup) (he : e ∈ entries) :
    (n.insertProperties entries).property e.1 = some e.2 :=
  Assoc.find_foldl_of_mem (fun _ _ _ => property_insertProperty) hnodup he

theorem property_insertProperties_of_notMem (hkey : key ∉ entries.map Prod.fst) :
    (n.insertProperties entries).property key = n.property key :=
  Assoc.find_foldl_of_notMem (fun _ _ _ => property_insertProperty) hkey

theorem child_insertChildren_of_mem (hnodup : (others.map Node.key).Nodup) (hother : other ∈ others) :
    (n.insertChildren others).child other.key = some other :=
  Assoc.find_foldl_of_mem child_insertChild hnodup hother

theorem child_insertChildren_of_notMem {k : Str × Option ℕ} (hk : k ∉ others.map Node.key) :
    (n.insertChildren others).child k = n.child k :=
  Assoc.find_foldl_of_notMem child_insertChild hk

end Node

end DeviceTree

end AsyncKernel
