import AsyncKernel.DeviceTree.Node
import AsyncKernel.Foundation.Outcome

/-!
# Building the device tree

`build` of `fdt.rs` follows the tokens of a structure block with a cursor. It keeps the node that it
is in, and a stack of the nodes around that one; a node is put into its parent when it ends. After the
name of a node the cursor does not always land on the next token, and whatever is no token is skipped.

## Main definitions

* `Blob`: the memory of a device tree, and the reads from it
* `Nodes.beginNode`, `Nodes.endNode`, `Nodes.insertProperty`: what the tokens do to the nodes
* `step`, `build`: one iteration of the loop, and the loop

## Main results

* `build_ne_outOfFuel`: the loop ends
-/

namespace AsyncKernel

namespace DeviceTree

/-- The memory of a flattened device tree, from `DEVICE_TREE_BASE` on. -/
structure Blob where
  base : ℕ
  bytes : List UInt8

namespace Blob

variable (blob : Blob)

/-- The bytes from an address on. -/
def suffix (a : ℕ) : List UInt8 := if blob.base ≤ a then blob.bytes.drop (a - blob.base) else []

/-- `(*token).swap_bytes()`. -/
def readU32 (a : ℕ) : Except Fault ℕ :=
  match blob.suffix a with
  | b₀ :: b₁ :: b₂ :: b₃ :: _ => .ok (bigEndian [b₀, b₁, b₂, b₃])
  | _ => .error .outOfBounds

/-- `CStr::from_ptr`, without the zero byte at its end. -/
def cStr (a : ℕ) : Except Fault (List UInt8) :=
  let text := (blob.suffix a).takeWhile (· ≠ 0)
  if text.length < (blob.suffix a).length then .ok text else .error .outOfBounds

/-- `slice::from_raw_parts`. -/
def slice (a len : ℕ) : Except Fault (List UInt8) :=
  if len ≤ (blob.suffix a).length then .ok ((blob.suffix a).take len) else .error .outOfBounds

/-- `get_string`. `offset_dt_strings` is the fourth word of `FdtHeader`. -/
def getString (offset : ℕ) : Except Fault Str := do
  let offsetDtStrings ← blob.readU32 (blob.base + 12)
  let text ← blob.cStr (blob.base + offsetDtStrings + offset)
  fromUtf8 text

end Blob

inductive StructureToken
  | beginNode
  | endNode
  | prop
  | nop
  | endTree
  | unknown
  deriving DecidableEq, Repr

/-- `StructureToken::from`. -/
def StructureToken.fromPrimitive : ℕ → StructureToken
  | 1 => .beginNode
  | 2 => .endNode
  | 3 => .prop
  | 4 => .nop
  | 9 => .endTree
  | _ => .unknown

/-- The next multiple of 4. -/
def alignUp (token : ℕ) : ℕ :=
  let remain := token % 4
  let div := token / 4
  (if remain ≠ 0 then div + 1 else div) * 4

/-! ## The nodes -/

/-- The nodes around the current one, the innermost one first, and the current one. -/
structure Nodes where
  nodeStack : List Node
  currentNode : Option Node

namespace Nodes

variable (s : Nodes)

/-- A node begins. -/
def beginNode (n : Node) : Nodes where
  nodeStack := match s.currentNode with
    | some t => t :: s.nodeStack
    | none => s.nodeStack
  currentNode := some n

/-- A node ends. -/
def endNode : Nodes :=
  match s.currentNode, s.nodeStack with
  | some t, last :: nodeStack => ⟨nodeStack, some (last.insertChild t)⟩
  | some t, [] => ⟨[], some t⟩
  | none, nodeStack => ⟨nodeStack, none⟩

/-- The current node gets a property. -/
def insertProperty (name : Str) (value : List UInt8) : Except Fault Nodes :=
  match s.currentNode with
  | none => .ok s
  | some t => do
    let value ← PropertyValue.guess value (some name)
    return { s with currentNode := some (t.insertProperty name value) }

end Nodes

/-! ## The loop -/

variable (blob : Blob)

/-- The value of a property: it is only read when there is a node that it belongs to. -/
def propValue (s : Nodes) (a len : ℕ) : Except Fault (List UInt8) :=
  if s.currentNode.isSome then blob.slice a len else .ok []

/-- One iteration of the loop: the cursor and the nodes after it, unless it ends the loop. -/
def step (token : ℕ) (s : Nodes) : Except Fault (Option (ℕ × Nodes)) := do
  match StructureToken.fromPrimitive (← blob.readU32 token) with
  | .beginNode =>
    let name ← blob.cStr (token + 4)
    -- one more byte than the name has with its zero byte, from the token on and not from the name
    let token := alignUp (token + (name.length + 1 + 1))
    let name ← fromUtf8 name
    return some (token, s.beginNode (Node.new name))
  | .endNode => return some (token + 4, s.endNode)
  | .prop =>
    let name ← blob.getString (← blob.readU32 (token + 8))
    let len ← blob.readU32 (token + 4)
    let value ← propValue blob s (token + 12) len
    let s ← s.insertProperty name value
    return some (alignUp (token + 12 + len), s)
  | .nop => return some (token + 4, s)
  | .endTree => return none
  | .unknown => return some (token + 4, s)

/-- The loop, up to a number of iterations. -/
def loop : ℕ → ℕ → Nodes → Except Fault Node
  | 0, _, _ => .error .outOfFuel
  | fuel + 1, token, s => do
    match ← step blob token s with
    | some (token, s) => loop fuel token s
    | none =>
      -- `current_node.unwrap()`
      match s.currentNode with
      | some n => return n
      | none => .error .panic

/-- `build`. -/
def build (token : ℕ) : Except Fault Node := loop blob (blob.bytes.length + 1) token ⟨[], none⟩

/-! ## The end of the loop -/

theorem le_alignUp (token : ℕ) : token ≤ alignUp token := by
  simp only [alignUp]
  split <;> omega

/-- What the loop may fail with: anything but having run out of iterations. -/
def Fails (e : Fault) : Prop := e ≠ .outOfFuel

variable {blob} {token : ℕ} {s : Nodes}

theorem le_of_suffix_ne_nil (h : blob.suffix token ≠ []) :
    blob.base ≤ token ∧ token < blob.base + blob.bytes.length := by
  unfold Blob.suffix at h
  split at h
  · rename_i hbase
    refine ⟨hbase, ?_⟩
    by_contra hout
    exact h (List.drop_eq_nil_of_le (by omega))
  · exact absurd rfl h

/-- A word is read within the memory. -/
theorem readU32_outcome :
    Outcome Fails (fun _ => blob.base ≤ token ∧ token < blob.base + blob.bytes.length)
      (blob.readU32 token) := by
  unfold Blob.readU32
  split
  · rename_i hsuffix
    exact le_of_suffix_ne_nil (by simp [hsuffix])
  · exact Fault.noConfusion

theorem cStr_outcome (a : ℕ) : Outcome Fails (fun _ => True) (blob.cStr a) := by
  simp only [Blob.cStr]
  split
  · trivial
  · exact Fault.noConfusion

theorem slice_outcome (a len : ℕ) : Outcome Fails (fun _ => True) (blob.slice a len) := by
  unfold Blob.slice
  split
  · trivial
  · exact Fault.noConfusion

theorem fromUtf8_outcome (bytes : List UInt8) : Outcome Fails (fun _ => True) (fromUtf8 bytes) := by
  unfold fromUtf8
  split
  · trivial
  · exact Fault.noConfusion

theorem getString_outcome (offset : ℕ) : Outcome Fails (fun _ => True) (blob.getString offset) :=
  readU32_outcome.bind fun _ _ => (cStr_outcome _).bind fun text _ => fromUtf8_outcome text

theorem guess_outcome (value : List UInt8) (name : Option Str) :
    Outcome Fails (fun _ => True) (PropertyValue.guess value name) := by
  simp only [PropertyValue.guess]
  split_ifs
  · trivial
  · exact (Outcome.mapM fun part _ => fromUtf8_outcome part).bind fun _ _ => trivial
  · exact (fromUtf8_outcome _).bind fun _ _ => trivial
  all_goals trivial

theorem insertProperty_outcome (name : Str) (value : List UInt8) :
    Outcome Fails (fun _ => True) (s.insertProperty name value) := by
  unfold Nodes.insertProperty
  split
  · trivial
  · exact (guess_outcome value _).bind fun _ _ => trivial

theorem propValue_outcome (a len : ℕ) :
    Outcome Fails (fun _ => True) (propValue blob s a len) := by
  unfold propValue
  split
  · exact slice_outcome _ _
  · trivial

/-- An iteration that goes on has read a word, and advances the cursor. -/
theorem step_outcome : Outcome Fails (fun next => ∀ token' s', next = some (token', s') →
    token < token' ∧ blob.base ≤ token ∧ token < blob.base + blob.bytes.length)
    (step blob token s) := by
  unfold step
  refine readU32_outcome.bind fun word hword => ?_
  split
  · refine (cStr_outcome _).bind fun name _ => (fromUtf8_outcome _).bind fun name' _ => ?_
    rintro token' s' ⟨⟩
    have hle := le_alignUp (token + (name.length + 1 + 1))
    exact ⟨by omega, hword⟩
  · rintro token' s' ⟨⟩
    exact ⟨by omega, hword⟩
  · refine readU32_outcome.bind fun offset _ => (getString_outcome offset).bind fun name _ =>
      readU32_outcome.bind fun len _ => ?_
    refine (propValue_outcome _ _).bind fun value _ =>
      (insertProperty_outcome name value).bind fun s _ => ?_
    rintro token' s' ⟨⟩
    have hle := le_alignUp (token + 12 + len)
    exact ⟨by omega, hword⟩
  · rintro token' s' ⟨⟩
    exact ⟨by omega, hword⟩
  · rintro token' s' ⟨⟩
  · rintro token' s' ⟨⟩
    exact ⟨by omega, hword⟩

theorem loop_outcome (fuel : ℕ) (hfuel : blob.bytes.length - (token - blob.base) < fuel) :
    Outcome Fails (fun _ => True) (loop blob fuel token s) := by
  induction fuel generalizing token s with
  | zero => omega
  | succ fuel ih =>
    rw [loop]
    refine step_outcome.bind fun next hnext => ?_
    match next with
    | some (token', s') =>
      obtain ⟨hlt, hbase, hbound⟩ := hnext token' s' rfl
      exact ih (by omega)
    | none =>
      dsimp only
      split
      · trivial
      · exact Fault.noConfusion

/-- **The loop ends**: it does not run out of iterations. -/
theorem build_ne_outOfFuel (token : ℕ) : build blob token ≠ .error .outOfFuel := by
  intro h
  have houtcome : Outcome Fails (fun _ => True) (build blob token) := loop_outcome _ (by omega)
  rw [h] at houtcome
  exact houtcome rfl

/-- More iterations than the loop takes do not change what it returns. -/
theorem loop_add {fuel : ℕ} (h : loop blob fuel token s ≠ .error .outOfFuel) (more : ℕ) :
    loop blob (fuel + more) token s = loop blob fuel token s := by
  induction fuel generalizing token s with
  | zero => exact absurd rfl h
  | succ fuel ih =>
    rw [Nat.succ_add, loop, loop]
    rw [loop] at h
    cases hstep : step blob token s with
    | error e => rfl
    | ok next =>
      rw [hstep] at h
      match next with
      | some (token', s') => exact ih h
      | none => rfl

end DeviceTree

end AsyncKernel
