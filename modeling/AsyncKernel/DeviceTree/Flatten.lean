import AsyncKernel.DeviceTree.Build

/-!
# The structure block

The tokens of a structure block as the specification of the device tree format lays them out in
memory. After the name of a node the cursor of `build` lands on the next token when the length of the
name is 3 modulo 4, and on the last word of the name otherwise. This word is zero, or its first byte
is not zero; so it is no token, and `build` skips it.

## Main definitions

* `Token`, `Token.encode`: the tokens and their bytes
* `Token.apply`: what a token does to the nodes

## Main results

* `loop_token`: the loop takes one token, whatever the length of a name is
* `build_tokens`: `build` applies the tokens of the block, one after the other
-/

namespace AsyncKernel

namespace DeviceTree

/-- A token, with what belongs to it. -/
inductive Token
  | beginNode (name : List UInt8)
  | endNode
  | prop (nameOffset : ℕ) (value : List UInt8)
  | nop
  deriving DecidableEq, Repr

/-- A big-endian word. -/
def word (n : ℕ) : List UInt8 :=
  [UInt8.ofNat (n / 2 ^ 24), UInt8.ofNat (n / 2 ^ 16), UInt8.ofNat (n / 2 ^ 8), UInt8.ofNat n]

/-- Bytes, with zeros up to a multiple of four bytes. -/
def padded (bytes : List UInt8) : List UInt8 :=
  bytes ++ List.replicate ((4 - bytes.length % 4) % 4) 0

namespace Token

/-- The bytes of a token. -/
def encode : Token → List UInt8
  | beginNode name => word 1 ++ padded (name ++ [0])
  | endNode => word 2
  | prop nameOffset value => word 3 ++ word value.length ++ word nameOffset ++ padded value
  | nop => word 4

/-- What a token does to the nodes. -/
def apply (blob : Blob) (s : Nodes) : Token → Except Fault Nodes
  | beginNode name => do
    let name ← fromUtf8 name
    return s.beginNode (Node.new name)
  | endNode => .ok s.endNode
  | prop nameOffset value => do
    let name ← blob.getString nameOffset
    s.insertProperty name value
  | nop => .ok s

/-- Names have no zero bytes, and numbers fit into their words. -/
def WellFormed : Token → Prop
  | beginNode name => 0 ∉ name
  | prop nameOffset value => nameOffset < 2 ^ 32 ∧ value.length < 2 ^ 32
  | endNode | nop => True

end Token

/-! ## Reads -/

variable {blob : Blob} {a : ℕ} {rest : List UInt8} {s : Nodes}

theorem suffix_add {bytes : List UInt8} (h : blob.suffix a = bytes ++ rest) :
    blob.suffix (a + bytes.length) = rest := by
  unfold Blob.suffix at h ⊢
  split at h
  · rename_i hbase
    rw [if_pos (by omega), show a + bytes.length - blob.base = a - blob.base + bytes.length by omega,
      ← List.drop_drop, h, List.drop_left]
  · rename_i hbase
    obtain ⟨rfl, rfl⟩ := List.append_eq_nil_iff.mp h.symm
    exact if_neg hbase

theorem bigEndian_word {n : ℕ} (h : n < 2 ^ 32) : bigEndian (word n) = n := by
  simp only [bigEndian, word, List.foldl_cons, List.foldl_nil, UInt8.toNat_ofNat']
  omega

theorem readU32_append {bytes : List UInt8} (hlength : bytes.length = 4)
    (h : blob.suffix a = bytes ++ rest) : blob.readU32 a = .ok (bigEndian bytes) := by
  obtain ⟨b₀, b₁, b₂, b₃, rfl⟩ := List.length_eq_four.mp hlength
  rw [Blob.readU32, h]
  rfl

theorem length_word (n : ℕ) : (word n).length = 4 := rfl

theorem readU32_word {n : ℕ} (hn : n < 2 ^ 32) (h : blob.suffix a = word n ++ rest) :
    blob.readU32 a = .ok n := by
  rw [readU32_append (length_word n) h, bigEndian_word hn]

theorem cStr_append {text : List UInt8} (htext : 0 ∉ text) (h : blob.suffix a = text ++ 0 :: rest) :
    blob.cStr a = .ok text := by
  have htake : (blob.suffix a).takeWhile (· ≠ 0) = text := by
    rw [h, takeWhile_ne_append htext]
  simp only [Blob.cStr, htake]
  exact if_pos (by simp [h])

theorem slice_append {value : List UInt8} (h : blob.suffix a = value ++ rest) :
    blob.slice a value.length = .ok value := by
  rw [Blob.slice, h, List.take_left]
  exact if_pos (by simp)

/-! ## One token -/

theorem length_padded (bytes : List UInt8) :
    (padded bytes).length = (bytes.length + 3) / 4 * 4 := by
  simp only [padded, List.length_append, List.length_replicate]
  omega

theorem loop_succ (fuel : ℕ) : loop blob (fuel + 1) a s = step blob a s >>= fun next =>
    match next with
    | some (token, s) => loop blob fuel token s
    | none =>
      match s.currentNode with
      | some n => .ok n
      | none => .error .panic := rfl

/-- A word that is no token is skipped. -/
theorem loop_unknown {fuel n : ℕ} (hread : blob.readU32 a = .ok n) (hn : n = 0 ∨ 9 < n) :
    loop blob (fuel + 1) a s = loop blob fuel (a + 4) s := by
  have htoken : StructureToken.fromPrimitive n = .unknown := by
    unfold StructureToken.fromPrimitive
    split <;> first | omega | rfl
  rw [loop_succ, step, hread]
  simp only [bind, Except.bind, htoken]
  rfl

/-- A word whose first byte is not zero is no token. -/
theorem nine_lt_bigEndian {b : UInt8} {bytes : List UInt8} (hb : b ≠ 0) (hlength : bytes.length = 3) :
    9 < bigEndian (b :: bytes) := by
  obtain ⟨b₁, b₂, b₃, rfl⟩ := List.length_eq_three.mp hlength
  have hpos : 0 < b.toNat := by
    by_contra hzero
    exact hb (UInt8.toNat_inj.mp (by simpa using hzero))
  simp only [bigEndian, List.foldl_cons, List.foldl_nil]
  omega

/-- The last word of a name is not a token. -/
theorem padded_eq {name : List UInt8} (hname : 0 ∉ name) :
    ∃ last, padded (name ++ [0]) = name.take (name.length / 4 * 4) ++ last ∧ last.length = 4 ∧
      (bigEndian last = 0 ∨ 9 < bigEndian last) := by
  have hzeros : [0] ++ List.replicate ((4 - (name ++ [0]).length % 4) % 4) 0 =
      List.replicate (4 - name.length % 4) (0 : UInt8) := by
    rw [← List.replicate_one, List.replicate_append_replicate, List.length_append,
      List.length_replicate]
    congr 1
    omega
  refine ⟨name.drop (name.length / 4 * 4) ++ List.replicate (4 - name.length % 4) 0, ?_, ?_, ?_⟩
  · rw [padded, List.append_assoc, hzeros, ← List.append_assoc, List.take_append_drop]
  · simp only [List.length_append, List.length_drop, List.length_replicate]
    omega
  · have hdrop : (name.drop (name.length / 4 * 4)).length = name.length % 4 := by
      rw [List.length_drop]
      omega
    have hmem : ∀ b ∈ name.drop (name.length / 4 * 4), b ≠ 0 :=
      fun b hb hzero => hname (hzero ▸ List.mem_of_mem_drop hb)
    match hrest : name.drop (name.length / 4 * 4) with
    | [] =>
      rw [hrest] at hdrop
      rw [← hdrop]
      exact Or.inl rfl
    | b :: rest =>
      -- the first byte of the word belongs to the name
      right
      rw [hrest] at hdrop hmem
      rw [List.cons_append]
      refine nine_lt_bigEndian (hmem b List.mem_cons_self) ?_
      rw [List.length_cons] at hdrop
      rw [List.length_append, List.length_replicate]
      omega

theorem length_encode_mod (tok : Token) : tok.encode.length % 4 = 0 := by
  cases tok with
  | beginNode name =>
    rw [Token.encode, List.length_append, length_word, length_padded]
    omega
  | prop nameOffset value =>
    simp only [Token.encode, List.length_append, length_word, length_padded]
    omega
  | endNode => rfl
  | nop => rfl

/-- The cursor after the name of a node: at the next token, or at the last word of the name. -/
theorem step_beginNode {name : List UInt8} (hname : 0 ∉ name) (ha : a % 4 = 0)
    (h : blob.suffix a = (Token.beginNode name).encode ++ rest) :
    step blob a s = fromUtf8 name >>= fun name' =>
      .ok (some (a + 4 + (name.length + 1) / 4 * 4, s.beginNode (Node.new name'))) := by
  have hword : blob.readU32 a = .ok 1 := readU32_word (by decide)
    (h.trans (List.append_assoc _ _ _))
  have htext : blob.suffix (a + 4) = name ++ 0 :: (List.replicate
      ((4 - (name ++ [0]).length % 4) % 4) 0 ++ rest) := by
    have hsuffix := suffix_add (h.trans (List.append_assoc _ _ _))
    rw [length_word] at hsuffix
    rw [hsuffix, padded]
    simp only [List.append_assoc, List.cons_append, List.nil_append]
  have halign : alignUp (a + (name.length + 1 + 1)) = a + 4 + (name.length + 1) / 4 * 4 := by
    simp only [alignUp]
    split <;> omega
  rw [step, hword]
  simp only [bind, Except.bind, StructureToken.fromPrimitive, cStr_append hname htext, halign]
  rfl

/-- A name takes two iterations, or one when the cursor lands behind it at once. -/
theorem loop_beginNode {name : List UInt8} (hname : 0 ∉ name) (ha : a % 4 = 0)
    (h : blob.suffix a = (Token.beginNode name).encode ++ rest) :
    ∃ k, ∀ fuel s, loop blob (fuel + k) a s = (Token.beginNode name).apply blob s >>= fun s' =>
      loop blob fuel (a + (Token.beginNode name).encode.length) s' := by
  have hlength : (Token.beginNode name).encode.length = 4 + (name.length + 4) / 4 * 4 := by
    rw [Token.encode, List.length_append, length_word, length_padded, List.length_append]
    rfl
  by_cases hmod : name.length % 4 = 3
  · refine ⟨1, fun fuel s => ?_⟩
    have hcursor : a + 4 + (name.length + 1) / 4 * 4 =
        a + (Token.beginNode name).encode.length := by omega
    rw [loop_succ, step_beginNode hname ha h, hcursor, Token.apply]
    cases fromUtf8 name <;> rfl
  · refine ⟨2, fun fuel s => ?_⟩
    obtain ⟨last, hpadded, hlast, htoken⟩ := padded_eq hname
    have hcursor : a + 4 + (name.length + 1) / 4 * 4 + 4 =
        a + (Token.beginNode name).encode.length := by omega
    have hread : blob.readU32 (a + 4 + (name.length + 1) / 4 * 4) = .ok (bigEndian last) := by
      have hwords : blob.suffix a =
          (word 1 ++ name.take (name.length / 4 * 4)) ++ (last ++ rest) := by
        rw [h, Token.encode, hpadded]
        simp only [List.append_assoc]
      have hword := readU32_append hlast (suffix_add hwords)
      have haddress : a + (word 1 ++ name.take (name.length / 4 * 4)).length =
          a + 4 + (name.length + 1) / 4 * 4 := by
        rw [List.length_append, length_word, List.length_take]
        omega
      rwa [haddress] at hword
    rw [loop_succ, step_beginNode hname ha h, Token.apply]
    cases fromUtf8 name with
    | error e => rfl
    | ok name' =>
      have hskip : loop blob (fuel + 1) _ (s.beginNode (Node.new name')) = _ :=
        loop_unknown hread htoken
      rw [hcursor] at hskip
      exact hskip

/-- The value of a property, when there is a node that it belongs to. -/
theorem propValue_insertProperty {name : Str} {value : List UInt8}
    (h : blob.suffix a = value ++ rest) :
    (propValue blob s a value.length >>= fun value => s.insertProperty name value) =
      s.insertProperty name value := by
  unfold propValue
  cases hs : s.currentNode with
  | none =>
    simp only [Option.isSome_none, Bool.false_eq_true, if_false, bind, Except.bind,
      Nodes.insertProperty, hs]
  | some n =>
    rw [Option.isSome_some, if_pos rfl, slice_append h]
    rfl

theorem step_prop {nameOffset : ℕ} {value : List UInt8} (hoffset : nameOffset < 2 ^ 32)
    (hvalue : value.length < 2 ^ 32) (ha : a % 4 = 0)
    (h : blob.suffix a = (Token.prop nameOffset value).encode ++ rest) :
    step blob a s = (Token.prop nameOffset value).apply blob s >>= fun s' =>
      .ok (some (a + (Token.prop nameOffset value).encode.length, s')) := by
  have htoken : blob.suffix a =
      word 3 ++ (word value.length ++ (word nameOffset ++ (value ++ (List.replicate
        ((4 - value.length % 4) % 4) 0 ++ rest)))) := by
    rw [h, Token.encode, padded]
    simp only [List.append_assoc]
  have hlen : blob.suffix (a + 4) = _ := suffix_add htoken
  have hname : blob.suffix (a + 8) = _ := suffix_add hlen
  have hbytes : blob.suffix (a + 12) = _ := suffix_add hname
  have hcursor : alignUp (a + 12 + value.length) =
      a + (Token.prop nameOffset value).encode.length := by
    simp only [Token.encode, List.length_append, length_word, length_padded, alignUp]
    split <;> omega
  rw [step, readU32_word (by decide) htoken, readU32_word hvalue hlen, readU32_word hoffset hname]
  simp only [ok_bind, StructureToken.fromPrimitive, hcursor, Token.apply, bind_assoc]
  congr 1
  funext name
  rw [← bind_assoc, propValue_insertProperty hbytes]
  rfl

/-- **The loop takes one token**, whatever the length of a name is. -/
theorem loop_token {tok : Token} (htok : tok.WellFormed) (ha : a % 4 = 0)
    (h : blob.suffix a = tok.encode ++ rest) :
    ∃ k, ∀ fuel s, loop blob (fuel + k) a s = tok.apply blob s >>= fun s' =>
      loop blob fuel (a + tok.encode.length) s' := by
  cases tok with
  | beginNode name => exact loop_beginNode htok ha h
  | endNode =>
    refine ⟨1, fun fuel s => ?_⟩
    rw [loop_succ, step, readU32_word (by decide) h]
    rfl
  | prop nameOffset value =>
    refine ⟨1, fun fuel s => ?_⟩
    rw [loop_succ, step_prop htok.1 htok.2 ha h, bind_assoc]
    rfl
  | nop =>
    refine ⟨1, fun fuel s => ?_⟩
    rw [loop_succ, step, readU32_word (by decide) h]
    rfl

/-! ## All tokens -/

theorem loop_tokens {tokens : List Token} (htokens : ∀ tok ∈ tokens, tok.WellFormed)
    (ha : a % 4 = 0) (h : blob.suffix a = tokens.flatMap Token.encode ++ rest) :
    ∃ k, ∀ fuel s, loop blob (fuel + k) a s = tokens.foldlM (Token.apply blob) s >>= fun s' =>
      loop blob fuel (a + (tokens.flatMap Token.encode).length) s' := by
  induction tokens generalizing a with
  | nil => exact ⟨0, fun fuel s => rfl⟩
  | cons tok tokens ih =>
    rw [List.flatMap_cons, List.append_assoc] at h
    have hmod := length_encode_mod tok
    obtain ⟨k₁, hfirst⟩ := loop_token (htokens tok List.mem_cons_self) ha h
    obtain ⟨k₂, hothers⟩ := ih (fun tok' htok' => htokens tok' (List.mem_cons_of_mem _ htok'))
      (by omega) (suffix_add h)
    refine ⟨k₂ + k₁, fun fuel s => ?_⟩
    rw [← Nat.add_assoc, hfirst, List.foldlM_cons, bind_assoc, List.flatMap_cons,
      List.length_append, ← Nat.add_assoc]
    congr 1
    funext s'
    exact hothers fuel s'

/-- **`build` applies the tokens of the block**, one after the other. -/
theorem build_tokens {tokens : List Token} (htokens : ∀ tok ∈ tokens, tok.WellFormed)
    (ha : a % 4 = 0) (h : blob.suffix a = tokens.flatMap Token.encode ++ (word 9 ++ rest)) :
    build blob a = tokens.foldlM (Token.apply blob) ⟨[], none⟩ >>= fun s =>
      match s.currentNode with
      | some n => .ok n
      | none => .error .panic := by
  obtain ⟨k, hloop⟩ := loop_tokens htokens ha h
  have hend : ∀ fuel s, loop blob (fuel + 1) (a + (tokens.flatMap Token.encode).length) s =
      match s.currentNode with
      | some n => .ok n
      | none => .error .panic := by
    intro fuel s
    rw [loop_succ, step, readU32_word (by decide) (suffix_add h)]
    rfl
  -- the iterations that `build` allows are enough, so that others may be added
  calc build blob a
      = loop blob (blob.bytes.length + 1 + (1 + k)) a ⟨[], none⟩ :=
        (loop_add (build_ne_outOfFuel a) (1 + k)).symm
    _ = tokens.foldlM (Token.apply blob) ⟨[], none⟩ >>= fun s =>
          loop blob (blob.bytes.length + 1 + 1) (a + (tokens.flatMap Token.encode).length) s := by
        rw [← Nat.add_assoc, hloop]
    _ = _ := by simp only [hend]

/-- The tokens that are no NOPs. -/
def significant (tokens : List Token) : List Token := tokens.filter fun tok => tok ≠ .nop

/-- NOPs do nothing to the nodes. -/
theorem foldlM_significant (tokens : List Token) (s : Nodes) :
    (significant tokens).foldlM (Token.apply blob) s = tokens.foldlM (Token.apply blob) s := by
  induction tokens generalizing s with
  | nil => rfl
  | cons tok tokens ih =>
    rw [significant, List.filter_cons]
    split
    · rw [List.foldlM_cons, List.foldlM_cons]
      congr 1
      funext s'
      exact ih s'
    · rename_i htok
      obtain rfl : tok = .nop := by simpa using htok
      exact ih s

end DeviceTree

end AsyncKernel
