import AsyncKernel.Paging.Entry

/-!
# Lookup and mapping

`GenericPaging<LEVELS, PTESIZE>`: the walk of a virtual address through the page tables, and the
recursive update of a range. Shift amounts are `getVpnOffset` of a level below `levels`, which
stays below 64 for the schemes up to `Sv65`.

## Main definitions

* `getVpnNumber`, `setVpnNumber`, `getVpnSize`: the fields of an address
* `GenericPaging.query`: the translation of a virtual address
* `mapInternal`, `GenericPaging.map`: mapping a range, level by level
* `GenericPaging.decanonicalizeAddress`, `GenericPaging.canonicalizeAddress`
-/

namespace AsyncKernel

/-! ## Virtual page numbers -/

/-- The offset of virtual page number `i`, as a `u8`. -/
def getVpnOffset (i ptesize : ℕ) : ℕ := (12 + i * (12 - ptesize.log2)) % 2 ^ 8

def getEntryCount (ptesize : ℕ) : Usize := BitVec.ofNat 64 (4096 / ptesize)

/-- The virtual page number `i` of an address, as a `u16`. -/
def getVpnNumber (virtualAddress : Usize) (i ptesize : ℕ) : ℕ :=
  ((virtualAddress >>> getVpnOffset i ptesize) &&& (getEntryCount ptesize - 1)).toNat % 2 ^ 16

def setVpnNumber (virtualAddress : Usize) (i value ptesize : ℕ) : Usize :=
  (virtualAddress &&& ~~~((getEntryCount ptesize - 1) <<< getVpnOffset i ptesize)) |||
    (BitVec.ofNat 64 value <<< getVpnOffset i ptesize)

/-- The size of a page at level `i`. -/
def getVpnSize (i ptesize : ℕ) : Usize := (1 : Usize) <<< getVpnOffset i ptesize

/-- `get_vpn_size(i, PTESIZE) - 1`. -/
def alignMask (i ptesize : ℕ) : Usize := getVpnSize i ptesize - 1

def getPageOffset (virtualAddress : Usize) : Usize := virtualAddress &&& (((1 : Usize) <<< 12) - 1)

/-- A paging scheme: the address of the root table, and the two address conversions. -/
structure GenericPaging (levels ptesize : ℕ) where
  table : Usize
  physToVirt : Usize → Usize
  virtToPhys : Usize → Usize

abbrev Sv32 := GenericPaging 2 4
abbrev Sv39 := GenericPaging 3 8
abbrev Sv48 := GenericPaging 4 8
abbrev Sv57 := GenericPaging 5 8
abbrev Sv65 := GenericPaging 6 8

/-! ## Lookup -/

/-- Step 8 of the lookup: the page offset and the fields `0..=i` of the virtual address, then the
fields `i..=LEVELS-1` of the entry. -/
def translatedAddress (levels ptesize : ℕ) (virtualAddr : Usize) (pte : Entry) (i : ℕ) : Usize :=
  let pa := getPageOffset virtualAddr
  -- the loop runs over `0..=i`; the second one overwrites field `i`
  let pa := (List.range' 0 (i + 1)).foldl
    (fun pa j => setVpnNumber pa j (getVpnNumber virtualAddr j ptesize) ptesize) pa
  (List.range' i (levels - i)).foldl
    (fun pa j => setVpnNumber pa j (getVpnNumber (pte.value <<< 2) j ptesize) ptesize) pa

/-- The loop of the lookup, from level `i` and `table` on. -/
def queryFrom (levels : ℕ) {ptesize : ℕ} (physToVirt : Usize → Usize) (mem : Memory ptesize)
    (virtualAddr : Usize) (i : ℕ) (table : Usize) :
    Except Fault (Except PageLookupError Usize) := do
  let pte ← mem.readEntry table (getVpnNumber virtualAddr i ptesize)
  if pte.value &&& EntryBits.valid = 0 then
    return .error .invalid
  -- `READ` and `WRITE` are masks, and the second comparison is with 1
  else if pte.value &&& EntryBits.read = 0 ∧ pte.value &&& EntryBits.write = 1 then
    return .error .writeOnly
  -- `1 << 7 - 1` shifts by `7 - 1`
  else if 4 < ptesize ∧ (pte.value >>> 54) &&& ((1 : Usize) <<< (7 - 1)) ≠ 0 then
    return .error .reservedBitSet
  else
    match ← pte.tryAsTable physToVirt with
    | some thisTable =>
      match i with
      | 0 => return .error .pageFault
      | i + 1 => queryFrom levels physToVirt mem virtualAddr i thisTable
    | none =>
      -- step 6: a misaligned superpage is an assertion, not an error
      assertThat (∀ j ∈ List.range i, getVpnNumber pte.address j ptesize = 0)
      return .ok (translatedAddress levels ptesize virtualAddr pte i)

/-! ## Mapping -/

/-- The arguments of `map` that `map_internal` passes on unchanged. -/
structure MapCall where
  physicalAddr : Usize
  virtualAddr : Usize
  length : Usize
  flags : Usize

namespace MapCall

variable (c : MapCall)

/-- `offset`. -/
def offset : Usize := (c.physicalAddr - c.virtualAddr) >>> 2

/-- `vpn_start`. -/
def vpnStart (level ptesize : ℕ) : ℕ := getVpnNumber c.virtualAddr level ptesize

/-- `virt_end`: one past the range at level 0, its last byte at the other levels. -/
def virtEnd (level : ℕ) : Except Fault Usize := do
  let stop ← Usize.checkedAdd c.virtualAddr c.length
  Usize.checkedSub stop (if level = 0 then 0 else 1)

/-- `vpn_end`, set to 511 when it lies before `vpn_start`. -/
def vpnEnd (level ptesize : ℕ) : Except Fault ℕ := do
  let stop ← c.virtEnd level
  if getVpnNumber stop level ptesize < c.vpnStart level ptesize then return 511
  else return getVpnNumber stop level ptesize

/-- `start_misaligned || physical_start_misaligned`. -/
def startMisaligned (level ptesize : ℕ) : Bool :=
  (alignMask level ptesize &&& c.virtualAddr) != 0
    || (alignMask level ptesize &&& (c.virtualAddr + (c.offset <<< 2))) != 0

/-- `end_misaligned || physical_end_misaligned`. -/
def endMisaligned (level ptesize : ℕ) : Bool :=
  (alignMask level ptesize &&& (c.virtualAddr + c.length)) != 0
    || (alignMask level ptesize &&& (c.virtualAddr + c.length + (c.offset <<< 2))) != 0

/-- The condition, besides being a leaf, under which an entry above level 0 is split. -/
def splitsAt (level ptesize vpnEnd vpnNumber : ℕ) : Bool :=
  (vpnNumber == c.vpnStart level ptesize && c.startMisaligned level ptesize)
    || (vpnNumber == vpnEnd && c.endMisaligned level ptesize)

/-- The value written for the entry at `currentAddress`. -/
def newEntry (currentAddress : Usize) : Entry :=
  ⟨((currentAddress >>> 2 ||| c.flags) + c.offset) &&& unreservedBitsMask⟩

end MapCall

/-- `current_virt_offset + vpn_number * get_vpn_size(level, PTESIZE)`. -/
def currentAddress (ptesize level : ℕ) (currentVirtOffset : Usize) (vpnNumber : ℕ) :
    Except Fault Usize := do
  let offset ← Usize.checkedMul (BitVec.ofNat 64 vpnNumber) (getVpnSize level ptesize)
  Usize.checkedAdd currentVirtOffset offset

/-- `map_internal`. -/
def mapInternal {ptesize : ℕ} (physToVirt virtToPhys : Usize → Usize) (heap : Allocator ptesize)
    (c : MapCall) (level : ℕ) (table currentVirtOffset : Usize) (mem : Memory ptesize) :
    Except Fault (Memory ptesize) := do
  let vpnStart := c.vpnStart level ptesize
  let vpnEnd ← c.vpnEnd level ptesize
  -- both bounds come from the whole range, at every level
  (List.range' vpnStart (vpnEnd + 1 - vpnStart)).foldlM (fun mem vpnNumber => do
    assertThat (vpnNumber < 512)
    let entry ← mem.readEntry table vpnNumber
    let currentAddress ← currentAddress ptesize level currentVirtOffset vpnNumber
    match level with
    | 0 => mem.writeEntry table vpnNumber (c.newEntry currentAddress)
    | level + 1 =>
      let (entry, mem) ←
        if entry.isLeaf && c.splitsAt (level + 1) ptesize vpnEnd vpnNumber then do
          -- `entry` is a reference into the table, so the pointer is stored there
          let (entry, mem) ← entry.split (getVpnSize level ptesize) virtToPhys heap mem
          let mem ← mem.writeEntry table vpnNumber entry
          pure (entry, mem)
        else pure (entry, mem)
      match ← entry.tryAsTable physToVirt with
      | some table => mapInternal physToVirt virtToPhys heap c level table currentAddress mem
      | none => mem.writeEntry table vpnNumber (c.newEntry currentAddress)) mem

namespace GenericPaging

variable {levels ptesize : ℕ}

/-- `query`. -/
def query (self : GenericPaging levels ptesize) (mem : Memory ptesize) (virtualAddr : Usize) :
    Except Fault (Except PageLookupError Usize) :=
  queryFrom levels self.physToVirt mem virtualAddr (levels - 1) self.table

/-- The bits above the virtual address width, as both conversions compute them. -/
def upperMask (levels ptesize : ℕ) : Except Fault Usize := do
  let uppermostSignificantBit := getVpnOffset levels ptesize - 1
  let higherBits ← Usize.checkedSub 64 (BitVec.ofNat 64 uppermostSignificantBit)
  return (((1 : Usize) <<< higherBits.toNat) - 1) <<< (uppermostSignificantBit + 1)

/-- Sign-extends an address. -/
def canonicalizeAddress (levels ptesize : ℕ) (address : Usize) : Except Fault Usize := do
  let mask ← upperMask levels ptesize
  if (address >>> (getVpnOffset levels ptesize - 1)) &&& 1 ≠ 0 then return address ||| mask
  else return address &&& ~~~mask

def decanonicalizeAddress (levels ptesize : ℕ) (address : Usize) : Except Fault Usize := do
  let mask ← upperMask levels ptesize
  return address &&& ~~~mask

/-- `map`. -/
def map (self : GenericPaging levels ptesize) (heap : Allocator ptesize) (c : MapCall)
    (mem : Memory ptesize) : Except Fault (Memory ptesize) := do
  let virtualAddr ← decanonicalizeAddress levels ptesize c.virtualAddr
  assertThat (virtualAddr &&& 0xfff = 0)
  assertThat (c.physicalAddr &&& 0xfff = 0)
  assertThat (c.length &&& 0xfff = 0)
  mapInternal self.physToVirt self.virtToPhys heap { c with virtualAddr } (levels - 1) self.table 0
    mem

end GenericPaging

end AsyncKernel
