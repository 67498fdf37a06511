import Mathlib.Tactic

/-!
# Page-table entries, tables and the memory that holds them

The entries and tables of `kernel_paging`, over an explicit memory. A `usize` is a 64-bit word.
The kernel is built with the debug profile, so `+`, `-` and `*` abort on overflow; an abort, a
failed assertion and a dereference of memory that holds no table are a `Fault`.

Tables live at virtual addresses. The global allocator is a stream of pages with the contents they
had before: `Table::boxed_zeroed` builds an iterator that would write zeroes and drops it without
running it, so a new table starts with those contents.

## Main definitions

* `Entry`, `Table`, `Memory`, `Allocator`: the data of the paging code
* `Entry.isLeaf`, `Entry.tryAsTable`: how an entry is told from a pointer to a table
* `Table.boxedZeroed`, `Entry.split`: a new table, and a leaf turned into a table of leaves
-/

namespace AsyncKernel

/-- A `usize` of the 64-bit target. -/
abbrev Usize := BitVec 64

/-- Why a computation of the kernel does not return. -/
inductive Fault
  /-- arithmetic overflow, with the overflow checks of the debug profile -/
  | overflow
  /-- a failed `assert!` or `debug_assert!` -/
  | assertion
  /-- an array index out of bounds -/
  | indexOutOfBounds
  /-- `unwrap` of the `None` that `as_ref` gives for a null pointer -/
  | unwrapNone
  /-- a dereference of memory that holds no table -/
  | danglingTable
  /-- the allocator has no page left -/
  | outOfMemory
  deriving DecidableEq, Repr

/-- `assert!`. -/
def assertThat (p : Prop) [Decidable p] : Except Fault Unit :=
  if p then .ok () else .error .assertion

namespace Usize

/-- `a + b`. -/
def checkedAdd (a b : Usize) : Except Fault Usize :=
  if a.toNat + b.toNat < 2 ^ 64 then .ok (a + b) else .error .overflow

/-- `a - b`. -/
def checkedSub (a b : Usize) : Except Fault Usize :=
  if b.toNat ≤ a.toNat then .ok (a - b) else .error .overflow

/-- `a * b`. -/
def checkedMul (a b : Usize) : Except Fault Usize :=
  if a.toNat * b.toNat < 2 ^ 64 then .ok (a * b) else .error .overflow

end Usize

/-! ## Entries -/

namespace EntryBits

def valid : Usize := (1 : Usize) <<< 0
def read : Usize := (1 : Usize) <<< 1
def write : Usize := (1 : Usize) <<< 2
def execute : Usize := (1 : Usize) <<< 3
def addressMask : Usize := BitVec.allOnes 64 ^^^ (((1 : Usize) <<< 8) - 1)
def rwx : Usize := read ||| write ||| execute

end EntryBits

/-- `UNRESERVED_BITS_MASK`. -/
def unreservedBitsMask : Usize := BitVec.ofNat 64 (2 ^ 54 - 1)

/-- The errors of a lookup. -/
inductive PageLookupError
  | pageFault
  | accessFault
  /-- bits 54 or more are set -/
  | reservedBitSet
  /-- `pte.v = 0` -/
  | invalid
  /-- `pte.r = 0` and `pte.w = 1` -/
  | writeOnly
  deriving DecidableEq, Repr

/-- A page-table entry. -/
@[ext] structure Entry where
  value : Usize
  deriving DecidableEq, Repr

namespace Entry

def zeroed : Entry := ⟨0⟩

/-- A leaf: readable or executable, or invalid, or without an address. -/
def isLeaf (self : Entry) : Bool :=
  (self.value &&& (EntryBits.read ||| EntryBits.execute)) != 0
    || (self.value &&& EntryBits.valid) == 0
    || (self.value &&& EntryBits.addressMask) == 0

def address (self : Entry) : Usize := (self.value &&& EntryBits.addressMask) <<< 2

/-- `as_table` and `as_table_mut`: the virtual address of the table the entry points to. -/
def asTable (self : Entry) (physToVirt : Usize → Usize) : Except Fault Usize := do
  assertThat (self.value &&& 1 ≠ 0)
  if physToVirt self.address = 0 then .error .unwrapNone else .ok (physToVirt self.address)

/-- `try_as_table` and `try_as_table_mut`. -/
def tryAsTable (self : Entry) (physToVirt : Usize → Usize) : Except Fault (Option Usize) :=
  if self.isLeaf then .ok none else do
    let table ← self.asTable physToVirt
    return some table

end Entry

/-! ## Tables and memory -/

/-- A page table: one page of entries. -/
@[ext] structure Table (ptesize : ℕ) where
  entries : Vector Entry (4096 / ptesize)

namespace Table

variable {ptesize : ℕ}

def zeroed : Table ptesize := ⟨Vector.replicate (4096 / ptesize) Entry.zeroed⟩

end Table

/-- The memory of the page tables: the table at each virtual address, and the number of pages the
allocator has handed out. -/
structure Memory (ptesize : ℕ) where
  tables : Usize → Option (Table ptesize)
  allocated : ℕ

/-- The global allocator: how many pages it has, the address of the `n`-th page, and what the page
held before. -/
structure Allocator (ptesize : ℕ) where
  capacity : ℕ
  page : ℕ → Usize
  stale : ℕ → Table ptesize

namespace Memory

variable {ptesize : ℕ}

/-- The table behind a reference. -/
def deref (mem : Memory ptesize) (table : Usize) : Except Fault (Table ptesize) :=
  match mem.tables table with
  | some t => .ok t
  | none => .error .danglingTable

def store (mem : Memory ptesize) (table : Usize) (t : Table ptesize) : Memory ptesize :=
  { mem with tables := Function.update mem.tables table (some t) }

/-- `table.entries[index]`. -/
def readEntry (mem : Memory ptesize) (table : Usize) (index : ℕ) : Except Fault Entry := do
  let t ← mem.deref table
  match t.entries[index]? with
  | some entry => .ok entry
  | none => .error .indexOutOfBounds

/-- `table.entries[index] = entry`. -/
def writeEntry (mem : Memory ptesize) (table : Usize) (index : ℕ) (entry : Entry) :
    Except Fault (Memory ptesize) := do
  let t ← mem.deref table
  if index < 4096 / ptesize then .ok (mem.store table ⟨t.entries.setIfInBounds index entry⟩)
  else .error .indexOutOfBounds

end Memory

namespace Table

variable {ptesize : ℕ}

/-- `Table::boxed_zeroed`. The zeroing iterator is lazy and is dropped unconsumed. -/
def boxedZeroed (heap : Allocator ptesize) (mem : Memory ptesize) :
    Except Fault (Usize × Memory ptesize) :=
  if mem.allocated < heap.capacity then
    let table := heap.page mem.allocated
    .ok (table,
      { mem.store table (heap.stale mem.allocated) with allocated := mem.allocated + 1 })
  else .error .outOfMemory

/-- The loop of `Entry::split` over the entries of the new table. -/
def fill (t : Table ptesize) (flags step start : Usize) : Except Fault (Table ptesize × Usize) :=
  (List.range (4096 / ptesize)).foldlM (fun s index => do
    let t : Table ptesize := ⟨s.1.entries.setIfInBounds index ⟨flags ||| s.2⟩⟩
    let currentAddress ← Usize.checkedAdd s.2 step
    return (t, currentAddress)) (t, start)

end Table

/-- `Entry::split`: a leaf entry becomes a pointer to a new table of leaves, `increment` bytes
apart. Returns the new entry, which the caller stores in place of the old one. -/
def Entry.split {ptesize : ℕ} (self : Entry) (increment : Usize) (virtToPhys : Usize → Usize)
    (heap : Allocator ptesize) (mem : Memory ptesize) : Except Fault (Entry × Memory ptesize) := do
  let (table, mem) ← Table.boxedZeroed heap mem
  let t ← mem.deref table
  let flags := self.value &&& ~~~EntryBits.addressMask
  -- every entry of the table is overwritten, so its stale contents are lost
  let (t, _) ← t.fill flags (increment >>> 2) (self.value &&& EntryBits.addressMask)
  let mem := mem.store table t
  let self : Entry := ⟨(1 : Usize) ||| (virtToPhys table >>> 2)⟩
  -- the three `debug_assert!`s
  assertThat (self.isLeaf = false)
  assertThat (self.value &&& 1 ≠ 0)
  assertThat (self.value &&& EntryBits.rwx = 0)
  return (self, mem)

end AsyncKernel
