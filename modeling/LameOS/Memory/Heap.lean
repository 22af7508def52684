import LameOS.Config

/-!
# `heap.c`: the block heap

The heap is a table of one byte for each 4 KiB block and the address of block 0.  A pointer is its
32-bit address, `0` is `NULL`.

* `heapCreate`, `heapMalloc`, `heapFree`   the interface of `heap.h`;
* `HeapTable.store`, `HeapTable.load`      `table->entries[i]`; an index outside the table is a
                                           fault, the kernel would reach past the table there;
* `startLoop`, `markTakenLoop`, `markFreeLoop`   the three loops, by recursion on the iterations
                                           they have left.
-/

set_option linter.unusedVariables false

namespace LameOS

/-! ## data -/

/-- `HEAP_BLOCK_TABLE_ENTRY_TAKEN` -/
abbrev entryTaken : UInt8 := 0x01
/-- `HEAP_BLOCK_TABLE_ENTRY_FREE` -/
abbrev entryFree : UInt8 := 0x00
/-- `HEAP_BLOCK_HAS_NEXT` -/
abbrev blockHasNext : UInt8 := 0x80
/-- `HEAP_BLOCK_IS_FIRST` -/
abbrev blockIsFirst : UInt8 := 0x40

/-- `struct heap_table` -/
structure HeapTable where
  entries : Nat → UInt8
  total : Nat

/-- `struct heap` -/
structure Heap where
  table : HeapTable
  saddr : Nat

/-- the value of `table->entries[i]` -/
def HeapTable.load (t : HeapTable) (i : Int) : Except Fault UInt8 :=
  if 0 ≤ i ∧ i < t.total then .ok (t.entries i.toNat) else .error .outOfBounds

/-- `table->entries[i] = entry` -/
def HeapTable.store (t : HeapTable) (i : Int) (entry : UInt8) : Except Fault HeapTable :=
  if 0 ≤ i ∧ i < t.total then
    .ok { t with entries := Function.update t.entries i.toNat entry }
  else .error .outOfBounds

/-! ## creation -/

/-- `end - ptr` of two `void *` -/
def ptrDiff (p q : Nat) : Nat := cuint ((p : Int) - q)

def heapCheckTable (ptr endPtr : Nat) (t : HeapTable) : Int :=
  if t.total ≠ ptrDiff endPtr ptr / heapBlockSize then -EINVARG else 0

def heapCheckAlignment (ptr : Nat) : Bool := ptr % heapBlockSize = 0

/-- `memset (table->entries, HEAP_BLOCK_TABLE_ENTRY_FREE, table->total)` -/
def HeapTable.clear (t : HeapTable) : HeapTable :=
  { t with entries := fun i => if i < t.total then entryFree else t.entries i }

def heapCreate (heap : Heap) (ptr endPtr : Nat) (t : HeapTable) : Int × Heap :=
  if !heapCheckAlignment ptr || !heapCheckAlignment endPtr then (-EINVARG, heap)
  else
    let heap : Heap := { saddr := ptr, table := t }
    let res := heapCheckTable ptr endPtr t
    if res < 0 then (res, heap) else (res, { heap with table := t.clear })

/-! ## allocation -/

def heapAlignValueToUpper (val : Nat) : Nat :=
  if val % heapBlockSize = 0 then val
  else cuint (cuint (val - val % heapBlockSize) + heapBlockSize)

def heapGetEntryType (entry : UInt8) : UInt8 := entry &&& 0x0f

/-- the loop of `heapGetStartBlock` at index `i`, with `fuel` entries left; its result is `bs` -/
def startLoop (t : HeapTable) (totalBlocks : Nat) : Nat → Nat → Nat → Int → Int
  | 0, _, _, bs => bs
  | fuel + 1, i, bc, bs =>
    if heapGetEntryType (t.entries i) ≠ entryFree then
      startLoop t totalBlocks fuel (i + 1) 0 (-1)
    else if bc + 1 = totalBlocks then
      if bs = -1 then i else bs
    else
      startLoop t totalBlocks fuel (i + 1) (bc + 1) (if bs = -1 then i else bs)

def heapGetStartBlock (heap : Heap) (totalBlocks : Nat) : Int :=
  let bs := startLoop heap.table totalBlocks heap.table.total 0 0 (-1)
  if bs = -1 then -ENOMEM else bs

def heapBlockToAddress (heap : Heap) (block : Nat) : Nat :=
  cuint (heap.saddr + block * heapBlockSize)

/-- the loop of `heapMarkBlocksTaken` at index `i`, with `fuel` iterations left -/
def markTakenLoop (endBlock : Int) : Nat → Int → UInt8 → HeapTable → Except Fault HeapTable
  | 0, _, _, t => .ok t
  | fuel + 1, i, entry, t => do
    let t ← t.store i entry
    markTakenLoop endBlock fuel (i + 1)
      (if i ≠ endBlock - 1 then entryTaken ||| blockHasNext else entryTaken) t

def heapMarkBlocksTaken (heap : Heap) (startBlock totalBlocks : Int) : Except Fault Heap := do
  let endBlock := startBlock + totalBlocks - 1
  let entry := entryTaken ||| blockIsFirst
  let entry := if totalBlocks > 1 then entry ||| blockHasNext else entry
  let t ← markTakenLoop endBlock (endBlock + 1 - startBlock).toNat startBlock entry heap.table
  return { heap with table := t }

/-- the address and the heap after the call -/
def heapMallocBlocks (heap : Heap) (totalBlocks : Nat) : Except Fault (Nat × Heap) :=
  let startBlock := heapGetStartBlock heap totalBlocks
  if startBlock < 0 then .ok (0, heap)
  else do
    let address := heapBlockToAddress heap startBlock.toNat
    let heap ← heapMarkBlocksTaken heap startBlock (cint totalBlocks)
    return (address, heap)

def heapMalloc (heap : Heap) (size : Nat) : Except Fault (Nat × Heap) :=
  heapMallocBlocks heap (heapAlignValueToUpper size / heapBlockSize)

/-! ## release -/

/-- the loop of `heapMarkBlocksFree` at index `i`, with `fuel` indices below the total left -/
def markFreeLoop : Nat → Int → HeapTable → Except Fault HeapTable
  | 0, _, t => .ok t
  | fuel + 1, i, t => do
    let entry ← t.load i
    let t ← t.store i entryFree
    if entry &&& blockHasNext = 0 then return t else markFreeLoop fuel (i + 1) t

def heapMarkBlocksFree (heap : Heap) (startBlock : Int) : Except Fault Heap := do
  let t ← markFreeLoop (cint heap.table.total - startBlock).toNat startBlock heap.table
  return { heap with table := t }

def heapAddressToBlock (heap : Heap) (address : Nat) : Int :=
  (cint ((address : Int) - heap.saddr)).tdiv heapBlockSize

def heapFree (heap : Heap) (ptr : Nat) : Except Fault Heap :=
  heapMarkBlocksFree heap (heapAddressToBlock heap ptr)

end LameOS
