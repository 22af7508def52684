import LameOS.Memory.Kheap

/-!
# `paging.c`: address spaces

A chunk is the pointer to a `struct paging_4gb_chunk`, whose only word is the pointer to the
directory.  All addresses and entries are 32-bit numbers.

* `pagingNew4gb`, `pagingFree4gb`   an identity map of 4 GiB, and its release;
* `pagingSet`, `pagingGet`          one page table entry;
* `pagingMap`, `pagingMapRange`, `pagingMapTo`   pages of a range;
* `translate`                       what the processor does with an address.
-/

set_option linter.unusedVariables false

namespace LameOS
open Lib Lib.Exec

/-! ## constants -/

/-- `PAGING_ACCESS_FROM_ALL` -/
abbrev pagingAccessFromAll : Nat := 4
/-- `PAGING_IS_WRITEABLE` -/
abbrev pagingIsWriteable : Nat := 2
/-- `PAGING_IS_PRESENT` -/
abbrev pagingIsPresent : Nat := 1

/-- `PAGING_TOTAL_ENTRIES_PER_TABLE` -/
abbrev pagingTotalEntriesPerTable : Nat := 1024
/-- `PAGING_PAGE_SIZE` -/
abbrev pagingPageSize : Nat := 4096

/-! ## construction and release -/

/-- the inner loop of `pagingNew4gb` at index `b`, with `fuel` entries left -/
def pagingTableLoop (entry flags : Nat) (offset : Int) : Nat → Nat → Prog Machine Unit
  | 0, _ => pure ()
  | fuel + 1, b => do
    writeWord entry (4 * b) (cuint (cint (offset + b * pagingPageSize)) ||| flags)
    pagingTableLoop entry flags offset fuel (b + 1)

/-- the outer loop of `pagingNew4gb` at index `i`, with `fuel` tables left -/
def pagingDirectoryLoop (directory flags : Nat) : Nat → Nat → Int → Prog Machine Unit
  | 0, _, _ => pure ()
  | fuel + 1, i, offset => do
    let entry ← kzalloc (4 * pagingTotalEntriesPerTable)
    pagingTableLoop entry flags offset pagingTotalEntriesPerTable 0
    writeWord directory (4 * i) (entry ||| flags ||| pagingIsWriteable)
    pagingDirectoryLoop directory flags fuel (i + 1)
      (cint (offset + pagingTotalEntriesPerTable * pagingPageSize))

def pagingNew4gb (flags : Nat) : Prog Machine Nat := do
  let directory ← kzalloc (4 * pagingTotalEntriesPerTable)
  pagingDirectoryLoop directory flags pagingTotalEntriesPerTable 0 0
  let chunk4gb ← kzalloc 4
  writeWord chunk4gb 0 directory
  return chunk4gb

/-- the loop of `pagingFree4gb` at index `i`, with `fuel` tables left -/
def pagingFreeLoop (chunk : Nat) : Nat → Nat → Prog Machine Unit
  | 0, _ => pure ()
  | fuel + 1, i => do
    let directory ← readWord chunk 0
    let entry ← readWord directory (4 * i)
    kfree (entry &&& 0xFFFFF000)
    pagingFreeLoop chunk fuel (i + 1)

def pagingFree4gb (chunk : Nat) : Prog Machine Unit := do
  pagingFreeLoop chunk 1024 0
  let directory ← readWord chunk 0
  kfree directory
  kfree chunk

/-! ## entries -/

def pagingIsAligned (addr : Nat) : Bool := addr % pagingPageSize = 0

/-- the status, the directory index and the table index; an unaligned address leaves both at `0` -/
def pagingGetIndices (virtualAddress : Nat) : Int × Nat × Nat :=
  if !pagingIsAligned virtualAddress then (-EINVARG, 0, 0)
  else
    (0, virtualAddress / (pagingTotalEntriesPerTable * pagingPageSize),
      virtualAddress % (pagingTotalEntriesPerTable * pagingPageSize) / pagingPageSize)

def pagingSet (directory virt val : Nat) : Prog Machine Int := do
  if !pagingIsAligned virt then
    return -EINVARG
  else
    let (res, directoryIndex, tableIndex) := pagingGetIndices virt
    if res < 0 then
      return res
    else
      let entry ← readWord directory (4 * directoryIndex)
      writeWord (entry &&& 0xFFFFF000) (4 * tableIndex) val
      return res

def pagingGet (directory virt : Nat) : Prog Machine Nat := do
  let (_, directoryIndex, tableIndex) := pagingGetIndices virt
  let entry ← readWord directory (4 * directoryIndex)
  readWord (entry &&& 0xFFFFF000) (4 * tableIndex)

/-! ## ranges -/

def pagingAlignAddress (ptr : Nat) : Nat :=
  if ptr % pagingPageSize ≠ 0 then cuint (ptr + pagingPageSize - (ptr % pagingPageSize : Nat))
  else ptr

def pagingMap (chunk virt phys flags : Nat) : Prog Machine Int := do
  if virt % pagingPageSize ≠ 0 ∨ phys % pagingPageSize ≠ 0 then
    return -EINVARG
  else
    let directory ← readWord chunk 0
    pagingSet directory virt (phys ||| flags)

/-- the loop of `pagingMapRange`, with `fuel` pages left and the last status -/
def pagingMapLoop (chunk flags : Nat) : Nat → Nat → Nat → Int → Prog Machine Int
  | 0, _, _, res => pure res
  | fuel + 1, virt, phys, _ => do
    let res ← pagingMap chunk virt phys flags
    if res < 0 then
      return res
    else
      pagingMapLoop chunk flags fuel (cuint (virt + pagingPageSize)) (cuint (phys + pagingPageSize))
        res

def pagingMapRange (chunk virt phys : Nat) (count : Int) (flags : Nat) : Prog Machine Int :=
  pagingMapLoop chunk flags count.toNat virt phys 0

def pagingMapTo (chunk virt phys physEnd flags : Nat) : Prog Machine Int := do
  if virt % pagingPageSize ≠ 0 then
    return -EINVARG
  else if phys % pagingPageSize ≠ 0 then
    return -EINVARG
  else if physEnd % pagingPageSize ≠ 0 then
    return -EINVARG
  else if physEnd < phys then
    return -EINVARG
  else
    let totalBytes := physEnd - phys
    pagingMapRange chunk virt phys (totalBytes / pagingPageSize : Nat) flags

/-! ## the processor -/

/-- what a page translates to, and what user code may do there -/
structure Translation where
  phys : Nat
  writable : Bool
  user : Bool
  deriving DecidableEq, Repr

/-- the walk through the directory at `directory`; none for a page that is not present -/
def translate (m : Mem) (directory va : Nat) : Option Translation :=
  let pde := m.load (directory + 4 * (va / 4194304))
  let pte := m.load (pde / 4096 * 4096 + 4 * (va / 4096 % 1024))
  if pde.testBit 0 && pte.testBit 0 then
    some
      { phys := pte / 4096 * 4096 + va % 4096
        writable := pde.testBit 1 && pte.testBit 1
        user := pde.testBit 2 && pte.testBit 2 }
  else none

end LameOS
