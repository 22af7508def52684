import LameOS.Fs.FileOwned
import LameOS.Task.ProcessMap

/-!
# `process.c`: loading a program

`KernelState` is the memory, the tasks, the files and the table of processes.  The table has
`maxProcesses` entries; an index outside of it reads or writes the word that lies there, and every
index that is used is recorded.

* `processGet`, `processGetFreeSlot`   the table;
* `processLoadBinary`                  the file of a program, read into an allocation;
* `processLoadForSlot`, `processLoad`  a process in a given slot, or in the first free one.
-/

set_option linter.unusedVariables false

namespace LameOS
open Lib Lib.Exec

/-! ## data -/

structure KernelState where
  machine : Machine
  taskHead : Nat
  taskTail : Nat
  currentTask : Nat
  volume : Option FatPrivate
  files : Nat → Option FileDescriptor
  /-- the words of the table, and of what lies beside it -/
  processes : Int → Nat
  /-- the indexes of the table that have been read or written, the last one first -/
  accesses : List Int

section
variable {α : Type}

/-- a program over the memory -/
def onKernel (x : Prog Machine α) : Prog KernelState α :=
  part KernelState.machine (fun m s => { s with machine := m }) x

/-- a program over the tasks -/
def onTasks (x : Prog TaskState α) : Prog KernelState α :=
  part (fun s => ⟨s.machine, s.taskHead, s.taskTail, s.currentTask⟩)
    (fun t s => { s with
      machine := t.machine
      taskHead := t.taskHead
      taskTail := t.taskTail
      currentTask := t.currentTask }) x

/-- a program over the files -/
def onFiles (x : Prog FileState α) : Prog KernelState α :=
  part (fun s => ⟨s.machine, s.volume, s.files⟩)
    (fun t s => { s with machine := t.machine, volume := t.volume, files := t.files }) x

end

/-! ## strings and halves of words in memory -/

/-- the bytes that `strncpy` stores when there is room for `n` of them and the terminator -/
def strncpyBytes : List UInt8 → Nat → List UInt8
  | _, 0 => [0]
  | [], _ => [0]
  | c :: cs, n + 1 => if c = 0 then [0] else c :: strncpyBytes cs n

/-- the bytes `bs` stored from `p` on -/
def writeBytes (p : Nat) (bs : List UInt8) : Prog Machine Unit :=
  modify (fun m => { m with mem := m.mem.copy p (bs.map UInt8.toBitVec) })

def strncpy (dest : Nat) (src : List UInt8) (count : Nat) : Prog Machine Unit :=
  writeBytes dest (strncpyBytes src (count - 1))

/-- a `uint16_t` at offset `off` of the object at `p` -/
def writeHalf (p off : Nat) (v : Nat) : Prog Machine Unit :=
  writeBytes (p + off) [UInt8.ofNat v, UInt8.ofNat (v / 256)]

/-- the half word at address `a` -/
def loadHalf (m : Mem) (a : Nat) : Nat := m.load a % 65536

/-- the items of `fread`, stored from `p` on, `size` bytes apart -/
def writeItems (size : Nat) : Nat → List (List UInt8) → Prog Machine Unit
  | _, [] => pure ()
  | p, item :: items => do
    writeBytes p item
    writeItems size (p + size) items

/-! ## the table -/

/-- `processes[i]` -/
def processRead (i : Int) : Prog KernelState Nat := do
  modify (fun s => { s with accesses := i :: s.accesses })
  let s ← get
  return s.processes i

/-- `processes[i] = process` -/
def processWrite (i : Int) (process : Nat) : Prog KernelState Unit :=
  modify (fun s => { s with
    accesses := i :: s.accesses
    processes := Function.update s.processes i process })

def processGet (processId : Int) : Prog KernelState Nat := do
  if processId < 0 ∨ processId > maxProcesses then
    return 0
  else
    processRead processId

/-- the loop of `processGetFreeSlot` at index `i`, with `fuel` entries left -/
def freeSlotLoop : Nat → Nat → Prog KernelState Int
  | 0, _ => return -EISTKN
  | fuel + 1, i => do
    let process ← processRead i
    if process = 0 then
      return i
    else
      freeSlotLoop fuel (i + 1)

def processGetFreeSlot : Prog KernelState Int := freeSlotLoop maxProcesses 0

/-! ## loading -/

/-- `processLoadBinary` with the file open, up to its label `out` -/
def processLoadProgram (disk : Disk) (fd : Int) (process : Nat) : Prog KernelState Int := do
  let (res, stat) ← onFiles (fstat fd ⟨0, 0⟩)
  if res ≠ OK then
    return res
  else
    let programData ← onKernel (kzalloc stat.filesize)
    if programData = 0 then
      return -ENOMEM
    else
      let (count, items) ← onFiles (fread disk stat.filesize 1 fd)
      onKernel (writeItems stat.filesize programData items)
      if count ≠ 1 then
        return - EIO
      else
        onKernel (writeWord process ProcessField.ptr programData)
        onKernel (writeWord process ProcessField.size stat.filesize)
        return res

def processLoadBinary (disk : Disk) (filename : List UInt8) (process : Nat) :
    Prog KernelState Int := do
  let fd ← onFiles (fopen disk filename [114])
  if fd = 0 then
    let _ ← onFiles (fclose fd)
    return - EIO
  else
    let res ← processLoadProgram disk fd process
    let _ ← onFiles (fclose fd)
    return res

def processLoadData (disk : Disk) (filename : List UInt8) (process : Nat) : Prog KernelState Int :=
  processLoadBinary disk filename process

/-- `processLoadForSlot` from its label `out` on -/
def processLoadOut (process : Nat) (res : Int) : Prog KernelState Int := do
  onlyIf (res < 0) do
    onlyIf (process ≠ 0) do
      let task ← onKernel (readWord process ProcessField.task)
      onlyIf (task ≠ 0) do
        let _ ← onTasks (taskFree task)
  return res

/-- the task of a new process, its mapping, and its slot -/
def processLoadTask (slot : Int) (process : Nat) : Prog KernelState (Int × Option Nat) := do
  let task ← onTasks (taskNew process)
  if cint task = 0 then
    let res ← processLoadOut process (cint task)
    return (res, none)
  else
    onKernel (writeWord process ProcessField.task task)
    let res ← onKernel (processMapMemory process)
    if res < 0 then
      let res ← processLoadOut process res
      return (res, none)
    else
      processWrite slot process
      let res ← processLoadOut process res
      return (res, some process)

/-- the process of a load that is not rejected: the struct, the image, the stack, the task -/
def processLoadNew (disk : Disk) (filename : List UInt8) (slot : Int) (process : Nat) :
    Prog KernelState (Int × Option Nat) := do
  onKernel (memset process 0 processSize)
  let res ← processLoadData disk filename process
  if res < 0 then
    let res ← processLoadOut process res
    return (res, none)
  else
    let stack ← onKernel (kzalloc userProgramStackSize)
    if stack = 0 then
      let res ← processLoadOut process (-ENOMEM)
      return (res, none)
    else
      onKernel (strncpy (process + ProcessField.filename) filename maxPath)
      onKernel (writeWord process ProcessField.stack stack)
      onKernel (writeHalf process ProcessField.id (cuint slot))
      processLoadTask slot process

/-- the status, and the pointer stored at `*process`; `stale` is what the local variable `_process`
holds before it is set -/
def processLoadForSlot (disk : Disk) (filename : List UInt8) (slot : Int) (stale : Nat) :
    Prog KernelState (Int × Option Nat) := do
  let taken ← processGet slot
  if taken ≠ 0 then
    let res ← processLoadOut stale (-EISTKN)
    return (res, none)
  else
    let process ← onKernel (kzalloc processSize)
    if process = 0 then
      let res ← processLoadOut process (-ENOMEM)
      return (res, none)
    else
      processLoadNew disk filename slot process

def processLoad (disk : Disk) (filename : List UInt8) (stale : Nat) :
    Prog KernelState (Int × Option Nat) := do
  let slot ← processGetFreeSlot
  if slot < 0 then
    return (-EISTKN, none)
  else
    processLoadForSlot disk filename slot stale

end LameOS
