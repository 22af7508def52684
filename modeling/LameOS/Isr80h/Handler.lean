import LameOS.Task.Process
import LameOS.Task.Return
import LameOS.Terminal

/-!
# `idt.c`, `isr80h/` and `task.c`: system calls

`CallState` is the kernel with what a system call changes besides: the page directory and the data
segments of the processor, and the terminal.  Under the kernel's own directory every page lies where
it is; an access under another one goes through `translate`, and a page that is not present is a
fault.

* `loadByte`, `storeByte`   an access at a linear address;
* `taskGetStackItem`, `copyStringFromTask`   what the kernel reads of a task;
* `isr80hCommand0Sum`, `isr80hCommand1Print`   the commands;
* `isr80hHandler`           the C part of a system call.
-/

set_option linter.unusedVariables false

namespace LameOS
open Lib Lib.Exec

/-- `LAMEOS_MAX_ISR80H_COMMANDS` -/
abbrev maxIsr80hCommands : Nat := 1024

/-- the functions that are registered for commands -/
inductive Command where
  | sum | print
  deriving DecidableEq, Repr

structure CallState where
  kernel : KernelState
  kernelChunk : Nat
  directory : Nat
  segments : SReg → BitVec 16
  isr80hCommands : Nat → Option Command
  terminal : Terminal

section
variable {α : Type}

/-- a program over the memory -/
def inCall (x : Prog Machine α) : Prog CallState α :=
  part (fun s => s.kernel.machine)
    (fun m s => { s with kernel := { s.kernel with machine := m } }) x

/-- a program over the terminal -/
def onTerminal (x : Exec Fault Terminal α) : Prog CallState α :=
  part CallState.terminal (fun t s => { s with terminal := t }) x

end

/-! ## the processor -/

def CallState.mem (s : CallState) : Mem := s.kernel.machine.mem

/-- the byte at a linear address, under the directory that is loaded -/
def loadByte (va : Nat) : Prog CallState (BitVec 8) := do
  let s ← get
  match translate s.mem s.directory (va % 4294967296) with
  | some t => return s.mem (BitVec.ofNat 32 t.phys)
  | none => throw .outOfBounds

/-- one byte of the memory -/
def setByte (p : Nat) (c : BitVec 8) (s : CallState) : CallState :=
  { s with kernel := { s.kernel with machine := { s.kernel.machine with
      mem := Function.update s.mem (BitVec.ofNat 32 p) c } } }

def storeByte (va : Nat) (c : BitVec 8) : Prog CallState Unit := do
  let s ← get
  match translate s.mem s.directory (va % 4294967296) with
  | some t => set (setByte t.phys c s)
  | none => throw .outOfBounds

/-- a `uint32_t` at a linear address -/
def loadLinear (va : Nat) : Prog CallState Nat := do
  let b0 ← loadByte va
  let b1 ← loadByte (va + 1)
  let b2 ← loadByte (va + 2)
  let b3 ← loadByte (va + 3)
  return (b3 ++ b2 ++ b1 ++ b0).toNat

def pagingSwitch (chunk : Nat) : Prog CallState Unit := do
  let directory ← inCall (readWord chunk 0)
  modify (fun s => { s with directory := directory })

def kernelRegisters : Prog CallState Unit := modify (fun s => { s with segments := fun _ => 0x10 })

def userRegisters : Prog CallState Unit := modify (fun s => { s with segments := fun _ => 0x23 })

def kernelPage : Prog CallState Unit := do
  kernelRegisters
  let s ← get
  pagingSwitch s.kernelChunk

/-! ## tasks -/

/-- `struct interrupt_frame` at `p` -/
def frameAt (m : Mem) (p : Nat) : InterruptFrame :=
  let word := fun i => BitVec.ofNat 32 (m.load (p + 4 * i))
  ⟨word 0, word 1, word 2, word 3, word 4, word 5, word 6, word 7, word 8, word 9, word 10, word 11,
    word 12⟩

/-- `struct registers` at `p` -/
def registersAt (m : Mem) (p : Nat) : Registers :=
  let word := fun i => BitVec.ofNat 32 (m.load (p + 4 * i))
  ⟨word 0, word 1, word 2, word 3, word 4, word 5, word 6, word 7, word 8, word 9, word 10, word 11⟩

/-- the words stored from `p` on -/
def storeWords (m : Mem) (p : Nat) : List (BitVec 32) → Mem
  | [] => m
  | w :: ws => storeWords (m.store p w.toNat) (p + 4) ws

/-- `task->registers` -/
def TaskField.registers : Nat := 4

/-- a `panic` for a `NULL` task -/
def taskCurrentSaveState (frame : Nat) : Prog CallState Unit := do
  let s ← get
  let task := s.kernel.currentTask
  if task = 0 then
    throw .endlessLoop
  else
    let p := task + TaskField.registers
    let registers := taskSaveState (registersAt s.mem p) (frameAt s.mem frame)
    inCall (modify (fun m => { m with mem := storeWords m.mem p registers.words }))

def taskSwitch (task : Nat) : Prog CallState Unit := do
  modify (fun s => { s with kernel := { s.kernel with currentTask := task } })
  let chunk ← inCall (readWord task TaskField.pageDirectory)
  pagingSwitch chunk

def taskPage : Prog CallState Unit := do
  userRegisters
  let s ← get
  taskSwitch s.kernel.currentTask

def taskPageTask (task : Nat) : Prog CallState Unit := do
  userRegisters
  let chunk ← inCall (readWord task TaskField.pageDirectory)
  pagingSwitch chunk

def taskGetStackItem (task : Nat) (index : Nat) : Prog CallState Nat := do
  let sp ← inCall (readWord task TaskField.esp)
  taskPageTask task
  let result ← loadLinear (sp + 4 * index)
  kernelPage
  return result

/-- the loop of `strncpy` at byte `i`, with room for `fuel` bytes and the terminator, under the
directory that is loaded -/
def strncpyLinear (dest src : Nat) : Nat → Nat → Prog CallState Unit
  | 0, i => storeByte (dest + i) 0
  | fuel + 1, i => do
    let c ← loadByte (src + i)
    if c = 0 then
      storeByte (dest + i) 0
    else
      storeByte (dest + i) c
      strncpyLinear dest src fuel (i + 1)

/-- `n` bytes from address `a` on -/
def bytesAt (m : Mem) (a n : Nat) : List UInt8 :=
  (List.range n).map (fun i => UInt8.ofBitVec (m (BitVec.ofNat 32 (a + i))))

/-- the status, and what the buffer `phys` holds afterwards -/
def copyStringFromTask (task virtual : Nat) (phys : List UInt8) (max : Nat) :
    Prog CallState (Int × List UInt8) := do
  if max ≥ pagingPageSize then
    return (-EINVARG, phys)
  else
    let tmp ← inCall (kzalloc max)
    if tmp = 0 then
      return (-ENOMEM, phys)
    else
      let chunk ← inCall (readWord task TaskField.pageDirectory)
      let taskDirectory ← inCall (readWord chunk 0)
      let oldEntry ← inCall (pagingGet taskDirectory tmp)
      let _ ← inCall (pagingMap chunk tmp tmp processPageFlags)
      pagingSwitch chunk
      strncpyLinear tmp virtual (max - 1) 0
      kernelPage
      let res ← inCall (pagingSet taskDirectory tmp oldEntry)
      if res < 0 then
        inCall (kfree tmp)
        return (- EIO, phys)
      else
        let s ← get
        let copied := strncpyBytes (bytesAt s.mem tmp max) (max - 1)
        inCall (kfree tmp)
        return (res, copied ++ phys.drop copied.length)

/-! ## commands -/

def isr80hCommand0Sum : Prog CallState Nat := do
  let s ← get
  let v2 ← taskGetStackItem s.kernel.currentTask 1
  let v1 ← taskGetStackItem s.kernel.currentTask 0
  return (v2 + v1) % 4294967296

/-- `buf` is what the local buffer holds at the start -/
def isr80hCommand1Print (buf : List UInt8) : Prog CallState Nat := do
  let s ← get
  let userSpaceMsgBuffer ← taskGetStackItem s.kernel.currentTask 0
  let (_, buf) ← copyStringFromTask s.kernel.currentTask userSpaceMsgBuffer buf 1024
  onTerminal (print buf)
  return 0

def Command.run (buf : List UInt8) : Command → Prog CallState Nat
  | .sum => isr80hCommand0Sum
  | .print => isr80hCommand1Print buf

/-- a `panic` for a command out of range or registered before -/
def isr80hRegisterCommand (commandId : Int) (command : Command) : Prog CallState Unit := do
  let s ← get
  if commandId < 0 ∨ commandId ≥ maxIsr80hCommands then
    throw .endlessLoop
  else if (s.isr80hCommands commandId.toNat).isSome then
    throw .endlessLoop
  else
    set { s with
      isr80hCommands := Function.update s.isr80hCommands commandId.toNat (some command) }

def isr80hRegisterCommands : Prog CallState Unit := do
  isr80hRegisterCommand 0 .sum
  isr80hRegisterCommand 1 .print

/-- the function that is registered for the command -/
def commandFunc (commands : Nat → Option Command) (command : Int) : Option Command :=
  if command < 0 ∨ command ≥ maxIsr80hCommands then none else commands command.toNat

def isr80hHandleCommand (command : Int) (buf : List UInt8) : Prog CallState Nat := do
  let s ← get
  match commandFunc s.isr80hCommands command with
  | none => return 0
  | some func => func.run buf

def isr80hHandler (command : Int) (frame : Nat) (buf : List UInt8) : Prog CallState Nat := do
  kernelPage
  taskCurrentSaveState frame
  let res ← isr80hHandleCommand command buf
  taskPage
  return res

end LameOS
