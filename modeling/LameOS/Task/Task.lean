import LameOS.Memory.Paging

/-!
# `task.c`: the list of tasks

A task is the address of its `struct task`; the struct lies in memory, field by field.

* `taskInit`, `taskNew`         a task with a space of its own, at the end of the list;
* `taskListRemove`, `taskFree`  out of the list, and its blocks back to the heap;
* `taskGetNext`                 whose turn it is.
-/

set_option linter.unusedVariables false

namespace LameOS
open Lib Lib.Exec

/-! ## data -/

/-- the memory, `task_head`, `task_tail` and `current_task` -/
structure TaskState where
  machine : Machine
  taskHead : Nat
  taskTail : Nat
  currentTask : Nat

/-! the offsets of the fields of `struct task`; the registers are the words from 4 to 48 -/

namespace TaskField

def pageDirectory : Nat := 0
def ip : Nat := 32
def cs : Nat := 36
def flags : Nat := 40
def esp : Nat := 44
def ss : Nat := 48
def process : Nat := 52
def next : Nat := 56
def prev : Nat := 60

end TaskField

/-- `sizeof (struct task)` -/
abbrev taskSize : Nat := 64

/-- `LAMEOS_PROGRAM_VIRTUAL_ADDRESS` -/
abbrev programVirtualAddress : Nat := 0x400000
/-- `LAMEOS_USER_PROGRAM_STACK_SIZE` -/
abbrev userProgramStackSize : Nat := 16384
/-- `LAMEOS_PROGRAM_VIRTUAL_STACK_ADDRESS_START` -/
abbrev stackAddressStart : Nat := 0x3FF000
/-- `LAMEOS_PROGRAM_VIRTUAL_STACK_ADDRESS_END` -/
abbrev stackAddressEnd : Nat := stackAddressStart - userProgramStackSize
/-- `USER_DATA_SEGMENT` -/
abbrev userDataSegment : Nat := 0x23
/-- `USER_CODE_SEGMENT` -/
abbrev userCodeSegment : Nat := 0x1B

/-- `ISERR (p)` of a pointer or a status -/
def isErr (p : Nat) : Bool := cint p < 0

/-! ## creation -/

/-- a program over the memory -/
def onMachine {α : Type} (x : Prog Machine α) : Prog TaskState α :=
  part TaskState.machine (fun m s => { s with machine := m }) x

def taskInit (task process : Nat) : Prog Machine Int := do
  memset task 0 taskSize
  let pageDirectory ← pagingNew4gb (pagingIsPresent ||| pagingAccessFromAll)
  writeWord task TaskField.pageDirectory pageDirectory
  if pageDirectory = 0 then
    return - EIO
  else
    writeWord task TaskField.ip programVirtualAddress
    writeWord task TaskField.ss userDataSegment
    writeWord task TaskField.cs userCodeSegment
    writeWord task TaskField.esp stackAddressStart
    writeWord task TaskField.process process
    return 0

/-! ## the list -/

def taskGetNext : Prog TaskState Nat := do
  let s ← get
  let next ← onMachine (readWord s.currentTask TaskField.next)
  if next = 0 then
    return s.taskHead
  else
    onMachine (readWord s.currentTask TaskField.next)

/-- `task->prev->next = task->next` -/
def taskUnlink (task prev : Nat) : Prog Machine Unit := do
  let next ← readWord task TaskField.next
  writeWord prev TaskField.next next

def taskListRemove (task : Nat) : Prog TaskState Unit := do
  let prev ← onMachine (readWord task TaskField.prev)
  onlyIf (prev ≠ 0) (onMachine (taskUnlink task prev))
  let s ← get
  onlyIf (task = s.taskHead) do
    let next ← onMachine (readWord task TaskField.next)
    modify (fun s => { s with taskHead := next })
  onlyIf (task = s.taskTail) do
    let prev ← onMachine (readWord task TaskField.prev)
    modify (fun s => { s with taskTail := prev })
  onlyIf (task = s.currentTask) do
    let next ← taskGetNext
    modify (fun s => { s with currentTask := next })

def taskFree (task : Nat) : Prog TaskState Int := do
  let pageDirectory ← onMachine (readWord task TaskField.pageDirectory)
  onMachine (pagingFree4gb pageDirectory)
  taskListRemove task
  onMachine (kfree task)
  return 0

/-- the new task at the end of the list -/
def taskAppend (task : Nat) : Prog TaskState Unit := do
  let s ← get
  if s.taskHead = 0 then
    set { s with taskHead := task, taskTail := task, currentTask := task }
  else
    onMachine (writeWord s.taskTail TaskField.next task)
    onMachine (writeWord task TaskField.prev s.taskTail)
    modify (fun s => { s with taskTail := task })

/-- the pointer that `task_new` returns; a failure is an address from 2 GiB on -/
def taskNew (process : Nat) : Prog TaskState Nat := do
  let task ← onMachine (kzalloc taskSize)
  if task = 0 then
    let _ ← taskFree task
    return cuint (-ENOMEM)
  else
    let res ← onMachine (taskInit task process)
    if res ≠ OK then
      if res < 0 then
        let _ ← taskFree task
        return cuint res
      else
        return task
    else
      taskAppend task
      return task

end LameOS
