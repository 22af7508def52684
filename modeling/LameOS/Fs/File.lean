import LameOS.Fs.Fat16

/-!
# `file.c`: files by number

`FileState` is the memory, the mounted volume (`disk->filesystem` and `disk->fs_private`; there is
one disk) and the table of descriptors.  `fread` returns the items that it stores.

* `fopen`, `fread`, `fseek`, `fstat`, `fclose`   the interface of `file.h`;
* `fileNewDescriptor`, `fileGetDescriptor`, `fileFreeDescriptor`   the table;
* `diskSearchAndInit`   the state after the mount.
-/

set_option linter.unusedVariables false

namespace LameOS
open Lib Lib.Exec

/-! ## data -/

/-- `struct file_descriptor`; the file system and the disk are the only ones there are -/
structure FileDescriptor where
  addr : Nat
  index : Int
  priv : FatFileDescriptor

/-- `sizeof (struct file_descriptor)` -/
abbrev fileDescriptorSize : Nat := 16

structure FileState where
  machine : Machine
  volume : Option FatPrivate
  files : Nat → Option FileDescriptor

section
variable {α : Type}

/-- a program over the memory -/
def onMemory (x : Prog Machine α) : Prog FileState α :=
  part FileState.machine (fun m s => { s with machine := m }) x

/-- a program over the mounted volume -/
def onVolume (x : Prog FatState α) : Prog FileState α := fun s =>
  match s.volume with
  | none => .error .nullPointer
  | some p =>
    match x ⟨s.machine, p⟩ with
    | .error e => .error e
    | .ok (a, t) => .ok (a, { s with machine := t.machine, volume := some t.fatPrivate })

end

/-! ## the table -/

/-- `file_descriptors[desc->index - 1] = 0` -/
def fileFreeDescriptor (desc : FileDescriptor) : Prog FileState Unit := do
  if 0 ≤ desc.index - 1 ∧ desc.index - 1 < maxFileDescriptors then
    modify (fun s => { s with files := Function.update s.files (desc.index - 1).toNat none })
    onMemory (kfree desc.addr)
  else
    throw .outOfBounds

/-- the loop of `fileNewDescriptor` at index `i`, with `fuel` slots left: the first free slot -/
def newDescriptorLoop (files : Nat → Option FileDescriptor) : Nat → Nat → Option Nat
  | 0, _ => none
  | fuel + 1, i => if (files i).isNone then some i else newDescriptorLoop files fuel (i + 1)

/-- the slot and the address of the new descriptor, with the index that is stored in it -/
def fileNewDescriptor : Prog FileState (Option (Nat × Nat)) := do
  let s ← get
  match newDescriptorLoop s.files maxFileDescriptors 0 with
  | none => return none
  | some i =>
    let desc ← onMemory (kzalloc fileDescriptorSize)
    deref desc
    return some (i, desc)

def fileGetDescriptor (s : FileState) (fd : Int) : Option FileDescriptor :=
  if fd ≤ 0 ∨ fd ≥ maxFileDescriptors then none else s.files (fd - 1).toNat

/-! ## the interface -/

def fileModeGetByString (str : List UInt8) : FileMode :=
  if strncmp (cstr str) (cstr [114]) 1 = 0 then .read
  else if strncmp (cstr str) (cstr [119]) 1 = 0 then .write
  else if strncmp (cstr str) (cstr [97]) 1 = 0 then .append
  else .invalid

/-- `fopen` up to its label `out`: the status -/
def fopenStatus (disk : Disk) (filename mode : List UInt8) : Prog FileState Int := do
  let rootPath ← onMemory (pathparserParse filename)
  match rootPath with
  | none => return -EINVARG
  | some rootPath =>
    if rootPath.parts = [] then
      return -EINVARG
    else if rootPath.driveNo ≠ 0 then
      return - EIO
    else
      let s ← get
      if s.volume.isNone then
        return - EIO
      else if fileModeGetByString mode = .invalid then
        return -EINVARG
      else
        let priv ← onVolume (fat16Open disk rootPath.parts (fileModeGetByString mode))
        match priv with
        | .error res => return res
        | .ok priv =>
          let desc ← fileNewDescriptor
          match desc with
          | none => return -ENOMEM
          | some (i, addr) =>
            let desc : FileDescriptor := ⟨addr, i + 1, priv⟩
            modify (fun s => { s with files := Function.update s.files i (some desc) })
            return desc.index

def fopen (disk : Disk) (filename mode : List UInt8) : Prog FileState Int := do
  let res ← fopenStatus disk filename mode
  return if res < 0 then 0 else res

def fstat (fd : Int) (stat : FileStat) : Prog FileState (Int × FileStat) := do
  let s ← get
  match fileGetDescriptor s fd with
  | none => return (- EIO, stat)
  | some desc => fat16Stat desc.priv stat

def fclose (fd : Int) : Prog FileState Int := do
  let s ← get
  if fd = 0 then
    return - EIO
  else
    match fileGetDescriptor s fd with
    | none => throw .nullPointer
    | some desc =>
      let res ← onVolume (fat16Close desc.priv)
      onlyIf (res = OK) (fileFreeDescriptor desc)
      return res

def fseek (fd offset : Int) (whence : FileSeekMode) : Prog FileState Int := do
  let s ← get
  match fileGetDescriptor s fd with
  | none => return - EIO
  | some desc =>
    let (res, priv) ← fat16Seek desc.priv (cuint offset) whence
    set { s with files := Function.update s.files (fd - 1).toNat (some { desc with priv := priv }) }
    return res

/-- the status, and the items stored at `ptr`, `ptr + size`, .. -/
def fread (disk : Disk) (size nmemb : Nat) (fd : Int) : Prog FileState (Int × List (List UInt8)) := do
  if size = 0 ∨ nmemb = 0 ∨ fd < 1 then
    return (-EINVARG, [])
  else
    let s ← get
    match fileGetDescriptor s fd with
    | none => return (-EINVARG, [])
    | some desc => onVolume (fat16Read disk desc.priv size nmemb)

/-! ## mounting -/

/-- the state after `disk_search_and_init`: no file is open -/
def diskSearchAndInit (disk : Disk) : Prog Machine FileState := do
  let (res, fatPrivate) ← fat16Resolve disk
  let m ← get
  return { machine := m, volume := if res = 0 then fatPrivate else none, files := fun _ => none }

end LameOS
