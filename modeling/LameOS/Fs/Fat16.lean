import LameOS.Disk.Streamer
import LameOS.Fs.PathParser

/-!
# `fat16.c`: the FAT16 file system

The structs of the file system are values that carry the address of their block; an array of
records and a copied record are `Buffer`s, and an access past a buffer is a fault.  `FatState` is
the memory with the volume's `struct fat_private`.

* `fat16Resolve`, `fat16GetRootDirectory`     mounting;
* `clusterLoop`, `readLoop`                   the walk of a cluster chain and the read along it, over
                                              any lookup of the next cluster and any stream;
* `fat16GetFatEntry`, `fat16GetClusterForOffset`, `fat16ReadInternal`   the same, on the volume;
* `fat16FindItemInDirectory`, `fat16GetDirectoryEntry`   names;
* `fat16Open`, `fat16Read`, `fat16Seek`, `fat16Stat`, `fat16Close`   the driver.
-/

set_option linter.unusedVariables false

namespace LameOS
open Lib Lib.Exec

/-! ## data -/

/-- the bytes of an object -/
structure Buffer where
  size : Nat
  bytes : Nat → UInt8

namespace Buffer

def get (b : Buffer) (i : Nat) : Except Fault UInt8 :=
  if i < b.size then .ok (b.bytes i) else .error .outOfBounds

def get16 (b : Buffer) (i : Nat) : Except Fault Nat := do
  let b0 ← b.get i
  let b1 ← b.get (i + 1)
  return b0.toNat + 256 * b1.toNat

def get32 (b : Buffer) (i : Nat) : Except Fault Nat := do
  let w0 ← b.get16 i
  let w1 ← b.get16 (i + 2)
  return w0 + 65536 * w1

/-- the buffer that the bytes `bs` are stored in, cleared before -/
def ofBytes (size : Nat) (bs : List UInt8) : Buffer := ⟨size, fun i => bs.getD i 0⟩

end Buffer

/-- a number of two bytes -/
def bytes16 (bs : List UInt8) (i : Nat) : Nat := (bs.getD i 0).toNat + 256 * (bs.getD (i + 1) 0).toNat

/-- the fields of `struct fat_h` that the code reads -/
structure FatHeader where
  sectorsPerCluster : Nat
  reservedSectors : Nat
  fatCopies : Nat
  rootDirEntries : Nat
  sectorsPerFat : Nat
  signature : Nat

/-- `sizeof (struct fat_h)` -/
abbrev fatHeaderSize : Nat := 62

/-- the header in the first bytes of a volume -/
def fatHeader (bs : List UInt8) : FatHeader where
  sectorsPerCluster := (bs.getD 13 0).toNat
  reservedSectors := bytes16 bs 14
  fatCopies := (bs.getD 16 0).toNat
  rootDirEntries := bytes16 bs 17
  sectorsPerFat := bytes16 bs 22
  signature := (bs.getD 38 0).toNat

/-- `sizeof (struct fat_directory_item)` -/
abbrev fatDirectoryItemSize : Nat := 32

/-- a `struct fat_directory_item`, by its place in a buffer -/
structure FatDirectoryItem where
  buffer : Buffer
  offset : Nat

namespace FatDirectoryItem

def attributes (i : FatDirectoryItem) : Except Fault UInt8 := i.buffer.get (i.offset + 11)
def high16BitsFirstCluster (i : FatDirectoryItem) : Except Fault Nat := i.buffer.get16 (i.offset + 20)
def low16BitsFirstCluster (i : FatDirectoryItem) : Except Fault Nat := i.buffer.get16 (i.offset + 26)
def filesize (i : FatDirectoryItem) : Except Fault Nat := i.buffer.get32 (i.offset + 28)

end FatDirectoryItem

/-- `FAT_FILE_READ_ONLY` -/
abbrev fatFileReadOnly : UInt8 := 0x01
/-- `FAT_FILE_SUBDIRECTORY` -/
abbrev fatFileSubdirectory : UInt8 := 0x10

/-- `struct fat_directory`; the records lie at `item` -/
structure FatDirectory where
  addr : Nat
  item : Nat
  buffer : Buffer
  total : Int
  sectorPos : Int
  endingSectorPos : Int

/-- what the union in `struct fat_item` points to -/
inductive FatPtr where
  | null
  | item (addr : Nat) (item : FatDirectoryItem)
  | directory (directory : FatDirectory)

/-- `FAT_ITEM_TYPE_DIRECTORY` -/
abbrev fatItemTypeDirectory : Nat := 0
/-- `FAT_ITEM_TYPE_FILE` -/
abbrev fatItemTypeFile : Nat := 1

/-- `struct fat_item` -/
structure FatItem where
  addr : Nat
  ptr : FatPtr
  type : Nat

/-- `struct fat_file_descriptor` -/
structure FatFileDescriptor where
  addr : Nat
  item : FatItem
  pos : Nat

/-- `struct fat_private` -/
structure FatPrivate where
  addr : Nat
  header : FatHeader
  rootDirectory : FatDirectory
  clusterReadStream : DiskStream
  fatReadStream : DiskStream
  directoryStream : DiskStream

/-- `sizeof (struct fat_private)` -/
abbrev fatPrivateSize : Nat := 92

/-- the memory, and `disk->fs_private` -/
structure FatState where
  machine : Machine
  fatPrivate : FatPrivate

section
variable {α : Type}

/-- a program over the memory -/
def onHeap (x : Prog Machine α) : Prog FatState α :=
  part FatState.machine (fun m s => { s with machine := m }) x

def onClusterReadStream (x : Prog DiskStream α) : Prog FatState α :=
  part (fun s => s.fatPrivate.clusterReadStream)
    (fun t s => { s with fatPrivate := { s.fatPrivate with clusterReadStream := t } }) x

def onFatReadStream (x : Prog DiskStream α) : Prog FatState α :=
  part (fun s => s.fatPrivate.fatReadStream)
    (fun t s => { s with fatPrivate := { s.fatPrivate with fatReadStream := t } }) x

def onDirectoryStream (x : Prog DiskStream α) : Prog FatState α :=
  part (fun s => s.fatPrivate.directoryStream)
    (fun t s => { s with fatPrivate := { s.fatPrivate with directoryStream := t } }) x

end

/-! ## clusters -/

def fat16GetFirstCluster (item : FatDirectoryItem) : Except Fault Nat := do
  let high ← item.high16BitsFirstCluster
  let low ← item.low16BitsFirstCluster
  return high ||| low

def fat16ClusterToSector (p : FatPrivate) (cluster : Int) : Int :=
  cint (p.rootDirectory.endingSectorPos + (cluster - 2) * p.header.sectorsPerCluster)

def fat16GetFirstFatSector (p : FatPrivate) : Nat := p.header.reservedSectors

def fat16GetFatEntry (disk : Disk) (cluster : Int) : Prog FatState Int := do
  let s ← get
  let fatTablePosition := fat16GetFirstFatSector s.fatPrivate * sectorSize
  let res ← onFatReadStream (diskstreamerSeek (cint (fatTablePosition * (cluster * 2))))
  if res < 0 then
    return res
  else
    let (res, bytes) ← onFatReadStream (diskstreamerRead disk 2)
    if res < 0 then
      return res
    else
      return bytes16 bytes 0

section
variable {σ : Type}

/-- the loop of `fat16GetClusterForOffset`, with `fuel` clusters still ahead; `getFatEntry` is the
lookup in the allocation table -/
def clusterLoop (getFatEntry : Int → Prog σ Int) : Nat → Int → Prog σ Int
  | 0, clusterToUse => return clusterToUse
  | fuel + 1, clusterToUse => do
    let entry ← getFatEntry clusterToUse
    if entry = 0xFF8 ∨ entry = 0xFFF then
      return - EIO
    else if entry = 0xFF7 then
      return - EIO
    else if entry = 0xFF0 ∨ entry = 0xFF6 then
      return - EIO
    else if entry = 0x00 then
      return - EIO
    else
      clusterLoop getFatEntry fuel entry

/-- `fat16GetClusterForOffset` for clusters of `sizeOfClusterBytes` -/
def clusterForOffset (getFatEntry : Int → Prog σ Int) (sizeOfClusterBytes startingCluster offset : Int) :
    Prog σ Int :=
  if sizeOfClusterBytes = 0 then throw .divideByZero
  else clusterLoop getFatEntry (offset.tdiv sizeOfClusterBytes).toNat startingCluster

/-- `fat16ReadInternalFromStream` for clusters of `sizeOfClusterBytes`, with at most `fuel` calls
nested; `getCluster` gives the cluster for an offset, `sectorOf` its sector, `readStream` seeks and
reads -/
def readLoop (getCluster : Int → Prog σ Int) (sectorOf : Int → Int)
    (readStream : Int → Int → Prog σ (Int × List UInt8)) (sizeOfClusterBytes : Int) :
    Nat → Int → Int → Prog σ (Int × List UInt8)
  | 0, _, _ => throw .endlessLoop
  | fuel + 1, offset, total => do
    let clusterToUse ← getCluster offset
    if clusterToUse < 0 then
      return (clusterToUse, [])
    else if sizeOfClusterBytes = 0 then
      throw .divideByZero
    else
      let offsetFromCluster := offset.tmod sizeOfClusterBytes
      let startingPos := cint (sectorOf clusterToUse * sectorSize + offsetFromCluster)
      let totalToRead := if total > sizeOfClusterBytes then sizeOfClusterBytes else total
      let (res, bytes) ← readStream startingPos totalToRead
      if res ≠ OK then
        return (res, bytes)
      else if total - totalToRead > 0 then
        let (res, rest) ← readLoop getCluster sectorOf readStream sizeOfClusterBytes fuel
          (cint (offset + totalToRead)) (total - totalToRead)
        return (res, bytes ++ rest)
      else
        return (res, bytes)

end

/-- `size_of_cluster_bytes` -/
def sizeOfClusterBytes (p : FatPrivate) : Int := p.header.sectorsPerCluster * sectorSize

def fat16GetClusterForOffset (disk : Disk) (startingCluster offset : Int) : Prog FatState Int := do
  let s ← get
  clusterForOffset (fat16GetFatEntry disk) (sizeOfClusterBytes s.fatPrivate) startingCluster offset

def fat16ReadInternal (disk : Disk) (startingCluster offset total : Int) :
    Prog FatState (Int × List UInt8) := do
  let s ← get
  readLoop (fat16GetClusterForOffset disk startingCluster) (fat16ClusterToSector s.fatPrivate)
    (fun pos total => onClusterReadStream (readAt disk pos total)) (sizeOfClusterBytes s.fatPrivate)
    (total.toNat + 1) offset total

/-! ## directories -/

def fat16SectorToAbsolute (sector : Int) : Int := cint (sector * sectorSize)

/-- the loop of `fat16GetTotalItemsForDirectory`, with at most `fuel` records left -/
def totalItemsLoop (disk : Disk) : Nat → Int → Prog DiskStream Int
  | 0, _ => throw .endlessLoop
  | fuel + 1, i => do
    let (res, item) ← diskstreamerRead disk fatDirectoryItemSize
    if res ≠ OK then
      return - EIO
    else if item.getD 0 0 = 0x00 then
      return i
    else if item.getD 0 0 = 0xE5 then
      totalItemsLoop disk fuel i
    else
      totalItemsLoop disk fuel (i + 1)

/-- more records than a disk of 2 GiB has -/
abbrev maxItems : Nat := 134217728

def fat16GetTotalItemsForDirectory (disk : Disk) (directoryStartSector : Int) : Prog FatState Int :=
  onDirectoryStream do
    let res ← diskstreamerSeek (cint (directoryStartSector * sectorSize))
    if res ≠ OK then
      return - EIO
    else
      totalItemsLoop disk maxItems 0

/-- the address of `fat_private->root_directory` -/
abbrev rootDirectoryOffset : Nat := 64

def fat16GetRootDirectory (disk : Disk) : Prog FatState Int := do
  let s ← get
  let primaryHeader := s.fatPrivate.header
  let rootDirSectorPos := primaryHeader.fatCopies * primaryHeader.sectorsPerFat
    + primaryHeader.reservedSectors
  let rootDirSize := primaryHeader.rootDirEntries * fatDirectoryItemSize
  let totalItems ← fat16GetTotalItemsForDirectory disk rootDirSectorPos
  let dir ← onHeap (kzalloc rootDirSize)
  if dir = 0 then
    return -ENOMEM
  else
    let res ← onDirectoryStream (diskstreamerSeek (fat16SectorToAbsolute rootDirSectorPos))
    if res ≠ OK then
      return - EIO
    else
      let (res, bytes) ← onDirectoryStream (diskstreamerRead disk rootDirSize)
      if res ≠ OK then
        return - EIO
      else
        let directory : FatDirectory :=
          { addr := s.fatPrivate.addr + rootDirectoryOffset
            item := dir
            buffer := .ofBytes rootDirSize bytes
            total := totalItems
            sectorPos := rootDirSectorPos
            endingSectorPos := (rootDirSectorPos + rootDirSize / sectorSize : Nat) }
        modify (fun s => { s with fatPrivate := { s.fatPrivate with rootDirectory := directory } })
        return 0

def fat16FreeDirectory (directory : FatDirectory) : Prog FatState Unit := do
  if directory.addr = 0 then
    return
  else
    onlyIf (directory.item ≠ 0) (onHeap (kfree directory.item))
    onHeap (kfree directory.addr)

/-- `sizeof (struct fat_directory)` -/
abbrev fatDirectorySize : Nat := 16

/-- the pointer that the function returns, freed before if the load failed; none for `NULL` -/
def fat16LoadFatDirectory (disk : Disk) (item : FatDirectoryItem) :
    Prog FatState (Option FatDirectory) := do
  let attributes ← item.attributes
  if attributes &&& fatFileSubdirectory = 0 then
    return none
  else
    let addr ← onHeap (kzalloc fatDirectorySize)
    if addr = 0 then
      return none
    else
      let cluster ← fat16GetFirstCluster item
      let s ← get
      let totalItems ← fat16GetTotalItemsForDirectory disk (cuint (fat16ClusterToSector s.fatPrivate cluster))
      let directorySize := cint (totalItems * fatDirectoryItemSize)
      let dir ← onHeap (kzalloc (cuint directorySize))
      let directory : FatDirectory := ⟨addr, dir, .ofBytes (cuint directorySize) [], totalItems, 0, 0⟩
      if dir = 0 then
        fat16FreeDirectory directory
        return some directory
      else
        let (res, bytes) ← fat16ReadInternal disk cluster 0 directorySize
        let directory := { directory with buffer := .ofBytes (cuint directorySize) bytes }
        onlyIf (res ≠ OK) (fat16FreeDirectory directory)
        return some directory

/-! ## names -/

/-- the loop of `fat16ToProperString` at byte `i` of the buffer: the characters up to a zero or a
space, stored after the `out` characters that are there already -/
def properStringLoop (b : Buffer) : Nat → Nat → List UInt8 → Except Fault (List UInt8)
  | 0, _, _ => .error .outOfBounds
  | fuel + 1, i, out => do
    let c ← b.get i
    if c ≠ 0x00 ∧ c ≠ 0x20 then
      if out.length < maxPath then properStringLoop b fuel (i + 1) (out ++ [c])
      else .error .outOfBounds
    else if c = 0x20 ∧ maxPath ≤ out.length then .error .outOfBounds
    else .ok out

/-- the characters at `out` after the call -/
def fat16ToProperString (out : List UInt8) (b : Buffer) (i : Nat) : Except Fault (List UInt8) :=
  properStringLoop b (b.size + 1) i out

/-- the characters of the name; the rest of `out` is zero -/
def fat16GetFullRelativeFilename (item : FatDirectoryItem) : Except Fault (List UInt8) := do
  let out ← fat16ToProperString [] item.buffer item.offset
  let ext ← item.buffer.get (item.offset + 8)
  if ext ≠ 0x00 ∧ ext ≠ 0x20 then
    if out.length < maxPath then fat16ToProperString (out ++ [46]) item.buffer (item.offset + 8)
    else .error .outOfBounds
  else return out

/-- `memcpy` of a record -/
def copyItemLoop (item : FatDirectoryItem) : Nat → Nat → Except Fault (List UInt8)
  | 0, _ => .ok []
  | fuel + 1, i => do
    let c ← item.buffer.get (item.offset + i)
    let cs ← copyItemLoop item fuel (i + 1)
    return c :: cs

def fat16CloneDirectoryItem (item : FatDirectoryItem) (size : Nat) : Prog FatState FatPtr := do
  if size < fatDirectoryItemSize then
    return .null
  else
    let itemCopy ← onHeap (kzalloc size)
    if itemCopy = 0 then
      return .null
    else
      let bytes ← copyItemLoop item size 0
      return .item itemCopy ⟨.ofBytes size bytes, 0⟩

/-- `sizeof (struct fat_item)` and `sizeof (struct fat_file_descriptor)` -/
abbrev fatItemSize : Nat := 8

/-- the new item, none for `NULL` -/
def fat16NewFatItemForDirectoryItem (disk : Disk) (item : FatDirectoryItem) :
    Prog FatState (Option FatItem) := do
  let addr ← onHeap (kzalloc fatItemSize)
  if addr = 0 then
    return none
  else
    let attributes ← item.attributes
    let mut fItem : FatItem := ⟨addr, .null, 0⟩
    if attributes &&& fatFileSubdirectory ≠ 0 then
      let directory ← fat16LoadFatDirectory disk item
      fItem := { fItem with ptr := directory.elim .null .directory, type := fatItemTypeDirectory }
    -- no return before this: the directory and its tag are overwritten
    fItem := { fItem with type := fatItemTypeFile }
    let clone ← fat16CloneDirectoryItem item fatDirectoryItemSize
    return some { fItem with ptr := clone }

/-- the loop of `fat16FindItemInDirectory` at record `i`, with `fuel` records left -/
def findItemLoop (disk : Disk) (buffer : Buffer) (name : List UInt8) :
    Nat → Nat → Option FatItem → Prog FatState (Option FatItem)
  | 0, _, fItem => return fItem
  | fuel + 1, i, fItem => do
    let item : FatDirectoryItem := ⟨buffer, fatDirectoryItemSize * i⟩
    let tmpFilename ← fat16GetFullRelativeFilename item
    if istrncmp (cstr tmpFilename) (cstr name) maxPath = 0 then
      let fItem ← fat16NewFatItemForDirectoryItem disk item
      findItemLoop disk buffer name fuel (i + 1) fItem
    else
      findItemLoop disk buffer name fuel (i + 1) fItem

def fat16FindItemInDirectory (disk : Disk) (directory : FatDirectory) (name : List UInt8) :
    Prog FatState (Option FatItem) :=
  findItemLoop disk directory.buffer name directory.total.toNat 0 none

def fat16FatItemFree (item : FatItem) : Prog FatState Unit := do
  if item.type = fatItemTypeDirectory then
    match item.ptr with
    | .null => pure ()
    | .directory d => fat16FreeDirectory d
    | .item _ _ => throw .outOfBounds
  else
    onlyIf (item.type = fatItemTypeFile)
      (match item.ptr with
      | .null => onHeap (kfree 0)
      | .item addr _ => onHeap (kfree addr)
      | .directory d => onHeap (kfree d.addr))
  onHeap (kfree item.addr)

/-- the loop of `fat16GetDirectoryEntry`: `currentItem` down the rest of the path -/
def directoryEntryLoop (disk : Disk) : List PathPart → Option FatItem → Prog FatState (Option FatItem)
  | [], currentItem => return currentItem
  | nextPart :: path, currentItem => do
    match currentItem with
    | none => throw .nullPointer
    | some item =>
      if item.type ≠ fatItemTypeDirectory then
        return none
      else
        match item.ptr with
        | .null => throw .nullPointer
        | .item _ _ => throw .outOfBounds
        | .directory d =>
          let tmpItem ← fat16FindItemInDirectory disk d nextPart.part
          fat16FatItemFree item
          directoryEntryLoop disk path tmpItem

def fat16GetDirectoryEntry (disk : Disk) (path : List PathPart) : Prog FatState (Option FatItem) := do
  match path with
  | [] => throw .nullPointer
  | part :: path =>
    let s ← get
    let rootItem ← fat16FindItemInDirectory disk s.fatPrivate.rootDirectory part.part
    match rootItem with
    | none => return none
    | some item => directoryEntryLoop disk path (some item)

/-! ## the driver -/

inductive FileMode where
  | read
  | write
  | append
  | invalid
  deriving DecidableEq

/-- the descriptor, or the status that `ERROR` makes a pointer of -/
def fat16Open (disk : Disk) (path : List PathPart) (mode : FileMode) :
    Prog FatState (Except Int FatFileDescriptor) := do
  if mode ≠ .read then
    return .error (-ERDONLY)
  else
    let addr ← onHeap (kzalloc fatItemSize)
    if addr = 0 then
      return .error (-ENOMEM)
    else
      let item ← fat16GetDirectoryEntry disk path
      match item with
      | none => return .error (- EIO)
      | some item => return .ok ⟨addr, item, 0⟩

def fat16Close (descriptor : FatFileDescriptor) : Prog FatState Int := do
  fat16FatItemFree descriptor.item
  onHeap (kfree descriptor.addr)
  return 0

/-- `struct file_stat` -/
structure FileStat where
  flags : Nat
  filesize : Nat

/-- `FILE_STAT_READ_ONLY` -/
abbrev fileStatReadOnly : Nat := 1

/-- the record behind a pointer -/
def FatPtr.record : FatPtr → Except Fault FatDirectoryItem
  | .null => .error .nullPointer
  | .item _ i => .ok i
  | .directory _ => .error .outOfBounds

def fat16Stat (descriptor : FatFileDescriptor) (stat : FileStat) : Except Fault (Int × FileStat) := do
  if descriptor.item.type ≠ fatItemTypeFile then
    return (-EINVARG, stat)
  else
    let ritem ← descriptor.item.ptr.record
    let filesize ← ritem.filesize
    let attributes ← ritem.attributes
    return (0, ⟨if attributes &&& fatFileReadOnly ≠ 0 then fileStatReadOnly else 0, filesize⟩)

/-- the loop of `fat16Read`, with `fuel` items left: the status, and what is stored for each item -/
def readItemsLoop (disk : Disk) (item : FatDirectoryItem) (size : Nat) :
    Nat → Int → Prog FatState (Int × List (List UInt8))
  | 0, _ => return (0, [])
  | fuel + 1, offset => do
    let cluster ← fat16GetFirstCluster item
    let (res, bytes) ← fat16ReadInternal disk cluster offset (cint size)
    if res < 0 then
      return (res, [bytes])
    else
      let (res, rest) ← readItemsLoop disk item size fuel (cint (offset + size))
      return (res, bytes :: rest)

/-- the status, and the items: the bytes stored from `out_ptr`, `out_ptr + size`, .. on -/
def fat16Read (disk : Disk) (descriptor : FatFileDescriptor) (size nmemb : Nat) :
    Prog FatState (Int × List (List UInt8)) := do
  let item ← descriptor.item.ptr.record
  let (res, items) ← readItemsLoop disk item size nmemb (cint descriptor.pos)
  if res < 0 then
    return (res, items)
  else
    return (cint nmemb, items)

inductive FileSeekMode where
  | set
  | cur
  | end
  | other
  deriving DecidableEq

/-- the status, and the descriptor after the call -/
def fat16Seek (descriptor : FatFileDescriptor) (offset : Nat) (seekMode : FileSeekMode) :
    Except Fault (Int × FatFileDescriptor) := do
  if descriptor.item.type ≠ fatItemTypeFile then
    return (-EINVARG, descriptor)
  else
    let ritem ← descriptor.item.ptr.record
    let filesize ← ritem.filesize
    if offset ≥ filesize then
      return (- EIO, descriptor)
    else
      match seekMode with
      | .set => return (0, descriptor)
      | .end => return (-EUNIMP, descriptor)
      | .cur => return (0, { descriptor with pos := cuint (descriptor.pos + offset : Nat) })
      | .other => return (-EINVARG, descriptor)

/-! ## mounting -/

/-- `sizeof (struct disk_stream)` -/
abbrev diskStreamSize : Nat := 8

def diskstreamerNew : Prog Machine DiskStream := do
  let streamer ← kzalloc diskStreamSize
  deref streamer
  return ⟨streamer, 0⟩

/-- the streams of the volume -/
def fat16InitPrivate (fatPrivate : Nat) : Prog Machine FatPrivate := do
  deref fatPrivate
  let clusterReadStream ← diskstreamerNew
  let fatReadStream ← diskstreamerNew
  let directoryStream ← diskstreamerNew
  return ⟨fatPrivate, fatHeader [], ⟨fatPrivate + rootDirectoryOffset, 0, .ofBytes 0 [], 0, 0, 0⟩,
    clusterReadStream, fatReadStream, directoryStream⟩

/-- `fat16Resolve` once `disk->fs_private` is there, with the stream for the header -/
def resolveVolume (disk : Disk) (stream : DiskStream) : Prog FatState Int := do
  let (res, bytes) ← (fun s => do
    let (r, _) ← diskstreamerRead disk fatHeaderSize stream
    return (r, s) : Prog FatState (Int × List UInt8))
  if res ≠ OK then
    return - EIO
  else
    modify (fun s => { s with fatPrivate := { s.fatPrivate with header := fatHeader bytes } })
    if (fatHeader bytes).signature ≠ 0x29 then
      return -EFSNOTUS
    else
      let res ← fat16GetRootDirectory disk
      if res ≠ OK then
        return - EIO
      else
        return 0

/-- the status, and `disk->fs_private` after the call -/
def fat16Resolve (disk : Disk) : Prog Machine (Int × Option FatPrivate) := do
  let addr ← kzalloc fatPrivateSize
  let fatPrivate ← fat16InitPrivate addr
  let stream ← diskstreamerNew
  let m ← get
  match resolveVolume disk stream ⟨m, fatPrivate⟩ with
  | .error e => throw e
  | .ok (res, s) =>
    set s.machine
    kfree stream.addr
    if res < 0 then
      kfree addr
      return (res, none)
    else
      return (res, some s.fatPrivate)

end LameOS
