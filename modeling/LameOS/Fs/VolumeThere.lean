import LameOS.Fs.ResolveFailure
import LameOS.Memory.HeapLaws

/-!
# A volume that is there

What a disk has, before any volume is mounted.

* `VolumeThere`            the signature of FAT16, and a root directory that ends;
* `diskVolume`             the volume as the disk has it;
* `fat16Resolve_mounts`    **a disk with such a volume is mounted**, with enough blocks at the end of the
                           heap;
* `fat16Resolve_sameRecords`   what is mounted is what the disk has.
-/

set_option linter.unusedVariables false

namespace LameOS
open Lib Lib.Exec

/-! ## the volume of a disk -/

/-- a FAT16 header, and a root directory that record `records` ends -/
structure VolumeThere (disk : Disk) (records : Nat) : Prop where
  signature : (bootHeader disk).signature = 0x29
  root : DirectoryImage disk (rootPosition (bootHeader disk)) (bootHeader disk).rootDirEntries records

/-- the volume as the disk has it, without an address -/
def diskVolume (disk : Disk) (records : Nat) : FatPrivate :=
  let header := bootHeader disk
  { addr := 0
    header := header
    rootDirectory :=
      { addr := 0
        item := 0
        buffer := imageBuffer disk (rootPosition header) header.rootDirEntries
        total := (Nat.count (Undeleted disk (rootPosition header)) records : Nat)
        sectorPos := (header.fatCopies * header.sectorsPerFat + header.reservedSectors : Nat)
        endingSectorPos := (header.fatCopies * header.sectorsPerFat + header.reservedSectors
          + header.rootDirEntries * 32 / 512 : Nat) }
    clusterReadStream := ⟨0, 0⟩
    fatReadStream := ⟨0, 0⟩
    directoryStream := ⟨0, 0⟩ }

/-- the same header and the same records -/
structure SameRecords (p q : FatPrivate) : Prop where
  header : q.header = p.header
  buffer : q.rootDirectory.buffer = p.rootDirectory.buffer
  total : q.rootDirectory.total = p.rootDirectory.total
  ending : q.rootDirectory.endingSectorPos = p.rootDirectory.endingSectorPos

theorem SameRecords.symm {p q : FatPrivate} (h : SameRecords p q) : SameRecords q p :=
  ⟨h.header.symm, h.buffer.symm, h.total.symm, h.ending.symm⟩

/-! ## its mount -/

section
variable {disk : Disk} {records k n : Nat} {m : Machine} {s : FatState}

/-- the root directory is loaded when its records get blocks -/
theorem rootDirectory_loads {q : Nat}
    (h : DirectoryImage disk (rootPosition s.fatPrivate.header) s.fatPrivate.header.rootDirEntries records)
    (halloc : kzalloc (rootSize s.fatPrivate.header) s.machine = .ok (q, m)) (hq : q ≠ 0) :
    ∃ s', fat16GetRootDirectory disk s = .ok (0, s') := by
  have hdisk := h.onDisk
  have hsector : (s.fatPrivate.header.fatCopies * s.fatPrivate.header.sectorsPerFat
      + s.fatPrivate.header.reservedSectors) * sectorSize = rootPosition s.fatPrivate.header := rfl
  obtain ⟨t, htotal⟩ := fat16GetTotalItems_count h hsector
  obtain ⟨s1, hs1⟩ : ∃ s1, s1 = { s with fatPrivate := { s.fatPrivate with directoryStream := t } } :=
    ⟨_, rfl⟩
  rw [← hs1] at htotal
  have hdir : onHeap (kzalloc (s.fatPrivate.header.rootDirEntries * fatDirectoryItemSize)) s1
      = .ok (q, { s1 with machine := m }) := by
    rw [hs1]
    exact part_ok halloc
  have hpos : fat16SectorToAbsolute (s.fatPrivate.header.fatCopies * s.fatPrivate.header.sectorsPerFat
      + s.fatPrivate.header.reservedSectors : Nat) = (rootPosition s.fatPrivate.header : Nat) := by
    show cint (rootPosition s.fatPrivate.header : Nat) = _
    exact cint_nat (by dsimp only [fatDirectoryItemSize] at hdisk; omega)
  have hin : InSector (rootPosition s.fatPrivate.header)
      (s.fatPrivate.header.rootDirEntries * fatDirectoryItemSize) := by
    unfold InSector rootPosition
    dsimp only [sectorSize]
    omega
  -- the seek and the read, from any state
  have hserved : ∀ s2 : FatState, ∃ s3 s4,
      onDirectoryStream (diskstreamerSeek (rootPosition s.fatPrivate.header)) s2 = .ok (0, s3) ∧
      onDirectoryStream (diskstreamerRead disk
        (s.fatPrivate.header.rootDirEntries * fatDirectoryItemSize : Nat)) s3
          = .ok ((0, diskBytes disk (rootPosition s.fatPrivate.header)
            (s.fatPrivate.header.rootDirEntries * fatDirectoryItemSize)), s4) := fun s2 =>
    ⟨_, _, part_ok (diskstreamerSeek_run _ _),
      part_ok (diskstreamerRead_ok disk rfl (by rw [Nat.mul_comm]; exact hdisk) hin)⟩
  obtain ⟨s3, s4, hseek, hread⟩ := hserved { s1 with machine := m }
  unfold fat16GetRootDirectory
  rw [bind_ok (get_run s)]
  dsimp only
  rw [bind_ok htotal, bind_ok hdir, if_neg hq, hpos, bind_ok hseek, if_neg (not_not_intro rfl),
    bind_ok hread]
  exact ⟨_, rfl⟩

/-- the blocks behind the five of a mount -/
theorem Headroom.roomBehind (h : Headroom (5 + n) m) {size : Nat} (hsize : mallocBlocks size ≤ n)
    (hpos : 1 ≤ mallocBlocks size) : RoomBehind m.heap.table 5 size := by
  obtain ⟨k, L, hh, hk, hle⟩ := h
  refine Or.inr ⟨hpos, k + 5, (hk.mono (Nat.le_add_right k 5)).window (by omega), ?_⟩
  have hcount : Nat.count (Free m.heap.table) (k + 5) = Nat.count (Free m.heap.table) k + 5 := by
    rw [Nat.count_add, Nat.count_of_forall (fun i hi => hk.free (k + i) (by omega) (by omega))]
  unfold freeBelow
  omega

/-- **A mount** -/
theorem fat16Resolve_mounts (h : VolumeThere disk records) (hroom : Headroom (5 + 512) m) :
    ∃ p m', fat16Resolve disk m = .ok ((0, some p), m') := by
  have hentries : (bootHeader disk).rootDirEntries < 65536 := bytes16_lt _ 17
  have hinside := h.root.inside
  obtain ⟨L, hh, hblocks⟩ := hroom.room
  obtain ⟨a, c, N, q, m1, -, hh1, htaken, hrun⟩ := fat16Resolve_begins disk hh (by omega)
  -- the records
  have hsize : rootSize (bootHeader disk) < 4294967296 := by
    unfold rootSize
    dsimp only [fatDirectoryItemSize]
    omega
  have hpos : 1 ≤ mallocBlocks (rootSize (bootHeader disk)) := by
    refine (mallocBlocks_pos_iff hsize).mpr ?_
    unfold rootSize
    dsimp only [fatDirectoryItemSize]
    omega
  obtain ⟨b, m2, halloc, hb⟩ := (kzalloc_some_iff hh1 htaken hsize).mpr
    (hroom.roomBehind (rootBlocks_le hentries) hpos)
  obtain ⟨s', hroot⟩ := rootDirectory_loads (s := (⟨m1, q⟩ : FatState).withHeader (bootHeader disk))
    h.root halloc hb
  have hvolume : resolveVolume disk ⟨blockAddr c, 0⟩ ⟨m1, q⟩ = .ok (0, s') := by
    rw [resolveVolume_eq rfl, if_neg (not_not_intro h.signature), bind_ok hroot,
      if_neg (not_not_intro rfl)]
    rfl
  -- the stream for the header goes back
  obtain ⟨N', -, hh', -⟩ := resolveVolume_owns rfl ⟨m1, q⟩ _ _ _ hh1 hvolume
  obtain ⟨hfree, -⟩ := kfree_ok (hh'.perm List.perm_middle)
  refine ⟨s'.fatPrivate, s'.machine.release ⟨c, 1⟩, ?_⟩
  rw [hrun, hvolume]
  dsimp only
  unfold resolveOut
  rw [bind_ok hfree, if_neg (by decide)]
  rfl

end

/-! ## what is mounted -/

section
variable {disk : Disk} {records : Nat} {m m' : Machine}

/-- a mount gives the volume that the disk has -/
theorem fat16Resolve_sameRecords (h : VolumeThere disk records) {p : FatPrivate}
    (hrun : fat16Resolve disk m = .ok ((0, some p), m')) : SameRecords (diskVolume disk records) p := by
  have hheader := fat16Resolve_header hrun
  have hdisk : rootPosition p.header + 32 * p.header.rootDirEntries < 2147483648 := by
    rw [hheader]
    exact h.root.onDisk
  obtain ⟨hbuffer, hending⟩ := fat16Resolve_volume hrun hdisk
  obtain ⟨s, s', hs, hroot, rfl⟩ := fat16Resolve_root hrun
  have himage := h.root
  rw [← hs] at himage
  obtain ⟨htotal, -⟩ := fat16GetRootDirectory_run himage hroot
  refine ⟨hheader, ?_, ?_, ?_⟩
  · rw [hbuffer, hheader]
    rfl
  · rw [htotal, hs]
    rfl
  · rw [hending, hheader]
    rfl

end

end LameOS
