import LameOS.Fs.VolumeThere

/-!
# A file that is there

What a mounted disk has, before anything is opened.

* `Mounted`                the volume that a mount of the disk gives;
* `FileThere`              a regular file of its root directory, that the reads of the driver are right for;
* `FileThere.same`         it is there in what is mounted when it is there on the disk;
* `FileThere.stat`, `FileThere.read`   **what is found of it and what is read of it**;
* `fileBytes`              its bytes, as the disk has them.
-/

set_option linter.unusedVariables false

namespace LameOS
open Lib Lib.Exec

/-- the volume that a mount of the disk gives -/
def Mounted (disk : Disk) (p : FatPrivate) : Prop :=
  ∃ m m', fat16Resolve disk m = .ok ((0, some p), m')

/-- `name` is the file of record `k` of the root directory, `n` bytes in the clusters of `chain`; its
lookups and its stream reads are right -/
structure FileThere (disk : Disk) (p : FatPrivate) (name : List UInt8) (k : Nat) (chain : List Nat)
    (n : Nat) : Prop where
  plain : PlainName name
  sole : SoleFile p.rootDirectory name k
  regular : RegularFile disk p.header k chain n
  cluster : bytes16 (rootRecordBytes disk p.header k) 20
    ||| bytes16 (rootRecordBytes disk p.header k) 26 = bytes16 (rootRecordBytes disk p.header k) 26
  area : p.header.rootDirEntries % 16 = 0
  onDisk : rootPosition p.header + 32 * p.header.rootDirEntries < 2147483648
  spc : 1 ≤ p.header.sectorsPerCluster
  pos : 1 ≤ n
  low : n < 2147483648
  items : ItemsFit p disk chain n 1

section
variable {disk : Disk} {p q : FatPrivate} {name : List UInt8} {k : Nat} {chain : List Nat} {n o : Nat}

theorem SameRecords.clusterBytes (e : SameRecords p q) : clusterBytes q = clusterBytes p := by
  unfold LameOS.clusterBytes
  rw [e.header]

theorem PieceFits.same (h : PieceFits p disk chain o n) (e : SameRecords p q) :
    PieceFits q disk chain o n := by
  have hstart : ∀ c, clusterStart q c = clusterStart p c := by
    intro c
    unfold clusterStart
    rw [e.header, e.ending]
  have hat : chainAt q chain o = chainAt p chain o := by
    unfold chainAt
    rw [e.clusterBytes]
  refine ⟨?_, h.sector, ?_, ?_⟩
  · rw [e.clusterBytes, e.header]
    exact h.lookups
  · rw [e.clusterBytes]
    exact h.cluster
  · rw [hat, hstart, e.clusterBytes]
    exact h.low

theorem SoleFile.same (h : SoleFile p.rootDirectory name k) (e : SameRecords p q) :
    SoleFile q.rootDirectory name k := by
  obtain ⟨hlt, hreadable, hnamed, honly, hplain⟩ := h
  rw [← e.total] at hlt hreadable honly
  rw [← e.buffer] at hreadable hnamed honly hplain
  exact ⟨hlt, hreadable, hnamed, honly, hplain⟩

/-- the same records hold the same file -/
theorem FileThere.same (h : FileThere disk p name k chain n) (e : SameRecords p q) :
    FileThere disk q name k chain n where
  plain := h.plain
  sole := h.sole.same e
  regular := by
    rw [e.header]
    exact h.regular
  cluster := by
    rw [e.header]
    exact h.cluster
  area := by
    rw [e.header]
    exact h.area
  onDisk := by
    rw [e.header]
    exact h.onDisk
  spc := by
    rw [e.header]
    exact h.spc
  pos := h.pos
  low := h.low
  items i hi t ht := by
    rw [e.clusterBytes] at ht ⊢
    exact (h.items i hi t ht).same e

end

namespace FileThere
variable {disk : Disk} {p : FatPrivate} {name : List UInt8} {k : Nat} {chain : List Nat} {n : Nat}

theorem ending (h : FileThere disk p name k chain n) (hp : Mounted disk p) :
    p.rootDirectory.endingSectorPos = dataSector p.header := by
  obtain ⟨m, m', hmount⟩ := hp
  obtain ⟨-, hending⟩ := fat16Resolve_volume hmount h.onDisk
  have harea := h.area
  rw [hending]
  unfold dataSector
  congr 2
  omega

theorem geometry (h : FileThere disk p name k chain n) (hp : Mounted disk p) : Geometry p := by
  have hending := h.ending hp
  obtain ⟨m, m', hmount⟩ := hp
  exact fat16Resolve_geometry hmount h.spc (by rw [hending]; exact Int.natCast_nonneg _)

theorem ge (h : FileThere disk p name k chain n) : ∀ c ∈ chain, 2 ≤ c :=
  fun c hc => (h.regular.linked.range c hc).1

theorem inside (h : FileThere disk p name k chain n) : n ≤ chain.length * clusterBytes p :=
  h.regular.enough

theorem firstCluster (h : FileThere disk p name k chain n) (hp : Mounted disk p) :
    fat16GetFirstCluster (recordAt p.rootDirectory.buffer k) = .ok (chain.getD 0 0) := by
  obtain ⟨m, m', hmount⟩ := hp
  obtain ⟨hbuffer, -⟩ := fat16Resolve_volume hmount h.onDisk
  rw [rootRecord_firstCluster hbuffer h.regular.entry, h.cluster, h.regular.linked.head]

theorem filesize (h : FileThere disk p name k chain n) (hp : Mounted disk p) :
    (recordAt p.rootDirectory.buffer k).filesize = .ok n := by
  obtain ⟨m, m', hmount⟩ := hp
  obtain ⟨hbuffer, -⟩ := fat16Resolve_volume hmount h.onDisk
  have h28 := imageBuffer_get16 disk (rootPosition p.header) h.regular.entry (show 28 + 1 < 32 by decide)
  have h30 := imageBuffer_get16 disk (rootPosition p.header) h.regular.entry (show 30 + 1 < 32 by decide)
  rw [hbuffer, h.regular.size]
  unfold FatDirectoryItem.filesize Buffer.get32 recordAt
  dsimp only [fatDirectoryItemSize]
  rw [Nat.add_assoc, h28, h30]
  rfl

/-- what `fstat` gives for a copy of its record -/
theorem stat (h : FileThere disk p name k chain n) (hp : Mounted disk p) {d : FatFileDescriptor}
    (hd : OpensRecord (recordAt p.rootDirectory.buffer k) d) (stat : FileStat) :
    ∃ flags, fat16Stat d stat = .ok (0, ⟨flags, n⟩) := by
  obtain ⟨a, copy, hptr, hclone⟩ := hd.copied
  have hsize := hclone.filesize.trans (h.filesize hp)
  obtain ⟨bytes, -, rfl⟩ := hclone
  obtain ⟨attributes, hattr⟩ : ∃ attributes,
      FatDirectoryItem.attributes ⟨.ofBytes fatDirectoryItemSize bytes, 0⟩ = .ok attributes :=
    ⟨_, attributes_inside (show 0 + fatDirectoryItemSize ≤ fatDirectoryItemSize by decide)⟩
  refine ⟨if attributes &&& fatFileReadOnly ≠ 0 then fileStatReadOnly else 0, ?_⟩
  unfold fat16Stat
  rw [hd.type, if_neg (not_not_intro rfl), hptr,
    show FatPtr.record (.item a _) = .ok _ from rfl, ok_bind, hsize, ok_bind, hattr]
  rfl

/-- what `fread` gives for all of it -/
theorem read (h : FileThere disk p name k chain n) (hp : Mounted disk p) {d : FatFileDescriptor}
    (hd : OpensRecord (recordAt p.rootDirectory.buffer k) d) {s : FatState} (hs : OfVolume p s) :
    Does (fat16Read disk d n 1) s (fun r s' => r.1 = 1 ∧ r.2.flatten = chainBytes p disk chain 0 n) := by
  have hlow : 1 * n < 2147483648 := by
    have := h.low
    omega
  have hin : 1 * n ≤ chain.length * clusterBytes p := by
    rw [Nat.one_mul]
    exact h.inside
  have hread := fat16Read_items (h.geometry hp) h.ge hd (h.firstCluster hp) h.pos hlow hin h.items hs
  rw [Nat.one_mul] at hread
  exact hread

end FileThere

/-- the bytes of the file in the clusters of `chain` -/
def fileBytes (disk : Disk) (h : FatHeader) (chain : List Nat) (n : Nat) : List UInt8 :=
  (chain.flatMap (clusterData disk h)).take n

end LameOS
