import LameOS.Fs.ReadBounds
import Mathlib.Order.CompletePartialOrder

/-!
# Where a volume lies on its disk

The sectors and the byte positions that the driver computes from an accepted header: the allocation
tables, the root directory, the clusters, the entries of the first table.

* `fat16Resolve_sectors`   the sectors that a mount stores;
* `seek_exact_iff`         the position sought for a byte of a cluster is its place on the disk exactly
                           when it lies below 2 GiB;
* `laid_out_iff`           the root directory ends before cluster 2 exactly when its records fill their
                           sectors, and clusters do not overlap up to the numbers that an entry can hold;
* `entry_read_iff`         the bytes that are read for a table entry are never all those of the table.
-/

set_option linter.unusedVariables false

namespace LameOS
open Lib Lib.Exec

/-! ## the sectors of an accepted volume -/

/-- the sector behind the root directory, by whole sectors of records -/
def endingSector (h : FatHeader) : Nat :=
  h.fatCopies * h.sectorsPerFat + h.reservedSectors
    + h.rootDirEntries * fatDirectoryItemSize / sectorSize

theorem fat16GetRootDirectory_sectors {disk : Disk} {s s' : FatState}
    (hrun : fat16GetRootDirectory disk s = .ok (0, s')) :
    s'.fatPrivate.header = s.fatPrivate.header ∧
      s'.fatPrivate.rootDirectory.sectorPos = (s.fatPrivate.header.fatCopies
        * s.fatPrivate.header.sectorsPerFat + s.fatPrivate.header.reservedSectors : Nat) ∧
      s'.fatPrivate.rootDirectory.endingSectorPos = endingSector s.fatPrivate.header := by
  have hheader : Header (fun x => x = s.fatPrivate.header) s := rfl
  refine ⟨(fat16GetRootDirectory_spares disk s hheader).2 _ _ hrun, ?_⟩
  unfold fat16GetRootDirectory at hrun
  rw [bind_ok (get_run s)] at hrun
  dsimp only at hrun
  obtain ⟨total, s1, -, hrun⟩ := bind_eq_ok hrun
  obtain ⟨dir, s2, -, hrun⟩ := bind_eq_ok hrun
  split at hrun
  · obtain ⟨hbad, -⟩ := pure_eq_ok hrun
    exact absurd hbad (by decide)
  · obtain ⟨res, s3, -, hrun⟩ := bind_eq_ok hrun
    split at hrun
    · obtain ⟨hbad, -⟩ := pure_eq_ok hrun
      exact absurd hbad (by decide)
    · obtain ⟨⟨res, bytes⟩, s4, -, hrun⟩ := bind_eq_ok hrun
      dsimp only at hrun
      split at hrun
      · obtain ⟨hbad, -⟩ := pure_eq_ok hrun
        exact absurd hbad (by decide)
      · cases hrun
        exact ⟨rfl, rfl⟩

/-- what a mount stores: the header of the boot sector, and the sectors of the root directory -/
theorem fat16Resolve_sectors {disk : Disk} {m m' : Machine} {p : FatPrivate}
    (h : fat16Resolve disk m = .ok ((0, some p), m')) :
    p.header = bootHeader disk ∧ p.rootDirectory.sectorPos
        = ((bootHeader disk).fatCopies * (bootHeader disk).sectorsPerFat
          + (bootHeader disk).reservedSectors : Nat) ∧
      p.rootDirectory.endingSectorPos = endingSector (bootHeader disk) := by
  obtain ⟨s, s', hs, hroot, rfl⟩ := fat16Resolve_root h
  rw [← hs]
  exact fat16GetRootDirectory_sectors hroot

/-- the fields of a header have one byte or two -/
theorem endingSector_lt (bs : List UInt8) : endingSector (fatHeader bs) < 16842752 := by
  have hcopies : (fatHeader bs).fatCopies ≤ 255 := Nat.le_of_lt_succ (bs.getD 16 0).toNat_lt
  have hspf : (fatHeader bs).sectorsPerFat ≤ 65535 := Nat.le_of_lt_succ (bytes16_lt bs 22)
  have hreserved : (fatHeader bs).reservedSectors < 65536 := bytes16_lt bs 14
  have hentries : (fatHeader bs).rootDirEntries < 65536 := bytes16_lt bs 17
  have hprod : (fatHeader bs).fatCopies * (fatHeader bs).sectorsPerFat ≤ 255 * 65535 :=
    Nat.mul_le_mul hcopies hspf
  unfold endingSector
  dsimp only [fatDirectoryItemSize, sectorSize]
  omega

theorem sectorsPerCluster_lt (bs : List UInt8) : (fatHeader bs).sectorsPerCluster < 256 :=
  (bs.getD 13 0).toNat_lt

/-- the sectors of a volume that its boot sector declares -/
def volumeSectors (disk : Disk) : Nat :=
  if bytes16 (diskBytes disk 0 fatHeaderSize) 19 ≠ 0 then bytes16 (diskBytes disk 0 fatHeaderSize) 19
  else bytes16 (diskBytes disk 0 fatHeaderSize) 32 + 65536 * bytes16 (diskBytes disk 0 fatHeaderSize) 34

/-! ## the positions of clusters -/

/-- a stream that keeps the position sought, and fails -/
def keepPosition (pos total : Int) : Prog (Option Int) (Int × List UInt8) := do
  set (some pos)
  return (- EIO, [])

/-- the call of `fat16ReadInternalFromStream` for byte `o` of a chain, whose cluster is `c` -/
def seekCluster (p : FatPrivate) (c o total : Int) : Prog (Option Int) (Int × List UInt8) :=
  readLoop (fun _ => pure c) (fat16ClusterToSector p) keepPosition (sizeOfClusterBytes p)
    (total.toNat + 1) o total

/-- byte `o` of a chain in cluster `c`, when cluster 2 is at sector `first` -/
def bytePosition (h : FatHeader) (first : Nat) (c : Int) (o : Nat) : Int :=
  (first + (c - 2) * h.sectorsPerCluster) * 512 + (o % (h.sectorsPerCluster * 512) : Nat)

/-- `q` is sought for byte `o` of a chain in cluster `c`, no `int` on the way wraps, and the stream's
sector and offset are not negative -/
structure SeeksExactly (p : FatPrivate) (c : Int) (o : Nat) (q : Int) : Prop where
  sought : ∀ total, ∃ r, seekCluster p c o total none = .ok (r, some q)
  clusters : cint ((c - 2) * p.header.sectorsPerCluster) = (c - 2) * p.header.sectorsPerCluster
  sector : fat16ClusterToSector p c
    = p.rootDirectory.endingSectorPos + (c - 2) * p.header.sectorsPerCluster
  scaled : cint (fat16ClusterToSector p c * sectorSize) = fat16ClusterToSector p c * sectorSize
  split : 0 ≤ q.tdiv sectorSize ∧ 0 ≤ q.tmod sectorSize

section
variable {p : FatPrivate} {c : Int} {o : Nat}

/-- the position that is sought, for a read of any length -/
theorem seekCluster_run (hpos : 0 < clusterBytes p) (hc : 2 ≤ c) (total : Int) :
    seekCluster p c o total none
      = .ok ((- EIO, []), some (cint (clusterStart p c + (o % clusterBytes p : Nat)))) := by
  have hmod : (o : Int).tmod (clusterBytes p) = ((o % clusterBytes p : Nat) : Int) := rfl
  have hseek : cint (fat16ClusterToSector p c * sectorSize + ((o % clusterBytes p : Nat) : Int))
      = cint (clusterStart p c + (o % clusterBytes p : Nat)) := cint_cint_mul _ _
  have hfirst : (do
      let c' ← (pure c : Prog (Option Int) Int)
      if c' < 0 then return (c', [])
      else keepPosition (cint (fat16ClusterToSector p c' * sectorSize
        + (o : Int).tmod (sizeOfClusterBytes p))) (min total (sizeOfClusterBytes p))) none
        = .ok ((- EIO, []), some (cint (clusterStart p c + (o % clusterBytes p : Nat)))) := by
    rw [bind_ok (pure_run c none), if_neg (by omega), sizeOfClusterBytes_eq, hmod, hseek]
    rfl
  unfold seekCluster
  rw [readLoop_succ (by rw [sizeOfClusterBytes_eq]; omega), bind_ok hfirst]
  rfl

/-- a position is exact as it is when it has 31 bits, and otherwise it is not the one sought -/
theorem seeksExactly_start (hpos : 0 < clusterBytes p) (hc : 2 ≤ c)
    (hending : 0 ≤ p.rootDirectory.endingSectorPos) :
    SeeksExactly p c o (clusterStart p c + (o % clusterBytes p : Nat)) ↔
      clusterStart p c + (o % clusterBytes p : Nat) < 2147483648 := by
  have hprod : 0 ≤ (c - 2) * (p.header.sectorsPerCluster : Int) :=
    Int.mul_nonneg (by omega) (Int.natCast_nonneg _)
  have hstart : clusterStart p c
      = (p.rootDirectory.endingSectorPos + (c - 2) * p.header.sectorsPerCluster) * 512 := rfl
  constructor
  · intro h
    obtain ⟨r, hr⟩ := h.sought 0
    rw [seekCluster_run hpos hc] at hr
    have hq : cint (clusterStart p c + (o % clusterBytes p : Nat))
        = clusterStart p c + (o % clusterBytes p : Nat) := Option.some.inj (ok_inj hr).2
    rw [← hq]
    exact (cint_range _).2
  · intro hlt
    have hsector : fat16ClusterToSector p c
        = p.rootDirectory.endingSectorPos + (c - 2) * p.header.sectorsPerCluster :=
      cint_of_range (by omega) (by omega)
    refine ⟨fun total => ⟨(- EIO, []), ?_⟩, cint_of_range (by omega) (by omega), hsector, ?_, ?_, ?_⟩
    · rw [seekCluster_run hpos hc, cint_of_range (by omega) hlt]
    · rw [hsector]
      dsimp only [sectorSize]
      exact cint_of_range (by omega) (by omega)
    · exact Int.tdiv_nonneg (by omega) (by decide)
    · exact Int.tmod_nonneg _ (by omega)

end

/-- the byte of a cluster, by the sector that the driver puts cluster 2 at -/
theorem clusterStart_sectors {disk : Disk} {p : FatPrivate} (hheader : p.header = bootHeader disk)
    (hending : p.rootDirectory.endingSectorPos = endingSector (bootHeader disk)) (c : Int) (o : Nat) :
    clusterStart p c + (o % clusterBytes p : Nat)
      = bytePosition (bootHeader disk) (endingSector (bootHeader disk)) c o := by
  unfold clusterStart clusterBytes bytePosition
  rw [hheader, hending]

/-- the data area begins behind the last record, and so one sector later unless the records fill
their sectors -/
theorem dataSector_eq (h : FatHeader) :
    dataSector h = endingSector h + if h.rootDirEntries % 16 = 0 then 0 else 1 := by
  unfold dataSector endingSector
  dsimp only [fatDirectoryItemSize, sectorSize]
  split <;> omega

/-- **The position of a cluster.**  On an accepted volume the position sought for a byte of a cluster
is exact when it lies below 2 GiB, and only then; it is the position that the FAT layout has for the
byte when the records of the root directory fill their sectors besides. -/
theorem seek_exact_iff {disk : Disk} {m m' : Machine} {p : FatPrivate}
    (h : fat16Resolve disk m = .ok ((0, some p), m')) (hspc : 0 < (bootHeader disk).sectorsPerCluster)
    {c : Int} (hc : 2 ≤ c) (o : Nat) :
    (SeeksExactly p c o (bytePosition (bootHeader disk) (endingSector (bootHeader disk)) c o) ↔
      bytePosition (bootHeader disk) (endingSector (bootHeader disk)) c o < 2147483648) ∧
    (SeeksExactly p c o (bytePosition (bootHeader disk) (dataSector (bootHeader disk)) c o) ↔
      (bootHeader disk).rootDirEntries % 16 = 0 ∧
        bytePosition (bootHeader disk) (dataSector (bootHeader disk)) c o < 2147483648) := by
  obtain ⟨hheader, -, hending⟩ := fat16Resolve_sectors h
  have hpos : 0 < clusterBytes p := by
    unfold clusterBytes
    rw [hheader]
    omega
  have hdriver := seeksExactly_start (o := o) hpos hc (by rw [hending]; omega)
  rw [clusterStart_sectors hheader hending] at hdriver
  refine ⟨hdriver, ?_⟩
  by_cases hfull : (bootHeader disk).rootDirEntries % 16 = 0
  · have hdata : dataSector (bootHeader disk) = endingSector (bootHeader disk) := by
      rw [dataSector_eq, if_pos hfull, Nat.add_zero]
    rw [hdata, hdriver, and_iff_right hfull]
  · refine iff_of_false (fun hex => ?_) (fun hall => hfull hall.1)
    -- the two positions are a sector apart, and one of them modulo 2 ^ 32 is the one sought
    have hdata : dataSector (bootHeader disk) = endingSector (bootHeader disk) + 1 := by
      rw [dataSector_eq, if_neg hfull]
    have hnext : bytePosition (bootHeader disk) (dataSector (bootHeader disk)) c o
        = bytePosition (bootHeader disk) (endingSector (bootHeader disk)) c o + 512 := by
      unfold bytePosition
      rw [hdata]
      push_cast
      ring
    obtain ⟨r, hr⟩ := hex.sought 0
    rw [seekCluster_run hpos hc, clusterStart_sectors hheader hending, hnext] at hr
    have hq : cint (bytePosition (bootHeader disk) (endingSector (bootHeader disk)) c o)
        = bytePosition (bootHeader disk) (endingSector (bootHeader disk)) c o + 512 :=
      Option.some.inj (ok_inj hr).2
    unfold cint at hq
    rw [Int.bmod_def] at hq
    split at hq <;> omega

/-- the header of the boot sector that the system is built with -/
def bootHeaderBytes : List UInt8 :=
  [0xEB, 0x3C, 0x90, 76, 65, 77, 69, 79, 83, 32, 32, 0x00, 0x02, 0x80, 200, 0, 0x02, 0x40, 0x00, 0x00,
    0x00, 0xF8, 0x00, 0x01, 0x20, 0x00, 0x40, 0x00, 0x00, 0x00, 0x00, 0x00, 0x94, 0x35, 0x77, 0x00,
    0x80, 0x00, 0x29, 0x05, 0xD1, 0x00, 0x00, 76, 65, 77, 69, 79, 83, 32, 66, 79, 79, 84,
    70, 65, 84, 49, 54, 32, 32, 32]

/-- a disk with that header, and nothing else -/
def lameosDisk : Disk := fun i => bootHeaderBytes.getD i 0

theorem lameosDisk_accepted : ∃ p m, fat16Resolve lameosDisk emptyMachine = .ok ((0, some p), m) :=
  accepted_of_isSome (by decide +kernel)

theorem seek_exact_iff_second : ∃ p m, fat16Resolve lameosDisk emptyMachine = .ok ((0, some p), m) ∧
    SeeksExactly p 2 700 ((716 * 512 + 700 : Nat) : Int) := by
  obtain ⟨p, m, h⟩ := lameosDisk_accepted
  exact ⟨p, m, h, (seek_exact_iff h (by decide +kernel) (le_refl 2) 700).1.mpr (by decide +kernel)⟩

/-- cluster 32765 of the volume that the system is built for -/
theorem high_cluster_wraps : ∃ p m, fat16Resolve lameosDisk emptyMachine = .ok ((0, some p), m) ∧
    bytePosition (bootHeader lameosDisk) (dataSector (bootHeader lameosDisk)) 32765 0 = 2147522560 ∧
    2147522560 + clusterBytes p ≤ volumeSectors lameosDisk * 512 ∧
    (∃ r, seekCluster p 32765 0 1 none = .ok (r, some (-2147444736))) ∧
    ¬ SeeksExactly p 32765 0
      (bytePosition (bootHeader lameosDisk) (dataSector (bootHeader lameosDisk)) 32765 0) := by
  obtain ⟨p, m, h⟩ := lameosDisk_accepted
  obtain ⟨hheader, -, hending⟩ := fat16Resolve_sectors h
  have hbytes : clusterBytes p = 65536 := by
    unfold clusterBytes
    rw [hheader]
    decide +kernel
  have hplace : bytePosition (bootHeader lameosDisk) (endingSector (bootHeader lameosDisk)) 32765 0
      = 2147522560 := by decide +kernel
  have hdata : dataSector (bootHeader lameosDisk) = endingSector (bootHeader lameosDisk) := by
    decide +kernel
  have hrun : ∀ total, seekCluster p 32765 (0 : Nat) total none
      = .ok ((- EIO, []), some (-2147444736)) := by
    intro total
    rw [seekCluster_run (by omega) (by decide), clusterStart_sectors hheader hending, hplace]
    decide +kernel
  refine ⟨p, m, h, by rw [hdata, hplace], ?_, ⟨_, hrun 1⟩, fun hex => ?_⟩
  · rw [hbytes]
    decide +kernel
  · obtain ⟨r, hr⟩ := hex.sought 0
    rw [hrun, hdata, hplace] at hr
    cases hr

/-! ## the order of the parts -/

/-- the sectors of cluster `c` -/
def clusterSectors (p : FatPrivate) (c : Int) : Set Int :=
  Set.Ico (fat16ClusterToSector p c) (fat16ClusterToSector p c + p.header.sectorsPerCluster)

/-- the tables end where the root directory starts, its records end before cluster 2, and no two of the
clusters up to `bound` overlap -/
structure LaidOut (p : FatPrivate) (bound : Int) : Prop where
  tables : ((fat16GetFirstFatSector p + p.header.fatCopies * p.header.sectorsPerFat : Nat) : Int)
    = p.rootDirectory.sectorPos
  records : p.rootDirectory.sectorPos * sectorSize + (p.header.rootDirEntries * fatDirectoryItemSize : Nat)
    ≤ fat16ClusterToSector p 2 * sectorSize
  apart : ∀ c d, 2 ≤ c → c < bound → 2 ≤ d → d < bound → c ≠ d →
    Disjoint (clusterSectors p c) (clusterSectors p d)

section
variable {p : FatPrivate}

/-- two clusters lie apart when one ends before the other starts -/
theorem clusterSectors_disjoint {c d : Int}
    (h : fat16ClusterToSector p c + p.header.sectorsPerCluster ≤ fat16ClusterToSector p d ∨
      fat16ClusterToSector p d + p.header.sectorsPerCluster ≤ fat16ClusterToSector p c) :
    Disjoint (clusterSectors p c) (clusterSectors p d) := by
  unfold clusterSectors
  rw [Set.Ico_disjoint_Ico]
  omega

/-- of two clusters whose sectors have 31 bits, the lower one ends before the other starts -/
theorem clusters_apart {bound : Int} (hending : 0 ≤ p.rootDirectory.endingSectorPos)
    (hlow : p.rootDirectory.endingSectorPos + (bound - 2) * p.header.sectorsPerCluster < 2147483648)
    {c d : Int} (hc : 2 ≤ c) (hcb : c < bound) (hd : 2 ≤ d) (hdb : d < bound) (hne : c ≠ d) :
    Disjoint (clusterSectors p c) (clusterSectors p d) := by
  have hsector : ∀ x : Int, 2 ≤ x → x < bound → fat16ClusterToSector p x
      = p.rootDirectory.endingSectorPos + (x - 2) * p.header.sectorsPerCluster := by
    intro x h2 hx
    have h0 : 0 ≤ (x - 2) * (p.header.sectorsPerCluster : Int) :=
      Int.mul_nonneg (by omega) (Int.natCast_nonneg _)
    have hle : (x - 2) * (p.header.sectorsPerCluster : Int) ≤ (bound - 2) * p.header.sectorsPerCluster :=
      Int.mul_le_mul_of_nonneg_right (by omega) (Int.natCast_nonneg _)
    exact cint_of_range (by omega) (by omega)
  have hnext : ∀ x y : Int, x < y → (x - 2) * (p.header.sectorsPerCluster : Int)
      + p.header.sectorsPerCluster ≤ (y - 2) * p.header.sectorsPerCluster := by
    intro x y hxy
    have hle : (x - 2 + 1) * (p.header.sectorsPerCluster : Int) ≤ (y - 2) * p.header.sectorsPerCluster :=
      Int.mul_le_mul_of_nonneg_right (by omega) (Int.natCast_nonneg _)
    rw [Int.add_mul, Int.one_mul] at hle
    exact hle
  apply clusterSectors_disjoint
  rw [hsector c hc hcb, hsector d hd hdb]
  rcases lt_or_gt_of_ne hne with hlt | hgt
  · have := hnext c d hlt
    omega
  · have := hnext d c hgt
    omega

/-- the sectors of clusters of at most two sectors do not come back to where they were -/
theorem short_clusters_apart (hspc : p.header.sectorsPerCluster ≤ 2) {c d : Int} (hc : 2 ≤ c)
    (hcb : c < 2147483648) (hd : 2 ≤ d) (hdb : d < 2147483648) (hne : c ≠ d) :
    Disjoint (clusterSectors p c) (clusterSectors p d) := by
  have hsizes : p.header.sectorsPerCluster = 0 ∨ p.header.sectorsPerCluster = 1
      ∨ p.header.sectorsPerCluster = 2 := by omega
  apply clusterSectors_disjoint
  unfold fat16ClusterToSector cint
  rw [Int.bmod_def, Int.bmod_def]
  rcases hsizes with h0 | h1 | h2
  · rw [h0]
    omega
  · rw [h1]
    split <;> split <;> omega
  · rw [h2]
    split <;> split <;> omega

/-- clusters of three sectors and more come back to cluster 2 -/
theorem long_clusters_meet (h0 : 0 ≤ p.rootDirectory.endingSectorPos)
    (h1 : p.rootDirectory.endingSectorPos < 1073741824) (hspc : 3 ≤ p.header.sectorsPerCluster)
    (hbyte : p.header.sectorsPerCluster < 256) : ∃ d : Int, 2 < d ∧ d < 2147483648 ∧
      ¬ Disjoint (clusterSectors p 2) (clusterSectors p d) := by
  obtain ⟨n, hn⟩ : ∃ n, n = p.header.sectorsPerCluster := ⟨_, rfl⟩
  rw [← hn] at hspc hbyte
  -- the first multiple of the size of a cluster from 2 ^ 32 on
  obtain ⟨k, hk⟩ : ∃ k, k = (4294967296 + (n - 1)) / n := ⟨_, rfl⟩
  have hdm := Nat.div_add_mod (4294967296 + (n - 1)) n
  have hmod := Nat.mod_lt (4294967296 + (n - 1)) (by omega : 0 < n)
  rw [← hk] at hdm
  have hkle : k ≤ 4294967551 / 3 := by
    rw [hk]
    exact le_trans (Nat.div_le_div_left hspc (by decide)) (Nat.div_le_div_right (by omega))
  have hk1 : 1 ≤ k := by
    rw [hk]
    exact Nat.div_pos (by omega) (by omega)
  have hsecond : fat16ClusterToSector p 2 = p.rootDirectory.endingSectorPos := by
    unfold fat16ClusterToSector
    rw [Int.sub_self, Int.zero_mul, Int.add_zero]
    exact cint_of_range (by omega) (by omega)
  have hmeet : fat16ClusterToSector p (2 + k : Int)
      = p.rootDirectory.endingSectorPos + ((n * k : Nat) : Int) - 4294967296 := by
    have hprod : (2 + (k : Int) - 2) * (n : Int) = ((n * k : Nat) : Int) := by
      push_cast
      ring
    unfold fat16ClusterToSector cint
    rw [← hn, hprod, Int.bmod_def]
    split <;> omega
  refine ⟨2 + k, by omega, by omega, ?_⟩
  rw [Set.not_disjoint_iff]
  refine ⟨fat16ClusterToSector p (2 + k : Int), ?_, ?_⟩
  · unfold clusterSectors
    rw [Set.mem_Ico, hsecond, hmeet, ← hn]
    omega
  · unfold clusterSectors
    rw [Set.mem_Ico, ← hn]
    omega

end

section
variable {disk : Disk} {m m' : Machine} {p : FatPrivate}

/-- the tables and the records, of an accepted volume -/
theorem records_before_clusters_iff (h : fat16Resolve disk m = .ok ((0, some p), m')) :
    p.rootDirectory.sectorPos * sectorSize + (p.header.rootDirEntries * fatDirectoryItemSize : Nat)
      ≤ fat16ClusterToSector p 2 * sectorSize ↔ (bootHeader disk).rootDirEntries % 16 = 0 := by
  obtain ⟨hheader, hsector, hending⟩ := fat16Resolve_sectors h
  have hlt : endingSector (bootHeader disk) < 16842752 := endingSector_lt _
  have hsecond : fat16ClusterToSector p 2 = endingSector (bootHeader disk) := by
    unfold fat16ClusterToSector
    rw [Int.sub_self, Int.zero_mul, Int.add_zero, hending]
    exact cint_nat (by omega)
  rw [hsecond, hsector, hheader]
  unfold endingSector
  dsimp only [fatDirectoryItemSize, sectorSize]
  omega

/-- **The parts of a volume.**  On an accepted volume the tables, the records of the root directory and
the clusters that a table entry can name follow each other without an overlap exactly when the records
fill their sectors; over every cluster of an `int`, exactly when a cluster has at most two sectors
besides. -/
theorem laid_out_iff (h : fat16Resolve disk m = .ok ((0, some p), m')) :
    (LaidOut p 65536 ↔ (bootHeader disk).rootDirEntries % 16 = 0) ∧
    (LaidOut p 2147483648 ↔
      (bootHeader disk).rootDirEntries % 16 = 0 ∧ (bootHeader disk).sectorsPerCluster ≤ 2) := by
  obtain ⟨hheader, hsector, hending⟩ := fat16Resolve_sectors h
  have hlt : endingSector (bootHeader disk) < 16842752 := endingSector_lt _
  have hspc : (bootHeader disk).sectorsPerCluster < 256 := sectorsPerCluster_lt _
  have htables : ((fat16GetFirstFatSector p + p.header.fatCopies * p.header.sectorsPerFat : Nat) : Int)
      = p.rootDirectory.sectorPos := by
    rw [hsector, ← hheader]
    exact congrArg Nat.cast (Nat.add_comm _ _)
  have hrecords := records_before_clusters_iff h
  constructor
  · constructor
    · intro hall
      exact hrecords.mp hall.records
    · intro hfull
      refine ⟨htables, hrecords.mpr hfull, fun c d hc hcb hd hdb hne => ?_⟩
      refine clusters_apart (by omega) ?_ hc hcb hd hdb hne
      rw [hending, hheader]
      omega
  · constructor
    · intro hall
      refine ⟨hrecords.mp hall.records, ?_⟩
      by_contra hlong
      obtain ⟨d, hd, hdb, hmeet⟩ := long_clusters_meet (p := p) (by omega) (by omega)
        (by rw [hheader]; omega) (by rw [hheader]; omega)
      exact hmeet (hall.apart 2 d (le_refl 2) (by decide) hd.le hdb hd.ne)
    · rintro ⟨hfull, hshort⟩
      refine ⟨htables, hrecords.mpr hfull, fun c d hc hcb hd hdb hne => ?_⟩
      exact short_clusters_apart (by rw [hheader]; exact hshort) hc hcb hd hdb hne

end

theorem laid_out_iff_boot : ∃ p m, fat16Resolve lameosDisk emptyMachine = .ok ((0, some p), m) ∧
    LaidOut p 65536 := by
  obtain ⟨p, m, h⟩ := lameosDisk_accepted
  exact ⟨p, m, h, (laid_out_iff h).1.mpr (by decide +kernel)⟩

/-- a boot sector with seventeen entries in the root directory -/
def unevenDisk : Disk := fun i => if i = 17 then 17 else bootDisk 1 i

/-- the last record lies in cluster 2 -/
theorem uneven_root_overlaps : ∃ p m, fat16Resolve unevenDisk emptyMachine = .ok ((0, some p), m) ∧
    p.header.rootDirEntries = 17 ∧ p.rootDirectory.sectorPos = 2 ∧ fat16ClusterToSector p 2 = 3 ∧
    ¬ LaidOut p 65536 := by
  obtain ⟨p, m, h⟩ := accepted_of_isSome (r := fat16Resolve unevenDisk emptyMachine) (by decide +kernel)
  obtain ⟨hheader, hsector, hending⟩ := fat16Resolve_sectors h
  have hentries : p.header.rootDirEntries = 17 := by
    rw [hheader]
    decide +kernel
  have hstart : p.rootDirectory.sectorPos = 2 := by
    rw [hsector]
    decide +kernel
  have hsecond : fat16ClusterToSector p 2 = 3 := by
    have h3 : p.rootDirectory.endingSectorPos = 3 := by
      rw [hending]
      decide +kernel
    unfold fat16ClusterToSector
    rw [h3, Int.sub_self, Int.zero_mul]
    decide
  refine ⟨p, m, h, hentries, hstart, hsecond, fun hall => ?_⟩
  have hover := hall.records
  rw [hentries, hstart, hsecond] at hover
  exact absurd hover (by decide)

/-! ## the entries of the first table -/

/-- the two bytes at `q` are what the lookup for cluster `c` returns, on every disk -/
def ReadsEntryAt (h : FatHeader) (c q : Nat) : Prop :=
  ∀ (disk : Disk) (s : FatState), s.fatPrivate.header = h →
    Does (fat16GetFatEntry disk c) s (fun r s' => r = bytes16 (diskBytes disk q 2) 0)

/-- the lookup for cluster `c` reads its entry in the first table -/
structure ReadsEntry (h : FatHeader) (c : Nat) : Prop where
  entry : ReadsEntryAt h c (h.reservedSectors * 512 + 2 * c)
  inside : h.reservedSectors * 512 + 2 * c + 2 ≤ (h.reservedSectors + h.sectorsPerFat) * 512

/-- the lookups for `c` and `d` read no byte both -/
def EntriesApart (h : FatHeader) (c d : Nat) : Prop :=
  ∃ q r, ReadsEntryAt h c q ∧ ReadsEntryAt h d r ∧ (q + 2 ≤ r ∨ r + 2 ≤ q)

/-- the place of the bytes that the lookup for cluster `c` reads -/
def entryPlace (h : FatHeader) (c : Nat) : Nat := cuint ((lookupPos h c).tdiv sectorSize) * sectorSize

/-- a disk whose one byte that is not zero is at `a` -/
def spikeDisk (a : Nat) : Disk := fun i => if i = a then 1 else 0

theorem spike_word (a q : Nat) : bytes16 (diskBytes (spikeDisk a) q 2) 0 = 1 ↔ q = a := by
  have h0 : (diskBytes (spikeDisk a) q 2).getD 0 0 = spikeDisk a q := diskBytes_getD _ _ _ (by decide)
  have h1 : (diskBytes (spikeDisk a) q 2).getD (0 + 1) 0 = spikeDisk a (q + 1) :=
    diskBytes_getD _ _ _ (by decide)
  unfold bytes16
  rw [h0, h1]
  unfold spikeDisk
  constructor
  · intro h
    by_contra hne
    rw [if_neg hne] at h
    split at h
    · exact absurd h (by decide)
    · exact absurd h (by decide)
  · rintro rfl
    rw [if_pos rfl, if_neg (by omega)]
    rfl

/-- some disk tells the place that is read from every other one -/
theorem readsEntryAt_iff (h : FatHeader) (c q : Nat) : ReadsEntryAt h c q ↔ q = entryPlace h c := by
  constructor
  · intro hall
    obtain ⟨t, ht⟩ : ∃ t : FatState, t.fatPrivate.header = h :=
      ⟨⟨emptyMachine, ⟨0, h, ⟨0, 0, .ofBytes 0 [], 0, 0, 0⟩, ⟨0, 0⟩, ⟨0, 0⟩, ⟨0, 0⟩⟩⟩, rfl⟩
    obtain ⟨r, s', hrun, hr⟩ := hall (spikeDisk (entryPlace h c)) t ht
    obtain ⟨r', s'', hrun', hr', -⟩ := fat16GetFatEntry_run (spikeDisk (entryPlace h c))
      (p := t.fatPrivate) ⟨rfl, rfl⟩ (c : Nat)
    obtain ⟨rfl, -⟩ := run_unique hrun hrun'
    have hplace : lookedUp (spikeDisk (entryPlace h c)) t.fatPrivate.header c = 1 := by
      rw [ht]
      exact (spike_word _ _).mpr rfl
    rw [hr', hplace] at hr
    exact (spike_word _ _).mp (Int.natCast_inj.mp hr.symm)
  · intro hq disk s hs
    rw [hq]
    obtain ⟨r, s', hrun, hr, -⟩ := fat16GetFatEntry_run disk (p := s.fatPrivate) ⟨rfl, rfl⟩ (c : Nat)
    refine ⟨r, s', hrun, ?_⟩
    rw [hr, hs]
    rfl

/-- the product of the table's position and the entry's, that the code seeks -/
theorem entryPlace_eq (h : FatHeader) (c : Nat) :
    entryPlace h c = 1024 * (h.reservedSectors * c) % 4294967296
        + if 1024 * (h.reservedSectors * c) % 4294967296 < 2147483648 then 0 else 2194728288256 := by
  have hprod : ((h.reservedSectors * sectorSize : Nat) : Int) * ((c : Int) * 2)
      = ((1024 * (h.reservedSectors * c) : Nat) : Int) := by
    dsimp only [sectorSize]
    push_cast
    ring
  have hsector : (lookupPos h c).tdiv sectorSize = lookupPos h c / 512 :=
    Int.tdiv_eq_ediv_of_dvd (Int.dvd_of_tmod_eq_zero (lookupPos_sector h c))
  unfold entryPlace
  rw [hsector]
  unfold lookupPos
  rw [hprod]
  generalize h.reservedSectors * c = x
  unfold cuint cint
  dsimp only [sectorSize]
  rw [Int.bmod_def]
  split <;> split <;> omega

/-- a lookup reads the entry when the product comes out at its place -/
theorem readsEntry_iff {bs : List UInt8} {c : Nat} (hc : c < (fatHeader bs).sectorsPerFat * 256) :
    ReadsEntry (fatHeader bs) c ↔ 1024 * ((fatHeader bs).reservedSectors * c) % 4294967296
      = (fatHeader bs).reservedSectors * 512 + 2 * c := by
  have hreserved : (fatHeader bs).reservedSectors < 65536 := bytes16_lt bs 14
  have hspf : (fatHeader bs).sectorsPerFat < 65536 := bytes16_lt bs 22
  have hplace := entryPlace_eq (fatHeader bs) c
  constructor
  · intro hread
    have hq := (readsEntryAt_iff _ _ _).mp hread.entry
    rw [hplace] at hq
    split at hq <;> omega
  · intro hprod
    refine ⟨(readsEntryAt_iff _ _ _).mpr ?_, by omega⟩
    rw [hplace, if_pos (by omega), hprod, Nat.add_zero]

/-- a lookup reads at the start of a sector, so that two of them read all bytes both or none -/
theorem entriesApart_iff (h : FatHeader) (c d : Nat) : EntriesApart h c d ↔
    h.reservedSectors * c % 4194304 ≠ h.reservedSectors * d % 4194304 := by
  have hc := entryPlace_eq h c
  have hd := entryPlace_eq h d
  generalize h.reservedSectors * c = x at hc ⊢
  generalize h.reservedSectors * d = y at hd ⊢
  constructor
  · rintro ⟨q, r, hq, hr, hapart⟩
    rw [readsEntryAt_iff, hc] at hq
    rw [readsEntryAt_iff, hd] at hr
    intro heq
    have hsame : 1024 * x % 4294967296 = 1024 * y % 4294967296 := by omega
    rw [hsame] at hq
    omega
  · intro hne
    refine ⟨_, _, (readsEntryAt_iff h c _).mpr rfl, (readsEntryAt_iff h d _).mpr rfl, ?_⟩
    rw [hc, hd]
    split <;> split <;> omega

/-- **The entries of the first table.**  The lookup for a cluster reads its entry exactly when the
product of the table's position and twice the cluster is, as a `uint32_t`, their sum; two lookups read
different bytes exactly when the products by the reserved sectors differ in the low 22 bits; and no
table with a sector is read right for every cluster. -/
theorem entry_read_iff (bs : List UInt8) :
    (∀ c < (fatHeader bs).sectorsPerFat * 256, ReadsEntry (fatHeader bs) c ↔
      1024 * ((fatHeader bs).reservedSectors * c) % 4294967296
        = (fatHeader bs).reservedSectors * 512 + 2 * c) ∧
    (∀ c < (fatHeader bs).sectorsPerFat * 256, ∀ d < (fatHeader bs).sectorsPerFat * 256, c ≠ d →
      (EntriesApart (fatHeader bs) c d ↔ (fatHeader bs).reservedSectors * c % 4194304
        ≠ (fatHeader bs).reservedSectors * d % 4194304)) ∧
    ((∀ c < (fatHeader bs).sectorsPerFat * 256, ReadsEntry (fatHeader bs) c) ↔
      (fatHeader bs).sectorsPerFat = 0) := by
  refine ⟨fun c hc => readsEntry_iff hc, fun c _ d _ _ => entriesApart_iff _ c d, ?_, ?_⟩
  · intro hall
    by_contra hne
    -- the lookup for cluster 0 needs a table at the start of the disk, and then cluster 1 has its entry
    have h0 := (readsEntry_iff (by omega)).mp (hall 0 (by omega))
    have h1 := (readsEntry_iff (by omega)).mp (hall 1 (by omega))
    rw [Nat.mul_zero] at h0
    rw [Nat.mul_one] at h1
    omega
  · intro h0 c hc
    omega

/-- entry 0 of a table of one sector at the start of the disk -/
theorem entry_read_iff_origin : ReadsEntry (fatHeader (List.replicate 22 0 ++ [1])) 0 :=
  ((entry_read_iff (List.replicate 22 0 ++ [1])).1 0 (by decide)).mpr (by decide)

/-- the lookup for cluster 2 on the volume that the system is built for -/
theorem second_entry_missed : 2 < (bootHeader lameosDisk).sectorsPerFat * 256 ∧
    ReadsEntryAt (bootHeader lameosDisk) 2 409600 ∧
    (bootHeader lameosDisk).reservedSectors * 512 + 2 * 2 = 102404 ∧
    ¬ ReadsEntry (bootHeader lameosDisk) 2 := by
  have hplace : entryPlace (bootHeader lameosDisk) 2 = 409600 := by
    rw [entryPlace_eq]
    decide +kernel
  have hentry : (bootHeader lameosDisk).reservedSectors * 512 + 2 * 2 = 102404 := by decide +kernel
  refine ⟨by decide +kernel, (readsEntryAt_iff _ _ _).mpr hplace.symm, hentry, fun hread => ?_⟩
  have hq := (readsEntryAt_iff _ _ _).mp hread.entry
  rw [hplace, hentry] at hq
  exact absurd hq (by decide)

end LameOS
