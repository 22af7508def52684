import LameOS.Fs.DirectoryEntry
import LameOS.Fs.FollowedRead
import LameOS.Fs.Mount
import LameOS.Fs.RootScan
import LameOS.Memory.FirstFit

/-!
# The load of a subdirectory

`fat16_load_fat_directory` frees the directory when its records get no blocks or a lookup of the read
fails, and returns it all the same.

* `LiveDirectory`, `FromChain`, `LoadsOrNull`   what a load owes: the records of the subdirectory's
                          chain in memory of its own, or `NULL` and nothing taken;
* `loadRecords`           the load behind the scan;
* `loadRecords_loads`, `loadRecords_frees`   it keeps the directory, or frees it and returns it;
* `load_directory_iff`    **a load returns no freed directory exactly when there is room for the
                          records and no lookup fails.**
-/

set_option linter.unusedVariables false

namespace LameOS
open Lib Lib.Exec

/-! ## what a load owes -/

/-- over the allocations `L`, the directory has its block, and its records, if there are any, an
allocation that holds them -/
def LiveDirectory (L : List Run) (m : Machine) (d : FatDirectory) : Prop :=
  ∃ b, d.addr = blockAddr b ∧ (d.total = 0 ∧ m.Holds (oneBlock b :: L) ∨
    ∃ r, d.item = runAddr r ∧ d.total * fatDirectoryItemSize ≤ r.len * 4096 ∧
      m.Holds (r :: oneBlock b :: L))

/-- the first `n` bytes of the chain of the subdirectory -/
def FromChain (disk : Disk) (h : FatHeader) (rec : FatDirectoryItem) (n : Nat) (f : Nat → UInt8) : Prop :=
  n = 0 ∨ ∃ first chain, rec.low16BitsFirstCluster = .ok first ∧ DiskChain disk h first chain ∧
    n ≤ chain.length * (h.sectorsPerCluster * 512) ∧
    ∀ i < n, f i = (chain.flatMap (clusterData disk h)).getD i 0

/-- all `total` records of the directory are those of the chain -/
def HasRecords (disk : Disk) (h : FatHeader) (rec : FatDirectoryItem) (d : FatDirectory) : Prop :=
  ∃ n : Nat, d.total = n ∧ d.buffer.size = n * fatDirectoryItemSize ∧
    FromChain disk h rec (n * fatDirectoryItemSize) d.buffer.bytes

/-- the load returns a live directory with the records of the chain, or `NULL` with the heap as it was -/
def LoadsOrNull (disk : Disk) (rec : FatDirectoryItem) (s : FatState) (L : List Run) : Prop :=
  ∃ r s', fat16LoadFatDirectory disk rec s = .ok (r, s') ∧
    (r = none → SameHeap s.machine s'.machine) ∧
    ∀ d, r = some d → LiveDirectory L s'.machine d ∧ HasRecords disk s.fatPrivate.header rec d

/-- the bytes of the records that the scan counts, with the first zero at record `k` -/
def scannedSize (disk : Disk) (p : FatPrivate) (first k : Nat) : Nat :=
  usedRecords disk (clusterSeek p first) k * fatDirectoryItemSize

/-- the records of the subdirectory can be loaded: the scan from its first cluster on meets a zero, at
record `k`, there is room for the records behind one block, the clusters have a sector, no lookup on the
way to the records ends the walk, and the clusters that the lookups lead to hold what the chain has -/
structure LoadableDirectory (disk : Disk) (p : FatPrivate) (t : HeapTable) (rec : FatDirectoryItem)
    (first k : Nat) : Prop where
  start : fat16GetFirstCluster rec = .ok first
  near : k < maxItems
  ends : ScanEnds disk (clusterSeek p first) k
  cluster : 0 < clusterBytes p
  room : RoomBehind t 1 (scannedSize disk p first k)
  lookups : LookupsGoOn p disk first (scannedSize disk p first k)
  bytes : FromChain disk p.header rec (scannedSize disk p first k) (followedByte p disk first)

/-! ## the load behind the scan -/

/-- `fat16LoadFatDirectory` with its block at `addr`, after it has counted the records -/
def loadRecords (disk : Disk) (addr first : Nat) (totalItems : Int) :
    Prog FatState (Option FatDirectory) := do
  let directorySize := cint (totalItems * fatDirectoryItemSize)
  let dir ← onHeap (kzalloc (cuint directorySize))
  let directory : FatDirectory := ⟨addr, dir, .ofBytes (cuint directorySize) [], totalItems, 0, 0⟩
  if dir = 0 then
    fat16FreeDirectory directory
    return some directory
  else
    let (res, bytes) ← fat16ReadInternal disk first 0 directorySize
    let directory := { directory with buffer := .ofBytes (cuint directorySize) bytes }
    onlyIf (res ≠ OK) (fat16FreeDirectory directory)
    return some directory

section
variable {disk : Disk} {rec : FatDirectoryItem} {s s' : FatState} {L : List Run}

/-- a load that gets its block -/
theorem load_begins (disk : Disk) (hh : s.machine.Holds L) (hsub : Subdirectory rec) {first : Nat}
    (hfirst : fat16GetFirstCluster rec = .ok first) (hfree : 0 < freeBlocks s.machine.heap.table) :
    ∃ b m, m.Holds (oneBlock b :: L) ∧ FirstTaken s.machine.heap.table 1 m.heap.table ∧
      fat16LoadFatDirectory disk rec s = (fat16GetTotalItemsForDirectory disk
          (cuint (fat16ClusterToSector s.fatPrivate first)) >>= loadRecords disk (blockAddr b) first)
        ⟨m, s.fatPrivate⟩ := by
  obtain ⟨c, hattr, hc⟩ := hsub
  obtain ⟨b, m, hk, hm, htaken⟩ := kzalloc_next hh (FirstTaken.refl _) hfree
    (by decide : 1 ≤ fatDirectorySize) (by decide)
  have hk : onHeap (kzalloc fatDirectorySize) s = .ok (blockAddr b, ⟨m, s.fatPrivate⟩) := part_ok hk
  have hattr : (liftM rec.attributes : Prog FatState UInt8) s = .ok (c, s) := by
    rw [hattr]
    rfl
  have hfirst : (liftM (fat16GetFirstCluster rec) : Prog FatState Nat) ⟨m, s.fatPrivate⟩
      = .ok (first, ⟨m, s.fatPrivate⟩) := by
    rw [hfirst]
    rfl
  refine ⟨b, m, hm, htaken, ?_⟩
  unfold fat16LoadFatDirectory
  rw [bind_ok hattr, if_neg hc, bind_ok hk, if_neg blockAddr_ne, bind_ok hfirst, bind_ok (get_run _)]
  rfl

/-- a load that has no block -/
theorem load_null (hh : s.machine.Holds L) (hsub : Subdirectory rec)
    (hfree : freeBlocks s.machine.heap.table = 0) : fat16LoadFatDirectory disk rec s = .ok (none, s) := by
  obtain ⟨c, hattr, hc⟩ := hsub
  have hk : onHeap (kzalloc fatDirectorySize) s = .ok (0, s) :=
    part_ok (kzalloc_full hh (by decide) (by decide) hfree)
  have hattr : (liftM rec.attributes : Prog FatState UInt8) s = .ok (c, s) := by
    rw [hattr]
    rfl
  unfold fat16LoadFatDirectory
  rw [bind_ok hattr, if_neg hc, bind_ok hk, if_pos rfl]
  rfl

/-- a load for a record that is no subdirectory -/
theorem load_plain (hplain : PlainFile rec) : fat16LoadFatDirectory disk rec s = .ok (none, s) := by
  obtain ⟨c, hattr, hc⟩ := hplain
  have hattr : (liftM rec.attributes : Prog FatState UInt8) s = .ok (c, s) := by
    rw [hattr]
    rfl
  unfold fat16LoadFatDirectory
  rw [bind_ok hattr, if_pos hc]
  rfl

/-- the size of the records -/
theorem directorySize_nat {total : Nat} (ht : total ≤ 67108864) :
    cuint (cint ((total : Int) * fatDirectoryItemSize)) = total * fatDirectoryItemSize := by
  rw [cuint_cint, ← Nat.cast_mul]
  exact cuint_nat (by dsimp only [fatDirectoryItemSize]; omega)

theorem directorySize_int {total : Nat} (h : total * fatDirectoryItemSize < 2147483648) :
    cint ((total : Int) * fatDirectoryItemSize) = (total * fatDirectoryItemSize : Nat) := by
  rw [← Nat.cast_mul]
  exact cint_nat h

theorem records_sized {total : Nat} (ht : total ≤ 67108864) : Sized (total * fatDirectoryItemSize) := by
  unfold Sized
  dsimp only [fatDirectoryItemSize]
  omega

/-- the allocation of the records -/
theorem records_allocated {m m' : Machine} {b dir total : Nat} (hh : m.Holds (oneBlock b :: L))
    (ht : total ≤ 67108864) (hk : kzalloc (total * fatDirectoryItemSize) m = .ok (dir, m'))
    (hne : dir ≠ 0) : total * fatDirectoryItemSize < 2147483648 ∧
      (total = 0 ∧ m'.Holds (oneBlock b :: L) ∨
        ∃ r, dir = runAddr r ∧ total * fatDirectoryItemSize ≤ r.len * 4096 ∧
          m'.Holds (r :: oneBlock b :: L)) := by
  obtain ⟨N, hN, hh', -⟩ := kzalloc_owns (O := [oneBlock b]) (records_sized ht) m L dir m' hh hk
  rcases hN with ⟨r, hlen, hin, hdir, rfl⟩ | ⟨h0, -⟩ | ⟨-, rfl, h0⟩
  · have hsize := blocksFor_size (total * fatDirectoryItemSize)
    rw [← hlen] at hsize
    refine ⟨?_, Or.inr ⟨r, hdir, hsize, hh'⟩⟩
    dsimp only [heapBlocks] at hin
    omega
  · exact absurd h0 hne
  · dsimp only [fatDirectoryItemSize] at h0 ⊢
    exact ⟨by omega, Or.inl ⟨by omega, hh'⟩⟩

variable {p : FatPrivate} {b first total : Nat}

/-- **Records that get their blocks, and whose lookups go on, are loaded** -/
theorem loadRecords_loads (hs : OfVolume p s) (hh : s.machine.Holds (oneBlock b :: L))
    (ht : total ≤ 67108864) (hpos : 0 < clusterBytes p) {dir : Nat} {m : Machine}
    (hk : kzalloc (total * fatDirectoryItemSize) s.machine = .ok (dir, m)) (hne : dir ≠ 0)
    (hgo : LookupsGoOn p disk first (total * fatDirectoryItemSize)) : ∃ d s',
      loadRecords disk (blockAddr b) first total s = .ok (some d, s') ∧
        LiveDirectory L s'.machine d ∧ d.total = total ∧
        d.buffer = .ofBytes (total * fatDirectoryItemSize)
          (followedBytes p disk first 0 (total * fatDirectoryItemSize)) := by
  obtain ⟨hlow, hlive⟩ := records_allocated hh ht hk hne
  have hk : onHeap (kzalloc (total * fatDirectoryItemSize)) s = .ok (dir, { s with machine := m }) :=
    part_ok hk
  obtain ⟨bytes, s', hread, rfl, -⟩ := (fat16ReadInternal_start disk (s := { s with machine := m }) hs
    hpos first hlow).served hgo
  have hm : s'.machine = m := sameMachine_quiet.fat16ReadInternal disk _ _ _ _ _ _ hread
  refine ⟨⟨blockAddr b, dir, .ofBytes (total * fatDirectoryItemSize)
    (followedBytes p disk first 0 (total * fatDirectoryItemSize)), total, 0, 0⟩, s', ?_, ?_, rfl, rfl⟩
  · unfold loadRecords
    rw [directorySize_nat ht, bind_ok hk, if_neg hne, directorySize_int hlow, bind_ok hread]
    rfl
  · rw [← hm] at hlive
    refine ⟨b, rfl, hlive.imp (fun h => ⟨?_, h.2⟩) (fun h => ?_)⟩
    · exact Int.natCast_eq_zero.mpr h.1
    · obtain ⟨r, hdir, hle, hheld⟩ := h
      refine ⟨r, hdir, ?_, hheld⟩
      dsimp only [fatDirectoryItemSize] at hle ⊢
      omega

/-- what the load has of its own is released -/
theorem freeDirectory_holds {d : FatDirectory} {O : List Run} {u : Unit} (haddr : d.addr = blockAddr b)
    (h : (∃ r, d.item = runAddr r ∧ O = [r, oneBlock b]) ∨
      (Idle s.machine d.item ∧ O = [oneBlock b])) (hh : s.machine.Holds (O ++ L))
    (hrun : fat16FreeDirectory d s = .ok (u, s')) : s'.machine.Holds L := by
  obtain ⟨N, rfl, hh', -⟩ := fat16FreeDirectory_owns haddr s h L u s' hh hrun
  exact hh'

/-- **Records that are not loaded**: the directory is freed, and returned -/
theorem loadRecords_frees (hs : OfVolume p s) (hh : s.machine.Holds (oneBlock b :: L))
    (ht : total ≤ 67108864) {r : Option FatDirectory}
    (hrun : loadRecords disk (blockAddr b) first total s = .ok (r, s'))
    (hno : ¬ (0 < clusterBytes p ∧
      (∃ dir m, kzalloc (total * fatDirectoryItemSize) s.machine = .ok (dir, m) ∧ dir ≠ 0) ∧
      LookupsGoOn p disk first (total * fatDirectoryItemSize))) :
    (∃ d, r = some d ∧ d.addr = blockAddr b) ∧ s'.machine.Holds L := by
  unfold loadRecords at hrun
  rw [directorySize_nat ht] at hrun
  obtain ⟨dir, s1, halloc, hrun⟩ := bind_eq_ok hrun
  obtain ⟨m, hk, rfl⟩ := part_eq_ok halloc
  obtain ⟨O, hO, hheld, -⟩ := kzalloc_owns (O := [oneBlock b]) (records_sized ht) s.machine L dir m hh hk
  -- the records: an allocation, `NULL`, or a pointer to nothing
  have hdir : (∃ r, dir = runAddr r ∧ O = [r, oneBlock b]) ∨ (Idle m dir ∧ O = [oneBlock b]) := by
    rcases hO with ⟨r, -, -, hr, hN⟩ | ⟨h0, hN⟩ | ⟨hidle, hN, -⟩
    · exact Or.inl ⟨r, hr, hN⟩
    · exact Or.inr ⟨Or.inl h0, hN⟩
    · exact Or.inr ⟨hidle, hN⟩
  split at hrun
  · obtain ⟨u, s2, hfreed, hrun⟩ := bind_eq_ok hrun
    obtain ⟨rfl, rfl⟩ := pure_eq_ok hrun
    exact ⟨⟨_, rfl, rfl⟩, freeDirectory_holds (s := { s with machine := m }) rfl hdir hheld hfreed⟩
  · rename_i hne
    obtain ⟨⟨res, bytes⟩, s2, hread, hrun⟩ := bind_eq_ok hrun
    have hpos : 0 < clusterBytes p := by
      by_contra h0
      have hzero : sizeOfClusterBytes s.fatPrivate = 0 := by
        rw [hs.size]
        omega
      rw [fat16ReadInternal_divides disk (t := { s with machine := m }) hzero] at hread
      cases hread
    obtain ⟨hlow, -⟩ := records_allocated hh ht hk hne
    rw [directorySize_int hlow] at hread
    have hneg : res < 0 := (fat16ReadInternal_start disk (s := { s with machine := m }) hs hpos first
      hlow).refused (fun hgo => hno ⟨hpos, ⟨dir, m, hk, hne⟩, hgo⟩) _ s2 hread
    have hm : s2.machine = m := sameMachine_quiet.fat16ReadInternal disk _ _ _ _ _ _ hread
    rw [← hm] at hdir hheld
    obtain ⟨u, s3, hfreed, hrun⟩ := bind_eq_ok hrun
    obtain ⟨rfl, rfl⟩ := pure_eq_ok hrun
    have hbad : res ≠ OK := by
      unfold OK
      omega
    unfold onlyIf at hfreed
    rw [if_pos hbad] at hfreed
    exact ⟨⟨_, rfl, rfl⟩, freeDirectory_holds (s := s2) rfl hdir hheld hfreed⟩

/-! ## the load -/

/-- the scan begins where the driver seeks for the cluster -/
theorem scanStart_cluster (p : FatPrivate) (c : Int) :
    cint ((cuint (fat16ClusterToSector p c) : Int) * sectorSize) = clusterSeek p c := by
  unfold clusterSeek cuint cint sectorSize
  rw [Int.bmod_def, Int.bmod_def]
  split <;> split <;> omega

/-- the scan of a load: it returns only behind a zero, and goes on with the records counted -/
theorem load_scan (disk : Disk) (hh : s.machine.Holds L) (hsub : Subdirectory rec)
    (hfirst : fat16GetFirstCluster rec = .ok first) (hfree : 0 < freeBlocks s.machine.heap.table) :
    ∃ b m, m.Holds (oneBlock b :: L) ∧ FirstTaken s.machine.heap.table 1 m.heap.table ∧
      (∀ r s', fat16LoadFatDirectory disk rec s = .ok (r, s') →
        ∃ k < maxItems, ScanEnds disk (clusterSeek s.fatPrivate first) k) ∧
      ∀ k < maxItems, ScanEnds disk (clusterSeek s.fatPrivate first) k →
        usedRecords disk (clusterSeek s.fatPrivate first) k ≤ 67108864 ∧
        ∃ s1, OfVolume s.fatPrivate s1 ∧ s1.machine = m ∧
          fat16LoadFatDirectory disk rec s = loadRecords disk (blockAddr b) first
            (usedRecords disk (clusterSeek s.fatPrivate first) k) s1 := by
  obtain ⟨b, m, hm, htaken, heq⟩ := load_begins disk hh hsub hfirst hfree
  have halign : clusterSeek s.fatPrivate first % 32 = 0 := scanStart_aligned _
  obtain ⟨hcounts, hends⟩ := scanLoop_ends disk halign (clusterSeek_int _ _)
    s.fatPrivate.directoryStream maxItems
  refine ⟨b, m, hm, htaken, fun r s' hrun => ?_, fun k hk hzero => ?_⟩
  · rw [heq] at hrun
    obtain ⟨t, s1, hscan, -⟩ := bind_eq_ok hrun
    obtain ⟨stream, hloop, -⟩ := totalItems_stream hscan
    rw [scanStart_cluster] at hloop
    obtain ⟨k, hk, hzero, -⟩ := hends t stream hloop
    exact ⟨k, hk, hzero⟩
  · obtain ⟨stream, hloop⟩ := hcounts k hk hzero
    rw [← scanStart_cluster] at hloop
    have hscan := totalItems_run (s := ⟨m, s.fatPrivate⟩) hloop
    rw [scanStart_cluster] at hscan
    have hle := (totalItems_le hscan).2
    obtain ⟨s1, hscan, hs1, hm1⟩ : ∃ s1, fat16GetTotalItemsForDirectory disk
        (cuint (fat16ClusterToSector s.fatPrivate first)) ⟨m, s.fatPrivate⟩
          = .ok ((usedRecords disk (clusterSeek s.fatPrivate first) k : Int), s1) ∧
        OfVolume s.fatPrivate s1 ∧ s1.machine = m := ⟨_, hscan, ⟨rfl, rfl⟩, rfl⟩
    exact ⟨by omega, s1, hs1, hm1, heq.trans (bind_ok hscan)⟩

/-- the records of the result are the bytes that the lookups lead to -/
theorem followedBytes_getD (p : FatPrivate) (disk : Disk) (first n : Nat) {i : Nat} (hi : i < n) :
    (followedBytes p disk first 0 n).getD i 0 = followedByte p disk first i := by
  unfold followedBytes
  rw [List.getD_eq_getElem _ _ (by simpa using hi)]
  simp

theorem FromChain.congr {h : FatHeader} {n : Nat} {f g : Nat → UInt8} (hfg : ∀ i < n, f i = g i)
    (hf : FromChain disk h rec n f) : FromChain disk h rec n g := by
  rcases hf with h0 | ⟨c, chain, hc, hchain, hle, hbytes⟩
  · exact Or.inl h0
  · exact Or.inr ⟨c, chain, hc, hchain, hle, fun i hi => (hfg i hi).symm.trans (hbytes i hi)⟩

/-- a directory that was freed is not live -/
theorem not_live {m : Machine} {d : FatDirectory} (hh : m.Holds L) : ¬ LiveDirectory L m d := by
  rintro ⟨b, -, ⟨-, hheld⟩ | ⟨r, -, -, hheld⟩⟩
  · have hlen := (hh.unique hheld).length_eq
    rw [List.length_cons] at hlen
    omega
  · have hlen := (hh.unique hheld).length_eq
    rw [List.length_cons, List.length_cons] at hlen
    omega

/-- a subdirectory that is loaded can be loaded -/
theorem loadable_of_loads (hh : s.machine.Holds L) (hsub : Subdirectory rec)
    (hfirst : fat16GetFirstCluster rec = .ok first) (hfree : 0 < freeBlocks s.machine.heap.table)
    (h : LoadsOrNull disk rec s L) :
    ∃ k, LoadableDirectory disk s.fatPrivate s.machine.heap.table rec first k := by
  obtain ⟨r, s', hrun, -, hlive⟩ := h
  obtain ⟨b, m, hm, htaken, hends, hloads⟩ := load_scan disk hh hsub hfirst hfree
  obtain ⟨k, hk, hzero⟩ := hends r s' hrun
  obtain ⟨ht, s1, hs1, rfl, heq⟩ := hloads k hk hzero
  rw [heq] at hrun
  have hsized : usedRecords disk (clusterSeek s.fatPrivate first) k * fatDirectoryItemSize
      < 4294967296 := by
    dsimp only [fatDirectoryItemSize]
    omega
  by_cases hgood : 0 < clusterBytes s.fatPrivate ∧
      (∃ dir m, kzalloc (usedRecords disk (clusterSeek s.fatPrivate first) k * fatDirectoryItemSize)
        s1.machine = .ok (dir, m) ∧ dir ≠ 0) ∧
      LookupsGoOn s.fatPrivate disk first
        (usedRecords disk (clusterSeek s.fatPrivate first) k * fatDirectoryItemSize)
  · obtain ⟨hpos, hroom, hgo⟩ := hgood
    obtain ⟨dir, m, hk', hne⟩ := hroom
    obtain ⟨d, s2, hrun2, -, htotal, hbuffer⟩ := loadRecords_loads hs1 hm ht hpos hk' hne hgo
    obtain ⟨rfl, rfl⟩ := run_unique hrun hrun2
    obtain ⟨-, n, hn, -, hbytes⟩ := hlive d rfl
    obtain rfl : usedRecords disk (clusterSeek s.fatPrivate first) k = n :=
      Int.natCast_inj.mp (htotal.symm.trans hn)
    refine ⟨k, hfirst, hk, hzero, hpos, (kzalloc_some_iff hm htaken hsized).mp ⟨dir, m, hk', hne⟩,
      hgo, hbytes.congr (fun i hi => ?_)⟩
    rw [hbuffer]
    exact followedBytes_getD _ _ _ _ hi
  · obtain ⟨⟨d, rfl, -⟩, hheld⟩ := loadRecords_frees hs1 hm ht hrun hgood
    exact absurd (hlive d rfl).1 (not_live hheld)

/-- a load with a lookup that fails returns the directory that it has freed -/
theorem load_freed (hh : s.machine.Holds L) (hsub : Subdirectory rec)
    (hfirst : fat16GetFirstCluster rec = .ok first) (hfree : 0 < freeBlocks s.machine.heap.table)
    {r : Option FatDirectory} (hrun : fat16LoadFatDirectory disk rec s = .ok (r, s'))
    (hno : ∀ k, ScanEnds disk (clusterSeek s.fatPrivate first) k →
      ¬ LookupsGoOn s.fatPrivate disk first (scannedSize disk s.fatPrivate first k)) :
    (∃ d, r = some d) ∧ s'.machine.Holds L ∧ ¬ LoadsOrNull disk rec s L := by
  obtain ⟨b, m, hm, -, hends, hloads⟩ := load_scan disk hh hsub hfirst hfree
  obtain ⟨k, hk, hzero⟩ := hends r s' hrun
  obtain ⟨ht, s1, hs1, rfl, heq⟩ := hloads k hk hzero
  obtain ⟨⟨d, rfl, -⟩, hheld⟩ := loadRecords_frees hs1 hm ht (heq ▸ hrun)
    (fun hgood => hno k hzero hgood.2.2)
  refine ⟨⟨d, rfl⟩, hheld, ?_⟩
  rintro ⟨r', s2, hrun', -, hlive⟩
  obtain ⟨rfl, rfl⟩ := run_unique hrun hrun'
  exact not_live hheld (hlive d rfl).1

/-- a subdirectory that can be loaded is loaded -/
theorem loads_of_loadable (hh : s.machine.Holds L) (hsub : Subdirectory rec)
    (hfree : 0 < freeBlocks s.machine.heap.table) {k : Nat}
    (h : LoadableDirectory disk s.fatPrivate s.machine.heap.table rec first k) : LoadsOrNull disk rec s L := by
  obtain ⟨b, m, hm, htaken, -, hloads⟩ := load_scan disk hh hsub h.start hfree
  obtain ⟨ht, s1, hs1, rfl, heq⟩ := hloads k h.near h.ends
  have hsized : scannedSize disk s.fatPrivate first k < 4294967296 := by
    unfold scannedSize
    dsimp only [fatDirectoryItemSize]
    omega
  obtain ⟨dir, m, hk, hne⟩ := (kzalloc_some_iff hm htaken hsized).mpr h.room
  obtain ⟨d, s', hrun, hlive, htotal, hbuffer⟩ :=
    loadRecords_loads hs1 hm ht h.cluster hk hne h.lookups
  refine ⟨some d, s', heq.trans hrun, (fun e => by cases e), fun d' e => ?_⟩
  obtain rfl := Option.some.inj e
  refine ⟨hlive, _, htotal, ?_, h.bytes.congr (fun i hi => ?_)⟩
  · rw [hbuffer]
    rfl
  · rw [hbuffer]
    exact (followedBytes_getD _ _ _ _ hi).symm

/-- **The load of a directory.**  It returns a live directory with the records of the subdirectory's
chain, or `NULL` and the heap as it was, exactly when the record is no subdirectory, the heap has no
block, or the subdirectory can be loaded; otherwise it faults, or it returns a directory that it has
freed or whose records are not those of the chain. -/
theorem load_directory_iff (disk : Disk) (rec : FatDirectoryItem) (s : FatState) (L : List Run)
    (hh : s.machine.Holds L) (hin : rec.offset + fatDirectoryItemSize ≤ rec.buffer.size) :
    LoadsOrNull disk rec s L ↔ ¬ Subdirectory rec ∨ freeBlocks s.machine.heap.table = 0 ∨
      ∃ first k, LoadableDirectory disk s.fatPrivate s.machine.heap.table rec first k := by
  obtain ⟨first, hfirst⟩ := firstCluster_inside hin
  have hnull : fat16LoadFatDirectory disk rec s = .ok (none, s) → LoadsOrNull disk rec s L :=
    fun hrun => ⟨none, s, hrun, fun _ => SameHeap.refl _, fun d e => by cases e⟩
  by_cases hsub : Subdirectory rec
  · rcases Nat.eq_zero_or_pos (freeBlocks s.machine.heap.table) with h0 | hfree
    · exact iff_of_true (hnull (load_null hh hsub h0)) (Or.inr (Or.inl h0))
    · constructor
      · intro h
        exact Or.inr (Or.inr ⟨first, loadable_of_loads hh hsub hfirst hfree h⟩)
      · rintro (hno | h0 | ⟨c, k, h⟩)
        · exact absurd hsub hno
        · omega
        · exact loads_of_loadable hh hsub hfree h
  · have hattr := attributes_inside hin
    refine iff_of_true (hnull (load_plain ⟨_, hattr, ?_⟩)) (Or.inl hsub)
    by_contra hc
    exact hsub ⟨_, hattr, hc⟩

end

/-! ## two subdirectories -/

/-- the directory `d` of one record in cluster 2, and `e` of 17 records in clusters 3 and 4 -/
def directoriesDisk : Disk := fun i =>
  if i = 516 ∨ i = 517 then 0xFF else if i = 518 then 4 else if i = 520 ∨ i = 521 then 0xFF
  else rootDisk (rootRecord [68] 0x10 2 0 ++ rootRecord [69] 0x10 3 0) (fun j =>
    if j < 32 then 66 else if 512 ≤ j ∧ j < 1056 then 65 else 0) i

/-- record `j` of its root directory -/
def directoriesRecord (j : Nat) : FatDirectoryItem := recordAt (imageBuffer directoriesDisk 1024 16) j

theorem directories_mounted : ∃ p m L, fat16Resolve directoriesDisk emptyMachine
      = .ok ((0, some p), m) ∧ m.Holds L ∧ 2 ≤ freeBlocks m.heap.table ∧
    p.header = bootHeader directoriesDisk ∧ p.rootDirectory.endingSectorPos = 3 ∧
    p.rootDirectory.buffer = imageBuffer directoriesDisk 1024 16 := by
  obtain ⟨p, m, h⟩ := accepted_of_isSome
    (r := fat16Resolve directoriesDisk emptyMachine) (by decide +kernel)
  have hheader := fat16Resolve_header h
  have hfits : RootFits (fatHeader (diskBytes directoriesDisk 0 fatHeaderSize)) :=
    ⟨by decide +kernel, by decide +kernel⟩
  obtain ⟨N, hN, hheld, -⟩ := fat16Resolve_owns directoriesDisk hfits emptyMachine [] _ m
    emptyMachine_holds h
  have hheld : m.Holds N := by
    rwa [List.append_nil] at hheld
  obtain ⟨hbuffer, hending⟩ := fat16Resolve_volume h (by rw [hheader]; decide +kernel)
  rw [hheader] at hbuffer hending
  have hfree := freeBlocks_single hheld hN.single
  have hlen := hN.length
  refine ⟨p, m, N, h, hheld, ?_, hheader, ?_, ?_⟩
  · dsimp only [heapBlocks] at hfree
    omega
  · rw [hending]
    decide +kernel
  · rw [hbuffer, show rootPosition (bootHeader directoriesDisk) = 1024 by decide +kernel,
      show (bootHeader directoriesDisk).rootDirEntries = 16 by decide +kernel]

/-- `d` is loaded -/
theorem load_directory_iff_small : ∃ p m L, fat16Resolve directoriesDisk emptyMachine
      = .ok ((0, some p), m) ∧ m.Holds L ∧ recordAt p.rootDirectory.buffer 0 = directoriesRecord 0 ∧
    LoadsOrNull directoriesDisk (directoriesRecord 0) ⟨m, p⟩ L := by
  obtain ⟨p, m, L, h, hheld, hfree, hheader, hending, hbuffer⟩ := directories_mounted
  have hseek : clusterSeek p 2 = 1536 := by
    unfold clusterSeek fat16ClusterToSector
    rw [hending, hheader]
    decide +kernel
  have hcb : clusterBytes p = 512 := by
    unfold clusterBytes
    rw [hheader]
    decide +kernel
  have hsize : scannedSize directoriesDisk p 2 1 = 32 := by
    unfold scannedSize
    rw [show ((2 : Nat) : Int) = 2 from rfl, hseek]
    decide +kernel
  have hchain : DiskChain directoriesDisk p.header 2 [2] := by
    rw [hheader]
    exact .last (by decide) (by decide) (by decide +kernel)
  refine ⟨p, m, L, h, hheld, by rw [hbuffer]; rfl, (load_directory_iff directoriesDisk
    (directoriesRecord 0) ⟨m, p⟩ L hheld (by decide)).mpr (Or.inr (Or.inr ⟨2, 1, ?_⟩))⟩
  refine ⟨by decide +kernel, by decide, ?_, by rw [hcb]; decide, ?_, ?_, ?_⟩
  · show ScanEnds directoriesDisk (clusterSeek p 2) 1
    rw [hseek]
    exact ⟨by decide +kernel, by decide +kernel, by decide +kernel⟩
  · rw [hsize]
    exact roomBehind_block hheld hfree (by decide) (by decide)
  · rw [hsize]
    intro j hj
    rw [hcb] at hj
    obtain rfl : j = 0 := by omega
    exact Option.some_ne_none _
  · rw [hsize]
    refine Or.inr ⟨2, [2], by decide +kernel, hchain, ?_, ?_⟩
    · rw [hheader]
      decide +kernel
    · have hbytes : ∀ i < 32, sectorByte directoriesDisk 1536 i
          = ([2].flatMap (clusterData directoriesDisk (bootHeader directoriesDisk))).getD i 0 := by
        decide +kernel
      intro i hi
      unfold followedByte
      rw [hcb, Nat.div_eq_of_lt (by omega), Nat.mod_eq_of_lt (by omega), hheader, ← hbytes i hi, ← hseek]
      rfl

/-- whether `e` is loaded -/
def loadSecond : Prog FatState Bool := do
  let s ← get
  let d ← fat16LoadFatDirectory directoriesDisk (recordAt s.fatPrivate.rootDirectory.buffer 1)
  return d.isSome

/-- `e` has a chain of two clusters; the lookup for the second one fails, and the directory that is
returned has been freed -/
theorem returned_directory_freed : ∃ p m L d s', fat16Resolve directoriesDisk emptyMachine
      = .ok ((0, some p), m) ∧ m.Holds L ∧ recordAt p.rootDirectory.buffer 1 = directoriesRecord 1 ∧
    DiskChain directoriesDisk p.header 3 [3, 4] ∧
    fat16LoadFatDirectory directoriesDisk (directoriesRecord 1) ⟨m, p⟩ = .ok (some d, s') ∧
    s'.machine.Holds L ∧ ¬ LoadsOrNull directoriesDisk (directoriesRecord 1) ⟨m, p⟩ L := by
  obtain ⟨p, m, L, h, hheld, hfree, hheader, hending, hbuffer⟩ := directories_mounted
  have hload : (acceptedVolume (fat16Resolve directoriesDisk emptyMachine)).bind
      (fun s => outcome (loadSecond s)) = some true := by decide +kernel
  obtain ⟨s, hs, hload⟩ := Option.bind_eq_some_iff.mp hload
  obtain ⟨e, rfl⟩ := run_unique h (acceptedVolume_eq hs)
  obtain rfl : p = s.fatPrivate := Option.some.inj (congrArg Prod.snd e)
  obtain ⟨s2, hload⟩ := outcome_eq hload
  unfold loadSecond at hload
  rw [bind_ok (get_run s)] at hload
  obtain ⟨r, s', hrun, -⟩ := bind_eq_ok hload
  rw [hbuffer] at hrun
  have hsub : Subdirectory (directoriesRecord 1) := ⟨0x10, by decide +kernel, by decide⟩
  have hfirst : fat16GetFirstCluster (directoriesRecord 1) = .ok 3 := by decide +kernel
  have hseek : clusterSeek s.fatPrivate (3 : Nat) = 2048 := by
    unfold clusterSeek fat16ClusterToSector
    rw [hending, hheader]
    decide +kernel
  have hcb : clusterBytes s.fatPrivate = 512 := by
    unfold clusterBytes
    rw [hheader]
    decide +kernel
  have hends : ScanEnds directoriesDisk 2048 17 :=
    ⟨by decide +kernel, by decide +kernel, by decide +kernel⟩
  have hcount : usedRecords directoriesDisk 2048 17 = 17 := by decide +kernel
  have hnext : followed directoriesDisk (bootHeader directoriesDisk) 1 3 = none := by decide +kernel
  have hchain : DiskChain directoriesDisk s.fatPrivate.header 3 [3, 4] := by
    have h3 : tableEntry directoriesDisk (bootHeader directoriesDisk) 3 = 4 := by decide +kernel
    rw [hheader]
    exact .next (by decide) (by decide) (h3.symm ▸ .last (by decide) (by decide) (by decide +kernel))
  have hno : ∀ k, ScanEnds directoriesDisk (clusterSeek s.fatPrivate (3 : Nat)) k →
      ¬ LookupsGoOn s.fatPrivate directoriesDisk 3 (scannedSize directoriesDisk s.fatPrivate 3 k) := by
    intro k hk hgo
    rw [hseek] at hk
    obtain rfl : k = 17 := by
      rcases Nat.lt_trichotomy k 17 with hlt | rfl | hgt
      · exact absurd hk.zero (hends.used k hlt)
      · rfl
      · exact absurd hends.zero (hk.used 17 hgt)
    refine hgo 1 ?_ ?_
    · unfold scannedSize
      rw [hcb, hseek, hcount]
      decide
    · rw [hheader]
      exact hnext
  obtain ⟨⟨d, rfl⟩, hheld', hnot⟩ := load_freed hheld hsub hfirst
    (lt_of_lt_of_le Nat.two_pos hfree) hrun hno
  exact ⟨s.fatPrivate, s.machine, L, d, s', h, hheld, by rw [hbuffer]; rfl, hchain, hrun, hheld', hnot⟩

end LameOS
