import LameOS.Fs.RootDirectory
import Mathlib.Data.Nat.Count

/-!
# The scan of the root directory

The scan of `fat16_get_total_items_for_directory` has one exit, a record whose first byte is zero.

* `scanPos`, `scanByte`    where the stream stands for a record, and the byte it reads there;
* `scanLoop_iff`           the scan ends within a number of records: it meets a zero in them;
* `usedRecords`, `scanLoop_ends`   what it counts;
* `root_scan_bounded_iff`  the scan of the root directory stays within its entries exactly when one
                           of them is unused.
-/

set_option linter.unusedVariables false

namespace LameOS
open Lib Lib.Exec

/-! ## records on the stream -/

/-- the position of the stream at record `k` of a directory at `p`; it may wrap -/
def scanPos (p : Int) (k : Nat) : Int := cint (p + fatDirectoryItemSize * k)

/-- the byte that the stream reads at position `q` -/
def scanByte (disk : Disk) (q : Int) : UInt8 :=
  disk (cuint (q.tdiv sectorSize) * sectorSize + (q.tmod sectorSize).toNat)

/-- one of the first `n` records of the directory at `p` begins with a zero, and the stream comes to
it: its index into the sector buffer is not negative before -/
def ZeroWithin (disk : Disk) (p : Int) (n : Nat) : Prop :=
  ∃ k < n, (∀ j ≤ k, 0 ≤ (scanPos p j).tmod sectorSize) ∧ scanByte disk (scanPos p k) = 0x00

theorem scanPos_zero {p : Int} (h : cint p = p) : scanPos p 0 = p := by
  unfold scanPos
  rw [Int.ofNat_zero, mul_zero, add_zero, h]

theorem scanPos_succ (p : Int) (k : Nat) : cint (scanPos p k + 32) = scanPos p (k + 1) := by
  unfold scanPos cint fatDirectoryItemSize
  rw [Int.bmod_def, Int.bmod_def, Int.bmod_def]
  push_cast
  split <;> split <;> split <;> omega

theorem scanPos_aligned {p : Int} (h : p % 32 = 0) (k : Nat) : scanPos p k % 32 = 0 := by
  unfold scanPos cint fatDirectoryItemSize
  rw [Int.bmod_def]
  split <;> omega

/-- a record is read at its place in the sector buffer -/
theorem record_read_at (disk : Disk) (s : DiskStream) (h0 : 0 ≤ s.pos.tmod sectorSize)
    (h32 : s.pos % 32 = 0) : ∃ bs, bs.getD 0 0 = scanByte disk s.pos ∧
      diskstreamerRead disk fatDirectoryItemSize s
        = .ok ((0, bs), { s with pos := cint (s.pos + 32) }) := by
  obtain ⟨o, ho⟩ := Int.eq_ofNat_of_zero_le h0
  have hin : o + 32 ≤ 512 := by
    have hmod := Int.tmod_eq_emod (a := s.pos) (b := 512)
    have ho : s.pos.tmod 512 = o := ho
    split at hmod <;> omega
  refine ⟨_, ?_, diskstreamerRead_within disk (n := 32) ho hin⟩
  rw [diskBytes_getD disk _ _ (by decide)]
  unfold scanByte
  rw [ho, Int.toNat_natCast, Nat.add_zero]

/-! ## the scan -/

section
variable {disk : Disk} {p : Int}

/-- a record that is no zero is passed over, and counted if it is in use -/
theorem scanLoop_next {s : DiskStream} {k : Nat} (h32 : p % 32 = 0) (hs : s.pos = scanPos p k)
    (h0 : 0 ≤ (scanPos p k).tmod sectorSize) (hne : scanByte disk (scanPos p k) ≠ 0x00) (i : Int)
    (fuel : Nat) : totalItemsLoop disk (fuel + 1) i s = totalItemsLoop disk fuel
      (if scanByte disk (scanPos p k) = 0xE5 then i else i + 1) { s with pos := scanPos p (k + 1) } := by
  rw [← hs] at h0 hne ⊢
  obtain ⟨bs, hbyte, hread⟩ := record_read_at disk s h0 (hs ▸ scanPos_aligned h32 k)
  rw [← hbyte] at hne ⊢
  rw [hs, scanPos_succ] at hread
  rw [totalItemsLoop_succ, bind_ok hread]
  dsimp only
  rw [if_neg (not_not_intro rfl), if_neg hne]
  split
  · rfl
  · rfl

theorem scanLoop_zero {s : DiskStream} {k : Nat} (h32 : p % 32 = 0) (hs : s.pos = scanPos p k)
    (h0 : 0 ≤ (scanPos p k).tmod sectorSize) (hz : scanByte disk (scanPos p k) = 0x00) (i : Int)
    (fuel : Nat) : ∃ s', totalItemsLoop disk (fuel + 1) i s = .ok (i, s') := by
  rw [← hs] at h0 hz
  obtain ⟨bs, hbyte, hread⟩ := record_read_at disk s h0 (hs ▸ scanPos_aligned h32 k)
  rw [← hbyte] at hz
  rw [totalItemsLoop_succ, bind_ok hread]
  dsimp only
  rw [if_neg (not_not_intro rfl), if_pos hz]
  exact ⟨_, rfl⟩

/-- a zero `n` records ahead ends the scan, with at most `n` records counted -/
theorem scanLoop_of_zero (h32 : p % 32 = 0) (n : Nat) : ∀ (k : Nat) (s : DiskStream) (i : Int)
    (fuel : Nat), s.pos = scanPos p k → n < fuel →
      (∀ j, k ≤ j → j ≤ k + n → 0 ≤ (scanPos p j).tmod sectorSize) →
      scanByte disk (scanPos p (k + n)) = 0x00 →
      ∃ t s', totalItemsLoop disk fuel i s = .ok (t, s') ∧ i ≤ t ∧ t ≤ i + n := by
  induction n with
  | zero =>
    intro k s i fuel hs hfuel h0 hz
    obtain ⟨fuel, rfl⟩ := Nat.exists_eq_add_of_le' hfuel
    obtain ⟨s', hrun⟩ := scanLoop_zero h32 hs (h0 k (le_refl k) (le_refl k)) hz i fuel
    exact ⟨i, s', hrun, le_refl i, by omega⟩
  | succ n ih =>
    intro k s i fuel hs hfuel h0 hz
    obtain ⟨fuel, rfl⟩ := Nat.exists_eq_add_of_le' (by omega : 1 ≤ fuel)
    have hk := h0 k (le_refl k) (by omega)
    by_cases hzk : scanByte disk (scanPos p k) = 0x00
    · obtain ⟨s', hrun⟩ := scanLoop_zero h32 hs hk hzk i fuel
      exact ⟨i, s', hrun, le_refl i, by omega⟩
    · have hnext := scanLoop_next h32 hs hk hzk i fuel
      obtain ⟨t, s', hrun, h1, h2⟩ := ih (k + 1) { s with pos := scanPos p (k + 1) } _ fuel rfl
        (by omega) (fun l hl hl' => h0 l (by omega) (by omega))
        (by rw [show k + 1 + n = k + (n + 1) by omega]; exact hz)
      refine ⟨t, s', hnext.trans hrun, ?_⟩
      split at h1 <;> split at h2 <;> omega

/-- a scan that ends has met a zero -/
theorem zero_of_scanLoop (h32 : p % 32 = 0) (fuel : Nat) : ∀ (k : Nat) (s : DiskStream) (i t : Int)
    (s' : DiskStream), s.pos = scanPos p k → totalItemsLoop disk fuel i s = .ok (t, s') →
      ∃ n < fuel, (∀ j, k ≤ j → j ≤ k + n → 0 ≤ (scanPos p j).tmod sectorSize) ∧
        scanByte disk (scanPos p (k + n)) = 0x00 := by
  induction fuel with
  | zero =>
    intro k s i t s' hs hrun
    cases hrun
  | succ fuel ih =>
    intro k s i t s' hs hrun
    rcases Int.lt_or_le ((scanPos p k).tmod sectorSize) 0 with hneg | hk
    · rw [← hs] at hneg
      rw [totalItemsLoop_succ, bind_error (record_read_below disk s hneg)] at hrun
      cases hrun
    · by_cases hz : scanByte disk (scanPos p k) = 0x00
      · refine ⟨0, Nat.succ_pos fuel, fun j h1 h2 => ?_, hz⟩
        obtain rfl : j = k := by omega
        exact hk
      · rw [scanLoop_next h32 hs hk hz i fuel] at hrun
        obtain ⟨n, hn, h0, hzn⟩ := ih (k + 1) _ _ t s' rfl hrun
        refine ⟨n + 1, by omega, fun l h1 h2 => ?_, ?_⟩
        · rcases Nat.eq_or_lt_of_le h1 with rfl | hlt
          · exact hk
          · exact h0 l (by omega) (by omega)
        · rw [show k + (n + 1) = k + 1 + n by omega]
          exact hzn

/-- the scan from the start of the directory, with a zero in the first `n` records -/
theorem scanLoop_counts (h32 : p % 32 = 0) (hp : cint p = p) (s : DiskStream) {n fuel : Nat}
    (hz : ZeroWithin disk p n) (hfuel : n ≤ fuel) : ∃ t s',
      totalItemsLoop disk fuel 0 { s with pos := p } = .ok (t, s') ∧ 0 ≤ t ∧ t ≤ n := by
  obtain ⟨k, hk, h0, hzero⟩ := hz
  have hs : ({ s with pos := p } : DiskStream).pos = scanPos p 0 := (scanPos_zero hp).symm
  obtain ⟨t, s', hrun, h1, h2⟩ := scanLoop_of_zero h32 k 0 _ 0 fuel hs (by omega)
    (fun j _ hj => h0 j (by omega)) (by rw [Nat.zero_add]; exact hzero)
  exact ⟨t, s', hrun, h1, by omega⟩

/-- the scan from the start of the directory ends within `n` records -/
theorem scanLoop_iff (h32 : p % 32 = 0) (hp : cint p = p) (s : DiskStream) (n : Nat) :
    (∃ t s', totalItemsLoop disk n 0 { s with pos := p } = .ok (t, s')) ↔ ZeroWithin disk p n := by
  constructor
  · rintro ⟨t, s', hrun⟩
    have hs : ({ s with pos := p } : DiskStream).pos = scanPos p 0 := (scanPos_zero hp).symm
    obtain ⟨k, hk, h0, hz⟩ := zero_of_scanLoop h32 n 0 _ 0 t s' hs hrun
    rw [Nat.zero_add] at hz
    exact ⟨k, hk, fun j hj => h0 j (Nat.zero_le j) (by omega), hz⟩
  · intro hz
    obtain ⟨t, s', hrun, -⟩ := scanLoop_counts h32 hp s hz (le_refl n)
    exact ⟨t, s', hrun⟩

/-! ## the count -/

/-- the first record that begins with a zero is record `k`, and the stream comes to it -/
structure ScanEnds (disk : Disk) (p : Int) (k : Nat) : Prop where
  near : ∀ j ≤ k, 0 ≤ (scanPos p j).tmod sectorSize
  used : ∀ j < k, scanByte disk (scanPos p j) ≠ 0x00
  zero : scanByte disk (scanPos p k) = 0x00

/-- the records in use among the first `k` of the directory at `p` -/
def usedRecords (disk : Disk) (p : Int) (k : Nat) : Nat :=
  Nat.count (fun j => scanByte disk (scanPos p j) ≠ 0xE5) k

theorem usedRecords_succ (disk : Disk) (p : Int) (k : Nat) :
    ((usedRecords disk p (k + 1) : Nat) : Int)
      = if scanByte disk (scanPos p k) = 0xE5 then (usedRecords disk p k : Int)
        else usedRecords disk p k + 1 := by
  unfold usedRecords
  rw [Nat.count_succ]
  by_cases h : scanByte disk (scanPos p k) = 0xE5
  · rw [if_neg (not_not_intro h), if_pos h]
    rfl
  · rw [if_pos h, if_neg h]
    rfl

/-- the scan from record `k` on, with the records before it counted -/
theorem scanLoop_used (h32 : p % 32 = 0) {l : Nat} (h : ScanEnds disk p l) (n : Nat) :
    ∀ (k : Nat) (s : DiskStream) (fuel : Nat), k + n = l → n < fuel → s.pos = scanPos p k →
      ∃ s', totalItemsLoop disk fuel (usedRecords disk p k) s = .ok (usedRecords disk p l, s') := by
  induction n with
  | zero =>
    intro k s fuel hk hfuel hs
    obtain rfl : k = l := hk
    obtain ⟨fuel, rfl⟩ := Nat.exists_eq_add_of_le' hfuel
    exact scanLoop_zero h32 hs (h.near k (le_refl k)) h.zero _ fuel
  | succ n ih =>
    intro k s fuel hk hfuel hs
    obtain ⟨fuel, rfl⟩ := Nat.exists_eq_add_of_le' (by omega : 1 ≤ fuel)
    obtain ⟨s', hrun⟩ := ih (k + 1) { s with pos := scanPos p (k + 1) } fuel (by omega) (by omega) rfl
    rw [usedRecords_succ] at hrun
    exact ⟨s', (scanLoop_next h32 hs (h.near k (by omega)) (h.used k (by omega)) _ fuel).trans hrun⟩

/-- **The scan counts the records in use before the first zero** -/
theorem scanLoop_ends (disk : Disk) (h32 : p % 32 = 0) (hp : cint p = p) (s : DiskStream) (fuel : Nat) :
    (∀ k < fuel, ScanEnds disk p k → ∃ s',
      totalItemsLoop disk fuel 0 { s with pos := p } = .ok (usedRecords disk p k, s')) ∧
    ∀ t s', totalItemsLoop disk fuel 0 { s with pos := p } = .ok (t, s') →
      ∃ k < fuel, ScanEnds disk p k ∧ t = usedRecords disk p k := by
  have hs : ({ s with pos := p } : DiskStream).pos = scanPos p 0 := (scanPos_zero hp).symm
  have hcount : ∀ k < fuel, ScanEnds disk p k → ∃ s',
      totalItemsLoop disk fuel 0 { s with pos := p } = .ok (usedRecords disk p k, s') :=
    fun k hk h => scanLoop_used h32 h k 0 _ fuel (Nat.zero_add k) hk hs
  refine ⟨hcount, fun t s' hrun => ?_⟩
  obtain ⟨n, hn, h0, hz⟩ := zero_of_scanLoop h32 fuel 0 _ 0 t s' hs hrun
  rw [Nat.zero_add] at hz h0
  have hex : ∃ k, scanByte disk (scanPos p k) = 0x00 := ⟨n, hz⟩
  have hle : Nat.find hex ≤ n := Nat.find_min' hex hz
  have hends : ScanEnds disk p (Nat.find hex) :=
    ⟨fun j hj => h0 j (Nat.zero_le j) (hj.trans hle), fun j hj => Nat.find_min hex hj, Nat.find_spec hex⟩
  have hlt : Nat.find hex < fuel := lt_of_le_of_lt hle hn
  obtain ⟨s2, hrun2⟩ := hcount _ hlt hends
  exact ⟨_, hlt, hends, (run_unique hrun hrun2).1⟩

end

/-! ## the scan of a directory -/

section
variable {disk : Disk} {s s' : FatState} {sector : Int}

theorem scanStart_aligned (sector : Int) : cint (sector * sectorSize) % 32 = 0 := by
  unfold cint sectorSize
  rw [Int.bmod_def]
  split <;> omega

theorem scanStart_int (sector : Int) : cint (cint (sector * sectorSize)) = cint (sector * sectorSize) :=
  cint_of_range (cint_range _).1 (cint_range _).2

/-- the scan of a directory only moves its stream -/
theorem totalItems_stream {t : Int} (h : fat16GetTotalItemsForDirectory disk sector s = .ok (t, s')) :
    ∃ stream, totalItemsLoop disk maxItems 0
        { s.fatPrivate.directoryStream with pos := cint (sector * sectorSize) } = .ok (t, stream) ∧
      s' = { s with fatPrivate := { s.fatPrivate with directoryStream := stream } } := by
  unfold fat16GetTotalItemsForDirectory onDirectoryStream at h
  generalize maxItems = fuel at h ⊢
  obtain ⟨stream, hrun, hs'⟩ := part_eq_ok h
  rw [bind_ok (diskstreamerSeek_run _ _), if_neg (not_not_intro rfl)] at hrun
  exact ⟨stream, hrun, hs'⟩

theorem totalItems_run {t : Int} {stream : DiskStream} (h : totalItemsLoop disk maxItems 0
      { s.fatPrivate.directoryStream with pos := cint (sector * sectorSize) } = .ok (t, stream)) :
    fat16GetTotalItemsForDirectory disk sector s
      = .ok (t, { s with fatPrivate := { s.fatPrivate with directoryStream := stream } }) := by
  unfold fat16GetTotalItemsForDirectory onDirectoryStream
  generalize maxItems = fuel at h ⊢
  refine part_ok ?_
  rw [bind_ok (diskstreamerSeek_run _ _), if_neg (not_not_intro rfl)]
  exact h

end

/-! ## the root directory -/

/-- where the scan of the root directory starts -/
def rootStart (h : FatHeader) : Int :=
  cint (((h.fatCopies * h.sectorsPerFat + h.reservedSectors : Nat) : Int) * sectorSize)

theorem rootStart_aligned (h : FatHeader) : rootStart h % 32 = 0 := scanStart_aligned _

theorem rootStart_int (h : FatHeader) : cint (rootStart h) = rootStart h := scanStart_int _

/-- the scan of the root directory ends within its entries, and after a mount every index below the
total lies in the buffer of records -/
structure RootScanned (disk : Disk) (s : FatState) : Prop where
  ends : ∀ stream : DiskStream, ∃ t stream', totalItemsLoop disk s.fatPrivate.header.rootDirEntries 0
    { stream with pos := rootStart s.fatPrivate.header } = .ok (t, stream')
  total : ∀ s', fat16GetRootDirectory disk s = .ok (0, s') →
    0 ≤ s'.fatPrivate.rootDirectory.total ∧
      s'.fatPrivate.rootDirectory.total ≤ s.fatPrivate.header.rootDirEntries
  inside : ∀ s', fat16GetRootDirectory disk s = .ok (0, s') →
    ∀ i : Nat, i < s'.fatPrivate.rootDirectory.total →
      (i + 1) * fatDirectoryItemSize ≤ s'.fatPrivate.rootDirectory.buffer.size

section
variable {disk : Disk} {s s' : FatState}

/-- **The root directory is scanned within its entries** exactly when one of them begins with a zero
that the stream comes to. -/
theorem root_scan_bounded_iff (hsize : s.fatPrivate.header.rootDirEntries < 65536) :
    RootScanned disk s ↔
      ZeroWithin disk (rootStart s.fatPrivate.header) s.fatPrivate.header.rootDirEntries := by
  have h32 := rootStart_aligned s.fatPrivate.header
  have hint := rootStart_int s.fatPrivate.header
  constructor
  · intro h
    exact (scanLoop_iff h32 hint s.fatPrivate.directoryStream _).mp (h.ends _)
  · intro hz
    have hall : ∀ s', fat16GetRootDirectory disk s = .ok (0, s') →
        0 ≤ s'.fatPrivate.rootDirectory.total ∧
          s'.fatPrivate.rootDirectory.total ≤ s.fatPrivate.header.rootDirEntries ∧
          s'.fatPrivate.rootDirectory.buffer.size
            = s.fatPrivate.header.rootDirEntries * fatDirectoryItemSize := by
      intro s' hrun
      have hfuel : s.fatPrivate.header.rootDirEntries ≤ maxItems := by
        dsimp only [maxItems]
        omega
      obtain ⟨t, stream, hloop, h1, h2⟩ :=
        scanLoop_counts h32 hint s.fatPrivate.directoryStream hz hfuel
      obtain ⟨htotal, hbuffer⟩ :=
        fat16GetRootDirectory_total (totalItems_run hloop) hrun
      rw [htotal]
      exact ⟨h1, h2, hbuffer⟩
    refine ⟨fun stream => (scanLoop_iff h32 hint stream _).mpr hz, fun s' hrun => ?_,
      fun s' hrun i hi => ?_⟩
    · obtain ⟨h1, h2, -⟩ := hall s' hrun
      exact ⟨h1, h2⟩
    · obtain ⟨h1, h2, hbuffer⟩ := hall s' hrun
      rw [hbuffer]
      dsimp only [fatDirectoryItemSize]
      omega

end

/-! ## two volumes -/

/-- one file in a directory of 16 entries -/
theorem root_scan_bounded_iff_boot : RootScanned (bootDisk 1) (bareVolume (bootDisk 1)) := by
  have he : (bareVolume (bootDisk 1)).fatPrivate.header.rootDirEntries = 16 := by decide +kernel
  refine (root_scan_bounded_iff (by rw [he]; decide)).mpr ?_
  rw [he]
  refine ⟨0, by decide, fun j hj => ?_, by decide +kernel⟩
  obtain rfl : j = 0 := by omega
  decide +kernel

/-- a root directory of 16 entries, all of them used, and a used record behind them -/
def fullDisk : Disk := fun i => if 1024 ≤ i ∧ i < 1568 then 65 else bootDisk 1 i

/-- the volume is accepted, with 17 records counted for its 16 entries -/
theorem full_root_overruns : ∃ p m, fat16Resolve fullDisk emptyMachine = .ok ((0, some p), m) ∧
    p.header.rootDirEntries = 16 ∧ p.rootDirectory.total = 17 ∧ ¬ RootScanned fullDisk ⟨m, p⟩ := by
  have hvolume : ((acceptedVolume (fat16Resolve fullDisk emptyMachine)).map
      (fun s => s.fatPrivate.rootDirectory.total)) = some 17 := by decide +kernel
  obtain ⟨s, hs, htotal⟩ := Option.map_eq_some_iff.mp hvolume
  have haccept := acceptedVolume_eq hs
  have hheader := fat16Resolve_header haccept
  have he : s.fatPrivate.header.rootDirEntries = 16 := by
    rw [hheader]
    decide +kernel
  have hstart : rootStart s.fatPrivate.header = 1024 := by
    rw [hheader]
    decide +kernel
  refine ⟨s.fatPrivate, s.machine, haccept, he, htotal, fun hscan => ?_⟩
  obtain ⟨t, stream, hrun⟩ := hscan.ends ⟨0, 0⟩
  rw [show (⟨s.machine, s.fatPrivate⟩ : FatState) = s from rfl, he, hstart] at hrun
  have hfail : outcome (totalItemsLoop fullDisk 16 0 ⟨0, 1024⟩) = none := by decide +kernel
  have hrun : totalItemsLoop fullDisk 16 0 ⟨0, 1024⟩ = .ok (t, stream) := hrun
  rw [hrun] at hfail
  cases hfail

end LameOS
