import LameOS.Fs.FileOwned
import LameOS.Fs.Position
import Mathlib.Data.Nat.Count

/-!
# Deleted records in the root directory

`fat16_get_total_items_for_directory` counts the records that are not deleted, and the lookup takes
the count for the number of records to look at.

* `DirectoryImage`        the records of a directory on the disk, up to the one that ends it;
* `fat16GetRootDirectory_run`   the directory after the mount: the records, and the count;
* `count_covers_iff`      the count reaches every live record exactly when no deleted one lies before
                          a live one;
* `finds_live_iff`        and so the lookup finds every live record exactly then.
-/

set_option linter.unusedVariables false

namespace LameOS
open Lib Lib.Exec

/-! ## records on a disk -/

/-- the position of the root directory -/
def rootPosition (h : FatHeader) : Nat :=
  (h.fatCopies * h.sectorsPerFat + h.reservedSectors) * sectorSize

/-- the first byte of record `k` of the directory at position `p` -/
def recordMark (disk : Disk) (p k : Nat) : UInt8 := disk (p + fatDirectoryItemSize * k)

/-- a directory at position `p` with room for `entries` records, ended by record `n` -/
structure DirectoryImage (disk : Disk) (p entries n : Nat) : Prop where
  used : ∀ k < n, recordMark disk p k ≠ 0x00
  ended : recordMark disk p n = 0x00
  inside : n < entries
  onDisk : p + fatDirectoryItemSize * entries < 2147483648

/-- record `k` is no deleted one -/
abbrev Undeleted (disk : Disk) (p k : Nat) : Prop := recordMark disk p k ≠ 0xE5

/-- the bytes of a directory -/
def imageBuffer (disk : Disk) (p entries : Nat) : Buffer :=
  .ofBytes (entries * fatDirectoryItemSize) (diskBytes disk p (entries * fatDirectoryItemSize))

/-! ## the count -/

theorem diskstreamerSeek_run (pos : Int) (s : DiskStream) :
    diskstreamerSeek pos s = .ok (0, { s with pos := pos }) := rfl

/-- a record that is read: the count ends at a zero, and passes over a deleted one -/
theorem totalItemsLoop_succ (disk : Disk) (fuel : Nat) (i : Int) :
    totalItemsLoop disk (fuel + 1) i = (diskstreamerRead disk fatDirectoryItemSize >>= fun r =>
      if r.1 ≠ OK then return - EIO
      else if r.2.getD 0 0 = 0x00 then return i
      else if r.2.getD 0 0 = 0xE5 then totalItemsLoop disk fuel i
      else totalItemsLoop disk fuel (i + 1)) := rfl

/-- from record `k` on, `j` records before the last one -/
theorem totalItemsLoop_count {disk : Disk} {p entries n : Nat} (h : DirectoryImage disk p entries n)
    (h32 : p % 32 = 0) (j : Nat) : ∀ (k fuel : Nat) (s : DiskStream), k + j = n → j < fuel →
      s.pos = (p + fatDirectoryItemSize * k : Nat) →
      ∃ t, totalItemsLoop disk fuel (Nat.count (Undeleted disk p) k : Nat) s
        = .ok ((Nat.count (Undeleted disk p) n : Nat), t) := by
  have hin := h.inside
  have hdisk := h.onDisk
  dsimp only [fatDirectoryItemSize] at hdisk
  induction j with
  | zero =>
    intro k fuel s hk hfuel hs
    obtain ⟨fuel, rfl⟩ := Nat.exists_eq_add_of_lt hfuel
    rw [Nat.zero_add]
    have hread := record_read disk s hs (by dsimp only [fatDirectoryItemSize]; omega)
      (by dsimp only [fatDirectoryItemSize]; omega)
    have hmark : (diskBytes disk (p + fatDirectoryItemSize * k) 32).getD 0 0 = 0x00 := by
      rw [diskBytes_getD disk _ _ (by decide), Nat.add_zero]
      rw [show k = n by omega]
      exact h.ended
    rw [totalItemsLoop_succ, bind_ok hread]
    dsimp only
    rw [if_neg (not_not_intro rfl), if_pos hmark, show k = n by omega]
    exact ⟨_, rfl⟩
  | succ j ih =>
    intro k fuel s hk hfuel hs
    obtain ⟨fuel, rfl⟩ := Nat.exists_eq_add_of_le' (Nat.one_le_of_lt hfuel)
    have hread := record_read disk s hs (by dsimp only [fatDirectoryItemSize]; omega)
      (by dsimp only [fatDirectoryItemSize]; omega)
    have hmark : (diskBytes disk (p + fatDirectoryItemSize * k) 32).getD 0 0 = recordMark disk p k :=
      diskBytes_getD disk _ _ (by decide)
    have hnext : cint (p + fatDirectoryItemSize * k + 32 : Nat)
        = (p + fatDirectoryItemSize * (k + 1) : Nat) := by
      rw [cint_nat (by dsimp only [fatDirectoryItemSize]; omega)]
      rfl
    rw [totalItemsLoop_succ, bind_ok hread]
    dsimp only
    rw [if_neg (not_not_intro rfl), hmark, if_neg (h.used k (by omega)), hnext]
    by_cases hdel : recordMark disk p k = 0xE5
    · have hcount : Nat.count (Undeleted disk p) (k + 1) = Nat.count (Undeleted disk p) k := by
        rw [Nat.count_succ, if_neg (not_not_intro hdel)]
        exact Nat.add_zero _
      rw [if_pos hdel, ← hcount]
      exact ih (k + 1) fuel _ (by omega) (by omega) rfl
    · have hcount : ((Nat.count (Undeleted disk p) k : Nat) : Int) + 1
          = (Nat.count (Undeleted disk p) (k + 1) : Nat) := by
        rw [Nat.count_succ, if_pos hdel]
        rfl
      rw [if_neg hdel, hcount]
      exact ih (k + 1) fuel _ (by omega) (by omega) rfl

/-- **The count reaches every live record exactly when no deleted record lies before a live one.** -/
theorem count_covers_iff (P : Nat → Prop) [DecidablePred P] (n : Nat) :
    (∀ k < n, P k → k < Nat.count P n) ↔ ∀ i j, i < j → j < n → P j → P i := by
  constructor
  · intro hall i j hij hjn hj
    have hle : Nat.count P n ≤ n := Nat.count_le P
    obtain ⟨d, hd⟩ := Nat.exists_eq_add_of_le hle
    -- nothing live lies behind the count, so that all before it is live
    have hrest : Nat.count (fun k => P (Nat.count P n + k)) d = 0 := by
      rw [Nat.count_iff_forall_not]
      intro m hm hp
      have := hall _ (by omega) hp
      omega
    have hsame : Nat.count P (Nat.count P n) = Nat.count P n := by
      have hadd := Nat.count_add (p := P) (Nat.count P n) d
      rw [← hd, hrest, Nat.add_zero] at hadd
      exact hadd.symm
    have hjc := hall j hjn hj
    exact Nat.count_iff_forall.mp hsame i (by omega)
  · intro hall k hk hp
    have hbefore : Nat.count P k = k := by
      rw [Nat.count_iff_forall]
      exact fun i hi => hall i k hi hk hp
    have hlt := Nat.count_strict_mono hp hk
    omega

/-- what lies below the count is live -/
theorem below_count {P : Nat → Prop} [DecidablePred P] (n : Nat) :
    (∀ i j, i < j → j < n → P j → P i) → ∀ k < Nat.count P n, P k := by
  induction n with
  | zero =>
    intro h k hk
    rw [Nat.count_zero] at hk
    omega
  | succ n ih =>
    intro h k hk
    rw [Nat.count_succ] at hk
    have hle : Nat.count P n ≤ n := Nat.count_le P
    by_cases hn : P n
    · rw [if_pos hn] at hk
      rcases Nat.eq_or_lt_of_le (Nat.le_of_lt_succ (lt_of_lt_of_le hk (Nat.succ_le_succ hle)))
        with rfl | hlt
      · exact hn
      · exact h k n hlt (Nat.lt_succ_self n) hn
    · rw [if_neg hn] at hk
      exact ih (fun i j hij hj => h i j hij (by omega)) k hk

/-! ## the mount -/

section
variable {disk : Disk} {n : Nat} {s s' : FatState}

theorem fat16GetTotalItems_count
    (h : DirectoryImage disk (rootPosition s.fatPrivate.header) s.fatPrivate.header.rootDirEntries n)
    {sector : Nat} (hsector : sector * sectorSize = rootPosition s.fatPrivate.header) :
    ∃ t, fat16GetTotalItemsForDirectory disk sector s
      = .ok ((Nat.count (Undeleted disk (rootPosition s.fatPrivate.header)) n : Nat),
        { s with fatPrivate := { s.fatPrivate with directoryStream := t } }) := by
  have hin := h.inside
  have hdisk := h.onDisk
  dsimp only [fatDirectoryItemSize] at hdisk
  have hpos : cint ((sector : Int) * sectorSize) = (rootPosition s.fatPrivate.header : Nat) := by
    rw [← hsector]
    exact cint_nat (by rw [hsector]; omega)
  have hn : n < maxItems := by
    dsimp only [maxItems]
    omega
  have h32 : rootPosition s.fatPrivate.header % 32 = 0 := by
    rw [← hsector]
    dsimp only [sectorSize]
    omega
  obtain ⟨t, hloop⟩ := totalItemsLoop_count h h32 n 0 maxItems
    { s.fatPrivate.directoryStream with pos := (rootPosition s.fatPrivate.header : Nat) }
    (Nat.zero_add n) hn (by rw [Nat.mul_zero, Nat.add_zero])
  rw [Nat.count_zero] at hloop
  unfold fat16GetTotalItemsForDirectory onDirectoryStream
  generalize maxItems = fuel at hloop ⊢
  refine ⟨t, part_ok ?_⟩
  rw [bind_ok (diskstreamerSeek_run _ _), if_neg (not_not_intro rfl), hpos]
  exact hloop

/-- a mount stores the count, and a buffer for the entries -/
theorem fat16GetRootDirectory_total {t : Int} {s1 : FatState}
    (htotal : fat16GetTotalItemsForDirectory disk ((s.fatPrivate.header.fatCopies
        * s.fatPrivate.header.sectorsPerFat + s.fatPrivate.header.reservedSectors : Nat) : Int) s
      = .ok (t, s1)) (hrun : fat16GetRootDirectory disk s = .ok (0, s')) :
    s'.fatPrivate.rootDirectory.total = t ∧ s'.fatPrivate.rootDirectory.buffer.size
      = s.fatPrivate.header.rootDirEntries * fatDirectoryItemSize := by
  unfold fat16GetRootDirectory at hrun
  rw [bind_ok (get_run s)] at hrun
  dsimp only at hrun
  rw [bind_ok htotal] at hrun
  obtain ⟨dir, s2, -, hrun⟩ := bind_eq_ok hrun
  split at hrun
  · obtain ⟨hbad, -⟩ := pure_eq_ok hrun
    exact absurd hbad (by decide)
  · obtain ⟨res, s3, -, hrun⟩ := bind_eq_ok hrun
    split at hrun
    · obtain ⟨hbad, -⟩ := pure_eq_ok hrun
      exact absurd hbad (by decide)
    · obtain ⟨⟨res, bytes⟩, s4, -, hrun⟩ := bind_eq_ok hrun
      dsimp only at hrun
      split at hrun
      · obtain ⟨hbad, -⟩ := pure_eq_ok hrun
        exact absurd hbad (by decide)
      · cases hrun
        exact ⟨rfl, rfl⟩

/-- a mount stores the records of the disk, and the sector behind them -/
theorem fat16GetRootDirectory_stored
    (hdisk : rootPosition s.fatPrivate.header
      + fatDirectoryItemSize * s.fatPrivate.header.rootDirEntries < 2147483648)
    (hrun : fat16GetRootDirectory disk s = .ok (0, s')) :
    s'.fatPrivate.header = s.fatPrivate.header ∧
      s'.fatPrivate.rootDirectory.buffer
        = imageBuffer disk (rootPosition s.fatPrivate.header) s.fatPrivate.header.rootDirEntries ∧
      s'.fatPrivate.rootDirectory.endingSectorPos
        = (s.fatPrivate.header.fatCopies * s.fatPrivate.header.sectorsPerFat
          + s.fatPrivate.header.reservedSectors
          + s.fatPrivate.header.rootDirEntries * fatDirectoryItemSize / sectorSize : Nat) := by
  unfold fat16GetRootDirectory at hrun
  rw [bind_ok (get_run s)] at hrun
  dsimp only at hrun
  obtain ⟨total, s0, htotal, hrun⟩ := bind_eq_ok hrun
  unfold fat16GetTotalItemsForDirectory onDirectoryStream at htotal
  generalize maxItems = fuel at htotal
  obtain ⟨t, -, rfl⟩ := part_eq_ok htotal
  obtain ⟨dir, s1, halloc, hrun⟩ := bind_eq_ok hrun
  split at hrun
  · obtain ⟨hbad, -⟩ := pure_eq_ok hrun
    exact absurd hbad (by decide)
  · obtain ⟨m, -, rfl⟩ := part_eq_ok halloc
    have hpos : fat16SectorToAbsolute (s.fatPrivate.header.fatCopies
        * s.fatPrivate.header.sectorsPerFat + s.fatPrivate.header.reservedSectors : Nat)
          = (rootPosition s.fatPrivate.header : Nat) := by
      show cint (rootPosition s.fatPrivate.header : Nat) = _
      exact cint_nat (by dsimp only [fatDirectoryItemSize] at hdisk; omega)
    have hin : InSector (rootPosition s.fatPrivate.header)
        (s.fatPrivate.header.rootDirEntries * fatDirectoryItemSize) := by
      unfold InSector rootPosition
      dsimp only [sectorSize]
      omega
    obtain ⟨res, s2, hseek, hrun⟩ := bind_eq_ok hrun
    obtain ⟨t2, hpart, rfl⟩ := part_eq_ok hseek
    rw [hpos, diskstreamerSeek_run] at hpart
    cases hpart
    rw [if_neg (not_not_intro rfl)] at hrun
    obtain ⟨⟨res, bytes⟩, s3, hread, hrun⟩ := bind_eq_ok hrun
    obtain ⟨t3, hpart, rfl⟩ := part_eq_ok hread
    rw [diskstreamerRead_ok disk rfl (by rw [Nat.mul_comm]; exact hdisk) hin] at hpart
    cases hpart
    dsimp only at hrun
    rw [if_neg (not_not_intro rfl)] at hrun
    cases hrun
    exact ⟨rfl, rfl, rfl⟩

/-- **The directory after the mount** holds the records of the disk, and the count of those that are
not deleted. -/
theorem fat16GetRootDirectory_run
    (h : DirectoryImage disk (rootPosition s.fatPrivate.header) s.fatPrivate.header.rootDirEntries n)
    (hrun : fat16GetRootDirectory disk s = .ok (0, s')) :
    s'.fatPrivate.rootDirectory.total
        = (Nat.count (Undeleted disk (rootPosition s.fatPrivate.header)) n : Nat) ∧
      s'.fatPrivate.rootDirectory.buffer
        = imageBuffer disk (rootPosition s.fatPrivate.header) s.fatPrivate.header.rootDirEntries := by
  have hsector : (s.fatPrivate.header.fatCopies * s.fatPrivate.header.sectorsPerFat
      + s.fatPrivate.header.reservedSectors) * sectorSize = rootPosition s.fatPrivate.header := rfl
  obtain ⟨t, htotal⟩ := fat16GetTotalItems_count h hsector
  exact ⟨(fat16GetRootDirectory_total htotal hrun).1,
    (fat16GetRootDirectory_stored h.onDisk hrun).2.1⟩

end

/-! ## lookups that return -/

/-- the record lies in the buffer, and is that of a file -/
structure PlainRecord (item : FatDirectoryItem) : Prop where
  inside : item.offset + fatDirectoryItemSize ≤ item.buffer.size
  file : item.buffer.bytes (item.offset + 11) &&& fatFileSubdirectory = 0

theorem Buffer.get_ok {b : Buffer} {i : Nat} (h : i < b.size) : b.get i = .ok (b.bytes i) := if_pos h

theorem copyItemLoop_ok (item : FatDirectoryItem) (fuel : Nat) : ∀ i,
    item.offset + i + fuel ≤ item.buffer.size → ∃ bytes, copyItemLoop item fuel i = .ok bytes := by
  induction fuel with
  | zero =>
    intro i h
    exact ⟨[], rfl⟩
  | succ fuel ih =>
    intro i h
    obtain ⟨bytes, hrest⟩ := ih (i + 1) (by omega)
    refine ⟨item.buffer.bytes (item.offset + i) :: bytes, ?_⟩
    unfold copyItemLoop
    rw [Buffer.get_ok (by omega), ok_bind, hrest]
    rfl

/-- `x` returns, and the heap is in order -/
def Returns {α : Type} (x : Prog FatState α) (s : FatState) : Prop :=
  ∃ a s' L, x s = .ok (a, s') ∧ s'.machine.Holds L

section
variable {α β : Type} {s : FatState} {L : List Run}

theorem Returns.pure (h : s.machine.Holds L) (a : α) : Returns (pure a) s := ⟨a, s, L, rfl, h⟩

theorem Returns.bind {x : Prog FatState α} {f : α → Prog FatState β} (hx : Returns x s)
    (hf : ∀ a s' L, x s = .ok (a, s') → s'.machine.Holds L → Returns (f a) s') :
    Returns (x >>= f) s := by
  obtain ⟨a, s1, L1, h1, hh1⟩ := hx
  obtain ⟨b, s2, L2, h2, hh2⟩ := hf a s1 L1 h1 hh1
  exact ⟨b, s2, L2, by rw [bind_ok h1, h2], hh2⟩

theorem Returns.lift (h : s.machine.Holds L) {x : Except Fault α} {a : α} (hx : x = .ok a) :
    Returns (liftM x) s := by
  rw [hx]
  exact ⟨a, s, L, rfl, h⟩

theorem Returns.ite {c : Prop} [Decidable c] {x y : Prog FatState α} (hx : c → Returns x s)
    (hy : ¬ c → Returns y s) : Returns (if c then x else y) s := by
  split
  · exact hx (by assumption)
  · exact hy (by assumption)

theorem kzalloc_returns (h : s.machine.Holds L) {size : Nat} (h1 : 1 ≤ size) (h2 : size ≤ 4096) :
    Returns (onHeap (kzalloc size)) s := by
  rcases Nat.eq_zero_or_pos (freeBlocks s.machine.heap.table) with h0 | hpos
  · exact ⟨0, _, L, part_ok (kzalloc_full h h1 h2 h0), h⟩
  · obtain ⟨b, hw, hrun⟩ := kzalloc_block h h1 h2 hpos
    exact ⟨blockAddr b, _, _, part_ok hrun, h.alloc (le_refl 1) hw.1 size⟩

theorem attributes_inside {item : FatDirectoryItem}
    (hin : item.offset + fatDirectoryItemSize ≤ item.buffer.size) :
    item.attributes = .ok (item.buffer.bytes (item.offset + 11)) := by
  dsimp only [fatDirectoryItemSize] at hin
  exact Buffer.get_ok (by omega)

theorem fat16CloneDirectoryItem_returns {item : FatDirectoryItem} (h : s.machine.Holds L)
    (hin : item.offset + fatDirectoryItemSize ≤ item.buffer.size) :
    Returns (fat16CloneDirectoryItem item fatDirectoryItemSize) s := by
  obtain ⟨bytes, hcopy⟩ := copyItemLoop_ok item fatDirectoryItemSize 0 hin
  unfold fat16CloneDirectoryItem
  rw [if_neg (lt_irrefl _)]
  refine Returns.bind (kzalloc_returns h (by decide) (by decide)) (fun p s1 L1 _ hh1 => ?_)
  refine Returns.ite (fun _ => Returns.pure hh1 _) (fun _ => ?_)
  exact Returns.bind (Returns.lift hh1 hcopy) (fun bytes s2 L2 _ hh2 => Returns.pure hh2 _)

theorem fat16NewFatItem_returns {disk : Disk} {item : FatDirectoryItem} (h : s.machine.Holds L)
    (hitem : PlainRecord item) : Returns (fat16NewFatItemForDirectoryItem disk item) s := by
  have hattr := attributes_inside hitem.inside
  refine Returns.bind (kzalloc_returns h (by decide) (by decide)) (fun addr s1 L1 h1 hh1 => ?_)
  refine Returns.ite (fun _ => Returns.pure hh1 _) (fun _ => ?_)
  refine Returns.bind (Returns.lift hh1 hattr) (fun a s2 L2 h2 hh2 => ?_)
  have ha : a = item.buffer.bytes (item.offset + 11) := by
    rw [hattr] at h2
    cases h2
    rfl
  rw [if_neg (by rw [ha, hitem.file]; exact not_not_intro rfl)]
  exact Returns.bind (fat16CloneDirectoryItem_returns hh2 hitem.inside)
    (fun clone s3 L3 _ hh3 => Returns.pure hh3 _)

/-- the name of a record can be read -/
def Readable (item : FatDirectoryItem) : Prop := ∃ tmp, fat16GetFullRelativeFilename item = .ok tmp

theorem findItemLoop_returns {disk : Disk} {buffer : Buffer} {name : List UInt8} (fuel : Nat) :
    ∀ (i : Nat) (fItem : Option FatItem) (s : FatState) (L : List Run), s.machine.Holds L →
      (∀ k < i + fuel, Readable (recordAt buffer k)) →
      (∀ k < i + fuel, HasName buffer name k → PlainRecord (recordAt buffer k)) →
        Returns (findItemLoop disk buffer name fuel i fItem) s := by
  induction fuel with
  | zero =>
    intro i fItem s L h hread hplain
    exact Returns.pure h fItem
  | succ fuel ih =>
    intro i fItem s L h hread hplain
    have hread' : ∀ k < i + 1 + fuel, Readable (recordAt buffer k) :=
      fun k hk => hread k (by omega)
    have hplain' : ∀ k < i + 1 + fuel, HasName buffer name k → PlainRecord (recordAt buffer k) :=
      fun k hk => hplain k (by omega)
    obtain ⟨tmp, htmp⟩ := hread i (by omega)
    rw [findItemLoop_succ]
    refine Returns.bind (Returns.lift h htmp) (fun tmp' s1 L1 h1 hh1 => ?_)
    have he : tmp' = tmp := by
      rw [htmp] at h1
      cases h1
      rfl
    refine Returns.ite (fun hcmp => ?_) (fun _ => ih _ _ _ _ hh1 hread' hplain')
    rw [he] at hcmp
    refine Returns.bind (fat16NewFatItem_returns hh1 (hplain i (by omega) ⟨tmp, htmp, hcmp⟩))
      (fun r s2 L2 _ hh2 => ih _ _ _ _ hh2 hread' hplain')

end

/-! ## what a lookup finds -/

/-- the lookups in the root directory of `s`, whose records lie on the disk with record `n` the
first that is zero -/
structure FindsLive (disk : Disk) (p entries n : Nat) (root : FatDirectory) : Prop where
  /-- every live record is looked at -/
  examined : ∀ k < n, Undeleted disk p k → k < root.total.toNat
  /-- a lookup returns if the names can be read; a subdirectory of the name would be loaded -/
  returns : ∀ name s L, s.machine.Holds L →
    (∀ k < n, Undeleted disk p k → Readable (recordAt (imageBuffer disk p entries) k)) →
    (∀ k < n, Undeleted disk p k → HasName (imageBuffer disk p entries) name k →
      PlainRecord (recordAt (imageBuffer disk p entries) k)) →
    ∃ r s', fat16FindItemInDirectory disk root name s = .ok (r, s')
  /-- a name of a live record is found, if the heap has a block left -/
  found : ∀ name s s' L r, s.machine.Holds L →
    fat16FindItemInDirectory disk root name s = .ok (r, s') →
    (∃ k < n, Undeleted disk p k ∧ HasName (imageBuffer disk p entries) name k) →
      r.isSome = true ∨ freeBlocks s'.machine.heap.table = 0
  /-- what is found is a live record -/
  live : ∀ name s s' L i, s.machine.Holds L →
    fat16FindItemInDirectory disk root name s = .ok (some i, s') →
    ∃ k < n, Undeleted disk p k ∧ FileItem (recordAt (imageBuffer disk p entries) k) s'.machine i

/-- no deleted record lies before a live one -/
def DeletedLast (disk : Disk) (p n : Nat) : Prop :=
  ∀ i j, i < j → j < n → Undeleted disk p j → Undeleted disk p i

theorem findsLive_of_deletedLast {disk : Disk} {p entries n : Nat} {root : FatDirectory}
    (h : DirectoryImage disk p entries n)
    (htotal : root.total = (Nat.count (Undeleted disk p) n : Nat))
    (hbuffer : root.buffer = imageBuffer disk p entries) (hlast : DeletedLast disk p n) :
    FindsLive disk p entries n root := by
  have hnat : root.total.toNat = Nat.count (Undeleted disk p) n := by
    rw [htotal, Int.toNat_natCast]
  have hcover := (count_covers_iff (Undeleted disk p) n).mpr hlast
  -- what is looked at is live
  have hlive : ∀ k < root.total.toNat, k < n ∧ Undeleted disk p k := by
    intro k hk
    rw [hnat] at hk
    have hkn : k < n := lt_of_lt_of_le hk (Nat.count_le _)
    exact ⟨hkn, below_count n hlast k hk⟩
  refine ⟨?_, ?_, ?_, ?_⟩
  · intro k hk hp
    rw [hnat]
    exact hcover k hk hp
  · intro name s L hh hread hplain
    have hr := @findItemLoop_returns disk root.buffer name root.total.toNat 0 none s L
      hh ?_ ?_
    · obtain ⟨r, s', L', hrun, -⟩ := hr
      exact ⟨r, s', hrun⟩
    · intro k hk
      rw [Nat.zero_add] at hk
      rw [hbuffer]
      exact hread k (hlive k hk).1 (hlive k hk).2
    · intro k hk
      rw [Nat.zero_add] at hk
      rw [hbuffer]
      exact hplain k (hlive k hk).1 (hlive k hk).2
  · intro name s s' L r hh hrun hnamed
    obtain ⟨N, hlook, -⟩ := fat16FindItem_owns disk root name s L r s' hh hrun
    rcases hlook with ⟨-, -, hno⟩ | ⟨k, -, hfull | ⟨i, K, D, hi, -⟩⟩
    · obtain ⟨k, hk, hp, hname⟩ := hnamed
      rw [← hbuffer] at hname
      exact absurd hname (hno k (by rw [hnat]; exact hcover k hk hp))
    · exact Or.inr hfull.2
    · rw [hi]
      exact Or.inl rfl
  · intro name s s' L i hh hrun
    obtain ⟨N, hlook, -⟩ := fat16FindItem_owns disk root name s L (some i) s' hh hrun
    rcases hlook with ⟨h0, -⟩ | ⟨k, hk, h0 | ⟨i', K, D, hi, hfile, -⟩⟩
    · cases h0
    · cases h0.1
    · cases hi
      rw [hbuffer] at hfile
      exact ⟨k, (hlive k hk.lt).1, (hlive k hk.lt).2, hfile⟩

/-- **The lookup finds every live record exactly when no deleted record lies before a live one.** -/
theorem finds_live_iff {disk : Disk} {n : Nat} {s s' : FatState}
    (h : DirectoryImage disk (rootPosition s.fatPrivate.header) s.fatPrivate.header.rootDirEntries n)
    (hmount : fat16GetRootDirectory disk s = .ok (0, s')) :
    FindsLive disk (rootPosition s.fatPrivate.header) s.fatPrivate.header.rootDirEntries n
        s'.fatPrivate.rootDirectory
      ↔ DeletedLast disk (rootPosition s.fatPrivate.header) n := by
  obtain ⟨htotal, hbuffer⟩ := fat16GetRootDirectory_run h hmount
  constructor
  · intro hfinds
    refine (count_covers_iff _ n).mp (fun k hk hp => ?_)
    have hex := hfinds.examined k hk hp
    rw [htotal, Int.toNat_natCast] at hex
    exact hex
  · exact findsLive_of_deletedLast h htotal hbuffer

/-! ## two volumes -/

/-- the volume of `disk` before its root directory is read -/
def bareVolume (disk : Disk) : FatState :=
  ⟨emptyMachine, ⟨0x1000000, fatHeader (diskBytes disk 0 fatHeaderSize),
    ⟨0x1000040, 0, .ofBytes 0 [], 0, 0, 0⟩, ⟨0x1001000, 0⟩, ⟨0x1002000, 0⟩, ⟨0x1003000, 0⟩⟩⟩

/-- a deleted record -/
def deletedRecord : List UInt8 := rootRecord [0xE5, 66] 0 2 1

/-- the file `a`, then a deleted record -/
def deletedLastDisk : Disk := rootDisk (rootRecord [65] 0 2 8 ++ deletedRecord) fun _ => 0

/-- a deleted record, then the file `a` -/
def deletedFirstDisk : Disk := rootDisk (deletedRecord ++ rootRecord [65] 0 2 8) fun _ => 0

theorem rootDisk_image {disk : Disk} (hp : rootPosition (bareVolume disk).fatPrivate.header = 1024)
    (he : (bareVolume disk).fatPrivate.header.rootDirEntries = 16)
    (h0 : recordMark disk 1024 0 ≠ 0) (h1 : recordMark disk 1024 1 ≠ 0)
    (h2 : recordMark disk 1024 2 = 0) :
    DirectoryImage disk (rootPosition (bareVolume disk).fatPrivate.header)
      (bareVolume disk).fatPrivate.header.rootDirEntries 2 := by
  rw [hp, he]
  refine ⟨fun k hk => ?_, h2, by decide, by decide⟩
  rcases Nat.eq_or_lt_of_le (Nat.le_of_lt_succ hk) with rfl | hlt
  · exact h1
  · obtain rfl : k = 0 := by omega
    exact h0

/-- the deleted record stands behind the live one -/
theorem finds_live_iff_last : ∃ s', fat16GetRootDirectory deletedLastDisk (bareVolume deletedLastDisk)
      = .ok (0, s') ∧
    FindsLive deletedLastDisk (rootPosition (bareVolume deletedLastDisk).fatPrivate.header)
      (bareVolume deletedLastDisk).fatPrivate.header.rootDirEntries 2 s'.fatPrivate.rootDirectory := by
  have hmount : outcome (fat16GetRootDirectory deletedLastDisk (bareVolume deletedLastDisk))
      = some 0 := by decide +kernel
  obtain ⟨s', hmount⟩ := outcome_eq hmount
  have himage : DirectoryImage deletedLastDisk
      (rootPosition (bareVolume deletedLastDisk).fatPrivate.header)
      (bareVolume deletedLastDisk).fatPrivate.header.rootDirEntries 2 :=
    rootDisk_image (by decide +kernel) (by decide +kernel) (by decide +kernel) (by decide +kernel)
      (by decide +kernel)
  refine ⟨s', hmount, (finds_live_iff himage hmount).mpr ?_⟩
  intro i j hij hj _
  obtain rfl : i = 0 := by omega
  show recordMark deletedLastDisk (rootPosition (bareVolume deletedLastDisk).fatPrivate.header) 0 ≠ 0xE5
  decide +kernel

/-- the lookup of `a` behind the deleted record -/
def lookupDeletedFirst : Prog FatState Bool := do
  let res ← fat16GetRootDirectory deletedFirstDisk
  let s ← get
  let item ← fat16FindItemInDirectory deletedFirstDisk s.fatPrivate.rootDirectory [97]
  return decide (res = 0) && item.isNone

/-- record 1 is live and has the name `a`, and is not found -/
theorem live_record_missed :
    outcome (lookupDeletedFirst (bareVolume deletedFirstDisk)) = some true ∧
      DirectoryImage deletedFirstDisk 1024 16 2 ∧ Undeleted deletedFirstDisk 1024 1 ∧
      HasName (imageBuffer deletedFirstDisk 1024 16) [97] 1 := by
  have hp : rootPosition (bareVolume deletedFirstDisk).fatPrivate.header = 1024 := by decide +kernel
  have he : (bareVolume deletedFirstDisk).fatPrivate.header.rootDirEntries = 16 := by decide +kernel
  have himage := rootDisk_image hp he (by decide +kernel) (by decide +kernel) (by decide +kernel)
  rw [hp, he] at himage
  exact ⟨by decide +kernel, himage, by decide +kernel, [65], by decide +kernel, by decide +kernel⟩

end LameOS
