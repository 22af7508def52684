import LameOS.Fs.Layout
import LameOS.Fs.Mount
import LameOS.Fs.RootScan
import LameOS.Memory.FirstFit

/-!
# A mount that fails

* `DiskState`, `fat16ResolveDisk`   the mount with the two fields of `struct disk` that it sets;
* `rootDirectory_fails`             the root directory cannot be loaded when its records get no blocks;
* `resolveVolume_fails_iff`         what a mount fails for;
* `fat16Resolve_begins`             the five blocks that it has taken by then;
* `resolve_failure_iff`             **a failure that leaves everything as it was does not happen.**
-/

set_option linter.unusedVariables false

namespace LameOS
open Lib Lib.Exec

/-! ## the fields of the disk -/

/-- what `disk->filesystem` points to -/
inductive Filesystem where
  | fat16
  deriving DecidableEq

/-- the memory, `disk->filesystem` and `disk->fs_private` -/
structure DiskState where
  machine : Machine
  filesystem : Option Filesystem
  fsPrivate : Nat

/-- `fat16_resolve`; the filesystem is set before the first check, and stays -/
def fat16ResolveDisk (disk : Disk) : Prog DiskState Int := do
  let (res, volume) ← part DiskState.machine (fun m s => { s with machine := m }) (fat16Resolve disk)
  modify (fun s => { s with
    filesystem := some .fat16
    fsPrivate := volume.elim 0 FatPrivate.addr })
  return res

/-- the heap table and the fields of the disk are as they were -/
structure DiskRestored (s s' : DiskState) : Prop where
  heap : SameHeap s.machine s'.machine
  filesystem : s'.filesystem = s.filesystem
  fsPrivate : s'.fsPrivate = s.fsPrivate

/-- a negative status means that nothing has changed -/
def FailureRestores (disk : Disk) (s : DiskState) : Prop :=
  ∀ res s', fat16ResolveDisk disk s = .ok (res, s') → res < 0 → DiskRestored s s'

/-- behind five blocks the table has no room for `size` bytes: its last block is taken, and no window
of free blocks is left -/
def RoomRefused (t : HeapTable) (size : Nat) : Prop :=
  (Free t (heapBlocks - 1) → freeBelow t (heapBlocks - 1) < 5) ∧
    (mallocBlocks size = 0 ∨ ∀ b, Window t (mallocBlocks size) b → freeBelow t b < 5)

/-- the bytes of the root directory -/
def rootSize (h : FatHeader) : Nat := h.rootDirEntries * fatDirectoryItemSize

/-! ## the root directory -/

/-- a read that returns has the status 0 -/
theorem diskstreamerRead_status {disk : Disk} {total : Int} {s s' : DiskStream} {r : Int × List UInt8}
    (h : diskstreamerRead disk total s = .ok (r, s')) : r.1 = 0 := by
  unfold diskstreamerRead at h
  by_cases hs : StreamServes s.pos total
  · obtain ⟨bytes, t, hrun, -⟩ := streamLoop_served disk total.toNat total s (by omega) hs
    rw [hrun] at h
    cases h
    rfl
  · rw [streamLoop_unserved disk total.toNat hs] at h
    cases h

section
variable {disk : Disk} {s : FatState} {L : List Run}

/-- the scan of a mount ends at a record that begins with a zero -/
theorem rootScan_ends_iff (disk : Disk) (s : FatState) :
    (∃ t s', fat16GetTotalItemsForDirectory disk ((s.fatPrivate.header.fatCopies
        * s.fatPrivate.header.sectorsPerFat + s.fatPrivate.header.reservedSectors : Nat) : Int) s
          = .ok (t, s')) ↔ ZeroWithin disk (rootStart s.fatPrivate.header) maxItems := by
  rw [← scanLoop_iff (rootStart_aligned _) (rootStart_int _) s.fatPrivate.directoryStream]
  constructor
  · rintro ⟨t, s', h⟩
    obtain ⟨stream, hrun, -⟩ := totalItems_stream h
    exact ⟨t, stream, hrun⟩
  · rintro ⟨t, stream, h⟩
    exact ⟨t, _, totalItems_run h⟩

/-- a root directory that is not loaded: its scan has ended, its records got no blocks, and nothing is
taken -/
theorem rootDirectory_fails (hh : s.machine.Holds L) (hsize : rootSize s.fatPrivate.header < 4294967296)
    {res : Int} {s' : FatState} (hrun : fat16GetRootDirectory disk s = .ok (res, s')) (hne : res ≠ 0) :
    ZeroWithin disk (rootStart s.fatPrivate.header) maxItems ∧
      kzalloc (rootSize s.fatPrivate.header) s.machine = .ok (0, s.machine) ∧
      s'.machine = s.machine := by
  unfold fat16GetRootDirectory at hrun
  rw [bind_ok (get_run s)] at hrun
  dsimp only at hrun
  obtain ⟨t, s1, htotal, hrun⟩ := bind_eq_ok hrun
  have hends := (rootScan_ends_iff disk s).mp ⟨t, s1, htotal⟩
  obtain ⟨stream, -, rfl⟩ := totalItems_stream htotal
  obtain ⟨dir, s2, halloc, hrun⟩ := bind_eq_ok hrun
  obtain ⟨m, hm, rfl⟩ := part_eq_ok halloc
  split at hrun
  · rename_i h0
    obtain ⟨-, rfl⟩ := pure_eq_ok hrun
    rw [h0] at hm
    obtain rfl := kzalloc_null_same hh hsize hm
    exact ⟨hends, hm, rfl⟩
  · obtain ⟨r1, s3, hseek, hrun⟩ := bind_eq_ok hrun
    obtain ⟨t3, hpos, rfl⟩ := part_eq_ok hseek
    obtain ⟨rfl, -⟩ := ok_inj hpos
    rw [if_neg (not_not_intro rfl)] at hrun
    obtain ⟨r, s4, hread, hrun⟩ := bind_eq_ok hrun
    obtain ⟨t4, hbytes, rfl⟩ := part_eq_ok hread
    rw [if_neg (not_not_intro (diskstreamerRead_status hbytes))] at hrun
    cases hrun
    exact absurd rfl hne

theorem rootDirectory_refused (hends : ZeroWithin disk (rootStart s.fatPrivate.header) maxItems)
    (hnull : kzalloc (rootSize s.fatPrivate.header) s.machine = .ok (0, s.machine)) :
    ∃ s', fat16GetRootDirectory disk s = .ok (-ENOMEM, s') := by
  obtain ⟨t, s1, htotal⟩ := (rootScan_ends_iff disk s).mpr hends
  obtain ⟨stream, -, hs1⟩ := totalItems_stream htotal
  have hdir : onHeap (kzalloc (s.fatPrivate.header.rootDirEntries * fatDirectoryItemSize)) s1
      = .ok (0, s1) := by
    rw [hs1]
    exact part_ok hnull
  refine ⟨s1, ?_⟩
  unfold fat16GetRootDirectory
  rw [bind_ok (get_run s)]
  dsimp only
  rw [bind_ok htotal, bind_ok hdir, if_pos rfl]
  rfl

/-! ## the mount -/

/-- the volume with the header of the boot sector -/
def FatState.withHeader (s : FatState) (h : FatHeader) : FatState :=
  { s with fatPrivate := { s.fatPrivate with header := h } }

/-- the root directory after the header and the signature -/
theorem resolveVolume_eq {stream : DiskStream} (hpos : stream.pos = 0) (s : FatState) :
    resolveVolume disk stream s = (if (bootHeader disk).signature ≠ 0x29 then pure (-EFSNOTUS)
      else fat16GetRootDirectory disk >>= fun res => if res ≠ OK then pure (- EIO) else pure 0 :
        Prog FatState Int) (s.withHeader (bootHeader disk)) := by
  have hread : diskstreamerRead disk fatHeaderSize stream
      = .ok ((0, diskBytes disk 0 fatHeaderSize), { stream with pos := (0 + fatHeaderSize : Nat) }) :=
    diskstreamerRead_ok disk hpos (by decide) (by decide)
  have hfirst : (fun s => diskstreamerRead disk fatHeaderSize stream >>= fun x => pure (x.1, s) :
      Prog FatState (Int × List UInt8)) s = .ok ((0, diskBytes disk 0 fatHeaderSize), s) := by
    dsimp only
    rw [hread]
    rfl
  unfold resolveVolume
  refine (bind_ok hfirst).trans ?_
  dsimp only
  rw [if_neg (not_not_intro rfl), bind_ok (modify_run _ s)]
  rfl

/-- **What a mount fails for**: the signature, or the blocks of the root directory; it has taken nothing
then, and it fails in no other way -/
theorem resolveVolume_fails_iff (disk : Disk) {stream : DiskStream} (hpos : stream.pos = 0)
    (hh : s.machine.Holds L) :
    ((∃ res s', resolveVolume disk stream s = .ok (res, s') ∧ res < 0) ↔
      disk 38 ≠ 0x29 ∨ ZeroWithin disk (rootStart (bootHeader disk)) maxItems ∧
        kzalloc (rootSize (bootHeader disk)) s.machine = .ok (0, s.machine)) ∧
    ∀ res s', resolveVolume disk stream s = .ok (res, s') → res < 0 → s'.machine = s.machine := by
  have hsize : rootSize (s.withHeader (bootHeader disk)).fatPrivate.header < 4294967296 := by
    have hentries : (bootHeader disk).rootDirEntries < 65536 := bytes16_lt _ 17
    show (bootHeader disk).rootDirEntries * fatDirectoryItemSize < 4294967296
    dsimp only [fatDirectoryItemSize]
    omega
  have hsig : (bootHeader disk).signature ≠ 0x29 ↔ disk 38 ≠ 0x29 := by
    show (disk (0 + 38)).toNat ≠ (0x29 : UInt8).toNat ↔ _
    rw [Nat.zero_add, Ne, UInt8.toNat_inj]
  rw [resolveVolume_eq hpos]
  by_cases hs : (bootHeader disk).signature ≠ 0x29
  · rw [if_pos hs]
    refine ⟨iff_of_true ⟨_, _, rfl, by decide⟩ (Or.inl (hsig.mp hs)), fun res s' hrun _ => ?_⟩
    obtain ⟨-, rfl⟩ := pure_eq_ok hrun
    rfl
  · rw [if_neg hs]
    have hfails : ∀ res s', (fat16GetRootDirectory disk >>= fun res => if res ≠ OK then pure (- EIO)
        else pure 0 : Prog FatState Int) (s.withHeader (bootHeader disk)) = .ok (res, s') → res < 0 →
          ZeroWithin disk (rootStart (bootHeader disk)) maxItems ∧
            kzalloc (rootSize (bootHeader disk)) s.machine = .ok (0, s.machine) ∧
            s'.machine = s.machine := by
      intro res s' hrun hneg
      obtain ⟨r, s1, hroot, hrun⟩ := bind_eq_ok hrun
      split at hrun
      · rename_i hne
        obtain ⟨-, rfl⟩ := pure_eq_ok hrun
        exact rootDirectory_fails (s := s.withHeader (bootHeader disk)) hh hsize hroot hne
      · obtain ⟨rfl, -⟩ := pure_eq_ok hrun
        exact absurd hneg (by decide)
    refine ⟨⟨?_, ?_⟩, fun res s' hrun hneg => (hfails res s' hrun hneg).2.2⟩
    · rintro ⟨res, s', hrun, hneg⟩
      obtain ⟨hends, hnull, -⟩ := hfails res s' hrun hneg
      exact Or.inr ⟨hends, hnull⟩
    · rintro (hbad | ⟨hends, hnull⟩)
      · exact absurd (hsig.mpr hbad) hs
      · obtain ⟨s', hroot⟩ := rootDirectory_refused (s := s.withHeader (bootHeader disk)) hends hnull
        refine ⟨- EIO, s', ?_, by decide⟩
        rw [bind_ok hroot, if_pos (by decide)]
        rfl

end

/-! ## the blocks of a mount -/

section
variable {t0 : HeapTable} {k : Nat} {m : Machine} {L : List Run}

theorem deref_block (b : Nat) (m : Machine) : deref (blockAddr b) m = .ok ((), m) := by
  unfold deref
  rw [if_neg blockAddr_ne]
  rfl

theorem diskstreamerNew_next (hh : m.Holds L) (h : FirstTaken t0 k m.heap.table)
    (hk : k < freeBlocks t0) : ∃ b m', diskstreamerNew m = .ok (⟨blockAddr b, 0⟩, m') ∧
      m'.Holds (⟨b, 1⟩ :: L) ∧ FirstTaken t0 (k + 1) m'.heap.table := by
  obtain ⟨b, m', hrun, hh', h'⟩ := kzalloc_next hh h hk (by decide : 1 ≤ diskStreamSize) (by decide)
  refine ⟨b, m', ?_, hh', h'⟩
  unfold diskstreamerNew
  rw [bind_ok hrun, bind_ok (deref_block b m')]
  rfl

/-- the label `out` of a mount -/
def resolveOut (addr stream : Nat) (res : Int) (p : FatPrivate) :
    Prog Machine (Int × Option FatPrivate) := do
  kfree stream
  if res < 0 then
    kfree addr
    return (res, none)
  else
    return (res, some p)

/-- **The five blocks** that a mount takes before it reads the header: the volume at block `a`, its three
streams and the stream for the header, at block `c` -/
theorem fat16Resolve_begins (disk : Disk) (hh : m.Holds L) (hfree : 5 ≤ freeBlocks m.heap.table) :
    ∃ (a c : Nat) (N : List Run) (p : FatPrivate) (m' : Machine), N.length = 3 ∧
      m'.Holds (⟨c, 1⟩ :: (N ++ ⟨a, 1⟩ :: L)) ∧ FirstTaken m.heap.table 5 m'.heap.table ∧
      fat16Resolve disk m = match resolveVolume disk ⟨blockAddr c, 0⟩ ⟨m', p⟩ with
        | .error e => .error e
        | .ok (res, s) => resolveOut (blockAddr a) (blockAddr c) res s.fatPrivate s.machine := by
  obtain ⟨a, m1, hrun1, hh1, h1⟩ := kzalloc_next hh (FirstTaken.refl _) (by omega : 0 < _)
    (by decide : 1 ≤ fatPrivateSize) (by decide)
  obtain ⟨b1, m2, hrun2, hh2, h2⟩ := diskstreamerNew_next hh1 h1 (by omega)
  obtain ⟨b2, m3, hrun3, hh3, h3⟩ := diskstreamerNew_next hh2 h2 (by omega)
  obtain ⟨b3, m4, hrun4, hh4, h4⟩ := diskstreamerNew_next hh3 h3 (by omega)
  obtain ⟨c, m5, hrun5, hh5, h5⟩ := diskstreamerNew_next hh4 h4 (by omega)
  obtain ⟨p, hinit⟩ : ∃ p, fat16InitPrivate (blockAddr a) m1 = .ok (p, m4) := by
    unfold fat16InitPrivate
    rw [bind_ok (deref_block a m1), bind_ok hrun2, bind_ok hrun3, bind_ok hrun4]
    exact ⟨_, rfl⟩
  refine ⟨a, c, [⟨b3, 1⟩, ⟨b2, 1⟩, ⟨b1, 1⟩], p, m5, rfl, hh5, h5, ?_⟩
  unfold fat16Resolve
  rw [bind_ok hrun1, bind_ok hinit, bind_ok hrun5, bind_ok (get_run _)]
  cases resolveVolume disk ⟨blockAddr c, 0⟩ ⟨m5, p⟩ with
  | error e => rfl
  | ok r =>
    obtain ⟨res, s⟩ := r
    dsimp only
    rw [bind_ok (set_run m5 s.machine)]
    rfl

theorem resolveOut_status {addr stream : Nat} {res res' : Int} {p : FatPrivate} {v : Option FatPrivate}
    {m' : Machine} (h : resolveOut addr stream res p m = .ok ((res', v), m')) : res' = res := by
  unfold resolveOut at h
  obtain ⟨u, m1, -, h⟩ := bind_eq_ok h
  split at h
  · obtain ⟨u2, m2, -, h⟩ := bind_eq_ok h
    exact (Prod.mk.inj (pure_eq_ok h).1).1.symm
  · exact (Prod.mk.inj (pure_eq_ok h).1).1.symm

/-- a mount that fails gives the volume and the stream for the header back, and keeps the rest -/
theorem resolveOut_fails {a c : Nat} {N : List Run} {res : Int} (hres : res < 0) (p : FatPrivate)
    (hh : m.Holds (⟨c, 1⟩ :: (N ++ ⟨a, 1⟩ :: L))) : ∃ m',
      resolveOut (blockAddr a) (blockAddr c) res p m = .ok ((res, none), m') ∧ m'.Holds (N ++ L) := by
  obtain ⟨hfree, hh1⟩ := kfree_ok hh
  have hperm : (N ++ ⟨a, 1⟩ :: L).Perm (⟨a, 1⟩ :: (N ++ L)) := List.perm_middle
  obtain ⟨hfree2, hh2⟩ := kfree_ok (hh1.perm hperm)
  refine ⟨_, ?_, hh2⟩
  unfold resolveOut
  rw [bind_ok hfree, if_pos hres]
  exact bind_ok hfree2

end

/-! ## failures -/

section
variable {disk : Disk} {s : DiskState} {L : List Run}

/-- the request for the root directory, behind the five blocks -/
theorem roomRefused_iff {t0 : HeapTable} {m : Machine} (hh : m.Holds L)
    (h : FirstTaken t0 5 m.heap.table) {size : Nat} (hsize : size < 4294967296) :
    kzalloc size m = .ok (0, m) ↔ RoomRefused t0 size := by
  have htotal : t0.total = heapBlocks := h.total.symm.trans hh.total
  have hlast := h.free (heapBlocks - 1) (by rw [htotal]; decide)
  rw [kzalloc_null_iff hh hsize, hlast]
  unfold RoomRefused
  refine and_congr ⟨fun hno hf => ?_, fun hno hf => ?_⟩ ?_
  · exact Nat.lt_of_not_le (fun hle => hno ⟨hf, hle⟩)
  · exact absurd hf.2 (Nat.not_le_of_lt (hno hf.1))
  · rcases Nat.eq_zero_or_pos (mallocBlocks size) with h0 | hpos
    · exact iff_of_true (Or.inl h0) (Or.inl h0)
    · refine or_congr_right (forall_congr' (fun b => ?_))
      rw [window_taken_iff h hpos]
      exact ⟨fun hno hw => Nat.lt_of_not_le (fun hle => hno ⟨hw, hle⟩),
        fun hno hw => absurd hw.2 (Nat.not_le_of_lt (hno hw.1))⟩

/-- the filesystem is set on every path -/
theorem fat16ResolveDisk_filesystem {res : Int} {s' : DiskState}
    (h : fat16ResolveDisk disk s = .ok (res, s')) : s'.filesystem = some .fat16 := by
  unfold fat16ResolveDisk at h
  obtain ⟨⟨r, v⟩, s1, -, h⟩ := bind_eq_ok h
  obtain ⟨u, s2, hset, h⟩ := bind_eq_ok h
  obtain ⟨-, rfl⟩ := pure_eq_ok h
  cases hset
  rfl

/-- **When the status is negative, and what is left of the heap then** -/
theorem fat16ResolveDisk_negative_iff (disk : Disk) (hh : s.machine.Holds L)
    (hfree : 5 ≤ freeBlocks s.machine.heap.table) :
    ((∃ res s', fat16ResolveDisk disk s = .ok (res, s') ∧ res < 0) ↔
      disk 38 ≠ 0x29 ∨ ZeroWithin disk (rootStart (bootHeader disk)) maxItems ∧
        RoomRefused s.machine.heap.table (rootSize (bootHeader disk))) ∧
    ∀ res s', fat16ResolveDisk disk s = .ok (res, s') → res < 0 →
      ∃ N, N.length = 3 ∧ s'.machine.Holds (N ++ L) := by
  obtain ⟨a, c, N, p, m, hN, hh5, h5, hrun⟩ := fat16Resolve_begins disk hh hfree
  have hsize : rootSize (bootHeader disk) < 4294967296 := by
    have hentries : (bootHeader disk).rootDirEntries < 65536 := bytes16_lt _ 17
    unfold rootSize
    dsimp only [fatDirectoryItemSize]
    omega
  obtain ⟨hfails, hsame⟩ := resolveVolume_fails_iff disk (s := ⟨m, p⟩)
    (rfl : (⟨blockAddr c, 0⟩ : DiskStream).pos = 0) hh5
  rw [roomRefused_iff hh5 h5 hsize] at hfails
  -- a negative status is that of `resolveVolume`
  have hback : ∀ res s', fat16ResolveDisk disk s = .ok (res, s') → res < 0 → ∃ t,
      resolveVolume disk ⟨blockAddr c, 0⟩ ⟨m, p⟩ = .ok (res, t) ∧ s'.machine.Holds (N ++ L) := by
    intro res s' hres hneg
    unfold fat16ResolveDisk at hres
    obtain ⟨⟨res', v⟩, s1, hpart, hres⟩ := bind_eq_ok hres
    obtain ⟨m1, hresolve, rfl⟩ := part_eq_ok hpart
    obtain ⟨u, s2, hset, hres⟩ := bind_eq_ok hres
    obtain ⟨rfl, rfl⟩ := pure_eq_ok hres
    cases hset
    rw [hrun] at hresolve
    cases hvol : resolveVolume disk ⟨blockAddr c, 0⟩ ⟨m, p⟩ with
    | error e =>
      rw [hvol] at hresolve
      cases hresolve
    | ok r =>
      obtain ⟨res, t⟩ := r
      rw [hvol] at hresolve
      dsimp only at hresolve
      obtain rfl := resolveOut_status hresolve
      have hm : t.machine = m := hsame _ t hvol hneg
      rw [hm] at hresolve
      obtain ⟨m', hout, hheld⟩ := resolveOut_fails hneg t.fatPrivate hh5
      obtain ⟨-, rfl⟩ := run_unique hresolve hout
      exact ⟨t, rfl, hheld⟩
  constructor
  · rw [← hfails]
    constructor
    · rintro ⟨res, s', hres, hneg⟩
      obtain ⟨t, hvol, -⟩ := hback res s' hres hneg
      exact ⟨res, t, hvol, hneg⟩
    · rintro ⟨res, t, hvol, hneg⟩
      have hm : t.machine = m := hsame res t hvol hneg
      obtain ⟨m', hout, -⟩ := resolveOut_fails hneg t.fatPrivate hh5
      rw [hvol] at hrun
      dsimp only at hrun
      rw [hm] at hrun
      have hpart : part DiskState.machine (fun m s => { s with machine := m }) (fat16Resolve disk) s
          = .ok ((res, none), { s with machine := m' }) := part_ok (hrun.trans hout)
      refine ⟨res, ⟨m', some .fat16, 0⟩, ?_, hneg⟩
      unfold fat16ResolveDisk
      rw [bind_ok hpart]
      rfl
  · intro res s' hres hneg
    obtain ⟨t, -, hheld⟩ := hback res s' hres hneg
    exact ⟨N, hN, hheld⟩

/-- a heap that is the same holds the same runs -/
theorem Machine.Holds.of_same {m m' : Machine} {N : List Run} (h : m.Holds L) (h' : m'.Holds N)
    (hs : SameHeap m m') : L.Perm N :=
  h.tiled.perm_of_same h'.tiled hs.total.symm (fun i hi => (hs.entries i hi).symm)

/-- three streams are three runs too many -/
theorem not_diskRestored {s' : DiskState} {N : List Run} (hh : s.machine.Holds L) (hN : N.length = 3)
    (hh' : s'.machine.Holds (N ++ L)) : ¬ DiskRestored s s' := by
  intro hsame
  have hlen := (hh.of_same hh' hsame.heap).length_eq
  rw [List.length_append, hN] at hlen
  omega

/-- **A mount that fails does not restore the disk**: with five free blocks, a negative status leaves
everything as it was only where there is none. That is a volume with the signature, and a root directory
whose records get their blocks -/
theorem resolve_failure_iff (disk : Disk) (s : DiskState) (L : List Run) (hh : s.machine.Holds L)
    (hfree : 5 ≤ freeBlocks s.machine.heap.table) :
    FailureRestores disk s ↔ disk 38 = 0x29 ∧ (ZeroWithin disk (rootStart (bootHeader disk)) maxItems →
      ¬ RoomRefused s.machine.heap.table (rootSize (bootHeader disk))) := by
  obtain ⟨hfails, hleaks⟩ := fat16ResolveDisk_negative_iff disk hh hfree
  have hnone : FailureRestores disk s ↔
      ¬ ∃ res s', fat16ResolveDisk disk s = .ok (res, s') ∧ res < 0 := by
    constructor
    · rintro hall ⟨res, s', hrun, hneg⟩
      obtain ⟨N, hN, hheld⟩ := hleaks res s' hrun hneg
      exact not_diskRestored hh hN hheld (hall res s' hrun hneg)
    · intro hno res s' hrun hneg
      exact absurd ⟨res, s', hrun, hneg⟩ hno
  rw [hnone, hfails, not_or, not_and, Ne, not_not]

end

theorem resolve_failure_iff_boot : FailureRestores (bootDisk 1) ⟨emptyMachine, none, 0⟩ ↔
    bootDisk 1 38 = 0x29 ∧ (ZeroWithin (bootDisk 1) (rootStart (bootHeader (bootDisk 1))) maxItems →
      ¬ RoomRefused emptyMachine.heap.table (rootSize (bootHeader (bootDisk 1)))) :=
  resolve_failure_iff (bootDisk 1) ⟨emptyMachine, none, 0⟩ [] emptyMachine_holds
    (le_trans (by decide) emptyMachine_blocks)

/-- a disk of zeros is refused by its signature: three blocks stay taken, and the filesystem is set -/
theorem refused_disk_leaks : ∃ res s',
    fat16ResolveDisk (fun _ => 0) ⟨emptyMachine, none, 0⟩ = .ok (res, s') ∧ res < 0 ∧ s'.filesystem = some .fat16 ∧ (∃ N, N.length = 3 ∧ s'.machine.Holds N) ∧
    ¬ FailureRestores (fun _ => 0) ⟨emptyMachine, none, 0⟩ := by
  obtain ⟨hfails, hleaks⟩ := fat16ResolveDisk_negative_iff (fun _ => 0)
    (s := ⟨emptyMachine, none, 0⟩) emptyMachine_holds (le_trans (by decide) emptyMachine_blocks)
  obtain ⟨res, s', hrun, hneg⟩ := hfails.mpr (Or.inl (by decide))
  obtain ⟨N, hN, hheld⟩ := hleaks res s' hrun hneg
  refine ⟨res, s', hrun, hneg, fat16ResolveDisk_filesystem hrun, ⟨N, hN, ?_⟩, fun hall => ?_⟩
  · rwa [List.append_nil] at hheld
  · exact not_diskRestored emptyMachine_holds hN hheld (hall res s' hrun hneg)

end LameOS
