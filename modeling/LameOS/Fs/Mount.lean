import LameOS.Fs.FileOwned
import LameOS.Memory.Headroom

/-!
# What a mount allocates

* `Blocks n N`            at most `n` allocations, of one block each;
* `fat16Resolve_owns`     the mount of a volume whose root directory fits into a block takes six
                          blocks at most;
* `freeBlocks_single`     the blocks that are left;
* `diskSearchAndInit_owns`   the state after the mount: no file is open.
-/

set_option linter.unusedVariables false

namespace LameOS
open Lib Lib.Exec

/-- at most `n` allocations, of one block each -/
structure Blocks (n : Nat) (N : List Run) : Prop where
  length : N.length ≤ n
  single : ∀ r ∈ N, r.len = 1

theorem Blocks.nil (n : Nat) : Blocks n [] :=
  ⟨Nat.zero_le n, fun r hr => absurd hr List.not_mem_nil⟩

theorem Blocks.mono {n k : Nat} {N : List Run} (h : Blocks n N) (hk : n ≤ k) : Blocks k N :=
  ⟨h.length.trans hk, h.single⟩

theorem Blocks.append {n k : Nat} {M N : List Run} (hM : Blocks n M) (hN : Blocks k N) :
    Blocks (n + k) (M ++ N) := by
  refine ⟨?_, fun r hr => ?_⟩
  · have h1 := hM.length
    have h2 := hN.length
    rw [List.length_append]
    omega
  · rcases List.mem_append.mp hr with hr | hr
    · exact hM.single r hr
    · exact hN.single r hr

theorem Blocks.oneBlock (b : Nat) : Blocks 1 [oneBlock b] :=
  ⟨le_refl 1, fun r hr => by rw [List.mem_singleton.mp hr]; rfl⟩

/-- the blocks that allocations of one block leave -/
theorem freeBlocks_single {m : Machine} {L : List Run} (h : m.Holds L)
    (hL : ∀ r ∈ L, r.len = 1) : freeBlocks m.heap.table + L.length = heapBlocks := by
  induction L generalizing m with
  | nil =>
    have hfree : freeBlocks m.heap.table = m.heap.table.total := by
      unfold freeBlocks
      rw [List.countP_eq_length.mpr, List.length_range]
      intro i hi
      refine decide_eq_true ((h.tiled.free_iff (List.mem_range.mp hi)).mpr (fun r hr => ?_))
      exact absurd hr List.not_mem_nil
    rw [hfree, h.total]
    rfl
  | cons r L ih =>
    have hwipe := freeBlocks_wipe h.tiled (hL r List.mem_cons_self)
    have hrest := ih (kfree_ok h).2 (fun q hq => hL q (List.mem_cons_of_mem r hq))
    have e : (m.release r).heap.table = m.heap.table.wipe r := rfl
    rw [e, hwipe] at hrest
    rw [List.length_cons]
    omega

/-! ## the mount -/

theorem diskstreamerNew_owns (m : Machine) :
    Owns itself [] diskstreamerNew m (fun t _ N => Points [t.addr] N ∧ t.pos = 0 ∧ Blocks 1 N) := by
  unfold diskstreamerNew
  refine Owns.bind (kzalloc_owns_block (by decide) (by decide) m) (fun p m1 N h => ?_)
  refine Owns.bind (deref_owns p) (fun _ m2 N' h' => ?_)
  obtain ⟨hp, rfl, rfl⟩ := h'
  rcases h with ⟨b, rfl, rfl, -⟩ | ⟨h0, -, -⟩
  · exact Owns.pure ⟨Points.single (oneBlock b), rfl, Blocks.oneBlock b⟩
  · exact absurd h0 hp

theorem fat16InitPrivate_owns (p : Nat) (m : Machine) :
    Owns itself [] (fat16InitPrivate p) m (fun _ _ N => Blocks 3 N) := by
  unfold fat16InitPrivate
  refine Owns.bind (deref_owns p) (fun _ m0 N0 h0 => ?_)
  obtain ⟨-, rfl, rfl⟩ := h0
  refine Owns.bind (diskstreamerNew_owns m0) (fun t1 m1 N1 h1 => ?_)
  refine Owns.bind ((diskstreamerNew_owns m1).frame N1) (fun t2 m2 N2 h2 => ?_)
  obtain ⟨M2, h2, rfl⟩ := h2
  refine Owns.bind ((diskstreamerNew_owns m2).frame (M2 ++ N1)) (fun t3 m3 N3 h3 => ?_)
  obtain ⟨M3, h3, rfl⟩ := h3
  exact Owns.pure (h3.2.2.append (h2.2.2.append h1.2.2))

/-- the records of the root directory fill a block at most -/
def RootFits (h : FatHeader) : Prop :=
  1 ≤ h.rootDirEntries ∧ h.rootDirEntries * fatDirectoryItemSize ≤ 4096

theorem fat16GetRootDirectory_owns (disk : Disk) (s : FatState)
    (h : s.fatPrivate.header.rootDirEntries < 65536) :
    Owns FatState.machine [] (fat16GetRootDirectory disk) s (fun _ _ N =>
      RootFits s.fatPrivate.header → Blocks 1 N) := by
  unfold fat16GetRootDirectory
  refine Owns.get_bind ?_
  refine Owns.bind (keeps_owns (sameMachine_quiet.fat16GetTotalItems disk _) s) (fun t s1 N1 h1 => ?_)
  obtain ⟨-, rfl⟩ := h1
  have hsized : Sized (s.fatPrivate.header.rootDirEntries * fatDirectoryItemSize) := by
    dsimp only [fatDirectoryItemSize, Sized]
    omega
  refine Owns.bind (onHeap_owns (kzalloc_owns hsized s1.machine)) (fun dir s2 N2 h2 => ?_)
  have hN2 : RootFits s.fatPrivate.header → Blocks 1 N2 := by
    intro hfits
    have hone : blocksFor (s.fatPrivate.header.rootDirEntries * fatDirectoryItemSize) = 1 := by
      obtain ⟨h1, h2⟩ := hfits
      dsimp only [fatDirectoryItemSize, blocksFor] at h2 ⊢
      omega
    obtain ⟨⟨⟨b, len⟩, hlen, -, -, rfl⟩ | ⟨-, rfl⟩ | ⟨-, rfl, -⟩, -⟩ := h2
    · obtain rfl : len = 1 := hlen.trans hone
      exact Blocks.oneBlock b
    · exact Blocks.nil 1
    · exact Blocks.nil 1
  refine Owns.ite (fun _ => Owns.pure hN2) (fun _ => ?_)
  refine Owns.bind (keeps_owns (sameMachine_quiet.onDirectoryStream _) s2) (fun res s3 N3 h3 => ?_)
  obtain ⟨-, rfl⟩ := h3
  refine Owns.ite (fun _ => Owns.pure hN2) (fun _ => ?_)
  refine Owns.bind (keeps_owns (sameMachine_quiet.onDirectoryStream _) s3) (fun r s4 N4 h4 => ?_)
  obtain ⟨-, rfl⟩ := h4
  refine Owns.ite (fun _ => Owns.pure hN2) (fun _ => ?_)
  refine Owns.bind (Owns.modify rfl) (fun _ s5 N5 h5 => ?_)
  obtain ⟨-, rfl⟩ := h5
  exact Owns.pure hN2

theorem bytes16_lt (bs : List UInt8) (i : Nat) : bytes16 bs i < 65536 := by
  have h0 := (bs.getD i 0).toNat_lt
  have h1 := (bs.getD (i + 1) 0).toNat_lt
  unfold bytes16
  omega

theorem resolveVolume_owns {disk : Disk} {stream : DiskStream} (hpos : stream.pos = 0) (s : FatState) :
    Owns FatState.machine [] (resolveVolume disk stream) s (fun _ _ N =>
      RootFits (fatHeader (diskBytes disk 0 fatHeaderSize)) → Blocks 1 N) := by
  have hread : diskstreamerRead disk fatHeaderSize stream
      = .ok ((0, diskBytes disk 0 fatHeaderSize), { stream with pos := (0 + fatHeaderSize : Nat) }) :=
    diskstreamerRead_ok disk hpos (by decide) (by decide)
  unfold resolveVolume
  refine Owns.bind (Owns.still (fun r s' hr => ?_)) (fun r s1 N h1 => ?_)
  · rw [hread] at hr
    cases hr
    rfl
  · obtain ⟨hr, rfl⟩ := h1
    rw [hread] at hr
    cases hr
    dsimp only
    rw [if_neg (not_not_intro rfl)]
    refine Owns.bind (Owns.modify rfl) (fun _ s2 N2 h2 => ?_)
    obtain ⟨rfl, rfl⟩ := h2
    refine Owns.ite (fun _ => Owns.pure (fun _ => Blocks.nil 1)) (fun _ => ?_)
    refine Owns.bind (fat16GetRootDirectory_owns disk _ (bytes16_lt _ 17)) (fun res s3 N3 h3 => ?_)
    exact Owns.ite (fun _ => Owns.pure h3) (fun _ => Owns.pure h3)

/-- the volume as it is resolved, over the memory -/
theorem onResolve_owns {disk : Disk} {stream : DiskStream} {p : FatPrivate} {m : Machine}
    (hpos : stream.pos = 0) {res : Int} {s : FatState}
    (hrun : resolveVolume disk stream ⟨m, p⟩ = .ok (res, s)) :
    Owns itself [] (set s.machine : Prog Machine PUnit) m (fun _ m' N =>
      m' = s.machine ∧ (RootFits (fatHeader (diskBytes disk 0 fatHeaderSize)) → Blocks 1 N)) := by
  intro L u m' hh hset
  cases hset
  obtain ⟨N, hN, hh', hu⟩ := resolveVolume_owns hpos ⟨m, p⟩ L res s hh hrun
  exact ⟨N, ⟨rfl, hN⟩, hh', hu⟩

/-- what a mount leaves on the heap -/
theorem fat16Resolve_leaves (disk : Disk) (m : Machine) : Owns itself [] (fat16Resolve disk) m
    (fun _ _ N => RootFits (fatHeader (diskBytes disk 0 fatHeaderSize)) → Blocks 6 N) := by
  unfold fat16Resolve
  refine Owns.bind (kzalloc_owns_block (by decide) (by decide) m) (fun addr m1 N1 h1 => ?_)
  refine Owns.bind ((fat16InitPrivate_owns addr m1).frame N1) (fun p m2 N2 h2 => ?_)
  obtain ⟨M2, h2, rfl⟩ := h2
  refine Owns.bind ((diskstreamerNew_owns m2).frame (M2 ++ N1)) (fun stream m3 N3 h3 => ?_)
  obtain ⟨M3, ⟨hpoints, hpos, -⟩, rfl⟩ := h3
  refine Owns.get_bind ?_
  cases hrun : resolveVolume disk stream ⟨m3, p⟩ with
  | error e => exact Owns.throw
  | ok r =>
    obtain ⟨res, s⟩ := r
    dsimp only
    refine Owns.bind ((onResolve_owns hpos hrun).frame (M3 ++ (M2 ++ N1))) (fun _ m4 N4 h4 => ?_)
    obtain ⟨M4, ⟨rfl, h4⟩, rfl⟩ := h4
    -- the stream for the header is freed
    obtain ⟨r, M, hr, hM, hnil⟩ := hpoints.cons
    rw [hnil.eq_nil] at hM
    obtain rfl := List.perm_singleton.mp hM
    have hperm : (M4 ++ ([r] ++ (M2 ++ N1))).Perm (r :: (M4 ++ (M2 ++ N1))) := List.perm_middle
    refine Owns.bind (Owns.perm (hr ▸ kfree_owns s.machine) hperm) (fun _ m5 N5 h5 => ?_)
    rw [h5]
    rcases h1 with ⟨b, rfl, rfl, -⟩ | ⟨rfl, rfl, -⟩
    · refine Owns.ite (fun _ => ?_) (fun _ => ?_)
      · have hperm : (M4 ++ (M2 ++ [oneBlock b])).Perm (oneBlock b :: (M4 ++ M2)) := by
          rw [← List.append_assoc]
          exact List.perm_append_comm
        refine Owns.bind (Owns.perm (kfree_owns (r := oneBlock b) m5) hperm) (fun _ m6 N6 h6 => ?_)
        rw [h6]
        exact Owns.pure (fun h => ((h4 h).append h2).mono (by decide))
      · exact Owns.pure (fun h => ((h4 h).append (h2.append (Blocks.oneBlock b))).mono (by decide))
    · refine Owns.ite (fun _ => ?_) (fun _ => ?_)
      · exact Owns.bind (Q := fun _ _ _ => False) (kfree_null_owns m5) (fun _ _ _ h => h.elim)
      · exact Owns.pure (fun h => ((h4 h).append (h2.append (Blocks.nil 0))).mono (by decide))

/-- **A mount leaves six allocations of one block at most.** -/
theorem fat16Resolve_owns (disk : Disk) (h : RootFits (fatHeader (diskBytes disk 0 fatHeaderSize)))
    (m : Machine) : Owns itself [] (fat16Resolve disk) m (fun _ _ N => Blocks 6 N) :=
  (fat16Resolve_leaves disk m).mono (fun _ _ _ hN => hN h)

/-- after the mount no file is open, and the heap is in order -/
theorem diskSearchAndInit_leaves {disk : Disk} {m m' : Machine} {s : FileState} {L : List Run}
    (hh : m.Holds L) (hrun : diskSearchAndInit disk m = .ok (s, m')) :
    s.files = (fun _ => none) ∧ ∃ N, s.machine.Holds (N ++ L) ∧
      (RootFits (fatHeader (diskBytes disk 0 fatHeaderSize)) → Blocks 6 N) := by
  unfold diskSearchAndInit at hrun
  obtain ⟨⟨res, p⟩, m1, hres, hrun⟩ := bind_eq_ok hrun
  dsimp only at hrun
  rw [bind_ok (get_run m1)] at hrun
  obtain ⟨rfl, -⟩ := pure_eq_ok hrun
  obtain ⟨N, hN, hh', -⟩ := fat16Resolve_leaves disk m L (res, p) m1 hh hres
  exact ⟨rfl, N, hh', hN⟩

/-- **After the mount no file is open, and the heap has six allocations of one block at most.** -/
theorem diskSearchAndInit_owns {disk : Disk} {m m' : Machine} {s : FileState} {L : List Run}
    (h : RootFits (fatHeader (diskBytes disk 0 fatHeaderSize))) (hh : m.Holds L)
    (hrun : diskSearchAndInit disk m = .ok (s, m')) :
    s.files = (fun _ => none) ∧ ∃ N, Blocks 6 N ∧ s.machine.Holds (N ++ L) := by
  obtain ⟨hfiles, N, hh', hN⟩ := diskSearchAndInit_leaves hh hrun
  exact ⟨hfiles, N, hN h, hh'⟩

/-! ## where it leaves the heap free -/

theorem deref_raises (p : Nat) : Raises itself 0 (deref p) :=
  Raises.still (fun m u m' hrun => by
    unfold deref at hrun
    split at hrun
    · cases hrun
    · cases hrun
      rfl)

theorem diskstreamerNew_raises : Raises itself 1 diskstreamerNew :=
  (kzalloc_raises_one (by decide) (by decide)).bind (fun streamer =>
    (deref_raises streamer).bind (fun _ => Raises.pure _))

theorem fat16InitPrivate_raises (p : Nat) : Raises itself 3 (fat16InitPrivate p) :=
  (deref_raises p).bind (fun _ => diskstreamerNew_raises.bind (fun _ =>
    diskstreamerNew_raises.bind (fun _ => diskstreamerNew_raises.bind (fun _ => Raises.pure _))))

theorem quiet_raises {α : Type} {x : Prog FatState α} (h : Keeps SameMachine x) :
    Raises FatState.machine 0 x :=
  Raises.still (fun s a s' hrun => congrArg Machine.heap (h s a s' hrun))

/-- the records of a root directory fill 512 blocks at most -/
theorem rootBlocks_le {n : Nat} (h : n < 65536) : mallocBlocks (n * fatDirectoryItemSize) ≤ 512 := by
  unfold mallocBlocks
  rw [heapAlign_blocks (by dsimp only [fatDirectoryItemSize]; omega)]
  dsimp only [blocksFor, fatDirectoryItemSize]
  omega

theorem fat16GetRootDirectory_raises (disk : Disk) {s s' : FatState} {k : Nat} {res : Int}
    (h : s.fatPrivate.header.rootDirEntries < 65536) (hk : FreeFrom k s.machine)
    (hrun : fat16GetRootDirectory disk s = .ok (res, s')) : FreeFrom (k + 512) s'.machine := by
  have hsize : s.fatPrivate.header.rootDirEntries * fatDirectoryItemSize < 4294967296 := by
    dsimp only [fatDirectoryItemSize]
    omega
  unfold fat16GetRootDirectory at hrun
  rw [bind_ok (get_run s)] at hrun
  refine Raises.mono ?_ (rootBlocks_le h) k s res s' hk hrun
  have hread : ∀ {α : Type} (x : Prog DiskStream α), Raises FatState.machine 0 (onDirectoryStream x) :=
    fun x => quiet_raises (sameMachine_quiet.onDirectoryStream x)
  refine (quiet_raises (sameMachine_quiet.fat16GetTotalItems disk _)).after (fun totalItems =>
    ((kzalloc_raises hsize).part (fun _ => rfl) (fun _ _ => rfl)).bind (d := 0) (fun dir => ?_))
  refine Raises.ite (fun _ => Raises.pure _) (fun _ => (hread _).after (fun res => ?_))
  refine Raises.ite (fun _ => Raises.pure _) (fun _ => (hread _).after (fun r => ?_))
  refine Raises.ite (fun _ => Raises.pure _) (fun _ => ?_)
  refine Raises.after (Raises.modify ?_) (fun _ => Raises.pure 0)
  exact fun _ => rfl

theorem resolveVolume_raises {disk : Disk} {stream : DiskStream} (hpos : stream.pos = 0)
    {s s' : FatState} {k : Nat} {res : Int} (hk : FreeFrom k s.machine)
    (hrun : resolveVolume disk stream s = .ok (res, s')) : FreeFrom (k + 512) s'.machine := by
  have hread : diskstreamerRead disk fatHeaderSize stream
      = .ok ((0, diskBytes disk 0 fatHeaderSize), { stream with pos := (0 + fatHeaderSize : Nat) }) :=
    diskstreamerRead_ok disk hpos (by decide) (by decide)
  unfold resolveVolume at hrun
  obtain ⟨r, s1, h1, hrun⟩ := bind_eq_ok hrun
  rw [hread] at h1
  cases h1
  dsimp only at hrun
  rw [if_neg (not_not_intro rfl)] at hrun
  obtain ⟨u, s2, h2, hrun⟩ := bind_eq_ok hrun
  cases h2
  split at hrun
  · obtain ⟨-, rfl⟩ := pure_eq_ok hrun
    exact hk.mono (Nat.le_add_right k 512)
  · obtain ⟨res, s3, h3, hrun⟩ := bind_eq_ok hrun
    have hroot : (fatHeader (diskBytes disk 0 fatHeaderSize)).rootDirEntries < 65536 := bytes16_lt _ 17
    have hk2 : FreeFrom k ({ s with fatPrivate := { s.fatPrivate with
      header := fatHeader (diskBytes disk 0 fatHeaderSize) } } : FatState).machine := hk
    have hk3 := fat16GetRootDirectory_raises disk hroot hk2 h3
    split at hrun
    · obtain ⟨-, rfl⟩ := pure_eq_ok hrun
      exact hk3
    · obtain ⟨-, rfl⟩ := pure_eq_ok hrun
      exact hk3

/-- **Behind a mount** the heap is free from 517 blocks further on. -/
theorem fat16Resolve_raises (disk : Disk) : Raises itself 517 (fat16Resolve disk) := by
  unfold fat16Resolve
  refine ((kzalloc_raises_one (by decide) (by decide)).bind (d := 516) (fun addr =>
    (fat16InitPrivate_raises addr).bind (d := 513) (fun p => ?_)))
  intro k m r m' hk hrun
  obtain ⟨stream, m1, h1, hrun⟩ := bind_eq_ok hrun
  have hk1 := diskstreamerNew_raises k m stream m1 hk h1
  have hpos : stream.pos = 0 := by
    unfold diskstreamerNew at h1
    obtain ⟨q, m2, -, h1⟩ := bind_eq_ok h1
    obtain ⟨u, m3, -, h1⟩ := bind_eq_ok h1
    obtain ⟨rfl, -⟩ := pure_eq_ok h1
    rfl
  rw [bind_ok (get_run m1)] at hrun
  cases hv : resolveVolume disk stream ⟨m1, p⟩ with
  | error e =>
    rw [hv] at hrun
    cases hrun
  | ok r1 =>
    obtain ⟨res, s⟩ := r1
    rw [hv] at hrun
    dsimp only at hrun
    obtain ⟨u, m2, h2, hrun⟩ := bind_eq_ok hrun
    cases h2
    have hk2 : FreeFrom (k + 1 + 512) s.machine := resolveVolume_raises hpos hk1 hv
    obtain ⟨u, m3, h3, hrun⟩ := bind_eq_ok hrun
    have hk3 := kfree_raises stream.addr _ _ u m3 hk2 h3
    split at hrun
    · obtain ⟨u, m4, h4, hrun⟩ := bind_eq_ok hrun
      obtain ⟨-, rfl⟩ := pure_eq_ok hrun
      exact kfree_raises addr _ _ u m4 hk3 h4
    · obtain ⟨-, rfl⟩ := pure_eq_ok hrun
      exact hk3

end LameOS
