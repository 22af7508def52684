import LameOS.Fs.Opens

/-!
# A full table of descriptors

* `OneFile`          a directory with the file `A`;
* `FilledTo`, `last_number_unresolved`   `fopen` of it 512 times, and the last number is not looked
                     up.
-/

set_option linter.unusedVariables false

namespace LameOS
open Lib Lib.Exec

/-! ## a directory of one file -/

/-- the directory has one record, of the file `A` -/
structure OneFile (root : FatDirectory) : Prop where
  total : root.total = 1
  size : root.buffer.size % fatDirectoryItemSize = 0
  plain : PlainRecord (recordAt root.buffer 0)
  named : fat16GetFullRelativeFilename (recordAt root.buffer 0) = .ok [65]

theorem plainName_a : PlainName [97] := by
  refine ⟨List.cons_ne_nil _ _, fun c hc => ?_, by decide⟩
  rw [List.mem_singleton.mp hc]
  exact ⟨by decide, by decide⟩

theorem OneFile.sole {root : FatDirectory} (h : OneFile root) : SoleFile root [97] 0 := by
  have htotal : root.total.toNat = 1 := by
    rw [h.total]
    rfl
  have hzero : ∀ j < root.total.toNat, j = 0 := fun j hj => by omega
  exact ⟨by omega, fun j hj => hzero j hj ▸ ⟨[65], h.named⟩, ⟨[65], h.named, by decide⟩,
    fun j hj _ => hzero j hj, h.plain⟩

/-! ## 512 files -/

/-- `fopen ("0:/a", "r")` -/
def openA : FileCall := .fopen [48, 58, 47, 97] [114]

/-- the slots below `i` are taken and those from `i` on are free; the last number is an open one if
all are taken -/
structure FilledTo (root : FatDirectory) (i : Nat) (s : OpenState) : Prop where
  taken : ∀ j < i, s.files.files j ≠ none
  free : ∀ j, i ≤ j → s.files.files j = none
  mounted : rootOf s.files = some root
  room : Room (8 * (maxFileDescriptors - i)) s.files.machine
  last : i = maxFileDescriptors → ∃ addr, (512, addr) ∈ s.opened

section
variable (disk : Disk) {root : FatDirectory} {i : Nat} {s : OpenState}

theorem FilledTo.step (hroot : OneFile root) (h : FilledTo root i s) (hi : i < maxFileDescriptors) :
    ∃ t, openCall disk s openA = .ok t ∧ FilledTo root (i + 1) t := by
  have hroom : Room (8 * (maxFileDescriptors - (i + 1)) + 8) s.files.machine :=
    h.room.mono (by omega)
  obtain ⟨fd, f, hrun, rfl, ⟨desc, hfiles, -⟩, hroom'⟩ := fopen_enters disk plainName_a
    ⟨hi, h.free i (le_refl i), h.taken⟩ hroot.sole h.mounted hroom
  have hopen : openCall disk s openA = .ok ⟨f,
      ((i : Int) + 1, (enteredDescriptor s.files.files f.files).map FileDescriptor.addr)
        :: s.opened⟩ := by
    dsimp only [rootPath] at hrun
    dsimp only [openCall, openA]
    rw [hrun]
    dsimp only
    rw [if_pos (by omega)]
  refine ⟨_, hopen, fun j hj => ?_, fun j hj => ?_, (fopen_root hrun).trans h.mounted, hroom',
    fun hlast => ?_⟩
  · show f.files j ≠ none
    rw [hfiles]
    rcases Nat.eq_or_lt_of_le (Nat.le_of_lt_succ hj) with rfl | hlt
    · rw [Function.update_self]
      exact Option.some_ne_none desc
    · rw [Function.update_of_ne (Nat.ne_of_lt hlt)]
      exact h.taken j hlt
  · show f.files j = none
    rw [hfiles, Function.update_of_ne (by omega)]
    exact h.free j (by omega)
  · dsimp only [maxFileDescriptors] at hlast
    obtain rfl : i = 511 := by omega
    exact ⟨_, List.mem_cons_self⟩

theorem FilledTo.run (hroot : OneFile root) (n : Nat) : ∀ (i : Nat) (s : OpenState),
    FilledTo root i s → i + n = maxFileDescriptors →
      ∃ t, runs (openCall disk) s (List.replicate n openA) = .ok t ∧
        FilledTo root maxFileDescriptors t := by
  induction n with
  | zero =>
    intro i s h hi
    exact ⟨s, rfl, hi ▸ h⟩
  | succ n ih =>
    intro i s h hi
    obtain ⟨t, hstep, ht⟩ := h.step disk hroot (by omega)
    obtain ⟨u, hrun, hu⟩ := ih (i + 1) t ht (by omega)
    refine ⟨u, ?_, hu⟩
    rw [List.replicate_succ]
    unfold runs
    rw [hstep]
    exact hrun

/-- the number 512 is not looked up -/
theorem FilledTo.unresolved (h : FilledTo root maxFileDescriptors s) : ¬ Resolved s := by
  intro hresolved
  obtain ⟨addr, hin⟩ := h.last rfl
  obtain ⟨desc, hget, -⟩ := hresolved.resolves 512 addr hin
  cases hget

end

/-- what a mount reads of the root directory -/
def rootOfCounting : Prog FileState (Option (Int × Nat × UInt8 × Option (List UInt8))) := do
  let s ← get
  return (rootOf s).map fun root => (root.total, root.buffer.size, root.buffer.bytes 11,
    (fat16GetFullRelativeFilename (recordAt root.buffer 0)).toOption)

theorem oneFile_mounted {disk : Disk} (hfits : RootFits (fatHeader (diskBytes disk 0 fatHeaderSize)))
    (hroot : outcome (mounted disk rootOfCounting) = some (some (1, 512, 0, some [65]))) :
    ∃ s m L root, diskSearchAndInit disk emptyMachine = .ok (s, m) ∧ AllClosed L s ∧ Blocks 6 L ∧
      rootOf s = some root ∧ OneFile root := by
  obtain ⟨s, m, L, s', hmount, hs, hL, hrun⟩ := mounted_closed hfits hroot
  obtain ⟨e, -⟩ := pure_eq_ok hrun
  obtain ⟨root, hr, e⟩ := Option.map_eq_some_iff.mp e
  refine ⟨s, m, L, root, hmount, hs, hL, hr, congrArg Prod.fst e, ?_, ⟨?_, ?_⟩, ?_⟩
  · have hsize : root.buffer.size = 512 := congrArg (fun r => r.2.1) e
    rw [hsize]
    rfl
  · have hsize : root.buffer.size = 512 := congrArg (fun r => r.2.1) e
    show 0 + 32 ≤ root.buffer.size
    omega
  · have hattr : root.buffer.bytes 11 = 0 := congrArg (fun r => r.2.2.1) e
    show root.buffer.bytes 11 &&& fatFileSubdirectory = 0
    rw [hattr]
    rfl
  · have hname : (fat16GetFullRelativeFilename (recordAt root.buffer 0)).toOption = some [65] :=
      congrArg (fun r => r.2.2.2) e
    cases hn : fat16GetFullRelativeFilename (recordAt root.buffer 0) with
    | error e =>
      rw [hn] at hname
      cases hname
    | ok tmp =>
      rw [hn] at hname
      cases hname
      rfl

theorem countingDisk_mounted : ∃ s m L root,
    diskSearchAndInit countingDisk emptyMachine = .ok (s, m) ∧ AllClosed L s ∧ Blocks 6 L ∧
      rootOf s = some root ∧ OneFile root :=
  oneFile_mounted countingDisk_fits (by decide +kernel)

/-- **512 times `fopen` of one file**: the last one returns 512, which is not looked up -/
theorem last_number_unresolved : ∃ s m t, diskSearchAndInit countingDisk emptyMachine = .ok (s, m) ∧
    runs (openCall countingDisk) ⟨s, []⟩ (List.replicate 512 openA) = .ok t ∧
      (∃ addr, (512, addr) ∈ t.opened) ∧ fileGetDescriptor t.files 512 = none ∧ ¬ Resolved t := by
  obtain ⟨s, m, L, root, hmount, hs, hL, hroot, hone⟩ := countingDisk_mounted
  have hroom : Room (8 * (maxFileDescriptors - 0)) s.machine := by
    have hfree := freeBlocks_single hs.heap hL.single
    have hlen := hL.length
    refine ⟨L, hs.heap, ?_⟩
    dsimp only [maxFileDescriptors]
    dsimp only [heapBlocks] at hfree
    omega
  have hfilled : FilledTo root 0 ⟨s, []⟩ := by
    refine ⟨fun j hj => absurd hj (Nat.not_lt_zero j), fun j _ => ?_, hroot, hroom, fun h => ?_⟩
    · show s.files j = none
      rw [hs.files]
    · cases h
  obtain ⟨t, hrun, ht⟩ := FilledTo.run countingDisk hone 512 0 _ hfilled rfl
  exact ⟨s, m, t, hmount, hrun, ht.last rfl, rfl, ht.unresolved⟩

end LameOS
