import LameOS.Task.FirstRun
import LameOS.Task.LoadSucceeds

/-!
# From the disk to the first process

`kernel_main` mounts the disk, makes the kernel's page directory, loads one program and runs it.

* `kernelMain`             the code;
* `KernelStart`            what it starts with: no task, no process, no command;
* `userByte`               what user code reads at a linear address;
* `kernelMain_setUp`       the kernel before its first load;
* `kernel_main_starts`     **a program that is on the disk is started**, and what it finds at its entry is
                           its file.
-/

set_option linter.unusedVariables false

namespace LameOS
open Lib Lib.Exec

/-! ## the code -/

/-- where the linker has put the table of interrupts, the image of its register, and the stubs -/
structure KernelImage where
  idt : Nat
  idtr : Nat
  address : Isr → BitVec 32

/-- "Welcome to LameOS!\n\n--> " -/
def welcome : List UInt8 :=
  [87, 101, 108, 99, 111, 109, 101, 32, 116, 111, 32, 76, 97, 109, 101, 79, 83, 33, 10, 10, 45, 45, 62, 32]

section
variable (alu : BitVec 32 → BitVec 32 → BitVec 32) (k : CallRegs) (disk : Disk) (image : KernelImage)

/-- `kernel_main`, for the program `filename`; a `panic` when it cannot be loaded -/
def kernelMain (filename : List UInt8) (stale : Nat) : Prog CallState UserState := do
  onTerminal termInitialize
  onTerminal (print welcome)
  inCall (modify (fun m => { m with heap := (kheapInit m.heap.table.entries).2 }))
  let files ← inCall (diskSearchAndInit disk)
  modify (fun s => { s with kernel := { s.kernel with volume := files.volume, files := files.files } })
  inCall (modify (fun m => { m with mem := (idtInit image.idt image.idtr image.address m.mem).1 }))
  let chunk ← inCall (pagingNew4gb (pagingIsWriteable ||| pagingIsPresent ||| pagingAccessFromAll))
  modify (fun s => { s with kernelChunk := chunk })
  pagingSwitch chunk
  isr80hRegisterCommands
  let (res, _) ← onProcesses (processLoad disk filename stale)
  if res ≠ OK then
    throw .endlessLoop
  else
    taskRunFirstEverTask alu k

end

/-- the globals of the kernel when it is entered -/
structure KernelStart (s : CallState) : Prop where
  taskHead : s.kernel.taskHead = 0
  processes : s.kernel.processes = fun _ => 0
  commands : s.isr80hCommands = fun _ => none

/-- the byte that user code reads at a linear address -/
def userByte (s : CallState) (va : Nat) : Option (BitVec 8) :=
  match translate s.mem s.directory va with
  | some ⟨phys, _, true⟩ => some (s.mem (BitVec.ofNat 32 phys))
  | _ => none

/-! ## the heap before the first process -/

section
variable {disk : Disk} {m : Machine} {L : List Run} {k : Nat}

theorem kheapInit_free (entries : Nat → UInt8) (mem : Mem) :
    FreeFrom 0 ⟨(kheapInit entries).2, mem⟩ := by
  obtain ⟨-, hh⟩ := kheapInit_holds entries mem
  refine ⟨hh.saddr, hh.total, fun i hi _ => ?_⟩
  refine (hh.tiled.free_iff (by rw [hh.total]; exact hi)).mpr (fun r hr => ?_)
  cases hr

theorem diskSearchAndInit_raises (disk : Disk) : Raises itself 517 (diskSearchAndInit disk) := by
  unfold diskSearchAndInit
  exact (fat16Resolve_raises disk).bind (fun r => Raises.get.after (fun m => Raises.pure _))

/-- the mount of a volume that is there, with the heap free from `k` on -/
theorem diskSearchAndInit_mounts {records : Nat} (hv : VolumeThere disk records) (hh : m.Holds L)
    (hk : FreeFrom k m) (hle : k + 517 ≤ heapBlocks) :
    ∃ p m' N, diskSearchAndInit disk m = .ok (⟨m', some p, fun _ => none⟩, m') ∧ Mounted disk p ∧
      SameRecords (diskVolume disk records) p ∧ m'.Holds N ∧ FreeFrom (k + 517) m' := by
  obtain ⟨p, m', hres⟩ := fat16Resolve_mounts hv ⟨k, L, hh, hk, hle⟩
  have hrun : diskSearchAndInit disk m = .ok (⟨m', some p, fun _ => none⟩, m') := by
    unfold diskSearchAndInit
    rw [bind_ok hres]
    rfl
  obtain ⟨-, N, hh', -⟩ := diskSearchAndInit_leaves hh hrun
  exact ⟨p, m', N ++ L, hrun, ⟨m, m', hres⟩, fat16Resolve_sameRecords hv hres, hh',
    diskSearchAndInit_raises disk _ _ _ _ hk hrun⟩

/-- the kernel's page directory -/
theorem kernelPages_run (hh : m.Holds L) (hk : FreeFrom k m) (hle : k + 1026 ≤ heapBlocks) :
    ∃ space m', pagingNew4gb (pagingIsWriteable ||| pagingIsPresent ||| pagingAccessFromAll) m
        = .ok (blockAddr (Space.chunk space), m') ∧ m'.Holds (space.runs ++ L) ∧
      FreeFrom (k + 1026) m' := by
  have hroom : Room 1026 m := Headroom.room ⟨k, L, hh, hk, hle⟩
  obtain ⟨_, -, hfree⟩ := hroom
  obtain ⟨space, m', hrun, hh', -⟩ := pagingNew4gb_run hh
    (show pagingIsWriteable ||| pagingIsPresent ||| pagingAccessFromAll < 4096 by decide) hfree
  exact ⟨space, m', hrun, hh', pagingNew4gb_raises _ _ _ _ _ hk hrun⟩

end

/-! ## the program -/

section
variable {disk : Disk} {p : FatPrivate} {name : List UInt8} {k : Nat} {chain : List Nat} {n : Nat}
  {R : List Run} {s : KernelState} (stale : Nat)

/-- what the first load leaves of a file that is there -/
theorem processLoad_image (h : FileThere disk p name k chain n) (hp : Mounted disk p)
    (hvol : volumeOf s.fileState = some (p.header, p.rootDirectory)) (hfiles : s.files = fun _ => none)
    (hprocesses : s.processes = fun _ => 0) (hhead : s.taskHead = 0) (hh : s.machine.Holds R)
    (hroom : Headroom (1027 + 4 + blocksFor n + 8 + 2) s.machine) :
    ∃ process s' l R', processLoad disk (rootPath name) stale s = .ok ((0, process), s') ∧
      FirstLoaded disk s.volume (rootPath name) l R' s' ∧ l.blocks.size = n ∧
      ∀ i < n, s'.machine.mem (BitVec.ofNat 32 (blockAddr l.blocks.image + i))
        = ((fileBytes disk p.header chain n).getD i 0).toBitVec := by
  have hempty : s.processes 0 = 0 := congrFun hprocesses 0
  have hdoes : Does (processLoad disk (rootPath name) stale) s (fun r _ => r.1 = 0) :=
    processLoad_there h hp hvol hfiles hempty hhead hh hroom
  obtain ⟨⟨res, process⟩, s', hrun, hres⟩ := hdoes
  obtain rfl : res = 0 := hres
  have hhoused : Housed [] R s :=
    ⟨hh, Or.inl hhead, fun l hl => absurd hl List.not_mem_nil,
      fun i hi => absurd (congrFun hprocesses i) hi.2⟩
  obtain ⟨l, R', hfirst⟩ := processLoad_first hhoused hempty hhead (h.fileSized hp hvol) hrun
  obtain ⟨v, hv, hheader, hroot⟩ := volumeOf_eq hvol
  have hfile := hfirst.file
  have hv' : s.volume = some v := hv
  rw [hv'] at hfile
  obtain ⟨hsize, image, hptr, hbytes⟩ := h.image hp hheader hroot hfile
  have hwords := (hfirst.housed.placed l List.mem_cons_self).words
  have himage : blockAddr image = blockAddr l.blocks.image := hptr.symm.trans hwords.ptr
  rw [himage] at hbytes
  exact ⟨process, s', l, R', hrun, hfirst, hwords.size.symm.trans hsize, hbytes⟩

end

/-! ## what user code finds -/

section
variable {ps : List Member} {R : List Run} {l : Member} {s : CallState} {m m' : Mem} {b n i : Nat}

/-- a byte of an allocation lies in the heap -/
theorem HeapKept.byte (h : HeapKept m m') (hb : b + blocksFor n ≤ heapBlocks) (hi : i < n) :
    m' (BitVec.ofNat 32 (blockAddr b + i)) = m (BitVec.ofNat 32 (blockAddr b + i)) := by
  have hblock : b + i / 4096 < heapBlocks := by
    unfold blocksFor at hb
    omega
  have hword := word_block hblock (show i % 4096 / 4 < 1024 by omega)
  have haddr : blockAddr (b + i / 4096) + 4 * (i % 4096 / 4) + i % 4 = blockAddr b + i := by
    unfold blockAddr
    omega
  have hheap : heapAddress ≤ blockAddr (b + i / 4096) + 4 * (i % 4096 / 4) := by
    unfold blockAddr
    omega
  have hbyte := Mem.bytes_of_load (h _ hword hheap) (Nat.mod_lt i (show 0 < 4 by decide))
  rw [← BitVec.ofNat_add, haddr] at hbyte
  exact hbyte

/-- the image of the process that runs, as user code reads it -/
theorem Seated.userByte_image (h : Seated ps R l s) (hi : i < l.blocks.size) :
    userByte s (programVirtualAddress + i)
      = some (s.mem (BitVec.ofNat 32 (blockAddr l.blocks.image + i))) := by
  obtain ⟨rest, hh, -⟩ := h.housed.space_holds h.member
  have hspace := userSpace_of_maps (h.housed.image_inside h.member) hh (h.housed.placed l h.member).maps
  have htr := hspace.image i hi
  unfold userByte
  rw [h.directory]
  have htr' : translate s.mem (blockAddr l.space.directory) (programVirtualAddress + i)
      = some ⟨blockAddr l.blocks.image + i, true, true⟩ := htr
  rw [htr']

end

/-! ## the whole way -/

theorem isr80hRegisterCommands_run {s : CallState} (h : s.isr80hCommands = fun _ => none) :
    ∃ commands, isr80hRegisterCommands s = .ok ((), { s with isr80hCommands := commands }) := by
  obtain ⟨kernel, kernelChunk, directory, segments, isr80hCommands, terminal⟩ := s
  obtain rfl : isr80hCommands = fun _ => none := h
  exact ⟨_, rfl⟩

theorem pagingSwitch_block (b : Nat) (s : CallState) :
    ∃ directory, pagingSwitch (blockAddr b) s = .ok ((), { s with directory := directory }) := by
  refine ⟨s.mem.load (blockAddr b + 0), ?_⟩
  unfold pagingSwitch
  rw [bind_ok (inCall_same (readWord_ok _ blockAddr_ne 0))]
  rfl

/-- the kernel's pages are made and loaded, and the commands are registered -/
theorem kernelPages_setUp {s : CallState} {L : List Run} {k : Nat} (hh : s.kernel.machine.Holds L)
    (hk : FreeFrom k s.kernel.machine) (hle : k + 1026 ≤ heapBlocks)
    (hnone : s.isr80hCommands = fun _ => none) : ∃ chunk m s1 s2,
      inCall (pagingNew4gb (pagingIsWriteable ||| pagingIsPresent ||| pagingAccessFromAll)) s
        = .ok (chunk, s.onto m) ∧
      pagingSwitch chunk { s.onto m with kernelChunk := chunk } = .ok ((), s1) ∧
      isr80hRegisterCommands s1 = .ok ((), s2) ∧
      s2.kernel = { s.kernel with machine := m } ∧ s2.terminal = s.terminal ∧ s2.kernelChunk ≠ 0 ∧
      (∃ L', m.Holds L') ∧ FreeFrom (k + 1026) m := by
  obtain ⟨space, m, hpages, hh', hk'⟩ := kernelPages_run hh hk hle
  obtain ⟨directory, hswitch⟩ :=
    pagingSwitch_block space.chunk { s.onto m with kernelChunk := blockAddr space.chunk }
  obtain ⟨s1, hs1⟩ : ∃ s1, s1 = ({ s.onto m with
    kernelChunk := blockAddr space.chunk, directory := directory } : CallState) := ⟨_, rfl⟩
  have hnone1 : s1.isr80hCommands = fun _ => none := by
    rw [hs1]
    exact hnone
  obtain ⟨commands, hcommands⟩ := isr80hRegisterCommands_run hnone1
  refine ⟨blockAddr space.chunk, m, s1, { s1 with isr80hCommands := commands }, inCall_ok hpages, ?_,
    hcommands, ?_, ?_, ?_, ⟨_, hh'⟩, hk'⟩
  · rw [hs1]
    exact hswitch
  · rw [hs1]
    rfl
  · rw [hs1]
    rfl
  · rw [hs1]
    exact blockAddr_ne

theorem welcome_run (s : CallState) : ∃ t t',
    onTerminal termInitialize s = .ok ((), { s with terminal := t }) ∧
    onTerminal (print welcome) { s with terminal := t } = .ok ((), { s with terminal := t' }) ∧
      t'.InColumns := by
  obtain ⟨t, hinit, hat⟩ := termInitialize_run s.terminal
  have hfits : FitsAfter [] (shown welcome) := fitsAfter_short (by decide)
  rw [← write_all_iff 15 (shown welcome) [] t hat, ← print_eq] at hfits
  obtain ⟨t', hprint⟩ := hfits
  exact ⟨t, t', part_ok hinit, part_ok hprint, (print_cursor hat hprint).inColumns⟩

/-- the kernel before its first `process_load` -/
structure LoadsNext (disk : Disk) (p : FatPrivate) (s : CallState) : Prop where
  mounted : Mounted disk p
  volume : volumeOf s.kernel.fileState = some (p.header, p.rootDirectory)
  files : s.kernel.files = fun _ => none
  processes : s.kernel.processes = fun _ => 0
  taskHead : s.kernel.taskHead = 0
  holds : ∃ L, s.kernel.machine.Holds L
  free : FreeFrom (0 + 517 + 1026) s.kernel.machine
  kernelChunk : s.kernelChunk ≠ 0
  columns : s.terminal.InColumns

section
variable (alu : BitVec 32 → BitVec 32 → BitVec 32) {k : CallRegs} {disk : Disk} {records : Nat}
  {image : KernelImage} {name filename : List UInt8} {j : Nat} {chain : List Nat}
  {n stale : Nat} {s : CallState}

/-- what comes before the load -/
theorem kernelMain_setUp (h : KernelStart s) (hv : VolumeThere disk records) :
    ∃ p s', SameRecords (diskVolume disk records) p ∧ LoadsNext disk p s' ∧
      kernelMain alu k disk image filename stale s = (onProcesses (processLoad disk filename stale) >>=
        fun r => if r.1 ≠ OK then throw .endlessLoop else taskRunFirstEverTask alu k) s' := by
  obtain ⟨t0, t, hinit, hprint, hcol⟩ := welcome_run s
  obtain ⟨m0, hm0⟩ : ∃ m0, m0 = { s.kernel.machine with
    heap := (kheapInit s.kernel.machine.heap.table.entries).2 } := ⟨_, rfl⟩
  have hk0 : FreeFrom 0 m0 := hm0 ▸ kheapInit_free _ _
  have hh0 : m0.Holds [] := hm0 ▸ (kheapInit_holds _ _).2
  obtain ⟨p, m1, N, hmount, hmounted, hsame, hh1, hk1⟩ :=
    diskSearchAndInit_mounts hv hh0 hk0 (by decide)
  -- the table of interrupts lies in the image of the kernel
  obtain ⟨m2, hm2⟩ : ∃ m2, m2 = { m1 with
    mem := (idtInit image.idt image.idtr image.address m1.mem).1 } := ⟨_, rfl⟩
  obtain ⟨s1, hs1⟩ : ∃ s1, s1 = ({ s with
    terminal := t
    kernel := { s.kernel with machine := m2, volume := some p, files := fun _ => none } } : CallState) :=
    ⟨_, rfl⟩
  have hm : s1.kernel.machine.heap = m1.heap := by rw [hs1, hm2]
  obtain ⟨chunk, m3, s2, s3, hpages, hswitch, hcommands, hkernel, hterminal, hchunk, hh3, hk3⟩ :=
    kernelPages_setUp (hh1.congr hm) (hk1.congr hm) (by decide) (by rw [hs1]; exact h.commands)
  rw [hs1] at hkernel hterminal
  refine ⟨p, s3, hsame, ⟨hmounted, ?_, ?_, ?_, ?_, ?_, ?_, hchunk, ?_⟩, ?_⟩
  · rw [hkernel]
    rfl
  · rw [hkernel]
  · rw [hkernel]
    exact h.processes
  · rw [hkernel]
    exact h.taskHead
  · rw [hkernel]
    exact hh3
  · rw [hkernel]
    exact hk3
  · rw [hterminal]
    exact hcol
  · have hheapInit : inCall (modify (fun m => { m with heap := (kheapInit m.heap.table.entries).2 }))
        { s with terminal := t } = .ok ((), { s with
          terminal := t, kernel := { s.kernel with machine := m0 } }) := by
      rw [hm0]
      rfl
    have hidt : inCall (modify (fun m => { m with
        mem := (idtInit image.idt image.idtr image.address m.mem).1 })) { s with
          terminal := t
          kernel := { s.kernel with machine := m1, volume := some p, files := fun _ => none } }
        = .ok ((), s1) := by
      rw [hs1, hm2]
      rfl
    unfold kernelMain
    rw [bind_ok hinit, bind_ok hprint, bind_ok hheapInit, bind_ok (inCall_ok hmount),
      bind_ok (modify_run _ _)]
    refine (bind_ok hidt).trans ?_
    rw [bind_ok hpages, bind_ok (modify_run _ _), bind_ok hswitch, bind_ok hcommands]

/-- **The first process.**  On a disk with a FAT16 volume, and a program in a file of at most 511 blocks,
`kernel_main` leaves for user mode at the entry of the program, and user code finds there what the clusters
of the file hold. -/
theorem kernel_main_starts (h : KernelStart s) (hv : VolumeThere disk records)
    (hfile : FileThere disk (diskVolume disk records) name j chain n) (hn : blocksFor n ≤ 511)
    (hE : 32 ≤ (k.reg .esp).toNat) (hE' : (k.reg .esp).toNat + 8 ≤ 0x200000) :
    ∃ u s' l R, kernelMain alu k disk image (rootPath name) stale s = .ok (u, s') ∧ FirstState k u ∧
      Session.Running [l] R l ⟨u, s', []⟩ ∧
      ∀ i < n, userByte s' (u.eip.toNat + i)
        = some ((fileBytes disk (bootHeader disk) chain n).getD i 0).toBitVec := by
  obtain ⟨p, s1, hsame, hnext, hmain⟩ := kernelMain_setUp alu h hv
  have hheader : p.header = bootHeader disk := hsame.header
  obtain ⟨L, hh⟩ := hnext.holds
  have hroom : Headroom (1027 + 4 + blocksFor n + 8 + 2) s1.kernel.machine :=
    ⟨_, _, hh, hnext.free, by dsimp only [heapBlocks]; omega⟩
  -- the load
  obtain ⟨process, kernel, l, R, hload, hfirst, hsize, hbytes⟩ := processLoad_image stale
    (hfile.same hsame) hnext.mounted hnext.volume hnext.files hnext.processes hnext.taskHead hh hroom
  obtain ⟨s2, hs2⟩ : ∃ s2, s2 = { s1 with kernel := kernel } := ⟨_, rfl⟩
  have hloaded : onProcesses (processLoad disk (rootPath name) stale) s1 = .ok ((0, process), s2) := by
    rw [hs2]
    exact part_ok hload
  have hkernel : s2.kernel = kernel := by rw [hs2]
  have hmem : s2.mem = kernel.machine.mem := by
    rw [← hkernel]
    rfl
  have hchunk : s2.kernelChunk ≠ 0 := by
    rw [hs2]
    exact hnext.kernelChunk
  have hcol : s2.terminal.InColumns := by
    rw [hs2]
    exact hnext.columns
  rw [← hkernel] at hfirst
  -- the way to user mode
  obtain ⟨u, s', hrun, hstate, hseat, hkept⟩ :=
    taskRunFirstEverTask_run alu hfirst hchunk (by rw [hsize]; exact hn) hcol hE hE'
  refine ⟨u, s', l, R, ?_, hstate, ⟨hseat, hstate.cs, hstate.ss⟩, fun i hi => ?_⟩
  · rw [hmain, bind_ok hloaded]
    exact hrun
  · have hin := hseat.housed.image_inside hseat.member
    rw [hsize] at hin
    rw [hstate.eip, ← hheader, ← hbytes i hi, ← hmem, ← hkept.byte hin hi]
    exact hseat.userByte_image (by rw [hsize]; exact hi)

end

/-- the volume of the disk with the file `a` of 600 bytes -/
theorem chainDisk_volume : VolumeThere (chainDisk 3) 1 := by
  refine ⟨by decide +kernel, ⟨fun k hk => ?_, by decide +kernel, by decide +kernel, by decide +kernel⟩⟩
  obtain rfl : k = 0 := by omega
  decide +kernel

theorem chainDisk_there : FileThere (chainDisk 3) (diskVolume (chainDisk 3) 1) [97] 0 [2, 3] 600 := by
  obtain ⟨s, m, L, p, m1, -, -, -, -, hone, hres⟩ := chainDisk_mounted (b := 3) (Or.inr rfl)
  have hheader := fat16Resolve_header hres
  have hp : FileThere (chainDisk 3) p [97] 0 [2, 3] 600 := by
    refine ⟨plainName_a, hone.sole, ?_, ?_, ?_, ?_, ?_, by decide, by decide,
      chainDisk_items hheader (chainDisk_ending hres)⟩
    · rw [hheader]
      exact chainDisk_file (Or.inr rfl)
    · rw [hheader]
      decide +kernel
    · rw [hheader]
      decide +kernel
    · rw [hheader]
      decide +kernel
    · rw [hheader]
      decide +kernel
  exact hp.same (fat16Resolve_sameRecords chainDisk_volume hres).symm

/-- it is started as a program, with the stack of the kernel 8 bytes below 2 MiB -/
theorem kernel_main_starts_chain : ∃ u s' l R,
    kernelMain (fun _ x => x) ⟨fun _ => 0x1FFFF8, 0x2⟩ (chainDisk 3)
      ⟨0x110000, 0x110800, fun _ => 0x100000⟩ (rootPath [97]) 0
      (startedCall ⟨emptyMachine, none, fun _ => none⟩ emptyMachine 0) = .ok (u, s') ∧
    FirstState ⟨fun _ => 0x1FFFF8, 0x2⟩ u ∧ Session.Running [l] R l ⟨u, s', []⟩ ∧
    ∀ i < 600, userByte s' (u.eip.toNat + i)
      = some ((fileBytes (chainDisk 3) (bootHeader (chainDisk 3)) [2, 3] 600).getD i 0).toBitVec :=
  kernel_main_starts (fun _ x => x) ⟨rfl, rfl, rfl⟩
    chainDisk_volume chainDisk_there (by decide) (by decide) (by decide)

end LameOS
