import LameOS.Task.ProcessSpec

/-!
# The kernel's own pages in the space of a task

Interrupts run on the space of the task that is interrupted; the kernel's pages must lie there where
they are in its own space.

* `KernelKept n`          the directory takes the kernel image, the `n` pages below the interrupt
                          stack's top, and the heap to themselves;
* `kernel_kept_iff_maps`  in the space of a process: when image and interrupt stack fit side by side;
* `kernel_kept_iff`       the same after `process_map_memory`;
* `processLoadForSlot_kernel`   and after a load.
-/

set_option linter.unusedVariables false

namespace LameOS
open Lib Lib.Exec

/-- `tss.esp0`, the top of the stack of interrupts -/
def tssEsp0 : Nat := 0x600000

/-- the directory takes the page to itself -/
def MapsSelf (m : Machine) (dir v : Nat) : Prop :=
  ∀ o < 4096, ∃ writable user, translate m.mem dir (v * 4096 + o) = some ⟨v * 4096 + o, writable, user⟩

/-- the kernel image and the boot stack, the `n` pages below `tssEsp0`, and the heap -/
structure KernelKept (n : Nat) (m : Machine) (dir : Nat) : Prop where
  image : ∀ v, 0x100000 ≤ v * 4096 → v * 4096 < 0x200000 → MapsSelf m dir v
  interruptStack : ∀ v, v * 4096 < tssEsp0 → tssEsp0 ≤ (v + n) * 4096 → MapsSelf m dir v
  heap : ∀ v, heapAddress ≤ v * 4096 → v * 4096 < heapAddress + heapSizeBytes → MapsSelf m dir v

section
variable {k : ProcessBlocks} {L : List Run} {m m1 m2 : Machine} {s : Space} {n : Nat}

/-- a page that is neither of the image nor of the stack -/
theorem mapsSelf_other (hk : k.image + blocksFor k.size ≤ heapBlocks)
    (h : s.Maps m 7 (processEntry k)) {v : Nat} (hv : v < 1048576) (hi : ¬ ImagePage k v)
    (hs : ¬ StackPage v) : MapsSelf m (blockAddr s.directory) v := by
  intro o ho
  have hdiv : (v * 4096 + o) / 4096 = v := by omega
  have hmod : (v * 4096 + o) % 4096 = o := by omega
  rw [translate_maps h (by omega), hdiv, hmod, processEntry_other hk hv hi hs,
    pageTranslation_readonly]
  exact ⟨false, true, rfl⟩

/-- a page of the image lies in the heap -/
theorem mapsSelf_image (hk : k.image + blocksFor k.size ≤ heapBlocks)
    (h : s.Maps m 7 (processEntry k)) {v : Nat} (hv : v < 4096) (hi : ImagePage k v) :
    ¬ MapsSelf m (blockAddr s.directory) v := by
  intro hself
  obtain ⟨w, u, ht⟩ := hself 0 (by decide)
  have hdiv : (v * 4096 + 0) / 4096 = v := by omega
  rw [translate_maps h (by omega), hdiv, processEntry_image hk hi, pageTranslation_user] at ht
  have e := congrArg Translation.phys (Option.some.inj ht)
  dsimp only at e
  omega

/-- **The kernel's pages in the space of a process** -/
theorem kernel_kept_iff_maps (hk : k.image + blocksFor k.size ≤ heapBlocks) (hpos : 1 ≤ k.size)
    (hn : 1 ≤ n) (h : s.Maps m 7 (processEntry k)) :
    KernelKept n m (blockAddr s.directory) ↔ blocksFor k.size + n ≤ 512 := by
  have hb : 1 ≤ blocksFor k.size := by
    unfold blocksFor
    omega
  constructor
  · intro hkept
    by_contra hno
    -- the first page of the image that the stack of interrupts reaches
    have hbad : ∃ v, ImagePage k v ∧ v < 1536 ∧ 1536 ≤ v + n := by
      unfold ImagePage
      by_cases h512 : 512 ≤ n
      · exact ⟨1024, ⟨le_refl 1024, by omega⟩, by decide, by omega⟩
      · exact ⟨1536 - n, ⟨by omega, by omega⟩, by omega, by omega⟩
    obtain ⟨v, hi, h1, h2⟩ := hbad
    refine mapsSelf_image hk h (by omega) hi (hkept.interruptStack v ?_ ?_)
    · show v * 4096 < 0x600000
      omega
    · show 0x600000 ≤ (v + n) * 4096
      omega
  · intro hfit
    have hout : ∀ v, v < 1048576 → v < 1019 ∨ 1536 ≤ v + n ∧ 1023 ≤ v →
        MapsSelf m (blockAddr s.directory) v := by
      intro v hv hor
      refine mapsSelf_other hk h hv (fun hi => ?_) (fun hst => ?_)
      · have := hi.1
        have := hi.2
        omega
      · have := hst.1
        have := hst.2
        omega
    refine ⟨fun v h1 h2 => hout v (by omega) (by omega), fun v h1 h2 => ?_, fun v h1 h2 => ?_⟩
    · have h1 : v * 4096 < 0x600000 := h1
      have h2 : 0x600000 ≤ (v + n) * 4096 := h2
      exact hout v (by omega) (by omega)
    · have h1 : 0x1000000 ≤ v * 4096 := h1
      have h2 : v * 4096 < 0x1000000 + 0x6400000 := h2
      exact hout v (by omega) (by omega)

/-- **The kernel's pages after `process_map_memory`.**  They are where they were exactly when the
image leaves the pages of the interrupt stack free. -/
theorem kernel_kept_iff (h : MappedProcess k L m)
    (hinit : taskInit (blockAddr k.task) (blockAddr k.process) m = .ok (0, m1))
    (hreg : Registered k L m1 m2) (hn : 1 ≤ n) :
    ∃ m3, processMapMemory (blockAddr k.process) m2 = .ok (0, m3) ∧
      (KernelKept n m3 (m3.mem.load (m3.mem.load (blockAddr k.task + TaskField.pageDirectory))) ↔
        blocksFor k.size + n ≤ 512) := by
  obtain ⟨s, m3, hrun, hh, hmaps, hdir, -⟩ := processMapMemory_run h hinit hreg
  refine ⟨m3, hrun, ?_⟩
  have e : m3.mem.load (blockAddr k.task + TaskField.pageDirectory) = blockAddr s.chunk := hdir
  rw [e, hmaps.chunk]
  exact kernel_kept_iff_maps (h.holds.inside h.image) h.pos hn hmaps

end

/-- the directory of the task of a process -/
def directoryOf (m : Machine) (process : Nat) : Nat :=
  m.mem.load (m.mem.load (m.mem.load (process + ProcessField.task) + TaskField.pageDirectory))

section
variable {T : List Nat} {s : KernelState}

/-- **The kernel's pages after a load**, with the size that the struct of the process holds -/
theorem processLoadForSlot_kernel (disk : Disk) (filename : List UInt8) (slot : Int) {stale n : Nat}
    (hsized : ¬ Taken s slot → FileSized s.volume filename) (htail : TailIn T s.taskHead s.taskTail)
    (hstale : Taken s slot → Harmless s.machine stale) (hn : 1 ≤ n) :
    Owns KernelState.machine (T.map oneBlock) (processLoadForSlot disk filename slot stale) s
      (fun r s' N => ∀ p, r.2 = some p → (KernelKept n s'.machine (directoryOf s'.machine p) ↔
        blocksFor (s'.machine.mem.load (p + ProcessField.size)) + n ≤ 512)) := by
  intro L r s' hh hrun
  obtain ⟨N, hend, hh', hu⟩ :=
    processLoadForSlot_owns disk filename slot hsized htail hstale L r s' hh hrun
  refine ⟨N, fun p hp => ?_, hh', hu⟩
  cases hend with
  | rejected _ _ _ => cases hp
  | failed _ _ _ _ => cases hp
  | @made _ _ K k space _ _ hN h =>
    obtain rfl : blockAddr k.process = p := Option.some.inj hp
    have hin : k.image + blocksFor k.size ≤ heapBlocks :=
      hh'.inside (List.mem_append_left L (hN.symm.subset
        (List.mem_append_right _ (List.mem_append_right _ h.image))))
    have hsize : s'.machine.mem.load (blockAddr k.process + ProcessField.size) = k.size :=
      (process_load s'.machine k.process 31).trans h.words.size
    have hdir : directoryOf s'.machine (blockAddr k.process) = blockAddr space.directory := by
      have e1 : s'.machine.mem.load (blockAddr k.process + ProcessField.task) = blockAddr k.task :=
        h.words.task
      have e2 : s'.machine.mem.load (blockAddr k.task + TaskField.pageDirectory)
          = blockAddr space.chunk := h.pageDirectory
      unfold directoryOf
      rw [e1, e2]
      exact h.maps.chunk
    rw [hdir, hsize]
    exact kernel_kept_iff_maps hin h.pos hn h.maps

end

/-! ## processes alone in the heap -/

section
variable (size : Nat)

/-- the task of such a process is made and registered -/
theorem loaded_registered (h1 : 1 ≤ size) (h2 : 3 + blocksFor size + 4 + 1026 ≤ heapBlocks) :
    ∃ m1 m2, taskInit (blockAddr (loadedProcess size).task) (blockAddr (loadedProcess size).process)
        (loadedMachine size) = .ok (0, m1) ∧
      Registered (loadedProcess size) (loadedRuns size) m1 m2 := by
  have hmapped := loadedMachine_mapped size h1 (by omega)
  have hperm := List.perm_cons_erase hmapped.task
  obtain ⟨s, m1, hinit, -⟩ := taskInit_run (hmapped.holds.perm hperm)
    (show blockAddr 0 < 4294967296 by decide) (loadedMachine_free size h1 h2)
  exact ⟨m1, _, hinit, registered_store (loadedProcess size) (loadedRuns size) m1
    (show 0 < heapBlocks by decide) (show 2 < heapBlocks by decide)⟩

end

theorem kernel_kept_iff_small : ∃ m1 m2 m3,
    taskInit (blockAddr 2) (blockAddr 0) (loadedMachine 5000) = .ok (0, m1) ∧
      Registered (loadedProcess 5000) (loadedRuns 5000) m1 m2 ∧
      processMapMemory (blockAddr 0) m2 = .ok (0, m3) ∧
      (KernelKept 1 m3 (m3.mem.load (m3.mem.load (blockAddr 2 + TaskField.pageDirectory))) ↔
        blocksFor 5000 + 1 ≤ 512) := by
  obtain ⟨m1, m2, hinit, hreg⟩ := loaded_registered 5000 (by decide) (by decide)
  obtain ⟨m3, hrun, hiff⟩ := kernel_kept_iff (n := 1)
    (loadedMachine_mapped 5000 (by decide) (by decide)) hinit hreg (le_refl 1)
  exact ⟨m1, m2, m3, hinit, hreg, hrun, hiff⟩

/-- an image of two megabytes takes the last page of the interrupt stack -/
theorem interrupt_stack_moved : ∃ m1 m2 m3,
    taskInit (blockAddr 2) (blockAddr 0) (loadedMachine 0x200000) = .ok (0, m1) ∧
      Registered (loadedProcess 0x200000) (loadedRuns 0x200000) m1 m2 ∧
      processMapMemory (blockAddr 0) m2 = .ok (0, m3) ∧
      ¬ KernelKept 1 m3 (m3.mem.load (m3.mem.load (blockAddr 2 + TaskField.pageDirectory))) := by
  have h1 : 1 ≤ 0x200000 := by decide
  have h2 : 3 + blocksFor 0x200000 + 4 + 1026 ≤ heapBlocks := by decide
  have hmapped := loadedMachine_mapped 0x200000 h1 (by decide)
  obtain ⟨m1, m2, hinit, hreg⟩ := loaded_registered 0x200000 h1 h2
  obtain ⟨s, m3, hrun, hh, hmaps, hdir, -⟩ := processMapMemory_run hmapped hinit hreg
  refine ⟨m1, m2, m3, hinit, hreg, hrun, ?_⟩
  have e : m3.mem.load (blockAddr 2 + TaskField.pageDirectory) = blockAddr s.chunk := hdir
  have hiff := kernel_kept_iff_maps (n := 1) (hmapped.holds.inside hmapped.image) h1 (le_refl 1) hmaps
  have hno : ¬ blocksFor (loadedProcess 0x200000).size + 1 ≤ 512 := by decide
  rw [e, hmaps.chunk]
  exact fun hkept => hno (hiff.mp hkept)

end LameOS
