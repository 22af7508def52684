import LameOS.Task.TaskSpec

/-!
# `process.c`: the memory of a process

A process is the address of its `struct process`, two blocks of the heap.

* `processMapBinary`, `processMapMemory`   the image from `0x400000` on, the stack below `0x3FF000`;
* `MappedProcess`   what the struct, the image, the stack and the task of a process are before the
                    mapping;
* `process_map_memory_translates`   what the processor does with every address afterwards.
-/

set_option linter.unusedVariables false

namespace LameOS
open Lib Lib.Exec

/-! the offsets of the fields of `struct process` -/

namespace ProcessField

def id : Nat := 0
def filename : Nat := 2
def task : Nat := 112
def allocations : Nat := 116
def ptr : Nat := 4212
def stack : Nat := 4216
def size : Nat := 4220

end ProcessField

/-- `sizeof (struct process)` -/
abbrev processSize : Nat := 4224

/-- `PAGING_IS_PRESENT | PAGING_ACCESS_FROM_ALL | PAGING_IS_WRITEABLE` -/
abbrev processPageFlags : Nat := pagingIsPresent ||| pagingAccessFromAll ||| pagingIsWriteable

/-- `process->task->page_directory` -/
def processDirectory (process : Nat) : Prog Machine Nat := do
  let task ← readWord process ProcessField.task
  readWord task TaskField.pageDirectory

/-- the status of `paging_map_to` is dropped -/
def processMapBinary (process : Nat) : Prog Machine Int := do
  let pageDirectory ← processDirectory process
  let ptr ← readWord process ProcessField.ptr
  let size ← readWord process ProcessField.size
  let _ ← pagingMapTo pageDirectory programVirtualAddress ptr
    (pagingAlignAddress (cuint ((ptr + size : Nat) : Int))) processPageFlags
  return 0

def processMapMemory (process : Nat) : Prog Machine Int := do
  let res ← processMapBinary process
  if res < 0 then
    return res
  else
    let pageDirectory ← processDirectory process
    let stack ← readWord process ProcessField.stack
    let _ ← pagingMapTo pageDirectory stackAddressEnd stack
      (pagingAlignAddress (cuint ((stack + userProgramStackSize : Nat) : Int))) processPageFlags
    return res

/-! ## a process before the mapping -/

/-- the heap blocks of a process -/
structure ProcessBlocks where
  process : Nat
  task : Nat
  image : Nat
  stack : Nat
  size : Nat

/-- the struct, the task, the image and the stack are allocations, and the struct holds the image
and the stack -/
structure MappedProcess (k : ProcessBlocks) (L : List Run) (m : Machine) : Prop where
  holds : m.Holds L
  process : ⟨k.process, 2⟩ ∈ L
  task : oneBlock k.task ∈ L
  image : ⟨k.image, blocksFor k.size⟩ ∈ L
  stack : ⟨k.stack, 4⟩ ∈ L
  ptr : m.mem.load (blockAddr k.process + ProcessField.ptr) = blockAddr k.image
  stackPtr : m.mem.load (blockAddr k.process + ProcessField.stack) = blockAddr k.stack
  size : m.mem.load (blockAddr k.process + ProcessField.size) = k.size
  pos : 1 ≤ k.size

/-- the struct of a process: words 0 to 1023 in its first block, the rest in the second -/
theorem process_word (b : Nat) {j : Nat} :
    blockAddr b + (4096 + 4 * j) = blockAddr (b + 1) + 4 * j := by
  rw [blockAddr_page, blockAddr_page]
  omega

theorem align_end {p size : Nat} (h : p * 4096 + size < 4294963200) :
    pagingAlignAddress (cuint ((p * 4096 + size : Nat) : Int)) = (p + blocksFor size) * 4096 := by
  have e : cuint ((p * 4096 + size : Nat) : Int) = p * 4096 + size := cuint_nat (by omega)
  unfold pagingAlignAddress blocksFor pagingPageSize
  rw [e]
  split
  · unfold cuint
    omega
  · omega

theorem process_load (m : Machine) (b j : Nat) :
    m.mem.load (blockAddr b + (4096 + 4 * j)) = m.word (b + 1) j := by
  rw [process_word]
  rfl

/-- a field in the second block of the struct -/
theorem readProcess (m : Machine) {b v : Nat} (j : Nat) (h : m.word (b + 1) j = v) :
    readWord (blockAddr b) (4096 + 4 * j) m = .ok (v, m) := by
  rw [readWord_ok m blockAddr_ne, process_load, h]

theorem processDirectory_run (m : Machine) {p t c : Nat} (hp : m.word p 28 = blockAddr t)
    (ht : m.word t 0 = blockAddr c) : processDirectory (blockAddr p) m = .ok (blockAddr c, m) := by
  have h1 : readWord (blockAddr p) ProcessField.task m = .ok (blockAddr t, m) := by
    rw [← hp]
    exact readField m p 28
  have h2 : readWord (blockAddr t) TaskField.pageDirectory m = .ok (blockAddr c, m) := by
    rw [← ht]
    exact readField m t 0
  unfold processDirectory
  rw [bind_ok h1, h2]

section
variable {s : Space} {L : List Run} {m : Machine} {f : Nat} {entry : Nat → Nat}

/-- the mapping of an allocation `b`, `size` bytes long, at page `v` -/
theorem map_allocation (h : s.Maps m f entry) (hh : m.Holds (s.runs ++ L)) (hf : f < 4096)
    {b v : Nat} (size : Nat) (hb : b + blocksFor size ≤ heapBlocks) (hv : v < 1048576) : ∃ m',
      pagingMapTo (blockAddr s.chunk) (v * 4096) (blockAddr b)
        (pagingAlignAddress (cuint ((blockAddr b + size : Nat) : Int))) processPageFlags m
          = .ok (0, m') ∧ m'.heap = m.heap ∧
      s.Maps m' f (remap entry v (4096 + b) (blocksFor size) 7) ∧
      Frame (fun x => x ∈ s.tables) m m' := by
  have hsize : size ≤ blocksFor size * 4096 := by
    unfold blocksFor
    omega
  have hlt : 4096 + b + blocksFor size ≤ 29696 := by
    have : heapBlocks = 25600 := rfl
    omega
  have hend := align_end (p := 4096 + b) (by omega : (4096 + b) * 4096 + size < 4294963200)
  obtain ⟨m', hrun, h'⟩ := pagingMapTo_run h hh hf (by decide : 7 < 4096) hv
    (by omega : 4096 + b + blocksFor size < 1048576)
  refine ⟨m', ?_, h'⟩
  rw [← blockAddr_page b] at hend hrun
  rw [hend]
  exact hrun

end

/-! ## after the mapping -/

/-- the page table entries of a process after the mapping -/
def processEntry (k : ProcessBlocks) : Nat → Nat :=
  remap (remap (fun v => v * 4096 + 5) 1024 (4096 + k.image) (blocksFor k.size) 7) 1019
    (4096 + k.stack) 4 7

section
variable {k : ProcessBlocks} {L : List Run} {m m1 m2 : Machine}

theorem MappedProcess.process_lt (h : MappedProcess k L m) : k.process + 2 ≤ heapBlocks :=
  h.holds.inside h.process

/-- the struct of the process and that of the task are different allocations -/
theorem MappedProcess.apart (h : MappedProcess k L m) {b : Nat}
    (hb : Run.Mem ⟨k.process, 2⟩ b) : b ≠ k.task := by
  rintro rfl
  have e := h.holds.tiled.separate.eq_of_mem h.process h.task hb ⟨le_refl _, Nat.lt_succ_self _⟩
  have hlen : (2 : Nat) = 1 := congrArg Run.len e
  exact absurd hlen (by decide)

/-- between `task_init` and the mapping only `process->task` and the links of tasks are stored -/
structure Registered (k : ProcessBlocks) (L : List Run) (m m' : Machine) : Prop where
  heap : m'.heap = m.heap
  task : m'.mem.load (blockAddr k.process + ProcessField.task) = blockAddr k.task
  other : ∀ a, Mem.Word a → a ≠ blockAddr k.process + ProcessField.task →
    (∀ b, oneBlock b ∈ L → a ≠ blockAddr b + TaskField.next ∧ a ≠ blockAddr b + TaskField.prev) →
    m'.mem.load a = m.mem.load a

/-- a block of a longer run is none of the single blocks -/
theorem MappedProcess.not_single (h : MappedProcess k L m) {b : Nat}
    (hb : Run.Mem ⟨k.process, 2⟩ b) : oneBlock b ∉ L := by
  intro hin
  have e := h.holds.tiled.separate.eq_of_mem h.process hin hb ⟨le_refl _, Nat.lt_succ_self _⟩
  have hlen : (2 : Nat) = 1 := congrArg Run.len e
  exact absurd hlen (by decide)

/-- a word of a block that holds no task -/
theorem Registered.word (hreg : Registered k L m m1) {b j : Nat} (hb : b < heapBlocks)
    (hj : j < 1024) (hL : oneBlock b ∉ L) (hne : b ≠ k.process) : m1.word b j = m.word b j := by
  refine hreg.other _ (word_block hb hj) ?_ (fun c hc => ⟨?_, ?_⟩)
  · intro e
    exact hne (blockAddr_word_inj (i := 28) hj (by decide) e).1
  · intro e
    exact hL ((blockAddr_word_inj (i := 14) hj (by decide) e).1 ▸ hc)
  · intro e
    exact hL ((blockAddr_word_inj (i := 15) hj (by decide) e).1 ▸ hc)

/-- a field of a task that is no link -/
theorem Registered.task_word (hreg : Registered k L m m1) {b j : Nat} (hb : b < heapBlocks)
    (hj : j < 14) (hne : b ≠ k.process) : m1.word b j = m.word b j := by
  refine hreg.other _ (word_block hb (by omega)) ?_ (fun c hc => ⟨?_, ?_⟩)
  · intro e
    exact hne (blockAddr_word_inj (i := 28) (by omega) (by decide) e).1
  · intro e
    have := (blockAddr_word_inj (i := 14) (by omega) (by decide) e).2
    omega
  · intro e
    have := (blockAddr_word_inj (i := 15) (by omega) (by decide) e).2
    omega

/-- the space that `task_init` has built, after the registration -/
theorem Registered.maps {s : Space} {f : Nat} {entry : Nat → Nat} (hreg : Registered k L m m1)
    (hp : k.process ∉ s.blocks) (hh : m.Holds (s.runs ++ L)) (h : s.Maps m f entry) :
    s.Maps m1 f entry := by
  have hword : ∀ b ∈ s.blocks, ∀ j < 1024, m1.word b j = m.word b j := fun b hb j hj =>
    hreg.word (Space.blocks_lt hh hb) hj (fun hin => Space.not_mem_blocks hh hin hb)
      (fun e => hp (e ▸ hb))
  refine ⟨⟨?_, fun i hi => ?_⟩, fun i hi b hb => ?_⟩
  · exact (hword _ s.chunk_mem 0 (by decide)).trans h.chunk
  · exact (hword _ s.directory_mem i hi).trans (h.dir i hi)
  · exact (hword _ (s.table_mem_blocks hi) b hb).trans (h.table i hi b hb)

/-- the fields of the struct of a process that the mapping reads -/
structure ProcessWords (k : ProcessBlocks) (m : Machine) : Prop where
  task : m.word k.process 28 = blockAddr k.task
  ptr : m.word (k.process + 1) 29 = blockAddr k.image
  stack : m.word (k.process + 1) 30 = blockAddr k.stack
  size : m.word (k.process + 1) 31 = k.size

/-- the four allocations of a process -/
structure ProcessRuns (k : ProcessBlocks) (L : List Run) : Prop where
  process : ⟨k.process, 2⟩ ∈ L
  task : oneBlock k.task ∈ L
  image : ⟨k.image, blocksFor k.size⟩ ∈ L
  stack : ⟨k.stack, 4⟩ ∈ L

/-- **The mapping of a process** into the space of its task -/
theorem processMapMemory_mapped {s : Space} (hr : ProcessRuns k L) (hh : m.Holds (s.runs ++ L))
    (hmaps : s.Maps m 7 (fun v => v * 4096 + 5)) (hw : ProcessWords k m)
    (hchunk : m.word k.task 0 = blockAddr s.chunk) : ∃ m',
      processMapMemory (blockAddr k.process) m = .ok (0, m') ∧ m'.heap = m.heap ∧
      s.Maps m' 7 (processEntry k) ∧ Frame (fun x => x ∈ s.tables) m m' := by
  have hin : ∀ r ∈ L, r.start + r.len ≤ heapBlocks := fun r hrL =>
    hh.inside (List.mem_append_right _ hrL)
  have hp : k.process + 2 ≤ heapBlocks := hin _ hr.process
  have ht : k.task < heapBlocks := hin _ hr.task
  have hp0 : k.process ∉ s.blocks :=
    Space.not_mem_run hh hr.process ⟨le_refl _, Nat.lt_add_of_pos_right Nat.two_pos⟩
  have hp1 : k.process + 1 ∉ s.blocks :=
    Space.not_mem_run hh hr.process ⟨Nat.le_succ _, Nat.lt_succ_self _⟩
  have ht0 : k.task ∉ s.blocks := Space.not_mem_blocks hh hr.task
  -- the image
  obtain ⟨m1, hmap1, hheap1, hmaps1, hfr1⟩ := map_allocation hmaps hh (by decide) k.size
    (hin _ hr.image) (by decide : 1024 < 1048576)
  have hh1 : m1.Holds (s.runs ++ L) := hh.congr hheap1
  have hkeep : ∀ b < heapBlocks, b ∉ s.blocks → ∀ j < 1024, m1.word b j = m.word b j :=
    fun b hb hnb j hj => hfr1.block hb hj (fun hx => hnb (List.mem_cons_of_mem _
      (List.mem_cons_of_mem _ hx)))
  -- the stack
  obtain ⟨m2, hmap2, hheap2, hmaps2, hfr2⟩ := map_allocation hmaps1 hh1 (by decide)
    userProgramStackSize (hin _ hr.stack) (by decide : 1019 < 1048576)
  have hdir := processDirectory_run m hw.task hchunk
  have hdir1 := processDirectory_run m1 ((hkeep _ (by omega) hp0 28 (by decide)).trans hw.task)
    ((hkeep _ ht ht0 0 (by decide)).trans hchunk)
  have hptr : readWord (blockAddr k.process) ProcessField.ptr m = .ok (blockAddr k.image, m) :=
    readProcess m 29 hw.ptr
  have hsize : readWord (blockAddr k.process) ProcessField.size m = .ok (k.size, m) :=
    readProcess m 31 hw.size
  have hstack : readWord (blockAddr k.process) ProcessField.stack m1 = .ok (blockAddr k.stack, m1) :=
    readProcess m1 30 ((hkeep _ (by omega) hp1 30 (by decide)).trans hw.stack)
  have hbin : processMapBinary (blockAddr k.process) m = .ok (0, m1) := by
    unfold processMapBinary
    rw [bind_ok hdir, bind_ok hptr, bind_ok hsize]
    exact bind_ok hmap1
  refine ⟨m2, ?_, hheap2.trans hheap1, hmaps2, hfr1.trans hfr2⟩
  unfold processMapMemory
  rw [bind_ok hbin, if_neg (lt_irrefl 0), bind_ok hdir1, bind_ok hstack]
  exact bind_ok hmap2

/-- the path of a process load: `task_init`, the registration, the mapping -/
theorem processMapMemory_run (h : MappedProcess k L m)
    (hinit : taskInit (blockAddr k.task) (blockAddr k.process) m = .ok (0, m1))
    (hreg : Registered k L m1 m2) :
    ∃ (s : Space) (m3 : Machine), processMapMemory (blockAddr k.process) m2 = .ok (0, m3) ∧
      m3.Holds (s.runs ++ L) ∧ s.Maps m3 7 (processEntry k) ∧
      m3.word k.task 0 = blockAddr s.chunk ∧ m3.word k.task 11 = stackAddressStart := by
  have hlt := h.process_lt
  have htask : k.task < heapBlocks := h.holds.block_lt h.task
  have hmem0 : Run.Mem ⟨k.process, 2⟩ k.process := ⟨le_refl _, Nat.lt_add_of_pos_right Nat.two_pos⟩
  have hmem1 : Run.Mem ⟨k.process, 2⟩ (k.process + 1) := ⟨Nat.le_succ _, Nat.lt_succ_self _⟩
  have hp : blockAddr k.process < 4294967296 := blockAddr_word_lt (by omega)
  have hperm : L.Perm (oneBlock k.task :: L.erase (oneBlock k.task)) := List.perm_cons_erase h.task
  have hh0 := h.holds.perm hperm
  have hfree : 1026 ≤ freeBlocks m.heap.table := by
    by_contra hno
    rw [taskInit_fault hh0 _ (by omega)] at hinit
    cases hinit
  obtain ⟨s, m1', hrun, hh1, hmaps1, hfr1, hwords, -⟩ := taskInit_run hh0 hp hfree
  obtain rfl : m1' = m1 := (run_unique hrun hinit).2
  have hh1L : m1'.Holds (s.runs ++ L) := hh1.perm (List.Perm.append_left s.runs hperm.symm)
  -- the struct of the process is not touched by `task_init`
  have hp0 : k.process ∉ s.blocks := Space.not_mem_run hh1L h.process hmem0
  have hp1 : k.process + 1 ∉ s.blocks := Space.not_mem_run hh1L h.process hmem1
  have ht0 : k.task ∉ s.blocks := Space.not_mem_blocks hh1L h.task
  have hword1 : ∀ j < 1024, m1'.word (k.process + 1) j = m.word (k.process + 1) j := fun j hj =>
    hfr1.block (by omega) hj (not_or.mpr ⟨h.apart hmem1, hp1⟩)
  -- the registration
  have hmaps2 : s.Maps m2 7 (fun v => v * 4096 + 5) := hreg.maps hp0 hh1L hmaps1
  have hh2 : m2.Holds (s.runs ++ L) := hh1L.congr hreg.heap
  have hword2 : ∀ j < 1024, m2.word (k.process + 1) j = m.word (k.process + 1) j := fun j hj =>
    (hreg.word (by omega) hj (h.not_single hmem1) (by omega)).trans (hword1 j hj)
  have htw2 : ∀ j < 14, m2.word k.task j = m1'.word k.task j := fun j hj =>
    hreg.task_word htask hj (h.apart hmem0).symm
  have hw2 : ProcessWords k m2 :=
    ⟨hreg.task, (hword2 29 (by decide)).trans ((process_load m k.process 29).symm.trans h.ptr),
      (hword2 30 (by decide)).trans ((process_load m k.process 30).symm.trans h.stackPtr),
      (hword2 31 (by decide)).trans ((process_load m k.process 31).symm.trans h.size)⟩
  -- the mapping
  obtain ⟨m3, hmap, hheap, hmaps3, hfr3⟩ := processMapMemory_mapped
    ⟨h.process, h.task, h.image, h.stack⟩ hh2 hmaps2 hw2
    ((htw2 0 (by decide)).trans hwords.pageDirectory)
  have hkeep3 : ∀ j < 14, m3.word k.task j = m1'.word k.task j := fun j hj =>
    (hfr3.block htask (by omega) (fun hin => ht0 (List.mem_cons_of_mem _
      (List.mem_cons_of_mem _ hin)))).trans (htw2 j hj)
  exact ⟨s, m3, hmap, hh2.congr hheap, hmaps3, (hkeep3 0 (by decide)).trans hwords.pageDirectory,
    (hkeep3 11 (by decide)).trans hwords.esp⟩

end

/-! ## what the processor sees -/

/-- the entry of a page in the range -/
theorem remap_in {entry : Nat → Nat} {v n g w : Nat} (p : Nat) (h1 : v ≤ w) (h2 : w < v + n)
    (hw : w < 1048576) : remap entry v p n g w = (p + (w - v)) * 4096 + g := by
  have e : pageDist v w = w - v := by
    unfold pageDist
    omega
  unfold remap
  rw [e, if_pos (by omega)]

theorem remap_out {entry : Nat → Nat} {v n g w : Nat} (p : Nat) (hw : w < 1048576)
    (hv : v + n ≤ 1048576) (h : w < v ∨ v + n ≤ w) : remap entry v p n g w = entry w := by
  unfold remap pageDist
  rw [if_neg (by omega)]

theorem pageTranslation_user {p off : Nat} :
    pageTranslation (p * 4096 + 7) off = some ⟨p * 4096 + off, true, true⟩ := by
  have hbit : ∀ k < 3, (p * 4096 + 7).testBit k = true := by
    intro k hk
    rw [testBit_flags p (by decide) (by omega)]
    interval_cases k <;> rfl
  unfold pageTranslation
  rw [hbit 0 (by decide), hbit 1 (by decide), hbit 2 (by decide), if_pos rfl,
    show (p * 4096 + 7) / 4096 = p by omega]

theorem pageTranslation_readonly {p off : Nat} :
    pageTranslation (p * 4096 + 5) off = some ⟨p * 4096 + off, false, true⟩ := by
  have hbit : ∀ k < 3, (p * 4096 + 5).testBit k = Nat.testBit 5 k := fun k hk =>
    testBit_flags p (by decide) (by omega)
  unfold pageTranslation
  rw [hbit 0 (by decide), hbit 1 (by decide), hbit 2 (by decide)]
  rw [show (p * 4096 + 5) / 4096 = p by omega]
  rfl

section
variable {k : ProcessBlocks} {L : List Run} {m m1 m2 m3 : Machine}

/-- the pages of the image -/
def ImagePage (k : ProcessBlocks) (v : Nat) : Prop := 1024 ≤ v ∧ v < 1024 + blocksFor k.size

/-- the pages of the stack -/
def StackPage (v : Nat) : Prop := 1019 ≤ v ∧ v < 1023

theorem processEntry_image (hk : k.image + blocksFor k.size ≤ heapBlocks) {v : Nat}
    (h : ImagePage k v) : processEntry k v = (4096 + k.image + (v - 1024)) * 4096 + 7 := by
  obtain ⟨h1, h2⟩ := h
  have hn : blocksFor k.size ≤ 25600 := le_trans (Nat.le_add_left _ _) hk
  unfold processEntry
  rw [remap_out _ (by omega) (by decide) (Or.inr (by omega)), remap_in _ h1 h2 (by omega)]

theorem processEntry_stack {v : Nat} (h : StackPage v) :
    processEntry k v = (4096 + k.stack + (v - 1019)) * 4096 + 7 := by
  obtain ⟨h1, h2⟩ := h
  unfold processEntry
  rw [remap_in _ h1 h2 (by omega)]

theorem processEntry_other (hk : k.image + blocksFor k.size ≤ heapBlocks) {v : Nat}
    (hv : v < 1048576) (hi : ¬ ImagePage k v) (hs : ¬ StackPage v) :
    processEntry k v = v * 4096 + 5 := by
  have hn : blocksFor k.size ≤ 25600 := le_trans (Nat.le_add_left _ _) hk
  unfold ImagePage at hi
  unfold StackPage at hs
  unfold processEntry
  rw [remap_out _ hv (by decide) (by omega), remap_out _ hv (by omega) (by omega)]

/-- the byte `i` after page `v` lies in the byte `i` after block `b` -/
theorem mapped_byte (b v i : Nat) :
    (4096 + b + ((v * 4096 + i) / 4096 - v)) * 4096 + (v * 4096 + i) % 4096 = blockAddr b + i := by
  rw [blockAddr_page]
  omega

/-- what the processor does in the directory `dir` with the addresses of a process -/
structure UserSpace (k : ProcessBlocks) (m : Machine) (dir : Nat) : Prop where
  image : ∀ i < k.size,
    translate m.mem dir (programVirtualAddress + i) = some ⟨blockAddr k.image + i, true, true⟩
  stack : ∀ j < userProgramStackSize,
    translate m.mem dir (stackAddressEnd + j) = some ⟨blockAddr k.stack + j, true, true⟩
  entry : ∀ v < 1048576, ¬ ImagePage k v → ¬ StackPage v →
    pagingGet dir (v * 4096) m = .ok (v * 4096 + 5, m)
  identity : ∀ v < 1048576, ¬ ImagePage k v → ¬ StackPage v → ∀ o < 4096,
    translate m.mem dir (v * 4096 + o) = some ⟨v * 4096 + o, false, true⟩

theorem userSpace_of_maps {s : Space} (hk : k.image + blocksFor k.size ≤ heapBlocks)
    (hh : m.Holds (s.runs ++ L)) (h : s.Maps m 7 (processEntry k)) :
    UserSpace k m (blockAddr s.directory) where
  image i hi := by
    have hn : blocksFor k.size ≤ 25600 := le_trans (Nat.le_add_left _ _) hk
    have hpage : ImagePage k ((programVirtualAddress + i) / 4096) := by
      unfold ImagePage blocksFor programVirtualAddress
      omega
    have hlt : programVirtualAddress + i < 4294967296 := by
      have := hpage.2
      unfold programVirtualAddress at *
      omega
    rw [translate_maps h hlt, processEntry_image hk hpage, pageTranslation_user]
    rw [show programVirtualAddress = 1024 * 4096 from rfl, mapped_byte]
  stack j hj := by
    unfold userProgramStackSize at hj
    have hpage : StackPage ((stackAddressEnd + j) / 4096) := by
      show 1019 ≤ (4173824 + j) / 4096 ∧ (4173824 + j) / 4096 < 1023
      omega
    have hlt : stackAddressEnd + j < 4294967296 := by
      show 4173824 + j < 4294967296
      omega
    rw [translate_maps h hlt, processEntry_stack hpage, pageTranslation_user]
    rw [show stackAddressEnd = 1019 * 4096 from rfl, mapped_byte]
  entry v hv hi hs := by
    rw [pagingGet_run h hh (by decide) hv, processEntry_other hk hv hi hs]
  identity v hv hi hs o ho := by
    have hdiv : (v * 4096 + o) / 4096 = v := by omega
    have hmod : (v * 4096 + o) % 4096 = o := by omega
    rw [translate_maps h (by omega), hdiv, hmod, processEntry_other hk hv hi hs,
      pageTranslation_readonly]

/-- **The memory of a process.**  After `process_map_memory` the task's directory takes the image
and the stack to their allocations, writable by the user, and leaves every other page where it is,
read-only. -/
theorem process_map_memory_translates (h : MappedProcess k L m)
    (hinit : taskInit (blockAddr k.task) (blockAddr k.process) m = .ok (0, m1))
    (hreg : Registered k L m1 m2) :
    ∃ m3, processMapMemory (blockAddr k.process) m2 = .ok (0, m3) ∧
      UserSpace k m3 (m3.mem.load (m3.mem.load (blockAddr k.task + TaskField.pageDirectory))) ∧
      m3.mem.load (blockAddr k.task + TaskField.esp) = 0x3FF000 ∧
      ∃ j < userProgramStackSize, 0x3FF000 - 1 = stackAddressEnd + j := by
  obtain ⟨s, m3, hrun, hh, hmaps, hdir, hesp⟩ := processMapMemory_run h hinit hreg
  refine ⟨m3, hrun, ?_, hesp, 16383, by decide, by decide⟩
  have e : m3.mem.load (blockAddr k.task + TaskField.pageDirectory) = blockAddr s.chunk := hdir
  rw [e, hmaps.chunk]
  exact userSpace_of_maps (h.holds.inside h.image) hh hmaps

end

/-! ## a process in an otherwise empty heap -/

section
variable (size : Nat)

/-- the struct, the task, the image and the stack one behind the other -/
def loadedProcess : ProcessBlocks := ⟨0, 2, 3, 3 + blocksFor size, size⟩

def loadedRuns : List Run :=
  [⟨3 + blocksFor size, 4⟩, ⟨3, blocksFor size⟩, oneBlock 2, ⟨0, 2⟩]

/-- the heap with the four allocations -/
def loadedHeap : Machine :=
  (((emptyMachine.alloc ⟨0, 2⟩ processSize).alloc (oneBlock 2) taskSize).alloc
    ⟨3, blocksFor size⟩ size).alloc ⟨3 + blocksFor size, 4⟩ userProgramStackSize

/-- the image, the stack and the size stored in the struct -/
def loadedMachine : Machine :=
  { loadedHeap size with
    mem := (((loadedHeap size).mem.store (blockAddr 0 + ProcessField.ptr) (blockAddr 3)).store
      (blockAddr 0 + ProcessField.stack) (blockAddr (3 + blocksFor size))).store
      (blockAddr 0 + ProcessField.size) size }

theorem loadedHeap_holds (h1 : 1 ≤ size) (h2 : 3 + blocksFor size + 4 ≤ heapBlocks) :
    (loadedHeap size).Holds (loadedRuns size) := by
  have hb : 1 ≤ blocksFor size := by
    unfold blocksFor
    omega
  have g1 := emptyMachine_holds.alloc (n := 2) (b := 0) (by decide)
    (emptyMachine_holds.window (by decide) (by simp)) processSize
  have g2 := g1.alloc (n := 1) (b := 2) (by decide) (g1.window (by decide) (by simp)) taskSize
  have g3 := g2.alloc (n := blocksFor size) (b := 3) hb
    (g2.window (by omega) (by simp)) size
  exact g3.alloc (n := 4) (b := 3 + blocksFor size) (by decide)
    (g3.window h2 (by simp; omega)) userProgramStackSize

theorem loadedMachine_mapped (h1 : 1 ≤ size) (h2 : 3 + blocksFor size + 4 ≤ heapBlocks) :
    MappedProcess (loadedProcess size) (loadedRuns size) (loadedMachine size) where
  holds := (loadedHeap_holds size h1 h2).congr rfl
  process := by simp [loadedProcess, loadedRuns]
  task := by simp [loadedProcess, loadedRuns]
  image := by simp [loadedProcess, loadedRuns]
  stack := by simp [loadedProcess, loadedRuns]
  ptr := by
    show (loadedMachine size).mem.load (blockAddr 0 + ProcessField.ptr) = blockAddr 3
    unfold loadedMachine
    dsimp only
    rw [Mem.load_store_ne _ _ (by decide) (by decide) (by decide),
      Mem.load_store_ne _ _ (by decide) (by decide) (by decide), Mem.load_store _ _ (by decide)]
  stackPtr := by
    show (loadedMachine size).mem.load (blockAddr 0 + ProcessField.stack)
      = blockAddr (3 + blocksFor size)
    have hlt := blockAddr_lt (by omega : 3 + blocksFor size < heapBlocks)
    unfold loadedMachine
    dsimp only
    rw [Mem.load_store_ne _ _ (by decide) (by decide) (by decide), Mem.load_store _ _ (by omega)]
  size := by
    refine Mem.load_store _ _ ?_
    have hle : size ≤ blocksFor size * 4096 := by
      unfold blocksFor
      omega
    have : heapBlocks = 25600 := rfl
    show size < 4294967296
    omega
  pos := h1

theorem loadedMachine_free {n : Nat} (h1 : 1 ≤ size)
    (h2 : 3 + blocksFor size + 4 + n ≤ heapBlocks) : n ≤ freeBlocks (loadedMachine size).heap.table := by
  have hh := loadedHeap_holds size h1 (by omega)
  have hge := freeBlocks_ge (t := (loadedMachine size).heap.table) (n := 3 + blocksFor size + 4)
    (fun i h9 hi => (hh.tiled.free_iff hi).mpr (fun r hr hm => ?_))
  · rw [show (loadedMachine size).heap.table.total = heapBlocks from hh.total] at hge
    omega
  · have hm2 := hm.2
    have hend : r.start + r.len ≤ 3 + blocksFor size + 4 := by
      unfold loadedRuns oneBlock at hr
      simp only [List.mem_cons, List.not_mem_nil, or_false] at hr
      rcases hr with rfl | rfl | rfl | rfl
      · exact le_refl _
      · dsimp only
        omega
      · dsimp only
        omega
      · dsimp only
        omega
    omega

end

/-! an image of 5000 bytes -/

def smallProcess : ProcessBlocks := ⟨0, 2, 3, 5, 5000⟩

def smallRuns : List Run := [⟨5, 4⟩, ⟨3, 2⟩, oneBlock 2, ⟨0, 2⟩]

/-- the heap of the small process -/
def smallHeap : Machine :=
  (((emptyMachine.alloc ⟨0, 2⟩ processSize).alloc (oneBlock 2) taskSize).alloc ⟨3, 2⟩ 5000).alloc
    ⟨5, 4⟩ userProgramStackSize

/-- the image, the stack and the size stored in the struct -/
def smallMachine : Machine :=
  { smallHeap with
    mem := ((smallHeap.mem.store 0x1001074 0x1003000).store 0x1001078 0x1005000).store
      0x100107C 5000 }

theorem smallMachine_mapped : MappedProcess smallProcess smallRuns smallMachine :=
  loadedMachine_mapped 5000 (by decide) (by decide)

theorem smallMachine_free : 1026 ≤ freeBlocks smallMachine.heap.table :=
  loadedMachine_free 5000 (by decide) (by decide)

/-- the registration of the task in the struct -/
theorem registered_store (k : ProcessBlocks) (L : List Run) (m : Machine)
    (hp : k.process < heapBlocks) (ht : k.task < heapBlocks) : Registered k L m
      { m with mem := m.mem.store (blockAddr k.process + ProcessField.task) (blockAddr k.task) } where
  heap := rfl
  task := by
    exact Mem.load_store _ _ (blockAddr_word_lt ht.le)
  other a ha hne hL := Mem.load_store_ne _ _ (word_block (i := 28) hp (by decide)) ha hne

theorem process_map_memory_translates_small : ∃ m1 m2 m3,
    taskInit 0x1002000 0x1000000 smallMachine = .ok (0, m1) ∧
      Registered smallProcess smallRuns m1 m2 ∧ processMapMemory 0x1000000 m2 = .ok (0, m3) ∧
      UserSpace smallProcess m3 (m3.mem.load (m3.mem.load 0x1002000)) := by
  have hperm : smallRuns.Perm (oneBlock 2 :: smallRuns.erase (oneBlock 2)) :=
    List.perm_cons_erase (by decide)
  obtain ⟨s, m1, hinit, -⟩ := taskInit_run (smallMachine_mapped.holds.perm hperm)
    (by decide : blockAddr 0 < 4294967296) smallMachine_free
  have hreg := registered_store smallProcess smallRuns m1 (by decide) (by decide)
  obtain ⟨m3, hrun, hspace, -⟩ := process_map_memory_translates smallMachine_mapped hinit hreg
  exact ⟨m1, _, m3, hinit, hreg, hrun, hspace⟩

end LameOS
