import LameOS.Isr80h.Handler
import LameOS.Memory.Owns
import Mathlib.Data.List.TakeWhile

/-!
# What a system call reads and keeps

* `Running`              the current task has a space in which every page is present;
* `TaskSpace`            the same of any task, and without the pages being present;
* `Served`               what a system call keeps: the kernel, the words below the heap, the
                         allocations of others;
* `physOf`, `userWord`   where a linear address of the task lies, and the word there;
* `Scratched`            the scratch block of a copy, mapped to itself in the task's tables;
* `taskGetStackItem_run`, `copyStringFromTask_run`   what is read of the task.
-/

set_option linter.unusedVariables false

namespace LameOS
open Lib Lib.Exec

/-! ## states -/

/-- the current task has the struct at block `t` and the space `space` with the entries `entry` -/
structure Running (entry : Nat → Nat) (space : Space) (t : Nat) (L : List Run) (s : CallState) :
    Prop where
  holds : s.kernel.machine.Holds (space.runs ++ oneBlock t :: L)
  current : s.kernel.currentTask = blockAddr t
  pageDirectory : s.kernel.machine.word t 0 = blockAddr space.chunk
  maps : space.Maps s.kernel.machine 7 entry
  present : ∀ v < 1048576, (entry v).testBit 0 = true
  kernelChunk : s.kernelChunk ≠ 0

/-- a task, whose pages need not be present: it has the struct at block `t` and the space `space` with
the entries `entry` -/
structure TaskSpace (entry : Nat → Nat) (space : Space) (t : Nat) (L : List Run) (s : CallState) :
    Prop where
  holds : s.kernel.machine.Holds (space.runs ++ oneBlock t :: L)
  pageDirectory : s.kernel.machine.word t 0 = blockAddr space.chunk
  maps : space.Maps s.kernel.machine 7 entry
  kernelChunk : s.kernelChunk ≠ 0

theorem Running.taskSpace {entry : Nat → Nat} {space : Space} {t : Nat} {L : List Run} {s : CallState}
    (h : Running entry space t L s) : TaskSpace entry space t L s :=
  ⟨h.holds, h.pageDirectory, h.maps, h.kernelChunk⟩

/-- the words below the heap -/
def Below (m m' : Machine) : Prop :=
  ∀ a, Mem.Word a → a < heapAddress → m'.mem.load a = m.mem.load a

/-- what a system call keeps -/
structure Served (L : List Run) (s s' : CallState) : Prop where
  kernel : s'.kernel = { s.kernel with machine := s'.kernel.machine }
  kernelChunk : s'.kernelChunk = s.kernelChunk
  isr80hCommands : s'.isr80hCommands = s.isr80hCommands
  below : Below s.kernel.machine s'.kernel.machine
  untouched : Untouched L s.kernel.machine s'.kernel.machine

section
variable {entry : Nat → Nat} {space : Space} {t : Nat} {L : List Run} {s s' s'' : CallState}
  {m m' m'' : Machine}

theorem Below.refl (m : Machine) : Below m m := fun _ _ _ => rfl

theorem Below.trans (h : Below m m') (h' : Below m' m'') : Below m m'' := fun a ha hlt =>
  (h' a ha hlt).trans (h a ha hlt)

/-- a change that stays in the heap -/
theorem Frame.below {B : Nat → Prop} (h : Frame B m m') : Below m m' := by
  refine fun a ha hlt => h a ha (fun b _ hin => ?_)
  have hlt : a < 4096 * 4096 := hlt
  unfold InBlock at hin
  omega

theorem Served.refl (L : List Run) (s : CallState) : Served L s s :=
  ⟨rfl, rfl, rfl, Below.refl _, Untouched.refl L _⟩

theorem Served.trans (h : Served L s s') (h' : Served L s' s'') : Served L s s'' where
  kernel := by rw [h'.kernel, h.kernel]
  kernelChunk := h'.kernelChunk.trans h.kernelChunk
  isr80hCommands := h'.isr80hCommands.trans h.isr80hCommands
  below := h.below.trans h'.below
  untouched := h.untouched.trans h'.untouched

/-- the state under the kernel's directory -/
def CallState.inKernel (s : CallState) : CallState :=
  { s with segments := fun _ => 0x10, directory := s.mem.load s.kernelChunk }

/-- the state under the directory of the space -/
def CallState.inTask (space : Space) (s : CallState) : CallState :=
  { s with segments := fun _ => 0x23, directory := blockAddr space.directory }

/-- the state with another machine -/
def CallState.onto (m : Machine) (s : CallState) : CallState :=
  { s with kernel := { s.kernel with machine := m } }

/-- the state under another directory -/
def CallState.under (directory : Nat) (s : CallState) : CallState := { s with directory := directory }

/-- a task has its space in every state with the same machine -/
theorem TaskSpace.congr (h : TaskSpace entry space t L s)
    (hm : s'.kernel.machine = s.kernel.machine) (hc : s'.kernelChunk = s.kernelChunk) :
    TaskSpace entry space t L s' where
  holds := hm.symm ▸ h.holds
  pageDirectory := hm.symm ▸ h.pageDirectory
  maps := hm.symm ▸ h.maps
  kernelChunk := hc.symm ▸ h.kernelChunk

theorem Running.congr (h : Running entry space t L s) (hk : s'.kernel = s.kernel)
    (hc : s'.kernelChunk = s.kernelChunk) : Running entry space t L s' where
  holds := hk.symm ▸ h.holds
  current := hk.symm ▸ h.current
  pageDirectory := hk.symm ▸ h.pageDirectory
  maps := hk.symm ▸ h.maps
  present := h.present
  kernelChunk := hc.symm ▸ h.kernelChunk

theorem Served.congr (h : Served L s s') (hk : s''.kernel = s'.kernel)
    (hc : s''.kernelChunk = s'.kernelChunk) (hi : s''.isr80hCommands = s'.isr80hCommands) :
    Served L s s'' where
  kernel := hk.symm ▸ h.kernel
  kernelChunk := hc.trans h.kernelChunk
  isr80hCommands := hi.trans h.isr80hCommands
  below := hk.symm ▸ h.below
  untouched := hk.symm ▸ h.untouched

theorem Running.under (h : Running entry space t L s) (d : Nat) :
    Running entry space t L (s.under d) := h.congr rfl rfl

theorem Running.inKernel (h : Running entry space t L s) : Running entry space t L s.inKernel :=
  h.congr rfl rfl

theorem Running.inTask (h : Running entry space t L s) :
    Running entry space t L (s.inTask space) := h.congr rfl rfl

theorem Served.inKernel (h : Served L s s') : Served L s s'.inKernel := h.congr rfl rfl rfl

theorem Served.inTask (h : Served L s s') : Served L s (s'.inTask space) := h.congr rfl rfl rfl

theorem Served.mono {L' : List Run} (h : Served L s s') (hL : ∀ r ∈ L', r ∈ L) : Served L' s s' :=
  ⟨h.kernel, h.kernelChunk, h.isr80hCommands, h.below, h.untouched.mono hL⟩

theorem TaskSpace.under (h : TaskSpace entry space t L s) (d : Nat) :
    TaskSpace entry space t L (s.under d) := h.congr rfl rfl

theorem TaskSpace.inKernel (h : TaskSpace entry space t L s) :
    TaskSpace entry space t L s.inKernel := h.congr rfl rfl

theorem TaskSpace.block_lt (h : TaskSpace entry space t L s) : t < heapBlocks :=
  h.holds.block_lt (List.mem_append_right _ List.mem_cons_self)

theorem Running.block_lt (h : Running entry space t L s) : t < heapBlocks :=
  h.holds.block_lt (List.mem_append_right _ List.mem_cons_self)

/-- a change of the machine that keeps the task and its space -/
theorem Running.onto (h : Running entry space t L s) {entry' : Nat → Nat} {L' : List Run}
    (hh : m.Holds (space.runs ++ oneBlock t :: L'))
    (hpd : m.word t 0 = blockAddr space.chunk) (hmaps : space.Maps m 7 entry')
    (hpresent : ∀ v < 1048576, (entry' v).testBit 0 = true) :
    Running entry' space t L' (s.onto m) :=
  ⟨hh, h.current, hpd, hmaps, hpresent, h.kernelChunk⟩

theorem Running.ofSpace (h : Running entry space t L s) {entry' : Nat → Nat} {L' : List Run}
    (ht : TaskSpace entry' space t L' (s.onto m))
    (hpresent : ∀ v < 1048576, (entry' v).testBit 0 = true) :
    Running entry' space t L' (s.onto m) :=
  h.onto ht.holds ht.pageDirectory ht.maps hpresent

theorem Served.onto (hb : Below s.kernel.machine m) (hu : Untouched L s.kernel.machine m) :
    Served L s (s.onto m) := ⟨rfl, rfl, rfl, hb, hu⟩

theorem inCall_ok {α : Type} {x : Prog Machine α} {a : α} (h : x s.kernel.machine = .ok (a, m)) :
    inCall x s = .ok (a, s.onto m) := part_ok h

theorem inCall_same {α : Type} {x : Prog Machine α} {a : α}
    (h : x s.kernel.machine = .ok (a, s.kernel.machine)) : inCall x s = .ok (a, s) := part_ok h

/-! ## the directories -/

theorem kernelPage_run (h : s.kernelChunk ≠ 0) : kernelPage s = .ok ((), s.inKernel) := by
  have hread : inCall (readWord s.kernelChunk 0) { s with segments := fun _ => 0x10 }
      = .ok (s.mem.load s.kernelChunk, { s with segments := fun _ => 0x10 }) :=
    part_ok (readWord_ok s.kernel.machine h 0)
  unfold kernelPage kernelRegisters pagingSwitch
  rw [bind_ok (modify_run _ s), bind_ok (get_run _), bind_ok hread]
  rfl

theorem pagingSwitch_run (h : TaskSpace entry space t L s) :
    pagingSwitch (blockAddr space.chunk) s = .ok ((), s.under (blockAddr space.directory)) := by
  have hread : inCall (readWord (blockAddr space.chunk) 0) s = .ok (blockAddr space.directory, s) := by
    refine inCall_same ?_
    rw [readWord_ok _ blockAddr_ne, Nat.add_zero, h.maps.chunk]
  unfold pagingSwitch
  rw [bind_ok hread]
  rfl

theorem readDirectory_run (h : TaskSpace entry space t L s) :
    inCall (readWord (blockAddr t) TaskField.pageDirectory) s = .ok (blockAddr space.chunk, s) := by
  refine inCall_same ?_
  rw [readWord_ok _ blockAddr_ne]
  have e : s.kernel.machine.mem.load (blockAddr t + TaskField.pageDirectory) = _ := h.pageDirectory
  rw [e]

theorem taskPageTask_run (h : Running entry space t L s) :
    taskPageTask (blockAddr t) s = .ok ((), s.inTask space) := by
  have h1 : Running entry space t L { s with segments := fun _ => 0x23 } := h.congr rfl rfl
  unfold taskPageTask userRegisters
  rw [bind_ok (modify_run _ s), bind_ok (readDirectory_run h1.taskSpace),
    pagingSwitch_run h1.taskSpace]
  rfl

theorem taskPage_run (h : Running entry space t L s) : taskPage s = .ok ((), s.inTask space) := by
  have h1 : Running entry space t L { s with segments := fun _ => 0x23 } := h.congr rfl rfl
  have hcur : ({ s with segments := fun _ => 0x23, kernel :=
      { s.kernel with currentTask := s.kernel.currentTask } } : CallState)
      = { s with segments := fun _ => 0x23 } := rfl
  unfold taskPage userRegisters taskSwitch
  rw [bind_ok (modify_run _ s), bind_ok (get_run _), bind_ok (modify_run _ _), hcur]
  dsimp only
  rw [h.current, bind_ok (readDirectory_run h1.taskSpace), pagingSwitch_run h1.taskSpace]
  rfl

end

/-! ## accesses of the task -/

/-- where the page table entries take a linear address -/
def physOf (entry : Nat → Nat) (va : Nat) : Nat :=
  entry (va % 4294967296 / 4096) / 4096 * 4096 + va % 4294967296 % 4096

/-- the word at a linear address -/
def userWord (m : Mem) (entry : Nat → Nat) (va : Nat) : Nat :=
  (m (BitVec.ofNat 32 (physOf entry (va + 3))) ++ m (BitVec.ofNat 32 (physOf entry (va + 2))) ++
    m (BitVec.ofNat 32 (physOf entry (va + 1))) ++ m (BitVec.ofNat 32 (physOf entry va))).toNat

section
variable {entry : Nat → Nat} {space : Space} {t : Nat} {L : List Run} {s : CallState}

/-- the page of a linear address is present -/
def PageAt (entry : Nat → Nat) (va : Nat) : Prop :=
  (entry (va % 4294967296 / 4096)).testBit 0 = true

theorem Running.pageAt (h : Running entry space t L s) (va : Nat) : PageAt entry va :=
  h.present _ (by omega)

theorem translate_entry (h : TaskSpace entry space t L s)
    (hdir : s.directory = blockAddr space.directory) (va : Nat) :
    translate s.mem s.directory (va % 4294967296)
      = pageTranslation (entry (va % 4294967296 / 4096)) (va % 4294967296 % 4096) := by
  rw [hdir]
  exact translate_maps h.maps (Nat.mod_lt _ (by decide))

theorem translate_present (h : TaskSpace entry space t L s)
    (hdir : s.directory = blockAddr space.directory) {va : Nat} (hp : PageAt entry va) :
    ∃ tr, translate s.mem s.directory (va % 4294967296) = some tr ∧ tr.phys = physOf entry va := by
  have htr := translate_entry h hdir va
  unfold PageAt at hp
  unfold pageTranslation at htr
  rw [if_pos hp] at htr
  exact ⟨_, htr, rfl⟩

theorem translate_absent (h : TaskSpace entry space t L s)
    (hdir : s.directory = blockAddr space.directory) {va : Nat} (hno : ¬ PageAt entry va) :
    translate s.mem s.directory (va % 4294967296) = none := by
  have htr := translate_entry h hdir va
  unfold PageAt at hno
  unfold pageTranslation at htr
  rwa [if_neg hno] at htr

theorem loadByte_at (h : TaskSpace entry space t L s) (hdir : s.directory = blockAddr space.directory)
    {va : Nat} (hp : PageAt entry va) :
    loadByte va s = .ok (s.mem (BitVec.ofNat 32 (physOf entry va)), s) := by
  obtain ⟨tr, htr, hphys⟩ := translate_present h hdir hp
  unfold loadByte
  rw [bind_ok (get_run s), htr, ← hphys]
  rfl

theorem storeByte_at (h : TaskSpace entry space t L s) (hdir : s.directory = blockAddr space.directory)
    {va : Nat} (hp : PageAt entry va) (c : BitVec 8) :
    storeByte va c s = .ok ((), setByte (physOf entry va) c s) := by
  obtain ⟨tr, htr, hphys⟩ := translate_present h hdir hp
  unfold storeByte
  rw [bind_ok (get_run s), htr, ← hphys]
  rfl

/-- an access that returns finds the page present -/
theorem loadByte_page (h : TaskSpace entry space t L s) (hdir : s.directory = blockAddr space.directory)
    {va : Nat} {r : BitVec 8 × CallState} (hrun : loadByte va s = .ok r) : PageAt entry va := by
  by_contra hno
  unfold loadByte at hrun
  rw [bind_ok (get_run s), translate_absent h hdir hno] at hrun
  cases hrun

theorem storeByte_page (h : TaskSpace entry space t L s)
    (hdir : s.directory = blockAddr space.directory) {va : Nat} {c : BitVec 8} {r : Unit × CallState}
    (hrun : storeByte va c s = .ok r) : PageAt entry va := by
  by_contra hno
  unfold storeByte at hrun
  rw [bind_ok (get_run s), translate_absent h hdir hno] at hrun
  cases hrun

theorem loadByte_run (h : Running entry space t L s)
    (hdir : s.directory = blockAddr space.directory) (va : Nat) :
    loadByte va s = .ok (s.mem (BitVec.ofNat 32 (physOf entry va)), s) :=
  loadByte_at h.taskSpace hdir (h.pageAt va)

theorem loadLinear_run (h : Running entry space t L s)
    (hdir : s.directory = blockAddr space.directory) (va : Nat) :
    loadLinear va s = .ok (userWord s.mem entry va, s) := by
  unfold loadLinear
  rw [bind_ok (loadByte_run h hdir va), bind_ok (loadByte_run h hdir (va + 1)),
    bind_ok (loadByte_run h hdir (va + 2)), bind_ok (loadByte_run h hdir (va + 3))]
  rfl

/-- **An item of the stack of the current task**, read through its own tables -/
theorem taskGetStackItem_run (h : Running entry space t L s) (index : Nat) :
    taskGetStackItem (blockAddr t) index s
      = .ok (userWord s.mem entry (s.kernel.machine.word t 11 + 4 * index), s.inKernel) := by
  have hsp : inCall (readWord (blockAddr t) TaskField.esp) s
      = .ok (s.kernel.machine.word t 11, s) := inCall_same (readWord_ok _ blockAddr_ne _)
  unfold taskGetStackItem
  rw [bind_ok hsp, bind_ok (taskPageTask_run h), bind_ok (loadLinear_run h.inTask rfl _),
    bind_ok (kernelPage_run h.inTask.kernelChunk)]
  rfl

/-- **The sum of two items** -/
theorem isr80hCommand0Sum_run (h : Running entry space t L s) :
    isr80hCommand0Sum s = .ok ((userWord s.mem entry (s.kernel.machine.word t 11) +
      userWord s.mem entry (s.kernel.machine.word t 11 + 4)) % 4294967296, s.inKernel) := by
  unfold isr80hCommand0Sum
  rw [bind_ok (get_run s), h.current, bind_ok (taskGetStackItem_run h 1),
    bind_ok (taskGetStackItem_run h.inKernel 0)]
  rw [Nat.add_comm]
  rfl

end

/-! ## the registers of the task -/

section
variable {m : Machine} {t : Nat}

theorem storeWords_frame (ht : t < heapBlocks) (ws : List (BitVec 32)) : ∀ (m : Machine) (i : Nat),
    i + ws.length ≤ 1024 →
      Frame (fun x => x = t) m { m with mem := storeWords m.mem (blockAddr t + 4 * i) ws } := by
  induction ws with
  | nil => exact fun m i _ => Frame.refl _ m
  | cons w ws ih =>
    intro m i hi
    rw [List.length_cons] at hi
    obtain ⟨m1, hw, w1⟩ := writeWord_block m ht (show i < 1024 by omega) w.isLt
    rw [writeWord, if_neg blockAddr_ne] at hw
    cases hw
    exact w1.frame.trans (ih _ (i + 1) (by omega))

/-- the words before the ones that are stored -/
theorem storeWords_before (ht : t < heapBlocks) (ws : List (BitVec 32)) : ∀ (m : Mem) (i j : Nat),
    i + ws.length ≤ 1024 → j < i →
      (storeWords m (blockAddr t + 4 * i) ws).load (blockAddr t + 4 * j)
        = m.load (blockAddr t + 4 * j) := by
  induction ws with
  | nil => exact fun m i j _ _ => rfl
  | cons w ws ih =>
    intro m i j hi hj
    rw [List.length_cons] at hi
    have h1 := word_block ht (show i < 1024 by omega)
    have h2 := word_block ht (show j < 1024 by omega)
    have e := ih (m.store (blockAddr t + 4 * i) w.toNat) (i + 1) j (by omega) (by omega)
    exact e.trans (Mem.load_store_ne m w.toNat h1 h2 (by omega))

theorem storeWords_load (ht : t < heapBlocks) (ws : List (BitVec 32)) : ∀ (m : Mem) (i k : Nat),
    i + ws.length ≤ 1024 → (hk : k < ws.length) →
      (storeWords m (blockAddr t + 4 * i) ws).load (blockAddr t + 4 * (i + k))
        = (ws.get ⟨k, hk⟩).toNat := by
  induction ws with
  | nil => exact fun m i k _ hk => absurd hk (Nat.not_lt_zero k)
  | cons w ws ih =>
    intro m i k hi hk
    rw [List.length_cons] at hi hk
    cases k with
    | zero =>
      have e := storeWords_before ht ws (m.store (blockAddr t + 4 * i) w.toNat) (i + 1) i
        (by omega) (Nat.lt_succ_self i)
      exact e.trans (Mem.load_store m _ w.isLt)
    | succ k =>
      have e := ih (m.store (blockAddr t + 4 * i) w.toNat) (i + 1) k (by omega) (by omega)
      rw [show i + 1 + k = i + (k + 1) by omega] at e
      exact e

/-- the machine after `task_save_state` with the frame at `p` -/
def savedMachine (m : Machine) (task p : Nat) : Machine :=
  { m with
    mem := storeWords m.mem (task + TaskField.registers)
      (taskSaveState (registersAt m.mem (task + TaskField.registers)) (frameAt m.mem p)).words }

/-- the state after `task_current_save_state` with the frame at `p` -/
def CallState.saved (p : Nat) (s : CallState) : CallState :=
  s.onto (savedMachine s.kernel.machine s.kernel.currentTask p)

theorem savedMachine_frame (ht : t < heapBlocks) (p : Nat) :
    Frame (fun x => x = t) m (savedMachine m (blockAddr t) p) :=
  storeWords_frame ht _ m 1 (show 1 + 12 ≤ 1024 by decide)

/-- the stack pointer of the task is that of the frame -/
theorem savedMachine_esp (ht : t < heapBlocks) (p : Nat) :
    (savedMachine m (blockAddr t) p).word t 11 = (frameAt m.mem p).esp.toNat :=
  storeWords_load ht (taskSaveState (registersAt m.mem (blockAddr t + TaskField.registers))
    (frameAt m.mem p)).words m.mem 1 10 (show 1 + 12 ≤ 1024 by decide) (show 10 < 12 by decide)

theorem savedMachine_directory (ht : t < heapBlocks) (p : Nat) :
    (savedMachine m (blockAddr t) p).word t 0 = m.word t 0 :=
  storeWords_before ht _ m.mem 1 0 (show 1 + 12 ≤ 1024 by decide) (by decide)

end

section
variable {entry : Nat → Nat} {space : Space} {t : Nat} {L : List Run} {s : CallState}

/-- a block that is no block of the space and not that of the task -/
structure Running.Outside (space : Space) (t : Nat) (b : Nat) : Prop where
  lt : b < heapBlocks
  space : b ∉ space.blocks
  task : b ≠ t

/-- **The registers are saved**, and nothing else has changed -/
theorem taskCurrentSaveState_run (h : Running entry space t L s) (p : Nat) :
    taskCurrentSaveState p s = .ok ((), s.saved p) ∧ Running entry space t L (s.saved p) ∧
      Served L s (s.saved p) ∧ (s.saved p).kernel.machine.word t 11 = (frameAt s.mem p).esp.toNat := by
  have ht := h.block_lt
  have hfr := savedMachine_frame (m := s.kernel.machine) ht p
  have hns : t ∉ space.blocks := Space.not_mem_blocks h.holds List.mem_cons_self
  have hsaved : s.saved p = s.onto (savedMachine s.kernel.machine (blockAddr t) p) := by
    unfold CallState.saved
    rw [h.current]
  refine ⟨?_, ?_, ?_, ?_⟩
  · unfold taskCurrentSaveState
    rw [bind_ok (get_run s), hsaved]
    dsimp only
    rw [h.current, if_neg blockAddr_ne]
    exact inCall_ok (modify_run _ _)
  · rw [hsaved]
    refine h.onto (h.holds.congr rfl) ((savedMachine_directory ht p).trans h.pageDirectory)
      (h.maps.frame (fun b hb => Space.blocks_lt h.holds hb) hfr (fun b hb e => hns (e ▸ hb))) h.present
  · rw [hsaved]
    refine Served.onto hfr.below (hfr.untouched (fun r hr => ?_) (fun r hr b hb e => ?_))
    · exact h.holds.inside (List.mem_append_right _ (List.mem_cons_of_mem _ hr))
    · have hsep := (List.pairwise_append.mp h.holds.tiled.separate).2.1
      have hsep := (List.pairwise_cons.mp hsep).1 r hr
      exact hsep t ⟨le_refl t, Nat.lt_succ_self t⟩ (e ▸ hb)
  · rw [hsaved]
    exact savedMachine_esp ht p

end

/-! ## strings -/

/-- what `strncpy` makes of the memory, from byte `i` on, when the linear address `va` lies at
`phys va` and the destination where it is -/
def strncpyMem (phys : Nat → Nat) (dest src : Nat) : Nat → Nat → Mem → Mem
  | 0, i, m => Function.update m (BitVec.ofNat 32 (dest + i)) 0
  | fuel + 1, i, m =>
    let c := m (BitVec.ofNat 32 (phys (src + i)))
    if c = 0 then Function.update m (BitVec.ofNat 32 (dest + i)) 0
    else strncpyMem phys dest src fuel (i + 1) (Function.update m (BitVec.ofNat 32 (dest + i)) c)

theorem update_frame (m : Machine) {b i : Nat} (hb : b < heapBlocks) (hi : i < 4096) (c : BitVec 8) :
    Frame (fun x => x = b) m
      { m with mem := Function.update m.mem (BitVec.ofNat 32 (blockAddr b + i)) c } := by
  intro a ha hB
  have hlt := blockAddr_lt hb
  have hnot := hB b rfl
  obtain ⟨ha4, ha⟩ := ha
  unfold InBlock at hnot
  have e := blockAddr_page b
  refine Mem.load_outside (n := 1) (a := blockAddr b + i) (fun x hx => ?_) (by omega) (by omega)
    (by omega) (by omega)
  refine Function.update_of_ne (fun e => ?_) _ _
  rw [e, BitVec.sub_self] at hx
  exact absurd hx (by decide)

theorem strncpyMem_frame (phys : Nat → Nat) {b : Nat} (hb : b < heapBlocks) (src fuel : Nat) :
    ∀ (i : Nat) (m : Machine), i + fuel < 4096 → Frame (fun x => x = b) m
      { m with mem := strncpyMem phys (blockAddr b) src fuel i m.mem } := by
  induction fuel with
  | zero =>
    intro i m hi
    exact update_frame m hb (by omega) 0
  | succ fuel ih =>
    intro i m hi
    unfold strncpyMem
    dsimp only
    split
    · exact update_frame m hb (by omega) 0
    · exact (update_frame m hb (by omega) _).trans (ih (i + 1) _ (by omega))

section
variable {entry : Nat → Nat} {space : Space} {t : Nat} {L : List Run} {s : CallState} {b : Nat}

/-- a change in a block outside -/
theorem TaskSpace.outside (h : TaskSpace entry space t L s) (hb : Running.Outside space t b)
    {m : Machine} (hheap : m.heap = s.kernel.machine.heap)
    (hfr : Frame (fun x => x = b) s.kernel.machine m) : TaskSpace entry space t L (s.onto m) where
  holds := h.holds.congr hheap
  pageDirectory :=
    (hfr.block (i := 0) h.block_lt (by decide) (fun e => hb.task e.symm)).trans h.pageDirectory
  maps := h.maps.frame (fun c hc => Space.blocks_lt h.holds hc) hfr (fun c hc e => hb.space (e ▸ hc))
  kernelChunk := h.kernelChunk

/-- **`strncpy` into a block outside**: when it returns, the string has been copied -/
theorem strncpyLinear_ok (hb : Running.Outside space t b)
    (hself : ∀ i < 4096, physOf entry (blockAddr b + i) = blockAddr b + i) (src fuel : Nat) :
    ∀ (i : Nat) (s s' : CallState), i + fuel < 4096 → TaskSpace entry space t L s →
      s.directory = blockAddr space.directory →
      strncpyLinear (blockAddr b) src fuel i s = .ok ((), s') →
        s' = s.onto { s.kernel.machine with
          mem := strncpyMem (physOf entry) (blockAddr b) src fuel i s.mem } := by
  have hstore : ∀ (i : Nat) (c : BitVec 8) (s s' : CallState), i < 4096 →
      TaskSpace entry space t L s → s.directory = blockAddr space.directory →
      storeByte (blockAddr b + i) c s = .ok ((), s') → s' = setByte (blockAddr b + i) c s := by
    intro i c s s' hi h hdir hrun
    rw [storeByte_at h hdir (storeByte_page h hdir hrun), hself i hi] at hrun
    exact (ok_inj hrun).2.symm
  induction fuel with
  | zero => exact fun i s s' hi h hdir hrun => hstore i 0 s s' (by omega) h hdir hrun
  | succ fuel ih =>
    intro i s s' hi h hdir hrun
    unfold strncpyLinear at hrun
    obtain ⟨c, s1, hload, hrun⟩ := bind_eq_ok hrun
    rw [loadByte_at h hdir (loadByte_page h hdir hload)] at hload
    obtain ⟨rfl, rfl⟩ := ok_inj hload
    unfold strncpyMem
    dsimp only
    by_cases h0 : s.mem (BitVec.ofNat 32 (physOf entry (src + i))) = 0
    · rw [if_pos h0] at hrun
      rw [if_pos h0]
      exact hstore i 0 s s' (by omega) h hdir hrun
    · rw [if_neg h0] at hrun
      rw [if_neg h0]
      obtain ⟨u, s2, hput, hrun⟩ := bind_eq_ok hrun
      obtain rfl := hstore i _ s s2 (by omega) h hdir hput
      generalize hc : s.mem (BitVec.ofNat 32 (physOf entry (src + i))) = c at hrun ⊢
      have hfr := update_frame s.kernel.machine hb.lt (show i < 4096 by omega) c
      have h1 : TaskSpace entry space t L (setByte (blockAddr b + i) c s) := h.outside hb rfl hfr
      exact ih (i + 1) (setByte (blockAddr b + i) c s) s' (by omega) h1 hdir hrun

/-- it returns when every page is present -/
theorem strncpyLinear_run (hb : Running.Outside space t b)
    (hself : ∀ i < 4096, physOf entry (blockAddr b + i) = blockAddr b + i) (src fuel : Nat) :
    ∀ (i : Nat) (s : CallState), i + fuel < 4096 → Running entry space t L s →
      s.directory = blockAddr space.directory →
        strncpyLinear (blockAddr b) src fuel i s = .ok ((), s.onto { s.kernel.machine with
          mem := strncpyMem (physOf entry) (blockAddr b) src fuel i s.mem }) := by
  have hdoes : ∀ (fuel i : Nat) (s : CallState), i + fuel < 4096 → Running entry space t L s →
      s.directory = blockAddr space.directory →
        ∃ s', strncpyLinear (blockAddr b) src fuel i s = .ok ((), s') := by
    intro fuel
    induction fuel with
    | zero => exact fun i s hi h hdir => ⟨_, storeByte_at h.taskSpace hdir (h.pageAt _) 0⟩
    | succ fuel ih =>
      intro i s hi h hdir
      unfold strncpyLinear
      rw [bind_ok (loadByte_run h hdir _)]
      split
      · exact ⟨_, storeByte_at h.taskSpace hdir (h.pageAt _) 0⟩
      · rw [bind_ok (storeByte_at h.taskSpace hdir (h.pageAt _) _), hself i (by omega)]
        have hfr := update_frame s.kernel.machine hb.lt (show i < 4096 by omega)
          (s.mem (BitVec.ofNat 32 (physOf entry (src + i))))
        exact ih (i + 1) (setByte (blockAddr b + i) _ s) (by omega)
          (h.ofSpace (h.taskSpace.outside hb rfl hfr) h.present) hdir
  intro i s hi h hdir
  obtain ⟨s', hrun⟩ := hdoes fuel i s hi h hdir
  rw [hrun, strncpyLinear_ok hb hself src fuel i s s' hi h.taskSpace hdir hrun]

/-- the bytes of a block that has not changed -/
theorem Frame.byte {B : Nat → Prop} {m m' : Machine} (h : Frame B m m') (hb : b < heapBlocks)
    (hB : ¬ B b) {i : Nat} (hi : i < 4096) :
    m'.mem (BitVec.ofNat 32 (blockAddr b + i)) = m.mem (BitVec.ofNat 32 (blockAddr b + i)) := by
  have hw := h.block hb (show i / 4 < 1024 by omega) hB
  have hk := Mem.bytes_of_load hw (show i % 4 < 4 by omega)
  rw [← BitVec.ofNat_add, show blockAddr b + 4 * (i / 4) + i % 4 = blockAddr b + i by omega] at hk
  exact hk

theorem bytesAt_frame {B : Nat → Prop} {m m' : Machine} (h : Frame B m m') (hb : b < heapBlocks)
    (hB : ¬ B b) {n : Nat} (hn : n ≤ 4096) :
    bytesAt m'.mem (blockAddr b) n = bytesAt m.mem (blockAddr b) n := by
  unfold bytesAt
  refine List.map_congr_left (fun i hi => ?_)
  have := List.mem_range.mp hi
  rw [h.byte hb hB (by omega)]

/-- the entries with the scratch page mapped to itself -/
def scratchEntry (entry : Nat → Nat) (tmp : Nat) : Nat → Nat :=
  Function.update entry (tmp / 4096) (tmp + 7)

/-- what is copied to the buffer from the scratch block, which is mapped in the memory `m` -/
def copiedBytes (entry : Nat → Nat) (b : Nat) (m : Mem) (virtual max : Nat) : List UInt8 :=
  strncpyBytes (bytesAt (strncpyMem (physOf (scratchEntry entry (blockAddr b))) (blockAddr b) virtual
    (max - 1) 0 m) (blockAddr b) max) (max - 1)

/-- what `copy_string_from_task` leaves in the buffer: the scratch block is cleared and mapped, the
string is copied there and from there to the buffer -/
def copiedText (entry : Nat → Nat) (chunk : Nat) (m : Machine) (virtual : Nat) (phys : List UInt8)
    (max : Nat) : List UInt8 :=
  match kzalloc max m with
  | .error _ => phys
  | .ok (tmp, m1) =>
    if tmp = 0 then phys
    else
      match pagingMap chunk tmp tmp processPageFlags m1 with
      | .error _ => phys
      | .ok (_, m2) =>
        let copied := strncpyBytes (bytesAt (strncpyMem (physOf (scratchEntry entry tmp)) tmp virtual
          (max - 1) 0 m2.mem) tmp max) (max - 1)
        copied ++ phys.drop copied.length

/-- a scratch block is there, the first one that is free -/
theorem TaskSpace.scratch (h : TaskSpace entry space t L s) {max : Nat} (h1 : 1 ≤ max)
    (h2 : max < 4096) (hfree : 0 < freeBlocks s.kernel.machine.heap.table) : ∃ b m1,
      kzalloc max s.kernel.machine = .ok (blockAddr b, m1) ∧
      FirstWindow s.kernel.machine.heap.table 1 b ∧ Running.Outside space t b ∧
      TaskSpace entry space t (oneBlock b :: L) (s.onto m1) ∧
      Frame (fun x => x = b) s.kernel.machine m1 := by
  obtain ⟨b, hw, hk⟩ := kzalloc_block h.holds h1 (by omega) hfree
  have hal := h.holds.alloc (le_refl 1) hw.1 max
  have hb := hal.block_lt (b := b) List.mem_cons_self
  have hsep := List.pairwise_cons.mp hal.tiled.separate
  have hperm : (⟨b, 1⟩ :: (space.runs ++ oneBlock t :: L)).Perm
      (space.runs ++ oneBlock t :: oneBlock b :: L) := by
    refine List.perm_middle.symm.trans (List.Perm.append_left _ (List.Perm.swap _ _ _))
  have hh := hal.perm hperm
  have hout : Running.Outside space t b := by
    refine ⟨hb, ?_, ?_⟩
    · exact Space.not_mem_blocks hh (List.mem_cons_of_mem _ List.mem_cons_self)
    · rintro rfl
      exact hsep.1 (oneBlock b) (List.mem_append_right _ List.mem_cons_self) b
        ⟨le_refl b, Nat.lt_succ_self b⟩ ⟨le_refl b, Nat.lt_succ_self b⟩
  have hfr : Frame (fun x => x = b) s.kernel.machine (s.kernel.machine.alloc ⟨b, 1⟩ max) :=
    alloc_frame _ hb h1 (by omega)
  refine ⟨b, _, hk, hw, hout, ⟨hh, ?_, ?_, h.kernelChunk⟩, hfr⟩
  · exact (hfr.block (i := 0) h.block_lt (by decide) (fun e => hout.task e.symm)).trans
      h.pageDirectory
  · exact h.maps.frame (fun c hc => Space.blocks_lt h.holds hc) hfr
      (fun c hc e => hout.space (e ▸ hc))

/-- neither the scratch block nor the tables are an allocation of another -/
theorem TaskSpace.apart (h : TaskSpace entry space t (oneBlock b :: L) s) {r : Run} (hr : r ∈ L)
    {x : Nat} (hx : r.Mem x) : ¬ (x = b ∨ x ∈ space.tables) := by
  rintro (rfl | hin)
  · have hsep := (List.pairwise_append.mp h.holds.tiled.separate).2.1
    have hsep := (List.pairwise_cons.mp (List.pairwise_cons.mp hsep).2).1 r hr
    exact hsep x ⟨le_refl x, Nat.lt_succ_self x⟩ hx
  · exact Space.not_mem_run h.holds (List.mem_cons_of_mem _ (List.mem_cons_of_mem _ hr)) hx
      (List.mem_cons_of_mem _ (List.mem_cons_of_mem _ hin))

/-- a change of the scratch block and the tables is none of what others own -/
theorem TaskSpace.keeps (h : TaskSpace entry space t (oneBlock b :: L) s) {m m' : Machine}
    (hfr : Frame (fun x => x = b ∨ x ∈ space.tables) m m') : Untouched L m m' := by
  refine hfr.untouched (fun r hr => ?_) (fun r hr x hx => h.apart hr hx)
  exact h.holds.inside (List.mem_append_right _ (List.mem_cons_of_mem _ (List.mem_cons_of_mem _ hr)))

theorem Running.scratch (h : Running entry space t L s) {max : Nat} (h1 : 1 ≤ max) (h2 : max < 4096)
    (hfree : 0 < freeBlocks s.kernel.machine.heap.table) : ∃ b m1,
      kzalloc max s.kernel.machine = .ok (blockAddr b, m1) ∧
        Running entry space t (oneBlock b :: L) (s.onto m1) := by
  obtain ⟨b, m1, hk, -, -, hspace, -⟩ := h.taskSpace.scratch h1 h2 hfree
  exact ⟨b, m1, hk, h.ofSpace hspace h.present⟩

/-- the entries of the space while the scratch page is mapped -/
theorem scratchEntry_block (entry : Nat → Nat) (b : Nat) : scratchEntry entry (blockAddr b)
    = Function.update entry (4096 + b) ((4096 + b) * 4096 + 7) := by
  unfold scratchEntry
  rw [blockAddr_page, Nat.mul_div_cancel _ (by decide)]

/-- the page of a linear address in a block -/
theorem block_page {b i : Nat} (hb : b < heapBlocks) (hi : i < 4096) :
    (blockAddr b + i) % 4294967296 / 4096 = 4096 + b := by
  have hlt := blockAddr_lt hb
  rw [blockAddr_page] at hlt ⊢
  omega

theorem scratchEntry_self (entry : Nat → Nat) {b : Nat} (hb : b < heapBlocks) {i : Nat}
    (hi : i < 4096) : physOf (scratchEntry entry (blockAddr b)) (blockAddr b + i) = blockAddr b + i := by
  have hlt := blockAddr_lt hb
  unfold physOf
  rw [block_page hb hi, scratchEntry_block, Function.update_self]
  rw [blockAddr_page] at hlt ⊢
  omega

theorem scratchEntry_present {entry : Nat → Nat} (h : ∀ v < 1048576, (entry v).testBit 0 = true)
    (b : Nat) : ∀ v < 1048576, (scratchEntry entry (blockAddr b) v).testBit 0 = true := by
  intro v hv
  rw [scratchEntry_block]
  by_cases e : v = 4096 + b
  · rw [e, Function.update_self, testBit_flags _ (by decide) (by decide)]
    rfl
  · rw [Function.update_of_ne e]
    exact h v hv

/-- a change of the tables of the space -/
theorem TaskSpace.tables (h : TaskSpace entry space t L s) {m : Machine} {entry' : Nat → Nat}
    (hheap : m.heap = s.kernel.machine.heap) (hmaps : space.Maps m 7 entry')
    (hfr : Frame (fun b => b ∈ space.tables) s.kernel.machine m) :
    TaskSpace entry' space t L (s.onto m) := by
  have hns : t ∉ space.blocks := Space.not_mem_blocks h.holds List.mem_cons_self
  have ht : t ∉ space.tables := fun hin => hns (List.mem_cons_of_mem _ (List.mem_cons_of_mem _ hin))
  exact ⟨h.holds.congr hheap, (hfr.block (i := 0) h.block_lt (by decide) ht).trans h.pageDirectory,
    hmaps, h.kernelChunk⟩

/-- the scratch block `b` is taken, then mapped to itself -/
structure Scratched (entry : Nat → Nat) (space : Space) (t : Nat) (L : List Run) (s : CallState)
    (max b : Nat) (m1 m2 : Machine) : Prop where
  kzalloc : kzalloc max s.kernel.machine = .ok (blockAddr b, m1)
  first : FirstWindow s.kernel.machine.heap.table 1 b
  pagingMap : pagingMap (blockAddr space.chunk) (blockAddr b) (blockAddr b) processPageFlags m1
    = .ok (0, m2)
  outside : Running.Outside space t b
  taken : TaskSpace entry space t (oneBlock b :: L) (s.onto m1)
  mapped : TaskSpace (scratchEntry entry (blockAddr b)) space t (oneBlock b :: L) (s.onto m2)
  frame : Frame (fun x => x = b ∨ x ∈ space.tables) s.kernel.machine m2

theorem TaskSpace.scratchMapped (h : TaskSpace entry space t L s) {max : Nat} (h1 : 1 ≤ max)
    (h2 : max < 4096) (hfree : 0 < freeBlocks s.kernel.machine.heap.table) :
    ∃ b m1 m2, Scratched entry space t L s max b m1 m2 := by
  obtain ⟨b, m1, hk, hw, hout, hspace1, hfr1⟩ := h.scratch h1 h2 hfree
  have hpage := blockAddr_page b
  have hb : 4096 + b < 1048576 := block_page_lt hout.lt
  obtain ⟨m2, hmap, hheap2, hmaps2, hfr2⟩ := pagingMap_run hspace1.maps hspace1.holds (by decide) hb hb
    (by decide : 7 < 4096)
  rw [← hpage] at hmap
  rw [← scratchEntry_block entry b] at hmaps2
  exact ⟨b, m1, m2, hk, hw, hmap, hout, hspace1, hspace1.tables hheap2 hmaps2 hfr2,
    (hfr1.mono (fun x hx => Or.inl hx)).trans (hfr2.mono (fun x hx => Or.inr hx))⟩

theorem Scratched.served {max : Nat} {m1 m2 : Machine}
    (h : Scratched entry space t L s max b m1 m2) : Served L s (s.onto m2) :=
  Served.onto h.frame.below (h.taken.keeps h.frame)

theorem Scratched.page_lt {max : Nat} {m1 m2 : Machine}
    (h : Scratched entry space t L s max b m1 m2) : 4096 + b < 1048576 :=
  block_page_lt h.outside.lt

/-- an entry is a word -/
theorem Space.Maps.entry_lt {m : Machine} {f : Nat} (h : space.Maps m f entry) {v : Nat}
    (hv : v < 1048576) : entry v < 4294967296 := by
  have htab := h.table (v / 1024) (by omega) (v % 1024) (by omega)
  rw [Nat.div_add_mod' v 1024] at htab
  rw [← htab]
  exact Mem.load_lt _ _

/-- what follows the copy to the scratch block -/
def copyFinish (taskDirectory tmp oldEntry max : Nat) (phys : List UInt8) :
    Prog CallState (Int × List UInt8) := do
  kernelPage
  let res ← inCall (pagingSet taskDirectory tmp oldEntry)
  if res < 0 then
    inCall (kfree tmp)
    return (- EIO, phys)
  else
    let s ← get
    let copied := strncpyBytes (bytesAt s.mem tmp max) (max - 1)
    inCall (kfree tmp)
    return (res, copied ++ phys.drop copied.length)

/-- the copy, up to the string -/
theorem Scratched.copy_start {max : Nat} {m1 m2 : Machine}
    (h : Scratched entry space t L s max b m1 m2) (h2 : max < 4096) (virtual : Nat)
    (phys : List UInt8) : copyStringFromTask (blockAddr t) virtual phys max s
      = (strncpyLinear (blockAddr b) virtual (max - 1) 0 >>= fun _ =>
          copyFinish (blockAddr space.directory) (blockAddr b) (entry (4096 + b)) max phys)
        ((s.onto m2).under (blockAddr space.directory)) := by
  have hchunk : inCall (readWord (blockAddr space.chunk) 0) (s.onto m1)
      = .ok (blockAddr space.directory, s.onto m1) := by
    refine inCall_same ?_
    rw [readWord_ok _ blockAddr_ne, Nat.add_zero, h.taken.maps.chunk]
  have hget : inCall (pagingGet (blockAddr space.directory) (blockAddr b)) (s.onto m1)
      = .ok (entry (4096 + b), s.onto m1) := by
    refine inCall_same ?_
    rw [blockAddr_page b]
    exact pagingGet_run h.taken.maps h.taken.holds (by decide) h.page_lt
  have hmap : inCall (LameOS.pagingMap (blockAddr space.chunk) (blockAddr b) (blockAddr b)
      processPageFlags) (s.onto m1) = .ok (0, s.onto m2) := inCall_ok h.pagingMap
  unfold copyStringFromTask
  rw [if_neg (not_le.mpr h2), bind_ok (inCall_ok h.kzalloc), if_neg blockAddr_ne,
    bind_ok (readDirectory_run h.taken), bind_ok hchunk, bind_ok hget, bind_ok hmap,
    bind_ok (pagingSwitch_run h.mapped)]
  rfl

/-- the copy, from the string on: the entry is put back, the scratch block released -/
theorem TaskSpace.copy_finish
    (h : TaskSpace (scratchEntry entry (blockAddr b)) space t (oneBlock b :: L) s)
    (hout : Running.Outside space t b) {max : Nat} (hmax : max ≤ 4096)
    (hold : entry (4096 + b) < 4294967296) (phys : List UInt8) :
    let copied := strncpyBytes (bytesAt s.mem (blockAddr b) max) (max - 1)
    ∃ m, copyFinish (blockAddr space.directory) (blockAddr b) (entry (4096 + b)) max phys s
        = .ok ((0, copied ++ phys.drop copied.length), s.inKernel.onto m) ∧
      TaskSpace entry space t L (s.inKernel.onto m) ∧
      Frame (fun x => x ∈ space.tables) s.kernel.machine m := by
  intro copied
  have hpage := blockAddr_page b
  have hb : 4096 + b < 1048576 := block_page_lt hout.lt
  obtain ⟨m4, hset, hheap4, hmaps4, hfr4⟩ := pagingSet_run h.maps h.holds (by decide) hb hold
  rw [← hpage] at hset
  have hmaps4' : space.Maps m4 7 entry := hmaps4.congr (fun v hv => by
    rw [scratchEntry_block, Function.update_idem, Function.update_eq_self])
  have hspace4 := h.inKernel.tables hheap4 hmaps4' hfr4
  have hset : inCall (pagingSet (blockAddr space.directory) (blockAddr b) (entry (4096 + b)))
      s.inKernel = .ok (0, s.inKernel.onto m4) := inCall_ok hset
  have hbt : b ∉ space.tables := fun hin =>
    hout.space (List.mem_cons_of_mem _ (List.mem_cons_of_mem _ hin))
  have hbytes : bytesAt m4.mem (blockAddr b) max = bytesAt s.mem (blockAddr b) max :=
    bytesAt_frame hfr4 hout.lt hbt hmax
  -- the scratch block is released
  have hperm : (space.runs ++ oneBlock t :: oneBlock b :: L).Perm
      (oneBlock b :: (space.runs ++ oneBlock t :: L)) :=
    (List.Perm.append_left _ (List.Perm.swap _ _ _)).trans List.perm_middle
  obtain ⟨m5, hfree5, hh5, hmem5, -⟩ := kfree_block (hspace4.holds.perm hperm)
  have hmem5 : m5.mem = m4.mem := hmem5
  have hfree5 : inCall (kfree (blockAddr b)) (s.inKernel.onto m4) = .ok ((), s.inKernel.onto m5) :=
    inCall_ok hfree5
  have hfr5 : Frame (fun _ => False) m4 m5 := fun a _ _ => by rw [hmem5]
  refine ⟨m5, ?_, ⟨hh5, ?_, ?_, h.kernelChunk⟩, hfr4.trans (hfr5.mono (fun _ hx => hx.elim))⟩
  · unfold copyFinish
    rw [bind_ok (kernelPage_run h.kernelChunk), bind_ok hset, if_neg (lt_irrefl 0), bind_ok (get_run _)]
    have hmem : (s.inKernel.onto m4).mem = m4.mem := rfl
    rw [bind_ok hfree5, hmem, hbytes]
    rfl
  · exact (hfr5.block (i := 0) h.block_lt (by decide) (fun e => e)).trans hspace4.pageDirectory
  · exact hspace4.maps.frame (fun c hc => Space.blocks_lt h.holds hc) hfr5 (fun c _ e => e)

/-- the call, when `strncpy` has returned: the directory is read of the machine `m3`, the machine that
is left is `m` -/
theorem Scratched.finish {max virtual : Nat} {m1 m2 : Machine}
    (hs : Scratched entry space t L s max b m1 m2) (h : TaskSpace entry space t L s) (h2 : max < 4096)
    (phys : List UInt8) {s3 : CallState} (hcopy : strncpyLinear (blockAddr b) virtual (max - 1) 0
      ((s.onto m2).under (blockAddr space.directory)) = .ok ((), s3)) :
    let copied := copiedBytes entry b m2.mem virtual max
    ∃ m3 m, copyStringFromTask (blockAddr t) virtual phys max s
        = .ok ((0, copied ++ phys.drop copied.length), (s.onto m3).inKernel.onto m) ∧
      TaskSpace entry space t L (s.onto m) ∧
      Frame (fun x => x = b ∨ x ∈ space.tables) s.kernel.machine m3 ∧
      Frame (fun x => x = b ∨ x ∈ space.tables) s.kernel.machine m := by
  have hspace2 := hs.mapped.under (blockAddr space.directory)
  obtain ⟨m3, hm3⟩ : ∃ m3 : Machine, m3 = { m2 with
      mem := strncpyMem (physOf (scratchEntry entry (blockAddr b))) (blockAddr b) virtual (max - 1) 0
        m2.mem } := ⟨_, rfl⟩
  have hfr3 : Frame (fun x => x = b) m2 m3 := by
    rw [hm3]
    exact strncpyMem_frame _ hs.outside.lt virtual (max - 1) 0 m2 (by omega)
  have hs3 : s3 = ((s.onto m2).under (blockAddr space.directory)).onto m3 := by
    rw [hm3]
    exact strncpyLinear_ok hs.outside (fun i hi => scratchEntry_self entry hs.outside.lt hi) virtual
      (max - 1) 0 _ s3 (by omega) hspace2 rfl hcopy
  have hspace3 := hspace2.outside hs.outside (m := m3) (by rw [hm3]; rfl) hfr3
  obtain ⟨m5, hfinish, hspace5, hfr5⟩ := hspace3.copy_finish hs.outside (le_of_lt h2)
    (h.maps.entry_lt hs.page_lt) phys
  have hfr : Frame (fun x => x = b ∨ x ∈ space.tables) s.kernel.machine m3 :=
    hs.frame.trans (hfr3.mono (fun x hx => Or.inl hx))
  refine ⟨m3, m5, ?_, ⟨hspace5.holds, hspace5.pageDirectory, hspace5.maps, h.kernelChunk⟩, hfr,
    hfr.trans (hfr5.mono (fun x hx => Or.inr hx))⟩
  rw [hs.copy_start h2, bind_ok hcopy, hs3, hfinish, hm3]
  rfl

/-- **A string of the current task.**  The buffer gets the text that the task's tables show; tables,
heap and tasks are as before. -/
theorem copyStringFromTask_run (h : Running entry space t L s) {max : Nat} (h1 : 1 ≤ max)
    (h2 : max < 4096) (virtual : Nat) (phys : List UInt8) : ∃ res s',
      copyStringFromTask (blockAddr t) virtual phys max s = .ok ((res,
        copiedText entry (blockAddr space.chunk) s.kernel.machine virtual phys max), s') ∧
      Running entry space t L s' ∧ Served L s s' ∧ s'.terminal = s.terminal := by
  rcases Nat.eq_zero_or_pos (freeBlocks s.kernel.machine.heap.table) with hfull | hfree
  · -- no block is left
    have hk := kzalloc_full h.holds h1 (by omega) hfull
    unfold copyStringFromTask copiedText
    rw [if_neg (not_le.mpr h2), bind_ok (inCall_same hk), if_pos rfl, hk]
    dsimp only
    rw [if_pos rfl]
    exact ⟨_, s, rfl, h, Served.refl L s, rfl⟩
  · obtain ⟨b, m1, m2, hs⟩ := h.taskSpace.scratchMapped h1 h2 hfree
    have hrun2 := (h.ofSpace hs.mapped (scratchEntry_present h.present b)).under
      (blockAddr space.directory)
    have hcopy := strncpyLinear_run hs.outside
      (fun i hi => scratchEntry_self entry hs.outside.lt hi) virtual (max - 1) 0 _ (by omega) hrun2 rfl
    obtain ⟨m3, m, hdone, hspace, -, hfr⟩ := hs.finish h.taskSpace h2 phys hcopy
    refine ⟨0, (s.onto m3).inKernel.onto m, ?_, ⟨hspace.holds, h.current, hspace.pageDirectory,
      hspace.maps, h.present, h.kernelChunk⟩, ⟨rfl, rfl, rfl, hfr.below, hs.taken.keeps hfr⟩, rfl⟩
    rw [hdone]
    unfold copiedText
    rw [hs.kzalloc]
    dsimp only
    rw [if_neg blockAddr_ne, hs.pagingMap]
    rfl

end

/-! ## commands -/

/-- `strncpy` from a buffer -/
theorem strncpyBytes_eq (n : Nat) : ∀ src : List UInt8,
    strncpyBytes src n = (shown src).take n ++ [0] := by
  induction n with
  | zero =>
    intro src
    rw [strncpyBytes]
    rfl
  | succ n ih =>
    intro src
    cases src with
    | nil => rfl
    | cons c cs =>
      unfold strncpyBytes
      by_cases hc : c = 0
      · rw [if_pos hc, hc]
        rfl
      · have e := ih cs
        unfold shown at e ⊢
        rw [if_neg hc, List.takeWhile_cons_of_pos (by simp [hc]), List.take_succ_cons, e]
        rfl

/-- a text and the end of the string -/
theorem shown_text {text : List UInt8} (h : ∀ c ∈ text, c ≠ 0) (rest : List UInt8) :
    shown (text ++ [0] ++ rest) = text := by
  have hend : shown (0 :: rest) = [] := rfl
  unfold shown at hend ⊢
  rw [List.append_assoc, List.takeWhile_append_of_pos (fun c hc => decide_eq_true (h c hc)),
    List.singleton_append, hend, List.append_nil]

/-- what `print` shows of a buffer that starts with a copied string -/
theorem shown_strncpyBytes (n : Nat) (src rest : List UInt8) :
    shown (strncpyBytes src n ++ rest) = (shown src).take n := by
  rw [strncpyBytes_eq]
  refine shown_text (fun c hc => ?_) rest
  have hc : c ∈ src.takeWhile (· ≠ 0) := List.mem_of_mem_take hc
  have hne := List.mem_takeWhile_imp hc
  exact of_decide_eq_true hne

section
variable {entry : Nat → Nat} {space : Space} {t : Nat} {L : List Run} {s : CallState}
  {p : List UInt8}

/-- the text that the current task has printed, when its stack pointer is `sp` -/
def printedText (entry : Nat → Nat) (chunk : Nat) (m : Machine) (sp : Nat) (buf : List UInt8) :
    List UInt8 :=
  shown (copiedText entry chunk m (userWord m.mem entry sp) buf 1024)

theorem print_iff (h : AtCursor p s.terminal) (text : List UInt8) :
    (∃ s', onTerminal (print text) s = .ok ((), s')) ↔ FitsAfter p (shown text) := by
  rw [← write_all_iff 15 (shown text) p s.terminal h, ← print_eq]
  constructor
  · rintro ⟨s', hrun⟩
    obtain ⟨t', hrun, -⟩ := part_eq_ok hrun
    exact ⟨t', hrun⟩
  · rintro ⟨t', hrun⟩
    exact ⟨_, part_ok hrun⟩

/-- **The print command** returns exactly when the text fits behind what is on the screen -/
theorem isr80hCommand1Print_run (h : Running entry space t L s) (hcur : AtCursor p s.terminal)
    (buf : List UInt8) :
    let text := printedText entry (blockAddr space.chunk) s.kernel.machine
      (s.kernel.machine.word t 11) buf
    (FitsAfter p text → ∃ s', isr80hCommand1Print buf s = .ok (0, s') ∧
      Running entry space t L s' ∧ Served L s s') ∧
    (¬ FitsAfter p text → ∃ e, isr80hCommand1Print buf s = .error e) := by
  intro text
  have hitem := taskGetStackItem_run h 0
  obtain ⟨res, s2, hcopy, hrun2, hserved2, hterm2⟩ := copyStringFromTask_run h.inKernel
    (show 1 ≤ 1024 by decide) (show 1024 < 4096 by decide)
    (userWord s.mem entry (s.kernel.machine.word t 11 + 4 * 0)) buf
  have hcur2 : AtCursor p s2.terminal := by
    rw [hterm2]
    exact hcur
  have hprint := print_iff hcur2 (copiedText entry (blockAddr space.chunk) s.kernel.machine
    (userWord s.mem entry (s.kernel.machine.word t 11 + 4 * 0)) buf 1024)
  unfold isr80hCommand1Print
  rw [bind_ok (get_run s), h.current, bind_ok hitem, bind_ok hcopy]
  constructor
  · intro hfits
    obtain ⟨s3, hrun3⟩ := hprint.mpr hfits
    obtain ⟨t3, -, rfl⟩ := part_eq_ok hrun3
    have hserved3 := (Served.refl L s).inKernel.trans hserved2
    exact ⟨_, bind_ok hrun3, hrun2.congr rfl rfl, hserved3.congr rfl rfl rfl⟩
  · intro hno
    have hstop : ∀ r, onTerminal (print (copiedText entry (blockAddr space.chunk) s.kernel.machine
        (userWord s.mem entry (s.kernel.machine.word t 11 + 4 * 0)) buf 1024)) s2 ≠ .ok r := by
      intro r hr
      exact hno (hprint.mp ⟨r.2, hr⟩)
    cases hx : onTerminal (print (copiedText entry (blockAddr space.chunk) s.kernel.machine
        (userWord s.mem entry (s.kernel.machine.word t 11 + 4 * 0)) buf 1024)) s2 with
    | ok r => exact absurd hx (hstop r)
    | error e => exact ⟨e, bind_error hx⟩

/-! ## the handler -/

/-- what a command returns, when the stack pointer of the current task is `sp` -/
def commandResult (entry : Nat → Nat) (m : Mem) (sp : Nat) : Option Command → Nat
  | some .sum => (userWord m entry sp + userWord m entry (sp + 4)) % 4294967296
  | _ => 0

/-- the print command stays on the screen behind the text `p` -/
def CommandFits (p : List UInt8) (entry : Nat → Nat) (chunk : Nat) (m : Machine) (sp : Nat)
    (buf : List UInt8) (func : Option Command) : Prop :=
  func = some .print → FitsAfter p (printedText entry chunk m sp buf)

/-- **A command** returns exactly when it stays on the screen -/
theorem isr80hHandleCommand_run (h : Running entry space t L s) (hcur : AtCursor p s.terminal)
    (command : Int) (buf : List UInt8) :
    let func := commandFunc s.isr80hCommands command
    let fits := CommandFits p entry (blockAddr space.chunk) s.kernel.machine
      (s.kernel.machine.word t 11) buf func
    (fits → ∃ s', isr80hHandleCommand command buf s
        = .ok (commandResult entry s.mem (s.kernel.machine.word t 11) func, s') ∧
      Running entry space t L s' ∧ Served L s s') ∧
    (¬ fits → ∃ e, isr80hHandleCommand command buf s = .error e) := by
  dsimp only
  unfold isr80hHandleCommand
  rw [bind_ok (get_run s)]
  generalize commandFunc s.isr80hCommands command = o
  cases o with
  | none =>
    refine ⟨fun _ => ⟨s, rfl, h, Served.refl L s⟩, fun hno => absurd ?_ hno⟩
    intro hp
    cases hp
  | some f =>
    cases f with
    | sum =>
      refine ⟨fun _ => ⟨s.inKernel, isr80hCommand0Sum_run h, h.inKernel,
        (Served.refl L s).inKernel⟩, fun hno => absurd ?_ hno⟩
      intro hp
      cases hp
    | print =>
      obtain ⟨hyes, hno⟩ := isr80hCommand1Print_run h hcur buf
      exact ⟨fun hf => hyes (hf rfl), fun hf => hno (fun hfit => hf (fun _ => hfit))⟩

/-- **The C part of a system call**: the registers of the task are those of the frame at `frame`;
the call returns exactly when the command stays on the screen, under the task's directory. -/
theorem isr80hHandler_run (h : Running entry space t L s) (hcur : AtCursor p s.terminal)
    (command : Int) (frame : Nat) (buf : List UInt8) :
    let func := commandFunc s.isr80hCommands command
    let sp := (frameAt s.mem frame).esp.toNat
    let fits := CommandFits p entry (blockAddr space.chunk) (s.saved frame).kernel.machine sp buf func
    (fits → ∃ s', isr80hHandler command frame buf s
        = .ok (commandResult entry (s.saved frame).mem sp func, s'.inTask space) ∧
      Running entry space t L s' ∧ Served L s s') ∧
    (¬ fits → ∃ e, isr80hHandler command frame buf s = .error e) := by
  intro func sp fits
  obtain ⟨hsave, hrun1, hserved1, hesp⟩ := taskCurrentSaveState_run h.inKernel frame
  obtain ⟨hyes, hno⟩ := isr80hHandleCommand_run hrun1 (p := p) hcur command buf
  have hesp : (s.inKernel.saved frame).kernel.machine.word t 11 = sp := hesp
  rw [hesp] at hyes hno
  unfold isr80hHandler
  rw [bind_ok (kernelPage_run h.kernelChunk), bind_ok hsave]
  constructor
  · intro hf
    obtain ⟨s2, hrun, hrun2, hserved2⟩ := hyes hf
    rw [bind_ok hrun, bind_ok (taskPage_run hrun2)]
    exact ⟨s2, rfl, hrun2, ((Served.refl L s).inKernel.trans hserved1).trans hserved2⟩
  · intro hf
    obtain ⟨e, hrun⟩ := hno hf
    exact ⟨e, bind_error hrun⟩

/-! ## calls that return -/

/-- a command that returns keeps the task and what others own -/
theorem isr80hHandleCommand_served (h : Running entry space t L s) {command : Int}
    {buf : List UInt8} {r : Nat} {s' : CallState}
    (hrun : isr80hHandleCommand command buf s = .ok (r, s')) :
    Running entry space t L s' ∧ Served L s s' := by
  unfold isr80hHandleCommand at hrun
  rw [bind_ok (get_run s)] at hrun
  generalize commandFunc s.isr80hCommands command = o at hrun
  cases o with
  | none =>
    obtain ⟨-, rfl⟩ := pure_eq_ok hrun
    exact ⟨h, Served.refl L s⟩
  | some f =>
    cases f with
    | sum =>
      have hsum : isr80hCommand0Sum s = .ok (r, s') := hrun
      rw [isr80hCommand0Sum_run h] at hsum
      obtain ⟨-, rfl⟩ := ok_inj hsum
      exact ⟨h.inKernel, (Served.refl L s).inKernel⟩
    | print =>
      have hprint : isr80hCommand1Print buf s = .ok (r, s') := hrun
      obtain ⟨res, s2, hcopy, hrun2, hserved2, -⟩ := copyStringFromTask_run h.inKernel
        (show 1 ≤ 1024 by decide) (show 1024 < 4096 by decide)
        (userWord s.mem entry (s.kernel.machine.word t 11 + 4 * 0)) buf
      unfold isr80hCommand1Print at hprint
      rw [bind_ok (get_run s), h.current, bind_ok (taskGetStackItem_run h 0), bind_ok hcopy]
        at hprint
      obtain ⟨_, s3, hterm, hprint⟩ := bind_eq_ok hprint
      obtain ⟨-, rfl⟩ := pure_eq_ok hprint
      obtain ⟨t3, -, rfl⟩ := part_eq_ok hterm
      have hserved3 := (Served.refl L s).inKernel.trans hserved2
      exact ⟨hrun2.congr rfl rfl, hserved3.congr rfl rfl rfl⟩

/-- **A system call that returns** keeps the task and what others own. -/
theorem isr80hHandler_served (h : Running entry space t L s) {command : Int} {frame : Nat}
    {buf : List UInt8} {r : Nat} {s' : CallState}
    (hrun : isr80hHandler command frame buf s = .ok (r, s')) :
    Running entry space t L s' ∧ Served L s s' := by
  obtain ⟨hsave, hrun1, hserved1, -⟩ := taskCurrentSaveState_run h.inKernel frame
  unfold isr80hHandler at hrun
  rw [bind_ok (kernelPage_run h.kernelChunk), bind_ok hsave] at hrun
  obtain ⟨res, s2, hcommand, hrun⟩ := bind_eq_ok hrun
  obtain ⟨hrun2, hserved2⟩ := isr80hHandleCommand_served hrun1 hcommand
  rw [bind_ok (taskPage_run hrun2)] at hrun
  obtain ⟨-, rfl⟩ := pure_eq_ok hrun
  exact ⟨hrun2.inTask, (((Served.refl L s).inKernel.trans hserved1).trans hserved2).inTask⟩

end

end LameOS
