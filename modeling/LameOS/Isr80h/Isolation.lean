import LameOS.Fs.Descriptors
import LameOS.Isr80h.HandlerSpec
import LameOS.Task.ProcessTable

/-!
# What a task can write

* `TaskCall`, `isolationStep`   a load, a system call of a loaded task, or a store of it in user mode;
* `Reaches`      the addresses that a process can write;
* `Isolated`     every user-writable entry of a process leads to its own image or stack, and what it
                 can write belongs to no other allocation, to no structure of the kernel and to no
                 other process;
* `Housed`       the allocations of the loaded processes, and what lies in them;
* `tasks_isolated`   **so it stays in every run of such calls.**
-/

set_option linter.unusedVariables false

namespace LameOS
open Lib Lib.Exec

/-! ## calls -/

/-- a load, with what the local variable `_process` holds; a system call of the process in a slot; a
store of that process in user mode -/
inductive TaskCall
  | load (filename : List UInt8) (stale : Nat)
  | isr80h (slot : Nat) (command : Int) (frame : Nat) (buf : List UInt8)
  | store (slot : Nat) (va : Nat) (c : BitVec 8)

/-- a program over the kernel without the processor -/
def onProcesses {α : Type} (x : Prog KernelState α) : Prog CallState α :=
  part CallState.kernel (fun k s => { s with kernel := k }) x

/-- the task of the process in a slot becomes the current one -/
def switchTo (slot : Nat) : Prog CallState Unit := do
  let s ← get
  let task ← inCall (readWord (s.kernel.processes slot) ProcessField.task)
  taskSwitch task

/-- a page fault unless the page is present, writable and open to the user -/
def userStore (va : Nat) (c : BitVec 8) : Prog CallState Unit := do
  let s ← get
  match translate s.mem s.directory (va % 4294967296) with
  | some ⟨phys, true, true⟩ => set (setByte phys c s)
  | _ => throw .outOfBounds

def TaskCall.run (disk : Disk) : TaskCall → Prog CallState Unit
  | .load filename stale => do
    let _ ← onProcesses (processLoad disk filename stale)
  | .isr80h slot command frame buf => do
    switchTo slot
    let _ ← isr80hHandler command frame buf
  | .store slot va c => do
    switchTo slot
    userStore va c

def isolationStep (disk : Disk) (s : CallState) (c : TaskCall) : Except Fault CallState := do
  let (_, s') ← c.run disk s
  return s'

theorem isolationStep_eq_ok {disk : Disk} {s s' : CallState} {c : TaskCall}
    (h : isolationStep disk s c = .ok s') : c.run disk s = .ok ((), s') := by
  unfold isolationStep at h
  cases hc : c.run disk s with
  | error e =>
    rw [hc] at h
    cases h
  | ok p =>
    rw [hc] at h
    obtain rfl : p.2 = s' := Except.ok.inj h
    rfl

/-- the slot holds a process -/
def InSlot (s : KernelState) (slot : Nat) : Prop := slot < maxProcesses ∧ s.processes slot ≠ 0

/-- the file of a load is not larger than a FAT16 volume can hold (for one beyond `0xFFFFF000` bytes
`kzalloc` clears all memory, that of the kernel too); a call is one of a loaded process -/
def Allowed (s : CallState) : TaskCall → Prop
  | .load filename _ => FileSized s.kernel.volume filename
  | .isr80h slot _ _ _ => InSlot s.kernel slot
  | .store slot _ _ => InSlot s.kernel slot

/-! ## what is writable -/

/-- the page directory of the process at `p` -/
def pageDirectoryOf (m : Machine) (p : Nat) : Nat :=
  m.mem.load (m.mem.load (m.mem.load (p + ProcessField.task) + TaskField.pageDirectory))

/-- a page table entry that is writable and open to the user -/
def UserWritable (e : Nat) : Prop := e.testBit 1 = true ∧ e.testBit 2 = true

/-- the address lies in a block of the allocation -/
def Within (r : Run) (x : Nat) : Prop := ∃ b, r.Mem b ∧ InBlock b x

/-- the process at `p` can write at `x` in user mode -/
def Reaches (m : Machine) (p x : Nat) : Prop :=
  ∃ va < 4294967296, translate m.mem (pageDirectoryOf m p) va = some ⟨x, true, true⟩

/-- a process of the table: its slot, its blocks, the space of its task -/
structure Member where
  slot : Nat
  blocks : ProcessBlocks
  space : Space

namespace Member

/-- the allocations that are the kernel's -/
def kernelRuns (l : Member) : List Run :=
  oneBlock l.blocks.task :: (l.space.runs ++ [⟨l.blocks.process, 2⟩])

/-- the image and the stack -/
def userRuns (l : Member) : List Run := [⟨l.blocks.image, blocksFor l.blocks.size⟩, ⟨l.blocks.stack, 4⟩]

def runs (l : Member) : List Run := l.kernelRuns ++ l.userRuns

/-- what lies in the structures of a process -/
structure Placed (l : Member) (m : Machine) : Prop where
  maps : l.space.Maps m 7 (processEntry l.blocks)
  words : ProcessWords l.blocks m
  pageDirectory : m.word l.blocks.task 0 = blockAddr l.space.chunk

variable {l : Member} {m m' : Machine}

theorem task_mem : oneBlock l.blocks.task ∈ l.kernelRuns := List.mem_cons_self

theorem space_mem {r : Run} (hr : r ∈ l.space.runs) : r ∈ l.kernelRuns :=
  List.mem_cons_of_mem _ (List.mem_append_left _ hr)

theorem process_mem : ⟨l.blocks.process, 2⟩ ∈ l.kernelRuns :=
  List.mem_cons_of_mem _ (List.mem_append_right _ List.mem_cons_self)

/-- the structures are where they were -/
theorem Placed.keep (h : l.Placed m) (hs : Untouched l.space.runs m m')
    (hp : Untouched [⟨l.blocks.process, 2⟩] m m')
    (ht : m'.word l.blocks.task 0 = m.word l.blocks.task 0) : l.Placed m' where
  maps := h.maps.untouched hs
  words := h.words.untouched List.mem_cons_self hp
  pageDirectory := ht.trans h.pageDirectory

theorem Placed.untouched (h : l.Placed m) (hu : Untouched l.kernelRuns m m') : l.Placed m' :=
  h.keep (hu.mono (fun r hr => space_mem hr))
    (hu.mono (fun r hr => List.mem_singleton.mp hr ▸ process_mem))
    (hu.oneBlock task_mem (by decide))

end Member

/-- the loaded processes `ps` and the other allocations `R` -/
structure Housed (ps : List Member) (R : List Run) (s : KernelState) : Prop where
  holds : s.machine.Holds (ps.flatMap Member.runs ++ R)
  tail : TailIn (ps.map (fun l => l.blocks.task)) s.taskHead s.taskTail
  placed : ∀ l ∈ ps, l.Placed s.machine
  table : ∀ i, InSlot s i → ∃ l ∈ ps, l.slot = i ∧ s.processes i = blockAddr l.blocks.process

/-- the tasks apart from the other allocations -/
def Member.rest (l : Member) : List Run := l.space.runs ++ [⟨l.blocks.process, 2⟩] ++ l.userRuns

theorem members_perm (ps : List Member) (R : List Run) : (ps.flatMap Member.runs ++ R).Perm
    ((ps.map (fun l => l.blocks.task)).map oneBlock ++ (ps.flatMap Member.rest ++ R)) := by
  rw [List.map_map, ← List.append_assoc]
  exact (List.map_append_flatMap_perm ps (oneBlock ∘ fun l => l.blocks.task)
    Member.rest).symm.append_right R

section
variable {ps : List Member} {R : List Run} {s s' : KernelState} {l : Member}

/-- a process and everything else -/
theorem Housed.split (h : Housed ps R s) (hl : l ∈ ps) : ∃ rest,
    (ps.flatMap Member.runs ++ R).Perm (l.runs ++ rest) ∧
      ∀ l' ∈ ps, l' ≠ l → ∀ r ∈ l'.runs, r ∈ rest := by
  obtain ⟨as, bs, rfl⟩ := List.append_of_mem hl
  refine ⟨(as ++ bs).flatMap Member.runs ++ R, ?_, fun l' hl' hne r hr => ?_⟩
  · have e : ((as ++ l :: bs).flatMap Member.runs).Perm (l.runs ++ (as ++ bs).flatMap Member.runs) :=
      List.perm_middle.flatMap_right Member.runs
    rw [← List.append_assoc]
    exact e.append_right R
  · have hin : l' ∈ as ++ bs := by
      rcases List.mem_append.mp hl' with h | h
      · exact List.mem_append_left _ h
      · exact List.mem_append_right _ ((List.mem_cons.mp h).resolve_left hne)
    exact List.mem_append_left _ (List.mem_flatMap.mpr ⟨l', hin, hr⟩)

/-- the image and the stack of a process lie apart from the structures of all processes, and from the
images and stacks of the others -/
theorem Housed.user (h : Housed ps R s) (hl : l ∈ ps) : ∃ rest,
    s.machine.Holds (l.userRuns ++ rest) ∧ (∀ l' ∈ ps, ∀ r ∈ l'.kernelRuns, r ∈ rest) ∧
      ∀ l' ∈ ps, l' ≠ l → ∀ r ∈ l'.userRuns, r ∈ rest := by
  obtain ⟨rest, hperm, hothers⟩ := h.split hl
  have e : (l.runs ++ rest).Perm (l.userRuns ++ (l.kernelRuns ++ rest)) := by
    unfold Member.runs
    rw [← List.append_assoc l.userRuns]
    exact List.perm_append_comm.append_right rest
  refine ⟨l.kernelRuns ++ rest, h.holds.perm (hperm.trans e), fun l' hl' r hr => ?_,
    fun l' hl' hne r hr => ?_⟩
  · by_cases hll : l' = l
    · rw [hll] at hr
      exact List.mem_append_left _ hr
    · exact List.mem_append_right _ (hothers l' hl' hll r (List.mem_append_left _ hr))
  · exact List.mem_append_right _ (hothers l' hl' hne r (List.mem_append_right _ hr))

end

/-! ## what the tables allow -/

/-- an address lies in one block -/
theorem not_within {L M : List Run} {m : Machine} {r r' : Run} {x : Nat} (h : m.Holds (L ++ M))
    (hr : r ∈ L) (hr' : r' ∈ M) (hx : Within r x) : ¬ Within r' x := by
  rintro ⟨b', hb', hx'⟩
  obtain ⟨b, hb, hx⟩ := hx
  unfold InBlock at hx hx'
  obtain rfl : b = b' := by omega
  exact (List.pairwise_append.mp h.tiled.separate).2.2 r hr r' hr' b hb hb'

namespace Member
variable {l : Member} {m : Machine} {x : Nat}

theorem Placed.directory (h : l.Placed m) :
    pageDirectoryOf m (blockAddr l.blocks.process) = blockAddr l.space.directory := by
  have h1 : m.mem.load (blockAddr l.blocks.process + ProcessField.task) = blockAddr l.blocks.task :=
    h.words.task
  have h2 : m.mem.load (blockAddr l.blocks.task + TaskField.pageDirectory) = blockAddr l.space.chunk :=
    h.pageDirectory
  unfold pageDirectoryOf
  rw [h1, h2, h.maps.chunk]

/-- a user-writable entry leads to the image or the stack -/
theorem entry_user (hk : l.blocks.image + blocksFor l.blocks.size ≤ heapBlocks) {v : Nat}
    (hv : v < 1048576) (h : UserWritable (processEntry l.blocks v)) :
    ∃ r ∈ l.userRuns, ∀ o < 4096, Within r (processEntry l.blocks v / 4096 * 4096 + o) := by
  by_cases hi : ImagePage l.blocks v
  · have hpage := hi
    obtain ⟨h1, h2⟩ := hpage
    refine ⟨_, List.mem_cons_self, fun o ho => ⟨l.blocks.image + (v - 1024), ⟨?_, ?_⟩, ?_⟩⟩
    · exact Nat.le_add_right _ _
    · show l.blocks.image + (v - 1024) < l.blocks.image + blocksFor l.blocks.size
      omega
    · rw [processEntry_image hk hi]
      unfold InBlock
      omega
  · by_cases hs : StackPage v
    · have hpage := hs
      obtain ⟨h1, h2⟩ := hpage
      refine ⟨_, List.mem_cons_of_mem _ List.mem_cons_self, fun o ho =>
        ⟨l.blocks.stack + (v - 1019), ⟨?_, ?_⟩, ?_⟩⟩
      · exact Nat.le_add_right _ _
      · show l.blocks.stack + (v - 1019) < l.blocks.stack + 4
        omega
      · rw [processEntry_stack hs]
        unfold InBlock
        omega
    · -- the other pages are mapped read-only
      have hbit := h.1
      rw [processEntry_other hk hv hi hs, testBit_flags v (by decide) (by decide)] at hbit
      cases hbit

/-- so what the process can write lies there -/
theorem Placed.reaches (h : l.Placed m)
    (hk : l.blocks.image + blocksFor l.blocks.size ≤ heapBlocks)
    (hx : Reaches m (blockAddr l.blocks.process) x) : ∃ r ∈ l.userRuns, Within r x := by
  obtain ⟨va, hva, htr⟩ := hx
  rw [h.directory, translate_maps h.maps hva] at htr
  unfold pageTranslation at htr
  split at htr
  · obtain ⟨hphys, hw, hu⟩ := Translation.mk.inj (Option.some.inj htr)
    obtain ⟨r, hr, hin⟩ := entry_user hk (show va / 4096 < 1048576 by omega) ⟨hw, hu⟩
    rw [← hphys]
    exact ⟨r, hr, hin _ (Nat.mod_lt _ (by decide))⟩
  · cases htr

end Member

section
variable {ps : List Member} {R : List Run} {s s' : KernelState} {l : Member}

theorem Housed.image_inside (h : Housed ps R s) (hl : l ∈ ps) :
    l.blocks.image + blocksFor l.blocks.size ≤ heapBlocks := by
  obtain ⟨rest, hh, -⟩ := h.user hl
  exact hh.inside (r := ⟨l.blocks.image, blocksFor l.blocks.size⟩) List.mem_cons_self

theorem Housed.space_holds (h : Housed ps R s) (hl : l ∈ ps) :
    ∃ rest, s.machine.Holds (l.space.runs ++ oneBlock l.blocks.task :: (⟨l.blocks.process, 2⟩ ::
      (l.userRuns ++ rest))) ∧ (∀ l' ∈ ps, l' ≠ l → ∀ r ∈ l'.runs, r ∈ rest) ∧
      (ps.flatMap Member.runs ++ R).Perm (l.space.runs ++ oneBlock l.blocks.task ::
        (⟨l.blocks.process, 2⟩ :: (l.userRuns ++ rest))) := by
  obtain ⟨rest, hperm, hothers⟩ := h.split hl
  have e : (l.runs ++ rest).Perm (l.space.runs ++ oneBlock l.blocks.task ::
      (⟨l.blocks.process, 2⟩ :: (l.userRuns ++ rest))) := by
    unfold Member.runs Member.kernelRuns
    rw [List.append_assoc, List.cons_append, List.append_assoc]
    exact List.perm_middle.symm
  exact ⟨rest, h.holds.perm (hperm.trans e), hothers, hperm.trans e⟩

end

/-! ## loads -/

section
variable {ps : List Member} {R : List Run} {s s' : KernelState} {l : Member}

theorem Member.rest_process : ⟨l.blocks.process, 2⟩ ∈ l.rest :=
  List.mem_append_left _ (List.mem_append_right _ List.mem_cons_self)

theorem Member.rest_space {r : Run} (hr : r ∈ l.space.runs) : r ∈ l.rest :=
  List.mem_append_left _ (List.mem_append_left _ hr)

/-- a change that keeps the allocations of the processes and the fields of their tasks -/
theorem Housed.placed_keep (h : Housed ps R s)
    (hu : Untouched (ps.flatMap Member.rest ++ R) s.machine s'.machine)
    (ht : ∀ c ∈ ps.map (fun l => l.blocks.task), ∀ j < 14,
      s'.machine.word c j = s.machine.word c j) : ∀ l ∈ ps, l.Placed s'.machine := by
  intro l hl
  have hin : ∀ r ∈ l.rest, r ∈ ps.flatMap Member.rest ++ R := fun r hr =>
    List.mem_append_left R (List.mem_flatMap.mpr ⟨l, hl, hr⟩)
  refine (h.placed l hl).keep (hu.mono (fun r hr => hin r (Member.rest_space hr)))
    (hu.mono (fun r hr => ?_)) (ht _ (List.mem_map_of_mem hl) 0 (by decide))
  rw [List.mem_singleton.mp hr]
  exact hin _ Member.rest_process

/-- a load that has left the tasks and the table alone -/
theorem Housed.unmade (h : Housed ps R s) {K : List Run}
    (hh : s'.machine.Holds
      ((ps.map (fun l => l.blocks.task)).map oneBlock ++ K ++ (ps.flatMap Member.rest ++ R)))
    (hu : Untouched (ps.flatMap Member.rest ++ R) s.machine s'.machine)
    (hun : Unmade (ps.map (fun l => l.blocks.task)) s s') : Housed ps (K ++ R) s' where
  holds := by
    refine hh.perm (List.Perm.trans ?_ (members_perm ps (K ++ R)).symm)
    rw [List.append_assoc]
    refine List.Perm.append_left _ ?_
    rw [← List.append_assoc, ← List.append_assoc]
    exact List.perm_append_comm.append_right R
  tail := by
    rw [hun.only.taskHead, hun.only.taskTail]
    exact h.tail
  placed := h.placed_keep hu hun.others
  table := by
    intro i hi
    unfold InSlot at hi
    rw [hun.only.processes] at hi ⊢
    exact h.table i hi

/-- a new process -/
theorem Housed.made (h : Housed ps R s) {slot : Nat} {k : ProcessBlocks} {space : Space}
    {N K : List Run} (hN : N.Perm ((k.task :: ps.map (fun l => l.blocks.task)).map oneBlock ++
      (space.runs ++ K)))
    (hh : s'.machine.Holds (N ++ (ps.flatMap Member.rest ++ R)))
    (hu : Untouched (ps.flatMap Member.rest ++ R) s.machine s'.machine)
    (hmade : Made (ps.map (fun l => l.blocks.task)) slot s s' k space K) :
    ∃ R', Housed (⟨slot, k, space⟩ :: ps) R' s' := by
  obtain ⟨J, hK⟩ := hmade.parts
  refine ⟨J ++ R, ⟨?_, hmade.tail, fun l hl => ?_, fun i hi => ?_⟩⟩
  · refine (hh.perm (hN.append_right _)).perm (List.Perm.trans ?_ (members_perm _ _).symm)
    rw [List.append_assoc]
    refine List.Perm.append_left _ ?_
    rw [List.flatMap_cons]
    unfold Member.rest Member.userRuns
    rw [List.append_assoc, List.append_assoc, List.append_assoc, List.append_assoc]
    refine List.Perm.append_left _ ?_
    refine (hK.append_right _).trans ?_
    refine List.Perm.cons _ (List.Perm.cons _ (List.Perm.cons _ ?_))
    show (J ++ (ps.flatMap Member.rest ++ R)).Perm (ps.flatMap Member.rest ++ (J ++ R))
    rw [← List.append_assoc, ← List.append_assoc]
    exact List.perm_append_comm.append_right R
  · rcases List.mem_cons.mp hl with rfl | hl
    · exact ⟨hmade.maps, hmade.words, hmade.pageDirectory⟩
    · exact h.placed_keep hu hmade.others l hl
  · unfold InSlot at hi
    rw [hmade.processes] at hi ⊢
    by_cases e : (i : Int) = slot
    · rw [e, Function.update_self]
      exact ⟨_, List.mem_cons_self, (Int.ofNat_inj.mp e).symm, rfl⟩
    · rw [Function.update_of_ne e] at hi ⊢
      obtain ⟨l, hl, hrest⟩ := h.table i hi
      exact ⟨l, List.mem_cons_of_mem _ hl, hrest⟩

/-- the indexes that have been used do not matter -/
theorem Housed.looked (h : Housed ps R s) (a : List Int) : Housed ps R { s with accesses := a } :=
  ⟨h.holds, h.tail, h.placed, h.table⟩

/-- **A load** adds a process, or loses what it has allocated. -/
theorem Housed.load (h : Housed ps R s) {disk : Disk} {filename : List UInt8} {stale : Nat}
    {r : Int × Option Nat} (hsized : FileSized s.volume filename)
    (hrun : processLoad disk filename stale s = .ok (r, s')) : ∃ ps' R', Housed ps' R' s' := by
  obtain ⟨n, a, hget, -, hn⟩ := processGetFreeSlot_run s
  unfold processLoad at hrun
  rw [bind_ok hget] at hrun
  rcases hn with ⟨rfl, -⟩ | ⟨slot, rfl, hslot, hfree⟩
  · rw [if_pos (by decide)] at hrun
    obtain ⟨-, rfl⟩ := pure_eq_ok hrun
    exact ⟨ps, R, h.looked _⟩
  · rw [if_neg (by omega)] at hrun
    generalize hs1 : { s with accesses := a ++ s.accesses } = s1 at hrun
    have h1 : Housed ps R s1 := hs1 ▸ h.looked _
    have hnt : ¬ Taken s1 slot := by
      rw [← hs1]
      exact fun ht => ht.2 hfree
    have hl : Housed ps R (s1.looked slot) := by
      unfold KernelState.looked
      split
      · exact h1.looked _
      · exact h1
    have hvol : FileSized s1.volume filename := by
      rw [← hs1]
      exact hsized
    have hm := looked_machine s1 slot
    obtain ⟨N, hend, hh, hu⟩ := processLoadForSlot_owns disk filename slot (fun _ => hvol) h1.tail
      (fun ht => absurd ht hnt) (ps.flatMap Member.rest ++ R) r s'
      (h1.holds.perm (members_perm ps R)) hrun
    rw [← hm] at hu
    cases hend with
    | rejected hres hwhy hs =>
      have hsame : s'.machine = s1.machine := by
        rcases kzalloc_cases h1.holds (by decide) (hwhy.resolve_left hnt) with
          ⟨b, -, -, hb, -⟩ | ⟨-, -, hm'⟩ | ⟨h0, -⟩
        · exact absurd hb.symm blockAddr_ne
        · exact hm'
        · cases h0
      rw [hs, hsame, ← hm]
      exact ⟨ps, R, hl⟩
    | @failed res _ _ K p hres hun hN hp =>
      exact ⟨ps, K ++ R, hl.unmade (hh.perm (hN.append_right _)) hu hun⟩
    | @made _ _ K k space hfree hfile hN hmade =>
      exact ⟨_, hl.made hN hh hu hmade⟩

end

/-! ## calls of a loaded process -/

theorem processEntry_present {k : ProcessBlocks} (hk : k.image + blocksFor k.size ≤ heapBlocks)
    {v : Nat} (hv : v < 1048576) : (processEntry k v).testBit 0 = true := by
  by_cases hi : ImagePage k v
  · rw [processEntry_image hk hi, testBit_flags _ (by decide) (by decide)]
    rfl
  · by_cases hs : StackPage v
    · rw [processEntry_stack hs, testBit_flags _ (by decide) (by decide)]
      rfl
    · rw [processEntry_other hk hv hi hs, testBit_flags _ (by decide) (by decide)]
      rfl

/-- the state with the task of a process as the current one -/
def CallState.switched (l : Member) (s : CallState) : CallState :=
  { s with
    kernel := { s.kernel with currentTask := blockAddr l.blocks.task }
    directory := blockAddr l.space.directory }

section
variable {ps : List Member} {R : List Run} {s s' : CallState} {l : Member} {slot : Nat}

/-- the process in a slot, in its task's space -/
theorem switchTo_run (h : Housed ps R s.kernel) (hc : s.kernelChunk ≠ 0)
    (hslot : InSlot s.kernel slot) : ∃ l ∈ ps, ∃ rest,
      s.kernel.processes slot = blockAddr l.blocks.process ∧
      switchTo slot s = .ok ((), s.switched l) ∧
      Running (processEntry l.blocks) l.space l.blocks.task
        (⟨l.blocks.process, 2⟩ :: (l.userRuns ++ rest)) (s.switched l) ∧
      (∀ l' ∈ ps, l' ≠ l → ∀ r ∈ l'.runs, r ∈ rest) ∧
      (ps.flatMap Member.runs ++ R).Perm (l.space.runs ++ oneBlock l.blocks.task ::
        (⟨l.blocks.process, 2⟩ :: (l.userRuns ++ rest))) := by
  obtain ⟨l, hl, -, hp⟩ := h.table slot hslot
  obtain ⟨rest, hh, hothers, hperm⟩ := h.space_holds hl
  have hplaced := h.placed l hl
  have hrun1 : Running (processEntry l.blocks) l.space l.blocks.task
      (⟨l.blocks.process, 2⟩ :: (l.userRuns ++ rest))
      { s with kernel := { s.kernel with currentTask := blockAddr l.blocks.task } } :=
    ⟨hh, rfl, hplaced.pageDirectory, hplaced.maps,
      fun v hv => processEntry_present (h.image_inside hl) hv, hc⟩
  have htask : inCall (readWord (s.kernel.processes slot) ProcessField.task) s
      = .ok (blockAddr l.blocks.task, s) := by
    rw [hp]
    refine inCall_same ((readWord_ok _ blockAddr_ne _).trans ?_)
    have e : s.kernel.machine.mem.load (blockAddr l.blocks.process + ProcessField.task)
        = blockAddr l.blocks.task := hplaced.words.task
    rw [e]
  refine ⟨l, hl, rest, hp, ?_, hrun1.under _, hothers, hperm⟩
  unfold switchTo taskSwitch
  rw [bind_ok (get_run s), bind_ok htask, bind_ok (modify_run _ s),
    bind_ok (readDirectory_run hrun1.taskSpace), pagingSwitch_run hrun1.taskSpace]
  rfl

/-- **A system call.** -/
theorem Housed.isr80h (h : Housed ps R s.kernel) (hc : s.kernelChunk ≠ 0)
    (hslot : InSlot s.kernel slot) {command : Int} {frame : Nat} {buf : List UInt8} {r : Nat}
    (hrun : (switchTo slot >>= fun _ => isr80hHandler command frame buf) s = .ok (r, s')) :
    Housed ps R s'.kernel ∧ s'.kernelChunk ≠ 0 := by
  obtain ⟨l, hl, rest, hp, hswitch, hrunning, hothers, hperm⟩ := switchTo_run h hc hslot
  rw [bind_ok hswitch] at hrun
  obtain ⟨hrun', hserved⟩ := isr80hHandler_served hrunning hrun
  have hk := hserved.kernel
  have hu : Untouched (⟨l.blocks.process, 2⟩ :: (l.userRuns ++ rest)) s.kernel.machine
    s'.kernel.machine := hserved.untouched
  have hchunk : s'.kernelChunk = s.kernelChunk := hserved.kernelChunk
  refine ⟨⟨hrun'.holds.perm hperm.symm, ?_, fun l' hl' => ?_, fun i hi => ?_⟩, by rwa [hchunk]⟩
  · rw [hk]
    exact h.tail
  · by_cases e : l' = l
    · rw [e]
      exact ⟨hrun'.maps, (h.placed l hl).words.untouched List.mem_cons_self hu, hrun'.pageDirectory⟩
    · refine (h.placed l' hl').untouched (hu.mono (fun r hr => ?_))
      exact List.mem_cons_of_mem _ (List.mem_append_right _
        (hothers l' hl' e r (List.mem_append_left _ hr)))
  · unfold InSlot at hi
    rw [hk] at hi ⊢
    exact h.table i hi

theorem userStore_eq_ok {va : Nat} {c : BitVec 8} (h : userStore va c s = .ok ((), s')) :
    ∃ phys, translate s.mem s.directory (va % 4294967296) = some ⟨phys, true, true⟩ ∧
      s' = setByte phys c s := by
  unfold userStore at h
  rw [bind_ok (get_run s)] at h
  cases htr : translate s.mem s.directory (va % 4294967296) with
  | none =>
    rw [htr] at h
    cases h
  | some t =>
    obtain ⟨phys, w, u⟩ := t
    rw [htr] at h
    cases w with
    | false => cases h
    | true =>
      cases u with
      | false => cases h
      | true =>
        cases h
        exact ⟨phys, rfl, rfl⟩

/-- **A store in user mode.** -/
theorem Housed.store (h : Housed ps R s.kernel) (hc : s.kernelChunk ≠ 0)
    (hslot : InSlot s.kernel slot) {va : Nat} {c : BitVec 8}
    (hrun : (switchTo slot >>= fun _ => userStore va c) s = .ok ((), s')) :
    Housed ps R s'.kernel ∧ s'.kernelChunk ≠ 0 := by
  obtain ⟨l, hl, -, hp, hswitch, -⟩ := switchTo_run h hc hslot
  rw [bind_ok hswitch] at hrun
  obtain ⟨phys, htr, rfl⟩ := userStore_eq_ok hrun
  have hplaced := h.placed l hl
  have hreach : Reaches s.kernel.machine (blockAddr l.blocks.process) phys := by
    refine ⟨va % 4294967296, Nat.mod_lt _ (by decide), ?_⟩
    rw [hplaced.directory]
    exact htr
  -- the byte lies in the image or the stack
  obtain ⟨r, hr, b, hb, hphys⟩ := hplaced.reaches (h.image_inside hl) hreach
  obtain ⟨rest, hh, hkernel, -⟩ := h.user hl
  have hblt : b < heapBlocks := lt_of_lt_of_le hb.2 (hh.inside (List.mem_append_left _ hr))
  have hpage := blockAddr_page b
  have hphys : blockAddr b + phys % 4096 = phys := by
    unfold InBlock at hphys
    omega
  have hfr := update_frame s.kernel.machine hblt (Nat.mod_lt phys (by decide)) c
  rw [hphys] at hfr
  have hu : Untouched rest s.kernel.machine
      { s.kernel.machine with
        mem := Function.update s.kernel.machine.mem (BitVec.ofNat 32 phys) c } := by
    refine hfr.untouched (fun r' hr' => hh.inside (List.mem_append_right _ hr'))
      (fun r' hr' b' hb' e => ?_)
    rw [e] at hb'
    exact (List.pairwise_append.mp hh.tiled.separate).2.2 r hr r' hr' b hb hb'
  exact ⟨⟨h.holds.congr rfl, h.tail, fun l' hl' => (h.placed l' hl').untouched
    (hu.mono (fun r' hr' => hkernel l' hl' r' hr')), h.table⟩, hc⟩

end

/-! ## runs -/

section
variable {disk : Disk} {s : CallState}

/-- the loaded processes are housed, and the kernel has a page directory -/
def Sheltered (s : CallState) : Prop := (∃ ps R, Housed ps R s.kernel) ∧ s.kernelChunk ≠ 0

theorem Sheltered.step {c : TaskCall} (h : Sheltered s) (hc : Allowed s c) :
    ∀ s', isolationStep disk s c = .ok s' → Sheltered s' := by
  obtain ⟨⟨ps, R, h⟩, hchunk⟩ := h
  intro s' hs'
  have hrun := isolationStep_eq_ok hs'
  cases c with
  | load filename stale =>
    obtain ⟨r, s1, hload, hrun⟩ := bind_eq_ok hrun
    obtain ⟨-, rfl⟩ := pure_eq_ok hrun
    obtain ⟨k, hk, rfl⟩ := part_eq_ok hload
    exact ⟨h.load hc hk, hchunk⟩
  | isr80h slot command frame buf =>
    obtain ⟨_, s1, hswitch, hrun⟩ := bind_eq_ok hrun
    obtain ⟨r, s2, hcall, hrun⟩ := bind_eq_ok hrun
    obtain ⟨-, rfl⟩ := pure_eq_ok hrun
    have hall : (switchTo slot >>= fun _ => isr80hHandler command frame buf) s = .ok (r, s2) := by
      rw [bind_ok hswitch]
      exact hcall
    obtain ⟨h', hchunk'⟩ := h.isr80h hchunk hc hall
    exact ⟨⟨ps, R, h'⟩, hchunk'⟩
  | store slot va c =>
    obtain ⟨h', hchunk'⟩ := h.store hchunk hc hrun
    exact ⟨⟨ps, R, h'⟩, hchunk'⟩

end

/-! ## a load from a volume -/

/-- the kernel with the files `f` and the page directory at `chunk` -/
def startedCall (f : FileState) (m : Machine) (chunk : Nat) : CallState where
  kernel :=
    { machine := m
      taskHead := 0
      taskTail := 0
      currentTask := 0
      volume := f.volume
      files := f.files
      processes := fun _ => 0
      accesses := [] }
  kernelChunk := chunk
  directory := 0
  segments := fun _ => 0x10
  isr80hCommands := fun _ => none
  terminal := ⟨0, 0, fun _ => 0⟩

end LameOS
