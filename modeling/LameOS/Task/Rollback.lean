import LameOS.Memory.Owns
import LameOS.Memory.PagingLaws
import LameOS.Task.TaskRun

/-!
# A task that is made, mapped and freed again

A load of a process that fails has made a task and mapped pages for it; the task is freed and the
kernel goes on.

* `PagingCall`          a call of `paging_map`, `paging_map_range` or `paging_map_to`;
* `Remapped`            what such calls leave: the heap, and all but the page tables of the space;
* `TaskChain`           a list of tasks without dangling links;
* `taskNew_chained`     the new task at the end of the list;
* `task_new_free_restores`   the list, the current task and the heap are as before.
-/

set_option linter.unusedVariables false

namespace LameOS
open Lib Lib.Exec

/-! ## mappings -/

/-- the calls that change the page tables of a space -/
inductive PagingCall where
  | map (virt phys flags : Nat)
  | mapRange (virt phys : Nat) (count : Int) (flags : Nat)
  | mapTo (virt phys physEnd flags : Nat)

def PagingCall.run (chunk : Nat) : PagingCall → Prog Machine Int
  | .map virt phys flags => pagingMap chunk virt phys flags
  | .mapRange virt phys count flags => pagingMapRange chunk virt phys count flags
  | .mapTo virt phys physEnd flags => pagingMapTo chunk virt phys physEnd flags

/-- the arguments are words -/
def PagingCall.Words : PagingCall → Prop
  | .map virt phys flags => virt < 4294967296 ∧ phys < 4294967296 ∧ flags < 4294967296
  | .mapRange virt phys _ flags => virt < 4294967296 ∧ phys < 4294967296 ∧ flags < 4294967296
  | .mapTo virt phys _ flags => virt < 4294967296 ∧ phys < 4294967296 ∧ flags < 4294967296

/-- the calls one after the other; nobody looks at what they return -/
def pagingCalls (chunk : Nat) : List PagingCall → Prog Machine Unit
  | [] => pure ()
  | c :: cs => do
    let _ ← c.run chunk
    pagingCalls chunk cs

/-- only page tables of the space have changed, and it has entries -/
structure Remapped (space : Space) (m m' : Machine) : Prop where
  heap : m'.heap = m.heap
  frame : Frame (fun b => b ∈ space.tables) m m'
  maps : ∃ entry, space.Maps m' 7 entry

section
variable {space : Space} {L : List Run} {m m' m'' : Machine} {entry : Nat → Nat}
  {virt phys physEnd flags : Nat}

theorem Remapped.refl (h : space.Maps m 7 entry) : Remapped space m m :=
  ⟨rfl, Frame.refl _ m, entry, h⟩

theorem Remapped.trans (h : Remapped space m m') (h' : Remapped space m' m'') :
    Remapped space m m'' := ⟨h'.heap.trans h.heap, h.frame.trans h'.frame, h'.maps⟩

/-- **One page, with any arguments**: refused, or one entry is set -/
theorem pagingMap_any (h : space.Maps m 7 entry) (hh : m.Holds (space.runs ++ L))
    (hv : virt < 4294967296) (hp : phys < 4294967296) (hg : flags < 4294967296) :
    Does (pagingMap (blockAddr space.chunk) virt phys flags) m (fun _ => Remapped space m) := by
  unfold pagingMap
  by_cases hbad : virt % pagingPageSize ≠ 0 ∨ phys % pagingPageSize ≠ 0
  · rw [if_pos hbad]
    exact Does.pure (Remapped.refl h)
  · rw [if_neg hbad]
    unfold pagingPageSize at hbad
    push Not at hbad
    obtain ⟨v, rfl, hv'⟩ : ∃ v, virt = v * 4096 ∧ v < 1048576 := ⟨virt / 4096, by omega, by omega⟩
    have hx : phys ||| flags < 4294967296 := Nat.or_lt_two_pow (n := 32) hp hg
    obtain ⟨m', hset, hheap, hmaps, hfr⟩ := pagingSet_run h hh (by decide) hv' hx
    have hr : readWord (blockAddr space.chunk) 0 m = .ok (blockAddr space.directory, m) := by
      rw [readWord_ok m blockAddr_ne, Nat.add_zero, h.chunk]
    exact ⟨0, m', by rw [bind_ok hr, hset], hheap, hfr, _, hmaps⟩

/-- a range, whatever its length is -/
theorem pagingMapLoop_any (hg : flags < 4294967296) (n : Nat) : ∀ {virt phys : Nat} {res : Int}
    {m : Machine} {entry : Nat → Nat}, space.Maps m 7 entry → m.Holds (space.runs ++ L) →
      virt < 4294967296 → phys < 4294967296 →
      Does (pagingMapLoop (blockAddr space.chunk) flags n virt phys res) m
        (fun _ => Remapped space m) := by
  induction n with
  | zero => exact fun h _ _ _ => Does.pure (Remapped.refl h)
  | succ n ih =>
    intro virt phys res m entry h hh hv hp
    rw [pagingMapLoop_succ]
    refine Does.bind (pagingMap_any h hh hv hp hg) (fun res m' h' => ?_)
    obtain ⟨entry', hmaps⟩ := h'.maps
    split
    · exact Does.pure h'
    · exact (ih hmaps (hh.congr h'.heap) (cuint_lt _) (cuint_lt _)).mono
        (fun _ m'' h'' => h'.trans h'')

/-- **One call** -/
theorem pagingCall_any (h : space.Maps m 7 entry) (hh : m.Holds (space.runs ++ L)) {c : PagingCall}
    (hc : c.Words) : Does (c.run (blockAddr space.chunk)) m (fun _ => Remapped space m) := by
  cases c with
  | map virt phys flags => exact pagingMap_any h hh hc.1 hc.2.1 hc.2.2
  | mapRange virt phys count flags => exact pagingMapLoop_any hc.2.2 _ h hh hc.1 hc.2.1
  | mapTo virt phys physEnd flags =>
    have hrefuse : Does (pure (-EINVARG) : Prog Machine Int) m (fun _ => Remapped space m) :=
      Does.pure (Remapped.refl h)
    show Does (pagingMapTo _ virt phys physEnd flags) m _
    unfold pagingMapTo
    split
    · exact hrefuse
    · split
      · exact hrefuse
      · split
        · exact hrefuse
        · split
          · exact hrefuse
          · exact pagingMapLoop_any hc.2.2 _ h hh hc.1 hc.2.1

/-- **Any calls** -/
theorem pagingCalls_any (cs : List PagingCall) : ∀ {m : Machine} {entry : Nat → Nat},
    space.Maps m 7 entry → m.Holds (space.runs ++ L) → (∀ c ∈ cs, c.Words) →
      Does (pagingCalls (blockAddr space.chunk) cs) m (fun _ => Remapped space m) := by
  induction cs with
  | nil => exact fun h _ _ => Does.pure (Remapped.refl h)
  | cons c cs ih =>
    intro m entry h hh hcs
    refine Does.bind (pagingCall_any h hh (hcs c List.mem_cons_self)) (fun _ m' h' => ?_)
    obtain ⟨entry', hmaps⟩ := h'.maps
    exact (ih hmaps (hh.congr h'.heap) (fun x hx => hcs x (List.mem_cons_of_mem c hx))).mono
      (fun _ m'' h'' => h'.trans h'')

end

/-! ## the list of tasks -/

/-- the tasks are the allocated structs at the blocks `bs`, linked both ways, and no pointer leads
elsewhere -/
structure TaskChain (L : List Run) (bs : List Nat) (s : TaskState) : Prop where
  taken : ∀ b ∈ bs, oneBlock b ∈ L
  linked : Linked s.machine 0 bs 0
  head : s.taskHead = firstOr 0 bs
  tail : s.taskTail = lastOr 0 bs
  current : s.currentTask = 0 ∨ ∃ b ∈ bs, s.currentTask = blockAddr b

/-- the pointers of the list with a new task at its end -/
def TaskState.appended (s : TaskState) (m : Machine) (task : Nat) : TaskState where
  machine := m
  taskHead := if s.taskHead = 0 then task else s.taskHead
  taskTail := task
  currentTask := if s.taskHead = 0 then task else s.currentTask

section
variable {L : List Run} {bs : List Nat} {s : TaskState} {process : Nat}

/-- the words of the allocations `L`, apart from the `next` of the task at `tail` -/
def KeptBut (tail : Nat) (L : List Run) (m m' : Machine) : Prop :=
  ∀ r ∈ L, ∀ x, r.Mem x → ∀ j < 1024, tail ≠ blockAddr x ∨ j ≠ 14 → m'.word x j = m.word x j

/-- the new task, in the list, with its space -/
structure Chained (L : List Run) (s : TaskState) (b : Nat) (space : Space) (m : Machine) : Prop where
  holds : m.Holds (space.runs ++ oneBlock b :: L)
  maps : ∃ entry, space.Maps m 7 entry
  pageDirectory : m.word b 0 = blockAddr space.chunk
  next : m.word b 14 = 0
  prev : m.word b 15 = s.taskTail
  kept : KeptBut s.taskTail L s.machine m

/-- **`task_new`** puts the task behind the others, and takes nothing of theirs but a `next` -/
theorem taskNew_chained (hh : s.machine.Holds L) (hc : TaskChain L bs s) (hp : process < 4294967296)
    (hfree : 1027 ≤ freeBlocks s.machine.heap.table) : ∃ b space m,
      taskNew process s = .ok (blockAddr b, s.appended m (blockAddr b)) ∧ Chained L s b space m := by
  obtain ⟨b, space, m, hnew, -, hh1, hmaps, hfr, hwords, -⟩ := taskNew_made s hh hp hfree
  have hb : b < heapBlocks := hh1.block_lt (List.mem_append_right _ List.mem_cons_self)
  have hbs : b ∉ space.blocks := Space.not_mem_blocks hh1 List.mem_cons_self
  have hkept : ∀ r ∈ L, ∀ x, r.Mem x → ∀ j < 1024, m.word x j = s.machine.word x j :=
    fun r hr x hx j hj => hfr.block (lt_of_lt_of_le hx.2 (hh.inside hr)) hj (new_apart hh1 hr hx)
  rcases List.eq_nil_or_concat bs with rfl | ⟨bs', c, e⟩
  · -- the only task
    have hhead : s.taskHead = 0 := hc.head
    have htail : s.taskTail = 0 := hc.tail
    have happ : taskAppend (blockAddr b) { s with machine := m }
        = .ok ((), s.appended m (blockAddr b)) := by
      unfold TaskState.appended
      rw [if_pos hhead, if_pos hhead]
      exact taskAppend_first _ _ hhead
    refine ⟨b, space, m, by rw [hnew, bind_ok happ]; rfl, hh1, ⟨_, hmaps⟩, hwords.pageDirectory,
      hwords.next, by rw [htail]; exact hwords.prev, fun r hr x hx j hj _ => hkept r hr x hx j hj⟩
  · -- behind the last one
    rw [List.concat_eq_append] at e
    subst e
    have htail : s.taskTail = blockAddr c := by
      rw [hc.tail, lastOr_append]
    have hcL : oneBlock c ∈ L := hc.taken c (List.mem_append_right _ (List.mem_singleton_self c))
    have hself : (oneBlock c).Mem c := ⟨le_refl c, Nat.lt_succ_self c⟩
    have hnotc := not_or.mp (new_apart hh1 hcL hself)
    have hhead : s.taskHead ≠ 0 := by
      rw [hc.head, firstOr_append]
      exact firstOr_ne blockAddr_ne
    obtain ⟨m2, hrun, hput⟩ := taskAppend_behind { s with machine := m } hb (hh.block_lt hcL) hnotc.1
      hhead htail
    have happ : taskAppend (blockAddr b) { s with machine := m }
        = .ok ((), s.appended m2 (blockAddr b)) := by
      unfold TaskState.appended
      rw [if_neg hhead, if_neg hhead]
      exact hrun
    refine ⟨b, space, m2, by rw [hnew, bind_ok happ]; rfl, hh1.congr hput.heap,
      ⟨_, hmaps.frame (fun _ hx => Space.blocks_lt hh1 hx) hput.frame
        (PutBehind.avoids hbs hnotc.2)⟩,
      (hput.new 0 (by decide) (by decide)).trans hwords.pageDirectory,
      (hput.new 14 (by decide) (by decide)).trans hwords.next, by rw [htail]; exact hput.prev, ?_⟩
    intro r hr x hx j hj hne
    have hxb : x < heapBlocks := lt_of_lt_of_le hx.2 (hh.inside hr)
    rw [htail] at hne
    have hput' := hput.old x hxb (fun e => new_apart hh1 hr hx (Or.inl e)) j hj
      (hne.imp_left (fun h e => h (e ▸ rfl)))
    exact hput'.trans (hkept r hr x hx j hj)

/-- mappings in the space of the new task -/
theorem Chained.remapped {b : Nat} {space : Space} {m m' : Machine} (h : Chained L s b space m)
    (hm : Remapped space m m') : Chained L s b space m' := by
  have hb : b < heapBlocks := h.holds.block_lt (List.mem_append_right _ List.mem_cons_self)
  have htab : ∀ {x}, x ∈ space.tables → x ∈ space.blocks := fun hx =>
    List.mem_cons_of_mem _ (List.mem_cons_of_mem _ hx)
  have hbt : b ∉ space.tables := fun hin =>
    Space.not_mem_blocks h.holds List.mem_cons_self (htab hin)
  have hword : ∀ j < 1024, m'.word b j = m.word b j := fun j hj => hm.frame.block hb hj hbt
  refine ⟨h.holds.congr hm.heap, hm.maps, (hword 0 (by decide)).trans h.pageDirectory,
    (hword 14 (by decide)).trans h.next, (hword 15 (by decide)).trans h.prev, ?_⟩
  intro r hr x hx j hj hne
  have hxb : x < heapBlocks :=
    lt_of_lt_of_le hx.2 (h.holds.inside (List.mem_append_right _ (List.mem_cons_of_mem _ hr)))
  exact (hm.frame.block hxb hj (fun hin => new_apart h.holds hr hx (Or.inr (htab hin)))).trans
    (h.kept r hr x hx j hj hne)

/-- what is restored: the pointers of the list, the links of the tasks, their contents and those of
every other allocation, and the heap -/
structure TasksRestored (L : List Run) (bs : List Nat) (s s' : TaskState) : Prop where
  head : s'.taskHead = s.taskHead
  tail : s'.taskTail = s.taskTail
  current : s'.currentTask = s.currentTask
  links : ∀ b ∈ bs, s'.machine.word b 14 = s.machine.word b 14 ∧
    s'.machine.word b 15 = s.machine.word b 15
  untouched : Untouched L s.machine s'.machine
  heap : SameHeap s.machine s'.machine

/-- the last task has no successor -/
theorem TaskChain.last_next (hc : TaskChain L bs s) {x : Nat} (hx : s.taskTail = blockAddr x) :
    s.machine.word x 14 = 0 := by
  rcases List.eq_nil_or_concat bs with rfl | ⟨bs', c, rfl⟩
  · rw [hc.tail] at hx
    exact absurd hx.symm blockAddr_ne
  · have hlink := hc.linked
    rw [List.concat_eq_append, linked_append] at hlink
    rw [hc.tail, List.concat_eq_append, lastOr_append] at hx
    rw [← blockAddr_inj hx]
    exact hlink.2.2

/-- the pointers of the list, once the new task is taken out again -/
theorem TaskChain.removed_appended (hc : TaskChain L bs s) {b : Nat} (hne : ∀ c ∈ bs, c ≠ b)
    {m m' : Machine} {t : TaskState}
    (ht : t = (s.appended m (blockAddr b)).removed m' (blockAddr b) s.taskTail 0) :
    t.taskHead = s.taskHead ∧ t.taskTail = s.taskTail ∧ t.currentTask = s.currentTask := by
  -- no pointer leads to the new task
  have hfresh : ∀ {p : Nat}, (∃ c ∈ bs, p = blockAddr c) → blockAddr b ≠ p := by
    rintro p ⟨c, hcb, rfl⟩ e
    exact hne c hcb (blockAddr_inj e).symm
  have hhead : (if blockAddr b = (if s.taskHead = 0 then blockAddr b else s.taskHead) then 0
      else (if s.taskHead = 0 then blockAddr b else s.taskHead)) = s.taskHead := by
    by_cases h0 : s.taskHead = 0
    · rw [if_pos h0, if_pos rfl, h0]
    · have hbs : bs ≠ [] := fun e => h0 (by rw [hc.head, e]; rfl)
      rw [if_neg h0, if_neg (hfresh (hc.head ▸ firstOr_mem hbs))]
  rw [ht]
  refine ⟨hhead, if_pos rfl, ?_⟩
  show (if blockAddr b = (if s.taskHead = 0 then blockAddr b else s.currentTask) then
    afterRemoval (if blockAddr b = (if s.taskHead = 0 then blockAddr b else s.taskHead) then 0
      else (if s.taskHead = 0 then blockAddr b else s.taskHead)) 0
    else (if s.taskHead = 0 then blockAddr b else s.currentTask)) = s.currentTask
  rw [hhead]
  by_cases h0 : s.taskHead = 0
  · -- an empty list has no current task
    have hcur : s.currentTask = 0 := by
      refine hc.current.resolve_right (fun h => ?_)
      obtain ⟨c, hcb, -⟩ := h
      obtain ⟨d, -, hd⟩ := firstOr_mem (List.ne_nil_of_mem hcb)
      exact blockAddr_ne (hd.symm.trans (hc.head.symm.trans h0))
    rw [if_pos h0, if_pos rfl, hcur, afterRemoval, if_pos rfl, h0]
  · rcases hc.current with hcur | hcur
    · rw [if_neg h0, if_neg (by rw [hcur]; exact blockAddr_ne)]
    · rw [if_neg h0, if_neg (hfresh hcur)]

/-- **`task_free`** of the last task takes it out again -/
theorem taskFree_chained (hh : s.machine.Holds L) (hc : TaskChain L bs s) {b : Nat} {space : Space}
    {m : Machine} (h : Chained L s b space m) : ∃ s',
      taskFree (blockAddr b) (s.appended m (blockAddr b)) = .ok (0, s') ∧ TasksRestored L bs s s' := by
  have hself : ∀ c, (oneBlock c).Mem c := fun c => ⟨le_refl c, Nat.lt_succ_self c⟩
  have hne : ∀ c ∈ bs, c ≠ b := fun c hcb e =>
    new_apart h.holds (hc.taken c hcb) (hself c) (Or.inl e)
  have hprev : m.word b 15 = 0 ∨ ∃ c, m.word b 15 = blockAddr c ∧ c < heapBlocks ∧ c ≠ b := by
    rw [h.prev, hc.tail]
    by_cases hnil : bs = []
    · exact Or.inl (by rw [hnil]; rfl)
    · obtain ⟨c, hcb, hlast⟩ := lastOr_mem hnil
      exact Or.inr ⟨c, hlast, hh.block_lt (hc.taken c hcb), hne c hcb⟩
  obtain ⟨entry, hmaps⟩ := h.maps
  obtain ⟨m', hrun, hh', ⟨m1, hmem1, m2, hun, hmem2⟩, -⟩ := taskFree_run
    (s.appended m (blockAddr b)) h.holds hmaps.toRooted (by decide) h.pageDirectory
    (by show m.word b 14 < _; rw [h.next]; decide) hprev
  have e14 : (s.appended m (blockAddr b)).machine.word b 14 = 0 := h.next
  have e15 : (s.appended m (blockAddr b)).machine.word b 15 = s.taskTail := h.prev
  rw [e14, e15] at hrun hun
  -- the words: the `next` of the old tail is `NULL` again, the others have not changed since
  have hword : ∀ r ∈ L, ∀ x, r.Mem x → ∀ j < 1024, m'.word x j = s.machine.word x j := by
    intro r hr x hx j hj
    have hxb : x < heapBlocks := lt_of_lt_of_le hx.2 (hh.inside hr)
    have h2 : m'.word x j = m2.word x j := by
      rw [Machine.word, hmem2]
      rfl
    have h1 : m1.word x j = m.word x j := by
      rw [Machine.word, hmem1]
      rfl
    rw [h2]
    by_cases hlast : s.taskTail = blockAddr x ∧ j = 14
    · obtain ⟨hx', rfl⟩ := hlast
      rw [hc.last_next hx']
      exact (hun.wrote x hx').word
    · have hor : s.taskTail ≠ blockAddr x ∨ j ≠ 14 := not_and_or.mp hlast
      refine Eq.trans ?_ (h1.trans (h.kept r hr x hx j hj hor))
      rcases hprev with h0 | ⟨c, hcw, hcb, -⟩
      · rw [hun.first (h.prev.symm.trans h0)]
      · have hct : s.taskTail = blockAddr c := h.prev.symm.trans hcw
        exact (hun.wrote c hct).keeps hxb hj (hor.imp_left (fun hne e => hne (by rw [hct, e])))
  obtain ⟨hhead, htail, hcur⟩ := hc.removed_appended hne rfl
  refine ⟨_, hrun, hhead, htail, hcur, fun c hcb => ?_, hword, hh.same hh'⟩
  exact ⟨hword _ (hc.taken c hcb) c (hself c) 14 (by decide),
    hword _ (hc.taken c hcb) c (hself c) 15 (by decide)⟩

/-- a load that fails behind its mappings: the task is made, pages are mapped for it, it is freed -/
def newMappedFree (process : Nat) (calls : List PagingCall) : Prog TaskState Unit := do
  let task ← taskNew process
  let pageDirectory ← onMachine (readWord task TaskField.pageDirectory)
  onMachine (pagingCalls pageDirectory calls)
  let _ ← taskFree task

/-- **A task that is freed again leaves no trace**: from any heap with 1027 free blocks and any list
without dangling links, whatever is mapped for the new task. -/
theorem task_new_free_restores (hh : s.machine.Holds L) (hc : TaskChain L bs s)
    (hfree : 1027 ≤ freeBlocks s.machine.heap.table) (hp : process < 4294967296)
    (calls : List PagingCall) (hcalls : ∀ c ∈ calls, c.Words) : ∃ s',
      newMappedFree process calls s = .ok ((), s') ∧ TasksRestored L bs s s' := by
  obtain ⟨b, space, m, hnew, h⟩ := taskNew_chained hh hc hp hfree
  obtain ⟨entry, hmaps⟩ := h.maps
  obtain ⟨u, m', hrun, hm⟩ := pagingCalls_any calls hmaps h.holds hcalls
  obtain ⟨s', hfreed, hrest⟩ := taskFree_chained hh hc (h.remapped hm)
  have hread : onMachine (readWord (blockAddr b) TaskField.pageDirectory) (s.appended m (blockAddr b))
      = .ok (blockAddr space.chunk, s.appended m (blockAddr b)) := by
    rw [← h.pageDirectory]
    exact onMachine_ok (readField m b 0)
  have hmap : onMachine (pagingCalls (blockAddr space.chunk) calls) (s.appended m (blockAddr b))
      = .ok ((), s.appended m' (blockAddr b)) := onMachine_ok hrun
  refine ⟨s', ?_, hrest⟩
  unfold newMappedFree
  rw [bind_ok hnew, bind_ok hread, bind_ok hmap, bind_ok hfreed]
  rfl

theorem noTasks_chain (m : Machine) : TaskChain [] [] (noTasks m).tasks where
  taken b hb := absurd hb List.not_mem_nil
  linked := trivial
  head := rfl
  tail := rfl
  current := Or.inl rfl

/-- on an empty heap, with a range across the top of the address space and a refused page -/
theorem task_new_free_restores_empty : ∃ s',
    newMappedFree 0x2000000 [.mapTo 0xFFFFF000 0x1000 0x4000 7, .map 0x1001 0 7]
        (noTasks emptyMachine).tasks = .ok ((), s') ∧
      TasksRestored [] [] (noTasks emptyMachine).tasks s' := by
  have hfree : 1027 ≤ freeBlocks (noTasks emptyMachine).tasks.machine.heap.table :=
    le_trans (show 1027 ≤ heapBlocks by decide) emptyMachine_blocks
  refine task_new_free_restores emptyMachine_holds (noTasks_chain emptyMachine) hfree (by norm_num) _
    (fun c hc => ?_)
  rcases List.mem_cons.mp hc with rfl | hc
  · exact ⟨by norm_num, by norm_num, by norm_num⟩
  · rw [List.mem_singleton.mp hc]
    exact ⟨by norm_num, by norm_num, by norm_num⟩

end

end LameOS
