import LameOS.Task.Task
import LameOS.Memory.PagingSpec

/-!
# What `task_init`, `task_new` and `task_free` do

* `taskInit_run`        the struct of a new task and its space;
* `taskInit_fault`      with fewer than 1026 free blocks a null pointer is followed;
* `taskListRemove_run`  the pointers that a removal writes, and those that it leaves;
* `taskAppend_behind`   the two words that a new task at the end of the list writes.
-/

set_option linter.unusedVariables false

namespace LameOS
open Lib Lib.Exec

/-- the word `j` of block `b` -/
def Machine.word (m : Machine) (b j : Nat) : Nat := m.mem.load (blockAddr b + 4 * j)

/-- the fields that `task_init` fills in the struct at block `b` -/
structure TaskWords (m : Machine) (b chunk process : Nat) : Prop where
  pageDirectory : m.word b 0 = blockAddr chunk
  ip : m.word b 8 = programVirtualAddress
  cs : m.word b 9 = userCodeSegment
  flags : m.word b 10 = 0
  esp : m.word b 11 = stackAddressStart
  ss : m.word b 12 = userDataSegment
  process : m.word b 13 = process
  next : m.word b 14 = 0
  prev : m.word b 15 = 0
  /-- the general purpose registers -/
  general : ∀ j, 1 ≤ j → j ≤ 7 → m.word b j = 0

section
variable {m : Machine} {L : List Run} {b process : Nat}

/-- the fields that are set in a struct of zeros -/
theorem taskFields_run (m : Machine) {chunk : Nat} (hb : b < heapBlocks) (hc : chunk < heapBlocks)
    (hp : process < 4294967296) (hzero : ∀ j < 16, m.word b j = 0) :
    Does (writeWord (blockAddr b) TaskField.pageDirectory (blockAddr chunk) >>= fun _ =>
      if blockAddr chunk = 0 then pure (- EIO) else do
        writeWord (blockAddr b) TaskField.ip programVirtualAddress
        writeWord (blockAddr b) TaskField.ss userDataSegment
        writeWord (blockAddr b) TaskField.cs userCodeSegment
        writeWord (blockAddr b) TaskField.esp stackAddressStart
        writeWord (blockAddr b) TaskField.process process
        return 0) m (fun res m' => res = 0 ∧ m'.heap = m.heap ∧ Frame (fun x => x = b) m m' ∧
          TaskWords m' b chunk process) := by
  obtain ⟨m2, hw2, w2⟩ := writeWord_block m (j := 0) hb (by decide) (blockAddr_word_lt hc.le)
  obtain ⟨m3, hw3, w3⟩ := writeWord_block m2 (j := 8) (v := programVirtualAddress) hb (by decide)
    (by decide)
  obtain ⟨m4, hw4, w4⟩ := writeWord_block m3 (j := 12) (v := userDataSegment) hb (by decide)
    (by decide)
  obtain ⟨m5, hw5, w5⟩ := writeWord_block m4 (j := 9) (v := userCodeSegment) hb (by decide)
    (by decide)
  obtain ⟨m6, hw6, w6⟩ := writeWord_block m5 (j := 11) (v := stackAddressStart) hb (by decide)
    (by decide)
  obtain ⟨m7, hw7, w7⟩ := writeWord_block m6 (j := 13) hb (by decide) hp
  have hrest : ∀ j < 16, j ≠ 0 → j ≠ 8 → j ≠ 12 → j ≠ 9 → j ≠ 11 → j ≠ 13 → m7.word b j = 0 := by
    intro j hj h0 h8 h12 h9 h11 h13
    rw [Machine.word, w7.other j (by omega) h13, w6.other j (by omega) h11,
      w5.other j (by omega) h9, w4.other j (by omega) h12, w3.other j (by omega) h8,
      w2.other j (by omega) h0]
    exact hzero j hj
  refine ⟨0, m7, ?_, rfl, ?_, ?_, ⟨?_, ?_, ?_, ?_, ?_, ?_, w7.word, ?_, ?_, fun j h1 h7 => ?_⟩⟩
  · show (writeWord (blockAddr b) (4 * 0) _ >>= fun _ => _) m = _
    rw [bind_ok hw2, if_neg blockAddr_ne]
    show (writeWord (blockAddr b) (4 * 8) _ >>= fun _ => _) m2 = _
    rw [bind_ok hw3]
    show (writeWord (blockAddr b) (4 * 12) _ >>= fun _ => _) m3 = _
    rw [bind_ok hw4]
    show (writeWord (blockAddr b) (4 * 9) _ >>= fun _ => _) m4 = _
    rw [bind_ok hw5]
    show (writeWord (blockAddr b) (4 * 11) _ >>= fun _ => _) m5 = _
    rw [bind_ok hw6]
    show (writeWord (blockAddr b) (4 * 13) _ >>= fun _ => _) m6 = _
    rw [bind_ok hw7]
    rfl
  · exact w7.heap.trans (w6.heap.trans (w5.heap.trans (w4.heap.trans (w3.heap.trans w2.heap))))
  · exact w2.frame.trans (w3.frame.trans (w4.frame.trans (w5.frame.trans (w6.frame.trans w7.frame))))
  · rw [Machine.word, w7.other 0 (by decide) (by decide), w6.other 0 (by decide) (by decide),
      w5.other 0 (by decide) (by decide), w4.other 0 (by decide) (by decide),
      w3.other 0 (by decide) (by decide), w2.word]
  · rw [Machine.word, w7.other 8 (by decide) (by decide), w6.other 8 (by decide) (by decide),
      w5.other 8 (by decide) (by decide), w4.other 8 (by decide) (by decide), w3.word]
  · rw [Machine.word, w7.other 9 (by decide) (by decide), w6.other 9 (by decide) (by decide),
      w5.word]
  · exact hrest 10 (by decide) (by decide) (by decide) (by decide) (by decide) (by decide)
      (by decide)
  · rw [Machine.word, w7.other 11 (by decide) (by decide), w6.word]
  · rw [Machine.word, w7.other 12 (by decide) (by decide), w6.other 12 (by decide) (by decide),
      w5.other 12 (by decide) (by decide), w4.word]
  · exact hrest 14 (by decide) (by decide) (by decide) (by decide) (by decide) (by decide)
      (by decide)
  · exact hrest 15 (by decide) (by decide) (by decide) (by decide) (by decide) (by decide)
      (by decide)
  · exact hrest j (by omega) (by omega) (by omega) (by omega) (by omega) (by omega) (by omega)

/-- the frame of an initialisation: the struct and the new space -/
theorem taskInit_run (h : m.Holds (oneBlock b :: L)) (hp : process < 4294967296)
    (hfree : 1026 ≤ freeBlocks m.heap.table) : ∃ (s : Space) (m' : Machine),
      taskInit (blockAddr b) process m = .ok (0, m') ∧ m'.Holds (s.runs ++ oneBlock b :: L) ∧
      s.Maps m' 7 (fun v => v * 4096 + 5) ∧ Frame (fun x => x = b ∨ x ∈ s.blocks) m m' ∧
      TaskWords m' b s.chunk process ∧
      freeBlocks m.heap.table = freeBlocks m'.heap.table + 1026 := by
  have hb : b < heapBlocks := h.block_lt List.mem_cons_self
  -- memset
  set m0 : Machine := { m with mem := m.mem.fill (blockAddr b) taskSize 0 } with hm0
  have hset : memset (blockAddr b) 0 taskSize m = .ok ((), m0) := rfl
  have hfr0 : Frame (fun x => x = b) m m0 := fill_frame m hb (by decide) (by decide)
  have hzero : ∀ j < 16, m0.word b j = 0 := fun j hj =>
    fill_zero m hb (by unfold taskSize; omega) (by decide)
  -- the space
  obtain ⟨s, m1, hnew, hh1, hmaps, hfr1, hfree1⟩ :=
    pagingNew4gb_run (m := m0) (h.congr rfl) (by decide : 5 < 4096) hfree
  have hbs : b ∉ s.blocks := Space.not_mem_blocks hh1 List.mem_cons_self
  have hkeep : ∀ j < 16, m1.word b j = 0 := fun j hj =>
    (hfr1.block hb (by omega) hbs).trans (hzero j hj)
  -- the fields
  obtain ⟨res, m7, hfields, rfl, hheap, hfr, hwords⟩ := taskFields_run m1 hb
    (Space.blocks_lt hh1 s.chunk_mem) hp hkeep
  refine ⟨s, m7, ?_, hh1.congr hheap, ?_, ?_, hwords, ?_⟩
  · unfold taskInit
    rw [bind_ok hset, show pagingIsPresent ||| pagingAccessFromAll = 5 from rfl, bind_ok hnew]
    exact hfields
  · exact hmaps.frame (fun _ hx => Space.blocks_lt hh1 hx) hfr (fun x hx e => hbs (e ▸ hx))
  · refine (hfr0.mono (fun x hx => Or.inl hx)).trans ((hfr1.mono (fun x hx => Or.inr hx)).trans ?_)
    exact hfr.mono (fun x hx => Or.inl hx)
  · rw [hheap]
    exact hfree1

theorem taskInit_fault (h : m.Holds L) (p : Nat) (hfree : freeBlocks m.heap.table < 1026) :
    taskInit p process m = .error .nullPointer := by
  have hset : memset p 0 taskSize m = .ok ((), { m with mem := m.mem.fill p taskSize 0 }) := rfl
  have hnew : pagingNew4gb 5 { m with mem := m.mem.fill p taskSize 0 } = .error .nullPointer :=
    pagingNew4gb_fault (h.congr rfl) (by decide) hfree
  unfold taskInit
  rw [bind_ok hset, show pagingIsPresent ||| pagingAccessFromAll = 5 from rfl, bind_error hnew]

end

/-! ## removal -/

theorem onMachine_ok {α : Type} {x : Prog Machine α} {s : TaskState} {a : α} {m' : Machine}
    (h : x s.machine = .ok (a, m')) : onMachine x s = .ok (a, { s with machine := m' }) := part_ok h

theorem onMachine_error {α : Type} {x : Prog Machine α} {s : TaskState} {e : Fault}
    (h : x s.machine = .error e) : onMachine x s = .error e := part_error h

theorem readField (m : Machine) (b j : Nat) :
    readWord (blockAddr b) (4 * j) m = .ok (m.word b j, m) := readWord_ok m blockAddr_ne _

/-- the successor that `task_get_next` gives for a task with the word `next` -/
def afterRemoval (head next : Nat) : Nat := if next = 0 then head else next

theorem taskGetNext_run (s : TaskState) {b : Nat} (h : s.currentTask = blockAddr b) :
    taskGetNext s = .ok (afterRemoval s.taskHead (s.machine.word b 14), s) := by
  have hr : onMachine (readWord s.currentTask TaskField.next) s
      = .ok (s.machine.word b 14, s) := by
    rw [h]
    exact onMachine_ok (readField s.machine b 14)
  unfold taskGetNext afterRemoval
  rw [bind_ok (get_run s), bind_ok hr]
  by_cases h0 : s.machine.word b 14 = 0
  · rw [if_pos h0, if_pos h0]
    rfl
  · rw [if_neg h0, if_neg h0]
    exact hr

/-- the pointers of the list after the removal of `task` between `prev` and `next` -/
def TaskState.removed (s : TaskState) (m : Machine) (task prev next : Nat) : TaskState where
  machine := m
  taskHead := if task = s.taskHead then next else s.taskHead
  taskTail := if task = s.taskTail then prev else s.taskTail
  currentTask := if task = s.currentTask then
    afterRemoval (if task = s.taskHead then next else s.taskHead) next else s.currentTask

/-- the successor is put behind the predecessor; the `prev` of the successor is not touched -/
structure Unlinked (prev next : Nat) (m m' : Machine) : Prop where
  heap : m'.heap = m.heap
  first : prev = 0 → m' = m
  wrote : ∀ b, prev = blockAddr b → Wrote b 14 next m m'

/-- the first statement: the predecessor, if there is one, gets the successor of the task -/
theorem taskUnlink_run (s : TaskState) {b : Nat} (hlt : s.machine.word b 14 < 4294967296)
    (hp : s.machine.word b 15 = 0 ∨
      ∃ c, s.machine.word b 15 = blockAddr c ∧ c < heapBlocks ∧ c ≠ b) (hb : b < heapBlocks) :
    ∃ m', onlyIf (s.machine.word b 15 ≠ 0)
        (onMachine (taskUnlink (blockAddr b) (s.machine.word b 15))) s
          = .ok ((), { s with machine := m' }) ∧
      Unlinked (s.machine.word b 15) (s.machine.word b 14) s.machine m' ∧
      m'.word b 14 = s.machine.word b 14 ∧ m'.word b 15 = s.machine.word b 15 := by
  rcases hp with h0 | ⟨c, hc, hcb, hne⟩
  · refine ⟨s.machine, ?_, ⟨rfl, fun _ => rfl, fun c hc => ?_⟩, rfl, rfl⟩
    · rw [onlyIf_neg (not_not.mpr h0)]
      rfl
    · exact absurd (h0 ▸ hc).symm blockAddr_ne
  · obtain ⟨m', hw, w⟩ := writeWord_block s.machine (j := 14) hcb (by decide) hlt
    have hrun : taskUnlink (blockAddr b) (blockAddr c) s.machine = .ok ((), m') := by
      have hr : readWord (blockAddr b) TaskField.next s.machine
          = .ok (s.machine.word b 14, s.machine) := readField s.machine b 14
      unfold taskUnlink
      rw [bind_ok hr]
      exact hw
    refine ⟨m', ?_, ⟨w.heap, fun h0 => ?_, fun c' hc' => ?_⟩, ?_, ?_⟩
    · rw [onlyIf_pos (by rw [hc]; exact blockAddr_ne), hc]
      exact onMachine_ok hrun
    · exact absurd (hc.symm.trans h0) blockAddr_ne
    · rw [← blockAddr_inj (hc.symm.trans hc')]
      exact w
    · exact w.frame.block hb (by decide) hne.symm
    · exact w.frame.block hb (by decide) hne.symm

/-- a pointer of the list that is set under a condition -/
theorem onlyIf_modify {α : Type} {c : Prop} [Decidable c] {x : Prog TaskState α}
    {f : α → TaskState → TaskState} {s : TaskState} {v old : α} (hold : f old s = s)
    (hx : c → x s = .ok (v, s)) :
    onlyIf c (x >>= fun v => modify (f v)) s = .ok ((), f (if c then v else old) s) := by
  by_cases h : c
  · rw [onlyIf_pos h, if_pos h, bind_ok (hx h)]
    rfl
  · rw [onlyIf_neg h, if_neg h, hold]
    rfl

theorem taskListRemove_run (s : TaskState) {b : Nat} (hlt : s.machine.word b 14 < 4294967296)
    (hp : s.machine.word b 15 = 0 ∨
      ∃ c, s.machine.word b 15 = blockAddr c ∧ c < heapBlocks ∧ c ≠ b) (hb : b < heapBlocks) :
    ∃ m', taskListRemove (blockAddr b) s
        = .ok ((), s.removed m' (blockAddr b) (s.machine.word b 15) (s.machine.word b 14)) ∧
      Unlinked (s.machine.word b 15) (s.machine.word b 14) s.machine m' := by
  have hr15 : onMachine (readWord (blockAddr b) TaskField.prev) s
      = .ok (s.machine.word b 15, s) := onMachine_ok (readField s.machine b 15)
  obtain ⟨m', hrun, hun, h14, h15⟩ := taskUnlink_run s hlt hp hb
  generalize hprev : s.machine.word b 15 = prev at *
  generalize hnext : s.machine.word b 14 = next at *
  -- the three states behind the first statement, each with one more pointer set
  obtain ⟨s1, hs1⟩ : ∃ s1 : TaskState, s1 = { s with machine := m' } := ⟨_, rfl⟩
  obtain ⟨s2, hs2⟩ : ∃ s2 : TaskState, s2 = { s1 with
    taskHead := if blockAddr b = s1.taskHead then next else s1.taskHead } := ⟨_, rfl⟩
  obtain ⟨s3, hs3⟩ : ∃ s3 : TaskState, s3 = { s2 with
    taskTail := if blockAddr b = s1.taskTail then prev else s1.taskTail } := ⟨_, rfl⟩
  have hread : ∀ t : TaskState, t.machine = m' →
      onMachine (readWord (blockAddr b) TaskField.next) t = .ok (next, t) ∧
        onMachine (readWord (blockAddr b) TaskField.prev) t = .ok (prev, t) := by
    intro t ht
    rw [← h14, ← h15, ← ht]
    exact ⟨onMachine_ok (readField t.machine b 14), onMachine_ok (readField t.machine b 15)⟩
  have hhead : onlyIf (blockAddr b = s1.taskHead) (do
      let next ← onMachine (readWord (blockAddr b) TaskField.next)
      modify (fun s => { s with taskHead := next })) s1 = .ok ((), s2) := by
    rw [hs2]
    exact onlyIf_modify (f := fun v s => { s with taskHead := v }) rfl
      (fun _ => (hread s1 (by rw [hs1])).1)
  have htail : onlyIf (blockAddr b = s1.taskTail) (do
      let prev ← onMachine (readWord (blockAddr b) TaskField.prev)
      modify (fun s => { s with taskTail := prev })) s2 = .ok ((), s3) := by
    rw [hs3]
    exact onlyIf_modify (f := fun v s => { s with taskTail := v }) (by rw [hs2])
      (fun _ => (hread s2 (by rw [hs2, hs1])).2)
  have hcur : onlyIf (blockAddr b = s1.currentTask) (do
      let next ← taskGetNext
      modify (fun s => { s with currentTask := next })) s3
        = .ok ((), { s3 with
            currentTask :=
              if blockAddr b = s1.currentTask then afterRemoval s2.taskHead next
              else s1.currentTask }) := by
    refine onlyIf_modify (f := fun v s => { s with currentTask := v }) (by rw [hs3, hs2])
      (fun e => ?_)
    have hget := taskGetNext_run s3 (b := b) (by rw [hs3, hs2]; exact e.symm)
    rw [show s3.machine = m' by rw [hs3, hs2, hs1], h14] at hget
    rw [hget, hs3]
  refine ⟨m', ?_, hun⟩
  unfold taskListRemove
  rw [bind_ok hr15, bind_ok hrun, ← hs1, bind_ok (get_run _), bind_ok hhead, bind_ok htail]
  refine hcur.trans ?_
  rw [hs3, hs2, hs1]
  rfl

/-- **`task_free` of a task that owns its blocks.** -/
theorem taskFree_run (s : TaskState) {b : Nat} {space : Space} {L : List Run} {f : Nat}
    (hh : s.machine.Holds (space.runs ++ oneBlock b :: L)) (hr : space.Rooted s.machine f)
    (hf : f < 4096) (hd : s.machine.word b 0 = blockAddr space.chunk)
    (hlt : s.machine.word b 14 < 4294967296)
    (hp : s.machine.word b 15 = 0 ∨
      ∃ c, s.machine.word b 15 = blockAddr c ∧ c < heapBlocks ∧ c ≠ b) :
    ∃ m', taskFree (blockAddr b) s
        = .ok (0, s.removed m' (blockAddr b) (s.machine.word b 15) (s.machine.word b 14)) ∧
      m'.Holds L ∧
      (∃ m1, m1.mem = s.machine.mem ∧
        ∃ m2, Unlinked (s.machine.word b 15) (s.machine.word b 14) m1 m2 ∧ m'.mem = m2.mem) ∧
      freeBlocks m'.heap.table = freeBlocks s.machine.heap.table + 1027 := by
  have hb : b < heapBlocks := hh.block_lt (List.mem_append_right _ List.mem_cons_self)
  obtain ⟨m1, hfree, hh1, hmem1, hcount1⟩ := pagingFree4gb_run hr hf hh
  have hw : ∀ j, m1.word b j = s.machine.word b j := fun j => by
    unfold Machine.word
    rw [hmem1]
  obtain ⟨m2, hrem, hun⟩ := taskListRemove_run { s with machine := m1 } (b := b)
    (by rw [hw]; exact hlt) (by rw [hw]; exact hp) hb
  simp only [hw] at hrem hun
  obtain ⟨m3, hkf, hh3, hmem3, hcount3⟩ := kfree_block (hh1.congr hun.heap)
  have hread : onMachine (readWord (blockAddr b) TaskField.pageDirectory) s
      = .ok (blockAddr space.chunk, s) := by
    rw [← hd]
    exact onMachine_ok (readField s.machine b 0)
  have hkf' : onMachine (kfree (blockAddr b))
      (s.removed m2 (blockAddr b) (s.machine.word b 15) (s.machine.word b 14))
        = .ok ((), s.removed m3 (blockAddr b) (s.machine.word b 15) (s.machine.word b 14)) :=
    onMachine_ok hkf
  refine ⟨m3, ?_, hh3, ⟨m1, hmem1, m2, hun, hmem3⟩, ?_⟩
  · unfold taskFree
    rw [bind_ok hread, bind_ok (onMachine_ok hfree), bind_ok hrem]
    exact bind_ok hkf'
  · rw [hun.heap] at hcount3
    omega

/-! ## the end of the list -/

/-- words of the structs that a write to word 14 of another struct leaves -/
theorem Wrote.keeps {m m' : Machine} {c v b j : Nat} (w : Wrote c 14 v m m') (hb : b < heapBlocks)
    (hj : j < 1024) (h : b ≠ c ∨ j ≠ 14) : m'.word b j = m.word b j := by
  by_cases e : b = c
  · subst e
    exact w.other j hj (h.resolve_left (fun h => h rfl))
  · exact w.frame.block hb hj e

/-- the task of block `b` is put behind that of block `c`: the `next` of the one and the `prev` of the
other are written, and no other word -/
structure PutBehind (c b : Nat) (m m' : Machine) : Prop where
  heap : m'.heap = m.heap
  frame : Frame (fun x => x = b ∨ x = c) m m'
  next : m'.word c 14 = blockAddr b
  prev : m'.word b 15 = blockAddr c
  old : ∀ x < heapBlocks, x ≠ b → ∀ j < 1024, x ≠ c ∨ j ≠ 14 → m'.word x j = m.word x j
  new : ∀ j < 1024, j ≠ 15 → m'.word b j = m.word b j

/-- the two tasks lie in none of the blocks of a space -/
theorem PutBehind.avoids {space : Space} {b c : Nat} (hb : b ∉ space.blocks)
    (hc : c ∉ space.blocks) : ∀ x ∈ space.blocks, ¬ (x = b ∨ x = c) := by
  rintro x hx (rfl | rfl)
  · exact hb hx
  · exact hc hx

theorem taskAppend_first (s : TaskState) (task : Nat) (hhead : s.taskHead = 0) :
    taskAppend task s = .ok ((), ⟨s.machine, task, task, task⟩) := by
  unfold taskAppend
  rw [bind_ok (get_run _), if_pos hhead]
  rfl

theorem taskAppend_behind (s : TaskState) {b c : Nat} (hb : b < heapBlocks) (hc : c < heapBlocks)
    (hne : c ≠ b) (hhead : s.taskHead ≠ 0) (htail : s.taskTail = blockAddr c) : ∃ m',
      taskAppend (blockAddr b) s = .ok ((), ⟨m', s.taskHead, blockAddr b, s.currentTask⟩) ∧
      PutBehind c b s.machine m' := by
  obtain ⟨m1, hw1, w1⟩ := writeWord_block s.machine (j := 14) hc (by decide) (blockAddr_word_lt hb.le)
  obtain ⟨m2, hw2, w2⟩ := writeWord_block m1 (j := 15) hb (by decide) (blockAddr_word_lt hc.le)
  rw [← htail] at hw1 hw2
  refine ⟨m2, ?_, w2.heap.trans w1.heap, ?_, ?_, w2.word, ?_, ?_⟩
  · have h1 : onMachine (writeWord s.taskTail TaskField.next (blockAddr b)) s
        = .ok ((), { s with machine := m1 }) := onMachine_ok hw1
    have h2 : onMachine (writeWord (blockAddr b) TaskField.prev s.taskTail) { s with machine := m1 }
        = .ok ((), { s with machine := m2 }) := onMachine_ok hw2
    unfold taskAppend
    rw [bind_ok (get_run _), if_neg hhead, bind_ok h1, bind_ok h2]
    rfl
  · exact (w1.frame.mono (fun x hx => Or.inr hx)).trans (w2.frame.mono (fun x hx => Or.inl hx))
  · exact (w2.frame.block hc (by decide) hne).trans w1.word
  · intro x hx hxb j hj hor
    exact (w2.frame.block hx hj hxb).trans (w1.keeps hx hj hor)
  · intro j hj hj15
    exact (w2.other j hj hj15).trans (w1.keeps hb hj (Or.inl hne.symm))

/-! ## `task_new` -/

section
variable {L : List Run} {process : Nat}

/-- an allocation is no block of the new task -/
theorem new_apart {space : Space} {b x : Nat} {m : Machine} {r : Run}
    (h : m.Holds (space.runs ++ oneBlock b :: L)) (hr : r ∈ L) (hx : r.Mem x) :
    ¬ (x = b ∨ x ∈ space.blocks) := by
  rintro (rfl | hs)
  · have hsep := (List.pairwise_append.mp h.tiled.separate).2.1
    exact (List.pairwise_cons.mp hsep).1 r hr x ⟨le_refl x, Nat.lt_succ_self x⟩ hx
  · exact Space.not_mem_run h (List.mem_cons_of_mem _ hr) hx hs

/-- `task_new` up to the list: the struct and the space of the new task are made -/
theorem taskNew_made (s : TaskState) (h : s.machine.Holds L) (hp : process < 4294967296)
    (hfree : 1027 ≤ freeBlocks s.machine.heap.table) : ∃ (b : Nat) (space : Space) (m : Machine),
      taskNew process s
        = (taskAppend (blockAddr b) >>= fun _ => pure (blockAddr b)) { s with machine := m } ∧
      FirstWindow s.machine.heap.table 1 b ∧ m.Holds (space.runs ++ oneBlock b :: L) ∧
      space.Maps m 7 (fun v => v * 4096 + 5) ∧
      Frame (fun x => x = b ∨ x ∈ space.blocks) s.machine m ∧ TaskWords m b space.chunk process ∧
      freeBlocks s.machine.heap.table = freeBlocks m.heap.table + 1027 := by
  obtain ⟨b, ⟨hwin, hleast⟩, hk⟩ := kzalloc_block h (by decide : 1 ≤ taskSize) (by decide) (by omega)
  have hb := (h.fresh hwin).1
  set m1 := s.machine.alloc ⟨b, 1⟩ taskSize with hm1
  have hh1 : m1.Holds (oneBlock b :: L) := h.alloc (le_refl 1) hwin _
  have hfr1 : Frame (fun x => x = b) s.machine m1 :=
    alloc_frame s.machine hb (by decide) (by decide)
  have hfree1 : freeBlocks s.machine.heap.table = freeBlocks m1.heap.table + 1 :=
    freeBlocks_mark hwin
  obtain ⟨space, m2, hinit, hh2, hmaps, hfr2, hwords, hfree2⟩ :=
    taskInit_run hh1 hp (by omega)
  have hinit' : onMachine (taskInit (blockAddr b) process) { s with machine := m1 }
      = .ok (0, { s with machine := m2 }) := onMachine_ok hinit
  refine ⟨b, space, m2, ?_, ⟨hwin, hleast⟩, hh2, hmaps,
    (hfr1.mono (fun x hx => Or.inl hx)).trans hfr2, hwords, by omega⟩
  unfold taskNew
  rw [bind_ok (onMachine_ok hk), if_neg blockAddr_ne, bind_ok hinit',
    if_neg (not_not.mpr rfl)]

/-- with fewer than 1027 free blocks `task_new` follows a null pointer -/
theorem taskNew_fault (s : TaskState) (h : s.machine.Holds L)
    (hfree : freeBlocks s.machine.heap.table < 1027) :
    taskNew process s = .error .nullPointer := by
  rcases Nat.eq_zero_or_pos (freeBlocks s.machine.heap.table) with h0 | hpos
  · have hk := kzalloc_full h (by decide : 1 ≤ taskSize) (by decide) h0
    have hnull : taskFree 0 s = .error .nullPointer := bind_error rfl
    unfold taskNew
    rw [bind_ok (onMachine_ok hk), if_pos rfl]
    exact bind_error hnull
  · obtain ⟨b, ⟨hwin, -⟩, hk⟩ := kzalloc_block h (by decide : 1 ≤ taskSize) (by decide) hpos
    have hh1 : (s.machine.alloc ⟨b, 1⟩ taskSize).Holds (oneBlock b :: L) :=
      h.alloc (le_refl 1) hwin _
    have hfree1 : freeBlocks s.machine.heap.table
        = freeBlocks (s.machine.alloc ⟨b, 1⟩ taskSize).heap.table + 1 := freeBlocks_mark hwin
    have hinit : onMachine (taskInit (blockAddr b) process)
        { s with machine := s.machine.alloc ⟨b, 1⟩ taskSize } = .error .nullPointer :=
      onMachine_error (taskInit_fault hh1 (blockAddr b) (by omega))
    unfold taskNew
    rw [bind_ok (onMachine_ok hk), if_neg blockAddr_ne, bind_error hinit]

end

end LameOS
