import LameOS.Fs.Mount
import LameOS.Isr80h.HandlerSpec
import LameOS.Lib.Turns
import LameOS.Task.ProcessSpec
import LameOS.Task.TaskRun

/-!
# Whose turn it is

* `taskTurn`, `taskTurns`   one `task_switch (task_get_next ())`, and several;
* `taskTurn_run`            a turn makes the next task of the list current and loads its directory;
* `taskTurns_run`           the turns follow the order of the list, and come round at its end;
* `taskFree_current`        a current task that is freed is followed by the next of the others;
* `round_robin`             **all of it, over a list of any length**.
-/

set_option linter.unusedVariables false

namespace LameOS
open Lib Lib.Exec

/-- a program over the tasks -/
def inTasks {α : Type} (x : Prog TaskState α) : Prog CallState α :=
  part CallState.kernel (fun k s => { s with kernel := k }) (onTasks x)

/-- `task_switch (task_get_next ())` -/
def taskTurn : Prog CallState Unit := do
  let next ← inTasks taskGetNext
  taskSwitch next

/-- `n` turns, and the task that is current after each -/
def taskTurns : Nat → Prog CallState (List Nat)
  | 0 => return []
  | n + 1 => do
    taskTurn
    let s ← get
    let rest ← taskTurns n
    return s.kernel.currentTask :: rest

/-- the tasks of the kernel are `live`, each with the blocks of its owner in `os` -/
abbrev LiveTasks (L : List Run) (s : CallState) (live : List Nat) (os : List Owner) : Prop :=
  Owned L ⟨s.kernel.taskState, live⟩ os

theorem inTasks_ok {α : Type} {x : Prog TaskState α} {s : CallState} {a : α} {t : TaskState}
    (h : x s.kernel.taskState = .ok (a, t)) : inTasks x s = .ok (a, { s with kernel := { s.kernel with
      machine := t.machine
      taskHead := t.taskHead
      taskTail := t.taskTail
      currentTask := t.currentTask } }) := part_ok (part_ok h)

section
variable {L : List Run} {s : CallState} {live : List Nat} {os : List Owner}

/-- the owners before a live task, its own, and those behind it -/
theorem Owned.owner_split {s : TaskRunState} (h : Owned L s os) {t : Nat} (ht : t ∈ s.live) :
    ∃ l o r, os = l ++ o :: r ∧ t = blockAddr o.block ∧
      s.live = l.map (fun x => blockAddr x.block) ++ t :: r.map (fun x => blockAddr x.block) ∧
      t ∉ l.map (fun x => blockAddr x.block) ∧ t ∉ r.map (fun x => blockAddr x.block) := by
  have hlive : s.live = os.map (fun x => blockAddr x.block) := by
    rw [h.live, List.map_map]
    rfl
  rw [hlive] at ht
  obtain ⟨o, ho, rfl⟩ := List.mem_map.mp ht
  obtain ⟨l, r, rfl⟩ := List.append_of_mem ho
  have hn := h.ok.distinct
  rw [hlive, List.map_append, List.map_cons] at hn
  obtain ⟨-, hr, hapart⟩ := List.nodup_append.mp hn
  refine ⟨l, o, r, rfl, rfl, ?_, fun hin => hapart _ hin _ List.mem_cons_self rfl,
    (List.nodup_cons.mp hr).1⟩
  rw [hlive, List.map_append, List.map_cons]

/-! ## turns -/

theorem afterRemoval_last (head : Nat) : afterRemoval head 0 = head := if_pos rfl

/-- the successor of a task in the list, and the first task behind the last one -/
theorem successor_eq (l r : List Owner) (o : Owner) :
    afterRemoval (firstOr 0 ((l ++ o :: r).map Owner.block)) (firstOr 0 (r.map Owner.block))
      = ((r ++ l ++ [o]).map (fun x => blockAddr x.block)).headD 0 := by
  cases r with
  | cons x r => exact if_neg blockAddr_ne
  | nil =>
    cases l with
    | nil => rfl
    | cons y l => rfl

/-- another task of the list is current -/
theorem LiveTasks.switch (h : LiveTasks L s live os) {c : Nat} (hc : c ∈ live) (d : Nat) :
    LiveTasks L { s with kernel := { s.kernel with currentTask := c }, directory := d } live os where
  live := h.live
  holds := h.holds
  rooted := h.rooted
  directory := h.directory
  linked := h.linked
  head := h.head
  tail := h.tail
  current := by
    refine ⟨Or.inr hc, fun h0 => ?_⟩
    obtain ⟨l, o, r, -, ht, -⟩ := h.owner_split hc
    exact absurd (ht.symm.trans h0) blockAddr_ne

/-- `task_switch` loads the directory of the task's space -/
theorem taskSwitch_run (h : LiveTasks L s live os) {o : Owner} (ho : o ∈ os) :
    taskSwitch (blockAddr o.block) s = .ok ((), { s with
      kernel := { s.kernel with currentTask := blockAddr o.block }
      directory := blockAddr o.space.directory }) := by
  obtain ⟨s1, hs1⟩ : ∃ s1 : CallState,
      s1 = { s with kernel := { s.kernel with currentTask := blockAddr o.block } } := ⟨_, rfl⟩
  have hmachine : s1.kernel.machine = s.kernel.machine := by rw [hs1]
  have htask : inCall (readWord (blockAddr o.block) TaskField.pageDirectory) s1
      = .ok (blockAddr o.space.chunk, s1) := by
    have hd : s.kernel.machine.mem.load (blockAddr o.block + TaskField.pageDirectory)
        = blockAddr o.space.chunk := h.directory o ho
    refine inCall_same ?_
    rw [readWord_ok _ blockAddr_ne, hmachine, hd]
  have hchunk : inCall (readWord (blockAddr o.space.chunk) 0) s1
      = .ok (blockAddr o.space.directory, s1) := by
    have hd : s.kernel.machine.mem.load (blockAddr o.space.chunk) = blockAddr o.space.directory :=
      (h.rooted o ho).chunk
    refine inCall_same ?_
    rw [readWord_ok _ blockAddr_ne, Nat.add_zero, hmachine, hd]
  unfold taskSwitch pagingSwitch
  rw [bind_ok (modify_run _ s), ← hs1, bind_ok htask, bind_ok hchunk, hs1]
  rfl

/-- **One turn**: the next task of the list is current and its directory is loaded; the list stays -/
theorem taskTurn_run (h : LiveTasks L s live os) (hcur : s.kernel.currentTask ∈ live) {c : Nat}
    {q : List Nat} (hturn : turns live s.kernel.currentTask = c :: q) : ∃ d,
      taskTurn s = .ok ((), { s with kernel := { s.kernel with currentTask := c }, directory := d }) ∧
      c ∈ live := by
  obtain ⟨l, o, r, hos, ht, hlive, hnot, -⟩ := h.owner_split hcur
  have hmap : os.map Owner.block = l.map Owner.block ++ o.block :: r.map Owner.block := by
    rw [hos, List.map_append, List.map_cons]
  have hnext : s.kernel.machine.word o.block 14 = firstOr 0 (r.map Owner.block) := (h.links hmap).2
  have hget : taskGetNext s.kernel.taskState
      = .ok (((r ++ l ++ [o]).map (fun x => blockAddr x.block)).headD 0, s.kernel.taskState) := by
    rw [taskGetNext_run s.kernel.taskState ht, ← successor_eq, ← hos]
    show Except.ok (afterRemoval s.kernel.taskHead (s.kernel.machine.word o.block 14), _) = _
    rw [hnext]
    rw [show s.kernel.taskHead = _ from h.head]
  have hc : (r ++ l ++ [o]).map (fun x => blockAddr x.block) = c :: q := by
    rw [← hturn]
    show _ = turns live _
    rw [show live = _ from hlive, turns_split hnot, ht]
    rw [List.map_append, List.map_append]
    rfl
  have hmem : c ∈ (r ++ l ++ [o]).map (fun x => blockAddr x.block) := hc ▸ List.mem_cons_self
  obtain ⟨x, hx, rfl⟩ := List.mem_map.mp hmem
  have hxo : x ∈ os := by
    rw [hos]
    simp only [List.mem_append, List.mem_cons, List.not_mem_nil, or_false] at hx ⊢
    tauto
  have hrun := inTasks_ok hget
  rw [hc] at hrun
  refine ⟨blockAddr x.space.directory, ?_, h.live_of_block (List.mem_map_of_mem hxo)⟩
  unfold taskTurn
  rw [bind_ok hrun]
  exact taskSwitch_run h hxo

/-- **Several turns** follow the order of the list, behind the current task -/
theorem taskTurns_run (xs : List Nat) : ∀ {s : CallState} (ys : List Nat), LiveTasks L s live os →
    s.kernel.currentTask ∈ live → turns live s.kernel.currentTask = xs ++ ys →
      Does (taskTurns xs.length) s (fun cs s' => cs = xs ∧ LiveTasks L s' live os ∧
        s'.kernel.currentTask ∈ live ∧ turns live s'.kernel.currentTask = ys ++ xs) := by
  induction xs with
  | nil =>
    intro s ys h hcur hturns
    refine Does.pure ⟨rfl, h, hcur, ?_⟩
    rw [List.append_nil]
    exact hturns
  | cons c xs ih =>
    intro s ys h hcur hturns
    obtain ⟨d, hrun, hc⟩ := taskTurn_run h hcur hturns
    -- the turns after that of `c`
    have hfirst : turns live s.kernel.currentTask = c :: (xs ++ ys) := hturns
    have hnext : turns live c = xs ++ (ys ++ [c]) := by
      rw [turns_next h.ok.distinct hcur hfirst, List.append_assoc]
    obtain ⟨cs, s', hrest, rfl, h', hcur', hturns'⟩ := ih (ys ++ [c]) (h.switch hc d) hc hnext
    refine ⟨c :: cs, s', ?_, rfl, h', hcur', ?_⟩
    · show (taskTurn >>= fun _ => get >>= fun t => taskTurns cs.length >>= fun rest =>
        pure (t.kernel.currentTask :: rest)) s = _
      rw [bind_ok hrun, bind_ok (get_run _), bind_ok hrest]
      rfl
    · rw [hturns', List.append_assoc]
      rfl

/-! ## the end of the current task -/

/-- the successor of a task that is freed is the next one of the others -/
theorem freed_successor_eq {t head : Nat} (l r : List Owner)
    (hhead : head = firstOr t (l.map Owner.block)) (hnot : t ∉ l.map (fun x => blockAddr x.block)) :
    afterRemoval (if t = head then firstOr 0 (r.map Owner.block) else head)
        (firstOr 0 (r.map Owner.block))
      = ((r ++ l).map (fun x => blockAddr x.block)).headD 0 := by
  cases r with
  | cons x r => exact if_neg blockAddr_ne
  | nil =>
    cases l with
    | nil =>
      rw [hhead]
      show afterRemoval (if t = t then 0 else t) 0 = 0
      rw [if_pos rfl, afterRemoval_last]
    | cons y l =>
      have hne : t ≠ head := by
        rw [hhead]
        exact fun e => hnot (e ▸ List.mem_cons_self)
      show afterRemoval (if t = head then 0 else head) 0 = blockAddr y.block
      rw [if_neg hne, afterRemoval_last, hhead]
      rfl

/-- **The current task is freed**: the one whose turn is next among the others follows, or none -/
theorem taskFree_current (h : LiveTasks L s live os) (hcur : s.kernel.currentTask ∈ live) :
    Does (inTasks (taskFree s.kernel.currentTask)) s (fun r s' => s'.kernel.currentTask
      = ((turns live s.kernel.currentTask).erase s.kernel.currentTask).headD 0) := by
  obtain ⟨l, o, r, hos, ht, hlive, hl, hr⟩ := h.owner_split hcur
  obtain ⟨m', hstep, -⟩ := taskStep_free_run h hos
  rw [← show s.kernel.currentTask = _ from ht] at hstep
  have hfree : ∃ a t, taskFree s.kernel.currentTask s.kernel.taskState = .ok (a, t) ∧
      t = s.kernel.taskState.removed m' s.kernel.currentTask (lastOr 0 (l.map Owner.block))
        (firstOr 0 (r.map Owner.block)) := by
    cases hrun : taskFree s.kernel.currentTask s.kernel.taskState with
    | error e =>
      simp only [taskStep, hrun] at hstep
      cases hstep
    | ok p =>
      simp only [taskStep, hrun] at hstep
      exact ⟨p.1, p.2, rfl, congrArg TaskRunState.tasks (Except.ok.inj hstep)⟩
  obtain ⟨a, t, hrun, rfl⟩ := hfree
  refine ⟨a, _, inTasks_ok hrun, ?_⟩
  have hhead : s.kernel.taskHead = firstOr s.kernel.currentTask (l.map Owner.block) := by
    rw [show s.kernel.taskHead = _ from h.head, hos, List.map_append, List.map_cons]
    rw [show s.kernel.currentTask = _ from ht]
    exact List.recOn l rfl (fun _ _ _ => rfl)
  rw [show live = _ from hlive, turns_erase hl hr, ← List.map_append, ← freed_successor_eq l r hhead hl]
  exact if_pos rfl

/-- **Round robin.**  In a list of tasks of any length, as many turns as there are tasks make each of
them current once and come back to the one they started from; and when the current task is freed the
next one of the others is current, or `NULL`. -/
theorem round_robin (h : LiveTasks L s live os) (hne : live ≠ []) :
    Does (taskTurns live.length) s (fun cs s' => cs = turns live s.kernel.currentTask ∧
      (∀ t ∈ live, cs.count t = 1) ∧ (∀ t ∈ cs, t ∈ live) ∧
      s'.kernel.currentTask = s.kernel.currentTask ∧ LiveTasks L s' live os) ∧
    Does (inTasks (taskFree s.kernel.currentTask)) s (fun r s' => s'.kernel.currentTask
      = ((turns live s.kernel.currentTask).erase s.kernel.currentTask).headD 0) := by
  have hcur : s.kernel.currentTask ∈ live := h.ok.current.1 hne
  refine ⟨?_, taskFree_current h hcur⟩
  have hlength : (turns live s.kernel.currentTask).length = live.length := (turns_perm live _).length_eq
  obtain ⟨cs, s', hrun, rfl, h', hcur', hturns⟩ := taskTurns_run (turns live s.kernel.currentTask) []
    h hcur (List.append_nil _).symm
  rw [hlength] at hrun
  refine ⟨_, s', hrun, rfl, fun t ht => turns_count h.ok.distinct ht,
    fun t ht => (turns_perm live _).mem_iff.mp ht, ?_, h'⟩
  -- the last turn is that of the first task
  have hlast := turns_getLastD hcur' 0
  rw [hturns, List.nil_append, turns_getLastD hcur] at hlast
  exact hlast.symm

end

/-- the processor and the screen beside a list of tasks -/
def withTasks (t : TaskState) : CallState where
  kernel :=
    { machine := t.machine
      taskHead := t.taskHead
      taskTail := t.taskTail
      currentTask := t.currentTask
      volume := none
      files := fun _ => none
      processes := fun _ => 0
      accesses := [] }
  kernelChunk := 0
  directory := 0
  segments := fun _ => 0x10
  isr80hCommands := fun _ => none
  terminal := ⟨0, 0, fun _ => 0⟩

/-- two tasks on an empty heap -/
theorem round_robin_two : ∃ (s : CallState) (live : List Nat), live.length = 2 ∧
    Does (taskTurns 2) s (fun cs s' => cs = turns live s.kernel.currentTask ∧
      (∀ t ∈ live, cs.count t = 1) ∧ s'.kernel.currentTask = s.kernel.currentTask) := by
  have hprocess : (0 : Nat) < 4294967296 := by decide
  obtain ⟨s1, hstep1, os1, h1⟩ := taskStep_new_ok (noTasks_owned emptyMachine_holds) hprocess
    (le_trans (show 1027 ≤ heapBlocks by decide) emptyMachine_blocks)
  have hlive1 : s1.live = [0x1000000] := first_task_live (by decide) hstep1
  obtain ⟨o, rfl⟩ : ∃ o, os1 = [o] := by
    have hlength := congrArg List.length h1.live
    rw [hlive1, List.length_map, List.length_map] at hlength
    exact List.length_eq_one_iff.mp hlength.symm
  have hfree := freeBlocks_single h1.holds (by
    intro r hr
    rw [List.append_nil] at hr
    obtain ⟨b, -, rfl⟩ := List.mem_map.mp hr
    rfl)
  rw [List.append_nil, List.length_map, List.flatMap_singleton] at hfree
  have hblocks : o.blocks.length = 1027 := by
    unfold Owner.blocks Space.blocks
    rw [List.length_append, List.length_cons, List.length_cons, o.space.length]
    rfl
  obtain ⟨s2, hstep2, os2, h2⟩ := taskStep_new_ok h1 hprocess
    (by rw [hblocks] at hfree; dsimp only [heapBlocks] at hfree; omega)
  obtain ⟨b, -, hlive2⟩ := taskStep_new_first h1 (by decide) hstep2
  have hlength : s2.live.length = 2 := by
    rw [hlive2, hlive1]
    rfl
  have hall : LiveTasks [] (withTasks s2.tasks) s2.live os2 := h2
  have hturns := (round_robin hall (by rw [hlive2]; exact List.concat_ne_nil _ _)).1
  rw [hlength] at hturns
  exact ⟨withTasks s2.tasks, s2.live, hlength,
    hturns.mono (fun cs s' h => ⟨h.1, h.2.1, h.2.2.2.1⟩)⟩

end LameOS
