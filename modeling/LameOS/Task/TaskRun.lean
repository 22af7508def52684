import LameOS.Task.TaskSpec
import LameOS.Lib.Run

/-!
# Runs of `task_new` and `task_free`

* `TaskListOk`   the list of a state: its nodes are the live tasks in the order of their creation,
                 linked both ways, and no pointer leads elsewhere;
* `TaskOwned`    the invariant that carries it: every live task owns its struct and its space;
* `TaskOpOk`     the condition on one call: `task_new` finds 1027 free blocks, `task_free` is
                 called with the last task of the list;
* `task_run_iff` a run is good in every state exactly when its calls meet `TaskOpOk`.
-/

set_option linter.unusedVariables false

namespace LameOS
open Lib Lib.Exec

/-! ## the property -/

/-- the tasks, and those that have been created and not freed, in the order of their creation -/
structure TaskRunState where
  tasks : TaskState
  live : List Nat

inductive TaskOp where
  | new (process : Nat)
  | free (task : Nat)

def taskStep (s : TaskRunState) : TaskOp → Except Fault TaskRunState
  | .new process => do
    let (p, t) ← taskNew process s.tasks
    return { tasks := t, live := if isErr p then s.live else s.live ++ [p] }
  | .free task => do
    let (_, t) ← taskFree task s.tasks
    return { tasks := t, live := s.live.erase task }

/-- `task->next` -/
def taskNext (s : TaskRunState) (task : Nat) : Nat := s.tasks.machine.mem.load (task + TaskField.next)

/-- `task->prev` -/
def taskPrev (s : TaskRunState) (task : Nat) : Nat := s.tasks.machine.mem.load (task + TaskField.prev)

/-- the nodes reached from `p` by `next` are exactly those of the list -/
def Reached (next : Nat → Nat) : Nat → List Nat → Prop
  | p, [] => p = 0
  | p, t :: ts => p = t ∧ t ≠ 0 ∧ Reached next (next t) ts

/-- `NULL` or a live task -/
def NullOrLive (s : TaskRunState) (p : Nat) : Prop := p = 0 ∨ p ∈ s.live

structure TaskListOk (s : TaskRunState) : Prop where
  reached : Reached (taskNext s) s.tasks.taskHead s.live
  distinct : s.live.Nodup
  headPrev : s.live ≠ [] → taskPrev s s.tasks.taskHead = 0
  tail : s.tasks.taskTail = s.live.getLastD 0
  back : ∀ n ∈ s.live, taskNext s n ≠ 0 → taskPrev s (taskNext s n) = n
  closed : ∀ n ∈ s.live, NullOrLive s (taskNext s n) ∧ NullOrLive s (taskPrev s n)
  pointers : NullOrLive s s.tasks.taskHead ∧ NullOrLive s s.tasks.taskTail ∧
    NullOrLive s s.tasks.currentTask
  current : (s.live ≠ [] → s.tasks.currentTask ∈ s.live) ∧
    (s.live = [] → s.tasks.currentTask = 0)

/-- the calls of a run -/
def TaskLegal (s : TaskRunState) : TaskOp → Prop
  | .new process => process < 4294967296
  | .free task => task ∈ s.live

/-- what a call needs -/
def TaskOpOk (s : TaskRunState) : TaskOp → Prop
  | .new _ => 1027 ≤ freeBlocks s.tasks.machine.heap.table
  | .free task => task = s.tasks.taskTail

/-! ## linked blocks -/

/-- the address of the first block, `e` if there is none -/
def firstOr (e : Nat) : List Nat → Nat
  | [] => e
  | b :: _ => blockAddr b

/-- the address of the last block, `p` if there is none -/
def lastOr : Nat → List Nat → Nat
  | p, [] => p
  | _, b :: bs => lastOr (blockAddr b) bs

/-- the structs of the blocks are linked both ways, between `p` and `e` -/
def Linked (m : Machine) : Nat → List Nat → Nat → Prop
  | _, [], _ => True
  | p, b :: bs, e => m.word b 15 = p ∧ m.word b 14 = firstOr e bs ∧ Linked m (blockAddr b) bs e

theorem lastOr_append (p : Nat) (bs : List Nat) (b : Nat) : lastOr p (bs ++ [b]) = blockAddr b := by
  induction bs generalizing p with
  | nil => rfl
  | cons c bs ih => exact ih (blockAddr c)

theorem firstOr_append (e : Nat) (bs : List Nat) (b : Nat) :
    firstOr e (bs ++ [b]) = firstOr (blockAddr b) bs := by
  cases bs <;> rfl

section
variable {m m' : Machine}

/-- the last block is linked to those before it -/
theorem linked_append (p : Nat) (bs : List Nat) (b e : Nat) : Linked m p (bs ++ [b]) e ↔
    Linked m p bs (blockAddr b) ∧ m.word b 15 = lastOr p bs ∧ m.word b 14 = e := by
  induction bs generalizing p with
  | nil => simp [Linked, lastOr, firstOr]
  | cons c bs ih =>
    rw [List.cons_append]
    unfold Linked
    rw [ih, firstOr_append]
    simp only [lastOr, and_assoc]

theorem Linked.congr {p e : Nat} {bs : List Nat} (h : Linked m p bs e)
    (h15 : ∀ b ∈ bs, m'.word b 15 = m.word b 15) (h14 : ∀ b ∈ bs, m'.word b 14 = m.word b 14) :
    Linked m' p bs e := by
  induction bs generalizing p with
  | nil => trivial
  | cons b bs ih =>
    obtain ⟨h1, h2, h3⟩ := h
    refine ⟨?_, ?_, ih h3 (fun x hx => h15 x (List.mem_cons_of_mem _ hx))
      (fun x hx => h14 x (List.mem_cons_of_mem _ hx))⟩
    · rw [h15 b List.mem_cons_self, h1]
    · rw [h14 b List.mem_cons_self, h2]

/-- the block behind a split -/
theorem Linked.at {p e : Nat} {bs cs : List Nat} {b : Nat} (h : Linked m p (bs ++ b :: cs) e) :
    m.word b 15 = lastOr p bs ∧ m.word b 14 = firstOr e cs := by
  induction bs generalizing p with
  | nil => exact ⟨h.1, h.2.1⟩
  | cons c bs ih => exact ih h.2.2

/-- the last block, if there is one, with another successor -/
theorem Linked.relink {p e e' : Nat} {bs : List Nat} (h : Linked m p bs e) (hn : bs.Nodup)
    (h15 : ∀ b ∈ bs, m'.word b 15 = m.word b 15)
    (h14 : ∀ b ∈ bs, lastOr p bs ≠ blockAddr b → m'.word b 14 = m.word b 14)
    (hlast : ∀ c, lastOr p bs = blockAddr c → m'.word c 14 = e') : Linked m' p bs e' := by
  rcases List.eq_nil_or_concat bs with rfl | ⟨bs', c, e⟩
  · trivial
  rw [List.concat_eq_append] at e
  subst e
  rw [lastOr_append] at h14 hlast
  have hc : c ∈ bs' ++ [c] := List.mem_append_right _ (List.mem_singleton_self _)
  obtain ⟨hl, hprev, -⟩ := (linked_append p bs' c e).mp h
  refine (linked_append p bs' c e').mpr ⟨hl.congr (fun b hb => ?_) (fun b hb => ?_), ?_, hlast c rfl⟩
  · exact h15 b (List.mem_append_left _ hb)
  · refine h14 b (List.mem_append_left _ hb) (fun heq => ?_)
    exact (List.nodup_append.mp hn).2.2 b hb c (List.mem_singleton_self _) (blockAddr_inj heq).symm
  · rw [h15 c hc, hprev]

theorem Linked.reached {next : Nat → Nat} {p : Nat} {bs : List Nat} (h : Linked m p bs 0)
    (hnext : ∀ b ∈ bs, next (blockAddr b) = m.word b 14) :
    Reached next (firstOr 0 bs) (bs.map blockAddr) := by
  induction bs generalizing p with
  | nil => rfl
  | cons b bs ih =>
    refine ⟨rfl, blockAddr_ne, ?_⟩
    rw [hnext b List.mem_cons_self, h.2.1]
    exact ih h.2.2 (fun x hx => hnext x (List.mem_cons_of_mem _ hx))

end

theorem firstOr_ne {e : Nat} {bs : List Nat} (h : e ≠ 0) : firstOr e bs ≠ 0 := by
  cases bs with
  | nil => exact h
  | cons b bs => exact blockAddr_ne

theorem isErr_block {b : Nat} (hb : b < heapBlocks) : isErr (blockAddr b) = false := by
  have := blockAddr_lt hb
  unfold isErr
  rw [cint_nat (by omega)]
  exact decide_eq_false (by omega)

theorem firstOr_mem {bs : List Nat} (h : bs ≠ []) : ∃ b ∈ bs, firstOr 0 bs = blockAddr b := by
  cases bs with
  | nil => exact absurd rfl h
  | cons b bs => exact ⟨b, List.mem_cons_self, rfl⟩

theorem lastOr_mem {bs : List Nat} (h : bs ≠ []) : ∃ b ∈ bs, lastOr 0 bs = blockAddr b := by
  rcases List.eq_nil_or_concat bs with rfl | ⟨bs', b, rfl⟩
  · exact absurd rfl h
  · rw [List.concat_eq_append, lastOr_append]
    exact ⟨b, by simp, rfl⟩

theorem lastOr_eq_getLastD (bs : List Nat) : lastOr 0 bs = (bs.map blockAddr).getLastD 0 := by
  rcases List.eq_nil_or_concat bs with rfl | ⟨bs', b, rfl⟩
  · rfl
  · rw [List.concat_eq_append, lastOr_append]
    simp

/-! ## the invariant -/

/-- the blocks of a live task: its struct and its space -/
structure Owner where
  block : Nat
  space : Space

def Owner.blocks (o : Owner) : List Nat := o.space.blocks ++ [o.block]

/-- the live tasks are those of `os`, each owns its blocks, and they are linked -/
structure Owned (L : List Run) (s : TaskRunState) (os : List Owner) : Prop where
  live : s.live = (os.map Owner.block).map blockAddr
  holds : s.tasks.machine.Holds ((os.flatMap Owner.blocks).map oneBlock ++ L)
  rooted : ∀ o ∈ os, o.space.Rooted s.tasks.machine 7
  directory : ∀ o ∈ os, s.tasks.machine.word o.block 0 = blockAddr o.space.chunk
  linked : Linked s.tasks.machine 0 (os.map Owner.block) 0
  head : s.tasks.taskHead = firstOr 0 (os.map Owner.block)
  tail : s.tasks.taskTail = lastOr 0 (os.map Owner.block)
  current : NullOrLive s s.tasks.currentTask ∧ (s.tasks.currentTask = 0 → s.live = [])

def TaskOwned (L : List Run) (s : TaskRunState) : Prop := ∃ os, Owned L s os

namespace Owned
variable {L : List Run} {s : TaskRunState} {os : List Owner}

theorem nodup (h : Owned L s os) : (os.flatMap Owner.blocks).Nodup :=
  (List.nodup_append.mp h.holds.tiled.nodup).1.of_map oneBlock

theorem block_lt (h : Owned L s os) {o : Owner} (ho : o ∈ os) : o.block < heapBlocks := by
  refine h.holds.block_lt (List.mem_append_left _ (List.mem_map_of_mem ?_))
  exact List.mem_flatMap.mpr ⟨o, ho, List.mem_append_right _ (List.mem_singleton_self _)⟩

theorem space_lt (h : Owned L s os) {o : Owner} (ho : o ∈ os) {b : Nat} (hb : b ∈ o.space.blocks) :
    b < heapBlocks := by
  refine h.holds.block_lt (List.mem_append_left _ (List.mem_map_of_mem ?_))
  exact List.mem_flatMap.mpr ⟨o, ho, List.mem_append_left _ hb⟩

/-- the struct of a task lies in no space -/
theorem not_mem_space (h : Owned L s os) {o o' : Owner} (ho : o ∈ os) (ho' : o' ∈ os) :
    o.block ∉ o'.space.blocks := by
  intro hin
  obtain ⟨h1, h2⟩ := List.nodup_flatMap.mp h.nodup
  by_cases e : o = o'
  · subst e
    exact (List.nodup_append.mp (h1 o ho)).2.2 _ hin _ (List.mem_singleton_self _) rfl
  · have hsymm : Std.Symm (Function.onFun List.Disjoint Owner.blocks) := ⟨fun _ _ h => h.symm⟩
    have hdis := List.Pairwise.forall h2 ho ho' e
    exact hdis (List.mem_append_right _ (List.mem_singleton_self _)) (List.mem_append_left _ hin)

theorem blocks_nodup (h : Owned L s os) : (os.map Owner.block).Nodup := by
  obtain ⟨h1, h2⟩ := List.nodup_flatMap.mp h.nodup
  refine List.pairwise_map.mpr (h2.imp (fun {a b} hab e => ?_))
  exact hab (List.mem_append_right _ (List.mem_singleton_self _))
    (by rw [e]; exact List.mem_append_right _ (List.mem_singleton_self _))

/-- no task, or the one that `task_tail` points to behind the others -/
theorem last (h : Owned L s os) : os = [] ∨ ∃ os' o, os = os' ++ [o] ∧
    os.map Owner.block = os'.map Owner.block ++ [o.block] ∧
    s.tasks.taskTail = blockAddr o.block ∧ ∀ x ∈ os', x.block ≠ o.block := by
  rcases List.eq_nil_or_concat os with e | ⟨os', o, e⟩
  · exact Or.inl e
  · rw [List.concat_eq_append] at e
    have hmap : os.map Owner.block = os'.map Owner.block ++ [o.block] := by
      rw [e, List.map_append]
      rfl
    have hn := h.blocks_nodup
    rw [hmap] at hn
    refine Or.inr ⟨os', o, e, hmap, ?_, fun x hx => ?_⟩
    · rw [h.tail, hmap]
      exact lastOr_append 0 _ o.block
    · exact (List.nodup_append.mp hn).2.2 _ (List.mem_map_of_mem hx) _ (List.mem_singleton_self _)

/-- the last of some tasks is a struct, no part of a space -/
theorem last_not_space (h : Owned L s os) {l : List Owner} (hl : ∀ x ∈ l, x ∈ os) {o : Owner}
    (ho : o ∈ os) {y : Nat} (hy : y ∈ o.space.blocks) :
    lastOr 0 (l.map Owner.block) ≠ blockAddr y := by
  intro hlast
  have hnil : l.map Owner.block ≠ [] := by
    intro e0
    rw [e0] at hlast
    exact blockAddr_ne hlast.symm
  obtain ⟨c, hc, hc'⟩ := lastOr_mem hnil
  obtain ⟨z, hz, rfl⟩ := List.mem_map.mp hc
  have e1 : z.block = y := blockAddr_inj (hc'.symm.trans hlast)
  exact h.not_mem_space (hl z hz) ho (e1 ▸ hy)

/-- the blocks of a task are none of those that have been allocated over them -/
theorem apart (h : Owned L s os) {b : Nat} {space : Space} {m : Machine}
    (hh : m.Holds (space.runs ++ oneBlock b :: ((os.flatMap Owner.blocks).map oneBlock ++ L)))
    {o : Owner} (ho : o ∈ os) {x : Nat} (hx : x ∈ o.blocks) : ¬ (x = b ∨ x ∈ space.blocks) := by
  have hL : oneBlock x ∈ (os.flatMap Owner.blocks).map oneBlock ++ L :=
    List.mem_append_left _ (List.mem_map_of_mem (List.mem_flatMap.mpr ⟨o, ho, hx⟩))
  exact new_apart hh hL ⟨le_refl x, Nat.lt_succ_self x⟩

theorem mem_live (h : Owned L s os) {n : Nat} (hn : n ∈ s.live) :
    ∃ l b r, os.map Owner.block = l ++ b :: r ∧ n = blockAddr b := by
  rw [h.live] at hn
  obtain ⟨b, hb, rfl⟩ := List.mem_map.mp hn
  obtain ⟨l, r, e⟩ := List.append_of_mem hb
  exact ⟨l, b, r, e, rfl⟩

theorem live_of_block (h : Owned L s os) {b : Nat} (hb : b ∈ os.map Owner.block) :
    blockAddr b ∈ s.live := by
  rw [h.live]
  exact List.mem_map_of_mem hb

theorem first_live (h : Owned L s os) {bs : List Nat} (hbs : ∀ b ∈ bs, b ∈ os.map Owner.block) :
    NullOrLive s (firstOr 0 bs) := by
  by_cases e : bs = []
  · exact Or.inl (by rw [e]; rfl)
  · obtain ⟨b, hb, hf⟩ := firstOr_mem e
    exact Or.inr (hf ▸ h.live_of_block (hbs b hb))

theorem last_live (h : Owned L s os) {bs : List Nat} (hbs : ∀ b ∈ bs, b ∈ os.map Owner.block) :
    NullOrLive s (lastOr 0 bs) := by
  by_cases e : bs = []
  · exact Or.inl (by rw [e]; rfl)
  · obtain ⟨b, hb, hf⟩ := lastOr_mem e
    exact Or.inr (hf ▸ h.live_of_block (hbs b hb))

/-- the two links of a live task -/
theorem links (h : Owned L s os) {l r : List Nat} {b : Nat} (e : os.map Owner.block = l ++ b :: r) :
    taskPrev s (blockAddr b) = lastOr 0 l ∧ taskNext s (blockAddr b) = firstOr 0 r := by
  have hl := h.linked
  rw [e] at hl
  exact hl.at

/-- **The invariant carries the property.** -/
theorem ok (h : Owned L s os) : TaskListOk s where
  reached := by
    rw [h.head, h.live]
    exact h.linked.reached (fun b _ => rfl)
  distinct := by
    rw [h.live]
    exact h.blocks_nodup.map (fun a b e => blockAddr_inj e)
  headPrev hne := by
    cases hos : os.map Owner.block with
    | nil =>
      rw [h.live, hos] at hne
      exact absurd rfl hne
    | cons b r =>
      rw [h.head, hos]
      exact (h.links (l := []) hos).1
  tail := by rw [h.tail, h.live, lastOr_eq_getLastD]
  back := by
    intro n hn hnext
    obtain ⟨l, b, r, e, rfl⟩ := h.mem_live hn
    rw [(h.links e).2] at hnext ⊢
    cases r with
    | nil => exact absurd rfl hnext
    | cons c r =>
      have e' : os.map Owner.block = (l ++ [b]) ++ c :: r := by
        rw [e, List.append_assoc]
        rfl
      show taskPrev s (blockAddr c) = _
      rw [(h.links e').1, lastOr_append]
  closed := by
    intro n hn
    obtain ⟨l, b, r, e, rfl⟩ := h.mem_live hn
    rw [(h.links e).1, (h.links e).2]
    constructor
    · refine h.first_live (fun x hx => ?_)
      rw [e]
      exact List.mem_append_right _ (List.mem_cons_of_mem _ hx)
    · refine h.last_live (fun x hx => ?_)
      rw [e]
      exact List.mem_append_left _ hx
  pointers := by
    rw [h.head, h.tail]
    exact ⟨h.first_live (fun _ hx => hx), h.last_live (fun _ hx => hx), h.current.1⟩
  current := by
    obtain ⟨h1, h2⟩ := h.current
    constructor
    · intro hne
      rcases h1 with h0 | hlive
      · exact absurd (h2 h0) hne
      · exact hlive
    · intro he
      rcases h1 with h0 | hlive
      · exact h0
      · rw [he] at hlive
        cases hlive

end Owned

/-! ## the steps -/

section
variable {L : List Run} {s : TaskRunState} {os : List Owner}

/-- the blocks of one task, apart from the others -/
theorem owner_perm (os1 os2 : List Owner) (o : Owner) (L : List Run) :
    (((os1 ++ o :: os2).flatMap Owner.blocks).map oneBlock ++ L).Perm
      (o.space.runs ++ oneBlock o.block ::
        (((os1 ++ os2).flatMap Owner.blocks).map oneBlock ++ L)) := by
  have h1 : (os1 ++ o :: os2).Perm (o :: (os1 ++ os2)) := List.perm_middle
  have h2 := ((h1.flatMap_right Owner.blocks).map oneBlock).append_right L
  refine h2.trans (List.Perm.of_eq ?_)
  rw [List.flatMap_cons, List.map_append, Owner.blocks, List.map_append, List.append_assoc,
    List.append_assoc]
  rfl

/-- the list with one more task: its links are those that `taskAppend` writes -/
theorem Owned.snoc (h : Owned L s os) {o : Owner} {m : Machine} {head current : Nat}
    (holds : m.Holds (o.space.runs ++ oneBlock o.block ::
      ((os.flatMap Owner.blocks).map oneBlock ++ L)))
    (rooted : ∀ x ∈ os, x.space.Rooted m 7) (hroot : o.space.Rooted m 7)
    (directory : ∀ x ∈ os, m.word x.block 0 = s.tasks.machine.word x.block 0)
    (hdir : m.word o.block 0 = blockAddr o.space.chunk)
    (linked : Linked m 0 (os.map Owner.block) (blockAddr o.block))
    (hprev : m.word o.block 15 = lastOr 0 (os.map Owner.block)) (hnext : m.word o.block 14 = 0)
    (hhead : head = firstOr (blockAddr o.block) (os.map Owner.block))
    (hcur : current ∈ s.live ++ [blockAddr o.block] ∧ current ≠ 0) :
    Owned L ⟨⟨m, head, blockAddr o.block, current⟩, s.live ++ [blockAddr o.block]⟩ (os ++ [o]) where
  live := by
    rw [h.live, List.map_append, List.map_append]
    rfl
  holds := by
    have hp := owner_perm os [] o L
    rw [List.append_nil] at hp
    exact holds.perm hp.symm
  rooted x hx := by
    rcases List.mem_append.mp hx with hx | hx
    · exact rooted x hx
    · rw [List.mem_singleton.mp hx]
      exact hroot
  directory x hx := by
    rcases List.mem_append.mp hx with hx | hx
    · exact (directory x hx).trans (h.directory x hx)
    · rw [List.mem_singleton.mp hx]
      exact hdir
  linked := by
    rw [List.map_append]
    exact (linked_append 0 _ o.block 0).mpr ⟨linked, hprev, hnext⟩
  head := by
    rw [List.map_append]
    exact hhead.trans (firstOr_append 0 _ o.block).symm
  tail := by
    rw [List.map_append]
    exact (lastOr_append 0 _ o.block).symm
  current := ⟨Or.inr hcur.1, fun h0 => absurd h0 hcur.2⟩

/-- the step of `task_new`, once the task is in the list -/
theorem taskStep_appended {process b : Nat} {t t' : TaskState} {os' : List Owner}
    (hnew : taskNew process s.tasks = (taskAppend (blockAddr b) >>= fun _ => pure (blockAddr b)) t)
    (happ : taskAppend (blockAddr b) t = .ok ((), t')) (herr : isErr (blockAddr b) = false)
    (hown : Owned L ⟨t', s.live ++ [blockAddr b]⟩ os') :
    ∃ s', taskStep s (.new process) = .ok s' ∧ TaskOwned L s' := by
  have hrun : taskNew process s.tasks = .ok (blockAddr b, t') := by
    rw [hnew, bind_ok happ]
    rfl
  refine ⟨⟨t', s.live ++ [blockAddr b]⟩, ?_, os', hown⟩
  simp only [taskStep, hrun]
  show Except.ok (TaskRunState.mk t' (if isErr (blockAddr b) = true then s.live
    else s.live ++ [blockAddr b])) = _
  rw [herr]
  rfl

/-- over the memory of the tasks, that of a new one: its struct, linked to nothing, and its space -/
structure NewOwner (L : List Run) (s : TaskRunState) (os : List Owner) (o : Owner) (m : Machine) :
    Prop where
  holds : m.Holds (o.space.runs ++ oneBlock o.block :: ((os.flatMap Owner.blocks).map oneBlock ++ L))
  frame : Frame (fun x => x = o.block ∨ x ∈ o.space.blocks) s.tasks.machine m
  rooted : o.space.Rooted m 7
  directory : m.word o.block 0 = blockAddr o.space.chunk
  next : m.word o.block 14 = 0
  prev : m.word o.block 15 = 0

namespace NewOwner
variable {o : Owner} {m : Machine}

theorem block_lt (n : NewOwner L s os o m) : o.block < heapBlocks :=
  n.holds.block_lt (List.mem_append_right _ List.mem_cons_self)

/-- the structs of the tasks are untouched -/
theorem word (n : NewOwner L s os o m) (h : Owned L s os) {x : Owner} (hx : x ∈ os) {j : Nat}
    (hj : j < 1024) : m.word x.block j = s.tasks.machine.word x.block j :=
  n.frame.block (h.block_lt hx) hj
    (h.apart n.holds hx (List.mem_append_right _ (List.mem_singleton_self _)))

/-- and so are their spaces -/
theorem spaces (n : NewOwner L s os o m) (h : Owned L s os) {x : Owner} (hx : x ∈ os) :
    x.space.Rooted m 7 :=
  (h.rooted x hx).frame (fun b hb => h.space_lt hx hb) n.frame
    (h.apart n.holds hx (List.mem_append_left _ x.space.chunk_mem))
    (h.apart n.holds hx (List.mem_append_left _ x.space.directory_mem))

/-- the first task -/
theorem append_first (n : NewOwner L s os o m) (h : Owned L s os) (e : os = []) : ∃ t,
    taskAppend (blockAddr o.block) { s.tasks with machine := m } = .ok ((), t) ∧
    Owned L ⟨t, s.live ++ [blockAddr o.block]⟩ (os ++ [o]) := by
  have hhead : s.tasks.taskHead = 0 := by
    rw [h.head, e]
    rfl
  refine ⟨_, taskAppend_first _ _ hhead, h.snoc n.holds (fun x hx => n.spaces h hx) n.rooted
    (fun x hx => n.word h hx (by decide)) n.directory ?_ ?_ n.next ?_ ?_⟩
  · rw [e]
    trivial
  · rw [e]
    exact n.prev
  · rw [e]
    rfl
  · exact ⟨List.mem_append_right _ (List.mem_singleton_self _), blockAddr_ne⟩

/-- a task behind the last one -/
theorem append_behind (n : NewOwner L s os o m) (h : Owned L s os) {os' : List Owner} {c : Owner}
    (e : os = os' ++ [c]) (hmap : os.map Owner.block = os'.map Owner.block ++ [c.block])
    (htail : s.tasks.taskTail = blockAddr c.block) : ∃ t,
    taskAppend (blockAddr o.block) { s.tasks with machine := m } = .ok ((), t) ∧
    Owned L ⟨t, s.live ++ [blockAddr o.block]⟩ (os ++ [o]) := by
  have hc : c ∈ os := by
    rw [e]
    exact List.mem_append_right _ (List.mem_singleton_self _)
  have hapart : ∀ x ∈ os, ¬ (x.block = o.block ∨ x.block ∈ o.space.blocks) := fun x hx =>
    h.apart n.holds hx (List.mem_append_right _ (List.mem_singleton_self _))
  have hhead : s.tasks.taskHead ≠ 0 := by
    rw [h.head, hmap, firstOr_append]
    exact firstOr_ne blockAddr_ne
  obtain ⟨m2, hrun, hput⟩ := taskAppend_behind { s.tasks with machine := m } n.block_lt (h.block_lt hc)
    (fun e => hapart c hc (Or.inl e)) hhead htail
  have hkeep : ∀ x ∈ os, ∀ j < 1024, x.block ≠ c.block ∨ j ≠ 14 →
      m2.word x.block j = s.tasks.machine.word x.block j := by
    intro x hx j hj hor
    exact (hput.old _ (h.block_lt hx) (fun e => hapart x hx (Or.inl e)) j hj hor).trans
      (n.word h hx hj)
  have hspaces : ∀ x ∈ os, x.space.Rooted m2 7 := by
    intro x hx
    have hB := PutBehind.avoids
      (fun hb => h.apart n.holds hx (List.mem_append_left _ hb) (Or.inl rfl)) (h.not_mem_space hc hx)
    exact (n.spaces h hx).frame (fun y hy => h.space_lt hx hy) hput.frame (hB _ x.space.chunk_mem)
      (hB _ x.space.directory_mem)
  have hspace : o.space.Rooted m2 7 := by
    have hB := PutBehind.avoids (Space.not_mem_blocks n.holds List.mem_cons_self)
      (fun hb => hapart c hc (Or.inr hb))
    exact n.rooted.frame (fun y hy => Space.blocks_lt n.holds hy) hput.frame
      (hB _ o.space.chunk_mem) (hB _ o.space.directory_mem)
  refine ⟨_, hrun, h.snoc (n.holds.congr hput.heap) hspaces hspace
    (fun x hx => hkeep x hx 0 (by decide) (Or.inr (by decide))) ?_ ?_ ?_ ?_ ?_ ?_⟩
  · exact (hput.new 0 (by decide) (by decide)).trans n.directory
  · -- the last one gets a successor
    have hlink := h.linked
    rw [hmap] at hlink ⊢
    have hn := h.blocks_nodup
    rw [hmap] at hn
    refine hlink.relink hn (fun y hy => ?_) (fun y hy hlast => ?_) (fun y hlast => ?_)
    · rw [← hmap] at hy
      obtain ⟨x, hx, rfl⟩ := List.mem_map.mp hy
      exact hkeep x hx 15 (by decide) (Or.inr (by decide))
    · rw [← hmap] at hy
      rw [lastOr_append] at hlast
      obtain ⟨x, hx, rfl⟩ := List.mem_map.mp hy
      exact hkeep x hx 14 (by decide) (Or.inl (fun e => hlast (e ▸ rfl)))
    · rw [lastOr_append] at hlast
      rw [← blockAddr_inj hlast]
      exact hput.next
  · rw [hmap, lastOr_append]
    exact hput.prev
  · exact (hput.new 14 (by decide) (by decide)).trans n.next
  · rw [h.head, hmap, firstOr_append, firstOr_append]
  · have hcur := h.ok.current.1 (List.ne_nil_of_mem (h.live_of_block (List.mem_map_of_mem hc)))
    refine ⟨List.mem_append_left _ hcur, fun h0 => ?_⟩
    rw [h0] at hcur
    obtain ⟨l, x, r, -, hx⟩ := h.mem_live hcur
    exact blockAddr_ne hx.symm

end NewOwner

/-- `task_new` with room -/
theorem taskStep_new_ok (h : Owned L s os) {process : Nat} (hp : process < 4294967296)
    (hfree : 1027 ≤ freeBlocks s.tasks.machine.heap.table) :
    ∃ s', taskStep s (.new process) = .ok s' ∧ TaskOwned L s' := by
  obtain ⟨b, space, m, hnew, -, hh, hmaps, hfr, hwords, -⟩ := taskNew_made s.tasks h.holds hp hfree
  have n : NewOwner L s os ⟨b, space⟩ m :=
    ⟨hh, hfr, hmaps.toRooted, hwords.pageDirectory, hwords.next, hwords.prev⟩
  have hadd : ∃ t, taskAppend (blockAddr b) { s.tasks with machine := m } = .ok ((), t) ∧
      Owned L ⟨t, s.live ++ [blockAddr b]⟩ (os ++ [⟨b, space⟩]) := by
    rcases h.last with e | ⟨os', c, e, hmap, htail, -⟩
    · exact n.append_first h e
    · exact n.append_behind h e hmap htail
  obtain ⟨t, happ, hown⟩ := hadd
  exact taskStep_appended hnew happ (isErr_block n.block_lt) hown

/-- `task_free` of the task at any place of the list: what it leaves of the memory -/
theorem taskStep_free_run (h : Owned L s os) {l r : List Owner} {o : Owner}
    (e : os = l ++ o :: r) : ∃ m',
      taskStep s (.free (blockAddr o.block)) = .ok
        ⟨s.tasks.removed m' (blockAddr o.block) (lastOr 0 (l.map Owner.block))
          (firstOr 0 (r.map Owner.block)), s.live.erase (blockAddr o.block)⟩ ∧
      m'.Holds (((l ++ r).flatMap Owner.blocks).map oneBlock ++ L) ∧
      (∀ b < heapBlocks, ∀ j < 1024, lastOr 0 (l.map Owner.block) ≠ blockAddr b ∨ j ≠ 14 →
        m'.word b j = s.tasks.machine.word b j) ∧
      ∀ c, lastOr 0 (l.map Owner.block) = blockAddr c →
        m'.word c 14 = firstOr 0 (r.map Owner.block) := by
  have ho : o ∈ os := by
    rw [e]
    exact List.mem_append_right _ List.mem_cons_self
  have hmap : os.map Owner.block = l.map Owner.block ++ o.block :: r.map Owner.block := by
    rw [e, List.map_append, List.map_cons]
  have hlink := h.linked
  rw [hmap] at hlink
  obtain ⟨h15, h14⟩ := hlink.at
  have hlt : s.tasks.machine.word o.block 14 < 4294967296 := Mem.load_lt _ _
  have hp : s.tasks.machine.word o.block 15 = 0 ∨ ∃ c,
      s.tasks.machine.word o.block 15 = blockAddr c ∧ c < heapBlocks ∧ c ≠ o.block := by
    rw [h15]
    by_cases hl : l.map Owner.block = []
    · exact Or.inl (by rw [hl]; rfl)
    · obtain ⟨c, hc, hlast⟩ := lastOr_mem hl
      obtain ⟨x, hx, rfl⟩ := List.mem_map.mp hc
      have hn := h.blocks_nodup
      rw [hmap] at hn
      refine Or.inr ⟨x.block, hlast, h.block_lt (e ▸ List.mem_append_left _ hx), fun e' => ?_⟩
      exact (List.nodup_append.mp hn).2.2 _ hc _ List.mem_cons_self e'
  obtain ⟨m', hrun, hh', ⟨m1, hm1, m2, hun, hm2⟩, -⟩ := taskFree_run s.tasks
    (h.holds.perm (e ▸ owner_perm l r o L)) (h.rooted o ho) (by decide) (h.directory o ho) hlt hp
  rw [h15, h14] at hrun hun
  have hw : ∀ b j, m'.word b j = m2.word b j := fun b j => by rw [Machine.word, hm2]; rfl
  have hw1 : ∀ b j, m1.word b j = s.tasks.machine.word b j := fun b j => by
    rw [Machine.word, hm1]
    rfl
  refine ⟨m', ?_, hh', fun b hb j hj hor => ?_, fun c hc => (hw c 14).trans (hun.wrote c hc).word⟩
  · simp only [taskStep, hrun]
    rfl
  · rw [hw, ← hw1]
    rw [h15] at hp
    rcases hp with h0 | ⟨c, hc, hcb, -⟩
    · rw [hun.first h0]
    · refine (hun.wrote c hc).keeps hb hj (hor.imp_left (fun hne e => hne ?_))
      rw [hc, e]

section
variable {os' : List Owner} {o : Owner} {m' : Machine}

/-- the tasks but the last one -/
theorem Owned.live_dropLast (h : Owned L s os) (hmap : os.map Owner.block = os'.map Owner.block ++ [o.block])
    (hne : ∀ x ∈ os', x.block ≠ o.block) :
    s.live.erase (blockAddr o.block) = (os'.map Owner.block).map blockAddr := by
  have hnot : blockAddr o.block ∉ (os'.map Owner.block).map blockAddr := by
    intro hin
    obtain ⟨b, hb, he⟩ := List.mem_map.mp hin
    obtain ⟨x, hx, rfl⟩ := List.mem_map.mp hb
    exact hne x hx (blockAddr_inj he)
  rw [h.live, hmap, List.map_append, List.erase_append_right _ hnot]
  show _ ++ [blockAddr o.block].erase (blockAddr o.block) = _
  rw [List.erase_cons_head, List.append_nil]

theorem Owned.head_dropLast (h : Owned L s os) (hmap : os.map Owner.block = os'.map Owner.block ++ [o.block])
    (hne : ∀ x ∈ os', x.block ≠ o.block) :
    (if blockAddr o.block = s.tasks.taskHead then 0 else s.tasks.taskHead)
      = firstOr 0 (os'.map Owner.block) := by
  rw [h.head, hmap]
  rcases os' with - | ⟨x, os''⟩
  · exact if_pos rfl
  · exact if_neg (fun he => hne x List.mem_cons_self (blockAddr_inj he).symm)

/-- the first task is current behind a current task at the end, and `NULL` behind the only one -/
theorem Owned.current_dropLast (h : Owned L s os)
    (hmap : os.map Owner.block = os'.map Owner.block ++ [o.block])
    (hne : ∀ x ∈ os', x.block ≠ o.block) {p : Nat} (hp : p = if blockAddr o.block = s.tasks.currentTask
      then afterRemoval (if blockAddr o.block = s.tasks.taskHead then 0 else s.tasks.taskHead) 0
      else s.tasks.currentTask) :
    (p = 0 ∨ p ∈ (os'.map Owner.block).map blockAddr) ∧
      (p = 0 → (os'.map Owner.block).map blockAddr = []) := by
  rw [hp]
  by_cases hcur : blockAddr o.block = s.tasks.currentTask
  · rw [if_pos hcur, afterRemoval, if_pos rfl, h.head_dropLast hmap hne]
    rcases os' with - | ⟨x, os''⟩
    · exact ⟨Or.inl rfl, fun _ => rfl⟩
    · exact ⟨Or.inr List.mem_cons_self, fun h0 => absurd h0 blockAddr_ne⟩
  · rw [if_neg hcur]
    have hlive : s.live ≠ [] := by
      rw [h.live, hmap]
      simp
    have hmem := h.ok.current.1 hlive
    rw [h.live, hmap, List.map_append] at hmem
    rcases List.mem_append.mp hmem with hin | hin
    · obtain ⟨b, -, he⟩ := List.mem_map.mp hin
      exact ⟨Or.inr hin, fun h0 => absurd (he.trans h0) blockAddr_ne⟩
    · exact absurd (List.mem_singleton.mp hin).symm hcur

/-- the list without its last task: the task before it gets no successor -/
theorem Owned.dropLast (h : Owned L s os) (hsub : ∀ x ∈ os', x ∈ os)
    (hmap : os.map Owner.block = os'.map Owner.block ++ [o.block])
    (htail : s.tasks.taskTail = blockAddr o.block) (hne : ∀ x ∈ os', x.block ≠ o.block)
    (holds : m'.Holds ((os'.flatMap Owner.blocks).map oneBlock ++ L))
    (hsame : ∀ b < heapBlocks, ∀ j < 1024, lastOr 0 (os'.map Owner.block) ≠ blockAddr b ∨ j ≠ 14 →
      m'.word b j = s.tasks.machine.word b j)
    (hprev : ∀ c, lastOr 0 (os'.map Owner.block) = blockAddr c → m'.word c 14 = 0) :
    Owned L ⟨s.tasks.removed m' (blockAddr o.block) (lastOr 0 (os'.map Owner.block)) 0,
      s.live.erase (blockAddr o.block)⟩ os' where
  live := h.live_dropLast hmap hne
  holds := holds
  rooted x hx := by
    have hr := h.rooted x (hsub x hx)
    refine ⟨?_, fun i hi => ?_⟩
    · have hk := hsame _ (h.space_lt (hsub x hx) x.space.chunk_mem) 0 (by decide)
        (Or.inr (by decide))
      rw [Machine.word, Machine.word, Nat.mul_zero, Nat.add_zero] at hk
      exact hk.trans hr.chunk
    · have hk := hsame _ (h.space_lt (hsub x hx) x.space.directory_mem) i hi
        (Or.inl (h.last_not_space hsub (hsub x hx) x.space.directory_mem))
      exact hk.trans (hr.dir i hi)
  directory x hx := (hsame _ (h.block_lt (hsub x hx)) 0 (by decide) (Or.inr (by decide))).trans
    (h.directory x (hsub x hx))
  linked := by
    have hlink := h.linked
    rw [hmap, linked_append] at hlink
    have hn := h.blocks_nodup
    rw [hmap] at hn
    refine hlink.1.relink (List.nodup_append.mp hn).1 (fun y hy => ?_) (fun y hy hlast => ?_) hprev
    · obtain ⟨x, hx, rfl⟩ := List.mem_map.mp hy
      exact hsame _ (h.block_lt (hsub x hx)) 15 (by decide) (Or.inr (by decide))
    · obtain ⟨x, hx, rfl⟩ := List.mem_map.mp hy
      exact hsame _ (h.block_lt (hsub x hx)) 14 (by decide) (Or.inl hlast)
  head := h.head_dropLast hmap hne
  tail := if_pos htail.symm
  current := by
    unfold NullOrLive
    rw [h.live_dropLast hmap hne]
    exact h.current_dropLast hmap hne rfl

end

/-- the last task is freed -/
theorem taskStep_free_ok (h : Owned L s os) {task : Nat} (hl : task ∈ s.live)
    (ht : task = s.tasks.taskTail) :
    ∃ s', taskStep s (.free task) = .ok s' ∧ TaskOwned L s' := by
  rcases h.last with e | ⟨os', o, e, hmap, htail, hne⟩
  · rw [h.live, e] at hl
    cases hl
  obtain ⟨m', hrun, hh', hsame, hprev⟩ := taskStep_free_run h (l := os') (r := []) e
  rw [List.append_nil] at hh'
  rw [ht, htail]
  exact ⟨_, hrun, os', h.dropLast (fun x hx => e ▸ List.mem_append_left _ hx) hmap htail hne hh' hsame
    hprev⟩

/-- a task that is not the last one is freed: its successor still points to it -/
theorem taskStep_free_bad (h : Owned L s os) {task : Nat} (hl : task ∈ s.live)
    (ht : task ≠ s.tasks.taskTail) (s' : TaskRunState)
    (hstep : taskStep s (.free task) = .ok s') : ¬ TaskListOk s' := by
  rw [h.live] at hl
  obtain ⟨b, hb, rfl⟩ := List.mem_map.mp hl
  obtain ⟨o, ho, rfl⟩ := List.mem_map.mp hb
  obtain ⟨l, r, e⟩ := List.append_of_mem ho
  have hmap : os.map Owner.block = l.map Owner.block ++ o.block :: r.map Owner.block := by
    rw [e, List.map_append, List.map_cons]
  rcases r with - | ⟨x, r⟩
  · refine absurd ?_ ht
    rw [h.tail, hmap]
    exact (lastOr_append 0 _ o.block).symm
  obtain ⟨m', hrun, -, hsame, -⟩ := taskStep_free_run h e
  obtain rfl := Except.ok.inj (hrun.symm.trans hstep)
  have hx : x ∈ os := by
    rw [e]
    exact List.mem_append_right _ (List.mem_cons_of_mem _ List.mem_cons_self)
  have hxo : x.block ≠ o.block := by
    have hn := h.blocks_nodup
    rw [hmap] at hn
    have hn2 := (List.nodup_cons.mp (List.nodup_append.mp hn).2.1).1
    exact fun he => hn2 (he ▸ List.mem_cons_self)
  -- the `prev` of the successor
  have hprev : m'.word x.block 15 = blockAddr o.block := by
    have hmap' : os.map Owner.block
        = (l.map Owner.block ++ [o.block]) ++ x.block :: r.map Owner.block := by
      rw [hmap, List.append_assoc]
      rfl
    have hlink := h.linked
    rw [hmap'] at hlink
    rw [hsame _ (h.block_lt hx) 15 (by decide) (Or.inr (by decide)), hlink.at.1, lastOr_append]
  intro hok
  have hxlive : blockAddr x.block ∈ s.live.erase (blockAddr o.block) := by
    rw [List.mem_erase_of_ne (fun he => hxo (blockAddr_inj he))]
    exact h.live_of_block (List.mem_map_of_mem hx)
  have hp : NullOrLive _ (m'.word x.block 15) := (hok.closed _ hxlive).2
  rw [hprev] at hp
  rcases hp with h0 | hin
  · exact blockAddr_ne h0
  · exact (h.ok.distinct.mem_erase_iff.mp hin).1 rfl

/-- without room `task_new` does not return -/
theorem taskStep_new_room (h : Owned L s os) {process : Nat} {s' : TaskRunState}
    (hstep : taskStep s (.new process) = .ok s') :
    1027 ≤ freeBlocks s.tasks.machine.heap.table := by
  by_contra hfree
  have hf : taskNew process s.tasks = .error .nullPointer :=
    taskNew_fault s.tasks h.holds (by omega)
  simp only [taskStep, hf] at hstep
  cases hstep

end

/-! ## runs -/

/-- no task yet -/
def noTasks (m : Machine) : TaskRunState := ⟨⟨m, 0, 0, 0⟩, []⟩

theorem noTasks_owned {m : Machine} {L : List Run} (h : m.Holds L) : Owned L (noTasks m) [] where
  live := rfl
  holds := h
  rooted o ho := by cases ho
  directory o ho := by cases ho
  linked := trivial
  head := rfl
  tail := rfl
  current := ⟨Or.inl rfl, fun _ => rfl⟩

/-- **Runs of the task list.**  Over any heap, every state of a run of `task_new` and `task_free`
calls has a well-formed list if and only if every `task_new` finds 1027 free blocks and every
`task_free` is called with the last task. -/
theorem task_run_iff (m : Machine) (L : List Run) (hm : m.Holds L) (ops : List TaskOp)
    (hl : Meets taskStep TaskLegal (noTasks m) ops) :
    Along taskStep TaskListOk (noTasks m) ops ↔ Meets taskStep TaskOpOk (noTasks m) ops := by
  refine along_iff_meets (I := TaskOwned L) (V := TaskLegal) (fun s ⟨os, h⟩ => h.ok) ?_ ?_ _ _
    ⟨[], noTasks_owned hm⟩ hl
  · rintro s op ⟨os, h⟩ hlegal hok
    cases op with
    | new process => exact taskStep_new_ok h hlegal hok
    | free task => exact taskStep_free_ok h hlegal hok
  · rintro s op ⟨os, h⟩ hlegal hbad s' hstep
    cases op with
    | new process => exact absurd (taskStep_new_room h hstep) hbad
    | free task => exact taskStep_free_bad h hlegal hbad s' hstep

theorem legal_new (s : TaskRunState) {process : Nat} (h : process < 4294967296) :
    TaskLegal s (.new process) := h

theorem task_run_iff_two :
    Along taskStep TaskListOk (noTasks emptyMachine) [.new 0x2000000, .new 0x2002000]
      ↔ Meets taskStep TaskOpOk (noTasks emptyMachine) [.new 0x2000000, .new 0x2002000] :=
  task_run_iff emptyMachine [] emptyMachine_holds _
    ⟨legal_new _ (by decide), fun _ _ => ⟨legal_new _ (by decide), fun _ _ => trivial⟩⟩

theorem taskStep_new_live {s s' : TaskRunState} {process : Nat}
    (h : taskStep s (.new process) = .ok s') : ∃ p t, taskNew process s.tasks = .ok (p, t) ∧
      s'.live = if isErr p then s.live else s.live ++ [p] := by
  cases hn : taskNew process s.tasks with
  | error e =>
    simp only [taskStep, hn] at h
    cases h
  | ok r =>
    obtain ⟨p, t⟩ := r
    simp only [taskStep, hn] at h
    obtain rfl := Except.ok.inj h
    refine ⟨p, t, rfl, ?_⟩
    dsimp only

section
variable {L : List Run} {s s' : TaskRunState} {os : List Owner} {process : Nat}

theorem taskStep_new_owned (h : Owned L s os) (hp : process < 4294967296)
    (hstep : taskStep s (.new process) = .ok s') : TaskOwned L s' := by
  obtain ⟨t, ht, hown⟩ := taskStep_new_ok h hp (taskStep_new_room h hstep)
  obtain rfl := Except.ok.inj (ht.symm.trans hstep)
  exact hown

/-- the new task lies in the first free block -/
theorem taskStep_new_first (h : Owned L s os) (hp : process < 4294967296)
    (hstep : taskStep s (.new process) = .ok s') :
    ∃ b, FirstWindow s.tasks.machine.heap.table 1 b ∧ s'.live = s.live ++ [blockAddr b] := by
  obtain ⟨b, space, m, hnew, hwin, hh, -⟩ :=
    taskNew_made s.tasks h.holds hp (taskStep_new_room h hstep)
  have hb : b < heapBlocks := hh.block_lt (List.mem_append_right _ List.mem_cons_self)
  obtain ⟨p, t, hrun, hlive⟩ := taskStep_new_live hstep
  rw [hnew] at hrun
  obtain ⟨_, t', -, hpure⟩ := bind_eq_ok hrun
  obtain ⟨rfl, -⟩ := pure_eq_ok hpure
  rw [isErr_block hb] at hlive
  exact ⟨b, hwin, hlive⟩

end

/-- the first task of an empty heap lies at the start of the heap -/
theorem first_task_live {process : Nat} (hp : process < 4294967296) {s' : TaskRunState}
    (hstep : taskStep (noTasks emptyMachine) (.new process) = .ok s') : s'.live = [0x1000000] := by
  obtain ⟨b, hwin, hlive⟩ := taskStep_new_first (noTasks_owned emptyMachine_holds) hp hstep
  have hfree : Free emptyMachine.heap.table 0 :=
    (emptyMachine_holds.tiled.free_iff (by decide)).mpr (by simp)
  have h0 : FirstWindow emptyMachine.heap.table 1 0 :=
    ⟨window_one.mpr ⟨by decide, hfree⟩, fun b' hb' => absurd hb' (Nat.not_lt_zero _)⟩
  rw [hwin.unique h0] at hlive
  exact hlive

/-- two tasks, the first one is freed: the `prev` of the second one still points to it -/
theorem task_free_first :
    Meets taskStep TaskLegal (noTasks emptyMachine) [.new 0x2000000, .new 0x2002000, .free 0x1000000] ∧
      ¬ Along taskStep TaskListOk (noTasks emptyMachine)
        [.new 0x2000000, .new 0x2002000, .free 0x1000000] := by
  have hlive : ∀ s1 s2, taskStep (noTasks emptyMachine) (.new 0x2000000) = .ok s1 →
      taskStep s1 (.new 0x2002000) = .ok s2 → ∃ q, s2.live = [0x1000000, q] ∧ 0x1000000 ≠ q := by
    intro s1 s2 h1 h2
    obtain ⟨os1, hown1⟩ := taskStep_new_owned (noTasks_owned emptyMachine_holds) (by norm_num) h1
    obtain ⟨b, -, hl⟩ := taskStep_new_first hown1 (by norm_num) h2
    obtain ⟨os2, hown2⟩ := taskStep_new_owned hown1 (by norm_num) h2
    rw [first_task_live (by norm_num) h1] at hl
    have hd := hown2.ok.distinct
    rw [hl] at hd
    refine ⟨blockAddr b, hl, fun e => ?_⟩
    exact (List.nodup_cons.mp hd).1 (e ▸ List.mem_singleton_self _)
  refine ⟨⟨legal_new _ (by decide), fun s1 h1 => ⟨legal_new _ (by decide), fun s2 h2 => ⟨?_, ?_⟩⟩⟩, ?_⟩
  · obtain ⟨q, h, -⟩ := hlive s1 s2 h1 h2
    show 0x1000000 ∈ s2.live
    rw [h]
    exact List.mem_cons_self
  · exact fun _ _ => trivial
  · rintro ⟨-, s1, h1, -, s2, h2, hok2, s3, h3, hok⟩
    have h0 := noTasks_owned emptyMachine_holds
    obtain ⟨os1, hown1⟩ := taskStep_new_owned h0 (by norm_num) h1
    obtain ⟨os2, hown2⟩ := taskStep_new_owned hown1 (by norm_num) h2
    obtain ⟨q, hq, hne⟩ := hlive s1 s2 h1 h2
    refine taskStep_free_bad hown2 (by rw [hq]; exact List.mem_cons_self) ?_ s3 h3 hok.head
    rw [hok2.tail, hq]
    exact hne

end LameOS
