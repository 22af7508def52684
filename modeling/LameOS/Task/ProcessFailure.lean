import LameOS.Task.ProcessTable

/-!
# Loads that fail

A load that fails should leave the heap, the files, the tasks and the table as they were.

* `Restored`              they are as they were;
* `NoRoom`                `kzalloc` has no two blocks in a row, and sees it;
* `FailsEarly`            the failures that are found before the struct is allocated;
* `failing_load_restores` these are the only ones that leave everything as it was.
-/

set_option linter.unusedVariables false

namespace LameOS
open Lib Lib.Exec

/-! ## states -/

/-- the heap, the files, the tasks `T` and the table are as they were -/
structure Restored (T : List Nat) (s s' : KernelState) : Prop where
  heap : s'.machine.heap = s.machine.heap
  files : s'.files = s.files
  taskHead : s'.taskHead = s.taskHead
  taskTail : s'.taskTail = s.taskTail
  currentTask : s'.currentTask = s.currentTask
  tasks : ∀ c ∈ T, ∀ j < 16, s'.machine.word c j = s.machine.word c j
  processes : s'.processes = s.processes

/-- only the record of the entries used differs -/
theorem restored_accesses (T : List Nat) (s : KernelState) (l : List Int) :
    Restored T s { s with accesses := l } :=
  ⟨rfl, rfl, rfl, rfl, rfl, fun _ _ _ _ => rfl, rfl⟩

theorem restored_looked (T : List Nat) (s : KernelState) (slot : Int) :
    Restored T s (s.looked slot) := by
  unfold KernelState.looked
  by_cases h : Looked slot
  · rw [if_pos h]
    exact restored_accesses T s _
  · rw [if_neg h]
    exact restored_accesses T s s.accesses

/-- the call returns a negative status and leaves everything as it was -/
def FailsClean (disk : Disk) (T : List Nat) (s : KernelState) (c : LoadCall) : Prop :=
  ∃ res s', c.run disk s = .ok ((res, none), s') ∧ res < 0 ∧ Restored T s s'

/-! ## the allocation of the struct -/

/-- no two free blocks in a row, and the last block is taken -/
def NoRoom (m : Machine) : Prop :=
  (∀ b, ¬ Window m.heap.table 2 b) ∧ ¬ Free m.heap.table (m.heap.table.total - 1)

section
variable {L : List Run} {m : Machine}

theorem kzalloc_struct_none (h : NoRoom m) : kzalloc processSize m = .ok (0, m) := by
  have e : mallocBlocks processSize = 2 := by decide
  have hf := heapMallocBlocks_none m.heap (show 1 ≤ 2 by decide) h.1 (Or.inr h.2)
  rw [← e] at hf
  unfold kzalloc
  rw [bind_ok (kmalloc_of hf), if_pos rfl]
  rfl

theorem noRoom_of_kzalloc {m' : Machine} (hh : m.Holds L)
    (hrun : kzalloc processSize m = .ok (0, m')) : NoRoom m := by
  have e : mallocBlocks processSize = 2 := by decide
  rcases firstWindow_or_not m.heap.table 2 with ⟨b, hw⟩ | hno
  · rw [← e] at hw
    have hfound := kzalloc_found hh (by decide) (by decide) hw
    rw [hfound] at hrun
    exact absurd (ok_inj hrun).1 blockAddr_ne
  · refine ⟨hno, fun hlast => ?_⟩
    have hf := heapMallocBlocks_fault m.heap (show 1 ≤ 2 by decide) (by decide) hno
      (by rw [hh.total]; decide) hlast
    have hk : kmalloc processSize m = .error .outOfBounds := by
      unfold kmalloc heapMalloc
      rw [show heapAlignValueToUpper processSize / heapBlockSize = 2 from e, hf]
      rfl
    unfold kzalloc at hrun
    rw [bind_error hk] at hrun
    cases hrun

end

/-! ## failures -/

/-- the failures before the struct is allocated -/
def FailsEarly (s : KernelState) : LoadCall → Prop
  | .load _ _ => (∀ i : Nat, i < maxProcesses → s.processes i ≠ 0) ∨ NoRoom s.machine
  | .loadForSlot _ slot stale =>
    (Taken s slot ∧ Harmless s.machine stale) ∨ (¬ Taken s slot ∧ NoRoom s.machine)

/-- the uninitialised pointer has no task where it is read, and the size of the file does not wrap -/
def LoadCall.Defined (s : KernelState) : LoadCall → Prop
  | .load filename _ =>
    (∃ i : Nat, i < maxProcesses ∧ s.processes i = 0) → FileSized s.volume filename
  | .loadForSlot filename slot stale =>
    (Taken s slot → Harmless s.machine stale) ∧ (¬ Taken s slot → FileSized s.volume filename)

section
variable {disk : Disk} {filename : List UInt8} {slot : Int} {stale : Nat} {T : List Nat}
  {L : List Run} {s : KernelState}

/-- a load without a struct -/
theorem processLoadForSlot_none (hnt : ¬ Taken s slot) (h : NoRoom s.machine) :
    processLoadForSlot disk filename slot stale s = .ok ((-ENOMEM, none), s.looked slot) := by
  obtain ⟨q, hget, hq⟩ := processGet_run s slot
  have hm := looked_machine s slot
  have hnull : kzalloc processSize (s.looked slot).machine = .ok (0, (s.looked slot).machine) := by
    rw [hm]
    exact kzalloc_struct_none h
  have hk : onKernel (kzalloc processSize) (s.looked slot) = .ok (0, s.looked slot) := part_ok hnull
  unfold processLoadForSlot
  rw [bind_ok hget, if_neg (fun hne => hnt (hq.mp hne)), bind_ok hk, if_pos rfl,
    bind_ok (processLoadOut_run (Or.inr (Or.inl rfl)))]
  rfl

/-- **What is lost with the struct.** -/
theorem processLoadForSlot_early {res : Int} {s' : KernelState}
    (hh : s.machine.Holds (T.map oneBlock ++ L)) (htail : TailIn T s.taskHead s.taskTail)
    (hstale : Taken s slot → Harmless s.machine stale)
    (hsized : ¬ Taken s slot → FileSized s.volume filename)
    (hrun : processLoadForSlot disk filename slot stale s = .ok ((res, none), s'))
    (hheap : s'.machine.heap = s.machine.heap) :
    (Taken s slot ∧ Harmless s.machine stale) ∨ (¬ Taken s slot ∧ NoRoom s.machine) := by
  obtain ⟨N, hend, hh', -⟩ := processLoadForSlot_owns disk filename slot hsized htail hstale L _ s'
    hh hrun
  by_cases ht : Taken s slot
  · exact Or.inl ⟨ht, hstale ht⟩
  · refine Or.inr ⟨ht, ?_⟩
    cases hend with
    | rejected _ hwhy _ => exact noRoom_of_kzalloc hh (hwhy.resolve_left ht)
    | @failed _ _ _ K p _ _ hN hp =>
      -- the struct is an allocation that was not there
      have hperm : (N ++ L).Perm (T.map oneBlock ++ L) := (hh'.congr hheap.symm).unique hh
      have hlen := ((hN.append_right L).symm.trans hperm).length_eq
      rw [List.length_append, List.length_append, List.length_append] at hlen
      have := List.length_pos_of_mem hp
      omega

end

section
variable {disk : Disk} {T : List Nat} {L : List Run} {s : KernelState} {c : LoadCall}

/-- a call that fails before the struct is allocated leaves everything as it was -/
theorem failsClean_of_early (h : FailsEarly s c) : FailsClean disk T s c := by
  cases c with
  | load filename stale =>
    obtain ⟨r, l, hget, -, hr⟩ := processGetFreeSlot_run s
    rcases hr with ⟨rfl, -⟩ | ⟨n, rfl, hn, hfree⟩
    · refine ⟨-EISTKN, _, ?_, by decide, restored_accesses T s (l ++ s.accesses)⟩
      show processLoad disk filename stale s = _
      unfold processLoad
      rw [bind_ok hget]
      rfl
    · have hroom : NoRoom s.machine := h.resolve_left (fun hfull => hfull n hn hfree)
      have hnt : ¬ Taken { s with accesses := l ++ s.accesses } n := fun ht => ht.2 hfree
      refine ⟨-ENOMEM, ({ s with accesses := l ++ s.accesses } : KernelState).looked n, ?_,
        by decide, ?_⟩
      · show processLoad disk filename stale s = _
        unfold processLoad
        rw [bind_ok hget, if_neg (by omega)]
        exact processLoadForSlot_none hnt hroom
      · have hr := restored_looked T { s with accesses := l ++ s.accesses } n
        exact ⟨hr.heap, hr.files, hr.taskHead, hr.taskTail, hr.currentTask, hr.tasks, hr.processes⟩
  | loadForSlot filename slot stale =>
    rcases h with ⟨ht, hstale⟩ | ⟨hnt, hroom⟩
    · exact ⟨-EISTKN, _, processLoadForSlot_taken disk filename ht hstale, by decide,
        restored_looked T s slot⟩
    · exact ⟨-ENOMEM, _, processLoadForSlot_none hnt hroom, by decide, restored_looked T s slot⟩

/-- a call that leaves the heap as it was has failed before the struct was allocated -/
theorem early_of_failsClean (hh : s.machine.Holds (T.map oneBlock ++ L))
    (htail : TailIn T s.taskHead s.taskTail) (hdef : c.Defined s) (h : FailsClean disk T s c) :
    FailsEarly s c := by
  obtain ⟨res, s', hrun, -, hrest⟩ := h
  cases c with
  | load filename stale =>
    obtain ⟨r, l, hget, -, hr⟩ := processGetFreeSlot_run s
    rcases hr with ⟨rfl, hfull⟩ | ⟨n, rfl, hn, hfree⟩
    · exact Or.inl hfull
    · have hnt : ¬ Taken { s with accesses := l ++ s.accesses } n := fun ht => ht.2 hfree
      have hrun' : processLoadForSlot disk filename n stale { s with accesses := l ++ s.accesses }
          = .ok ((res, none), s') := by
        have hload : processLoad disk filename stale s = .ok ((res, none), s') := hrun
        unfold processLoad at hload
        rw [bind_ok hget, if_neg (by omega)] at hload
        exact hload
      have hearly := processLoadForSlot_early (s := { s with accesses := l ++ s.accesses }) hh htail
        (fun ht => absurd ht hnt) (fun _ => hdef ⟨n, hn, hfree⟩) hrun' hrest.heap
      exact Or.inr (hearly.resolve_left (fun ht => hnt ht.1)).2
  | loadForSlot filename slot stale =>
    exact processLoadForSlot_early hh htail hdef.1 hdef.2 hrun hrest.heap

/-- **Loads that fail.**  From any state, a call that does not load a process returns a negative
status and leaves everything as it was when it fails before the struct of the process is allocated;
and only then, as far as the call reads no memory that is not initialised. -/
theorem failing_load_restores (hh : s.machine.Holds (T.map oneBlock ++ L))
    (htail : TailIn T s.taskHead s.taskTail)
    (hfail : ∀ res p s', c.run disk s ≠ .ok ((res, some p), s')) :
    (FailsEarly s c → FailsClean disk T s c) ∧
      (c.Defined s → (FailsClean disk T s c ↔ FailsEarly s c)) :=
  ⟨failsClean_of_early, fun hdef => ⟨early_of_failsClean hh htail hdef, failsClean_of_early⟩⟩

end

/-- a kernel with a process in slot 0 -/
def takenKernel : KernelState :=
  { startedKernel with processes := fun i => if i = 0 then 0x1000000 else 0 }

theorem failing_load_restores_taken :
    (FailsEarly takenKernel (.loadForSlot [] 0 0) →
      FailsClean (fun _ => 0) [] takenKernel (.loadForSlot [] 0 0)) ∧
    (LoadCall.Defined takenKernel (.loadForSlot [] 0 0) →
      (FailsClean (fun _ => 0) [] takenKernel (.loadForSlot [] 0 0) ↔
        FailsEarly takenKernel (.loadForSlot [] 0 0))) := by
  have ht : Taken takenKernel 0 := ⟨by decide, by decide⟩
  have hrun := processLoadForSlot_taken (fun _ => 0) [] ht (Or.inl rfl : Harmless _ 0)
  refine failing_load_restores (T := []) (L := []) emptyMachine_holds (Or.inl rfl)
    (fun res p s' h => ?_)
  have e := (run_unique hrun h).1
  cases (Prod.mk.inj e).2

/-- what a call returns, and the first entry of the heap behind it -/
def outcomeOf (x : Except Fault ((Int × Option Nat) × KernelState)) :
    Option (Int × Option Nat × UInt8) :=
  match x with
  | .ok (r, s) => some (r.1, r.2, s.machine.heap.table.entries 0)
  | .error _ => none

/-- the struct of a process is lost when the file is missing -/
theorem struct_lost : (∀ res p s',
      LoadCall.run (fun _ => 0) (.load [] 0) startedKernel ≠ .ok ((res, some p), s')) ∧
    ¬ FailsClean (fun _ => 0) [] startedKernel (.load [] 0) := by
  have h : outcomeOf (LoadCall.run (fun _ => 0) (.load [] 0) startedKernel)
      = some (- EIO, none, 0xC1) := by decide +kernel
  constructor
  · intro res p s' hrun
    rw [hrun] at h
    cases (Prod.mk.inj (Prod.mk.inj (Option.some.inj h)).2).1
  · rintro ⟨res, s', hrun, -, hrest⟩
    rw [hrun] at h
    have e : s'.machine.heap.table.entries 0 = 0xC1 :=
      (Prod.mk.inj (Prod.mk.inj (Option.some.inj h)).2).2
    rw [hrest.heap] at e
    exact absurd e (by decide)

end LameOS
