import LameOS.Isr80h.Isolation

/-!
# The first process

`kernel_main` loads one process, into an empty table and an empty list of tasks.

* `FirstLoaded`          the process is in slot 0, its task is the current one, with the registers
                         that `task_init` gives it, and its image is what was read of the file;
* `processLoad_first`    what a load that returns leaves.
-/

set_option linter.unusedVariables false

namespace LameOS
open Lib Lib.Exec

section
variable {disk : Disk} {filename : List UInt8} {R : List Run} {s s' : KernelState} {stale : Nat}

/-- the first process, and the file that it is loaded from -/
structure FirstLoaded (disk : Disk) (volume : Option FatPrivate) (filename : List UInt8) (l : Member)
    (R : List Run) (s : KernelState) : Prop where
  housed : Housed [l] R s
  slot : l.slot = 0
  process : s.processes 0 = blockAddr l.blocks.process
  head : s.taskHead = blockAddr l.blocks.task
  current : s.currentTask = blockAddr l.blocks.task
  start : TaskStart s.machine l.blocks.task
  file : FileRead disk volume filename l.blocks.process s.machine

/-- an empty table has its first slot free -/
theorem freeSlot_first (h : s.processes 0 = 0) :
    processGetFreeSlot s = .ok (0, { s with accesses := 0 :: s.accesses }) := by
  have hread : processRead (0 : Nat) s = .ok (s.processes 0, { s with accesses := 0 :: s.accesses }) :=
    rfl
  show (processRead (0 : Nat) >>= fun process => if process = 0 then _ else _) s = _
  rw [bind_ok hread, if_pos h]
  rfl

/-- the load for a slot that is free, without any task -/
theorem processLoadForSlot_first (hfree : ¬ Taken s 0) (hhead : s.taskHead = 0)
    (hsized : FileSized s.volume filename) :
    Owns KernelState.machine [] (processLoadForSlot disk filename 0 stale) s (fun r s' N => r.1 = 0 →
      ∃ k space K, N.Perm ([k.task].map oneBlock ++ (space.runs ++ K)) ∧
        Made [] 0 (s.looked 0) s' k space K ∧ FileRead disk s.volume filename k.process s'.machine) := by
  obtain ⟨q, hget, hq⟩ := processGet_run s 0
  have hm := looked_machine s 0
  have hq0 : q = 0 := by
    by_contra h
    exact hfree (hq.mp h)
  rw [hq0] at hget
  have hstill : Owns KernelState.machine [] (processGet 0) s (fun a s' N => _) :=
    Owns.still (fun a s' h => by
      obtain ⟨-, rfl⟩ := run_unique hget h
      exact hm)
  unfold processLoadForSlot
  refine Owns.bind hstill (fun a s1 N1 h1 => ?_)
  obtain ⟨hrun1, rfl⟩ := h1
  obtain ⟨rfl, rfl⟩ := run_unique hget hrun1
  rw [if_neg (not_not_intro rfl)]
  refine Owns.bind (onKernel_owns (kzalloc_struct_owns (s.looked 0).machine)) (fun p s2 N2 h2 => ?_)
  obtain ⟨halloc, hs2⟩ := h2
  rcases halloc with ⟨b, hb, rfl, rfl⟩ | ⟨rfl, -, -, rfl⟩
  · have honly := filesOnly_machine hs2
    have hv2 : s2.volume = s.volume := by
      rw [hs2]
      exact looked_volume s 0
    have hhead2 : s2.taskHead = 0 := honly.taskHead.trans ((looked_tasks s 0).1.trans hhead)
    rw [if_neg blockAddr_ne]
    refine (processLoadNew_owns disk filename (T := []) (by rw [hv2]; exact hsized) hb
      (Or.inl hhead2)).mono (fun r s3 N3 h3 hres => ?_)
    rcases h3 with ⟨hneg, -⟩ | ⟨-, -, -, k, space, K, rfl, hN, hmade, hread⟩
    · omega
    · rw [hv2] at hread
      refine ⟨k, space, K, hN, ?_, hread⟩
      exact
        { hmade with
          others := fun c hc => absurd hc List.not_mem_nil
          processes := by rw [hmade.processes, honly.processes]
          accesses := by rw [hmade.accesses, honly.accesses]
          first := by
            rw [← honly.taskHead]
            exact hmade.first }
  · rw [if_pos rfl]
    exact processLoadOut_owns (Or.inr (Or.inl rfl)) (fun h => absurd h (by decide))

/-- **The first load.**  When it returns without an error, the process is in slot 0, its task is ready
to run, and its image is what was read of the file. -/
theorem processLoad_first (h : Housed [] R s) (hempty : s.processes 0 = 0) (hhead : s.taskHead = 0)
    (hsized : FileSized s.volume filename) {o : Option Nat}
    (hrun : processLoad disk filename stale s = .ok ((0, o), s')) :
    ∃ l R', FirstLoaded disk s.volume filename l R' s' := by
  unfold processLoad at hrun
  rw [bind_ok (freeSlot_first hempty), if_neg (by decide)] at hrun
  obtain ⟨s1, hs1⟩ : ∃ s1, s1 = { s with accesses := 0 :: s.accesses } := ⟨_, rfl⟩
  rw [← hs1] at hrun
  have h1 : Housed [] R s1 := hs1 ▸ h.looked _
  have hempty1 : s1.processes 0 = 0 := by rw [hs1]; exact hempty
  have hhead1 : s1.taskHead = 0 := by rw [hs1]; exact hhead
  have hvol1 : s1.volume = s.volume := by rw [hs1]
  obtain ⟨N, hend, hh, hu⟩ := processLoadForSlot_first (fun ht => ht.2 hempty1) hhead1
    (hvol1 ▸ hsized) R _ s' h1.holds hrun
  obtain ⟨k, space, K, hN, hmade, hread⟩ := hend rfl
  have hl : Housed [] R (s1.looked 0) := by
    unfold KernelState.looked
    split
    · exact h1.looked _
    · exact h1
  obtain ⟨R', hhoused⟩ := hl.made hN hh (by rw [looked_machine]; exact hu) hmade
  obtain ⟨hhead', hcurrent⟩ := hmade.first ((looked_tasks s1 0).1.trans hhead1)
  refine ⟨_, R', hhoused, rfl, ?_, hhead', hcurrent, hmade.start, hvol1 ▸ hread⟩
  rw [hmade.processes, Function.update_self]

end

end LameOS
