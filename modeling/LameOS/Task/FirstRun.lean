import LameOS.Idt.UserRun
import LameOS.Task.FirstLoad

/-!
# The way to the first process

`task_run_first_ever_task` switches to the task at the head of the list, and `task_return` leaves the
kernel for user code.  It runs on the stack that the kernel boots with, below its image's end.

* `taskReturn`, `taskRunFirstEverTask`   the code;
* `OnStack`                how far the stack has grown at each instruction of `task_return`;
* `OnStack.run`            it writes nothing but its stack;
* `FirstState`             what user code starts with;
* `taskRunFirstEverTask_run`   **the first process starts at its entry, in user mode and in its space.**
-/

set_option linter.unusedVariables false

namespace LameOS
open Lib Lib.Exec

/-! ## the code -/

/-- what the compiler leaves in the registers at a call -/
structure CallRegs where
  reg : Reg → BitVec 32
  eflags : BitVec 32

/-- a linear address leads to itself under the directory that is loaded -/
def InPlace (s : CallState) (va : Nat) : Prop :=
  (translate s.mem s.directory va).map Translation.phys = some va

instance (s : CallState) (va : Nat) : Decidable (InPlace s va) :=
  inferInstanceAs (Decidable (Option.map _ _ = _))

section
variable (alu : BitVec 32 → BitVec 32 → BitVec 32) (k : CallRegs)

/-- the processor at the first instruction of `task_return (registers)` -/
def callTaskReturn (registers : Nat) (s : CallState) : Cpu where
  reg := k.reg
  sreg := s.segments
  eflags := k.eflags
  eip := 0
  mem := s.mem.write32 (k.reg .esp + 4) (BitVec.ofNat 32 registers)

/-- `task_return (registers)`; a stack or registers that the image of the process hides are not
followed -/
def taskReturn (registers : Nat) : Prog CallState UserState := do
  let s ← get
  if ¬ (InPlace s ((k.reg .esp).toNat - 32) ∧ InPlace s ((k.reg .esp).toNat + 4) ∧
      InPlace s registers) then
    throw .outOfBounds
  else
    match (callTaskReturn k registers s).run alu taskReturnCode 40 with
    | none => throw .endlessLoop
    | some c =>
      set ({ s.onto { s.kernel.machine with mem := c.mem } with segments := c.sreg } : CallState)
      return iretd c

/-- a `panic` without a current task -/
def taskRunFirstEverTask : Prog CallState UserState := do
  let s ← get
  if s.kernel.currentTask = 0 then
    throw .endlessLoop
  else
    taskSwitch s.kernel.taskHead
    taskReturn alu k (s.kernel.taskHead + TaskField.registers)

end

/-! ## the stack of `task_return` -/

/-- the words on the stack before each instruction of `taskReturnCode` -/
def stackDepth : List Nat :=
  [0, 0, 0, 1, 2, 3, 2, 2, 3, 4, 5, 5, 5, 5, 5, 5, 6, 6, 5, 7, 8, 8, 8, 8, 8, 8, 8, 8, 8, 8, 7]

/-- `task_return` called with the stack pointer `E`, at one of its instructions: inside the call the way
back is on the stack, and the words of the heap are those of `m` -/
structure OnStack (E : BitVec 32) (m : Mem) (c : Cpu) : Prop where
  depth : ∃ d, stackDepth[c.eip]? = some d ∧ c.reg .esp = E - BitVec.ofNat 32 (4 * d)
  back : 19 ≤ c.eip → c.mem.read32 (slot E 6) = 17
  above : ∀ a, Mem.Word a → heapAddress ≤ a → c.mem.load a = m.load a

namespace OnStack
variable {alu : BitVec 32 → BitVec 32 → BitVec 32} {E : BitVec 32} {m : Mem} {c c' : Cpu} {n d : Nat}

theorem esp (h : OnStack E m c) (hd : stackDepth[c.eip]? = some d) :
    c.reg .esp = E - BitVec.ofNat 32 (4 * d) := by
  obtain ⟨d', hd', hesp⟩ := h.depth
  obtain rfl : d = d' := Option.some.inj (hd.symm.trans hd')
  exact hesp

/-- an instruction that leaves memory and the stack pointer alone -/
theorem quiet (h : OnStack E m c) (hmem : c'.mem = c.mem) (hesp : c'.reg .esp = c.reg .esp)
    (heip : c'.eip = c.eip + 1) (hd : stackDepth[c.eip + 1]? = stackDepth[c.eip]?)
    (hback : c.eip + 1 ≠ 19) : OnStack E m c' where
  depth := by
    rw [heip, hd, hesp]
    exact h.depth
  back h19 := by
    rw [hmem]
    exact h.back (by omega)
  above a ha hle := by
    rw [hmem]
    exact h.above a ha hle

/-- a push, of any value -/
theorem pushed (hE : 32 ≤ E.toNat) (hE' : E.toNat ≤ 0x200000) (h : OnStack E m c) (v : BitVec 32)
    (hd : stackDepth[c.eip]? = some d) (hd8 : d < 8) (hmem : c'.mem = (c.pushVal v).mem)
    (hesp : c'.reg .esp = (c.pushVal v).reg .esp) (hnext : stackDepth[c'.eip]? = some (d + 1))
    (hback : 19 ≤ c'.eip → (19 ≤ c.eip ∧ d = 7) ∨ (d = 6 ∧ v = 17)) : OnStack E m c' := by
  have hslot : c.reg .esp - 4 = slot E d := by rw [h.esp hd, sub_slot]
  have hmem : c'.mem = c.mem.write32 (slot E d) v := by rw [hmem, Cpu.pushVal_mem, hslot]
  refine ⟨⟨d + 1, hnext, ?_⟩, fun h19 => ?_, fun a ha hle => ?_⟩
  · rw [hesp, Cpu.pushVal_esp, hslot]
    rfl
  · rw [hmem]
    rcases hback h19 with ⟨hin, rfl⟩ | ⟨rfl, rfl⟩
    · rw [Mem.read32_write32_apart _ _ (slot_apart E (by decide) (by decide) (by decide)), h.back hin]
    · exact Mem.read32_write32 _ _ _
  · have hlow : (slot E d).toNat + 4 ≤ 0x200000 := by
      unfold slot
      rw [BitVec.toNat_sub, BitVec.toNat_ofNat]
      omega
    rw [hmem, write32_low _ hlow v ha hle, h.above a ha hle]

/-- a word less on the stack -/
theorem dropped (h : OnStack E m c) (hd : stackDepth[c.eip]? = some (d + 1)) (hmem : c'.mem = c.mem)
    (hesp : c'.reg .esp = c.reg .esp + 4) (hnext : stackDepth[c'.eip]? = some d)
    (hback : 19 ≤ c'.eip → 19 ≤ c.eip) : OnStack E m c' where
  depth := by
    refine ⟨d, hnext, ?_⟩
    rw [hesp, h.esp hd]
    exact slot_add E d
  back h19 := by
    rw [hmem]
    exact h.back (hback h19)
  above a ha hle := by
    rw [hmem]
    exact h.above a ha hle

/-- **One instruction** -/
theorem exec (hE : 32 ≤ E.toNat) (hE' : E.toNat ≤ 0x200000) (h : OnStack E m c) {i : Instr}
    (hi : taskReturnCode[c.eip]? = some i) (hne : i ≠ .iretd) : OnStack E m (c.exec alu i) := by
  obtain ⟨reg, sreg, eflags, eip, mem⟩ := c
  have hlt : eip < 31 := (List.getElem?_eq_some_iff.mp hi).1
  dsimp only at hi
  have hquiet : ∀ {c' : Cpu}, c'.mem = mem → c'.reg .esp = reg .esp → c'.eip = eip + 1 →
      stackDepth[eip + 1]? = stackDepth[eip]? → eip + 1 ≠ 19 → OnStack E m c' := h.quiet
  have hpush : ∀ {d : Nat} (v : BitVec 32), stackDepth[eip]? = some d → d < 8 →
      stackDepth[eip + 1]? = some (d + 1) → (19 ≤ eip + 1 → 19 ≤ eip ∧ d = 7) →
      OnStack E m (Cpu.pushVal ⟨reg, sreg, eflags, eip, mem⟩ v).next := fun v hd hd8 hnext hback =>
    h.pushed hE hE' v hd hd8 rfl rfl hnext (fun h19 => Or.inl (hback h19))
  have hdrop : ∀ {c' : Cpu} {d n : Nat}, stackDepth[eip]? = some (d + 1) → c'.mem = mem →
      c'.reg .esp = reg .esp + 4 → c'.eip = n → stackDepth[n]? = some d → (19 ≤ n → 19 ≤ eip) →
      OnStack E m c' := by
    rintro c' d n hd hmem hesp rfl
    exact h.dropped hd hmem hesp
  interval_cases eip <;> cases hi
  case «18».refl => exact absurd rfl hne
  case «16».refl =>
    exact h.pushed hE hE' 17 (d := 6) rfl (by decide) rfl rfl rfl (fun _ => Or.inr ⟨rfl, rfl⟩)
  case «30».refl =>
    have htop : Cpu.top ⟨reg, sreg, eflags, 30, mem⟩ = 17 := by
      have hesp : reg .esp = slot E 6 := h.esp (d := 7) rfl
      show mem.read32 (reg .esp) = 17
      rw [hesp]
      exact h.back (show 19 ≤ 30 by decide)
    exact hdrop (d := 6) rfl rfl rfl (congrArg BitVec.toNat htop) rfl (by decide)
  case «5».refl => exact hdrop (n := 6) rfl rfl rfl rfl rfl (by decide)
  case «17».refl => exact hdrop (n := 18) rfl rfl rfl rfl rfl (by decide)
  case «29».refl => exact hdrop (n := 30) rfl rfl rfl rfl rfl (by decide)
  case «2».refl | «3».refl | «4».refl | «7».refl | «8».refl | «9».refl | «15».refl | «19».refl =>
    exact hpush _ rfl (by decide) rfl (by decide)
  all_goals exact hquiet rfl rfl rfl rfl (by decide)

theorem run (hE : 32 ≤ E.toNat) (hE' : E.toNat ≤ 0x200000) (fuel : Nat) : ∀ {c c' : Cpu},
    OnStack E m c → c.run alu taskReturnCode fuel = some c' → OnStack E m c' := by
  induction fuel with
  | zero =>
    intro c c' h hrun
    cases hrun
  | succ fuel ih =>
    intro c c' h hrun
    cases hi : taskReturnCode[c.eip]? with
    | none =>
      unfold Cpu.run at hrun
      rw [hi] at hrun
      cases hrun
    | some i =>
      by_cases hne : i = .iretd
      · unfold Cpu.run at hrun
        rw [hi, hne] at hrun
        cases hrun
        exact h
      · rw [Cpu.run_step fuel c i hi hne] at hrun
        exact ih (h.exec hE hE' hi hne) hrun

end OnStack

/-! ## the registers of a new task -/

/-- the registers that `task_init` gives a task -/
def firstRegisters : Registers :=
  { zeroRegisters with ip := 0x400000, cs := 0x1B, esp := 0x3FF000, ss := 0x23 }

/-- what user code starts with: the registers of the task, but for the frame pointer and the flags of the
kernel -/
structure FirstState (k : CallRegs) (u : UserState) : Prop where
  eip : u.eip = 0x400000
  cs : u.cs = 0x1B
  ss : u.ss = 0x23
  esp : u.reg .esp = 0x3FF000
  ebp : u.reg .ebp = k.reg .esp
  general : ∀ r, r ≠ .esp → r ≠ .ebp → u.reg r = 0
  eflags : u.eflags = pushedFlags k.eflags

section
variable {m : Machine} {b : Nat} {E : BitVec 32}

theorem TaskStart.registers (h : TaskStart m b) : ∀ i (hi : i < 12),
    m.word b (1 + i) = (firstRegisters.words.get ⟨i, hi⟩).toNat := by
  intro i hi
  interval_cases i
  · exact h.general 1 (by decide) (by decide)
  · exact h.general 2 (by decide) (by decide)
  · exact h.general 3 (by decide) (by decide)
  · exact h.general 4 (by decide) (by decide)
  · exact h.general 5 (by decide) (by decide)
  · exact h.general 6 (by decide) (by decide)
  · exact h.general 7 (by decide) (by decide)
  · exact h.ip
  · exact h.cs
  · exact h.flags
  · exact h.esp
  · exact h.ss

/-- a register of the task, as an address -/
theorem register_addr (b i : Nat) : BitVec.ofNat 32 (blockAddr b + TaskField.registers)
    + BitVec.ofNat 32 (4 * i) = BitVec.ofNat 32 (blockAddr b + 4 * (1 + i)) := by
  rw [← BitVec.ofNat_add]
  congr 1
  show blockAddr b + 4 + 4 * i = _
  omega

theorem register_word {i : Nat} (hb : b < heapBlocks) (hi : i < 12) :
    Mem.Word (blockAddr b + 4 * (1 + i)) ∧ heapAddress ≤ blockAddr b + 4 * (1 + i) :=
  ⟨word_block hb (by omega), by unfold blockAddr; omega⟩

/-- the registers of the task lie above the stack of the kernel -/
theorem register_offStack (hb : b < heapBlocks) (hE : 32 ≤ E.toNat) (hE' : E.toNat ≤ 0x200000) :
    OffStack E (BitVec.ofNat 32 (blockAddr b + TaskField.registers)) := by
  intro i hi j hj
  obtain ⟨⟨h4, hlt⟩, hle⟩ := register_word hb hi
  have hle : 0x1000000 ≤ blockAddr b + 4 * (1 + i) := hle
  rw [register_addr]
  have h1 : (BitVec.ofNat 32 (blockAddr b + 4 * (1 + i))).toNat = blockAddr b + 4 * (1 + i) := by
    rw [BitVec.toNat_ofNat]
    omega
  have h2 : (slot E j).toNat = E.toNat - 4 * (j + 1) := by
    unfold slot
    rw [BitVec.toNat_sub, BitVec.toNat_ofNat]
    omega
  constructor <;> rw [BitVec.toNat_sub, h1, h2] <;> omega

end

/-! ## `task_return` -/

section
variable (alu : BitVec 32 → BitVec 32 → BitVec 32) {k : CallRegs} {s : CallState} {b : Nat}

/-- what `iretd` finds on the stack of `task_return` -/
theorem iretd_first {E p : BitVec 32} {flags : BitVec 32} {c : Cpu}
    (hs : Stack E p firstRegisters [0x23, 0x3FF000, flags, 0x1B, 0x400000] c)
    (hl : Loaded E firstRegisters c) : (iretd c).eip = 0x400000 ∧ (iretd c).cs = 0x1B ∧
      (iretd c).eflags = flags ∧ (iretd c).reg .esp = 0x3FF000 ∧ (iretd c).ss = 0x23 ∧
      (iretd c).reg .ebp = E ∧ ∀ r, r ≠ .esp → r ≠ .ebp → (iretd c).reg r = 0 := by
  have hesp : c.reg .esp = slot E 4 := hs.esp
  have hword : ∀ i j, i + j = 4 → c.stackWord i = c.mem.read32 (slot E j) := by
    intro i j hij
    unfold Cpu.stackWord
    rw [hesp]
    congr 1
    unfold slot
    rw [show 4 * (j + 1) = 20 - 4 * i by omega]
    have hi : i ≤ 4 := by omega
    interval_cases i <;> bv_omega
  refine ⟨(hword 0 4 rfl).trans (hs.word 4 (show 4 < 5 by decide)), (hword 1 3 rfl).trans (hs.word 3 (show 3 < 5 by decide)),
    (hword 2 2 rfl).trans (hs.word 2 (show 2 < 5 by decide)), ?_, (hword 4 0 rfl).trans (hs.word 0 (show 0 < 5 by decide)),
    hl.ebp, fun r hsp hbp => ?_⟩
  · show Function.update c.reg Reg.esp (c.stackWord 3) Reg.esp = _
    rw [Function.update_self]
    exact (hword 3 1 rfl).trans (hs.word 1 (show 1 < 5 by decide))
  · show Function.update c.reg Reg.esp (c.stackWord 3) r = 0
    rw [Function.update_of_ne hsp]
    cases r with
    | esp => exact absurd rfl hsp
    | ebp => exact absurd rfl hbp
    | eax => exact hl.eax
    | ebx => exact hl.ebx
    | ecx => exact hl.ecx
    | edx => exact hl.edx
    | esi => exact hl.esi
    | edi => exact hl.edi

/-- the words of the heap are the same -/
def HeapKept (m m' : Mem) : Prop := ∀ a, Mem.Word a → heapAddress ≤ a → m'.load a = m.load a

/-- **`task_return`** of a new task -/
theorem taskReturn_run (h : TaskStart s.kernel.machine b) (hb : b < heapBlocks)
    (hE : 32 ≤ (k.reg .esp).toNat) (hE' : (k.reg .esp).toNat + 8 ≤ 0x200000)
    (hplace : ∀ va, va < 0x200000 ∨ va = blockAddr b + TaskField.registers → InPlace s va) :
    ∃ u mem segments, taskReturn alu k (blockAddr b + TaskField.registers) s
        = .ok (u, { s.onto { s.kernel.machine with mem := mem } with segments := segments }) ∧
      FirstState k u ∧ HeapKept s.mem mem := by
  obtain ⟨E, hEdef⟩ : ∃ E, k.reg .esp = E := ⟨_, rfl⟩
  rw [hEdef] at hE hE'
  obtain ⟨c, hcdef⟩ : ∃ c, callTaskReturn k (blockAddr b + TaskField.registers) s = c := ⟨_, rfl⟩
  have hesp : c.reg .esp = E := by rw [← hcdef]; exact hEdef
  have hmem : c.mem = s.mem.write32 (E + 4) (BitVec.ofNat 32 (blockAddr b + TaskField.registers)) := by
    rw [← hcdef, ← hEdef]
    rfl
  have heip : c.eip = 0 := by rw [← hcdef]; rfl
  have hkept : HeapKept s.mem c.mem := by
    intro a ha hle
    rw [hmem]
    refine write32_low _ ?_ _ ha hle
    rw [BitVec.toNat_add]
    show (E.toNat + 4) % 4294967296 + 4 ≤ 0x200000
    omega
  have hregs : firstRegisters.At c.mem (BitVec.ofNat 32 (blockAddr b + TaskField.registers)) := by
    intro i hi
    obtain ⟨hw, hle⟩ := register_word hb hi
    rw [register_addr]
    refine BitVec.eq_of_toNat_eq ?_
    exact (hkept _ hw hle).trans (h.registers i hi)
  have hstack : Stack E (BitVec.ofNat 32 (blockAddr b + TaskField.registers)) firstRegisters [] c := by
    refine ⟨?_, fun i hi => absurd hi (Nat.not_lt_zero i), ?_, hregs⟩
    · rw [hesp]
      exact (BitVec.sub_zero E).symm
    · rw [hmem, Mem.read32_write32]
  have hon : OnStack E c.mem c := by
    refine ⟨⟨0, by rw [heip]; rfl, ?_⟩, fun h19 => by omega, fun a _ _ => rfl⟩
    rw [hesp]
    exact (BitVec.sub_zero E).symm
  obtain ⟨c', hrun, hs, hl⟩ := task_return_run alu
    (register_offStack hb hE (by omega)) c heip hstack
  have hkept' := (hon.run hE (by omega) 40 hrun).above
  obtain ⟨h1, h2, h3, h4, h5, h6, h7⟩ := iretd_first hs hl
  have hflags : c.eflags = k.eflags := by rw [← hcdef]; rfl
  rw [hflags] at h3
  refine ⟨iretd c', c'.mem, c'.sreg, ?_, ⟨h1, h2, h5, h4, h6.trans hEdef.symm, h7, h3⟩,
    fun a ha hle => (hkept' a ha hle).trans (hkept a ha hle)⟩
  unfold taskReturn
  rw [bind_ok (get_run s), if_neg (not_not_intro ⟨hplace _ (Or.inl (by rw [hEdef]; omega)),
    hplace _ (Or.inl (by rw [hEdef]; omega)), hplace _ (Or.inr rfl)⟩)]
  rw [hcdef, hrun]
  rfl

end

/-! ## the first task -/

section
variable (alu : BitVec 32 → BitVec 32 → BitVec 32) {k : CallRegs} {disk : Disk}
  {volume : Option FatPrivate} {filename : List UInt8} {l : Member} {R : List Run} {s : CallState}

/-- a page that is no page of the process -/
theorem TaskSpace.inPlace {entry : Nat → Nat} {space : Space} {t : Nat} {L : List Run}
    (h : TaskSpace entry space t L s) (hdir : s.directory = blockAddr space.directory) {va : Nat}
    (hva : va < 4294967296) (he : entry (va / 4096) = va / 4096 * 4096 + 5) : InPlace s va := by
  have htr := translate_entry h hdir va
  rw [Nat.mod_eq_of_lt hva, he, pageTranslation_readonly] at htr
  unfold InPlace
  rw [htr]
  refine congrArg some ?_
  show va / 4096 * 4096 + va % 4096 = va
  omega

theorem taskSwitch_first (h : Housed [l] R s.kernel) (hc : s.kernelChunk ≠ 0) :
    taskSwitch (blockAddr l.blocks.task) s = .ok ((), s.switched l) ∧ ∃ rest,
      Running (processEntry l.blocks) l.space l.blocks.task
        (⟨l.blocks.process, 2⟩ :: (l.userRuns ++ rest)) (s.switched l) := by
  have hl : l ∈ [l] := List.mem_singleton.mpr rfl
  obtain ⟨rest, hh, -⟩ := h.space_holds hl
  have hplaced := h.placed l hl
  have hrun1 : Running (processEntry l.blocks) l.space l.blocks.task
      (⟨l.blocks.process, 2⟩ :: (l.userRuns ++ rest))
      { s with kernel := { s.kernel with currentTask := blockAddr l.blocks.task } } :=
    ⟨hh, rfl, hplaced.pageDirectory, hplaced.maps,
      fun v hv => processEntry_present (h.image_inside hl) hv, hc⟩
  refine ⟨?_, rest, hrun1.under _⟩
  unfold taskSwitch
  rw [bind_ok (modify_run _ s), bind_ok (readDirectory_run hrun1.taskSpace),
    pagingSwitch_run hrun1.taskSpace]
  rfl

/-- the first process is seated in its slot -/
theorem FirstLoaded.seated (h : FirstLoaded disk volume filename l R s.kernel)
    (hc : s.kernelChunk ≠ 0) (himage : blocksFor l.blocks.size ≤ 511) (hcol : s.terminal.InColumns) :
    Seated [l] R l (s.switched l) := by
  have hcur : ({ s.kernel with currentTask := blockAddr l.blocks.task } : KernelState) = s.kernel := by
    rw [← h.current]
  have hslot : InSlot s.kernel l.slot := by
    rw [h.slot]
    refine ⟨by decide, ?_⟩
    show s.kernel.processes 0 ≠ 0
    rw [h.process]
    exact blockAddr_ne
  have hprocess : s.kernel.processes l.slot = blockAddr l.blocks.process := by
    rw [h.slot]
    exact h.process
  have hhoused : Housed [l] R (s.switched l).kernel := by
    show Housed [l] R { s.kernel with currentTask := blockAddr l.blocks.task }
    rw [hcur]
    exact h.housed
  exact ⟨hhoused, List.mem_singleton.mpr rfl, hslot, hprocess, rfl, rfl, hc, himage, hcol⟩

/-- **The first process starts.**  `task_run_first_ever_task` leaves for user code at the entry of the
process, in user mode and in its space; memory is unchanged from the heap on. -/
theorem taskRunFirstEverTask_run (h : FirstLoaded disk volume filename l R s.kernel)
    (hc : s.kernelChunk ≠ 0) (himage : blocksFor l.blocks.size ≤ 511) (hcol : s.terminal.InColumns)
    (hE : 32 ≤ (k.reg .esp).toNat) (hE' : (k.reg .esp).toNat + 8 ≤ 0x200000) :
    ∃ u s', taskRunFirstEverTask alu k s = .ok (u, s') ∧ FirstState k u ∧ Seated [l] R l s' ∧
      HeapKept s.mem s'.mem := by
  have hl : l ∈ [l] := List.mem_singleton.mpr rfl
  obtain ⟨hswitch, rest, hrun⟩ := taskSwitch_first h.housed hc
  have hseat := h.seated hc himage hcol
  have hb := hrun.block_lt
  have hk := h.housed.image_inside hl
  have hplace : ∀ va, va < 0x200000 ∨ va = blockAddr l.blocks.task + TaskField.registers →
      InPlace (s.switched l) va := by
    intro va hva
    have hpage : va / 4096 < 1048576 ∧ ¬ ImagePage l.blocks (va / 4096) ∧
        ¬ StackPage (va / 4096) := by
      have hpage := blockAddr_page l.blocks.task
      have hreg : TaskField.registers = 4 := rfl
      have hblocks : heapBlocks = 25600 := rfl
      refine ⟨by omega, fun hi => ?_, fun hs => ?_⟩
      · obtain ⟨h1, h2⟩ := hi
        omega
      · obtain ⟨h1, h2⟩ := hs
        omega
    exact hrun.taskSpace.inPlace rfl (by omega) (processEntry_other hk hpage.1 hpage.2.1 hpage.2.2)
  have hstart : TaskStart (s.switched l).kernel.machine l.blocks.task := h.start
  have hmem : (s.switched l).mem = s.mem := rfl
  generalize s.switched l = s1 at hswitch hrun hseat hplace hstart hmem
  obtain ⟨u, mem, segments, hreturn, hfirst, hkept⟩ := taskReturn_run alu hstart hb hE hE' hplace
  obtain ⟨s', hs'⟩ : ∃ s', ({ s1.onto { s1.kernel.machine with mem := mem } with
      segments := segments } : CallState) = s' := ⟨_, rfl⟩
  rw [hs'] at hreturn
  have hmem' : s'.mem = mem := by rw [← hs']; rfl
  refine ⟨u, s', ?_, hfirst, ?_, ?_⟩
  · unfold taskRunFirstEverTask
    rw [bind_ok (get_run s), if_neg (by rw [h.current]; exact blockAddr_ne), h.head, bind_ok hswitch]
    exact hreturn
  · rw [← hs']
    exact hseat.onto (hseat.housed.low hkept) rfl rfl rfl hseat.columns
  · rw [hmem', ← hmem]
    exact hkept

end

end LameOS
