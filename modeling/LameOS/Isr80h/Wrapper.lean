import LameOS.Isr80h.PrintedText
import LameOS.Task.KernelPages
import LameOS.Task.ProcessTable

/-!
# `isr80h_wrapper`: a trip through the kernel

The processor pushes five words on the kernel's stack, the wrapper pushes the general purpose
registers, calls `isr80h_handler` and unwinds.  The kernel's stack lies where it is under both
directories; the C function keeps `ebx`, `esi`, `edi`, `ebp` and `esp`.

* `interrupt`, `iretd`       what the processor does on the way in and out;
* `isr80hWrapper`            the assembly;
* `trip`                     from user code to user code;
* `Stacked`                  the words that have been pushed;
* `isr80h_trip_iff`          the trip brings the user's state back exactly when the command stays on
                             the screen.
-/

set_option linter.unusedVariables false

namespace LameOS
open Lib Lib.Exec

/-! ## the processor -/

/-- what user code runs with -/
structure UserState where
  reg : Reg → BitVec 32
  sreg : SReg → BitVec 16
  eip : BitVec 32
  cs : BitVec 32
  eflags : BitVec 32
  ss : BitVec 32

/-- the processor and the kernel during a system call -/
structure Interrupted where
  cpu : Cpu
  call : CallState

/-- what a C function finds: the memory and the segments of the processor -/
def Interrupted.kernel (x : Interrupted) : CallState :=
  { x.call.onto { x.call.kernel.machine with mem := x.cpu.mem } with segments := x.cpu.sreg }

def Interrupted.withKernel (s : CallState) (x : Interrupted) : Interrupted :=
  { cpu := { x.cpu with mem := s.mem, sreg := s.segments }, call := s }

/-- what a C function leaves in the registers it need not keep -/
structure Clobbered where
  ecx : BitVec 32
  edx : BitVec 32
  eflags : BitVec 32

/-- the processor after a function that returned `res` -/
def Clobbered.leave (k : Clobbered) (res : Nat) (x : Interrupted) : Interrupted :=
  { x with cpu := { ((x.cpu.set .eax (BitVec.ofNat 32 res)).set .ecx k.ecx).set .edx k.edx with
      eflags := k.eflags } }

/-- the instructions of the wrapper -/
inductive IsrInstr where
  | plain (i : Instr)
  | pushad
  | callHandler
  | storeAbs (addr : BitVec 32) (src : Reg)
  | popad
  | loadAbs (dst : Reg) (addr : BitVec 32)
  deriving DecidableEq, Repr

namespace Cpu

/-- `esp` is pushed as it was before the instruction -/
def pushad (c : Cpu) : Cpu :=
  let esp := c.reg .esp
  let c := (((c.pushVal (c.reg .eax)).pushVal (c.reg .ecx)).pushVal (c.reg .edx)).pushVal (c.reg .ebx)
  (((c.pushVal esp).pushVal (c.reg .ebp)).pushVal (c.reg .esi)).pushVal (c.reg .edi)

/-- the word `i` words above the top of the stack -/
def stackWord (c : Cpu) (i : Nat) : BitVec 32 := c.mem.read32 (c.reg .esp + BitVec.ofNat 32 (4 * i))

/-- the stored `esp` is skipped -/
def popad (c : Cpu) : Cpu :=
  { c with reg := fun
    | .edi => c.stackWord 0
    | .esi => c.stackWord 1
    | .ebp => c.stackWord 2
    | .ebx => c.stackWord 4
    | .edx => c.stackWord 5
    | .ecx => c.stackWord 6
    | .eax => c.stackWord 7
    | .esp => c.reg .esp + 32 }

end Cpu

/-- the way into the kernel: the stack of `tss.esp0`, and the five words of the interrupt -/
def interrupt (u : UserState) (m : Mem) : Cpu :=
  let c : Cpu :=
    { reg := Function.update u.reg .esp (BitVec.ofNat 32 tssEsp0), sreg := u.sreg,
      eflags := u.eflags, eip := 0, mem := m }
  ((((c.pushVal u.ss).pushVal (u.reg .esp)).pushVal u.eflags).pushVal u.cs).pushVal u.eip

/-- the way back to user code -/
def iretd (c : Cpu) : UserState where
  reg := Function.update c.reg .esp (c.stackWord 3)
  sreg := c.sreg
  eip := c.stackWord 0
  cs := c.stackWord 1
  eflags := c.stackWord 2
  ss := c.stackWord 4

section
variable (alu : BitVec 32 → BitVec 32 → BitVec 32) (k : Clobbered) (buf : List UInt8)

/-- `call isr80h_handler`, with the command on top of the stack and the frame below it -/
def callIsr80hHandler : Prog Interrupted Unit := do
  let x ← get
  let command := cint x.cpu.top.toNat
  let frame := (x.cpu.stackWord 1).toNat
  let res ← part Interrupted.kernel Interrupted.withKernel (isr80hHandler command frame buf)
  modify (k.leave res)

def IsrInstr.exec : IsrInstr → Prog Interrupted Unit
  | .plain i => modify (fun x => { x with cpu := x.cpu.exec alu i })
  | .pushad => modify (fun x => { x with cpu := x.cpu.pushad })
  | .callHandler => callIsr80hHandler k buf
  | .storeAbs addr src => modify (fun x =>
      { x with cpu := { x.cpu with mem := x.cpu.mem.write32 addr (x.cpu.reg src) } })
  | .popad => modify (fun x => { x with cpu := x.cpu.popad })
  | .loadAbs dst addr => modify (fun x =>
      { x with cpu := x.cpu.set dst (x.cpu.mem.read32 addr) })

/-- the wrapper up to its `iretd` -/
def isr80hWrapper (tmpRes : BitVec 32) : List IsrInstr :=
  [.pushad, .plain (.push .esp), .plain (.push .eax), .callHandler, .storeAbs tmpRes .eax,
    .plain (.addImm .esp 8), .popad, .loadAbs .eax tmpRes]

/-- from user code through the kernel to user code -/
def trip (tmpRes : BitVec 32) (u : UserState) (s : CallState) :
    Except Fault (UserState × CallState) := do
  let (_, x) ← forM (isr80hWrapper tmpRes) (IsrInstr.exec alu k buf) ⟨interrupt u s.mem, s⟩
  return (iretd x.cpu, x.call.onto { x.call.kernel.machine with mem := x.cpu.mem })

end

/-! ## the stack of the kernel -/

/-- the memory with words pushed below `tssEsp0`, the last one at the head of the list -/
def pushes (m : Mem) : List (BitVec 32) → Mem
  | [] => m
  | w :: ws => (pushes m ws).store (tssEsp0 - 4 * (ws.length + 1)) w.toNat

theorem stackAddr_word {n : Nat} (hn : n ≤ 16) : Mem.Word (tssEsp0 - 4 * n) := by
  unfold tssEsp0
  constructor <;> omega

theorem pushes_load (m : Mem) (ws : List (BitVec 32)) : ∀ (i : Nat) (hi : i < ws.length),
    ws.length ≤ 16 → (pushes m ws).load (tssEsp0 - 4 * ws.length + 4 * i) = (ws.get ⟨i, hi⟩).toNat := by
  induction ws with
  | nil => exact fun i hi _ => absurd hi (Nat.not_lt_zero i)
  | cons w ws ih =>
    intro i hi hlen
    rw [List.length_cons] at hi hlen
    cases i with
    | zero => exact Mem.load_store _ _ w.isLt
    | succ i =>
      have e := ih i (by omega) (by omega)
      have haddr : tssEsp0 - 4 * (ws.length + 1) + 4 * (i + 1) = tssEsp0 - 4 * ws.length + 4 * i := by
        unfold tssEsp0
        omega
      have hw : Mem.Word (tssEsp0 - 4 * ws.length + 4 * i) := by
        unfold tssEsp0
        constructor <;> omega
      show ((pushes m ws).store _ _).load (tssEsp0 - 4 * (ws.length + 1) + 4 * (i + 1)) = _
      rw [haddr, Mem.load_store_ne _ _ (stackAddr_word hlen) hw (by unfold tssEsp0; omega), e]
      rfl

/-- the words above the stack and the ones below it -/
theorem pushes_other (m : Mem) {a : Nat} (ha : Mem.Word a) (h : tssEsp0 ≤ a ∨ a < tssEsp0 - 64)
    (ws : List (BitVec 32)) (hlen : ws.length ≤ 16) : (pushes m ws).load a = m.load a := by
  induction ws with
  | nil => rfl
  | cons w ws ih =>
    rw [List.length_cons] at hlen
    have hne : a ≠ tssEsp0 - 4 * (ws.length + 1) := by
      unfold tssEsp0 at h ⊢
      omega
    show ((pushes m ws).store _ _).load a = _
    rw [Mem.load_store_ne _ _ (stackAddr_word hlen) ha hne, ih (by omega)]

/-- the words `ws` have been pushed, and the other registers are those of `u` -/
structure Stacked (u : UserState) (m : Mem) (ws : List (BitVec 32)) (c : Cpu) : Prop where
  esp : c.reg .esp = BitVec.ofNat 32 (tssEsp0 - 4 * ws.length)
  mem : c.mem = pushes m ws
  reg : ∀ r, r ≠ .esp → c.reg r = u.reg r
  sreg : c.sreg = u.sreg

section
variable {u : UserState} {m : Mem} {ws : List (BitVec 32)} {c : Cpu}

theorem Stacked.push (h : Stacked u m ws c) (hlen : ws.length < 16) (v : BitVec 32) :
    Stacked u m (v :: ws) (c.pushVal v) := by
  have hesp : c.reg .esp - 4 = BitVec.ofNat 32 (tssEsp0 - 4 * (ws.length + 1)) := by
    rw [h.esp]
    unfold tssEsp0
    refine BitVec.eq_of_toNat_eq ?_
    rw [BitVec.toNat_sub, BitVec.toNat_ofNat, BitVec.toNat_ofNat]
    show (2 ^ 32 - 4 + _) % _ = _
    omega
  refine ⟨?_, ?_, fun r hr => ?_, h.sreg⟩
  · rw [Cpu.pushVal_esp, hesp]
    rfl
  · rw [Cpu.pushVal_mem, hesp, h.mem]
    show _ = (pushes m ws).write32 _ (BitVec.ofNat 32 v.toNat)
    rw [BitVec.ofNat_toNat, BitVec.setWidth_eq]
  · rw [Cpu.pushVal_reg _ _ _ hr, h.reg r hr]

end

/-- the frame of the interrupt, from its lowest address on -/
def UserState.frame (u : UserState) : List (BitVec 32) :=
  [u.reg .edi, u.reg .esi, u.reg .ebp, BitVec.ofNat 32 (tssEsp0 - 20), u.reg .ebx, u.reg .edx,
    u.reg .ecx, u.reg .eax, u.eip, u.cs, u.eflags, u.reg .esp, u.ss]

/-- the frame and the two arguments of the handler -/
def UserState.pushed (u : UserState) : List (BitVec 32) :=
  u.reg .eax :: BitVec.ofNat 32 (tssEsp0 - 52) :: u.frame

theorem interrupt_stacked (u : UserState) (m : Mem) :
    Stacked u m [u.eip, u.cs, u.eflags, u.reg .esp, u.ss] (interrupt u m) := by
  have h0 : Stacked u m []
      { reg := Function.update u.reg .esp (BitVec.ofNat 32 tssEsp0), sreg := u.sreg,
        eflags := u.eflags, eip := 0, mem := m } := by
    refine ⟨?_, rfl, fun r hr => ?_, rfl⟩
    · show Function.update u.reg Reg.esp (BitVec.ofNat 32 tssEsp0) Reg.esp = _
      rw [Function.update_self]
      rfl
    · exact Function.update_of_ne hr _ _
  have h1 := h0.push (by decide) u.ss
  have h2 := h1.push (show 1 < 16 by decide) (u.reg .esp)
  have h3 := h2.push (show 2 < 16 by decide) u.eflags
  have h4 := h3.push (show 3 < 16 by decide) u.cs
  exact h4.push (show 4 < 16 by decide) u.eip

theorem pushad_stacked {u : UserState} {m : Mem} {c : Cpu}
    (h : Stacked u m [u.eip, u.cs, u.eflags, u.reg .esp, u.ss] c) :
    Stacked u m u.frame c.pushad := by
  have h1 := h.push (show 5 < 16 by decide) (u.reg .eax)
  have h2 := h1.push (show 6 < 16 by decide) (u.reg .ecx)
  have h3 := h2.push (show 7 < 16 by decide) (u.reg .edx)
  have h4 := h3.push (show 8 < 16 by decide) (u.reg .ebx)
  have h5 := h4.push (show 9 < 16 by decide) (BitVec.ofNat 32 (tssEsp0 - 20))
  have h6 := h5.push (show 10 < 16 by decide) (u.reg .ebp)
  have h7 := h6.push (show 11 < 16 by decide) (u.reg .esi)
  have h8 := h7.push (show 12 < 16 by decide) (u.reg .edi)
  have hesp : c.reg .esp = BitVec.ofNat 32 (tssEsp0 - 20) := h.esp
  have e : c.pushad = (((((((c.pushVal (u.reg .eax)).pushVal (u.reg .ecx)).pushVal
      (u.reg .edx)).pushVal (u.reg .ebx)).pushVal (BitVec.ofNat 32 (tssEsp0 - 20))).pushVal
      (u.reg .ebp)).pushVal (u.reg .esi)).pushVal (u.reg .edi) := by
    unfold Cpu.pushad
    dsimp only
    rw [hesp, h.reg .eax (by decide), h.reg .ecx (by decide), h.reg .edx (by decide),
      h.reg .ebx (by decide), h4.reg .ebp (by decide), h4.reg .esi (by decide),
      h4.reg .edi (by decide)]
  rw [e]
  exact h8

/-! ## the way back -/

/-- the words that were pushed are in memory -/
def StackKept (u : UserState) (m : Mem) : Prop :=
  ∀ i (hi : i < 15), m.load (tssEsp0 - 60 + 4 * i) = (u.pushed.get ⟨i, hi⟩).toNat

theorem pushes_kept (u : UserState) (m : Mem) : StackKept u (pushes m u.pushed) := fun i hi =>
  pushes_load m u.pushed i hi (show 15 ≤ 16 by decide)

section
variable {u : UserState} {c : Cpu}

theorem StackKept.word (h : StackKept u c.mem) {j : Nat}
    (hesp : c.reg .esp = BitVec.ofNat 32 (tssEsp0 - 60 + 4 * j)) (i : Nat) (hi : j + i < 15) :
    c.stackWord i = u.pushed.get ⟨j + i, hi⟩ := by
  have e := h (j + i) hi
  unfold Mem.load at e
  unfold Cpu.stackWord
  rw [hesp, ← BitVec.ofNat_add, Nat.add_assoc, ← Nat.mul_add]
  exact BitVec.eq_of_toNat_eq e

/-- **`popad`** brings the registers of the frame back -/
theorem popad_frame (h : StackKept u c.mem)
    (hesp : c.reg .esp = BitVec.ofNat 32 (tssEsp0 - 60 + 4 * 2)) :
    (∀ r, r ≠ .esp → c.popad.reg r = u.reg r) ∧
      c.popad.reg .esp = BitVec.ofNat 32 (tssEsp0 - 60 + 4 * 10) := by
  refine ⟨fun r hr => ?_, ?_⟩
  · cases r with
    | esp => exact absurd rfl hr
    | edi => exact h.word hesp 0 (by decide)
    | esi => exact h.word hesp 1 (by decide)
    | ebp => exact h.word hesp 2 (by decide)
    | ebx => exact h.word hesp 4 (by decide)
    | edx => exact h.word hesp 5 (by decide)
    | ecx => exact h.word hesp 6 (by decide)
    | eax => exact h.word hesp 7 (by decide)
  · show c.reg .esp + 32 = _
    rw [hesp]
    rfl

/-- **`iretd`** brings back what the processor pushed -/
theorem iretd_frame (h : StackKept u c.mem)
    (hesp : c.reg .esp = BitVec.ofNat 32 (tssEsp0 - 60 + 4 * 10)) :
    (iretd c).eip = u.eip ∧ (iretd c).cs = u.cs ∧ (iretd c).eflags = u.eflags ∧
      (iretd c).reg .esp = u.reg .esp ∧ (iretd c).ss = u.ss := by
  refine ⟨h.word hesp 0 (by decide), h.word hesp 1 (by decide), h.word hesp 2 (by decide), ?_,
    h.word hesp 4 (by decide)⟩
  show Function.update c.reg Reg.esp (c.stackWord 3) Reg.esp = _
  rw [Function.update_self]
  exact h.word hesp 3 (by decide)

end

/-- a word stored in the image of the kernel -/
theorem StackKept.store {u : UserState} {m : Mem} (h : StackKept u m) {a : BitVec 32}
    (ha : a.toNat + 4 ≤ 0x200000) (v : BitVec 32) : StackKept u (m.write32 a v) := by
  intro i hi
  rw [← h i hi]
  unfold Mem.load
  rw [Mem.read32_write32_apart]
  have h1 : (BitVec.ofNat 32 (tssEsp0 - 60 + 4 * i)).toNat = tssEsp0 - 60 + 4 * i := by
    rw [BitVec.toNat_ofNat]
    unfold tssEsp0
    omega
  unfold tssEsp0 at h1 ⊢
  constructor <;> rw [BitVec.toNat_sub, h1] <;> omega

/-! ## the trip -/

/-- the kernel when the handler is called -/
def CallState.entered (u : UserState) (s : CallState) : CallState :=
  { s.onto { s.kernel.machine with mem := pushes s.mem u.pushed } with segments := u.sreg }

/-- the kernel when the command is called -/
def CallState.called (u : UserState) (s : CallState) : CallState :=
  (s.entered u).saved (tssEsp0 - 52)

/-- the user's state is back but for `eax` -/
structure UserBack (u u' : UserState) : Prop where
  reg : ∀ r, r ≠ .eax → u'.reg r = u.reg r
  eip : u'.eip = u.eip
  cs : u'.cs = u.cs
  eflags : u'.eflags = u.eflags
  ss : u'.ss = u.ss

/-- with `res` in `eax`, the segments of user data and the directory of the current task -/
structure BackAtUser (u : UserState) (s : CallState) (res : Nat) (u' : UserState) (s' : CallState) :
    Prop extends UserBack u u' where
  eax : u'.reg .eax = BitVec.ofNat 32 res
  sreg : ∀ r, u'.sreg r = 0x23
  currentTask : s'.kernel.currentTask = s.kernel.currentTask
  directory : s'.directory
    = s.mem.load (s.mem.load (s.kernel.currentTask + TaskField.pageDirectory))

section
variable {entry : Nat → Nat} {space : Space} {t : Nat} {L : List Run} {s : CallState}
  {p : List UInt8} {u : UserState}

/-- a change below the heap -/
theorem Running.below (h : Running entry space t L s) {m : Mem}
    (hm : ∀ a, Mem.Word a → heapAddress ≤ a → m.load a = s.mem.load a) :
    Running entry space t L (s.onto { s.kernel.machine with mem := m }) := by
  have hword : ∀ b < heapBlocks, ∀ j < 1024,
      m.load (blockAddr b + 4 * j) = s.mem.load (blockAddr b + 4 * j) := by
    intro b hb j hj
    refine hm _ (word_block hb hj) ?_
    unfold blockAddr
    omega
  refine h.onto (h.holds.congr rfl) ?_ ?_ h.present
  · exact (hword t h.block_lt 0 (by decide)).trans h.pageDirectory
  · refine h.maps.untouched (fun r hr b hb j hj => hword b ?_ j hj)
    have hin := h.holds.inside (List.mem_append_left _ hr)
    exact lt_of_lt_of_le hb.2 hin

theorem Running.entered (h : Running entry space t L s) (u : UserState) :
    Running entry space t L (s.entered u) := by
  have h1 := h.below (m := pushes s.mem u.pushed) (fun a ha hle => by
    refine pushes_other s.mem ha (Or.inl ?_) u.pushed (show 15 ≤ 16 by decide)
    have hle : 0x1000000 ≤ a := hle
    show 0x600000 ≤ a
    omega)
  exact ⟨h1.holds, h1.current, h1.pageDirectory, h1.maps, h1.present, h1.kernelChunk⟩

/-- the stack pointer of the frame is that of the user -/
theorem frameAt_entered (u : UserState) (s : CallState) :
    (frameAt (s.entered u).mem (tssEsp0 - 52)).esp = u.reg .esp := by
  have e := pushes_kept u s.mem 13 (by decide)
  show BitVec.ofNat 32 ((pushes s.mem u.pushed).load (tssEsp0 - 52 + 4 * 11)) = _
  rw [show tssEsp0 - 52 + 4 * 11 = tssEsp0 - 60 + 4 * 13 from rfl, e]
  show BitVec.ofNat 32 (u.reg .esp).toNat = _
  rw [BitVec.ofNat_toNat, BitVec.setWidth_eq]

/-- the words of the stack after a call that keeps what lies below the heap -/
theorem stackKept_served {s1 s2 : CallState} (h : Served L s1 s2) (hk : StackKept u s1.mem) :
    StackKept u s2.mem := by
  intro i hi
  rw [← hk i hi]
  refine h.below _ ?_ ?_
  · unfold tssEsp0
    constructor <;> omega
  · show _ < 0x1000000
    unfold tssEsp0
    omega

/-- **The unwinding** after the call -/
theorem unwind_run (alu : BitVec 32 → BitVec 32 → BitVec 32) (k : Clobbered) (buf : List UInt8)
    {x : Interrupted} (hk : StackKept u x.cpu.mem)
    (hesp : x.cpu.reg .esp = BitVec.ofNat 32 (tssEsp0 - 60)) {tmpRes : BitVec 32}
    (htmp : tmpRes.toNat + 4 ≤ 0x200000) : ∃ c : Cpu,
      forM [.storeAbs tmpRes .eax, .plain (.addImm .esp 8), .popad, .loadAbs .eax tmpRes]
        (IsrInstr.exec alu k buf) x = .ok ((), ⟨c, x.call⟩) ∧
      UserBack u (iretd c) ∧ (iretd c).reg .eax = x.cpu.reg .eax ∧ c.sreg = x.cpu.sreg := by
  obtain ⟨m1, hm1⟩ : ∃ m1, x.cpu.mem.write32 tmpRes (x.cpu.reg .eax) = m1 := ⟨_, rfl⟩
  have hk1 : StackKept u m1 := hm1 ▸ hk.store htmp _
  -- the machine before `popad`
  obtain ⟨c1, hc1⟩ : ∃ c1, Cpu.exec alu { x.cpu with mem := m1 } (.addImm .esp 8) = c1 := ⟨_, rfl⟩
  have hmem1 : c1.mem = m1 := by
    rw [← hc1]
    rfl
  have hesp1 : c1.reg .esp = BitVec.ofNat 32 (tssEsp0 - 60 + 4 * 2) := by
    rw [← hc1]
    show (Cpu.set { x.cpu with mem := m1 } .esp (x.cpu.reg .esp + 8)).reg .esp = _
    rw [Cpu.set_reg_same, hesp]
    rfl
  obtain ⟨hreg, hesp2⟩ := popad_frame (hmem1.symm ▸ hk1) hesp1
  -- and after it
  obtain ⟨c, hc⟩ : ∃ c, c1.popad.set .eax (m1.read32 tmpRes) = c := ⟨_, rfl⟩
  have hmem : c.mem = m1 := by
    rw [← hc]
    exact hmem1
  have hesp3 : c.reg .esp = BitVec.ofNat 32 (tssEsp0 - 60 + 4 * 10) := by
    rw [← hc, Cpu.set_reg_other _ _ _ _ (by decide), hesp2]
  obtain ⟨h1, h2, h3, h4, h5⟩ := iretd_frame (hmem.symm ▸ hk1) hesp3
  have hother : ∀ r, r ≠ .esp → (iretd c).reg r = c.reg r := fun r hr => Function.update_of_ne hr _ _
  refine ⟨c, ?_, ⟨fun r hr => ?_, h1, h2, h3, h5⟩, ?_, ?_⟩
  · rw [← hc, ← hc1, ← hm1]
    rfl
  · by_cases he : r = .esp
    · rw [he, h4]
    · rw [hother r he, ← hc, Cpu.set_reg_other _ _ _ _ hr, hreg r he]
  · rw [hother .eax (by decide), ← hc, Cpu.set_reg_same, ← hm1, Mem.read32_write32]
  · rw [← hc, ← hc1]
    rfl

/-- the three pushes, then the call -/
theorem enter_run (alu : BitVec 32 → BitVec 32 → BitVec 32) (k : Clobbered) (buf : List UInt8)
    (u : UserState) (s : CallState) : ∃ c : Cpu, Stacked u s.mem u.pushed c ∧
      forM [.pushad, .plain (.push .esp), .plain (.push .eax)] (IsrInstr.exec alu k buf)
        ⟨interrupt u s.mem, s⟩ = .ok ((), ⟨c, s⟩) := by
  have h1 := pushad_stacked (interrupt_stacked u s.mem)
  obtain ⟨c1, hc1⟩ : ∃ c1, (interrupt u s.mem).pushad = c1 := ⟨_, rfl⟩
  rw [hc1] at h1
  have hesp1 : c1.reg .esp = BitVec.ofNat 32 (tssEsp0 - 52) := h1.esp
  have h2 := h1.push (show 13 < 16 by decide) (BitVec.ofNat 32 (tssEsp0 - 52))
  have h3 := h2.push (show 14 < 16 by decide) (u.reg .eax)
  obtain ⟨c2, hc2⟩ : ∃ c2, c1.exec alu (.push .esp) = c2 := ⟨_, rfl⟩
  have e2 : c2 = (c1.pushVal (BitVec.ofNat 32 (tssEsp0 - 52))).next := by
    rw [← hc2, ← hesp1]
    rfl
  have heax : c2.reg .eax = u.reg .eax := by
    rw [e2]
    exact h2.reg .eax (by decide)
  have e3 : c2.exec alu (.push .eax)
      = ((c1.pushVal (BitVec.ofNat 32 (tssEsp0 - 52))).next.pushVal (u.reg .eax)).next := by
    rw [← heax, e2]
    rfl
  refine ⟨c2.exec alu (.push .eax), ?_, ?_⟩
  · rw [e3]
    exact ⟨h3.esp, h3.mem, h3.reg, h3.sreg⟩
  · rw [← hc2, ← hc1]
    rfl

theorem Clobbered.leave_esp (k : Clobbered) (res : Nat) (x : Interrupted) :
    (k.leave res x).cpu.reg .esp = x.cpu.reg .esp := by
  unfold Clobbered.leave
  dsimp only
  rw [Cpu.set_reg_other _ _ _ _ (by decide), Cpu.set_reg_other _ _ _ _ (by decide),
    Cpu.set_reg_other _ _ _ _ (by decide)]

theorem Clobbered.leave_eax (k : Clobbered) (res : Nat) (x : Interrupted) :
    (k.leave res x).cpu.reg .eax = BitVec.ofNat 32 res := by
  unfold Clobbered.leave
  dsimp only
  rw [Cpu.set_reg_other _ _ _ _ (by decide), Cpu.set_reg_other _ _ _ _ (by decide),
    Cpu.set_reg_same]

/-- **The call of the handler** -/
theorem callIsr80hHandler_run (h : Running entry space t L s) (hcur : AtCursor p s.terminal)
    (k : Clobbered) (buf : List UInt8) {c : Cpu} (hc : Stacked u s.mem u.pushed c) :
    let func := commandFunc s.isr80hCommands (cint (u.reg .eax).toNat)
    let sp := (u.reg .esp).toNat
    let fits := CommandFits p entry (blockAddr space.chunk) (s.called u).kernel.machine sp buf func
    (fits → ∃ x', callIsr80hHandler k buf ⟨c, s⟩ = .ok ((), x') ∧ StackKept u x'.cpu.mem ∧
      x'.cpu.reg .esp = BitVec.ofNat 32 (tssEsp0 - 60) ∧
      x'.cpu.reg .eax = BitVec.ofNat 32 (commandResult entry (s.called u).mem sp func) ∧
      (∀ r, x'.cpu.sreg r = 0x23) ∧ x'.call.kernel.currentTask = s.kernel.currentTask ∧
      x'.call.directory = blockAddr space.directory) ∧
    (¬ fits → ∃ e, callIsr80hHandler k buf ⟨c, s⟩ = .error e) := by
  intro func sp fits
  -- the two arguments
  have hk0 : StackKept u (s.entered u).mem := pushes_kept u s.mem
  have hk : StackKept u c.mem := by
    rw [hc.mem]
    exact hk0
  have hesp : c.reg .esp = BitVec.ofNat 32 (tssEsp0 - 60 + 4 * 0) := hc.esp
  have htop : c.top = u.reg .eax := by
    have e := hk.word hesp 0 (by decide)
    unfold Cpu.stackWord at e
    rw [show BitVec.ofNat 32 (4 * 0) = 0#32 from rfl, BitVec.add_zero] at e
    exact e
  have hframe : (c.stackWord 1).toNat = tssEsp0 - 52 := by
    rw [hk.word hesp 1 (by decide)]
    rfl
  have hentered : Interrupted.kernel ⟨c, s⟩ = s.entered u := by
    unfold Interrupted.kernel CallState.entered
    rw [hc.mem, hc.sreg]
  obtain ⟨hyes, hno⟩ := isr80hHandler_run (h.entered u) (p := p) hcur
    (cint (u.reg .eax).toNat) (tssEsp0 - 52) buf
  rw [frameAt_entered] at hyes hno
  unfold callIsr80hHandler
  rw [bind_ok (get_run _)]
  dsimp only
  rw [htop, hframe]
  constructor
  · intro hf
    obtain ⟨s2, hrun, -, hserved⟩ := hyes hf
    have hpart : part Interrupted.kernel Interrupted.withKernel
        (isr80hHandler (cint (u.reg .eax).toNat) (tssEsp0 - 52) buf) ⟨c, s⟩
        = .ok (commandResult entry (s.called u).mem sp func,
            Interrupted.withKernel (s2.inTask space) ⟨c, s⟩) := by
      refine part_ok ?_
      rw [hentered]
      exact hrun
    have hk2 : StackKept u s2.mem := stackKept_served hserved hk0
    rw [bind_ok hpart, modify_run]
    refine ⟨_, rfl, hk2, ?_, Clobbered.leave_eax .., fun r => rfl, ?_, rfl⟩
    · rw [Clobbered.leave_esp]
      exact hc.esp
    · have e := congrArg KernelState.currentTask hserved.kernel
      exact e
  · intro hf
    obtain ⟨e, hrun⟩ := hno hf
    rw [← hentered] at hrun
    exact ⟨e, bind_error (part_error hrun)⟩

/-- the wrapper: the pushes, the call and the unwinding -/
theorem wrapper_run (alu : BitVec 32 → BitVec 32 → BitVec 32) (k : Clobbered) (buf : List UInt8)
    (tmpRes : BitVec 32) (u : UserState) (s : CallState) : ∃ c : Cpu, Stacked u s.mem u.pushed c ∧
      forM (isr80hWrapper tmpRes) (IsrInstr.exec alu k buf) ⟨interrupt u s.mem, s⟩
        = (callIsr80hHandler k buf >>= fun _ => forM [.storeAbs tmpRes .eax,
            .plain (.addImm .esp 8), .popad, .loadAbs .eax tmpRes] (IsrInstr.exec alu k buf)) ⟨c, s⟩ := by
  obtain ⟨c, hc, henter⟩ := enter_run alu k buf u s
  have e : isr80hWrapper tmpRes = [.pushad, .plain (.push .esp), .plain (.push .eax)] ++
      [.callHandler, .storeAbs tmpRes .eax, .plain (.addImm .esp 8), .popad,
        .loadAbs .eax tmpRes] := rfl
  refine ⟨c, hc, ?_⟩
  rw [e, List.forM_append, bind_ok henter, List.forM_cons]
  rfl

/-- a command that leaves the screen does not return -/
theorem trip_error (h : Running entry space t L s) (hcur : AtCursor p s.terminal)
    (alu : BitVec 32 → BitVec 32 → BitVec 32) (k : Clobbered) (buf : List UInt8)
    (tmpRes : BitVec 32) (u : UserState)
    (hno : ¬ CommandFits p entry (blockAddr space.chunk) (s.called u).kernel.machine
      (u.reg .esp).toNat buf (commandFunc s.isr80hCommands (cint (u.reg .eax).toNat))) :
    ∃ e, trip alu k buf tmpRes u s = .error e := by
  obtain ⟨c, hc, hsplit⟩ := wrapper_run alu k buf tmpRes u s
  obtain ⟨e, herr⟩ := (callIsr80hHandler_run h hcur k buf hc).2 hno
  refine ⟨e, ?_⟩
  unfold trip
  rw [hsplit, bind_error herr]
  rfl

/-- **A trip through the kernel.**  The user's state is back but for `eax`, which holds what the
command returns, exactly when the command stays on the screen. -/
theorem isr80h_trip_iff (h : Running entry space t L s) (hcur : AtCursor p s.terminal)
    (alu : BitVec 32 → BitVec 32 → BitVec 32) (k : Clobbered) (buf : List UInt8)
    {tmpRes : BitVec 32} (htmp : tmpRes.toNat + 4 ≤ 0x200000) (u : UserState) :
    let func := commandFunc s.isr80hCommands (cint (u.reg .eax).toNat)
    let sp := (u.reg .esp).toNat
    (∃ u' s', trip alu k buf tmpRes u s = .ok (u', s') ∧
        BackAtUser u s (commandResult entry (s.called u).mem sp func) u' s') ↔
      CommandFits p entry (blockAddr space.chunk) (s.called u).kernel.machine sp buf func := by
  intro func sp
  constructor
  · rintro ⟨u', s', hrun, -⟩
    by_contra hf
    obtain ⟨e, herr⟩ := trip_error h hcur alu k buf tmpRes u hf
    rw [herr] at hrun
    cases hrun
  · intro hf
    obtain ⟨c, hc, hsplit⟩ := wrapper_run alu k buf tmpRes u s
    obtain ⟨x1, hrun, hk1, hesp1, heax1, hsreg1, htask1, hdir1⟩ :=
      (callIsr80hHandler_run h hcur k buf hc).1 hf
    obtain ⟨c2, hrun2, hback, heax2, hsreg2⟩ := unwind_run alu k buf hk1 hesp1 htmp
    refine ⟨iretd c2, x1.call.onto { x1.call.kernel.machine with mem := c2.mem }, ?_, ⟨hback, ?_,
      fun r => ?_, htask1, ?_⟩⟩
    · unfold trip
      rw [hsplit, bind_ok hrun, hrun2]
      rfl
    · rw [heax2, heax1]
    · show c2.sreg r = _
      rw [hsreg2, hsreg1]
    · show x1.call.directory = _
      have e1 : s.mem.load (s.kernel.currentTask + TaskField.pageDirectory)
          = blockAddr space.chunk := by
        rw [h.current]
        exact h.pageDirectory
      have e2 : s.mem.load (blockAddr space.chunk) = blockAddr space.directory := h.maps.chunk
      rw [hdir1, e1, e2]

end

/-! ## a task that calls -/

/-- a task in a new space -/
theorem exists_running : ∃ (space : Space) (L : List Run) (m : Machine),
    m.Holds (space.runs ++ oneBlock 2 :: L) ∧ m.word 2 0 = blockAddr space.chunk ∧
      space.Maps m 7 (fun v => v * 4096 + 5) ∧ 0 < freeBlocks m.heap.table := by
  have hmapped := loadedMachine_mapped 5000 (by decide) (by decide)
  have hperm := List.perm_cons_erase hmapped.task
  have hfree : 1027 ≤ freeBlocks (loadedMachine 5000).heap.table :=
    loadedMachine_free 5000 (by decide) (by decide)
  obtain ⟨space, m, -, hh, hmaps, -, hw, hcount⟩ := taskInit_run (hmapped.holds.perm hperm)
    (show blockAddr 0 < 4294967296 by decide) (by omega)
  exact ⟨space, _, m, hh, hw.pageDirectory, hmaps, by omega⟩

/-- the registered commands, as `isr80h_register_commands` leaves them -/
def bothCommands : Nat → Option Command
  | 0 => some .sum
  | 1 => some .print
  | _ => none

/-- the kernel while the task at block 2 runs, with the cursor at the start of row `row` -/
def callingKernel (row : UInt16) (space : Space) (m : Machine) : CallState where
  kernel := { startedKernel with machine := m, currentTask := blockAddr 2 }
  kernelChunk := blockAddr 0
  directory := blockAddr space.directory
  segments := fun _ => 0x23
  isr80hCommands := bothCommands
  terminal := ⟨row, 0, fun _ => 0⟩

/-- user code that calls `print` with the address on top of its stack -/
def printingUser : UserState where
  reg := fun
    | .eax => 1
    | .esp => 0x8004
    | _ => 0x12345678
  sreg := fun _ => 0x23
  eip := 0x400000
  cs := 0x1B
  eflags := 0x202
  ss := 0x23

theorem callingKernel_running (row : UInt16) {space : Space} {L : List Run} {m : Machine}
    (hh : m.Holds (space.runs ++ oneBlock 2 :: L)) (hdir : m.word 2 0 = blockAddr space.chunk)
    (hmaps : space.Maps m 7 (fun v => v * 4096 + 5)) :
    Running (fun v => v * 4096 + 5) space 2 L (callingKernel row space m) where
  holds := hh
  current := rfl
  pageDirectory := hdir
  maps := hmaps
  present v hv := by
    rw [testBit_flags _ (by decide) (by decide)]
    rfl
  kernelChunk := blockAddr_ne

theorem callingKernel_cursor (row : UInt16) (space : Space) (m : Machine) :
    AtCursor (List.replicate row.toNat 10) (callingKernel row space m).terminal := by
  have hrow : row.toNat < 65536 := row.toNat_lt
  refine ⟨?_, ?_⟩
  · rw [rowsOf_newlines, Nat.mod_eq_of_lt hrow]
    rfl
  · generalize row.toNat = n
    cases n with
    | zero => rfl
    | succ n =>
      rw [List.replicate_succ', lastLine_newline]
      rfl

theorem isr80h_trip_iff_print : ∃ (space : Space) (L : List Run) (m : Machine),
    Running (fun v => v * 4096 + 5) space 2 L (callingKernel 3 space m) ∧
      AtCursor (List.replicate 3 10) (callingKernel 3 space m).terminal ∧
      let s := callingKernel 3 space m
      let u := printingUser
      let func := commandFunc s.isr80hCommands (cint (u.reg .eax).toNat)
      let sp := (u.reg .esp).toNat
      ((∃ u' s', trip (fun _ x => x) ⟨0, 0, 0⟩ [] 0x150000 u s = .ok (u', s') ∧
          BackAtUser u s (commandResult (fun v => v * 4096 + 5) (s.called u).mem sp func) u' s') ↔
        CommandFits (List.replicate 3 10) (fun v => v * 4096 + 5) (blockAddr space.chunk)
          (s.called u).kernel.machine sp [] func) := by
  obtain ⟨space, L, m, hh, hdir, hmaps, -⟩ := exists_running
  have hrun := callingKernel_running 3 hh hdir hmaps
  have hcur := callingKernel_cursor 3 space m
  exact ⟨space, L, m, hrun, hcur, isr80h_trip_iff hrun hcur (fun _ x => x) ⟨0, 0, 0⟩ []
    (by decide) printingUser⟩

/-- the string "a", and behind it its address -/
def textMem (m : Mem) : Mem := (m.store 0x8000 0x61).store 0x8004 0x8000

theorem textMem_other (m : Mem) {a : Nat} (ha : Mem.Word a) (h : heapAddress ≤ a) :
    (textMem m).load a = m.load a := by
  have h : 0x1000000 ≤ a := h
  unfold textMem
  rw [Mem.load_store_ne _ _ ⟨by decide, by decide⟩ ha (by omega),
    Mem.load_store_ne _ _ ⟨by decide, by decide⟩ ha (by omega)]

section
variable {space : Space} {L : List Run} {s : CallState} {u : UserState}

/-- a word below the stack of the kernel, when the command is called -/
theorem called_low (h : Running (fun v => v * 4096 + 5) space 2 L s) {a : Nat} (ha : Mem.Word a)
    (hlow : a < tssEsp0 - 64) : (s.called u).mem.load a = s.mem.load a := by
  obtain ⟨-, -, hserved, -⟩ := taskCurrentSaveState_run (h.entered u) (tssEsp0 - 52)
  have hlow' : a < 0x5FFFC0 := hlow
  have hheap : a < heapAddress := by
    show a < 0x1000000
    omega
  exact (hserved.below a ha hheap).trans
    (pushes_other s.mem ha (Or.inr hlow) u.pushed (show 15 ≤ 16 by decide))

theorem physOf_low {va : Nat} (h : va < 4294967296) :
    physOf (fun v => v * 4096 + 5) va = va := by
  unfold physOf
  rw [Nat.mod_eq_of_lt h]
  show (va / 4096 * 4096 + 5) / 4096 * 4096 + va % 4096 = va
  omega

theorem userWord_low (m : Mem) {va : Nat} (h : va + 3 < 4294967296) :
    userWord m (fun v => v * 4096 + 5) va = m.load va := by
  unfold userWord
  rw [physOf_low h, physOf_low (show va + 2 < 4294967296 by omega),
    physOf_low (show va + 1 < 4294967296 by omega), physOf_low (show va < 4294967296 by omega),
    BitVec.ofNat_add, BitVec.ofNat_add, BitVec.ofNat_add]
  rfl

end

/-- the cursor stands at row 34611; the letter is stored over the frame's `edx` -/
theorem trip_leaves_screen : ¬ ∀ (entry : Nat → Nat) (space : Space) (t : Nat) (L : List Run)
    (s : CallState) (p : List UInt8) (alu : BitVec 32 → BitVec 32 → BitVec 32) (k : Clobbered)
    (buf : List UInt8) (tmpRes : BitVec 32) (u : UserState), Running entry space t L s →
      AtCursor p s.terminal → tmpRes.toNat + 4 ≤ 0x200000 →
        ∃ u' s', trip alu k buf tmpRes u s = .ok (u', s') ∧
          BackAtUser u s (commandResult entry (s.called u).mem (u.reg .esp).toNat
            (commandFunc s.isr80hCommands (cint (u.reg .eax).toNat))) u' s' := by
  intro hall
  obtain ⟨space, L, m, hh, hdir, hmaps, hfree⟩ := exists_running
  obtain ⟨s, hs⟩ : ∃ s, (callingKernel 34611 space m).onto { m with mem := textMem m.mem } = s :=
    ⟨_, rfl⟩
  have hrun : Running (fun v => v * 4096 + 5) space 2 L s := by
    rw [← hs]
    exact (callingKernel_running 34611 hh hdir hmaps).below (fun a ha hle => textMem_other m.mem ha hle)
  have hcur : AtCursor (List.replicate 34611 10) s.terminal := by
    have hat := callingKernel_cursor 34611 space m
    rw [show (34611 : UInt16).toNat = 34611 by decide] at hat
    rw [← hs]
    exact hat
  have hmem : s.mem = textMem m.mem := by
    rw [← hs]
    rfl
  have hprint : commandFunc s.isr80hCommands (cint (printingUser.reg .eax).toNat) = some .print := by
    have e : s.isr80hCommands = bothCommands := by
      rw [← hs]
      rfl
    have hc : cint (printingUser.reg .eax).toNat = 1 := by decide
    rw [e, hc]
    rfl
  -- the text
  have hcalled : Running (fun v => v * 4096 + 5) space 2 L (s.called printingUser) :=
    (taskCurrentSaveState_run (hrun.entered printingUser) (tssEsp0 - 52)).2.1
  have hword : (s.called printingUser).mem.load 0x8000 = 0x61 := by
    rw [called_low hrun ⟨by decide, by decide⟩ (by decide), hmem]
    unfold textMem
    rw [Mem.load_store_ne _ _ ⟨by decide, by decide⟩ ⟨by decide, by decide⟩ (by decide),
      Mem.load_store _ _ (by decide)]
  have hptr : userWord (s.called printingUser).mem (fun v => v * 4096 + 5) 0x8004 = 0x8000 := by
    rw [userWord_low _ (by decide), called_low hrun ⟨by decide, by decide⟩ (by decide), hmem]
    exact Mem.load_store _ _ (by decide)
  have hfree' : 0 < freeBlocks (s.called printingUser).kernel.machine.heap.table := by
    rw [← hs]
    exact hfree
  have hstring : StringAt (s.called printingUser).mem (physOf (fun v => v * 4096 + 5)) 0x8000 [97] := by
    refine StringAt.byte (fun i hi => physOf_low (by omega)) ?_
    rw [hword]
    rfl
  have hnz : ∀ c ∈ ([97] : List UInt8), c ≠ 0 := by
    intro c hc
    obtain rfl := List.mem_singleton.mp hc
    decide
  have htext := printedText_string hcalled hfree' hptr (by decide) hnz (fun k hk => by
      have hk : k ≤ 1 := hk
      omega) (fun k hk => Or.inl (by
      have hk : k ≤ 1 := hk
      rw [physOf_low (by omega)]
      show _ < 0x1000000
      omega)) hstring []
  obtain ⟨e, herr⟩ := trip_error hrun hcur (fun _ x => x) ⟨0, 0, 0⟩ [] 0x150000 printingUser
    (fun hfits => by
      have hfit := hfits hprint
      have hesp : (printingUser.reg .esp).toNat = 0x8004 := rfl
      rw [hesp, htext] at hfit
      have hlt := hfit [] 97 [] rfl (by decide)
      rw [List.append_nil, rowsOf_newlines] at hlt
      exact absurd hlt (by decide))
  obtain ⟨u', s', hok, -⟩ := hall _ space 2 L s _ (fun _ x => x) ⟨0, 0, 0⟩ [] 0x150000 printingUser
    hrun hcur (by decide)
  rw [herr] at hok
  cases hok

end LameOS
