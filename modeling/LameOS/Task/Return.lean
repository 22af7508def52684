import LameOS.Lib.Bytes

/-!
# `task.asm` and `task_save_state`: leaving and entering a task

`task_save_state` copies an interrupt frame into `struct registers`, field by field;
`task_return` reads the struct by byte offsets, pushes the frame for `iretd` and loads the general
purpose registers.  The assembly is a list of instructions, executed one at a time on a `Cpu` with
the byte memory of `Lib.Mem`; `eip` counts instructions.

* `taskSaveState`           the C side;
* `Registers.words`         the layout of `struct registers`: its fields in declaration order;
* `taskReturnCode`          `task_return` and `restore_general_purpose_registers`;
* `Cpu.run`                 execution up to the `iretd`;
* `task_return_run`         what the processor has at the `iretd`;
* `task_return_restores_iff`   when that is the interrupted state.
-/

set_option linter.unusedVariables false

namespace LameOS
open Lib

/-! ## the C side -/

/-- `struct registers` -/
structure Registers where
  edi : BitVec 32
  esi : BitVec 32
  ebp : BitVec 32
  ebx : BitVec 32
  edx : BitVec 32
  ecx : BitVec 32
  eax : BitVec 32
  ip : BitVec 32
  cs : BitVec 32
  flags : BitVec 32
  esp : BitVec 32
  ss : BitVec 32
  deriving DecidableEq

/-- `struct interrupt_frame` -/
structure InterruptFrame where
  edi : BitVec 32
  esi : BitVec 32
  ebp : BitVec 32
  reserved : BitVec 32
  ebx : BitVec 32
  edx : BitVec 32
  ecx : BitVec 32
  eax : BitVec 32
  ip : BitVec 32
  cs : BitVec 32
  flags : BitVec 32
  esp : BitVec 32
  ss : BitVec 32
  deriving DecidableEq

/-- `task_save_state`, on the registers of the task -/
def taskSaveState (registers : Registers) (frame : InterruptFrame) : Registers :=
  { registers with
    ip := frame.ip
    cs := frame.cs
    flags := frame.flags
    esp := frame.esp
    ss := frame.ss
    eax := frame.eax
    ebp := frame.ebp
    ebx := frame.ebx
    ecx := frame.ecx
    edi := frame.edi
    edx := frame.edx
    esi := frame.esi }

/-- the fields of `struct registers` in the order of their declaration, four bytes each -/
def Registers.words (r : Registers) : List (BitVec 32) :=
  [r.edi, r.esi, r.ebp, r.ebx, r.edx, r.ecx, r.eax, r.ip, r.cs, r.flags, r.esp, r.ss]

/-- the struct lies in memory at `p` -/
def Registers.At (r : Registers) (m : Mem) (p : BitVec 32) : Prop :=
  ∀ i (h : i < 12), m.read32 (p + BitVec.ofNat 32 (4 * i)) = r.words.get ⟨i, h⟩

/-! ## the processor -/

inductive Reg where
  | eax | ebx | ecx | edx | esi | edi | ebp | esp
  deriving DecidableEq, Repr

inductive SReg where
  | ds | es | fs | gs
  deriving DecidableEq, Repr

structure Cpu where
  reg : Reg → BitVec 32
  sreg : SReg → BitVec 16
  eflags : BitVec 32
  eip : Nat
  mem : Mem

inductive Instr where
  | mov (dst src : Reg)
  | load (dst base : Reg) (off : BitVec 32)
  | loadAx (base : Reg) (off : BitVec 32)
  | movSeg (dst : SReg)
  | push (src : Reg)
  | pushMem (base : Reg) (off : BitVec 32)
  | pushf
  | pop (dst : Reg)
  | orImm (dst : Reg) (imm : BitVec 32)
  | addImm (dst : Reg) (imm : BitVec 32)
  | call (target : Nat)
  | ret
  | iretd
  deriving DecidableEq, Repr

namespace Cpu

def set (c : Cpu) (r : Reg) (v : BitVec 32) : Cpu := { c with reg := Function.update c.reg r v }

def next (c : Cpu) : Cpu := { c with eip := c.eip + 1 }

/-- `push`: `esp` goes down, then the value is stored there -/
def pushVal (c : Cpu) (v : BitVec 32) : Cpu :=
  { c with
    reg := Function.update c.reg .esp (c.reg .esp - 4)
    mem := c.mem.write32 (c.reg .esp - 4) v }

/-- the value on top of the stack -/
def top (c : Cpu) : BitVec 32 := c.mem.read32 (c.reg .esp)

def drop (c : Cpu) : Cpu := c.set .esp (c.reg .esp + 4)

/-- one instruction; `alu` gives the flags that `or` and `add` leave for their result, `pushf`
stores the flags without `VM` and `RF` -/
def exec (alu : BitVec 32 → BitVec 32 → BitVec 32) (c : Cpu) : Instr → Cpu
  | .mov dst src => (c.set dst (c.reg src)).next
  | .load dst base off => (c.set dst (c.mem.read32 (c.reg base + off))).next
  | .loadAx base off =>
    (c.set .eax (c.reg .eax &&& 0xFFFF0000 ||| (c.mem.read16 (c.reg base + off)).setWidth 32)).next
  | .movSeg dst =>
    { c with sreg := Function.update c.sreg dst ((c.reg .eax).setWidth 16) }.next
  | .push src => (c.pushVal (c.reg src)).next
  | .pushMem base off => (c.pushVal (c.mem.read32 (c.reg base + off))).next
  | .pushf => (c.pushVal (c.eflags &&& 0x00FCFFFF)).next
  | .pop dst => (c.drop.set dst c.top).next
  | .orImm dst imm =>
    { c.set dst (c.reg dst ||| imm) with eflags := alu c.eflags (c.reg dst ||| imm) }.next
  | .addImm dst imm =>
    { c.set dst (c.reg dst + imm) with eflags := alu c.eflags (c.reg dst + imm) }.next
  | .call target => { c.pushVal (BitVec.ofNat 32 (c.eip + 1)) with eip := target }
  | .ret => { c.drop with eip := c.top.toNat }
  | .iretd => c

section
variable (c : Cpu) (r x : Reg) (v : BitVec 32)

@[simp] theorem set_reg_same : (c.set r v).reg r = v := Function.update_self ..
@[simp] theorem set_reg_other (h : x ≠ r) : (c.set r v).reg x = c.reg x :=
  Function.update_of_ne h ..
@[simp] theorem set_mem : (c.set r v).mem = c.mem := rfl
@[simp] theorem set_eip : (c.set r v).eip = c.eip := rfl
@[simp] theorem set_eflags : (c.set r v).eflags = c.eflags := rfl
@[simp] theorem next_reg : c.next.reg = c.reg := rfl
@[simp] theorem next_mem : c.next.mem = c.mem := rfl
@[simp] theorem next_eip : c.next.eip = c.eip + 1 := rfl
@[simp] theorem next_eflags : c.next.eflags = c.eflags := rfl
@[simp] theorem pushVal_esp : (c.pushVal v).reg .esp = c.reg .esp - 4 := by simp [pushVal]
@[simp] theorem pushVal_reg (h : x ≠ .esp) : (c.pushVal v).reg x = c.reg x :=
  Function.update_of_ne h ..
@[simp] theorem pushVal_mem : (c.pushVal v).mem = c.mem.write32 (c.reg .esp - 4) v := rfl
@[simp] theorem pushVal_eip : (c.pushVal v).eip = c.eip := rfl
@[simp] theorem pushVal_eflags : (c.pushVal v).eflags = c.eflags := rfl
@[simp] theorem drop_esp : c.drop.reg .esp = c.reg .esp + 4 := by simp [drop]
@[simp] theorem drop_reg (h : x ≠ .esp) : c.drop.reg x = c.reg x := Function.update_of_ne h ..
@[simp] theorem drop_mem : c.drop.mem = c.mem := rfl
@[simp] theorem drop_eip : c.drop.eip = c.eip := rfl
@[simp] theorem drop_eflags : c.drop.eflags = c.eflags := rfl

end

/-- execution up to an `iretd`, for at most `fuel` instructions -/
def run (alu : BitVec 32 → BitVec 32 → BitVec 32) (code : List Instr) : Nat → Cpu → Option Cpu
  | 0, _ => none
  | fuel + 1, c => match code[c.eip]? with
    | none => none
    | some .iretd => some c
    | some i => run alu code fuel (c.exec alu i)

end Cpu

/-! ## the assembly -/

/-- `task_return` at index 0, `restore_general_purpose_registers` at index 19 -/
def taskReturnCode : List Instr :=
  [ -- task_return
    .mov .ebp .esp,
    .load .ebx .ebp 4,
    .pushMem .ebx 44,
    .pushMem .ebx 40,
    .pushf,
    .pop .eax,
    .orImm .eax 0x200,
    .push .eax,
    .pushMem .ebx 32,
    .pushMem .ebx 28,
    .loadAx .ebx 44,
    .movSeg .ds,
    .movSeg .es,
    .movSeg .fs,
    .movSeg .gs,
    .pushMem .ebp 4,
    .call 19,
    .addImm .esp 4,
    .iretd,
    -- restore_general_purpose_registers
    .push .ebp,
    .mov .ebp .esp,
    .load .ebx .ebp 8,
    .load .edi .ebx 0,
    .load .esi .ebx 4,
    .load .ebp .ebx 8,
    .load .edx .ebx 16,
    .load .ecx .ebx 20,
    .load .eax .ebx 24,
    .load .ebx .ebx 12,
    .pop .ebp,
    .ret ]

/-! ## symbolic execution -/

section
variable {alu : BitVec 32 → BitVec 32 → BitVec 32} {code : List Instr} {E p : BitVec 32}
  {r : Registers}

/-- the word of the stack at depth `i` below `E` -/
def slot (E : BitVec 32) (i : Nat) : BitVec 32 := E - BitVec.ofNat 32 (4 * (i + 1))

/-- the struct at `p` and the eight words below `E` have no byte in common -/
def OffStack (E p : BitVec 32) : Prop :=
  ∀ i < 12, ∀ j < 8, Mem.Apart (slot E j) (p + BitVec.ofNat 32 (4 * i))

/-- the words `ws` have been pushed below `E`, the last one on top; the argument above `E` and the
struct it points to are as at the start -/
structure Stack (E p : BitVec 32) (r : Registers) (ws : List (BitVec 32)) (c : Cpu) : Prop where
  esp : c.reg .esp = E - BitVec.ofNat 32 (4 * ws.length)
  word : ∀ i (h : i < ws.length), c.mem.read32 (slot E i) = ws[i]
  arg : c.mem.read32 (E + 4) = p
  regs : r.At c.mem p

theorem slot_apart (E : BitVec 32) {i j : Nat} (hi : i < 8) (hj : j < 8) (h : i ≠ j) :
    Mem.Apart (slot E i) (slot E j) := by
  unfold Mem.Apart slot
  constructor <;> bv_omega

theorem slot_apart_arg (E : BitVec 32) {i : Nat} (hi : i < 8) : Mem.Apart (slot E i) (E + 4) := by
  unfold Mem.Apart slot
  constructor <;> bv_omega

theorem sub_slot (E : BitVec 32) (n : Nat) :
    E - BitVec.ofNat 32 (4 * n) - 4 = slot E n := by
  unfold slot
  rw [show 4 * (n + 1) = 4 * n + 4 by omega, BitVec.ofNat_add]
  bv_omega

theorem slot_add (E : BitVec 32) (n : Nat) : slot E n + 4 = E - BitVec.ofNat 32 (4 * n) := by
  rw [← sub_slot]
  bv_omega

namespace Stack
variable {ws : List (BitVec 32)} {c : Cpu}

theorem push (hoff : OffStack E p) (h : Stack E p r ws c) (hlen : ws.length < 8) (v : BitVec 32) :
    Stack E p r (ws ++ [v]) (c.pushVal v) := by
  have hesp : c.reg .esp - 4 = slot E ws.length := by rw [h.esp, sub_slot]
  have hmem : (c.pushVal v).mem = c.mem.write32 (slot E ws.length) v := by
    rw [Cpu.pushVal_mem, hesp]
  refine ⟨?_, ?_, ?_, ?_⟩
  · rw [Cpu.pushVal_esp, hesp, List.length_append]
    rfl
  · intro i hi
    rw [hmem]
    by_cases e : i = ws.length
    · subst e
      rw [Mem.read32_write32]
      simp
    · have hi' : i < ws.length := by
        rw [List.length_append, List.length_singleton] at hi
        omega
      rw [Mem.read32_write32_apart _ _ (slot_apart E hlen (by omega) (fun h => e h.symm)),
        h.word i hi', List.getElem_append_left]
  · rw [hmem, Mem.read32_write32_apart _ _ (slot_apart_arg E hlen), h.arg]
  · intro i hi
    rw [hmem, Mem.read32_write32_apart _ _ (hoff i hi _ hlen), h.regs i hi]

theorem top {v : BitVec 32} (h : Stack E p r (ws ++ [v]) c) : c.top = v := by
  have hw := h.word ws.length (by simp)
  unfold Cpu.top
  rw [h.esp, List.length_append]
  simpa [slot] using hw

theorem drop {v : BitVec 32} (h : Stack E p r (ws ++ [v]) c) : Stack E p r ws c.drop := by
  have hesp : c.drop.reg .esp = E - BitVec.ofNat 32 (4 * ws.length) := by
    rw [Cpu.drop_esp, h.esp, List.length_append]
    exact slot_add E ws.length
  refine ⟨hesp, fun i hi => ?_, h.arg, h.regs⟩
  have hw := h.word i (by simp; omega)
  rwa [List.getElem_append_left hi] at hw

/-- only the memory and `esp` count -/
theorem congr {c' : Cpu} (h : Stack E p r ws c) (hm : c'.mem = c.mem)
    (he : c'.reg .esp = c.reg .esp) : Stack E p r ws c' :=
  ⟨he.trans h.esp, fun i hi => by rw [hm, h.word i hi], by rw [hm, h.arg],
    fun i hi => by rw [hm, h.regs i hi]⟩

end Stack

theorem Cpu.run_step (n : Nat) (c : Cpu) (i : Instr) (h : code[c.eip]? = some i)
    (hi : i ≠ .iretd) : c.run alu code (n + 1) = (c.exec alu i).run alu code n := by
  show (match code[c.eip]? with
    | none => none
    | some .iretd => some c
    | some i => run alu code n (c.exec alu i)) = _
  rw [h]
  cases i <;> first | rfl | exact absurd rfl hi

/-- `k` instructions lead from `c` to a state with `P` -/
def After (alu : BitVec 32 → BitVec 32 → BitVec 32) (code : List Instr) (c : Cpu) (k : Nat)
    (P : Cpu → Prop) : Prop :=
  ∃ c', (∀ n, c.run alu code (n + k) = c'.run alu code n) ∧ P c'

namespace After
variable {c : Cpu} {k : Nat} {P Q : Cpu → Prop}

theorem start (h : P c) : After alu code c 0 P := ⟨c, fun n => rfl, h⟩

theorem step (h : After alu code c k P) (i : Instr) (hi : i ≠ .iretd)
    (hc : ∀ c', P c' → code[c'.eip]? = some i) (hQ : ∀ c', P c' → Q (c'.exec alu i)) :
    After alu code c (k + 1) Q := by
  obtain ⟨c', hrun, hP⟩ := h
  refine ⟨c'.exec alu i, fun n => ?_, hQ c' hP⟩
  rw [← Nat.add_assoc, Nat.add_right_comm, hrun (n + 1), c'.run_step n i (hc c' hP) hi]

theorem mono (h : After alu code c k P) (hPQ : ∀ c', P c' → Q c') : After alu code c k Q := by
  obtain ⟨c', hrun, hP⟩ := h
  exact ⟨c', hrun, hPQ c' hP⟩

/-- a step from a known state to a known state -/
theorem exact {c' : Cpu} (h : After alu code c k (fun x => x = c')) (i : Instr) (hi : i ≠ .iretd)
    (hc : code[c'.eip]? = some i) : After alu code c (k + 1) (fun x => x = c'.exec alu i) :=
  h.step i hi (by rintro _ rfl; exact hc) (by rintro _ rfl; rfl)

theorem trans {l : Nat} (h : After alu code c k P) (h' : ∀ c', P c' → After alu code c' l Q) :
    After alu code c (k + l) Q := by
  obtain ⟨c', hrun, hP⟩ := h
  obtain ⟨c'', hrun', hQ⟩ := h' c' hP
  refine ⟨c'', fun n => ?_, hQ⟩
  rw [← Nat.add_assoc, Nat.add_right_comm, hrun (n + l), hrun' n]

end After

/-- inside `task_return`: `n` is the next instruction, `ebp` the frame, `ebx` the struct -/
structure ReturnFrame (E p : BitVec 32) (r : Registers) (n : Nat) (ws : List (BitVec 32)) (c : Cpu) :
    Prop where
  eip : c.eip = n
  stack : Stack E p r ws c
  ebp : c.reg .ebp = E
  ebx : c.reg .ebx = p

namespace ReturnFrame
variable {n : Nat} {ws : List (BitVec 32)} {c : Cpu}

theorem push (hoff : OffStack E p) (h : ReturnFrame E p r n ws c) (hlen : ws.length < 8)
    (v : BitVec 32) : ReturnFrame E p r (n + 1) (ws ++ [v]) (c.pushVal v).next where
  eip := by simp [h.eip]
  stack := (h.stack.push hoff hlen v).congr rfl rfl
  ebp := by simp [h.ebp]
  ebx := by simp [h.ebx]

/-- `push dword [ebx+off]` pushes a field of the struct -/
theorem pushField (hoff : OffStack E p) (h : ReturnFrame E p r n ws c) (hlen : ws.length < 8) (i : Nat)
    (hi : i < 12) : ReturnFrame E p r (n + 1) (ws ++ [r.words.get ⟨i, hi⟩])
      (c.exec alu (.pushMem .ebx (BitVec.ofNat 32 (4 * i)))) := by
  have hv : c.mem.read32 (c.reg .ebx + BitVec.ofNat 32 (4 * i)) = r.words.get ⟨i, hi⟩ := by
    rw [h.ebx]
    exact h.stack.regs i hi
  rw [← hv]
  exact h.push hoff hlen _

/-- an instruction that leaves memory, `esp`, `ebp` and `ebx` alone -/
theorem skip {c' : Cpu} (h : ReturnFrame E p r n ws c) (he : c'.eip = c.eip + 1) (hm : c'.mem = c.mem)
    (hr : ∀ x, x ≠ .eax → c'.reg x = c.reg x) : ReturnFrame E p r (n + 1) ws c' where
  eip := by rw [he, h.eip]
  stack := h.stack.congr hm (hr .esp (by decide))
  ebp := (hr .ebp (by decide)).trans h.ebp
  ebx := (hr .ebx (by decide)).trans h.ebx

theorem popEax {v : BitVec 32} (h : ReturnFrame E p r n (ws ++ [v]) c) :
    ReturnFrame E p r (n + 1) ws (c.exec alu (.pop .eax)) ∧ (c.exec alu (.pop .eax)).reg .eax = v where
  left :=
    { eip := by simp [Cpu.exec, h.eip]
      stack := h.stack.drop.congr rfl (by simp [Cpu.exec])
      ebp := by simp [Cpu.exec, h.ebp]
      ebx := by simp [Cpu.exec, h.ebx] }
  right := by simp [Cpu.exec, h.stack.top]

theorem orEax {v : BitVec 32} (h : ReturnFrame E p r n ws c) (he : c.reg .eax = v) (imm : BitVec 32) :
    ReturnFrame E p r (n + 1) ws (c.exec alu (.orImm .eax imm)) ∧
      (c.exec alu (.orImm .eax imm)).reg .eax = v ||| imm where
  left := h.skip rfl rfl (fun x hx => by simp [Cpu.exec, Cpu.set, Cpu.next, hx])
  right := by simp [Cpu.exec, Cpu.set, Cpu.next, he]

end ReturnFrame

end

/-! ## `task_return` -/

/-- the flags that `pushf`, `or eax, 0x200` leave on the stack -/
def pushedFlags (eflags : BitVec 32) : BitVec 32 := eflags &&& 0x00FCFFFF ||| 0x200

/-- the processor has, at the `iretd`, the interrupted state with the interrupts enabled: the
general purpose registers, and the five words that `iretd` pops -/
structure Resumed (f : InterruptFrame) (c : Cpu) : Prop where
  edi : c.reg .edi = f.edi
  esi : c.reg .esi = f.esi
  ebp : c.reg .ebp = f.ebp
  ebx : c.reg .ebx = f.ebx
  edx : c.reg .edx = f.edx
  ecx : c.reg .ecx = f.ecx
  eax : c.reg .eax = f.eax
  ip : c.mem.read32 (c.reg .esp) = f.ip
  cs : c.mem.read32 (c.reg .esp + 4) = f.cs
  flags : c.mem.read32 (c.reg .esp + 8) = f.flags ||| 0x200
  esp : c.mem.read32 (c.reg .esp + 12) = f.esp
  ss : c.mem.read32 (c.reg .esp + 16) = f.ss

section
variable (alu : BitVec 32 → BitVec 32 → BitVec 32) {E p : BitVec 32} {r : Registers}

/-- up to `or eax, 0x200`: `ss` and `esp` are pushed, `eax` holds the flags of this moment -/
theorem task_return_flags (hoff : OffStack E p) (c : Cpu) (heip : c.eip = 0)
    (hst : Stack E p r [] c) : After alu taskReturnCode c 7 (fun c' =>
      ReturnFrame E p r 7 [r.ss, r.esp] c' ∧ c'.reg .eax = pushedFlags c.eflags) := by
  have hesp : c.reg .esp = E := by simpa using hst.esp
  have h1 : After alu taskReturnCode c 1 (fun c' =>
      (c'.eip = 1 ∧ c'.reg .ebp = E) ∧ Stack E p r [] c' ∧ c'.eflags = c.eflags) :=
    (After.start (P := fun c' => c' = c) rfl).step (.mov .ebp .esp) (by decide)
      (by rintro _ rfl; rw [heip]; rfl)
      (by
        rintro _ rfl
        exact ⟨⟨by simp [Cpu.exec, heip], by simp [Cpu.exec, hesp]⟩,
          hst.congr rfl (by simp [Cpu.exec]), rfl⟩)
  have h2 : After alu taskReturnCode c 2 (fun c' =>
      ReturnFrame E p r 2 [] c' ∧ c'.eflags = c.eflags) :=
    h1.step (.load .ebx .ebp 4) (by decide) (by rintro c' ⟨⟨he, -⟩, -⟩; rw [he]; rfl)
      (by
        rintro c' ⟨⟨he, hb⟩, hs, hf⟩
        have harg := hs.arg
        exact ⟨⟨by simp [Cpu.exec, he], hs.congr rfl (by simp [Cpu.exec]), by simp [Cpu.exec, hb],
          by simpa [Cpu.exec, hb] using harg⟩, hf⟩)
  have h3 : After alu taskReturnCode c 3 (fun c' =>
      ReturnFrame E p r 3 [r.ss] c' ∧ c'.eflags = c.eflags) :=
    h2.step (.pushMem .ebx 44) (by decide) (by rintro c' ⟨f, -⟩; rw [f.eip]; rfl)
      (fun c' h => ⟨h.1.pushField hoff (by decide) 11 (by decide), h.2⟩)
  have h4 : After alu taskReturnCode c 4 (fun c' =>
      ReturnFrame E p r 4 [r.ss, r.esp] c' ∧ c'.eflags = c.eflags) :=
    h3.step (.pushMem .ebx 40) (by decide) (by rintro c' ⟨f, -⟩; rw [f.eip]; rfl)
      (fun c' h => ⟨h.1.pushField hoff (by simp) 10 (by decide), h.2⟩)
  have h5 : After alu taskReturnCode c 5
      (ReturnFrame E p r 5 [r.ss, r.esp, c.eflags &&& 0x00FCFFFF]) :=
    h4.step .pushf (by decide) (by rintro c' ⟨f, -⟩; rw [f.eip]; rfl)
      (by
        rintro c' ⟨f, hf⟩
        rw [← hf]
        exact f.push hoff (by simp) _)
  have h6 : After alu taskReturnCode c 6 (fun c' =>
      ReturnFrame E p r 6 [r.ss, r.esp] c' ∧ c'.reg .eax = c.eflags &&& 0x00FCFFFF) :=
    h5.step (.pop .eax) (by decide) (by intro c' f; rw [f.eip]; rfl)
      (fun c' (f : ReturnFrame E p r 5 ([r.ss, r.esp] ++ [_]) c') => f.popEax)
  exact h6.step (.orImm .eax 0x200) (by decide) (by rintro c' ⟨f, -⟩; rw [f.eip]; rfl)
    (fun c' h => h.1.orEax h.2 0x200)

/-- up to the call: the frame for `iretd` and the argument of the call are pushed -/
theorem task_return_frame (hoff : OffStack E p) (c : Cpu) (heip : c.eip = 0)
    (hst : Stack E p r [] c) : After alu taskReturnCode c 16
      (ReturnFrame E p r 16 [r.ss, r.esp, pushedFlags c.eflags, r.cs, r.ip, p]) := by
  have h8 : After alu taskReturnCode c 8 (ReturnFrame E p r 8 [r.ss, r.esp, pushedFlags c.eflags]) :=
    (task_return_flags alu hoff c heip hst).step (.push .eax) (by decide)
      (by rintro c' ⟨f, -⟩; rw [f.eip]; rfl)
      (by
        rintro c' ⟨f, hf⟩
        rw [← hf]
        exact f.push hoff (by simp) _)
  have h9 : After alu taskReturnCode c 9
      (ReturnFrame E p r 9 [r.ss, r.esp, pushedFlags c.eflags, r.cs]) :=
    h8.step (.pushMem .ebx 32) (by decide) (by intro c' f; rw [f.eip]; rfl)
      (fun c' f => f.pushField hoff (by simp) 8 (by decide))
  have h10 : After alu taskReturnCode c 10
      (ReturnFrame E p r 10 [r.ss, r.esp, pushedFlags c.eflags, r.cs, r.ip]) :=
    h9.step (.pushMem .ebx 28) (by decide) (by intro c' f; rw [f.eip]; rfl)
      (fun c' f => f.pushField hoff (by simp) 7 (by decide))
  have h11 : After alu taskReturnCode c 11
      (ReturnFrame E p r 11 [r.ss, r.esp, pushedFlags c.eflags, r.cs, r.ip]) :=
    h10.step (.loadAx .ebx 44) (by decide) (by intro c' f; rw [f.eip]; rfl)
      (fun c' f => f.skip rfl rfl (fun x hx => by simp [Cpu.exec, hx]))
  have hseg : ∀ (k : Nat) (d : SReg), After alu taskReturnCode c k
        (ReturnFrame E p r k [r.ss, r.esp, pushedFlags c.eflags, r.cs, r.ip]) →
      taskReturnCode[k]? = some (.movSeg d) → After alu taskReturnCode c (k + 1)
        (ReturnFrame E p r (k + 1) [r.ss, r.esp, pushedFlags c.eflags, r.cs, r.ip]) :=
    fun k d h hc => h.step (.movSeg d) (by simp) (fun c' f => by rw [f.eip]; exact hc)
      (fun c' f => f.skip rfl rfl (fun x hx => rfl))
  have h15 := hseg 14 .gs (hseg 13 .fs (hseg 12 .es (hseg 11 .ds h11 rfl) rfl) rfl) rfl
  exact h15.step (.pushMem .ebp 4) (by decide) (by intro c' f; rw [f.eip]; rfl)
    (fun c' f => by
      have harg : c'.mem.read32 (c'.reg .ebp + 4) = p := by rw [f.ebp, f.stack.arg]
      show ReturnFrame E p r 16 _ (c'.pushVal (c'.mem.read32 (c'.reg .ebp + 4))).next
      rw [harg]
      exact f.push hoff (by simp) p)

/-- what `restore_general_purpose_registers` loads; `ebp` is not among it -/
structure Loaded (E : BitVec 32) (r : Registers) (c : Cpu) : Prop where
  edi : c.reg .edi = r.edi
  esi : c.reg .esi = r.esi
  edx : c.reg .edx = r.edx
  ecx : c.reg .ecx = r.ecx
  eax : c.reg .eax = r.eax
  ebx : c.reg .ebx = r.ebx
  ebp : c.reg .ebp = E

/-- the loads of `restore_general_purpose_registers` -/
def restoreLoads : List Instr :=
  [.load .edi .ebx 0, .load .esi .ebx 4, .load .ebp .ebx 8, .load .edx .ebx 16,
    .load .ecx .ebx 20, .load .eax .ebx 24, .load .ebx .ebx 12]

/-- after the loads: the fields of the struct are in their registers -/
structure LoadsDone (c : Cpu) (r : Registers) (c' : Cpu) : Prop where
  mem : c'.mem = c.mem
  eip : c'.eip = c.eip + 7
  esp : c'.reg .esp = c.reg .esp
  edi : c'.reg .edi = r.edi
  esi : c'.reg .esi = r.esi
  edx : c'.reg .edx = r.edx
  ecx : c'.reg .ecx = r.ecx
  eax : c'.reg .eax = r.eax
  ebx : c'.reg .ebx = r.ebx

theorem loads_run {c : Cpu} (hr : r.At c.mem p) (hb : c.reg .ebx = p) :
    LoadsDone c r (restoreLoads.foldl (Cpu.exec alu) c) where
  mem := rfl
  eip := rfl
  esp := by simp [restoreLoads, Cpu.exec]
  edi := by simpa [restoreLoads, Cpu.exec, hb, Registers.words] using hr 0 (by decide)
  esi := by simpa [restoreLoads, Cpu.exec, hb, Registers.words] using hr 1 (by decide)
  edx := by simpa [restoreLoads, Cpu.exec, hb, Registers.words] using hr 4 (by decide)
  ecx := by simpa [restoreLoads, Cpu.exec, hb, Registers.words] using hr 5 (by decide)
  eax := by simpa [restoreLoads, Cpu.exec, hb, Registers.words] using hr 6 (by decide)
  ebx := by simpa [restoreLoads, Cpu.exec, hb, Registers.words] using hr 3 (by decide)

/-- instructions that do not jump are executed in their order -/
theorem After.block {code : List Instr} {c : Cpu} (is : List Instr)
    (hi : ∀ i ∈ is, ∃ d b o, i = .load d b o) :
    ∀ {k : Nat} {c' : Cpu}, After alu code c k (fun x => x = c') →
      (∀ j, j < is.length → code[c'.eip + j]? = is[j]?) →
      After alu code c (k + is.length) (fun x => x = is.foldl (Cpu.exec alu) c') := by
  induction is with
  | nil => exact fun h _ => h
  | cons i is ih =>
    intro k c' h hc
    obtain ⟨d, b, o, rfl⟩ := hi i List.mem_cons_self
    have h1 := h.exact (.load d b o) (by simp) (hc 0 (by simp))
    have h2 := ih (fun x hx => hi x (List.mem_cons_of_mem _ hx)) h1 (fun j hj => by
      have hj' := hc (j + 1) (by simp; omega)
      rw [Nat.add_comm j 1, ← Nat.add_assoc, Nat.add_comm 1 j, List.getElem?_cons_succ] at hj'
      exact hj')
    rw [List.length_cons, Nat.add_comm is.length, ← Nat.add_assoc]
    exact h2

/-- `restore_general_purpose_registers`, from its entry to its `ret`: the `pop ebp` puts the
`ebp` of the caller over the one it has just loaded -/
theorem restore_run (hoff : OffStack E p) {ws : List (BitVec 32)} (hws : ws.length = 5) (c : Cpu)
    (heip : c.eip = 19) (hst : Stack E p r (ws ++ [p] ++ [17]) c) (hebp : c.reg .ebp = E) :
    After alu taskReturnCode c 12 (fun c' =>
      (c'.eip = 17 ∧ Stack E p r (ws ++ [p]) c') ∧ Loaded E r c') := by
  have h1 : After alu taskReturnCode c 1 (fun c' =>
      c'.eip = 20 ∧ Stack E p r (ws ++ [p] ++ [17] ++ [E]) c') :=
    (After.start (P := fun c' => c' = c) rfl).step (.push .ebp) (by decide)
      (by rintro _ rfl; rw [heip]; rfl)
      (by
        rintro _ rfl
        refine ⟨by simp [Cpu.exec, heip], ?_⟩
        have h := hst.push hoff (by simp [hws]) E
        rw [← hebp] at h ⊢
        exact h.congr rfl rfl)
  have h2 : After alu taskReturnCode c 2 (fun c' =>
      (c'.eip = 21 ∧ Stack E p r (ws ++ [p] ++ [17] ++ [E]) c') ∧
        c'.reg .ebp = E - BitVec.ofNat 32 32) :=
    h1.step (.mov .ebp .esp) (by decide) (by rintro c' ⟨he, -⟩; rw [he]; rfl)
      (by
        rintro c' ⟨he, hs⟩
        have hesp := hs.esp
        simp only [List.length_append, hws, List.length_singleton] at hesp
        exact ⟨⟨by simp [Cpu.exec, he], hs.congr rfl (by simp [Cpu.exec])⟩,
          by simp [Cpu.exec, hesp]⟩)
  have h3 : After alu taskReturnCode c 3 (fun c' =>
      (c'.eip = 22 ∧ Stack E p r (ws ++ [p] ++ [17] ++ [E]) c') ∧ c'.reg .ebx = p) :=
    h2.step (.load .ebx .ebp 8) (by decide) (by rintro c' ⟨⟨he, -⟩, -⟩; rw [he]; rfl)
      (by
        rintro c' ⟨⟨he, hs⟩, hb⟩
        have hw := hs.word 5 (by simp [hws])
        have ha : c'.reg .ebp + 8 = slot E 5 := by
          rw [hb]
          unfold slot
          bv_omega
        refine ⟨⟨by simp [Cpu.exec, he], hs.congr rfl (by simp [Cpu.exec])⟩, ?_⟩
        show (c'.set .ebx (c'.mem.read32 (c'.reg .ebp + 8))).reg .ebx = p
        rw [Cpu.set_reg_same, ha, hw]
        simp [hws])
  refine h3.trans (l := 9) (fun c' ⟨⟨he, hs⟩, hb⟩ => ?_)
  have h0 : After alu taskReturnCode c' 0 (fun x => x = c') := After.start rfl
  have h7 := After.block alu restoreLoads (by simp [restoreLoads]) h0 (fun j hj => by
      rw [he]
      have : j < 7 := hj
      interval_cases j <;> rfl)
  have hl := loads_run alu hs.regs hb
  generalize restoreLoads.foldl (Cpu.exec alu) c' = c'' at h7 hl
  have s7 : Stack E p r (ws ++ [p] ++ [17] ++ [E]) c'' := hs.congr hl.mem hl.esp
  have h8 := h7.exact (.pop .ebp) (by decide) (by rw [hl.eip, he]; rfl)
  have s8 : Stack E p r (ws ++ [p] ++ [17]) (c''.exec alu (.pop .ebp)) :=
    s7.drop.congr rfl (by simp [Cpu.exec])
  have h9 := h8.exact .ret (by decide) (by simp [Cpu.exec, hl.eip, he]; rfl)
  refine h9.mono ?_
  rintro _ rfl
  refine ⟨⟨?_, s8.drop.congr rfl rfl⟩, ?_⟩
  · show (Cpu.top _).toNat = 17
    rw [s8.top]
    rfl
  · have ht := s7.top
    constructor <;> simp [Cpu.exec, hl.edi, hl.esi, hl.edx, hl.ecx, hl.eax, hl.ebx, ht]

/-- **`task_return`.**  At the `iretd` the frame of the struct is on the stack, with the flags of
the kernel, and the general purpose registers are loaded, but for `ebp`. -/
theorem task_return_run (hoff : OffStack E p) (c : Cpu) (heip : c.eip = 0)
    (hst : Stack E p r [] c) : ∃ c', c.run alu taskReturnCode 40 = some c' ∧
      Stack E p r [r.ss, r.esp, pushedFlags c.eflags, r.cs, r.ip] c' ∧ Loaded E r c' := by
  have h17 : After alu taskReturnCode c 17 (fun c' => (c'.eip = 19 ∧ c'.reg .ebp = E) ∧
      Stack E p r ([r.ss, r.esp, pushedFlags c.eflags, r.cs, r.ip] ++ [p] ++ [17]) c') :=
    (task_return_frame alu hoff c heip hst).step (.call 19) (by decide)
      (fun c' f => by rw [f.eip]; rfl)
      (fun c' f => by
        refine ⟨⟨rfl, by simp [Cpu.exec, f.ebp]⟩, ?_⟩
        have h := f.stack.push hoff (by simp) (BitVec.ofNat 32 (c'.eip + 1))
        have h17 : BitVec.ofNat 32 (c'.eip + 1) = 17 := by rw [f.eip]; rfl
        rw [h17] at h
        refine h.congr ?_ ?_
        · simp [Cpu.exec, f.eip]
        · simp [Cpu.exec])
  have h29 := h17.trans (fun c' h => restore_run alu hoff rfl c' h.1.1 h.2 h.1.2)
  have h30 := h29.step (Q := fun c' => c'.eip = 18 ∧
      Stack E p r [r.ss, r.esp, pushedFlags c.eflags, r.cs, r.ip] c' ∧ Loaded E r c')
    (.addImm .esp 4) (by decide) (fun c' h => by rw [h.1.1]; rfl)
    (fun c' ⟨⟨he, hs⟩, hl⟩ => by
      refine ⟨by simp [Cpu.exec, he], hs.drop.congr rfl ?_, ?_⟩
      · simp [Cpu.exec, Cpu.next]
      · constructor <;> simp [Cpu.exec, Cpu.next, hl.edi, hl.esi, hl.edx, hl.ecx, hl.eax, hl.ebx,
          hl.ebp])
  obtain ⟨c', hrun, he, hs, hl⟩ := h30
  refine ⟨c', ?_, hs, hl⟩
  rw [show 40 = 10 + (17 + 12 + 1) from rfl, hrun 10]
  show (match taskReturnCode[c'.eip]? with
    | none => none
    | some .iretd => some c'
    | some i => Cpu.run alu taskReturnCode 9 (c'.exec alu i)) = some c'
  rw [he]
  rfl

/-- **Saving and returning.**  `task_return` gives a saved state back exactly when the frame
pointer of the interrupted code is the kernel stack pointer at the call and the interrupted flags
are those of the kernel. -/
theorem task_return_restores_iff (t : Registers) (f : InterruptFrame) (c : Cpu) (p : BitVec 32)
    (heip : c.eip = 0) (harg : c.mem.read32 (c.reg .esp + 4) = p)
    (hregs : (taskSaveState t f).At c.mem p) (hoff : OffStack (c.reg .esp) p) :
    ∃ c', c.run alu taskReturnCode 40 = some c' ∧
      (Resumed f c' ↔ c.reg .esp = f.ebp ∧ pushedFlags c.eflags = f.flags ||| 0x200) := by
  have hst : Stack (c.reg .esp) p (taskSaveState t f) [] c :=
    ⟨by simp, by simp, harg, hregs⟩
  obtain ⟨c', hrun, hs, hl⟩ := task_return_run alu hoff c heip hst
  have hesp : c'.reg .esp = slot (c.reg .esp) 4 := hs.esp
  have h0 := hs.word 0 (by simp)
  have h1 := hs.word 1 (by simp)
  have h2 := hs.word 2 (by simp)
  have h3 := hs.word 3 (by simp)
  have h4 := hs.word 4 (by simp)
  have e0 : slot (c.reg .esp) 4 + 16 = slot (c.reg .esp) 0 := by unfold slot; bv_omega
  have e1 : slot (c.reg .esp) 4 + 12 = slot (c.reg .esp) 1 := by unfold slot; bv_omega
  have e2 : slot (c.reg .esp) 4 + 8 = slot (c.reg .esp) 2 := by unfold slot; bv_omega
  have e3 : slot (c.reg .esp) 4 + 4 = slot (c.reg .esp) 3 := by unfold slot; bv_omega
  refine ⟨c', hrun, fun h => ⟨hl.ebp.symm.trans h.ebp, ?_⟩, fun ⟨hb, hf⟩ => ?_⟩
  · have hf := h.flags
    rw [hesp, e2, h2] at hf
    exact hf
  · exact
      { edi := hl.edi, esi := hl.esi, ebp := hl.ebp.trans hb, ebx := hl.ebx, edx := hl.edx,
        ecx := hl.ecx, eax := hl.eax
        ip := by rw [hesp, h4]; rfl
        cs := by rw [hesp, e3, h3]; rfl
        flags := by rw [hesp, e2, h2]; exact hf
        esp := by rw [hesp, e1, h1]; rfl
        ss := by rw [hesp, e0, h0]; rfl }

end

instance (r : Registers) (m : Mem) (p : BitVec 32) : Decidable (r.At m p) :=
  inferInstanceAs (Decidable (∀ i (h : i < 12), _))

instance (E p : BitVec 32) : Decidable (OffStack E p) :=
  inferInstanceAs (Decidable (∀ i < 12, ∀ j < 8, _))

/-- a frame of a user program, as an interrupt pushes it -/
def userFrame : InterruptFrame :=
  { edi := 1, esi := 2, ebp := 0x3FEFF0, reserved := 0, ebx := 4, edx := 5, ecx := 6, eax := 7
    ip := 0x400010, cs := 0x1B, flags := 0x246, esp := 0x3FEFE0, ss := 0x23 }

/-- registers without any content -/
def zeroRegisters : Registers := ⟨0, 0, 0, 0, 0, 0, 0, 0, 0, 0, 0, 0⟩

/-- the kernel at the call of `task_return`, the struct of `r` at `0x1000000` -/
def kernelAt (esp eflags : BitVec 32) (r : Registers) : Cpu where
  reg x := if x = .esp then esp else 0
  sreg _ := 0x10
  eflags := eflags
  eip := 0
  mem := r.words.zipIdx.foldl
    (fun m w => m.write32 (0x1000000 + BitVec.ofNat 32 (4 * w.2)) w.1)
    (Mem.write32 (fun _ => 0) (esp + 4) 0x1000000)

theorem task_return_restores_iff_user :
    ∃ c', (kernelAt 0x600000 0x202 (taskSaveState zeroRegisters userFrame)).run
        (fun e _ => e) taskReturnCode 40 = some c' ∧
      (Resumed userFrame c' ↔ 0x600000#32 = 0x3FEFF0#32 ∧
        pushedFlags 0x202 = 0x246#32 ||| 0x200) :=
  task_return_restores_iff (fun e _ => e) zeroRegisters userFrame
    (kernelAt 0x600000 0x202 (taskSaveState zeroRegisters userFrame)) 0x1000000 rfl
    (by decide +kernel) (by decide +kernel) (by decide +kernel)

/-- the program gets the kernel stack pointer for its frame pointer -/
theorem task_return_loses_ebp :
    ∃ (t : Registers) (c : Cpu) (p : BitVec 32), c.eip = 0 ∧
      c.mem.read32 (c.reg .esp + 4) = p ∧ (taskSaveState t userFrame).At c.mem p ∧
      OffStack (c.reg .esp) p ∧
      ∃ c', c.run (fun e _ => e) taskReturnCode 40 = some c' ∧ ¬ Resumed userFrame c' := by
  refine ⟨zeroRegisters, kernelAt 0x600000 0x202 (taskSaveState zeroRegisters userFrame),
    0x1000000, rfl, by decide +kernel, by decide +kernel, by decide +kernel, ?_⟩
  have hebp : ((kernelAt 0x600000 0x202 (taskSaveState zeroRegisters userFrame)).run
      (fun e _ => e) taskReturnCode 40).map (fun c' => c'.reg .ebp) = some 0x600000 := by
    decide +kernel
  obtain ⟨c', hrun, hc'⟩ := Option.map_eq_some_iff.mp hebp
  refine ⟨c', hrun, fun h => ?_⟩
  rw [h.ebp] at hc'
  exact absurd hc' (by decide)

end LameOS
