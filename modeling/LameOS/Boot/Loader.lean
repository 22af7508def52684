import LameOS.Disk.Disk
import LameOS.Lib.Code
import LameOS.Task.Return

/-!
# `boot.asm`: loading the kernel

`load32` opens the A20 line, reads the sectors of the kernel with `ata_lba_read` and jumps to them.  The
segment registers are still those of real mode: the stack is addressed by `sp` in the first 64 KiB, and
`es` starts at zero with the limit that the firmware left.  `eip` counts instructions; the jump to the
kernel leaves the code.

* `BootInstr.exec`          the instructions;
* `bootCode`                `load32` and `ata_lba_read`;
* `repInsw_reaches`         the words of a sector go to memory one behind the other;
* `sectors_reach`           `.next_sector`, as often as there are sectors;
* `sectors_fail`            a sector that does not come, or that lies behind the limit;
* `ata_lba_read_iff`        which calls go on behind the call, and what they leave;
* `load32_iff`              when the kernel is started, and what it finds in memory.
-/

set_option linter.unusedVariables false

namespace LameOS
open Lib StateTransition

/-! ## the processor -/

structure BootCpu (σ : Type) where
  reg : Reg → BitVec 32
  zf : Bool
  df : Bool
  eip : Nat
  mem : Mem
  device : σ
  /-- the system control port: bit 1 opens the A20 line, bit 0 resets the machine -/
  port92 : BitVec 8
  /-- the last byte that `es` reaches -/
  esLimit : BitVec 32

inductive BootInstr where
  | inAlImm (port : Nat)
  | orAlImm (imm : BitVec 8)
  | outImmAl (port : Nat)
  | movImm (dst : Reg) (imm : BitVec 32)
  | mov (dst src : Reg)
  | shr (dst : Reg) (imm : Nat)
  | orImm (dst : Reg) (imm : BitVec 32)
  | movDxImm (imm : BitVec 16)
  | movAlImm (imm : BitVec 8)
  | outDxAl
  | inAlDx
  | testAlImm (imm : BitVec 8)
  | push (src : Reg)
  | pop (dst : Reg)
  | repInsw
  | jz (target : Nat)
  | loop (target : Nat)
  | call (target : Nat)
  | ret
  | jmpFar (target : Nat)
  deriving DecidableEq, Repr

namespace BootCpu
section
variable {σ : Type} (c : BootCpu σ)

def set (r : Reg) (v : BitVec 32) : BootCpu σ := { c with reg := Function.update c.reg r v }

def next : BootCpu σ := { c with eip := c.eip + 1 }

def al : BitVec 8 := (c.reg .eax).setWidth 8

def dx : BitVec 16 := (c.reg .edx).setWidth 16

def sp : BitVec 16 := (c.reg .esp).setWidth 16

def setAl (v : BitVec 8) : BootCpu σ := c.set .eax ((c.reg .eax).extractLsb' 8 24 ++ v)

def setDx (v : BitVec 16) : BootCpu σ := c.set .edx ((c.reg .edx).extractLsb' 16 16 ++ v)

def setSp (v : BitVec 16) : BootCpu σ := c.set .esp ((c.reg .esp).extractLsb' 16 16 ++ v)

/-- where the word at the 16-bit address `a` of the stack lies -/
def stackAddr (a : BitVec 16) : BitVec 32 := a.setWidth 32

def pushed (v : BitVec 32) : BootCpu σ :=
  { c.setSp (c.sp - 4) with mem := c.mem.write32 (stackAddr (c.sp - 4)) v }

/-- the stack ends at the limit of real mode -/
def pushVal (v : BitVec 32) : Option (BootCpu σ) :=
  if 65532 < (c.sp - 4).toNat then none else some (c.pushed v)

def popVal : Option (BitVec 32 × BootCpu σ) :=
  if 65532 < c.sp.toNat then none
  else some (c.mem.read32 (stackAddr c.sp), c.setSp (c.sp + 4))

/-- the address on the bus: with the A20 line closed, bit 20 is off -/
def line (a : BitVec 32) : BitVec 32 := if c.port92.getLsbD 1 then a else a &&& 0xFFEFFFFF

/-- `w` is stored at `es:edi`, and `edi` goes on -/
def storeString (w : BitVec 16) : BootCpu σ :=
  { c.set .edi (if c.df then c.reg .edi - 2 else c.reg .edi + 2) with
    mem := Function.update (Function.update c.mem (c.line (c.reg .edi)) (w.extractLsb' 0 8))
      (c.line (c.reg .edi + 1)) (w.extractLsb' 8 8) }

end
end BootCpu

section
variable {σ : Type} {content : Nat → BitVec 8} {capacity : Nat} (drive : Drive σ content capacity)

/-- `in`, from the system control port or the drive -/
def inPort (port : Nat) (c : BootCpu σ) : BitVec 8 × BootCpu σ :=
  if port = 0x92 then (c.port92, c)
  else ((drive.inb port c.device).1, { c with device := (drive.inb port c.device).2 })

/-- `out`: a reset leaves nothing to go on with -/
def outPort (port : Nat) (v : BitVec 8) (c : BootCpu σ) : Option (BootCpu σ) :=
  if port = 0x92 then if v.getLsbD 0 then none else some { c with port92 := v }
  else some { c with device := drive.outb port v c.device }

/-- one repetition of `rep insw`; a word behind the limit of `es` is a fault -/
def repeatInsw (c : BootCpu σ) : Option (BootCpu σ) :=
  if c.reg .ecx = 0 then some c.next
  else if c.esLimit.toNat < (c.reg .edi).toNat + 1 then none
  else
    let (w, device) := drive.inw c.dx.toNat c.device
    some (({ c with device := device }.storeString w).set .ecx (c.reg .ecx - 1))

def BootInstr.exec (c : BootCpu σ) : BootInstr → Option (BootCpu σ)
  | .inAlImm port => let (v, c) := inPort drive port c; some (c.setAl v).next
  | .orAlImm imm => some { c.setAl (c.al ||| imm) with zf := c.al ||| imm == 0 }.next
  | .outImmAl port => (outPort drive port c.al c).map BootCpu.next
  | .movImm dst imm => some (c.set dst imm).next
  | .mov dst src => some (c.set dst (c.reg src)).next
  | .shr dst imm => some { c.set dst (c.reg dst >>> imm) with zf := c.reg dst >>> imm == 0 }.next
  | .orImm dst imm => some { c.set dst (c.reg dst ||| imm) with zf := c.reg dst ||| imm == 0 }.next
  | .movDxImm imm => some (c.setDx imm).next
  | .movAlImm imm => some (c.setAl imm).next
  | .outDxAl => (outPort drive c.dx.toNat c.al c).map BootCpu.next
  | .inAlDx => let (v, c) := inPort drive c.dx.toNat c; some (c.setAl v).next
  | .testAlImm imm => some { c with zf := c.al &&& imm == 0 }.next
  | .push src => (c.pushVal (c.reg src)).map BootCpu.next
  | .pop dst => c.popVal.map fun (v, c) => (c.set dst v).next
  | .repInsw => repeatInsw drive c
  | .jz target => some (if c.zf then { c with eip := target } else c.next)
  | .loop target =>
    some (if c.reg .ecx - 1 = 0 then (c.set .ecx (c.reg .ecx - 1)).next
      else { c.set .ecx (c.reg .ecx - 1) with eip := target })
  | .call target => (c.pushVal (BitVec.ofNat 32 (c.eip + 1))).map ({ · with eip := target })
  | .ret => c.popVal.map fun (v, c) => { c with eip := v.toNat }
  | .jmpFar target => some { c with eip := target }

/-- the processor on the code of the boot sector -/
def bootMachine : CodeMachine (BootCpu σ) BootInstr where
  pc := BootCpu.eip
  exec i c := i.exec drive c

end

/-! ## the assembly -/

/-- where the jump to the kernel leads -/
abbrev kernelEntry : Nat := 0x100000

/-- from `ata_lba_read` to the command -/
def ataCommandCode : List BootInstr :=
  [ .mov .ebx .eax,
    .shr .eax 24,
    .orImm .eax 0xE0,
    .movDxImm 0x1F6,
    .outDxAl,
    .mov .eax .ecx,
    .movDxImm 0x1F2,
    .outDxAl,
    .mov .eax .ebx,
    .movDxImm 0x1F3,
    .outDxAl,
    .mov .eax .ebx,
    .movDxImm 0x1F4,
    .shr .eax 8,
    .outDxAl,
    .mov .eax .ebx,
    .movDxImm 0x1F5,
    .shr .eax 16,
    .outDxAl,
    .movDxImm 0x1F7,
    .movAlImm 0x20,
    .outDxAl ]

/-- `load32` at index 0, `ata_lba_read` at 8, `.next_sector` at 30, `.try_again` at 31 -/
def bootCode : List BootInstr :=
  [ -- load32
    .inAlImm 0x92,
    .orAlImm 2,
    .outImmAl 0x92,
    .movImm .eax 1,
    .movImm .ecx 100,
    .movImm .edi 0x0100000,
    .call 8,
    .jmpFar kernelEntry ] ++
  ataCommandCode ++
  [ -- .next_sector
    .push .ecx,
    -- .try_again
    .movDxImm 0x1F7,
    .inAlDx,
    .testAlImm 8,
    .jz 31,
    .movImm .ecx 256,
    .movDxImm 0x1F0,
    .repInsw,
    .pop .ecx,
    .loop 30,
    .ret ]

abbrev bootStep {σ : Type} {content : Nat → BitVec 8} {capacity : Nat}
    (drive : Drive σ content capacity) : BootCpu σ → Option (BootCpu σ) :=
  (bootMachine drive).step bootCode

/-! ## registers -/

namespace BootCpu
section
variable {σ : Type} (c : BootCpu σ) (r x : Reg) (v : BitVec 32)

@[simp] theorem set_same : (c.set r v).reg r = v := Function.update_self ..
@[simp] theorem set_other (h : x ≠ r) : (c.set r v).reg x = c.reg x := Function.update_of_ne h ..

theorem append_low {n m : Nat} (a : BitVec n) (b : BitVec m) : (a ++ b).setWidth m = b := by
  rw [BitVec.setWidth_append, dif_pos (le_refl m), BitVec.setWidth_eq]

@[simp] theorem setAl_al (b : BitVec 8) : (c.setAl b).al = b := by
  unfold setAl al
  rw [set_same]
  exact append_low _ b

@[simp] theorem setDx_dx (b : BitVec 16) : (c.setDx b).dx = b := by
  unfold setDx dx
  rw [set_same]
  exact append_low _ b

@[simp] theorem setSp_sp (b : BitVec 16) : (c.setSp b).sp = b := by
  unfold setSp sp
  rw [set_same]
  exact append_low _ b

end
end BootCpu

/-! ## the command -/

section
variable {σ : Type} {content : Nat → BitVec 8} {capacity : Nat} (drive : Drive σ content capacity)

theorem out_drive {c : BootCpu σ} {port : BitVec 16} (h : c.dx = port) (hport : port ≠ 0x92) :
    BootInstr.outDxAl.exec drive c
      = some { c with device := drive.outb port.toNat c.al c.device }.next := by
  show (outPort drive c.dx.toNat c.al c).map BootCpu.next = _
  have hne : port.toNat ≠ 0x92 := fun e => hport (BitVec.eq_of_toNat_eq e)
  rw [h]
  unfold outPort
  rw [if_neg hne]
  rfl

theorem in_drive {c : BootCpu σ} {port : BitVec 16} (h : c.dx = port) (hport : port ≠ 0x92) :
    BootInstr.inAlDx.exec drive c = some ({ c with device := (drive.inb port.toNat c.device).2 }.setAl
      (drive.inb port.toNat c.device).1).next := by
  have hne : port.toNat ≠ 0x92 := fun e => hport (BitVec.eq_of_toNat_eq e)
  show some ((inPort drive c.dx.toNat c).2.setAl (inPort drive c.dx.toNat c).1).next = _
  rw [h]
  unfold inPort
  rw [if_neg hne]

/-- `c'` has the stack pointer and the modes of `c` -/
structure Steady (c c' : BootCpu σ) : Prop where
  sp : c'.sp = c.sp
  df : c'.df = c.df
  port92 : c'.port92 = c.port92
  esLimit : c'.esLimit = c.esLimit

/-- `c'` has the memory and the loop registers of `c` as well -/
structure Same (c c' : BootCpu σ) : Prop extends Steady c c' where
  mem : c'.mem = c.mem
  ecx : c'.reg .ecx = c.reg .ecx
  edi : c'.reg .edi = c.reg .edi

theorem Steady.trans {c c' c'' : BootCpu σ} (h : Steady c c') (h' : Steady c' c'') : Steady c c'' :=
  ⟨h'.sp.trans h.sp, h'.df.trans h.df, h'.port92.trans h.port92, h'.esLimit.trans h.esLimit⟩

theorem Same.trans {c c' c'' : BootCpu σ} (h : Same c c') (h' : Same c' c'') : Same c c'' :=
  ⟨h.toSteady.trans h'.toSteady, h'.mem.trans h.mem, h'.ecx.trans h.ecx, h'.edi.trans h.edi⟩

theorem Same.jump {c c' : BootCpu σ} (h : Same c c') (target : Nat) : Same c { c' with eip := target } :=
  ⟨⟨h.sp, h.df, h.port92, h.esLimit⟩, h.mem, h.ecx, h.edi⟩

/-- **The command is issued** -/
theorem ataCommand_leads {c : BootCpu σ} (h : c.eip = 8) : Leads (bootStep drive) c fun c' =>
    c'.eip = 30 ∧ Same c c' ∧
    c'.device = drive.command ((c.reg .eax >>> 24 ||| 0xE0).setWidth 8) ((c.reg .ecx).setWidth 8)
      ((c.reg .eax).setWidth 8) ((c.reg .eax >>> 8).setWidth 8) ((c.reg .eax >>> 16).setWidth 8)
      c.device := by
  obtain ⟨reg, zf, df, eip, mem, device, port92, esLimit⟩ := c
  obtain rfl : eip = 8 := h
  -- the head
  refine CodeMachine.leads rfl rfl (CodeMachine.leads rfl rfl (CodeMachine.leads rfl rfl
    (CodeMachine.leads rfl rfl ?_)))
  refine CodeMachine.leads rfl (out_drive drive (BootCpu.setDx_dx _ 0x1F6) (by decide)) ?_
  -- the count
  refine CodeMachine.leads rfl rfl (CodeMachine.leads rfl rfl ?_)
  refine CodeMachine.leads rfl (out_drive drive (BootCpu.setDx_dx _ 0x1F2) (by decide)) ?_
  -- low, mid and high
  refine CodeMachine.leads rfl rfl (CodeMachine.leads rfl rfl ?_)
  refine CodeMachine.leads rfl (out_drive drive (BootCpu.setDx_dx _ 0x1F3) (by decide)) ?_
  refine CodeMachine.leads rfl rfl (CodeMachine.leads rfl rfl (CodeMachine.leads rfl rfl ?_))
  refine CodeMachine.leads rfl (out_drive drive (BootCpu.setDx_dx _ 0x1F4) (by decide)) ?_
  refine CodeMachine.leads rfl rfl (CodeMachine.leads rfl rfl (CodeMachine.leads rfl rfl ?_))
  refine CodeMachine.leads rfl (out_drive drive (BootCpu.setDx_dx _ 0x1F5) (by decide)) ?_
  -- the command itself
  refine CodeMachine.leads rfl rfl (CodeMachine.leads rfl rfl ?_)
  refine CodeMachine.leads rfl (out_drive drive (BootCpu.setDx_dx _ 0x1F7) (by decide)) ?_
  refine Leads.here ⟨rfl, ⟨⟨rfl, rfl, rfl, rfl⟩, rfl, rfl, rfl⟩, ?_⟩
  exact congrArg (fun v => drive.outb statusPort v _) (BootCpu.setAl_al _ 0x20)

/-! ## the words of a sector -/

/-- a word stored with the A20 line open -/
theorem storeString_mem {c : BootCpu σ} (h : c.port92.getLsbD 1 = true) (w : BitVec 16) :
    (c.storeString w).mem
      = c.mem.copy (c.reg .edi).toNat [w.extractLsb' 0 8, w.extractLsb' 8 8] := by
  have hline : ∀ a, c.line a = a := fun a => if_pos h
  funext x
  show Function.update (Function.update c.mem (c.line (c.reg .edi)) _) (c.line (c.reg .edi + 1)) _ x
    = [w.extractLsb' 0 8, w.extractLsb' 8 8].getD (x - BitVec.ofNat 32 (c.reg .edi).toNat).toNat (c.mem x)
  rw [hline, hline, BitVec.ofNat_toNat, BitVec.setWidth_eq]
  rcases eq_or_ne x (c.reg .edi + 1) with rfl | h1
  · rw [Function.update_self, show (c.reg .edi + 1 - c.reg .edi).toNat = 1 by bv_omega]
    rfl
  · rw [Function.update_of_ne h1]
    rcases eq_or_ne x (c.reg .edi) with rfl | h0
    · rw [Function.update_self, BitVec.sub_self]
      rfl
    · rw [Function.update_of_ne h0, List.getD_eq_default]
      show 2 ≤ _
      bv_omega

/-- the words are to come from the data port, up the memory, with `n` of them left -/
structure Copies (n : Nat) (c : BootCpu σ) : Prop where
  eip : c.eip = 37
  df : c.df = false
  line : c.port92.getLsbD 1 = true
  dx : c.dx = 0x1F0
  ecx : c.reg .ecx = BitVec.ofNat 32 n
  lt : n < 4294967296

theorem Copies.at {n : Nat} {c : BootCpu σ} (h : Copies n c) : bootCode[c.eip]? = some .repInsw := by
  rw [h.eip]
  rfl

theorem Copies.exec {n : Nat} {c : BootCpu σ} (h : Copies (n + 1) c) :
    (bootMachine drive).exec .repInsw c = if c.esLimit.toNat < (c.reg .edi).toNat + 1 then none
      else some (({ c with device := (drive.inw dataPort c.device).2 }.storeString
        (drive.inw dataPort c.device).1).set .ecx (c.reg .ecx - 1)) := by
  have hne : c.reg .ecx ≠ 0 := by
    have hlt := h.lt
    rw [h.ecx]
    bv_omega
  show repeatInsw drive c = _
  unfold repeatInsw
  rw [if_neg hne, h.dx]
  rfl

/-- one word -/
theorem Copies.word {n : Nat} {c : BootCpu σ} (h : Copies (n + 1) c)
    (hlim : (c.reg .edi).toNat + 1 ≤ c.esLimit.toNat) : ∃ c1,
      (bootMachine drive).exec .repInsw c = some c1 ∧ Copies n c1 ∧ Steady c c1 ∧
      (c1.reg .edi).toNat = ((c.reg .edi).toNat + 2) % 4294967296 ∧
      c1.mem = c.mem.copy (c.reg .edi).toNat [(drive.inw dataPort c.device).1.extractLsb' 0 8,
        (drive.inw dataPort c.device).1.extractLsb' 8 8] ∧
      c1.device = (drive.inw dataPort c.device).2 := by
  have hlt := h.lt
  refine ⟨_, (h.exec drive).trans (if_neg (Nat.not_lt.mpr hlim)), ⟨h.eip, h.df, h.line, h.dx, ?_, by omega⟩,
    ⟨rfl, rfl, rfl, rfl⟩, ?_, ?_, rfl⟩
  · show c.reg .ecx - 1 = _
    rw [h.ecx]
    bv_omega
  · show (if c.df then c.reg .edi - 2 else c.reg .edi + 2).toNat = _
    rw [h.df]
    exact BitVec.toNat_add _ _
  · exact storeString_mem (c := { c with device := (drive.inw dataPort c.device).2 }) h.line _

/-- **`rep insw`** below the limit -/
theorem insw_leads (n : Nat) : ∀ {c : BootCpu σ}, Copies n c →
    (c.reg .edi).toNat + 2 * n ≤ c.esLimit.toNat + 1 → Leads (bootStep drive) c fun c' =>
      c'.eip = 38 ∧ Steady c c' ∧ (c'.reg .edi).toNat = ((c.reg .edi).toNat + 2 * n) % 4294967296 ∧
      c'.mem = c.mem.copy (c.reg .edi).toNat (wordBytes (drive.words n c.device).1) ∧
      c'.device = (drive.words n c.device).2 := by
  induction n with
  | zero =>
    intro c h hlim
    have hexec : (bootMachine drive).exec .repInsw c = some c.next := if_pos h.ecx
    refine CodeMachine.leads h.at hexec
      (Leads.here ⟨congrArg (· + 1) h.eip, ⟨rfl, rfl, rfl, rfl⟩, ?_, rfl, rfl⟩)
    exact (Nat.mod_eq_of_lt (c.reg .edi).isLt).symm
  | succ n ih =>
    intro c h hlim
    have hlt := h.lt
    have hmax := c.esLimit.isLt
    obtain ⟨c1, hexec, h1, hk, hedi, hmem, hdev⟩ := h.word drive (by omega)
    refine CodeMachine.leads h.at hexec ((ih h1 ?_).mono ?_)
    · rw [hedi, hk.esLimit]
      omega
    · rintro c' ⟨heip', hk', hedi', hmem', hdev'⟩
      have hbytes := Mem.copy_append c.mem (c.reg .edi).toNat
        [(drive.inw dataPort c.device).1.extractLsb' 0 8, (drive.inw dataPort c.device).1.extractLsb' 8 8]
        (wordBytes (drive.words n c1.device).1) (by
          rw [wordBytes_length, drive.words_length]
          show 2 + n * 2 ≤ _
          omega)
      have hlast : (drive.words n c1.device).2 = (drive.words (n + 1) c.device).2 := by
        rw [hdev]
        rfl
      refine ⟨heip', hk.trans hk', by omega, ?_, hdev'.trans hlast⟩
      rw [hmem', hmem, hedi, Mem.copy_mod, show (c.reg .edi).toNat + 2 = (c.reg .edi).toNat
        + [(drive.inw dataPort c.device).1.extractLsb' 0 8,
          (drive.inw dataPort c.device).1.extractLsb' 8 8].length from rfl, hbytes, hdev]
      rfl

/-- `rep insw` over the limit -/
theorem insw_faults (n : Nat) : ∀ {c : BootCpu σ}, Copies n c → 0 < n →
    c.esLimit.toNat + 1 < (c.reg .edi).toNat + 2 * n → (c.reg .edi).toNat + 2 * n ≤ 4294967296 →
      Leads (bootStep drive) c fun c' => c'.eip = 37 ∧ bootStep drive c' = none := by
  induction n with
  | zero => exact fun _ h => absurd h (lt_irrefl 0)
  | succ n ih =>
    intro c h _ hout hin
    rcases Nat.lt_or_ge c.esLimit.toNat ((c.reg .edi).toNat + 1) with hlim | hlim
    · exact .here ⟨h.eip, (CodeMachine.step_at h.at).trans ((h.exec drive).trans (if_pos hlim))⟩
    · obtain ⟨c1, hexec, h1, hk, hedi, -, -⟩ := h.word drive hlim
      refine CodeMachine.leads h.at hexec (ih h1 (by omega) ?_ ?_)
      · rw [hedi, hk.esLimit]
        omega
      · rw [hedi]
        omega

/-! ## the wait for a sector -/

theorem test_bit (v : BitVec 8) : (v &&& 8 == 0) = !v.getLsbD 3 := by
  revert v
  decide

/-- the three instructions in front of the jump back -/
theorem try_again_leads {c : BootCpu σ} (h : c.eip = 31) : Leads (bootStep drive) c fun c' =>
    c'.eip = 34 ∧ Same c c' ∧ c'.device = (drive.inb statusPort c.device).2 ∧
      c'.zf = !(drive.inb statusPort c.device).1.getLsbD 3 := by
  obtain ⟨reg, zf, df, eip, mem, device, port92, esLimit⟩ := c
  obtain rfl : eip = 31 := h
  refine CodeMachine.leads rfl rfl ?_
  refine CodeMachine.leads rfl (in_drive drive (BootCpu.setDx_dx _ 0x1F7) (by decide)) ?_
  refine CodeMachine.leads rfl rfl (Leads.here ⟨rfl, ⟨⟨rfl, rfl, rfl, rfl⟩, rfl, rfl, rfl⟩, rfl, ?_⟩)
  rw [← test_bit]
  exact congrArg (fun v => v &&& 8 == 0) (BootCpu.setAl_al _ _)

theorem jz_exec {c : BootCpu σ} (h : c.eip = 34) :
    bootStep drive c = some (if c.zf then { c with eip := 31 } else c.next) := by
  have hcode : bootCode[c.eip]? = some (BootInstr.jz 31) := by
    rw [h]
    rfl
  exact CodeMachine.step_at (M := bootMachine drive) hcode

/-- a sector that comes, after any delay -/
theorem ready_leads (delay : Nat) : ∀ {c : BootCpu σ} {sector left : Nat}, c.eip = 31 →
    drive.transfer c.device = .busy delay sector left → Leads (bootStep drive) c fun c' =>
      c'.eip = 35 ∧ Same c c' ∧ drive.transfer c'.device = .ready sector left 0 := by
  induction delay with
  | zero =>
    intro c sector left h hbusy
    obtain ⟨hbit, hnext⟩ := drive.in_status c.device
    rw [show (drive.channel c.device).transfer = _ from hbusy] at hbit hnext
    refine (try_again_leads drive h).bind fun c' ⟨heip, hsame, hdev, hzf⟩ => ?_
    have hzf : c'.zf = false := by
      rw [hzf, hbit]
      rfl
    refine .head (jz_exec drive heip) (.here ?_)
    rw [hzf, if_neg Bool.false_ne_true]
    refine ⟨congrArg (· + 1) heip, hsame.jump _, ?_⟩
    show drive.transfer c'.device = _
    rw [hdev]
    exact hnext
  | succ delay ih =>
    intro c sector left h hbusy
    obtain ⟨hbit, hnext⟩ := drive.in_status c.device
    rw [show (drive.channel c.device).transfer = _ from hbusy] at hbit hnext
    refine (try_again_leads drive h).bind fun c' ⟨heip, hsame, hdev, hzf⟩ => ?_
    have hzf : c'.zf = true := by
      rw [hzf, hbit]
      rfl
    refine .head (jz_exec drive heip) ?_
    rw [if_pos hzf]
    refine (ih rfl ?_).mono fun c'' ⟨heip', hsame', hready⟩ => ⟨heip', (hsame.jump 31).trans hsame', hready⟩
    show drive.transfer c'.device = _
    rw [hdev]
    exact hnext

/-- a sector that does not come -/
theorem waits_endless {c t : BootCpu σ} (h : c.eip = 31)
    (hno : drive.transfer c.device = .failed ∨ drive.transfer c.device = .idle) :
    t ∉ eval (bootStep drive) c := by
  refine endless (P := fun c => c.eip = 31 ∧
    (drive.transfer c.device = .failed ∨ drive.transfer c.device = .idle)) ?_ ⟨h, hno⟩
  rintro c ⟨h, hno⟩
  obtain ⟨hbit, hnext⟩ := drive.in_status c.device
  have hpolled : (drive.channel c.device).transfer.polled
      = (false, (drive.channel c.device).transfer) := by
    rcases hno with hno | hno
    · rw [show (drive.channel c.device).transfer = _ from hno]
      rfl
    · rw [show (drive.channel c.device).transfer = _ from hno]
      rfl
  rw [hpolled] at hbit hnext
  refine (try_again_leads drive h).mono fun c' ⟨heip, hsame, hdev, hzf⟩ => ?_
  have hzf : c'.zf = true := by
    rw [hzf, hbit]
    rfl
  refine ⟨_, jz_exec drive heip, ?_⟩
  rw [if_pos hzf]
  refine ⟨rfl, ?_⟩
  show drive.transfer c'.device = _ ∨ drive.transfer c'.device = _
  rwa [hdev, show drive.transfer (drive.inb statusPort c.device).2 = _ from hnext]

/-! ## the stack -/

namespace BootCpu
variable {c : BootCpu σ}

theorem pushVal_run (h : 4 ≤ c.sp.toNat) (v : BitVec 32) : c.pushVal v = some (c.pushed v) := by
  refine if_neg ?_
  have hlt := c.sp.isLt
  bv_omega

theorem popVal_run (h : c.sp.toNat ≤ 65532) :
    c.popVal = some (c.mem.read32 (stackAddr c.sp), c.setSp (c.sp + 4)) := if_neg (by omega)

end BootCpu

/-- a word of the stack is below what the loader stores -/
theorem stack_read (m : Mem) {a : BitVec 16} (v : BitVec 32) {p : Nat} {bs : List (BitVec 8)}
    (ha : a.toNat ≤ 65532) (hp : 65536 ≤ p) (hlen : p + bs.length ≤ 4294967296) (hlt : p < 4294967296) :
    (m.copy p bs).read32 (BootCpu.stackAddr a) = m.read32 (BootCpu.stackAddr a) := by
  have haddr : BitVec.ofNat 32 a.toNat = BootCpu.stackAddr a := by
    unfold BootCpu.stackAddr
    rw [BitVec.ofNat_toNat]
  have e := Mem.load_copy_out m (b := a.toNat) (Or.inl (by omega)) hlt hlen (by omega)
  unfold Mem.load at e
  rw [haddr] at e
  exact BitVec.eq_of_toNat_eq e

end

/-! ## a sector -/

section
variable {σ : Type} {disk : Disk} {capacity : Nat} (drive : Drive σ disk.content capacity)

/-- the words are to be read -/
theorem copies_leads {c : BootCpu σ} (h : c.eip = 35) (hdf : c.df = false)
    (hline : c.port92.getLsbD 1 = true) : Leads (bootStep drive) c fun c' => Copies 256 c' ∧ Steady c c' ∧
      c'.mem = c.mem ∧ c'.reg .edi = c.reg .edi ∧ c'.device = c.device := by
  obtain ⟨reg, zf, df, eip, mem, device, port92, esLimit⟩ := c
  obtain rfl : eip = 35 := h
  refine CodeMachine.leads rfl rfl (CodeMachine.leads rfl rfl
    (Leads.here ⟨⟨rfl, hdf, hline, ?_, rfl, by decide⟩, ⟨rfl, rfl, rfl, rfl⟩, rfl, rfl, rfl⟩))
  exact BootCpu.setDx_dx _ 0x1F0

theorem push_leads {c : BootCpu σ} (h : c.eip = 30) (hsp : 4 ≤ c.sp.toNat) :
    Leads (bootStep drive) c fun c' => c'.eip = 31 ∧
      Same (c.pushed (c.reg .ecx)) c' ∧ c'.device = c.device := by
  have hcode : bootCode[c.eip]? = some (BootInstr.push .ecx) := by
    rw [h]
    rfl
  refine CodeMachine.leads (M := bootMachine drive) hcode (congrArg (Option.map BootCpu.next)
    (BootCpu.pushVal_run hsp _)) (Leads.here ⟨congrArg (· + 1) h, ⟨⟨rfl, rfl, rfl, rfl⟩, rfl, rfl, rfl⟩, rfl⟩)

/-- **A sector that comes** -/
theorem sector_leads {c : BootCpu σ} (h : c.eip = 30) (hsp : 4 ≤ c.sp.toNat) (hdf : c.df = false)
    (hline : c.port92.getLsbD 1 = true) {delay sector left : Nat}
    (hbusy : drive.transfer c.device = .busy delay sector left) (hedi : 65536 ≤ (c.reg .edi).toNat)
    (hlim : (c.reg .edi).toNat + 512 ≤ c.esLimit.toNat + 1) : Leads (bootStep drive) c fun c' =>
      c'.eip = 39 ∧ Steady c c' ∧ c'.reg .ecx = c.reg .ecx ∧
      (c'.reg .edi).toNat = ((c.reg .edi).toNat + 512) % 4294967296 ∧
      c'.mem = (c.mem.write32 (BootCpu.stackAddr (c.sp - 4)) (c.reg .ecx)).copy (c.reg .edi).toNat
        (sectorData disk sector 1) ∧
      Begins capacity (sector + 1) left (drive.transfer c'.device) := by
  refine (push_leads drive h hsp).bind fun c1 ⟨heip1, hsame1, hdev1⟩ => ?_
  refine (ready_leads drive delay heip1 (hdev1 ▸ hbusy)).bind fun c2 ⟨heip2, hsame2, hready⟩ => ?_
  have h2 := hsame1.trans hsame2
  refine (copies_leads drive heip2 (h2.df.trans hdf) (h2.port92 ▸ hline)).bind
    fun c3 ⟨hcopies, hk3, hmem3, hedi3, hdev3⟩ => ?_
  have hedi : (c3.reg .edi).toNat = (c.reg .edi).toNat := by
    rw [hedi3, h2.edi]
    rfl
  have hlimit : c3.esLimit.toNat = c.esLimit.toNat := by
    rw [hk3.esLimit, h2.esLimit]
    rfl
  refine (insw_leads drive 256 hcopies (by omega)).bind fun c4 ⟨heip4, hk4, hedi4, hmem4, hdev4⟩ => ?_
  obtain ⟨hwords, hnext⟩ := drive.words_sector (hdev3.symm ▸ hready)
  rw [hwords, wordBytes_wordOf, hedi, hmem3, h2.mem] at hmem4
  have hmem : c4.mem = (c.mem.write32 (BootCpu.stackAddr (c.sp - 4)) (c.reg .ecx)).copy
      (c.reg .edi).toNat (sectorData disk sector 1) := hmem4
  -- the counter comes back
  have hsp4 : c4.sp = c.sp - 4 := by
    rw [hk4.sp, hk3.sp, h2.sp]
    exact BootCpu.setSp_sp _ _
  have hlow : (c.sp - 4).toNat ≤ 65532 := by
    have hlt := c.sp.isLt
    bv_omega
  have htop : c4.mem.read32 (BootCpu.stackAddr c4.sp) = c.reg .ecx := by
    have hmax := c.esLimit.isLt
    have hlen : (sectorData disk sector 1).length = 512 := sectorData_length disk sector 1
    rw [hmem, hsp4, stack_read _ (c.reg .ecx) hlow (by omega) (by omega) (by omega),
      Mem.read32_write32]
  have hcode : bootCode[c4.eip]? = some (BootInstr.pop .ecx) := by
    rw [heip4]
    rfl
  have hexec := congrArg (Option.map fun (v, c) => (BootCpu.next (BootCpu.set c .ecx v)))
    (BootCpu.popVal_run (c := c4) (hsp4 ▸ hlow))
  refine CodeMachine.leads (M := bootMachine drive) hcode hexec (Leads.here ⟨congrArg (· + 1) heip4,
    ⟨?_, ?_, ?_, ?_⟩, ?_, ?_, hmem, ?_⟩)
  · show (c4.setSp (c4.sp + 4)).sp = c.sp
    rw [BootCpu.setSp_sp, hsp4]
    bv_omega
  · exact (hk4.df.trans hk3.df).trans h2.df
  · exact (hk4.port92.trans hk3.port92).trans h2.port92
  · exact (hk4.esLimit.trans hk3.esLimit).trans h2.esLimit
  · exact htop
  · show (c4.reg .edi).toNat = _
    rw [hedi4, hedi]
  · show Begins _ _ _ (drive.transfer c4.device)
    rw [hdev4]
    exact hnext

/-! ## the loop over the sectors -/

/-- at `.next_sector`, with `n` sectors left -/
structure Sectors (n : Nat) (c : BootCpu σ) : Prop where
  eip : c.eip = 30
  sp : 4 ≤ c.sp.toNat
  df : c.df = false
  line : c.port92.getLsbD 1 = true
  ecx : c.reg .ecx = BitVec.ofNat 32 n
  edi : 65536 ≤ (c.reg .edi).toNat

theorem loop_exec {c : BootCpu σ} (h : c.eip = 39) : bootStep drive c
    = some (if c.reg .ecx - 1 = 0 then (c.set .ecx (c.reg .ecx - 1)).next
        else { c.set .ecx (c.reg .ecx - 1) with eip := 30 }) := by
  have hcode : bootCode[c.eip]? = some (BootInstr.loop 30) := by
    rw [h]
    rfl
  exact CodeMachine.step_at (M := bootMachine drive) hcode

/-- the memory without the word under the stack -/
def AgreeOff (c : BootCpu σ) (m m' : Mem) : Prop :=
  ∀ x, 4 ≤ (x - BootCpu.stackAddr (c.sp - 4)).toNat → m' x = m x

theorem copy_congr {m m' : Mem} {x : BitVec 32} (h : m x = m' x) (a : Nat) (bs : List (BitVec 8)) :
    m.copy a bs x = m'.copy a bs x := by
  unfold Mem.copy
  rw [h]

/-- one sector, and the jump back or on -/
theorem Sectors.body {n : Nat} {c : BootCpu σ} (h : Sectors (n + 1) c) (hn : n < 4294967296)
    {delay sector left : Nat} (hbusy : drive.transfer c.device = .busy delay sector left)
    (hlim : (c.reg .edi).toNat + 512 ≤ c.esLimit.toNat + 1) :
    Leads (bootStep drive) c fun c' => (if n = 0 then c'.eip = 40 else
        (c.reg .edi).toNat + 512 < 4294967296 → Sectors n c') ∧ Steady c c' ∧
      (c'.reg .edi).toNat = ((c.reg .edi).toNat + 512) % 4294967296 ∧
      AgreeOff c (c.mem.copy (c.reg .edi).toNat (sectorData disk sector 1)) c'.mem ∧
      Begins capacity (sector + 1) left (drive.transfer c'.device) := by
  refine (sector_leads drive h.eip h.sp h.df h.line hbusy h.edi hlim).bind
    fun c1 ⟨heip, hk, hecx, hedi, hmem, hnext⟩ => ?_
  have hcount : c1.reg .ecx - 1 = BitVec.ofNat 32 n := by
    rw [hecx, h.ecx]
    bv_omega
  have hagree : AgreeOff c (c.mem.copy (c.reg .edi).toNat (sectorData disk sector 1)) c1.mem := by
    intro x hx
    rw [hmem]
    exact copy_congr (Mem.write32_apart _ _ _ _ hx) _ _
  refine .head (loop_exec drive heip) (.here ?_)
  rw [hcount]
  by_cases h0 : n = 0
  · have hzero : BitVec.ofNat 32 n = 0 := by
      rw [h0]
      rfl
    rw [if_pos h0, if_pos hzero]
    exact ⟨congrArg (· + 1) heip, ⟨hk.sp, hk.df, hk.port92, hk.esLimit⟩, hedi, hagree, hnext⟩
  · rw [if_neg h0, if_neg (by bv_omega)]
    refine ⟨fun hin => ⟨rfl, ?_, hk.df.trans h.df, ?_, ?_, ?_⟩, ⟨hk.sp, hk.df, hk.port92, hk.esLimit⟩,
      hedi, hagree, hnext⟩
    · exact hk.sp.symm ▸ h.sp
    · exact hk.port92.symm ▸ h.line
    · show (c1.set .ecx (BitVec.ofNat 32 n)).reg .ecx = _
      exact BootCpu.set_same _ _ _
    · have hge := h.edi
      show 65536 ≤ (c1.reg .edi).toNat
      omega

/-- **Sectors that come** -/
theorem sectors_reach (n : Nat) : ∀ {c : BootCpu σ} {sector k : Nat}, Sectors (n + 1) c →
    n < 4294967296 → Begins capacity sector k (drive.transfer c.device) → n + 1 ≤ k →
    sector + (n + 1) ≤ capacity → (c.reg .edi).toNat + (n + 1) * 512 ≤ c.esLimit.toNat + 1 →
    Leads (bootStep drive) c fun c' => c'.eip = 40 ∧ Steady c c' ∧
      AgreeOff c (c.mem.copy (c.reg .edi).toNat (sectorData disk sector (n + 1))) c'.mem ∧
      Begins capacity (sector + (n + 1)) (k - (n + 1)) (drive.transfer c'.device) := by
  induction n with
  | zero =>
    intro c sector k h hn hbegins hk hin hlim
    obtain ⟨k, rfl⟩ := Nat.exists_eq_succ_of_ne_zero (Nat.ne_of_gt hk)
    obtain ⟨delay, hbusy⟩ := (begins_in (by omega)).mp hbegins
    exact (h.body drive hn hbusy (by omega)).mono fun c' ⟨heip, hkept, _, hagree, hnext⟩ =>
      ⟨heip, hkept, hagree, hnext⟩
  | succ n ih =>
    intro c sector k h hn hbegins hk hin hlim
    obtain ⟨k, rfl⟩ := Nat.exists_eq_succ_of_ne_zero (Nat.ne_of_gt (Nat.zero_lt_of_lt hk))
    obtain ⟨delay, hbusy⟩ := (begins_in (by omega)).mp hbegins
    have hmax := c.esLimit.isLt
    refine (h.body drive hn hbusy (by omega)).bind fun c1 ⟨hloop, hkept, hedi, hagree, hnext⟩ => ?_
    rw [if_neg (Nat.succ_ne_zero n)] at hloop
    refine (ih (hloop (by omega)) (by omega) hnext (by omega) (by omega) ?_).mono
      fun c' ⟨heip, hkept', hagree', hlast⟩ => ⟨heip, hkept.trans hkept', fun x hx => ?_, ?_⟩
    · rw [hedi, hkept.esLimit]
      omega
    · have hcopy := Mem.copy_append c.mem (c.reg .edi).toNat (sectorData disk sector 1)
        (sectorData disk (sector + 1) (n + 1)) (by
          rw [sectorData_length, sectorData_length]
          omega)
      rw [sectorData_length, Nat.one_mul] at hcopy
      have hx1 : 4 ≤ (x - BootCpu.stackAddr (c1.sp - 4)).toNat := by
        rw [hkept.sp]
        exact hx
      have hrest := hagree' x hx1
      rw [hedi, Mem.copy_mod, copy_congr (hagree x hx), hcopy] at hrest
      rw [sectorData_succ]
      exact hrest
    · have hsector : sector + 1 + (n + 1) = sector + (n + 1 + 1) := by omega
      have hleft : k - (n + 1) = k.succ - (n + 1 + 1) := by omega
      rw [← hsector, ← hleft]
      exact hlast

/-- **A sector that does not come, or that lies behind the limit**: the run stays in the code -/
theorem sectors_fail (k : Nat) : ∀ {c : BootCpu σ} {sector n : Nat}, Sectors n c → 0 < n →
    n ≤ 4294967296 → Begins capacity sector k (drive.transfer c.device) →
    (c.reg .edi).toNat + k * 512 < 4294967296 →
    k < n ∨ capacity < sector + n ∨ c.esLimit.toNat + 1 < (c.reg .edi).toNat + n * 512 →
      ∀ t ∈ eval (bootStep drive) c, t.eip < 41 := by
  -- a sector that does not come
  have hwait : ∀ {c : BootCpu σ} {n : Nat}, Sectors n c →
      drive.transfer c.device = .failed ∨ drive.transfer c.device = .idle →
        ∀ t ∈ eval (bootStep drive) c, t.eip < 41 := by
    intro c n h hno
    refine (push_leads drive h.eip h.sp).mem_eval fun c1 ⟨heip, hsame, hdev⟩ t ht => ?_
    exact absurd ht (waits_endless drive heip (hdev ▸ hno))
  induction k with
  | zero => exact fun h _ _ hbegins _ _ => hwait h (Or.inr hbegins)
  | succ k ih =>
    intro c sector n h hpos hn hbegins hedge hfail
    rcases Nat.lt_or_ge sector capacity with hs | hs
    · obtain ⟨delay, hbusy⟩ := (begins_in hs).mp hbegins
      obtain ⟨n, rfl⟩ := Nat.exists_eq_succ_of_ne_zero (Nat.ne_of_gt hpos)
      rcases Nat.lt_or_ge (c.esLimit.toNat + 1) ((c.reg .edi).toNat + 512) with hlim | hlim
      · -- the limit is within the sector
        refine Leads.mem_eval (push_leads drive h.eip h.sp) fun c1 ⟨heip1, hsame1, hdev1⟩ => ?_
        refine Leads.mem_eval (ready_leads drive delay heip1 (hdev1 ▸ hbusy))
          fun c2 ⟨heip2, hsame2, hready⟩ => ?_
        have h2 := hsame1.trans hsame2
        refine Leads.mem_eval (copies_leads drive heip2 (h2.df.trans h.df) (h2.port92 ▸ h.line))
          fun c3 ⟨hcopies, hk3, hmem3, hedi3, hdev3⟩ => ?_
        have hedi : (c3.reg .edi).toNat = (c.reg .edi).toNat := by
          rw [hedi3, h2.edi]
          rfl
        have hlimit : c3.esLimit.toNat = c.esLimit.toNat := by
          rw [hk3.esLimit, h2.esLimit]
          rfl
        refine Leads.stuck ((insw_faults drive 256 hcopies (by decide) (by omega) (by omega)).mono ?_)
        exact fun u ⟨heip, hnone⟩ => ⟨by rw [heip]; decide, hnone⟩
      · refine (h.body drive (by omega) hbusy hlim).mem_eval
          fun c1 ⟨hloop, hkept, hedi, hagree, hnext⟩ => ?_
        rw [if_neg (by omega)] at hloop
        refine ih (hloop (by omega)) (by omega) (by omega) hnext (by omega) ?_
        rw [hedi, hkept.esLimit]
        omega
    · exact hwait h (Or.inl ((begins_out hs).mp hbegins))

/-! ## a call -/

/-- at the call, with room on the stack and the sectors to go above the first 64 KiB -/
structure AtCall (c : BootCpu σ) : Prop where
  eip : c.eip = 6
  sp : 8 ≤ c.sp.toNat
  df : c.df = false
  line : c.port92.getLsbD 1 = true
  edi : 65536 ≤ (c.reg .edi).toNat
  edge : (c.reg .edi).toNat + 131072 < 4294967296
  idle : drive.Idle c.device

/-- the sectors are on the drive, and their bytes inside the limit -/
def Loads (capacity : Nat) (c : BootCpu σ) : Prop :=
  1 ≤ (c.reg .ecx).toNat ∧ (c.reg .ecx).toNat ≤ 256 ∧
    (c.reg .eax).toNat % 536870912 + (c.reg .ecx).toNat ≤ capacity ∧
    (c.reg .edi).toNat + (c.reg .ecx).toNat * 512 ≤ c.esLimit.toNat + 1

theorem byte_ushift (x : BitVec 32) (k : Nat) : (x >>> k).setWidth 8 = x.extractLsb' k 8 := rfl

/-- up to `.next_sector` -/
theorem AtCall.start {c : BootCpu σ} (h : AtCall drive c) : Leads (bootStep drive) c fun c' =>
    c'.eip = 30 ∧ Same (c.pushed 7) c' ∧ Begins capacity ((c.reg .eax).toNat % 536870912)
      (if (c.reg .ecx).toNat % 256 = 0 then 256 else (c.reg .ecx).toNat % 256)
      (drive.transfer c'.device) := by
  have hcode : bootCode[c.eip]? = some (BootInstr.call 8) := by
    rw [h.eip]
    rfl
  have hsp := h.sp
  have hexec : (bootMachine drive).exec (.call 8) c = some { c.pushed 7 with eip := 8 } := by
    show (c.pushVal (BitVec.ofNat 32 (c.eip + 1))).map ({ · with eip := 8 }) = _
    rw [BootCpu.pushVal_run (by omega), h.eip]
    rfl
  refine CodeMachine.leads hcode hexec ((ataCommand_leads drive rfl).mono fun c' ⟨heip, hsame, hdev⟩ => ?_)
  refine ⟨heip, ⟨⟨hsame.sp, hsame.df, hsame.port92, hsame.esLimit⟩, hsame.mem, hsame.ecx, hsame.edi⟩, ?_⟩
  have hbegins := command_begins drive h.idle (c.reg .eax) (c.reg .ecx)
  have hcommand : c'.device = drive.command ((c.reg .eax).extractLsb' 24 8 ||| 0xE0)
      ((c.reg .ecx).setWidth 8) ((c.reg .eax).extractLsb' 0 8) ((c.reg .eax).extractLsb' 8 8)
      ((c.reg .eax).extractLsb' 16 8) c.device := by
    rw [hdev, BitVec.setWidth_or, byte_ushift, byte_ushift, byte_ushift]
    rfl
  rw [hcommand]
  exact hbegins

theorem AtCall.sectors {c c' : BootCpu σ} (h : AtCall drive c) (heip : c'.eip = 30)
    (hsame : Same (c.pushed 7) c') {n : Nat} (hn : c.reg .ecx = BitVec.ofNat 32 n) : Sectors n c' := by
  have hsp := h.sp
  refine ⟨heip, ?_, hsame.df.trans h.df, hsame.port92.symm ▸ h.line, hsame.ecx.trans hn, ?_⟩
  · rw [hsame.sp, show (c.pushed 7).sp = c.sp - 4 from BootCpu.setSp_sp _ _]
    bv_omega
  · rw [hsame.edi]
    exact h.edi

/-- **A call with its sectors there** -/
theorem AtCall.loads {c : BootCpu σ} (h : AtCall drive c) (hloads : Loads capacity c) :
    Leads (bootStep drive) c fun t => (t.eip = kernelEntry ∧ t.port92 = c.port92 ∧
      drive.Idle t.device ∧ ∀ x, 8 ≤ (x - BootCpu.stackAddr (c.sp - 8)).toNat → t.mem x
        = c.mem.copy (c.reg .edi).toNat (sectorData disk ((c.reg .eax).toNat % 536870912)
          (c.reg .ecx).toNat) x) ∧ bootStep drive t = none := by
  obtain ⟨h1, h256, hcap, hlim⟩ := hloads
  have hsp := h.sp
  have hcount : (if (c.reg .ecx).toNat % 256 = 0 then 256 else (c.reg .ecx).toNat % 256)
      = (c.reg .ecx).toNat := by
    split <;> omega
  obtain ⟨n, hn⟩ := Nat.exists_eq_succ_of_ne_zero (Nat.ne_of_gt h1)
  refine h.start.bind fun c1 ⟨heip1, hsame1, hbegins⟩ => ?_
  rw [hcount, hn] at hbegins
  rw [hn] at hcap hlim
  have hecx : c.reg .ecx = BitVec.ofNat 32 (n + 1) := by
    rw [← show (c.reg .ecx).toNat = n + 1 from hn, BitVec.ofNat_toNat, BitVec.setWidth_eq]
  have hs := h.sectors drive heip1 hsame1 hecx
  refine (sectors_reach drive n hs (by omega) hbegins (le_refl _) hcap ?_).bind
    fun c2 ⟨heip2, hkept2, hagree, hlast⟩ => ?_
  · rw [hsame1.edi, hsame1.esLimit]
    exact hlim
  have hsp1 : c1.sp = c.sp - 4 := hsame1.sp.trans (BootCpu.setSp_sp _ _)
  have hedi1 : c1.reg .edi = c.reg .edi := hsame1.edi
  have hmem1 : c1.mem = c.mem.write32 (BootCpu.stackAddr (c.sp - 4)) 7 := hsame1.mem
  have hge := h.edi
  have hedge := h.edge
  -- the return address is still there
  have htop : c2.mem.read32 (BootCpu.stackAddr c2.sp) = 7 := by
    rw [hkept2.sp, hsp1, Mem.read32_congr (m := c1.mem.copy (c1.reg .edi).toNat _) fun k hk =>
      hagree _ (by rw [hsp1]; unfold BootCpu.stackAddr; bv_omega), hedi1,
      stack_read c1.mem 7 (by bv_omega) hge ?_ (by omega), hmem1, Mem.read32_write32]
    rw [sectorData_length]
    omega
  have hret : bootStep drive c2 = some { c2.setSp (c2.sp + 4) with eip := 7 } := by
    have hcode : bootCode[c2.eip]? = some BootInstr.ret := by
      rw [heip2]
      rfl
    refine (CodeMachine.step_at (M := bootMachine drive) hcode).trans ?_
    show c2.popVal.map _ = _
    rw [BootCpu.popVal_run (by rw [hkept2.sp, hsp1]; bv_omega), htop]
    rfl
  refine .head hret (CodeMachine.leads (M := bootMachine drive) rfl rfl (.here ⟨⟨rfl, ?_, ?_, ?_⟩, ?_⟩))
  · exact hkept2.port92.trans hsame1.port92
  · rw [Nat.sub_self] at hlast
    exact hlast
  · intro x hx
    have hx1 : 4 ≤ (x - BootCpu.stackAddr (c1.sp - 4)).toNat := by
      rw [hsp1]
      unfold BootCpu.stackAddr at hx ⊢
      bv_omega
    have hx2 : 4 ≤ (x - BootCpu.stackAddr (c.sp - 4)).toNat := by
      unfold BootCpu.stackAddr at hx ⊢
      bv_omega
    show c2.mem x = _
    rw [hagree x hx1, hedi1, hmem1, copy_congr (Mem.write32_apart _ _ _ _ hx2), hn]
  · exact CodeMachine.step_behind (show 41 ≤ kernelEntry by decide)

/-- a call without them -/
theorem AtCall.fails {c : BootCpu σ} (h : AtCall drive c) (hno : ¬ Loads capacity c) :
    ∀ t ∈ eval (bootStep drive) c, t.eip < 41 := by
  refine h.start.mem_eval fun c1 ⟨heip1, hsame1, hbegins⟩ => ?_
  have hmax := (c.reg .ecx).isLt
  obtain ⟨n, hn, hpos, hle, hecx⟩ : ∃ n, n % 4294967296 = (c.reg .ecx).toNat ∧ 0 < n ∧ n ≤ 4294967296 ∧
      c.reg .ecx = BitVec.ofNat 32 n := by
    rcases Nat.eq_zero_or_pos (c.reg .ecx).toNat with h0 | h0
    · exact ⟨4294967296, by omega, by decide, le_refl _, BitVec.eq_of_toNat_eq h0⟩
    · refine ⟨(c.reg .ecx).toNat, by omega, h0, by omega, ?_⟩
      rw [BitVec.ofNat_toNat, BitVec.setWidth_eq]
  have hs := h.sectors drive heip1 hsame1 hecx
  have hedi1 : c1.reg .edi = c.reg .edi := hsame1.edi
  have hlim1 : c1.esLimit = c.esLimit := hsame1.esLimit
  have hedge := h.edge
  unfold Loads at hno
  refine sectors_fail drive _ hs hpos hle hbegins ?_ ?_
  · rw [hedi1]
    split <;> omega
  · rw [hedi1, hlim1]
    split <;> omega

theorem AtCall.loads_of_entry {c t : BootCpu σ} (h : AtCall drive c) (ht : t ∈ eval (bootStep drive) c)
    (heip : t.eip = kernelEntry) : Loads capacity c := by
  by_contra hno
  have hlt := h.fails drive hno t ht
  rw [heip] at hlt
  exact absurd hlt (by decide)

theorem AtCall.entry_iff {c : BootCpu σ} (h : AtCall drive c) :
    (∃ t ∈ eval (bootStep drive) c, t.eip = kernelEntry) ↔ Loads capacity c := by
  refine ⟨fun ⟨t, ht, heip⟩ => h.loads_of_entry drive ht heip, fun hloads => ?_⟩
  obtain ⟨t, ht, hentry, -⟩ := (h.loads drive hloads).ends fun _ ht => ht.2
  exact ⟨t, ht, hentry.1⟩

theorem AtCall.finds {c t : BootCpu σ} (h : AtCall drive c) (ht : t ∈ eval (bootStep drive) c)
    (heip : t.eip = kernelEntry) : t.port92 = c.port92 ∧ drive.Idle t.device ∧
      ∀ x, 8 ≤ (x - BootCpu.stackAddr (c.sp - 8)).toNat → t.mem x
        = c.mem.copy (c.reg .edi).toNat (sectorData disk ((c.reg .eax).toNat % 536870912)
          (c.reg .ecx).toNat) x :=
  ((h.loads drive (h.loads_of_entry drive ht heip)).stuck t ht).2

/-- the processor at an instruction, with the sectors of the kernel to read and a drive that has them -/
def bootStart (eip : Nat) (port92 : BitVec 8) : BootCpu Channel where
  reg
    | .eax => 1
    | .ecx => 100
    | .edi => 0x100000
    | .esp => 0x7c00
    | _ => 0
  zf := false
  df := false
  eip := eip
  mem := fun _ => 0
  device := ⟨fun _ => 0, .idle⟩
  port92 := port92
  esLimit := 0xFFFFFFFF

abbrev bootDrive : Drive Channel (Disk.content fun i => UInt8.ofNat (i / 7)) 4096 :=
  patientDrive _ 4096 (by decide)

theorem bootStart_atCall : AtCall bootDrive (bootStart 6 2) :=
  ⟨rfl, by decide, rfl, rfl, by decide, by decide, rfl⟩

/-- **The two drivers of the disk agree.**  For the same sectors, a call in the loader goes on exactly
when `disk_read_sector` returns and `es` reaches the last byte; then both leave the same memory, but for
the stack of the loader. -/
theorem ata_lba_read_agrees {c : BootCpu σ} (h : AtCall drive c) {lba total : Int}
    (hlba : (c.reg .eax).toNat = cuint lba) (htotal : (c.reg .ecx).toNat = total) (h0 : 0 < total) :
    ((∃ t ∈ eval (bootStep drive) c, t.eip = kernelEntry) ↔
      (∃ polls r, diskReadSector drive polls lba total (c.reg .edi).toNat ⟨c.mem, c.device⟩ = .ok r) ∧
        (c.reg .edi).toNat + total * 512 ≤ c.esLimit.toNat + 1) ∧
    ∀ t ∈ eval (bootStep drive) c, t.eip = kernelEntry → ∀ polls r,
      diskReadSector drive polls lba total (c.reg .edi).toNat ⟨c.mem, c.device⟩ = .ok r →
        ∀ x, 8 ≤ (x - BootCpu.stackAddr (c.sp - 8)).toNat → t.mem x = r.2.mem x := by
  have hnamed : namedSector lba = (c.reg .eax).toNat % 536870912 := by
    rw [hlba]
    rfl
  have hcount : total.toNat = (c.reg .ecx).toNat := by omega
  obtain ⟨hreturns, hreads⟩ := diskReadSector_returns drive
    (show drive.Idle (Io.device ⟨c.mem, c.device⟩) from h.idle) lba total (c.reg .edi).toNat
  constructor
  · rw [h.entry_iff drive, hreturns, hnamed]
    unfold Loads
    omega
  · intro t ht heip polls r hrun x hx
    rw [(h.finds drive ht heip).2.2 x hx, (hreads polls r hrun).2.1, hnamed, hcount]

theorem ata_lba_read_agrees_start :
    (∃ t ∈ eval (bootStep bootDrive) (bootStart 6 2), t.eip = kernelEntry) ↔
      (∃ polls r, diskReadSector bootDrive polls 1 100 0x100000 ⟨fun _ => 0, ⟨fun _ => 0, .idle⟩⟩ = .ok r) ∧
        (0x100000 : Int) + 100 * 512 ≤ 0xFFFFFFFF + 1 :=
  (ata_lba_read_agrees bootDrive bootStart_atCall
    (show ((bootStart 6 2).reg .eax).toNat = cuint 1 from rfl)
    (show ((bootStart 6 2).reg .ecx).toNat = (100 : Int) from rfl) (by decide)).1

/-! ## the kernel -/

theorem out_port92 {c : BootCpu σ} {v : BitVec 8} (h : c.al = v) :
    (bootMachine drive).exec (.outImmAl 0x92) c
      = if v.getLsbD 0 then none else some { c with port92 := v }.next := by
  show (outPort drive 0x92 c.al c).map BootCpu.next = _
  rw [h]
  show (if v.getLsbD 0 then none else some { c with port92 := v }).map BootCpu.next = _
  split <;> rfl

theorem or_two (v : BitVec 8) : (v ||| 2).getLsbD 0 = v.getLsbD 0 ∧ (v ||| 2).getLsbD 1 = true := by
  revert v
  decide

theorem a20_leads {c : BootCpu σ} (h : c.eip = 0) : Leads (bootStep drive) c fun c' =>
    c'.eip = 2 ∧ c'.al = c.port92 ||| 2 ∧ Same c c' ∧ c'.device = c.device := by
  obtain ⟨reg, zf, df, eip, mem, device, port92, esLimit⟩ := c
  obtain rfl : eip = 0 := h
  refine CodeMachine.leads rfl rfl (CodeMachine.leads rfl rfl
    (.here ⟨rfl, ?_, ⟨⟨rfl, rfl, rfl, rfl⟩, rfl, rfl, rfl⟩, rfl⟩))
  refine (BootCpu.setAl_al _ _).trans ?_
  exact congrArg (· ||| 2) (BootCpu.setAl_al _ _)

/-- the reset -/
theorem load32_resets {c : BootCpu σ} (h : c.eip = 0) (hreset : c.port92.getLsbD 0 = true) :
    ∀ t ∈ eval (bootStep drive) c, t.eip < 41 := by
  refine Leads.stuck ((a20_leads drive h).mono fun c' ⟨heip, hal, _, _⟩ => ⟨by rw [heip]; decide, ?_⟩)
  have hcode : bootCode[c'.eip]? = some (BootInstr.outImmAl 0x92) := by
    rw [heip]
    rfl
  refine (CodeMachine.step_at (M := bootMachine drive) hcode).trans ?_
  rw [out_port92 drive hal, (or_two c.port92).1, if_pos hreset]

/-- up to the call -/
theorem load32_leads {c : BootCpu σ} (h : c.eip = 0) (hreset : c.port92.getLsbD 0 = false) :
    Leads (bootStep drive) c fun c' => c'.eip = 6 ∧ c'.sp = c.sp ∧ c'.df = c.df ∧
      c'.esLimit = c.esLimit ∧ c'.mem = c.mem ∧ c'.device = c.device ∧ c'.port92 = c.port92 ||| 2 ∧
      c'.reg .eax = 1 ∧ c'.reg .ecx = 100 ∧ c'.reg .edi = 0x100000 := by
  refine (a20_leads drive h).bind fun c1 ⟨heip, hal, hsame, hdev⟩ => ?_
  have hcode : bootCode[c1.eip]? = some (BootInstr.outImmAl 0x92) := by
    rw [heip]
    rfl
  have hexec : (bootMachine drive).exec (.outImmAl 0x92) c1
      = some { c1 with port92 := c.port92 ||| 2 }.next := by
    rw [out_port92 drive hal, (or_two c.port92).1, hreset]
    rfl
  refine CodeMachine.leads hcode hexec ?_
  obtain ⟨reg, zf, df, eip, mem, device, port92, esLimit⟩ := c1
  obtain rfl : eip = 2 := heip
  exact CodeMachine.leads rfl rfl (CodeMachine.leads rfl rfl (CodeMachine.leads rfl rfl (.here
    ⟨rfl, hsame.sp, hsame.df, hsame.esLimit, hsame.mem, hdev, rfl, rfl, rfl, rfl⟩)))

/-- what the 16-bit code leaves: the stack below the boot sector -/
structure AtLoad32 (c : BootCpu σ) : Prop where
  eip : c.eip = 0
  sp : c.sp = 0x7c00
  df : c.df = false
  idle : drive.Idle c.device

theorem load32_call {c : BootCpu σ} (h : AtLoad32 drive c) (hreset : c.port92.getLsbD 0 = false) :
    Leads (bootStep drive) c fun c' => AtCall drive c' ∧ c'.esLimit = c.esLimit ∧ c'.mem = c.mem ∧
      c'.sp = 0x7c00 ∧ c'.reg .eax = 1 ∧ c'.reg .ecx = 100 ∧ c'.reg .edi = 0x100000 := by
  refine (load32_leads drive h.eip hreset).mono
    fun c' ⟨heip, hsp, hdf, hlim, hmem, hdev, hport, heax, hecx, hedi⟩ => ?_
  refine ⟨⟨heip, ?_, hdf.trans h.df, ?_, ?_, ?_, hdev ▸ h.idle⟩, hlim, hmem, hsp.trans h.sp, heax, hecx, hedi⟩
  · rw [hsp, h.sp]
    decide
  · rw [hport]
    exact (or_two c.port92).2
  · rw [hedi]
    decide
  · rw [hedi]
    decide

/-- **Starting the kernel.**  `load32` comes to the jump into the kernel exactly when the write that opens
the A20 line does not reset the machine, the drive has the 101 sectors of the image, and `es` still
reaches the last byte of the kernel, with the limit that the firmware left.  Then the A20 line is open,
whatever it was, the sectors 1 to 100 of the drive are at `0x100000`, and memory has changed nowhere else
but in two words of the stack. -/
theorem load32_iff {c : BootCpu σ} (h : AtLoad32 drive c) :
    ((∃ t ∈ eval (bootStep drive) c, t.eip = kernelEntry) ↔
      c.port92.getLsbD 0 = false ∧ 101 ≤ capacity ∧ 0x10C7FF ≤ c.esLimit.toNat) ∧
    ∀ t ∈ eval (bootStep drive) c, t.eip = kernelEntry → t.port92.getLsbD 1 = true ∧
      drive.Idle t.device ∧ ∀ x, 8 ≤ (x - 0x7bf8).toNat →
        t.mem x = c.mem.copy 0x100000 (sectorData disk 1 100) x := by
  by_cases hreset : c.port92.getLsbD 0 = false
  · obtain ⟨c1, hr, h1, hlim, hmem, hsp, heax, hecx, hedi⟩ := load32_call drive h hreset
    have hloads : Loads capacity c1 ↔ 101 ≤ capacity ∧ 0x10C7FF ≤ c.esLimit.toNat := by
      unfold Loads
      rw [heax, hecx, hedi, hlim]
      show 1 ≤ 100 ∧ 100 ≤ 256 ∧ 1 + 100 ≤ capacity ∧ 0x100000 + 51200 ≤ c.esLimit.toNat + 1 ↔ _
      omega
    rw [reaches_eval hr, h1.entry_iff drive, hloads]
    refine ⟨by simp only [hreset, true_and], fun t ht heip => ?_⟩
    obtain ⟨hport, hidle, hfinds⟩ := h1.finds drive ht heip
    refine ⟨hport ▸ h1.line, hidle, fun x hx => ?_⟩
    have hx1 : 8 ≤ (x - BootCpu.stackAddr (c1.sp - 8)).toNat := by
      rw [hsp]
      exact hx
    have hcopy := hfinds x hx1
    rw [heax, hecx, hedi, hmem] at hcopy
    exact hcopy
  · have hno : ∀ t ∈ eval (bootStep drive) c, t.eip ≠ kernelEntry := by
      intro t ht heip
      have hlt := load32_resets drive h.eip (Bool.eq_true_of_not_eq_false hreset) t ht
      rw [heip] at hlt
      exact absurd hlt (by decide)
    exact ⟨⟨fun ⟨t, ht, heip⟩ => absurd heip (hno t ht), fun hall => absurd hall.1 hreset⟩,
      fun t ht heip => absurd heip (hno t ht)⟩

theorem load32_start : ∃ t ∈ eval (bootStep bootDrive) (bootStart 0 0), t.eip = kernelEntry :=
  (load32_iff bootDrive (c := bootStart 0 0) ⟨rfl, rfl, rfl, rfl⟩).1.mpr (by decide)

end

end LameOS
