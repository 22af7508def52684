import LameOS.Idt.Idt
import LameOS.Isr80h.Wrapper

/-!
# `idt.asm` and `idt.c`: interrupts of user code

A vector of the table leads the processor from user code to one of four functions.  Two of them are
stubs that save the registers around a C function; `idt_zero` is a C function itself and ends in `ret`.

* `Cause`                  an interrupt or an exception, which may push an error code;
* `stub`, `callC`, `deliver`   the ways through the kernel;
* `stub_run`               a stub brings the registers back, whatever lies below them on the stack;
* `interrupt_returns_iff`  **which interrupts give user code its state back**;
* `idt_zero_escalates_iff` `int 0` gives user code the privileges of the kernel.
-/

set_option linter.unusedVariables false

namespace LameOS
open Lib Lib.Exec

/-! ## the C functions -/

/-- the kernel, and what has gone to the ports -/
structure IsrKernel where
  call : CallState
  ports : List (Nat × BitVec 8)

/-- a program over the terminal -/
def onScreen {α : Type} (x : Exec Fault Terminal α) : Prog IsrKernel α :=
  part IsrKernel.call (fun c s => { s with call := c }) (onTerminal x)

/-- `outb`, to a port that no model of a device stands behind -/
def outbPort (port : Nat) (val : BitVec 8) : Prog IsrKernel Unit :=
  modify (fun s => { s with ports := s.ports ++ [(port, val)] })

/-- "Key pressed.\n" -/
def keyPressed : List UInt8 := [75, 101, 121, 32, 112, 114, 101, 115, 115, 101, 100, 46, 10]

/-- "ERROR: divide by zero exception occurred.\n" -/
def dividedByZero : List UInt8 :=
  [69, 82, 82, 79, 82, 58, 32, 100, 105, 118, 105, 100, 101, 32, 98, 121, 32, 122, 101, 114, 111, 32,
    101, 120, 99, 101, 112, 116, 105, 111, 110, 32, 111, 99, 99, 117, 114, 114, 101, 100, 46, 10]

def int21hHandler : Prog IsrKernel Unit := do
  onScreen (print keyPressed)
  outbPort 0x20 0x20

def noInterruptHandler : Prog IsrKernel Unit := outbPort 0x20 0x20

def idtZero : Prog IsrKernel Unit := onScreen (print dividedByZero)

/-! ## the processor -/

/-- why the processor leaves user code: an interrupt (or `int`), or an exception with the error code
that it comes with if it has one -/
inductive Cause where
  | interrupt (vector : Nat)
  | exception (vector : Nat) (error : BitVec 32)

namespace Cause

def vector : Cause → Nat
  | .interrupt v => v
  | .exception v _ => v

/-- the exceptions with an error code -/
def errorVectors : List Nat := [8, 10, 11, 12, 13, 14, 17, 21, 29, 30]

def errorCode : Cause → List (BitVec 32)
  | .interrupt _ => []
  | .exception v e => if v ∈ errorVectors then [e] else []

end Cause

/-- the words that the processor pushes, the last one at the head -/
def UserState.entry (u : UserState) (cause : Cause) : List (BitVec 32) :=
  cause.errorCode ++ [u.eip, u.cs, u.eflags, u.reg .esp, u.ss]

/-- the way into the kernel, with the error code on top of the five words of an interrupt -/
def enter (u : UserState) (cause : Cause) (m : Mem) : Cpu :=
  cause.errorCode.foldl Cpu.pushVal (interrupt u m)

/-- the processor and the kernel during an interrupt -/
structure Serving where
  cpu : Cpu
  kernel : IsrKernel

/-- the memory of the processor is that of the kernel -/
def Serving.left (x : Serving) : IsrKernel :=
  { x.kernel with call := x.kernel.call.onto { x.kernel.call.kernel.machine with mem := x.cpu.mem } }

section
variable (k : Clobbered) (res : Nat)

/-- a call of a C function without arguments, which leaves what it likes in `eax`, `ecx` and `edx` -/
def callC (f : Prog IsrKernel Unit) : Prog Serving Unit := do
  part Serving.kernel (fun s x => { x with kernel := s }) f
  modify (fun x => { x with cpu := { ((x.cpu.set .eax (BitVec.ofNat 32 res)).set .ecx k.ecx).set .edx k.edx
    with eflags := k.eflags } })

/-- `pushad`, the call, `popad` -/
def stub (f : Prog IsrKernel Unit) : Prog Serving Unit := do
  modify (fun x => { x with cpu := x.cpu.pushad })
  callC k res f
  modify (fun x => { x with cpu := x.cpu.popad })

def int21h : Prog Serving Unit := stub k res int21hHandler

def noInterrupt : Prog Serving Unit := stub k res noInterruptHandler

/-- what runs behind the `ret` of a C function: the kernel's code segment stays -/
def retNear (c : Cpu) : UserState where
  reg := Function.update c.reg .esp (c.reg .esp + 4)
  sreg := c.sreg
  eip := c.stackWord 0
  cs := 0x08
  eflags := c.eflags
  ss := 0x10

/-- the page of the kernel's stack lies where it is, under the directory that is loaded -/
def StackInPlace (s : CallState) : Prop :=
  (translate s.mem s.directory (tssEsp0 - 4)).map Translation.phys = some (tssEsp0 - 4)

instance (s : CallState) : Decidable (StackInPlace s) :=
  inferInstanceAs (Decidable (Option.map _ _ = _))

/-- from user code through the function of the vector, to what runs next; a frame that is pushed into
the image of the process is not followed -/
def deliver (alu : BitVec 32 → BitVec 32 → BitVec 32) (buf : List UInt8) (tmpRes : BitVec 32)
    (cause : Cause) (u : UserState) (s : IsrKernel) : Except Fault (UserState × IsrKernel) := do
  if ¬ StackInPlace s.call then
    throw .outOfBounds
  else
    match isrOf cause.vector with
    | .noInterrupt =>
      let (_, x) ← noInterrupt k res ⟨enter u cause s.call.mem, s⟩
      return (iretd x.cpu, x.left)
    | .int21h =>
      let (_, x) ← int21h k res ⟨enter u cause s.call.mem, s⟩
      return (iretd x.cpu, x.left)
    | .idtZero =>
      let (_, x) ← callC k res idtZero ⟨enter u cause s.call.mem, s⟩
      return (retNear x.cpu, x.left)
    | .isr80hWrapper =>
      let (u', call) ← trip alu k buf tmpRes u s.call
      return (u', { s with call := call })

end

/-! ## the stack -/

section
variable {u : UserState} {m : Mem} {ws : List (BitVec 32)} {c : Cpu}

/-- the words of the general purpose registers, over `n` words on the stack -/
def UserState.general (u : UserState) (n : Nat) : List (BitVec 32) :=
  [u.reg .edi, u.reg .esi, u.reg .ebp, BitVec.ofNat 32 (tssEsp0 - 4 * n), u.reg .ebx, u.reg .edx,
    u.reg .ecx, u.reg .eax]

theorem Stacked.pushad (h : Stacked u m ws c) (hlen : ws.length ≤ 8) :
    Stacked u m (u.general ws.length ++ ws) c.pushad := by
  have h1 := h.push (by omega) (u.reg .eax)
  have h2 := h1.push (show ws.length + 1 < 16 by omega) (u.reg .ecx)
  have h3 := h2.push (show ws.length + 2 < 16 by omega) (u.reg .edx)
  have h4 := h3.push (show ws.length + 3 < 16 by omega) (u.reg .ebx)
  have h5 := h4.push (show ws.length + 4 < 16 by omega) (BitVec.ofNat 32 (tssEsp0 - 4 * ws.length))
  have h6 := h5.push (show ws.length + 5 < 16 by omega) (u.reg .ebp)
  have h7 := h6.push (show ws.length + 6 < 16 by omega) (u.reg .esi)
  have h8 := h7.push (show ws.length + 7 < 16 by omega) (u.reg .edi)
  have e : c.pushad = (((((((c.pushVal (u.reg .eax)).pushVal (u.reg .ecx)).pushVal
      (u.reg .edx)).pushVal (u.reg .ebx)).pushVal (BitVec.ofNat 32 (tssEsp0 - 4 * ws.length))).pushVal
      (u.reg .ebp)).pushVal (u.reg .esi)).pushVal (u.reg .edi) := by
    unfold Cpu.pushad
    dsimp only
    rw [h.esp, h.reg .eax (by decide), h.reg .ecx (by decide), h.reg .edx (by decide),
      h.reg .ebx (by decide), h4.reg .ebp (by decide), h4.reg .esi (by decide),
      h4.reg .edi (by decide)]
  rw [e]
  exact h8

theorem enter_stacked (u : UserState) (cause : Cause) (m : Mem) :
    Stacked u m (u.entry cause) (enter u cause m) := by
  have h := interrupt_stacked u m
  unfold UserState.entry enter
  cases cause with
  | interrupt v => exact h
  | exception v e =>
    dsimp only [Cause.errorCode]
    by_cases hv : v ∈ Cause.errorVectors
    · rw [if_pos hv]
      exact h.push (show 5 < 16 by decide) e
    · rw [if_neg hv]
      exact h

theorem entry_length (u : UserState) (cause : Cause) :
    (u.entry cause).length = cause.errorCode.length + 5 := List.length_append

theorem errorCode_cases (cause : Cause) : cause.errorCode = [] ∨ ∃ e, cause.errorCode = [e] := by
  cases cause with
  | interrupt v => exact Or.inl rfl
  | exception v e =>
    dsimp only [Cause.errorCode]
    split
    · exact Or.inr ⟨e, rfl⟩
    · exact Or.inl rfl

theorem entry_short (u : UserState) (cause : Cause) : (u.entry cause).length ≤ 6 := by
  rw [entry_length]
  rcases errorCode_cases cause with h | ⟨e, h⟩
  · rw [h]
    decide
  · rw [h]
    exact le_refl 6

/-- a word of the stack -/
theorem pushes_word (hmem : c.mem = pushes m ws) {j : Nat}
    (hesp : c.reg .esp = BitVec.ofNat 32 (tssEsp0 - 4 * ws.length + 4 * j)) (hlen : ws.length ≤ 16)
    (i : Nat) (hi : j + i < ws.length) : c.stackWord i = ws.get ⟨j + i, hi⟩ := by
  have e := pushes_load m ws (j + i) hi hlen
  unfold Mem.load at e
  unfold Cpu.stackWord
  rw [hmem, hesp, ← BitVec.ofNat_add, Nat.add_assoc, ← Nat.mul_add]
  exact BitVec.eq_of_toNat_eq e

end

/-! ## a stub -/

section
variable {u : UserState} {m : Mem} {ws : List (BitVec 32)} {c : Cpu} {f : Prog IsrKernel Unit}
  {s s' : IsrKernel} (k : Clobbered) (res : Nat)

theorem callC_run (hf : f s = .ok ((), s')) : callC k res f ⟨c, s⟩ = .ok ((), ⟨{ ((c.set .eax
    (BitVec.ofNat 32 res)).set .ecx k.ecx).set .edx k.edx with eflags := k.eflags }, s'⟩) := by
  have hpart : part Serving.kernel (fun s x => { x with kernel := s }) f ⟨c, s⟩ = .ok ((), ⟨c, s'⟩) :=
    part_ok hf
  unfold callC
  rw [bind_ok hpart]
  rfl

theorem callC_error {e : Fault} (hf : f s = .error e) : callC k res f ⟨c, s⟩ = .error e := by
  have hpart : part Serving.kernel (fun s x => { x with kernel := s }) f ⟨c, s⟩ = .error e :=
    part_error hf
  exact bind_error hpart

/-- **A stub** -/
theorem stub_run (hf : f s = .ok ((), s')) (h : Stacked u m ws c) (hlen : ws.length ≤ 8) : ∃ c',
    stub k res f ⟨c, s⟩ = .ok ((), ⟨c', s'⟩) ∧ c'.mem = pushes m (u.general ws.length ++ ws) ∧
      (∀ r, r ≠ .esp → c'.reg r = u.reg r) ∧
      c'.reg .esp = BitVec.ofNat 32 (tssEsp0 - 4 * ws.length) ∧ c'.sreg = u.sreg := by
  have h1 := h.pushad hlen
  have hlen1 : (u.general ws.length ++ ws).length = ws.length + 8 := by
    rw [List.length_append, Nat.add_comm]
    rfl
  obtain ⟨c1, hc1⟩ : ∃ c1, c.pushad = c1 := ⟨_, rfl⟩
  rw [hc1] at h1
  -- the processor behind the call
  obtain ⟨c2, hc2⟩ : ∃ c2, ({ ((c1.set .eax (BitVec.ofNat 32 res)).set .ecx k.ecx).set .edx k.edx with
    eflags := k.eflags } : Cpu) = c2 := ⟨_, rfl⟩
  have hmem : c2.mem = pushes m (u.general ws.length ++ ws) := by
    rw [← hc2]
    exact h1.mem
  have hesp : c2.reg .esp = BitVec.ofNat 32 (tssEsp0 - 4 * (u.general ws.length ++ ws).length + 4 * 0) := by
    rw [← hc2]
    exact h1.esp
  have hword : ∀ i (hi : i < 8), c2.stackWord i = (u.general ws.length).get ⟨i, hi⟩ := by
    intro i hi
    have e := pushes_word hmem hesp (by omega) i (by omega)
    rw [e, List.get_eq_getElem, List.get_eq_getElem]
    have hi0 : 0 + i < (u.general ws.length).length := by
      rw [Nat.zero_add]
      exact hi
    rw [List.getElem_append_left hi0]
    exact getElem_congr_idx (Nat.zero_add i)
  refine ⟨c2.popad, ?_, hmem, fun r hr => ?_, ?_, ?_⟩
  · unfold stub
    rw [bind_ok (modify_run _ _), hc1, bind_ok (callC_run k res hf), hc2]
    rfl
  · cases r with
    | esp => exact absurd rfl hr
    | edi => exact hword 0 (by decide)
    | esi => exact hword 1 (by decide)
    | ebp => exact hword 2 (by decide)
    | ebx => exact hword 4 (by decide)
    | edx => exact hword 5 (by decide)
    | ecx => exact hword 6 (by decide)
    | eax => exact hword 7 (by decide)
  · show c2.reg .esp + 32 = _
    rw [hesp, hlen1]
    unfold tssEsp0
    bv_omega
  · rw [← h1.sreg, ← hc2]
    rfl

/-- what `iretd` finds behind a stub: the words that the processor pushed -/
theorem stub_words (hmem : c.mem = pushes m (u.general ws.length ++ ws))
    (hesp : c.reg .esp = BitVec.ofNat 32 (tssEsp0 - 4 * ws.length)) (hlen : ws.length ≤ 8) {i : Nat}
    {w : BitVec 32} (hw : ws[i]? = some w) : c.stackWord i = w := by
  obtain ⟨hi, rfl⟩ := List.getElem?_eq_some_iff.mp hw
  have hlen1 : (u.general ws.length ++ ws).length = ws.length + 8 := by
    rw [List.length_append, Nat.add_comm]
    rfl
  have hesp1 : c.reg .esp = BitVec.ofNat 32 (tssEsp0 - 4 * (u.general ws.length ++ ws).length + 4 * 8) := by
    rw [hesp, hlen1]
    unfold tssEsp0
    congr 1
    omega
  have e := pushes_word hmem hesp1 (by omega) i (by omega)
  rw [e, List.get_eq_getElem]
  have hi8 : (u.general ws.length).length ≤ 8 + i := Nat.le_add_right 8 i
  rw [List.getElem_append_right hi8]
  exact getElem_congr_idx (Nat.add_sub_cancel_left 8 i)

theorem UserState.ext {u u' : UserState} (hreg : ∀ r, u'.reg r = u.reg r) (hsreg : u'.sreg = u.sreg)
    (heip : u'.eip = u.eip) (hcs : u'.cs = u.cs) (hflags : u'.eflags = u.eflags) (hss : u'.ss = u.ss) :
    u' = u := by
  obtain ⟨reg, sreg, eip, cs, eflags, ss⟩ := u'
  obtain rfl : reg = u.reg := funext hreg
  cases hsreg
  cases heip
  cases hcs
  cases hflags
  cases hss
  rfl

/-- **The way back from a stub**: without an error code it leads to the state of the user, with one
it does not -/
theorem stub_back (cause : Cause) (hcs : u.cs = 0x1B) (hss : u.ss = 0x23)
    (hf : f s = .ok ((), s')) : ∃ c',
      stub k res f ⟨enter u cause m, s⟩ = .ok ((), ⟨c', s'⟩) ∧
      c'.mem = pushes m (u.general (u.entry cause).length ++ u.entry cause) ∧
      (iretd c' = u ↔ cause.errorCode = []) := by
  have hshort := entry_short u cause
  obtain ⟨c', hrun, hmem, hreg, hesp, hsreg⟩ := stub_run k res hf (enter_stacked u cause m) (by omega)
  refine ⟨c', hrun, hmem, ?_⟩
  have hword : ∀ {i w}, (u.entry cause)[i]? = some w → c'.stackWord i = w := fun hw =>
    stub_words hmem hesp (by omega) hw
  rcases errorCode_cases cause with herr | ⟨e, herr⟩
  · have hentry : u.entry cause = [u.eip, u.cs, u.eflags, u.reg .esp, u.ss] := by
      unfold UserState.entry
      rw [herr]
      rfl
    rw [hentry] at hword
    refine ⟨fun _ => herr, fun _ => UserState.ext (fun r => ?_) hsreg (hword rfl) (hword rfl)
      (hword rfl) (hword rfl)⟩
    by_cases hr : r = .esp
    · rw [hr]
      exact (Function.update_self Reg.esp (c'.stackWord 3) c'.reg).trans (hword rfl)
    · exact (Function.update_of_ne hr _ _).trans (hreg r hr)
  · have hentry : u.entry cause = [e, u.eip, u.cs, u.eflags, u.reg .esp, u.ss] := by
      unfold UserState.entry
      rw [herr]
      rfl
    rw [hentry] at hword
    refine ⟨fun hback => ?_, fun hno => ?_⟩
    · -- `ss` would be the `esp` of the user, `esp` its flags, and the flags its `cs`
      have h2 : c'.stackWord 2 = u.eflags := congrArg UserState.eflags hback
      have h3 : c'.stackWord 3 = u.reg .esp := by
        have hesp' : (iretd c').reg .esp = u.reg .esp := by rw [hback]
        rw [← hesp']
        exact (Function.update_self Reg.esp (c'.stackWord 3) c'.reg).symm
      have h4 : c'.stackWord 4 = u.ss := congrArg UserState.ss hback
      rw [hword rfl] at h2 h3 h4
      rw [← h4, ← h3, ← h2, hcs] at hss
      exact absurd hss (by decide)
    · rw [herr] at hno
      cases hno

end

/-! ## the ways through the kernel -/

/-- the text that a function prints -/
def Isr.text : Isr → List UInt8
  | .int21h => keyPressed
  | .idtZero => dividedByZero
  | _ => []

section
variable {p : List UInt8} {u : UserState} {s s' : IsrKernel} (k : Clobbered) (res : Nat)
  (alu : BitVec 32 → BitVec 32 → BitVec 32) (buf : List UInt8) (tmpRes : BitVec 32)

theorem onScreen_fits (h : AtCursor p s.call.terminal) {text : List UInt8}
    (hf : FitsAfter p (shown text)) : ∃ t, onScreen (print text) s
      = .ok ((), { s with call := { s.call with terminal := t } }) ∧ AtCursor (p ++ shown text) t := by
  obtain ⟨s1, hrun⟩ := (print_iff h text).mpr hf
  obtain ⟨t, hprint, rfl⟩ := part_eq_ok hrun
  exact ⟨t, part_ok hrun, print_cursor h hprint⟩

theorem onScreen_out (h : AtCursor p s.call.terminal) {text : List UInt8}
    (hf : ¬ FitsAfter p (shown text)) : ∃ e, onScreen (print text) s = .error e := by
  cases hx : onTerminal (print text) s.call with
  | ok r => exact absurd ((print_iff h text).mp ⟨r.2, hx⟩) hf
  | error e => exact ⟨e, part_error hx⟩

/-- the text of a function holds no zero -/
theorem Isr.shown_text (i : Isr) : shown i.text = i.text := by
  cases i <;> decide

/-- the kernel behind an interrupt: the words that were pushed, what was printed behind the text `p`,
and what went to the ports -/
structure Handled (p text : List UInt8) (ports : List (Nat × BitVec 8)) (s s' : IsrKernel) : Prop where
  ports : s'.ports = s.ports ++ ports
  call : ∃ ws t, ws.length ≤ 14 ∧ AtCursor (p ++ text) t ∧
    s'.call = { s.call.onto { s.call.kernel.machine with mem := pushes s.call.mem ws } with terminal := t }

/-- the end of the interrupt -/
abbrev endOfInterrupt : Nat × BitVec 8 := (0x20, 0x20)

/-- the kernel with another screen, behind the end of the interrupt -/
def IsrKernel.acknowledge (s : IsrKernel) (t : Terminal) : IsrKernel where
  call := { s.call with terminal := t }
  ports := s.ports ++ [endOfInterrupt]

/-- the kernel that a stub leaves -/
theorem stub_left (cause : Cause) {f : Prog IsrKernel Unit} {t : Terminal} {text : List UInt8}
    (hcs : u.cs = 0x1B) (hss : u.ss = 0x23) (hf : f s = .ok ((), s.acknowledge t))
    (hat : AtCursor (p ++ text) t) : ∃ x,
      stub k res f ⟨enter u cause s.call.mem, s⟩ = .ok ((), x) ∧
      Handled p text [endOfInterrupt] s x.left ∧ (iretd x.cpu = u ↔ cause.errorCode = []) := by
  obtain ⟨c', hrun, hmem, hback⟩ := stub_back (m := s.call.mem) k res cause hcs hss hf
  refine ⟨_, hrun, ⟨rfl, u.general (u.entry cause).length ++ u.entry cause, t, ?_, hat, ?_⟩, hback⟩
  · have hshort := entry_short u cause
    rw [List.length_append]
    show 8 + _ ≤ 14
    omega
  · rw [← hmem]
    rfl

theorem stub_stuck {f : Prog IsrKernel Unit} {x : Serving} {e : Fault} (hf : f x.kernel = .error e) :
    stub k res f x = .error e := by
  unfold stub
  rw [bind_ok (modify_run _ _)]
  exact bind_error (callC_error k res hf)

/-- **A vector with a stub** -/
theorem deliver_stub (cause : Cause) (hcs : u.cs = 0x1B) (hss : u.ss = 0x23)
    (hcur : AtCursor p s.call.terminal) (hstack : StackInPlace s.call)
    (hv : isrOf cause.vector = .noInterrupt ∨ isrOf cause.vector = .int21h) :
    (FitsAfter p (isrOf cause.vector).text → ∃ u' s',
      Handled p (isrOf cause.vector).text [endOfInterrupt] s s' ∧
      deliver k res alu buf tmpRes cause u s = .ok (u', s') ∧ (u' = u ↔ cause.errorCode = [])) ∧
    (¬ FitsAfter p (isrOf cause.vector).text →
      ∃ e, deliver k res alu buf tmpRes cause u s = .error e) := by
  unfold deliver
  rw [if_neg (not_not_intro hstack)]
  rcases hv with hv | hv
  · rw [hv]
    refine ⟨fun _ => ?_, fun hno => absurd (fitsAfter_nil p) hno⟩
    have hf : noInterruptHandler s = .ok ((), s.acknowledge s.call.terminal) := rfl
    obtain ⟨x, hrun, hack, hback⟩ := stub_left k res cause hcs hss hf
      (show AtCursor (p ++ []) _ from (List.append_nil p).symm ▸ hcur)
    refine ⟨_, x.left, hack, ?_, hback⟩
    dsimp only [noInterrupt]
    rw [hrun]
    rfl
  · rw [hv]
    have hshown := Isr.shown_text .int21h
    refine ⟨fun hfits => ?_, fun hno => ?_⟩
    · rw [← hshown] at hfits ⊢
      obtain ⟨t, hprint, hat⟩ := onScreen_fits hcur hfits
      have hf : int21hHandler s = .ok ((), s.acknowledge t) := bind_ok hprint
      obtain ⟨x, hrun, hack, hback⟩ := stub_left k res cause hcs hss hf hat
      refine ⟨_, x.left, hack, ?_, hback⟩
      dsimp only [int21h]
      rw [hrun]
      rfl
    · rw [← hshown] at hno
      obtain ⟨e, hprint⟩ := onScreen_out hcur hno
      have hf : int21hHandler s = .error e := bind_error hprint
      have hstuck : stub k res int21hHandler ⟨enter u cause s.call.mem, s⟩ = .error e :=
        stub_stuck k res hf
      refine ⟨e, ?_⟩
      dsimp only [int21h]
      rw [hstuck]
      rfl

/-- **`idt_zero`** ends in a `ret`: user code goes on in the code segment and on the stack of the
kernel -/
theorem deliver_zero {cause : Cause} (hv : cause.vector = 0) (hcur : AtCursor p s.call.terminal)
    (hstack : StackInPlace s.call) :
    (FitsAfter p dividedByZero → ∃ u' s', Handled p dividedByZero [] s s' ∧
      deliver k res alu buf tmpRes cause u s = .ok (u', s') ∧ u'.eip = u.eip ∧ u'.cs = 0x08 ∧
      u'.ss = 0x10 ∧ u'.reg .esp = BitVec.ofNat 32 (tssEsp0 - 16)) ∧
    (¬ FitsAfter p dividedByZero → ∃ e, deliver k res alu buf tmpRes cause u s = .error e) := by
  have herr : cause.errorCode = [] := by
    cases cause with
    | interrupt v => rfl
    | exception v e =>
      obtain rfl : v = 0 := hv
      rfl
  have hstacked := enter_stacked u cause s.call.mem
  have hentry : u.entry cause = [u.eip, u.cs, u.eflags, u.reg .esp, u.ss] := by
    unfold UserState.entry
    rw [herr]
    rfl
  rw [hentry] at hstacked
  have hshown : shown dividedByZero = dividedByZero := Isr.shown_text .idtZero
  unfold deliver
  rw [if_neg (not_not_intro hstack), hv]
  dsimp only [isrOf]
  rw [if_pos rfl]
  refine ⟨fun hfits => ?_, fun hno => ?_⟩
  · rw [← hshown] at hfits ⊢
    obtain ⟨t, hprint, hat⟩ := onScreen_fits hcur hfits
    have hrun := callC_run (c := enter u cause s.call.mem) k res hprint
    -- the processor behind the call
    obtain ⟨c, hc⟩ : ∃ c, ({ (((enter u cause s.call.mem).set .eax (BitVec.ofNat 32 res)).set .ecx
      k.ecx).set .edx k.edx with eflags := k.eflags } : Cpu) = c := ⟨_, rfl⟩
    have hmem : c.mem = pushes s.call.mem [u.eip, u.cs, u.eflags, u.reg .esp, u.ss] := by
      rw [← hc]
      exact hstacked.mem
    have hesp : c.reg .esp = BitVec.ofNat 32 (tssEsp0 - 4 * 5 + 4 * 0) := by
      rw [← hc]
      exact hstacked.esp
    rw [hc] at hrun
    have hhandled : Handled p (shown dividedByZero) [] s
        (Serving.left ⟨c, { s with call := { s.call with terminal := t } }⟩) := by
      refine ⟨(List.append_nil _).symm, [u.eip, u.cs, u.eflags, u.reg .esp, u.ss], t,
        show 5 ≤ 14 by decide, hat, ?_⟩
      rw [← hmem]
      rfl
    refine ⟨retNear c, _, hhandled, ?_, ?_, rfl, rfl, ?_⟩
    · unfold idtZero
      rw [hrun]
      rfl
    · exact pushes_word hmem hesp (show 5 ≤ 16 by decide) 0 (show 0 + 0 < 5 by decide)
    · show Function.update c.reg Reg.esp (c.reg .esp + 4) Reg.esp = _
      rw [Function.update_self, hesp]
      rfl
  · rw [← hshown] at hno
    obtain ⟨e, hprint⟩ := onScreen_out hcur hno
    have hstuck : callC k res idtZero ⟨enter u cause s.call.mem, s⟩ = .error e :=
      callC_error k res hprint
    refine ⟨e, ?_⟩
    rw [hstuck]
    rfl

/-- the vector of system calls -/
theorem deliver_command {cause : Cause} (hv : cause.vector = 0x80) (hstack : StackInPlace s.call) :
    deliver k res alu buf tmpRes cause u s = (trip alu k buf tmpRes u s.call >>= fun r =>
      pure (r.1, { s with call := r.2 })) := by
  unfold deliver
  rw [if_neg (not_not_intro hstack), hv]
  rfl

/-- the vectors with a stub -/
theorem isrOf_stub {v : Nat} (h0 : v ≠ 0) (h80 : v ≠ 0x80) :
    isrOf v = .noInterrupt ∧ v ≠ 0x21 ∨ isrOf v = .int21h ∧ v = 0x21 := by
  unfold isrOf
  rw [if_neg h0, if_neg h80]
  by_cases h21 : v = 0x21
  · rw [if_pos h21]
    exact Or.inr ⟨rfl, h21⟩
  · rw [if_neg h21]
    exact Or.inl ⟨rfl, h21⟩

/-- the kernel behind an interrupt that is no system call -/
theorem deliver_handled {cause : Cause} {u' : UserState} (hcs : u.cs = 0x1B) (hss : u.ss = 0x23)
    (hcur : AtCursor p s.call.terminal) (hstack : StackInPlace s.call) (hv : cause.vector ≠ 0x80)
    (hrun : deliver k res alu buf tmpRes cause u s = .ok (u', s')) :
    ∃ text ports, Handled p text ports s s' := by
  by_cases h0 : cause.vector = 0
  · obtain ⟨hyes, hno⟩ := deliver_zero k res alu buf tmpRes h0 hcur hstack
    by_cases hfits : FitsAfter p dividedByZero
    · obtain ⟨u1, s1, hhandled, hrun1, -⟩ := hyes hfits
      obtain ⟨-, rfl⟩ := Prod.mk.inj (Except.ok.inj (hrun1.symm.trans hrun))
      exact ⟨_, _, hhandled⟩
    · obtain ⟨e, herr⟩ := hno hfits
      rw [herr] at hrun
      cases hrun
  · obtain ⟨hyes, hno⟩ := deliver_stub k res alu buf tmpRes cause hcs hss hcur hstack
      ((isrOf_stub h0 hv).imp And.left And.left)
    by_cases hfits : FitsAfter p (isrOf cause.vector).text
    · obtain ⟨u1, s1, hhandled, hrun1, -⟩ := hyes hfits
      obtain ⟨-, rfl⟩ := Prod.mk.inj (Except.ok.inj (hrun1.symm.trans hrun))
      exact ⟨_, _, hhandled⟩
    · obtain ⟨e, herr⟩ := hno hfits
      rw [herr] at hrun
      cases hrun

end

/-! ## which interrupts return -/

/-- the kernel's stack under the tables of a task -/
theorem TaskSpace.stackInPlace {entry : Nat → Nat} {space : Space} {t : Nat} {L : List Run}
    {s : CallState} (h : TaskSpace entry space t L s) (hdir : s.directory = blockAddr space.directory)
    (hp : (entry 1535).testBit 0 = true) (hpage : entry 1535 / 4096 = 1535) : StackInPlace s := by
  have hat : PageAt entry (tssEsp0 - 4) := hp
  obtain ⟨tr, htr, hphys⟩ := translate_present h hdir hat
  have htr : translate s.mem s.directory (tssEsp0 - 4) = some tr := htr
  unfold StackInPlace
  rw [htr]
  refine congrArg some (hphys.trans ?_)
  show entry 1535 / 4096 * 4096 + 4092 = 0x5FFFFC
  rw [hpage]

section
variable {p : List UInt8} {u : UserState} {s : IsrKernel} (k : Clobbered) (res : Nat)
  (alu : BitVec 32 → BitVec 32 → BitVec 32) (buf : List UInt8) (tmpRes : BitVec 32)

/-- the interrupt finds the kernel able to serve it: not `int 0`, no error code, and what it prints
stays on the screen -/
def Cause.Served (cause : Cause) (p : List UInt8) : Prop :=
  cause.vector ≠ 0 ∧ cause.errorCode = [] ∧ (cause.vector = 0x21 → FitsAfter p keyPressed)

/-- the text that a stub prints is the text of the keyboard's -/
theorem stub_text {cause : Cause} (hisr : isrOf cause.vector = .noInterrupt ∧ cause.vector ≠ 0x21 ∨
    isrOf cause.vector = .int21h ∧ cause.vector = 0x21) :
    FitsAfter p (isrOf cause.vector).text ↔ (cause.vector = 0x21 → FitsAfter p keyPressed) := by
  rcases hisr with ⟨hi, h21⟩ | ⟨hi, h21⟩
  · rw [hi]
    exact ⟨fun _ h => absurd h h21, fun _ => fitsAfter_nil p⟩
  · rw [hi]
    exact ⟨fun h _ => h, fun h => h h21⟩

/-- an interrupt that is served gives user code its state back -/
theorem Cause.Served.returns {cause : Cause} (h : cause.Served p) (hcs : u.cs = 0x1B) (hss : u.ss = 0x23)
    (hcur : AtCursor p s.call.terminal) (hstack : StackInPlace s.call) (hv : cause.vector ≠ 0x80) :
    ∃ s', deliver k res alu buf tmpRes cause u s = .ok (u, s') := by
  obtain ⟨h0, herr, hfits⟩ := h
  have hisr := isrOf_stub h0 hv
  obtain ⟨u', s1, -, hrun, hback⟩ := (deliver_stub k res alu buf tmpRes cause hcs hss hcur hstack
    (hisr.imp And.left And.left)).1 ((stub_text hisr).mpr hfits)
  rw [hback.mpr herr] at hrun
  exact ⟨s1, hrun⟩

/-- and only such an interrupt -/
theorem Cause.served_of_returned {cause : Cause} {s' : IsrKernel} (hcs : u.cs = 0x1B) (hss : u.ss = 0x23)
    (hcur : AtCursor p s.call.terminal) (hstack : StackInPlace s.call) (hv : cause.vector ≠ 0x80)
    (hrun : deliver k res alu buf tmpRes cause u s = .ok (u, s')) : cause.Served p := by
  by_cases h0 : cause.vector = 0
  · obtain ⟨hyes, hno⟩ := deliver_zero k res alu buf tmpRes h0 hcur hstack
    by_cases hfits : FitsAfter p dividedByZero
    · obtain ⟨u', s1, -, hrun1, -, hcs', -⟩ := hyes hfits
      rw [hrun1] at hrun
      obtain rfl : u' = u := (Prod.mk.inj (Except.ok.inj hrun)).1
      rw [hcs] at hcs'
      exact absurd hcs' (by decide)
    · obtain ⟨e, herr⟩ := hno hfits
      rw [herr] at hrun
      cases hrun
  · have hisr := isrOf_stub h0 hv
    obtain ⟨hyes, hno⟩ := deliver_stub k res alu buf tmpRes cause hcs hss hcur hstack
      (hisr.imp And.left And.left)
    by_cases hfits : FitsAfter p (isrOf cause.vector).text
    · obtain ⟨u', s1, -, hrun1, hback⟩ := hyes hfits
      rw [hrun1] at hrun
      obtain rfl : u' = u := (Prod.mk.inj (Except.ok.inj hrun)).1
      exact ⟨h0, hback.mp rfl, (stub_text hisr).mp hfits⟩
    · obtain ⟨e, herr⟩ := hno hfits
      rw [herr] at hrun
      cases hrun

end

end LameOS
