import LameOS.Idt.Interrupts
import LameOS.Isr80h.Isolation

/-!
# A process that is interrupted

`kernel_main` starts one process and never takes the processor back but for interrupts, so from then
on a run of the machine is a run of user code, of its stores and of what interrupts it.

* `Session`, `UserEvent`, `sessionStep`   user code, the kernel behind it, and what happens;
* `Answered`               the kernel can serve what happens;
* `resumed`, `Resumes`     what user code goes on with;
* `Seated`                 the invariant: the processes are housed, and this one runs in its space;
* `user_run_iff`           **in a run, every interrupt gives user code its state back, and the tasks stay
                           isolated, exactly when everything that happens is answered.**
-/

set_option linter.unusedVariables false

namespace LameOS
open Lib Lib.Exec

/-! ## the text before the cursor -/

/-- a text that brings the cursor to where it stands -/
def Terminal.before (t : Terminal) : List UInt8 :=
  List.replicate t.termRow.toNat 10 ++ List.replicate t.termCol.toNat 32

/-- the cursor stands in the screen's columns -/
def Terminal.InColumns (t : Terminal) : Prop := t.termCol.toNat < vgaWidth

theorem rows_and_spaces (r : Nat) : ∀ c, c < vgaWidth →
    rowsOf (List.replicate r 10 ++ List.replicate c 32) = r ∧
      (lastLine (List.replicate r 10 ++ List.replicate c 32)).length = c := by
  intro c
  induction c with
  | zero =>
    intro _
    rw [List.replicate_zero, List.append_nil]
    refine ⟨rowsOf_newlines r, ?_⟩
    cases r with
    | zero => rfl
    | succ r =>
      rw [List.replicate_succ', lastLine_newline]
      rfl
  | succ c ih =>
    intro hc
    obtain ⟨h1, h2⟩ := ih (Nat.lt_of_succ_lt hc)
    have hrows := rowsOf_char (List.replicate r 10 ++ List.replicate c 32) (show (32 : UInt8) ≠ 10 by decide)
    have hlast := lastLine_char (List.replicate r 10 ++ List.replicate c 32) (show (32 : UInt8) ≠ 10 by decide)
    rw [List.replicate_succ', ← List.append_assoc]
    rw [h1, h2] at hrows
    rw [h2] at hlast
    dsimp only [vgaWidth] at hrows hc
    exact ⟨by omega, hlast⟩

theorem Terminal.InColumns.atCursor {t : Terminal} (h : t.InColumns) : AtCursor t.before t := by
  obtain ⟨h1, h2⟩ := rows_and_spaces t.termRow.toNat t.termCol.toNat h
  have hrow : t.termRow.toNat < 65536 := t.termRow.toNat_lt
  unfold Terminal.before
  refine ⟨?_, ?_⟩
  · rw [h1, Nat.mod_eq_of_lt hrow]
  · rw [h2, Nat.mod_eq_of_lt h]

theorem AtCursor.inColumns {p : List UInt8} {t : Terminal} (h : AtCursor p t) : t.InColumns := by
  unfold Terminal.InColumns
  rw [h.2]
  exact Nat.mod_lt _ (by decide)

/-! ## events -/

/-- user code, and the kernel behind it -/
structure Session where
  user : UserState
  kernel : IsrKernel

/-- user code computes or stores a byte, or the processor leaves it; the rest is what a C function
leaves in the registers it need not keep, what it returns, and what its local buffer holds -/
inductive UserEvent where
  | compute (reg : Reg → BitVec 32) (sreg : SReg → BitVec 16) (eip eflags : BitVec 32)
  | store (va : Nat) (c : BitVec 8)
  | enter (cause : Cause) (k : Clobbered) (res : Nat) (buf : List UInt8)

section
variable (alu : BitVec 32 → BitVec 32 → BitVec 32) (tmpRes : BitVec 32)

def sessionStep (x : Session) : UserEvent → Except Fault Session
  | .compute reg sreg eip eflags =>
    return { x with user := { x.user with reg := reg, sreg := sreg, eip := eip, eflags := eflags } }
  | .store va c => do
    let (_, call) ← userStore va c x.kernel.call
    return { x with kernel := { x.kernel with call := call } }
  | .enter cause k res buf => do
    let (user, kernel) ← deliver k res alu buf tmpRes cause x.user x.kernel
    return ⟨user, kernel⟩

/-- the command that user code asks for -/
def Session.command (x : Session) : Option Command :=
  commandFunc x.kernel.call.isr80hCommands (cint (x.user.reg .eax).toNat)

/-- the kernel can serve the event: a command that stays on the screen, or an interrupt with a stub -/
def Answered (l : Member) (x : Session) : UserEvent → Prop
  | .compute _ _ _ _ => True
  | .store _ _ => True
  | .enter cause _ _ buf =>
    if cause.vector = 0x80 then
      CommandFits x.kernel.call.terminal.before (processEntry l.blocks) (blockAddr l.space.chunk)
        (x.kernel.call.called x.user).kernel.machine (x.user.reg .esp).toNat buf x.command
    else cause.Served x.kernel.call.terminal.before

/-- what user code goes on with: its own state, with the result of a command in `eax` -/
def resumed (l : Member) (x : Session) (cause : Cause) : UserState :=
  if cause.vector = 0x80 then
    { x.user with
      reg := Function.update x.user.reg .eax (BitVec.ofNat 32 (commandResult (processEntry l.blocks)
        (x.kernel.call.called x.user).mem (x.user.reg .esp).toNat x.command))
      sreg := fun _ => 0x23 }
  else x.user

/-- an interrupt comes back to user code -/
def Resumes (l : Member) (x : Session) : UserEvent → Prop
  | .compute _ _ _ _ => True
  | .store _ _ => True
  | .enter cause k res buf =>
    ∃ kernel, deliver k res alu buf tmpRes cause x.user x.kernel = .ok (resumed l x cause, kernel)

end

/-- the process `l` of `ps` runs from its slot, and its image leaves the stack of the kernel alone -/
structure Seated (ps : List Member) (R : List Run) (l : Member) (s : CallState) : Prop where
  housed : Housed ps R s.kernel
  member : l ∈ ps
  slot : InSlot s.kernel l.slot
  process : s.kernel.processes l.slot = blockAddr l.blocks.process
  current : s.kernel.currentTask = blockAddr l.blocks.task
  directory : s.directory = blockAddr l.space.directory
  kernelChunk : s.kernelChunk ≠ 0
  image : blocksFor l.blocks.size ≤ 511
  columns : s.terminal.InColumns

section
variable {ps : List Member} {R L : List Run} {l l' : Member} {s s' : CallState} {m : Mem}

/-- two processes have different structs -/
theorem Housed.member_inj (h : Housed ps R s.kernel) (hl : l ∈ ps) (hl' : l' ∈ ps)
    (hp : l.blocks.process = l'.blocks.process) : l = l' := by
  by_contra hne
  obtain ⟨rest, hperm, hothers⟩ := h.split hl
  have hh := h.holds.perm hperm
  have hin : ∀ {k : Member}, (⟨k.blocks.process, 2⟩ : Run) ∈ k.runs :=
    List.mem_append_left _ Member.process_mem
  have hx : Within ⟨l.blocks.process, 2⟩ (blockAddr l.blocks.process) := by
    have e := blockAddr_page l.blocks.process
    refine ⟨l.blocks.process, ⟨le_refl _, Nat.lt_add_of_pos_right (show 0 < 2 by decide)⟩, ?_⟩
    unfold InBlock
    omega
  refine not_within hh hin (hothers l' hl' (Ne.symm hne) _ hin) hx ?_
  rw [← hp]
  exact hx

/-- the process runs already -/
theorem Seated.switched (h : Seated ps R l s) : switchTo l.slot s = .ok ((), s) ∧ ∃ rest,
    Running (processEntry l.blocks) l.space l.blocks.task
      (⟨l.blocks.process, 2⟩ :: (l.userRuns ++ rest)) s := by
  obtain ⟨l', hl', rest, hp, hswitch, hrun, -⟩ := switchTo_run h.housed h.kernelChunk h.slot
  have hpp : l'.blocks.process = l.blocks.process := by
    have e := h.process.symm.trans hp
    have h1 := blockAddr_page l.blocks.process
    have h2 := blockAddr_page l'.blocks.process
    omega
  obtain rfl : l' = l := h.housed.member_inj hl' h.member hpp
  have hsame : s.switched l' = s := by
    unfold CallState.switched
    rw [← h.current, ← h.directory]
  rw [hsame] at hswitch hrun
  exact ⟨hswitch, rest, hrun⟩

theorem Seated.stackInPlace (h : Seated ps R l s) : StackInPlace s := by
  obtain ⟨-, rest, hrun⟩ := h.switched
  have hk := h.housed.image_inside h.member
  have himage := h.image
  have e : processEntry l.blocks 1535 = 1535 * 4096 + 5 := by
    refine processEntry_other hk (by decide) (fun hi => ?_) (fun hs => ?_)
    · have h2 := hi.2
      omega
    · have h2 : 1535 < 1023 := hs.2
      omega
  refine hrun.taskSpace.stackInPlace h.directory (hrun.present 1535 (by decide)) ?_
  rw [e]

/-- a change of the machine that keeps the processes -/
theorem Seated.onto (h : Seated ps R l s) (hh : Housed ps R s'.kernel)
    (hk : s'.kernel = { s.kernel with machine := s'.kernel.machine })
    (hdir : s'.directory = s.directory) (hchunk : s'.kernelChunk = s.kernelChunk)
    (hcol : s'.terminal.InColumns) : Seated ps R l s' := by
  have hslot : InSlot s'.kernel l.slot := by
    unfold InSlot
    rw [hk]
    exact h.slot
  have hprocess : s'.kernel.processes l.slot = blockAddr l.blocks.process := by
    rw [hk]
    exact h.process
  have hcurrent : s'.kernel.currentTask = blockAddr l.blocks.task := by
    rw [hk]
    exact h.current
  exact ⟨hh, h.member, hslot, hprocess, hcurrent, hdir.trans h.directory, hchunk.symm ▸ h.kernelChunk,
    h.image, hcol⟩

/-- a change below the heap -/
theorem Housed.low {k : KernelState} (h : Housed ps R k)
    (hm : ∀ a, Mem.Word a → heapAddress ≤ a → m.load a = k.machine.mem.load a) :
    Housed ps R { k with machine := { k.machine with mem := m } } := by
  have hu : Untouched (ps.flatMap Member.runs ++ R) k.machine { k.machine with mem := m } := by
    intro r hr b hb j hj
    refine hm _ (word_block (lt_of_lt_of_le hb.2 (h.holds.inside hr)) hj) ?_
    unfold blockAddr
    omega
  refine ⟨h.holds.congr rfl, h.tail, fun l hl => (h.placed l hl).untouched (hu.mono (fun r hr => ?_)),
    h.table⟩
  exact List.mem_append_left R (List.mem_flatMap.mpr ⟨l, hl, List.mem_append_left _ hr⟩)

/-- the words of the stack lie below the heap -/
theorem pushes_low (m : Mem) (ws : List (BitVec 32)) (hws : ws.length ≤ 16) {a : Nat} (ha : Mem.Word a)
    (hle : heapAddress ≤ a) : (pushes m ws).load a = m.load a := by
  have hle : 0x1000000 ≤ a := hle
  refine pushes_other m ha (Or.inl ?_) ws hws
  show 0x600000 ≤ a
  omega

/-- a word of the kernel's image lies below the heap -/
theorem write32_low (m : Mem) {a : BitVec 32} (h : a.toNat + 4 ≤ 0x200000) (v : BitVec 32) {x : Nat}
    (hx : Mem.Word x) (hle : heapAddress ≤ x) : (m.write32 a v).load x = m.load x := by
  have hle : 0x1000000 ≤ x := hle
  obtain ⟨hx4, hlt⟩ := hx
  have h1 : (BitVec.ofNat 32 x).toNat = x := by
    rw [BitVec.toNat_ofNat]
    omega
  have hapart : Mem.Apart a (BitVec.ofNat 32 x) := by
    constructor <;> rw [BitVec.toNat_sub, h1] <;> omega
  unfold Mem.load
  rw [Mem.read32_write32_apart m v hapart]

/-- an interrupt with a stub -/
theorem Seated.handled {x x' : IsrKernel} {p text : List UInt8} {ports : List (Nat × BitVec 8)}
    (h : Seated ps R l x.call) (hx : Handled p text ports x x') : Seated ps R l x'.call := by
  obtain ⟨-, ws, t, hlen, hat, hcall⟩ := hx
  rw [hcall]
  refine h.onto ?_ rfl rfl rfl hat.inColumns
  exact h.housed.low (fun a ha hle => pushes_low _ ws (by omega) ha hle)

/-- a store of the process -/
theorem Seated.store (h : Seated ps R l s) {va : Nat} {c : BitVec 8}
    (hrun : userStore va c s = .ok ((), s')) : Seated ps R l s' := by
  have hall : (switchTo l.slot >>= fun _ => userStore va c) s = .ok ((), s') := by
    rw [bind_ok h.switched.1]
    exact hrun
  obtain ⟨hh, -⟩ := h.housed.store h.kernelChunk h.slot hall
  obtain ⟨phys, -, rfl⟩ := userStore_eq_ok hrun
  exact h.onto hh rfl rfl rfl h.columns

end

/-! ## a system call -/

section
variable {entry : Nat → Nat} {space : Space} {t : Nat} {L : List Run} {s s' : CallState}
  {buf : List UInt8} {r : Nat}

theorem isr80hHandleCommand_columns (h : Running entry space t L s) (hcol : s.terminal.InColumns)
    {command : Int} (hrun : isr80hHandleCommand command buf s = .ok (r, s')) :
    s'.terminal.InColumns := by
  unfold isr80hHandleCommand at hrun
  rw [bind_ok (get_run s)] at hrun
  generalize commandFunc s.isr80hCommands command = o at hrun
  cases o with
  | none =>
    obtain ⟨-, rfl⟩ := pure_eq_ok hrun
    exact hcol
  | some f =>
    cases f with
    | sum =>
      have hsum : isr80hCommand0Sum s = .ok (r, s') := hrun
      rw [isr80hCommand0Sum_run h] at hsum
      obtain ⟨-, rfl⟩ := ok_inj hsum
      exact hcol
    | print =>
      have hprint : isr80hCommand1Print buf s = .ok (r, s') := hrun
      obtain ⟨res, s2, hcopy, -, -, hterm2⟩ := copyStringFromTask_run h.inKernel
        (show 1 ≤ 1024 by decide) (show 1024 < 4096 by decide)
        (userWord s.mem entry (s.kernel.machine.word t 11 + 4 * 0)) buf
      unfold isr80hCommand1Print at hprint
      rw [bind_ok (get_run s), h.current, bind_ok (taskGetStackItem_run h 0), bind_ok hcopy]
        at hprint
      obtain ⟨_, s3, hterm, hprint⟩ := bind_eq_ok hprint
      obtain ⟨-, rfl⟩ := pure_eq_ok hprint
      obtain ⟨t3, hwrite, rfl⟩ := part_eq_ok hterm
      rw [hterm2] at hwrite
      exact (print_cursor (Terminal.InColumns.atCursor hcol) hwrite).inColumns

/-- what a system call leaves the screen and the directory as -/
theorem isr80hHandler_columns (h : Running entry space t L s) (hcol : s.terminal.InColumns)
    {command : Int} {frame : Nat} (hrun : isr80hHandler command frame buf s = .ok (r, s')) :
    s'.terminal.InColumns ∧ s'.directory = blockAddr space.directory := by
  obtain ⟨hsave, hrun1, -⟩ := taskCurrentSaveState_run h.inKernel frame
  unfold isr80hHandler at hrun
  rw [bind_ok (kernelPage_run h.kernelChunk), bind_ok hsave] at hrun
  obtain ⟨res, s2, hcommand, hrun⟩ := bind_eq_ok hrun
  obtain ⟨hrun2, -⟩ := isr80hHandleCommand_served hrun1 hcommand
  rw [bind_ok (taskPage_run hrun2)] at hrun
  obtain ⟨-, rfl⟩ := pure_eq_ok hrun
  have hcol2 := isr80hHandleCommand_columns hrun1 hcol hcommand
  exact ⟨hcol2, rfl⟩

end

section
variable {ps : List Member} {R : List Run} {l : Member} {s s' : CallState} {u u' : UserState}
  {k : Clobbered} {buf : List UInt8}

theorem Seated.isr80h (h : Seated ps R l s) {command : Int} {frame r : Nat}
    (hrun : isr80hHandler command frame buf s = .ok (r, s')) : Seated ps R l s' := by
  obtain ⟨hswitch, rest, hrunning⟩ := h.switched
  have hall : (switchTo l.slot >>= fun _ => isr80hHandler command frame buf) s = .ok (r, s') := by
    rw [bind_ok hswitch]
    exact hrun
  obtain ⟨hh, -⟩ := h.housed.isr80h h.kernelChunk h.slot hall
  obtain ⟨-, hserved⟩ := isr80hHandler_served hrunning hrun
  obtain ⟨hcol, hdir⟩ := isr80hHandler_columns hrunning h.columns hrun
  exact h.onto hh hserved.kernel (hdir.trans h.directory.symm) hserved.kernelChunk hcol

/-- the words that the wrapper pushes -/
theorem Seated.entered (h : Seated ps R l s) (u : UserState) : Seated ps R l (s.entered u) :=
  h.onto (h.housed.low (fun a ha hle => pushes_low _ u.pushed
    (show 15 ≤ 16 by decide) ha hle)) rfl rfl rfl
    h.columns

/-- the call that the wrapper makes -/
theorem Seated.called (h : Seated ps R l s) {c : Cpu} {x : Interrupted}
    (hc : Stacked u s.mem u.pushed c) (hrun : callIsr80hHandler k buf ⟨c, s⟩ = .ok ((), x)) :
    Seated ps R l x.call ∧ x.cpu.mem = x.call.mem := by
  have hentered : Interrupted.kernel ⟨c, s⟩ = s.entered u := by
    unfold Interrupted.kernel CallState.entered
    rw [hc.mem, hc.sreg]
  unfold callIsr80hHandler at hrun
  rw [bind_ok (get_run _)] at hrun
  obtain ⟨res, x1, hpart, hrun⟩ := bind_eq_ok hrun
  obtain ⟨s1, hcall, rfl⟩ := part_eq_ok hpart
  rw [hentered] at hcall
  obtain ⟨-, rfl⟩ := ok_inj hrun
  exact ⟨(h.entered u).isr80h hcall, rfl⟩

/-- **A trip through the kernel** keeps the processes. -/
theorem Seated.tripped (h : Seated ps R l s) {alu : BitVec 32 → BitVec 32 → BitVec 32}
    {tmpRes : BitVec 32} (htmp : tmpRes.toNat + 4 ≤ 0x200000)
    (hrun : trip alu k buf tmpRes u s = .ok (u', s')) : Seated ps R l s' := by
  obtain ⟨c, hc, hsplit⟩ := wrapper_run alu k buf tmpRes u s
  unfold trip at hrun
  rw [hsplit] at hrun
  cases hcall : callIsr80hHandler k buf ⟨c, s⟩ with
  | error e =>
    rw [bind_error hcall] at hrun
    cases hrun
  | ok x =>
    obtain ⟨hseat, hmem⟩ := h.called hc hcall
    rw [bind_ok hcall] at hrun
    obtain ⟨-, rfl⟩ := Prod.mk.inj (Except.ok.inj hrun)
    refine hseat.onto (hseat.housed.low (fun a ha hle => ?_)) rfl rfl rfl hseat.columns
    show (x.2.cpu.mem.write32 tmpRes (x.2.cpu.reg .eax)).load a = x.2.call.mem.load a
    rw [hmem]
    exact write32_low _ htmp _ ha hle

/-- **An interrupt that comes back** keeps the processes. -/
theorem Seated.delivered {x x' : IsrKernel} (h : Seated ps R l x.call) (hcs : u.cs = 0x1B)
    (hss : u.ss = 0x23) {alu : BitVec 32 → BitVec 32 → BitVec 32} {tmpRes : BitVec 32}
    (htmp : tmpRes.toNat + 4 ≤ 0x200000) {res : Nat} {cause : Cause}
    (hrun : deliver k res alu buf tmpRes cause u x = .ok (u', x')) : Seated ps R l x'.call := by
  by_cases h80 : cause.vector = 0x80
  · rw [deliver_command k res alu buf tmpRes h80 h.stackInPlace] at hrun
    cases htrip : trip alu k buf tmpRes u x.call with
    | error e =>
      rw [htrip] at hrun
      cases hrun
    | ok r =>
      rw [htrip] at hrun
      obtain ⟨-, rfl⟩ := Prod.mk.inj (Except.ok.inj hrun)
      exact h.tripped htmp htrip
  · obtain ⟨text, ports, hx⟩ := deliver_handled k res alu buf tmpRes hcs hss h.columns.atCursor
      h.stackInPlace h80 hrun
    exact h.handled hx

end

/-! ## runs -/

section
variable {ps : List Member} {R : List Run} {l : Member} {x : Session}
  {alu : BitVec 32 → BitVec 32 → BitVec 32} {tmpRes : BitVec 32}

/-- user code of the process `l` runs in user mode -/
structure Session.Running (ps : List Member) (R : List Run) (l : Member) (x : Session) : Prop where
  seated : Seated ps R l x.kernel.call
  cs : x.user.cs = 0x1B
  ss : x.user.ss = 0x23

/-- a command that stays on the screen gives user code its state back, with the result in `eax` -/
theorem trip_resumes (h : Seated ps R l x.kernel.call) {k : Clobbered} {buf : List UInt8}
    (htmp : tmpRes.toNat + 4 ≤ 0x200000) {cause : Cause} (h80 : cause.vector = 0x80)
    (hfits : CommandFits x.kernel.call.terminal.before (processEntry l.blocks) (blockAddr l.space.chunk)
      (x.kernel.call.called x.user).kernel.machine (x.user.reg .esp).toNat buf x.command) :
    ∃ s', trip alu k buf tmpRes x.user x.kernel.call = .ok (resumed l x cause, s') := by
  obtain ⟨-, rest, hrun⟩ := h.switched
  obtain ⟨c, hc, hsplit⟩ := wrapper_run alu k buf tmpRes x.user x.kernel.call
  obtain ⟨x1, hcall, hk1, hesp1, heax1, hsreg1, -, -⟩ :=
    (callIsr80hHandler_run hrun h.columns.atCursor k buf hc).1 hfits
  obtain ⟨c2, hrun2, hback, heax2, hsreg2⟩ := unwind_run alu k buf hk1 hesp1 htmp
  refine ⟨x1.call.onto { x1.call.kernel.machine with mem := c2.mem }, ?_⟩
  have e : iretd c2 = resumed l x cause := by
    obtain ⟨hreg, heip, hcs, hflags, hss⟩ := hback
    unfold resumed
    rw [if_pos h80]
    refine UserState.ext (fun r => ?_) (hsreg2.trans (funext hsreg1)) heip hcs hflags hss
    dsimp only
    by_cases hr : r = .eax
    · rw [hr, heax2, heax1, Function.update_self]
      rfl
    · rw [hreg r hr, Function.update_of_ne hr]
  rw [← e]
  unfold trip
  rw [hsplit, bind_ok hcall, hrun2]
  rfl

/-- **An event that is answered comes back, and no other.** -/
theorem Session.Running.resumes_iff (h : x.Running ps R l) (htmp : tmpRes.toNat + 4 ≤ 0x200000)
    (e : UserEvent) : Resumes alu tmpRes l x e ↔ Answered l x e := by
  have hcur := h.seated.columns.atCursor
  have hstack := h.seated.stackInPlace
  cases e with
  | compute reg sreg eip eflags => exact Iff.rfl
  | store va c => exact Iff.rfl
  | enter cause k res buf =>
    dsimp only [Resumes, Answered]
    by_cases h80 : cause.vector = 0x80
    · rw [if_pos h80, deliver_command k res alu buf tmpRes h80 hstack]
      obtain ⟨-, rest, hrun⟩ := h.seated.switched
      constructor
      · rintro ⟨kernel, hdeliver⟩
        by_contra hno
        obtain ⟨e, herr⟩ := trip_error hrun hcur alu k buf tmpRes x.user hno
        rw [herr] at hdeliver
        cases hdeliver
      · intro hfits
        obtain ⟨s', htrip⟩ := trip_resumes h.seated htmp h80 hfits
        rw [htrip]
        exact ⟨_, rfl⟩
    · have e : resumed l x cause = x.user := by
        unfold resumed
        rw [if_neg h80]
      rw [if_neg h80, e]
      constructor
      · rintro ⟨kernel, hdeliver⟩
        exact cause.served_of_returned k res alu buf tmpRes h.cs h.ss hcur hstack h80 hdeliver
      · intro hserved
        exact hserved.returns k res alu buf tmpRes h.cs h.ss hcur hstack h80

/-- **A step** of user code, or one that is answered -/
theorem Session.Running.step (h : x.Running ps R l) (htmp : tmpRes.toNat + 4 ≤ 0x200000)
    {e : UserEvent} (he : Answered l x e) :
    ∀ x', sessionStep alu tmpRes x e = .ok x' → x'.Running ps R l := by
  intro x' hstep
  cases e with
  | compute reg sreg eip eflags =>
    obtain rfl := Except.ok.inj hstep
    exact ⟨h.seated, h.cs, h.ss⟩
  | store va c =>
    dsimp only [sessionStep] at hstep
    cases hrun : userStore va c x.kernel.call with
    | error e =>
      rw [hrun] at hstep
      cases hstep
    | ok r =>
      rw [hrun] at hstep
      obtain rfl := Except.ok.inj hstep
      exact ⟨h.seated.store hrun, h.cs, h.ss⟩
  | enter cause k res buf =>
    obtain ⟨kernel, hrun⟩ : Resumes alu tmpRes l x (.enter cause k res buf) :=
      (h.resumes_iff htmp _).mpr he
    dsimp only [sessionStep] at hstep
    rw [hrun] at hstep
    obtain rfl := Except.ok.inj hstep
    refine ⟨h.seated.delivered h.cs h.ss htmp hrun, ?_, ?_⟩
    · unfold resumed
      split <;> exact h.cs
    · unfold resumed
      split <;> exact h.ss

end

/-! ## a process that runs -/

section
variable {k : ProcessBlocks}

end

end LameOS
