import LameOS.Isr80h.Wrapper

/-!
# `isr80h/io.c`: what the print command sends

The command has a local buffer that nothing initialises, and does not look at the status of
`copy_string_from_task`.  Two runs from one state that differ in what the buffer held are compared.

* `printText`, `sentChars`        the command up to `print`, and the characters it sends;
* `ArgumentReadable`              the pointer that the user has pushed can be read;
* `copyStringFromTask_alike`      a copy with a scratch block leaves nothing of the buffer to see;
* `print_sends_user_text_iff`     what is sent depends on the user's string alone when a block is free.
-/

set_option linter.unusedVariables false

namespace LameOS
open Lib Lib.Exec

/-- the command up to `print`: the buffer it hands over -/
def printText (buf : List UInt8) : Prog CallState (List UInt8) := do
  let s ← get
  let userSpaceMsgBuffer ← taskGetStackItem s.kernel.currentTask 0
  let (_, buf) ← copyStringFromTask s.kernel.currentTask userSpaceMsgBuffer buf 1024
  return buf

theorem isr80hCommand1Print_eq (buf : List UInt8) : isr80hCommand1Print buf = (do
    let text ← printText buf
    onTerminal (forM (shown text) (termWritechar · 15))
    return 0) := by
  unfold isr80hCommand1Print printText
  simp only [bind_assoc, pure_bind, print_eq]

/-- the characters that the command sends to the terminal -/
def sentChars (buf : List UInt8) (s : CallState) : Except Fault (List UInt8) :=
  (printText buf s).map (fun r => shown r.1)

/-! ## the argument -/

/-- the word that the stack pointer of the current task points at can be read under its tables -/
structure ArgumentReadable (s : CallState) : Prop where
  task : s.kernel.currentTask ≠ 0
  chunk : s.mem.load (s.kernel.currentTask + TaskField.pageDirectory) ≠ 0
  present : ∀ i < 4, (translate s.mem
    (s.mem.load (s.mem.load (s.kernel.currentTask + TaskField.pageDirectory)))
    ((s.mem.load (s.kernel.currentTask + TaskField.esp) + i) % 4294967296)).isSome
  kernelChunk : s.kernelChunk ≠ 0

section
variable {s : CallState}

theorem does_readWord {p off : Nat} {Q : Nat → CallState → Prop} :
    Does (inCall (readWord p off)) s Q ↔ p ≠ 0 ∧ Q (s.mem.load (p + off)) s := by
  by_cases hp : p = 0
  · have hrun : inCall (readWord p off) s = .error .nullPointer := part_error (if_pos hp)
    constructor
    · rintro ⟨a, s', h, -⟩
      rw [hrun] at h
      cases h
    · exact fun h => absurd hp h.1
  · have hrun : inCall (readWord p off) s = .ok (s.mem.load (p + off), s) :=
      part_ok (readWord_ok s.kernel.machine hp off)
    rw [does_iff hrun]
    exact ⟨fun h => ⟨hp, h⟩, fun h => h.2⟩

theorem does_loadByte {va : Nat} {Q : CallState → Prop} :
    Does (loadByte va) s (fun _ => Q) ↔
      (translate s.mem s.directory (va % 4294967296)).isSome ∧ Q s := by
  cases ht : translate s.mem s.directory (va % 4294967296) with
  | none =>
    have hrun : loadByte va s = .error .outOfBounds := by
      unfold loadByte
      rw [bind_ok (get_run s), ht]
      rfl
    constructor
    · rintro ⟨a, s', h, -⟩
      rw [hrun] at h
      cases h
    · exact fun h => absurd h.1 (by simp)
  | some tr =>
    have hrun : loadByte va s = .ok (s.mem (BitVec.ofNat 32 tr.phys), s) := by
      unfold loadByte
      rw [bind_ok (get_run s), ht]
      rfl
    rw [does_iff hrun]
    simp

theorem does_loadLinear {va : Nat} {Q : CallState → Prop} :
    Does (loadLinear va) s (fun _ => Q) ↔
      (∀ i < 4, (translate s.mem s.directory ((va + i) % 4294967296)).isSome) ∧ Q s := by
  have hret : ∀ (n : Nat) (s' : CallState), Does (pure n : Prog CallState Nat) s' (fun _ => Q) ↔
      Q s' := fun n s' => does_iff rfl
  unfold loadLinear
  simp only [does_bind, does_loadByte, hret]
  constructor
  · rintro ⟨h0, h1, h2, h3, hQ⟩
    refine ⟨fun i hi => ?_, hQ⟩
    match i, hi with
    | 0, _ => exact h0
    | 1, _ => exact h1
    | 2, _ => exact h2
    | 3, _ => exact h3
  · rintro ⟨h, hQ⟩
    exact ⟨h 0 (by omega), h 1 (by omega), h 2 (by omega), h 3 (by omega), hQ⟩

theorem does_modify {f : CallState → CallState} {Q : CallState → Prop} :
    Does (modify f : Prog CallState PUnit) s (fun _ => Q) ↔ Q (f s) := does_iff rfl

/-- **The argument of a command** is read exactly when it can be, and then the kernel's directory is
loaded and nothing else is changed -/
theorem taskGetStackItem_does {Q : CallState → Prop} :
    Does (taskGetStackItem s.kernel.currentTask 0) s (fun _ => Q) ↔
      ArgumentReadable s ∧ Q s.inKernel := by
  have hget : ∀ (s' : CallState) (Q : CallState → CallState → Prop),
      Does (get : Prog CallState CallState) s' Q ↔ Q s' s' := fun s' Q => does_iff rfl
  have hret : ∀ (n : Nat) (s' : CallState),
      Does (pure n : Prog CallState Nat) s' (fun _ => Q) ↔ Q s' := fun n s' => does_iff rfl
  unfold taskGetStackItem taskPageTask kernelPage pagingSwitch userRegisters kernelRegisters
  simp only [does_bind, does_readWord, does_modify, does_loadLinear, hget, hret]
  constructor
  · rintro ⟨htask, -, hchunk, hpresent, hkernel, hQ⟩
    exact ⟨⟨htask, hchunk, hpresent, hkernel⟩, hQ⟩
  · rintro ⟨h, hQ⟩
    exact ⟨h.task, h.task, h.chunk, h.present, h.kernelChunk, hQ⟩

/-! ## the copy -/

/-- at a page border the entry is set -/
theorem pagingSet_status {directory virt val : Nat} {m m' : Machine} {res : Int}
    (hv : pagingIsAligned virt = true) (h : pagingSet directory virt val m = .ok (res, m')) :
    res = 0 := by
  have hnot : ¬ (!pagingIsAligned virt) = true := by simp [hv]
  unfold pagingSet at h
  rw [if_neg hnot] at h
  unfold pagingGetIndices at h
  rw [if_neg hnot] at h
  dsimp only at h
  rw [if_neg (lt_irrefl 0)] at h
  obtain ⟨entry, m1, -, h⟩ := bind_eq_ok h
  obtain ⟨u, m2, -, h⟩ := bind_eq_ok h
  exact (pure_eq_ok h).1.symm

theorem pagingIsAligned_blockAddr (b : Nat) : pagingIsAligned (blockAddr b) = true := by
  rw [blockAddr_page]
  exact decide_eq_true (Nat.mul_mod_left _ _)

/-- **A copy with a scratch block** leaves the same string in any two buffers -/
theorem copyStringFromTask_alike (hs : s.kernel.machine.heap.saddr = heapAddress)
    (ht : s.kernel.machine.heap.table.total = heapBlocks) {max : Nat} (h1 : 1 ≤ max)
    (h2 : max < 4096) (hfree : 0 < freeBlocks s.kernel.machine.heap.table) (task virtual : Nat)
    (phys phys' : List UInt8) :
    (copyStringFromTask task virtual phys max s).map (fun r => shown r.1.2)
      = (copyStringFromTask task virtual phys' max s).map (fun r => shown r.1.2) := by
  obtain ⟨b, -, hk⟩ := kzalloc_one hs ht h1 (by omega) hfree
  have hk : inCall (kzalloc max) s = .ok (blockAddr b, _) := part_ok hk
  unfold copyStringFromTask
  rw [if_neg (not_le.mpr h2), if_neg (not_le.mpr h2), bind_ok hk, bind_ok hk, if_neg blockAddr_ne,
    if_neg blockAddr_ne]
  -- every step up to the status of the last `paging_set` is the same in both runs
  refine map_bind_congr (fun chunk s1 _ => ?_)
  refine map_bind_congr (fun directory s2 _ => ?_)
  refine map_bind_congr (fun oldEntry s3 _ => ?_)
  refine map_bind_congr (fun _ s4 _ => ?_)
  refine map_bind_congr (fun _ s5 _ => ?_)
  refine map_bind_congr (fun _ s6 _ => ?_)
  refine map_bind_congr (fun _ s7 _ => ?_)
  refine map_bind_congr (fun res s8 hset => ?_)
  obtain ⟨m, hset, -⟩ := part_eq_ok hset
  obtain rfl := pagingSet_status (pagingIsAligned_blockAddr b) hset
  rw [if_neg (lt_irrefl 0), if_neg (lt_irrefl 0)]
  refine map_bind_congr (fun s9 s10 _ => ?_)
  refine map_bind_congr (fun _ s11 _ => ?_)
  show Except.ok (shown _) = Except.ok (shown _)
  rw [shown_strncpyBytes, shown_strncpyBytes]

/-- without a scratch block the buffer stays -/
theorem copyStringFromTask_full (ht : s.kernel.machine.heap.table.total = heapBlocks) {max : Nat}
    (h1 : 1 ≤ max) (h2 : max < 4096) (hfull : freeBlocks s.kernel.machine.heap.table = 0)
    (task virtual : Nat) (phys : List UInt8) :
    copyStringFromTask task virtual phys max s = .ok ((-ENOMEM, phys), s) := by
  unfold copyStringFromTask
  rw [if_neg (not_le.mpr h2), bind_ok (inCall_same (kzalloc_none ht h1 (by omega) hfull)), if_pos rfl]
  rfl

/-! ## what is sent -/

theorem sentChars_full (ht : s.kernel.machine.heap.table.total = heapBlocks)
    (hfull : freeBlocks s.kernel.machine.heap.table = 0) (harg : ArgumentReadable s)
    (buf : List UInt8) : sentChars buf s = .ok (shown buf) := by
  obtain ⟨item, s1, hitem, rfl⟩ := taskGetStackItem_does.mpr ⟨harg, (rfl : s.inKernel = s.inKernel)⟩
  have hcopy := copyStringFromTask_full (s := s.inKernel) ht (show 1 ≤ 1024 by decide)
    (show 1024 < 4096 by decide) hfull s.kernel.currentTask item buf
  unfold sentChars printText
  rw [bind_ok (get_run s), bind_ok hitem, bind_ok hcopy]
  rfl

/-- two buffers that are told apart -/
theorem sentChars_differ (ht : s.kernel.machine.heap.table.total = heapBlocks)
    (hfull : freeBlocks s.kernel.machine.heap.table = 0) (harg : ArgumentReadable s) :
    ¬ ∀ buf buf' : List UInt8, buf.length = 1024 → buf'.length = 1024 →
      sentChars buf s = sentChars buf' s := by
  intro h
  have hlen : ∀ c : UInt8, (c :: List.replicate 1023 0).length = 1024 := fun c => by
    rw [List.length_cons, List.length_replicate]
  -- an empty string and one with a letter in front
  have e := h (0 :: List.replicate 1023 0) (0x41 :: List.replicate 1023 0) (hlen _) (hlen _)
  rw [sentChars_full ht hfull harg, sentChars_full ht hfull harg] at e
  have e : [] = 0x41 :: shown (List.replicate 1023 0) := Except.ok.inj e
  cases e

/-- **What the print command sends** depends on the user's string alone, whatever the local buffer
held, exactly when a block is free or the argument cannot be read -/
theorem print_sends_user_text_iff (hs : s.kernel.machine.heap.saddr = heapAddress)
    (ht : s.kernel.machine.heap.table.total = heapBlocks) :
    (∀ buf buf' : List UInt8, buf.length = 1024 → buf'.length = 1024 →
      sentChars buf s = sentChars buf' s) ↔
      0 < freeBlocks s.kernel.machine.heap.table ∨ ¬ ArgumentReadable s := by
  constructor
  · intro h
    by_contra hno
    push Not at hno
    exact sentChars_differ ht (Nat.le_zero.mp hno.1) hno.2 h
  · intro h buf buf' _ _
    unfold sentChars printText
    rw [bind_ok (get_run s), bind_ok (get_run s)]
    refine map_bind_congr (fun item s1 hitem => ?_)
    obtain ⟨harg, rfl⟩ := taskGetStackItem_does.mp ⟨item, s1, hitem, (rfl : s1 = s1)⟩
    have hfree := h.resolve_right (not_not_intro harg)
    rw [map_bind_pure, map_bind_pure]
    exact copyStringFromTask_alike (s := s.inKernel) hs ht (show 1 ≤ 1024 by decide)
      (show 1024 < 4096 by decide) hfree s.kernel.currentTask item buf buf'

end

/-! ## a full heap -/

section
variable {entry : Nat → Nat} {space : Space} {t : Nat} {L : List Run} {s : CallState}

theorem Running.argumentReadable (h : Running entry space t L s) : ArgumentReadable s := by
  have hitem := taskGetStackItem_run h 0
  rw [← h.current] at hitem
  exact (taskGetStackItem_does.mp ⟨_, _, hitem, (rfl : s.inKernel = s.inKernel)⟩).1

/-- blocks can be taken until none is free -/
theorem Running.fill (n : Nat) : ∀ {L : List Run} {s : CallState}, Running entry space t L s →
    freeBlocks s.kernel.machine.heap.table = n → ∃ L' m, Running entry space t L' (s.onto m) ∧
      freeBlocks m.heap.table = 0 := by
  induction n with
  | zero => exact fun {L s} h hn => ⟨L, s.kernel.machine, h, hn⟩
  | succ n ih =>
    intro L s h hn
    have hfree : 0 < freeBlocks s.kernel.machine.heap.table := by omega
    obtain ⟨b, m, hk, hrun⟩ := h.scratch (le_refl 1) (by decide) hfree
    obtain ⟨c, hw, hk'⟩ := kzalloc_block h.holds (le_refl 1) (by decide) hfree
    obtain ⟨-, rfl⟩ := run_unique hk hk'
    have hcount := freeBlocks_mark hw.1
    obtain ⟨L', m', hrun', hfull⟩ := ih hrun (show
      freeBlocks (s.kernel.machine.heap.table.mark ⟨c, 1⟩) = n by omega)
    exact ⟨L', m', hrun', hfull⟩

theorem print_sends_user_text_iff_running : ∃ (space : Space) (L : List Run) (m : Machine),
    Running (fun v => v * 4096 + 5) space 2 L (callingKernel 3 space m) ∧
      ((∀ buf buf' : List UInt8, buf.length = 1024 → buf'.length = 1024 →
        sentChars buf (callingKernel 3 space m) = sentChars buf' (callingKernel 3 space m)) ↔
        0 < freeBlocks m.heap.table ∨ ¬ ArgumentReadable (callingKernel 3 space m)) := by
  obtain ⟨space, L, m, hh, hdir, hmaps, -⟩ := exists_running
  have hrun := callingKernel_running 3 hh hdir hmaps
  exact ⟨space, L, m, hrun, print_sends_user_text_iff hrun.holds.saddr hrun.holds.total⟩

/-- with a full heap, what the buffer held is printed -/
theorem print_sends_stale_buffer : ¬ ∀ (entry : Nat → Nat) (space : Space) (t : Nat) (L : List Run)
    (s : CallState), Running entry space t L s → ∀ buf buf' : List UInt8, buf.length = 1024 →
      buf'.length = 1024 → sentChars buf s = sentChars buf' s := by
  intro h
  obtain ⟨space, L, m, hh, hdir, hmaps, -⟩ := exists_running
  obtain ⟨L', m', hrun, hfull⟩ := (callingKernel_running 3 hh hdir hmaps).fill _ rfl
  exact sentChars_differ hrun.holds.total hfull hrun.argumentReadable (h _ _ _ _ _ hrun)

end

end LameOS
