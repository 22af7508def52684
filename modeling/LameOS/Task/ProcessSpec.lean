import LameOS.Task.Process
import LameOS.Task.TaskRun

/-!
# What the load of a process leaves

* `FilesOnly`              nothing but the memory and the files has changed;
* `processLoadBinary_owns` the image of the program, and what is lost;
* `taskNew_owns`           a new task behind the others;
* `processLoadNew_owns`    a process with its image, its stack, its task and its space, in its slot;
* `processLoadForSlot_owns`   the same, after the check of the slot.
-/

set_option linter.unusedVariables false

namespace LameOS
open Lib Lib.Exec

/-! ## parts of the kernel -/

/-- nothing but the memory and the files has changed -/
structure FilesOnly (s s' : KernelState) : Prop where
  taskHead : s'.taskHead = s.taskHead
  taskTail : s'.taskTail = s.taskTail
  currentTask : s'.currentTask = s.currentTask
  processes : s'.processes = s.processes
  accesses : s'.accesses = s.accesses

theorem FilesOnly.refl (s : KernelState) : FilesOnly s s := ⟨rfl, rfl, rfl, rfl, rfl⟩

theorem FilesOnly.trans {s t u : KernelState} (h : FilesOnly s t) (h' : FilesOnly t u) :
    FilesOnly s u :=
  ⟨h'.taskHead.trans h.taskHead, h'.taskTail.trans h.taskTail, h'.currentTask.trans h.currentTask,
    h'.processes.trans h.processes, h'.accesses.trans h.accesses⟩

section
variable {α : Type} {O : List Run} {s s' : KernelState}

theorem onKernel_owns {x : Prog Machine α} {Q : α → Machine → List Run → Prop}
    (hx : Owns itself O x s.machine Q) : Owns KernelState.machine O (onKernel x) s
      (fun a s' N => Q a s'.machine N ∧ s' = { s with machine := s'.machine }) := by
  unfold onKernel
  refine (Owns.part hx rfl (fun _ => rfl)).mono (fun a s' N h => ?_)
  obtain ⟨m', hQ, rfl⟩ := h
  exact ⟨hQ, rfl⟩

/-- the files of the kernel -/
def KernelState.fileState (s : KernelState) : FileState := ⟨s.machine, s.volume, s.files⟩

/-- the tasks of the kernel -/
def KernelState.taskState (s : KernelState) : TaskState :=
  ⟨s.machine, s.taskHead, s.taskTail, s.currentTask⟩

theorem onFiles_owns {x : Prog FileState α} {Q : α → FileState → List Run → Prop}
    (hx : Owns FileState.machine O x s.fileState Q) : Owns KernelState.machine O (onFiles x) s
      (fun a s' N => Q a s'.fileState N ∧ FilesOnly s s') := by
  unfold onFiles
  refine (Owns.part hx rfl (fun _ => rfl)).mono (fun a s' N h => ?_)
  obtain ⟨t, hQ, rfl⟩ := h
  exact ⟨hQ, ⟨rfl, rfl, rfl, rfl, rfl⟩⟩

theorem onTasks_owns {x : Prog TaskState α} {Q : α → TaskState → List Run → Prop}
    (hx : Owns TaskState.machine O x s.taskState Q) : Owns KernelState.machine O (onTasks x) s
      (fun a s' N => Q a s'.taskState N ∧ s'.volume = s.volume ∧ s'.files = s.files ∧
        s'.processes = s.processes ∧ s'.accesses = s.accesses) := by
  unfold onTasks
  refine (Owns.part hx rfl (fun _ => rfl)).mono (fun a s' N h => ?_)
  obtain ⟨t, hQ, rfl⟩ := h
  exact ⟨hQ, rfl, rfl, rfl, rfl⟩

theorem filesOnly_machine {m : Machine} (h : s' = { s with machine := m }) : FilesOnly s s' := by
  rw [h]
  exact ⟨rfl, rfl, rfl, rfl, rfl⟩

end

/-! ## stores -/

section
variable {α : Type} {O : List Run} {m : Machine} {r : Run}

/-- a program that stores bytes in an allocation -/
theorem mem_owns {x : Prog Machine α} {a : α} {mem : Mem} {off size : Nat}
    (hrun : x m = .ok (a, { m with mem := mem })) (hin : off + size ≤ r.len * 4096)
    (hout : ∀ x, size ≤ (x - BitVec.ofNat 32 (runAddr r + off)).toNat → mem x = m.mem x) :
    Owns itself (r :: O) x m (fun a' m' N => a' = a ∧ m' = { m with mem := mem } ∧ N = r :: O) := by
  intro L a' m' hh hrun'
  obtain ⟨rfl, rfl⟩ := run_unique hrun hrun'
  have hu : Untouched (O ++ L) m { m with mem := mem } := outside_untouched hh hin hout
  exact ⟨r :: O, ⟨rfl, rfl, rfl⟩, hh.congr rfl, hu.mono (fun r hr => List.mem_append_right O hr)⟩

theorem writeBytes_owns {off : Nat} {bs : List UInt8} (hin : off + bs.length ≤ r.len * 4096) :
    Owns itself (r :: O) (writeBytes (runAddr r + off) bs) m (fun _ m' N =>
      m' = { m with mem := m.mem.copy (runAddr r + off) (bs.map UInt8.toBitVec) } ∧ N = r :: O) := by
  refine (mem_owns (r := r) (a := ()) rfl hin (fun x hx => ?_)).mono (fun _ _ _ h => h.2)
  exact Mem.copy_out m.mem _ (by rw [List.length_map]; exact hx)

theorem store_out (mem : Mem) (a v : Nat) {x : BitVec 32} (h : 4 ≤ (x - BitVec.ofNat 32 a).toNat) :
    mem.store a v x = mem x := Mem.write32_apart mem _ _ x h

theorem writeWord_owns {off v : Nat} (hin : off + 4 ≤ r.len * 4096) :
    Owns itself (r :: O) (writeWord (runAddr r) off v) m (fun _ m' N =>
      m' = { m with mem := m.mem.store (runAddr r + off) v } ∧ N = r :: O) := by
  refine (mem_owns (r := r) (a := ()) (if_neg runAddr_ne) hin (fun x hx => ?_)).mono
    (fun _ _ _ h => h.2)
  exact store_out m.mem _ v hx

/-- what `fread` gives for one item is stored in the allocation asked for -/
theorem writeItems_owns {size : Nat} {items : List (List UInt8)}
    (h : items = [] ∨ ∃ item, items = [item] ∧ item.length ≤ size) (hsize : size ≤ r.len * 4096) :
    Owns itself (r :: O) (writeItems size (runAddr r) items) m (fun _ m' N =>
      N = r :: O ∧ ∀ item, items = [item] →
        m'.mem = m.mem.copy (runAddr r) (item.map UInt8.toBitVec)) := by
  rcases h with rfl | ⟨item, rfl, hlen⟩
  · exact Owns.pure ⟨rfl, fun _ h => by cases h⟩
  · have hw : Owns itself (r :: O) (writeBytes (runAddr r + 0) item) m (fun _ m' N => _) :=
      writeBytes_owns (by omega)
    refine Owns.bind hw (fun _ m' N h => ?_)
    rw [h.2]
    refine Owns.pure ⟨rfl, fun item' e => ?_⟩
    rw [← List.head_eq_of_cons_eq e, h.1]
    rfl

end

/-! ## the file of a program -/

/-- the release of the only descriptor that is owned -/
theorem fclose_owns {s : FileState} {fd : Int} {desc : FileDescriptor} {p : FatPrivate}
    {root : FatDirectory} {name : List UInt8} {D : List Run} (hvol : s.volume = some p)
    (hget : fileGetDescriptor s fd = some desc) (hfile : OpenFile root name desc.priv)
    (h1 : 1 ≤ desc.index) (h2 : desc.index ≤ maxFileDescriptors)
    (hp : Points (descriptorPtrs desc) D) :
    Owns FileState.machine D (fclose fd) s (fun _ s' N => N = []) := by
  intro L a s' hh hrun
  obtain ⟨m', hrun', hh', hmem⟩ := fclose_run hvol hget hfile.closable h1 h2 hh hp
  rw [hrun'] at hrun
  cases hrun
  exact ⟨[], rfl, hh', Untouched.of_mem hmem⟩

theorem fclose_none {s : FileState} {fd : Int} {O : List Run} (h0 : fd ≠ 0)
    (hget : fileGetDescriptor s fd = none) {Q : Int → FileState → List Run → Prop} :
    Owns FileState.machine O (fclose fd) s Q := by
  intro L a s' hh hrun
  unfold fclose at hrun
  rw [bind_ok (get_run s), if_neg h0, hget] at hrun
  cases hrun

/-- the file of a program has a size that can be allocated -/
def FileSized (volume : Option FatPrivate) (filename : List UInt8) : Prop :=
  pathAccepted filename = true → ∀ v part k n, volume = some v → pathNames filename = [part] →
    LastNamed v.rootDirectory.buffer part 0 v.rootDirectory.total.toNat k →
    (recordAt v.rootDirectory.buffer k).filesize = .ok n → Sized n

/-- what the load of a program has done to the struct at block `p`: the first block is as it was, and
after a success the image is an allocation -/
structure ProgramLoaded (p : Nat) (s s' : KernelState) (res : Int) (K : List Run) : Prop where
  only : FilesOnly s s'
  first : ∀ j < 1024, s'.machine.word p j = s.machine.word p j
  loaded : 0 ≤ res → res = 0 ∧ ∃ image size, ⟨image, blocksFor size⟩ ∈ K ∧ 1 ≤ size ∧
    s'.machine.word (p + 1) 29 = blockAddr image ∧ s'.machine.word (p + 1) 31 = size

theorem ProgramLoaded.failed {p : Nat} {s s' : KernelState} {res : Int} {K : List Run}
    (only : FilesOnly s s') (first : ∀ j < 1024, s'.machine.word p j = s.machine.word p j)
    (hres : res < 0) : ProgramLoaded p s s' res K := ⟨only, first, fun h => by omega⟩

/-- the words of a block of a run that is untouched -/
theorem Untouched.word {L : List Run} {m m' : Machine} (h : Untouched L m m') {r : Run} (hr : r ∈ L)
    {b j : Nat} (hb : r.Mem b) (hj : j < 1024) : m'.word b j = m.word b j := h r hr b hb j hj

/-- a byte of an allocation that is untouched -/
theorem Untouched.byte {L : List Run} {m m' : Machine} (h : Untouched L m m') {r : Run} (hr : r ∈ L)
    {i : Nat} (hi : i < r.len * 4096) :
    m'.mem (BitVec.ofNat 32 (blockAddr r.start + i)) = m.mem (BitVec.ofNat 32 (blockAddr r.start + i)) := by
  have hw := h r hr (r.start + i / 4096) ⟨by omega, by omega⟩ (i % 4096 / 4) (by omega)
  have hk := Mem.bytes_of_load hw (show i % 4 < 4 by omega)
  have e : blockAddr (r.start + i / 4096) + 4 * (i % 4096 / 4) + i % 4 = blockAddr r.start + i := by
    rw [blockAddr_page, blockAddr_page]
    omega
  rw [← BitVec.ofNat_add, e] at hk
  exact hk

/-- what `fread` gives for a whole file of the volume `v` lies in memory from block `image` on; `size` is
what `fstat` gives -/
def ReadInto (disk : Disk) (v : FatPrivate) (d : FatFileDescriptor) (size image : Nat) (m : Machine) :
    Prop :=
  (∃ flags, fat16Stat d ⟨0, 0⟩ = .ok (0, ⟨flags, size⟩)) ∧ ∃ q m0 items t, q.header = v.header ∧ q.rootDirectory = v.rootDirectory ∧
    fat16Read disk d size 1 ⟨m0, q⟩ = .ok ((1, items), t) ∧ items.flatten.length ≤ size ∧
      ∀ (i : Nat) (hi : i < items.flatten.length),
        m.mem (BitVec.ofNat 32 (blockAddr image + i)) = items.flatten[i].toBitVec

theorem ReadInto.untouched {disk : Disk} {v : FatPrivate} {d : FatFileDescriptor} {size image : Nat}
    {m m' : Machine} (h : ReadInto disk v d size image m) {L : List Run}
    (hr : ⟨image, blocksFor size⟩ ∈ L) (hu : Untouched L m m') : ReadInto disk v d size image m' := by
  obtain ⟨hstat, q, m0, items, t, hq, hroot, hread, hlen, hbytes⟩ := h
  have hsize := blocksFor_size size
  refine ⟨hstat, q, m0, items, t, hq, hroot, hread, hlen, fun i hi =>
    (hu.byte hr (i := i) ?_).trans (hbytes i hi)⟩
  show i < blocksFor size * 4096
  omega

theorem processRun_mem0 (p : Nat) : Run.Mem ⟨p, 2⟩ p := ⟨le_refl _, Nat.lt_add_of_pos_right Nat.two_pos⟩

theorem processRun_mem1 (p : Nat) : Run.Mem ⟨p, 2⟩ (p + 1) := ⟨Nat.le_succ _, Nat.lt_succ_self _⟩

/-- the words of a process whose struct is untouched -/
theorem ProcessWords.untouched {k : ProcessBlocks} {L : List Run} {m m' : Machine}
    (h : ProcessWords k m) (hk : ⟨k.process, 2⟩ ∈ L) (hu : Untouched L m m') : ProcessWords k m' where
  task := (hu.word hk (processRun_mem0 _) (by decide)).trans h.task
  ptr := (hu.word hk (processRun_mem1 _) (by decide)).trans h.ptr
  stack := (hu.word hk (processRun_mem1 _) (by decide)).trans h.stack
  size := (hu.word hk (processRun_mem1 _) (by decide)).trans h.size

/-- a word of the struct of a process is stored, in its first or its second block -/
theorem structWord_owns {p off i j v : Nat} (hp : p + 2 ≤ heapBlocks) (hi : i < 2)
    (hoff : off = 4096 * i + 4 * j) (hj : j < 1024) (hv : v < 4294967296) (s : KernelState)
    (R : List Run) : Owns KernelState.machine (⟨p, 2⟩ :: R)
      (onKernel (writeWord (blockAddr p) off v)) s (fun _ s' N =>
        N = ⟨p, 2⟩ :: R ∧ s' = { s with machine := s'.machine } ∧
          Wrote (p + i) j v s.machine s'.machine ∧ Untouched R s.machine s'.machine) := by
  have hwrite : Owns itself [⟨p, 2⟩] (writeWord (blockAddr p) off v) s.machine _ :=
    writeWord_owns (r := ⟨p, 2⟩) (O := []) (show off + 4 ≤ 2 * 4096 by omega)
  refine ((onKernel_owns hwrite).beside R).mono (fun _ s' N h => ?_)
  obtain ⟨M, ⟨⟨hm, rfl⟩, hs⟩, rfl, hu⟩ := h
  obtain ⟨m', hrun, hw⟩ := writeWord_block s.machine (e := p + i) (by omega) hj hv
  have haddr : runAddr ⟨p, 2⟩ + off = blockAddr (p + i) + 4 * j := by
    show blockAddr p + off = _
    rw [blockAddr_page, blockAddr_page]
    omega
  rw [writeWord, if_neg blockAddr_ne] at hrun
  cases hrun
  rw [haddr] at hm
  exact ⟨rfl, hs, by rw [hm]; exact hw, hu⟩

section
variable {p : Nat} {s : KernelState} {fd : Int} {desc : FileDescriptor} {root : FatDirectory}
  {name : List UInt8}

/-- the pointer to the image and its size are stored in the struct -/
theorem storeImage_owns {r : Run} {n : Nat} (hp : p + 2 ≤ heapBlocks) (hr : r.start ≤ heapBlocks)
    (hn : n < 4294967296) (s : KernelState) (res : Int) : Owns KernelState.machine [r, ⟨p, 2⟩]
      (onKernel (writeWord (blockAddr p) ProcessField.ptr (runAddr r)) >>= fun _ =>
        onKernel (writeWord (blockAddr p) ProcessField.size n) >>= fun _ => pure res) s
      (fun a s' N => a = res ∧ N = [r, ⟨p, 2⟩] ∧ s' = { s with machine := s'.machine } ∧
        (∀ j < 1024, s'.machine.word p j = s.machine.word p j) ∧
        s'.machine.word (p + 1) 29 = blockAddr r.start ∧ s'.machine.word (p + 1) 31 = n ∧
        Untouched [r] s.machine s'.machine) := by
  refine Owns.perm (Owns.bind (structWord_owns (i := 1) (j := 29) hp Nat.one_lt_two rfl (by decide)
    (blockAddr_word_lt hr) s [r]) (fun _ s1 N1 h1 => ?_)) (List.Perm.swap _ _ _)
  obtain ⟨rfl, hs1, hw1, hu1⟩ := h1
  refine Owns.bind (structWord_owns (i := 1) (j := 31) hp Nat.one_lt_two rfl (by decide) hn s1 [r])
    (fun _ s2 N2 h2 => ?_)
  obtain ⟨rfl, hs2, hw2, hu2⟩ := h2
  refine Owns.perm (Owns.pure ⟨rfl, rfl, by rw [hs2, hs1], fun j hj => ?_, ?_, hw2.word, hu1.trans hu2⟩)
    (List.Perm.swap _ _ _)
  · exact (hw2.frame.block (by omega) hj (by omega)).trans (hw1.frame.block (by omega) hj (by omega))
  · exact (hw2.other 29 (by decide) (by decide)).trans hw1.word

/-- the struct at block `p` points to what was read of the file -/
def ImageRead (disk : Disk) (v : FatPrivate) (d : FatFileDescriptor) (p : Nat) (m : Machine) : Prop :=
  ∃ image size, m.word (p + 1) 29 = blockAddr image ∧ m.word (p + 1) 31 = size ∧
    ReadInto disk v d size image m

/-- what `fstat` gives for an open file -/
theorem fstat_descriptor {s s' : FileState} {stat : FileStat} {r : Int × FileStat}
    (hget : fileGetDescriptor s fd = some desc) (h : fstat fd stat s = .ok (r, s')) :
    fat16Stat desc.priv stat = .ok r := by
  unfold fstat at h
  rw [bind_ok (get_run s), hget] at h
  dsimp only at h
  cases hstat : fat16Stat desc.priv stat with
  | error e =>
    rw [hstat] at h
    cases h
  | ok q =>
    rw [hstat] at h
    cases h
    rfl

/-- one item that is read of an open file -/
theorem fread_volume {disk : Disk} {size : Nat} {s s' : FileState} {q : FatPrivate}
    {items : List (List UInt8)} (hget : fileGetDescriptor s fd = some desc) (hq : s.volume = some q)
    (h : fread disk size 1 fd s = .ok ((1, items), s')) :
    ∃ t, fat16Read disk desc.priv size 1 ⟨s.machine, q⟩ = .ok ((1, items), t) := by
  unfold fread at h
  split at h
  · cases h
  · rw [bind_ok (get_run s), hget] at h
    dsimp only at h
    unfold onVolume at h
    rw [hq] at h
    dsimp only at h
    cases hrun : fat16Read disk desc.priv size 1 ⟨s.machine, q⟩ with
    | error e =>
      rw [hrun] at h
      cases h
    | ok r =>
      obtain ⟨a, t⟩ := r
      rw [hrun] at h
      cases h
      exact ⟨t, rfl⟩

/-- the load of a program from an open file -/
theorem processLoadProgram_owns (disk : Disk)
    (hget : fileGetDescriptor s.fileState fd = some desc) (hfile : OpenFile root name desc.priv)
    (hsized : ∀ k n, LastNamed root.buffer name 0 root.total.toNat k →
      (recordAt root.buffer k).filesize = .ok n → Sized n) (hp : p + 2 ≤ heapBlocks) :
    Owns KernelState.machine [⟨p, 2⟩] (processLoadProgram disk fd (blockAddr p)) s
      (fun res s' N => ∃ K, N = K ++ [⟨p, 2⟩] ∧ ProgramLoaded p s s' res K ∧
        s'.files = s.files ∧ rootOf s'.fileState = rootOf s.fileState ∧
        (0 ≤ res → ∀ v, s.volume = some v → ImageRead disk v desc.priv p s'.machine)) := by
  have hneg : ∀ {res : Int} {m : Machine}, res < 0 → 0 ≤ res → ∀ v, s.volume = some v →
      ImageRead disk v desc.priv p m := fun h h' => absurd h' (not_le.mpr h)
  unfold processLoadProgram
  -- `fstat`
  refine Owns.bind (onFiles_owns (Owns.still (fun a t h => by rw [fstat_still h])))
    (fun r s1 N1 h1 => ?_)
  obtain ⟨⟨hstat, rfl⟩, honly1⟩ := h1
  obtain ⟨res, stat⟩ := r
  have hs1 := fstat_still hstat
  have hm1 : s1.machine = s.machine := congrArg FileState.machine hs1
  have hf1 : s1.files = s.files := congrArg FileState.files hs1
  have hr1 : rootOf s1.fileState = rootOf s.fileState := by rw [hs1]
  obtain ⟨k, hk, hsize, hres⟩ := fstat_size hget hfile hstat
  have hsz := hsized k _ hk hsize
  have hreports := fstat_descriptor hget hstat
  dsimp only at hres hsz hreports ⊢
  rw [hres, if_neg (not_not_intro rfl)]
  -- the image
  refine Owns.bind ((onKernel_owns (O := []) (kzalloc_owns hsz s1.machine)).beside [⟨p, 2⟩])
    (fun image s2 N2 h2 => ?_)
  obtain ⟨N', ⟨halloc, hs2⟩, rfl, hu2⟩ := h2
  have honly2 : FilesOnly s s2 := honly1.trans (filesOnly_machine hs2)
  have hword2 : ∀ j < 1024, s2.machine.word p j = s.machine.word p j := fun j hj => by
    rw [hu2.word List.mem_cons_self (processRun_mem0 p) hj, hm1]
  have hf2 : s2.files = s.files := by rw [hs2, ← hf1]
  have hr2 : rootOf s2.fileState = rootOf s.fileState := by rw [hs2, ← hr1]; rfl
  refine Owns.ite (fun _ => Owns.pure ⟨N', rfl, ProgramLoaded.failed honly2 hword2 (by decide), hf2,
    hr2, hneg (by decide)⟩) (fun hne => ?_)
  -- `fread`
  refine Owns.bind (onFiles_owns (Owns.still (fun a t h => (fread_still h).1))) (fun r s3 N3 h3 => ?_)
  obtain ⟨⟨hread, rfl⟩, honly3⟩ := h3
  obtain ⟨count, items⟩ := r
  obtain ⟨hm3, hf3, hr3⟩ := fread_still hread
  have hm3 : s3.machine = s2.machine := hm3
  have hitems := fread_item hread
  have hnone : stat.filesize = 0 → count = -EINVARG ∧ items = [] := by
    intro h0
    unfold fread at hread
    rw [if_pos (Or.inl h0)] at hread
    obtain ⟨e, -⟩ := pure_eq_ok hread
    exact ⟨(congrArg Prod.fst e).symm, (congrArg Prod.snd e).symm⟩
  dsimp only at hitems ⊢
  rcases halloc with ⟨r, hlen, hin, rfl, rfl⟩ | ⟨h0, -⟩ | ⟨-, rfl, hzero⟩
  · -- the items
    refine Owns.bind ((onKernel_owns (writeItems_owns (r := r) (O := []) hitems
      (by rw [hlen]; exact blocksFor_size _))).beside [⟨p, 2⟩]) (fun _ s4 N4 h4 => ?_)
    obtain ⟨N', ⟨⟨rfl, hcopy⟩, hs4⟩, rfl, hu4⟩ := h4
    have honly4 : FilesOnly s s4 := (honly2.trans honly3).trans (filesOnly_machine hs4)
    have hword4 : ∀ j < 1024, s4.machine.word p j = s.machine.word p j := fun j hj => by
      rw [hu4.word List.mem_cons_self (processRun_mem0 p) hj, hm3, hword2 j hj]
    have hf4 : s4.files = s.files := by rw [hs4]; exact hf3.trans hf2
    have hr4 : rootOf s4.fileState = rootOf s.fileState := by rw [hs4]; exact hr3.trans hr2
    refine Owns.ite (fun _ => Owns.pure ⟨[r], rfl, ProgramLoaded.failed honly4 hword4 (by decide),
      hf4, hr4, hneg (by decide)⟩) (fun hcount => ?_)
    have hpos : 1 ≤ stat.filesize := by
      by_contra h0
      rw [(hnone (by omega)).1] at hcount
      exact hcount (by decide)
    -- the struct
    refine (storeImage_owns hp (by omega) (lt_of_le_of_lt hsz (by decide)) s4 0).mono
      (fun a s5 N5 h5 => ?_)
    obtain ⟨rfl, rfl, hs5, hfirst, hptr, hsize, hu5⟩ := h5
    refine ⟨[r], rfl, ⟨honly4.trans (filesOnly_machine hs5), fun j hj => ?_, fun _ => ⟨rfl, ?_⟩⟩, ?_, ?_,
      fun _ v hv => ⟨r.start, stat.filesize, hptr, hsize, ReadInto.untouched ?_ ?_ hu5⟩⟩
    · rw [hfirst j hj, hword4 j hj]
    · refine ⟨r.start, stat.filesize, ?_, hpos, hptr, hsize⟩
      rw [← hlen]
      exact List.mem_singleton_self r
    · rw [hs5]
      exact hf4
    · rw [hs5]
      exact hr4
    · -- what was read is what was stored
      rw [not_not.mp hcount] at hread
      have hv2 : s2.fileState.volume = some v := by
        rw [hs2]
        exact (congrArg FileState.volume hs1).trans hv
      have hget2 : fileGetDescriptor s2.fileState fd = some desc := by
        rw [← hget]
        unfold fileGetDescriptor
        show (if _ then none else s2.files _) = if _ then none else s.files _
        rw [hf2]
      obtain ⟨t, hrun⟩ := fread_volume hget2 hv2 hread
      refine ⟨⟨stat.flags, hres ▸ hreports⟩, v, _, items, t, rfl, rfl, hrun, ?_⟩
      rcases hitems with rfl | ⟨item, rfl, hle⟩
      · exact ⟨Nat.zero_le _, fun i hi => absurd hi (Nat.not_lt_zero i)⟩
      · have hflat : [item].flatten = item := List.append_nil item
        have hlt : stat.filesize < 4294967296 := lt_of_le_of_lt hsz (by decide)
        rw [hflat]
        refine ⟨hle, fun i hi => ?_⟩
        rw [hcopy item rfl]
        have hat := Mem.copy_at s3.machine.mem (runAddr r) (item.map UInt8.toBitVec) (i := i)
          (by rw [List.length_map]; exact hi) (by rw [List.length_map]; omega)
        rw [List.getElem_map] at hat
        have hbyte : s3.machine.mem.copy (runAddr r) (item.map UInt8.toBitVec)
            (BitVec.ofNat 32 (blockAddr r.start + i)) = item[i].toBitVec := hat
        simpa only [hflat] using hbyte
    · rw [← hlen]
      exact List.mem_singleton_self r
  · exact absurd h0 hne
  · -- nothing was allocated, and nothing is read
    obtain ⟨rfl, rfl⟩ := hnone hzero
    refine Owns.bind (onKernel_owns (Q := fun _ m' N => m' = s3.machine ∧ N = [⟨p, 2⟩])
      (Owns.pure ⟨rfl, rfl⟩)) (fun _ s4 N4 h4 => ?_)
    obtain ⟨⟨hm4, rfl⟩, hs4⟩ := h4
    rw [if_pos (by decide)]
    refine Owns.pure ⟨[], rfl, ProgramLoaded.failed
      ((honly2.trans honly3).trans (filesOnly_machine hs4)) (fun j hj => ?_) (by decide), ?_, ?_,
      hneg (by decide)⟩
    · rw [hm4, hm3, hword2 j hj]
    · rw [hs4]
      exact hf3.trans hf2
    · rw [hs4, hm4]
      exact hr3.trans hr2

end

/-- no file of the root directory has the name -/
def FileMissing (volume : Option FatPrivate) (filename : List UInt8) : Prop :=
  pathAccepted filename = false ∨ ∀ v part, volume = some v → pathNames filename = [part] →
    ∀ k < v.rootDirectory.total.toNat, ¬ HasName v.rootDirectory.buffer part k

section
variable {p : Nat} {s : KernelState}

/-- a program cannot be loaded from a file that is not open -/
theorem processLoadProgram_closed (disk : Disk) {fd : Int} {O : List Run}
    (hget : fileGetDescriptor s.fileState fd = none) :
    Owns KernelState.machine O (processLoadProgram disk fd (blockAddr p)) s
      (fun res s' N => s' = s ∧ N = O) := by
  have hstat : onFiles (fstat fd ⟨0, 0⟩) s = .ok ((- EIO, ⟨0, 0⟩), s) := by
    have hrun : fstat fd ⟨0, 0⟩ s.fileState = .ok ((- EIO, ⟨0, 0⟩), s.fileState) := by
      unfold fstat
      rw [bind_ok (get_run _), hget]
      rfl
    exact part_ok hrun
  intro L res s' hh hrun
  unfold processLoadProgram at hrun
  rw [bind_ok hstat] at hrun
  cases hrun
  exact ⟨O, ⟨rfl, rfl⟩, hh, Untouched.refl L _⟩

theorem descriptor_entered {filename : List UInt8} {t t' : FileState} {i : Nat}
    {desc : FileDescriptor} (h : Entered filename t t' i desc) :
    fileGetDescriptor t' ((i : Int) + 1) = none ∨
      fileGetDescriptor t' ((i : Int) + 1) = some desc := by
  unfold fileGetDescriptor
  split
  · exact Or.inl rfl
  · right
    have e : ((i : Int) + 1 - 1).toNat = i := by omega
    rw [e, h.files, Function.update_self]

/-- the load from a file that is open, and its release -/
theorem loadOpened_owns (disk : Disk) {filename : List UInt8} {t : FileState} {i : Nat}
    {desc : FileDescriptor} {D K : List Run} (hent : Entered filename t s.fileState i desc)
    (hpts : Points (descriptorPtrs desc) D)
    (hget : fileGetDescriptor s.fileState ((i : Int) + 1) = some desc)
    {root : FatDirectory} {name : List UInt8} (hfile : OpenFile root name desc.priv)
    (hsized : ∀ k n, LastNamed root.buffer name 0 root.total.toNat k →
      (recordAt root.buffer k).filesize = .ok n → Sized n) (hp : p + 2 ≤ heapBlocks) :
    Owns KernelState.machine ([⟨p, 2⟩] ++ (D ++ K))
      (processLoadProgram disk ((i : Int) + 1) (blockAddr p) >>= fun res =>
        onFiles (fclose ((i : Int) + 1)) >>= fun _ => pure res) s
      (fun res s' N => ∃ J, N = J ++ [⟨p, 2⟩] ∧ ProgramLoaded p s s' res J ∧
        (0 ≤ res → ∀ v, s.volume = some v → ImageRead disk v desc.priv p s'.machine)) := by
  refine Owns.bind ((processLoadProgram_owns disk hget hfile hsized hp).frame (D ++ K))
    (fun res s1 N1 h1 => ?_)
  obtain ⟨M, ⟨J, rfl, hload, hfiles, hroot, hread⟩, rfl⟩ := h1
  -- the file is still open
  obtain ⟨q, hq⟩ : ∃ q, s1.volume = some q := by
    have hs : (rootOf s1.fileState).isSome = true := by
      rw [hroot]
      unfold rootOf
      rw [Option.isSome_map]
      exact hent.mounted
    unfold rootOf at hs
    rw [Option.isSome_map] at hs
    exact Option.isSome_iff_exists.mp hs
  have hget1 : fileGetDescriptor s1.fileState ((i : Int) + 1) = some desc := by
    rw [← hget]
    unfold fileGetDescriptor
    show (if _ then none else s1.files _) = if _ then none else s.files _
    rw [hfiles]
  have hclose := onFiles_owns (s := s1) (fclose_owns (D := D) hq hget1 hfile
    (by rw [hent.index]; omega) (by rw [hent.index]; have := hent.slot.lt; omega) hpts)
  refine Owns.perm (O := D ++ (K ++ (J ++ [⟨p, 2⟩]))) ?_ ?_
  · refine Owns.bind (hclose.beside (K ++ (J ++ [⟨p, 2⟩]))) (fun r s2 N2 h2 => ?_)
    obtain ⟨M, ⟨rfl, honly⟩, rfl, hu⟩ := h2
    have hmem : ⟨p, 2⟩ ∈ K ++ (J ++ [⟨p, 2⟩]) :=
      List.mem_append_right K (List.mem_append_right J List.mem_cons_self)
    have hsecond : ∀ j < 1024, s2.machine.word (p + 1) j = s1.machine.word (p + 1) j := fun j hj =>
      hu.word hmem (processRun_mem1 p) hj
    refine Owns.pure ⟨K ++ J, by rw [List.append_assoc]; rfl, ⟨hload.only.trans honly,
      fun j hj => ?_, fun hres => ?_⟩, fun hres v hv => ?_⟩
    · rw [hu.word hmem (processRun_mem0 p) hj, hload.first j hj]
    · obtain ⟨h0, image, size, himage, hpos, hptr, hsize⟩ := hload.loaded hres
      exact ⟨h0, image, size, List.mem_append_right K himage, hpos,
        (hsecond 29 (by decide)).trans hptr, (hsecond 31 (by decide)).trans hsize⟩
    · obtain ⟨image, size, hptr, hsize, hinto⟩ := hread hres v hv
      obtain ⟨-, image', size', himage, -, hptr', hsize'⟩ := hload.loaded hres
      obtain rfl : image' = image := blockAddr_inj (hptr'.symm.trans hptr)
      obtain rfl : size' = size := hsize'.symm.trans hsize
      exact ⟨image', size', (hsecond 29 (by decide)).trans hptr, (hsecond 31 (by decide)).trans hsize,
        hinto.untouched (List.mem_append_right K (List.mem_append_left _ himage)) hu⟩
  · rw [← List.append_assoc D]
    exact List.perm_append_comm

/-- the struct at block `p` points to what was read of the file with the name -/
def FileRead (disk : Disk) (volume : Option FatPrivate) (filename : List UInt8) (p : Nat) (m : Machine) :
    Prop :=
  ∃ v name d, volume = some v ∧ pathNames filename = [name] ∧ OpenFile v.rootDirectory name d ∧
    ImageRead disk v d p m

/-- the volume may have moved its streams -/
theorem ImageRead.onto {disk : Disk} {v v' : FatPrivate} {d : FatFileDescriptor} {p : Nat} {m : Machine}
    (h : ImageRead disk v' d p m) (hheader : v'.header = v.header)
    (hroot : v'.rootDirectory = v.rootDirectory) : ImageRead disk v d p m := by
  obtain ⟨image, size, hptr, hsize, hstat, q, m0, items, t, hq, hqr, hread⟩ := h
  exact ⟨image, size, hptr, hsize, hstat, q, m0, items, t, hq.trans hheader, hqr.trans hroot, hread⟩

/-- **The load of a program** leaves its image, and what is lost. -/
theorem processLoadBinary_owns (disk : Disk) (filename : List UInt8)
    (hsized : FileSized s.volume filename) (hp : p + 2 ≤ heapBlocks) :
    Owns KernelState.machine [⟨p, 2⟩] (processLoadBinary disk filename (blockAddr p)) s
      (fun res s' N => ∃ K, N = K ++ [⟨p, 2⟩] ∧ ProgramLoaded p s s' res K ∧
        (FileMissing s.volume filename → res < 0) ∧
        (0 ≤ res → FileRead disk s.volume filename p s'.machine)) := by
  unfold processLoadBinary
  refine Owns.bind ((onFiles_owns (O := []) ((fopen_owns disk filename [114] s.fileState).along
    (fun fd t h => fopen_volume h))).beside [⟨p, 2⟩]) (fun fd s1 N1 h1 => ?_)
  obtain ⟨N', ⟨⟨⟨hleaves, h0⟩, hvol1⟩, honly1⟩, rfl, hu1⟩ := h1
  have hword1 : ∀ j < 1024, s1.machine.word p j = s.machine.word p j := fun j hj =>
    hu1.word List.mem_cons_self (processRun_mem0 p) hj
  refine Owns.ite (fun hfd => ?_) (fun hfd => ?_)
  · -- there is no file
    rw [hfd]
    refine Owns.bind (onFiles_owns (Owns.still (fun a t h => by cases h; rfl))) (fun r s2 N2 h2 => ?_)
    obtain ⟨⟨hclose, rfl⟩, honly2⟩ := h2
    have hm2 : s2.machine = s1.machine := by
      have e := (run_unique (fclose_zero _) hclose).2
      exact (congrArg FileState.machine e).symm
    refine Owns.pure ⟨N', rfl, ProgramLoaded.failed (honly1.trans honly2) (fun j hj => ?_)
      (by decide), fun _ => by decide, fun h => absurd h (by decide)⟩
    rw [hm2, hword1 j hj]
  · -- the file is open
    rcases hleaves with ⟨-, hneg, -⟩ | ⟨hacc, K, D, hperm, -, ⟨hneg, -⟩ | ⟨i, desc, rfl, hent, hpts⟩⟩
    · exact absurd (le_antisymm hneg h0) hfd
    · exact absurd (le_antisymm hneg h0) hfd
    · obtain ⟨v, name, hv, hname, hfile⟩ := hent.file
      have hv : s.volume = some v := hv
      have hfound : ¬ FileMissing s.volume filename := by
        rintro (hrej | hno)
        · rw [hacc] at hrej
          cases hrej
        · obtain ⟨k, -, -, hk, -⟩ := hfile.item
          exact hno v name hv hname k hk.lt hk.named
      rcases descriptor_entered hent with hnone | hget
      · refine Owns.bind (processLoadProgram_closed disk hnone) (fun res s2 N2 h2 => ?_)
        obtain ⟨rfl, rfl⟩ := h2
        exact Owns.bind (onFiles_owns (Q := fun _ _ _ => False) (fclose_none hfd hnone))
          (fun _ _ _ h => h.1.elim)
      · have hopened := loadOpened_owns disk (K := K) hent hpts hget hfile
          (fun k n hk hn => hsized hacc v name k n hv hname hk hn) hp
        refine Owns.perm (hopened.mono (fun res s2 N2 h2 => ?_)) ?_
        · obtain ⟨J, rfl, hload, hread⟩ := h2
          refine ⟨J, rfl, ⟨honly1.trans hload.only, fun j hj => ?_, hload.loaded⟩,
            fun h => absurd h hfound, fun hres => ?_⟩
          · rw [hload.first j hj, hword1 j hj]
          · -- the volume is the one that was mounted
            have hv1 : volumeOf s1.fileState = some (v.header, v.rootDirectory) := by
              rw [hvol1]
              unfold volumeOf
              rw [show s.fileState.volume = some v from hv]
              rfl
            obtain ⟨q, hq, he⟩ := Option.map_eq_some_iff.mp hv1
            exact ⟨v, name, desc.priv, hv, hname, hfile, (hread hres q hq).onto (congrArg Prod.fst he)
              (congrArg Prod.snd he)⟩
        · refine List.perm_append_comm.trans (List.Perm.append_left _ ?_)
          exact hperm.trans List.perm_append_comm

end

/-! ## a new task -/

/-- the last task of the list is one of `T` -/
def TailIn (T : List Nat) (taskHead taskTail : Nat) : Prop :=
  taskHead = 0 ∨ ∃ b ∈ T, taskTail = blockAddr b

/-- the registers that a new task starts with -/
structure TaskStart (m : Machine) (b : Nat) : Prop where
  general : ∀ j, 1 ≤ j → j ≤ 7 → m.word b j = 0
  ip : m.word b 8 = programVirtualAddress
  cs : m.word b 9 = userCodeSegment
  flags : m.word b 10 = 0
  esp : m.word b 11 = stackAddressStart
  ss : m.word b 12 = userDataSegment

theorem TaskWords.start {m : Machine} {b chunk process : Nat} (h : TaskWords m b chunk process) :
    TaskStart m b := ⟨h.general, h.ip, h.cs, h.flags, h.esp, h.ss⟩

theorem TaskStart.congr {m m' : Machine} {b : Nat} (h : TaskStart m b)
    (hw : ∀ j < 14, m'.word b j = m.word b j) : TaskStart m' b where
  general j h1 h7 := (hw j (by omega)).trans (h.general j h1 h7)
  ip := (hw 8 (by decide)).trans h.ip
  cs := (hw 9 (by decide)).trans h.cs
  flags := (hw 10 (by decide)).trans h.flags
  esp := (hw 11 (by decide)).trans h.esp
  ss := (hw 12 (by decide)).trans h.ss

/-- the first task is the one that runs -/
def FirstRuns (head head' current' task : Nat) : Prop := head = 0 → head' = task ∧ current' = task

/-- what `task_new` leaves: the task at block `b` in a space of its own, behind the tasks `T` -/
structure NewTask (T : List Nat) (s s' : TaskState) (b : Nat) (space : Space) : Prop where
  maps : space.Maps s'.machine 7 (fun v => v * 4096 + 5)
  pageDirectory : s'.machine.word b 0 = blockAddr space.chunk
  tail : TailIn (b :: T) s'.taskHead s'.taskTail
  others : ∀ c ∈ T, ∀ j < 14, s'.machine.word c j = s.machine.word c j
  start : TaskStart s'.machine b
  first : FirstRuns s.taskHead s'.taskHead s'.currentTask (blockAddr b)

theorem taskNew_owns {T : List Nat} {process : Nat} (hp : process < 4294967296) (s : TaskState)
    (htail : TailIn T s.taskHead s.taskTail) :
    Owns TaskState.machine (T.map oneBlock) (taskNew process) s (fun t s' N => ∃ b space,
      b < heapBlocks ∧ t = blockAddr b ∧ N = space.runs ++ oneBlock b :: T.map oneBlock ∧
        NewTask T s s' b space) := by
  intro L t s' hh hrun
  have hfree : 1027 ≤ freeBlocks s.machine.heap.table := by
    by_contra hno
    rw [taskNew_fault s hh (by omega)] at hrun
    cases hrun
  obtain ⟨b, space, m, hnew, -, hh1, hmaps, hfr, hwords, -⟩ := taskNew_made s hh hp hfree
  have hb : b < heapBlocks := hh1.block_lt (List.mem_append_right _ List.mem_cons_self)
  -- the runs that were there are apart from the new ones
  have hnot : ∀ r ∈ T.map oneBlock ++ L, ∀ x, r.Mem x → ¬ (x = b ∨ x ∈ space.blocks) :=
    fun r hr x hx => new_apart hh1 hr hx
  have hall : ∀ r ∈ T.map oneBlock ++ L, r.start + r.len ≤ heapBlocks := fun r hr => hh.inside hr
  have hu : Untouched (T.map oneBlock ++ L) s.machine m := hfr.untouched hall hnot
  have hT : ∀ c ∈ T, oneBlock c ∈ T.map oneBlock ++ L := fun c hc =>
    List.mem_append_left L (List.mem_map_of_mem hc)
  have hself : ∀ c, (oneBlock c).Mem c := fun c => ⟨le_refl c, Nat.lt_succ_self c⟩
  have hperm : m.Holds ((space.runs ++ oneBlock b :: T.map oneBlock) ++ L) := by
    rw [List.append_assoc]
    exact hh1
  by_cases h0 : s.taskHead = 0
  · -- the first task
    rw [hnew, bind_ok (taskAppend_first { s with machine := m } (blockAddr b) h0)] at hrun
    cases hrun
    exact ⟨_, ⟨b, space, hb, rfl, rfl, hmaps, hwords.pageDirectory,
      Or.inr ⟨b, List.mem_cons_self, rfl⟩, fun c hc j hj => hu.oneBlock (hT c hc) (by omega),
      hwords.start, fun _ => ⟨rfl, rfl⟩⟩, hperm, hu.mono (fun r hr => List.mem_append_right _ hr)⟩
  · -- behind the last one
    obtain ⟨c, hc, htl⟩ := htail.resolve_left h0
    have hcn := not_or.mp (hnot _ (hT c hc) c (hself c))
    have hbn : b ∉ space.blocks := Space.not_mem_blocks hh1 List.mem_cons_self
    obtain ⟨m2, happ, hput⟩ := taskAppend_behind { s with machine := m } hb (hh.block_lt (hT c hc))
      hcn.1 h0 htl
    rw [hnew, bind_ok happ] at hrun
    cases hrun
    refine ⟨_, ⟨b, space, hb, rfl, rfl, ?_, ?_, Or.inr ⟨b, List.mem_cons_self, rfl⟩, ?_, ?_,
      fun h => absurd h h0⟩, hperm.congr hput.heap, ?_⟩
    · exact hmaps.frame (fun x hx => Space.blocks_lt hh1 hx) hput.frame
        (PutBehind.avoids hbn hcn.2)
    · exact (hput.new 0 (by decide) (by decide)).trans hwords.pageDirectory
    · intro d hd j hj
      have hdn : d ≠ b := fun e => hnot _ (hT d hd) d (hself d) (Or.inl e)
      have hold := hput.old d (hh.block_lt (hT d hd)) hdn j (by omega) (Or.inr (by omega))
      exact hold.trans (hu.oneBlock (hT d hd) (by omega))
    · exact hwords.start.congr (fun j hj => hput.new j (by omega) (by omega))
    · refine (hu.mono (fun r hr => List.mem_append_right _ hr)).trans ?_
      refine hput.frame.untouched (fun r hr => hall r (List.mem_append_right _ hr))
        (fun r hr x hx hor => ?_)
      rcases hor with rfl | rfl
      · exact hnot r (List.mem_append_right _ hr) x hx (Or.inl rfl)
      · have hsep := List.pairwise_append.mp hh.tiled.separate
        exact hsep.2.2 _ (List.mem_map_of_mem hc) r hr x (hself x) hx

/-! ## the struct of a process -/

theorem strncpyBytes_length (src : List UInt8) (n : Nat) : (strncpyBytes src n).length ≤ n + 1 := by
  induction n generalizing src with
  | zero =>
    rw [strncpyBytes]
    exact le_refl 1
  | succ n ih =>
    cases src with
    | nil =>
      show 1 ≤ _
      omega
    | cons c cs =>
      unfold strncpyBytes
      split
      · show 1 ≤ _
        omega
      · rw [List.length_cons]
        exact Nat.succ_le_succ (ih cs)

/-- bytes stored in a block: the other blocks, and the words before and behind them, are the same -/
theorem copy_frame (m : Machine) {p off : Nat} {bs : List (BitVec 8)} (hp : p < heapBlocks)
    (h : off + bs.length ≤ 4096) :
    Frame (fun x => x = p) m { m with mem := m.mem.copy (blockAddr p + off) bs } := by
  intro a ha hB
  have hlt := blockAddr_lt hp
  have hnot := hB p rfl
  obtain ⟨ha4, ha⟩ := ha
  unfold InBlock at hnot
  have e := blockAddr_page p
  exact Mem.load_copy_out m.mem (by omega) (by omega) (by omega) (by omega)

/-- a process that is loaded in `slot`: `K` are the struct, the image, the stack and what is lost -/
structure Made (T : List Nat) (slot : Int) (s s' : KernelState) (k : ProcessBlocks) (space : Space)
    (K : List Run) : Prop where
  process : ⟨k.process, 2⟩ ∈ K
  image : ⟨k.image, blocksFor k.size⟩ ∈ K
  stack : ⟨k.stack, 4⟩ ∈ K
  /-- the three are different allocations -/
  parts : ∃ R, K.Perm (⟨k.process, 2⟩ :: ⟨k.image, blocksFor k.size⟩ :: ⟨k.stack, 4⟩ :: R)
  pos : 1 ≤ k.size
  maps : space.Maps s'.machine 7 (processEntry k)
  words : ProcessWords k s'.machine
  pageDirectory : s'.machine.word k.task 0 = blockAddr space.chunk
  id : loadHalf s'.machine.mem (blockAddr k.process) = cuint slot % 65536
  tail : TailIn (k.task :: T) s'.taskHead s'.taskTail
  others : ∀ c ∈ T, ∀ j < 14, s'.machine.word c j = s.machine.word c j
  processes : s'.processes = Function.update s.processes slot (blockAddr k.process)
  accesses : s'.accesses = slot :: s.accesses
  start : TaskStart s'.machine k.task
  first : FirstRuns s.taskHead s'.taskHead s'.currentTask (blockAddr k.task)

/-- a load that has failed: the tasks and the table are as before -/
structure Unmade (T : List Nat) (s s' : KernelState) : Prop where
  only : FilesOnly s s'
  others : ∀ c ∈ T, ∀ j < 14, s'.machine.word c j = s.machine.word c j

/-- no task is released for a struct without one -/
theorem processLoadOut_run {p : Nat} {res : Int} {s : KernelState}
    (h : 0 ≤ res ∨ p = 0 ∨ s.machine.mem.load (p + ProcessField.task) = 0) :
    processLoadOut p res s = .ok (res, s) := by
  unfold processLoadOut
  by_cases hres : res < 0
  · rw [onlyIf_pos hres]
    by_cases hp : p = 0
    · rw [onlyIf_neg (not_not_intro hp)]
      rfl
    · have hzero : s.machine.mem.load (p + ProcessField.task) = 0 := by
        rcases h with h | h | h
        · omega
        · exact absurd h hp
        · exact h
      have hread : onKernel (readWord p ProcessField.task) s = .ok (0, s) := by
        rw [← hzero]
        exact part_ok (readWord_ok s.machine hp _)
      rw [onlyIf_pos hp]
      have hrun : (onKernel (readWord p ProcessField.task) >>= fun task => onlyIf (task ≠ 0) do
          let _ ← onTasks (taskFree task)) s = .ok ((), s) := by
        rw [bind_ok hread, onlyIf_neg (not_not_intro rfl)]
        rfl
      rw [bind_ok hrun]
      rfl
  · rw [onlyIf_neg hres]
    rfl

/-- the end of a load without a task to release -/
theorem processLoadOut_owns {p : Nat} {res : Int} {s : KernelState} {O : List Run} {r : Option Nat}
    {Q : Int × Option Nat → KernelState → List Run → Prop}
    (h : 0 ≤ res ∨ p = 0 ∨ s.machine.mem.load (p + ProcessField.task) = 0) (hQ : Q (res, r) s O) :
    Owns KernelState.machine O (processLoadOut p res >>= fun res => pure (res, r)) s Q := by
  intro L a s' hh hrun
  rw [bind_ok (processLoadOut_run h)] at hrun
  obtain ⟨rfl, rfl⟩ := pure_eq_ok hrun
  exact ⟨O, hQ, hh, Untouched.refl L _⟩

/-! ## a new process -/

/-- the words of tasks that are untouched -/
theorem untouched_tasks {T : List Nat} {m m' : Machine} (h : Untouched (T.map oneBlock) m m') :
    ∀ c ∈ T, ∀ j < 14, m'.word c j = m.word c j := fun c hc j hj =>
  h.oneBlock (List.mem_map_of_mem hc) (by omega)

section
variable {T : List Nat} {p : Nat} {slot : Int} {s : KernelState}

/-- what the struct of a process holds before its task is made -/
structure Filled (p image stack size : Nat) (slot : Int) (m : Machine) : Prop where
  ptr : m.word (p + 1) 29 = blockAddr image
  stack : m.word (p + 1) 30 = blockAddr stack
  size : m.word (p + 1) 31 = size
  id : loadHalf m.mem (blockAddr p) = cuint slot % 65536

/-- the name, the stack and the number are stored in the struct -/
theorem processFill_owns (filename : List UInt8) {image stack size : Nat} {s : KernelState}
    (hp : p + 2 ≤ heapBlocks) (hst : stack < heapBlocks)
    (hptr : s.machine.word (p + 1) 29 = blockAddr image)
    (hsize : s.machine.word (p + 1) 31 = size) {O : List Run} {α : Type} {x : Prog KernelState α}
    {Q : α → KernelState → List Run → Prop}
    (hx : ∀ s', FilesOnly s s' → s'.volume = s.volume → s'.files = s.files →
      Filled p image stack size slot s'.machine → Untouched O s.machine s'.machine →
        Owns KernelState.machine (⟨p, 2⟩ :: O) x s' Q) :
    Owns KernelState.machine (⟨p, 2⟩ :: O) (do
      onKernel (strncpy (blockAddr p + ProcessField.filename) filename maxPath)
      onKernel (writeWord (blockAddr p) ProcessField.stack (blockAddr stack))
      onKernel (writeHalf (blockAddr p) ProcessField.id (cuint slot))
      x) s Q := by
  have hpb : p < heapBlocks := by omega
  -- the name
  have hname : Owns itself [⟨p, 2⟩] (strncpy (blockAddr p + ProcessField.filename) filename maxPath)
      s.machine _ := writeBytes_owns (r := ⟨p, 2⟩) (O := []) (by
        have := strncpyBytes_length filename (maxPath - 1)
        show 2 + _ ≤ 2 * 4096
        dsimp only [maxPath] at this ⊢
        omega)
  refine Owns.bind ((onKernel_owns hname).beside O) (fun _ s1 N1 h1 => ?_)
  obtain ⟨N', ⟨⟨hm1, rfl⟩, hs1⟩, rfl, hu1⟩ := h1
  have hfr1 : Frame (fun x => x = p) s.machine s1.machine := by
    rw [hm1]
    refine copy_frame s.machine hpb ?_
    have := strncpyBytes_length filename (maxPath - 1)
    rw [List.length_map]
    show 2 + _ ≤ 4096
    dsimp only [maxPath] at this ⊢
    omega
  -- the stack
  refine Owns.bind (structWord_owns (i := 1) (j := 30) hp Nat.one_lt_two rfl (by decide)
    (blockAddr_word_lt hst.le) s1 O) (fun _ s2 N2 h2 => ?_)
  obtain ⟨rfl, hs2, hw2, hu2⟩ := h2
  -- the number
  have hid : Owns itself [⟨p, 2⟩] (writeHalf (blockAddr p) ProcessField.id (cuint slot)) s2.machine _ :=
    writeBytes_owns (r := ⟨p, 2⟩) (O := []) (show 0 + 2 ≤ 2 * 4096 by decide)
  refine Owns.bind ((onKernel_owns hid).beside O) (fun _ s3 N3 h3 => ?_)
  obtain ⟨N', ⟨⟨hm3, rfl⟩, hs3⟩, rfl, hu3⟩ := h3
  have hfr3 : Frame (fun x => x = p) s2.machine s3.machine := by
    rw [hm3]
    exact copy_frame s2.machine hpb (show 0 + 2 ≤ 4096 by decide)
  have hsecond : ∀ j < 1024, s3.machine.word (p + 1) j = s2.machine.word (p + 1) j := fun j hj =>
    hfr3.block (by omega) hj (by omega)
  have hsecond1 : ∀ j < 1024, s1.machine.word (p + 1) j = s.machine.word (p + 1) j := fun j hj =>
    hfr1.block (by omega) hj (by omega)
  refine hx s3 ((filesOnly_machine hs1).trans ((filesOnly_machine hs2).trans (filesOnly_machine hs3)))
    (by rw [hs3, hs2, hs1]) (by rw [hs3, hs2, hs1]) ⟨?_, ?_, ?_, ?_⟩ (hu1.trans (hu2.trans hu3))
  · rw [hsecond 29 (by decide), ← hptr, ← hsecond1 29 (by decide)]
    exact hw2.other 29 (by decide) (by decide)
  · rw [hsecond 30 (by decide)]
    exact hw2.word
  · rw [hsecond 31 (by decide), ← hsize, ← hsecond1 31 (by decide)]
    exact hw2.other 31 (by decide) (by decide)
  · unfold loadHalf
    rw [hm3]
    show (s2.machine.mem.copy (blockAddr p) _).load (blockAddr p) % 65536 = _
    rw [List.map_cons, List.map_cons, List.map_nil, Mem.load_copy_half]
    show (cuint slot / 256) % 256 * 256 + cuint slot % 256 = _
    omega

/-- a space whose blocks are untouched -/
theorem Space.Maps.untouched {space : Space} {m m' : Machine} {f : Nat} {entry : Nat → Nat}
    (h : space.Maps m f entry) (hu : Untouched space.runs m m') : space.Maps m' f entry := by
  have hword : ∀ b ∈ space.blocks, ∀ j < 1024, m'.word b j = m.word b j := fun b hb j hj =>
    hu.oneBlock (Space.runs_mem hb) hj
  refine ⟨⟨?_, fun i hi => ?_⟩, fun i hi b hb => ?_⟩
  · exact (hword _ space.chunk_mem 0 (by decide)).trans h.chunk
  · exact (hword _ space.directory_mem i hi).trans (h.dir i hi)
  · exact (hword _ (space.table_mem_blocks hi) b hb).trans (h.table i hi b hb)

theorem processMapMemory_owns {k : ProcessBlocks} {space : Space} {M : List Run} {m : Machine}
    {p : Nat} (hp : k.process = p) (hr : ProcessRuns k M)
    (hmaps : space.Maps m 7 (fun v => v * 4096 + 5)) (hw : ProcessWords k m)
    (hchunk : m.word k.task 0 = blockAddr space.chunk) :
    Owns itself (space.runs ++ M) (processMapMemory (blockAddr p)) m (fun res m' N =>
      res = 0 ∧ N = space.runs ++ M ∧ space.Maps m' 7 (processEntry k) ∧ Untouched M m m') := by
  intro L res m' hh hrun
  rw [← hp] at hrun
  have hh' : m.Holds (space.runs ++ (M ++ L)) := by
    rw [← List.append_assoc]
    exact hh
  have hr' : ProcessRuns k (M ++ L) := ⟨List.mem_append_left L hr.process,
    List.mem_append_left L hr.task, List.mem_append_left L hr.image, List.mem_append_left L hr.stack⟩
  obtain ⟨m1, hrun1, hheap, hmaps1, hfr⟩ := processMapMemory_mapped hr' hh' hmaps hw hchunk
  obtain ⟨rfl, rfl⟩ := run_unique hrun1 hrun
  have hu : Untouched (M ++ L) m m1 := hfr.untouched
    (fun r hr => hh'.inside (List.mem_append_right _ hr)) (fun r hr b hb hx =>
      Space.not_mem_run hh' hr hb (List.mem_cons_of_mem _ (List.mem_cons_of_mem _ hx)))
  exact ⟨_, ⟨rfl, rfl, hmaps1, hu.mono (fun r hr => List.mem_append_left L hr)⟩, hh.congr hheap,
    hu.mono (fun r hr => List.mem_append_right M hr)⟩

/-- a filled struct with a new task, whose space has not been changed -/
structure Tasked (T : List Nat) (k : ProcessBlocks) (slot : Int) (s s' : KernelState) (space : Space) :
    Prop where
  words : ProcessWords k s'.machine
  id : loadHalf s'.machine.mem (blockAddr k.process) = cuint slot % 65536
  maps : space.Maps s'.machine 7 (fun v => v * 4096 + 5)
  pageDirectory : s'.machine.word k.task 0 = blockAddr space.chunk
  tail : TailIn (k.task :: T) s'.taskHead s'.taskTail
  others : ∀ c ∈ T, ∀ j < 14, s'.machine.word c j = s.machine.word c j
  processes : s'.processes = s.processes
  accesses : s'.accesses = s.accesses
  start : TaskStart s'.machine k.task
  first : FirstRuns s.taskHead s'.taskHead s'.currentTask (blockAddr k.task)

/-- the space is mapped, and the process put in its slot -/
theorem Tasked.map_owns {k : ProcessBlocks} {space : Space} {K R : List Run} {s s' : KernelState}
    (h : Tasked T k slot s s' space) (hpos : 1 ≤ k.size)
    (hparts : K.Perm (⟨k.image, blocksFor k.size⟩ :: ⟨k.stack, 4⟩ :: R)) :
    Owns KernelState.machine
      (space.runs ++ ⟨k.process, 2⟩ :: (oneBlock k.task :: T.map oneBlock ++ K))
      (onKernel (processMapMemory (blockAddr k.process)) >>= fun res =>
        if res < 0 then processLoadOut (blockAddr k.process) res >>= fun res => pure (res, none)
        else processWrite slot (blockAddr k.process) >>= fun _ =>
          processLoadOut (blockAddr k.process) res >>= fun res =>
            pure (res, some (blockAddr k.process))) s'
      (fun r s3 N => r = (0, some (blockAddr k.process)) ∧
        N.Perm ((k.task :: T).map oneBlock ++ (space.runs ++ ⟨k.process, 2⟩ :: K)) ∧
        Made T slot s s3 k space (⟨k.process, 2⟩ :: K) ∧ Untouched K s'.machine s3.machine) := by
  have himage : ⟨k.image, blocksFor k.size⟩ ∈ K := hparts.mem_iff.mpr List.mem_cons_self
  have hstack : ⟨k.stack, 4⟩ ∈ K := hparts.mem_iff.mpr (List.mem_cons_of_mem _ List.mem_cons_self)
  -- the runs beside the space
  obtain ⟨M, hM⟩ : ∃ M, M = ⟨k.process, 2⟩ :: (oneBlock k.task :: T.map oneBlock ++ K) := ⟨_, rfl⟩
  have hprocess : ⟨k.process, 2⟩ ∈ M := hM ▸ List.mem_cons_self
  have htasks : ∀ c ∈ k.task :: T, oneBlock c ∈ M := fun c hc =>
    hM ▸ List.mem_cons_of_mem _ (List.mem_append_left K (List.mem_map_of_mem hc))
  have hK : ∀ r ∈ K, r ∈ M := fun r hr => hM ▸ List.mem_cons_of_mem _ (List.mem_append_right _ hr)
  have hruns : ProcessRuns k M :=
    ⟨hprocess, htasks _ List.mem_cons_self, hK _ himage, hK _ hstack⟩
  have hperm : (space.runs ++ M).Perm ((k.task :: T).map oneBlock ++ (space.runs ++ ⟨k.process, 2⟩ :: K)) := by
    have e1 : M.Perm ((k.task :: T).map oneBlock ++ ⟨k.process, 2⟩ :: K) :=
      hM ▸ List.perm_middle.symm
    refine (List.Perm.append_left space.runs e1).trans ?_
    rw [← List.append_assoc, ← List.append_assoc]
    exact List.perm_append_comm.append_right _
  rw [← hM]
  refine Owns.bind (onKernel_owns (processMapMemory_owns rfl hruns h.maps h.words h.pageDirectory))
    (fun res s3 N3 h3 => ?_)
  obtain ⟨⟨rfl, rfl, hmaps3, hu3⟩, hs3⟩ := h3
  rw [if_neg (lt_irrefl 0)]
  -- the slot
  refine Owns.bind (Owns.modify rfl) (fun _ s4 N4 h4 => ?_)
  obtain ⟨rfl, rfl⟩ := h4
  refine processLoadOut_owns (Or.inl (le_refl 0)) ⟨rfl, hperm, ?_, hu3.mono hK⟩
  exact
    { process := List.mem_cons_self
      image := List.mem_cons_of_mem _ himage
      stack := List.mem_cons_of_mem _ hstack
      parts := ⟨R, hparts.cons _⟩
      pos := hpos
      maps := hmaps3
      words := h.words.untouched hprocess hu3
      pageDirectory := (hu3.oneBlock (htasks _ List.mem_cons_self) (by decide)).trans h.pageDirectory
      id := by
        show s3.machine.word k.process 0 % 65536 = _
        rw [hu3.word hprocess (processRun_mem0 k.process) (by decide)]
        exact h.id
      tail := by
        show TailIn (k.task :: T) s3.taskHead s3.taskTail
        rw [hs3]
        exact h.tail
      others := fun c hc j hj => (hu3.oneBlock (htasks c (List.mem_cons_of_mem _ hc))
        (by omega)).trans (h.others c hc j hj)
      processes := by
        show Function.update s3.processes slot _ = _
        rw [hs3]
        exact congrArg (fun t => Function.update t slot _) h.processes
      accesses := by
        show slot :: s3.accesses = _
        rw [hs3]
        exact congrArg (slot :: ·) h.accesses
      start := h.start.congr (fun j hj => hu3.oneBlock (htasks _ List.mem_cons_self) (by omega))
      first := by
        show FirstRuns s.taskHead s3.taskHead s3.currentTask (blockAddr k.task)
        rw [hs3]
        exact h.first }

/-- the task is stored in the struct -/
theorem NewTask.tasked {p b image stack size : Nat} {space : Space} {K : List Run} {s s1 s2 : KernelState}
    (h : NewTask T s.taskState s1.taskState b space) (hp : p + 2 ≤ heapBlocks)
    (hfilled : Filled p image stack size slot s.machine)
    (hsame : s1.processes = s.processes ∧ s1.accesses = s.accesses)
    (hu1 : Untouched (⟨p, 2⟩ :: K) s.machine s1.machine) (hs2 : s2 = { s1 with machine := s2.machine })
    (hw2 : Wrote p 28 (blockAddr b) s1.machine s2.machine)
    (hu2 : Untouched (space.runs ++ (oneBlock b :: T.map oneBlock ++ K)) s1.machine s2.machine) :
    Tasked T ⟨p, b, image, stack, size⟩ slot s s2 space := by
  have htasks : ∀ c ∈ b :: T, oneBlock c ∈ space.runs ++ (oneBlock b :: T.map oneBlock ++ K) :=
    fun c hc => List.mem_append_right _ (List.mem_append_left K (List.mem_map_of_mem hc))
  have hfirst : ∀ j < 1024, s1.machine.word p j = s.machine.word p j := fun j hj =>
    hu1.word List.mem_cons_self (processRun_mem0 p) hj
  have hsecond : ∀ j < 1024, s2.machine.word (p + 1) j = s.machine.word (p + 1) j := fun j hj =>
    (hw2.frame.block (by omega) hj (by omega)).trans
      (hu1.word List.mem_cons_self (processRun_mem1 p) hj)
  have hid : s2.machine.word p 0 = s.machine.word p 0 :=
    (hw2.other 0 (by decide) (by decide)).trans (hfirst 0 (by decide))
  exact
    { words := ⟨hw2.word, (hsecond 29 (by decide)).trans hfilled.ptr,
        (hsecond 30 (by decide)).trans hfilled.stack, (hsecond 31 (by decide)).trans hfilled.size⟩
      id := by
        show s2.machine.word p 0 % 65536 = _
        rw [hid]
        exact hfilled.id
      maps := h.maps.untouched (hu2.mono (fun r hr => List.mem_append_left _ hr))
      pageDirectory := (hu2.oneBlock (htasks b List.mem_cons_self) (by decide)).trans h.pageDirectory
      tail := by
        rw [hs2]
        exact h.tail
      others := fun c hc j hj => (hu2.oneBlock (htasks c (List.mem_cons_of_mem _ hc))
        (by omega)).trans (h.others c hc j hj)
      processes := by rw [hs2, ← hsame.1]
      accesses := by rw [hs2, ← hsame.2]
      start := h.start.congr (fun j hj => hu2.oneBlock (htasks b List.mem_cons_self) (by omega))
      first := by
        rw [hs2]
        exact h.first }

/-- the task of a process whose struct is filled -/
theorem processLoadTask_owns {p image stack size : Nat} {K : List Run} {s : KernelState}
    (hp : p + 2 ≤ heapBlocks) (hfilled : Filled p image stack size slot s.machine) (hpos : 1 ≤ size)
    (htail : TailIn T s.taskHead s.taskTail) {R : List Run}
    (hparts : K.Perm (⟨image, blocksFor size⟩ :: ⟨stack, 4⟩ :: R)) :
    Owns KernelState.machine (T.map oneBlock ++ ⟨p, 2⟩ :: K)
      (processLoadTask slot (blockAddr p)) s (fun r s' N => r = (0, some (blockAddr p)) ∧
        ∃ k space, k.process = p ∧ k.image = image ∧ k.size = size ∧
          N.Perm ((k.task :: T).map oneBlock ++ (space.runs ++ ⟨p, 2⟩ :: K)) ∧
          Made T slot s s' k space (⟨p, 2⟩ :: K) ∧ Untouched K s.machine s'.machine) := by
  have hpb : p < heapBlocks := by omega
  unfold processLoadTask
  refine Owns.bind ((onTasks_owns (taskNew_owns (blockAddr_word_lt (by omega)) s.taskState
    htail)).beside (⟨p, 2⟩ :: K)) (fun task s1 N1 h1 => ?_)
  obtain ⟨M, ⟨⟨b, space, hb, rfl, rfl, hnew⟩, hv1, hf1, hpr1, hac1⟩, rfl, hu1⟩ := h1
  have hbc : cint (blockAddr b) ≠ 0 := by
    have := blockAddr_lt hb
    have := blockAddr_ne (b := b)
    rw [cint_nat (by omega)]
    omega
  rw [if_neg hbc]
  obtain ⟨F, hF⟩ : ∃ F, F = space.runs ++ (oneBlock b :: T.map oneBlock ++ K) := ⟨_, rfl⟩
  have hperm : (space.runs ++ oneBlock b :: T.map oneBlock ++ ⟨p, 2⟩ :: K).Perm (⟨p, 2⟩ :: F) := by
    have e : (oneBlock b :: T.map oneBlock ++ ⟨p, 2⟩ :: K).Perm
        (⟨p, 2⟩ :: (oneBlock b :: T.map oneBlock ++ K)) := List.perm_middle
    rw [List.append_assoc, hF]
    exact (List.Perm.append_left space.runs e).trans List.perm_middle
  -- `_process->task`
  refine Owns.perm (Owns.bind (structWord_owns (i := 0) (j := 28) hp Nat.two_pos rfl (by decide)
    (blockAddr_word_lt hb.le) s1 F) (fun _ s2 N2 h2 => ?_)) hperm
  obtain ⟨rfl, hs2, hw2, hu2⟩ := h2
  have htasked : Tasked T ⟨p, b, image, stack, size⟩ slot s s2 space :=
    hnew.tasked hp hfilled ⟨hpr1, hac1⟩ hu1 hs2 hw2 (hF ▸ hu2)
  have hspace : (⟨p, 2⟩ :: F).Perm (space.runs ++ ⟨p, 2⟩ :: (oneBlock b :: T.map oneBlock ++ K)) := by
    rw [hF]
    exact List.perm_middle.symm
  refine Owns.perm ((htasked.map_owns hpos hparts).mono (fun r s3 N3 h3 => ?_)) hspace
  obtain ⟨rfl, hN, hmade, hu3⟩ := h3
  refine ⟨rfl, _, space, rfl, rfl, rfl, hN, hmade, ?_⟩
  exact (hu1.mono (fun r hr => List.mem_cons_of_mem _ hr)).trans ((hu2.mono (fun r hr =>
    hF ▸ List.mem_append_right _ (List.mem_cons_of_mem _ (List.mem_append_right _ hr)))).trans hu3)

/-- the same from a state before, with the files opened and closed in between -/
theorem Made.before {k : ProcessBlocks} {space : Space} {K : List Run} {s0 s' : KernelState}
    (h : Made T slot s s' k space K) (honly : FilesOnly s0 s)
    (hu : Untouched (T.map oneBlock) s0.machine s.machine) : Made T slot s0 s' k space K :=
  { h with
    others := fun c hc j hj => (h.others c hc j hj).trans (untouched_tasks hu c hc j hj)
    processes := by rw [h.processes, honly.processes]
    accesses := by rw [h.accesses, honly.accesses]
    first := by
      rw [← honly.taskHead]
      exact h.first }

/-- behind the image and the stack: the struct is filled, and the task is made -/
theorem fillTask_owns (filename : List UInt8) {image stack size : Nat} {K : List Run}
    (hp : p + 2 ≤ heapBlocks) (hst : stack < heapBlocks)
    (hptr : s.machine.word (p + 1) 29 = blockAddr image)
    (hsize : s.machine.word (p + 1) 31 = size) (hpos : 1 ≤ size)
    (himage : ⟨image, blocksFor size⟩ ∈ K) (htail : TailIn T s.taskHead s.taskTail) :
    Owns KernelState.machine (⟨p, 2⟩ :: (T.map oneBlock ++ ⟨stack, 4⟩ :: K)) (do
      onKernel (strncpy (blockAddr p + ProcessField.filename) filename maxPath)
      onKernel (writeWord (blockAddr p) ProcessField.stack (blockAddr stack))
      onKernel (writeHalf (blockAddr p) ProcessField.id (cuint slot))
      processLoadTask slot (blockAddr p)) s (fun r s' N => r = (0, some (blockAddr p)) ∧
        ∃ k space, k.process = p ∧ k.image = image ∧ k.size = size ∧
          N.Perm ((k.task :: T).map oneBlock ++ (space.runs ++ ⟨p, 2⟩ :: ⟨stack, 4⟩ :: K)) ∧
          Made T slot s s' k space (⟨p, 2⟩ :: ⟨stack, 4⟩ :: K) ∧ Untouched K s.machine s'.machine) := by
  refine processFill_owns filename hp hst hptr hsize (fun s1 honly hv hf hfilled hu => ?_)
  have hparts := ((List.perm_cons_erase himage).cons ⟨stack, 4⟩).trans (List.Perm.swap _ _ _)
  have htail1 : TailIn T s1.taskHead s1.taskTail := by
    rw [honly.taskHead, honly.taskTail]
    exact htail
  refine Owns.perm ((processLoadTask_owns hp hfilled hpos htail1 hparts).mono (fun r s2 N h => ?_))
    List.perm_middle.symm
  obtain ⟨rfl, k, space, hk, hi, hsz, hN, hmade, hu2⟩ := h
  refine ⟨rfl, k, space, hk, hi, hsz, hN, hmade.before honly (hu.mono (fun r hr =>
    List.mem_append_left _ hr)), ?_⟩
  refine (hu.mono (fun r hr => ?_)).trans (hu2.mono (fun r hr => List.mem_cons_of_mem _ hr))
  exact List.mem_append_right _ (List.mem_cons_of_mem _ hr)

/-- **A process in its slot**, or a failure that leaves the tasks and the table alone. -/
theorem processLoadNew_owns (disk : Disk) (filename : List UInt8)
    (hsized : FileSized s.volume filename) (hp : p + 2 ≤ heapBlocks)
    (htail : TailIn T s.taskHead s.taskTail) :
    Owns KernelState.machine (⟨p, 2⟩ :: T.map oneBlock)
      (processLoadNew disk filename slot (blockAddr p)) s (fun r s' N =>
        (r.1 < 0 ∧ r.2 = none ∧ Unmade T s s' ∧
          ∃ K, N.Perm (T.map oneBlock ++ K) ∧ ⟨p, 2⟩ ∈ K) ∨
        (r.1 = 0 ∧ r.2 = some (blockAddr p) ∧ ¬ FileMissing s.volume filename ∧ ∃ k space K,
          k.process = p ∧ N.Perm ((k.task :: T).map oneBlock ++ (space.runs ++ K)) ∧
          Made T slot s s' k space K ∧ FileRead disk s.volume filename p s'.machine)) := by
  unfold processLoadNew
  -- `process_init`
  have hfill : Owns itself [⟨p, 2⟩] (memset (runAddr ⟨p, 2⟩) 0 processSize) s.machine _ :=
    mem_owns (O := []) rfl (show 0 + 4224 ≤ 2 * 4096 by decide)
      (fun x hx => Mem.fill_out s.machine.mem 0 hx)
  refine Owns.bind ((onKernel_owns hfill).beside (T.map oneBlock)) (fun _ s1 N1 h1 => ?_)
  obtain ⟨N', ⟨⟨-, hm1, rfl⟩, hs1⟩, rfl, hu1⟩ := h1
  have honly1 := filesOnly_machine hs1
  have hv1 : s1.volume = s.volume := by rw [hs1]
  have htask1 : s1.machine.word p 28 = 0 := by
    rw [hm1]
    have hlt := blockAddr_word_lt (b := p + 2) hp
    have e1 := blockAddr_page p
    have e2 := blockAddr_page (p + 2)
    show (s.machine.mem.fill (blockAddr p) 4224 0).load (blockAddr p + 112) = 0
    exact Mem.load_fill_in s.machine.mem (by omega) (by omega) (by omega)
  -- the image
  refine Owns.bind ((processLoadBinary_owns disk filename (by rw [hv1]; exact hsized) hp).beside
    (T.map oneBlock)) (fun res s2 N2 h2 => ?_)
  obtain ⟨N', ⟨K, rfl, hload, hmiss, hread⟩, rfl, hu2⟩ := h2
  rw [hv1] at hmiss hread
  have honly2 : FilesOnly s s2 := honly1.trans hload.only
  have htask2 : s2.machine.word p 28 = 0 := (hload.first 28 (by decide)).trans htask1
  have hu2' : Untouched (T.map oneBlock) s.machine s2.machine := hu1.trans hu2
  refine Owns.ite (fun hneg => ?_) (fun hpos => ?_)
  · refine processLoadOut_owns (Or.inr (Or.inr htask2)) (Or.inl ⟨hneg, rfl,
      ⟨honly2, untouched_tasks hu2'⟩, K ++ [⟨p, 2⟩], List.perm_append_comm, ?_⟩)
    exact List.mem_append_right K List.mem_cons_self
  · obtain ⟨-, image, size, himage, hsz, hptr, hsize⟩ := hload.loaded (not_lt.mp hpos)
    have hfound : ¬ FileMissing s.volume filename := fun h => hpos (hmiss h)
    -- the stack
    refine Owns.bind ((onKernel_owns (O := []) (kzalloc_owns
      (show 16384 ≤ 4294963200 by decide) s2.machine)).beside
      (K ++ [⟨p, 2⟩] ++ T.map oneBlock)) (fun stack s3 N3 h3 => ?_)
    obtain ⟨M, ⟨halloc, hs3⟩, rfl, hu3⟩ := h3
    have honly3 : FilesOnly s s3 := honly2.trans (filesOnly_machine hs3)
    have hp3 : ⟨p, 2⟩ ∈ K ++ [⟨p, 2⟩] ++ T.map oneBlock :=
      List.mem_append_left _ (List.mem_append_right K List.mem_cons_self)
    have hu3' : Untouched (T.map oneBlock) s.machine s3.machine :=
      hu2'.trans (hu3.mono (fun r hr => List.mem_append_right _ hr))
    refine Owns.ite (fun h0 => ?_) (fun hne => ?_)
    · refine processLoadOut_owns (Or.inr (Or.inr ?_)) (Or.inl ⟨by decide, rfl,
        ⟨honly3, untouched_tasks hu3'⟩, M ++ (K ++ [⟨p, 2⟩]), ?_, ?_⟩)
      · exact (hu3.word hp3 (processRun_mem0 p) (show 28 < 1024 by decide)).trans htask2
      · rw [← List.append_assoc M]
        exact List.perm_append_comm
      · exact List.mem_append_right M (List.mem_append_right K List.mem_cons_self)
    · rcases halloc with ⟨r, hlen, hin, rfl, rfl⟩ | ⟨h0, -⟩ | ⟨-, -, h0⟩
      · obtain ⟨st, len⟩ := r
        obtain rfl : len = 4 := hlen
        have hin : st + 4 ≤ heapBlocks := hin
        have hword3 : ∀ j < 1024, s3.machine.word (p + 1) j = s2.machine.word (p + 1) j :=
          fun j hj => hu3.word hp3 (processRun_mem1 p) hj
        have htail3 : TailIn T s3.taskHead s3.taskTail := by
          rw [honly3.taskHead, honly3.taskTail]
          exact htail
        refine Owns.perm ((fillTask_owns filename hp (show st < heapBlocks by omega)
          ((hword3 29 (by decide)).trans hptr) ((hword3 31 (by decide)).trans hsize) hsz himage
          htail3).mono (fun r s4 N4 h4 => Or.inr ?_)) ?_
        · obtain ⟨rfl, k, space, hk, hi, hs, hN4, hmade, hu4⟩ := h4
          refine ⟨rfl, rfl, hfound, k, space, _, hk, hN4, hmade.before honly3 hu3', ?_⟩
          -- what was read is still there
          obtain ⟨v, name, d, hv, hname, hfile, image', size', hptr', hsize', hinto⟩ :=
            hread (not_lt.mp hpos)
          obtain rfl : image' = image := blockAddr_inj (hptr'.symm.trans hptr)
          obtain rfl : size' = size := hsize'.symm.trans hsize
          refine ⟨v, name, d, hv, hname, hfile, image', size', ?_, ?_, ?_⟩
          · rw [← hk, hmade.words.ptr, hi]
          · rw [← hk, hmade.words.size, hs]
          · refine (hinto.untouched ?_ hu3).untouched ?_ hu4
            · exact List.mem_append_left _ (List.mem_append_left _ himage)
            · exact himage
        · show (⟨st, 4⟩ :: (K ++ [⟨p, 2⟩] ++ T.map oneBlock)).Perm _
          rw [List.append_assoc]
          refine (List.Perm.cons _ List.perm_append_comm).trans ?_
          show (⟨st, 4⟩ :: ⟨p, 2⟩ :: (T.map oneBlock ++ K)).Perm _
          exact (List.Perm.swap _ _ _).trans (List.Perm.cons _ List.perm_middle.symm)
      · exact absurd h0 hne
      · cases h0

end

/-! ## slots -/

/-- the allocation of a struct -/
theorem kzalloc_struct_owns {O : List Run} (m : Machine) :
    Owns itself O (kzalloc processSize) m (fun p m' N =>
      (∃ b, b + 2 ≤ heapBlocks ∧ p = blockAddr b ∧ N = ⟨b, 2⟩ :: O) ∨
        (p = 0 ∧ kzalloc processSize m = .ok (0, m') ∧ m' = m ∧ N = O)) := by
  intro L p m' hh hrun
  have hsz : Sized processSize := show 4224 ≤ 4294963200 by decide
  rcases kzalloc_cases hh (by decide) hrun with ⟨b, -, -, hb, -⟩ | ⟨-, rfl, rfl⟩ | ⟨h0, -⟩
  · obtain ⟨N, hcase, hh', hu⟩ := kzalloc_owns hsz m L p m' hh hrun
    rcases hcase with ⟨⟨c, len⟩, hlen, hin, hp, rfl⟩ | ⟨rfl, -⟩ | ⟨-, -, h0⟩
    · obtain rfl : len = 2 := hlen
      exact ⟨_, Or.inl ⟨c, hin, hp, rfl⟩, hh', hu⟩
    · exact absurd hb.symm blockAddr_ne
    · cases h0
  · exact ⟨O, Or.inr ⟨rfl, hrun, rfl, rfl⟩, hh, Untouched.refl L _⟩
  · have e : mallocBlocks processSize = 2 := mallocBlocks_sized hsz
    omega

/-- the slot is looked up in the table, or rejected without a look at it -/
def Looked (slot : Int) : Prop := 0 ≤ slot ∧ slot ≤ maxProcesses

instance (slot : Int) : Decidable (Looked slot) := inferInstanceAs (Decidable (_ ∧ _))

/-- the slot is in use -/
def Taken (s : KernelState) (slot : Int) : Prop := Looked slot ∧ s.processes slot ≠ 0

/-- the state after the check of a slot -/
def KernelState.looked (s : KernelState) (slot : Int) : KernelState :=
  if Looked slot then { s with accesses := slot :: s.accesses } else s

theorem looked_machine (s : KernelState) (slot : Int) : (s.looked slot).machine = s.machine := by
  unfold KernelState.looked
  split <;> rfl

theorem looked_volume (s : KernelState) (slot : Int) : (s.looked slot).volume = s.volume := by
  unfold KernelState.looked
  split <;> rfl

theorem looked_tasks (s : KernelState) (slot : Int) :
    (s.looked slot).taskHead = s.taskHead ∧ (s.looked slot).taskTail = s.taskTail := by
  unfold KernelState.looked
  split <;> exact ⟨rfl, rfl⟩

theorem processGet_run (s : KernelState) (slot : Int) :
    ∃ p, processGet slot s = .ok (p, s.looked slot) ∧ (p ≠ 0 ↔ Taken s slot) := by
  unfold processGet KernelState.looked Taken
  by_cases h : slot < 0 ∨ slot > maxProcesses
  · have hno : ¬ Looked slot := by
      unfold Looked
      omega
    rw [if_pos h, if_neg hno]
    exact ⟨0, rfl, fun h0 => absurd rfl h0, fun ht => absurd ht.1 hno⟩
  · have hyes : Looked slot := by
      unfold Looked
      omega
    rw [if_neg h, if_pos hyes]
    exact ⟨s.processes slot, rfl, fun h0 => ⟨hyes, h0⟩, fun ht => ht.2⟩

/-- what the uninitialised `_process` holds has no task -/
def Harmless (m : Machine) (stale : Nat) : Prop :=
  stale = 0 ∨ m.mem.load (stale + ProcessField.task) = 0

/-- the three ends of a load before and after the struct of the process is there -/
inductive SlotEnd (disk : Disk) (filename : List UInt8) (slot : Int) (T : List Nat)
    (s : KernelState) : Int × Option Nat → KernelState → List Run → Prop
  /-- the slot is in use, or there is no memory for the struct: nothing has changed -/
  | rejected {res : Int} {s' : KernelState} (hres : res < 0) (h : Taken s slot ∨
      kzalloc processSize s.machine = .ok (0, s'.machine))
      (hs : s' = { s.looked slot with machine := s'.machine }) :
      SlotEnd disk filename slot T s (res, none) s' (T.map oneBlock)
  /-- the load of the struct at block `p` has failed; nothing is released -/
  | failed {res : Int} {s' : KernelState} {N K : List Run} {p : Nat} (hres : res < 0)
      (h : Unmade T (s.looked slot) s') (hN : N.Perm (T.map oneBlock ++ K)) (hp : ⟨p, 2⟩ ∈ K) :
      SlotEnd disk filename slot T s (res, none) s' N
  | made {s' : KernelState} {N K : List Run} {k : ProcessBlocks} {space : Space}
      (hfree : ¬ Taken s slot) (hfile : ¬ FileMissing s.volume filename)
      (hN : N.Perm ((k.task :: T).map oneBlock ++ (space.runs ++ K)))
      (h : Made T slot (s.looked slot) s' k space K) :
      SlotEnd disk filename slot T s (0, some (blockAddr k.process)) s' N

section
variable {T : List Nat} {s : KernelState}

/-- **A load for a slot.** -/
theorem processLoadForSlot_owns (disk : Disk) (filename : List UInt8) (slot : Int) {stale : Nat}
    (hsized : ¬ Taken s slot → FileSized s.volume filename) (htail : TailIn T s.taskHead s.taskTail)
    (hstale : Taken s slot → Harmless s.machine stale) :
    Owns KernelState.machine (T.map oneBlock) (processLoadForSlot disk filename slot stale) s
      (fun r s' N => SlotEnd disk filename slot T s r s' N) := by
  obtain ⟨q, hget, hq⟩ := processGet_run s slot
  have hm := looked_machine s slot
  obtain ⟨hhead, htl⟩ := looked_tasks s slot
  unfold processLoadForSlot
  refine Owns.bind (Q := fun a s' N => a = q ∧ s' = s.looked slot ∧ N = T.map oneBlock) ?_
    (fun a s1 N1 h1 => ?_)
  · intro L a s' hh hrun
    rw [hget] at hrun
    cases hrun
    exact ⟨_, ⟨rfl, rfl, rfl⟩, hh.congr (by rw [hm]), Untouched.of_mem (by rw [hm])⟩
  · obtain ⟨rfl, rfl, rfl⟩ := h1
    refine Owns.ite (fun hne => ?_) (fun h0 => ?_)
    · have ht := hq.mp hne
      refine processLoadOut_owns ?_ (.rejected (by decide) (Or.inl ht) ?_)
      · rw [hm]
        exact Or.inr (hstale ht)
      · rfl
    · have hnt : ¬ Taken s slot := fun ht => h0 (hq.mpr ht)
      have hnew := onKernel_owns (s := s.looked slot) (kzalloc_struct_owns (O := [])
        (s.looked slot).machine)
      refine Owns.bind (hnew.beside (T.map oneBlock)) (fun p s2 N2 h2 => ?_)
      obtain ⟨N', ⟨halloc, hs2⟩, rfl, hu2⟩ := h2
      rcases halloc with ⟨b, hb, rfl, rfl⟩ | ⟨rfl, hnull, hm2, rfl⟩
      · have hv2 : s2.volume = s.volume := by
          rw [hs2]
          exact looked_volume s slot
        have htail2 : TailIn T s2.taskHead s2.taskTail := by
          rw [hs2]
          show TailIn T (s.looked slot).taskHead (s.looked slot).taskTail
          rw [hhead, htl]
          exact htail
        rw [if_neg blockAddr_ne]
        refine (processLoadNew_owns disk filename (by rw [hv2]; exact hsized hnt) hb
          htail2).mono
          (fun r s' N h => ?_)
        obtain ⟨r, o⟩ := r
        rcases h with ⟨hneg, ho, hun, K, hN, hp⟩ | ⟨hres, ho, hfile, k, space, K, hk, hN, hmade, -⟩
        · dsimp only at hneg ho
          subst ho
          exact .failed hneg ⟨(filesOnly_machine hs2).trans hun.only, fun c hc j hj =>
            (hun.others c hc j hj).trans (untouched_tasks hu2 c hc j hj)⟩ hN hp
        · dsimp only at hres ho
          rw [hres, ho, ← hk]
          refine .made hnt (by rw [← hv2]; exact hfile) hN
            { hmade with
              others := fun c hc j hj => (hmade.others c hc j hj).trans
                (untouched_tasks hu2 c hc j hj)
              processes := by rw [hmade.processes, hs2]
              accesses := by rw [hmade.accesses, hs2]
              first := by
                rw [← (filesOnly_machine hs2).taskHead]
                exact hmade.first }
      · rw [if_pos rfl]
        refine processLoadOut_owns (Or.inr (Or.inl rfl)) (.rejected (by decide) (Or.inr ?_) hs2)
        rw [← hm]
        exact hnull

end

end LameOS
