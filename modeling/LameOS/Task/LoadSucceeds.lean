import LameOS.Fs.FileThere
import LameOS.Task.FirstLoad

/-!
# The load of a file that is there

* `processLoadProgram_there`, `processLoadBinary_there`   its bytes become the image;
* `processLoad_there`      **the first load of a file that is there succeeds**, with enough blocks at the
                           end of the heap.
-/

set_option linter.unusedVariables false

namespace LameOS
open Lib Lib.Exec

/-! ## parts of the kernel that run -/

section
variable {α : Type} {s : KernelState}

theorem onKernel_does {x : Prog Machine α} {Q : α → Machine → Prop} (h : Does x s.machine Q) :
    Does (onKernel x) s (fun a s' => Q a s'.machine ∧ s' = { s with machine := s'.machine }) := by
  obtain ⟨a, m', hrun, hQ⟩ := h
  exact ⟨a, _, part_ok hrun, hQ, rfl⟩

theorem onFiles_does {x : Prog FileState α} {Q : α → FileState → Prop} (h : Does x s.fileState Q) :
    Does (onFiles x) s (fun a s' => Q a s'.fileState ∧ FilesOnly s s') := by
  obtain ⟨a, t, hrun, hQ⟩ := h
  exact ⟨a, _, part_ok hrun, hQ, rfl, rfl, rfl, rfl, rfl⟩

theorem onTasks_does {x : Prog TaskState α} {Q : α → TaskState → Prop} (h : Does x s.taskState Q) :
    Does (onTasks x) s (fun a s' => Q a s'.taskState) := by
  obtain ⟨a, t, hrun, hQ⟩ := h
  exact ⟨a, _, part_ok hrun, hQ⟩

/-- a store that leaves the heap alone -/
theorem store_does {x : Prog Machine α} {a : α} {mem : Mem}
    (hx : x s.machine = .ok (a, { s.machine with mem := mem })) :
    Does (onKernel x) s (fun a' s' => a' = a ∧ s'.machine.heap = s.machine.heap ∧
      s' = { s with machine := s'.machine }) := ⟨a, _, part_ok hx, rfl, rfl, rfl⟩

theorem writeItems_run (size : Nat) (items : List (List UInt8)) : ∀ (p : Nat) (m : Machine),
    ∃ mem, writeItems size p items m = .ok ((), { m with mem := mem }) := by
  induction items with
  | nil => exact fun p m => ⟨m.mem, rfl⟩
  | cons item items ih =>
    intro p m
    obtain ⟨mem, hrest⟩ := ih (p + size) { m with mem := m.mem.copy p (item.map UInt8.toBitVec) }
    exact ⟨mem, hrest⟩

end

/-! ## the image -/

section
variable {disk : Disk} {p : FatPrivate} {name : List UInt8} {k : Nat} {chain : List Nat} {n c b : Nat}
  {s : KernelState} {fd : Int} {desc : FileDescriptor}

/-- a file that is open is read into its image -/
theorem processLoadProgram_there (h : FileThere disk p name k chain n) (hp : Mounted disk p)
    (hvol : volumeOf s.fileState = some (p.header, p.rootDirectory)) (hfd : 1 ≤ fd)
    (hget : fileGetDescriptor s.fileState fd = some desc)
    (hd : OpensRecord (recordAt p.rootDirectory.buffer k) desc.priv)
    (hroom : Headroom (c + blocksFor n) s.machine) :
    Does (processLoadProgram disk fd (blockAddr b)) s (fun res s' => res = 0 ∧
      Headroom c s'.machine) := by
  have hpos := h.pos
  have hlow := h.low
  unfold processLoadProgram
  -- `fstat`
  obtain ⟨flags, hstat⟩ := h.stat hp hd ⟨0, 0⟩
  have hrun : onFiles (fstat fd ⟨0, 0⟩) s = .ok ((0, ⟨flags, n⟩), s) := by
    have hrun : fstat fd ⟨0, 0⟩ s.fileState = .ok ((0, ⟨flags, n⟩), s.fileState) := by
      unfold fstat
      rw [bind_ok (get_run _), hget]
      dsimp only
      rw [hstat]
      rfl
    exact part_ok hrun
  refine Does.step hrun ?_
  dsimp only
  rw [if_neg (not_not_intro rfl)]
  -- the image
  have hblocks : mallocBlocks n = blocksFor n := mallocBlocks_sized (by unfold Sized; omega)
  refine Does.bind (onKernel_does (kzalloc_headroom (n := c) (by rw [hblocks]; exact hroom)
    (by rw [hblocks]; unfold blocksFor; omega) (by omega))) (fun image s1 h1 => ?_)
  obtain ⟨⟨hne, hroom1⟩, hs1⟩ := h1
  rw [if_neg hne]
  -- `fread`
  have hvol1 : volumeOf s1.fileState = some (p.header, p.rootDirectory) := by
    rw [hs1]
    exact hvol
  have hget1 : fileGetDescriptor s1.fileState fd = some desc := by
    rw [hs1]
    exact hget
  obtain ⟨q, hq, hqh, hqr⟩ := volumeOf_eq hvol1
  have hread : Does (fread disk n 1 fd) s1.fileState (fun r t => r.1 = 1 ∧ t.machine = s1.machine) := by
    obtain ⟨r, t, hrun, -, ⟨hr, -⟩, -⟩ := onVolume_does hq
      (h.read hp hd (s := ⟨s1.machine, q⟩) ⟨hqh, hqr⟩)
    have hfread : fread disk n 1 fd s1.fileState = .ok (r, t) := by
      unfold fread
      rw [if_neg (by omega), bind_ok (get_run _), hget1]
      exact hrun
    exact ⟨r, t, hfread, hr, (fread_still hfread).1⟩
  refine Does.bind (onFiles_does hread) (fun r s2 h2 => ?_)
  obtain ⟨⟨hcount, hm2⟩, -⟩ := h2
  obtain ⟨count, items⟩ := r
  obtain rfl : count = 1 := hcount
  have hroom2 : Headroom c s2.machine := by
    rw [show s2.machine = s1.machine from hm2]
    exact hroom1
  -- the items, and the struct
  obtain ⟨mem, hitems⟩ := writeItems_run n items image s2.machine
  refine Does.bind (store_does hitems) (fun _ s3 h3 => ?_)
  rw [if_neg (not_not_intro rfl)]
  refine Does.bind (store_does (if_neg blockAddr_ne)) (fun _ s4 h4 => ?_)
  refine Does.bind (store_does (if_neg blockAddr_ne)) (fun _ s5 h5 => ?_)
  exact Does.pure ⟨rfl, hroom2.congr (h5.2.1.trans (h4.2.1.trans h3.2.1))⟩

theorem FileThere.fileSized (h : FileThere disk p name k chain n) (hp : Mounted disk p)
    (hvol : volumeOf s.fileState = some (p.header, p.rootDirectory)) :
    FileSized s.volume (rootPath name) := by
  intro _ v part j size hv hname hj hsize
  obtain ⟨q, hq, -, hqr⟩ := volumeOf_eq hvol
  obtain rfl : q = v := Option.some.inj (hq.symm.trans hv)
  rw [h.plain.parsed.2] at hname
  obtain rfl : name = part := List.head_eq_of_cons_eq hname
  rw [hqr] at hj hsize
  rw [h.sole.last hj, h.filesize hp] at hsize
  obtain rfl : n = size := Except.ok.inj hsize
  have hlow := h.low
  unfold Sized
  omega

/-- **The load of the program of a file that is there** -/
theorem processLoadBinary_there (h : FileThere disk p name k chain n) (hp : Mounted disk p)
    (hvol : volumeOf s.fileState = some (p.header, p.rootDirectory)) (hfiles : s.files = fun _ => none)
    (hb : b + 2 ≤ heapBlocks) {L : List Run} (hh : s.machine.Holds ([⟨b, 2⟩] ++ L))
    (hroom : Headroom (c + blocksFor n + 8) s.machine) :
    Does (processLoadBinary disk (rootPath name) (blockAddr b)) s (fun res s' => res = 0 ∧
      Headroom c s'.machine) := by
  have hslot : FirstSlot s.fileState.files 0 :=
    ⟨by decide, congrFun hfiles 0, fun j hj => absurd hj (Nat.not_lt_zero j)⟩
  have hroot : rootOf s.fileState = some p.rootDirectory := by
    obtain ⟨q, hq, -, hqr⟩ := volumeOf_eq hvol
    unfold rootOf
    rw [hq, ← hqr]
    rfl
  unfold processLoadBinary
  -- `fopen`
  have hopen := ((fopen_owns disk (rootPath name) [114] s.fileState).along
    (fun fd t h => fopen_volume h)).does (O := []) hh
      (fopen_enters disk (P := Headroom) h.plain hslot h.sole hroot hroom)
  refine Does.bind (onFiles_does hopen) (fun fd s1 h1 => ?_)
  obtain ⟨⟨⟨rfl, ⟨desc, hfiles1, hd⟩, hroom1⟩, N, ⟨⟨hleaves, -⟩, hvol1⟩, hh1, -⟩, -⟩ := h1
  rw [if_neg (by omega)]
  obtain ⟨K, D, hperm, hent, hpts⟩ : ∃ K D, N.Perm (K ++ D) ∧
      Entered (rootPath name) s.fileState s1.fileState 0 desc ∧ Points (descriptorPtrs desc) D := by
    rcases hleaves with ⟨-, hneg, -⟩ | ⟨-, K, D, hperm, -, ⟨hneg, -⟩ | ⟨i, desc', hi, hent, hpts⟩⟩
    · omega
    · omega
    · obtain rfl : i = 0 := by omega
      have hsame := congrFun (hfiles1.symm.trans hent.files) 0
      rw [Function.update_self, Function.update_self] at hsame
      obtain rfl : desc = desc' := Option.some.inj hsame
      exact ⟨K, D, hperm, hent, hpts⟩
  have hget : fileGetDescriptor s1.fileState ((0 : Nat) + 1 : Int) = some desc := by
    unfold fileGetDescriptor
    rw [if_neg (by decide), hfiles1]
    exact Function.update_self _ _ _
  obtain ⟨v, part, hv, hpart, hopened⟩ := hent.file
  -- the image
  have hsized : ∀ j size, LastNamed v.rootDirectory.buffer part 0 v.rootDirectory.total.toNat j →
      (recordAt v.rootDirectory.buffer j).filesize = .ok size → Sized size := fun j size =>
    h.fileSized hp hvol h.plain.parsed.1 v part j size hv hpart
  have hh2 : s1.machine.Holds ([⟨b, 2⟩] ++ (D ++ (K ++ L))) := by
    refine Machine.Holds.perm hh1 ?_
    refine List.perm_middle.trans (List.Perm.cons _ ?_)
    rw [← List.append_assoc]
    exact (hperm.trans List.perm_append_comm).append_right L
  refine Does.bind ((processLoadProgram_owns disk hget hopened hsized hb).does hh2
    (processLoadProgram_there h hp (hvol1.trans hvol) (by decide) hget hd hroom1)) (fun res s2 h2 => ?_)
  obtain ⟨⟨rfl, hroom2⟩, M, ⟨J, rfl, hload, hf2, hr2, -⟩, hh3, -⟩ := h2
  -- the file is closed
  obtain ⟨q, hq⟩ : ∃ q, s2.volume = some q := by
    have hsome : (rootOf s2.fileState).isSome = true := by
      rw [hr2]
      unfold rootOf
      rw [Option.isSome_map]
      exact hent.mounted
    unfold rootOf at hsome
    rw [Option.isSome_map] at hsome
    exact Option.isSome_iff_exists.mp hsome
  have hget2 : fileGetDescriptor s2.fileState ((0 : Nat) + 1 : Int) = some desc := by
    rw [← hget]
    unfold fileGetDescriptor
    show (if _ then none else s2.files _) = if _ then none else s1.files _
    rw [hf2]
  have hh4 : s2.fileState.machine.Holds (D ++ (J ++ [⟨b, 2⟩] ++ (K ++ L))) :=
    Machine.Holds.perm hh3 (List.perm_append_comm_assoc _ _ _)
  obtain ⟨m', hclose, hh5, -⟩ := fclose_run hq hget2 hopened.closable (by rw [hent.index]; decide)
    (by rw [hent.index]; decide) hh4 hpts
  exact Does.step (part_ok hclose) (Does.pure ⟨rfl, hroom2.less hh4 hh5⟩)

end

/-! ## the task -/

section
variable {T : List Nat} {slot : Int} {s s' : KernelState} {L : List Run}

theorem taskNew_first {t : TaskState} {process : Nat} (hh : t.machine.Holds L)
    (hp : process < 4294967296) (hfree : 1027 ≤ freeBlocks t.machine.heap.table)
    (hhead : t.taskHead = 0) : Does (taskNew process) t (fun _ _ => True) := by
  obtain ⟨b, space, m, hnew, -⟩ := taskNew_made t hh hp hfree
  exact ⟨_, _, hnew.trans (bind_ok (taskAppend_first { t with machine := m } (blockAddr b) hhead)),
    trivial⟩

/-- the space of a task is mapped, and the process put in its slot -/
theorem Tasked.map_does {k : ProcessBlocks} {space : Space} {M : List Run}
    (h : Tasked T k slot s s' space) (hr : ProcessRuns k M) (hh : s'.machine.Holds (space.runs ++ M)) :
    Does (onKernel (processMapMemory (blockAddr k.process)) >>= fun res =>
      if res < 0 then processLoadOut (blockAddr k.process) res >>= fun res => pure (res, none)
      else processWrite slot (blockAddr k.process) >>= fun _ =>
        processLoadOut (blockAddr k.process) res >>= fun res =>
          pure (res, some (blockAddr k.process))) s'
      (fun r _ => r = (0, some (blockAddr k.process))) := by
  obtain ⟨m', hrun, -⟩ := processMapMemory_mapped hr hh h.maps h.words h.pageDirectory
  refine Does.step (part_ok hrun) ?_
  rw [if_neg (lt_irrefl 0)]
  refine Does.step rfl ?_
  exact Does.step (processLoadOut_run (Or.inl (le_refl 0))) (Does.pure rfl)

theorem processLoadTask_there {p image stack size : Nat} {K : List Run} (hp : p + 2 ≤ heapBlocks)
    (hfilled : Filled p image stack size slot s.machine) (himage : ⟨image, blocksFor size⟩ ∈ K)
    (hstack : ⟨stack, 4⟩ ∈ K) (hh : s.machine.Holds (⟨p, 2⟩ :: K)) (hhead : s.taskHead = 0)
    (hfree : 1027 ≤ freeBlocks s.machine.heap.table) :
    Does (processLoadTask slot (blockAddr p)) s (fun r _ => r = (0, some (blockAddr p))) := by
  have hlt : blockAddr p < 4294967296 := blockAddr_word_lt (by omega)
  unfold processLoadTask
  -- `task_new`
  refine Does.bind ((onTasks_owns (O := []) (taskNew_owns (T := []) hlt s.taskState (Or.inl hhead))).does
    hh (onTasks_does (taskNew_first hh hlt hfree hhead))) (fun task s1 h1 => ?_)
  obtain ⟨-, N, ⟨⟨b, space, hb, rfl, rfl, hnew⟩, -, -, hpr1, hac1⟩, hh1, hu1⟩ := h1
  have hbc : cint (blockAddr b) ≠ 0 := by
    have := blockAddr_lt hb
    have := blockAddr_ne (b := b)
    rw [cint_nat (by omega)]
    omega
  rw [if_neg hbc]
  -- `_process->task`
  have hh2 : s1.machine.Holds (⟨p, 2⟩ :: (space.runs ++ (oneBlock b :: [].map oneBlock ++ K)) ++ []) := by
    rw [List.append_nil]
    refine Machine.Holds.perm hh1 ?_
    rw [List.append_assoc]
    exact (List.Perm.append_left _ List.perm_middle).trans List.perm_middle
  have hstore : onKernel (writeWord (blockAddr p) ProcessField.task (blockAddr b)) s1 = .ok ((), _) :=
    part_ok (if_neg blockAddr_ne)
  refine Does.bind ((structWord_owns (i := 0) (j := 28) hp Nat.two_pos rfl (by decide)
    (blockAddr_word_lt hb.le) s1 (space.runs ++ (oneBlock b :: [].map oneBlock ++ K))).does hh2
    (P := fun _ _ => True) ⟨_, _, hstore, trivial⟩) (fun _ s2 h2 => ?_)
  obtain ⟨-, M, ⟨rfl, hs2, hw2, hu2⟩, hh3, -⟩ := h2
  have htasked := hnew.tasked hp hfilled ⟨hpr1, hac1⟩ hu1 hs2 hw2 hu2
  -- the space
  have hruns : ProcessRuns ⟨p, b, image, stack, size⟩ (⟨p, 2⟩ :: oneBlock b :: K) :=
    ⟨List.mem_cons_self, List.mem_cons_of_mem _ List.mem_cons_self,
      List.mem_cons_of_mem _ (List.mem_cons_of_mem _ himage),
      List.mem_cons_of_mem _ (List.mem_cons_of_mem _ hstack)⟩
  have hh4 : s2.machine.Holds (space.runs ++ ⟨p, 2⟩ :: oneBlock b :: K) := by
    refine Machine.Holds.perm hh3 ?_
    rw [List.append_nil]
    exact List.perm_middle.symm
  exact htasked.map_does hruns hh4

end

/-! ## the process -/

section
variable {disk : Disk} {p : FatPrivate} {name : List UInt8} {k : Nat} {chain : List Nat} {n b : Nat}
  {slot : Int} {s : KernelState} {L : List Run}

/-- behind the image: the name, the stack and the number are stored, and the task is made -/
theorem fillTask_there {image stack size : Nat} (hb : b + 2 ≤ heapBlocks) (hst : stack < heapBlocks)
    (hptr : s.machine.word (b + 1) 29 = blockAddr image) (hsize : s.machine.word (b + 1) 31 = size)
    (himage : ⟨image, blocksFor size⟩ ∈ L) (hstack : ⟨stack, 4⟩ ∈ L)
    (hh : s.machine.Holds (⟨b, 2⟩ :: L)) (hhead : s.taskHead = 0) (hroom : Headroom 1027 s.machine) :
    Does (do
      onKernel (strncpy (blockAddr b + ProcessField.filename) (rootPath name) maxPath)
      onKernel (writeWord (blockAddr b) ProcessField.stack (blockAddr stack))
      onKernel (writeHalf (blockAddr b) ProcessField.id (cuint slot))
      processLoadTask slot (blockAddr b)) s (fun r _ => r = (0, some (blockAddr b))) := by
  obtain ⟨_, s1, hname, rfl, heap1, -⟩ := store_does (s := s) (a := ()) (x := strncpy
    (blockAddr b + ProcessField.filename) (rootPath name) maxPath) rfl
  obtain ⟨_, s2, hword, rfl, heap2, -⟩ := store_does (s := s1) (x := writeWord (blockAddr b)
    ProcessField.stack (blockAddr stack)) (if_neg blockAddr_ne)
  obtain ⟨_, s3, hid, rfl, heap3, -⟩ := store_does (s := s2) (a := ()) (x := writeHalf (blockAddr b)
    ProcessField.id (cuint slot)) rfl
  have hfill : Owns KernelState.machine (⟨b, 2⟩ :: []) (do
      onKernel (strncpy (blockAddr b + ProcessField.filename) (rootPath name) maxPath)
      onKernel (writeWord (blockAddr b) ProcessField.stack (blockAddr stack))
      onKernel (writeHalf (blockAddr b) ProcessField.id (cuint slot))
      pure ()) s (fun _ s' N => N = [⟨b, 2⟩] ∧ FilesOnly s s' ∧
        Filled b image stack size slot s'.machine) :=
    processFill_owns (rootPath name) hb hst hptr hsize (fun s' honly _ _ hfilled _ =>
      Owns.pure ⟨rfl, honly, hfilled⟩)
  obtain ⟨N, ⟨rfl, honly, hfilled⟩, hh3, -⟩ := hfill L () s3 hh
    ((bind_ok hname).trans ((bind_ok hword).trans (bind_ok hid)))
  refine Does.step hname (Does.step hword (Does.step hid ?_))
  obtain ⟨-, -, hfree⟩ := (hroom.congr (heap3.trans (heap2.trans heap1))).room
  exact processLoadTask_there hb hfilled himage hstack hh3 (honly.taskHead.trans hhead) hfree

theorem processLoadNew_there (h : FileThere disk p name k chain n) (hp : Mounted disk p)
    (hvol : volumeOf s.fileState = some (p.header, p.rootDirectory)) (hfiles : s.files = fun _ => none)
    (hb : b + 2 ≤ heapBlocks) (hh : s.machine.Holds ([⟨b, 2⟩] ++ L)) (hhead : s.taskHead = 0)
    (hroom : Headroom (1027 + 4 + blocksFor n + 8) s.machine) :
    Does (processLoadNew disk (rootPath name) slot (blockAddr b)) s
      (fun r _ => r = (0, some (blockAddr b))) := by
  unfold processLoadNew
  -- `process_init`
  refine Does.bind (store_does (a := ()) rfl) (fun _ s1 h1 => ?_)
  obtain ⟨-, heap1, hs1⟩ := h1
  have hh1 : s1.machine.Holds ([⟨b, 2⟩] ++ L) := hh.congr heap1
  have hvol1 : volumeOf s1.fileState = some (p.header, p.rootDirectory) := by
    rw [hs1]
    exact hvol
  -- the image
  refine Does.bind ((processLoadBinary_owns disk (rootPath name) (h.fileSized hp hvol1) hb).does hh1
    (processLoadBinary_there h hp hvol1 (by rw [hs1]; exact hfiles) hb hh1
      (hroom.congr heap1))) (fun res s2 h2 => ?_)
  obtain ⟨⟨rfl, hroom2⟩, N, ⟨K, rfl, hload, -, -⟩, hh2, -⟩ := h2
  obtain ⟨-, image, size, himage, -, hptr, hsize⟩ := hload.loaded (le_refl 0)
  rw [if_neg (lt_irrefl 0)]
  -- the stack
  have hfour : mallocBlocks userProgramStackSize = 4 := by decide
  refine Does.bind ((onKernel_owns (O := []) (kzalloc_owns (show 16384 ≤ 4294963200 by decide)
    s2.machine)).does hh2 (onKernel_does (kzalloc_headroom (n := 1027) (by rw [hfour]; exact hroom2)
      (by rw [hfour]; decide) (by decide)))) (fun stack s3 h3 => ?_)
  obtain ⟨⟨⟨hne, hroom3⟩, -⟩, M, ⟨halloc, hs3⟩, hh3, hu3⟩ := h3
  rw [if_neg hne]
  rcases halloc with ⟨⟨st, len⟩, hlen, hin, rfl, rfl⟩ | ⟨h0, -⟩ | ⟨-, -, h0⟩
  · obtain rfl : len = 4 := hlen
    have hmem : ⟨b, 2⟩ ∈ K ++ [⟨b, 2⟩] ++ L :=
      List.mem_append_left L (List.mem_append_right K List.mem_cons_self)
    have hhead3 : s3.taskHead = 0 := by
      rw [hs3]
      exact hload.only.taskHead.trans (by rw [hs1]; exact hhead)
    have hst : st < heapBlocks := by
      have : st + 4 ≤ heapBlocks := hin
      omega
    refine fillTask_there (L := (⟨st, 4⟩ : Run) :: (K ++ L)) hb hst
      ((hu3.word hmem (processRun_mem1 b) (by decide)).trans hptr)
      ((hu3.word hmem (processRun_mem1 b) (by decide)).trans hsize)
      (List.mem_cons_of_mem _ (List.mem_append_left L himage)) List.mem_cons_self
      (Machine.Holds.perm hh3 ?_) hhead3 hroom3
    have hperm : (K ++ ([⟨b, 2⟩] : List Run) ++ L).Perm (⟨b, 2⟩ :: (K ++ L)) := by
      rw [List.append_assoc]
      exact List.perm_middle
    exact (List.Perm.cons _ hperm).trans (List.Perm.swap _ _ _)
  · exact absurd h0 hne
  · cases h0

theorem processLoadForSlot_there (h : FileThere disk p name k chain n) (hp : Mounted disk p)
    (hvol : volumeOf s.fileState = some (p.header, p.rootDirectory)) (hfiles : s.files = fun _ => none)
    (hempty : s.processes 0 = 0) (hhead : s.taskHead = 0) (hh : s.machine.Holds L) {stale : Nat}
    (hroom : Headroom (1027 + 4 + blocksFor n + 8 + 2) s.machine) :
    Does (processLoadForSlot disk (rootPath name) 0 stale) s (fun r _ => r.1 = 0) := by
  have hget : processGet 0 s = .ok (s.processes 0, { s with accesses := 0 :: s.accesses }) := rfl
  rw [hempty] at hget
  unfold processLoadForSlot
  refine Does.step hget ?_
  rw [if_neg (not_not_intro rfl)]
  obtain ⟨s1, hs1⟩ : ∃ s1, s1 = { s with accesses := 0 :: s.accesses } := ⟨_, rfl⟩
  rw [← hs1]
  have hm1 : s1.machine = s.machine := by rw [hs1]
  -- the struct
  have htwo : mallocBlocks processSize = 2 := by decide
  refine Does.bind ((onKernel_owns (O := []) (kzalloc_struct_owns s1.machine)).does (L := L)
    (by rw [hm1]; exact hh) (onKernel_does (kzalloc_headroom (n := 1027 + 4 + blocksFor n + 8)
      (by rw [htwo, hm1]; exact hroom) (by rw [htwo]; decide) (by decide)))) (fun process s2 h2 => ?_)
  obtain ⟨⟨⟨hne, hroom2⟩, -⟩, N, ⟨halloc, hs2⟩, hh2, -⟩ := h2
  rw [if_neg hne]
  rcases halloc with ⟨b, hb, rfl, rfl⟩ | ⟨h0, -⟩
  · have hvol2 : volumeOf s2.fileState = some (p.header, p.rootDirectory) := by
      rw [hs2, hs1]
      exact hvol
    refine (processLoadNew_there h hp hvol2 (by rw [hs2, hs1]; exact hfiles) hb hh2
      (by rw [hs2, hs1]; exact hhead) hroom2).mono (fun r s3 h3 => ?_)
    rw [h3]
  · exact absurd h0 hne

/-- **The first load of a file that is there** succeeds. -/
theorem processLoad_there (h : FileThere disk p name k chain n) (hp : Mounted disk p)
    (hvol : volumeOf s.fileState = some (p.header, p.rootDirectory)) (hfiles : s.files = fun _ => none)
    (hempty : s.processes 0 = 0) (hhead : s.taskHead = 0) (hh : s.machine.Holds L) {stale : Nat}
    (hroom : Headroom (1027 + 4 + blocksFor n + 8 + 2) s.machine) :
    Does (processLoad disk (rootPath name) stale) s (fun r _ => r.1 = 0) := by
  unfold processLoad
  refine Does.step (freeSlot_first hempty) ?_
  rw [if_neg (by decide)]
  obtain ⟨s1, hs1⟩ : ∃ s1, s1 = { s with accesses := 0 :: s.accesses } := ⟨_, rfl⟩
  rw [← hs1]
  have hm1 : s1.machine = s.machine := by rw [hs1]
  have hvol1 : volumeOf s1.fileState = some (p.header, p.rootDirectory) := by
    rw [hs1]
    exact hvol
  exact processLoadForSlot_there h hp hvol1 (by rw [hs1]; exact hfiles) (by rw [hs1]; exact hempty)
    (by rw [hs1]; exact hhead) (by rw [hm1]; exact hh) (by rw [hm1]; exact hroom)

end

/-! ## its image -/

section
variable {disk : Disk} {p v : FatPrivate} {name : List UInt8} {k : Nat} {chain : List Nat} {n : Nat}

/-- **The image of a process is its file**: `n` bytes, as they are on the disk. -/
theorem FileThere.image (h : FileThere disk p name k chain n) (hp : Mounted disk p)
    (hheader : v.header = p.header) (hroot : v.rootDirectory = p.rootDirectory) {process : Nat}
    {m : Machine} (hread : FileRead disk (some v) (rootPath name) process m) :
    m.word (process + 1) 31 = n ∧ ∃ image, m.word (process + 1) 29 = blockAddr image ∧
      ∀ i < n, m.mem (BitVec.ofNat 32 (blockAddr image + i))
        = ((fileBytes disk p.header chain n).getD i 0).toBitVec := by
  obtain ⟨v', part, d, hv, hpart, hopen, image, size, hptr, hsize, ⟨flags, hstat⟩, q, m0, items, t, hq,
    hqr, hrun, -, hbytes⟩ := hread
  obtain rfl : v = v' := Option.some.inj hv
  rw [h.plain.parsed.2] at hpart
  obtain rfl : name = part := List.head_eq_of_cons_eq hpart
  -- the record is the one of the file
  have hd : OpensRecord (recordAt p.rootDirectory.buffer k) d := by
    obtain ⟨j, a, copy, hj, hclone, hitem⟩ := hopen.item
    rw [hroot] at hj hclone
    rw [h.sole.last hj] at hclone
    exact ⟨hopen.pos, hopen.type, a, copy, hitem, hclone⟩
  obtain ⟨flags', hstat'⟩ := h.stat hp hd ⟨0, 0⟩
  rw [hstat] at hstat'
  obtain rfl : size = n := congrArg FileStat.filesize (congrArg Prod.snd (Except.ok.inj hstat'))
  -- what is read is what the clusters have
  obtain ⟨r, t', hrun', -, hflat⟩ := h.read hp hd (s := ⟨m0, q⟩) ⟨hq.trans hheader, hqr.trans hroot⟩
  rw [hrun] at hrun'
  obtain rfl : (1, items) = r := congrArg Prod.fst (Except.ok.inj hrun')
  have hfile : items.flatten = fileBytes disk p.header chain size :=
    hflat.trans (chainBytes_take (h.ending hp) (h.geometry hp) h.ge h.inside)
  have hlen : items.flatten.length = size := by
    rw [hflat]
    unfold chainBytes
    rw [List.length_map, List.length_range]
  refine ⟨hsize, image, hptr, fun i hi => ?_⟩
  rw [hbytes i (by omega), ← hfile, List.getD_eq_getElem?_getD, List.getElem?_eq_getElem (by omega)]
  rfl

end

end LameOS
