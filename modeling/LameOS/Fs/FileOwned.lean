import LameOS.Fs.Owned
import LameOS.Fs.Position

/-!
# Files and their allocations

* `Entered`          a descriptor in the first free slot of the table;
* `fopen_owns`       a file, and the path that is never released;
* `fclose_run`       the release of a descriptor: its slot and its allocations;
* `fread_still`, `fopen_root`   what reads and opens leave as it is.
-/

set_option linter.unusedVariables false

namespace LameOS
open Lib Lib.Exec

/-! ## files -/

section
variable {α : Type} {O : List Run}

theorem onMemory_owns {x : Prog Machine α} {s : FileState} {Q : α → Machine → List Run → Prop}
    (hx : Owns itself O x s.machine Q) : Owns FileState.machine O (onMemory x) s
      (fun a s' N => Q a s'.machine N ∧ s' = { s with machine := s'.machine }) := by
  unfold onMemory
  refine (Owns.part hx rfl (fun _ => rfl)).mono (fun a s' N h => ?_)
  obtain ⟨m', hQ, rfl⟩ := h
  exact ⟨hQ, rfl⟩

theorem onVolume_owns {x : Prog FatState α} {s : FileState} {p : FatPrivate}
    (hp : s.volume = some p) {Q : α → FatState → List Run → Prop}
    (hx : Owns FatState.machine O x ⟨s.machine, p⟩ Q) :
    Owns FileState.machine O (onVolume x) s (fun a s' N => ∃ t : FatState, Q a t N ∧
      s' = { s with machine := t.machine, volume := some t.fatPrivate }) := by
  intro L a s' hh hrun
  unfold onVolume at hrun
  rw [hp] at hrun
  dsimp only at hrun
  cases hx' : x ⟨s.machine, p⟩ with
  | error e =>
    rw [hx'] at hrun
    cases hrun
  | ok r =>
    rw [hx'] at hrun
    cases hrun
    obtain ⟨N, hQ, hh', hu⟩ := hx L r.1 r.2 hh hx'
    exact ⟨N, ⟨r.2, hQ, rfl⟩, hh', hu⟩

end

/-- the first free slot of the table -/
theorem newDescriptorLoop_some (files : Nat → Option FileDescriptor) (fuel : Nat) : ∀ i k : Nat,
    newDescriptorLoop files fuel i = some k →
      i ≤ k ∧ k < i + fuel ∧ files k = none ∧ ∀ j, i ≤ j → j < k → files j ≠ none := by
  induction fuel with
  | zero =>
    intro i k h
    cases h
  | succ fuel ih =>
    intro i k h
    unfold newDescriptorLoop at h
    split at h
    · rename_i hnone
      cases h
      exact ⟨le_refl i, by omega, Option.isNone_iff_eq_none.mp hnone, fun j h1 h2 => by omega⟩
    · rename_i hsome
      obtain ⟨h1, h2, h3, h4⟩ := ih (i + 1) k h
      refine ⟨by omega, by omega, h3, fun j h5 h6 => ?_⟩
      rcases Nat.eq_or_lt_of_le h5 with rfl | hlt
      · exact fun hn => hsome (Option.isNone_iff_eq_none.mpr hn)
      · exact h4 j hlt h6

/-- `i` is the first free slot of the table -/
structure FirstSlot (files : Nat → Option FileDescriptor) (i : Nat) : Prop where
  lt : i < maxFileDescriptors
  free : files i = none
  first : ∀ j < i, files j ≠ none

theorem fileNewDescriptor_owns (s : FileState) :
    Owns FileState.machine [] fileNewDescriptor s (fun r s' N =>
      s' = { s with machine := s'.machine } ∧ ((r = none ∧ N = []) ∨
        ∃ i addr, r = some (i, addr) ∧ FirstSlot s.files i ∧ Points [addr] N ∧
          0 < freeBlocks s.machine.heap.table)) := by
  unfold fileNewDescriptor
  refine Owns.get_bind ?_
  cases hslot : newDescriptorLoop s.files maxFileDescriptors 0 with
  | none => exact Owns.pure ⟨rfl, Or.inl ⟨rfl, rfl⟩⟩
  | some i =>
    obtain ⟨-, h2, h3, h4⟩ := newDescriptorLoop_some s.files maxFileDescriptors 0 i hslot
    rw [Nat.zero_add] at h2
    refine Owns.bind (onMemory_owns (kzalloc_owns_block (by decide) (by decide) s.machine))
      (fun addr s1 N h1 => ?_)
    refine Owns.bind (deref_owns addr) (fun _ s2 N2 hd => ?_)
    obtain ⟨hne, rfl, rfl⟩ := hd
    obtain ⟨⟨b, rfl, rfl, hfree⟩ | ⟨h0, -⟩, hs1⟩ := h1
    · exact Owns.pure ⟨hs1, Or.inr ⟨i, blockAddr b, rfl, ⟨h2, h3, fun j hj => h4 j (Nat.zero_le j) hj⟩,
        Points.single (oneBlock b), hfree⟩⟩
    · exact absurd h0 hne

/-- an open descriptor for the file `name` of the root directory `root` -/
structure OpenFile (root : FatDirectory) (name : List UInt8) (d : FatFileDescriptor) : Prop where
  pos : d.pos = 0
  type : d.item.type = fatItemTypeFile
  item : ∃ k a copy, LastNamed root.buffer name 0 root.total.toNat k ∧
    Cloned (recordAt root.buffer k) copy ∧ d.item.ptr = .item a copy

/-- a descriptor that `fat16Close` can release: a file, with the copy of its record -/
structure Closable (d : FatFileDescriptor) : Prop where
  type : d.item.type = fatItemTypeFile
  item : ∃ a copy, d.item.ptr = .item a copy

theorem OpenFile.closable {root : FatDirectory} {name : List UInt8} {d : FatFileDescriptor}
    (h : OpenFile root name d) : Closable d := by
  obtain ⟨k, a, copy, -, -, hptr⟩ := h.item
  exact ⟨h.type, a, copy, hptr⟩

def descriptorPtrs (d : FileDescriptor) : List Nat := d.addr :: fatDescriptorPtrs d.priv

/-- slot `i` of the table now has the descriptor `desc` of the file `filename` -/
structure Entered (filename : List UInt8) (s s' : FileState) (i : Nat) (desc : FileDescriptor) :
    Prop where
  slot : FirstSlot s.files i
  files : s'.files = Function.update s.files i (some desc)
  index : desc.index = i + 1
  file : ∃ p name, s.volume = some p ∧ pathNames filename = [name] ∧
    OpenFile p.rootDirectory name desc.priv
  mounted : s'.volume.isSome = true

/-- what `fopen` leaves: the descriptor owns `D`, and `K` belongs to nobody -/
def FopenLeaves (filename : List UInt8) (s : FileState) (fd : Int) (s' : FileState) (N : List Run) :
    Prop :=
  (pathAccepted filename = false ∧ fd ≤ 0 ∧ s' = s ∧ N = []) ∨
    (pathAccepted filename = true ∧ ∃ K D, N.Perm (K ++ D) ∧ K ≠ [] ∧
      ((fd ≤ 0 ∧ s'.files = s.files) ∨
        ∃ (i : Nat) (desc : FileDescriptor), fd = i + 1 ∧ Entered filename s s' i desc ∧
          Points (descriptorPtrs desc) D))

/-- a descriptor that the driver has opened, where a block was left for the copy of its record -/
theorem Opened.openFile {root : FatDirectory} {name : List UInt8} {m : Machine} {d : FatFileDescriptor}
    (h : Opened root name m d) (hfree : 0 < freeBlocks m.heap.table) : OpenFile root name d := by
  obtain ⟨hpos, k, hk, hfile⟩ := h
  refine ⟨hpos, hfile.type, ?_⟩
  rcases hfile.ptr with ⟨a, copy, hcopy, hptr⟩ | ⟨-, hfull⟩
  · exact ⟨k, a, copy, hk, hcopy, hptr⟩
  · rw [hfull] at hfree
    exact absurd hfree (lt_irrefl 0)

/-- of what an `fopen` has allocated, `N'` and `D` are the descriptor's, `K` and the path `P` are lost -/
theorem perm_lost {N' M K D P : List Run} (h : M.Perm (K ++ D)) :
    (N' ++ (M ++ P)).Perm ((K ++ P) ++ (N' ++ D)) := by
  have e1 : (N' ++ (M ++ P)).Perm (N' ++ ((K ++ D) ++ P)) :=
    List.Perm.append_left N' (h.append_right P)
  have e2 : ((K ++ D) ++ P).Perm ((K ++ P) ++ D) := by
    rw [List.append_assoc, List.append_assoc]
    exact List.Perm.append_left K List.perm_append_comm
  refine (e1.trans (List.Perm.append_left N' e2)).trans ?_
  rw [← List.append_assoc, ← List.append_assoc (K ++ P)]
  exact List.perm_append_comm.append_right D

theorem fopenStatus_owns (disk : Disk) (filename mode : List UInt8) (s : FileState) :
    Owns FileState.machine [] (fopenStatus disk filename mode) s
      (fun fd s' N => FopenLeaves filename s fd s' N) := by
  unfold fopenStatus
  refine Owns.bind (onMemory_owns (pathparserParse_owns filename s.machine)) (fun r s1 N1 h1 => ?_)
  obtain ⟨⟨hpoints, hacc, hsame, hnames⟩, hs1⟩ := h1
  cases r with
  | none =>
    refine Owns.pure (Or.inl ⟨hacc.symm, by decide, ?_, hpoints.eq_nil⟩)
    rw [hs1, hsame rfl]
  | some root =>
    have hne : N1 ≠ [] := by
      rintro rfl
      have := (List.nil_perm.mp hpoints : rootPtrs root = [])
      cases this
    have hfiles : s1.files = s.files := by rw [hs1]
    -- an exit after the parse: the path is lost
    have hlost : ∀ {s' : FileState} {N : List Run} (e : Int), e ≤ 0 → s'.files = s.files →
        (∃ M, N = M ++ N1) → FopenLeaves filename s e s' N := by
      intro s' N e he hf hN
      obtain ⟨M, rfl⟩ := hN
      refine Or.inr ⟨hacc.symm, M ++ N1, [], by rw [List.append_nil], ?_, Or.inl ⟨he, hf⟩⟩
      exact fun h => hne (List.append_eq_nil_iff.mp h).2
    refine Owns.ite (fun _ => Owns.pure (hlost _ (by decide) hfiles ⟨[], rfl⟩)) (fun _ => ?_)
    refine Owns.ite (fun _ => Owns.pure (hlost _ (by decide) hfiles ⟨[], rfl⟩)) (fun _ => ?_)
    refine Owns.get_bind ?_
    refine Owns.ite (fun _ => Owns.pure (hlost _ (by decide) hfiles ⟨[], rfl⟩)) (fun hvol => ?_)
    refine Owns.ite (fun _ => Owns.pure (hlost _ (by decide) hfiles ⟨[], rfl⟩)) (fun _ => ?_)
    obtain ⟨p, hp⟩ : ∃ p, s1.volume = some p := by
      cases hv : s1.volume with
      | none => exact absurd (by rw [hv]; rfl) hvol
      | some p => exact ⟨p, rfl⟩
    refine Owns.bind ((onVolume_owns hp (fat16Open_owns disk root.parts (fileModeGetByString mode)
      ⟨s1.machine, p⟩)).frame N1) (fun r s2 N2 h2 => ?_)
    obtain ⟨M, ⟨t, hopen, hs2⟩, rfl⟩ := h2
    have hfiles2 : s2.files = s.files := by rw [hs2, ← hfiles]
    rcases hopen with ⟨e, rfl, he⟩ | ⟨d, part, K, D, rfl, -, hparts, hopened, hperm, hpts⟩
    · exact Owns.pure (hlost e he.le hfiles2 ⟨M, rfl⟩)
    · refine Owns.bind ((fileNewDescriptor_owns s2).frame (M ++ N1)) (fun r s3 N3 h3 => ?_)
      obtain ⟨N', ⟨hs3, hslot⟩, rfl⟩ := h3
      have hfiles3 : s3.files = s.files := by rw [hs3, ← hfiles2]
      rcases hslot with ⟨rfl, rfl⟩ | ⟨i, addr, rfl, hslot, haddr, hfree⟩
      · exact Owns.pure (hlost _ (by decide) hfiles3 ⟨M, rfl⟩)
      · refine Owns.bind (Owns.modify rfl) (fun _ s4 N4 h4 => ?_)
        obtain ⟨rfl, rfl⟩ := h4
        refine Owns.pure (Or.inr ⟨hacc.symm, K ++ N1, N' ++ D, ?_, ?_, Or.inr ⟨i, ⟨addr, i + 1, d⟩,
          rfl, ⟨?_, ?_, rfl, ?_, ?_⟩, haddr.append hpts⟩⟩)
        · exact perm_lost hperm
        · exact fun h => hne (List.append_eq_nil_iff.mp h).2
        · rw [← hfiles2]
          exact hslot
        · show Function.update s3.files i _ = _
          rw [hfiles3]
        · rw [hs2] at hfree
          refine ⟨p, part.part, ?_, ?_, hopened.openFile hfree⟩
          · rw [← hp, hs1]
          · rw [← hnames root rfl, hparts]
            rfl
        · show s3.volume.isSome = true
          rw [hs3, hs2]
          rfl

/-- **`fopen` enters a descriptor in the first free slot or leaves the table as it is; the parsed
path is never released.** -/
theorem fopen_owns (disk : Disk) (filename mode : List UInt8) (s : FileState) :
    Owns FileState.machine [] (fopen disk filename mode) s (fun fd s' N =>
      FopenLeaves filename s fd s' N ∧ 0 ≤ fd) := by
  unfold fopen
  refine Owns.bind (fopenStatus_owns disk filename mode s) (fun fd s1 N h => ?_)
  by_cases hneg : fd < 0
  · rw [if_pos hneg]
    refine Owns.pure ⟨?_, le_refl 0⟩
    rcases h with ⟨h1, -, h2⟩ | ⟨h1, K, D, hperm, hK, ⟨-, hf⟩ | ⟨i, desc, he, -⟩⟩
    · exact Or.inl ⟨h1, le_refl 0, h2⟩
    · exact Or.inr ⟨h1, K, D, hperm, hK, Or.inl ⟨le_refl 0, hf⟩⟩
    · omega
  · rw [if_neg hneg]
    exact Owns.pure ⟨h, not_lt.mp hneg⟩

/-! ## release -/

section
variable {L N : List Run} {ps : List Nat}

theorem onHeap_kfree {s : FatState} {p : Nat} (hh : s.machine.Holds (N ++ L))
    (hp : Points (p :: ps) N) : ∃ s' N', onHeap (kfree p) s = .ok ((), s') ∧ Points ps N' ∧
      s'.machine.Holds (N' ++ L) ∧ s'.machine.mem = s.machine.mem ∧
      s'.fatPrivate = s.fatPrivate := by
  obtain ⟨m', N', hk, hps, hh', hmem⟩ := kfree_points hh hp
  exact ⟨{ s with machine := m' }, N', part_ok hk, hps, hh', hmem, rfl⟩

/-- the release of a complete file item -/
theorem fat16FatItemFree_run {i : FatItem} {a : Nat} {copy : FatDirectoryItem} {s : FatState}
    (htype : i.type = fatItemTypeFile) (hptr : i.ptr = .item a copy)
    (hh : s.machine.Holds (N ++ L)) (hp : Points (a :: i.addr :: ps) N) : ∃ s' N',
      fat16FatItemFree i s = .ok ((), s') ∧ Points ps N' ∧ s'.machine.Holds (N' ++ L) ∧
      s'.machine.mem = s.machine.mem ∧ s'.fatPrivate = s.fatPrivate := by
  obtain ⟨s1, N1, hk1, hp1, hh1, hmem1, hpriv1⟩ := onHeap_kfree hh hp
  obtain ⟨s2, N2, hk2, hp2, hh2, hmem2, hpriv2⟩ := onHeap_kfree hh1 hp1
  refine ⟨s2, N2, ?_, hp2, hh2, hmem2.trans hmem1, hpriv2.trans hpriv1⟩
  unfold fat16FatItemFree
  rw [htype, if_neg (by decide), hptr, onlyIf_pos rfl]
  show (onHeap (kfree a) >>= fun _ => onHeap (kfree i.addr)) s = _
  rw [bind_ok hk1, hk2]

theorem fat16Close_run {d : FatFileDescriptor} {a : Nat} {copy : FatDirectoryItem} {s : FatState}
    (htype : d.item.type = fatItemTypeFile) (hptr : d.item.ptr = .item a copy)
    (hh : s.machine.Holds (N ++ L)) (hp : Points (a :: d.item.addr :: d.addr :: ps) N) : ∃ s' N',
      fat16Close d s = .ok (0, s') ∧ Points ps N' ∧ s'.machine.Holds (N' ++ L) ∧
      s'.machine.mem = s.machine.mem ∧ s'.fatPrivate = s.fatPrivate := by
  obtain ⟨s1, N1, hk1, hp1, hh1, hmem1, hpriv1⟩ := fat16FatItemFree_run htype hptr hh hp
  obtain ⟨s2, N2, hk2, hp2, hh2, hmem2, hpriv2⟩ := onHeap_kfree hh1 hp1
  refine ⟨s2, N2, ?_, hp2, hh2, hmem2.trans hmem1, hpriv2.trans hpriv1⟩
  unfold fat16Close
  rw [bind_ok hk1, bind_ok hk2]
  rfl

end

theorem fclose_zero (s : FileState) : fclose 0 s = .ok (- EIO, s) := rfl

/-- **`fclose` of an open descriptor** empties its slot and releases what it owns. -/
theorem fclose_run {s : FileState} {fd : Int} {desc : FileDescriptor} {p : FatPrivate}
    {D L : List Run} (hvol : s.volume = some p)
    (hget : fileGetDescriptor s fd = some desc) (hfile : Closable desc.priv)
    (h1 : 1 ≤ desc.index) (h2 : desc.index ≤ maxFileDescriptors)
    (hh : s.machine.Holds (D ++ L)) (hp : Points (descriptorPtrs desc) D) : ∃ m',
      fclose fd s = .ok (0, { s with
        machine := m', files := Function.update s.files (desc.index - 1).toNat none }) ∧
      m'.Holds L ∧ m'.mem = s.machine.mem := by
  obtain ⟨a, copy, hptr⟩ := hfile.item
  have hfd : fd ≠ 0 := by
    rintro rfl
    unfold fileGetDescriptor at hget
    rw [if_pos (Or.inl (le_refl 0))] at hget
    cases hget
  have hptrs : (descriptorPtrs desc).Perm
      (a :: desc.priv.item.addr :: desc.priv.addr :: [desc.addr]) := by
    unfold descriptorPtrs fatDescriptorPtrs itemPtrs
    rw [hptr]
    exact (List.reverse_perm [desc.addr, desc.priv.addr, desc.priv.item.addr, a]).symm
  obtain ⟨t, N, hclose, hpN, hhN, hmem, hpriv⟩ :=
    fat16Close_run (s := ⟨s.machine, p⟩) hfile.type hptr hh (hp.perm hptrs)
  obtain ⟨m', N', hk, hpN', hhN', hmem'⟩ := kfree_points hhN hpN
  have hvolume : onVolume (fat16Close desc.priv) s = .ok (0, { s with machine := t.machine }) := by
    unfold onVolume
    rw [hvol]
    dsimp only
    rw [hclose]
    dsimp only
    rw [hpriv, ← hvol]
  refine ⟨m', ?_, ?_, hmem'.trans hmem⟩
  · unfold fclose
    rw [bind_ok (get_run s), if_neg hfd, hget]
    show (onVolume (fat16Close desc.priv) >>= fun res => onlyIf (res = OK) (fileFreeDescriptor desc)
      >>= fun _ => pure res) s = _
    rw [bind_ok hvolume, onlyIf_pos rfl]
    unfold fileFreeDescriptor
    rw [if_pos (by omega)]
    have hmod := modify_run (ε := Fault) (fun s : FileState =>
      { s with files := Function.update s.files (desc.index - 1).toNat none })
      { s with machine := t.machine }
    exact bind_ok ((bind_ok hmod).trans (part_ok hk))
  · rw [hpN'.eq_nil] at hhN'
    exact hhN'

/-! ## what stays -/

/-- the root directory of the mounted volume -/
def rootOf (s : FileState) : Option FatDirectory := s.volume.map FatPrivate.rootDirectory

/-- the header and the root directory of the mounted volume -/
def volumeOf (s : FileState) : Option (FatHeader × FatDirectory) :=
  s.volume.map fun p => (p.header, p.rootDirectory)

theorem rootOf_same {s s' : FileState} (h : volumeOf s' = volumeOf s) : rootOf s' = rootOf s := by
  have hroot : ∀ t : FileState, rootOf t = (volumeOf t).map Prod.snd := by
    intro t
    unfold rootOf volumeOf
    rw [Option.map_map]
    rfl
  rw [hroot, hroot, h]

theorem onVolume_volume {α : Type} {x : Prog FatState α} (hx : Keeps SameVolume x)
    {s s' : FileState} {a : α} (h : onVolume x s = .ok (a, s')) : volumeOf s' = volumeOf s := by
  unfold onVolume at h
  cases hv : s.volume with
  | none =>
    rw [hv] at h
    cases h
  | some p =>
    rw [hv] at h
    dsimp only at h
    cases hrun : x ⟨s.machine, p⟩ with
    | error e =>
      rw [hrun] at h
      cases h
    | ok r =>
      rw [hrun] at h
      cases h
      obtain ⟨h1, h2⟩ := hx _ _ _ hrun
      unfold volumeOf
      rw [hv]
      exact congrArg some (Prod.ext h1 h2)

theorem onVolume_root {α : Type} {x : Prog FatState α} (hx : Keeps SameVolume x) {s s' : FileState}
    {a : α} (h : onVolume x s = .ok (a, s')) : rootOf s' = rootOf s :=
  rootOf_same (onVolume_volume hx h)

theorem onVolume_machine {α : Type} {x : Prog FatState α} (hx : Keeps SameMachine x)
    {s s' : FileState} {a : α} (h : onVolume x s = .ok (a, s')) : s'.machine = s.machine := by
  unfold onVolume at h
  cases hv : s.volume with
  | none =>
    rw [hv] at h
    cases h
  | some p =>
    rw [hv] at h
    dsimp only at h
    cases hrun : x ⟨s.machine, p⟩ with
    | error e =>
      rw [hrun] at h
      cases h
    | ok r =>
      rw [hrun] at h
      cases h
      exact hx _ _ _ hrun

/-- a read leaves the memory, the table and the root directory as they are -/
theorem fread_still {disk : Disk} {size nmemb : Nat} {fd : Int} {s s' : FileState}
    {r : Int × List (List UInt8)} (h : fread disk size nmemb fd s = .ok (r, s')) :
    s'.machine = s.machine ∧ s'.files = s.files ∧ rootOf s' = rootOf s := by
  unfold fread at h
  split at h
  · obtain ⟨-, rfl⟩ := pure_eq_ok h
    exact ⟨rfl, rfl, rfl⟩
  · rw [bind_ok (get_run s)] at h
    cases hd : fileGetDescriptor s fd with
    | none =>
      rw [hd] at h
      obtain ⟨-, rfl⟩ := pure_eq_ok h
      exact ⟨rfl, rfl, rfl⟩
    | some desc =>
      rw [hd] at h
      exact ⟨onVolume_machine (sameMachine_quiet.fat16Read disk _ _ _) h, onVolume_files h,
        onVolume_root (sameVolume_quiet.fat16Read disk _ _ _) h⟩

theorem fstat_still {fd : Int} {stat : FileStat} {s s' : FileState} {r : Int × FileStat}
    (h : fstat fd stat s = .ok (r, s')) : s' = s := by
  unfold fstat at h
  rw [bind_ok (get_run s)] at h
  cases hd : fileGetDescriptor s fd with
  | none =>
    rw [hd] at h
    exact (pure_eq_ok h).2.symm
  | some desc =>
    rw [hd] at h
    dsimp only at h
    cases hs : fat16Stat desc.priv stat with
    | error e =>
      rw [hs] at h
      cases h
    | ok q =>
      rw [hs] at h
      cases h
      rfl

theorem fopen_volume {disk : Disk} {filename mode : List UInt8} {fd : Int} {s s' : FileState}
    (h : fopen disk filename mode s = .ok (fd, s')) : volumeOf s' = volumeOf s := by
  have hmem : ∀ {α : Type} {x : Prog Machine α} {a : α} {s s' : FileState},
      onMemory x s = .ok (a, s') → volumeOf s' = volumeOf s := by
    intro α x a s s' h
    obtain ⟨m, -, rfl⟩ := part_eq_ok h
    rfl
  have hr : ∀ s : FileState, volumeOf s = volumeOf s := fun _ => rfl
  have ht : ∀ s t u : FileState, volumeOf t = volumeOf s → volumeOf u = volumeOf t →
      volumeOf u = volumeOf s := fun _ _ _ h h' => h'.trans h
  have hkeep : Keeps (fun s s' => volumeOf s' = volumeOf s) (fopen disk filename mode) := by
    refine Keeps.bind ht ?_ (fun res => Keeps.pure hr _)
    refine Keeps.bind ht (fun _ _ _ h => hmem h) (fun r => ?_)
    cases r with
    | none => exact Keeps.pure hr _
    | some root =>
      refine Keeps.ite (Keeps.pure hr _) (Keeps.ite (Keeps.pure hr _) ?_)
      refine Keeps.bind ht (Keeps.get hr) (fun s => Keeps.ite (Keeps.pure hr _)
        (Keeps.ite (Keeps.pure hr _) ?_))
      refine Keeps.bind ht (fun _ _ _ h => onVolume_volume (fat16Open_volume disk _ _) h) (fun r => ?_)
      cases r with
      | error e => exact Keeps.pure hr _
      | ok priv =>
        refine Keeps.bind ht (Keeps.bind ht (Keeps.get hr) (fun s => ?_)) (fun r => ?_)
        · cases newDescriptorLoop s.files maxFileDescriptors 0 with
          | none => exact Keeps.pure hr _
          | some i =>
            refine Keeps.bind ht (fun _ _ _ h => hmem h) (fun addr => ?_)
            exact Keeps.bind ht (Keeps.ite (Keeps.throw _) (Keeps.pure hr _))
              (fun _ => Keeps.pure hr _)
        · cases r with
          | none => exact Keeps.pure hr _
          | some q =>
            exact Keeps.bind ht (Keeps.modify (fun s => rfl)) (fun _ => Keeps.pure hr _)
  exact hkeep s fd s' h

theorem fopen_root {disk : Disk} {filename mode : List UInt8} {fd : Int} {s s' : FileState}
    (h : fopen disk filename mode s = .ok (fd, s')) : rootOf s' = rootOf s :=
  rootOf_same (fopen_volume h)

/-! ## how much a read stores -/

theorem copyLoop_length (buf : Nat → UInt8) (offset : Int) (fuel : Nat) : ∀ (i : Nat)
    (bs : List UInt8), copyLoop buf offset fuel i = .ok bs → bs.length = fuel := by
  induction fuel with
  | zero =>
    intro i bs h
    cases h
    rfl
  | succ fuel ih =>
    intro i bs h
    unfold copyLoop at h
    cases hb : bufLoad buf (offset + i) with
    | error e =>
      rw [hb] at h
      cases h
    | ok b =>
      cases hc : copyLoop buf offset fuel (i + 1) with
      | error e =>
        rw [hb, ok_bind, hc] at h
        cases h
      | ok rest =>
        rw [hb, ok_bind, hc] at h
        cases h
        rw [List.length_cons, ih _ _ hc]

/-- a read of the stream stores at most what it is asked for -/
theorem streamLoop_length (disk : Disk) (fuel : Nat) : ∀ (total : Int) (s s' : DiskStream)
    (r : Int × List UInt8), streamLoop disk fuel total s = .ok (r, s') →
      r.2.length ≤ total.toNat := by
  induction fuel with
  | zero =>
    intro total s s' r h
    cases h
  | succ fuel ih =>
    intro total s s' r h
    have hsize : (sectorSize : Int) = 512 := rfl
    rw [streamLoop_succ, bind_ok (get_run s)] at h
    dsimp only at h
    split at h
    · obtain ⟨rfl, -⟩ := pure_eq_ok h
      exact Nat.zero_le _
    · obtain ⟨bytes, s1, hcopy, h⟩ := bind_eq_ok h
      obtain ⟨u, s2, -, h⟩ := bind_eq_ok h
      have hlen : bytes.length
          = (if total > sectorSize then (sectorSize : Int) else total).toNat := by
        generalize (if total > sectorSize then (sectorSize : Int) else total) = n at hcopy ⊢
        cases hc : copyLoop (diskReadBlock disk (s.pos.tdiv sectorSize)).2 (s.pos.tmod sectorSize)
            n.toNat 0 with
        | error e =>
          rw [hc] at hcopy
          cases hcopy
        | ok bs =>
          rw [hc] at hcopy
          cases hcopy
          exact copyLoop_length _ _ _ _ _ hc
      split at h
      · rename_i hlt
        rw [if_pos hlt] at hlen
        obtain ⟨⟨res, rest⟩, s3, hrest, h⟩ := bind_eq_ok h
        obtain ⟨rfl, -⟩ := pure_eq_ok h
        have := ih _ _ _ _ hrest
        rw [List.length_append]
        omega
      · rename_i hle
        rw [if_neg hle] at hlen
        obtain ⟨rfl, -⟩ := pure_eq_ok h
        exact hlen.le

/-- and so does a read along a chain -/
theorem readLoop_length {getCluster : Int → Prog FatState Int} {sectorOf : Int → Int}
    {readStream : Int → Int → Prog FatState (Int × List UInt8)} {size : Int} (hsize : 0 ≤ size)
    (hread : ∀ pos total s r s', readStream pos total s = .ok (r, s') →
      r.2.length ≤ total.toNat) (fuel : Nat) : ∀ (offset total : Int) (s s' : FatState)
      (r : Int × List UInt8),
      readLoop getCluster sectorOf readStream size fuel offset total s = .ok (r, s') →
        r.2.length ≤ total.toNat := by
  induction fuel with
  | zero =>
    intro offset total s s' r h
    cases h
  | succ fuel ih =>
    intro offset total s s' r h
    unfold readLoop at h
    obtain ⟨c, s1, -, h⟩ := bind_eq_ok h
    split at h
    · obtain ⟨rfl, -⟩ := pure_eq_ok h
      exact Nat.zero_le _
    · split at h
      · cases h
      · dsimp only at h
        have hle : (if total > size then size else total) ≤ total := by
          split <;> omega
        have h0 : 0 ≤ (if total > size then size else total) ∨
            (if total > size then size else total) = total := by
          split
          · exact Or.inl hsize
          · exact Or.inr rfl
        generalize (if total > size then size else total) = n at h hle h0
        obtain ⟨⟨res, bytes⟩, s2, hr, h⟩ := bind_eq_ok h
        have hlen := hread _ _ _ _ _ hr
        dsimp only at hlen h
        split at h
        · obtain ⟨rfl, -⟩ := pure_eq_ok h
          show bytes.length ≤ _
          omega
        · split at h
          · obtain ⟨⟨res', rest⟩, s3, hrest, h⟩ := bind_eq_ok h
            obtain ⟨rfl, -⟩ := pure_eq_ok h
            have := ih _ _ _ _ _ hrest
            dsimp only at this ⊢
            rw [List.length_append]
            omega
          · obtain ⟨rfl, -⟩ := pure_eq_ok h
            show bytes.length ≤ _
            omega

theorem fat16ReadInternal_length {disk : Disk} {c offset total : Int} {s s' : FatState}
    {r : Int × List UInt8} (h : fat16ReadInternal disk c offset total s = .ok (r, s')) :
    r.2.length ≤ total.toNat := by
  unfold fat16ReadInternal at h
  rw [bind_ok (get_run s)] at h
  refine readLoop_length ?_ ?_ _ _ _ _ _ _ h
  · unfold sizeOfClusterBytes
    positivity
  · intro pos n t r t' hr
    obtain ⟨u, hr, -⟩ := part_eq_ok hr
    rw [readAt_run] at hr
    exact streamLoop_length _ _ _ _ _ _ hr

/-- one item that is read -/
theorem fread_item {disk : Disk} {size : Nat} {fd : Int} {s s' : FileState}
    {r : Int × List (List UInt8)} (h : fread disk size 1 fd s = .ok (r, s')) :
    r.2 = [] ∨ ∃ item, r.2 = [item] ∧ item.length ≤ size := by
  unfold fread at h
  split at h
  · obtain ⟨rfl, -⟩ := pure_eq_ok h
    exact Or.inl rfl
  · rw [bind_ok (get_run s)] at h
    cases hd : fileGetDescriptor s fd with
    | none =>
      rw [hd] at h
      obtain ⟨rfl, -⟩ := pure_eq_ok h
      exact Or.inl rfl
    | some desc =>
      rw [hd] at h
      obtain ⟨t, t', hrun⟩ : ∃ t t', fat16Read disk desc.priv size 1 t = .ok (r, t') := by
        dsimp only at h
        unfold onVolume at h
        cases hv : s.volume with
        | none =>
          rw [hv] at h
          cases h
        | some p =>
          rw [hv] at h
          dsimp only at h
          cases hx : fat16Read disk desc.priv size 1 ⟨s.machine, p⟩ with
          | error e =>
            rw [hx] at h
            cases h
          | ok q =>
            rw [hx] at h
            cases h
            exact ⟨_, q.2, hx⟩
      have hcint : (cint size).toNat ≤ size := by
        unfold cint
        rw [Int.bmod_def]
        split <;> omega
      unfold fat16Read at hrun
      obtain ⟨item, t1, -, hrun⟩ := bind_eq_ok hrun
      obtain ⟨⟨res, items⟩, t2, hloop, hrun⟩ := bind_eq_ok hrun
      have hr : r.2 = items := by
        dsimp only at hrun
        split at hrun
        · obtain ⟨rfl, -⟩ := pure_eq_ok hrun
          rfl
        · obtain ⟨rfl, -⟩ := pure_eq_ok hrun
          rfl
      unfold readItemsLoop at hloop
      obtain ⟨c, t3, -, hloop⟩ := bind_eq_ok hloop
      obtain ⟨⟨res', bytes⟩, t4, hread, hloop⟩ := bind_eq_ok hloop
      have hlen := fat16ReadInternal_length hread
      dsimp only at hlen hloop
      refine Or.inr ⟨bytes, ?_, by omega⟩
      rw [hr]
      split at hloop
      · obtain ⟨e, -⟩ := pure_eq_ok hloop
        exact (congrArg Prod.snd e).symm
      · obtain ⟨q, t5, hnil, hloop⟩ := bind_eq_ok hloop
        obtain ⟨e, -⟩ := pure_eq_ok hloop
        obtain ⟨rfl, -⟩ := pure_eq_ok hnil
        exact (congrArg Prod.snd e).symm

/-! ## the size of an open file -/

theorem copyItemLoop_get (item : FatDirectoryItem) (fuel : Nat) : ∀ (i : Nat) (bytes : List UInt8),
    copyItemLoop item fuel i = .ok bytes →
      ∀ j < fuel, item.buffer.get (item.offset + (i + j)) = .ok (bytes.getD j 0) := by
  induction fuel with
  | zero =>
    intro i bytes h j hj
    omega
  | succ fuel ih =>
    intro i bytes h j hj
    unfold copyItemLoop at h
    cases hc : item.buffer.get (item.offset + i) with
    | error e =>
      rw [hc] at h
      cases h
    | ok c =>
      cases hrest : copyItemLoop item fuel (i + 1) with
      | error e =>
        rw [hc, ok_bind, hrest] at h
        cases h
      | ok rest =>
        rw [hc, ok_bind, hrest] at h
        cases h
        cases j with
        | zero => exact hc
        | succ j =>
          have := ih (i + 1) rest hrest j (by omega)
          rw [show i + (j + 1) = i + 1 + j by omega]
          exact this

/-- a copy has the bytes of its record -/
theorem Cloned.get {rec copy : FatDirectoryItem} (h : Cloned rec copy) {j : Nat} (hj : j < 32) :
    copy.buffer.get (copy.offset + j) = rec.buffer.get (rec.offset + j) := by
  obtain ⟨bytes, hcopy, rfl⟩ := h
  have hget := copyItemLoop_get rec 32 0 bytes hcopy j hj
  rw [Nat.zero_add] at hget
  rw [hget, Nat.zero_add]
  exact if_pos hj

theorem Cloned.get16 {rec copy : FatDirectoryItem} (h : Cloned rec copy) {j : Nat}
    (hj : j + 1 < 32) : copy.buffer.get16 (copy.offset + j) = rec.buffer.get16 (rec.offset + j) := by
  unfold Buffer.get16
  rw [Nat.add_assoc, Nat.add_assoc, h.get (by omega), h.get hj]

theorem Cloned.filesize {rec copy : FatDirectoryItem} (h : Cloned rec copy) :
    copy.filesize = rec.filesize := by
  unfold FatDirectoryItem.filesize Buffer.get32
  rw [Nat.add_assoc, Nat.add_assoc, h.get16 (by decide), h.get16 (by decide)]

theorem Cloned.firstCluster {rec copy : FatDirectoryItem} (h : Cloned rec copy) :
    fat16GetFirstCluster copy = fat16GetFirstCluster rec := by
  unfold fat16GetFirstCluster FatDirectoryItem.high16BitsFirstCluster
    FatDirectoryItem.low16BitsFirstCluster
  rw [h.get16 (by decide), h.get16 (by decide)]

/-- the size that `fstat` reports for the file `name` of the root directory -/
theorem fstat_size {fd : Int} {stat : FileStat} {s s' : FileState} {r : Int × FileStat}
    {root : FatDirectory} {name : List UInt8} {desc : FileDescriptor}
    (hget : fileGetDescriptor s fd = some desc) (hfile : OpenFile root name desc.priv)
    (h : fstat fd stat s = .ok (r, s')) : ∃ k, LastNamed root.buffer name 0 root.total.toNat k ∧
      (recordAt root.buffer k).filesize = .ok r.2.filesize ∧ r.1 = 0 := by
  obtain ⟨k, a, copy, hk, hcopy, hptr⟩ := hfile.item
  refine ⟨k, hk, ?_⟩
  unfold fstat at h
  rw [bind_ok (get_run s), hget] at h
  dsimp only at h
  unfold fat16Stat at h
  rw [hfile.type, if_neg (not_not_intro rfl), hptr] at h
  rw [← hcopy.filesize]
  cases hf : copy.filesize with
  | error e =>
    rw [show FatPtr.record (.item a copy) = .ok copy from rfl, ok_bind, hf] at h
    cases h
  | ok n =>
    rw [show FatPtr.record (.item a copy) = .ok copy from rfl, ok_bind, hf, ok_bind] at h
    cases ha : copy.attributes with
    | error e =>
      rw [ha] at h
      cases h
    | ok b =>
      rw [ha] at h
      cases h
      exact ⟨rfl, rfl⟩

end LameOS
