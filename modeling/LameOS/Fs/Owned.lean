import LameOS.Fs.ParsedPath
import LameOS.Fs.Terminates

/-!
# What the file system allocates

For every function, the allocations that it makes and that its result points to.

* `Quiet`                   relations that reads, seeks and cluster walks keep: the machine is the same,
                          the volume is the same;
* `Lookup`                  what a lookup leaves: the item it returns, and what it loses;
* `fat16Open_owns`          a descriptor of the driver;
* `SameVolume`              the driver never changes the header and the root directory.
-/

set_option linter.unusedVariables false

namespace LameOS
open Lib Lib.Exec

/-! ## programs that only move the streams -/

/-- a relation of states that does not see the streams of the volume -/
structure Quiet (R : FatState → FatState → Prop) : Prop where
  refl : ∀ s, R s s
  trans : ∀ s t u, R s t → R t u → R s u
  cluster : ∀ s t, R s { s with fatPrivate := { s.fatPrivate with clusterReadStream := t } }
  fat : ∀ s t, R s { s with fatPrivate := { s.fatPrivate with fatReadStream := t } }
  directory : ∀ s t, R s { s with fatPrivate := { s.fatPrivate with directoryStream := t } }

def SameMachine (s s' : FatState) : Prop := s'.machine = s.machine

theorem sameMachine_quiet : Quiet SameMachine where
  refl _ := rfl
  trans _ _ _ h h' := Eq.trans h' h
  cluster _ _ := rfl
  fat _ _ := rfl
  directory _ _ := rfl

/-- the header and the root directory of the volume -/
def SameVolume (s s' : FatState) : Prop :=
  s'.fatPrivate.header = s.fatPrivate.header ∧
    s'.fatPrivate.rootDirectory = s.fatPrivate.rootDirectory

theorem sameVolume_quiet : Quiet SameVolume where
  refl _ := ⟨rfl, rfl⟩
  trans _ _ _ h h' := ⟨h'.1.trans h.1, h'.2.trans h.2⟩
  cluster _ _ := ⟨rfl, rfl⟩
  fat _ _ := ⟨rfl, rfl⟩
  directory _ _ := ⟨rfl, rfl⟩

namespace Quiet
variable {α β : Type} {R : FatState → FatState → Prop}

theorem pure (hR : Quiet R) (a : α) : Keeps R (pure a : Prog FatState α) := Keeps.pure hR.refl a

theorem bind (hR : Quiet R) {x : Prog FatState α} {f : α → Prog FatState β} (hx : Keeps R x)
    (hf : ∀ a, Keeps R (f a)) : Keeps R (x >>= f) := Keeps.bind hR.trans hx hf

theorem get_bind (hR : Quiet R) {f : FatState → Prog FatState β} (hf : ∀ s, Keeps R (f s)) :
    Keeps R (get >>= f) := hR.bind (Keeps.get hR.refl) hf

theorem lift (hR : Quiet R) (x : Except Fault α) : Keeps R (liftM x : Prog FatState α) := by
  intro s a s' h
  cases x with
  | error e => cases h
  | ok b =>
    cases h
    exact hR.refl s

theorem onFatReadStream (hR : Quiet R) (x : Prog DiskStream α) : Keeps R (onFatReadStream x) := by
  intro s a s' h
  obtain ⟨t, -, rfl⟩ := part_eq_ok h
  exact hR.fat s t

theorem onClusterReadStream (hR : Quiet R) (x : Prog DiskStream α) :
    Keeps R (onClusterReadStream x) := by
  intro s a s' h
  obtain ⟨t, -, rfl⟩ := part_eq_ok h
  exact hR.cluster s t

theorem onDirectoryStream (hR : Quiet R) (x : Prog DiskStream α) :
    Keeps R (onDirectoryStream x) := by
  intro s a s' h
  obtain ⟨t, -, rfl⟩ := part_eq_ok h
  exact hR.directory s t

theorem fat16GetFatEntry (hR : Quiet R) (disk : Disk) (cluster : Int) :
    Keeps R (fat16GetFatEntry disk cluster) := by
  refine hR.get_bind (fun s => ?_)
  refine hR.bind (hR.onFatReadStream _) (fun res => Keeps.ite (hR.pure _) ?_)
  refine hR.bind (hR.onFatReadStream _) (fun r => ?_)
  exact Keeps.ite (hR.pure _) (hR.pure _)

theorem clusterLoop (hR : Quiet R) {getFatEntry : Int → Prog FatState Int}
    (h : ∀ c, Keeps R (getFatEntry c)) (fuel : Nat) :
    ∀ c, Keeps R (clusterLoop getFatEntry fuel c) := by
  induction fuel with
  | zero => exact fun c => hR.pure c
  | succ fuel ih =>
    intro c
    refine hR.bind (h c) (fun entry => ?_)
    refine Keeps.ite (hR.pure _) (Keeps.ite (hR.pure _) (Keeps.ite (hR.pure _) ?_))
    exact Keeps.ite (hR.pure _) (ih entry)

theorem fat16GetClusterForOffset (hR : Quiet R) (disk : Disk) (startingCluster offset : Int) :
    Keeps R (fat16GetClusterForOffset disk startingCluster offset) := by
  refine hR.get_bind (fun s => ?_)
  unfold clusterForOffset
  exact Keeps.ite (Keeps.throw _) (hR.clusterLoop (hR.fat16GetFatEntry disk) _ _)

theorem readLoop (hR : Quiet R) {getCluster : Int → Prog FatState Int} {sectorOf : Int → Int}
    {readStream : Int → Int → Prog FatState (Int × List UInt8)} (hc : ∀ o, Keeps R (getCluster o))
    (hr : ∀ pos total, Keeps R (readStream pos total)) (size : Int) (fuel : Nat) :
    ∀ offset total, Keeps R (readLoop getCluster sectorOf readStream size fuel offset total) := by
  induction fuel with
  | zero => exact fun _ _ => Keeps.throw _
  | succ fuel ih =>
    intro offset total
    refine hR.bind (hc offset) (fun c => ?_)
    refine Keeps.ite (hR.pure _) (Keeps.ite (Keeps.throw _) ?_)
    refine hR.bind (hr _ _) (fun r => Keeps.ite (hR.pure _) (Keeps.ite ?_ (hR.pure _)))
    exact hR.bind (ih _ _) (fun r => hR.pure _)

theorem fat16ReadInternal (hR : Quiet R) (disk : Disk) (startingCluster offset total : Int) :
    Keeps R (fat16ReadInternal disk startingCluster offset total) := by
  refine hR.get_bind (fun s => ?_)
  exact hR.readLoop (hR.fat16GetClusterForOffset disk startingCluster)
    (fun pos total => hR.onClusterReadStream _) _ _ _ _

theorem readItemsLoop (hR : Quiet R) (disk : Disk) (item : FatDirectoryItem) (size fuel : Nat) :
    ∀ offset, Keeps R (readItemsLoop disk item size fuel offset) := by
  induction fuel with
  | zero => exact fun _ => hR.pure _
  | succ fuel ih =>
    intro offset
    refine hR.bind (hR.lift _) (fun cluster => ?_)
    refine hR.bind (hR.fat16ReadInternal disk _ _ _) (fun r => Keeps.ite (hR.pure _) ?_)
    exact hR.bind (ih _) (fun r => hR.pure _)

theorem fat16Read (hR : Quiet R) (disk : Disk) (descriptor : FatFileDescriptor) (size nmemb : Nat) :
    Keeps R (fat16Read disk descriptor size nmemb) := by
  refine hR.bind (hR.lift _) (fun item => ?_)
  refine hR.bind (hR.readItemsLoop disk item size nmemb _) (fun r => ?_)
  exact Keeps.ite (hR.pure _) (hR.pure _)

theorem fat16GetTotalItems (hR : Quiet R) (disk : Disk) (sector : Int) :
    Keeps R (fat16GetTotalItemsForDirectory disk sector) := hR.onDirectoryStream _

end Quiet

/-- a program that leaves the machine as it is -/
theorem keeps_owns {α : Type} {x : Prog FatState α} (h : Keeps SameMachine x) {O : List Run}
    (s : FatState) : Owns FatState.machine O x s (fun a s' N => x s = .ok (a, s') ∧ N = O) :=
  Owns.still (h s)

/-! ## the count of records -/

/-- one record: the count ends, or goes on behind it -/
theorem totalItemsLoop_next {disk : Disk} {s s1 s' : DiskStream} {bs : List UInt8} {i t : Int}
    {fuel : Nat} (hread : diskstreamerRead disk fatDirectoryItemSize s = .ok ((0, bs), s1))
    (hrun : totalItemsLoop disk (fuel + 1) i s = .ok (t, s')) :
    t = i ∨ totalItemsLoop disk fuel i s1 = .ok (t, s') ∨
      totalItemsLoop disk fuel (i + 1) s1 = .ok (t, s') := by
  unfold totalItemsLoop at hrun
  rw [bind_ok hread] at hrun
  dsimp only at hrun
  rw [if_neg (not_not_intro rfl)] at hrun
  split at hrun
  · exact Or.inl (pure_eq_ok hrun).1.symm
  · split at hrun
    · exact Or.inr (Or.inl hrun)
    · exact Or.inr (Or.inr hrun)

/-- no record is counted at a sector before the start of the disk -/
theorem totalItemsLoop_sector_eq {disk : Disk} {s s' : DiskStream} {i t : Int} {fuel : Nat}
    (h : s.pos.tmod sectorSize = 0) (hneg : s.pos < 0) (hlow : -2147483648 ≤ s.pos)
    (hrun : totalItemsLoop disk (fuel + 2) i s = .ok (t, s')) : t = i := by
  obtain ⟨bs, hread⟩ := record_read_sector disk s h
  have hbelow : ∀ (j : Int) (s2 : DiskStream), s2.pos = cint (s.pos + 32) →
      totalItemsLoop disk (fuel + 1) j s2 ≠ .ok (t, s') := by
    intro j s2 hs2 hok
    unfold totalItemsLoop at hok
    rw [bind_error (record_read_below disk s2 (by
      rw [hs2]
      exact second_record_below h hneg hlow))] at hok
    cases hok
  rcases totalItemsLoop_next hread hrun with e | h1 | h1
  · exact e
  · exact absurd h1 (hbelow i _ rfl)
  · exact absurd h1 (hbelow (i + 1) _ rfl)

/-- the count from a position of the disk on: the records up to 2 GiB at most -/
theorem totalItemsLoop_le (disk : Disk) (n : Nat) : ∀ (s : DiskStream) (pos fuel : Nat) (i t : Int)
    (s' : DiskStream), s.pos = pos → pos < 2147483648 → pos % 32 = 0 → 2147483648 ≤ pos + n * 32 →
      n + 2 ≤ fuel → totalItemsLoop disk fuel i s = .ok (t, s') → i ≤ t ∧ t ≤ i + n := by
  induction n with
  | zero =>
    intro s pos fuel i t s' hs h h32 hn hfuel hrun
    omega
  | succ n ih =>
    intro s pos fuel i t s' hs h h32 hn hfuel hrun
    obtain ⟨fuel, rfl⟩ := Nat.exists_eq_add_of_le' (by omega : 3 ≤ fuel)
    have hread := record_read disk s hs h h32
    have hnext : ∀ j, totalItemsLoop disk (fuel + 2) j { s with pos := cint (pos + 32 : Nat) }
        = .ok (t, s') → j ≤ t ∧ t ≤ j + n := by
      intro j hj
      rcases Nat.lt_or_ge (pos + 32) 2147483648 with hlt | hge
      · have e : cint (pos + 32 : Nat) = (pos + 32 : Nat) := cint_nat hlt
        have h32' : (pos + 32) % 32 = 0 := by omega
        rw [e] at hj
        exact ih { s with pos := (pos + 32 : Nat) } (pos + 32) (fuel + 2) j t s' rfl hlt h32'
          (by omega) (by omega) hj
      · -- the position wraps to the lowest one
        have e : cint (pos + 32 : Nat) = -2147483648 := by
          rw [show pos + 32 = 2147483648 by omega]
          rfl
        rw [e] at hj
        have := totalItemsLoop_sector_eq rfl (by norm_num) (le_refl _) hj
        omega
    rcases totalItemsLoop_next hread hrun with e | h1 | h1
    · omega
    · have := hnext _ h1
      omega
    · have := hnext _ h1
      omega

theorem totalItems_le {disk : Disk} {sector : Int} {s s' : FatState} {t : Int}
    (hrun : fat16GetTotalItemsForDirectory disk sector s = .ok (t, s')) :
    0 ≤ t ∧ t ≤ 67108864 := by
  unfold fat16GetTotalItemsForDirectory onDirectoryStream at hrun
  obtain ⟨u, hrun, -⟩ := part_eq_ok hrun
  have hrun' : totalItemsLoop disk maxItems 0
      { s.fatPrivate.directoryStream with pos := cint (sector * sectorSize) } = .ok (t, u) := hrun
  have hdvd : cint (sector * sectorSize) % 512 = 0 := by
    unfold cint sectorSize
    rw [Int.bmod_def]
    split <;> omega
  have hr := cint_range (sector * sectorSize)
  rcases Int.lt_or_le (cint (sector * sectorSize)) 0 with hneg | hpos
  · have h0 : (cint (sector * sectorSize)).tmod sectorSize = 0 :=
      Int.tmod_eq_zero_of_dvd (Int.dvd_of_emod_eq_zero hdvd)
    have hrun'' : totalItemsLoop disk (134217726 + 2) 0
      { s.fatPrivate.directoryStream with pos := cint (sector * sectorSize) } = .ok (t, u) := hrun'
    have := totalItemsLoop_sector_eq h0 hneg hr.1 hrun''
    omega
  · obtain ⟨n, hn⟩ := Int.eq_ofNat_of_zero_le hpos
    have := totalItemsLoop_le disk 67108864 _ n maxItems 0 t u hn (by omega) (by omega) (by omega)
      (by decide) hrun'
    omega

/-! ## directories -/

section
variable {α : Type} {O : List Run}

theorem onHeap_owns {x : Prog Machine α} {s : FatState} {Q : α → Machine → List Run → Prop}
    (hx : Owns itself O x s.machine Q) : Owns FatState.machine O (onHeap x) s
      (fun a s' N => Q a s'.machine N ∧ s'.fatPrivate = s.fatPrivate) := by
  unfold onHeap
  refine (Owns.part hx rfl (fun _ => rfl)).mono (fun a s' N h => ?_)
  obtain ⟨m', hQ, rfl⟩ := h
  exact ⟨hQ, rfl⟩

/-- the release of a directory whose records are an allocation, or nothing -/
theorem fat16FreeDirectory_owns {d : FatDirectory} {b : Nat} (haddr : d.addr = blockAddr b)
    (s : FatState) (h : (∃ r, d.item = runAddr r ∧ O = [r, oneBlock b]) ∨
      (Idle s.machine d.item ∧ O = [oneBlock b])) :
    Owns FatState.machine O (fat16FreeDirectory d) s (fun _ _ N => N = []) := by
  unfold fat16FreeDirectory
  rw [if_neg (by rw [haddr]; exact blockAddr_ne)]
  refine Owns.bind (Owns.onlyIf (Q := fun _ _ N => N = [oneBlock b]) (fun hne => ?_) (fun h0 => ?_))
    (fun _ s1 N h1 => ?_)
  · rcases h with ⟨r, hr, rfl⟩ | ⟨hidle, rfl⟩
    · rw [hr]
      exact (onHeap_owns (kfree_owns s.machine)).mono (fun _ _ _ h => h.1)
    · exact (onHeap_owns (kfree_owns_idle hidle hne)).mono (fun _ _ _ h => h.1)
  · rcases h with ⟨r, hr, rfl⟩ | ⟨-, rfl⟩
    · exact absurd (hr ▸ runAddr_ne) h0
    · rfl
  · rw [h1, haddr]
    exact (onHeap_owns (kfree_owns (r := oneBlock b) s1.machine)).mono (fun _ _ _ h => h.1)

theorem directorySize_sized {t : Int} (h0 : 0 ≤ t) (h : t ≤ 67108864) :
    Sized (cuint (cint (t * fatDirectoryItemSize))) := by
  rw [cuint_cint]
  unfold Sized cuint fatDirectoryItemSize
  omega

/-- a directory load frees at most what it has allocated -/
theorem fat16LoadFatDirectory_owns (disk : Disk) (item : FatDirectoryItem) (s : FatState) :
    Owns FatState.machine [] (fat16LoadFatDirectory disk item) s (fun _ _ _ => True) := by
  unfold fat16LoadFatDirectory
  refine Owns.bind Owns.lift (fun attributes s1 N h1 => ?_)
  obtain ⟨-, rfl, rfl⟩ := h1
  refine Owns.ite (fun _ => Owns.pure trivial) (fun _ => ?_)
  refine Owns.bind (onHeap_owns (kzalloc_owns_block (by decide) (by decide) s1.machine))
    (fun addr s2 N h2 => ?_)
  refine Owns.ite (fun _ => Owns.pure trivial) (fun hne => ?_)
  obtain ⟨⟨b, rfl, rfl, -⟩ | ⟨h0, -⟩, -⟩ := h2
  · refine Owns.bind Owns.lift (fun cluster s3 N h3 => ?_)
    obtain ⟨-, rfl, rfl⟩ := h3
    refine Owns.get_bind ?_
    refine Owns.bind (keeps_owns (sameMachine_quiet.fat16GetTotalItems disk _) s3) (fun t s4 N h4 => ?_)
    obtain ⟨hcount, rfl⟩ := h4
    obtain ⟨ht0, ht⟩ := totalItems_le hcount
    refine Owns.bind (onHeap_owns (kzalloc_owns (directorySize_sized ht0 ht) s4.machine))
      (fun dir s5 N h5 => ?_)
    -- the records: an allocation, `NULL`, or a pointer to nothing
    have hdir : (∃ r, dir = runAddr r ∧ N = [r, oneBlock b]) ∨
        (Idle s5.machine dir ∧ N = [oneBlock b]) := by
      rcases h5.1 with ⟨r, -, -, hr, hN⟩ | ⟨h0, hN⟩ | ⟨hidle, hN, -⟩
      · exact Or.inl ⟨r, hr, hN⟩
      · exact Or.inr ⟨Or.inl h0, hN⟩
      · exact Or.inr ⟨hidle, hN⟩
    refine Owns.ite (fun _ => ?_) (fun _ => ?_)
    · exact Owns.bind (fat16FreeDirectory_owns (b := b) rfl s5 hdir) (fun _ _ _ _ => Owns.pure trivial)
    · refine Owns.bind (keeps_owns (sameMachine_quiet.fat16ReadInternal disk _ _ _) s5)
        (fun r s6 N' h6 => ?_)
      obtain ⟨hread, rfl⟩ := h6
      have hm : s6.machine = s5.machine := sameMachine_quiet.fat16ReadInternal disk _ _ _ _ _ _ hread
      rw [← hm] at hdir
      refine Owns.bind (Owns.onlyIf (Q := fun _ _ _ => True) (fun _ => ?_) (fun _ => trivial))
        (fun _ _ _ _ => Owns.pure trivial)
      exact (fat16FreeDirectory_owns (b := b) rfl s6 hdir).mono (fun _ _ _ _ => trivial)
  · exact absurd h0 hne

end

/-! ## items -/

def itemPtrs (i : FatItem) : List Nat :=
  i.addr :: match i.ptr with
    | .null => []
    | .item a _ => [a]
    | .directory d => [d.addr]

/-- the bytes of record `rec` as `fat16CloneDirectoryItem` copies them -/
def Cloned (rec : FatDirectoryItem) (copy : FatDirectoryItem) : Prop :=
  ∃ bytes, copyItemLoop rec fatDirectoryItemSize 0 = .ok bytes ∧
    copy = ⟨.ofBytes fatDirectoryItemSize bytes, 0⟩

/-- an item for the record `rec`: always tagged as a file; it holds a copy of the record, or `NULL`
if the heap had no block for it -/
structure FileItem (rec : FatDirectoryItem) (m : Machine) (i : FatItem) : Prop where
  type : i.type = fatItemTypeFile
  ptr : (∃ a copy, Cloned rec copy ∧ i.ptr = .item a copy) ∨
    (i.ptr = .null ∧ freeBlocks m.heap.table = 0)

theorem fat16CloneDirectoryItem_owns (rec : FatDirectoryItem) (s : FatState) :
    Owns FatState.machine [] (fat16CloneDirectoryItem rec fatDirectoryItemSize) s (fun p s' N =>
      (∃ a copy, Cloned rec copy ∧ p = .item a copy ∧ Points [a] N) ∨
        (p = .null ∧ N = [] ∧ freeBlocks s'.machine.heap.table = 0)) := by
  unfold fat16CloneDirectoryItem
  rw [if_neg (lt_irrefl _)]
  refine Owns.bind (onHeap_owns (kzalloc_owns_block (by decide) (by decide) s.machine))
    (fun p s1 N h1 => ?_)
  obtain ⟨⟨b, rfl, rfl, -⟩ | ⟨rfl, rfl, hfull⟩, -⟩ := h1
  · rw [if_neg blockAddr_ne]
    refine Owns.bind Owns.lift (fun bytes s2 N h2 => ?_)
    obtain ⟨hcopy, rfl, rfl⟩ := h2
    exact Owns.pure (Or.inl ⟨blockAddr b, _, ⟨bytes, hcopy, rfl⟩, rfl, Points.single (oneBlock b)⟩)
  · rw [if_pos rfl]
    exact Owns.pure (Or.inr ⟨rfl, rfl, hfull⟩)

/-- what is held for a record `rec` that was found: an item, or `NULL` from a heap without a free
block; `N` may hold more, which is lost -/
def Held (rec : FatDirectoryItem) (m : Machine) (r : Option FatItem) (N : List Run) : Prop :=
  (r = none ∧ freeBlocks m.heap.table = 0) ∨
    ∃ i K D, r = some i ∧ FileItem rec m i ∧ N.Perm (K ++ D) ∧ Points (itemPtrs i) D

theorem Held.more {rec : FatDirectoryItem} {m : Machine} {r : Option FatItem} {N : List Run}
    (h : Held rec m r N) (O : List Run) : Held rec m r (N ++ O) := by
  rcases h with h | ⟨i, K, D, hr, hi, hperm, hp⟩
  · exact Or.inl h
  · refine Or.inr ⟨i, K ++ O, D, hr, hi, ?_, hp⟩
    refine (hperm.append_right O).trans ?_
    rw [List.append_assoc, List.append_assoc]
    exact List.Perm.append_left K List.perm_append_comm

/-- **A new item is a file item for its record**, whatever the record is; what the load of a
subdirectory has allocated is lost. -/
theorem fat16NewFatItem_owns (disk : Disk) (rec : FatDirectoryItem) (s : FatState) :
    Owns FatState.machine [] (fat16NewFatItemForDirectoryItem disk rec) s
      (fun r s' N => Held rec s'.machine r N) := by
  unfold fat16NewFatItemForDirectoryItem
  refine Owns.bind (onHeap_owns (kzalloc_owns_block (by decide) (by decide) s.machine))
    (fun addr s1 N h1 => ?_)
  refine Owns.ite (fun h0 => ?_) (fun hne => ?_)
  · obtain ⟨⟨b, rfl, -, -⟩ | ⟨-, -, hfull⟩, -⟩ := h1
    · exact absurd h0 blockAddr_ne
    · exact Owns.pure (Or.inl ⟨rfl, hfull⟩)
  · obtain ⟨⟨b, rfl, rfl, -⟩ | ⟨h0, -⟩, -⟩ := h1
    · refine Owns.bind Owns.lift (fun attributes s2 N h2 => ?_)
      obtain ⟨-, rfl, rfl⟩ := h2
      -- the end is the same with and without a directory
      have hend : ∀ (K : List Run) (s3 : FatState) (t : FatPtr) (y : Nat),
          Owns FatState.machine (K ++ [oneBlock b]) (do
            let clone ← fat16CloneDirectoryItem rec fatDirectoryItemSize
            return some { ({ (⟨blockAddr b, t, y⟩ : FatItem) with type := fatItemTypeFile } : FatItem)
              with ptr := clone }) s3 (fun r s' N => Held rec s'.machine r N) := by
        intro K s3 t y
        refine Owns.bind ((fat16CloneDirectoryItem_owns rec s3).frame (K ++ [oneBlock b]))
          (fun clone s4 N h4 => ?_)
        obtain ⟨N', hN', rfl⟩ := h4
        rcases hN' with ⟨a, copy, hcopy, rfl, hp⟩ | ⟨rfl, rfl, hfull⟩
        · refine Owns.pure (Or.inr ⟨_, K, oneBlock b :: N', rfl, ⟨rfl, Or.inl ⟨a, copy, hcopy, rfl⟩⟩,
            ?_, (Points.single (oneBlock b)).append hp⟩)
          have h5 : (N' ++ (K ++ [oneBlock b])).Perm (K ++ [oneBlock b] ++ N') := List.perm_append_comm
          rw [List.append_assoc] at h5
          exact h5
        · exact Owns.pure (Or.inr ⟨_, K, [oneBlock b], rfl, ⟨rfl, Or.inr ⟨rfl, hfull⟩⟩,
            List.Perm.refl _, Points.single (oneBlock b)⟩)
      by_cases hdir : attributes &&& fatFileSubdirectory ≠ 0
      · rw [if_pos hdir]
        refine Owns.bind ((fat16LoadFatDirectory_owns disk rec s2).frame [oneBlock b])
          (fun d s3 N h3 => ?_)
        obtain ⟨K, -, rfl⟩ := h3
        exact hend K s3 _ _
      · rw [if_neg hdir]
        exact hend [] s2 _ _
    · exact absurd h0 hne

/-! ## lookups -/

/-- record `k` of a directory -/
def recordAt (buffer : Buffer) (k : Nat) : FatDirectoryItem := ⟨buffer, fatDirectoryItemSize * k⟩

/-- record `k` has the name that is looked for -/
def HasName (buffer : Buffer) (name : List UInt8) (k : Nat) : Prop :=
  ∃ tmp, fat16GetFullRelativeFilename (recordAt buffer k) = .ok tmp ∧
    istrncmp (cstr tmp) (cstr name) maxPath = 0

/-- `k` is the last record in `[i, n)` with the name -/
structure LastNamed (buffer : Buffer) (name : List UInt8) (i n k : Nat) : Prop where
  ge : i ≤ k
  lt : k < n
  named : HasName buffer name k
  last : ∀ j, k < j → j < n → ¬ HasName buffer name j

theorem findItemLoop_succ (disk : Disk) (buffer : Buffer) (name : List UInt8) (fuel i : Nat)
    (fItem : Option FatItem) : findItemLoop disk buffer name (fuel + 1) i fItem
      = (liftM (fat16GetFullRelativeFilename (recordAt buffer i)) >>= fun tmpFilename =>
        if istrncmp (cstr tmpFilename) (cstr name) maxPath = 0 then do
          let fItem ← fat16NewFatItemForDirectoryItem disk (recordAt buffer i)
          findItemLoop disk buffer name fuel (i + 1) fItem
        else findItemLoop disk buffer name fuel (i + 1) fItem) := rfl

/-- the loop ends with the last record of the name, or as it began -/
theorem findItemLoop_owns (disk : Disk) (buffer : Buffer) (name : List UInt8) (fuel : Nat) :
    ∀ (i : Nat) (fItem : Option FatItem) (s : FatState) (O : List Run),
      Owns FatState.machine O (findItemLoop disk buffer name fuel i fItem) s (fun r s' N =>
        (r = fItem ∧ s' = s ∧ N = O ∧ ∀ k, i ≤ k → k < i + fuel → ¬ HasName buffer name k) ∨
        ∃ k, LastNamed buffer name i (i + fuel) k ∧ Held (recordAt buffer k) s'.machine r N) := by
  induction fuel with
  | zero =>
    intro i fItem s O
    exact Owns.pure (Or.inl ⟨rfl, rfl, rfl, fun k h1 h2 => by omega⟩)
  | succ fuel ih =>
    intro i fItem s O
    rw [findItemLoop_succ]
    refine Owns.bind Owns.lift (fun tmp s1 N h1 => ?_)
    obtain ⟨htmp, rfl, rfl⟩ := h1
    refine Owns.ite (fun hcmp => ?_) (fun hcmp => ?_)
    · refine Owns.bind ((fat16NewFatItem_owns disk (recordAt buffer i) s1).frame N)
        (fun r s2 N2 h2 => ?_)
      obtain ⟨N', hheld, rfl⟩ := h2
      refine (ih (i + 1) r s2 (N' ++ N)).mono (fun r' s3 N3 h3 => Or.inr ?_)
      rcases h3 with ⟨rfl, rfl, rfl, hno⟩ | ⟨k, hk, hheld'⟩
      · refine ⟨i, ⟨le_refl i, by omega, ⟨tmp, htmp, hcmp⟩, fun j h1 h2 => ?_⟩, hheld.more N⟩
        exact hno j h1 (by omega)
      · exact ⟨k, ⟨by have := hk.ge; omega, by have := hk.lt; omega, hk.named,
          fun j h1 h2 => hk.last j h1 (by omega)⟩, hheld'⟩
    · have hno : ¬ HasName buffer name i := by
        intro h
        obtain ⟨tmp', htmp', hcmp'⟩ := h
        rw [htmp] at htmp'
        cases htmp'
        exact hcmp hcmp'
      refine (ih (i + 1) fItem s1 N).mono (fun r' s3 N3 h3 => ?_)
      rcases h3 with ⟨rfl, rfl, rfl, hall⟩ | ⟨k, hk, hheld⟩
      · refine Or.inl ⟨rfl, rfl, rfl, fun k h1 h2 => ?_⟩
        rcases Nat.eq_or_lt_of_le h1 with rfl | hlt
        · exact hno
        · exact hall k hlt (by omega)
      · exact Or.inr ⟨k, ⟨by have := hk.ge; omega, by have := hk.lt; omega, hk.named,
          fun j h1 h2 => hk.last j h1 (by omega)⟩, hheld⟩

/-- what a lookup of `name` in a directory leaves -/
def Lookup (d : FatDirectory) (name : List UInt8) (m : Machine) (r : Option FatItem)
    (N : List Run) : Prop :=
  (r = none ∧ N = [] ∧ ∀ k < d.total.toNat, ¬ HasName d.buffer name k) ∨
    ∃ k, LastNamed d.buffer name 0 d.total.toNat k ∧ Held (recordAt d.buffer k) m r N

/-- **A lookup holds the last record of the name.** -/
theorem fat16FindItem_owns (disk : Disk) (d : FatDirectory) (name : List UInt8) (s : FatState) :
    Owns FatState.machine [] (fat16FindItemInDirectory disk d name) s
      (fun r s' N => Lookup d name s'.machine r N) := by
  refine (findItemLoop_owns disk d.buffer name d.total.toNat 0 none s []).mono (fun r s' N h => ?_)
  rw [Nat.zero_add] at h
  rcases h with ⟨rfl, rfl, rfl, hno⟩ | h
  · exact Or.inl ⟨rfl, rfl, fun k hk => hno k (Nat.zero_le k) hk⟩
  · exact Or.inr h

/-- **A path of one part is looked up in the root directory; a longer one is never found**: the
item that is found for its first part is tagged as a file. -/
theorem fat16GetDirectoryEntry_owns (disk : Disk) (part : PathPart) (path : List PathPart)
    (s : FatState) : Owns FatState.machine [] (fat16GetDirectoryEntry disk (part :: path)) s
      (fun r s' N => (path ≠ [] → r = none) ∧
        (path = [] → Lookup s.fatPrivate.rootDirectory part.part s'.machine r N)) := by
  refine Owns.get_bind ?_
  refine Owns.bind (fat16FindItem_owns disk s.fatPrivate.rootDirectory part.part s)
    (fun r s1 N h => ?_)
  cases r with
  | none => exact Owns.pure ⟨fun _ => rfl, fun _ => h⟩
  | some item =>
    cases path with
    | nil => exact Owns.pure ⟨fun h => absurd rfl h, fun _ => h⟩
    | cons next path =>
      have htype : item.type ≠ fatItemTypeDirectory := by
        rcases h with ⟨h0, -⟩ | ⟨k, -, h0 | ⟨i, K, D, hi, hfile, -⟩⟩
        · cases h0
        · cases h0.1
        · cases hi
          rw [hfile.type]
          decide
      show Owns FatState.machine N (if item.type ≠ fatItemTypeDirectory then pure none else _) s1 _
      rw [if_pos htype]
      exact Owns.pure ⟨fun _ => rfl, fun h => by cases h⟩

/-! ## the driver -/

def fatDescriptorPtrs (d : FatFileDescriptor) : List Nat := d.addr :: itemPtrs d.item

/-- a descriptor of the driver for the file `name` of the root directory -/
structure Opened (root : FatDirectory) (name : List UInt8) (m : Machine) (d : FatFileDescriptor) :
    Prop where
  pos : d.pos = 0
  item : ∃ k, LastNamed root.buffer name 0 root.total.toNat k ∧
    FileItem (recordAt root.buffer k) m d.item

theorem fat16Open_owns (disk : Disk) (path : List PathPart) (mode : FileMode) (s : FatState) :
    Owns FatState.machine [] (fat16Open disk path mode) s (fun r s' N =>
      (∃ e, r = .error e ∧ e < 0) ∨
        ∃ d part K D, r = .ok d ∧ mode = .read ∧ path = [part] ∧
          Opened s.fatPrivate.rootDirectory part.part s'.machine d ∧
          N.Perm (K ++ D) ∧ Points (fatDescriptorPtrs d) D) := by
  unfold fat16Open
  refine Owns.ite (fun _ => Owns.pure (Or.inl ⟨_, rfl, by decide⟩)) (fun hmode => ?_)
  refine Owns.bind (onHeap_owns (kzalloc_owns_block (by decide) (by decide) s.machine))
    (fun addr s1 N h1 => ?_)
  refine Owns.ite (fun _ => Owns.pure (Or.inl ⟨_, rfl, by decide⟩)) (fun hne => ?_)
  obtain ⟨⟨b, rfl, rfl, -⟩ | ⟨h0, -⟩, hpriv⟩ := h1
  · cases path with
    | nil => exact Owns.bind (Q := fun _ _ _ => False) Owns.throw (fun _ _ _ h => h.elim)
    | cons part path =>
      refine Owns.bind ((fat16GetDirectoryEntry_owns disk part path s1).frame [oneBlock b])
        (fun r s2 N h2 => ?_)
      obtain ⟨N', ⟨hlong, hone⟩, rfl⟩ := h2
      cases r with
      | none => exact Owns.pure (Or.inl ⟨_, rfl, by decide⟩)
      | some item =>
        have hpath : path = [] := by
          by_contra hne'
          cases hlong hne'
        rw [hpriv] at hone
        rcases hone hpath with ⟨h0, -⟩ | ⟨k, hk, h0 | ⟨i, K, D, hi, hfile, hperm, hp⟩⟩
        · cases h0
        · cases h0.1
        · cases hi
          refine Owns.pure (Or.inr ⟨_, part, K, oneBlock b :: D, rfl, not_not.mp hmode,
            by rw [hpath], ⟨rfl, k, hk, hfile⟩, ?_, (Points.single (oneBlock b)).append hp⟩)
          refine (hperm.append_right [oneBlock b]).trans ?_
          rw [List.append_assoc]
          exact List.Perm.append_left K List.perm_append_comm
  · exact absurd h0 hne

/-! ## the volume stays the same -/

section
variable {α : Type} (disk : Disk)

theorem onHeap_volume (x : Prog Machine α) : Keeps SameVolume (onHeap x) := by
  intro s a s' h
  obtain ⟨m, -, rfl⟩ := part_eq_ok h
  exact ⟨rfl, rfl⟩

theorem fat16FreeDirectory_volume (d : FatDirectory) :
    Keeps SameVolume (fat16FreeDirectory d) := by
  refine Keeps.ite (sameVolume_quiet.pure _) ?_
  refine sameVolume_quiet.bind ?_ (fun _ => onHeap_volume _)
  exact Keeps.onlyIf sameVolume_quiet.refl (onHeap_volume _)

theorem fat16LoadFatDirectory_volume (item : FatDirectoryItem) :
    Keeps SameVolume (fat16LoadFatDirectory disk item) := by
  refine sameVolume_quiet.bind (sameVolume_quiet.lift _) (fun attributes => ?_)
  refine Keeps.ite (sameVolume_quiet.pure _) ?_
  refine sameVolume_quiet.bind (onHeap_volume _) (fun addr => ?_)
  refine Keeps.ite (sameVolume_quiet.pure _) ?_
  refine sameVolume_quiet.bind (sameVolume_quiet.lift _) (fun cluster => ?_)
  refine sameVolume_quiet.get_bind (fun s => ?_)
  refine sameVolume_quiet.bind (sameVolume_quiet.fat16GetTotalItems disk _) (fun t => ?_)
  refine sameVolume_quiet.bind (onHeap_volume _) (fun dir => ?_)
  refine Keeps.ite ?_ ?_
  · exact sameVolume_quiet.bind (fat16FreeDirectory_volume _) (fun _ => sameVolume_quiet.pure _)
  · refine sameVolume_quiet.bind (sameVolume_quiet.fat16ReadInternal disk _ _ _) (fun r => ?_)
    refine sameVolume_quiet.bind ?_ (fun _ => sameVolume_quiet.pure _)
    exact Keeps.onlyIf sameVolume_quiet.refl (fat16FreeDirectory_volume _)

theorem fat16CloneDirectoryItem_volume (item : FatDirectoryItem) (size : Nat) :
    Keeps SameVolume (fat16CloneDirectoryItem item size) := by
  refine Keeps.ite (sameVolume_quiet.pure _) ?_
  refine sameVolume_quiet.bind (onHeap_volume _) (fun a => Keeps.ite (sameVolume_quiet.pure _) ?_)
  exact sameVolume_quiet.bind (sameVolume_quiet.lift _) (fun _ => sameVolume_quiet.pure _)

theorem fat16NewFatItem_volume (item : FatDirectoryItem) :
    Keeps SameVolume (fat16NewFatItemForDirectoryItem disk item) := by
  refine sameVolume_quiet.bind (onHeap_volume _) (fun addr => ?_)
  refine Keeps.ite (sameVolume_quiet.pure _) ?_
  refine sameVolume_quiet.bind (sameVolume_quiet.lift _) (fun attributes => ?_)
  refine Keeps.ite ?_ ?_
  · refine sameVolume_quiet.bind (fat16LoadFatDirectory_volume disk item) (fun d => ?_)
    exact sameVolume_quiet.bind (fat16CloneDirectoryItem_volume item _)
      (fun _ => sameVolume_quiet.pure _)
  · exact sameVolume_quiet.bind (fat16CloneDirectoryItem_volume item _)
      (fun _ => sameVolume_quiet.pure _)

theorem findItemLoop_volume (buffer : Buffer) (name : List UInt8) (fuel : Nat) :
    ∀ i fItem, Keeps SameVolume (findItemLoop disk buffer name fuel i fItem) := by
  induction fuel with
  | zero => exact fun _ _ => sameVolume_quiet.pure _
  | succ fuel ih =>
    intro i fItem
    rw [findItemLoop_succ]
    refine sameVolume_quiet.bind (sameVolume_quiet.lift _) (fun tmp => Keeps.ite ?_ (ih _ _))
    exact sameVolume_quiet.bind (fat16NewFatItem_volume disk _) (fun r => ih _ r)

theorem fat16FatItemFree_volume (item : FatItem) : Keeps SameVolume (fat16FatItemFree item) := by
  unfold fat16FatItemFree
  split
  · split
    · exact onHeap_volume (kfree item.addr)
    · exact sameVolume_quiet.bind (fat16FreeDirectory_volume _) (fun _ => onHeap_volume _)
    · exact sameVolume_quiet.bind (Keeps.throw _) (fun _ => onHeap_volume _)
  · refine sameVolume_quiet.bind (Keeps.onlyIf sameVolume_quiet.refl ?_) (fun _ => onHeap_volume _)
    split <;> exact onHeap_volume _

theorem directoryEntryLoop_volume (path : List PathPart) :
    ∀ r, Keeps SameVolume (directoryEntryLoop disk path r) := by
  induction path with
  | nil => exact fun r => sameVolume_quiet.pure r
  | cons part path ih =>
    intro r
    cases r with
    | none => exact Keeps.throw _
    | some item =>
      refine Keeps.ite (sameVolume_quiet.pure _) ?_
      cases item.ptr with
      | null => exact Keeps.throw _
      | item a rec => exact Keeps.throw _
      | directory d =>
        refine sameVolume_quiet.bind (findItemLoop_volume disk _ _ _ _ _) (fun r => ?_)
        exact sameVolume_quiet.bind (fat16FatItemFree_volume item) (fun _ => ih r)

theorem fat16Open_volume (path : List PathPart) (mode : FileMode) :
    Keeps SameVolume (fat16Open disk path mode) := by
  refine Keeps.ite (sameVolume_quiet.pure _) ?_
  refine sameVolume_quiet.bind (onHeap_volume _) (fun addr => Keeps.ite (sameVolume_quiet.pure _) ?_)
  refine sameVolume_quiet.bind ?_ (fun r => ?_)
  · cases path with
    | nil => exact Keeps.throw _
    | cons part path =>
      refine sameVolume_quiet.get_bind (fun s => ?_)
      refine sameVolume_quiet.bind (findItemLoop_volume disk _ _ _ _ _) (fun r => ?_)
      cases r with
      | none => exact sameVolume_quiet.pure _
      | some item => exact directoryEntryLoop_volume disk path _
  · cases r with
    | none => exact sameVolume_quiet.pure _
    | some item => exact sameVolume_quiet.pure _

end

end LameOS
