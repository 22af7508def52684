import LameOS.Fs.File

/-!
# Reads and directory loads come to an end

`Hangs` are the two failures of a loop without an end and of a division by zero.

* `diskstreamerRead_spares`, `fat16GetTotalItems_spares`   the stream and the count of records
                          never hang: the stream runs off its sector buffer before it would;
* `readLoop_spares`       the read along a chain does not, if a cluster has a byte;
* `fat16Read_spares`, `fat16LoadFatDirectory_spares`   nor do reads and directory loads;
* `fat16Resolve_root`     the root directory of an accepted volume is that of its boot sector;
* `volume_terminates_iff` they hang exactly on volumes without a sector in a cluster.
-/

set_option linter.unusedVariables false

namespace LameOS
open Lib Lib.Exec

/-- a division by zero, or a loop without an end -/
def Hangs (e : Fault) : Prop := e = .divideByZero ∨ e = .endlessLoop

instance (e : Fault) : Decidable (Hangs e) := inferInstanceAs (Decidable (_ ∨ _))

theorem not_hangs {e : Fault} (h : e = .outOfBounds) : ¬ Hangs e := by
  rw [h]
  decide

/-! ## the heap -/

theorem store_error {t : HeapTable} {i : Int} {x : UInt8} {e : Fault}
    (h : t.store i x = .error e) : e = .outOfBounds := by
  unfold HeapTable.store at h
  split at h
  · cases h
  · cases h
    rfl

theorem load_error {t : HeapTable} {i : Int} {e : Fault} (h : t.load i = .error e) :
    e = .outOfBounds := by
  unfold HeapTable.load at h
  split at h
  · cases h
  · cases h
    rfl

theorem markTakenLoop_error (b : Int) (fuel : Nat) : ∀ (i : Int) (entry : UInt8) (t : HeapTable)
    (e : Fault), markTakenLoop b fuel i entry t = .error e → e = .outOfBounds := by
  induction fuel with
  | zero =>
    intro i entry t e h
    cases h
  | succ fuel ih =>
    intro i entry t e h
    unfold markTakenLoop at h
    cases hs : t.store i entry with
    | error e1 =>
      rw [hs] at h
      cases h
      exact store_error hs
    | ok t1 =>
      rw [hs] at h
      exact ih _ _ _ _ h

theorem markFreeLoop_error (fuel : Nat) : ∀ (i : Int) (t : HeapTable) (e : Fault),
    markFreeLoop fuel i t = .error e → e = .outOfBounds := by
  induction fuel with
  | zero =>
    intro i t e h
    cases h
  | succ fuel ih =>
    intro i t e h
    unfold markFreeLoop at h
    cases hl : t.load i with
    | error e1 =>
      rw [hl] at h
      cases h
      exact load_error hl
    | ok entry =>
      cases hs : t.store i entryFree with
      | error e1 =>
        rw [hl, ok_bind, hs] at h
        cases h
        exact store_error hs
      | ok t1 =>
        rw [hl, ok_bind, hs, ok_bind] at h
        split at h
        · cases h
        · exact ih _ _ _ h

theorem heapMalloc_error {h : Heap} {size : Nat} {e : Fault} (he : heapMalloc h size = .error e) :
    e = .outOfBounds := by
  unfold heapMalloc heapMallocBlocks at he
  dsimp only at he
  split at he
  · cases he
  · unfold heapMarkBlocksTaken at he
    dsimp only at he
    split at he
    all_goals
      cases hm : markTakenLoop _ _ _ _ h.table with
      | error e1 =>
        rw [hm] at he
        cases he
        exact markTakenLoop_error _ _ _ _ _ _ hm
      | ok t =>
        rw [hm] at he
        cases he

theorem heapFree_error {h : Heap} {ptr : Nat} {e : Fault} (he : heapFree h ptr = .error e) :
    e = .outOfBounds := by
  unfold heapFree heapMarkBlocksFree at he
  cases hm : markFreeLoop _ (heapAddressToBlock h ptr) h.table with
  | error e1 =>
    rw [hm] at he
    cases he
    exact markFreeLoop_error _ _ _ _ hm
  | ok t =>
    rw [hm] at he
    cases he

theorem kzalloc_spares (size : Nat) : Spares Hangs (fun _ => True) (kzalloc size) := by
  have hk : Spares Hangs (fun _ => True) (kmalloc size) := by
    intro m hm
    refine ⟨fun e h => ?_, fun _ _ _ => trivial⟩
    unfold kmalloc at h
    cases hr : heapMalloc m.heap size with
    | error e1 =>
      rw [hr] at h
      cases h
      exact not_hangs (heapMalloc_error hr)
    | ok r =>
      rw [hr] at h
      cases h
  refine hk.bind (fun ptr => Spares.ite (fun _ => Spares.pure _) (fun _ => ?_))
  exact (Spares.modify (fun _ _ => trivial)).bind (fun _ => Spares.pure _)

theorem kfree_spares (ptr : Nat) : Spares Hangs (fun _ => True) (kfree ptr) := by
  intro m hm
  refine ⟨fun e h => ?_, fun _ _ _ => trivial⟩
  unfold kfree at h
  cases hr : heapFree m.heap ptr with
  | error e1 =>
    rw [hr] at h
    cases h
    exact not_hangs (heapFree_error hr)
  | ok r =>
    rw [hr] at h
    cases h

/-! ## streams -/

theorem copyLoop_error (buf : Nat → UInt8) (offset : Int) (fuel : Nat) : ∀ (i : Nat) (e : Fault),
    copyLoop buf offset fuel i = .error e → e = .outOfBounds := by
  induction fuel with
  | zero =>
    intro i e h
    cases h
  | succ fuel ih =>
    intro i e h
    unfold copyLoop at h
    cases hb : bufLoad buf (offset + i) with
    | error e1 =>
      rw [hb] at h
      cases h
      unfold bufLoad at hb
      split at hb
      · cases hb
      · cases hb
        rfl
    | ok b =>
      cases hc : copyLoop buf offset fuel (i + 1) with
      | error e1 =>
        rw [hb, ok_bind, hc] at h
        cases h
        exact ih _ _ hc
      | ok bs =>
        rw [hb, ok_bind, hc] at h
        cases h

theorem streamLoop_spares (disk : Disk) (fuel : Nat) : ∀ total : Int, total.toNat < fuel →
    Spares Hangs (fun _ => True) (streamLoop disk fuel total) := by
  induction fuel with
  | zero =>
    intro total h
    omega
  | succ fuel ih =>
    intro total h
    rw [streamLoop_succ]
    refine Spares.bind Spares.get (fun stream => Spares.ite (fun _ => Spares.pure _) (fun _ => ?_))
    refine Spares.bind (Spares.lift (fun e he => not_hangs (copyLoop_error _ _ _ _ _ he)))
      (fun bytes => ?_)
    refine Spares.bind (Spares.modify (fun _ _ => trivial)) (fun _ => ?_)
    refine Spares.ite (fun hlt => ?_) (fun _ => Spares.pure _)
    have hsize : (sectorSize : Int) = 512 := rfl
    exact Spares.bind (ih _ (by omega)) (fun r => Spares.pure _)

theorem diskstreamerRead_spares (disk : Disk) (total : Int) :
    Spares Hangs (fun _ => True) (diskstreamerRead disk total) :=
  streamLoop_spares disk _ total (Nat.lt_succ_self _)

theorem diskstreamerSeek_spares (pos : Int) :
    Spares Hangs (fun _ => True) (diskstreamerSeek pos) :=
  Spares.bind (Spares.modify (fun _ _ => trivial)) (fun _ => Spares.pure _)

theorem readAt_spares (disk : Disk) (pos total : Int) :
    Spares Hangs (fun _ => True) (readAt disk pos total) :=
  Spares.bind (diskstreamerSeek_spares pos) (fun _ => diskstreamerRead_spares disk total)

/-! ## the count of records -/

/-- a record at a position of the disk -/
theorem record_read (disk : Disk) (s : DiskStream) {pos : Nat} (hs : s.pos = pos)
    (h : pos < 2147483648) (h32 : pos % 32 = 0) : diskstreamerRead disk fatDirectoryItemSize s
      = .ok ((0, diskBytes disk pos 32), { s with pos := cint (pos + 32 : Nat) }) := by
  have ho : s.pos.tmod sectorSize = (pos % 512 : Nat) := by
    rw [hs]
    rfl
  have hsector : cuint (s.pos.tdiv sectorSize) = pos / 512 := by
    have hdiv : s.pos.tdiv sectorSize = (pos / 512 : Nat) := by
      rw [hs]
      rfl
    rw [hdiv, cuint_nat (by omega)]
  have hread := diskstreamerRead_within disk (n := 32) ho (by omega)
  have e : pos / 512 * 512 + pos % 512 = pos := by omega
  rw [hsector, e, hs] at hread
  exact hread

/-- a record at a sector before the start of the disk -/
theorem record_read_sector (disk : Disk) (s : DiskStream) (h0 : s.pos.tmod sectorSize = 0) : ∃ bs,
    diskstreamerRead disk fatDirectoryItemSize s
      = .ok ((0, bs), { s with pos := cint (s.pos + 32) }) :=
  ⟨_, diskstreamerRead_within disk (o := 0) (n := 32) h0 (by omega)⟩

/-- a position inside a sector before the start of the disk: the index is negative -/
theorem record_read_below (disk : Disk) (s : DiskStream) (h0 : s.pos.tmod sectorSize < 0) :
    diskstreamerRead disk fatDirectoryItemSize s = .error .outOfBounds := by
  have hcopy : copyLoop (fun i => disk (cuint (s.pos.tdiv sectorSize) * sectorSize + i))
      (s.pos.tmod sectorSize) 32 0 = .error .outOfBounds := by
    unfold copyLoop
    rw [bufLoad_out _ (Or.inl (by omega))]
    rfl
  show streamLoop disk (32 + 1) (32 : Nat) s = _
  rw [streamLoop_succ, bind_ok (get_run s)]
  show (liftM (copyLoop _ _ 32 0) >>= _ : Prog DiskStream (Int × List UInt8)) s = _
  rw [hcopy]
  rfl

/-- the result is no hang -/
def Fine {α : Type} (r : Except Fault α) : Prop := ∀ e, r = .error e → ¬ Hangs e

theorem Fine.ok {α : Type} (a : α) : Fine (.ok a : Except Fault α) := by
  intro e h
  cases h

theorem Fine.outOfBounds {α : Type} : Fine (.error .outOfBounds : Except Fault α) := by
  intro e h
  cases h
  decide

/-- a record read: the count ends, or goes on behind it -/
theorem totalItemsLoop_step {disk : Disk} {s s' : DiskStream} {bs : List UInt8}
    (hread : diskstreamerRead disk fatDirectoryItemSize s = .ok ((0, bs), s')) {fuel : Nat}
    (h : ∀ i, Fine (totalItemsLoop disk fuel i s')) (i : Int) :
    Fine (totalItemsLoop disk (fuel + 1) i s) := by
  unfold totalItemsLoop
  rw [bind_ok hread]
  dsimp only
  rw [if_neg (not_not_intro rfl)]
  split
  · exact Fine.ok _
  · split
    · exact h i
    · exact h (i + 1)

theorem totalItemsLoop_below {disk : Disk} {s : DiskStream} (h : s.pos.tmod sectorSize < 0)
    (fuel : Nat) (i : Int) : Fine (totalItemsLoop disk (fuel + 1) i s) := by
  unfold totalItemsLoop
  rw [bind_error (record_read_below disk s h)]
  exact Fine.outOfBounds

/-- the second record of a sector before the start of the disk -/
theorem second_record_below {pos : Int} (h : pos.tmod sectorSize = 0) (hneg : pos < 0)
    (hlow : -2147483648 ≤ pos) : (cint (pos + 32)).tmod sectorSize < 0 := by
  have hmod : pos.tmod 512 = 0 := h
  have h512 := Int.dvd_of_tmod_eq_zero hmod
  rw [cint_of_range (by omega) (by omega)]
  show (pos + 32).tmod 512 < 0
  have he : (pos + 32).tmod 512 = -480 := by
    have hsign : (pos + 32) = -((-(pos + 32) : Int)) := by omega
    rw [hsign, Int.neg_tmod, Int.tmod_eq_emod_of_nonneg (by omega)]
    omega
  rw [he]
  decide

/-- a sector before the start of the disk: the second record is out of bounds -/
theorem totalItemsLoop_sector {disk : Disk} {s : DiskStream} (h : s.pos.tmod sectorSize = 0)
    (hneg : s.pos < 0) (hlow : -2147483648 ≤ s.pos) (fuel : Nat) (i : Int) :
    Fine (totalItemsLoop disk (fuel + 2) i s) := by
  obtain ⟨bs, hread⟩ := record_read_sector disk s h
  obtain ⟨s', hs'⟩ : ∃ s' : DiskStream, s' = { s with pos := cint (s.pos + 32) } := ⟨_, rfl⟩
  have hbelow : s'.pos.tmod sectorSize < 0 := by
    rw [hs']
    exact second_record_below h hneg hlow
  rw [← hs'] at hread
  exact totalItemsLoop_step hread (fun j => totalItemsLoop_below hbelow fuel j) i

/-- at a position of the disk: the count runs to 2 GiB at most -/
theorem totalItemsLoop_pos (disk : Disk) (n : Nat) : ∀ (s : DiskStream) (pos fuel : Nat) (i : Int),
    s.pos = pos → pos < 2147483648 → pos % 32 = 0 → 2147483648 ≤ pos + n * 32 → n + 2 ≤ fuel →
      Fine (totalItemsLoop disk fuel i s) := by
  induction n with
  | zero =>
    intro s pos fuel i hs h h32 hn hfuel
    omega
  | succ n ih =>
    intro s pos fuel i hs h h32 hn hfuel
    obtain ⟨fuel, rfl⟩ := Nat.exists_eq_add_of_le' (by omega : 3 ≤ fuel)
    refine totalItemsLoop_step (record_read disk s hs h h32) (fun j => ?_) i
    rcases Nat.lt_or_ge (pos + 32) 2147483648 with hlt | hge
    · have e : cint (pos + 32 : Nat) = (pos + 32 : Nat) := cint_nat hlt
      have h32' : (pos + 32) % 32 = 0 := by omega
      rw [e]
      exact ih { s with pos := (pos + 32 : Nat) } (pos + 32) (fuel + 2) j rfl hlt h32' (by omega)
        (by omega)
    · -- the position wraps to the lowest one
      have e : cint (pos + 32 : Nat) = -2147483648 := by
        rw [show pos + 32 = 2147483648 by omega]
        rfl
      rw [e]
      exact totalItemsLoop_sector rfl (by norm_num) (le_refl _) fuel j

/-- a directory starts at a sector -/
theorem totalItemsLoop_start (disk : Disk) (s : DiskStream) (sector i : Int)
    (hs : s.pos = cint (sector * sectorSize)) : Fine (totalItemsLoop disk maxItems i s) := by
  have hdvd : s.pos % 512 = 0 := by
    rw [hs]
    unfold cint sectorSize
    rw [Int.bmod_def]
    split <;> omega
  have hr := cint_range (sector * sectorSize)
  rw [← hs] at hr
  rcases Int.lt_or_le s.pos 0 with hneg | hpos
  · have h0 : s.pos.tmod sectorSize = 0 := Int.tmod_eq_zero_of_dvd (Int.dvd_of_emod_eq_zero hdvd)
    exact totalItemsLoop_sector h0 hneg hr.1 134217726 i
  · obtain ⟨n, hn⟩ := Int.eq_ofNat_of_zero_le hpos
    have hfuel : 67108864 + 2 ≤ maxItems := by decide
    have hlow : n < 2147483648 := by omega
    have h32 : n % 32 = 0 := by omega
    have hend : 2147483648 ≤ n + 67108864 * 32 := by omega
    exact totalItemsLoop_pos disk 67108864 s n maxItems i hn hlow h32 hend hfuel

/-! ## the volume -/

/-- `P` holds of the header of the volume, which nothing changes after the mount -/
def Header (P : FatHeader → Prop) (s : FatState) : Prop := P s.fatPrivate.header

section
variable {α : Type} {P : FatHeader → Prop}

theorem onHeap_spares {x : Prog Machine α} (h : Spares Hangs (fun _ => True) x) :
    Spares Hangs (Header P) (onHeap x) := h.part (fun _ _ => trivial) (fun _ _ ht _ => ht)

theorem onClusterReadStream_spares {x : Prog DiskStream α} (h : Spares Hangs (fun _ => True) x) :
    Spares Hangs (Header P) (onClusterReadStream x) :=
  h.part (fun _ _ => trivial) (fun _ _ ht _ => ht)

theorem onFatReadStream_spares {x : Prog DiskStream α} (h : Spares Hangs (fun _ => True) x) :
    Spares Hangs (Header P) (onFatReadStream x) :=
  h.part (fun _ _ => trivial) (fun _ _ ht _ => ht)

theorem onDirectoryStream_spares {x : Prog DiskStream α} (h : Spares Hangs (fun _ => True) x) :
    Spares Hangs (Header P) (onDirectoryStream x) :=
  h.part (fun _ _ => trivial) (fun _ _ ht _ => ht)

end

theorem get_error {b : Buffer} {i : Nat} {e : Fault} (h : b.get i = .error e) : e = .outOfBounds := by
  unfold Buffer.get at h
  split at h
  · cases h
  · cases h
    rfl

theorem get16_error {b : Buffer} {i : Nat} {e : Fault} (h : b.get16 i = .error e) :
    e = .outOfBounds := by
  unfold Buffer.get16 at h
  cases h0 : b.get i with
  | error e0 =>
    rw [h0] at h
    cases h
    exact get_error h0
  | ok b0 =>
    cases h1 : b.get (i + 1) with
    | error e1 =>
      rw [h0, ok_bind, h1] at h
      cases h
      exact get_error h1
    | ok b1 =>
      rw [h0, ok_bind, h1] at h
      cases h

theorem firstCluster_error {item : FatDirectoryItem} {e : Fault}
    (h : fat16GetFirstCluster item = .error e) : e = .outOfBounds := by
  unfold fat16GetFirstCluster at h
  cases h0 : item.high16BitsFirstCluster with
  | error e0 =>
    rw [h0] at h
    cases h
    exact get16_error h0
  | ok b0 =>
    cases h1 : item.low16BitsFirstCluster with
    | error e1 =>
      rw [h0, ok_bind, h1] at h
      cases h
      exact get16_error h1
    | ok b1 =>
      rw [h0, ok_bind, h1] at h
      cases h

section
variable {P : FatHeader → Prop}

theorem fat16GetFatEntry_spares (disk : Disk) (cluster : Int) :
    Spares Hangs (Header P) (fat16GetFatEntry disk cluster) := by
  refine Spares.bind Spares.get (fun s => ?_)
  refine Spares.bind (onFatReadStream_spares (diskstreamerSeek_spares _)) (fun res => ?_)
  refine Spares.ite (fun _ => Spares.pure _) (fun _ => ?_)
  refine Spares.bind (onFatReadStream_spares (diskstreamerRead_spares disk 2)) (fun r => ?_)
  exact Spares.ite (fun _ => Spares.pure _) (fun _ => Spares.pure _)

end

section
variable {σ : Type} {I : σ → Prop}

theorem clusterLoop_spares {entry : Int → Prog σ Int} (h : ∀ c, Spares Hangs I (entry c)) (k : Nat) :
    ∀ c, Spares Hangs I (clusterLoop entry k c) := by
  induction k with
  | zero =>
    intro c
    exact Spares.pure c
  | succ k ih =>
    intro c
    refine Spares.bind (h c) (fun e => ?_)
    refine Spares.ite (fun _ => Spares.pure _) (fun _ => ?_)
    refine Spares.ite (fun _ => Spares.pure _) (fun _ => ?_)
    refine Spares.ite (fun _ => Spares.pure _) (fun _ => ?_)
    exact Spares.ite (fun _ => Spares.pure _) (fun _ => ih e)

/-- every call nested has less to read -/
theorem readLoop_spares {getCluster : Int → Prog σ Int} {sectorOf : Int → Int}
    {readStream : Int → Int → Prog σ (Int × List UInt8)} {size : Int}
    (hcluster : ∀ o, Spares Hangs I (getCluster o))
    (hread : ∀ p n, Spares Hangs I (readStream p n)) (hsize : 0 < size) (fuel : Nat) :
    ∀ offset total : Int, total.toNat < fuel →
      Spares Hangs I (readLoop getCluster sectorOf readStream size fuel offset total) := by
  induction fuel with
  | zero =>
    intro offset total h
    omega
  | succ fuel ih =>
    intro offset total h
    refine Spares.bind (hcluster offset) (fun c => ?_)
    refine Spares.ite (fun _ => Spares.pure _) (fun _ => ?_)
    refine Spares.ite (fun h0 => absurd h0 (by omega)) (fun _ => ?_)
    refine Spares.bind (hread _ _) (fun r => ?_)
    refine Spares.ite (fun _ => Spares.pure _) (fun _ => ?_)
    refine Spares.ite (fun hpos => ?_) (fun _ => Spares.pure _)
    refine Spares.bind (ih _ _ ?_) (fun r' => Spares.pure _)
    split at hpos
    · rw [if_pos (by assumption)]
      omega
    · omega

end

section
variable {P : FatHeader → Prop} (disk : Disk)

theorem fat16GetTotalItems_spares (sector : Int) :
    Spares Hangs (Header P) (fat16GetTotalItemsForDirectory disk sector) := by
  intro s hs
  have hrun : ∀ t : DiskStream, (do
      let res ← diskstreamerSeek (cint (sector * sectorSize))
      if res ≠ OK then return - EIO
      else totalItemsLoop disk maxItems 0 : Prog DiskStream Int) t
        = totalItemsLoop disk maxItems 0 { t with pos := cint (sector * sectorSize) } := fun _ => rfl
  unfold fat16GetTotalItemsForDirectory onDirectoryStream
  refine ⟨fun e h => ?_, fun a s' h => ?_⟩
  · unfold part at h
    rw [hrun] at h
    split at h
    · cases h
    · rename_i e1 he
      cases h
      exact totalItemsLoop_start disk _ sector 0 rfl e he
  · obtain ⟨t, -, rfl⟩ := part_eq_ok h
    exact hs

theorem fat16FreeDirectory_spares (d : FatDirectory) :
    Spares Hangs (Header P) (fat16FreeDirectory d) := by
  refine Spares.ite (fun _ => Spares.pure _) (fun _ => ?_)
  exact Spares.bind (Spares.onlyIf (onHeap_spares (kfree_spares _)))
    (fun _ => onHeap_spares (kfree_spares _))

theorem fat16GetRootDirectory_spares : Spares Hangs (Header P) (fat16GetRootDirectory disk) := by
  refine Spares.bind Spares.get (fun s => ?_)
  refine Spares.bind (fat16GetTotalItems_spares disk _) (fun totalItems => ?_)
  refine Spares.bind (onHeap_spares (kzalloc_spares _)) (fun dir => ?_)
  refine Spares.ite (fun _ => Spares.pure _) (fun _ => ?_)
  refine Spares.bind (onDirectoryStream_spares (diskstreamerSeek_spares _)) (fun res => ?_)
  refine Spares.ite (fun _ => Spares.pure _) (fun _ => ?_)
  refine Spares.bind (onDirectoryStream_spares (diskstreamerRead_spares disk _)) (fun r => ?_)
  refine Spares.ite (fun _ => Spares.pure _) (fun _ => ?_)
  exact Spares.bind (Spares.modify (fun _ hs => hs)) (fun _ => Spares.pure _)

variable (hP : ∀ h, P h → h.sectorsPerCluster ≠ 0)
include hP

theorem sizeOfClusterBytes_pos {s : FatState} (h : Header P s) :
    0 < sizeOfClusterBytes s.fatPrivate := by
  have := hP _ h
  unfold sizeOfClusterBytes sectorSize
  omega

theorem fat16GetClusterForOffset_spares (c offset : Int) :
    Spares Hangs (Header P) (fat16GetClusterForOffset disk c offset) := by
  refine Spares.get_bind (fun s hs => ?_)
  have hpos := sizeOfClusterBytes_pos hP hs
  refine Spares.ite (fun h0 => absurd h0 (by omega)) (fun _ => ?_)
  exact clusterLoop_spares (fat16GetFatEntry_spares disk) _ c

theorem fat16ReadInternal_spares (c offset total : Int) :
    Spares Hangs (Header P) (fat16ReadInternal disk c offset total) := by
  refine Spares.get_bind (fun s hs => ?_)
  exact readLoop_spares (fat16GetClusterForOffset_spares disk hP c)
    (fun p n => onClusterReadStream_spares (readAt_spares disk p n)) (sizeOfClusterBytes_pos hP hs) _ _ _
    (Nat.lt_succ_self _)

theorem fat16LoadFatDirectory_spares (item : FatDirectoryItem) :
    Spares Hangs (Header P) (fat16LoadFatDirectory disk item) := by
  refine Spares.bind (Spares.lift (fun e he => not_hangs (get_error he))) (fun attributes => ?_)
  refine Spares.ite (fun _ => Spares.pure _) (fun _ => ?_)
  refine Spares.bind (onHeap_spares (kzalloc_spares _)) (fun addr => ?_)
  refine Spares.ite (fun _ => Spares.pure _) (fun _ => ?_)
  refine Spares.bind (Spares.lift (fun e he => not_hangs (firstCluster_error he))) (fun cluster => ?_)
  refine Spares.bind Spares.get (fun s => ?_)
  refine Spares.bind (fat16GetTotalItems_spares disk _) (fun totalItems => ?_)
  refine Spares.bind (onHeap_spares (kzalloc_spares _)) (fun dir => ?_)
  refine Spares.ite (fun _ => ?_) (fun _ => ?_)
  · exact Spares.bind (fat16FreeDirectory_spares _) (fun _ => Spares.pure _)
  · refine Spares.bind (fat16ReadInternal_spares disk hP _ _ _) (fun r => ?_)
    exact Spares.bind (Spares.onlyIf (fat16FreeDirectory_spares _)) (fun _ => Spares.pure _)

theorem readItemsLoop_spares (item : FatDirectoryItem) (size fuel : Nat) :
    ∀ offset, Spares Hangs (Header P) (readItemsLoop disk item size fuel offset) := by
  induction fuel with
  | zero =>
    intro offset
    exact Spares.pure _
  | succ fuel ih =>
    intro offset
    refine Spares.bind (Spares.lift (fun e he => not_hangs (firstCluster_error he))) (fun cluster => ?_)
    refine Spares.bind (fat16ReadInternal_spares disk hP _ _ _) (fun r => ?_)
    refine Spares.ite (fun _ => Spares.pure _) (fun _ => ?_)
    exact Spares.bind (ih _) (fun r' => Spares.pure _)

theorem fat16Read_spares (descriptor : FatFileDescriptor) (size nmemb : Nat) :
    Spares Hangs (Header P) (fat16Read disk descriptor size nmemb) := by
  have hrec : ∀ e, descriptor.item.ptr.record = .error e → ¬ Hangs e := by
    intro e he
    cases hp : descriptor.item.ptr with
    | null =>
      rw [hp] at he
      cases he
      decide
    | item addr i =>
      rw [hp] at he
      cases he
    | directory d =>
      rw [hp] at he
      cases he
      decide
  refine Spares.bind (Spares.lift hrec) (fun item => ?_)
  refine Spares.bind (readItemsLoop_spares disk hP item size nmemb _) (fun r => ?_)
  exact Spares.ite (fun _ => Spares.pure _) (fun _ => Spares.pure _)

end

/-! ## accepted volumes -/

theorem diskstreamerNew_pos {m m' : Machine} {t : DiskStream}
    (h : diskstreamerNew m = .ok (t, m')) : t.pos = 0 := by
  unfold diskstreamerNew at h
  obtain ⟨addr, m1, -, h⟩ := bind_eq_ok h
  obtain ⟨u, m2, -, h⟩ := bind_eq_ok h
  obtain ⟨rfl, -⟩ := pure_eq_ok h
  rfl

/-- the header of the volume on a disk, in its boot sector -/
def bootHeader (disk : Disk) : FatHeader := fatHeader (diskBytes disk 0 fatHeaderSize)

/-- the root directory is loaded on a volume with the header of the boot sector -/
theorem resolveVolume_root {disk : Disk} {stream : DiskStream} {s s' : FatState}
    (hpos : stream.pos = 0) (h : resolveVolume disk stream s = .ok (0, s')) :
    ∃ s1, s1.fatPrivate.header = bootHeader disk ∧ fat16GetRootDirectory disk s1 = .ok (0, s') := by
  have hread : diskstreamerRead disk fatHeaderSize stream
      = .ok ((0, diskBytes disk 0 fatHeaderSize), { stream with pos := (0 + fatHeaderSize : Nat) }) :=
    diskstreamerRead_ok disk hpos (by decide) (by decide)
  unfold resolveVolume at h
  obtain ⟨r, s0, hr, h⟩ := bind_eq_ok h
  rw [hread] at hr
  cases hr
  dsimp only at h
  rw [if_neg (not_not_intro rfl)] at h
  obtain ⟨u, s1, hset, h⟩ := bind_eq_ok h
  have hs1 : s1.fatPrivate.header = bootHeader disk := by
    cases hset
    rfl
  split at h
  · obtain ⟨hbad, -⟩ := pure_eq_ok h
    exact absurd hbad (by decide)
  · obtain ⟨res, s2, hroot, h⟩ := bind_eq_ok h
    split at h
    · obtain ⟨hbad, -⟩ := pure_eq_ok h
      exact absurd hbad (by decide)
    · rename_i hres
      obtain ⟨-, rfl⟩ := pure_eq_ok h
      obtain rfl : res = 0 := not_not.mp hres
      exact ⟨s1, hs1, hroot⟩

theorem fat16Resolve_root {disk : Disk} {m m' : Machine} {p : FatPrivate}
    (h : fat16Resolve disk m = .ok ((0, some p), m')) : ∃ s s' : FatState,
      s.fatPrivate.header = bootHeader disk ∧ fat16GetRootDirectory disk s = .ok (0, s') ∧
        s'.fatPrivate = p := by
  unfold fat16Resolve at h
  obtain ⟨addr, m1, -, h⟩ := bind_eq_ok h
  obtain ⟨q, m2, -, h⟩ := bind_eq_ok h
  obtain ⟨stream, m3, hnew, h⟩ := bind_eq_ok h
  obtain ⟨m4, m5, hget, h⟩ := bind_eq_ok h
  cases hget
  cases hrun : resolveVolume disk stream ⟨m3, q⟩ with
  | error e =>
    rw [hrun] at h
    cases h
  | ok r =>
    obtain ⟨res, s⟩ := r
    rw [hrun] at h
    obtain ⟨u, m6, hset, h⟩ := bind_eq_ok h
    obtain ⟨u', m7, -, h⟩ := bind_eq_ok h
    split at h
    · obtain ⟨u2, m8, -, h⟩ := bind_eq_ok h
      obtain ⟨hbad, -⟩ := pure_eq_ok h
      cases hbad
    · obtain ⟨hres, -⟩ := pure_eq_ok h
      obtain ⟨rfl, hp⟩ := Prod.mk.inj hres
      obtain ⟨s1, hs1, hroot⟩ := resolveVolume_root (diskstreamerNew_pos hnew) hrun
      exact ⟨s1, s, hs1, hroot, Option.some.inj hp⟩

/-- the header is that of the boot sector -/
theorem fat16Resolve_header {disk : Disk} {m m' : Machine} {p : FatPrivate}
    (h : fat16Resolve disk m = .ok ((0, some p), m')) : p.header = bootHeader disk := by
  obtain ⟨s, s', hs, hroot, rfl⟩ := fat16Resolve_root h
  have hs : Header (fun x => x = bootHeader disk) s := hs
  exact (fat16GetRootDirectory_spares disk s hs).2 _ _ hroot

/-- the descriptor of a file whose record is all zero -/
def zeroFile : FatFileDescriptor := ⟨0x1007000, ⟨0x1008000, .item 0x1009000 ⟨.ofBytes 32 [], 0⟩, 1⟩, 0⟩

/-- a read of one byte on a volume without a sector in a cluster -/
theorem fat16Read_divides (disk : Disk) (s : FatState)
    (h : s.fatPrivate.header.sectorsPerCluster = 0) :
    fat16Read disk zeroFile 1 1 s = .error .divideByZero := by
  have hsize : sizeOfClusterBytes s.fatPrivate = 0 := by
    unfold sizeOfClusterBytes
    rw [h]
    rfl
  have hcluster : ∀ c o, fat16GetClusterForOffset disk c o s = .error .divideByZero := by
    intro c o
    unfold fat16GetClusterForOffset clusterForOffset
    rw [bind_ok (get_run s), if_pos hsize]
    rfl
  have hread : ∀ c o n, fat16ReadInternal disk c o n s = .error .divideByZero := by
    intro c o n
    unfold fat16ReadInternal
    rw [bind_ok (get_run s)]
    exact bind_error (hcluster c o)
  have hfirst : (liftM (fat16GetFirstCluster ⟨.ofBytes 32 [], 0⟩) : Prog FatState Nat) s
      = .ok (0, s) := rfl
  have hrecord : (liftM zeroFile.item.ptr.record : Prog FatState FatDirectoryItem) s
      = .ok (⟨.ofBytes 32 [], 0⟩, s) := rfl
  unfold fat16Read
  rw [bind_ok hrecord]
  refine bind_error ?_
  unfold readItemsLoop
  rw [bind_ok hfirst]
  exact bind_error (hread _ _ _)

/-- **Accepted volumes.**  Every later read and directory load on a volume that `fat16_resolve` has
accepted ends without a division by zero exactly when byte 13 of its boot sector is not zero. -/
theorem volume_terminates_iff {disk : Disk} {m m' : Machine} {p : FatPrivate}
    (h : fat16Resolve disk m = .ok ((0, some p), m')) :
    (∀ s : FatState, s.fatPrivate.header = p.header →
        (∀ descriptor size nmemb, Fine (fat16Read disk descriptor size nmemb s)) ∧
        ∀ item, Fine (fat16LoadFatDirectory disk item s)) ↔ disk 13 ≠ 0 := by
  have hbyte : p.header.sectorsPerCluster = (disk 13).toNat := by
    rw [fat16Resolve_header h]
    rfl
  constructor
  · intro hall h0
    have hzero : p.header.sectorsPerCluster = 0 := by
      rw [hbyte, h0]
      rfl
    have hrun := fat16Read_divides disk ⟨m', p⟩ hzero
    exact (hall ⟨m', p⟩ rfl).1 zeroFile 1 1 _ hrun (by decide)
  · intro hne s hs
    have hpos : ∀ x : FatHeader, x = p.header → x.sectorsPerCluster ≠ 0 := by
      rintro _ rfl h0
      rw [hbyte] at h0
      exact hne (UInt8.toNat_inj.mp h0)
    exact ⟨fun d size nmemb => (fat16Read_spares disk hpos d size nmemb s hs).1,
      fun item => (fat16LoadFatDirectory_spares disk hpos item s hs).1⟩

/-- the volume that a call of `fat16_resolve` accepts -/
def acceptedVolume (r : Except Fault ((Int × Option FatPrivate) × Machine)) : Option FatState :=
  match r with
  | .ok ((res, some p), m) => if res = 0 then some ⟨m, p⟩ else none
  | _ => none

theorem acceptedVolume_eq {r : Except Fault ((Int × Option FatPrivate) × Machine)} {s : FatState}
    (h : acceptedVolume r = some s) : r = .ok ((0, some s.fatPrivate), s.machine) := by
  unfold acceptedVolume at h
  split at h
  · split at h
    · rename_i h0
      obtain rfl := Option.some.inj h
      rw [h0]
    · cases h
  · cases h

theorem accepted_of_isSome {r : Except Fault ((Int × Option FatPrivate) × Machine)}
    (h : (acceptedVolume r).isSome = true) : ∃ p m, r = .ok ((0, some p), m) := by
  obtain ⟨s, hs⟩ := Option.isSome_iff_exists.mp h
  exact ⟨s.fatPrivate, s.machine, acceptedVolume_eq hs⟩

/-- a boot sector with `n` sectors in a cluster and an empty root directory -/
def bootDisk (n : UInt8) : Disk := fun i =>
  if i = 13 then n else if i = 14 ∨ i = 16 ∨ i = 22 then 1 else if i = 17 then 16
  else if i = 38 then 0x29 else 0

theorem volume_terminates_iff_boot : ∃ p m,
    fat16Resolve (bootDisk 1) emptyMachine = .ok ((0, some p), m) ∧
      Fine (fat16Read (bootDisk 1) zeroFile 700 3 ⟨m, p⟩) := by
  obtain ⟨p, m, h⟩ := accepted_of_isSome
    (r := fat16Resolve (bootDisk 1) emptyMachine) (by decide +kernel)
  exact ⟨p, m, h, ((volume_terminates_iff h).mpr (by decide) ⟨m, p⟩ rfl).1 zeroFile 700 3⟩

/-- a boot sector with byte 13 zero is accepted, and the first read divides by zero -/
theorem volume_divides : ∃ p m, fat16Resolve (bootDisk 0) emptyMachine = .ok ((0, some p), m) ∧
    fat16Read (bootDisk 0) zeroFile 1 1 ⟨m, p⟩ = .error .divideByZero := by
  obtain ⟨p, m, h⟩ := accepted_of_isSome
    (r := fat16Resolve (bootDisk 0) emptyMachine) (by decide +kernel)
  refine ⟨p, m, h, fat16Read_divides _ _ ?_⟩
  show p.header.sectorsPerCluster = 0
  rw [fat16Resolve_header h]
  rfl

end LameOS
