import LameOS.Fs.Cluster

/-!
# Reading along a cluster chain

The read of `fat16ReadInternal` over a stream that delivers the bytes at the position sought and a
lookup that gives the chain's cluster for an offset.

* `chainByte`, `chainBytes`   the bytes of the clusters of a chain, one cluster after the other;
* `ReadLog`             the reads that were issued, each with the cluster it was issued for;
* `ReadsChain`          what the read owes: the bytes, and no read past the end of its cluster;
* `ReadFits`            the reads that do not leave a cluster, nor the 31 bits of an offset;
* `read_internal_iff`   they are the good ones.
-/

set_option linter.unusedVariables false

namespace LameOS
open Lib Lib.Exec

/-! ## the bytes of a chain -/

/-- the bytes of a cluster -/
def clusterBytes (p : FatPrivate) : Nat := p.header.sectorsPerCluster * 512

/-- the position of cluster `c` on the disk -/
def clusterStart (p : FatPrivate) (c : Int) : Int :=
  (p.rootDirectory.endingSectorPos + (c - 2) * p.header.sectorsPerCluster) * 512

/-- the cluster of a chain that byte `o` lies in -/
def chainAt (p : FatPrivate) (chain : List Nat) (o : Nat) : Int := (chain.getD (o / clusterBytes p) 0 : Nat)

/-- byte `o` of the clusters of a chain -/
def chainByte (p : FatPrivate) (disk : Disk) (chain : List Nat) (o : Nat) : UInt8 :=
  disk ((clusterStart p (chainAt p chain o)).toNat + o % clusterBytes p)

/-- `n` bytes of a chain from byte `o` on -/
def chainBytes (p : FatPrivate) (disk : Disk) (chain : List Nat) (o n : Nat) : List UInt8 :=
  (List.range n).map (fun i => chainByte p disk chain (o + i))

section
variable (p : FatPrivate) (disk : Disk) (chain : List Nat)

theorem chainBytes_add (o m n : Nat) :
    chainBytes p disk chain o (m + n)
      = chainBytes p disk chain o m ++ chainBytes p disk chain (o + m) n := by
  unfold chainBytes
  rw [List.range_add, List.map_append, List.map_map]
  congr 1
  apply List.map_congr_left
  intro i hi
  show chainByte p disk chain (o + (m + i)) = chainByte p disk chain (o + m + i)
  rw [Nat.add_assoc]

/-- bytes of one cluster -/
theorem chainBytes_cluster {o n : Nat} (h : o % clusterBytes p + n ≤ clusterBytes p) :
    chainBytes p disk chain o n
      = diskBytes disk ((clusterStart p (chainAt p chain o)).toNat + o % clusterBytes p) n := by
  unfold chainBytes diskBytes
  apply List.map_congr_left
  intro i hi
  have hi := List.mem_range.mp hi
  have hdiv : (o + i) / clusterBytes p = o / clusterBytes p := by
    have h0 := Nat.div_add_mod o (clusterBytes p)
    rw [← h0, Nat.add_assoc, Nat.mul_add_div (by omega), Nat.mul_add_div (by omega),
      Nat.div_eq_of_lt (by omega : o % clusterBytes p < clusterBytes p),
      Nat.div_eq_of_lt (by omega : o % clusterBytes p + i < clusterBytes p)]
  have hmod : (o + i) % clusterBytes p = o % clusterBytes p + i := by
    rw [Nat.add_mod, Nat.mod_eq_of_lt (by omega : i < clusterBytes p),
      Nat.mod_eq_of_lt (by omega : o % clusterBytes p + i < clusterBytes p)]
  unfold chainByte chainAt
  rw [hdiv, hmod, Nat.add_assoc]

end

/-! ## the reads issued -/

/-- the cluster looked up last, and the reads so far: the cluster, the position and the length -/
structure ReadLog where
  cluster : Int
  reads : List (Int × Int × Int)

/-- the chain's cluster for an offset -/
def chainCluster (p : FatPrivate) (chain : List Nat) (offset : Int) : Prog ReadLog Int := fun log =>
  if 0 ≤ offset ∧ offset.toNat / clusterBytes p < chain.length then
    .ok (chainAt p chain offset.toNat, { log with cluster := chainAt p chain offset.toNat })
  else .ok (- EIO, log)

/-- a stream that delivers the bytes at the position sought -/
def chainStream (disk : Disk) (pos total : Int) : Prog ReadLog (Int × List UInt8) := fun log =>
  .ok ((0, diskBytes disk pos.toNat total.toNat),
    { log with reads := log.reads ++ [(log.cluster, pos, total)] })

/-- `fat16ReadInternal` over the chain -/
def readChain (p : FatPrivate) (disk : Disk) (chain : List Nat) (offset total : Int) :
    Prog ReadLog (Int × List UInt8) :=
  readLoop (chainCluster p chain) (fat16ClusterToSector p) (chainStream disk) (sizeOfClusterBytes p)
    (total.toNat + 1) offset total

/-- a read lies in the cluster that it was issued for -/
def InCluster (p : FatPrivate) (r : Int × Int × Int) : Prop :=
  clusterStart p r.1 ≤ r.2.1 ∧ r.2.1 + r.2.2 ≤ clusterStart p r.1 + clusterBytes p

/-- the bytes asked for, and no read past the end of its cluster -/
def ReadsChain (p : FatPrivate) (disk : Disk) (chain : List Nat) (offset total : Nat) : Prop :=
  ∃ log, readChain p disk chain offset total ⟨0, []⟩
      = .ok ((0, chainBytes p disk chain offset total), log) ∧ ∀ r ∈ log.reads, InCluster p r

/-- the first piece ends in its cluster, and no piece has an offset or a position of 2 GiB or more -/
structure ReadFits (p : FatPrivate) (chain : List Nat) (offset total : Nat) : Prop where
  cut : offset % clusterBytes p + min total (clusterBytes p) ≤ clusterBytes p
  low : ∀ i, i * clusterBytes p < total → offset + i * clusterBytes p < 2147483648 ∧
    clusterStart p (chainAt p chain (offset + i * clusterBytes p)) + (offset % clusterBytes p : Nat)
      < 2147483648

/-- the position that the code seeks for an offset -/
def seekPos (p : FatPrivate) (chain : List Nat) (offset : Nat) : Int :=
  cint (clusterStart p (chainAt p chain offset) + (offset % clusterBytes p : Nat))

/-- the geometry of a volume: a cluster has 1 to 255 sectors, the data area lies on the disk -/
structure Geometry (p : FatPrivate) : Prop where
  pos : 1 ≤ p.header.sectorsPerCluster
  lt : p.header.sectorsPerCluster < 256
  ending : 0 ≤ p.rootDirectory.endingSectorPos

section
variable {p : FatPrivate} (disk : Disk) {chain : List Nat}

theorem Geometry.bytes_pos (g : Geometry p) : 0 < clusterBytes p := by
  have := g.pos
  unfold clusterBytes
  omega

theorem Geometry.bytes_lt (g : Geometry p) : clusterBytes p < 131072 := by
  have := g.lt
  unfold clusterBytes
  omega

/-- the data clusters have their number from 2 on -/
theorem Geometry.start (g : Geometry p) {c : Int} (hc : 2 ≤ c) : 0 ≤ clusterStart p c := by
  have h1 := g.ending
  have h2 : 0 ≤ (c - 2) * (p.header.sectorsPerCluster : Int) :=
    Int.mul_nonneg (by omega) (Int.natCast_nonneg _)
  unfold clusterStart
  omega

theorem cint_cint_mul (x o : Int) : cint (cint x * 512 + o) = cint (x * 512 + o) := by
  unfold cint
  rw [Int.bmod_def, Int.bmod_def, Int.bmod_def]
  split <;> split <;> split <;> omega

/-- the position that `fat16_read_internal_from_stream` computes -/
theorem seekPos_eq (p : FatPrivate) (chain : List Nat) (offset : Nat) :
    cint (fat16ClusterToSector p (chainAt p chain offset) * sectorSize
      + (offset : Int).tmod (sizeOfClusterBytes p)) = seekPos p chain offset := by
  have hmod : (offset : Int).tmod (sizeOfClusterBytes p) = ((offset % clusterBytes p : Nat) : Int) := by
    unfold sizeOfClusterBytes clusterBytes
    push_cast
    exact Int.tmod_eq_emod_of_nonneg (Int.natCast_nonneg _)
  rw [hmod]
  exact cint_cint_mul _ _

/-- a read at the position sought lies in its cluster exactly when it is short enough and the
position has 31 bits -/
theorem inCluster_iff (g : Geometry p) {offset : Nat} (hc : 2 ≤ chainAt p chain offset) (n : Nat) :
    InCluster p (chainAt p chain offset, seekPos p chain offset, n) ↔
      offset % clusterBytes p + n ≤ clusterBytes p ∧
        clusterStart p (chainAt p chain offset) + (offset % clusterBytes p : Nat) < 2147483648 := by
  have h0 := g.start hc
  have hlt := g.bytes_lt
  have hmod := Nat.mod_lt offset g.bytes_pos
  unfold InCluster seekPos
  dsimp only
  generalize clusterStart p (chainAt p chain offset) = a at *
  generalize offset % clusterBytes p = o at *
  constructor
  · rintro ⟨h1, h2⟩
    have hpos : a + o < 2147483648 := by
      by_contra hbig
      have hr := (cint_range (a + o)).2
      rcases Int.lt_or_le a 2147483648 with hl | hge
      · rw [cint_neg_of_big (by omega) (by omega)] at h1
        omega
      · omega
    rw [cint_of_range (by omega) hpos] at h2
    omega
  · rintro ⟨h1, h2⟩
    rw [cint_of_range (by omega) h2]
    omega

end

/-! ## one call -/

/-- the log after a read for an offset -/
def ReadLog.after (log : ReadLog) (p : FatPrivate) (chain : List Nat) (offset n : Nat) : ReadLog :=
  ⟨chainAt p chain offset,
    log.reads ++ [(chainAt p chain offset, seekPos p chain offset, (n : Int))]⟩

section
variable {p : FatPrivate} (disk : Disk) {chain : List Nat}

/-- the read with at most `fuel` calls nested -/
def chainLoop (p : FatPrivate) (disk : Disk) (chain : List Nat) :
    Nat → Int → Int → Prog ReadLog (Int × List UInt8) :=
  readLoop (chainCluster p chain) (fat16ClusterToSector p) (chainStream disk) (sizeOfClusterBytes p)

theorem chainLoop_succ (fuel : Nat) (offset total : Int) :
    chainLoop p disk chain (fuel + 1) offset total = (chainCluster p chain offset >>= fun c =>
      if c < 0 then pure (c, [])
      else if sizeOfClusterBytes p = 0 then throw .divideByZero
      else chainStream disk (cint (fat16ClusterToSector p c * sectorSize
          + offset.tmod (sizeOfClusterBytes p)))
        (if total > sizeOfClusterBytes p then sizeOfClusterBytes p else total) >>= fun r =>
        if r.1 ≠ OK then pure r
        else if total - (if total > sizeOfClusterBytes p then sizeOfClusterBytes p else total) > 0 then do
          let (res, rest) ← chainLoop p disk chain fuel
            (cint (offset + if total > sizeOfClusterBytes p then sizeOfClusterBytes p else total))
            (total - if total > sizeOfClusterBytes p then sizeOfClusterBytes p else total)
          return (res, r.2 ++ rest)
        else pure r) := rfl

/-- a call for an offset of the chain -/
theorem chainLoop_at (g : Geometry p) (hchain : ∀ c ∈ chain, 2 ≤ c) (fuel : Nat) {offset total : Nat}
    (hin : offset / clusterBytes p < chain.length) (log : ReadLog) :
    chainLoop p disk chain (fuel + 1) offset total log =
      if clusterBytes p < total then
        match chainLoop p disk chain fuel (cint (offset + clusterBytes p : Nat))
            (total - clusterBytes p : Nat) (log.after p chain offset (clusterBytes p)) with
        | .ok ((res, rest), log') =>
          .ok ((res, diskBytes disk (seekPos p chain offset).toNat (clusterBytes p) ++ rest), log')
        | .error e => .error e
      else
        .ok ((0, diskBytes disk (seekPos p chain offset).toNat total),
          log.after p chain offset total) := by
  have hpos := g.bytes_pos
  have hcs : sizeOfClusterBytes p = (clusterBytes p : Int) := by
    unfold sizeOfClusterBytes clusterBytes
    push_cast
    rfl
  have hlook : chainCluster p chain offset log
      = .ok (chainAt p chain offset, { log with cluster := chainAt p chain offset }) :=
    if_pos ⟨Int.natCast_nonneg _, hin⟩
  have hc : ¬ chainAt p chain offset < 0 := by
    unfold chainAt
    omega
  have hn : (if (total : Int) > clusterBytes p then (clusterBytes p : Int) else total)
      = (min total (clusterBytes p) : Nat) := by
    split <;> omega
  rw [chainLoop_succ, bind_ok hlook, if_neg hc, if_neg (by omega), seekPos_eq, hcs, hn]
  have hread : chainStream disk (seekPos p chain offset) (min total (clusterBytes p) : Nat)
      { log with cluster := chainAt p chain offset }
      = .ok ((0, diskBytes disk (seekPos p chain offset).toNat (min total (clusterBytes p))),
        log.after p chain offset (min total (clusterBytes p))) := rfl
  rw [bind_ok hread, if_neg (not_not_intro rfl)]
  by_cases hlt : clusterBytes p < total
  · have e1 : (total : Int) - (min total (clusterBytes p) : Nat) = (total - clusterBytes p : Nat) := by
      omega
    have e2 : (offset : Int) + (min total (clusterBytes p) : Nat) = (offset + clusterBytes p : Nat) := by
      omega
    rw [if_pos hlt, e1, e2, if_pos (by omega), Nat.min_eq_right hlt.le]
    cases hr : chainLoop p disk chain fuel (cint (offset + clusterBytes p : Nat))
        (total - clusterBytes p : Nat) (log.after p chain offset (clusterBytes p)) with
    | error e => exact bind_error hr
    | ok r => exact bind_ok hr
  · rw [if_neg hlt, if_neg (by omega), Nat.min_eq_left (by omega)]
    rfl

/-- a call for an offset below zero -/
theorem chainLoop_below (fuel : Nat) {offset : Int} (h : offset < 0) (total : Int) (log : ReadLog) :
    chainLoop p disk chain (fuel + 1) offset total log = .ok ((- EIO, []), log) := by
  have hlook : chainCluster p chain offset log = .ok (- EIO, log) := if_neg (by omega)
  rw [chainLoop_succ, bind_ok hlook, if_pos (by decide)]
  rfl

end

/-! ## the whole read -/

section
variable {p : FatPrivate} (disk : Disk) {chain : List Nat}

theorem chainAt_ge (hchain : ∀ c ∈ chain, 2 ≤ c) {o : Nat} (h : o / clusterBytes p < chain.length) :
    2 ≤ chainAt p chain o := by
  unfold chainAt
  rw [List.getD_eq_getElem _ _ h]
  have := hchain _ (List.getElem_mem h)
  omega

theorem in_chain (g : Geometry p) {offset total : Nat} (h : 1 ≤ total)
    (hin : offset + total ≤ chain.length * clusterBytes p) : offset / clusterBytes p < chain.length := by
  rw [Nat.div_lt_iff_lt_mul g.bytes_pos]
  omega

/-- the next piece starts at the next cluster -/
theorem ReadFits.next {offset total : Nat} (h : ReadFits p chain offset total)
    (hlt : clusterBytes p < total) :
    offset % clusterBytes p = 0 ∧
      ReadFits p chain (offset + clusterBytes p) (total - clusterBytes p) := by
  have hcut := h.cut
  rw [Nat.min_eq_right hlt.le] at hcut
  have h0 : offset % clusterBytes p = 0 := by omega
  refine ⟨h0, ⟨?_, fun i hi => ?_⟩⟩
  · rw [Nat.add_mod_right, h0, Nat.zero_add]
    exact Nat.min_le_right _ _
  · have hi' : (i + 1) * clusterBytes p < total := by
      rw [Nat.add_mul]
      omega
    have hl := h.low (i + 1) hi'
    have e : offset + (i + 1) * clusterBytes p = offset + clusterBytes p + i * clusterBytes p := by
      rw [Nat.add_mul]
      omega
    rw [e] at hl
    rw [Nat.add_mod_right]
    exact hl

theorem chainLoop_ok (g : Geometry p) (hchain : ∀ c ∈ chain, 2 ≤ c) (fuel : Nat) :
    ∀ (offset total : Nat) (log : ReadLog), 1 ≤ total → total ≤ fuel →
      offset + total ≤ chain.length * clusterBytes p → ReadFits p chain offset total →
      (∀ r ∈ log.reads, InCluster p r) → ∃ log',
        chainLoop p disk chain fuel offset total log
          = .ok ((0, chainBytes p disk chain offset total), log') ∧
        ∀ r ∈ log'.reads, InCluster p r := by
  induction fuel with
  | zero =>
    intro offset total log h1 hle
    omega
  | succ fuel ih =>
    intro offset total log h1 hle hin hfit hlog
    have hlt := in_chain g h1 hin
    have hc := chainAt_ge hchain hlt
    have hl0 := hfit.low 0 (by omega)
    rw [Nat.zero_mul, Nat.add_zero] at hl0
    have hin1 : InCluster p (chainAt p chain offset, seekPos p chain offset,
        ((min total (clusterBytes p) : Nat) : Int)) := (inCluster_iff g hc _).mpr ⟨hfit.cut, hl0.2⟩
    have hafter : ∀ n, n = min total (clusterBytes p) →
        ∀ r ∈ (log.after p chain offset n).reads, InCluster p r := by
      rintro n rfl r hr
      rcases List.mem_append.mp hr with h | h
      · exact hlog r h
      · rw [List.mem_singleton.mp h]
        exact hin1
    have hseek : (seekPos p chain offset).toNat
        = (clusterStart p (chainAt p chain offset)).toNat + offset % clusterBytes p := by
      have h0 := g.start hc
      unfold seekPos
      rw [cint_of_range (by omega) hl0.2]
      omega
    rw [chainLoop_at disk g hchain fuel hlt, hseek]
    by_cases hbig : clusterBytes p < total
    · obtain ⟨hmod, hnext⟩ := hfit.next hbig
      have hl1 := hfit.low 1 (by omega)
      rw [Nat.one_mul] at hl1
      obtain ⟨log', hrun, hall⟩ := ih (offset + clusterBytes p) (total - clusterBytes p)
        (log.after p chain offset (clusterBytes p)) (by omega) (by have := g.bytes_pos; omega)
        (by omega) hnext (hafter _ (Nat.min_eq_right hbig.le).symm)
      refine ⟨log', ?_, hall⟩
      have hsplit := chainBytes_add p disk chain offset (clusterBytes p) (total - clusterBytes p)
      rw [Nat.add_sub_cancel' hbig.le, chainBytes_cluster p disk chain (n := clusterBytes p) (by omega)]
        at hsplit
      rw [if_pos hbig, cint_nat hl1.1, hrun, hsplit]
    · rw [Nat.min_eq_left (by omega)] at hafter
      refine ⟨_, ?_, hafter total rfl⟩
      have hcut := hfit.cut
      rw [Nat.min_eq_left (by omega)] at hcut
      rw [if_neg hbig, chainBytes_cluster p disk chain hcut]

/-- the reads issued before stay in the log -/
theorem chainLoop_reads (g : Geometry p) (hchain : ∀ c ∈ chain, 2 ≤ c) (fuel : Nat) :
    ∀ (offset : Int) (total : Nat) (log log' : ReadLog) (r : Int × List UInt8),
      chainLoop p disk chain fuel offset total log = .ok (r, log') → log.reads ⊆ log'.reads := by
  induction fuel with
  | zero =>
    intro offset total log log' r h
    cases h
  | succ fuel ih =>
    intro offset total log log' r h
    by_cases hoff : 0 ≤ offset ∧ offset.toNat / clusterBytes p < chain.length
    · obtain ⟨n, rfl⟩ := Int.eq_ofNat_of_zero_le hoff.1
      have hsub : ∀ k, log.reads ⊆ (log.after p chain n k).reads := fun k =>
        List.subset_append_left _ _
      have hn : n / clusterBytes p < chain.length := hoff.2
      rw [chainLoop_at disk g hchain fuel hn] at h
      split at h
      · split at h
        · rename_i hrun
          obtain ⟨-, rfl⟩ := ok_inj h
          exact fun x hx => ih _ _ _ _ _ hrun (hsub _ hx)
        · cases h
      · obtain ⟨-, rfl⟩ := ok_inj h
        exact hsub _
    · have hlook : chainCluster p chain offset log = .ok (- EIO, log) := if_neg hoff
      rw [chainLoop_succ, bind_ok hlook, if_pos (by decide)] at h
      obtain ⟨-, rfl⟩ := pure_eq_ok h
      exact fun x hx => hx

theorem chainLoop_fits (g : Geometry p) (hchain : ∀ c ∈ chain, 2 ≤ c) (fuel : Nat) :
    ∀ (offset total : Nat) (log log' : ReadLog) (bs : List UInt8), 1 ≤ total → total ≤ fuel →
      offset < 2147483648 → offset + total ≤ chain.length * clusterBytes p →
      chainLoop p disk chain fuel offset total log = .ok ((0, bs), log') →
      (∀ r ∈ log'.reads, InCluster p r) → ReadFits p chain offset total := by
  induction fuel with
  | zero =>
    intro offset total log log' bs h1 hle
    omega
  | succ fuel ih =>
    intro offset total log log' bs h1 hle hoff hin hrun hall
    have hlt := in_chain g h1 hin
    have hc := chainAt_ge hchain hlt
    have hbytes := g.bytes_lt
    have hpos := g.bytes_pos
    rw [chainLoop_at disk g hchain fuel hlt] at hrun
    by_cases hbig : clusterBytes p < total
    · rw [if_pos hbig] at hrun
      split at hrun
      · rename_i res rest log2 hnext
        obtain ⟨hb, rfl⟩ := ok_inj hrun
        obtain ⟨rfl, -⟩ := Prod.mk.inj hb
        have hmem := chainLoop_reads disk g hchain fuel _ _ _ _ _ hnext
          (List.mem_append_right _ (List.mem_singleton_self _))
        have hfirst := (inCluster_iff g hc _).mp (hall _ hmem)
        obtain ⟨fuel, rfl⟩ := Nat.exists_eq_succ_of_ne_zero (by omega : fuel ≠ 0)
        -- the next offset has 31 bits, a negative one gives an error
        have hnlt : offset + clusterBytes p < 2147483648 := by
          by_contra hno
          rw [cint_neg_of_big (by omega) (by omega), chainLoop_below disk fuel (by omega)] at hnext
          obtain ⟨hb2, -⟩ := ok_inj hnext
          exact absurd (Prod.mk.inj hb2).1 (by decide)
        rw [cint_nat hnlt] at hnext
        have hrest := ih _ _ _ _ _ (by omega) (by omega) hnlt (by omega) hnext hall
        refine ⟨by rw [Nat.min_eq_right hbig.le]; exact hfirst.1, fun i hi => ?_⟩
        cases i with
        | zero =>
          rw [Nat.zero_mul, Nat.add_zero]
          exact ⟨hoff, hfirst.2⟩
        | succ i =>
          have e : offset + (i + 1) * clusterBytes p = offset + clusterBytes p + i * clusterBytes p := by
            rw [Nat.add_mul]
            omega
          rw [Nat.add_mul] at hi
          have hl := hrest.low i (by omega)
          rw [Nat.add_mod_right] at hl
          rw [e]
          exact hl
      · cases hrun
    · rw [if_neg hbig] at hrun
      obtain ⟨-, rfl⟩ := ok_inj hrun
      have hfirst := (inCluster_iff g hc _).mp
        (hall _ (List.mem_append_right _ (List.mem_singleton_self _)))
      refine ⟨by rw [Nat.min_eq_left (by omega)]; exact hfirst.1, fun i hi => ?_⟩
      have hi0 : i = 0 := by
        by_contra hne
        have : 1 * clusterBytes p ≤ i * clusterBytes p := Nat.mul_le_mul_right _ (by omega)
        omega
      rw [hi0, Nat.zero_mul, Nat.add_zero]
      exact ⟨hoff, hfirst.2⟩

end

/-- **Reading along a chain.**  `fat16_read_internal` delivers the bytes of the chain by reads that
stay in their clusters exactly when the first piece ends in its cluster and nothing leaves 31 bits. -/
theorem read_internal_iff {p : FatPrivate} (disk : Disk) {chain : List Nat} (g : Geometry p)
    (hchain : ∀ c ∈ chain, 2 ≤ c) {offset total : Nat} (h1 : 1 ≤ total) (hoff : offset < 2147483648)
    (hin : offset + total ≤ chain.length * clusterBytes p) :
    ReadsChain p disk chain offset total ↔ ReadFits p chain offset total := by
  have hrun : readChain p disk chain offset total = chainLoop p disk chain (total + 1) offset total :=
    rfl
  unfold ReadsChain
  rw [hrun]
  constructor
  · rintro ⟨log, h, hall⟩
    exact chainLoop_fits disk g hchain _ _ _ _ _ _ h1 (Nat.le_succ _) hoff hin h hall
  · intro hfit
    exact chainLoop_ok disk g hchain _ _ _ _ h1 (Nat.le_succ _) hin hfit (by simp)

/-- a volume with one sector in a cluster, its data area from sector 3 on -/
def tinyVolume : FatPrivate where
  addr := 0x1000000
  header := ⟨1, 1, 1, 16, 1, 0x29⟩
  rootDirectory := ⟨0x1000040, 0x1004000, .ofBytes 512 [], 0, 2, 3⟩
  clusterReadStream := ⟨0x1001000, 0⟩
  fatReadStream := ⟨0x1002000, 0⟩
  directoryStream := ⟨0x1003000, 0⟩

theorem tinyVolume_geometry : Geometry tinyVolume := ⟨by decide, by decide, by decide⟩

/-- 700 bytes from the second cluster of the chain 2, 9, 5 on -/
theorem read_internal_iff_fragments :
    ReadsChain tinyVolume (fun i => UInt8.ofNat (i / 512)) [2, 9, 5] 512 700 := by
  refine (read_internal_iff _ tinyVolume_geometry (by decide) (by decide) (by decide)
    (by decide)).mpr ⟨by decide, fun i hi => ?_⟩
  have hi' : i < 2 := by
    have hb : clusterBytes tinyVolume = 512 := rfl
    rw [hb] at hi
    omega
  interval_cases i <;> decide

/-- 512 bytes from the middle of the first cluster of the chain 2, 9 on -/
theorem read_internal_crosses :
    ¬ ReadsChain tinyVolume (fun i => UInt8.ofNat (i / 512)) [2, 9] 256 512 := by
  rintro ⟨log, h, hall⟩
  have hfit := chainLoop_fits _ tinyVolume_geometry (by decide) _ _ _ _ _ _ (by decide)
    (Nat.le_succ 512) (by decide) (by decide) h hall
  exact absurd hfit.cut (by decide)

end LameOS
