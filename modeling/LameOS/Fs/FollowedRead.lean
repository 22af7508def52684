import LameOS.Fs.ReadBounds

/-!
# A read from the start of a chain

From offset 0 on `fat16_read_internal` reads whole clusters, each at the start of a sector.  No stream
read can leave the sector buffer then: only a lookup can end the read.

* `sectorBytes`            the bytes of a stream read at the start of a sector;
* `followedBytes`          the bytes of the clusters that the lookups lead to;
* `LookupsGoOn`            no lookup on the way to `n` bytes ends the walk;
* `readLoop_followed`, `fat16ReadInternal_start`   **the read gives these bytes exactly then.**
-/

set_option linter.unusedVariables false

namespace LameOS
open Lib Lib.Exec

/-! ## stream reads -/

/-- byte `i` of a stream read from position `q` on, the start of a sector; the position may wrap -/
def sectorByte (disk : Disk) (q : Int) (i : Nat) : UInt8 :=
  disk (cuint ((cint (q + (i / 512 * 512 : Nat))).tdiv sectorSize) * sectorSize + i % 512)

def sectorBytes (disk : Disk) (q : Int) (n : Nat) : List UInt8 :=
  (List.range n).map (sectorByte disk q)

section
variable {disk : Disk} {q : Int}

/-- the bytes of the first sector -/
theorem sectorBytes_first (hq : cint q = q) {n : Nat} (hn : n ≤ 512) :
    sectorBytes disk q n = diskBytes disk (cuint (q.tdiv sectorSize) * sectorSize) n := by
  apply List.map_congr_left
  intro i hi
  have hi : i < 512 := lt_of_lt_of_le (List.mem_range.mp hi) hn
  unfold sectorByte
  rw [Nat.div_eq_of_lt hi, Nat.mod_eq_of_lt hi, Nat.zero_mul, Int.ofNat_zero, Int.add_zero, hq]

theorem sectorByte_next (disk : Disk) (q : Int) (i : Nat) :
    sectorByte disk q (512 + i) = sectorByte disk (cint (q + sectorSize)) i := by
  have hdiv : (512 + i) / 512 * 512 = 512 + i / 512 * 512 := by omega
  have hmod : (512 + i) % 512 = i % 512 := by omega
  unfold sectorByte
  rw [hdiv, hmod, cint_cint_add, Nat.cast_add, ← Int.add_assoc]

theorem sectorBytes_add (disk : Disk) (q : Int) (m n : Nat) : sectorBytes disk q (m + n)
    = sectorBytes disk q m ++ (List.range n).map (fun i => sectorByte disk q (m + i)) := by
  unfold sectorBytes
  rw [List.range_add, List.map_append, List.map_map]
  rfl

/-- the first sector, and the rest -/
theorem sectorBytes_succ (hq : cint q = q) (n : Nat) : sectorBytes disk q (512 + n)
    = diskBytes disk (cuint (q.tdiv sectorSize) * sectorSize) 512
      ++ sectorBytes disk (cint (q + sectorSize)) n := by
  have hnext : (List.range n).map (fun i => sectorByte disk q (512 + i))
      = sectorBytes disk (cint (q + sectorSize)) n :=
    List.map_congr_left (fun i _ => sectorByte_next disk q i)
  rw [sectorBytes_add, sectorBytes_first hq (le_refl 512), hnext]

end

/-- a read at the start of a sector, of any length -/
theorem streamLoop_sectors (disk : Disk) (fuel : Nat) : ∀ (total : Nat) (s : DiskStream),
    total ≤ fuel → s.pos.tmod sectorSize = 0 → cint s.pos = s.pos → ∃ s',
      streamLoop disk (fuel + 1) total s = .ok ((0, sectorBytes disk s.pos total), s') := by
  have hsize : (sectorSize : Int) = 512 := rfl
  have hcopy : ∀ (q : Nat) {n : Nat}, n ≤ 512 →
      copyLoop (fun i => disk (q + i)) 0 n 0 = .ok (diskBytes disk q n) := fun q n hn =>
    copyLoop_ok disk q 0 n 0 (by dsimp only [sectorSize]; omega)
  induction fuel with
  | zero =>
    intro total s hle hmod hpos
    obtain rfl : total = 0 := Nat.le_zero.mp hle
    rw [streamLoop_copy, hmod, hcopy _ (by decide), ok_bind, if_neg (by decide),
      sectorBytes_first hpos (Nat.zero_le 512)]
    exact ⟨_, rfl⟩
  | succ fuel ih =>
    intro total s hle hmod hpos
    rw [streamLoop_copy, hmod, hcopy _ (by omega), ok_bind]
    rcases Nat.lt_or_ge 512 total with hbig | hsmall
    · obtain ⟨n, rfl⟩ := Nat.exists_eq_add_of_le hbig.le
      obtain ⟨s', hrest⟩ := ih n { s with pos := cint (s.pos + sectorSize) } (by omega)
        (tmod_next hmod) (cint_cint _)
      rw [if_pos (by omega), show ((512 + n : Nat) : Int) - sectorSize = (n : Nat) by omega, hrest,
        sectorBytes_succ hpos, show (min ((512 + n : Nat) : Int) sectorSize).toNat = 512 by omega]
      exact ⟨s', rfl⟩
    · rw [if_neg (by omega), sectorBytes_first hpos hsmall,
        show (min (total : Int) sectorSize).toNat = total by omega]
      exact ⟨_, rfl⟩

/-! ## clusters -/

/-- where the driver seeks for the start of cluster `c` -/
def clusterSeek (p : FatPrivate) (c : Int) : Int := cint (fat16ClusterToSector p c * sectorSize)

/-- byte `o` of the clusters that the lookups from `first` on lead to -/
def followedByte (p : FatPrivate) (disk : Disk) (first o : Nat) : UInt8 :=
  sectorByte disk (clusterSeek p ((followed disk p.header (o / clusterBytes p) first).getD 0))
    (o % clusterBytes p)

/-- `n` of these bytes, from byte `o` on -/
def followedBytes (p : FatPrivate) (disk : Disk) (first o n : Nat) : List UInt8 :=
  (List.range n).map (fun i => followedByte p disk first (o + i))

/-- no lookup on the way to `n` bytes ends the walk -/
def LookupsGoOn (p : FatPrivate) (disk : Disk) (first n : Nat) : Prop :=
  ∀ j, j * clusterBytes p < n → followed disk p.header j first ≠ none

section
variable {disk : Disk} {p : FatPrivate} {s : FatState}

theorem clusterSeek_sector (p : FatPrivate) (c : Int) : (clusterSeek p c).tmod sectorSize = 0 := by
  apply Int.tmod_eq_zero_of_dvd
  apply Int.dvd_of_emod_eq_zero
  unfold clusterSeek cint sectorSize
  rw [Int.bmod_def]
  split <;> omega

theorem clusterSeek_int (p : FatPrivate) (c : Int) : cint (clusterSeek p c) = clusterSeek p c :=
  cint_cint _

theorem followedBytes_add (p : FatPrivate) (disk : Disk) (first o m n : Nat) :
    followedBytes p disk first o (m + n)
      = followedBytes p disk first o m ++ followedBytes p disk first (o + m) n := by
  unfold followedBytes
  rw [List.range_add, List.map_append, List.map_map]
  refine congrArg (_ ++ ·) (List.map_congr_left fun i _ => ?_)
  show followedByte p disk first (o + (m + i)) = followedByte p disk first (o + m + i)
  rw [Nat.add_assoc]

/-- the bytes of one cluster -/
theorem followedBytes_cluster (hpos : 0 < clusterBytes p) {first j : Nat} {c : Int}
    (hc : followed disk p.header j first = some c) {n : Nat} (hn : n ≤ clusterBytes p) :
    followedBytes p disk first (j * clusterBytes p) n = sectorBytes disk (clusterSeek p c) n := by
  apply List.map_congr_left
  intro i hi
  have hi : i < clusterBytes p := lt_of_lt_of_le (List.mem_range.mp hi) hn
  have hdiv : (j * clusterBytes p + i) / clusterBytes p = j := by
    rw [Nat.mul_comm, Nat.mul_add_div hpos, Nat.div_eq_of_lt hi, Nat.add_zero]
  have hmod : (j * clusterBytes p + i) % clusterBytes p = i := by
    rw [Nat.mul_comm, Nat.mul_add_mod, Nat.mod_eq_of_lt hi]
  unfold followedByte
  rw [hdiv, hmod, hc]
  rfl

/-- a seek to a cluster and a read -/
theorem clusterStream_sectors (disk : Disk) (hs : OfVolume p s) (c : Int) (n : Nat) :
    Does (onClusterReadStream (readAt disk (clusterSeek p c) n)) s
      (fun r s' => r = (0, sectorBytes disk (clusterSeek p c) n) ∧ OfVolume p s') := by
  obtain ⟨t, hrun⟩ := streamLoop_sectors disk n n
    { s.fatPrivate.clusterReadStream with pos := clusterSeek p c } (le_refl n)
    (clusterSeek_sector p c) (clusterSeek_int p c)
  exact ⟨_, _, part_ok hrun, rfl, hs⟩

/-- the piece of cluster `j` -/
theorem followed_piece (disk : Disk) (hs : OfVolume p s) (hpos : 0 < clusterBytes p) {first j n : Nat}
    (hn : n ≤ clusterBytes p) (hlow : j * clusterBytes p < 2147483648)
    (h : followed disk p.header j first ≠ none) : Does (do
      let r ← fat16GetClusterForOffset disk first (j * clusterBytes p : Nat)
      if r < 0 then return (r, [])
      else onClusterReadStream (readAt disk (cint (fat16ClusterToSector p r * sectorSize
        + ((j * clusterBytes p : Nat) : Int).tmod (sizeOfClusterBytes p))) n)) s
      (fun r s' => r = (0, followedBytes p disk first (j * clusterBytes p) n) ∧ OfVolume p s') := by
  obtain ⟨c, hc⟩ := Option.ne_none_iff_exists'.mp h
  obtain ⟨r, s1, hlookup, rfl, hs1⟩ :=
    fat16GetClusterForOffset_followed disk hs hpos first (j * clusterBytes p : Nat)
  have hdiv : (((j * clusterBytes p : Nat) : Int).tdiv (clusterBytes p)).toNat = j := by
    show (j * clusterBytes p) / clusterBytes p = j
    exact Nat.mul_div_cancel j hpos
  have hmod : ((j * clusterBytes p : Nat) : Int).tmod (clusterBytes p) = 0 := by
    show (((j * clusterBytes p) % clusterBytes p : Nat) : Int) = 0
    rw [Nat.mul_mod_left]
    rfl
  have h0 : 0 ≤ c := followed_nonneg _ (Int.natCast_nonneg first) hc
  obtain ⟨r, s2, hread, rfl, hs2⟩ := clusterStream_sectors disk hs1 c n
  rw [hdiv, hc] at hlookup
  refine ⟨_, s2, ?_, by rw [followedBytes_cluster hpos hc hn], hs2⟩
  rw [bind_ok hlookup, if_neg (by simpa using h0), sizeOfClusterBytes_eq, hmod, Int.add_zero]
  exact hread

/-- the read from cluster `j` on -/
theorem readLoop_followed (disk : Disk) (hpos : 0 < clusterBytes p) (first fuel : Nat) :
    ∀ (j total : Nat) (s : FatState), OfVolume p s → total ≤ fuel →
      j * clusterBytes p + total < 2147483648 →
      (∀ i, i = 0 ∨ i * clusterBytes p < total → followed disk p.header (j + i) first ≠ none) →
      Does (readLoop (fat16GetClusterForOffset disk first) (fat16ClusterToSector p)
        (fun pos total => onClusterReadStream (readAt disk pos total)) (sizeOfClusterBytes p)
        (fuel + 1) (j * clusterBytes p : Nat) total) s
        (fun r s' => r = (0, followedBytes p disk first (j * clusterBytes p) total) ∧ OfVolume p s') := by
  have hsize := sizeOfClusterBytes_eq p
  induction fuel with
  | zero =>
    intro j total s hs hle hlow hgo
    have hfirst : followed disk p.header j first ≠ none := hgo 0 (Or.inl rfl)
    obtain rfl : total = 0 := Nat.le_zero.mp hle
    obtain ⟨r, s1, hrun, rfl, hs1⟩ := followed_piece disk hs hpos (Nat.zero_le (clusterBytes p))
      (by omega) hfirst
    refine ⟨_, s1, ?_, rfl, hs1⟩
    rw [readLoop_succ (by omega), show min ((0 : Nat) : Int) (sizeOfClusterBytes p) = (0 : Nat) by omega,
      bind_ok hrun, if_neg (not_not_intro rfl), if_neg (by omega)]
    rfl
  | succ fuel ih =>
    intro j total s hs hle hlow hgo
    have hfirst : followed disk p.header j first ≠ none := hgo 0 (Or.inl rfl)
    rcases Nat.lt_or_ge (clusterBytes p) total with hbig | hshort
    · obtain ⟨n, rfl⟩ := Nat.exists_eq_add_of_le hbig.le
      have hnext : (j + 1) * clusterBytes p = j * clusterBytes p + clusterBytes p := Nat.succ_mul _ _
      obtain ⟨r, s1, hrun, rfl, hs1⟩ := followed_piece disk hs hpos (le_refl (clusterBytes p))
        (by omega) hfirst
      obtain ⟨r, s2, hrest, rfl, hs2⟩ := ih (j + 1) n s1 hs1 (by omega) (by omega) (fun i hi => by
        have hi' : (i + 1) * clusterBytes p < clusterBytes p + n := by
          rw [Nat.succ_mul]
          rcases hi with rfl | hi
          · omega
          · omega
        have := hgo (i + 1) (Or.inr hi')
        rwa [show j + (i + 1) = j + 1 + i by omega] at this)
      have hoff : cint (((j * clusterBytes p : Nat) : Int) + (clusterBytes p : Nat))
          = ((j + 1) * clusterBytes p : Nat) := by
        rw [← Nat.cast_add, ← hnext]
        exact cint_nat (by omega)
      refine ⟨_, s2, ?_, rfl, hs2⟩
      rw [followedBytes_add, ← hnext, readLoop_succ (by omega), show min ((clusterBytes p + n : Nat) : Int)
          (sizeOfClusterBytes p) = (clusterBytes p : Nat) by omega, bind_ok hrun,
        if_neg (not_not_intro rfl), if_pos (by omega), hoff,
        show ((clusterBytes p + n : Nat) : Int) - (clusterBytes p : Nat) = (n : Nat) by omega,
        bind_ok hrest]
      rfl
    · obtain ⟨r, s1, hrun, rfl, hs1⟩ := followed_piece disk hs hpos hshort
        (by omega) hfirst
      refine ⟨_, s1, ?_, rfl, hs1⟩
      rw [readLoop_succ (by omega), show min (total : Int) (sizeOfClusterBytes p) = (total : Nat) by omega,
        bind_ok hrun, if_neg (not_not_intro rfl), if_neg (by omega)]
      rfl

/-- an item that is served from the start of the chain on is one whose lookups go on -/
theorem ItemServes.lookups (hpos : 0 < clusterBytes p) {first n : Nat} (hn : n < 2147483648)
    (h : ItemServes p disk first 0 n) : LookupsGoOn p disk first n := by
  intro j hj hnone
  have hlow : cint (0 + (j * clusterBytes p : Nat)) = (j * clusterBytes p : Nat) := by
    rw [Int.zero_add]
    exact cint_nat (by omega)
  obtain ⟨c, hc, -⟩ := h j (Or.inr (Int.ofNat_lt.mpr hj))
  have hdiv : (((j * clusterBytes p : Nat) : Int).tdiv (clusterBytes p)).toNat = j := by
    show (j * clusterBytes p) / clusterBytes p = j
    exact Nat.mul_div_cancel j hpos
  rw [hlow, hdiv, hnone] at hc
  cases hc

/-- **The read of `n` bytes from the start of a chain** -/
theorem fat16ReadInternal_start (disk : Disk) (hs : OfVolume p s) (hpos : 0 < clusterBytes p)
    (first : Nat) {n : Nat} (hn : n < 2147483648) :
    ServedIff (LookupsGoOn p disk first n) (fat16ReadInternal disk first 0 n) s
      (fun bytes s' => bytes = followedBytes p disk first 0 n ∧ OfVolume p s') := by
  constructor
  · intro hgo
    have hall : ∀ i, i = 0 ∨ i * clusterBytes p < n → followed disk p.header (0 + i) first ≠ none := by
      intro i hi
      rw [Nat.zero_add]
      rcases hi with rfl | hi
      · exact Option.some_ne_none _
      · exact hgo i hi
    obtain ⟨r, s', hrun, rfl, hs'⟩ := readLoop_followed disk hpos first n 0 n s hs (le_refl n)
      (by omega) hall
    rw [Nat.zero_mul] at hrun
    refine ⟨_, s', ?_, rfl, hs'⟩
    unfold fat16ReadInternal
    rw [bind_ok (get_run s), hs.sector, hs.size, ← sizeOfClusterBytes_eq]
    exact hrun
  · intro hno r s' hrun
    exact (fat16ReadInternal_served disk hs hpos first n rfl).refused
      (fun h => hno (h.lookups hpos hn)) r s' hrun

end

end LameOS
