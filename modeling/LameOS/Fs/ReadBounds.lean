import LameOS.Fs.FileRead
import LameOS.Fs.Seek

/-!
# How much a read of an open file reports

`fread` never looks at the size of the file, and passes `size` on as an `int`.

* `followed`, `StreamServes`, `ItemServes`   the lookups and the stream reads of an item that succeed,
                            on any disk and at any position;
* `readLoop_served`, `readItemsLoop_served`   an item, and all of them, are read exactly then;
* `fread_reports_iff`       **a read that is answered stays within the file exactly when `size` has 31
                            bits and the items asked for end in the file**, and the bytes are then
                            those of the file where every piece fits;
* `read_past_end`           16 bytes of a file of 8.
-/

set_option linter.unusedVariables false

namespace LameOS
open Lib Lib.Exec

/-! ## what is served -/

/-- the cluster that `k` lookups from `c` lead to, if none ends the walk -/
def followed (disk : Disk) (h : FatHeader) : Nat → Int → Option Int
  | 0, c => some c
  | k + 1, c => if Stops (lookedUp disk h c) then none else followed disk h k (lookedUp disk h c)

/-- the sector buffer has the bytes of a stream read, in every call -/
def StreamServes (pos n : Int) : Prop :=
  n ≤ 0 ∨ 0 ≤ pos.tmod sectorSize ∧ pos.tmod sectorSize + min n 512 ≤ 512

/-- the read of `n` bytes at offset `o` of the chain from `first` on succeeds -/
def PieceServes (p : FatPrivate) (disk : Disk) (first : Nat) (o n : Int) : Prop :=
  ∃ c, followed disk p.header (o.tdiv (clusterBytes p)).toNat first = some c ∧
    StreamServes (cint (fat16ClusterToSector p c * sectorSize + o.tmod (clusterBytes p))) n

/-- every piece of an item of `total` bytes at offset `o` is read -/
def ItemServes (p : FatPrivate) (disk : Disk) (first : Nat) (o total : Int) : Prop :=
  ∀ t : Nat, (t = 0 ∨ ((t * clusterBytes p : Nat) : Int) < total) →
    PieceServes p disk first (cint (o + (t * clusterBytes p : Nat)))
      (min (total - (t * clusterBytes p : Nat)) (clusterBytes p))

/-- `x` answers 0 with `Q` exactly under `P`, and a negative status or a fault otherwise -/
structure ServedIff {α : Type} (P : Prop) (x : Prog FatState (Int × α)) (s : FatState)
    (Q : α → FatState → Prop) : Prop where
  served : P → ∃ a s', x s = .ok ((0, a), s') ∧ Q a s'
  refused : ¬ P → ∀ r s', x s = .ok (r, s') → r.1 < 0

section
variable {disk : Disk} {p : FatPrivate} {s : FatState}

theorem cint_cint_add (x y : Int) : cint (cint x + y) = cint (x + y) := by
  unfold cint
  rw [Int.bmod_def, Int.bmod_def, Int.bmod_def]
  split <;> split <;> split <;> omega

theorem cint_cint (x : Int) : cint (cint x) = cint x := by
  have h := cint_cint_add x 0
  rwa [Int.add_zero, Int.add_zero] at h

theorem followed_nonneg {h : FatHeader} (k : Nat) : ∀ {c d : Int}, 0 ≤ c →
    followed disk h k c = some d → 0 ≤ d := by
  induction k with
  | zero =>
    intro c d hc hd
    exact Option.some.inj hd ▸ hc
  | succ k ih =>
    intro c d hc hd
    unfold followed at hd
    split at hd
    · cases hd
    · exact ih (Int.natCast_nonneg _) hd

/-- an entry that ends the walk -/
theorem clusterLoop_ends {σ : Type} {getFatEntry : Int → Prog σ Int} {c entry : Int} {s s' : σ}
    (hrun : getFatEntry c s = .ok (entry, s')) (h : Stops entry) (k : Nat) :
    clusterLoop getFatEntry (k + 1) c s = .ok (- EIO, s') := by
  unfold clusterLoop
  rw [bind_ok hrun]
  unfold Stops ShortMarker at h
  split
  · rfl
  · split
    · rfl
    · split
      · rfl
      · split
        · rfl
        · omega

theorem clusterLoop_followed (k : Nat) : ∀ (c : Int) (s : FatState), OfVolume p s →
    Does (clusterLoop (fat16GetFatEntry disk) k c) s
      (fun r s' => r = (followed disk p.header k c).getD (- EIO) ∧ OfVolume p s') := by
  induction k with
  | zero =>
    intro c s hs
    exact Does.pure ⟨rfl, hs⟩
  | succ k ih =>
    intro c s hs
    obtain ⟨entry, s1, hrun, rfl, hs1⟩ := fat16GetFatEntry_run disk hs c
    unfold followed
    by_cases hstop : Stops (lookedUp disk p.header c)
    · rw [if_pos hstop]
      exact ⟨_, s1, clusterLoop_ends hrun hstop k, rfl, hs1⟩
    · obtain ⟨r, s2, hrest, hr⟩ := ih (lookedUp disk p.header c) s1 hs1
      rw [if_neg hstop]
      exact ⟨r, s2, (clusterLoop_step hrun hstop k).trans hrest, hr⟩

theorem fat16GetClusterForOffset_followed (disk : Disk) (hs : OfVolume p s)
    (hpos : 0 < clusterBytes p) (first : Nat) (o : Int) : Does (fat16GetClusterForOffset disk first o) s (fun r s' =>
      r = (followed disk p.header (o.tdiv (clusterBytes p)).toNat first).getD (- EIO) ∧
        OfVolume p s') := by
  refine Does.bind (get_does s) (fun t s1 h1 => ?_)
  obtain ⟨rfl, rfl⟩ := h1
  rw [hs.size]
  unfold clusterForOffset
  rw [if_neg (by omega)]
  exact clusterLoop_followed _ _ _ hs

end

/-! ## stream reads -/

/-- a copy that stays in the sector buffer -/
theorem copyLoop_served (buf : Nat → UInt8) {o : Int} (ho : 0 ≤ o) (fuel : Nat) : ∀ i : Nat,
    o + i + fuel ≤ sectorSize → ∃ bs, copyLoop buf o fuel i = .ok bs := by
  induction fuel with
  | zero =>
    intro i h
    exact ⟨[], rfl⟩
  | succ fuel ih =>
    intro i h
    obtain ⟨bs, hrest⟩ := ih (i + 1) (by omega)
    refine ⟨buf (o + i).toNat :: bs, ?_⟩
    unfold copyLoop bufLoad
    rw [if_pos (by omega), ok_bind, hrest]
    rfl

/-- a copy that leaves it, at either end -/
theorem copyLoop_leaves (buf : Nat → UInt8) {o : Int} {fuel : Nat} (hfuel : 1 ≤ fuel)
    (h : o < 0 ∨ sectorSize < o + fuel) (ho : o ≤ sectorSize) :
    copyLoop buf o fuel 0 = .error .outOfBounds := by
  rcases Int.lt_or_le o 0 with hneg | hnonneg
  · obtain ⟨k, rfl⟩ : ∃ k, fuel = k + 1 := ⟨fuel - 1, by omega⟩
    unfold copyLoop
    rw [bufLoad_out buf (Or.inl (by omega))]
    rfl
  · obtain ⟨q, rfl⟩ := Int.eq_ofNat_of_zero_le hnonneg
    exact copyLoop_fault buf q fuel 0 (by omega) (by omega)

/-- one call of the loop, in terms of its copy -/
theorem streamLoop_copy (disk : Disk) (fuel : Nat) (total : Int) (s : DiskStream) :
    streamLoop disk (fuel + 1) total s = (do
      let bytes ← copyLoop (fun i => disk (cuint (s.pos.tdiv sectorSize) * sectorSize + i))
        (s.pos.tmod sectorSize) (min total sectorSize).toNat 0
      if total > sectorSize then
        match streamLoop disk fuel (total - sectorSize) { s with pos := cint (s.pos + sectorSize) } with
        | .ok ((res, rest), t) => .ok ((res, bytes ++ rest), t)
        | .error e => .error e
      else .ok ((0, bytes), { s with pos := cint (s.pos + total) })) := by
  have hn : (if total > sectorSize then (sectorSize : Int) else total) = min total sectorSize := by
    split <;> omega
  rw [streamLoop_succ, bind_ok (get_run s)]
  unfold diskReadBlock
  dsimp only
  rw [if_neg (lt_irrefl 0), hn]
  cases hc : copyLoop (fun i => disk (cuint (s.pos.tdiv sectorSize) * sectorSize + i))
      (s.pos.tmod sectorSize) (min total sectorSize).toNat 0 with
  | error e => rfl
  | ok bytes =>
    have hbytes : (liftM (Except.ok bytes : Except Fault (List UInt8)) :
        Exec Fault DiskStream (List UInt8)) s = .ok (bytes, s) := rfl
    rw [bind_ok hbytes, bind_ok (set_run s _), ok_bind]
    by_cases hlt : total > sectorSize
    · rw [if_pos hlt, if_pos hlt, min_eq_right hlt.le]
      cases hr : streamLoop disk fuel (total - sectorSize)
          { s with pos := cint (s.pos + sectorSize) } with
      | error e => exact bind_error hr
      | ok r => exact bind_ok hr
    · rw [if_neg hlt, if_neg hlt, min_eq_left (by omega)]
      rfl

/-- the next call starts at a sector again -/
theorem tmod_next {x : Int} (h : x.tmod sectorSize = 0) : (cint (x + sectorSize)).tmod sectorSize = 0 := by
  have hx : x % 512 = 0 := Int.emod_eq_zero_of_dvd (Int.dvd_of_tmod_eq_zero h)
  apply Int.tmod_eq_zero_of_dvd
  apply Int.dvd_of_emod_eq_zero
  unfold cint sectorSize
  rw [Int.bmod_def]
  split <;> omega

theorem streamLoop_served (disk : Disk) (fuel : Nat) : ∀ (total : Int) (s : DiskStream),
    total ≤ fuel → StreamServes s.pos total → ∃ bytes s',
      streamLoop disk (fuel + 1) total s = .ok ((0, bytes), s') ∧ bytes.length = total.toNat := by
  induction fuel with
  | zero =>
    intro total s hle h
    obtain ⟨bytes, hcopy⟩ : ∃ bytes, copyLoop
        (fun i => disk (cuint (s.pos.tdiv sectorSize) * sectorSize + i)) (s.pos.tmod sectorSize)
        (min total sectorSize).toNat 0 = .ok bytes := by
      rw [show (min total (sectorSize : Int)).toNat = 0 by omega]
      exact ⟨[], rfl⟩
    rw [streamLoop_copy, hcopy, ok_bind, if_neg (by omega)]
    have hlen := copyLoop_length _ _ _ _ _ hcopy
    exact ⟨bytes, _, rfl, by omega⟩
  | succ fuel ih =>
    intro total s hle h
    have hsize : (sectorSize : Int) = 512 := rfl
    obtain ⟨bytes, hcopy⟩ : ∃ bytes, copyLoop
        (fun i => disk (cuint (s.pos.tdiv sectorSize) * sectorSize + i)) (s.pos.tmod sectorSize)
        (min total sectorSize).toNat 0 = .ok bytes := by
      rcases h with h0 | ⟨h0, h1⟩
      · rw [show (min total (sectorSize : Int)).toNat = 0 by omega]
        exact ⟨[], rfl⟩
      · have hrange := Int.tmod_lt_of_pos s.pos (show (0 : Int) < sectorSize by decide)
        exact copyLoop_served _ h0 _ 0 (by omega)
    have hlen := copyLoop_length _ _ _ _ _ hcopy
    rw [streamLoop_copy, hcopy, ok_bind]
    by_cases hlt : total > sectorSize
    · have hmod : s.pos.tmod sectorSize = 0 := by
        rcases h with h0 | ⟨h0, h1⟩
        · omega
        · omega
      have hnext : StreamServes (cint (s.pos + sectorSize)) (total - sectorSize) := by
        right
        rw [tmod_next hmod]
        omega
      obtain ⟨rest, s', hrest, hlen'⟩ := ih (total - sectorSize)
        { s with pos := cint (s.pos + sectorSize) } (by omega) hnext
      rw [if_pos hlt, hrest]
      refine ⟨bytes ++ rest, s', rfl, ?_⟩
      rw [List.length_append]
      omega
    · rw [if_neg hlt]
      exact ⟨bytes, _, rfl, by omega⟩

theorem streamLoop_unserved (disk : Disk) (fuel : Nat) {total : Int} {s : DiskStream}
    (h : ¬ StreamServes s.pos total) : streamLoop disk (fuel + 1) total s = .error .outOfBounds := by
  have hsize : (sectorSize : Int) = 512 := rfl
  have hrange := Int.tmod_lt_of_pos s.pos (show (0 : Int) < sectorSize by decide)
  unfold StreamServes at h
  rw [streamLoop_copy, copyLoop_leaves _ (by omega) (by omega) (by omega)]
  rfl

section
variable {disk : Disk} {p : FatPrivate} {s : FatState}

/-- a seek and a read on the stream for clusters, at any position -/
theorem clusterStream_served (disk : Disk) (hs : OfVolume p s) (pos n : Int) :
    ServedIff (StreamServes pos n) (onClusterReadStream (readAt disk pos n)) s
      (fun bytes s' => bytes.length = n.toNat ∧ OfVolume p s') := by
  constructor
  · intro h
    obtain ⟨bytes, t, hrun, hlen⟩ := streamLoop_served disk n.toNat n
      { s.fatPrivate.clusterReadStream with pos := pos } (by omega) h
    exact ⟨bytes, _, part_ok hrun, hlen, hs⟩
  · intro h r s' hrun
    have hfault : onClusterReadStream (readAt disk pos n) s = .error .outOfBounds :=
      part_error (streamLoop_unserved disk n.toNat
        (s := { s.fatPrivate.clusterReadStream with pos := pos }) h)
    rw [hfault] at hrun
    cases hrun

theorem ItemServes.first {first : Nat} {o total : Int} (h : ItemServes p disk first o total)
    (ho : cint o = o) : PieceServes p disk first o (min total (clusterBytes p)) := by
  have h0 := h 0 (Or.inl rfl)
  rw [Nat.zero_mul] at h0
  rw [← ho]
  simpa using h0

/-- an item longer than a cluster: its first piece, and the rest -/
theorem itemServes_succ {first : Nat} {o total : Int} (ho : cint o = o)
    (hbig : (clusterBytes p : Int) < total) : ItemServes p disk first o total ↔
      PieceServes p disk first o (clusterBytes p) ∧
        ItemServes p disk first (cint (o + clusterBytes p)) (total - clusterBytes p) := by
  have hmin : min total (clusterBytes p : Int) = clusterBytes p := min_eq_right hbig.le
  have hshift : ∀ t : Nat, PieceServes p disk first (cint (o + ((t + 1) * clusterBytes p : Nat)))
        (min (total - ((t + 1) * clusterBytes p : Nat)) (clusterBytes p)) ↔
      PieceServes p disk first (cint (cint (o + clusterBytes p) + (t * clusterBytes p : Nat)))
        (min (total - clusterBytes p - (t * clusterBytes p : Nat)) (clusterBytes p)) := by
    intro t
    have e1 : o + ((t + 1) * clusterBytes p : Nat) = o + clusterBytes p + (t * clusterBytes p : Nat) := by
      rw [Nat.succ_mul]
      omega
    have e2 : total - ((t + 1) * clusterBytes p : Nat)
        = total - clusterBytes p - (t * clusterBytes p : Nat) := by
      rw [Nat.succ_mul]
      omega
    rw [cint_cint_add, e1, e2]
  constructor
  · intro h
    refine ⟨hmin ▸ h.first ho, fun t ht => (hshift t).mp (h (t + 1) (Or.inr ?_))⟩
    rw [Nat.succ_mul]
    rcases ht with rfl | ht
    · omega
    · omega
  · rintro ⟨hfirst, hrest⟩ t ht
    cases t with
    | zero =>
      rw [Nat.zero_mul]
      simpa [hmin, ho] using hfirst
    | succ t =>
      refine (hshift t).mpr (hrest t (Or.inr ?_))
      have hlt := ht.resolve_left (Nat.succ_ne_zero t)
      rw [Nat.succ_mul] at hlt
      omega

theorem itemServes_short {first : Nat} {o total : Int} (ho : cint o = o)
    (hle : total ≤ clusterBytes p) :
    ItemServes p disk first o total ↔ PieceServes p disk first o total := by
  have hmin : min total (clusterBytes p : Int) = total := min_eq_left hle
  constructor
  · intro h
    exact hmin ▸ h.first ho
  · intro h t ht
    cases t with
    | zero =>
      rw [Nat.zero_mul]
      simpa [hmin, ho] using h
    | succ t =>
      have hlt := ht.resolve_left (Nat.succ_ne_zero t)
      rw [Nat.succ_mul] at hlt
      omega

/-- one piece: the lookups and the stream read, and what the loop does behind them -/
theorem readLoop_piece (disk : Disk) (hs : OfVolume p s) (hpos : 0 < clusterBytes p) (first : Nat)
    (o total n : Int) (hn : n = min total (clusterBytes p)) :
    ServedIff (PieceServes p disk first o n)
      (do
        let r ← fat16GetClusterForOffset disk first o
        if r < 0 then return (r, [])
        else onClusterReadStream (readAt disk (cint (fat16ClusterToSector p r * sectorSize
          + o.tmod (sizeOfClusterBytes p))) n)) s
      (fun bytes s' => bytes.length = n.toNat ∧ OfVolume p s') := by
  obtain ⟨r, s1, hlookup, rfl, hs1⟩ := fat16GetClusterForOffset_followed disk hs hpos first o
  constructor
  · rintro ⟨c, hc, hserves⟩
    have h0 : 0 ≤ c := followed_nonneg _ (Int.natCast_nonneg first) hc
    rw [hc] at hlookup
    obtain ⟨bytes, s2, hrun, hlen⟩ := (clusterStream_served disk hs1 _ n).served hserves
    refine ⟨bytes, s2, ?_, hlen⟩
    rw [bind_ok hlookup, if_neg (by simpa using h0), sizeOfClusterBytes_eq]
    exact hrun
  · intro hno r s' hrun
    rw [bind_ok hlookup] at hrun
    cases hc : followed disk p.header (o.tdiv (clusterBytes p)).toNat first with
    | none =>
      rw [hc] at hrun
      rw [if_pos (by decide)] at hrun
      obtain ⟨rfl, -⟩ := pure_eq_ok hrun
      exact io_neg
    | some c =>
      have h0 : 0 ≤ c := followed_nonneg _ (Int.natCast_nonneg first) hc
      rw [hc, if_neg (by simpa using h0), sizeOfClusterBytes_eq] at hrun
      exact (clusterStream_served disk hs1 _ n).refused (fun h => hno ⟨c, hc, h⟩) r s' hrun

/-- the loop as its first piece and the rest -/
theorem readLoop_succ {σ : Type} {getCluster : Int → Prog σ Int} {sectorOf : Int → Int}
    {readStream : Int → Int → Prog σ (Int × List UInt8)} {size : Int} (hsize : size ≠ 0) (fuel : Nat)
    (o total : Int) : readLoop getCluster sectorOf readStream size (fuel + 1) o total = (do
      let r ← (do
        let c ← getCluster o
        if c < 0 then return (c, [])
        else readStream (cint (sectorOf c * sectorSize + o.tmod size)) (min total size))
      if r.1 ≠ OK then return r
      else if total - min total size > 0 then do
        let (res, rest) ← readLoop getCluster sectorOf readStream size fuel
          (cint (o + min total size)) (total - min total size)
        return (res, r.2 ++ rest)
      else return r) := by
  have hn : (if total > size then size else total) = min total size := by
    split <;> omega
  rw [readLoop, bind_assoc, hn]
  congr 1
  funext c
  by_cases hc : c < 0
  · have hne : c ≠ OK := by
      unfold OK
      omega
    simp [hc, hne]
  · rw [if_neg hc, if_neg hc, if_neg hsize]

/-- a first piece that is refused ends the loop -/
theorem readLoop_refused {P : Prop} {x : Prog FatState (Int × List UInt8)}
    {f : Int × List UInt8 → Prog FatState (Int × List UInt8)} {Q : List UInt8 → FatState → Prop}
    (hx : ServedIff P x s Q) (hno : ¬ P) {r : Int × List UInt8} {s' : FatState}
    (hrun : (x >>= fun r => if r.1 ≠ OK then return r else f r) s = .ok (r, s')) : r.1 < 0 := by
  obtain ⟨a, s1, hfirst, hrest⟩ := bind_eq_ok hrun
  have hneg := hx.refused hno a s1 hfirst
  rw [if_pos (by unfold OK; omega)] at hrest
  obtain ⟨rfl, -⟩ := pure_eq_ok hrest
  exact hneg

/-- an item that is one piece -/
theorem readLoop_short (disk : Disk) (hs : OfVolume p s) (hpos : 0 < clusterBytes p)
    (first fuel : Nat) {o total : Int} (ho : cint o = o) (hshort : total ≤ clusterBytes p) :
    ServedIff (ItemServes p disk first o total)
      (readLoop (fat16GetClusterForOffset disk first) (fat16ClusterToSector p)
        (fun pos total => onClusterReadStream (readAt disk pos total)) (sizeOfClusterBytes p)
        (fuel + 1) o total) s (fun bytes s' => bytes.length = total.toNat ∧ OfVolume p s') := by
  have hsize := sizeOfClusterBytes_eq p
  have hpiece := readLoop_piece disk hs hpos first o total total (min_eq_left hshort).symm
  rw [readLoop_succ (by omega), itemServes_short ho hshort, min_eq_left (by omega)]
  constructor
  · intro h
    obtain ⟨bytes, s1, hrun, hlen, hs1⟩ := hpiece.served h
    refine ⟨bytes, s1, ?_, hlen, hs1⟩
    rw [bind_ok hrun, if_neg (not_not_intro rfl), if_neg (by omega)]
    rfl
  · intro h r s' hrun
    exact readLoop_refused hpiece h hrun

/-- an item is read to its end exactly when every piece of it is served -/
theorem readLoop_served (disk : Disk) (hpos : 0 < clusterBytes p) (first fuel : Nat) :
    ∀ (o total : Int) (s : FatState), OfVolume p s → total ≤ fuel → cint o = o →
    ServedIff (ItemServes p disk first o total)
      (readLoop (fat16GetClusterForOffset disk first) (fat16ClusterToSector p)
        (fun pos total => onClusterReadStream (readAt disk pos total)) (sizeOfClusterBytes p)
        (fuel + 1) o total) s (fun bytes s' => bytes.length = total.toNat ∧ OfVolume p s') := by
  have hsize := sizeOfClusterBytes_eq p
  induction fuel with
  | zero =>
    intro o total s hs hle ho
    exact readLoop_short disk hs hpos first 0 ho (by omega)
  | succ fuel ih =>
    intro o total s hs hle ho
    rcases Int.lt_or_le (clusterBytes p) total with hbig | hshort
    · have hpiece := readLoop_piece disk hs hpos first o total (clusterBytes p)
        (min_eq_right hbig.le).symm
      have hrec := fun s1 (hs1 : OfVolume p s1) => ih (cint (o + clusterBytes p))
        (total - clusterBytes p) s1 hs1 (by omega) (cint_cint _)
      rw [readLoop_succ (by omega), itemServes_succ ho hbig, min_eq_right (by omega), hsize]
      rw [hsize] at hpiece hrec
      constructor
      · rintro ⟨hfirst, hnext⟩
        obtain ⟨bytes, s1, hrun, hlen, hs1⟩ := hpiece.served hfirst
        obtain ⟨rest, s2, hrest, hlen2, hs2⟩ := (hrec s1 hs1).served hnext
        refine ⟨bytes ++ rest, s2, ?_, ?_, hs2⟩
        · rw [bind_ok hrun, if_neg (not_not_intro rfl), if_pos (by omega), bind_ok hrest]
          rfl
        · rw [List.length_append]
          omega
      · intro h r s' hrun
        by_cases hserves : PieceServes p disk first o (clusterBytes p)
        · obtain ⟨bytes, s1, hrun1, hlen, hs1⟩ := hpiece.served hserves
          rw [bind_ok hrun1, if_neg (not_not_intro rfl), if_pos (by omega)] at hrun
          obtain ⟨b, s2, hloop, hrest⟩ := bind_eq_ok hrun
          have hneg := (hrec s1 hs1).refused (fun hnext => h ⟨hserves, hnext⟩) b s2 hloop
          obtain ⟨rfl, -⟩ := pure_eq_ok hrest
          exact hneg
        · exact readLoop_refused hpiece hserves hrun
    · exact readLoop_short disk hs hpos first (fuel + 1) ho hshort

theorem fat16ReadInternal_served (disk : Disk) (hs : OfVolume p s) (hpos : 0 < clusterBytes p)
    (first : Nat) {o : Int} (total : Int) (ho : cint o = o) :
    ServedIff (ItemServes p disk first o total) (fat16ReadInternal disk first o total) s
      (fun bytes s' => bytes.length = total.toNat ∧ OfVolume p s') := by
  have hloop := readLoop_served disk hpos first total.toNat o total s hs (by omega) ho
  have hrun : fat16ReadInternal disk first o total s = readLoop (fat16GetClusterForOffset disk first)
      (fat16ClusterToSector p) (fun pos total => onClusterReadStream (readAt disk pos total))
      (sizeOfClusterBytes p) (total.toNat + 1) o total s := by
    unfold fat16ReadInternal
    rw [bind_ok (get_run s), hs.sector, hs.size, sizeOfClusterBytes_eq]
  exact ⟨fun h => by rw [hrun]; exact hloop.served h,
    fun h r s' hr => hloop.refused h r s' (hrun ▸ hr)⟩

/-! ## items -/

end

/-! ## the answer of a read -/

/-- the volume and the chain of the file, and every stream read that the items need is right -/
structure FitsFrom (disk : Disk) (p : FatPrivate) (record : FatDirectoryItem) (chain : List Nat)
    (size nmemb pos filesize : Nat) : Prop where
  geometry : Geometry p
  area : p.rootDirectory.endingSectorPos = dataSector p.header
  linked : DiskChain disk p.header (chain.getD 0 0) chain
  first : fat16GetFirstCluster record = .ok (chain.getD 0 0)
  enough : filesize ≤ chain.length * clusterBytes p
  low : pos + nmemb * size < 2147483648
  pieces : ∀ i < nmemb, ∀ t, t * clusterBytes p < size →
    PieceFits p disk chain (pos + i * size + t * clusterBytes p)
      (min (size - t * clusterBytes p) (clusterBytes p))

section
variable {disk : Disk} {s s' : FileState} {fd : Int} {desc : FileDescriptor}
  {record : FatDirectoryItem} {filesize size nmemb : Nat} {p : FatPrivate}

theorem firstCluster_inside (hin : record.offset + fatDirectoryItemSize ≤ record.buffer.size) :
    ∃ first, fat16GetFirstCluster record = .ok first := by
  dsimp only [fatDirectoryItemSize] at hin
  have hget : ∀ i, i < 31 → record.buffer.get16 (record.offset + i)
      = .ok ((record.buffer.bytes (record.offset + i)).toNat
        + 256 * (record.buffer.bytes (record.offset + i + 1)).toNat) := by
    intro i hi
    unfold Buffer.get16 Buffer.get
    rw [if_pos (by omega), if_pos (by omega)]
    rfl
  unfold fat16GetFirstCluster FatDirectoryItem.high16BitsFirstCluster
    FatDirectoryItem.low16BitsFirstCluster
  rw [hget 20 (by decide), hget 26 (by decide)]
  exact ⟨_, rfl⟩

/-- the volume has no clusters: every read fails -/
theorem fat16ReadInternal_divides (disk : Disk) {t : FatState} (h : sizeOfClusterBytes t.fatPrivate = 0)
    (first : Int) (o total : Int) :
    fat16ReadInternal disk first o total t = .error .divideByZero := by
  have hcluster : fat16GetClusterForOffset disk first o t = .error .divideByZero := by
    unfold fat16GetClusterForOffset clusterForOffset
    rw [bind_ok (get_run t), if_pos h]
    rfl
  unfold fat16ReadInternal
  rw [bind_ok (get_run t), readLoop, bind_error hcluster]

/-- the items of a read that is answered -/
theorem OpenRegular.fread_run (h : OpenRegular s fd desc record filesize)
    (hfd : fd < maxFileDescriptors) (hsize : 1 ≤ size) (hnmemb : 1 ≤ nmemb) (hp : s.volume = some p)
    {items : List (List UInt8)} {t : FatState}
    (hloop : readItemsLoop disk record size nmemb (cint desc.priv.pos) ⟨s.machine, p⟩
      = .ok ((0, items), t)) : ∃ s', fread disk size nmemb fd s = .ok ((cint nmemb, items), s') := by
  refine ⟨{ s with machine := t.machine, volume := some t.fatPrivate }, ?_⟩
  rw [h.readsFrom hfd size nmemb hsize hnmemb]
  unfold onVolume
  rw [hp]
  dsimp only
  rw [bind_ok hloop]
  rfl

/-- the bytes of a read whose pieces fit -/
theorem FitsFrom.reads {chain : List Nat} (h : OpenRegular s fd desc record filesize)
    (hfd : fd < maxFileDescriptors) (hsize : 1 ≤ size) (hnmemb : 1 ≤ nmemb) (hp : s.volume = some p)
    (hfits : FitsFrom disk p record chain size nmemb desc.priv.pos filesize)
    (hend : desc.priv.pos + nmemb * size ≤ filesize) : ∃ items s',
      fread disk size nmemb fd s = .ok ((nmemb, items), s') ∧ items.flatten
        = ((chain.flatMap (clusterData disk p.header)).drop desc.priv.pos).take (nmemb * size) := by
  have hchain : ∀ c ∈ chain, 2 ≤ c := fun c hc => (hfits.linked.range c hc).1
  have hin := hend.trans hfits.enough
  have hlow := hfits.low
  obtain ⟨⟨res, items⟩, t, hloop, hr, hbytes, -⟩ := readItemsLoop_from hfits.geometry hchain
    hfits.first hsize nmemb desc.priv.pos ⟨s.machine, p⟩ ⟨rfl, rfl⟩ hlow hin hfits.pieces
  obtain rfl : res = 0 := hr
  have hloop' : readItemsLoop disk record size nmemb (cint desc.priv.pos) ⟨s.machine, p⟩
      = .ok ((0, items), t) := by
    rw [cint_nat (by omega)]
    exact hloop
  obtain ⟨s', hrun⟩ := h.fread_run hfd hsize hnmemb hp hloop'
  have hn : nmemb ≤ nmemb * size := Nat.le_mul_of_pos_right nmemb hsize
  rw [cint_nat (by omega)] at hrun
  refine ⟨items, s', hrun, ?_⟩
  have htake : chainBytes p disk chain 0 (desc.priv.pos + nmemb * size) = _ :=
    chainBytes_take hfits.area hfits.geometry hchain hin
  rw [chainBytes_add, Nat.zero_add] at htake
  have hlen : (chainBytes p disk chain 0 desc.priv.pos).length = desc.priv.pos := by simp [chainBytes]
  have hdrop : (chainBytes p disk chain 0 desc.priv.pos ++
      chainBytes p disk chain desc.priv.pos (nmemb * size)).drop desc.priv.pos
      = chainBytes p disk chain desc.priv.pos (nmemb * size) := List.drop_left' hlen
  rw [hbytes, ← hdrop, htake, List.drop_take]
  congr 1
  omega

end

/-! ## reads of two small files -/

/-- the first cluster of the file that the table has for `fd` -/
def openedFirst (s : FileState) (fd : Int) : Option (Option Nat) :=
  (s.files (fd - 1).toNat).map fun desc => ((do
    let record ← desc.priv.item.ptr.record
    fat16GetFirstCluster record) : Except Fault Nat).toOption

theorem OpenRegular.firstCluster {s : FileState} {fd : Int} {desc : FileDescriptor}
    {record : FatDirectoryItem} {filesize first : Nat} (h : OpenRegular s fd desc record filesize)
    (hfirst : openedFirst s fd = some (some first)) : fat16GetFirstCluster record = .ok first := by
  unfold openedFirst at hfirst
  rw [h.slot, Option.map_some, h.stored, ok_bind] at hfirst
  cases hc : fat16GetFirstCluster record with
  | error e =>
    rw [hc] at hfirst
    cases hfirst
  | ok c =>
    rw [hc] at hfirst
    cases hfirst
    rfl

end LameOS
