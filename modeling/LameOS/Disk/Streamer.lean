import LameOS.Config
import LameOS.Lib.Exec
import Mathlib.Data.List.GetD

/-!
# `disk.c` and `streamer.c`: reading a disk at a byte position

A disk is the byte at every position; the driver delivers the sector that it is asked for.  A read
returns its status and the bytes that it stores from `out` on, in their order.

* `diskReadBlock`, `diskstreamerSeek`, `diskstreamerRead`   the code;
* `diskBytes`               the bytes of a disk from a position on;
* `diskstreamerRead_ok`, `diskstreamerRead_fault`   a read inside the bounds of the sector buffer,
                            and one that leaves it;
* `diskstreamerRead_within` a read that ends in its sector, at any position;
* `diskstreamer_read_iff`   when a read delivers the bytes that it was asked for.
-/

set_option linter.unusedVariables false

namespace LameOS
open Lib Lib.Exec

/-- the byte at every position of a disk -/
abbrev Disk := Nat → UInt8

/-- `struct disk_stream`, at its address; the disk is the only one there is -/
structure DiskStream where
  addr : Nat
  pos : Int

/-! ## the code -/

/-- the status and the sector buffer after the call -/
def diskReadBlock (disk : Disk) (lba : Int) : Int × (Nat → UInt8) :=
  (0, fun i => disk (cuint lba * sectorSize + i))

def diskstreamerSeek (pos : Int) : Exec Fault DiskStream Int := do
  modify (fun s => { s with pos := pos })
  return 0

/-- `buf[i]` of the sector buffer -/
def bufLoad (buf : Nat → UInt8) (i : Int) : Except Fault UInt8 :=
  if 0 ≤ i ∧ i < sectorSize then .ok (buf i.toNat) else .error .outOfBounds

/-- the loop of `diskstreamerRead` at index `i`, with `fuel` bytes left -/
def copyLoop (buf : Nat → UInt8) (offset : Int) : Nat → Nat → Except Fault (List UInt8)
  | 0, _ => .ok []
  | fuel + 1, i => do
    let b ← bufLoad buf (offset + i)
    let bs ← copyLoop buf offset fuel (i + 1)
    return b :: bs

/-- `diskstreamerRead`, with at most `fuel` calls nested -/
def streamLoop (disk : Disk) : Nat → Int → Exec Fault DiskStream (Int × List UInt8)
  | 0, _ => throw .endlessLoop
  | fuel + 1, total => do
    let stream ← get
    let sector := stream.pos.tdiv sectorSize
    let offset := stream.pos.tmod sectorSize
    let (res, buf) := diskReadBlock disk sector
    if res < 0 then
      return (res, [])
    else
      let totalToRead := if total > sectorSize then (sectorSize : Int) else total
      let bytes ← copyLoop buf offset totalToRead.toNat 0
      set { stream with pos := cint (stream.pos + totalToRead) }
      if total > sectorSize then
        let (res, rest) ← streamLoop disk fuel (total - sectorSize)
        return (res, bytes ++ rest)
      else
        return (res, bytes)

def diskstreamerRead (disk : Disk) (total : Int) : Exec Fault DiskStream (Int × List UInt8) :=
  streamLoop disk (total.toNat + 1) total

/-! ## the bytes of a disk -/

/-- `n` bytes from position `p` on -/
def diskBytes (disk : Disk) (p n : Nat) : List UInt8 := (List.range n).map (fun i => disk (p + i))

@[simp] theorem diskBytes_length (disk : Disk) (p n : Nat) : (diskBytes disk p n).length = n := by
  simp [diskBytes]

theorem diskBytes_add (disk : Disk) (p m n : Nat) :
    diskBytes disk p (m + n) = diskBytes disk p m ++ diskBytes disk (p + m) n := by
  unfold diskBytes
  rw [List.range_add, List.map_append, List.map_map]
  congr 1
  apply List.map_congr_left
  intro i hi
  show disk (p + (m + i)) = disk (p + m + i)
  rw [Nat.add_assoc]

theorem diskBytes_succ (disk : Disk) (p n : Nat) :
    diskBytes disk p (n + 1) = disk p :: diskBytes disk (p + 1) n := by
  rw [Nat.add_comm n 1, diskBytes_add]
  rfl

theorem diskBytes_getD (disk : Disk) (p n : Nat) {i : Nat} (hi : i < n) :
    (diskBytes disk p n).getD i 0 = disk (p + i) := by
  have h : i < (diskBytes disk p n).length := by
    rw [diskBytes_length]
    exact hi
  rw [List.getD_eq_getElem _ _ h]
  simp [diskBytes]

/-! ## one sector -/

theorem bufLoad_ok (buf : Nat → UInt8) {i : Nat} (h : i < sectorSize) :
    bufLoad buf i = .ok (buf i) := by
  unfold bufLoad
  rw [if_pos (by omega), Int.toNat_natCast]

theorem bufLoad_out (buf : Nat → UInt8) {i : Int} (h : i < 0 ∨ sectorSize ≤ i) :
    bufLoad buf i = .error .outOfBounds := if_neg (by omega)

theorem copyLoop_ok (disk : Disk) (q : Nat) (offset : Nat) (fuel : Nat) : ∀ i,
    offset + i + fuel ≤ sectorSize →
      copyLoop (fun j => disk (q + j)) offset fuel i = .ok (diskBytes disk (q + offset + i) fuel) := by
  induction fuel with
  | zero =>
    intro i h
    rfl
  | succ fuel ih =>
    intro i h
    have hb : bufLoad (fun j => disk (q + j)) ((offset : Int) + i)
        = .ok (disk (q + offset + i)) := by
      have e : (offset : Int) + i = ((offset + i : Nat) : Int) := by omega
      rw [e, bufLoad_ok _ (by omega), Nat.add_assoc]
    show (do
      let b ← bufLoad (fun j => disk (q + j)) ((offset : Int) + i)
      let bs ← copyLoop (fun j => disk (q + j)) offset fuel (i + 1)
      return b :: bs) = _
    rw [hb, ih (i + 1) (by omega), diskBytes_succ]
    rfl

/-- a copy past the end of the sector buffer -/
theorem copyLoop_fault (buf : Nat → UInt8) (offset : Nat) (fuel : Nat) : ∀ i,
    offset + i ≤ sectorSize → sectorSize < offset + i + fuel →
      copyLoop buf offset fuel i = .error .outOfBounds := by
  induction fuel with
  | zero =>
    intro i h1 h2
    omega
  | succ fuel ih =>
    intro i h1 h2
    show (do
      let b ← bufLoad buf ((offset : Int) + i)
      let bs ← copyLoop buf offset fuel (i + 1)
      return b :: bs) = _
    rcases Nat.lt_or_ge (offset + i) sectorSize with hlt | hge
    · have e : (offset : Int) + i = ((offset + i : Nat) : Int) := by omega
      rw [e, bufLoad_ok _ hlt, ih (i + 1) (by omega) (by omega)]
      rfl
    · rw [bufLoad_out buf (Or.inr (by omega))]
      rfl

/-! ## a read -/

/-- the sector at a position -/
theorem diskReadBlock_pos (disk : Disk) {pos : Nat} (h : pos < 2147483648) :
    diskReadBlock disk ((pos : Int).tdiv sectorSize)
      = (0, fun i => disk (pos / 512 * 512 + i)) := by
  have e : cuint ((pos : Int).tdiv sectorSize) = pos / 512 := by
    have : (pos : Int).tdiv sectorSize = ((pos / 512 : Nat) : Int) := rfl
    rw [this, cuint_nat (by omega)]
  unfold diskReadBlock
  rw [e]

theorem streamLoop_succ (disk : Disk) (fuel : Nat) (total : Int) :
    streamLoop disk (fuel + 1) total = (get >>= fun stream =>
      let (res, buf) := diskReadBlock disk (stream.pos.tdiv sectorSize)
      if res < 0 then pure (res, [])
      else do
        let totalToRead := if total > sectorSize then (sectorSize : Int) else total
        let bytes ← copyLoop buf (stream.pos.tmod sectorSize) totalToRead.toNat 0
        set { stream with pos := cint (stream.pos + totalToRead) }
        if total > sectorSize then
          let (res, rest) ← streamLoop disk fuel (total - sectorSize)
          return (res, bytes ++ rest)
        else
          return (res, bytes)) := rfl

/-- a call of `diskstreamerRead` at a position of the disk -/
theorem streamLoop_at (disk : Disk) (s : DiskStream) {pos : Nat} (total : Nat) (hs : s.pos = pos)
    (h : pos < 2147483648) (fuel : Nat) :
    streamLoop disk (fuel + 1) total s = (do
      let bytes ← copyLoop (fun i => disk (pos / 512 * 512 + i)) (pos % 512 : Nat)
        (min total 512) 0
      if 512 < total then
        match streamLoop disk fuel (total - 512 : Nat) { s with pos := cint (pos + 512 : Nat) } with
        | .ok ((res, rest), t) => .ok ((res, bytes ++ rest), t)
        | .error e => .error e
      else
        .ok ((0, bytes), { s with pos := cint (pos + total : Nat) })) := by
  have hmod : (pos : Int).tmod sectorSize = ((pos % 512 : Nat) : Int) := rfl
  have hn : (if (total : Int) > sectorSize then (sectorSize : Int) else total)
      = ((min total 512 : Nat) : Int) := by
    unfold sectorSize
    split <;> omega
  rw [streamLoop_succ, bind_ok (get_run s), hs, diskReadBlock_pos disk h, hmod]
  dsimp only
  rw [if_neg (lt_irrefl 0), hn, Int.toNat_natCast, ← Nat.cast_add]
  cases hc : copyLoop (fun i => disk (pos / 512 * 512 + i)) (pos % 512 : Nat) (min total 512) 0 with
  | error e => rfl
  | ok bytes =>
    have hbytes : (liftM (Except.ok bytes : Except Fault (List UInt8)) :
        Exec Fault DiskStream (List UInt8)) s = .ok (bytes, s) := rfl
    rw [bind_ok hbytes, bind_ok (set_run s _)]
    show _ = if 512 < total then _ else _
    by_cases hlt : 512 < total
    · have e : (total : Int) - sectorSize = ((total - 512 : Nat) : Int) := by
        unfold sectorSize
        omega
      rw [if_pos (by unfold sectorSize; omega), if_pos hlt, Nat.min_eq_right (by omega), e]
      cases hr : streamLoop disk fuel (total - 512 : Nat) { s with pos := cint (pos + 512 : Nat) } with
      | error e => exact bind_error hr
      | ok r => exact bind_ok hr
    · rw [if_neg (by unfold sectorSize; omega), if_neg hlt, Nat.min_eq_left (by omega)]
      rfl

/-- the bytes asked for lie in the sector buffer, in every call -/
def InSector (pos total : Nat) : Prop := pos % 512 + min total 512 ≤ 512

instance (pos total : Nat) : Decidable (InSector pos total) := inferInstanceAs (Decidable (_ ≤ _))

theorem streamLoop_ok (disk : Disk) (fuel : Nat) : ∀ (s : DiskStream) (pos total : Nat),
    s.pos = pos → pos + total < 2147483648 → InSector pos total → total ≤ fuel * 512 →
      streamLoop disk (fuel + 1) total s
        = .ok ((0, diskBytes disk pos total), { s with pos := (pos + total : Nat) }) := by
  induction fuel with
  | zero =>
    intro s pos total hs h hin hle
    obtain rfl : total = 0 := by omega
    rw [streamLoop_at disk s 0 hs (by omega), cint_nat h]
    rfl
  | succ fuel ih =>
    intro s pos total hs h hin hle
    unfold InSector at hin
    have hcopy := copyLoop_ok disk (pos / 512 * 512) (pos % 512) (min total 512) 0 (by omega)
    have e : pos / 512 * 512 + pos % 512 + 0 = pos := by omega
    rw [e] at hcopy
    rw [streamLoop_at disk s total hs (by omega), hcopy]
    by_cases hlt : 512 < total
    · -- the position is that of a sector, here and in the call nested
      have hrest := ih { s with pos := (pos + 512 : Nat) } (pos + 512) (total - 512) rfl
        (by omega) (by unfold InSector; omega) (by omega)
      have hbytes := diskBytes_add disk pos 512 (total - 512)
      rw [Nat.add_sub_cancel' hlt.le] at hbytes
      have hend : pos + 512 + (total - 512) = pos + total := by omega
      rw [hend] at hrest
      rw [ok_bind, if_pos hlt, cint_nat (by omega), hrest, Nat.min_eq_right hlt.le, hbytes]
    · rw [ok_bind, if_neg hlt, cint_nat h, Nat.min_eq_left (by omega)]

section
variable (disk : Disk) {s : DiskStream} {pos total : Nat}

theorem diskstreamerRead_ok (hs : s.pos = pos) (h : pos + total < 2147483648)
    (hin : InSector pos total) : diskstreamerRead disk total s
      = .ok ((0, diskBytes disk pos total), { s with pos := (pos + total : Nat) }) := by
  refine streamLoop_ok disk total s pos total hs h hin ?_
  omega

/-- a read that ends in the sector it starts in, whatever the position -/
theorem diskstreamerRead_within {o n : Nat} (ho : s.pos.tmod sectorSize = o) (h : o + n ≤ 512) :
    diskstreamerRead disk n s
      = .ok ((0, diskBytes disk (cuint (s.pos.tdiv sectorSize) * sectorSize + o) n),
        { s with pos := cint (s.pos + n) }) := by
  have hcopy := copyLoop_ok disk (cuint (s.pos.tdiv sectorSize) * sectorSize) o n 0 (by
    unfold sectorSize
    omega)
  rw [Nat.add_zero] at hcopy
  have hn : ¬ (n : Int) > sectorSize := by
    unfold sectorSize
    omega
  show streamLoop disk (n + 1) (n : Nat) s = _
  rw [streamLoop_succ, bind_ok (get_run s), ho]
  unfold diskReadBlock
  dsimp only
  rw [if_neg (lt_irrefl 0), if_neg hn, Int.toNat_natCast, hcopy]
  show (if (n : Int) > sectorSize then _ else _ : Exec Fault DiskStream (Int × List UInt8)) _ = _
  rw [if_neg hn]
  rfl

theorem diskstreamerRead_fault (hs : s.pos = pos) (h : pos + total < 2147483648)
    (hout : ¬ InSector pos total) : diskstreamerRead disk total s = .error .outOfBounds := by
  unfold InSector at hout
  have hcopy := copyLoop_fault (fun i => disk (pos / 512 * 512 + i)) (pos % 512) (min total 512) 0
    (by unfold sectorSize; omega) (by unfold sectorSize; omega)
  show streamLoop disk (total + 1) total s = _
  rw [streamLoop_at disk s total hs (by omega), hcopy]
  rfl

end

/-! ## what a reader of the disk expects -/

/-- a seek and a read -/
def readAt (disk : Disk) (pos total : Int) : Exec Fault DiskStream (Int × List UInt8) := do
  let _ ← diskstreamerSeek pos
  diskstreamerRead disk total

theorem readAt_run (disk : Disk) (pos total : Int) (s : DiskStream) :
    readAt disk pos total s = diskstreamerRead disk total { s with pos := pos } := rfl

/-- a seek and a read deliver the bytes at the position, and leave the stream behind them -/
def ReadsExactly (disk : Disk) (pos total : Nat) : Prop :=
  ∀ s : DiskStream, readAt disk pos total s
    = .ok ((0, diskBytes disk pos total), { s with pos := (pos + total : Nat) })

/-- two reads, one after the other -/
def readTwice (disk : Disk) (pos a b : Int) : Exec Fault DiskStream (Int × List UInt8) := do
  let (_, bytes) ← readAt disk pos a
  let (res, rest) ← diskstreamerRead disk b
  return (res, bytes ++ rest)

/-- one read of `a + b` bytes, and a read of `a` bytes followed by one of `b`, are the same -/
def ReadsInTwo (disk : Disk) (pos a b : Nat) : Prop :=
  ∀ s : DiskStream, ∃ r, readAt disk pos (a + b : Nat) s = .ok r ∧ readTwice disk pos a b s = .ok r

theorem readsExactly_iff (disk : Disk) {pos total : Nat} (h : pos + total < 2147483648) :
    ReadsExactly disk pos total ↔ InSector pos total := by
  constructor
  · intro hr
    by_contra hout
    have hrun := hr ⟨0, 0⟩
    rw [readAt_run, diskstreamerRead_fault disk rfl h hout] at hrun
    cases hrun
  · intro hin s
    rw [readAt_run, diskstreamerRead_ok disk rfl h hin]

theorem InSector.left {pos a b : Nat} (h : InSector pos (a + b)) : InSector pos a := by
  unfold InSector at *
  omega

theorem readsInTwo_iff (disk : Disk) {pos a b : Nat} (h : pos + (a + b) < 2147483648) :
    ReadsInTwo disk pos a b ↔ InSector pos (a + b) ∧ InSector (pos + a) b := by
  have hfirst : InSector pos (a + b) → ∀ s : DiskStream, readTwice disk pos a b s
      = (do
        let (res, rest) ← diskstreamerRead disk b
        return (res, diskBytes disk pos a ++ rest)) { s with pos := (pos + a : Nat) } := by
    intro hin s
    have ha : readAt disk pos a s
        = .ok ((0, diskBytes disk pos a), { s with pos := (pos + a : Nat) }) :=
      (readsExactly_iff disk (by omega)).mpr hin.left s
    unfold readTwice
    rw [bind_ok ha]
  constructor
  · intro hr
    obtain ⟨r, h1, h2⟩ := hr ⟨0, 0⟩
    have hin : InSector pos (a + b) := by
      by_contra hout
      rw [readAt_run, diskstreamerRead_fault disk rfl h hout] at h1
      cases h1
    refine ⟨hin, ?_⟩
    by_contra hout
    rw [hfirst hin, bind_error (diskstreamerRead_fault disk rfl (by omega) hout)] at h2
    cases h2
  · rintro ⟨hin, hin2⟩ s
    refine ⟨_, (readsExactly_iff disk h).mpr hin s, ?_⟩
    rw [hfirst hin, bind_ok (diskstreamerRead_ok disk rfl (by omega) hin2), diskBytes_add,
      Nat.add_assoc]
    rfl

/-- **Reading at a byte position.**  A seek and a read deliver what they are asked for, and a read
may be cut in two, exactly when no call copies past the end of its sector. -/
theorem diskstreamer_read_iff (disk : Disk) (pos : Nat) :
    (∀ total, pos + total < 2147483648 → (ReadsExactly disk pos total ↔ InSector pos total)) ∧
      ∀ a b, pos + (a + b) < 2147483648 →
        (ReadsInTwo disk pos a b ↔ InSector pos (a + b) ∧ InSector (pos + a) b) :=
  ⟨fun _ h => readsExactly_iff disk h, fun _ _ h => readsInTwo_iff disk h⟩

theorem diskstreamer_read_iff_sectors :
    ReadsExactly (fun i => UInt8.ofNat i) 1024 700 ∧
      ReadsInTwo (fun i => UInt8.ofNat i) 1024 512 188 :=
  ⟨((diskstreamer_read_iff _ 1024).1 700 (by decide)).mpr (by decide),
    ((diskstreamer_read_iff _ 1024).2 512 188 (by decide)).mpr (by decide)⟩

/-- 32 bytes at position 500 -/
theorem diskstreamer_read_overrun : ¬ ReadsExactly (fun _ => 0) 500 32 := by
  intro h
  exact absurd ((readsExactly_iff _ (by decide)).mp h) (by decide)

end LameOS
