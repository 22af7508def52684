import LameOS.Disk.Disk

/-!
# `streamer.c` on the drive

The same reads as in `Disk.Streamer`, with each sector fetched by the driver into the sector buffer of
its call.

* `diskGet`, `diskReadBlockIo`          the disk by its address;
* `diskstreamerReadIo`                  `diskstreamer_read` on the drive;
* `diskstreamer_read_drive`             **the drive is the disk**: inside its capacity a read on the
                                        drive has the outcome of the read of the bytes.
-/

set_option linter.unusedVariables false

namespace LameOS
open Lib Lib.Exec

/-! ## the code -/

section
variable {σ : Type} {content : Nat → BitVec 8} {capacity : Nat} (drive : Drive σ content capacity)
  (disk : Nat)

/-- `disk_get`, with the address of the global `disk` -/
def diskGet (index : Int) : Nat := if index ≠ 0 then 0 else disk

/-- `disk_read_block` -/
def diskReadBlockIo (polls idisk lba : Nat) (total : Int) (buf : Nat) : Exec Fault (Io σ) Int :=
  if idisk ≠ disk then return - EIO else diskReadSector drive polls lba total buf

/-- `buf`, the sector buffer at `p` -/
def bufferAt (m : Mem) (p : Nat) : Nat → UInt8 := fun i => UInt8.ofBitVec (m (BitVec.ofNat 32 (p + i)))

/-- `diskstreamer_read` on the drive, with at most `fuel` calls nested: `buf fuel` is the address of the
sector buffer, `stream->disk` the disk of number `id` -/
def streamLoopIo (polls : Nat) (id : Int) (buf : Nat → Nat) :
    Nat → Int → Exec Fault (DiskStream × Io σ) (Int × List UInt8)
  | 0, _ => throw .endlessLoop
  | fuel + 1, total => do
    let (stream, _) ← get
    let sector := stream.pos.tdiv sectorSize
    let offset := stream.pos.tmod sectorSize
    let res ← part Prod.snd (fun io s => (s.1, io))
      (diskReadBlockIo drive disk polls (diskGet disk id) (cuint sector) 1 (buf fuel))
    if res < 0 then
      return (res, [])
    else
      let (_, io) ← get
      let totalToRead := if total > sectorSize then (sectorSize : Int) else total
      let bytes ← copyLoop (bufferAt io.mem (buf fuel)) offset totalToRead.toNat 0
      modify (fun s => ({ stream with pos := cint (stream.pos + totalToRead) }, s.2))
      if total > sectorSize then
        let (res, rest) ← streamLoopIo polls id buf fuel (total - sectorSize)
        return (res, bytes ++ rest)
      else
        return (res, bytes)

def diskstreamerReadIo (polls : Nat) (id : Int) (buf : Nat → Nat) (total : Int) :
    Exec Fault (DiskStream × Io σ) (Int × List UInt8) :=
  streamLoopIo drive disk polls id buf (total.toNat + 1) total

end

/-! ## the sector buffer -/

theorem bufferAt_copy (disk : Disk) (m : Mem) (p sector : Nat) {i : Nat} (hi : i < 512) :
    bufferAt (m.copy p (sectorData disk sector 1)) p i = disk (sector * 512 + i) := by
  have hlen : (sectorData disk sector 1).length = 512 := sectorData_length disk sector 1
  unfold bufferAt
  rw [Mem.copy_at m p _ (by rw [hlen]; exact hi) (by rw [hlen]; decide)]
  unfold sectorData
  rw [List.getElem_map]
  unfold diskBytes
  rw [List.getElem_map, List.getElem_range]

theorem bufLoad_congr {b b' : Nat → UInt8} (h : ∀ i < 512, b i = b' i) (i : Int) :
    bufLoad b i = bufLoad b' i := by
  unfold bufLoad
  by_cases hi : 0 ≤ i ∧ i < sectorSize
  · obtain ⟨h0, h1⟩ := hi
    have h1 : i < 512 := h1
    rw [h i.toNat (by omega)]
  · rw [if_neg hi, if_neg hi]

theorem copyLoop_congr {b b' : Nat → UInt8} (h : ∀ i < 512, b i = b' i) (offset : Int) (fuel : Nat) :
    ∀ i, copyLoop b offset fuel i = copyLoop b' offset fuel i := by
  induction fuel with
  | zero => exact fun _ => rfl
  | succ fuel ih =>
    intro i
    unfold copyLoop
    rw [bufLoad_congr h, ih]

/-! ## a read on the drive -/

section
variable {σ : Type} {disk : Disk} {capacity : Nat} (drive : Drive σ disk.content capacity)
  {global : Nat} {buf : Nat → Nat}

/-- a read of `total` bytes at `pos` stays on the drive -/
def OnDrive (capacity : Nat) (pos total : Int) : Prop :=
  0 ≤ pos ∧ pos < capacity * 512 ∧ pos + total ≤ capacity * 512 ∧ pos + total < 2147483648

/-- the sector of a position has its number in the registers, or is none of the drive's -/
theorem namedSector_pos {pos : Int} (h0 : -2147483648 ≤ pos) (h1 : pos < 2147483648)
    (hcap : capacity ≤ 268435456) :
    cuint (pos.tdiv sectorSize) < capacity ∧
        namedSector (cuint (pos.tdiv sectorSize)) = cuint (pos.tdiv sectorSize) ∨
      capacity ≤ cuint (pos.tdiv sectorSize) ∧ capacity ≤ namedSector (cuint (pos.tdiv sectorSize)) := by
  obtain ⟨q, hq⟩ : ∃ q, pos.tdiv sectorSize = q := ⟨_, rfl⟩
  have hrange : -4194304 ≤ q ∧ q < 4194304 := by
    rw [← hq]
    rcases Int.le_total 0 pos with hp | hp
    · obtain ⟨p, rfl⟩ := Int.eq_ofNat_of_zero_le hp
      have e : (p : Int).tdiv sectorSize = ((p / 512 : Nat) : Int) := rfl
      rw [e]
      omega
    · obtain ⟨p, hp'⟩ := Int.eq_ofNat_of_zero_le (Int.neg_nonneg_of_nonpos hp)
      obtain rfl : pos = -(p : Int) := by omega
      have e : (-(p : Int)).tdiv sectorSize = -((p / 512 : Nat) : Int) := Int.neg_tdiv _ _
      rw [e]
      omega
  rw [hq]
  unfold namedSector
  rw [cuint_nat (cuint_lt q)]
  unfold cuint
  omega

theorem OnDrive.sector {pos total : Int} (h : OnDrive capacity pos total) (h31 : pos < 2147483648) :
    cuint (pos.tdiv sectorSize) < capacity := by
  obtain ⟨h0, h1, -⟩ := h
  obtain ⟨p, rfl⟩ := Int.eq_ofNat_of_zero_le h0
  have e : (p : Int).tdiv sectorSize = ((p / 512 : Nat) : Int) := rfl
  have hlt : p / 512 < 4294967296 := by omega
  rw [e, cuint_nat hlt]
  omega

/-- **A sector of the drive**, fetched into a buffer -/
theorem sector_fetched (global : Nat) {io : Io σ} (h : drive.Idle io.device) {n : Nat} (hn : n < capacity)
    (hnamed : namedSector n = n) (p : Nat) : ∃ enough io1, drive.Idle io1.device ∧
      (∀ i < 512, bufferAt io1.mem p i = disk (n * 512 + i)) ∧
      (∀ x, 512 ≤ (x - BitVec.ofNat 32 p).toNat → io1.mem x = io.mem x) ∧
      ∀ polls, diskReadBlockIo drive global polls (diskGet global 0) n 1 p io
        = if enough ≤ polls then .ok (0, io1) else .error .endlessLoop := by
  obtain ⟨enough, d, hrun, hidle⟩ := diskReadSector_reads drive h n 1 p
    (Or.inr (by rw [hnamed]; omega))
  rw [hnamed, show (1 : Int).toNat = 1 from rfl] at hrun
  refine ⟨enough, ⟨io.mem.copy p (sectorData disk n 1), d⟩, hidle.mpr (by decide),
    fun i hi => ?_, fun x hx => ?_, fun polls => ?_⟩
  · dsimp only
    exact bufferAt_copy disk io.mem p n hi
  · have hout : (sectorData disk n 1).length ≤ (x - BitVec.ofNat 32 p).toNat := by
      rw [sectorData_length, Nat.one_mul]
      exact hx
    dsimp only
    exact Mem.copy_out io.mem _ hout
  · show (if global ≠ global then _ else diskReadSector drive polls _ 1 p) io = _
    rw [if_neg (not_not_intro rfl), hrun polls]

theorem sector_missing {io : Io σ} (h : drive.Idle io.device) {n : Nat}
    (hnamed : capacity ≤ namedSector n) (p polls : Nat) :
    diskReadBlockIo drive global polls (diskGet global 0) n 1 p io = .error .endlessLoop := by
  show (if global ≠ global then _ else diskReadSector drive polls _ 1 p) io = _
  rw [if_neg (not_not_intro rfl), diskReadSector_waits drive h p (by omega)]

/-- the stream is that of the bytes; the drive is idle, and memory has changed in the sector buffers
alone -/
def Streamed (buf : Nat → Nat) (fuel : Nat) (io : Io σ) (s : DiskStream) (t : DiskStream × Io σ) : Prop :=
  t.1 = s ∧ drive.Idle t.2.device ∧
    ∀ x, (∀ d < fuel, 512 ≤ (x - BitVec.ofNat 32 (buf d)).toNat) → t.2.mem x = io.mem x

/-! ## a call -/

theorem streamLoopIo_succ (polls fuel : Nat) (total : Int) :
    streamLoopIo drive global polls 0 buf (fuel + 1) total = (get >>= fun t =>
      part Prod.snd (fun io s => (s.1, io)) (diskReadBlockIo drive global polls (diskGet global 0)
        (cuint (t.1.pos.tdiv sectorSize)) 1 (buf fuel)) >>= fun res =>
      if res < 0 then pure (res, [])
      else get >>= fun t' => do
        let totalToRead := if total > sectorSize then (sectorSize : Int) else total
        let bytes ← copyLoop (bufferAt t'.2.mem (buf fuel)) (t.1.pos.tmod sectorSize)
          totalToRead.toNat 0
        modify (fun s => ({ t.1 with pos := cint (t.1.pos + totalToRead) }, s.2))
        if total > sectorSize then
          let (res, rest) ← streamLoopIo drive global polls 0 buf fuel (total - sectorSize)
          return (res, bytes ++ rest)
        else
          return (res, bytes)) := rfl

/-- **A call with its sector fetched** follows the call on the bytes when the call nested in it does -/
theorem streamLoopIo_call {s : DiskStream} {io io1 : Io σ} {polls fuel : Nat} {total : Int}
    {B : Fault → Prop} {R : DiskStream → DiskStream × Io σ → Prop}
    (hbuf : ∀ i < 512, bufferAt io1.mem (buf fuel) i
      = disk (cuint (s.pos.tdiv sectorSize) * sectorSize + i))
    (hread : diskReadBlockIo drive global polls (diskGet global 0)
      (cuint (s.pos.tdiv sectorSize)) 1 (buf fuel) io = .ok (0, io1))
    (hlast : ∀ pos, R { s with pos := pos } ({ s with pos := pos }, io1))
    (hrest : total > sectorSize → Follows B R
      (streamLoop disk fuel (total - sectorSize) { s with pos := cint (s.pos + sectorSize) })
      (streamLoopIo drive global polls 0 buf fuel (total - sectorSize)
        ({ s with pos := cint (s.pos + sectorSize) }, io1))) :
    Follows B R (streamLoop disk (fuel + 1) total s)
      (streamLoopIo drive global polls 0 buf (fuel + 1) total (s, io)) := by
  rw [streamLoop_succ, bind_ok (get_run s), streamLoopIo_succ, bind_ok (get_run (s, io))]
  unfold diskReadBlock
  dsimp only
  have hpart : part Prod.snd (fun io s => (s.1, io)) (diskReadBlockIo drive global polls
      (diskGet global 0) (cuint (s.pos.tdiv sectorSize)) 1 (buf fuel)) (s, io) = .ok (0, (s, io1)) :=
    part_ok hread
  rw [if_neg (lt_irrefl 0), bind_ok hpart, if_neg (lt_irrefl 0), bind_ok (get_run _)]
  dsimp only
  rw [copyLoop_congr hbuf]
  refine Follows.bind (R := fun s' t' => s' = s ∧ t' = (s, io1)) (Follows.lift ⟨rfl, rfl⟩) ?_
  rintro bytes _ _ ⟨rfl, rfl⟩
  rw [bind_ok (set_run _ _), bind_ok (modify_run _ _)]
  by_cases hlt : total > sectorSize
  · rw [if_pos hlt, if_pos hlt, if_pos hlt]
    exact Follows.bind (hrest hlt) fun r s' t' hr => .ok hr
  · rw [if_neg hlt, if_neg hlt, if_neg hlt]
    exact .ok (hlast _)

/-- a call whose sector does not come -/
theorem streamLoopIo_error {s : DiskStream} {io : Io σ} {polls fuel : Nat} {total : Int} {e : Fault}
    (hread : diskReadBlockIo drive global polls (diskGet global 0)
      (cuint (s.pos.tdiv sectorSize)) 1 (buf fuel) io = .error e) :
    streamLoopIo drive global polls 0 buf (fuel + 1) total (s, io) = .error e := by
  rw [streamLoopIo_succ, bind_ok (get_run (s, io))]
  have hpart : part Prod.snd (fun io s => (s.1, io)) (diskReadBlockIo drive global polls
      (diskGet global 0) (cuint (s.pos.tdiv sectorSize)) 1 (buf fuel)) (s, io) = .error e :=
    part_error hread
  exact bind_error hpart

/-- the call nested in a call on the drive -/
theorem OnDrive.next {pos total : Int} (h : OnDrive capacity pos total) (hlt : total > sectorSize) :
    OnDrive capacity (cint (pos + sectorSize)) (total - sectorSize) := by
  obtain ⟨h0, h1, h2, h3⟩ := h
  have hlt : total > 512 := hlt
  have e : cint (pos + sectorSize) = pos + 512 := cint_of_range (by omega) (by omega)
  rw [e]
  show 0 ≤ pos + 512 ∧ pos + 512 < capacity * 512 ∧ pos + 512 + (total - 512) ≤ capacity * 512 ∧
    pos + 512 + (total - 512) < 2147483648
  omega

/-- the calls from one on follow those on the bytes -/
theorem streamLoopIo_follows (fuel : Nat) : ∀ {s : DiskStream} {io : Io σ} (total : Int),
    -2147483648 ≤ s.pos → s.pos < 2147483648 → drive.Idle io.device → ∃ enough, ∀ polls,
      Follows (fun e => e = .endlessLoop ∧ ¬ (OnDrive capacity s.pos total ∧ enough ≤ polls))
        (Streamed drive buf fuel io) (streamLoop disk fuel total s)
        (streamLoopIo drive global polls 0 buf fuel total (s, io)) := by
  induction fuel with
  | zero => exact fun _ _ _ _ => ⟨0, fun _ => .error _⟩
  | succ fuel ih =>
    intro s io total h0 h1 hidle
    rcases namedSector_pos h0 h1 drive.capacity_le with ⟨hn, hnamed⟩ | ⟨hn, hnamed⟩
    · obtain ⟨enough, io1, hidle1, hbuf, hout, hread⟩ := sector_fetched drive global
        hidle hn hnamed (buf fuel)
      have hkept : ∀ x, (∀ d < fuel + 1, 512 ≤ (x - BitVec.ofNat 32 (buf d)).toNat) →
          io1.mem x = io.mem x := fun x hx => hout x (hx fuel (Nat.lt_succ_self fuel))
      have hrange := cint_range (s.pos + sectorSize)
      obtain ⟨enough', hrest⟩ := ih (s := { s with pos := cint (s.pos + sectorSize) })
        (total - sectorSize) hrange.1 hrange.2 hidle1
      refine ⟨max enough enough', fun polls => ?_⟩
      rcases Nat.lt_or_ge polls enough with hp | hp
      · rw [streamLoopIo_error drive ((hread polls).trans (if_neg (by omega)))]
        exact .fails ⟨rfl, by omega⟩
      · refine streamLoopIo_call drive hbuf ((hread polls).trans (if_pos hp))
          (fun pos => ⟨rfl, hidle1, hkept⟩) fun hlt => (hrest polls).mono ?_ ?_
        · rintro e ⟨he, hno⟩
          refine ⟨he, fun ⟨hon, henough⟩ => hno ⟨hon.next hlt, by omega⟩⟩
        · exact fun s' t ⟨hstream, hidle', hmem⟩ => ⟨hstream, hidle', fun x hx =>
            (hmem x fun d hd => hx d (Nat.lt_succ_of_lt hd)).trans (hkept x hx)⟩
    · refine ⟨0, fun polls => ?_⟩
      rw [streamLoopIo_error drive (sector_missing drive hidle hnamed (buf fuel) polls)]
      exact .fails ⟨rfl, fun ⟨hon, _⟩ => absurd (hon.sector h1) (by omega)⟩

/-- **Reading the disk through its ports.**  `diskstreamer_read` on a drive has the outcome of the read
of the bytes (the same bytes, the same position, the same fault), leaves the drive idle and memory as it
was outside the sector buffers; or it waits without an end.  It does not wait when the read stays on the
drive and the status is polled often enough, however long each sector takes. -/
theorem diskstreamer_read_drive {s : DiskStream} {io : Io σ} (h0 : -2147483648 ≤ s.pos)
    (h1 : s.pos < 2147483648) (hidle : drive.Idle io.device) (total : Int) : ∃ enough, ∀ polls,
      Follows (fun e => e = .endlessLoop ∧ ¬ (OnDrive capacity s.pos total ∧ enough ≤ polls))
        (Streamed drive buf (total.toNat + 1) io) (diskstreamerRead disk total s)
        (diskstreamerReadIo drive global polls 0 buf total (s, io)) :=
  streamLoopIo_follows drive (total.toNat + 1) total h0 h1 hidle

end

/-- 1500 bytes from the middle of a sector on, with a sector buffer for each call -/
theorem diskstreamer_read_patient : ∃ enough, ∀ polls,
    Follows (fun e => e = .endlessLoop ∧ ¬ (OnDrive 4096 700 1500 ∧ enough ≤ polls))
      (Streamed (patientDrive (Disk.content fun i => UInt8.ofNat (i / 7)) 4096 (by decide))
        (fun fuel => 0x1F0000 + 1024 * fuel) 1501 ⟨fun _ => 0, ⟨fun _ => 0, .idle⟩⟩)
      (diskstreamerRead (fun i => UInt8.ofNat (i / 7)) 1500 ⟨0, 700⟩)
      (diskstreamerReadIo (patientDrive (Disk.content fun i => UInt8.ofNat (i / 7)) 4096 (by decide))
        0x110000 polls 0 (fun fuel => 0x1F0000 + 1024 * fuel) 1500
        (⟨0, 700⟩, ⟨fun _ => 0, ⟨fun _ => 0, .idle⟩⟩)) := by
  refine diskstreamer_read_drive
    (patientDrive (Disk.content fun i => UInt8.ofNat (i / 7)) 4096 (by decide))
    (s := ⟨0, 700⟩) (by decide) (by decide) ?_ 1500
  rfl

end LameOS
