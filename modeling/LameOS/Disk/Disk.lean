import LameOS.Disk.Streamer
import LameOS.Lib.Bytes
import LameOS.Lib.Drive

/-!
# `disk.c` and `io.asm`: the driver of the disk

The driver writes the registers of an ATA channel and reads the data port, word by word, into memory.
The drive is any device that keeps the protocol of `Lib.Drive`; `polls` bounds the reads of the status
in each loop that waits for it.

* `insb`, `insw`, `outb`     the instructions behind `io.asm`;
* `diskReadSector`           the driver;
* `namedSector`              the 29 bits of a sector number that reach the registers;
* `sectorLoop_reads`         sectors that are there: each is copied, whatever its delay;
* `sectorLoop_waits`         a sector that does not come: the loop has no end;
* `disk_read_sector_iff`     **which reads return, and what they leave.**
-/

set_option linter.unusedVariables false

namespace LameOS
open Lib Lib.Exec

/-! ## the code -/

/-- the memory, and the state of the drive -/
structure Io (σ : Type) where
  mem : Mem
  device : σ

section
variable {σ : Type} {content : Nat → BitVec 8} {capacity : Nat} (drive : Drive σ content capacity)

def insb (port : Nat) : Exec Fault (Io σ) (BitVec 8) := fun s =>
  .ok ((drive.inb port s.device).1, { s with device := (drive.inb port s.device).2 })

def insw (port : Nat) : Exec Fault (Io σ) (BitVec 16) := fun s =>
  .ok ((drive.inw port s.device).1, { s with device := (drive.inw port s.device).2 })

def outb (port : Nat) (val : BitVec 8) : Exec Fault (Io σ) Unit :=
  modify fun s => { s with device := drive.outb port val s.device }

/-- `while (!(c & 0x08)) c = insb (0x1F7);`, with at most `polls` reads in all -/
def waitBuffer : Nat → Exec Fault (Io σ) Unit
  | 0 => throw .endlessLoop
  | polls + 1 => do
    let c ← insb drive 0x1F7
    if c &&& 0x08 = 0 then
      waitBuffer polls
    else
      return ()

/-- `*ptr = w;` -/
def storeShort (ptr : Nat) (w : BitVec 16) : Exec Fault (Io σ) Unit :=
  modify fun s => { s with mem := s.mem.copy ptr [w.extractLsb' 0 8, w.extractLsb' 8 8] }

/-- the inner loop of `disk_read_sector`, with `left` words left -/
def copySector : Nat → Nat → Exec Fault (Io σ) Unit
  | 0, _ => pure ()
  | left + 1, ptr => do
    let w ← insw drive 0x1F0
    storeShort ptr w
    copySector left (ptr + 2)

/-- the outer loop, with `left` sectors left -/
def sectorLoop (polls : Nat) : Nat → Nat → Exec Fault (Io σ) Unit
  | 0, _ => pure ()
  | left + 1, ptr => do
    waitBuffer drive polls
    copySector drive 256 ptr
    sectorLoop polls left (ptr + 512)

/-- an `int` as an argument of type `unsigned char` -/
def uchar (x : BitVec 32) : BitVec 8 := x.setWidth 8

def diskReadSector (polls : Nat) (lba total : Int) (buf : Nat) : Exec Fault (Io σ) Int := do
  let l := BitVec.ofInt 32 lba
  outb drive 0x1F6 (uchar (l.sshiftRight 24 ||| 0xE0))
  outb drive 0x1F2 (uchar (BitVec.ofInt 32 total))
  outb drive 0x1F3 (uchar (l &&& 0xff))
  outb drive 0x1F4 (uchar (l.sshiftRight 8))
  outb drive 0x1F5 (uchar (l.sshiftRight 16))
  outb drive 0x1F7 0x20
  sectorLoop drive polls total.toNat buf
  return 0

end

/-! ## the bytes of sectors -/

/-- what a drive with the bytes of a disk holds -/
def Disk.content (disk : Disk) : Nat → BitVec 8 := fun i => (disk i).toBitVec

/-- the bytes of `n` sectors from `sector` on -/
def sectorData (disk : Disk) (sector n : Nat) : List (BitVec 8) :=
  (diskBytes disk (sector * 512) (n * 512)).map UInt8.toBitVec

/-- the bytes of words, the low one first -/
def wordBytes (ws : List (BitVec 16)) : List (BitVec 8) :=
  ws.flatMap fun w => [w.extractLsb' 0 8, w.extractLsb' 8 8]

theorem wordBytes_append (vs ws : List (BitVec 16)) :
    wordBytes (vs ++ ws) = wordBytes vs ++ wordBytes ws := List.flatMap_append

@[simp] theorem wordBytes_length (ws : List (BitVec 16)) : (wordBytes ws).length = ws.length * 2 := by
  simp only [wordBytes, List.length_flatMap, List.length_cons, List.length_nil, List.map_const',
    List.sum_replicate, smul_eq_mul]

section
variable (disk : Disk)

@[simp] theorem sectorData_length (sector n : Nat) :
    (sectorData disk sector n).length = n * 512 := by
  unfold sectorData
  rw [List.length_map, diskBytes_length]

theorem sectorData_succ (sector n : Nat) : sectorData disk sector (n + 1)
    = sectorData disk sector 1 ++ sectorData disk (sector + 1) n := by
  unfold sectorData
  rw [Nat.add_comm n 1, Nat.add_mul, diskBytes_add, List.map_append, Nat.add_mul]

theorem wordBytes_wordOf (sector n : Nat) :
    wordBytes ((List.range n).map (wordOf disk.content sector))
      = (diskBytes disk (sector * 512) (2 * n)).map UInt8.toBitVec := by
  induction n with
  | zero => rfl
  | succ n ih =>
    have hlo : (wordOf disk.content sector n).extractLsb' 0 8
        = (disk (sector * 512 + 2 * n)).toBitVec := BitVec.extractLsb'_append_eq_right
    have hhi : (wordOf disk.content sector n).extractLsb' 8 8
        = (disk (sector * 512 + 2 * n + 1)).toBitVec := BitVec.extractLsb'_append_eq_left
    have hlast : wordBytes [wordOf disk.content sector n]
        = (diskBytes disk (sector * 512 + 2 * n) 2).map UInt8.toBitVec := by
      unfold wordBytes
      rw [List.flatMap_singleton, hlo, hhi, diskBytes_succ disk _ 1, diskBytes_succ disk _ 0,
        List.map_cons, List.map_cons]
      rfl
    rw [List.range_succ, List.map_append, List.map_singleton, wordBytes_append, hlast, ih,
      Nat.mul_add, diskBytes_add, List.map_append]

end

/-! ## one sector -/

section
variable {σ : Type} {disk : Disk} {capacity : Nat} (drive : Drive σ disk.content capacity)

theorem waitBuffer_succ (polls : Nat) (s : Io σ) : waitBuffer drive (polls + 1) s
    = (if (drive.inb 0x1F7 s.device).1 &&& 0x08 = 0 then waitBuffer drive polls else pure ())
      { s with device := (drive.inb 0x1F7 s.device).2 } := rfl

theorem request_bit (c : BitVec 8) : c &&& 0x08 = 0 ↔ c.getLsbD 3 = false := by
  revert c
  decide

/-- the sector comes, after any delay -/
theorem waitBuffer_ready (delay : Nat) : ∀ {s : Io σ} {sector left : Nat},
    drive.transfer s.device = .busy delay sector left →
      ∃ d, (∀ polls, delay < polls → waitBuffer drive polls s = .ok ((), { s with device := d })) ∧
        drive.transfer d = .ready sector left 0 := by
  induction delay with
  | zero =>
    intro s sector left h
    obtain ⟨hbit, hnext⟩ := drive.in_status s.device
    rw [show (drive.channel s.device).transfer = _ from h] at hbit hnext
    refine ⟨(drive.inb 0x1F7 s.device).2, fun polls hp => ?_, hnext⟩
    obtain ⟨polls, rfl⟩ := Nat.exists_eq_succ_of_ne_zero (Nat.ne_of_gt hp)
    rw [waitBuffer_succ, if_neg]
    · rfl
    · rw [request_bit, hbit]
      exact Bool.noConfusion
  | succ delay ih =>
    intro s sector left h
    obtain ⟨hbit, hnext⟩ := drive.in_status s.device
    rw [show (drive.channel s.device).transfer = _ from h] at hbit hnext
    obtain ⟨d, hrun, hready⟩ := ih (s := { s with device := (drive.inb 0x1F7 s.device).2 }) hnext
    refine ⟨d, fun polls hp => ?_, hready⟩
    obtain ⟨polls, rfl⟩ := Nat.exists_eq_succ_of_ne_zero (Nat.ne_of_gt (Nat.zero_lt_of_lt hp))
    rw [waitBuffer_succ, if_pos ((request_bit _).mpr hbit), hrun polls (by omega)]

/-- no data request comes -/
theorem waitBuffer_endless (polls : Nat) : ∀ {s : Io σ},
    drive.transfer s.device = .failed ∨ drive.transfer s.device = .idle →
      waitBuffer drive polls s = .error .endlessLoop := by
  induction polls with
  | zero => exact fun _ => rfl
  | succ polls ih =>
    intro s h
    obtain ⟨hbit, hnext⟩ := drive.in_status s.device
    have hpolled : (drive.channel s.device).transfer.polled
        = (false, (drive.channel s.device).transfer) := by
      rcases h with h | h
      · rw [show (drive.channel s.device).transfer = _ from h]
        rfl
      · rw [show (drive.channel s.device).transfer = _ from h]
        rfl
    rw [hpolled] at hbit hnext
    rw [waitBuffer_succ, if_pos ((request_bit _).mpr hbit)]
    exact ih (by rw [show drive.transfer _ = _ from hnext]; exact h)

/-- the words go to memory one behind the other -/
theorem copySector_run (left : Nat) : ∀ (ptr : Nat) (s : Io σ), left * 2 ≤ 4294967296 →
    copySector drive left ptr s = .ok ((), ⟨s.mem.copy ptr (wordBytes (drive.words left s.device).1),
      (drive.words left s.device).2⟩) := by
  induction left with
  | zero => exact fun _ _ _ => rfl
  | succ left ih =>
    intro ptr s h
    show copySector drive left (ptr + 2) ⟨s.mem.copy ptr [(drive.inw 0x1F0 s.device).1.extractLsb' 0 8,
      (drive.inw 0x1F0 s.device).1.extractLsb' 8 8], (drive.inw 0x1F0 s.device).2⟩ = _
    rw [ih _ _ (by omega)]
    dsimp only
    rw [show ptr + 2 = ptr + [(drive.inw 0x1F0 s.device).1.extractLsb' 0 8,
      (drive.inw 0x1F0 s.device).1.extractLsb' 8 8].length from rfl, Mem.copy_append]
    · rfl
    · rw [wordBytes_length, drive.words_length]
      show 2 + left * 2 ≤ _
      omega

/-- a data request that comes later than the last poll -/
theorem waitBuffer_late (polls : Nat) : ∀ {s : Io σ} {delay sector left : Nat},
    drive.transfer s.device = .busy delay sector left → polls ≤ delay →
      waitBuffer drive polls s = .error .endlessLoop := by
  induction polls with
  | zero => exact fun _ _ => rfl
  | succ polls ih =>
    intro s delay sector left h hp
    obtain ⟨delay, rfl⟩ := Nat.exists_eq_succ_of_ne_zero (Nat.ne_of_gt (Nat.zero_lt_of_lt hp))
    obtain ⟨hbit, hnext⟩ := drive.in_status s.device
    rw [show (drive.channel s.device).transfer = _ from h] at hbit hnext
    rw [waitBuffer_succ, if_pos ((request_bit _).mpr hbit)]
    exact ih hnext (by omega)

/-! ## a run of sectors -/

theorem sectorLoop_succ (polls left ptr : Nat) : sectorLoop drive polls (left + 1) ptr
    = (waitBuffer drive polls >>= fun _ => copySector drive 256 ptr >>= fun _ =>
      sectorLoop drive polls left (ptr + 512)) := rfl

/-- a sector that is there -/
theorem sector_copied {s : Io σ} {delay sector left : Nat} (ptr : Nat)
    (h : drive.transfer s.device = .busy delay sector left) : ∃ d, (∀ polls, delay < polls → ∀ n,
      sectorLoop drive polls (n + 1) ptr s = sectorLoop drive polls n (ptr + 512)
        ⟨s.mem.copy ptr (sectorData disk sector 1), d⟩) ∧
      Begins capacity (sector + 1) left (drive.transfer d) := by
  obtain ⟨d, hwait, hready⟩ := waitBuffer_ready drive delay h
  obtain ⟨hwords, hnext⟩ := drive.words_sector hready
  refine ⟨(drive.words 256 d).2, fun polls hp n => ?_, hnext⟩
  rw [sectorLoop_succ, bind_ok (hwait polls hp),
    bind_ok (copySector_run drive 256 ptr _ (by decide))]
  dsimp only
  rw [hwords, wordBytes_wordOf]
  rfl

/-- **Sectors that are there**, for all who poll often enough -/
theorem sectorLoop_reads (n : Nat) : ∀ (ptr : Nat) {s : Io σ} {sector k : Nat},
    Begins capacity sector k (drive.transfer s.device) → n ≤ k → (0 < n → sector + n ≤ capacity) →
      n ≤ 256 → ∃ enough d, (∀ polls, sectorLoop drive polls n ptr s = if enough ≤ polls
        then .ok ((), ⟨s.mem.copy ptr (sectorData disk sector n), d⟩) else .error .endlessLoop) ∧
        Begins capacity (sector + n) (k - n) (drive.transfer d) := by
  induction n with
  | zero => exact fun _ _ _ _ h _ _ _ => ⟨0, _, fun _ => rfl, h⟩
  | succ n ih =>
    intro ptr s sector k h hk hin hlen
    obtain ⟨k, rfl⟩ := Nat.exists_eq_succ_of_ne_zero (Nat.ne_of_gt (Nat.zero_lt_of_lt hk))
    have hin := hin (Nat.succ_pos n)
    obtain ⟨delay, hbusy⟩ := (begins_in (by omega)).mp h
    obtain ⟨d1, hfirst, hnext⟩ := sector_copied drive ptr hbusy
    obtain ⟨enough, d, hrest, hlast⟩ := ih (ptr + 512)
      (s := ⟨s.mem.copy ptr (sectorData disk sector 1), d1⟩) hnext (by omega) (by omega) (by omega)
    have hcopy := Mem.copy_append s.mem ptr (sectorData disk sector 1)
      (sectorData disk (sector + 1) n) (by
        rw [sectorData_length, sectorData_length]
        omega)
    rw [sectorData_length, Nat.one_mul] at hcopy
    refine ⟨max (delay + 1) enough, d, fun polls => ?_, ?_⟩
    · rcases Nat.lt_or_ge delay polls with hp | hp
      · rw [hfirst polls hp n, hrest polls]
        dsimp only
        rw [hcopy, ← sectorData_succ disk sector n]
        exact if_congr (by omega) rfl rfl
      · rw [sectorLoop_succ, bind_error (waitBuffer_late drive polls hbusy hp), if_neg (by omega)]
    · rwa [Nat.add_right_comm, Nat.add_assoc, Nat.succ_sub_succ] at *

/-- **A sector that does not come** -/
theorem sectorLoop_waits (n : Nat) : ∀ {ptr : Nat} {s : Io σ} {sector k : Nat} (polls : Nat),
    Begins capacity sector k (drive.transfer s.device) → 0 < n → k < n ∨ capacity < sector + n →
      sectorLoop drive polls n ptr s = .error .endlessLoop := by
  induction n with
  | zero => exact fun _ _ h => absurd h (lt_irrefl 0)
  | succ n ih =>
    intro ptr s sector k polls h _ hout
    cases k with
    | zero =>
      rw [sectorLoop_succ]
      exact bind_error (waitBuffer_endless drive polls (Or.inr h))
    | succ k =>
      rcases Nat.lt_or_ge sector capacity with hs | hs
      · obtain ⟨delay, hbusy⟩ := (begins_in hs).mp h
        rcases Nat.lt_or_ge delay polls with hp | hp
        · obtain ⟨d, hfirst, hnext⟩ := sector_copied drive ptr hbusy
          rw [hfirst polls hp n]
          exact ih polls hnext (by omega) (by omega)
        · rw [sectorLoop_succ]
          exact bind_error (waitBuffer_late drive polls hbusy hp)
      · rw [sectorLoop_succ]
        exact bind_error (waitBuffer_endless drive polls (Or.inl ((begins_out hs).mp h)))

end

/-! ## the registers of a command -/

theorem byte_shift (x : BitVec 32) {k : Nat} (hk : k ≤ 24) :
    (x.sshiftRight k).setWidth 8 = x.extractLsb' k 8 := by
  ext i hi
  rw [BitVec.getElem_setWidth, BitVec.getLsbD_sshiftRight, BitVec.getElem_extractLsb',
    if_pos (by omega)]
  simp
  omega

theorem byte_low (x : BitVec 32) : (x &&& 0xff).setWidth 8 = x.extractLsb' 0 8 := by
  have hones : ∀ i < 8, (0xff : BitVec 32).getLsbD i = true := by decide
  ext i hi
  rw [BitVec.getElem_setWidth, BitVec.getLsbD_and, BitVec.getElem_extractLsb', hones i hi,
    Bool.and_true, Nat.zero_add]

theorem head_byte (b : BitVec 8) : (b ||| 0xE0).toNat % 16 = b.toNat % 16 ∧
    ((b ||| 0xE0).getLsbD 4 = true ↔ 16 ≤ b.toNat % 32) ∧ (b ||| 0xE0).getLsbD 6 = true := by
  revert b
  decide

/-- the 29 bits of a sector number that reach the registers, the last one as the number of the drive -/
def namedSector (lba : Int) : Nat := cuint lba % 536870912

/-- the sectors that the drive is told to read: 256 for a multiple of 256 -/
def commandedSectors (total : Int) : Nat :=
  if cuint total % 256 = 0 then 256 else cuint total % 256

theorem commandedSectors_le (total : Int) : 0 < commandedSectors total ∧ commandedSectors total ≤ 256 := by
  unfold commandedSectors
  split <;> omega

theorem commandedSectors_of_range {total : Int} (h0 : 0 < total) (h1 : total ≤ 256) :
    commandedSectors total = total.toNat := by
  unfold commandedSectors cuint
  split <;> omega

/-- the registers that `disk_read_sector` writes -/
def readRegisters (lba total : BitVec 32) : AtaRegisters :=
  Drive.registersOf (lba.extractLsb' 24 8 ||| 0xE0) (total.setWidth 8) (lba.extractLsb' 0 8)
    (lba.extractLsb' 8 8) (lba.extractLsb' 16 8)

theorem byte_toNat (x : BitVec 32) (k : Nat) : (x.extractLsb' k 8).toNat = x.toNat / 2 ^ k % 256 := by
  rw [BitVec.extractLsb'_toNat, Nat.shiftRight_eq_div_pow]

section
variable (lba total : BitVec 32)

theorem readRegisters_numbered : (readRegisters lba total).Numbered :=
  (head_byte (lba.extractLsb' 24 8)).2.2

theorem readRegisters_other :
    (readRegisters lba total).Other ↔ 268435456 ≤ lba.toNat % 536870912 := by
  have h := (head_byte (lba.extractLsb' 24 8)).2.1
  rw [byte_toNat] at h
  refine Iff.trans h ?_
  omega

theorem readRegisters_sector : (readRegisters lba total).sector = lba.toNat % 268435456 := by
  show (lba.extractLsb' 24 8 ||| 0xE0).toNat % 16 * 16777216 + (lba.extractLsb' 16 8).toNat * 65536
    + (lba.extractLsb' 8 8).toNat * 256 + (lba.extractLsb' 0 8).toNat = _
  rw [(head_byte _).1, byte_toNat, byte_toNat, byte_toNat, byte_toNat]
  omega

theorem readRegisters_some : (readRegisters lba total).sectors ≠ 0 := by
  unfold AtaRegisters.sectors
  split
  · decide
  · rename_i h
    exact fun e => h (BitVec.eq_of_toNat_eq e)

theorem readRegisters_sectors : (readRegisters lba total).sectors
    = if total.toNat % 256 = 0 then 256 else total.toNat % 256 := by
  have h : (total.setWidth 8).toNat = total.toNat % 256 := BitVec.toNat_setWidth 8 total
  show (if total.setWidth 8 = 0 then 256 else (total.setWidth 8).toNat) = _
  rw [h]
  refine if_congr ?_ rfl rfl
  rw [← h]
  exact ⟨fun e => by rw [e]; rfl, fun e => BitVec.eq_of_toNat_eq e⟩

end

section
variable {σ : Type} {disk : Disk} {capacity : Nat} (drive : Drive σ disk.content capacity)

/-- **The command**: a sector of the other drive counts as one behind the last -/
theorem command_begins {s : σ} (h : drive.Idle s) (lba total : BitVec 32) :
    Begins capacity (lba.toNat % 536870912)
      (if total.toNat % 256 = 0 then 256 else total.toNat % 256)
      (drive.transfer (drive.command (lba.extractLsb' 24 8 ||| 0xE0) (total.setWidth 8)
        (lba.extractLsb' 0 8) (lba.extractLsb' 8 8) (lba.extractLsb' 16 8) s)) := by
  have hcmd := drive.command_transfer h (lba.extractLsb' 24 8 ||| 0xE0) (total.setWidth 8)
    (lba.extractLsb' 0 8) (lba.extractLsb' 8 8) (lba.extractLsb' 16 8)
    (readRegisters_numbered lba total)
  have hcap := drive.capacity_le
  rw [← readRegisters_sectors lba total]
  by_cases ho : (readRegisters lba total).Other
  · have hfailed := (if_pos ho).mp hcmd
    rw [readRegisters_other] at ho
    obtain ⟨left, hleft⟩ := Nat.exists_eq_succ_of_ne_zero (readRegisters_some lba total)
    rw [hleft]
    exact (begins_out (by omega)).mpr hfailed
  · have hbegins := (if_neg ho).mp hcmd
    rw [readRegisters_other] at ho
    rw [show (Drive.registersOf _ _ _ _ _).sector = _ from readRegisters_sector lba total] at hbegins
    rwa [show lba.toNat % 536870912 = lba.toNat % 268435456 by omega]

/-! ## a read -/

theorem ofInt_toNat (x : Int) : (BitVec.ofInt 32 x).toNat = cuint x := BitVec.toNat_ofInt x

/-- **The command is issued**, and the loop starts -/
theorem diskReadSector_issued {s : Io σ} (h : drive.Idle s.device) (lba total : Int) (buf : Nat) :
    ∃ d, Begins capacity (namedSector lba) (commandedSectors total) (drive.transfer d) ∧
      ∀ polls, diskReadSector drive polls lba total buf s
        = (sectorLoop drive polls total.toNat buf >>= fun _ => pure 0) ⟨s.mem, d⟩ := by
  have hbegins := command_begins drive h (BitVec.ofInt 32 lba) (BitVec.ofInt 32 total)
  rw [ofInt_toNat, ofInt_toNat] at hbegins
  refine ⟨_, hbegins, fun polls => ?_⟩
  have hhead : uchar ((BitVec.ofInt 32 lba).sshiftRight 24 ||| 0xE0)
      = (BitVec.ofInt 32 lba).extractLsb' 24 8 ||| 0xE0 := by
    rw [← byte_shift _ (le_refl 24)]
    exact BitVec.setWidth_or
  unfold diskReadSector
  rw [hhead]
  unfold uchar
  rw [byte_low, byte_shift _ (by decide), byte_shift _ (by decide)]
  rfl

/-- sectors that are there, or none -/
theorem diskReadSector_reads {s : Io σ} (h : drive.Idle s.device) (lba total : Int) (buf : Nat)
    (hin : total ≤ 0 ∨ total ≤ 256 ∧ namedSector lba + total ≤ capacity) : ∃ enough d,
      (∀ polls, diskReadSector drive polls lba total buf s = if enough ≤ polls
        then .ok (0, ⟨s.mem.copy buf (sectorData disk (namedSector lba) total.toNat), d⟩)
        else .error .endlessLoop) ∧ (drive.Idle d ↔ 0 < total) := by
  obtain ⟨d0, hbegins, heq⟩ := diskReadSector_issued drive h lba total buf
  have hsome := commandedSectors_le total
  have hcount : total.toNat ≤ commandedSectors total := by
    rcases hin with h0 | ⟨h1, -⟩
    · omega
    · rcases Int.lt_or_le 0 total with h0 | h0
      · rw [commandedSectors_of_range h0 h1]
      · omega
  obtain ⟨enough, d, hrun, hlast⟩ := sectorLoop_reads drive total.toNat buf
    (s := ⟨s.mem, d0⟩) hbegins hcount (by omega) (by omega)
  refine ⟨enough, d, fun polls => ?_, ?_⟩
  · rw [heq]
    by_cases hp : enough ≤ polls
    · rw [bind_ok ((hrun polls).trans (if_pos hp)), if_pos hp]
      rfl
    · rw [bind_error ((hrun polls).trans (if_neg hp)), if_neg hp]
  · constructor
    · intro hidle
      by_contra h0
      obtain ⟨left, hleft⟩ := Nat.exists_eq_succ_of_ne_zero (Nat.ne_of_gt hsome.1)
      rw [hleft, Int.toNat_of_nonpos (by omega), Nat.sub_zero] at hlast
      exact not_begins_idle (hidle ▸ hlast)
    · intro h0
      rw [commandedSectors_of_range h0 (by omega), Nat.sub_self] at hlast
      exact hlast

/-- a sector that does not come -/
theorem diskReadSector_waits {s : Io σ} (h : drive.Idle s.device) {lba total : Int} (buf : Nat)
    (hout : ¬ (total ≤ 0 ∨ total ≤ 256 ∧ namedSector lba + total ≤ capacity)) (polls : Nat) :
    diskReadSector drive polls lba total buf s = .error .endlessLoop := by
  obtain ⟨d0, hbegins, heq⟩ := diskReadSector_issued drive h lba total buf
  have hsome := commandedSectors_le total
  rw [heq]
  exact bind_error (sectorLoop_waits drive total.toNat polls hbegins (by omega) (by omega))

/-- the reads that return, and what they leave -/
theorem diskReadSector_returns {s : Io σ} (h : drive.Idle s.device) (lba total : Int) (buf : Nat) :
    ((∃ polls r, diskReadSector drive polls lba total buf s = .ok r) ↔
      total ≤ 0 ∨ total ≤ 256 ∧ namedSector lba + total ≤ capacity) ∧
    ∀ polls r, diskReadSector drive polls lba total buf s = .ok r → r.1 = 0 ∧
      r.2.mem = s.mem.copy buf (sectorData disk (namedSector lba) total.toNat) ∧
      (drive.Idle r.2.device ↔ 0 < total) := by
  have hout : ∀ polls r, diskReadSector drive polls lba total buf s = .ok r →
      total ≤ 0 ∨ total ≤ 256 ∧ namedSector lba + total ≤ capacity := by
    intro polls r hrun
    by_contra hno
    rw [diskReadSector_waits drive h buf hno polls] at hrun
    cases hrun
  refine ⟨⟨fun ⟨polls, r, hrun⟩ => hout polls r hrun, fun hin => ?_⟩, fun polls r hrun => ?_⟩
  · obtain ⟨enough, d, hread, -⟩ := diskReadSector_reads drive h lba total buf hin
    exact ⟨enough, _, (hread enough).trans (if_pos (le_refl _))⟩
  · obtain ⟨enough, d, hread, hidle⟩ := diskReadSector_reads drive h lba total buf (hout polls r hrun)
    rw [hread polls] at hrun
    by_cases hp : enough ≤ polls
    · rw [if_pos hp] at hrun
      cases hrun
      exact ⟨rfl, rfl, hidle⟩
    · rw [if_neg hp] at hrun
      cases hrun

/-- **Reading sectors from the drive.**  A read returns exactly when it is for no sector, or for up to
256 that the drive has; each sector may take its time.  Then the sectors are in memory, one behind the
other, and nothing else has changed; the drive has no command under way if there was a sector to read,
and one if there was none. -/
theorem disk_read_sector_iff {s : Io σ} (h : drive.Idle s.device) (lba total : Int) (buf : Nat) :
    ((∃ polls r, diskReadSector drive polls lba total buf s = .ok r) ↔
      total ≤ 0 ∨ total ≤ 256 ∧ namedSector lba + total ≤ capacity) ∧
    ∀ polls r, diskReadSector drive polls lba total buf s = .ok r → r.1 = 0 ∧
      r.2.mem = s.mem.copy buf (sectorData disk (namedSector lba) total.toNat) ∧
      (drive.Idle r.2.device ↔ 0 < total) :=
  diskReadSector_returns drive h lba total buf

end

/-- the sectors of the kernel, from a drive with 4096 sectors -/
theorem disk_read_sector_patient : ∃ polls r, diskReadSector
    (patientDrive (Disk.content fun i => UInt8.ofNat (i / 7)) 4096 (by decide)) polls 1 100 0x100000
      ⟨fun _ => 0, ⟨fun _ => 0, .idle⟩⟩ = .ok r :=
  (disk_read_sector_iff (patientDrive (Disk.content fun i => UInt8.ofNat (i / 7)) 4096 (by decide))
    (s := ⟨fun _ => 0, ⟨fun _ => 0, .idle⟩⟩) rfl 1 100 0x100000).1.mpr (by decide)

end LameOS
