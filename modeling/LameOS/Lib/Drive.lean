import Mathlib.Tactic

/-!
# A drive behind the ports of an ATA channel

* `AtaRegister`, `Transfer`, `Channel`   what the ports show of a drive;
* `Begins`     the drive goes on to a sector, with so many still to come;
* `Drive`      a device that keeps the protocol of a read, whatever the time it takes;
* `command`    the registers of a read, then the command;
* `words`      words read from the data port;
* `patientDrive`   a drive whose sectors let one read of the status pass.
-/

namespace Lib

/-! ## what the ports show -/

/-- the registers that a read command takes -/
inductive AtaRegister where
  | count | low | mid | high | head
  deriving DecidableEq, Repr

def AtaRegister.port : AtaRegister → Nat
  | .count => 0x1F2
  | .low => 0x1F3
  | .mid => 0x1F4
  | .high => 0x1F5
  | .head => 0x1F6

abbrev dataPort : Nat := 0x1F0
abbrev statusPort : Nat := 0x1F7

/-- the command "read sectors" -/
abbrev readSectors : BitVec 8 := 0x20

/-- `busy`: the data request comes after `delay` reads of the status; `ready`: the word `word` of the
sector is next.  `left` sectors come behind this one.  `failed`: no data request comes any more -/
inductive Transfer where
  | idle
  | busy (delay sector left : Nat)
  | ready (sector left word : Nat)
  | failed
  deriving DecidableEq, Repr

/-- the data request that a read of the status shows, and what it leaves -/
def Transfer.polled : Transfer → Bool × Transfer
  | .busy 0 sector left => (true, .ready sector left 0)
  | .busy (delay + 1) sector left => (false, .busy delay sector left)
  | t@(.ready ..) => (true, t)
  | t => (false, t)

abbrev AtaRegisters := AtaRegister → BitVec 8

namespace AtaRegisters
variable (r : AtaRegisters)

/-- the sector of a read: 28 bits -/
def sector : Nat :=
  (r .head).toNat % 16 * 16777216 + (r .high).toNat * 65536 + (r .mid).toNat * 256 + (r .low).toNat

/-- a count of zero stands for 256 -/
def sectors : Nat := if r .count = 0 then 256 else (r .count).toNat

/-- bit 4 of the head names the other drive of the channel -/
def Other : Prop := (r .head).getLsbD 4 = true

/-- bit 6 of the head: the registers hold a number, not cylinder, head and sector -/
def Numbered : Prop := (r .head).getLsbD 6 = true

instance : Decidable r.Other := inferInstanceAs (Decidable (_ = _))

end AtaRegisters

structure Channel where
  registers : AtaRegisters
  transfer : Transfer

/-- the drive goes on to `sector`, with so many sectors still to come; behind the last sector of the
drive it fails -/
def Begins (capacity sector : Nat) : Nat → Transfer → Prop
  | 0, t => t = .idle
  | left + 1, t => if sector < capacity then ∃ delay, t = .busy delay sector left else t = .failed

theorem begins_in {capacity sector left : Nat} {t : Transfer} (h : sector < capacity) :
    Begins capacity sector (left + 1) t ↔ ∃ delay, t = .busy delay sector left := by
  show (if sector < capacity then _ else _) ↔ _
  rw [if_pos h]

theorem begins_out {capacity sector left : Nat} {t : Transfer} (h : capacity ≤ sector) :
    Begins capacity sector (left + 1) t ↔ t = .failed := by
  show (if sector < capacity then _ else _) ↔ _
  rw [if_neg (Nat.not_lt.mpr h)]

theorem not_begins_idle {capacity sector left : Nat} : ¬ Begins capacity sector (left + 1) .idle := by
  intro h
  rcases Nat.lt_or_ge sector capacity with hs | hs
  · obtain ⟨delay, e⟩ := (begins_in hs).mp h
    cases e
  · cases (begins_out hs).mp h

/-! ## a drive -/

/-- the word `i` of a sector -/
def wordOf (content : Nat → BitVec 8) (sector i : Nat) : BitVec 16 :=
  content (sector * 512 + 2 * i + 1) ++ content (sector * 512 + 2 * i)

/-- a device with the state `σ` that answers the input and output instructions as a drive with the
bytes `content` and `capacity` sectors does, alone on its channel -/
structure Drive (σ : Type) (content : Nat → BitVec 8) (capacity : Nat) where
  outb : Nat → BitVec 8 → σ → σ
  inb : Nat → σ → BitVec 8 × σ
  inw : Nat → σ → BitVec 16 × σ
  channel : σ → Channel
  capacity_le : capacity ≤ 268435456
  out_register : ∀ s reg v, (channel s).transfer = .idle →
    channel (outb (AtaRegister.port reg) v s)
      = ⟨Function.update (channel s).registers reg v, .idle⟩
  out_command : ∀ s, (channel s).transfer = .idle → (channel s).registers.Numbered →
    if (channel s).registers.Other then (channel (outb statusPort readSectors s)).transfer = .failed
    else Begins capacity (channel s).registers.sector (channel s).registers.sectors
      (channel (outb statusPort readSectors s)).transfer
  in_status : ∀ s, (inb statusPort s).1.getLsbD 3 = (channel s).transfer.polled.1 ∧
    (channel (inb statusPort s).2).transfer = (channel s).transfer.polled.2
  in_data : ∀ s sector left i, (channel s).transfer = .ready sector left i →
    (inw dataPort s).1 = wordOf content sector i ∧
    if i + 1 < 256 then (channel (inw dataPort s).2).transfer = .ready sector left (i + 1)
    else Begins capacity (sector + 1) left (channel (inw dataPort s).2).transfer

namespace Drive
variable {σ : Type} {content : Nat → BitVec 8} {capacity : Nat} (drive : Drive σ content capacity)

def transfer (s : σ) : Transfer := (drive.channel s).transfer

/-- no command is under way -/
def Idle (s : σ) : Prop := drive.transfer s = .idle

/-! ## a command -/

/-- a read of `count` sectors from `low`, `mid`, `high` and `head` on -/
def command (head count low mid high : BitVec 8) (s : σ) : σ :=
  drive.outb statusPort readSectors <| drive.outb (AtaRegister.port .high) high <|
    drive.outb (AtaRegister.port .mid) mid <| drive.outb (AtaRegister.port .low) low <|
      drive.outb (AtaRegister.port .count) count <| drive.outb (AtaRegister.port .head) head s

/-- the registers of a command -/
def registersOf (head count low mid high : BitVec 8) : AtaRegisters
  | .count => count
  | .low => low
  | .mid => mid
  | .high => high
  | .head => head

theorem command_transfer {s : σ} (h : drive.Idle s) (head count low mid high : BitVec 8)
    (hn : (registersOf head count low mid high).Numbered) :
    if (registersOf head count low mid high).Other then
      drive.transfer (drive.command head count low mid high s) = .failed
    else Begins capacity (registersOf head count low mid high).sector
      (registersOf head count low mid high).sectors
      (drive.transfer (drive.command head count low mid high s)) := by
  have h1 := drive.out_register s .head head h
  have h2 := drive.out_register _ .count count (congrArg Channel.transfer h1)
  have h3 := drive.out_register _ .low low (congrArg Channel.transfer h2)
  have h4 := drive.out_register _ .mid mid (congrArg Channel.transfer h3)
  have h5 := drive.out_register _ .high high (congrArg Channel.transfer h4)
  -- each write is seen through the later ones
  have hreg := congrArg Channel.registers h5
  rw [h4, h3, h2, h1] at hreg
  have hall : Function.update (Function.update (Function.update (Function.update (Function.update
      (drive.channel s).registers .head head) .count count) .low low) .mid mid) .high high
      = registersOf head count low mid high := by
    funext r
    cases r <;> rfl
  have hreg := hreg.trans hall
  have hcmd := drive.out_command _ (congrArg Channel.transfer h5) (hreg ▸ hn)
  rw [hreg] at hcmd
  exact hcmd

/-! ## the words of a sector -/

/-- `n` words from the data port -/
def words : Nat → σ → List (BitVec 16) × σ
  | 0, s => ([], s)
  | n + 1, s =>
    let (w, s1) := drive.inw dataPort s
    let (ws, s2) := words n s1
    (w :: ws, s2)

@[simp] theorem words_length (n : Nat) : ∀ s : σ, (drive.words n s).1.length = n := by
  induction n with
  | zero => exact fun _ => rfl
  | succ n ih => exact fun s => congrArg (· + 1) (ih _)

/-- what the words are, and what they leave -/
theorem words_ready (n : Nat) : ∀ {s : σ} {sector left i : Nat},
    drive.transfer s = .ready sector left i → i + (n + 1) ≤ 256 →
      (drive.words (n + 1) s).1 = (List.range (n + 1)).map (fun k => wordOf content sector (i + k)) ∧
      if i + (n + 1) < 256 then
        drive.transfer (drive.words (n + 1) s).2 = .ready sector left (i + (n + 1))
      else Begins capacity (sector + 1) left (drive.transfer (drive.words (n + 1) s).2) := by
  induction n with
  | zero =>
    intro s sector left i h hi
    obtain ⟨hw, hnext⟩ := drive.in_data s sector left i h
    exact ⟨congrArg (fun w => [w]) hw, hnext⟩
  | succ n ih =>
    intro s sector left i h hi
    obtain ⟨hw, hnext⟩ := drive.in_data s sector left i h
    rw [if_pos (by omega)] at hnext
    obtain ⟨hws, hlast⟩ := ih hnext (by omega)
    rw [Nat.add_assoc, Nat.add_comm 1] at hlast
    refine ⟨?_, hlast⟩
    show (drive.inw dataPort s).1 :: (drive.words (n + 1) (drive.inw dataPort s).2).1 = _
    rw [hw, hws, List.range_succ_eq_map (n := n + 1), List.map_cons, List.map_map]
    refine congrArg _ (List.map_congr_left fun k _ => ?_)
    show wordOf content sector (i + 1 + k) = wordOf content sector (i + (k + 1))
    rw [Nat.add_assoc, Nat.add_comm 1]

/-- **A whole sector** -/
theorem words_sector {s : σ} {sector left : Nat} (h : drive.transfer s = .ready sector left 0) :
    (drive.words 256 s).1 = (List.range 256).map (wordOf content sector) ∧
      Begins capacity (sector + 1) left (drive.transfer (drive.words 256 s).2) := by
  obtain ⟨hws, hnext⟩ := drive.words_ready 255 h (by decide)
  rw [if_neg (by decide)] at hnext
  refine ⟨?_, hnext⟩
  rw [hws]
  exact List.map_congr_left fun k _ => by rw [Nat.zero_add]

end Drive

/-! ## a drive that waits -/

section
variable (content : Nat → BitVec 8) (capacity : Nat)

/-- the drive goes on to a sector, and its data request comes with the second read of the status -/
def beginTransfer (sector : Nat) : Nat → Transfer
  | 0 => .idle
  | left + 1 => if sector < capacity then .busy 1 sector left else .failed

theorem beginTransfer_begins (sector left : Nat) :
    Begins capacity sector left (beginTransfer capacity sector left) := by
  cases left with
  | zero => rfl
  | succ left =>
    show if sector < capacity then ∃ delay, (if sector < capacity then _ else _) = _
      else (if sector < capacity then _ else _) = _
    split
    · exact ⟨1, rfl⟩
    · rfl

def patientOutb (port : Nat) (v : BitVec 8) (s : Channel) : Channel :=
  if port = 0x1F2 then { s with registers := Function.update s.registers .count v }
  else if port = 0x1F3 then { s with registers := Function.update s.registers .low v }
  else if port = 0x1F4 then { s with registers := Function.update s.registers .mid v }
  else if port = 0x1F5 then { s with registers := Function.update s.registers .high v }
  else if port = 0x1F6 then { s with registers := Function.update s.registers .head v }
  else if port = statusPort ∧ v = readSectors then
    { s with transfer := if s.registers.Other then .failed
      else beginTransfer capacity s.registers.sector s.registers.sectors }
  else s

def patientInb (s : Channel) : BitVec 8 × Channel :=
  (if s.transfer.polled.1 then 0x58 else 0xD0, { s with transfer := s.transfer.polled.2 })

/-- the transfer behind the word `i` of a sector -/
def nextWord (sector left i : Nat) : Transfer :=
  if i + 1 < 256 then .ready sector left (i + 1) else beginTransfer capacity (sector + 1) left

def patientInw (s : Channel) : BitVec 16 × Channel :=
  match s.transfer with
  | .ready sector left i =>
    (wordOf content sector i, { s with transfer := nextWord capacity sector left i })
  | _ => (0, s)

def patientDrive (h : capacity ≤ 268435456) : Drive Channel content capacity where
  outb := patientOutb capacity
  inb _ := patientInb
  inw _ := patientInw content capacity
  channel := id
  capacity_le := h
  out_register s reg v hs := by
    obtain ⟨r, t⟩ := s
    obtain rfl : t = .idle := hs
    cases reg <;> rfl
  out_command s hs hn := by
    show if s.registers.Other then (if s.registers.Other then Transfer.failed else _) = _
      else Begins _ _ _ (if s.registers.Other then Transfer.failed else _)
    split
    · rfl
    · exact beginTransfer_begins _ _ _
  in_status s := by
    refine ⟨?_, rfl⟩
    show (if s.transfer.polled.1 = true then (0x58 : BitVec 8) else 0xD0).getLsbD 3 = s.transfer.polled.1
    cases s.transfer.polled.1 <;> rfl
  in_data s sector left i hs := by
    obtain ⟨r, t⟩ := s
    obtain rfl : t = .ready sector left i := hs
    refine ⟨rfl, ?_⟩
    show if i + 1 < 256 then nextWord capacity sector left i = _
      else Begins _ _ _ (nextWord capacity sector left i)
    unfold nextWord
    split
    · rfl
    · exact beginTransfer_begins _ _ _

end

end Lib
