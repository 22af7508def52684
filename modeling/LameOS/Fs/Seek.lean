import LameOS.Fs.OpenFiles

/-!
# `fseek` on an open regular file

* `OpenRegular`           a regular file of the table, with its record and its size;
* `fseek_run`          a seek stores the status and the position that `seekTo` gives it;
* `seek_law_iff`       **a seek does what its mode says exactly when `SEEK_SET` asks for the position
                       that the file is at**, and no negative offset wraps: the branch of `SEEK_SET`
                       is empty;
* `position_within_iff`   **the position stays within the file exactly when no accepted `SEEK_CUR`
                       leaves it**: the code compares the offset with the size, and not the sum.
-/

set_option linter.unusedVariables false

namespace LameOS
open Lib Lib.Exec

/-! ## one seek -/

/-- the descriptor `fd` is in the table, and is one of a regular file of `filesize` bytes -/
structure OpenRegular (s : FileState) (fd : Int) (desc : FileDescriptor) (record : FatDirectoryItem)
    (filesize : Nat) : Prop where
  pos : 1 ≤ fd
  le : fd ≤ maxFileDescriptors
  slot : s.files (fd - 1).toNat = some desc
  type : desc.priv.item.type = fatItemTypeFile
  stored : desc.priv.item.ptr.record = .ok record
  size : record.filesize = .ok filesize
  /-- the position is an `uint32_t` -/
  word : desc.priv.pos < 4294967296

/-- the position that is stored for the descriptor `fd` -/
def storedPosition (s : FileState) (fd : Int) : Option Nat :=
  (s.files (fd - 1).toNat).map fun desc => desc.priv.pos

/-- `fread` takes its bytes from `q` on -/
def ReadsFrom (disk : Disk) (s : FileState) (fd : Int) (record : FatDirectoryItem) (q : Nat) : Prop :=
  ∀ size nmemb : Nat, 1 ≤ size → 1 ≤ nmemb → fread disk size nmemb fd s
    = onVolume (do
        let (res, items) ← readItemsLoop disk record size nmemb (cint q)
        if res < 0 then return (res, items) else return (cint nmemb, items)) s

/-- the status of a seek on a regular file, and the position after it -/
def seekTo (filesize pos offset : Nat) : FileSeekMode → Int × Nat
  | .set => if offset ≥ filesize then (- EIO, pos) else (0, pos)
  | .end => if offset ≥ filesize then (- EIO, pos) else (-EUNIMP, pos)
  | .cur => if offset ≥ filesize then (- EIO, pos) else (0, cuint (pos + offset : Nat))
  | .other => if offset ≥ filesize then (- EIO, pos) else (-EINVARG, pos)

/-- the table with the position `pos` for the descriptor `fd` -/
def FileState.moveTo (s : FileState) (fd : Int) (desc : FileDescriptor) (pos : Nat) : FileState :=
  { s with
    files := Function.update s.files (fd - 1).toNat (some { desc with priv := { desc.priv with pos := pos } }) }

theorem get32_lt {b : Buffer} {i n : Nat} (h : b.get32 i = .ok n) : n < 4294967296 := by
  have hbyte {j : Nat} {x : UInt8} (hx : b.get j = .ok x) : x.toNat < 256 := x.toNat_lt
  have hword {j w : Nat} (hw : b.get16 j = .ok w) : w < 65536 := by
    unfold Buffer.get16 at hw
    cases h0 : b.get j with
    | error e => simp [h0] at hw
    | ok b0 =>
      cases h1 : b.get (j + 1) with
      | error e => simp [h0, h1] at hw
      | ok b1 =>
        have e : b0.toNat + 256 * b1.toNat = w := by simpa [h0, h1, pure, Except.pure] using hw
        have hb0 := hbyte h0
        have hb1 := hbyte h1
        omega
  unfold Buffer.get32 at h
  cases h0 : b.get16 i with
  | error e => simp [h0] at h
  | ok w0 =>
    cases h1 : b.get16 (i + 2) with
    | error e => simp [h0, h1] at h
    | ok w1 =>
      have e : w0 + 65536 * w1 = n := by simpa [h0, h1, pure, Except.pure] using h
      have hw0 := hword h0
      have hw1 := hword h1
      omega

section
variable {disk : Disk} {s s' : FileState} {fd : Int} {desc : FileDescriptor}
  {record : FatDirectoryItem} {filesize : Nat}

theorem OpenRegular.filesize_lt (h : OpenRegular s fd desc record filesize) : filesize < 4294967296 :=
  get32_lt h.size

theorem OpenRegular.storedPosition (h : OpenRegular s fd desc record filesize) :
    storedPosition s fd = some desc.priv.pos := by
  unfold LameOS.storedPosition
  rw [h.slot]
  rfl

theorem OpenRegular.get (h : OpenRegular s fd desc record filesize) (hfd : fd < maxFileDescriptors) :
    fileGetDescriptor s fd = some desc := by
  have hpos := h.pos
  unfold fileGetDescriptor
  rw [if_neg (by omega), h.slot]

/-- the number of the last slot is not looked up -/
theorem fileGetDescriptor_last : fileGetDescriptor s maxFileDescriptors = none :=
  if_pos (Or.inr (le_refl _))

/-- the table is that of an open file at another position -/
theorem OpenRegular.moveTo (h : OpenRegular s fd desc record filesize) {pos : Nat}
    (hpos : pos < 4294967296) : OpenRegular (s.moveTo fd desc pos) fd
      { desc with priv := { desc.priv with pos := pos } } record filesize :=
  ⟨h.pos, h.le, Function.update_self .., h.type, h.stored, h.size, hpos⟩

theorem fat16Seek_run (h : OpenRegular s fd desc record filesize) (offset : Nat)
    (whence : FileSeekMode) : fat16Seek desc.priv offset whence
      = .ok ((seekTo filesize desc.priv.pos offset whence).1,
          { desc.priv with pos := (seekTo filesize desc.priv.pos offset whence).2 }) := by
  unfold fat16Seek
  rw [if_neg (not_not.mpr h.type), h.stored, ok_bind, h.size, ok_bind]
  by_cases hoff : offset ≥ filesize
  · rw [if_pos hoff]
    cases whence <;> simp [seekTo, hoff] <;> rfl
  · rw [if_neg hoff]
    cases whence <;> simp [seekTo, hoff] <;> rfl

/-- one seek: the position after it is stored -/
theorem fseek_run (h : OpenRegular s fd desc record filesize) (hfd : fd < maxFileDescriptors)
    (offset : Int) (whence : FileSeekMode) : fseek fd offset whence s
      = .ok ((seekTo filesize desc.priv.pos (cuint offset) whence).1,
          s.moveTo fd desc (seekTo filesize desc.priv.pos (cuint offset) whence).2) := by
  unfold fseek
  rw [bind_ok (get_run s), h.get hfd]
  dsimp only
  rw [fat16Seek_run h]
  rfl

theorem fseek_last (offset : Int) (whence : FileSeekMode) :
    fseek maxFileDescriptors offset whence s = .ok (- EIO, s) := by
  unfold fseek
  rw [bind_ok (get_run s), fileGetDescriptor_last]
  rfl

/-- the next read is made at the stored position -/
theorem OpenRegular.readsFrom (h : OpenRegular s fd desc record filesize) (hfd : fd < maxFileDescriptors) :
    ReadsFrom disk s fd record desc.priv.pos := by
  intro size nmemb hsize hnmemb
  have hpos := h.pos
  unfold fread
  rw [if_neg (by omega), bind_ok (get_run s), h.get hfd]
  dsimp only
  unfold fat16Read
  rw [h.stored]
  rfl

@[simp] theorem storedPosition_moveTo (pos : Nat) :
    storedPosition (s.moveTo fd desc pos) fd = some pos := by
  simp [storedPosition, FileState.moveTo]

/-- what a seek that returned `res` in the state `s'` has done, from the position `pos` -/
structure SeekLaw (disk : Disk) (fd offset : Int) (whence : FileSeekMode) (record : FatDirectoryItem)
    (filesize pos : Nat) (res : Int) (s' : FileState) : Prop where
  set : whence = .set → 0 ≤ offset → offset < filesize → res = 0 ∧
    storedPosition s' fd = some offset.toNat ∧ ReadsFrom disk s' fd record offset.toNat
  cur : whence = .cur → res = 0 → ∃ q : Nat, (q : Int) = pos + offset ∧ storedPosition s' fd = some q
  refused : res < 0 → storedPosition s' fd = some pos

/-- `SEEK_SET` asks for the position the file is at, `SEEK_CUR` for a sum that does not wrap -/
def SeekHeeded (fd offset : Int) (filesize pos : Nat) : FileSeekMode → Prop
  | .set => 0 ≤ offset → offset < filesize → fd < maxFileDescriptors ∧ offset = pos
  | .cur => fd < maxFileDescriptors → cuint offset < filesize →
    0 ≤ pos + offset ∧ pos + offset < 4294967296
  | .end => True
  | .other => True

theorem io_neg : (- EIO : Int) < 0 := by decide

/-- a seek that is refused -/
theorem SeekLaw.of_refused {offset res : Int} {whence : FileSeekMode} {pos : Nat} (hres : res < 0)
    (hpos : storedPosition s' fd = some pos) (hset : whence ≠ .set ∨ ¬ (0 ≤ offset ∧ offset < filesize)) :
    SeekLaw disk fd offset whence record filesize pos res s' := by
  refine ⟨fun hw h0 h1 => ?_, fun _ h0 => by omega, fun _ => hpos⟩
  exact absurd ⟨h0, h1⟩ (hset.resolve_left (not_not.mpr hw))

theorem seekTo_beyond {pos offset : Nat} (hoff : filesize ≤ offset) (whence : FileSeekMode) :
    seekTo filesize pos offset whence = (- EIO, pos) := by
  cases whence <;> simp [seekTo, hoff]

/-- the sum is stored without a wrap -/
theorem seek_sum_iff (pos : Nat) (offset : Int) :
    (cuint (pos + cuint offset : Nat) : Int) = pos + offset ↔
      0 ≤ pos + offset ∧ pos + offset < 4294967296 := by
  unfold cuint
  omega

/-- the law for a descriptor that is looked up -/
theorem seekLaw_found (disk : Disk) (h : OpenRegular s fd desc record filesize)
    (hfd : fd < maxFileDescriptors) (offset : Int) (whence : FileSeekMode) :
    SeekLaw disk fd offset whence record filesize desc.priv.pos
        (seekTo filesize desc.priv.pos (cuint offset) whence).1
        (s.moveTo fd desc (seekTo filesize desc.priv.pos (cuint offset) whence).2) ↔
      SeekHeeded fd offset filesize desc.priv.pos whence := by
  have hsize := h.filesize_lt
  by_cases hoff : filesize ≤ cuint offset
  · -- the offset is beyond the end
    have hout : ¬ (0 ≤ offset ∧ offset < filesize) := by
      unfold cuint at hoff
      omega
    rw [seekTo_beyond hoff whence]
    refine iff_of_true (SeekLaw.of_refused io_neg (storedPosition_moveTo _) (Or.inr hout)) ?_
    cases whence with
    | set => exact fun h0 h1 => absurd ⟨h0, h1⟩ hout
    | cur => exact fun _ h1 => absurd h1 (by omega)
    | «end» => trivial
    | other => trivial
  · cases whence with
    | set =>
      simp only [seekTo, if_neg hoff]
      constructor
      · intro hlaw h0 h1
        obtain ⟨-, hpos, -⟩ := hlaw.set rfl h0 h1
        have := Option.some.inj ((storedPosition_moveTo _).symm.trans hpos)
        exact ⟨hfd, by omega⟩
      · intro hheeded
        refine ⟨fun _ h0 h1 => ?_, fun hw => (by cases hw), fun h0 => absurd h0 (by decide)⟩
        obtain ⟨-, rfl⟩ := hheeded h0 h1
        exact ⟨rfl, storedPosition_moveTo _, (h.moveTo h.word).readsFrom hfd⟩
    | cur =>
      simp only [seekTo, if_neg hoff]
      have hsum := seek_sum_iff desc.priv.pos offset
      constructor
      · intro hlaw _ _
        obtain ⟨q, hq, hpos⟩ := hlaw.cur rfl rfl
        rw [storedPosition_moveTo] at hpos
        exact hsum.mp ((congrArg Int.ofNat (Option.some.inj hpos)).trans hq)
      · intro hheeded
        refine ⟨fun hw => (by cases hw), fun _ _ => ?_, fun h0 => absurd h0 (by decide)⟩
        exact ⟨_, hsum.mpr (hheeded hfd (by omega)), storedPosition_moveTo _⟩
    | «end» =>
      simp only [seekTo, if_neg hoff]
      exact iff_of_true (SeekLaw.of_refused (by decide) (storedPosition_moveTo _) (Or.inl (by simp)))
        trivial
    | other =>
      simp only [seekTo, if_neg hoff]
      exact iff_of_true (SeekLaw.of_refused (by decide) (storedPosition_moveTo _) (Or.inl (by simp)))
        trivial

/-- the law for the number of the last slot, which is not looked up -/
theorem seekLaw_last (disk : Disk) {pos : Nat}
    (hpos : storedPosition s maxFileDescriptors = some pos) (offset : Int) (whence : FileSeekMode) :
    SeekLaw disk maxFileDescriptors offset whence record filesize pos (- EIO) s ↔
      SeekHeeded maxFileDescriptors offset filesize pos whence := by
  constructor
  · intro hlaw
    cases whence with
    | set => exact fun h0 h1 => absurd (hlaw.set rfl h0 h1).1 (by decide)
    | cur => exact fun hlt => absurd hlt (lt_irrefl _)
    | «end» => trivial
    | other => trivial
  · intro hheeded
    apply SeekLaw.of_refused io_neg hpos
    cases whence with
    | set => exact Or.inr fun hin => lt_irrefl _ (hheeded hin.1 hin.2).1
    | _ => exact Or.inl (by simp)

/-- **A seek does what its mode says exactly when it is heeded**: the branch of `SEEK_SET` does not
store the offset, so only a seek to the present position arrives. -/
theorem seek_law_iff (disk : Disk) (h : OpenRegular s fd desc record filesize) (offset : Int)
    (whence : FileSeekMode) :
    Does (fseek fd offset whence) s (SeekLaw disk fd offset whence record filesize desc.priv.pos) ↔
      SeekHeeded fd offset filesize desc.priv.pos whence := by
  rcases lt_or_eq_of_le h.le with hfd | rfl
  · rw [does_iff (fseek_run h hfd offset whence)]
    exact seekLaw_found disk h hfd offset whence
  · rw [does_iff (fseek_last offset whence)]
    exact seekLaw_last disk h.storedPosition offset whence

end

/-! ## a small volume -/

/-- what the table has for `fd`: the type, the position and the size of the file -/
def openedAs (s : FileState) (fd : Int) : Option (Nat × Nat × Option Nat) :=
  (s.files (fd - 1).toNat).map fun desc => (desc.priv.item.type, desc.priv.pos,
    ((do
      let record ← desc.priv.item.ptr.record
      record.filesize) : Except Fault Nat).toOption)

theorem openRegular_of {s : FileState} {fd : Int} {pos filesize : Nat} (h1 : 1 ≤ fd)
    (h2 : fd ≤ maxFileDescriptors) (hpos : pos < 4294967296)
    (h : openedAs s fd = some (fatItemTypeFile, pos, some filesize)) :
    ∃ desc record, OpenRegular s fd desc record filesize ∧ desc.priv.pos = pos := by
  obtain ⟨desc, hslot, hdesc⟩ := Option.map_eq_some_iff.mp h
  obtain ⟨htype, hrest⟩ := Prod.mk.inj hdesc
  obtain ⟨rfl, hsize⟩ := Prod.mk.inj hrest
  cases hrecord : desc.priv.item.ptr.record with
  | error e =>
    rw [hrecord] at hsize
    cases hsize
  | ok record =>
    rw [hrecord, ok_bind] at hsize
    cases hn : record.filesize with
    | error e =>
      rw [hn] at hsize
      cases hsize
    | ok n =>
      rw [hn] at hsize
      obtain rfl := Option.some.inj hsize
      exact ⟨desc, record, ⟨h1, h2, hslot, htype, hrecord, hn, hpos⟩, rfl⟩

/-- the table after `0:/a` is opened, a seek on it, and one byte read from there -/
def seekThenRead (offset : Int) (whence : FileSeekMode) :
    Prog FileState (Option (Nat × Nat × Option Nat) × Int × List (List UInt8)) := do
  let _ ← fopen countingDisk [48, 58, 47, 97] [114]
  let s ← get
  let res ← fseek 1 offset whence
  let (_, items) ← fread countingDisk 1 1 1
  return (openedAs s 1, res, items)

/-- the file after `fopen`, with what a seek and a read of it return -/
theorem seekThenRead_run (offset res : Int) (whence : FileSeekMode) (items : List (List UInt8))
    (h : outcome (mounted countingDisk (seekThenRead offset whence))
      = some (some (fatItemTypeFile, 0, some 8), res, items)) :
    ∃ s desc record s' s'' count, OpenRegular s 1 desc record 8 ∧ desc.priv.pos = 0 ∧
      fseek 1 offset whence s = .ok (res, s') ∧
      fread countingDisk 1 1 1 s' = .ok ((count, items), s'') := by
  obtain ⟨t, h⟩ := outcome_eq h
  obtain ⟨s0, h⟩ := mounted_eq h
  obtain ⟨fd, s, -, h⟩ := bind_eq_ok h
  obtain ⟨s1, s2, hget, h⟩ := bind_eq_ok h
  cases hget
  obtain ⟨res', s', hseek, h⟩ := bind_eq_ok h
  obtain ⟨⟨count, items'⟩, s'', hread, h⟩ := bind_eq_ok h
  obtain ⟨e, -⟩ := pure_eq_ok h
  obtain ⟨hopen, e⟩ := Prod.mk.inj e
  obtain ⟨rfl, rfl⟩ := Prod.mk.inj e
  obtain ⟨desc, record, hreg, hpos⟩ := openRegular_of (by decide) (by decide) (by decide) hopen
  exact ⟨s, desc, record, s', s'', count, hreg, hpos, hseek, hread⟩

/-- `SEEK_SET` to byte 4 returns 0, and the next read still delivers the first byte -/
theorem seek_set_stays : ∃ s desc record s' s'' count, OpenRegular s 1 desc record 8 ∧
    fseek 1 4 .set s = .ok (0, s') ∧
    fread countingDisk 1 1 1 s' = .ok ((count, [[1]]), s'') ∧
    ¬ Does (fseek 1 4 .set) s (SeekLaw countingDisk 1 4 .set record 8 desc.priv.pos) := by
  obtain ⟨s, desc, record, s', s'', count, hopen, hpos, hseek, hread⟩ :=
    seekThenRead_run 4 0 .set [[1]] (by decide +kernel)
  refine ⟨s, desc, record, s', s'', count, hopen, hseek, hread, ?_⟩
  rw [does_iff hseek]
  intro hlaw
  obtain ⟨-, hset, -⟩ := hlaw.set rfl (by decide) (by decide)
  obtain ⟨-, hmoved⟩ := Prod.mk.inj
    (Except.ok.inj (hseek.symm.trans (fseek_run hopen (by decide) 4 .set)))
  rw [hmoved, storedPosition_moveTo, hpos] at hset
  exact absurd hset (by decide)

theorem seek_law_iff_start : ∃ s desc record, OpenRegular s 1 desc record 8 ∧
    Does (fseek 1 0 .set) s (SeekLaw countingDisk 1 0 .set record 8 desc.priv.pos) := by
  obtain ⟨s, desc, record, s', s'', count, hopen, hpos, -, -⟩ :=
    seekThenRead_run 0 0 .set [[1]] (by decide +kernel)
  refine ⟨s, desc, record, hopen, (seek_law_iff countingDisk hopen 0 .set).mpr ?_⟩
  intro _ _
  exact ⟨by decide, by rw [hpos]; rfl⟩

/-! ## seeks and reads one after the other -/

/-- a seek or a read, on any descriptor -/
inductive SeekCall where
  | fseek (fd offset : Int) (whence : FileSeekMode)
  | fread (size nmemb : Nat) (fd : Int)

def SeekCall.call : SeekCall → FileCall
  | .fseek fd offset whence => .fseek fd offset whence
  | .fread size nmemb fd => .fread size nmemb fd

def seekCall (disk : Disk) (s : FileState) (c : SeekCall) : Except Fault FileState :=
  fileCall disk s c.call

/-- what the call adds to the position of `fd`: the offset of a `SEEK_CUR` that is accepted -/
def addsTo (fd : Int) (filesize : Nat) : SeekCall → Option Nat
  | .fseek fd' offset .cur =>
    if fd' = fd ∧ fd < maxFileDescriptors ∧ cuint offset < filesize then some (cuint offset) else none
  | _ => none

/-- the position after an addition of 32 bits -/
def addPosition (pos : Nat) : Option Nat → Nat
  | none => pos
  | some offset => cuint (pos + offset : Nat)

@[simp] theorem addPosition_none (pos : Nat) : addPosition pos none = pos := rfl

@[simp] theorem addPosition_some (pos offset : Nat) :
    addPosition pos (some offset) = cuint (pos + offset : Nat) := rfl

@[simp] theorem addsTo_cur (fd fd' offset : Int) (filesize : Nat) :
    addsTo fd filesize (.fseek fd' offset .cur)
      = if fd' = fd ∧ fd < maxFileDescriptors ∧ cuint offset < filesize then some (cuint offset)
        else none := rfl

def PositionWithin (fd : Int) (filesize : Nat) (s : FileState) : Prop :=
  ∃ pos ≤ filesize, storedPosition s fd = some pos

/-- the call adds to the position of `fd` without a wrap -/
def AddsUnwrapped (fd : Int) (filesize : Nat) (s : FileState) (c : SeekCall) : Prop :=
  ∀ offset pos, addsTo fd filesize c = some offset → storedPosition s fd = some pos →
    pos + offset < 4294967296

/-- the call adds to the position of `fd` no more than is left of the file -/
def AddsWithin (fd : Int) (filesize : Nat) (s : FileState) (c : SeekCall) : Prop :=
  ∀ offset pos, addsTo fd filesize c = some offset → storedPosition s fd = some pos →
    pos + offset ≤ filesize

section
variable {disk : Disk} {s s' : FileState} {fd : Int} {desc : FileDescriptor}
  {record : FatDirectoryItem} {filesize : Nat}

theorem seekTo_position (pos : Nat) (offset : Int) (whence : FileSeekMode)
    (hfd : fd < maxFileDescriptors) : (seekTo filesize pos (cuint offset) whence).2
      = addPosition pos (addsTo fd filesize (.fseek fd offset whence)) := by
  by_cases hoff : filesize ≤ cuint offset
  · rw [seekTo_beyond hoff whence]
    cases whence with
    | cur => rw [addsTo_cur, if_neg (fun hacc => absurd hacc.2.2 (by omega)), addPosition_none]
    | _ => rfl
  · cases whence with
    | cur =>
      rw [addsTo_cur, if_pos ⟨rfl, hfd, by omega⟩, addPosition_some]
      simp [seekTo, hoff]
    | _ => simp [seekTo, addsTo, hoff]

/-- the other slots are as before -/
theorem fseek_other {fd' offset res : Int} {whence : FileSeekMode} (hpos : 1 ≤ fd) (hne : fd' ≠ fd)
    (h : fseek fd' offset whence s = .ok (res, s')) :
    s'.files (fd - 1).toNat = s.files (fd - 1).toNat := by
  unfold fseek at h
  rw [bind_ok (get_run s)] at h
  cases hget : fileGetDescriptor s fd' with
  | none =>
    rw [hget] at h
    obtain ⟨-, rfl⟩ := pure_eq_ok h
    rfl
  | some desc' =>
    have hpos' : 1 ≤ fd' := by
      unfold fileGetDescriptor at hget
      split at hget
      · cases hget
      · omega
    rw [hget] at h
    obtain ⟨⟨res', priv⟩, s1, hseek, h⟩ := bind_eq_ok h
    obtain ⟨u, s2, hset, h⟩ := bind_eq_ok h
    cases hset
    obtain ⟨-, rfl⟩ := pure_eq_ok h
    exact Function.update_of_ne (by omega) _ _

theorem OpenRegular.congr (h : OpenRegular s fd desc record filesize)
    (hslot : s'.files (fd - 1).toNat = s.files (fd - 1).toNat) :
    OpenRegular s' fd desc record filesize :=
  ⟨h.pos, h.le, hslot.trans h.slot, h.type, h.stored, h.size, h.word⟩

/-- one call: the file stays open, and its position is the sum -/
theorem seekCall_step (h : OpenRegular s fd desc record filesize) {c : SeekCall}
    (hstep : seekCall disk s c = .ok s') : ∃ desc', OpenRegular s' fd desc' record filesize ∧
      desc'.priv.pos = addPosition desc.priv.pos (addsTo fd filesize c) := by
  cases c with
  | fread size nmemb fd' =>
    obtain ⟨r, hrun⟩ := after_eq_ok hstep
    exact ⟨desc, h.congr (by rw [fread_files hrun]), rfl⟩
  | fseek fd' offset whence =>
    obtain ⟨r, hrun⟩ := after_eq_ok hstep
    by_cases hne : fd' = fd
    · subst hne
      rcases lt_or_eq_of_le h.le with hfd | rfl
      · obtain ⟨-, rfl⟩ := run_unique hrun (fseek_run h hfd offset whence)
        rw [seekTo_position desc.priv.pos offset whence hfd]
        refine ⟨_, h.moveTo ?_, rfl⟩
        cases addsTo fd' filesize (.fseek fd' offset whence) with
        | none => exact h.word
        | some off => exact cuint_lt _
      · obtain ⟨-, rfl⟩ := run_unique hrun (fseek_last offset whence)
        refine ⟨desc, h, ?_⟩
        cases whence with
        | cur => simp
        | _ => rfl
    · refine ⟨desc, h.congr (fseek_other h.pos hne hrun), ?_⟩
      cases whence with
      | cur => simp [hne]
      | _ => rfl

/-- a call that adds to the position returns -/
theorem seekCall_adds (disk : Disk) (h : OpenRegular s fd desc record filesize) {c : SeekCall} {offset : Nat}
    (hadds : addsTo fd filesize c = some offset) : ∃ s', seekCall disk s c = .ok s' := by
  cases c with
  | fread size nmemb fd' => cases hadds
  | fseek fd' off whence =>
    cases whence with
    | cur =>
      rw [addsTo_cur] at hadds
      split at hadds
      · rename_i hacc
        obtain ⟨rfl, hfd, -⟩ := hacc
        exact ⟨_, after_ok (fseek_run h hfd off .cur)⟩
      · cases hadds
    | _ => cases hadds

theorem storedPosition_eq {pos : Nat} (h : OpenRegular s fd desc record filesize)
    (hpos : storedPosition s fd = some pos) : pos = desc.priv.pos :=
  Option.some.inj (hpos.symm.trans h.storedPosition)

/-- **In a run of seeks and reads the position stays within the file, and no addition to it wraps,
exactly when no accepted `SEEK_CUR` asks for more than is left of the file**: the code compares the
offset with the size, and not the sum. -/
theorem position_within_iff (disk : Disk) (h : OpenRegular s fd desc record filesize)
    (hpos : desc.priv.pos ≤ filesize) (calls : List SeekCall) :
    Throughout (seekCall disk) (PositionWithin fd filesize) (AddsUnwrapped fd filesize) s calls ↔
      Meets (seekCall disk) (AddsWithin fd filesize) s calls := by
  have hsize := h.filesize_lt
  apply throughout_iff_meets
    (I := fun s => ∃ desc, OpenRegular s fd desc record filesize ∧ desc.priv.pos ≤ filesize)
  · rintro s ⟨desc, hs, hle⟩
    exact ⟨_, hle, hs.storedPosition⟩
  · rintro s c ⟨desc, hs, hle⟩ hwithin
    constructor
    · intro offset pos hadds hp
      have := hwithin offset pos hadds hp
      omega
    · intro s' hstep
      obtain ⟨desc', hs', hsum⟩ := seekCall_step hs hstep
      refine ⟨desc', hs', ?_⟩
      cases hadds : addsTo fd filesize c with
      | none =>
        rw [hadds] at hsum
        exact hsum.trans_le hle
      | some offset =>
        have hsumle := hwithin offset _ hadds hs.storedPosition
        rw [hadds, addPosition_some, cuint_nat (by omega)] at hsum
        omega
  · rintro s c ⟨desc, hs, hle⟩ hout hunwrapped
    unfold AddsWithin at hout
    push Not at hout
    obtain ⟨offset, pos, hadds, hp, hgt⟩ := hout
    have hlt := hunwrapped offset pos hadds hp
    obtain rfl := storedPosition_eq hs hp
    obtain ⟨s', hstep⟩ := seekCall_adds disk hs hadds
    obtain ⟨desc', hs', hsum⟩ := seekCall_step hs hstep
    rw [hadds, addPosition_some, cuint_nat hlt] at hsum
    refine ⟨s', hstep, ?_⟩
    rintro ⟨pos', hle', hp'⟩
    have := storedPosition_eq hs' hp'
    omega
  · exact ⟨desc, h, hpos⟩

end

/-- `SEEK_CUR` by 7 in a file of 8 bytes, from the position `pos` -/
theorem seekCall_seven {s : FileState} {desc : FileDescriptor} {record : FatDirectoryItem}
    (h : OpenRegular s 1 desc record 8) : ∃ s' desc',
      seekCall countingDisk s (.fseek 1 7 .cur) = .ok s' ∧ OpenRegular s' 1 desc' record 8 ∧
        desc'.priv.pos = cuint (desc.priv.pos + 7 : Nat) := by
  have hadds : addsTo 1 8 (.fseek 1 7 .cur) = some 7 := by decide
  obtain ⟨s', hstep⟩ := seekCall_adds countingDisk h hadds
  obtain ⟨desc', h', hpos⟩ := seekCall_step h hstep
  rw [hadds] at hpos
  exact ⟨s', desc', hstep, h', hpos⟩

/-- two seeks by 7 leave a file of 8 bytes -/
theorem two_seeks_leave : ∃ s desc record, OpenRegular s 1 desc record 8 ∧ desc.priv.pos = 0 ∧
    ¬ Throughout (seekCall countingDisk) (PositionWithin 1 8) (AddsUnwrapped 1 8) s
      [.fseek 1 7 .cur, .fseek 1 7 .cur] := by
  obtain ⟨s, desc, record, -, -, -, hopen, hpos, -, -⟩ :=
    seekThenRead_run 0 0 .set [[1]] (by decide +kernel)
  refine ⟨s, desc, record, hopen, hpos, ?_⟩
  obtain ⟨s1, desc1, hstep1, hopen1, hpos1⟩ := seekCall_seven hopen
  obtain ⟨s2, desc2, hstep2, hopen2, hpos2⟩ := seekCall_seven hopen1
  rw [hpos1, hpos] at hpos2
  rintro ⟨-, -, h⟩
  obtain ⟨-, -, h⟩ := h s1 hstep1
  obtain ⟨pos, hle, hpos'⟩ := h s2 hstep2
  have e : pos = 14 := (storedPosition_eq hopen2 hpos').trans hpos2
  omega

/-- a seek by 7 and reads stay within a file of 8 bytes -/
theorem position_within_iff_seven : ∃ s desc record, OpenRegular s 1 desc record 8 ∧
    Throughout (seekCall countingDisk) (PositionWithin 1 8) (AddsUnwrapped 1 8) s
      [.fread 1 1 1, .fseek 1 7 .cur, .fseek 1 3 .set] := by
  obtain ⟨s, desc, record, -, -, -, hopen, hpos, -, -⟩ :=
    seekThenRead_run 0 0 .set [[1]] (by decide +kernel)
  refine ⟨s, desc, record, hopen, (position_within_iff countingDisk hopen (by omega) _).mpr ?_⟩
  refine ⟨fun _ _ hadds => (by cases hadds), fun s1 hstep => ?_⟩
  obtain ⟨desc1, hopen1, hpos1⟩ := seekCall_step hopen hstep
  refine ⟨fun offset pos hadds hp => ?_, fun s2 hstep2 => ?_⟩
  · obtain rfl : (7 : Nat) = offset := Option.some.inj hadds
    have := storedPosition_eq hopen1 hp
    rw [this, hpos1, hpos]
    decide
  · exact ⟨fun _ _ hadds => (by cases hadds), fun _ _ => trivial⟩

end LameOS
