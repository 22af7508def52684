import LameOS.Fs.Terminates

/-!
# The position of an open file

* `fread_files`            a read leaves the table of descriptors as it is;
* `freads`                 reads one after the other on one descriptor;
* `position_advances_iff`  **reads never move the position**: it advances by the bytes delivered
                           only when no read was made;
* `rootDisk`, `rootRecord` small volumes.
-/

set_option linter.unusedVariables false

namespace LameOS
open Lib Lib.Exec

/-! ## reads -/

theorem onVolume_files {α : Type} {x : Prog FatState α} {s s' : FileState} {a : α}
    (h : onVolume x s = .ok (a, s')) : s'.files = s.files := by
  unfold onVolume at h
  split at h
  · cases h
  · split at h
    · cases h
    · cases h
      rfl

theorem fread_files {disk : Disk} {size nmemb : Nat} {fd : Int} {s s' : FileState}
    {r : Int × List (List UInt8)} (h : fread disk size nmemb fd s = .ok (r, s')) :
    s'.files = s.files := by
  unfold fread at h
  split at h
  · obtain ⟨-, rfl⟩ := pure_eq_ok h
    rfl
  · rw [bind_ok (get_run s)] at h
    cases hd : fileGetDescriptor s fd with
    | none =>
      rw [hd] at h
      obtain ⟨-, rfl⟩ := pure_eq_ok h
      rfl
    | some desc =>
      rw [hd] at h
      exact onVolume_files h

/-- a request that is refused does not count its items -/
theorem fread_asks {disk : Disk} {size nmemb : Nat} {fd : Int} {s s' : FileState}
    {items : List (List UInt8)} (h : fread disk size nmemb fd s = .ok ((nmemb, items), s')) :
    1 ≤ size * nmemb := by
  unfold fread at h
  split at h
  · obtain ⟨e, -⟩ := pure_eq_ok h
    have e1 : (-EINVARG : Int) = nmemb := congrArg Prod.fst e
    have : (-EINVARG : Int) < 0 := by decide
    omega
  · rename_i hpos
    have h1 : 0 < size := by omega
    have h2 : 0 < nmemb := by omega
    exact Nat.mul_pos h1 h2

/-! ## reads one after the other -/

/-- `fread` of every pair `(size, nmemb)` of `reads`, with the count and the bytes of each -/
def freads (disk : Disk) (fd : Int) : List (Nat × Nat) → Prog FileState (List (Int × List UInt8))
  | [] => return []
  | r :: reads => do
    let (res, items) ← fread disk r.1 r.2 fd
    let rest ← freads disk fd reads
    return (res, items.flatten) :: rest

/-- the bytes that the reads ask for -/
def readTotal (reads : List (Nat × Nat)) : Nat := (reads.map fun r => r.1 * r.2).sum

theorem freads_cons {disk : Disk} {fd : Int} {r : Nat × Nat} {reads : List (Nat × Nat)}
    {s s' : FileState} {out : List (Int × List UInt8)}
    (h : freads disk fd (r :: reads) s = .ok (out, s')) : ∃ res items s1 rest,
      fread disk r.1 r.2 fd s = .ok ((res, items), s1) ∧
      freads disk fd reads s1 = .ok (rest, s') ∧ out = (res, items.flatten) :: rest := by
  obtain ⟨⟨res, items⟩, s1, h1, h⟩ := bind_eq_ok h
  obtain ⟨rest, s2, h2, h⟩ := bind_eq_ok h
  obtain ⟨rfl, rfl⟩ := pure_eq_ok h
  exact ⟨res, items, s1, rest, h1, h2, rfl⟩

theorem freads_files {disk : Disk} {fd : Int} (reads : List (Nat × Nat)) {s s' : FileState}
    {out : List (Int × List UInt8)} (h : freads disk fd reads s = .ok (out, s')) :
    s'.files = s.files := by
  induction reads generalizing s out with
  | nil =>
    obtain ⟨-, rfl⟩ := pure_eq_ok h
    rfl
  | cons r reads ih =>
    obtain ⟨res, items, s1, rest, h1, h2, -⟩ := freads_cons h
    exact (ih h2).trans (fread_files h1)

theorem freads_pos {disk : Disk} {fd : Int} {reads : List (Nat × Nat)} {s s' : FileState}
    {out : List (Int × List UInt8)} (h : freads disk fd reads s = .ok (out, s'))
    (hall : out.map Prod.fst = reads.map fun r => (r.2 : Int)) (hne : reads ≠ []) :
    1 ≤ readTotal reads := by
  cases reads with
  | nil => exact absurd rfl hne
  | cons r reads =>
    obtain ⟨res, items, s1, rest, h1, -, rfl⟩ := freads_cons h
    have e : res = (r.2 : Int) := (List.cons.inj hall).1
    rw [e] at h1
    have hr := fread_asks h1
    unfold readTotal
    rw [List.map_cons, List.sum_cons]
    omega

/-- `file_descriptors[fd - 1]->private->pos` -/
def filePosition (s : FileState) (fd : Int) : Option Nat :=
  (fileGetDescriptor s fd).map fun desc => desc.priv.pos

/-- **After successful reads the position has advanced by the bytes that were read only if there
were no reads**: `fat16_read` never stores the position. -/
theorem position_advances_iff {disk : Disk} {fd : Int} {reads : List (Nat × Nat)}
    {s s' : FileState} {out : List (Int × List UInt8)} {pos : Nat}
    (hopen : filePosition s fd = some pos) (h : freads disk fd reads s = .ok (out, s'))
    (hall : out.map Prod.fst = reads.map fun r => (r.2 : Int)) :
    filePosition s' fd = some (pos + readTotal reads) ↔ reads = [] := by
  have hkeep : filePosition s' fd = some pos := by
    rw [← hopen]
    unfold filePosition fileGetDescriptor
    rw [freads_files reads h]
  rw [hkeep]
  constructor
  · intro e
    by_contra hne
    have hpos := freads_pos h hall hne
    have := Option.some.inj e
    omega
  · intro hnil
    rw [hnil]
    rfl

/-! ## a small volume -/

/-- the record of a file or a directory -/
def rootRecord (name : List UInt8) (attributes cluster size : UInt8) : List UInt8 :=
  name ++ List.replicate (11 - name.length) 0x20 ++ attributes :: List.replicate 14 0
    ++ [cluster, 0, size, 0, 0, 0]

/-- a volume with the records `root`; cluster 2 and what follows it hold `data` -/
def rootDisk (root : List UInt8) (data : Nat → UInt8) : Disk := fun i =>
  if i < 1024 then bootDisk 1 i else if i < 1536 then root.getD (i - 1024) 0 else data (i - 1536)

/-- `x` after the mount of `disk` with an empty heap -/
def mounted {α : Type} (disk : Disk) (x : Prog FileState α) : Except Fault (α × FileState) :=
  match diskSearchAndInit disk emptyMachine with
  | .ok (s, _) => x s
  | .error e => .error e

/-- the value of a program that does not fail -/
def outcome {ε σ α : Type} (r : Except ε (α × σ)) : Option α :=
  match r with
  | .ok (a, _) => some a
  | .error _ => none

theorem outcome_eq {ε σ α : Type} {r : Except ε (α × σ)} {a : α} (h : outcome r = some a) :
    ∃ s, r = .ok (a, s) := by
  cases r with
  | error e => cases h
  | ok p =>
    cases h
    exact ⟨p.2, rfl⟩

theorem mounted_run {α : Type} {disk : Disk} {x : Prog FileState α} {r : α × FileState}
    (h : mounted disk x = .ok r) :
    ∃ s m, diskSearchAndInit disk emptyMachine = .ok (s, m) ∧ x s = .ok r := by
  unfold mounted at h
  cases hd : diskSearchAndInit disk emptyMachine with
  | error e =>
    rw [hd] at h
    cases h
  | ok p =>
    rw [hd] at h
    exact ⟨p.1, p.2, rfl, h⟩

theorem mounted_eq {α : Type} {disk : Disk} {x : Prog FileState α} {r : α × FileState}
    (h : mounted disk x = .ok r) : ∃ s, x s = .ok r := by
  obtain ⟨s, _, _, hrun⟩ := mounted_run h
  exact ⟨s, hrun⟩

/-- the file `a` of eight bytes, 1, 2, 3, .. -/
def countingDisk : Disk := rootDisk (rootRecord [65] 0 2 8) fun i => UInt8.ofNat (i + 1)

/-- the reads on `0:/a`, with the position before them -/
def countingReads (reads : List (Nat × Nat)) :
    Prog FileState (Int × Option Nat × List (Int × List UInt8)) := do
  let fd ← fopen countingDisk [48, 58, 47, 97] [114]
  let s ← get
  let out ← freads countingDisk 1 reads
  return (fd, filePosition s 1, out)

/-- two reads of one byte both deliver the first byte, one read of two bytes the first two -/
theorem reads_repeat :
    outcome (mounted countingDisk (countingReads [(1, 1), (1, 1)]))
        = some (1, some 0, [(1, [1]), (1, [1])]) ∧
      outcome (mounted countingDisk (countingReads [(2, 1)])) = some (1, some 0, [(1, [1, 2])]) :=
  ⟨by decide +kernel, by decide +kernel⟩

theorem position_advances_iff_twice : ∃ s s' out,
    freads countingDisk 1 [(1, 1), (1, 1)] s = .ok (out, s') ∧ filePosition s 1 = some 0 ∧
      filePosition s' 1 ≠ some 2 := by
  have h : outcome (mounted countingDisk (countingReads [(1, 1), (1, 1)]))
      = some (1, some 0, [(1, [1]), (1, [1])]) := by decide +kernel
  obtain ⟨s0, h⟩ := outcome_eq h
  obtain ⟨s1, h⟩ := mounted_eq h
  obtain ⟨fd, s, -, h⟩ := bind_eq_ok h
  obtain ⟨t, s2, hget, h⟩ := bind_eq_ok h
  cases hget
  obtain ⟨out, s', hreads, h⟩ := bind_eq_ok h
  obtain ⟨e, -⟩ := pure_eq_ok h
  have hpos : filePosition s 1 = some 0 := congrArg (fun r => r.2.1) e
  have hout : out = [(1, [1]), (1, [1])] := congrArg (fun r => r.2.2) e
  refine ⟨s, s', out, hreads, hpos, fun hadv => ?_⟩
  have hnil := (position_advances_iff hpos hreads (by rw [hout]; rfl)).mp hadv
  cases hnil

end LameOS
