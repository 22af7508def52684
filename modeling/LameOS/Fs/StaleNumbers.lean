import LameOS.Fs.Descriptors

/-!
# Calls on numbers that are not open

* `IsOpen`          the number of a descriptor that is in the table;
* `fileStatus`      the status that a call returns;
* `refused_iff`     a call on a number that is not open is refused, but for `fclose`, which tests the
                    number where it should test the descriptor;
* `stale_refused_iff`   **a run refuses every number that is not open exactly when it closes none but
                    0**;
* `double_close`    a second `fclose` of one number reads through the null pointer.
-/

set_option linter.unusedVariables false

namespace LameOS
open Lib Lib.Exec

/-- the descriptor `fd` is in the table -/
def IsOpen (s : FileState) (fd : Int) : Prop :=
  1 ≤ fd ∧ fd ≤ maxFileDescriptors ∧ s.files (fd - 1).toNat ≠ none

/-- the number that a call is about -/
def FileCall.number : FileCall → Option Int
  | .fopen _ _ => none
  | .fread _ _ fd => some fd
  | .fseek fd _ _ => some fd
  | .fstat fd _ => some fd
  | .fclose fd => some fd

/-- a call, with the status it returns -/
def fileStatus (disk : Disk) : FileCall → Prog FileState Int
  | .fopen filename mode => fopen disk filename mode
  | .fread size nmemb fd => do
    let (res, _) ← fread disk size nmemb fd
    return res
  | .fseek fd offset whence => fseek fd offset whence
  | .fstat fd stat => do
    let (res, _) ← fstat fd stat
    return res
  | .fclose fd => fclose fd

/-- a negative status, and nothing has changed: no descriptor, no position, no heap block -/
def CallRefused (disk : Disk) (s : FileState) (c : FileCall) : Prop :=
  ∃ res < 0, fileStatus disk c s = .ok (res, s)

/-- the call is refused if its number is not open -/
def RefusesStale (disk : Disk) (s : FileState) (c : FileCall) : Prop :=
  ∀ fd, c.number = some fd → ¬ IsOpen s fd → CallRefused disk s c

/-- the call closes a number other than 0 that is not open -/
def ClosesStale (s : FileState) (c : FileCall) : Prop :=
  ∃ fd, c = .fclose fd ∧ fd ≠ 0 ∧ ¬ IsOpen s fd

section
variable {disk : Disk} {s : FileState} {fd : Int}

/-- the step of a run is the call whose status is looked at -/
theorem fileCall_status (c : FileCall) : fileCall disk s c = after (fileStatus disk c) s := by
  have hfst {α : Type} (x : Prog FileState (Int × α)) :
      after x s = after (do let (res, _) ← x; return res) s := by
    cases h : x s with
    | error e => simp [after, h, bind_error h]
    | ok r =>
      have h : x s = .ok (r.1, r.2) := h
      simp [after, h, bind_ok h]
  cases c with
  | fopen filename mode => rfl
  | fread size nmemb fd => exact hfst _
  | fseek fd offset whence => rfl
  | fstat fd stat => exact hfst _
  | fclose fd => rfl

theorem fileGetDescriptor_stale (h : ¬ IsOpen s fd) : fileGetDescriptor s fd = none := by
  unfold fileGetDescriptor
  split
  · rfl
  · by_contra hne
    exact h ⟨by omega, by omega, hne⟩

theorem fread_stale (size nmemb : Nat) (h : ¬ IsOpen s fd) :
    fread disk size nmemb fd s = .ok ((-EINVARG, []), s) := by
  unfold fread
  split
  · rfl
  · rw [bind_ok (get_run s), fileGetDescriptor_stale h]
    rfl

theorem fseek_stale (offset : Int) (whence : FileSeekMode) (h : ¬ IsOpen s fd) :
    fseek fd offset whence s = .ok (- EIO, s) := by
  unfold fseek
  rw [bind_ok (get_run s), fileGetDescriptor_stale h]
  rfl

theorem fstat_stale (stat : FileStat) (h : ¬ IsOpen s fd) :
    fstat fd stat s = .ok ((- EIO, stat), s) := by
  unfold fstat
  rw [bind_ok (get_run s), fileGetDescriptor_stale h]
  rfl

/-- `desc->filesystem` of the null pointer -/
theorem fclose_stale (h : ¬ IsOpen s fd) (hfd : fd ≠ 0) : fclose fd s = .error .nullPointer := by
  unfold fclose
  rw [bind_ok (get_run s), if_neg hfd, fileGetDescriptor_stale h]
  rfl

/-- a call on a number that is not open is refused, but for `fclose` -/
theorem refused_iff {c : FileCall} (hc : c.number = some fd) (h : ¬ IsOpen s fd) :
    CallRefused disk s c ↔ ¬ (c = .fclose fd ∧ fd ≠ 0) := by
  cases c with
  | fopen filename mode => cases hc
  | fread size nmemb fd =>
    cases hc
    have hrun : fileStatus disk (.fread size nmemb fd) s = .ok (-EINVARG, s) :=
      bind_ok (fread_stale size nmemb h)
    exact iff_of_true ⟨-EINVARG, by decide, hrun⟩ (fun hclose => nomatch hclose.1)
  | fseek fd offset whence =>
    cases hc
    exact iff_of_true ⟨- EIO, by decide, fseek_stale offset whence h⟩ (fun hclose => nomatch hclose.1)
  | fstat fd stat =>
    cases hc
    have hrun : fileStatus disk (.fstat fd stat) s = .ok (- EIO, s) := bind_ok (fstat_stale stat h)
    exact iff_of_true ⟨- EIO, by decide, hrun⟩ (fun hclose => nomatch hclose.1)
  | fclose fd =>
    cases hc
    by_cases hfd : fd = 0
    · subst hfd
      exact iff_of_true ⟨- EIO, by decide, fclose_zero s⟩ (fun hclose => hclose.2 rfl)
    · refine iff_of_false ?_ (fun hno => hno ⟨rfl, hfd⟩)
      rintro ⟨res, -, hrun⟩
      exact absurd ((fclose_stale h hfd).symm.trans hrun) (by simp)

theorem refusesStale_iff {c : FileCall} : RefusesStale disk s c ↔ ¬ ClosesStale s c := by
  constructor
  · rintro hstale ⟨fd, rfl, hfd, h⟩
    exact (refused_iff rfl h).mp (hstale fd rfl h) ⟨rfl, hfd⟩
  · intro hno fd hc h
    exact (refused_iff hc h).mpr (fun hclose => hno ⟨fd, hclose.1, hclose.2, h⟩)

end

/-- **A run of calls refuses every number that is not open exactly when it closes no such number
but 0**: `fclose` tests `fd` and not the descriptor that it has looked up. -/
theorem stale_refused_iff (disk : Disk) (s : FileState) (calls : List FileCall) :
    Throughout (fileCall disk) (fun _ => True) (RefusesStale disk) s calls ↔
      Meets (fileCall disk) (fun s c => ¬ ClosesStale s c) s calls := by
  apply throughout_iff_meets (I := fun _ => True) (fun _ _ => trivial)
  · intro s c _ hc
    exact ⟨refusesStale_iff.mpr hc, fun _ _ => trivial⟩
  · intro s c _ hc hrefused
    exact absurd (refusesStale_iff.mp hrefused) hc
  · trivial

/-- `0:/a` is opened and closed: the status of both, and whether its slot is taken -/
def openedAndClosed : Prog FileState (Int × Int × Bool) := do
  let fd ← fopen countingDisk [48, 58, 47, 97] [114]
  let res ← fclose 1
  let s ← get
  return (fd, res, (s.files 0).isSome)

/-- **A second `fclose` of one number reads through the null pointer.** -/
theorem double_close : ∃ s0 m s, diskSearchAndInit countingDisk emptyMachine = .ok (s0, m) ∧
    runs (fileCall countingDisk) s0 [.fopen [48, 58, 47, 97] [114], .fclose 1] = .ok s ∧
    ¬ IsOpen s 1 ∧ fclose 1 s = .error .nullPointer ∧
    ¬ Throughout (fileCall countingDisk) (fun _ => True) (RefusesStale countingDisk) s0
      [.fopen [48, 58, 47, 97] [114], .fclose 1, .fclose 1] := by
  have h : outcome (mounted countingDisk openedAndClosed) = some (1, 0, false) := by decide +kernel
  obtain ⟨t, h⟩ := outcome_eq h
  obtain ⟨s0, m, hmount, h⟩ := mounted_run h
  obtain ⟨fd, s1, hopen, h⟩ := bind_eq_ok h
  obtain ⟨res, s, hclose, h⟩ := bind_eq_ok h
  obtain ⟨s2, s3, hget, h⟩ := bind_eq_ok h
  cases hget
  obtain ⟨e, -⟩ := pure_eq_ok h
  have hslot : (s.files 0).isSome = false := congrArg (fun r => r.2.2) e
  have hstale : ¬ IsOpen s 1 := by
    rintro ⟨-, -, hne⟩
    exact hne (Option.isSome_eq_false_iff.mp hslot |> Option.isNone_iff_eq_none.mp)
  have h1 : fileCall countingDisk s0 (.fopen [48, 58, 47, 97] [114]) = .ok s1 := after_ok hopen
  have h2 : fileCall countingDisk s1 (.fclose 1) = .ok s := after_ok hclose
  have hfault := fclose_stale hstale (by decide)
  refine ⟨s0, m, s, hmount, ?_, hstale, hfault, ?_⟩
  · simp [runs, h1, h2]
  · rintro ⟨-, -, hrest⟩
    obtain ⟨-, -, hrest⟩ := hrest s1 h1
    obtain ⟨-, hlast, -⟩ := hrest s h2
    exact refusesStale_iff.mp hlast ⟨1, rfl, by decide, hstale⟩

end LameOS
