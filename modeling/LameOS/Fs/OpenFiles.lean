import LameOS.Fs.Mount
import LameOS.Lib.Run

/-!
# Runs of calls on files

* `fileCall`         one call of `fopen`, `fread`, `fseek`, `fstat` or `fclose`;
* `openPtrs`, `Accounted`   the allocations of the open descriptors, and a heap with no others but
                     those it had at the mount;
* `accounted_iff`    **the heap is accounted for until the first path is accepted**: `fopen` never
                     frees the path it has parsed.
-/

set_option linter.unusedVariables false

namespace LameOS
open Lib Lib.Exec

/-! ## calls -/

inductive FileCall where
  | fopen (filename mode : List UInt8)
  | fread (size nmemb : Nat) (fd : Int)
  | fseek (fd offset : Int) (whence : FileSeekMode)
  | fstat (fd : Int) (stat : FileStat)
  | fclose (fd : Int)

/-- the state that a program returns in -/
def after {ε σ α : Type} (x : Exec ε σ α) (s : σ) : Except ε σ :=
  match x s with
  | .ok (_, s') => .ok s'
  | .error e => .error e

theorem after_ok {ε σ α : Type} {x : Exec ε σ α} {s s' : σ} {a : α} (h : x s = .ok (a, s')) :
    after x s = .ok s' := by
  unfold after
  rw [h]

theorem after_eq_ok {ε σ α : Type} {x : Exec ε σ α} {s s' : σ} (h : after x s = .ok s') :
    ∃ a, x s = .ok (a, s') := by
  unfold after at h
  cases hx : x s with
  | error e =>
    rw [hx] at h
    cases h
  | ok r =>
    rw [hx] at h
    cases h
    exact ⟨r.1, rfl⟩

/-- one call -/
def fileCall (disk : Disk) (s : FileState) : FileCall → Except Fault FileState
  | .fopen filename mode => after (fopen disk filename mode) s
  | .fread size nmemb fd => after (fread disk size nmemb fd) s
  | .fseek fd offset whence => after (fseek fd offset whence) s
  | .fstat fd stat => after (fstat fd stat) s
  | .fclose fd => after (fclose fd) s

/-! ## what the open descriptors own -/

/-- the pointers of the open descriptors -/
def openPtrs (s : FileState) : List Nat :=
  (List.range maxFileDescriptors).flatMap fun i => (s.files i).elim [] descriptorPtrs

/-- the heap has the allocations `L` and those of the open descriptors, and no others -/
def Accounted (L : List Run) (s : FileState) : Prop :=
  ∃ N, Points (openPtrs s) N ∧ s.machine.Holds (N ++ L)

theorem Points.length {ps : List Nat} {N : List Run} (h : Points ps N) : N.length = ps.length := by
  rw [← List.length_map runAddr]
  exact List.Perm.length_eq h

theorem openPtrs_closed {s : FileState} (h : s.files = fun _ => none) : openPtrs s = [] := by
  unfold openPtrs
  rw [h]
  exact List.flatMap_eq_nil_iff.mpr (fun _ _ => rfl)

/-- one open descriptor -/
theorem openPtrs_single {s : FileState} {i : Nat} {desc : FileDescriptor}
    (hi : i < maxFileDescriptors) (h : s.files = Function.update (fun _ => none) i (some desc)) :
    openPtrs s = descriptorPtrs desc := by
  have hrange : ∀ n, (List.range n).flatMap (fun j => (s.files j).elim [] descriptorPtrs)
      = if i < n then descriptorPtrs desc else [] := by
    intro n
    induction n with
    | zero => rfl
    | succ n ih =>
      rw [List.range_succ, List.flatMap_append, ih, List.flatMap_singleton, h]
      rcases Nat.lt_trichotomy i n with hlt | rfl | hgt
      · rw [if_pos hlt, if_pos (Nat.lt_succ_of_lt hlt), Function.update_of_ne (Nat.ne_of_gt hlt)]
        exact List.append_nil _
      · rw [if_neg (lt_irrefl i), if_pos (Nat.lt_succ_self i), Function.update_self]
        rfl
      · rw [if_neg (by omega), if_neg (by omega), Function.update_of_ne (Nat.ne_of_lt hgt)]
        rfl
  have := hrange maxFileDescriptors
  rwa [if_pos hi] at this

/-- two ways to account for one heap have as many allocations -/
theorem Accounted.length {L N : List Run} {s : FileState} (h : Accounted L s)
    (hN : s.machine.Holds (N ++ L)) : N.length = (openPtrs s).length := by
  obtain ⟨M, hM, hh⟩ := h
  have hlen := (hN.unique hh).length_eq
  rw [List.length_append, List.length_append, hM.length] at hlen
  omega

/-! ## the calls on a table without descriptors -/

section
variable {disk : Disk} {L : List Run} {s s' : FileState}

/-- no file is open, and the heap has the allocations `L` -/
structure AllClosed (L : List Run) (s : FileState) : Prop where
  files : s.files = fun _ => none
  heap : s.machine.Holds L

theorem AllClosed.get (h : AllClosed L s) (fd : Int) : fileGetDescriptor s fd = none := by
  unfold fileGetDescriptor
  rw [h.files]
  exact ite_self none

theorem AllClosed.accounted (h : AllClosed L s) : Accounted L s := by
  refine ⟨[], ?_, h.heap⟩
  rw [openPtrs_closed h.files]
  exact Points.nil

theorem AllClosed.congr (h : AllClosed L s) (hm : s'.machine = s.machine)
    (hf : s'.files = s.files) : AllClosed L s' :=
  ⟨hf.trans h.files, h.heap.congr (by rw [hm])⟩

theorem AllClosed.of_fread {size nmemb : Nat} {fd : Int} {r : Int × List (List UInt8)}
    (h : AllClosed L s) (hrun : fread disk size nmemb fd s = .ok (r, s')) : AllClosed L s' := by
  obtain ⟨hm, hf, -⟩ := fread_still hrun
  exact h.congr hm hf

theorem AllClosed.of_fseek {fd offset : Int} {whence : FileSeekMode} {r : Int} (h : AllClosed L s)
    (hrun : fseek fd offset whence s = .ok (r, s')) : AllClosed L s' := by
  unfold fseek at hrun
  rw [bind_ok (get_run s), h.get fd] at hrun
  obtain ⟨-, rfl⟩ := pure_eq_ok hrun
  exact h

theorem AllClosed.of_fclose {fd r : Int} (h : AllClosed L s) (hrun : fclose fd s = .ok (r, s')) :
    AllClosed L s' := by
  unfold fclose at hrun
  rw [bind_ok (get_run s), h.get fd] at hrun
  split at hrun
  · obtain ⟨-, rfl⟩ := pure_eq_ok hrun
    exact h
  · cases hrun

/-- a path that is not accepted opens nothing -/
theorem AllClosed.of_fopen {filename mode : List UInt8} {fd : Int} (h : AllClosed L s)
    (hacc : pathAccepted filename = false) (hrun : fopen disk filename mode s = .ok (fd, s')) :
    AllClosed L s' := by
  obtain ⟨N, ⟨hleaves, -⟩, -⟩ := fopen_owns disk filename mode s L fd s' h.heap hrun
  rcases hleaves with ⟨-, -, rfl, -⟩ | ⟨h1, -⟩
  · exact h
  · rw [hacc] at h1
    cases h1

/-- a path that is accepted is not freed -/
theorem AllClosed.leaks {filename mode : List UInt8} {fd : Int} (h : AllClosed L s)
    (hacc : pathAccepted filename = true) (hrun : fopen disk filename mode s = .ok (fd, s')) :
    ¬ Accounted L s' := by
  obtain ⟨N, ⟨hleaves, -⟩, hh, -⟩ := fopen_owns disk filename mode s L fd s' h.heap hrun
  rcases hleaves with ⟨h1, -⟩ | ⟨-, K, D, hperm, hK, hend⟩
  · rw [hacc] at h1
    cases h1
  · intro haccounted
    have hlen := haccounted.length hh
    have hkd := hperm.length_eq
    have hpos := List.length_pos_iff.mpr hK
    rw [List.length_append] at hkd
    rcases hend with ⟨-, hfiles⟩ | ⟨i, desc, -, hentered, hD⟩
    · rw [openPtrs_closed (hfiles.trans h.files), List.length_nil] at hlen
      omega
    · have hfiles := hentered.files
      rw [h.files] at hfiles
      rw [openPtrs_single hentered.slot.lt hfiles, ← hD.length] at hlen
      omega

/-- the call is no `fopen` of a path that the parser accepts -/
def ParsesNothing : FileCall → Prop
  | .fopen filename _ => pathAccepted filename = false
  | _ => True

/-- **The heap is accounted for in every state of a run exactly when the run opens no path that the
parser accepts**; `fopen` never frees such a path. -/
theorem accounted_iff {calls : List FileCall} {t : FileState} (hfiles : s.files = fun _ => none)
    (hheap : s.machine.Holds L) (hrun : runs (fileCall disk) s calls = .ok t) :
    Along (fileCall disk) (Accounted L) s calls ↔ ∀ c ∈ calls, ParsesNothing c := by
  have hok : ∀ s c, AllClosed L s → (∃ s', fileCall disk s c = .ok s') → ParsesNothing c →
      ∃ s', fileCall disk s c = .ok s' ∧ AllClosed L s' := by
    rintro s c hs ⟨s', hstep⟩ hc
    refine ⟨s', hstep, ?_⟩
    cases c with
    | fopen filename mode =>
      obtain ⟨fd, h⟩ := after_eq_ok hstep
      exact hs.of_fopen hc h
    | fread size nmemb fd =>
      obtain ⟨r, h⟩ := after_eq_ok hstep
      exact hs.of_fread h
    | fseek fd offset whence =>
      obtain ⟨r, h⟩ := after_eq_ok hstep
      exact hs.of_fseek h
    | fstat fd stat =>
      obtain ⟨r, h⟩ := after_eq_ok hstep
      rw [fstat_still h]
      exact hs
    | fclose fd =>
      obtain ⟨r, h⟩ := after_eq_ok hstep
      exact hs.of_fclose h
  have hbad : ∀ s c, AllClosed L s → (∃ s', fileCall disk s c = .ok s') → ¬ ParsesNothing c →
      ∀ s', fileCall disk s c = .ok s' → ¬ Accounted L s' := by
    intro s c hs _ hc s' hstep
    cases c with
    | fopen filename mode =>
      obtain ⟨fd, h⟩ := after_eq_ok hstep
      exact hs.leaks (Bool.eq_true_of_not_eq_false hc) h
    | fread size nmemb fd => exact absurd trivial hc
    | fseek fd offset whence => exact absurd trivial hc
    | fstat fd stat => exact absurd trivial hc
    | fclose fd => exact absurd trivial hc
  have hiff := along_iff_meets (fun s (h : AllClosed L s) => h.accounted) hok hbad s calls
    ⟨hfiles, hheap⟩ (meets_of_runs hrun)
  rw [hiff]
  exact ⟨forall_of_meets hrun, meets_of_forall⟩

end


/-! ## an empty volume -/

/-- the state after the mount of `disk` with an empty heap -/
theorem mounted_closed {disk : Disk} {α : Type} {x : Prog FileState α} {a : α}
    (h : RootFits (fatHeader (diskBytes disk 0 fatHeaderSize)))
    (hrun : outcome (mounted disk x) = some a) : ∃ s m L s',
      diskSearchAndInit disk emptyMachine = .ok (s, m) ∧ AllClosed L s ∧ Blocks 6 L ∧
        x s = .ok (a, s') := by
  obtain ⟨s', hrun⟩ := outcome_eq hrun
  unfold mounted at hrun
  cases hd : diskSearchAndInit disk emptyMachine with
  | error e =>
    rw [hd] at hrun
    cases hrun
  | ok r =>
    obtain ⟨s, m⟩ := r
    rw [hd] at hrun
    obtain ⟨hfiles, N, hN, hh⟩ := diskSearchAndInit_owns h emptyMachine_holds hd
    rw [List.append_nil] at hh
    exact ⟨s, m, N, s', rfl, ⟨hfiles, hh⟩, hN, hrun⟩

theorem bootDisk_fits : RootFits (fatHeader (diskBytes (bootDisk 1) 0 fatHeaderSize)) :=
  ⟨by decide +kernel, by decide +kernel⟩

/-- a path without a drive takes nothing -/
theorem accounted_iff_boot : ∃ s m L, diskSearchAndInit (bootDisk 1) emptyMachine = .ok (s, m) ∧
    Along (fileCall (bootDisk 1)) (Accounted L) s [.fopen [120] [114], .fclose 0] := by
  have hfail : outcome (mounted (bootDisk 1) (fopen (bootDisk 1) [120] [114])) = some 0 := by
    decide +kernel
  obtain ⟨s, m, L, s', hmount, hs, -, -⟩ := mounted_closed bootDisk_fits hfail
  have hrun : runs (fileCall (bootDisk 1)) s [.fopen [120] [114], .fclose 0] = .ok s := rfl
  refine ⟨s, m, L, hmount, (accounted_iff hs.files hs.heap hrun).mpr (fun c hc => ?_)⟩
  rcases List.mem_cons.mp hc with rfl | hc
  · rfl
  · rw [List.mem_singleton.mp hc]
    trivial

/-- a missing file: `fopen` of `0:/x` returns 0 and keeps blocks -/
theorem missing_file_leaks : ∃ s m L s', diskSearchAndInit (bootDisk 1) emptyMachine = .ok (s, m) ∧
    s.machine.Holds L ∧ fopen (bootDisk 1) [48, 58, 47, 120] [114] s = .ok (0, s') ∧
      openPtrs s' = [] ∧ ¬ Accounted L s' := by
  have hfail : outcome (mounted (bootDisk 1) (fopen (bootDisk 1) [48, 58, 47, 120] [114])) = some 0 := by
    decide +kernel
  obtain ⟨s, m, L, s', hmount, hs, -, hrun⟩ := mounted_closed bootDisk_fits hfail
  refine ⟨s, m, L, s', hmount, hs.heap, hrun, ?_, hs.leaks (by decide) hrun⟩
  obtain ⟨N, ⟨hleaves, -⟩, -⟩ := fopen_owns _ _ _ s L 0 s' hs.heap hrun
  rcases hleaves with ⟨-, -, rfl, -⟩ | ⟨-, K, D, -, -, ⟨-, hfiles⟩ | ⟨i, desc, h0, -⟩⟩
  · exact openPtrs_closed hs.files
  · exact openPtrs_closed (hfiles.trans hs.files)
  · omega

end LameOS
