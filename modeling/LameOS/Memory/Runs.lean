import LameOS.Memory.Heap
import LameOS.Lib.Interval

/-!
# The heap table as a set of runs

An allocation of `n` blocks is a run of `n` table entries with the code `runCode`: `0x41` for one
block, `0xC1 0x81* 0x01` for several.  `Tiled t L` says that the table `t` consists of the runs of
`L`, pairwise apart, and of free entries.

* `Window`, `FirstWindow`   free entries in a row, and the first of them;
* `Tiled.free_iff`     the free entries are those of no run;
* `Tiled.perm_of_same` a table determines its runs.
-/

set_option linter.unusedVariables false

namespace LameOS
open Lib

/-- the entries of an allocation -/
def runCode (r : Run) (i : Nat) : UInt8 :=
  if r.len = 1 then 0x41
  else if i = r.start then 0xC1
  else if i + 1 = r.start + r.len then 0x01
  else 0x81

/-- the table consists of the runs of `L` and of free entries -/
structure Tiled (t : HeapTable) (L : List Run) : Prop where
  pos : ∀ r ∈ L, 1 ≤ r.len
  inside : ∀ r ∈ L, r.start + r.len ≤ t.total
  separate : Separate L
  coded : ∀ r ∈ L, ∀ i, r.Mem i → t.entries i = runCode r i
  free : ∀ i, i < t.total → (∀ r ∈ L, ¬ r.Mem i) → t.entries i = 0

/-- an entry that `heapGetStartBlock` counts as free -/
def Free (t : HeapTable) (i : Nat) : Prop := heapGetEntryType (t.entries i) = entryFree

instance (t : HeapTable) (i : Nat) : Decidable (Free t i) :=
  inferInstanceAs (Decidable (_ = _))

/-- `n` consecutive free entries from `b` on -/
def Window (t : HeapTable) (n b : Nat) : Prop :=
  b + n ≤ t.total ∧ ∀ i, b ≤ i → i < b + n → Free t i

/-- the window that first fit takes -/
def FirstWindow (t : HeapTable) (n b : Nat) : Prop := Window t n b ∧ ∀ b' < b, ¬ Window t n b'

theorem firstWindow_or_not (t : HeapTable) (n : Nat) :
    (∃ b, FirstWindow t n b) ∨ ∀ b, ¬ Window t n b := window_or_not (Free t) t.total n

theorem FirstWindow.unique {t : HeapTable} {n b b' : Nat} (h : FirstWindow t n b)
    (h' : FirstWindow t n b') : b = b' := by
  rcases Nat.lt_trichotomy b b' with hlt | rfl | hlt
  · exact absurd h.1 (h'.2 b hlt)
  · rfl
  · exact absurd h'.1 (h.2 b' hlt)

/-! ## the code of a run -/

theorem runCode_taken (r : Run) (i : Nat) : heapGetEntryType (runCode r i) ≠ entryFree := by
  unfold runCode
  split
  · decide
  · split
    · decide
    · split <;> decide

theorem runCode_ne_zero (r : Run) (i : Nat) : runCode r i ≠ 0 := by
  intro h
  have := runCode_taken r i
  rw [h] at this
  exact this (by decide)

theorem runCode_first (r : Run) (i : Nat) (hi : r.Mem i) :
    runCode r i &&& blockIsFirst ≠ 0 ↔ i = r.start := by
  obtain ⟨h1, h2⟩ := hi
  unfold runCode
  split
  · have e : i = r.start := by omega
    simp only [e, iff_true]
    decide
  · split
    · rename_i e
      simp only [e, iff_true]
      decide
    · rename_i e
      simp only [e, iff_false, not_not]
      split <;> decide

theorem runCode_hasNext (r : Run) (i : Nat) (hi : r.Mem i) :
    runCode r i &&& blockHasNext = 0 ↔ i + 1 = r.start + r.len := by
  obtain ⟨h1, h2⟩ := hi
  unfold runCode
  split
  · have e : i + 1 = r.start + r.len := by omega
    simp only [e, iff_true]
    decide
  · split
    · have e : i + 1 ≠ r.start + r.len := by omega
      simp only [e, iff_false]
      decide
    · split
      · rename_i e
        simp only [e, iff_true]
        decide
      · rename_i e
        simp only [e, iff_false]
        decide

/-! ## free entries of a tiled table -/

namespace Tiled
variable {t : HeapTable} {L : List Run}

theorem free_iff (h : Tiled t L) {i : Nat} (hi : i < t.total) : Free t i ↔ ∀ r ∈ L, ¬ r.Mem i := by
  constructor
  · intro hf r hr hm
    unfold Free at hf
    rw [h.coded r hr i hm] at hf
    exact runCode_taken r i hf
  · intro hf
    unfold Free
    rw [h.free i hi hf]
    decide

theorem free_iff_zero (h : Tiled t L) {i : Nat} (hi : i < t.total) : Free t i ↔ t.entries i = 0 := by
  constructor
  · intro hf
    exact h.free i hi ((h.free_iff hi).mp hf)
  · intro h0
    unfold Free
    rw [h0]
    decide

theorem perm (h : Tiled t L) {L' : List Run} (hp : L.Perm L') : Tiled t L' where
  pos r hr := h.pos r (hp.mem_iff.mpr hr)
  inside r hr := h.inside r (hp.mem_iff.mpr hr)
  separate := h.separate.perm hp
  coded r hr := h.coded r (hp.mem_iff.mpr hr)
  free i hi hr := h.free i hi (fun r hm => hr r (hp.mem_iff.mp hm))

theorem nodup (h : Tiled t L) : L.Nodup := h.separate.nodup h.pos

/-- a run of one table is a run of the other: its first entry says where it starts, the
has-next bits where it ends -/
theorem mem_of_same {t' : HeapTable} {L' : List Run} (h : Tiled t L) (h' : Tiled t' L')
    (htot : t.total = t'.total) (hent : ∀ i, i < t.total → t.entries i = t'.entries i)
    {r : Run} (hr : r ∈ L) : r ∈ L' := by
  have hpos := h.pos r hr
  have hin := h.inside r hr
  have hm := Run.mem_start hpos
  have hcode := h.coded r hr r.start hm
  have hex : ∃ r' ∈ L', r'.Mem r.start := by
    by_contra hno
    have h0 := h'.free r.start (by omega) (fun r' hr' hm' => hno ⟨r', hr', hm'⟩)
    rw [← hent r.start (by omega), hcode] at h0
    exact runCode_ne_zero r _ h0
  obtain ⟨r', hr', hm'⟩ := hex
  have hin' := h'.inside r' hr'
  have hsame : ∀ i, r.Mem i → r'.Mem i → runCode r i = runCode r' i := by
    intro i hi hi'
    rw [← h.coded r hr i hi, hent i (lt_of_lt_of_le hi.2 hin), h'.coded r' hr' i hi']
  have hstart : r.start = r'.start := by
    have h1 := (runCode_first r r.start hm).mpr rfl
    rw [hsame r.start hm hm'] at h1
    exact (runCode_first r' r.start hm').mp h1
  have hlen : r.len = r'.len := by
    rcases Nat.lt_trichotomy r.len r'.len with hlt | heq | hlt
    · have hi : r.Mem (r.start + r.len - 1) := ⟨by omega, by omega⟩
      have hi' : r'.Mem (r.start + r.len - 1) := ⟨by omega, by omega⟩
      have h1 := (runCode_hasNext r _ hi).mpr (by omega)
      rw [hsame _ hi hi'] at h1
      have := (runCode_hasNext r' _ hi').mp h1
      omega
    · exact heq
    · have hpos' := h'.pos r' hr'
      have hi : r.Mem (r.start + r'.len - 1) := ⟨by omega, by omega⟩
      have hi' : r'.Mem (r.start + r'.len - 1) := ⟨by omega, by omega⟩
      have h1 := (runCode_hasNext r' _ hi').mpr (by omega)
      rw [← hsame _ hi hi'] at h1
      have := (runCode_hasNext r _ hi).mp h1
      omega
  have e : r = r' := by
    cases r
    cases r'
    simp_all
  exact e ▸ hr'

/-- **A table determines its runs.** -/
theorem perm_of_same {t' : HeapTable} {L' : List Run} (h : Tiled t L) (h' : Tiled t' L')
    (htot : t.total = t'.total) (hent : ∀ i, i < t.total → t.entries i = t'.entries i) :
    L.Perm L' := by
  refine (List.perm_ext_iff_of_nodup h.nodup h'.nodup).mpr (fun r => ⟨fun hr => ?_, fun hr => ?_⟩)
  · exact h.mem_of_same h' htot hent hr
  · exact h'.mem_of_same h htot.symm (fun i hi => (hent i (htot ▸ hi)).symm) hr

/-- the runs determine the table -/
theorem same_of_perm {t' : HeapTable} {L' : List Run} (h : Tiled t L) (h' : Tiled t' L')
    (htot : t.total = t'.total) (hp : L.Perm L') :
    ∀ i, i < t.total → t.entries i = t'.entries i := by
  intro i hi
  by_cases hex : ∃ r ∈ L, r.Mem i
  · obtain ⟨r, hr, hm⟩ := hex
    rw [h.coded r hr i hm, h'.coded r (hp.mem_iff.mp hr) i hm]
  · rw [h.free i hi (fun r hr hm => hex ⟨r, hr, hm⟩),
      h'.free i (htot ▸ hi) (fun r hr hm => hex ⟨r, hp.mem_iff.mpr hr, hm⟩)]

end Tiled

end LameOS
