import LameOS.Memory.Kheap
import Mathlib.Data.Nat.Count

/-!
# Several blocks, one after the other

Every allocation of one block takes the first free one, and so several of them take the lowest.

* `freeBelow t i`         the free blocks below block `i`;
* `FirstTaken t0 k t`     `t` is the table `t0` with its first `k` free blocks taken;
* `kzalloc_next`          one allocation more;
* `window_taken_iff`      the windows that are left;
* `kzalloc_null_iff`, `kzalloc_some_iff`   a request of any size is refused, or granted.
-/

set_option linter.unusedVariables false

namespace LameOS
open Lib Lib.Exec

/-- the free blocks below block `i` -/
def freeBelow (t : HeapTable) (i : Nat) : Nat := Nat.count (Free t) i

/-- the first `k` free blocks of `t0` are taken, and nothing else has changed of what is free -/
structure FirstTaken (t0 : HeapTable) (k : Nat) (t : HeapTable) : Prop where
  total : t.total = t0.total
  free : ∀ i < t0.total, (Free t i ↔ Free t0 i ∧ k ≤ freeBelow t0 i)
  blocks : freeBlocks t0 = freeBlocks t + k

section
variable {t0 t : HeapTable} {k b : Nat}

theorem FirstTaken.refl (t : HeapTable) : FirstTaken t 0 t :=
  ⟨rfl, fun i _ => ⟨fun h => ⟨h, Nat.zero_le _⟩, fun h => h.1⟩, rfl⟩

/-- below a place with more than `k` elements under it is the one with exactly `k` -/
theorem exists_at_count (p : Nat → Prop) [DecidablePred p] {n : Nat} : k < Nat.count p n →
    ∃ j < n, p j ∧ Nat.count p j = k := by
  induction n with
  | zero =>
    intro h
    rw [Nat.count_zero] at h
    omega
  | succ n ih =>
    intro h
    rw [Nat.count_succ] at h
    rcases Nat.lt_or_ge k (Nat.count p n) with hlt | hge
    · obtain ⟨j, hj, hp, hcount⟩ := ih hlt
      exact ⟨j, by omega, hp, hcount⟩
    · split at h
      · exact ⟨n, Nat.lt_succ_self n, by assumption, by omega⟩
      · omega

/-- the first block that is still free has `k` free ones below it, in the table at the start -/
theorem FirstTaken.first (h : FirstTaken t0 k t) (hw : FirstWindow t 1 b) :
    Free t0 b ∧ freeBelow t0 b = k := by
  obtain ⟨hb, hf⟩ := window_one.mp hw.1
  rw [h.total] at hb
  obtain ⟨hfree, hle⟩ := (h.free b hb).mp hf
  refine ⟨hfree, Nat.le_antisymm (Nat.le_of_not_lt fun hlt => ?_) hle⟩
  obtain ⟨j, hj, hjfree, hcount⟩ := exists_at_count (Free t0) hlt
  refine hw.2 j hj (window_one.mpr ⟨by rw [h.total]; omega, (h.free j (by omega)).mpr ⟨hjfree, ?_⟩⟩)
  exact le_of_eq hcount.symm

/-- one block more -/
theorem FirstTaken.next (h : FirstTaken t0 k t) (hw : FirstWindow t 1 b) :
    FirstTaken t0 (k + 1) (t.mark ⟨b, 1⟩) where
  total := h.total
  free i hi := by
    obtain ⟨hfree, hcount⟩ := h.first hw
    rw [free_mark_iff, h.free i hi, and_assoc]
    refine and_congr_right (fun hi => ⟨fun hne => ?_, fun hle => ⟨by omega, ?_⟩⟩)
    · obtain ⟨hle, hne⟩ := hne
      rcases Nat.lt_or_gt_of_ne hne with hlt | hgt
      · -- a free block below `b` has fewer below it
        have := Nat.count_strict_mono hi hlt
        unfold freeBelow at *
        omega
      · have := Nat.count_strict_mono hfree hgt
        unfold freeBelow at *
        omega
    · rintro rfl
      omega
  blocks := by
    have := h.blocks
    have := freeBlocks_mark hw.1
    omega

/-- the windows that are left are those with `k` free blocks below them -/
theorem window_taken_iff (h : FirstTaken t0 k t) {n : Nat} (hn : 1 ≤ n) (b : Nat) :
    Window t n b ↔ Window t0 n b ∧ k ≤ freeBelow t0 b := by
  constructor
  · rintro ⟨hin, hfree⟩
    rw [h.total] at hin
    have hall := fun i h1 h2 => (h.free i (by omega)).mp (hfree i h1 h2)
    exact ⟨⟨hin, fun i h1 h2 => (hall i h1 h2).1⟩, (hall b (le_refl b) (by omega)).2⟩
  · rintro ⟨⟨hin, hfree⟩, hle⟩
    refine ⟨by rw [h.total]; exact hin, fun i h1 h2 => (h.free i (by omega)).mpr ⟨hfree i h1 h2, ?_⟩⟩
    exact hle.trans (Nat.count_monotone _ h1)

end

/-! ## allocations -/

section
variable {t0 : HeapTable} {k : Nat} {m : Machine} {L : List Run}

/-- one allocation more -/
theorem kzalloc_next (hh : m.Holds L) (h : FirstTaken t0 k m.heap.table) (hk : k < freeBlocks t0)
    {size : Nat} (h1 : 1 ≤ size) (h2 : size ≤ 4096) : ∃ b m', kzalloc size m = .ok (blockAddr b, m') ∧
      m'.Holds (⟨b, 1⟩ :: L) ∧ FirstTaken t0 (k + 1) m'.heap.table := by
  have hblocks := h.blocks
  obtain ⟨b, hw, hrun⟩ := kzalloc_block hh h1 h2 (by omega)
  exact ⟨b, _, hrun, hh.alloc (le_refl 1) hw.1 size, h.next hw⟩

/-- a request for which the heap has no address -/
theorem kzalloc_null_of {size : Nat}
    (h : heapMallocBlocks m.heap (mallocBlocks size) = .ok (0, m.heap)) : kzalloc size m = .ok (0, m) := by
  have hk : kmalloc size m = .ok (0, m) := kmalloc_of h
  unfold kzalloc
  rw [bind_ok hk, if_pos rfl]
  rfl

/-- an allocation that gives `NULL` changes nothing -/
theorem kzalloc_null_same (hh : m.Holds L) {size : Nat} (hsize : size < 4294967296) {m' : Machine}
    (hrun : kzalloc size m = .ok (0, m')) : m' = m := by
  rcases Nat.eq_zero_or_pos (mallocBlocks size) with h0 | hpos
  · obtain ⟨q, hq, -⟩ := heapMallocBlocks_zero m.heap
    have hk : kmalloc size m = .ok (q, m) := kmalloc_of (by rw [h0, hq])
    unfold kzalloc at hrun
    rw [bind_ok hk] at hrun
    split at hrun
    · exact (pure_eq_ok hrun).2.symm
    · rename_i hne
      obtain ⟨hbad, -⟩ := ok_inj hrun
      exact absurd hbad hne
  · rcases kzalloc_cases hh hsize hrun with ⟨b, -, -, hp, -⟩ | ⟨-, -, rfl⟩ | ⟨h0, -⟩
    · exact absurd hp.symm blockAddr_ne
    · rfl
    · omega

/-- a request without blocks gives an address while the last block is free -/
theorem kzalloc_nothing (hh : m.Holds L) {size : Nat} (h0 : mallocBlocks size = 0)
    (hfree : Free m.heap.table (heapBlocks - 1)) :
    ∃ b m', kzalloc size m = .ok (blockAddr b, m') := by
  rw [← hh.total] at hfree
  obtain ⟨b, hb, -, hf⟩ := heapMallocBlocks_nothing (h := m.heap)
    ⟨by rw [hh.total]; decide, hfree⟩
  rw [blockAddr_eq hh.saddr (by rw [hh.total] at hb; exact hb)] at hf
  have hk : kmalloc size m = .ok (blockAddr b, m) := kmalloc_of (by rw [h0]; exact hf)
  refine ⟨b, { m with mem := m.mem.fill (blockAddr b) size 0 }, ?_⟩
  unfold kzalloc
  rw [bind_ok hk, if_neg blockAddr_ne]
  rfl

/-- **A request is refused** when the last block is taken and no window is left -/
theorem kzalloc_null_iff (hh : m.Holds L) {size : Nat} (hsize : size < 4294967296) :
    kzalloc size m = .ok (0, m) ↔ ¬ Free m.heap.table (heapBlocks - 1) ∧
      (mallocBlocks size = 0 ∨ ∀ b, ¬ Window m.heap.table (mallocBlocks size) b) := by
  have hlast : m.heap.table.total - 1 = heapBlocks - 1 := by rw [hh.total]
  constructor
  · intro hrun
    rcases Nat.eq_zero_or_pos (mallocBlocks size) with h0 | hpos
    · refine ⟨fun hfree => ?_, Or.inl h0⟩
      obtain ⟨b, m', hk⟩ := kzalloc_nothing hh h0 hfree
      exact blockAddr_ne (run_unique hk hrun).1
    · have hno : ∀ b, ¬ Window m.heap.table (mallocBlocks size) b := by
        rcases firstWindow_or_not m.heap.table (mallocBlocks size) with ⟨b, hw⟩ | hno
        · rw [kzalloc_found hh hsize hpos hw] at hrun
          exact absurd (ok_inj hrun).1 blockAddr_ne
        · exact hno
      refine ⟨fun hfree => ?_, Or.inr hno⟩
      have hf := heapMallocBlocks_fault m.heap hpos (mallocBlocks_lt size hsize) hno
        (by rw [hh.total]; decide) (by rw [hlast]; exact hfree)
      have hk : kmalloc size m = .error .outOfBounds := by
        unfold kmalloc heapMalloc
        rw [show heapAlignValueToUpper size / heapBlockSize = mallocBlocks size from rfl, hf]
        rfl
      unfold kzalloc at hrun
      rw [bind_error hk] at hrun
      cases hrun
  · rintro ⟨htaken, hnone⟩
    rw [← hlast] at htaken
    rcases Nat.eq_zero_or_pos (mallocBlocks size) with h0 | hpos
    · exact kzalloc_null_of (by rw [h0]; exact heapMallocBlocks_nothing_null (Or.inr htaken))
    · exact kzalloc_null_of (heapMallocBlocks_none m.heap hpos (hnone.resolve_left (by omega))
        (Or.inr htaken))

/-- behind its first `k` free blocks the table has room for `size` bytes; for none it needs its last
block -/
def RoomBehind (t : HeapTable) (k size : Nat) : Prop :=
  mallocBlocks size = 0 ∧ Free t (heapBlocks - 1) ∧ k ≤ freeBelow t (heapBlocks - 1) ∨
    1 ≤ mallocBlocks size ∧ ∃ b, Window t (mallocBlocks size) b ∧ k ≤ freeBelow t b

/-- **A request is granted** when a window is left -/
theorem kzalloc_some_iff (hh : m.Holds L) (h : FirstTaken t0 k m.heap.table) {size : Nat}
    (hsize : size < 4294967296) :
    (∃ p m', kzalloc size m = .ok (p, m') ∧ p ≠ 0) ↔ RoomBehind t0 k size := by
  have htotal : t0.total = heapBlocks := h.total.symm.trans hh.total
  have hlast := h.free (heapBlocks - 1) (by rw [htotal]; decide)
  unfold RoomBehind
  rw [← hlast]
  rcases Nat.eq_zero_or_pos (mallocBlocks size) with h0 | hpos
  · constructor
    · rintro ⟨p, m', hrun, hne⟩
      refine Or.inl ⟨h0, not_not.mp fun htaken => ?_⟩
      have hnull := (kzalloc_null_iff hh hsize).mpr ⟨htaken, Or.inl h0⟩
      exact hne (run_unique hrun hnull).1
    · rintro (⟨-, hfree⟩ | ⟨hpos, -⟩)
      · obtain ⟨b, m', hk⟩ := kzalloc_nothing hh h0 hfree
        exact ⟨_, m', hk, blockAddr_ne⟩
      · omega
  · constructor
    · rintro ⟨p, m', hrun, hne⟩
      rcases kzalloc_cases hh hsize hrun with ⟨b, hw, -⟩ | ⟨-, hp, -⟩ | ⟨h0, -⟩
      · exact Or.inr ⟨hpos, b, (window_taken_iff h hpos b).mp hw.1⟩
      · exact absurd hp hne
      · omega
    · rintro (⟨h0, -⟩ | ⟨-, b, hw⟩)
      · omega
      · rcases firstWindow_or_not m.heap.table (mallocBlocks size) with ⟨c, hc⟩ | hno
        · exact ⟨_, _, kzalloc_found hh hsize hpos hc, blockAddr_ne⟩
        · exact absurd ((window_taken_iff h hpos b).mpr hw) (hno b)

/-- two free blocks are room behind one -/
theorem roomBehind_block (hh : m.Holds L) (hfree : 2 ≤ freeBlocks m.heap.table) {size : Nat}
    (h1 : 1 ≤ size) (h2 : size ≤ 4096) : RoomBehind m.heap.table 1 size := by
  obtain ⟨b, m1, -, hh1, htaken⟩ := kzalloc_next hh (FirstTaken.refl _) (by omega) h1 h2
  obtain ⟨c, m2, hrun, -⟩ := kzalloc_next hh1 htaken (by omega) h1 h2
  exact (kzalloc_some_iff hh1 htaken (by omega)).mp ⟨_, m2, hrun, blockAddr_ne⟩

end

end LameOS
