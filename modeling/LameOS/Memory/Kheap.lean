import LameOS.Memory.HeapSpec
import LameOS.Lib.Exec
import LameOS.Lib.Bytes

/-!
# `kheap.c`: the kernel heap and the memory behind it

A `Machine` is the kernel's heap and the 4 GiB of memory.  Programs over it are `Exec` programs; a
null pointer followed is a fault.

* `kmalloc`, `kzalloc`, `kfree`    the interface of `kheap.h`;
* `Machine.Holds L`  the kernel heap, 25600 blocks from 16 MiB on, consists of the runs of `L`;
* `kzalloc_cases`    a run more, or nothing changed;
* `kzalloc_block`, `kzalloc_full`  one block, while there is one;
* `kfree_ok`         a run less;
* `Room n m`         a heap with `n` free blocks at least;
* `SameHeap m m'`    the heaps of two machines are the same.
-/

set_option linter.unusedVariables false

namespace LameOS
open Lib Lib.Exec

abbrev Prog (σ α : Type) := Exec Fault σ α

structure Machine where
  heap : Heap
  mem : Mem

/-! ## memory through pointers -/

/-- the word at offset `off` of the object at `p` -/
def readWord (p off : Nat) : Prog Machine Nat := fun m =>
  if p = 0 then .error .nullPointer else .ok (m.mem.load (p + off), m)

def writeWord (p off v : Nat) : Prog Machine Unit := fun m =>
  if p = 0 then .error .nullPointer else .ok ((), { m with mem := m.mem.store (p + off) v })

/-- `memset (p, c, n)` -/
def memset (p : Nat) (c : BitVec 8) (n : Nat) : Prog Machine Unit :=
  modify (fun m => { m with mem := m.mem.fill p n c })

/-! ## the interface -/

def kmalloc (size : Nat) : Prog Machine Nat := fun m => do
  let (p, h) ← heapMalloc m.heap size
  return (p, { m with heap := h })

def kzalloc (size : Nat) : Prog Machine Nat := do
  let ptr ← kmalloc size
  if ptr = 0 then
    return 0
  else
    memset ptr 0x00 size
    return ptr

def kfree (ptr : Nat) : Prog Machine Unit := fun m => do
  let h ← heapFree m.heap ptr
  return ((), { m with heap := h })

/-- `kheap_init`: the heap that the kernel boots with -/
def kheapInit (entries : Nat → UInt8) : Int × Heap :=
  let table : HeapTable := ⟨entries, heapSizeBytes / heapBlockSize⟩
  heapCreate ⟨table, 0⟩ heapAddress (heapAddress + heapSizeBytes) table

/-! ## the runs of the kernel heap -/

/-- the blocks of the kernel heap -/
abbrev heapBlocks : Nat := 25600

theorem heapBlocks_lt : heapBlocks < 524288 := by
  unfold heapBlocks
  omega

/-- the address of block `b` -/
def blockAddr (b : Nat) : Nat := heapAddress + b * 4096

/-- the kernel heap consists of the runs of `L` -/
structure Machine.Holds (m : Machine) (L : List Run) : Prop where
  saddr : m.heap.saddr = heapAddress
  total : m.heap.table.total = heapBlocks
  tiled : Tiled m.heap.table L

theorem kheapInit_holds (entries : Nat → UInt8) (mem : Mem) :
    (kheapInit entries).1 = 0 ∧ Machine.Holds ⟨(kheapInit entries).2, mem⟩ [] :=
  ⟨rfl, rfl, rfl, by simp, by simp, List.Pairwise.nil, by simp, fun i hi _ => if_pos hi⟩

/-- the machine with an empty kernel heap -/
def emptyMachine : Machine := ⟨(kheapInit (fun _ => 0)).2, fun _ => 0⟩

theorem emptyMachine_holds : emptyMachine.Holds [] := (kheapInit_holds _ _).2

theorem blockAddr_lt {b : Nat} (hb : b < heapBlocks) : blockAddr b + 4096 ≤ 0x7400000 := by
  unfold heapBlocks at hb
  unfold blockAddr heapAddress
  omega

theorem blockAddr_word_lt {b : Nat} (hb : b ≤ heapBlocks) : blockAddr b < 4294967296 := by
  unfold heapBlocks at hb
  unfold blockAddr heapAddress
  omega

theorem blockAddr_ne {b : Nat} : blockAddr b ≠ 0 := by
  unfold blockAddr heapAddress
  omega

theorem blockAddr_inj {a b : Nat} (h : blockAddr a = blockAddr b) : a = b := by
  unfold blockAddr at h
  omega

section
variable {m : Machine} {L : List Run}

theorem blockAddr_eq (h : m.heap.saddr = heapAddress) {b : Nat} (hb : b < heapBlocks) :
    heapBlockToAddress m.heap b = blockAddr b := by
  have hlt := blockAddr_lt hb
  unfold heapBlockToAddress cuint
  rw [h]
  unfold blockAddr heapAddress at *
  unfold heapBlockSize
  omega

theorem addressToBlock_blockAddr (h : m.heap.saddr = heapAddress) {b : Nat} (hb : b < heapBlocks) :
    heapAddressToBlock m.heap (blockAddr b) = b := by
  rw [← blockAddr_eq h hb]
  exact heapAddressToBlock_low m.heap (lt_trans hb heapBlocks_lt)

theorem Machine.Holds.perm (h : m.Holds L) {L' : List Run} (hp : L.Perm L') : m.Holds L' :=
  ⟨h.saddr, h.total, h.tiled.perm hp⟩

theorem Machine.Holds.inside (h : m.Holds L) {r : Run} (hr : r ∈ L) :
    r.start + r.len ≤ heapBlocks := h.total ▸ h.tiled.inside r hr

/-- the memory does not count -/
theorem Machine.Holds.congr {m' : Machine} (h : m.Holds L) (e : m'.heap = m.heap) : m'.Holds L := by
  obtain ⟨h1, h2, h3⟩ := h
  rw [← e] at h1 h2 h3
  exact ⟨h1, h2, h3⟩

/-- two lists of runs of one heap are the same -/
theorem Machine.Holds.unique {L' : List Run} (h : m.Holds L) (h' : m.Holds L') : L.Perm L' :=
  h.tiled.perm_of_same h'.tiled rfl (fun _ _ => rfl)

/-- a window apart from the runs -/
theorem Machine.Holds.window (h : m.Holds L) {n b : Nat} (hin : b + n ≤ heapBlocks)
    (hr : ∀ r ∈ L, r.start + r.len ≤ b ∨ b + n ≤ r.start) : Window m.heap.table n b := by
  refine ⟨by rw [h.total]; exact hin, fun i h1 h2 => ?_⟩
  refine (h.tiled.free_iff (by rw [h.total]; exact lt_of_lt_of_le h2 hin)).mpr (fun r hrL hm => ?_)
  obtain ⟨h3, h4⟩ := hm
  have := hr r hrL
  omega

/-! ## allocation -/

/-- the blocks that `heap_malloc` asks for; none for a size that wraps -/
def mallocBlocks (size : Nat) : Nat := heapAlignValueToUpper size / heapBlockSize

theorem mallocBlocks_lt (size : Nat) (h : size < 4294967296) : mallocBlocks size < 1048576 := by
  unfold mallocBlocks heapAlignValueToUpper heapBlockSize
  split
  · omega
  · exact Nat.div_lt_of_lt_mul (cuint_lt _)

theorem kmalloc_of {size p : Nat} {h : Heap}
    (hf : heapMallocBlocks m.heap (mallocBlocks size) = .ok (p, h)) :
    kmalloc size m = .ok (p, { m with heap := h }) := by
  unfold kmalloc heapMalloc
  rw [show heapAlignValueToUpper size / heapBlockSize = mallocBlocks size from rfl, hf]
  rfl

/-- the machine with the run `r` taken and its first `size` bytes cleared -/
def Machine.alloc (m : Machine) (r : Run) (size : Nat) : Machine :=
  { heap := m.heap.mark r, mem := m.mem.fill (blockAddr r.start) size 0 }

theorem Machine.Holds.alloc (h : m.Holds L) {n b : Nat} (hn : 1 ≤ n)
    (hw : Window m.heap.table n b) (size : Nat) : (m.alloc ⟨b, n⟩ size).Holds (⟨b, n⟩ :: L) :=
  ⟨h.saddr, h.total, h.tiled.alloc ⟨b, n⟩ hn hw⟩

/-- the least window is taken, whatever the entries of the table are -/
theorem kzalloc_window (hs : m.heap.saddr = heapAddress) (ht : m.heap.table.total = heapBlocks)
    {size b : Nat} (hsize : size < 4294967296)
    (hn : 1 ≤ mallocBlocks size) (hw : FirstWindow m.heap.table (mallocBlocks size) b) :
    kzalloc size m = .ok (blockAddr b, m.alloc ⟨b, mallocBlocks size⟩ size) := by
  have hb : b < heapBlocks := by
    have := hw.1.1
    rw [ht] at this
    omega
  have hk : kmalloc size m
      = .ok (blockAddr b, { m with heap := m.heap.mark ⟨b, mallocBlocks size⟩ }) := by
    have hf := heapMallocBlocks_found m.heap hn (lt_trans (mallocBlocks_lt size hsize) (by decide)) hw
    rw [blockAddr_eq hs hb] at hf
    exact kmalloc_of hf
  unfold kzalloc
  rw [bind_ok hk, if_neg blockAddr_ne]
  rfl

theorem kzalloc_found (h : m.Holds L) {size b : Nat} (hsize : size < 4294967296)
    (hn : 1 ≤ mallocBlocks size) (hw : FirstWindow m.heap.table (mallocBlocks size) b) :
    kzalloc size m = .ok (blockAddr b, m.alloc ⟨b, mallocBlocks size⟩ size) :=
  kzalloc_window h.saddr h.total hsize hn hw

/-- **`kzalloc`.**  It marks a window of free blocks and clears it, or gives `NULL` and changes
nothing; a size without blocks takes nothing. -/
theorem kzalloc_window_cases (hs : m.heap.saddr = heapAddress) (ht : m.heap.table.total = heapBlocks)
    {size p : Nat} {m' : Machine} (hsize : size < 4294967296)
    (hrun : kzalloc size m = .ok (p, m')) :
    (∃ b, FirstWindow m.heap.table (mallocBlocks size) b ∧ 1 ≤ mallocBlocks size ∧
      p = blockAddr b ∧ m' = m.alloc ⟨b, mallocBlocks size⟩ size) ∨
    (1 ≤ mallocBlocks size ∧ p = 0 ∧ m' = m) ∨
    (mallocBlocks size = 0 ∧ m'.heap = m.heap) := by
  rcases Nat.eq_zero_or_pos (mallocBlocks size) with h0 | hn
  · right; right
    refine ⟨h0, ?_⟩
    obtain ⟨q, hq, -⟩ := heapMallocBlocks_zero m.heap
    have hk : kmalloc size m = .ok (q, m) := kmalloc_of (by rw [h0, hq])
    unfold kzalloc at hrun
    rw [bind_ok hk] at hrun
    split at hrun
    · obtain ⟨-, rfl⟩ := pure_eq_ok hrun
      rfl
    · cases hrun
      rfl
  · rcases firstWindow_or_not m.heap.table (mallocBlocks size) with ⟨b, hw⟩ | hno
    · left
      rw [kzalloc_window hs ht hsize hn hw] at hrun
      obtain ⟨rfl, rfl⟩ := ok_inj hrun
      exact ⟨b, hw, hn, rfl, rfl⟩
    · right; left
      refine ⟨hn, ?_⟩
      by_cases hlast : Free m.heap.table (m.heap.table.total - 1)
      · have hf := heapMallocBlocks_fault m.heap hn (mallocBlocks_lt size hsize) hno
          (by rw [ht]; decide) hlast
        have hk : kmalloc size m = .error .outOfBounds := by
          unfold kmalloc heapMalloc
          rw [show heapAlignValueToUpper size / heapBlockSize = mallocBlocks size from rfl, hf]
          rfl
        unfold kzalloc at hrun
        rw [bind_error hk] at hrun
        cases hrun
      · have hf := heapMallocBlocks_none m.heap hn hno (Or.inr hlast)
        have hk : kmalloc size m = .ok (0, m) := kmalloc_of hf
        unfold kzalloc at hrun
        rw [bind_ok hk, if_pos rfl] at hrun
        obtain ⟨rfl, rfl⟩ := pure_eq_ok hrun
        exact ⟨rfl, rfl⟩

/-- in a heap that is in order -/
theorem kzalloc_cases (h : m.Holds L) {size p : Nat} {m' : Machine} (hsize : size < 4294967296)
    (hrun : kzalloc size m = .ok (p, m')) :
    (∃ b, FirstWindow m.heap.table (mallocBlocks size) b ∧ 1 ≤ mallocBlocks size ∧
      p = blockAddr b ∧ m' = m.alloc ⟨b, mallocBlocks size⟩ size) ∨
    (1 ≤ mallocBlocks size ∧ p = 0 ∧ m' = m) ∨
    (mallocBlocks size = 0 ∧ m'.heap = m.heap) := kzalloc_window_cases h.saddr h.total hsize hrun

/-! ## single blocks -/

/-- the entries that a search for one block can find -/
def freeBlocks (t : HeapTable) : Nat := (List.range t.total).countP (fun i => decide (Free t i))

theorem mallocBlocks_one {size : Nat} (h1 : 1 ≤ size) (h2 : size ≤ 4096) : mallocBlocks size = 1 := by
  unfold mallocBlocks
  rw [heapAlign_blocks (by omega)]
  unfold blocksFor
  omega

theorem window_one {t : HeapTable} {b : Nat} : Window t 1 b ↔ b < t.total ∧ Free t b := by
  constructor
  · intro h
    exact ⟨h.1, h.2 b (le_refl b) (by omega)⟩
  · rintro ⟨h1, h2⟩
    refine ⟨h1, fun i hi hi' => ?_⟩
    obtain rfl : b = i := by omega
    exact h2

theorem freeBlocks_pos {t : HeapTable} : 0 < freeBlocks t ↔ ∃ b, Window t 1 b := by
  unfold freeBlocks
  rw [List.countP_pos_iff]
  constructor
  · rintro ⟨b, hb, hf⟩
    exact ⟨b, window_one.mpr ⟨List.mem_range.mp hb, of_decide_eq_true hf⟩⟩
  · rintro ⟨b, hb⟩
    obtain ⟨h1, h2⟩ := window_one.mp hb
    exact ⟨b, List.mem_range.mpr h1, decide_eq_true h2⟩

theorem firstWindow_of_pos {t : HeapTable} (h : 0 < freeBlocks t) : ∃ b, FirstWindow t 1 b := by
  rcases firstWindow_or_not t 1 with hw | hno
  · exact hw
  · obtain ⟨b, hb⟩ := freeBlocks_pos.mp h
    exact absurd hb (hno b)

/-- the entries from `n` on, when they are all free -/
theorem freeBlocks_ge {t : HeapTable} {n : Nat} (h : ∀ i, n ≤ i → i < t.total → Free t i) :
    t.total ≤ n + freeBlocks t := by
  unfold freeBlocks
  rcases Nat.le_total t.total n with hle | hle
  · omega
  · obtain ⟨k, hk⟩ := Nat.exists_eq_add_of_le hle
    have hall : ((List.range k).map (fun i => n + i)).countP (fun i => decide (Free t i)) = k := by
      rw [List.countP_eq_length.mpr, List.length_map, List.length_range]
      intro i hi
      obtain ⟨j, hj, rfl⟩ := List.mem_map.mp hi
      have := List.mem_range.mp hj
      exact decide_eq_true (h _ (by omega) (by omega))
    rw [hk, List.range_add, List.countP_append, hall]
    omega

/-- changing one position of a range changes a count by one -/
theorem countP_range_update (p q : Nat → Bool) (n b : Nat) (hb : b < n) (hp : p b = true)
    (hq : q b = false) (hpq : ∀ i, i < n → i ≠ b → p i = q i) :
    (List.range n).countP p = (List.range n).countP q + 1 := by
  induction n with
  | zero => omega
  | succ n ih =>
    rw [List.range_succ, List.countP_append, List.countP_append, List.countP_singleton,
      List.countP_singleton]
    by_cases e : b = n
    · subst e
      have hsame : (List.range b).countP p = (List.range b).countP q := by
        refine List.countP_congr (fun i hi => ?_)
        have hi := List.mem_range.mp hi
        rw [hpq i (by omega) (by omega)]
      rw [hsame, hp, hq]
      rfl
    · have h := ih (by omega) (fun i hi hne => hpq i (by omega) hne)
      rw [h, hpq n (by omega) (by omega)]
      omega

/-- marking one block leaves the others -/
theorem free_mark_iff (t : HeapTable) (b i : Nat) : Free (t.mark ⟨b, 1⟩) i ↔ Free t i ∧ i ≠ b := by
  by_cases e : i = b
  · subst e
    have hcode : (t.mark ⟨i, 1⟩).entries i = runCode ⟨i, 1⟩ i :=
      HeapTable.put_in t _ (le_refl i) (Nat.lt_succ_self i)
    refine iff_of_false (fun h => ?_) (fun h => h.2 rfl)
    unfold Free at h
    rw [hcode] at h
    exact runCode_taken _ _ h
  · have hout : (t.mark ⟨b, 1⟩).entries i = t.entries i :=
      HeapTable.put_out t _ (by show i < b ∨ b + 1 ≤ i; omega)
    unfold Free
    rw [hout, and_iff_left e]

theorem freeBlocks_mark {t : HeapTable} {b : Nat} (hw : Window t 1 b) :
    freeBlocks t = freeBlocks (t.mark ⟨b, 1⟩) + 1 := by
  obtain ⟨hb, hf⟩ := window_one.mp hw
  unfold freeBlocks
  refine countP_range_update _ _ t.total b hb (decide_eq_true hf) ?_ (fun i hi hne => ?_)
  · exact decide_eq_false (fun h => ((free_mark_iff t b b).mp h).2 rfl)
  · refine decide_eq_decide.mpr ((free_mark_iff t b i).trans ?_).symm
    exact and_iff_left hne

theorem freeBlocks_wipe {t : HeapTable} {r : Run} {L : List Run} (h : Tiled t (r :: L))
    (hr : r.len = 1) : freeBlocks (t.wipe r) = freeBlocks t + 1 := by
  have hb : r.start < t.total := by
    have := h.inside r List.mem_cons_self
    omega
  have hm : r.Mem r.start := Run.mem_start (by omega)
  unfold freeBlocks
  refine countP_range_update _ _ t.total r.start hb ?_ ?_ (fun i hi hne => ?_)
  · have h0 : (t.wipe r).entries r.start = 0 := HeapTable.put_in t _ hm.1 hm.2
    refine decide_eq_true ?_
    unfold Free
    rw [h0]
    decide
  · refine decide_eq_false (fun hf => ?_)
    unfold Free at hf
    rw [h.coded r List.mem_cons_self _ hm] at hf
    exact runCode_taken _ _ hf
  · have hout : (t.wipe r).entries i = t.entries i := HeapTable.put_out t _ (by omega)
    have e : Free (t.wipe r) i ↔ Free t i := by
      unfold Free
      rw [hout]
    exact decide_eq_decide.mpr e

/-- one block -/
theorem kzalloc_one (hs : m.heap.saddr = heapAddress) (ht : m.heap.table.total = heapBlocks)
    {size : Nat} (h1 : 1 ≤ size) (h2 : size ≤ 4096) (hfree : 0 < freeBlocks m.heap.table) :
    ∃ b, FirstWindow m.heap.table 1 b ∧
      kzalloc size m = .ok (blockAddr b, m.alloc ⟨b, 1⟩ size) := by
  obtain ⟨b, hw⟩ := firstWindow_of_pos hfree
  have e := mallocBlocks_one h1 h2
  have hk : kzalloc size m = .ok (blockAddr b, m.alloc ⟨b, mallocBlocks size⟩ size) :=
    kzalloc_window hs ht (by omega) (by omega) (by rw [e]; exact hw)
  rw [e] at hk
  exact ⟨b, hw, hk⟩

theorem kzalloc_block (h : m.Holds L) {size : Nat} (h1 : 1 ≤ size) (h2 : size ≤ 4096)
    (hfree : 0 < freeBlocks m.heap.table) : ∃ b, FirstWindow m.heap.table 1 b ∧
      kzalloc size m = .ok (blockAddr b, m.alloc ⟨b, 1⟩ size) :=
  kzalloc_one h.saddr h.total h1 h2 hfree

/-- no block is left -/
theorem kzalloc_none (ht : m.heap.table.total = heapBlocks) {size : Nat} (h1 : 1 ≤ size)
    (h2 : size ≤ 4096) (hfree : freeBlocks m.heap.table = 0) : kzalloc size m = .ok (0, m) := by
  have hno : ∀ b, ¬ Window m.heap.table 1 b := fun b hb => by
    have := freeBlocks_pos.mpr ⟨b, hb⟩
    omega
  have hlast : ¬ Free m.heap.table (m.heap.table.total - 1) := fun hf =>
    hno _ (window_one.mpr ⟨by rw [ht]; exact Nat.sub_one_lt (by decide), hf⟩)
  have hf := heapMallocBlocks_none m.heap (le_refl 1) hno (Or.inr hlast)
  have hk : kmalloc size m = .ok (0, m) := kmalloc_of (by rw [mallocBlocks_one h1 h2, hf])
  unfold kzalloc
  rw [bind_ok hk, if_pos rfl]
  rfl

theorem kzalloc_full (h : m.Holds L) {size : Nat} (h1 : 1 ≤ size) (h2 : size ≤ 4096)
    (hfree : freeBlocks m.heap.table = 0) : kzalloc size m = .ok (0, m) :=
  kzalloc_none h.total h1 h2 hfree

theorem emptyMachine_blocks : heapBlocks ≤ freeBlocks emptyMachine.heap.table := by
  have hge := freeBlocks_ge (t := emptyMachine.heap.table) (n := 0) (fun i _ hi =>
    (emptyMachine_holds.tiled.free_iff hi).mpr (fun r hr => absurd hr List.not_mem_nil))
  rwa [emptyMachine_holds.total, Nat.zero_add] at hge

/-! ## release -/

/-- the machine with the run `r` free -/
def Machine.release (m : Machine) (r : Run) : Machine := { m with heap := m.heap.wipe r }

theorem kfree_of {p : Nat} {h : Heap} (hf : heapFree m.heap p = .ok h) :
    kfree p m = .ok ((), { m with heap := h }) := by
  unfold kfree
  rw [hf]
  rfl

/-- a run less -/
theorem kfree_ok {r : Run} (h : m.Holds (r :: L)) :
    kfree (blockAddr r.start) m = .ok ((), m.release r) ∧ (m.release r).Holds L := by
  have hr : r ∈ r :: L := List.mem_cons_self
  have hpos := h.tiled.pos r hr
  have hin := h.inside hr
  have hb : heapAddressToBlock m.heap (blockAddr r.start) = r.start :=
    addressToBlock_blockAddr h.saddr (lt_of_lt_of_le (Nat.lt_add_of_pos_right hpos) hin)
  have hbig : m.heap.table.total < 2147483648 := by
    rw [h.total]
    exact lt_trans heapBlocks_lt (by norm_num)
  have hf := heapFree_ok m.heap r hb hpos (h.tiled.inside r hr) hbig (h.tiled.coded r hr)
  exact ⟨kfree_of hf, h.saddr, h.total, h.tiled.release⟩

end

/-! ## room on the heap -/

/-- the heap is in order and has `n` free blocks at least -/
def Room (n : Nat) (m : Machine) : Prop := ∃ L, m.Holds L ∧ n ≤ freeBlocks m.heap.table

section
variable {n : Nat} {m : Machine}

theorem Room.mono {k : Nat} (h : Room n m) (hk : k ≤ n) : Room k m := by
  obtain ⟨L, hh, hn⟩ := h
  exact ⟨L, hh, hk.trans hn⟩

theorem kzalloc_room {size : Nat} (h : Room (n + 1) m) (h1 : 1 ≤ size) (h2 : size ≤ 4096) :
    Does (kzalloc size) m (fun p m' => p ≠ 0 ∧ Room n m') := by
  obtain ⟨L, hh, hn⟩ := h
  obtain ⟨b, hw, hrun⟩ := kzalloc_block hh h1 h2 (by omega)
  have hmark := freeBlocks_mark hw.1
  refine ⟨blockAddr b, _, hrun, blockAddr_ne, _, hh.alloc (le_refl 1) hw.1 size, ?_⟩
  show n ≤ freeBlocks (m.heap.table.mark ⟨b, 1⟩)
  omega

/-- a block that is allocated and freed again -/
theorem kzalloc_kfree_room {size : Nat} (h : Room (n + 1) m) (h1 : 1 ≤ size) (h2 : size ≤ 4096) :
    Does (kzalloc size >>= kfree) m (fun _ m' => Room n m') := by
  obtain ⟨L, hh, hn⟩ := h
  obtain ⟨b, hw, hrun⟩ := kzalloc_block hh h1 h2 (by omega)
  have hmark := freeBlocks_mark hw.1
  have hal := hh.alloc (le_refl 1) hw.1 size
  obtain ⟨hfree, hh'⟩ := kfree_ok hal
  have hwipe := freeBlocks_wipe hal.tiled rfl
  refine ⟨(), _, by rw [bind_ok hrun]; exact hfree, L, hh', ?_⟩
  show n ≤ freeBlocks ((m.heap.table.mark ⟨b, 1⟩).wipe ⟨b, 1⟩)
  have e : (m.alloc ⟨b, 1⟩ size).heap.table = m.heap.table.mark ⟨b, 1⟩ := rfl
  rw [e] at hwipe
  omega

end

/-- `P n` says of a heap that it can supply `n` single blocks -/
class Supply (P : Nat → Machine → Prop) : Prop where
  mono : ∀ {n k m}, P n m → k ≤ n → P k m
  one : ∀ {n m size}, P (n + 1) m → 1 ≤ size → size ≤ 4096 →
    Does (kzalloc size) m (fun p m' => p ≠ 0 ∧ P n m')
  again : ∀ {n m size}, P (n + 1) m → 1 ≤ size → size ≤ 4096 →
    Does (kzalloc size >>= kfree) m (fun _ m' => P n m')

instance : Supply Room where
  mono := Room.mono
  one := kzalloc_room
  again := kzalloc_kfree_room

/-! ## heaps that are the same -/

/-- the heaps have one base, one size and the same entries -/
structure SameHeap (m m' : Machine) : Prop where
  saddr : m'.heap.saddr = m.heap.saddr
  total : m'.heap.table.total = m.heap.table.total
  entries : ∀ i < m.heap.table.total, m'.heap.table.entries i = m.heap.table.entries i

theorem SameHeap.refl (m : Machine) : SameHeap m m := ⟨rfl, rfl, fun _ _ => rfl⟩

/-- the runs of the kernel heap determine it -/
theorem Machine.Holds.same {m m' : Machine} {L : List Run} (h : m.Holds L) (h' : m'.Holds L) :
    SameHeap m m' where
  saddr := h'.saddr.trans h.saddr.symm
  total := h'.total.trans h.total.symm
  entries i hi := (h.tiled.same_of_perm h'.tiled (h.total.trans h'.total.symm)
    (List.Perm.refl L) i hi).symm

end LameOS
