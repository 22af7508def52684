import LameOS.Memory.Runs

/-!
# What the loops of `heap.c` do to a table

* `startLoop_spec`     the search finds the least window of `n` free entries; when there is none it
                       ends with `-1` after a taken last entry, and otherwise with the start of
                       the (too short) run of free entries at the end of the table;
* `heapMarkBlocksTaken_ok`, `heapMarkBlocksTaken_fault`   the marking of a run inside the table, and
                       of one that leaves it;
* `heapMarkBlocksFree_ok`   the release of a coded run;
* `Tiled.alloc`, `Tiled.release`   a table stays tiled;
* `heapMallocBlocks_found`, `heapMallocBlocks_none`, `heapMallocBlocks_fault`   the three ends of
                       `heapMallocBlocks`;
* `heapFree_ok`        the release of a run by its address.
-/

set_option linter.unusedVariables false

namespace LameOS
open Lib

/-! ## the search -/

/-- the free entries before index `i` that the loop has counted: `bc` of them, `bs` is the first -/
structure Counted (t : HeapTable) (i bc : Nat) (bs : Int) : Prop where
  le : bc ≤ i
  start : bs = if bc = 0 then -1 else ((i - bc : Nat) : Int)
  free : ∀ j, i - bc ≤ j → j < i → Free t j
  stop : i - bc = 0 ∨ ¬ Free t (i - bc - 1)

theorem Counted.zero (t : HeapTable) : Counted t 0 0 (-1) where
  le := le_refl _
  start := rfl
  free := by intro j h1 h2; omega
  stop := Or.inl rfl

theorem Counted.taken {t : HeapTable} {i : Nat} (h : ¬ Free t i) : Counted t (i + 1) 0 (-1) where
  le := Nat.zero_le _
  start := rfl
  free := by intro j h1 h2; omega
  stop := Or.inr (by simpa using h)

theorem Counted.next {t : HeapTable} {i bc : Nat} {bs : Int} (c : Counted t i bc bs)
    (h : Free t i) : Counted t (i + 1) (bc + 1) (if bs = -1 then i else bs) where
  le := Nat.succ_le_succ c.le
  start := by
    have hle := c.le
    rw [c.start, if_neg (Nat.succ_ne_zero bc)]
    by_cases h0 : bc = 0
    · simp [h0]
    · have e : ¬ (((i - bc : Nat) : Int) = -1) := by omega
      rw [if_neg h0, if_neg e]
      omega
  free := by
    intro j h1 h2
    rcases Nat.lt_or_eq_of_le (Nat.le_of_lt_succ h2) with hlt | rfl
    · exact c.free j (by omega) hlt
    · exact h
  stop := by
    have e : i + 1 - (bc + 1) = i - bc := by omega
    rw [e]
    exact c.stop

/-- no window ends at or before `i` -/
def NoWindowTo (t : HeapTable) (n i : Nat) : Prop := ∀ b, b + n ≤ i → ¬ Window t n b

/-- what the loop of `heapGetStartBlock` can end with -/
inductive Scan (t : HeapTable) (n : Nat) : Int → Prop
  | found (b : Nat) : FirstWindow t n b → Scan t n b
  | none : (∀ b, ¬ Window t n b) → (t.total = 0 ∨ ¬ Free t (t.total - 1)) → Scan t n (-1)
  | tail (b : Nat) : (∀ b, ¬ Window t n b) → b < t.total → t.total < b + n →
      (∀ j, b ≤ j → j < t.total → Free t j) → Scan t n b

/-- a window that the entry `i` would have to end -/
theorem NoWindowTo.succ {t : HeapTable} {n i bc : Nat} {bs : Int} (hn : 1 ≤ n)
    (c : Counted t i bc bs) (hw : NoWindowTo t n i)
    (h : ¬ Free t i ∨ bc + 1 < n) : NoWindowTo t n (i + 1) := by
  intro b hb hwin
  rcases Nat.lt_or_eq_of_le hb with hlt | heq
  · exact hw b (Nat.le_of_lt_succ hlt) hwin
  · rcases h with hf | hbc
    · exact hf (hwin.2 i (by omega) (by omega))
    · have hstop := c.stop
      rcases hstop with h0 | hnf
      · have := c.le
        omega
      · exact hnf (hwin.2 (i - bc - 1) (by omega) (by omega))

theorem startLoop_scan (t : HeapTable) (n : Nat) (hn : 1 ≤ n) (fuel : Nat) :
    ∀ (i bc : Nat) (bs : Int), i + fuel = t.total → bc < n → Counted t i bc bs →
      NoWindowTo t n i → Scan t n (startLoop t n fuel i bc bs) := by
  induction fuel with
  | zero =>
    intro i bc bs hi hbc c hw
    have hi' : i = t.total := by omega
    subst hi'
    have hno : ∀ b, ¬ Window t n b := fun b hb => hw b hb.1 hb
    show Scan t n bs
    by_cases h0 : bc = 0
    · subst h0
      rw [c.start]
      refine Scan.none hno ?_
      have := c.stop
      simpa using this
    · have hle := c.le
      rw [c.start, if_neg h0]
      exact Scan.tail _ hno (by omega) (by omega) c.free
  | succ fuel ih =>
    intro i bc bs hi hbc c hw
    unfold startLoop
    by_cases hf : Free t i
    · have hf' : ¬ heapGetEntryType (t.entries i) ≠ entryFree := not_not.mpr hf
      rw [if_neg hf']
      have c' := c.next hf
      by_cases hend : bc + 1 = n
      · rw [if_pos hend]
        have hle := c'.le
        have hb : (if bs = -1 then (i : Int) else bs) = ((i + 1 - n : Nat) : Int) := by
          rw [c'.start, if_neg (Nat.succ_ne_zero bc), hend]
        rw [hb]
        refine Scan.found _ ⟨⟨by omega, fun j h1 h2 => c'.free j (by omega) (by omega)⟩,
          fun b' hb' => hw b' (by omega)⟩
      · rw [if_neg hend]
        exact ih (i + 1) (bc + 1) _ (by omega) (by omega) c'
          (hw.succ hn c (Or.inr (by omega)))
    · have hf' : heapGetEntryType (t.entries i) ≠ entryFree := hf
      rw [if_pos hf']
      exact ih (i + 1) 0 (-1) (by omega) (by omega) (Counted.taken hf)
        (hw.succ hn c (Or.inl hf))

/-- **The search of `heapGetStartBlock`.** -/
theorem startLoop_spec (t : HeapTable) (n : Nat) (hn : 1 ≤ n) :
    Scan t n (startLoop t n t.total 0 0 (-1)) :=
  startLoop_scan t n hn t.total 0 0 (-1) (by omega) (by omega) (Counted.zero t)
    (fun b hb hwin => by omega)

/-! ## the marking -/

/-- the table with `f` in place of its entries in `[a, b)` -/
def HeapTable.put (t : HeapTable) (a b : Nat) (f : Nat → UInt8) : HeapTable :=
  { t with entries := fun i => if a ≤ i ∧ i < b then f i else t.entries i }

@[simp] theorem HeapTable.put_total (t : HeapTable) (a b : Nat) (f : Nat → UInt8) :
    (t.put a b f).total = t.total := rfl

theorem HeapTable.put_in (t : HeapTable) (f : Nat → UInt8) {a b i : Nat} (h1 : a ≤ i)
    (h2 : i < b) : (t.put a b f).entries i = f i := if_pos ⟨h1, h2⟩

theorem HeapTable.put_out (t : HeapTable) (f : Nat → UInt8) {a b i : Nat}
    (h : i < a ∨ b ≤ i) : (t.put a b f).entries i = t.entries i := if_neg (by omega)

theorem HeapTable.put_empty (t : HeapTable) (f : Nat → UInt8) (a : Nat) : t.put a a f = t := by
  unfold HeapTable.put
  have e : (fun i => if a ≤ i ∧ i < a then f i else t.entries i) = t.entries := by
    funext i
    exact if_neg (by omega)
  rw [e]

/-- writing entry `a` and then the rest -/
theorem HeapTable.put_cons (t : HeapTable) (f : Nat → UInt8) {a b : Nat} (h : a < b) :
    ({ t with entries := Function.update t.entries a (f a) } : HeapTable).put (a + 1) b f
      = t.put a b f := by
  unfold HeapTable.put
  congr 1
  funext i
  by_cases e : i = a
  · subst e
    rw [if_neg (by omega), if_pos ⟨le_refl _, h⟩]
    exact Function.update_self ..
  · by_cases hi : a + 1 ≤ i ∧ i < b
    · rw [if_pos hi, if_pos ⟨by omega, hi.2⟩]
    · rw [if_neg hi, if_neg (by omega)]
      exact Function.update_of_ne e ..

theorem HeapTable.store_nat (t : HeapTable) {i : Nat} (h : i < t.total) (x : UInt8) :
    t.store i x = .ok { t with entries := Function.update t.entries i x } := by
  unfold HeapTable.store
  rw [if_pos (by omega), Int.toNat_natCast]

theorem HeapTable.store_out (t : HeapTable) {i : Int} (h : i < 0 ∨ t.total ≤ i) (x : UInt8) :
    t.store i x = .error .outOfBounds := if_neg (by omega)

theorem HeapTable.load_nat (t : HeapTable) {i : Nat} (h : i < t.total) :
    t.load i = .ok (t.entries i) := by
  unfold HeapTable.load
  rw [if_pos (by omega), Int.toNat_natCast]

theorem HeapTable.load_out (t : HeapTable) {i : Int} (h : i < 0 ∨ t.total ≤ i) :
    t.load i = .error .outOfBounds := if_neg (by omega)

/-- the entry the loop carries is the code of the index it is at -/
theorem markTakenLoop_ok (r : Run) (fuel : Nat) : ∀ (j : Nat) (entry : UInt8) (t : HeapTable),
    r.start ≤ j → j + fuel = r.start + r.len → r.start + r.len ≤ t.total →
    (0 < fuel → entry = runCode r j) →
    markTakenLoop ((r.start + r.len : Nat) - 1) fuel j entry t
      = .ok (t.put j (r.start + r.len) (runCode r)) := by
  induction fuel with
  | zero =>
    intro j entry t h1 h2 h3 h4
    have e : j = r.start + r.len := by omega
    rw [e, HeapTable.put_empty]
    rfl
  | succ fuel ih =>
    intro j entry t h1 h2 h3 h4
    have hj : j < t.total := by omega
    unfold markTakenLoop
    rw [h4 (Nat.succ_pos fuel), HeapTable.store_nat t hj]
    have hnext : 0 < fuel → (if (j : Int) ≠ ((r.start + r.len : Nat) : Int) - 1 - 1
        then entryTaken ||| blockHasNext else entryTaken) = runCode r (j + 1) := by
      intro hf
      have h1 : ¬ r.len = 1 := by omega
      have h2 : ¬ j + 1 = r.start := by omega
      unfold runCode
      rw [if_neg h1, if_neg h2]
      by_cases hl : j + 1 + 1 = r.start + r.len
      · rw [if_pos hl, if_neg (by omega)]
      · rw [if_neg hl, if_pos (by omega)]
        decide
    have h := ih (j + 1) (if (j : Int) ≠ ((r.start + r.len : Nat) : Int) - 1 - 1
        then entryTaken ||| blockHasNext else entryTaken)
      { t with entries := Function.update t.entries j (runCode r j) } (by omega) (by omega) h3 hnext
    rw [HeapTable.put_cons t (runCode r) (by omega)] at h
    exact h

theorem markTakenLoop_fault (e : Int) (fuel : Nat) : ∀ (j : Nat) (entry : UInt8) (t : HeapTable),
    j ≤ t.total → t.total < j + fuel → markTakenLoop e fuel j entry t = .error .outOfBounds := by
  induction fuel with
  | zero =>
    intro j entry t h1 h2
    omega
  | succ fuel ih =>
    intro j entry t h1 h2
    unfold markTakenLoop
    by_cases hj : j < t.total
    · rw [HeapTable.store_nat t hj]
      exact ih (j + 1) _ { t with entries := Function.update t.entries j entry } hj
        (by show t.total < j + 1 + fuel; omega)
    · rw [HeapTable.store_out t (by omega)]
      rfl

/-- the table with the run `r` marked taken -/
def HeapTable.mark (t : HeapTable) (r : Run) : HeapTable :=
  t.put r.start (r.start + r.len) (runCode r)

/-- the table with the run `r` marked free -/
def HeapTable.wipe (t : HeapTable) (r : Run) : HeapTable :=
  t.put r.start (r.start + r.len) (fun _ => 0)

def Heap.mark (h : Heap) (r : Run) : Heap := { h with table := h.table.mark r }

def Heap.wipe (h : Heap) (r : Run) : Heap := { h with table := h.table.wipe r }

@[simp] theorem HeapTable.mark_total (t : HeapTable) (r : Run) : (t.mark r).total = t.total := rfl
@[simp] theorem HeapTable.wipe_total (t : HeapTable) (r : Run) : (t.wipe r).total = t.total := rfl
@[simp] theorem Heap.mark_saddr (h : Heap) (r : Run) : (h.mark r).saddr = h.saddr := rfl
@[simp] theorem Heap.wipe_saddr (h : Heap) (r : Run) : (h.wipe r).saddr = h.saddr := rfl
@[simp] theorem Heap.mark_table (h : Heap) (r : Run) : (h.mark r).table = h.table.mark r := rfl
@[simp] theorem Heap.wipe_table (h : Heap) (r : Run) : (h.wipe r).table = h.table.wipe r := rfl

theorem heapAddressToBlock_congr {h h' : Heap} (e : h.saddr = h'.saddr) (p : Nat) :
    heapAddressToBlock h p = heapAddressToBlock h' p := by
  unfold heapAddressToBlock
  rw [e]

/-- the marking of a run inside the table -/
theorem heapMarkBlocksTaken_ok (h : Heap) (r : Run) (hpos : 1 ≤ r.len)
    (hin : r.start + r.len ≤ h.table.total) :
    heapMarkBlocksTaken h r.start r.len = .ok (h.mark r) := by
  unfold heapMarkBlocksTaken
  have e1 : (r.start : Int) + r.len - 1 = ((r.start + r.len : Nat) : Int) - 1 := by omega
  have e2 : (((r.start + r.len : Nat) : Int) - 1 + 1 - r.start).toNat = r.len := by omega
  have hentry : (if (r.len : Int) > 1 then entryTaken ||| blockIsFirst ||| blockHasNext
      else entryTaken ||| blockIsFirst) = runCode r r.start := by
    unfold runCode
    by_cases h1 : r.len = 1
    · rw [if_pos h1, if_neg (by omega)]
      decide
    · rw [if_neg h1, if_pos rfl, if_pos (by omega)]
      decide
  have hloop := markTakenLoop_ok r r.len r.start (runCode r r.start) h.table (le_refl _) rfl hin
    (fun _ => rfl)
  simp only [e1, e2, hentry, hloop]
  rfl

/-- the marking of a run that leaves the table -/
theorem heapMarkBlocksTaken_fault (h : Heap) (b : Nat) (n : Nat) (hb : b ≤ h.table.total)
    (hout : h.table.total < b + n) : heapMarkBlocksTaken h b n = .error .outOfBounds := by
  unfold heapMarkBlocksTaken
  have e2 : ((b : Int) + n - 1 + 1 - b).toNat = n := by omega
  simp only [e2, markTakenLoop_fault _ n b _ h.table hb hout]
  rfl

/-! ## the release -/

theorem markFreeLoop_ok (r : Run) (fuel : Nat) : ∀ (j : Nat) (t : HeapTable),
    r.start ≤ j → j < r.start + r.len → r.start + r.len ≤ t.total → r.start + r.len ≤ j + fuel →
    (∀ i, j ≤ i → i < r.start + r.len → t.entries i = runCode r i) →
    markFreeLoop fuel j t = .ok (t.put j (r.start + r.len) (fun _ => 0)) := by
  induction fuel with
  | zero =>
    intro j t h1 h2 h3 h4
    omega
  | succ fuel ih =>
    intro j t h1 h2 h3 h4 hcode
    have hj : j < t.total := by omega
    have hm : r.Mem j := ⟨h1, h2⟩
    have hcons := HeapTable.put_cons t (fun _ => 0) h2
    unfold markFreeLoop
    rw [HeapTable.load_nat t hj, HeapTable.store_nat t hj, hcode j (le_refl j) h2]
    by_cases hlast : j + 1 = r.start + r.len
    · have h0 := (runCode_hasNext r j hm).mpr hlast
      rw [hlast, HeapTable.put_empty] at hcons
      rw [← hcons]
      show (if runCode r j &&& blockHasNext = 0 then _ else _) = _
      rw [if_pos h0]
      rfl
    · have h0 : ¬ runCode r j &&& blockHasNext = 0 := fun h => hlast ((runCode_hasNext r j hm).mp h)
      show (if runCode r j &&& blockHasNext = 0 then _ else _) = _
      rw [if_neg h0, ← hcons]
      refine ih (j + 1) _ (by omega) (by omega) h3 (by omega) (fun i hi hi' => ?_)
      show Function.update t.entries j 0 i = runCode r i
      rw [Function.update_of_ne (by omega)]
      exact hcode i (by omega) hi'

/-- the release of a run of the table -/
theorem heapMarkBlocksFree_ok (h : Heap) (r : Run) (hpos : 1 ≤ r.len)
    (hin : r.start + r.len ≤ h.table.total) (hbig : h.table.total < 2147483648)
    (hcode : ∀ i, r.Mem i → h.table.entries i = runCode r i) :
    heapMarkBlocksFree h r.start = .ok (h.wipe r) := by
  unfold heapMarkBlocksFree
  have hloop := markFreeLoop_ok r (h.table.total - r.start) r.start h.table (le_refl _) (by omega)
    hin (by omega) (fun i h1 h2 => hcode i ⟨h1, h2⟩)
  have e : (cint h.table.total - r.start).toNat = h.table.total - r.start := by
    rw [cint_nat hbig]
    omega
  rw [e, hloop]
  rfl

/-! ## tilings -/

namespace Tiled
variable {t : HeapTable} {L : List Run}

/-- a run marked in free entries is one more run of the table -/
theorem alloc (h : Tiled t L) (r : Run) (hpos : 1 ≤ r.len) (hw : Window t r.len r.start) :
    Tiled (t.mark r) (r :: L) := by
  have hfree : ∀ i, r.Mem i → ∀ r' ∈ L, ¬ r'.Mem i := fun i hi =>
    (h.free_iff (lt_of_lt_of_le hi.2 hw.1)).mp (hw.2 i hi.1 hi.2)
  refine ⟨?_, ?_, ?_, ?_, ?_⟩
  · intro r' hr'
    rcases List.mem_cons.mp hr' with rfl | hr'
    · exact hpos
    · exact h.pos r' hr'
  · intro r' hr'
    rcases List.mem_cons.mp hr' with rfl | hr'
    · exact hw.1
    · exact h.inside r' hr'
  · exact List.pairwise_cons.mpr ⟨fun r' hr' i hi hi' => hfree i hi r' hr' hi', h.separate⟩
  · intro r' hr' i hi
    rcases List.mem_cons.mp hr' with rfl | hr'
    · exact HeapTable.put_in t _ hi.1 hi.2
    · have hout : i < r.start ∨ r.start + r.len ≤ i := by
        by_contra hin
        exact hfree i ⟨by omega, by omega⟩ r' hr' hi
      rw [HeapTable.mark, HeapTable.put_out t _ hout]
      exact h.coded r' hr' i hi
  · intro i hi hno
    have hout : i < r.start ∨ r.start + r.len ≤ i := by
      by_contra hin
      exact hno r List.mem_cons_self ⟨by omega, by omega⟩
    rw [HeapTable.mark, HeapTable.put_out t _ hout]
    exact h.free i hi (fun r' hr' => hno r' (List.mem_cons_of_mem _ hr'))

/-- a run cleared is a run less -/
theorem release {r : Run} (h : Tiled t (r :: L)) : Tiled (t.wipe r) L := by
  have hsep := List.pairwise_cons.mp h.separate
  refine ⟨fun r' hr' => h.pos r' (List.mem_cons_of_mem _ hr'),
    fun r' hr' => h.inside r' (List.mem_cons_of_mem _ hr'), hsep.2, ?_, ?_⟩
  · intro r' hr' i hi
    have hout : i < r.start ∨ r.start + r.len ≤ i := by
      by_contra hin
      exact hsep.1 r' hr' i ⟨by omega, by omega⟩ hi
    rw [HeapTable.wipe, HeapTable.put_out t _ hout]
    exact h.coded r' (List.mem_cons_of_mem _ hr') i hi
  · intro i hi hno
    by_cases hin : r.Mem i
    · exact HeapTable.put_in t _ hin.1 hin.2
    · have hout : i < r.start ∨ r.start + r.len ≤ i := by
        by_contra hin'
        exact hin ⟨by omega, by omega⟩
      rw [HeapTable.wipe, HeapTable.put_out t _ hout]
      refine h.free i hi (fun r' hr' => ?_)
      rcases List.mem_cons.mp hr' with rfl | hr'
      · exact hin
      · exact hno r' hr'

end Tiled

/-! ## `heapMalloc` and `heapFree` -/

/-- the blocks that `size` bytes need -/
def blocksFor (size : Nat) : Nat := (size + 4095) / 4096

theorem blocksFor_pos {size : Nat} (h : 1 ≤ size) : 1 ≤ blocksFor size := by
  unfold blocksFor
  omega

theorem heapAlign_blocks {size : Nat} (h : size ≤ 4294963200) :
    heapAlignValueToUpper size / heapBlockSize = blocksFor size := by
  unfold heapAlignValueToUpper blocksFor cuint heapBlockSize
  split <;> omega

theorem heapMalloc_blocks (h : Heap) {size : Nat} (hsize : size ≤ 4294963200) :
    heapMalloc h size = heapMallocBlocks h (blocksFor size) := by
  unfold heapMalloc
  rw [heapAlign_blocks hsize]

theorem blocksFor_lt {size : Nat} (h : size ≤ 4294963200) : blocksFor size < 1048576 := by
  unfold blocksFor
  omega

/-- the least window is taken -/
theorem heapMallocBlocks_found (h : Heap) {n b : Nat} (hn : 1 ≤ n) (hbig : n < 2147483648)
    (hw : FirstWindow h.table n b) :
    heapMallocBlocks h n = .ok (heapBlockToAddress h b, h.mark ⟨b, n⟩) := by
  have hstart : startLoop h.table n h.table.total 0 0 (-1) = b := by
    generalize hr : startLoop h.table n h.table.total 0 0 (-1) = r
    have hs := startLoop_spec h.table n hn
    rw [hr] at hs
    cases hs with
    | found b' hb' => rw [hb'.unique hw]
    | none hno _ => exact absurd hw.1 (hno b)
    | tail b' hno _ _ _ => exact absurd hw.1 (hno b)
  have hmark := heapMarkBlocksTaken_ok h ⟨b, n⟩ hn hw.1.1
  unfold heapMallocBlocks heapGetStartBlock
  simp only [hstart]
  rw [if_neg (by omega : ¬ (b : Int) = -1), if_neg (by omega), cint_nat (by omega), hmark]
  rfl

/-- no window, and the last entry is taken: `NULL` -/
theorem heapMallocBlocks_none (h : Heap) {n : Nat} (hn : 1 ≤ n)
    (hno : ∀ b, ¬ Window h.table n b)
    (hlast : h.table.total = 0 ∨ ¬ Free h.table (h.table.total - 1)) :
    heapMallocBlocks h n = .ok (0, h) := by
  have hstart : startLoop h.table n h.table.total 0 0 (-1) = -1 := by
    generalize hr : startLoop h.table n h.table.total 0 0 (-1) = r
    have hs := startLoop_spec h.table n hn
    rw [hr] at hs
    cases hs with
    | found b' hb' => exact absurd hb'.1 (hno b')
    | none _ _ => rfl
    | tail b' _ h1 _ h3 =>
      rcases hlast with h0 | hnf
      · omega
      · exact absurd (h3 (h.table.total - 1) (by omega) (by omega)) hnf
  unfold heapMallocBlocks heapGetStartBlock
  rw [hstart]
  rfl

/-- no window, and the last entry is free: the marking leaves the table -/
theorem heapMallocBlocks_fault (h : Heap) {n : Nat} (hn : 1 ≤ n) (hbig : n < 1048576)
    (hno : ∀ b, ¬ Window h.table n b) (h0 : h.table.total ≠ 0)
    (hlast : Free h.table (h.table.total - 1)) :
    heapMallocBlocks h n = .error .outOfBounds := by
  have hstart : ∃ b : Nat, startLoop h.table n h.table.total 0 0 (-1) = b ∧
      b < h.table.total ∧ h.table.total < b + n := by
    generalize hr : startLoop h.table n h.table.total 0 0 (-1) = r
    have hs := startLoop_spec h.table n hn
    rw [hr] at hs
    cases hs with
    | found b' hb' => exact absurd hb'.1 (hno b')
    | none _ hl =>
      rcases hl with h0' | hnf
      · exact absurd h0' h0
      · exact absurd hlast hnf
    | tail b' _ h1 h2 _ => exact ⟨b', rfl, h1, h2⟩
  obtain ⟨b, hb, h1, h2⟩ := hstart
  unfold heapMallocBlocks heapGetStartBlock
  simp only [hb]
  rw [if_neg (by omega : ¬ (b : Int) = -1), if_neg (by omega), cint_nat (by omega),
    heapMarkBlocksTaken_fault h b n (by omega) h2]
  rfl

/-- the search for no blocks goes through the whole table -/
theorem startLoop_zero (t : HeapTable) (fuel : Nat) : ∀ (i bc : Nat) (bs : Int),
    i + fuel = t.total → Counted t i bc bs →
      ∃ bc', Counted t t.total bc' (startLoop t 0 fuel i bc bs) := by
  induction fuel with
  | zero =>
    intro i bc bs hi c
    obtain rfl : i = t.total := hi
    exact ⟨bc, c⟩
  | succ fuel ih =>
    intro i bc bs hi c
    unfold startLoop
    by_cases hf : Free t i
    · have hf' : ¬ heapGetEntryType (t.entries i) ≠ entryFree := not_not.mpr hf
      rw [if_neg hf', if_neg (Nat.succ_ne_zero bc)]
      exact ih (i + 1) (bc + 1) _ (by omega) (c.next hf)
    · have hf' : heapGetEntryType (t.entries i) ≠ entryFree := hf
      rw [if_pos hf']
      exact ih (i + 1) 0 (-1) (by omega) (Counted.taken hf)

/-- no block is taken, and the pointer is that of a free one -/
theorem heapMallocBlocks_nothing {h : Heap}
    (hlast : h.table.total ≠ 0 ∧ Free h.table (h.table.total - 1)) :
    ∃ b, b < h.table.total ∧ Free h.table b ∧
      heapMallocBlocks h 0 = .ok (heapBlockToAddress h b, h) := by
  obtain ⟨bc, c⟩ := startLoop_zero h.table h.table.total 0 0 (-1) (by omega) (Counted.zero h.table)
  have hle := c.le
  have hbc : bc ≠ 0 := by
    rintro rfl
    rcases c.stop with h0 | hnf
    · exact hlast.1 (by omega)
    · exact hnf hlast.2
  have hbs := c.start
  rw [if_neg hbc] at hbs
  have hmark : heapMarkBlocksTaken h ((h.table.total - bc : Nat) : Int) (cint (0 : Nat)) = .ok h := by
    unfold heapMarkBlocksTaken
    have e : (((h.table.total - bc : Nat) : Int) + cint (0 : Nat) - 1 + 1
        - ((h.table.total - bc : Nat) : Int)).toNat = 0 := by
      rw [cint_nat (by decide)]
      omega
    simp only [e]
    rfl
  refine ⟨h.table.total - bc, by omega, c.free _ (le_refl _) (by omega), ?_⟩
  unfold heapMallocBlocks heapGetStartBlock
  simp only [hbs]
  rw [if_neg (by omega : ¬ ((h.table.total - bc : Nat) : Int) = -1), if_neg (by omega), hmark]
  rfl

/-- no block is taken, and none is pointed to -/
theorem heapMallocBlocks_nothing_null {h : Heap}
    (hlast : h.table.total = 0 ∨ ¬ Free h.table (h.table.total - 1)) :
    heapMallocBlocks h 0 = .ok (0, h) := by
  obtain ⟨bc, c⟩ := startLoop_zero h.table h.table.total 0 0 (-1) (by omega) (Counted.zero h.table)
  have hle := c.le
  have hbc : bc = 0 := by
    by_contra hne
    rcases hlast with h0 | hnf
    · omega
    · exact hnf (c.free _ (by omega) (by omega))
  have hbs := c.start
  rw [if_pos hbc] at hbs
  unfold heapMallocBlocks heapGetStartBlock
  simp only [hbs]
  rfl

/-- a request for no blocks returns `NULL` or the address of a free block, and takes none -/
theorem heapMallocBlocks_zero (h : Heap) : ∃ p, heapMallocBlocks h 0 = .ok (p, h) ∧
    (p = 0 ∨ ∃ b, b < h.table.total ∧ Free h.table b ∧ p = heapBlockToAddress h b) := by
  by_cases hlast : h.table.total = 0 ∨ ¬ Free h.table (h.table.total - 1)
  · exact ⟨0, heapMallocBlocks_nothing_null hlast, Or.inl rfl⟩
  · obtain ⟨hne, hfree⟩ := not_or.mp hlast
    obtain ⟨b, hb, hf, hrun⟩ := heapMallocBlocks_nothing ⟨hne, not_not.mp hfree⟩
    exact ⟨_, hrun, Or.inr ⟨b, hb, hf, rfl⟩⟩

/-- blocks in the first 2 GiB of the heap are found again by their address -/
theorem heapAddressToBlock_low (h : Heap) {b : Nat} (hb : b < 524288) :
    heapAddressToBlock h (heapBlockToAddress h b) = b := by
  have e : cint ((heapBlockToAddress h b : Int) - h.saddr) = (b * 4096 : Nat) := by
    unfold heapBlockToAddress cuint cint heapBlockSize
    rw [Int.bmod_def]
    push_cast
    split <;> omega
  unfold heapAddressToBlock
  rw [e, Int.natCast_tdiv_eq_ediv]
  show ((b * 4096 : Nat) : Int) / 4096 = b
  omega

/-- the address of a higher block is taken for one before the heap -/
theorem heapAddressToBlock_high (h : Heap) {b : Nat} (hb : 524288 ≤ b) (hb' : b < 1048576) :
    heapAddressToBlock h (heapBlockToAddress h b) < 0 := by
  have e : cint ((heapBlockToAddress h b : Int) - h.saddr) = (b * 4096 : Int) - 4294967296 := by
    unfold heapBlockToAddress cuint cint heapBlockSize
    rw [Int.bmod_def]
    push_cast
    split <;> omega
  unfold heapAddressToBlock
  rw [e]
  have e' : (b * 4096 : Int) - 4294967296 = -((1048576 - b : Nat) * 4096 : Int) := by omega
  rw [e', Int.neg_tdiv]
  have : ((1048576 - b : Nat) * 4096 : Int).tdiv (heapBlockSize : Nat) = (1048576 - b : Nat) := by
    unfold heapBlockSize
    exact Int.mul_tdiv_cancel _ (by decide)
  omega

/-- the release of a free block changes nothing -/
theorem heapMarkBlocksFree_free {h : Heap} {L : List Run} (ht : Tiled h.table L)
    (hbig : h.table.total < 2147483648) {b : Nat} (hb : b < h.table.total)
    (hf : Free h.table b) : heapMarkBlocksFree h b = .ok h := by
  have h0 : h.table.entries b = 0 := (ht.free_iff_zero hb).mp hf
  have hsame : Function.update h.table.entries b entryFree = h.table.entries := by
    have e : h.table.entries b = entryFree := h0
    rw [← e, Function.update_eq_self]
  obtain ⟨n, hn⟩ : ∃ n, (cint h.table.total - (b : Int)).toNat = n + 1 := by
    rw [cint_nat hbig]
    exact ⟨h.table.total - b - 1, by omega⟩
  unfold heapMarkBlocksFree
  rw [hn]
  unfold markFreeLoop
  rw [h.table.load_nat hb, h.table.store_nat hb, hsame, h0]
  rfl

/-- the release of a run by its address -/
theorem heapFree_ok (h : Heap) (r : Run) {p : Nat} (hp : heapAddressToBlock h p = r.start)
    (hpos : 1 ≤ r.len) (hin : r.start + r.len ≤ h.table.total)
    (hbig : h.table.total < 2147483648)
    (hcode : ∀ i, r.Mem i → h.table.entries i = runCode r i) :
    heapFree h p = .ok (h.wipe r) := by
  unfold heapFree
  rw [hp]
  exact heapMarkBlocksFree_ok h r hpos hin hbig hcode

end LameOS
