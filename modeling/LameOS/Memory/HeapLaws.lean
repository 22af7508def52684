import LameOS.Memory.HeapRun
import LameOS.Memory.Kheap

/-!
# Single calls of the heap

What one call of `heap_malloc` or `heap_free` does to any table; a table of a heap has fewer than
`2^20` entries, `heap_check_table` accepts no other.

* `heap_refuses_iff`      a request without a window is refused exactly when the last entry is taken;
* `heap_first_fit`        a request with a window takes the least one;
* `heap_free_iff`         a chain is released, and a release undoes an allocation, exactly when it
                          starts in the first 2 GiB;
* `heap_malloc_owned_iff` what a pointer owns: exactly when the search for the request ends well;
* `heap_free_harmless_iff`   which pointers `heap_free` leaves the table alone for.
-/

set_option linter.unusedVariables false

namespace LameOS
open Lib

/-! ## requests without a window -/

/-- the request for `n` blocks is refused, and the table is left alone -/
structure Refused (h : Heap) (n : Nat) : Prop where
  startBlock : heapGetStartBlock h n = -ENOMEM
  mallocBlocks : heapMallocBlocks h n = .ok (0, h)
  malloc : ∀ size, heapAlignValueToUpper size / heapBlockSize = n → heapMalloc h size = .ok (0, h)

/-- **A request without a window** -/
theorem heap_refuses_iff (h : Heap) {n : Nat} (hn : 1 ≤ n) (hno : ∀ b, ¬ Window h.table n b) :
    Refused h n ↔ h.table.total = 0 ∨ ¬ Free h.table (h.table.total - 1) := by
  constructor
  · intro hr
    have hs := startLoop_spec h.table n hn
    have hstart := hr.startBlock
    unfold heapGetStartBlock at hstart
    generalize startLoop h.table n h.table.total 0 0 (-1) = bs at hs hstart
    cases hs with
    | found b hb => exact absurd hb.1 (hno b)
    | none _ hlast => exact hlast
    | tail b _ _ _ _ =>
      dsimp only at hstart
      rw [if_neg (by omega)] at hstart
      have hneg : -ENOMEM < 0 := by decide
      omega
  · intro hlast
    have hblocks := heapMallocBlocks_none h hn hno hlast
    refine ⟨?_, hblocks, fun size hsize => ?_⟩
    · have hs := startLoop_spec h.table n hn
      unfold heapGetStartBlock
      generalize startLoop h.table n h.table.total 0 0 (-1) = bs at hs
      cases hs with
      | found b hb => exact absurd hb.1 (hno b)
      | none _ _ => rfl
      | tail b _ h1 _ h3 =>
        rcases hlast with h0 | hnf
        · omega
        · exact absurd (h3 (h.table.total - 1) (by omega) (by omega)) hnf
    · unfold heapMalloc
      rw [hsize, hblocks]

/-- a table of two entries, the second of them taken -/
def lastTaken : Heap := ⟨⟨fun i => if i = 1 then 0x41 else 0, 2⟩, 0x1000000⟩

theorem heap_refuses_iff_lastTaken : Refused lastTaken 2 ↔
    lastTaken.table.total = 0 ∨ ¬ Free lastTaken.table (lastTaken.table.total - 1) := by
  refine heap_refuses_iff lastTaken (by decide) (fun b hb => ?_)
  obtain rfl : b = 0 := by
    have hin : b + 2 ≤ 2 := hb.1
    omega
  exact absurd (hb.2 1 (by decide) (by decide)) (by decide)

/-- three blocks from a heap of two free ones: the search ends with block 0 -/
theorem request_not_refused : ¬ ∀ (h : Heap) (n : Nat), 1 ≤ n → (∀ b, ¬ Window h.table n b) →
    Refused h n := by
  intro hall
  have hno : ∀ b, ¬ Window twoBlocks.table 3 b := by
    intro b hb
    have hin : b + 3 ≤ 2 := hb.1
    omega
  have hstart := (hall twoBlocks 3 (by decide) hno).startBlock
  revert hstart
  decide

/-! ## requests with a window -/

/-- **First fit.**  The least window is taken, as one chain; no other entry changes. -/
theorem heap_first_fit (h : Heap) (hint : h.table.total < 2147483648) {n : Nat} (hn : 1 ≤ n)
    (hsome : ∃ b, Window h.table n b) : ∃ s h',
      Window h.table n s ∧ (∀ b < s, ¬ Window h.table n b) ∧
      heapMallocBlocks h n = .ok ((h.saddr + s * 4096) % 4294967296, h') ∧
      h'.saddr = h.saddr ∧ h'.table.total = h.table.total ∧
      (∀ i, s ≤ i → i < s + n → h'.table.entries i = runCode ⟨s, n⟩ i) ∧
      ∀ i, i < s ∨ s + n ≤ i → h'.table.entries i = h.table.entries i := by
  rcases firstWindow_or_not h.table n with ⟨s, hw⟩ | hno
  · have hin := hw.1.1
    have hrun := heapMallocBlocks_found h hn (by omega) hw
    rw [heapBlockToAddress_eq] at hrun
    refine ⟨s, h.mark ⟨s, n⟩, hw.1, hw.2, hrun, rfl, rfl, fun i h1 h2 => ?_, fun i hi => ?_⟩
    · exact HeapTable.put_in h.table (runCode ⟨s, n⟩) h1 h2
    · exact HeapTable.put_out h.table (runCode ⟨s, n⟩) hi
  · obtain ⟨b, hb⟩ := hsome
    exact absurd hb (hno b)

theorem heap_first_fit_lastTaken : ∃ s h',
    Window lastTaken.table 1 s ∧ (∀ b < s, ¬ Window lastTaken.table 1 b) ∧
      heapMallocBlocks lastTaken 1 = .ok ((lastTaken.saddr + s * 4096) % 4294967296, h') ∧
      h'.saddr = lastTaken.saddr ∧ h'.table.total = lastTaken.table.total ∧
      (∀ i, s ≤ i → i < s + 1 → h'.table.entries i = runCode ⟨s, 1⟩ i) ∧
      ∀ i, i < s ∨ s + 1 ≤ i → h'.table.entries i = lastTaken.table.entries i := by
  refine heap_first_fit lastTaken (by decide) (le_refl 1) ⟨0, by decide, fun i h1 h2 => ?_⟩
  obtain rfl : i = 0 := by omega
  decide

/-! ## releases -/

/-- `heap_free` of the pointer clears the entries of the run, and no other -/
def Clears (h : Heap) (r : Run) (p : Nat) : Prop :=
  ∃ h', heapFree h p = .ok h' ∧ h'.saddr = h.saddr ∧ h'.table.total = h.table.total ∧
    (∀ i, r.Mem i → h'.table.entries i = 0) ∧
    ∀ i, ¬ r.Mem i → h'.table.entries i = h.table.entries i

section
variable {h : Heap} {L : List Run} {r : Run}

theorem wipe_in {i : Nat} (hi : r.Mem i) : (h.wipe r).table.entries i = 0 :=
  HeapTable.put_in h.table (fun _ => 0) hi.1 hi.2

theorem wipe_out {i : Nat} (hi : ¬ r.Mem i) : (h.wipe r).table.entries i = h.table.entries i := by
  refine HeapTable.put_out h.table (fun _ => 0) ?_
  unfold Run.Mem at hi
  omega

/-- a pointer that is taken for a block before the table -/
theorem heapFree_below {p : Nat} (hp : heapAddressToBlock h p < 0)
    (hint : h.table.total < 2147483648) : heapFree h p = .error .outOfBounds := by
  obtain ⟨fuel, hfuel⟩ : ∃ fuel, (cint h.table.total - heapAddressToBlock h p).toNat = fuel + 1 := by
    rw [cint_nat hint]
    exact ⟨(h.table.total - heapAddressToBlock h p).toNat - 1, by omega⟩
  unfold heapFree heapMarkBlocksFree
  rw [hfuel]
  unfold markFreeLoop
  rw [HeapTable.load_out h.table (Or.inl hp)]
  rfl

theorem heapFree_chain (ht : Tiled h.table L) (htot : h.table.total < 1048576) (hr : r ∈ L)
    (hlow : r.start < 524288) : heapFree h (heapBlockToAddress h r.start) = .ok (h.wipe r) :=
  heapFree_ok h r (heapAddressToBlock_low h hlow) (ht.pos r hr) (ht.inside r hr)
    (lt_trans htot (by decide)) (ht.coded r hr)

theorem heapFree_high (htot : h.table.total < 1048576) {b : Nat} (hb : 524288 ≤ b)
    (hin : b < h.table.total) : heapFree h (heapBlockToAddress h b) = .error .outOfBounds :=
  heapFree_below (heapAddressToBlock_high h hb (lt_trans hin htot)) (lt_trans htot (by decide))

theorem chain_start_lt (ht : Tiled h.table L) (hr : r ∈ L) : r.start < h.table.total := by
  have hpos := ht.pos r hr
  have hin := ht.inside r hr
  omega

/-- the release of a chain -/
theorem clears_iff (ht : Tiled h.table L) (htot : h.table.total < 1048576) (hr : r ∈ L) :
    Clears h r (heapBlockToAddress h r.start) ↔ r.start < 524288 := by
  constructor
  · rintro ⟨h', hrun, -⟩
    by_contra hhigh
    rw [heapFree_high htot (by omega) (chain_start_lt ht hr)] at hrun
    cases hrun
  · intro hlow
    exact ⟨h.wipe r, heapFree_chain ht htot hr hlow, rfl, rfl, fun i hi => wipe_in hi,
      fun i hi => wipe_out hi⟩

/-- what the marking has changed, the release changes back -/
theorem wipe_mark (ht : Tiled h.table L) (hw : Window h.table r.len r.start) :
    (h.mark r).wipe r = h := by
  have hentries : ((h.mark r).wipe r).table.entries = h.table.entries := by
    funext i
    by_cases hi : r.Mem i
    · have hlt : i < h.table.total := lt_of_lt_of_le hi.2 hw.1
      rw [wipe_in hi, (ht.free_iff_zero hlt).mp (hw.2 i hi.1 hi.2)]
    · rw [wipe_out hi]
      refine HeapTable.put_out h.table (runCode r) ?_
      unfold Run.Mem at hi
      omega
  obtain ⟨⟨e, n⟩, a⟩ := h
  exact congrArg (fun e => (⟨⟨e, n⟩, a⟩ : Heap)) hentries

/-- two releases commute -/
theorem wipe_comm (h : Heap) (r r' : Run) : (h.wipe r).wipe r' = (h.wipe r').wipe r := by
  have hentries : ((h.wipe r).wipe r').table.entries = ((h.wipe r').wipe r).table.entries := by
    funext i
    by_cases hi : r.Mem i
    · by_cases hi' : r'.Mem i
      · rw [wipe_in hi', wipe_in hi]
      · rw [wipe_out hi', wipe_in hi, wipe_in hi]
    · by_cases hi' : r'.Mem i
      · rw [wipe_in hi', wipe_out hi, wipe_in hi']
      · rw [wipe_out hi', wipe_out hi, wipe_out hi, wipe_out hi']
  obtain ⟨⟨e, n⟩, a⟩ := h
  exact congrArg (fun e => (⟨⟨e, n⟩, a⟩ : Heap)) hentries

end

/-! ## requests of any size -/

section
variable {h h' : Heap} {size p : Nat}

/-- **What a call of `heap_malloc` can do** -/
theorem heapMalloc_cases (hsize : size < 4294967296) (hrun : heapMalloc h size = .ok (p, h')) :
    (∃ b, 1 ≤ mallocBlocks size ∧ FirstWindow h.table (mallocBlocks size) b ∧
      p = heapBlockToAddress h b ∧ h' = h.mark ⟨b, mallocBlocks size⟩) ∨
    (h' = h ∧ p = 0) ∨
    (h' = h ∧ mallocBlocks size = 0 ∧ ∃ b, b < h.table.total ∧ Free h.table b ∧
      p = heapBlockToAddress h b) := by
  have hrun : heapMallocBlocks h (mallocBlocks size) = .ok (p, h') := hrun
  have hbig : mallocBlocks size < 2147483648 := lt_trans (mallocBlocks_lt size hsize) (by decide)
  by_cases hlast : h.table.total = 0 ∨ ¬ Free h.table (h.table.total - 1)
  · rcases Nat.eq_zero_or_pos (mallocBlocks size) with h0 | hn
    · rw [h0, heapMallocBlocks_nothing_null hlast] at hrun
      obtain ⟨rfl, rfl⟩ := Prod.mk.inj (Except.ok.inj hrun)
      exact Or.inr (Or.inl ⟨rfl, rfl⟩)
    · rcases firstWindow_or_not h.table (mallocBlocks size) with ⟨b, hw⟩ | hno
      · rw [heapMallocBlocks_found h hn hbig hw] at hrun
        obtain ⟨rfl, rfl⟩ := Prod.mk.inj (Except.ok.inj hrun)
        exact Or.inl ⟨b, hn, hw, rfl, rfl⟩
      · rw [heapMallocBlocks_none h hn hno hlast] at hrun
        obtain ⟨rfl, rfl⟩ := Prod.mk.inj (Except.ok.inj hrun)
        exact Or.inr (Or.inl ⟨rfl, rfl⟩)
  · obtain ⟨hne, hfree⟩ := not_or.mp hlast
    have hfree := not_not.mp hfree
    rcases Nat.eq_zero_or_pos (mallocBlocks size) with h0 | hn
    · obtain ⟨b, hb, hf, hzero⟩ := heapMallocBlocks_nothing ⟨hne, hfree⟩
      rw [h0, hzero] at hrun
      obtain ⟨rfl, rfl⟩ := Prod.mk.inj (Except.ok.inj hrun)
      exact Or.inr (Or.inr ⟨rfl, h0, b, hb, hf, rfl⟩)
    · rcases firstWindow_or_not h.table (mallocBlocks size) with ⟨b, hw⟩ | hno
      · rw [heapMallocBlocks_found h hn hbig hw] at hrun
        obtain ⟨rfl, rfl⟩ := Prod.mk.inj (Except.ok.inj hrun)
        exact Or.inl ⟨b, hn, hw, rfl, rfl⟩
      · rw [heapMallocBlocks_fault h hn (mallocBlocks_lt size hsize) hno hne hfree] at hrun
        cases hrun

end

/-! ## allocation and release -/

/-- one pointer is released after the other -/
def heapFreeBoth (h : Heap) (p q : Nat) : Except Fault Heap := do
  let h ← heapFree h p
  heapFree h q

section
variable {h : Heap} {L : List Run} {r r' : Run}

theorem heapFreeBoth_chains (ht : Tiled h.table L) (htot : h.table.total < 1048576) (hr : r ∈ L)
    (hr' : r' ∈ L) (hne : r ≠ r') (hlow : r.start < 524288) (hlow' : r'.start < 524288) :
    heapFreeBoth h (heapBlockToAddress h r.start) (heapBlockToAddress h r'.start)
      = .ok ((h.wipe r).wipe r') := by
  have hrest : Tiled (h.wipe r).table (L.erase r) := (ht.perm (List.perm_cons_erase hr)).release
  have hmem : r' ∈ L.erase r := (List.mem_erase_of_ne (fun e => hne e.symm)).mpr hr'
  have hsecond := heapFree_chain hrest htot hmem hlow'
  have hback : heapBlockToAddress (h.wipe r) r'.start = heapBlockToAddress h r'.start := rfl
  rw [hback] at hsecond
  unfold heapFreeBoth
  rw [heapFree_chain ht htot hr hlow, Exec.ok_bind, hsecond]

theorem heapFreeBoth_high (ht : Tiled h.table L) (htot : h.table.total < 1048576) (hr : r ∈ L)
    (hhigh : 524288 ≤ r.start) (q : Nat) :
    heapFreeBoth h (heapBlockToAddress h r.start) q = .error .outOfBounds := by
  unfold heapFreeBoth
  rw [heapFree_high htot hhigh (chain_start_lt ht hr)]
  rfl

end

/-- **Chains and their release.**  In a table of free entries and chains: `heap_free` of a chain's
address clears exactly the chain; `heap_free` of what `heap_malloc` has returned restores the heap;
two chains can be released in either order.  Each holds exactly for blocks in the first 2 GiB. -/
theorem heap_free_iff {h : Heap} {L : List Run} (ht : Tiled h.table L)
    (htot : h.table.total < 1048576) :
    (∀ r ∈ L, Clears h r (heapBlockToAddress h r.start) ↔ r.start < 524288) ∧
    (∀ size p h', size < 4294967296 → heapMalloc h size = .ok (p, h') → p ≠ 0 →
      1 ≤ mallocBlocks size → ∃ b, FirstWindow h.table (mallocBlocks size) b ∧
        p = heapBlockToAddress h b ∧ (heapFree h' p = .ok h ↔ b < 524288)) ∧
    ∀ r ∈ L, ∀ r' ∈ L, r ≠ r' →
      ((∃ h', heapFreeBoth h (heapBlockToAddress h r.start) (heapBlockToAddress h r'.start) = .ok h' ∧
          heapFreeBoth h (heapBlockToAddress h r'.start) (heapBlockToAddress h r.start) = .ok h') ↔
        r.start < 524288 ∧ r'.start < 524288) := by
  refine ⟨fun r hr => clears_iff ht htot hr, fun size p h' hsize hrun hp hn => ?_,
    fun r hr r' hr' hne => ?_⟩
  · rcases heapMalloc_cases hsize hrun with ⟨b, -, hw, rfl, rfl⟩ | ⟨-, h0⟩ | ⟨-, h0, -⟩
    · refine ⟨b, hw, rfl, ?_⟩
      have hin := hw.1.1
      have hback : heapBlockToAddress (h.mark ⟨b, mallocBlocks size⟩) b = heapBlockToAddress h b := rfl
      have htot' : (h.mark ⟨b, mallocBlocks size⟩).table.total < 1048576 := htot
      constructor
      · intro hfree
        by_contra hhigh
        have hblock : b < (h.mark ⟨b, mallocBlocks size⟩).table.total := by
          show b < h.table.total
          omega
        have hbad := heapFree_high htot' (Nat.le_of_not_lt hhigh) hblock
        rw [hback, hfree] at hbad
        cases hbad
      · intro hlow
        have hrel := heapFree_chain (ht.alloc ⟨b, mallocBlocks size⟩ hn hw.1) htot'
          List.mem_cons_self hlow
        rw [wipe_mark ht hw.1] at hrel
        exact hrel
    · exact absurd h0 hp
    · omega
  · constructor
    · rintro ⟨h', hrun, hrun'⟩
      refine ⟨?_, ?_⟩
      · by_contra hhigh
        rw [heapFreeBoth_high ht htot hr (by omega)] at hrun
        cases hrun
      · by_contra hhigh
        rw [heapFreeBoth_high ht htot hr' (by omega)] at hrun'
        cases hrun'
    · rintro ⟨hlow, hlow'⟩
      refine ⟨(h.wipe r).wipe r', heapFreeBoth_chains ht htot hr hr' hne hlow hlow', ?_⟩
      rw [wipe_comm]
      exact heapFreeBoth_chains ht htot hr' hr (fun e => hne e.symm) hlow' hlow

theorem lastTaken_tiled : Tiled lastTaken.table [⟨1, 1⟩] where
  pos r hr := by
    obtain rfl := List.mem_singleton.mp hr
    exact le_refl 1
  inside r hr := by
    obtain rfl := List.mem_singleton.mp hr
    exact le_refl 2
  separate := List.pairwise_singleton _ _
  coded r hr i hi := by
    obtain rfl := List.mem_singleton.mp hr
    obtain rfl : i = 1 := by
      have h1 : 1 ≤ i := hi.1
      have h2 : i < 1 + 1 := hi.2
      omega
    rfl
  free i hi hout := by
    have hne : i ≠ 1 := by
      rintro rfl
      exact hout _ (List.mem_singleton_self _) ⟨le_refl 1, by decide⟩
    exact if_neg hne

theorem heap_free_iff_lastTaken :
    Clears lastTaken ⟨1, 1⟩ (heapBlockToAddress lastTaken 1) ↔ 1 < 524288 :=
  (heap_free_iff lastTaken_tiled (by decide)).1 ⟨1, 1⟩ (List.mem_singleton_self _)

/-- the last block of a heap of 2 GiB and one block, from `0x1000` on -/
def highBlock : Heap := ⟨⟨fun i => if i = 524288 then 0x41 else 0, 524289⟩, 0x1000⟩

theorem highBlock_tiled : Tiled highBlock.table [⟨524288, 1⟩] where
  pos r hr := by
    obtain rfl := List.mem_singleton.mp hr
    exact le_refl 1
  inside r hr := by
    obtain rfl := List.mem_singleton.mp hr
    exact le_refl 524289
  separate := List.pairwise_singleton _ _
  coded r hr i hi := by
    obtain rfl := List.mem_singleton.mp hr
    obtain rfl : i = 524288 := by
      have h1 : 524288 ≤ i := hi.1
      have h2 : i < 524288 + 1 := hi.2
      omega
    rfl
  free i hi hout := by
    have hne : i ≠ 524288 := by
      rintro rfl
      exact hout _ (List.mem_singleton_self _) ⟨le_refl _, by decide⟩
    exact if_neg hne

/-- the address of block 524288 is taken for one before the heap -/
theorem high_block_not_freed : Tiled highBlock.table [⟨524288, 1⟩] ∧
    ¬ Clears highBlock ⟨524288, 1⟩ (heapBlockToAddress highBlock 524288) := by
  refine ⟨highBlock_tiled, ?_⟩
  rintro ⟨h', hrun, -⟩
  have htot : highBlock.table.total < 1048576 := by decide
  have hin : 524288 < highBlock.table.total := by decide
  rw [heapFree_high htot (le_refl _) hin] at hrun
  cases hrun

/-! ## what a pointer owns -/

/-- a heap whose blocks are addresses, none of them `NULL` -/
structure HeapOk (h : Heap) (L : List Run) : Prop where
  tiled : Tiled h.table L
  total : h.table.total < 1048576
  saddr : 0 < h.saddr
  fits : h.saddr + h.table.total * 4096 ≤ 4294967296

/-- a call of the heap -/
def opStep (h : Heap) : HeapOp → Except Fault Heap
  | .malloc size => do
    let (_, h) ← heapMalloc h size
    return h
  | .free p => heapFree h p

/-- any request, and the release of any pointer that is none of the run -/
def Leaves (r : Run) (h : Heap) : HeapOp → Prop
  | .malloc size => size < 4294967296
  | .free p => ∀ i, r.Mem i → heapAddressToBlock h p ≠ i

/-- no request returns the pointer -/
def NotReturned (p : Nat) (h : Heap) : Prop :=
  ∀ size q h', size < 4294967296 → heapMalloc h size = .ok (q, h') → q ≠ p

/-- `heap_malloc` returns, and a pointer that is not `NULL` has got blocks of its own, enough for
the size and free before, which no later request returns while they are not released -/
def MallocOwned (h : Heap) (L : List Run) (size : Nat) : Prop :=
  ∃ p h', heapMalloc h size = .ok (p, h') ∧ (p ≠ 0 → ∃ b n, 1 ≤ n ∧ size ≤ n * 4096 ∧
    p = h.saddr + b * 4096 ∧ Window h.table n b ∧ Tiled h'.table (⟨b, n⟩ :: L) ∧
    ∀ ops, Meets opStep (Leaves ⟨b, n⟩) h' ops →
      Throughout opStep (NotReturned p) (fun _ _ => True) h' ops)

/-- the run is taken, and no chain reaches it from below -/
structure Kept (r : Run) (t : HeapTable) : Prop where
  coded : ∀ i, r.Mem i → t.entries i = runCode r i
  before : ∀ k, k + 1 = r.start → t.entries k &&& blockHasNext = 0

section
variable {r : Run} {t t' : HeapTable} {h h' h0 : Heap}

theorem Kept.not_free (h : Kept r t) {i : Nat} (hi : r.Mem i) : ¬ Free t i := by
  unfold Free
  rw [h.coded i hi]
  exact runCode_taken r i

theorem Kept.of_tiled {L : List Run} (ht : Tiled t L) (hr : r ∈ L) : Kept r t where
  coded := ht.coded r hr
  before k hk := by
    have hstart := ht.pos r hr
    have hin := ht.inside r hr
    by_cases hfree : ∀ r' ∈ L, ¬ r'.Mem k
    · rw [ht.free k (by omega) hfree]
      rfl
    · push Not at hfree
      obtain ⟨r', hr', hm⟩ := hfree
      rw [ht.coded r' hr' k hm, runCode_hasNext r' k hm]
      -- the chain ends there: block `k + 1` is another one's
      by_contra hne
      have hm' : r'.Mem (k + 1) := by
        obtain ⟨h1, h2⟩ := hm
        exact ⟨by omega, by omega⟩
      have hmr : r.Mem (k + 1) := ⟨by omega, by omega⟩
      obtain rfl := ht.separate.eq_of_mem hr' hr hm' hmr
      have := hm.1
      omega

theorem Kept.mark (h : Kept r t) {n b : Nat} (hpos : 1 ≤ r.len) (hw : Window t n b) :
    Kept r (t.mark ⟨b, n⟩) := by
  have hout : ∀ i, r.Mem i → i < b ∨ b + n ≤ i := by
    intro i hi
    by_contra hin
    exact h.not_free hi (hw.2 i (by omega) (by omega))
  refine ⟨fun i hi => ?_, fun k hk => ?_⟩
  · exact (HeapTable.put_out t (runCode ⟨b, n⟩) (hout i hi)).trans (h.coded i hi)
  · by_cases hin : b ≤ k ∧ k < b + n
    · have hlast := hout (k + 1) ⟨by omega, by omega⟩
      have hcode : (t.mark ⟨b, n⟩).entries k = runCode ⟨b, n⟩ k :=
        HeapTable.put_in t (runCode ⟨b, n⟩) hin.1 hin.2
      rw [hcode, runCode_hasNext ⟨b, n⟩ k hin]
      show k + 1 = b + n
      omega
    · have hcode : (t.mark ⟨b, n⟩).entries k = t.entries k :=
        HeapTable.put_out t (runCode ⟨b, n⟩) (show k < b ∨ b + n ≤ k by omega)
      rw [hcode]
      exact h.before k hk

/-- one entry outside the run is cleared -/
theorem Kept.clear (h : Kept r t) {i : Nat} (hi : ¬ r.Mem i) :
    Kept r { t with entries := Function.update t.entries i entryFree } := by
  refine ⟨fun j hj => ?_, fun k hk => ?_⟩
  · have hne : j ≠ i := by
      rintro rfl
      exact hi hj
    exact (Function.update_of_ne hne _ _).trans (h.coded j hj)
  · by_cases e : k = i
    · have hz : Function.update t.entries i entryFree k = 0 := by
        rw [e, Function.update_self]
      show Function.update t.entries i entryFree k &&& blockHasNext = 0
      rw [hz]
      rfl
    · have hsame : Function.update t.entries i entryFree k = t.entries k := Function.update_of_ne e _ _
      show Function.update t.entries i entryFree k &&& blockHasNext = 0
      rw [hsame]
      exact h.before k hk

/-- a release from outside the run does not reach it -/
theorem markFreeLoop_kept (hpos : 1 ≤ r.len) (fuel : Nat) : ∀ (i : Int) (t : HeapTable), Kept r t →
    (∀ j, r.Mem j → i ≠ j) → markFreeLoop fuel i t = .ok t' → Kept r t' ∧ t'.total = t.total := by
  induction fuel with
  | zero =>
    intro i t hk hi hrun
    obtain rfl : t = t' := Except.ok.inj hrun
    exact ⟨hk, rfl⟩
  | succ fuel ih =>
    intro i t hk hi hrun
    unfold markFreeLoop at hrun
    by_cases hin : 0 ≤ i ∧ i < t.total
    · obtain ⟨j, rfl⟩ := Int.eq_ofNat_of_zero_le hin.1
      have hj : j < t.total := by omega
      have hout : ¬ r.Mem j := fun hm => hi j hm rfl
      have hk' := hk.clear hout
      rw [HeapTable.load_nat t hj, Exec.ok_bind, HeapTable.store_nat t hj, Exec.ok_bind] at hrun
      by_cases hnext : t.entries j &&& blockHasNext = 0
      · rw [if_pos hnext] at hrun
        obtain rfl := Except.ok.inj hrun
        exact ⟨hk', rfl⟩
      · rw [if_neg hnext] at hrun
        have hnot : ∀ m, r.Mem m → ((j : Int) + 1) ≠ m := by
          intro m hm e
          have e : m = j + 1 := by omega
          subst e
          by_cases hs : j + 1 = r.start
          · exact hnext (hk.before j hs)
          · exact hout ⟨by have := hm.1; omega, by have := hm.2; omega⟩
        obtain ⟨hkept, htotal⟩ := ih _ _ hk' hnot hrun
        exact ⟨hkept, htotal⟩
    · rw [HeapTable.load_out t (by omega)] at hrun
      cases hrun

end

/-- the run is kept in a heap of the same blocks -/
structure KeptIn (r : Run) (h0 h : Heap) : Prop where
  kept : Kept r h.table
  saddr : h.saddr = h0.saddr
  total : h.table.total = h0.table.total

section
variable {r : Run} {h h' h0 : Heap}

/-- one call -/
theorem KeptIn.step (hpos : 1 ≤ r.len) {op : HeapOp} (hk : KeptIn r h0 h) (hop : Leaves r h op)
    (hrun : opStep h op = .ok h') : KeptIn r h0 h' := by
  cases op with
  | malloc size =>
    unfold opStep at hrun
    dsimp only at hrun
    cases hm : heapMalloc h size with
    | error e =>
      rw [hm] at hrun
      cases hrun
    | ok x =>
      rw [hm] at hrun
      obtain rfl : x.2 = h' := Except.ok.inj hrun
      rcases heapMalloc_cases hop hm with ⟨b, -, hw, -, e⟩ | ⟨e, -⟩ | ⟨e, -⟩
      · rw [e]
        exact ⟨hk.kept.mark hpos hw.1, hk.saddr, hk.total⟩
      · rw [e]
        exact hk
      · rw [e]
        exact hk
  | free p =>
    have hrun : heapMarkBlocksFree h (heapAddressToBlock h p) = .ok h' := hrun
    unfold heapMarkBlocksFree at hrun
    cases hm : markFreeLoop (cint h.table.total - heapAddressToBlock h p).toNat
        (heapAddressToBlock h p) h.table with
    | error e =>
      rw [hm] at hrun
      cases hrun
    | ok t =>
      rw [hm] at hrun
      obtain rfl := Except.ok.inj hrun
      obtain ⟨hkept, htotal⟩ := markFreeLoop_kept hpos _ _ _ hk.kept hop hm
      exact ⟨hkept, hk.saddr, htotal.trans hk.total⟩

/-- a request does not return the address of a run that is kept -/
theorem KeptIn.notReturned {L : List Run} (hok : HeapOk h0 L) (hpos : 1 ≤ r.len)
    (hin : r.start + r.len ≤ h0.table.total) (hk : KeptIn r h0 h) :
    NotReturned (h0.saddr + r.start * 4096) h := by
  intro size q h' hsize hrun e
  have hfits := hok.fits
  have hsaddr := hok.saddr
  have hblock : ∀ b, b < h.table.total → Free h.table b → q = heapBlockToAddress h b → False := by
    intro b hb hf hq
    rw [hk.total] at hb
    rw [heapBlockToAddress_eq, hk.saddr, Nat.mod_eq_of_lt (by omega)] at hq
    obtain rfl : b = r.start := by omega
    exact hk.kept.not_free (Run.mem_start hpos) hf
  rcases heapMalloc_cases hsize hrun with ⟨b, hn, hw, hq, -⟩ | ⟨-, h0⟩ | ⟨-, -, b, hb, hf, hq⟩
  · have hlt := hw.1.1
    exact hblock b (by omega) (hw.1.2 b (le_refl b) (by omega)) hq
  · omega
  · exact hblock b hb hf hq

end

/-- the sizes that ask for blocks -/
theorem mallocBlocks_pos_iff {size : Nat} (hsize : size < 4294967296) :
    1 ≤ mallocBlocks size ↔ 1 ≤ size ∧ size ≤ 0xFFFFF000 := by
  unfold mallocBlocks heapAlignValueToUpper cuint heapBlockSize
  split <;> omega

theorem mallocBlocks_blocksFor {size : Nat} (h : size ≤ 0xFFFFF000) :
    mallocBlocks size = blocksFor size := heapAlign_blocks h

section
variable {h : Heap} {L : List Run} {size : Nat}

theorem HeapOk.address (hok : HeapOk h L) {b : Nat} (hb : b < h.table.total) :
    heapBlockToAddress h b = h.saddr + b * 4096 := by
  have hfits := hok.fits
  have hsaddr := hok.saddr
  rw [heapBlockToAddress_eq, Nat.mod_eq_of_lt (by omega)]

/-- the first window is handed out -/
theorem mallocOwned_window (hok : HeapOk h L) (hsize : size < 4294967296) (hn : 1 ≤ mallocBlocks size)
    {b : Nat} (hw : FirstWindow h.table (mallocBlocks size) b) : MallocOwned h L size := by
  have hbig : mallocBlocks size < 2147483648 := lt_trans (mallocBlocks_lt size hsize) (by decide)
  have hrun : heapMalloc h size
      = .ok (heapBlockToAddress h b, h.mark ⟨b, mallocBlocks size⟩) :=
    heapMallocBlocks_found h hn hbig hw
  have hin := hw.1.1
  have hp := hok.address (show b < h.table.total by omega)
  have htiled := hok.tiled.alloc ⟨b, mallocBlocks size⟩ hn hw.1
  refine ⟨_, _, hrun, fun _ => ⟨b, mallocBlocks size, hn, ?_, hp, hw.1, htiled, ?_⟩⟩
  · rw [mallocBlocks_blocksFor ((mallocBlocks_pos_iff hsize).mp hn).2]
    unfold blocksFor
    omega
  · intro ops hops
    rw [hp]
    have hpos : 1 ≤ (⟨b, mallocBlocks size⟩ : Run).len := hn
    refine throughout_of_meets (I := KeptIn ⟨b, mallocBlocks size⟩ h)
      (fun h1 hk => hk.notReturned hok hpos hin)
      (fun h1 op hk hop => ⟨trivial, fun h2 hstep => hk.step hpos hop hstep⟩) _ ops ?_ hops
    exact ⟨Kept.of_tiled htiled List.mem_cons_self, rfl, rfl⟩

/-- with the last entry free, a size without a block or a window gets no blocks of its own -/
theorem not_mallocOwned (hok : HeapOk h L) (hsize : size < 4294967296) (h0 : h.table.total ≠ 0)
    (hlast : Free h.table (h.table.total - 1))
    (hno : ¬ (1 ≤ size ∧ size ≤ 0xFFFFF000 ∧ ∃ b, Window h.table (blocksFor size) b)) :
    ¬ MallocOwned h L size := by
  rintro ⟨p, h', hrun, howned⟩
  have hrun : heapMallocBlocks h (mallocBlocks size) = .ok (p, h') := hrun
  rcases Nat.eq_zero_or_pos (mallocBlocks size) with hzero | hn
  · -- a free block is returned, and stays free
    obtain ⟨b, hb, hf, hz⟩ := heapMallocBlocks_nothing ⟨h0, hlast⟩
    rw [hzero, hz] at hrun
    obtain ⟨rfl, rfl⟩ := Prod.mk.inj (Except.ok.inj hrun)
    have hp := hok.address hb
    have hsaddr := hok.saddr
    obtain ⟨b', n, hn, -, hb', hw, ht, -⟩ := howned (by omega)
    obtain rfl : b = b' := by omega
    have hm : (⟨b, n⟩ : Run).Mem b := Run.mem_start hn
    exact (Kept.of_tiled ht List.mem_cons_self).not_free hm hf
  · -- the marking leaves the table
    obtain ⟨h1, h2⟩ := (mallocBlocks_pos_iff hsize).mp hn
    have hnone : ∀ b, ¬ Window h.table (mallocBlocks size) b := by
      intro b hb
      rw [mallocBlocks_blocksFor h2] at hb
      exact hno ⟨h1, h2, b, hb⟩
    rw [heapMallocBlocks_fault h hn (mallocBlocks_lt size hsize) hnone h0 hlast] at hrun
    cases hrun

/-- `NULL` owns nothing -/
theorem mallocOwned_null (hrun : heapMalloc h size = .ok (0, h)) : MallocOwned h L size :=
  ⟨0, h, hrun, fun hne => absurd rfl hne⟩

end

/-- **What `heap_malloc` hands out.**  A pointer owns enough blocks of its own exactly when the last
entry of the table is taken (or there is none), or the size asks for blocks and finds a window. -/
theorem heap_malloc_owned_iff {h : Heap} {L : List Run} (hok : HeapOk h L) {size : Nat}
    (hsize : size < 4294967296) : MallocOwned h L size ↔
      h.table.total = 0 ∨ ¬ Free h.table (h.table.total - 1) ∨
        (1 ≤ size ∧ size ≤ 0xFFFFF000 ∧ ∃ b, Window h.table (blocksFor size) b) := by
  constructor
  · intro howned
    by_contra hno
    obtain ⟨h0, hno⟩ := not_or.mp hno
    obtain ⟨hlast, hno⟩ := not_or.mp hno
    exact not_mallocOwned hok hsize h0 (not_not.mp hlast) hno howned
  · intro hcond
    have hlast : (¬ ∃ b, Window h.table (mallocBlocks size) b) ∨ mallocBlocks size = 0 →
        h.table.total = 0 ∨ ¬ Free h.table (h.table.total - 1) := by
      intro hno
      rcases hcond with h0 | hl | ⟨h1, h2, hw⟩
      · exact Or.inl h0
      · exact Or.inr hl
      · have hn := (mallocBlocks_pos_iff hsize).mpr ⟨h1, h2⟩
        rw [← mallocBlocks_blocksFor h2] at hw
        rcases hno with hno | h0
        · exact absurd hw hno
        · omega
    rcases Nat.eq_zero_or_pos (mallocBlocks size) with hzero | hn
    · have hrun : heapMalloc h size = .ok (0, h) := by
        show heapMallocBlocks h (mallocBlocks size) = _
        rw [hzero]
        exact heapMallocBlocks_nothing_null (hlast (Or.inr hzero))
      exact mallocOwned_null hrun
    · rcases firstWindow_or_not h.table (mallocBlocks size) with ⟨b, hw⟩ | hno
      · exact mallocOwned_window hok hsize hn hw
      · have hno' : ∀ b, ¬ Window h.table (mallocBlocks size) b := hno
        exact mallocOwned_null (heapMallocBlocks_none h hn hno'
          (hlast (Or.inl (fun hex => hex.elim hno'))))

/-- one block of the free first entry -/
theorem heap_malloc_owned_iff_lastTaken : MallocOwned lastTaken [⟨1, 1⟩] 4096 ↔
    lastTaken.table.total = 0 ∨ ¬ Free lastTaken.table (lastTaken.table.total - 1) ∨
      (1 ≤ 4096 ∧ 4096 ≤ 0xFFFFF000 ∧ ∃ b, Window lastTaken.table (blocksFor 4096) b) :=
  heap_malloc_owned_iff ⟨lastTaken_tiled, by decide, by decide, by decide⟩ (by decide)

theorem twoBlocks_tiled : Tiled twoBlocks.table [] where
  pos r hr := absurd hr List.not_mem_nil
  inside r hr := absurd hr List.not_mem_nil
  separate := List.Pairwise.nil
  coded r hr := absurd hr List.not_mem_nil
  free i hi _ := if_pos hi

/-- `heap_malloc (0)` returns the address of a block that it has not taken -/
theorem empty_request_not_owned : HeapOk twoBlocks [] ∧ ¬ MallocOwned twoBlocks [] 0 := by
  refine ⟨⟨twoBlocks_tiled, by decide, by decide, by decide⟩, ?_⟩
  rintro ⟨p, h', hrun, howned⟩
  have hzero : heapMalloc twoBlocks 0 = .ok (0x1000000, twoBlocks) := rfl
  rw [hzero] at hrun
  obtain ⟨rfl, rfl⟩ := Prod.mk.inj (Except.ok.inj hrun)
  obtain ⟨b, n, hn, -, -, hw, ht, -⟩ := howned (by decide)
  have hm : (⟨b, n⟩ : Run).Mem b := Run.mem_start hn
  have hcode := ht.coded _ List.mem_cons_self b hm
  have hfree : Free twoBlocks.table b := hw.2 b (le_refl b) (by omega)
  unfold Free at hfree
  rw [hcode] at hfree
  exact runCode_taken ⟨b, n⟩ b hfree

/-! ## releases of any pointer -/

/-- `(int)(ptr - saddr)` -/
def distance (h : Heap) (p : Nat) : Int := cint ((p : Int) - h.saddr)

section
variable {h : Heap} {L : List Run} {p : Nat}

theorem heapAddressToBlock_near (hp : -4096 < distance h p) :
    heapAddressToBlock h p = ((distance h p).toNat / 4096 : Nat) := by
  unfold heapAddressToBlock heapBlockSize
  show (distance h p).tdiv (4096 : Nat) = _
  rcases Int.lt_or_le (distance h p) 0 with hneg | hpos
  · obtain ⟨k, hk⟩ : ∃ k : Nat, distance h p = - (k : Int) := ⟨(- distance h p).toNat, by omega⟩
    rw [hk, Int.neg_tdiv, Int.natCast_tdiv_eq_ediv]
    omega
  · obtain ⟨k, hk⟩ := Int.eq_ofNat_of_zero_le hpos
    rw [hk, Int.natCast_tdiv_eq_ediv]
    omega

theorem heapAddressToBlock_far (hp : distance h p ≤ -4096) : heapAddressToBlock h p < 0 := by
  unfold heapAddressToBlock heapBlockSize
  show (distance h p).tdiv (4096 : Nat) < 0
  obtain ⟨k, hk⟩ : ∃ k : Nat, distance h p = - (k : Int) := ⟨(- distance h p).toNat, by omega⟩
  rw [hk, Int.neg_tdiv, Int.natCast_tdiv_eq_ediv]
  omega

/-- a free entry stays free -/
theorem markFreeLoop_zero (fuel : Nat) : ∀ (i : Int) (t t' : HeapTable) (j : Nat),
    t.entries j = 0 → markFreeLoop fuel i t = .ok t' → t'.entries j = 0 := by
  induction fuel with
  | zero =>
    intro i t t' j h0 hrun
    obtain rfl : t = t' := Except.ok.inj hrun
    exact h0
  | succ fuel ih =>
    intro i t t' j h0 hrun
    unfold markFreeLoop at hrun
    by_cases hin : 0 ≤ i ∧ i < t.total
    · obtain ⟨m, rfl⟩ := Int.eq_ofNat_of_zero_le hin.1
      have hm : m < t.total := by omega
      have h0' : Function.update t.entries m entryFree j = 0 := by
        by_cases e : j = m
        · rw [e, Function.update_self]
        · rw [Function.update_of_ne e, h0]
      rw [HeapTable.load_nat t hm, Exec.ok_bind, HeapTable.store_nat t hm, Exec.ok_bind] at hrun
      by_cases hnext : t.entries m &&& blockHasNext = 0
      · rw [if_pos hnext] at hrun
        obtain rfl := Except.ok.inj hrun
        exact h0'
      · rw [if_neg hnext] at hrun
        exact ih _ _ _ j h0' hrun
    · rw [HeapTable.load_out t (by omega)] at hrun
      cases hrun

/-- the release clears the entry it starts with -/
theorem heapFree_clears {h' : Heap} {b : Nat} (hb : b < h.table.total)
    (hint : h.table.total < 2147483648) (hblock : heapAddressToBlock h p = b)
    (hrun : heapFree h p = .ok h') : h'.table.entries b = 0 := by
  obtain ⟨fuel, hfuel⟩ : ∃ fuel, (cint h.table.total - (b : Int)).toNat = fuel + 1 := by
    rw [cint_nat hint]
    exact ⟨h.table.total - b - 1, by omega⟩
  have h0 : Function.update h.table.entries b entryFree b = 0 := Function.update_self _ _ _
  unfold heapFree heapMarkBlocksFree at hrun
  rw [hblock, hfuel] at hrun
  unfold markFreeLoop at hrun
  rw [h.table.load_nat hb, Exec.ok_bind, h.table.store_nat hb, Exec.ok_bind] at hrun
  by_cases hnext : h.table.entries b &&& blockHasNext = 0
  · rw [if_pos hnext] at hrun
    obtain rfl := Except.ok.inj hrun
    exact h0
  · rw [if_neg hnext] at hrun
    cases hm : markFreeLoop fuel ((b : Int) + 1)
        { h.table with entries := Function.update h.table.entries b entryFree } with
    | error e =>
      rw [hm] at hrun
      cases hrun
    | ok t =>
      rw [hm] at hrun
      obtain rfl := Except.ok.inj hrun
      exact markFreeLoop_zero _ _ _ _ b h0 hm

/-- **Releases that do nothing.**  `heap_free` leaves the heap alone exactly for the pointers whose
distance from its start, a signed number, is above -4096 and leads into no live allocation. -/
theorem heap_free_harmless_iff (ht : Tiled h.table L) (htot : h.table.total < 1048576) (p : Nat) :
    heapFree h p = .ok h ↔
      -4096 < distance h p ∧ ∀ r ∈ L, ¬ r.Mem ((distance h p).toNat / 4096) := by
  have hint : h.table.total < 2147483648 := lt_trans htot (by decide)
  rcases Int.lt_or_le (-4096) (distance h p) with hnear | hfar
  · have hblock := heapAddressToBlock_near hnear
    generalize (distance h p).toNat / 4096 = b at hblock
    constructor
    · intro hrun
      refine ⟨hnear, fun r hr hm => ?_⟩
      have hb : b < h.table.total := by
        have hin := ht.inside r hr
        have hlt := hm.2
        omega
      -- the entry of the block is cleared, and it was not clear
      have htaken : h.table.entries b ≠ 0 := by
        intro h0
        have hcode := ht.coded r hr b hm
        exact runCode_taken r b (by rw [← hcode, h0]; rfl)
      exact htaken (heapFree_clears hb hint hblock hrun)
    · rintro ⟨-, hno⟩
      have hrun : heapFree h p = heapMarkBlocksFree h b := by
        unfold heapFree
        rw [hblock]
      rw [hrun]
      by_cases hb : b < h.table.total
      · refine heapMarkBlocksFree_free ht hint hb ((ht.free_iff_zero hb).mpr ?_)
        exact ht.free b hb hno
      · unfold heapMarkBlocksFree
        have hfuel : (cint h.table.total - (b : Int)).toNat = 0 := by
          rw [cint_nat hint]
          omega
        rw [hfuel]
        rfl
  · constructor
    · intro hrun
      rw [heapFree_below (heapAddressToBlock_far hfar) hint] at hrun
      cases hrun
    · intro hnear
      omega

end

/-- an address inside the second block, which is taken -/
theorem heap_free_harmless_iff_lastTaken : heapFree lastTaken 0x1001010 = .ok lastTaken ↔
    -4096 < distance lastTaken 0x1001010 ∧
      ∀ r ∈ [⟨1, 1⟩], ¬ Run.Mem r ((distance lastTaken 0x1001010).toNat / 4096) :=
  heap_free_harmless_iff lastTaken_tiled (by decide) 0x1001010

/-- `heap_free (NULL)` goes to an entry before the table -/
theorem null_not_harmless : ¬ ∀ (h : Heap) (L : List Run) (p : Nat), Tiled h.table L →
    h.table.total < 1048576 → (∀ r ∈ L, p ≠ heapBlockToAddress h r.start) →
      heapFree h p = .ok h := by
  intro hall
  have hrun := hall lastTaken [⟨1, 1⟩] 0 lastTaken_tiled (by decide) (by decide)
  have hbelow : heapAddressToBlock lastTaken 0 < 0 := by decide
  rw [heapFree_below hbelow (by decide)] at hrun
  cases hrun

end LameOS
