import LameOS.Memory.HeapSpec
import LameOS.Lib.Run

/-!
# Runs of `heap_malloc` and `heap_free`

The state of a run is the heap and the live allocations, `heap_free` being called with the
pointers of live ones only.

* `LiveOk`       the live allocations of a state own their blocks: distinct pointers, one run of
                 `blocksFor size` entries for each, and nothing else taken;
* `RoomOk`       the condition on one call: `heap_malloc` finds a window, at a block whose address
                 is below 2 GiB from the start of the heap and is not `0`, or finds none in a table
                 whose last entry is taken;
* `heap_run_iff` a run is good in every state exactly when its calls meet `RoomOk`;
* `heap_overrun` a heap of two blocks whose run leaves the table.
-/

set_option linter.unusedVariables false

namespace LameOS
open Lib

/-- a live allocation -/
structure Live where
  ptr : Nat
  size : Nat
  deriving DecidableEq, Repr

structure HeapState where
  heap : Heap
  live : List Live

inductive HeapOp where
  | malloc (size : Nat)
  | free (ptr : Nat)

def heapStep (s : HeapState) : HeapOp → Except Fault HeapState
  | .malloc size => do
    let (p, h) ← heapMalloc s.heap size
    return if p = 0 then { s with heap := h } else { heap := h, live := ⟨p, size⟩ :: s.live }
  | .free p => do
    let h ← heapFree s.heap p
    return { heap := h, live := s.live.eraseP (fun a => a.ptr = p) }

/-- the calls of the run: sizes that can be rounded up, pointers of live allocations -/
def LegalOp (s : HeapState) : HeapOp → Prop
  | .malloc size => 1 ≤ size ∧ size ≤ 0xFFFFF000
  | .free p => ∃ a ∈ s.live, a.ptr = p

/-- the blocks of a live allocation -/
def Live.run (h : Heap) (a : Live) : Run := ⟨(heapAddressToBlock h a.ptr).toNat, blocksFor a.size⟩

/-- every live allocation owns a run of its own, and all other entries are free -/
structure LiveOk (s : HeapState) : Prop where
  distinct : (s.live.map Live.ptr).Nodup
  start : ∀ a ∈ s.live, 0 ≤ heapAddressToBlock s.heap a.ptr
  tiled : Tiled s.heap.table (s.live.map (Live.run s.heap))

theorem LiveOk.head {h : Heap} {a : Live} {live : List Live} (hok : LiveOk ⟨h, a :: live⟩) :
    0 ≤ heapAddressToBlock h a.ptr := hok.start a List.mem_cons_self

/-- what a call needs -/
def RoomOk (s : HeapState) : HeapOp → Prop
  | .malloc size =>
    (∃ b, FirstWindow s.heap.table (blocksFor size) b ∧ b < 524288 ∧
      (s.heap.saddr + b * 4096) % 4294967296 ≠ 0) ∨
    ((∀ b, ¬ Window s.heap.table (blocksFor size) b) ∧
      (s.heap.table.total = 0 ∨ ¬ Free s.heap.table (s.heap.table.total - 1)))
  | .free _ => True

/-- the invariant of a run: the table is small enough for an `int` -/
def RunOk (s : HeapState) : Prop := LiveOk s ∧ s.heap.table.total < 1048576

theorem heapBlockToAddress_eq (h : Heap) (b : Nat) :
    heapBlockToAddress h b = (h.saddr + b * 4096) % 4294967296 := by
  unfold heapBlockToAddress cuint heapBlockSize
  omega

theorem Live.run_congr {h h' : Heap} (e : h.saddr = h'.saddr) : Live.run h = Live.run h' := by
  funext a
  unfold Live.run
  rw [heapAddressToBlock_congr e]

theorem heapStep_malloc_found (s : HeapState) {size b : Nat} (h1 : 1 ≤ size)
    (h2 : size ≤ 0xFFFFF000) (hw : FirstWindow s.heap.table (blocksFor size) b) :
    heapStep s (.malloc size) = .ok
      (if heapBlockToAddress s.heap b = 0 then
        { s with heap := s.heap.mark ⟨b, blocksFor size⟩ }
      else
        { heap := s.heap.mark ⟨b, blocksFor size⟩
          live := ⟨heapBlockToAddress s.heap b, size⟩ :: s.live }) := by
  simp only [heapStep, heapMalloc_blocks _ h2,
    heapMallocBlocks_found s.heap (blocksFor_pos h1) (lt_trans (blocksFor_lt h2) (by decide)) hw]
  rfl

/-- a call of `heap_malloc` that meets its condition -/
theorem heapStep_malloc_ok (s : HeapState) (hs : RunOk s) {size : Nat}
    (hl : LegalOp s (.malloc size)) (hr : RoomOk s (.malloc size)) :
    ∃ s', heapStep s (.malloc size) = .ok s' ∧ RunOk s' := by
  obtain ⟨h1, h2⟩ := hl
  have hn := blocksFor_pos h1
  obtain ⟨hlive, htot⟩ := hs
  rcases hr with ⟨b, hw, hb, haddr⟩ | ⟨hno, hlast⟩
  · have hne : heapBlockToAddress s.heap b ≠ 0 := by
      rw [heapBlockToAddress_eq]
      exact haddr
    have hblock := heapAddressToBlock_low s.heap hb
    have hrun : Live.run s.heap ⟨heapBlockToAddress s.heap b, size⟩ = ⟨b, blocksFor size⟩ := by
      unfold Live.run
      rw [hblock]
      rfl
    refine ⟨_, heapStep_malloc_found s h1 h2 hw, ?_, ?_⟩
    · simp only [if_neg hne]
      refine ⟨List.nodup_cons.mpr ⟨fun hmem => ?_, hlive.distinct⟩, ?_, ?_⟩
      · obtain ⟨a, ha, hap⟩ := List.mem_map.mp hmem
        have hfree := (hlive.tiled.free_iff (lt_of_lt_of_le (by omega) hw.1.1)).mp
          (hw.1.2 b (le_refl b) (by omega))
        refine hfree (a.run s.heap) (List.mem_map_of_mem ha) ?_
        have hstart : (a.run s.heap).start = b := by
          unfold Live.run
          rw [hap, hblock]
          rfl
        rw [← hstart]
        exact Run.mem_start (hlive.tiled.pos _ (List.mem_map_of_mem ha))
      · intro a ha
        rw [heapAddressToBlock_congr (Heap.mark_saddr s.heap ⟨b, blocksFor size⟩)]
        rcases List.mem_cons.mp ha with rfl | ha
        · rw [hblock]
          omega
        · exact hlive.start a ha
      · rw [Live.run_congr (Heap.mark_saddr s.heap ⟨b, blocksFor size⟩), List.map_cons, hrun]
        exact hlive.tiled.alloc ⟨b, blocksFor size⟩ hn hw.1
    · simp only [if_neg hne]
      exact htot
  · refine ⟨s, ?_, hlive, htot⟩
    simp only [heapStep, heapMalloc_blocks _ h2, heapMallocBlocks_none s.heap hn hno hlast]
    rfl

/-- a call of `heap_malloc` outside its condition leaves the table, or takes blocks that no live
allocation can be found to own -/
theorem heapStep_malloc_bad (s : HeapState) (hs : RunOk s) {size : Nat}
    (hl : LegalOp s (.malloc size)) (hr : ¬ RoomOk s (.malloc size)) (s' : HeapState)
    (hstep : heapStep s (.malloc size) = .ok s') : ¬ LiveOk s' := by
  obtain ⟨h1, h2⟩ := hl
  have hn := blocksFor_pos h1
  obtain ⟨hlive, htot⟩ := hs
  rcases firstWindow_or_not s.heap.table (blocksFor size) with ⟨b, hw⟩ | hno
  · have hbtot : b < s.heap.table.total := lt_of_lt_of_le (by omega) hw.1.1
    rw [heapStep_malloc_found s h1 h2 hw] at hstep
    have hs' := (Except.ok.inj hstep).symm
    intro hok
    by_cases h0 : heapBlockToAddress s.heap b = 0
    · -- the pointer is NULL: the blocks are taken, but nobody holds them
      simp only [if_pos h0] at hs'
      subst hs'
      have hfree := (hlive.tiled.free_iff hbtot).mp (hw.1.2 b (le_refl b) (by omega))
      have hz := hok.tiled.free b hbtot hfree
      have hcode : (s.heap.mark ⟨b, blocksFor size⟩).table.entries b
          = runCode ⟨b, blocksFor size⟩ b :=
        HeapTable.put_in _ _ (le_refl b) (Nat.lt_add_of_pos_right hn)
      exact runCode_ne_zero _ _ (hcode.symm.trans hz)
    · -- the block lies so high that its address is read as one before the heap
      simp only [if_neg h0] at hs'
      subst hs'
      have hhigh : 524288 ≤ b := by
        by_contra hlow
        refine hr (Or.inl ⟨b, hw, by omega, ?_⟩)
        rw [← heapBlockToAddress_eq]
        exact h0
      have hneg := heapAddressToBlock_high s.heap hhigh (by omega)
      have hpos := hok.head
      rw [heapAddressToBlock_congr (Heap.mark_saddr s.heap ⟨b, blocksFor size⟩)] at hpos
      exact absurd hpos (not_le.mpr hneg)
  · have hlast : ¬ (s.heap.table.total = 0 ∨ ¬ Free s.heap.table (s.heap.table.total - 1)) :=
      fun h => hr (Or.inr ⟨hno, h⟩)
    push Not at hlast
    simp only [heapStep, heapMalloc_blocks _ h2,
      heapMallocBlocks_fault s.heap hn (blocksFor_lt h2) hno hlast.1 hlast.2] at hstep
    cases hstep

/-- the run of the erased allocation goes to the front of the list -/
theorem live_perm {live : List Live} {a : Live} (ha : a ∈ live)
    (hd : (live.map Live.ptr).Nodup) :
    live.Perm (a :: live.eraseP (fun x => x.ptr = a.ptr)) := by
  induction live with
  | nil => cases ha
  | cons x live ih =>
    obtain ⟨hx, hd'⟩ := List.nodup_cons.mp hd
    rcases List.mem_cons.mp ha with rfl | ha'
    · rw [List.eraseP_cons_of_pos (by simp)]
    · have hne : ¬ x.ptr = a.ptr := fun e => hx (e ▸ List.mem_map_of_mem ha')
      rw [List.eraseP_cons_of_neg (by simpa using hne)]
      exact ((ih ha' hd').cons x).trans (List.Perm.swap a x _)

/-- a call of `heap_free` with the pointer of a live allocation -/
theorem heapStep_free_ok (s : HeapState) (hs : RunOk s) {p : Nat} (hl : LegalOp s (.free p)) :
    ∃ s', heapStep s (.free p) = .ok s' ∧ RunOk s' := by
  obtain ⟨a, ha, rfl⟩ := hl
  obtain ⟨hlive, htot⟩ := hs
  have hmem : a.run s.heap ∈ s.live.map (Live.run s.heap) := List.mem_map_of_mem ha
  have hstart : heapAddressToBlock s.heap a.ptr = (a.run s.heap).start := by
    have := hlive.start a ha
    show heapAddressToBlock s.heap a.ptr = ((heapAddressToBlock s.heap a.ptr).toNat : Int)
    omega
  have hfree := heapFree_ok s.heap (a.run s.heap) hstart (hlive.tiled.pos _ hmem)
    (hlive.tiled.inside _ hmem) (by omega) (hlive.tiled.coded _ hmem)
  have hperm := live_perm ha hlive.distinct
  have hsub : ∀ x ∈ s.live.eraseP (fun x => x.ptr = a.ptr), x ∈ s.live := fun x hx =>
    List.mem_of_mem_eraseP hx
  refine ⟨⟨s.heap.wipe (a.run s.heap), s.live.eraseP (fun x => x.ptr = a.ptr)⟩, ?_, ?_, htot⟩
  · simp only [heapStep, hfree]
    rfl
  · refine ⟨?_, ?_, ?_⟩
    · have hd := (hperm.map Live.ptr).nodup_iff.mp hlive.distinct
      exact (List.nodup_cons.mp hd).2
    · intro x hx
      rw [heapAddressToBlock_congr (Heap.wipe_saddr s.heap (a.run s.heap))]
      exact hlive.start x (hsub x hx)
    · have ht := hlive.tiled.perm (hperm.map (Live.run s.heap))
      rw [List.map_cons] at ht
      rw [Live.run_congr (Heap.wipe_saddr s.heap (a.run s.heap))]
      exact ht.release

theorem heapCreate_ok {heap0 h : Heap} {ptr endPtr : Nat} {t : HeapTable}
    (hc : heapCreate heap0 ptr endPtr t = (0, h)) : RunOk ⟨h, []⟩ := by
  unfold heapCreate at hc
  split at hc
  · cases hc
  · dsimp only at hc
    split at hc
    · rename_i hneg
      rw [(Prod.mk.inj hc).1] at hneg
      exact absurd hneg (by decide)
    · obtain ⟨hres, rfl⟩ := Prod.mk.inj hc
      have htot : t.total < 1048576 := by
        unfold heapCheckTable at hres
        split at hres
        · cases hres
        · rename_i he
          have := cuint_lt ((endPtr : Int) - ptr)
          rw [not_not.mp he]
          unfold ptrDiff heapBlockSize
          omega
      refine ⟨⟨List.nodup_nil, by simp, ?_⟩, htot⟩
      exact ⟨by simp, by simp, List.Pairwise.nil, by simp, fun i hi _ => if_pos hi⟩

/-- **Runs of the heap.**  From a created heap, every state of a run of `heap_malloc` and
`heap_free` calls is one in which the live allocations own exactly their blocks, if and only if
every call is made with the room that `RoomOk` asks for. -/
theorem heap_run_iff (heap0 h : Heap) (ptr endPtr : Nat) (t : HeapTable) (ops : List HeapOp)
    (hc : heapCreate heap0 ptr endPtr t = (0, h)) (hl : Meets heapStep LegalOp ⟨h, []⟩ ops) :
    Along heapStep LiveOk ⟨h, []⟩ ops ↔ Meets heapStep RoomOk ⟨h, []⟩ ops := by
  refine along_iff_meets (I := RunOk) (V := LegalOp) (fun s hs => hs.1) ?_ ?_ _ _
    (heapCreate_ok hc) hl
  · intro s op hs hlegal hroom
    cases op with
    | malloc size => exact heapStep_malloc_ok s hs hlegal hroom
    | free p => exact heapStep_free_ok s hs hlegal
  · intro s op hs hlegal hroom s' hstep
    cases op with
    | malloc size => exact heapStep_malloc_bad s hs hlegal hroom s' hstep
    | free p => exact absurd trivial hroom

/-- a table of two entries, before the heap is created over it -/
def twoEntries : HeapTable := ⟨fun _ => 0, 2⟩

/-- the heap of two blocks at 16 MiB -/
def twoBlocks : Heap := ⟨twoEntries.clear, 0x1000000⟩

theorem twoBlocks_created : heapCreate ⟨twoEntries, 0⟩ 0x1000000 0x1002000 twoEntries
    = (0, twoBlocks) := rfl

theorem legal_malloc (s : HeapState) {size : Nat} (h : 1 ≤ size ∧ size ≤ 0xFFFFF000) :
    LegalOp s (.malloc size) := h

theorem heap_run_iff_two :
    Along heapStep LiveOk ⟨twoBlocks, []⟩ [.malloc 5000, .malloc 5000]
      ↔ Meets heapStep RoomOk ⟨twoBlocks, []⟩ [.malloc 5000, .malloc 5000] :=
  heap_run_iff ⟨twoEntries, 0⟩ twoBlocks 0x1000000 0x1002000 twoEntries _ twoBlocks_created
    ⟨legal_malloc _ (by decide), fun _ _ => ⟨legal_malloc _ (by decide), fun _ _ => trivial⟩⟩

/-- block 0 is taken, two blocks are asked for: the search ends with the single free block 1 and
the marking writes entry 2 of a table of two -/
theorem heap_overrun :
    heapCreate ⟨twoEntries, 0⟩ 0x1000000 0x1002000 twoEntries = (0, twoBlocks) ∧
    Meets heapStep LegalOp ⟨twoBlocks, []⟩ [.malloc 1, .malloc 8192] ∧
    ¬ Along heapStep LiveOk ⟨twoBlocks, []⟩ [.malloc 1, .malloc 8192] := by
  refine ⟨rfl, ⟨legal_malloc _ (by decide), fun _ _ =>
    ⟨legal_malloc _ (by decide), fun _ _ => trivial⟩⟩, fun hgood => ?_⟩
  obtain ⟨s', hs', _⟩ := runs_along hgood
  have hfault : (runs heapStep ⟨twoBlocks, []⟩ [.malloc 1, .malloc 8192]).toBool = false := by
    decide +kernel
  rw [hs'] at hfault
  cases hfault

end LameOS
