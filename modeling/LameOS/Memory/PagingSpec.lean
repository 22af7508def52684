import LameOS.Memory.Paging
import Mathlib.Data.List.GetD

/-!
# An address space in memory

A `Space` names the heap blocks of an address space: the chunk, the directory and the 1024 tables.
`Space.Maps s m f entry` says that the memory `m` holds it there: the directory points to the
tables with the flags `f`, and page `v` has the page table entry `entry v`.

* `pagingNew4gb_run`      a new space maps every page to itself; it takes 1026 free blocks;
* `pagingNew4gb_fault`    with fewer, a null pointer is followed;
* `pagingSet_run`, `pagingMapTo_run`   one entry, and the entries of a range;
* `pagingFree4gb_run`     the release gives exactly the blocks of the space back;
* `translate_maps`        what the processor does in a space.
-/

set_option linter.unusedVariables false

namespace LameOS
open Lib Lib.Exec

/-! ## words and blocks -/

theorem blockAddr_page (b : Nat) : blockAddr b = (4096 + b) * 4096 := by
  unfold blockAddr heapAddress
  omega

theorem block_page_lt {b : Nat} (hb : b < heapBlocks) : 4096 + b < 1048576 := by
  have := heapBlocks_lt
  omega

/-- address `a` lies in block `b` -/
def InBlock (b a : Nat) : Prop := a / 4096 = 4096 + b

theorem inBlock_word {b i : Nat} (hi : i < 1024) : InBlock b (blockAddr b + 4 * i) := by
  unfold InBlock
  rw [blockAddr_page]
  omega

/-- the words of the heap blocks are apart -/
theorem blockAddr_word_inj {b c i j : Nat} (hj : j < 1024) (hi : i < 1024)
    (h : blockAddr b + 4 * j = blockAddr c + 4 * i) : b = c ∧ j = i := by
  rw [blockAddr_page, blockAddr_page] at h
  omega

theorem InBlock.unique {a b b' : Nat} (h : InBlock b a) (h' : InBlock b' a) : b = b' := by
  unfold InBlock at h h'
  omega

theorem word_block {b i : Nat} (hb : b < heapBlocks) (hi : i < 1024) :
    Mem.Word (blockAddr b + 4 * i) := by
  have := blockAddr_lt hb
  constructor
  · rw [blockAddr_page]
    omega
  · omega

/-- the words outside the blocks `B` are the same -/
def Frame (B : Nat → Prop) (m m' : Machine) : Prop :=
  ∀ a, Mem.Word a → (∀ b, B b → ¬ InBlock b a) → m'.mem.load a = m.mem.load a

theorem Frame.refl (B : Nat → Prop) (m : Machine) : Frame B m m := fun _ _ _ => rfl

theorem Frame.trans {B : Nat → Prop} {m m' m'' : Machine} (h : Frame B m m')
    (h' : Frame B m' m'') : Frame B m m'' := fun a ha hB => (h' a ha hB).trans (h a ha hB)

theorem Frame.mono {B B' : Nat → Prop} {m m' : Machine} (h : Frame B m m')
    (hB : ∀ b, B b → B' b) : Frame B' m m' := fun a ha hB' => h a ha (fun b hb => hB' b (hB b hb))

/-- a word of another block -/
theorem Frame.block {B : Nat → Prop} {m m' : Machine} (h : Frame B m m') {b i : Nat}
    (hb : b < heapBlocks) (hi : i < 1024) (hB : ¬ B b) :
    m'.mem.load (blockAddr b + 4 * i) = m.mem.load (blockAddr b + 4 * i) := by
  refine h _ (word_block hb hi) (fun b' hb' hin => hB ?_)
  rwa [(inBlock_word hi).unique hin]

/-- the run of the single block `b` -/
def oneBlock (b : Nat) : Run := ⟨b, 1⟩

section
variable {m : Machine} {L : List Run}

theorem Machine.Holds.block_lt (h : m.Holds L) {b : Nat} (hb : oneBlock b ∈ L) : b < heapBlocks :=
  h.inside hb

/-- a free block belongs to nobody -/
theorem Machine.Holds.fresh (h : m.Holds L) {b : Nat} (hw : Window m.heap.table 1 b) :
    b < heapBlocks ∧ oneBlock b ∉ L := by
  obtain ⟨hb, hf⟩ := window_one.mp hw
  exact ⟨h.total ▸ hb, fun hL => (h.tiled.free_iff hb).mp hf _ hL ⟨le_refl b, Nat.lt_succ_self b⟩⟩

/-- `memset` in one block: the rest of the memory is as before -/
theorem fill_frame (m : Machine) {b size : Nat} (hb : b < heapBlocks) (h1 : 1 ≤ size)
    (h2 : size ≤ 4096) :
    Frame (fun x => x = b) m { m with mem := m.mem.fill (blockAddr b) size 0 } := by
  intro a ha hB
  have hlt := blockAddr_lt hb
  have hnot := hB b rfl
  obtain ⟨ha4, ha⟩ := ha
  unfold InBlock at hnot
  have hp := blockAddr_page b
  exact Mem.load_fill_out m.mem (by omega) (by omega) (by omega) h1

theorem fill_zero (m : Machine) {b i size : Nat} (hb : b < heapBlocks) (hi : 4 * i + 4 ≤ size)
    (h2 : size ≤ 4096) : (m.mem.fill (blockAddr b) size 0).load (blockAddr b + 4 * i) = 0 := by
  have hlt := blockAddr_lt hb
  exact Mem.load_fill_in m.mem (by omega) (by omega) (by omega)

theorem alloc_frame (m : Machine) {b size : Nat} (hb : b < heapBlocks) (h1 : 1 ≤ size)
    (h2 : size ≤ 4096) : Frame (fun x => x = b) m (m.alloc (oneBlock b) size) :=
  fill_frame m hb h1 h2

/-! ## entries -/

/-- a flag below the page size is added -/
theorem lor_flags {x f : Nat} (hf : f < 4096) : (x * 4096) ||| f = x * 4096 + f := by
  have h := Nat.two_pow_add_eq_or_of_lt (i := 12) hf x
  rw [show 2 ^ 12 * x = x * 4096 from Nat.mul_comm _ _] at h
  exact h.symm

/-- the mask takes the flags off -/
theorem and_mask {x f : Nat} (hx : x < 1048576) (hf : f < 4096) :
    (x * 4096 + f) &&& 0xFFFFF000 = x * 4096 := by
  have e : (x * 4096 + f) &&& 0xFFFFF000 = ((x * 4096 + f) >>> 12 &&& 0xFFFFF) <<< 12 := by
    apply Nat.eq_of_testBit_eq
    intro i
    rw [Nat.testBit_shiftLeft, Nat.testBit_and]
    by_cases hi : 12 ≤ i
    · rw [Nat.testBit_and, Nat.testBit_shiftRight, show 0xFFFFF000 = 0xFFFFF <<< 12 from rfl,
        Nat.testBit_shiftLeft]
      simp [hi]
    · have h0 : Nat.testBit 0xFFFFF000 i = false := by
        rw [show 0xFFFFF000 = 0xFFFFF <<< 12 from rfl, Nat.testBit_shiftLeft]
        simp [hi]
      simp [hi, h0]
  rw [e, Nat.shiftRight_eq_div_pow, show 0xFFFFF = 2 ^ 20 - 1 from rfl,
    Nat.and_two_pow_sub_one_eq_mod, Nat.shiftLeft_eq]
  omega

/-! ## construction -/

theorem readWord_ok (m : Machine) {p : Nat} (hp : p ≠ 0) (off : Nat) :
    readWord p off m = .ok (m.mem.load (p + off), m) := if_neg hp

/-- word `j` of block `e` has been set to `v` -/
structure Wrote (e j v : Nat) (m m' : Machine) : Prop where
  heap : m'.heap = m.heap
  frame : Frame (fun x => x = e) m m'
  word : m'.mem.load (blockAddr e + 4 * j) = v
  other : ∀ k < 1024, k ≠ j → m'.mem.load (blockAddr e + 4 * k) = m.mem.load (blockAddr e + 4 * k)

theorem writeWord_block (m : Machine) {e j v : Nat} (he : e < heapBlocks) (hj : j < 1024)
    (hv : v < 4294967296) :
    ∃ m', writeWord (blockAddr e) (4 * j) v m = .ok ((), m') ∧ Wrote e j v m m' := by
  refine ⟨{ m with mem := m.mem.store (blockAddr e + 4 * j) v }, if_neg blockAddr_ne, rfl, ?_,
    Mem.load_store m.mem _ hv, fun k hk hne => ?_⟩
  · intro a ha hB
    refine Mem.load_store_ne m.mem _ (word_block he hj) ha ?_
    rintro rfl
    exact hB e rfl (inBlock_word hj)
  · exact Mem.load_store_ne m.mem _ (word_block he hj) (word_block he hk) (by omega)

/-- the entry that the inner loop computes for page `v`; its `int`s may wrap -/
theorem tableEntry_eq {i b flags : Nat} (hi : i < 1024) (hb : b < 1024) (hf : flags < 4096) :
    cuint (cint (cint (i * 4194304 : Nat) + b * pagingPageSize)) ||| flags
      = (i * 1024 + b) * 4096 + flags := by
  have e : cuint (cint (cint (i * 4194304 : Nat) + b * pagingPageSize)) = (i * 1024 + b) * 4096 := by
    rw [cuint_cint_add]
    unfold cuint pagingPageSize
    omega
  rw [e, lor_flags hf]

/-- the inner loop writes the words of one table -/
theorem pagingTableLoop_run {e i flags : Nat} (he : e < heapBlocks) (hi : i < 1024)
    (hf : flags < 4096) (fuel : Nat) : ∀ (b : Nat) (m : Machine), b + fuel ≤ 1024 →
    Does (pagingTableLoop (blockAddr e) flags (cint (i * 4194304 : Nat)) fuel b) m (fun _ m' =>
      m'.heap = m.heap ∧ Frame (fun x => x = e) m m' ∧
      (∀ j, j < b → m'.mem.load (blockAddr e + 4 * j) = m.mem.load (blockAddr e + 4 * j)) ∧
      ∀ j, b ≤ j → j < b + fuel →
        m'.mem.load (blockAddr e + 4 * j) = (i * 1024 + j) * 4096 + flags) := by
  induction fuel with
  | zero =>
    intro b m hb
    exact Does.pure ⟨rfl, Frame.refl _ m, fun _ _ => rfl, fun j h1 h2 => by omega⟩
  | succ fuel ih =>
    intro b m hb
    have hval : (i * 1024 + b) * 4096 + flags < 4294967296 := by omega
    obtain ⟨m1, hw, w⟩ := writeWord_block m (j := b) he (by omega) hval
    obtain ⟨⟨⟩, m', hrun, hheap, hframe, hlow, hhigh⟩ := ih (b + 1) m1 (by omega)
    unfold pagingTableLoop
    rw [tableEntry_eq hi (by omega) hf]
    refine ⟨(), m', by rw [bind_ok hw, hrun], hheap.trans w.heap, w.frame.trans hframe, ?_, ?_⟩
    · intro j hj
      rw [hlow j (by omega), w.other j (by omega) (by omega)]
    · intro j h1 h2
      by_cases ej : j = b
      · subst ej
        rw [hlow j (by omega), w.word]
      · exact hhigh j (by omega) (by omega)

end

/-- `ts` are the tables built so far, in the directory at block `d` -/
structure Built (L : List Run) (m0 : Machine) (d flags : Nat) (ts : List Nat) (m : Machine) :
    Prop where
  holds : m.Holds (ts.map oneBlock ++ L)
  dir : ∀ i < ts.length, m.mem.load (blockAddr d + 4 * i)
    = blockAddr (ts.getD i 0) + (flags ||| pagingIsWriteable)
  table : ∀ i < ts.length, ∀ b < 1024,
    m.mem.load (blockAddr (ts.getD i 0) + 4 * b) = (i * 1024 + b) * 4096 + flags
  frame : Frame (fun x => x = d ∨ x ∈ ts) m0 m

section
variable {L : List Run} {m0 m : Machine} {d flags : Nat} {ts : List Nat}

theorem lor_writeable_lt (hf : flags < 4096) : flags ||| pagingIsWriteable < 4096 :=
  Nat.or_lt_two_pow (n := 12) hf (by decide)

theorem pagingDirectoryLoop_succ (p flags fuel i : Nat) (offset : Int) :
    pagingDirectoryLoop p flags (fuel + 1) i offset = (kzalloc (4 * pagingTotalEntriesPerTable) >>=
      fun entry => pagingTableLoop entry flags offset pagingTotalEntriesPerTable 0 >>=
      fun _ => writeWord p (4 * i) (entry ||| flags ||| pagingIsWriteable) >>=
      fun _ => pagingDirectoryLoop p flags fuel (i + 1)
        (cint (offset + pagingTotalEntriesPerTable * pagingPageSize))) := rfl

theorem directoryEntry_eq (b : Nat) (hf : flags < 4096) : blockAddr b ||| flags ||| pagingIsWriteable
    = blockAddr b + (flags ||| pagingIsWriteable) := by
  rw [Nat.or_assoc, blockAddr_page, lor_flags (lor_writeable_lt hf)]

/-- the offset of the next table; it may wrap -/
theorem nextOffset_eq (i : Nat) :
    cint (cint (i * 4194304 : Nat) + pagingTotalEntriesPerTable * pagingPageSize)
      = cint ((i + 1) * 4194304 : Nat) := by
  unfold cint pagingTotalEntriesPerTable pagingPageSize
  rw [Int.bmod_def, Int.bmod_def, Int.bmod_def]
  push_cast
  split <;> split <;> split <;> omega

theorem firstOffset : cint (([] : List Nat).length * 4194304 : Nat) = 0 := rfl

/-- one more table: its entries are written, then its word in the directory -/
theorem Built.snoc (hd : oneBlock d ∈ L) (h : Built L m0 d flags ts m) (hlen : ts.length < 1024)
    {b : Nat} (hb : b < heapBlocks) (hnew : oneBlock b ∉ ts.map oneBlock ++ L) {m2 m3 : Machine}
    (hh : m3.Holds (oneBlock b :: (ts.map oneBlock ++ L))) (hfr : Frame (fun x => x = b) m m2)
    (hent : ∀ j < 1024, m2.mem.load (blockAddr b + 4 * j) = (ts.length * 1024 + j) * 4096 + flags)
    (w : Wrote d ts.length (blockAddr b + (flags ||| pagingIsWriteable)) m2 m3) :
    Built L m0 d flags (ts ++ [b]) m3 := by
  have hnd : b ≠ d := by
    rintro rfl
    exact hnew (List.mem_append_right _ hd)
  have hnts : b ∉ ts := fun hts => hnew (List.mem_append_left _ (List.mem_map_of_mem hts))
  have hdlt := h.holds.block_lt (List.mem_append_right _ hd)
  have hfr3 : Frame (fun x => x = b ∨ x = d) m m3 :=
    (hfr.mono (fun x hx => Or.inl hx)).trans (w.frame.mono (fun x hx => Or.inr hx))
  refine ⟨?_, ?_, ?_, ?_⟩
  · refine hh.perm ?_
    rw [List.map_append, List.append_assoc]
    exact List.perm_middle.symm
  · intro i hi
    rw [List.length_append, List.length_singleton] at hi
    by_cases ei : i = ts.length
    · subst ei
      rw [w.word, List.getD_append_right _ _ _ _ (le_refl _), Nat.sub_self]
      rfl
    · rw [w.other i (by omega) ei, List.getD_append _ _ _ _ (by omega),
        hfr.block hdlt (by omega) (fun e => hnd e.symm)]
      exact h.dir i (by omega)
  · intro i hi k hk
    rw [List.length_append, List.length_singleton] at hi
    by_cases ei : i = ts.length
    · subst ei
      rw [List.getD_append_right _ _ _ _ (le_refl _), Nat.sub_self]
      show m3.mem.load (blockAddr b + 4 * k) = _
      rw [w.frame.block hb hk hnd]
      exact hent k hk
    · have hi' : i < ts.length := by omega
      have hmem : ts.getD i 0 ∈ ts := by
        rw [List.getD_eq_getElem _ _ hi']
        exact List.getElem_mem hi'
      have hlt := h.holds.block_lt (List.mem_append_left _ (List.mem_map_of_mem hmem))
      have hne : ¬ (ts.getD i 0 = b ∨ ts.getD i 0 = d) := by
        rintro (e | e)
        · exact hnts (e ▸ hmem)
        · have hnod := h.holds.tiled.nodup
          rw [List.nodup_append] at hnod
          exact hnod.2.2 _ (List.mem_map_of_mem hmem) _ hd (by rw [e])
      rw [List.getD_append _ _ _ _ hi', hfr3.block hlt hk hne]
      exact h.table i hi' k hk
  · refine (h.frame.mono ?_).trans (hfr3.mono ?_)
    · rintro x (hx | hx)
      · exact Or.inl hx
      · exact Or.inr (List.mem_append_left _ hx)
    · rintro x (rfl | hx)
      · exact Or.inr (List.mem_append_right _ (List.mem_singleton_self _))
      · exact Or.inl hx

/-- one round of the outer loop -/
theorem pagingDirectoryLoop_step (hd : oneBlock d ∈ L) (hf : flags < 4096)
    (h : Built L m0 d flags ts m) (hlen : ts.length < 1024) (hfree : 0 < freeBlocks m.heap.table)
    (fuel : Nat) : ∃ b m', Built L m0 d flags (ts ++ [b]) m' ∧
      freeBlocks m.heap.table = freeBlocks m'.heap.table + 1 ∧
      pagingDirectoryLoop (blockAddr d) flags (fuel + 1) ts.length
          (cint (ts.length * 4194304 : Nat)) m
        = pagingDirectoryLoop (blockAddr d) flags fuel (ts.length + 1)
          (cint ((ts.length + 1) * 4194304 : Nat)) m' := by
  -- the table
  obtain ⟨b, ⟨hwin, -⟩, hk⟩ := kzalloc_block h.holds (by decide : 1 ≤ 4 * pagingTotalEntriesPerTable)
    (by decide) hfree
  obtain ⟨hb, hnew⟩ := h.holds.fresh hwin
  have hdlt := h.holds.block_lt (List.mem_append_right _ hd)
  set m1 := m.alloc ⟨b, 1⟩ (4 * pagingTotalEntriesPerTable) with hm1
  have hfr1 : Frame (fun x => x = b) m m1 := alloc_frame m hb (by decide) (by decide)
  have hh1 : m1.Holds (oneBlock b :: (ts.map oneBlock ++ L)) :=
    h.holds.alloc (le_refl 1) hwin _
  -- its entries
  obtain ⟨⟨⟩, m2, hloop, hheap2, hfr2, -, hent⟩ :=
    pagingTableLoop_run hb hlen hf pagingTotalEntriesPerTable 0 m1 (le_refl _)
  -- the word of the directory
  have hval : blockAddr b + (flags ||| pagingIsWriteable) < 4294967296 := by
    have := blockAddr_lt hb
    have := lor_writeable_lt hf
    omega
  obtain ⟨m3, hw, w⟩ := writeWord_block m2 hdlt hlen hval
  have hbuilt := h.snoc hd hlen hb hnew (hh1.congr (w.heap.trans hheap2)) (hfr1.trans hfr2)
    (fun j hj => hent j (Nat.zero_le j) (by rw [Nat.zero_add]; exact hj)) w
  refine ⟨b, m3, hbuilt, ?_, ?_⟩
  · have h3 : m3.heap = m.heap.mark ⟨b, 1⟩ := w.heap.trans hheap2
    rw [h3, Heap.mark_table]
    exact freeBlocks_mark hwin
  · rw [pagingDirectoryLoop_succ, bind_ok hk, bind_ok hloop, directoryEntry_eq b hf, bind_ok hw,
      nextOffset_eq]

theorem pagingDirectoryLoop_run (hd : oneBlock d ∈ L) (hf : flags < 4096) (fuel : Nat) :
    ∀ (ts : List Nat) (m : Machine), Built L m0 d flags ts m → ts.length + fuel = 1024 →
      fuel ≤ freeBlocks m.heap.table → ∃ ts' m',
      pagingDirectoryLoop (blockAddr d) flags fuel ts.length (cint (ts.length * 4194304 : Nat)) m
        = .ok ((), m') ∧ Built L m0 d flags ts' m' ∧ ts'.length = 1024 ∧
      freeBlocks m.heap.table = freeBlocks m'.heap.table + fuel := by
  induction fuel with
  | zero =>
    intro ts m h hlen _
    exact ⟨ts, m, rfl, h, hlen, rfl⟩
  | succ fuel ih =>
    intro ts m h hlen hfree
    obtain ⟨b, m1, h1, hf1, heq⟩ := pagingDirectoryLoop_step hd hf h (by omega) (by omega) fuel
    have e : (ts ++ [b]).length = ts.length + 1 := by simp
    obtain ⟨ts', m', hrun, h', hlen', hf'⟩ := ih (ts ++ [b]) m1 h1 (by omega) (by omega)
    rw [e] at hrun
    exact ⟨ts', m', heq.trans hrun, h', hlen', by omega⟩

/-- a table cannot be allocated: its entries are written through a null pointer -/
theorem pagingDirectoryLoop_fault (hd : oneBlock d ∈ L) (hf : flags < 4096) (fuel : Nat) :
    ∀ (ts : List Nat) (m : Machine), Built L m0 d flags ts m → ts.length + fuel = 1024 →
      freeBlocks m.heap.table < fuel →
      pagingDirectoryLoop (blockAddr d) flags fuel ts.length (cint (ts.length * 4194304 : Nat)) m
        = .error .nullPointer := by
  induction fuel with
  | zero =>
    intro ts m h hlen hfree
    omega
  | succ fuel ih =>
    intro ts m h hlen hfree
    rcases Nat.eq_zero_or_pos (freeBlocks m.heap.table) with h0 | hpos
    · have hk := kzalloc_full h.holds (by decide : 1 ≤ 4 * pagingTotalEntriesPerTable) (by decide) h0
      rw [pagingDirectoryLoop_succ, bind_ok hk]
      refine bind_error ?_
      exact bind_error rfl
    · obtain ⟨b, m1, h1, hf1, heq⟩ := pagingDirectoryLoop_step hd hf h (by omega) hpos fuel
      have e : (ts ++ [b]).length = ts.length + 1 := by simp
      have hrun := ih (ts ++ [b]) m1 h1 (by omega) (by omega)
      rw [e] at hrun
      exact heq.trans hrun

end

/-- the heap blocks of an address space -/
structure Space where
  chunk : Nat
  directory : Nat
  tables : List Nat
  length : tables.length = 1024

namespace Space

/-- the table of page directory entry `i` -/
def table (s : Space) (i : Nat) : Nat := s.tables.getD i 0

def blocks (s : Space) : List Nat := s.chunk :: s.directory :: s.tables

def runs (s : Space) : List Run := s.blocks.map oneBlock

/-- the chunk and the directory lie in memory, with the flags `f` in the directory -/
structure Rooted (s : Space) (m : Machine) (f : Nat) : Prop where
  chunk : m.mem.load (blockAddr s.chunk) = blockAddr s.directory
  dir : ∀ i < 1024, m.mem.load (blockAddr s.directory + 4 * i) = blockAddr (s.table i) + f

/-- the space lies in memory, with the entries `entry` -/
structure Maps (s : Space) (m : Machine) (f : Nat) (entry : Nat → Nat) : Prop
    extends s.Rooted m f where
  table : ∀ i < 1024, ∀ b < 1024,
    m.mem.load (blockAddr (s.table i) + 4 * b) = entry (i * 1024 + b)

end Space

section
variable {L : List Run} {m : Machine} {flags : Nat}

/-- the space of the tables, once a chunk points to the directory -/
theorem Built.maps {ts : List Nat} (h : Built (oneBlock d :: L) m0 d flags ts m)
    (hlen : ts.length = pagingTotalEntriesPerTable) {c : Nat}
    (hnew : oneBlock c ∉ ts.map oneBlock ++ oneBlock d :: L) {m' : Machine}
    (hfr : Frame (fun x => x = c) m m') (hword : m'.mem.load (blockAddr c) = blockAddr d) :
    (⟨c, d, ts, hlen⟩ : Space).Maps m' (flags ||| pagingIsWriteable) (fun v => v * 4096 + flags) := by
  have hd : d < heapBlocks := h.holds.block_lt (List.mem_append_right _ List.mem_cons_self)
  have hcd : c ≠ d := by
    rintro rfl
    exact hnew (List.mem_append_right _ List.mem_cons_self)
  have hcts : c ∉ ts := fun hts => hnew (List.mem_append_left _ (List.mem_map_of_mem hts))
  refine ⟨⟨hword, fun i hi => ?_⟩, fun i hi b hb => ?_⟩
  · have hi' : i < ts.length := by
      rw [hlen]
      exact hi
    rw [hfr.block hd hi (fun e => hcd e.symm)]
    exact h.dir i hi'
  · have hi' : i < ts.length := by
      rw [hlen]
      exact hi
    have hmem : ts.getD i 0 ∈ ts := by
      rw [List.getD_eq_getElem _ _ hi']
      exact List.getElem_mem hi'
    have hlt := h.holds.block_lt (List.mem_append_left _ (List.mem_map_of_mem hmem))
    have hne : ts.getD i 0 ≠ c := fun e => hcts (e ▸ hmem)
    show m'.mem.load (blockAddr (ts.getD i 0) + 4 * b) = _
    rw [hfr.block hlt hb hne]
    exact h.table i hi' b hb

/-- **A new space maps every page to itself.** -/
theorem pagingNew4gb_run (h : m.Holds L) (hf : flags < 4096)
    (hfree : 1026 ≤ freeBlocks m.heap.table) : ∃ (s : Space) (m' : Machine),
      pagingNew4gb flags m = .ok (blockAddr s.chunk, m') ∧ m'.Holds (s.runs ++ L) ∧
      s.Maps m' (flags ||| pagingIsWriteable) (fun v => v * 4096 + flags) ∧
      Frame (fun x => x ∈ s.blocks) m m' ∧
      freeBlocks m.heap.table = freeBlocks m'.heap.table + 1026 := by
  -- the directory
  obtain ⟨d, ⟨hwin, -⟩, hk⟩ := kzalloc_block h (by decide : 1 ≤ 4 * pagingTotalEntriesPerTable)
    (by decide) (by omega)
  obtain ⟨hd, hnew⟩ := h.fresh hwin
  set m1 := m.alloc ⟨d, 1⟩ (4 * pagingTotalEntriesPerTable) with hm1
  have hh1 : m1.Holds (oneBlock d :: L) := h.alloc (le_refl 1) hwin _
  have hfr1 : Frame (fun x => x = d) m m1 := alloc_frame m hd (by decide) (by decide)
  have hfree1 : freeBlocks m.heap.table = freeBlocks m1.heap.table + 1 := freeBlocks_mark hwin
  have hb0 : Built (oneBlock d :: L) m1 d flags [] m1 :=
    ⟨hh1, fun i hi => absurd hi (Nat.not_lt_zero i), fun i hi => absurd hi (Nat.not_lt_zero i),
      Frame.refl _ m1⟩
  -- the tables
  obtain ⟨ts, m2, hloop, hb2, hlen, hfree2⟩ := pagingDirectoryLoop_run List.mem_cons_self hf
    pagingTotalEntriesPerTable [] m1 hb0 rfl (by unfold pagingTotalEntriesPerTable; omega)
  -- the chunk
  obtain ⟨c, ⟨hwin3, -⟩, hk3⟩ := kzalloc_block hb2.holds (by decide : 1 ≤ 4) (by decide)
    (by unfold pagingTotalEntriesPerTable at hfree2; omega)
  obtain ⟨hc, hnew3⟩ := hb2.holds.fresh hwin3
  set m3 := m2.alloc ⟨c, 1⟩ 4 with hm3
  have hh3 : m3.Holds (oneBlock c :: (ts.map oneBlock ++ oneBlock d :: L)) :=
    hb2.holds.alloc (le_refl 1) hwin3 _
  have hfr3 : Frame (fun x => x = c) m2 m3 := alloc_frame m2 hc (by decide) (by decide)
  have hfree3 : freeBlocks m2.heap.table = freeBlocks m3.heap.table + 1 := freeBlocks_mark hwin3
  have hdval : blockAddr d < 4294967296 := blockAddr_word_lt hd.le
  obtain ⟨m4, hw, w⟩ := writeWord_block m3 (j := 0) hc (by decide) hdval
  have hfr34 : Frame (fun x => x = c) m2 m4 := hfr3.trans w.frame
  refine ⟨⟨c, d, ts, hlen⟩, m4, ?_, ?_, hb2.maps hlen hnew3 hfr34 w.word, ?_, ?_⟩
  · rw [firstOffset, List.length_nil] at hloop
    unfold pagingNew4gb
    rw [bind_ok hk, bind_ok hloop, bind_ok hk3, bind_ok hw]
    rfl
  · have hp : (oneBlock c :: (ts.map oneBlock ++ oneBlock d :: L)).Perm
        (oneBlock c :: oneBlock d :: (ts.map oneBlock ++ L)) :=
      List.Perm.cons _ List.perm_middle
    exact (hh3.perm hp).congr w.heap
  · refine (hfr1.mono ?_).trans ((hb2.frame.mono ?_).trans (hfr34.mono ?_))
    · rintro x rfl
      exact List.mem_cons_of_mem _ List.mem_cons_self
    · rintro x (rfl | hx)
      · exact List.mem_cons_of_mem _ List.mem_cons_self
      · exact List.mem_cons_of_mem _ (List.mem_cons_of_mem _ hx)
    · rintro x rfl
      exact List.mem_cons_self
  · unfold pagingTotalEntriesPerTable at hfree2
    rw [w.heap]
    omega

/-- with fewer than 1026 free blocks a null pointer is followed -/
theorem pagingNew4gb_fault (h : m.Holds L) (hf : flags < 4096)
    (hfree : freeBlocks m.heap.table < 1026) : pagingNew4gb flags m = .error .nullPointer := by
  rcases Nat.eq_zero_or_pos (freeBlocks m.heap.table) with h0 | hpos
  · -- no directory: the loop builds its first table at address 0
    have hk := kzalloc_full h (by decide : 1 ≤ 4 * pagingTotalEntriesPerTable) (by decide) h0
    unfold pagingNew4gb
    rw [bind_ok hk]
    refine bind_error ?_
    rw [show pagingTotalEntriesPerTable = 1023 + 1 from rfl, pagingDirectoryLoop_succ, bind_ok hk]
    exact bind_error (bind_error rfl)
  · obtain ⟨d, ⟨hwin, -⟩, hk⟩ := kzalloc_block h (by decide : 1 ≤ 4 * pagingTotalEntriesPerTable)
      (by decide) hpos
    set m1 := m.alloc ⟨d, 1⟩ (4 * pagingTotalEntriesPerTable) with hm1
    have hh1 : m1.Holds (oneBlock d :: L) := h.alloc (le_refl 1) hwin _
    have hfree1 : freeBlocks m.heap.table = freeBlocks m1.heap.table + 1 := freeBlocks_mark hwin
    have hb0 : Built (oneBlock d :: L) m1 d flags [] m1 :=
      ⟨hh1, fun i hi => absurd hi (Nat.not_lt_zero i), fun i hi => absurd hi (Nat.not_lt_zero i),
        Frame.refl _ m1⟩
    unfold pagingNew4gb
    rw [bind_ok hk]
    by_cases hlt : freeBlocks m1.heap.table < 1024
    · have hloop := pagingDirectoryLoop_fault List.mem_cons_self hf
        pagingTotalEntriesPerTable [] m1 hb0 rfl hlt
      rw [firstOffset, List.length_nil] at hloop
      exact bind_error hloop
    · obtain ⟨ts, m2, hloop, hb2, hlen, hfree2⟩ := pagingDirectoryLoop_run List.mem_cons_self hf
        pagingTotalEntriesPerTable [] m1 hb0 rfl (by unfold pagingTotalEntriesPerTable; omega)
      rw [firstOffset, List.length_nil] at hloop
      unfold pagingTotalEntriesPerTable at hfree2
      have hk3 := kzalloc_full hb2.holds (by decide : 1 ≤ 4) (by decide) (by omega)
      have hw : writeWord 0 0 (blockAddr d) m2 = .error .nullPointer := rfl
      rw [bind_ok hloop, bind_ok hk3, bind_error hw]

end

/-! ## the blocks of a space -/

namespace Space
variable {s : Space} {L : List Run} {m m' : Machine} {f : Nat}

theorem table_mem (s : Space) {i : Nat} (hi : i < 1024) : s.table i ∈ s.tables := by
  have hi' : i < s.tables.length := by
    rw [s.length]
    exact hi
  unfold table
  rw [List.getD_eq_getElem _ _ hi']
  exact List.getElem_mem hi'

theorem chunk_mem (s : Space) : s.chunk ∈ s.blocks := List.mem_cons_self

theorem directory_mem (s : Space) : s.directory ∈ s.blocks :=
  List.mem_cons_of_mem _ List.mem_cons_self

theorem table_mem_blocks (s : Space) {i : Nat} (hi : i < 1024) : s.table i ∈ s.blocks :=
  List.mem_cons_of_mem _ (List.mem_cons_of_mem _ (s.table_mem hi))

theorem runs_mem {b : Nat} (hb : b ∈ s.blocks) : oneBlock b ∈ s.runs := List.mem_map_of_mem hb

theorem blocks_lt (h : m.Holds (s.runs ++ L)) {b : Nat} (hb : b ∈ s.blocks) : b < heapBlocks :=
  h.block_lt (List.mem_append_left _ (runs_mem hb))

/-- the blocks of a space are different -/
theorem blocks_nodup (h : m.Holds (s.runs ++ L)) : s.blocks.Nodup :=
  (List.nodup_append.mp h.tiled.nodup).1.of_map oneBlock

theorem table_ne_chunk (h : m.Holds (s.runs ++ L)) {i : Nat} (hi : i < 1024) :
    s.table i ≠ s.chunk := by
  intro e
  have hn := (List.nodup_cons.mp (blocks_nodup h)).1
  exact hn (List.mem_cons_of_mem _ (e ▸ s.table_mem hi))

theorem table_ne_directory (h : m.Holds (s.runs ++ L)) {i : Nat} (hi : i < 1024) :
    s.table i ≠ s.directory := by
  intro e
  have hn := (List.nodup_cons.mp (List.nodup_cons.mp (blocks_nodup h)).2).1
  exact hn (e ▸ s.table_mem hi)

theorem table_inj (h : m.Holds (s.runs ++ L)) {i j : Nat} (hi : i < 1024) (hj : j < 1024)
    (e : s.table i = s.table j) : i = j := by
  have hn := (List.nodup_cons.mp (List.nodup_cons.mp (blocks_nodup h)).2).2
  have hi' : i < s.tables.length := by
    rw [s.length]
    exact hi
  have hj' : j < s.tables.length := by
    rw [s.length]
    exact hj
  unfold table at e
  rw [List.getD_eq_getElem _ _ hi', List.getD_eq_getElem _ _ hj'] at e
  exact (hn.getElem_inj_iff).mp e

/-- a block of `L` is no block of the space -/
theorem not_mem_blocks (h : m.Holds (s.runs ++ L)) {b : Nat} (hb : oneBlock b ∈ L) :
    b ∉ s.blocks := fun hs =>
  (List.nodup_append.mp h.tiled.nodup).2.2 _ (runs_mem hs) _ hb rfl

/-- a block of an allocation of `L` is no block of the space -/
theorem not_mem_run (h : m.Holds (s.runs ++ L)) {r : Run} (hr : r ∈ L) {b : Nat} (hb : r.Mem b) :
    b ∉ s.blocks := fun hs =>
  (List.pairwise_append.mp h.tiled.separate).2.2 _ (runs_mem hs) r hr b
    ⟨le_refl b, Nat.lt_succ_self b⟩ hb

/-- a change outside the chunk and the directory -/
theorem Rooted.frame {B : Nat → Prop} (h : s.Rooted m f) (hlt : ∀ b ∈ s.blocks, b < heapBlocks)
    (hf : Frame B m m') (hc : ¬ B s.chunk) (hd : ¬ B s.directory) : s.Rooted m' f where
  chunk := by
    have h0 := hf.block (i := 0) (hlt _ s.chunk_mem) (by decide) hc
    rw [Nat.mul_zero, Nat.add_zero] at h0
    rw [h0, h.chunk]
  dir i hi := by rw [hf.block (hlt _ s.directory_mem) hi hd, h.dir i hi]

theorem Maps.frame {B : Nat → Prop} {entry : Nat → Nat} (h : s.Maps m f entry)
    (hlt : ∀ b ∈ s.blocks, b < heapBlocks) (hf : Frame B m m') (hB : ∀ b ∈ s.blocks, ¬ B b) :
    s.Maps m' f entry where
  toRooted := h.toRooted.frame hlt hf (hB _ s.chunk_mem) (hB _ s.directory_mem)
  table i hi b hb := by
    rw [hf.block (hlt _ (s.table_mem_blocks hi)) hb (hB _ (s.table_mem_blocks hi)),
      h.table i hi b hb]

theorem Maps.congr {entry entry' : Nat → Nat} (h : s.Maps m f entry)
    (he : ∀ v < 1048576, entry v = entry' v) : s.Maps m f entry' where
  toRooted := h.toRooted
  table i hi b hb := by rw [h.table i hi b hb, he _ (by omega)]

end Space

/-! ## entries and ranges -/

section
variable {s : Space} {L : List Run} {m : Machine} {f : Nat} {entry : Nat → Nat}

theorem table_of_entry {b f : Nat} (hb : b < heapBlocks) (hf : f < 4096) :
    (blockAddr b + f) &&& 0xFFFFF000 = blockAddr b := by
  rw [blockAddr_page, and_mask (block_page_lt hb) hf]

theorem pagingGetIndices_page {v : Nat} :
    pagingGetIndices (v * 4096) = (0, v / 1024, v % 1024) := by
  have h1 : v * 4096 % 4096 = 0 := by omega
  have h2 : v * 4096 / (1024 * 4096) = v / 1024 := by omega
  have h3 : v * 4096 % (1024 * 4096) / 4096 = v % 1024 := by omega
  unfold pagingGetIndices pagingIsAligned pagingPageSize pagingTotalEntriesPerTable
  rw [h1, h2, h3]
  rfl

theorem pagingGet_run (h : s.Maps m f entry) (hh : m.Holds (s.runs ++ L)) (hf : f < 4096) {v : Nat}
    (hv : v < 1048576) : pagingGet (blockAddr s.directory) (v * 4096) m = .ok (entry v, m) := by
  have hi : v / 1024 < 1024 := by omega
  have hr : readWord (blockAddr s.directory) (4 * (v / 1024)) m
      = .ok (blockAddr (s.table (v / 1024)) + f, m) := by
    rw [readWord_ok m blockAddr_ne, h.dir _ hi]
  have ht := Space.blocks_lt hh (s.table_mem_blocks hi)
  have htab := h.table _ hi (v % 1024) (by omega)
  rw [Nat.div_add_mod' v 1024] at htab
  unfold pagingGet
  rw [pagingGetIndices_page]
  show (readWord (blockAddr s.directory) (4 * (v / 1024)) >>= fun e => _) m = _
  rw [bind_ok hr, table_of_entry ht hf, readWord_ok m blockAddr_ne, htab]

/-- **One entry is set, nothing else changes.** -/
theorem pagingSet_run (h : s.Maps m f entry) (hh : m.Holds (s.runs ++ L)) (hf : f < 4096) {v x : Nat}
    (hv : v < 1048576) (hx : x < 4294967296) : ∃ m',
      pagingSet (blockAddr s.directory) (v * 4096) x m = .ok (0, m') ∧ m'.heap = m.heap ∧
      s.Maps m' f (Function.update entry v x) ∧ Frame (fun b => b ∈ s.tables) m m' := by
  have hi : v / 1024 < 1024 := by omega
  have hj : v % 1024 < 1024 := by omega
  have ht := Space.blocks_lt hh (s.table_mem_blocks hi)
  obtain ⟨m', hw, w⟩ := writeWord_block m ht hj hx
  refine ⟨m', ?_, w.heap, ⟨?_, ?_⟩, w.frame.mono (fun b hb => hb ▸ s.table_mem hi)⟩
  · have hr : readWord (blockAddr s.directory) (4 * (v / 1024)) m
        = .ok (blockAddr (s.table (v / 1024)) + f, m) := by
      rw [readWord_ok m blockAddr_ne, h.dir _ hi]
    have ha : pagingIsAligned (v * 4096) = true := by
      unfold pagingIsAligned pagingPageSize
      exact decide_eq_true (by omega)
    unfold pagingSet
    rw [ha, pagingGetIndices_page]
    show (readWord (blockAddr s.directory) (4 * (v / 1024)) >>= fun e => _) m = _
    rw [bind_ok hr, table_of_entry ht hf, bind_ok hw]
    rfl
  · exact h.toRooted.frame (fun _ hb => Space.blocks_lt hh hb) w.frame
      (fun e => Space.table_ne_chunk hh hi e.symm) (fun e => Space.table_ne_directory hh hi e.symm)
  · intro i hi' b hb
    by_cases ei : i = v / 1024
    · subst ei
      by_cases eb : b = v % 1024
      · subst eb
        rw [w.word, Nat.div_add_mod' v 1024, Function.update_self]
      · rw [w.other b hb eb, h.table _ hi b hb, Function.update_of_ne (by omega)]
    · have hne : s.table i ≠ s.table (v / 1024) := fun e => ei (Space.table_inj hh hi' hi e)
      rw [w.frame.block (Space.blocks_lt hh (s.table_mem_blocks hi')) hb hne, h.table i hi' b hb,
        Function.update_of_ne (by omega)]

theorem pagingMap_run (h : s.Maps m f entry) (hh : m.Holds (s.runs ++ L)) (hf : f < 4096)
    {v p g : Nat} (hv : v < 1048576) (hp : p < 1048576) (hg : g < 4096) : ∃ m',
      pagingMap (blockAddr s.chunk) (v * 4096) (p * 4096) g m = .ok (0, m') ∧ m'.heap = m.heap ∧
      s.Maps m' f (Function.update entry v (p * 4096 + g)) ∧ Frame (fun b => b ∈ s.tables) m m' := by
  obtain ⟨m', hset, h'⟩ := pagingSet_run h hh hf hv (by omega : p * 4096 + g < 4294967296)
  refine ⟨m', ?_, h'⟩
  have hr : readWord (blockAddr s.chunk) 0 m = .ok (blockAddr s.directory, m) := by
    rw [readWord_ok m blockAddr_ne, Nat.add_zero, h.chunk]
  have ha : ¬ (v * 4096 % pagingPageSize ≠ 0 ∨ p * 4096 % pagingPageSize ≠ 0) := by
    unfold pagingPageSize
    omega
  unfold pagingMap
  rw [if_neg ha, bind_ok hr, lor_flags hg, hset]

/-- the distance from page `v` up to page `w`, around the top of the address space -/
def pageDist (v w : Nat) : Nat := (w + 1048576 - v) % 1048576

/-- the entries after `n` pages from `v` on are mapped to the ones from `p` on -/
def remap (entry : Nat → Nat) (v p n g : Nat) : Nat → Nat := fun w =>
  if pageDist v w < n then (p + pageDist v w) * 4096 + g else entry w

theorem remap_succ (entry : Nat → Nat) {v n g : Nat} (p : Nat) (hv : v < 1048576)
    (hn : n < 1048576) {w : Nat} (hw : w < 1048576) :
    remap (Function.update entry v (p * 4096 + g)) ((v + 1) % 1048576) (p + 1) n g w
      = remap entry v p (n + 1) g w := by
  unfold remap
  by_cases e : w = v
  · subst e
    have h1 : pageDist w w = 0 := by
      unfold pageDist
      omega
    have h2 : ¬ pageDist ((w + 1) % 1048576) w < n := by
      unfold pageDist
      omega
    rw [if_neg h2, Function.update_self, if_pos (by omega), h1, Nat.add_zero]
  · have h1 : pageDist v w = pageDist ((v + 1) % 1048576) w + 1 := by
      unfold pageDist
      omega
    rw [Function.update_of_ne e, h1]
    by_cases hlt : pageDist ((v + 1) % 1048576) w < n
    · rw [if_pos hlt, if_pos (by omega)]
      congr 2
      omega
    · rw [if_neg hlt, if_neg (by omega)]

theorem nextPage (v : Nat) : cuint ((v * 4096 : Nat) + pagingPageSize) = (v + 1) % 1048576 * 4096 := by
  unfold cuint pagingPageSize
  omega

theorem pagingMapLoop_succ (c g fuel virt phys : Nat) (res : Int) :
    pagingMapLoop c g (fuel + 1) virt phys res = (pagingMap c virt phys g >>= fun res =>
      if res < 0 then pure res
      else pagingMapLoop c g fuel (cuint (virt + pagingPageSize)) (cuint (phys + pagingPageSize))
        res) := rfl

theorem pagingMapLoop_run (hf : f < 4096) {g : Nat} (hg : g < 4096) (n : Nat) :
    ∀ (v p : Nat) (m : Machine) (entry : Nat → Nat), s.Maps m f entry → m.Holds (s.runs ++ L) →
      v < 1048576 → p + n ≤ 1048576 → n ≤ 1048576 → ∃ m',
      pagingMapLoop (blockAddr s.chunk) g n (v * 4096) (p * 4096) 0 m = .ok (0, m') ∧
      m'.heap = m.heap ∧ s.Maps m' f (remap entry v p n g) ∧ Frame (fun b => b ∈ s.tables) m m' := by
  induction n with
  | zero =>
    intro v p m entry h hh hv hp hn
    exact ⟨m, rfl, rfl, h.congr (fun w hw => (if_neg (Nat.not_lt_zero _)).symm), Frame.refl _ m⟩
  | succ n ih =>
    intro v p m entry h hh hv hp hn
    obtain ⟨m1, hmap, hheap, h1, hfr⟩ := pagingMap_run h hh hf hv (by omega : p < 1048576) hg
    rw [pagingMapLoop_succ, bind_ok hmap, if_neg (lt_irrefl 0), nextPage, nextPage]
    rcases Nat.eq_zero_or_pos n with rfl | hpos
    · refine ⟨m1, rfl, hheap, h1.congr (fun w hw => ?_), hfr⟩
      rw [← remap_succ entry p hv (by omega) hw]
      exact (if_neg (Nat.not_lt_zero _)).symm
    · have e : (p + 1) % 1048576 = p + 1 := Nat.mod_eq_of_lt (by omega)
      rw [e]
      obtain ⟨m', hrun, hheap', h', hfr'⟩ := ih ((v + 1) % 1048576) (p + 1) m1 _ h1
        (hh.congr hheap) (by omega) (by omega) (by omega)
      exact ⟨m', hrun, hheap'.trans hheap, h'.congr (fun w hw => remap_succ entry p hv (by omega) hw),
        hfr.trans hfr'⟩

theorem page_aligned (v : Nat) : ¬ v * 4096 % pagingPageSize ≠ 0 := by
  unfold pagingPageSize
  omega

/-- **A range is mapped.** -/
theorem pagingMapTo_run (h : s.Maps m f entry) (hh : m.Holds (s.runs ++ L)) (hf : f < 4096)
    {v p n g : Nat} (hg : g < 4096) (hv : v < 1048576) (hp : p + n < 1048576) : ∃ m',
      pagingMapTo (blockAddr s.chunk) (v * 4096) (p * 4096) ((p + n) * 4096) g m = .ok (0, m') ∧
      m'.heap = m.heap ∧ s.Maps m' f (remap entry v p n g) ∧ Frame (fun b => b ∈ s.tables) m m' := by
  obtain ⟨m', hrun, h'⟩ := pagingMapLoop_run hf hg n v p m entry h hh hv (by omega) (by omega)
  refine ⟨m', ?_, h'⟩
  have h4 : ¬ (p + n) * 4096 < p * 4096 := by omega
  have h5 : ((p + n) * 4096 - p * 4096) / pagingPageSize = n := by
    unfold pagingPageSize
    omega
  unfold pagingMapTo
  rw [if_neg (page_aligned v), if_neg (page_aligned p), if_neg (page_aligned (p + n)), if_neg h4,
    h5]
  exact hrun

end

/-! ## release -/

section
variable {s : Space} {L : List Run} {m : Machine} {f : Nat}

/-- the release of one block -/
theorem kfree_block {b : Nat} (h : m.Holds (oneBlock b :: L)) : ∃ m',
    kfree (blockAddr b) m = .ok ((), m') ∧ m'.Holds L ∧ m'.mem = m.mem ∧
      freeBlocks m'.heap.table = freeBlocks m.heap.table + 1 :=
  ⟨m.release (oneBlock b), (kfree_ok h).1, (kfree_ok h).2, rfl, freeBlocks_wipe h.tiled rfl⟩

theorem pagingFreeLoop_succ (c fuel i : Nat) :
    pagingFreeLoop c (fuel + 1) i = (readWord c 0 >>= fun directory =>
      readWord directory (4 * i) >>= fun entry => kfree (entry &&& 0xFFFFF000) >>=
      fun _ => pagingFreeLoop c fuel (i + 1)) := rfl

/-- the tables are released one after the other -/
theorem pagingFreeLoop_run (hf : f < 4096) (fuel : Nat) : ∀ (i : Nat) (m : Machine),
    i + fuel = 1024 → s.Rooted m f → (∀ j < 1024, s.table j < heapBlocks) →
      m.Holds ((s.tables.drop i).map oneBlock ++ L) → ∃ m',
      pagingFreeLoop (blockAddr s.chunk) fuel i m = .ok ((), m') ∧ m'.Holds L ∧ m'.mem = m.mem ∧
      freeBlocks m'.heap.table = freeBlocks m.heap.table + fuel := by
  induction fuel with
  | zero =>
    intro i m hi hr hlt hh
    have e : s.tables.drop i = [] := List.drop_eq_nil_of_le (by rw [s.length]; omega)
    rw [e] at hh
    exact ⟨m, rfl, hh, rfl, rfl⟩
  | succ fuel ih =>
    intro i m hi hr hlt hh
    have hi' : i < s.tables.length := by
      rw [s.length]
      omega
    have htab : s.table i = s.tables[i] := List.getD_eq_getElem _ _ hi'
    rw [List.drop_eq_getElem_cons hi', List.map_cons, ← htab] at hh
    obtain ⟨m1, hfree, hh1, hmem1, hcount1⟩ := kfree_block hh
    have hr1 : s.Rooted m1 f := ⟨by rw [hmem1]; exact hr.chunk, by rw [hmem1]; exact hr.dir⟩
    obtain ⟨m', hrun, hh', hmem', hcount'⟩ := ih (i + 1) m1 (by omega) hr1 hlt hh1
    have h0 : readWord (blockAddr s.chunk) 0 m = .ok (blockAddr s.directory, m) := by
      rw [readWord_ok m blockAddr_ne, Nat.add_zero, hr.chunk]
    have h1 : readWord (blockAddr s.directory) (4 * i) m = .ok (blockAddr (s.table i) + f, m) := by
      rw [readWord_ok m blockAddr_ne, hr.dir i (by omega)]
    refine ⟨m', ?_, hh', hmem'.trans hmem1, by omega⟩
    rw [pagingFreeLoop_succ, bind_ok h0, bind_ok h1, table_of_entry (hlt i (by omega)) hf,
      bind_ok hfree, hrun]

/-- **The release of a space.**  Its blocks are free again, the memory is as it was. -/
theorem pagingFree4gb_run (h : s.Rooted m f) (hf : f < 4096) (hh : m.Holds (s.runs ++ L)) : ∃ m',
    pagingFree4gb (blockAddr s.chunk) m = .ok ((), m') ∧ m'.Holds L ∧ m'.mem = m.mem ∧
      freeBlocks m'.heap.table = freeBlocks m.heap.table + 1026 := by
  have hp : (s.runs ++ L).Perm
      ((s.tables.drop 0).map oneBlock ++ (oneBlock s.directory :: oneBlock s.chunk :: L)) := by
    have h1 : s.runs ++ L = oneBlock s.chunk :: oneBlock s.directory :: (s.tables.map oneBlock ++ L) :=
      rfl
    rw [h1, List.drop_zero]
    exact ((List.Perm.swap _ _ _).trans (List.perm_middle.symm.cons _)).trans List.perm_middle.symm
  obtain ⟨m1, hloop, hh1, hmem1, hcount1⟩ := pagingFreeLoop_run hf 1024 0 m rfl h
    (fun j hj => Space.blocks_lt hh (s.table_mem_blocks hj)) (hh.perm hp)
  obtain ⟨m2, hdir, hh2, hmem2, hcount2⟩ := kfree_block hh1
  obtain ⟨m3, hchunk, hh3, hmem3, hcount3⟩ := kfree_block hh2
  have h0 : readWord (blockAddr s.chunk) 0 m1 = .ok (blockAddr s.directory, m1) := by
    rw [readWord_ok m1 blockAddr_ne, Nat.add_zero, hmem1, h.chunk]
  refine ⟨m3, ?_, hh3, hmem3.trans (hmem2.trans hmem1), by omega⟩
  unfold pagingFree4gb
  rw [bind_ok hloop, bind_ok h0, bind_ok hdir, hchunk]

/-! ## the processor -/

theorem testBit_flags (x : Nat) {f k : Nat} (hf : f < 4096) (hk : k < 12) :
    (x * 4096 + f).testBit k = f.testBit k := by
  have h := Nat.testBit_two_pow_mul_add x (i := 12) hf k
  rw [if_pos hk, Nat.mul_comm] at h
  exact h

theorem blockAddr_base (b : Nat) {f : Nat} (hf : f < 4096) :
    (blockAddr b + f) / 4096 * 4096 = blockAddr b := by
  rw [blockAddr_page]
  omega

/-- the translation that a page table entry gives for the byte at `off` of its page -/
def pageTranslation (entry off : Nat) : Option Translation :=
  if entry.testBit 0 then
    some ⟨entry / 4096 * 4096 + off, entry.testBit 1, entry.testBit 2⟩
  else none

/-- **What the processor does in a space** whose directory is present, writable and open to the
user: the page table entry decides. -/
theorem translate_maps {entry : Nat → Nat} (h : s.Maps m 7 entry) {va : Nat}
    (hva : va < 4294967296) :
    translate m.mem (blockAddr s.directory) va = pageTranslation (entry (va / 4096)) (va % 4096) := by
  have hi : va / 4194304 < 1024 := by omega
  have hdir := h.dir (va / 4194304) hi
  have htab := h.table (va / 4194304) hi (va / 4096 % 1024) (Nat.mod_lt _ (by decide))
  have hpage : va / 4194304 * 1024 + va / 4096 % 1024 = va / 4096 := by omega
  have hbase := blockAddr_base (s.table (va / 4194304)) (by decide : 7 < 4096)
  have hbit : ∀ k < 3, (blockAddr (s.table (va / 4194304)) + 7).testBit k = true := by
    intro k hk
    rw [blockAddr_page, testBit_flags _ (by decide) (by omega)]
    interval_cases k <;> rfl
  unfold translate
  simp only [hdir, hbase, htab, hpage, hbit 0 (by decide), hbit 1 (by decide), hbit 2 (by decide),
    Bool.true_and]
  rfl

end

end LameOS
