import LameOS.Lib.Run
import LameOS.Memory.PagingSpec

/-!
# Laws of the address spaces

What is read back of a page directory, entry by entry.

* `PageTables m dir table`   page `dir` is a directory, its words point to the pages `table`;
* `paging_set_get`           an entry that is set is read back, the other ones are as before;
* `paging_new_4gb_identity`  a new space has every page mapped to itself;
* `paging_map_to_maps`       what a call of `paging_map_to` maps, in any run of such calls.
-/

set_option linter.unusedVariables false

namespace LameOS
open Lib Lib.Exec

/-! ## one entry -/

/-- the words of the directory on page `dir` point to the pages `table`, with flags in their low
12 bits -/
structure PageTables (m : Mem) (dir : Nat) (table : Nat → Nat) : Prop where
  dirPage : 0 < dir ∧ dir < 1048576
  page : ∀ i < 1024, 0 < table i ∧ table i < 1048576
  apart : ∀ i < 1024, table i ≠ dir
  distinct : ∀ i < 1024, ∀ j < 1024, table i = table j → i = j
  entry : ∀ i < 1024, m.load (dir * 4096 + 4 * i) / 4096 = table i

section
variable {m : Machine} {dir : Nat} {table : Nat → Nat}

/-- the words of two pages -/
theorem page_word_ne {p q i j : Nat} (hi : i < 1024) (hj : j < 1024) (h : p ≠ q ∨ i ≠ j) :
    p * 4096 + 4 * i ≠ q * 4096 + 4 * j := by
  intro e
  rcases h with h | h <;> omega

theorem page_word {p i : Nat} (hp : p < 1048576) (hi : i < 1024) : Mem.Word (p * 4096 + 4 * i) :=
  ⟨by omega, by omega⟩

/-- the walk to the table of a page -/
theorem PageTables.walk (h : PageTables m.mem dir table) {i : Nat} (hi : i < 1024) : ∃ e,
    readWord (dir * 4096) (4 * i) m = .ok (e, m) ∧ e &&& 0xFFFFF000 = table i * 4096 := by
  have hdir := h.dirPage
  have hlt := Mem.load_lt m.mem (dir * 4096 + 4 * i)
  refine ⟨m.mem.load (dir * 4096 + 4 * i), readWord_ok m (by omega) _, ?_⟩
  have hentry := h.entry i hi
  generalize m.mem.load (dir * 4096 + 4 * i) = e at hlt hentry
  have hpage := h.page i hi
  have he : e = table i * 4096 + e % 4096 := by omega
  rw [he]
  exact and_mask hpage.2 (by omega)

theorem PageTables.get (h : PageTables m.mem dir table) {v : Nat} (hv : v < 1048576) :
    pagingGet (dir * 4096) (v * 4096) m
      = .ok (m.mem.load (table (v / 1024) * 4096 + 4 * (v % 1024)), m) := by
  have hi : v / 1024 < 1024 := by omega
  have hpage := h.page _ hi
  obtain ⟨e, hread, he⟩ := h.walk hi
  unfold pagingGet
  rw [pagingGetIndices_page]
  show (readWord (dir * 4096) (4 * (v / 1024)) >>= fun e => _) m = _
  rw [bind_ok hread, he, readWord_ok m (by omega)]

theorem PageTables.set (h : PageTables m.mem dir table) {v : Nat} (hv : v < 1048576) (x : Nat) :
    pagingSet (dir * 4096) (v * 4096) x m = .ok (0, { m with
      mem := m.mem.store (table (v / 1024) * 4096 + 4 * (v % 1024)) x }) := by
  have hi : v / 1024 < 1024 := by omega
  have hpage := h.page _ hi
  obtain ⟨e, hread, he⟩ := h.walk hi
  have ha : pagingIsAligned (v * 4096) = true := by
    unfold pagingIsAligned pagingPageSize
    exact decide_eq_true (by omega)
  have hw : writeWord (table (v / 1024) * 4096) (4 * (v % 1024)) x m = .ok ((), { m with
      mem := m.mem.store (table (v / 1024) * 4096 + 4 * (v % 1024)) x }) := if_neg (by omega)
  unfold pagingSet
  rw [ha, pagingGetIndices_page]
  show (readWord (dir * 4096) (4 * (v / 1024)) >>= fun e => _) m = _
  rw [bind_ok hread, he, bind_ok hw]
  rfl

/-- the directory is apart from the tables, so a table entry does not change it -/
theorem PageTables.store (h : PageTables m.mem dir table) {i j : Nat} (hi : i < 1024)
    (hj : j < 1024) (x : Nat) : (∀ k < 1024, (m.mem.store (table i * 4096 + 4 * j) x).load
        (dir * 4096 + 4 * k) = m.mem.load (dir * 4096 + 4 * k)) ∧
      PageTables (m.mem.store (table i * 4096 + 4 * j) x) dir table := by
  have hdir : ∀ k < 1024, (m.mem.store (table i * 4096 + 4 * j) x).load (dir * 4096 + 4 * k)
      = m.mem.load (dir * 4096 + 4 * k) := by
    intro k hk
    refine Mem.load_store_ne _ _ (page_word (h.page i hi).2 hj) (page_word h.dirPage.2 hk) ?_
    exact page_word_ne hk hj (Or.inl (fun e => h.apart i hi e.symm))
  exact ⟨hdir, h.dirPage, h.page, h.apart, h.distinct, fun k hk => by rw [hdir k hk, h.entry k hk]⟩

/-- **Entries are read back.**  After `paging_set` the entry of the page is the value; every other
page, and the directory, are as before.  An address that is not aligned is refused. -/
theorem paging_set_get (h : PageTables m.mem dir table) {v x : Nat} (hv : v < 4294967296)
    (hx : x < 4294967296) :
    (v % 4096 = 0 → ∃ m', pagingSet (dir * 4096) v x m = .ok (0, m') ∧
      pagingGet (dir * 4096) v m' = .ok (x, m') ∧
      (∀ w < 4294967296, w % 4096 = 0 → w ≠ v → ∃ y,
        pagingGet (dir * 4096) w m = .ok (y, m) ∧ pagingGet (dir * 4096) w m' = .ok (y, m')) ∧
      ∀ i < 1024, m'.mem.load (dir * 4096 + 4 * i) = m.mem.load (dir * 4096 + 4 * i)) ∧
    (v % 4096 ≠ 0 → ∃ status < 0, pagingSet (dir * 4096) v x m = .ok (status, m)) := by
  constructor
  · intro ha
    obtain ⟨p, rfl, hp⟩ : ∃ p, v = p * 4096 ∧ p < 1048576 := ⟨v / 4096, by omega, by omega⟩
    have hi : p / 1024 < 1024 := by omega
    have hj : p % 1024 < 1024 := by omega
    obtain ⟨hdir, htables⟩ := h.store hi hj x
    refine ⟨_, h.set hp x, ?_, fun w hw haw hne => ?_, hdir⟩
    · rw [PageTables.get (m := { m with mem := m.mem.store _ x }) htables hp]
      rw [Mem.load_store _ _ hx]
    · obtain ⟨q, rfl, hq⟩ : ∃ q, w = q * 4096 ∧ q < 1048576 := ⟨w / 4096, by omega, by omega⟩
      have hi' : q / 1024 < 1024 := by omega
      have hj' : q % 1024 < 1024 := by omega
      refine ⟨_, h.get hq, ?_⟩
      rw [PageTables.get (m := { m with mem := m.mem.store _ x }) htables hq]
      rw [Mem.load_store_ne _ _ (page_word (h.page _ hi).2 hj) (page_word (h.page _ hi').2 hj')]
      apply page_word_ne hj' hj
      -- the index split is injective
      by_cases e : q / 1024 = p / 1024
      · exact Or.inr (by omega)
      · exact Or.inl (fun e' => e (h.distinct _ hi' _ hi e'))
  · intro ha
    have hna : pagingIsAligned v = false := by
      unfold pagingIsAligned pagingPageSize
      exact decide_eq_false ha
    refine ⟨-EINVARG, by decide, ?_⟩
    unfold pagingSet
    rw [hna]
    rfl

end

/-- the tables of a space -/
theorem Space.Maps.pageTables {s : Space} {m : Machine} {f : Nat} {entry : Nat → Nat} {L : List Run}
    (h : s.Maps m f entry) (hh : m.Holds (s.runs ++ L)) (hf : f < 4096) :
    PageTables m.mem (4096 + s.directory) (fun i => 4096 + s.table i) := by
  have hlt := heapBlocks_lt
  have hdir := blocks_lt hh s.directory_mem
  refine ⟨by omega, fun i hi => ?_, fun i hi e => ?_, fun i hi j hj e => ?_, fun i hi => ?_⟩
  · have := blocks_lt hh (s.table_mem_blocks hi)
    omega
  · exact table_ne_directory hh hi (by omega)
  · exact table_inj hh hi hj (by omega)
  · rw [← blockAddr_page, h.dir i hi, blockAddr_page]
    omega

theorem emptyMachine_free : 1026 ≤ freeBlocks emptyMachine.heap.table :=
  le_trans (by decide) emptyMachine_blocks

/-- page 1024 of a new space is mapped to page 1 -/
theorem paging_set_get_new : ∃ (m m' : Machine) (dir : Nat),
    pagingSet (dir * 4096) 0x400000 0x1007 m = .ok (0, m') ∧
      pagingGet (dir * 4096) 0x400000 m' = .ok (0x1007, m') := by
  obtain ⟨s, m, -, hh, hs, -⟩ := pagingNew4gb_run emptyMachine_holds (by decide : 7 < 4096)
    emptyMachine_free
  obtain ⟨m', hset, hget, -⟩ := (paging_set_get (hs.pageTables hh (by decide))
    (by decide : 0x400000 < 4294967296) (by decide : 0x1007 < 4294967296)).1 (by decide)
  exact ⟨m, m', _, hset, hget⟩

/-! ## a new space -/

theorem flags_lt (flags : UInt8) : flags.toNat < 4096 := lt_trans flags.toNat_lt (by decide)

/-- **The identity map.**  In a new space every page is mapped to itself, with the flags; its blocks
are different allocations; the entries of the directory lead to the tables. -/
theorem paging_new_4gb_identity (flags : UInt8) {m : Machine} {L : List Run} (h : m.Holds L)
    (hfree : 1026 ≤ freeBlocks m.heap.table) : ∃ (s : Space) (m' : Machine),
      pagingNew4gb flags.toNat m = .ok (blockAddr s.chunk, m') ∧
      readWord (blockAddr s.chunk) 0 m' = .ok (blockAddr s.directory, m') ∧
      (∀ v < 4294967296, v % 4096 = 0 →
        pagingGet (blockAddr s.directory) v m' = .ok (v ||| flags.toNat, m')) ∧
      m'.Holds (s.runs ++ L) ∧ s.blocks.Nodup ∧
      ∀ i < 1024, ∃ e, readWord (blockAddr s.directory) (4 * i) m' = .ok (e, m') ∧
        e &&& 0xFFFFF000 = blockAddr (s.table i) := by
  have hf := flags_lt flags
  have hf' : flags.toNat ||| pagingIsWriteable < 4096 := lor_writeable_lt hf
  obtain ⟨s, m', hrun, hh, hs, -⟩ := pagingNew4gb_run h hf hfree
  refine ⟨s, m', hrun, ?_, fun v hv ha => ?_, hh, Space.blocks_nodup hh, fun i hi => ?_⟩
  · rw [readWord_ok m' blockAddr_ne, Nat.add_zero, hs.chunk]
  · obtain ⟨p, rfl, hp⟩ : ∃ p, v = p * 4096 ∧ p < 1048576 := ⟨v / 4096, by omega, by omega⟩
    rw [pagingGet_run hs hh hf' hp, lor_flags hf]
  · refine ⟨_, readWord_ok m' blockAddr_ne _, ?_⟩
    rw [hs.dir i hi]
    exact table_of_entry (Space.blocks_lt hh (s.table_mem_blocks hi)) hf'

theorem paging_new_4gb_identity_empty : ∃ (s : Space) (m' : Machine),
    pagingNew4gb 7 emptyMachine = .ok (blockAddr s.chunk, m') ∧
      pagingGet (blockAddr s.directory) 0x400000 m' = .ok (0x400007, m') := by
  obtain ⟨s, m', hrun, -, hget, -⟩ :=
    paging_new_4gb_identity 7 emptyMachine_holds emptyMachine_free
  exact ⟨s, m', hrun, hget 0x400000 (by decide) (by decide)⟩

/-! ## ranges -/

/-- the arguments of a call of `paging_map_to` -/
structure MapCall where
  virt : Nat
  phys : Nat
  physEnd : Nat
  flags : Nat

/-- three addresses and flags -/
structure MapCall.Valid (x : MapCall) : Prop where
  virt : x.virt < 4294967296
  phys : x.phys < 4294967296
  physEnd : x.physEnd < 4294967296
  flags : x.flags < 4096

/-- an address is not aligned, or the range is empty on the wrong side -/
def MapCall.Bad (x : MapCall) : Prop :=
  x.virt % 4096 ≠ 0 ∨ x.phys % 4096 ≠ 0 ∨ x.physEnd % 4096 ≠ 0 ∨ x.physEnd < x.phys

/-- the pages of the range -/
def MapCall.pages (x : MapCall) : Nat := (x.physEnd - x.phys) / 4096

def mapStep (chunk : Nat) (m : Machine) (x : MapCall) : Except Fault Machine := do
  let (_, m) ← pagingMapTo chunk x.virt x.phys x.physEnd x.flags m
  return m

/-- the entry of the page at `v` in the space of a chunk -/
def pageEntry (chunk v : Nat) : Prog Machine Nat := do
  let directory ← readWord chunk 0
  pagingGet directory v

/-- the call is refused and nothing changes, or it maps the pages of the range, and no other -/
def MapsRange (chunk : Nat) (m : Machine) (x : MapCall) : Prop :=
  (x.Bad → ∃ status < 0, pagingMapTo chunk x.virt x.phys x.physEnd x.flags m = .ok (status, m)) ∧
  (¬ x.Bad → ∃ m', pagingMapTo chunk x.virt x.phys x.physEnd x.flags m = .ok (0, m') ∧
    (∀ i < x.pages, pageEntry chunk ((x.virt + 4096 * i) % 4294967296) m'
      = .ok ((x.phys + 4096 * i) ||| x.flags, m')) ∧
    ∀ v < 4294967296, v % 4096 = 0 → (∀ i < x.pages, v ≠ (x.virt + 4096 * i) % 4294967296) →
      ∃ e, pageEntry chunk v m = .ok (e, m) ∧ pageEntry chunk v m' = .ok (e, m'))

section
variable {s : Space} {L : List Run} {m : Machine} {f : Nat} {entry : Nat → Nat}

theorem pageEntry_run (h : s.Maps m f entry) (hh : m.Holds (s.runs ++ L)) (hf : f < 4096) {v : Nat}
    (hv : v < 1048576) : pageEntry (blockAddr s.chunk) (v * 4096) m = .ok (entry v, m) := by
  have hchunk : readWord (blockAddr s.chunk) 0 m = .ok (blockAddr s.directory, m) := by
    rw [readWord_ok m blockAddr_ne, Nat.add_zero, h.chunk]
  unfold pageEntry
  rw [bind_ok hchunk, pagingGet_run h hh hf hv]

theorem pagingMapTo_bad {x : MapCall} (hx : x.Bad) (chunk : Nat) (m : Machine) :
    pagingMapTo chunk x.virt x.phys x.physEnd x.flags m = .ok (-EINVARG, m) := by
  unfold MapCall.Bad at hx
  unfold pagingMapTo pagingPageSize
  by_cases h1 : x.virt % 4096 ≠ 0
  · rw [if_pos h1]
    rfl
  · rw [if_neg h1]
    by_cases h2 : x.phys % 4096 ≠ 0
    · rw [if_pos h2]
      rfl
    · rw [if_neg h2]
      by_cases h3 : x.physEnd % 4096 ≠ 0
      · rw [if_pos h3]
        rfl
      · rw [if_neg h3, if_pos (((hx.resolve_left h1).resolve_left h2).resolve_left h3)]
        rfl

/-- the pages of a range, around the top of the address space -/
theorem remap_page (entry : Nat → Nat) {v i n : Nat} (p g : Nat) (hv : v < 1048576) (hi : i < n)
    (hn : n < 1048576) : remap entry v p n g ((v + i) % 1048576) = (p + i) * 4096 + g := by
  have hdist : pageDist v ((v + i) % 1048576) = i := by
    unfold pageDist
    omega
  unfold remap
  rw [hdist, if_pos hi]

theorem remap_other (entry : Nat → Nat) {v n w : Nat} (p g : Nat) (hv : v < 1048576)
    (hw : w < 1048576) (hout : ∀ i < n, w ≠ (v + i) % 1048576) : remap entry v p n g w = entry w := by
  have hdist : w = (v + pageDist v w) % 1048576 := by
    unfold pageDist
    omega
  unfold remap
  exact if_neg (fun hlt => hout _ hlt hdist)

/-- one call -/
theorem mapsRange_of_maps (h : s.Maps m f entry) (hh : m.Holds (s.runs ++ L)) (hf : f < 4096)
    {x : MapCall} (hx : x.Valid) : MapsRange (blockAddr s.chunk) m x ∧
      ∀ m', mapStep (blockAddr s.chunk) m x = .ok m' → ∃ entry', s.Maps m' f entry' ∧
        m'.Holds (s.runs ++ L) := by
  by_cases hbad : x.Bad
  · have hrun := pagingMapTo_bad hbad (blockAddr s.chunk) m
    refine ⟨⟨fun _ => ⟨-EINVARG, by decide, hrun⟩, fun hno => absurd hbad hno⟩, fun m' hstep => ?_⟩
    unfold mapStep at hstep
    rw [hrun] at hstep
    obtain rfl := Except.ok.inj hstep
    exact ⟨entry, h, hh⟩
  · obtain ⟨virt, phys, physEnd, g⟩ := x
    obtain ⟨hv, hp, he, hg⟩ := hx
    dsimp only at hv hp he hg
    have hgood : virt % 4096 = 0 ∧ phys % 4096 = 0 ∧ physEnd % 4096 = 0 ∧ phys ≤ physEnd := by
      unfold MapCall.Bad at hbad
      dsimp only at hbad
      omega
    obtain ⟨v, rfl, hv'⟩ : ∃ v, virt = v * 4096 ∧ v < 1048576 := ⟨virt / 4096, by omega, by omega⟩
    obtain ⟨p, rfl⟩ : ∃ p, phys = p * 4096 := ⟨phys / 4096, by omega⟩
    obtain ⟨n, rfl, hn⟩ : ∃ n, physEnd = (p + n) * 4096 ∧ p + n < 1048576 :=
      ⟨physEnd / 4096 - p, by omega, by omega⟩
    have hpages : MapCall.pages ⟨v * 4096, p * 4096, (p + n) * 4096, g⟩ = n := by
      unfold MapCall.pages
      dsimp only
      omega
    obtain ⟨m1, hrun, hheap, hmaps, -⟩ := pagingMapTo_run h hh hf hg hv' hn
    have hh1 := hh.congr hheap
    refine ⟨⟨fun hb => absurd hb hbad, fun _ => ⟨m1, hrun, fun i hi => ?_, fun w hw ha hout => ?_⟩⟩,
      fun m' hstep => ?_⟩
    · rw [hpages] at hi
      show pageEntry _ ((v * 4096 + 4096 * i) % 4294967296) m1 = .ok ((p * 4096 + 4096 * i) ||| g, m1)
      have hvirt : (v * 4096 + 4096 * i) % 4294967296 = (v + i) % 1048576 * 4096 := by omega
      have hphys : p * 4096 + 4096 * i = (p + i) * 4096 := by omega
      rw [hvirt, hphys, lor_flags hg, pageEntry_run hmaps hh1 hf (by omega),
        remap_page entry p g hv' hi (by omega)]
    · obtain ⟨q, rfl, hq⟩ : ∃ q, w = q * 4096 ∧ q < 1048576 := ⟨w / 4096, by omega, by omega⟩
      rw [hpages] at hout
      refine ⟨entry q, pageEntry_run h hh hf hq, ?_⟩
      rw [pageEntry_run hmaps hh1 hf hq, remap_other entry p g hv' hq]
      intro i hi e
      have hne : q * 4096 ≠ (v * 4096 + 4096 * i) % 4294967296 := hout i hi
      omega
    · unfold mapStep at hstep
      rw [hrun] at hstep
      obtain rfl := Except.ok.inj hstep
      exact ⟨_, hmaps, hh1⟩

end

/-- **Ranges of pages.**  In a space built by `paging_new_4gb`, after any calls of `paging_map_to`:
a call with an address that is not aligned, or with the end before the start, is refused and changes
nothing; any other maps the pages of its range, around the top of the address space, and leaves the
other entries. -/
theorem paging_map_to_maps (flags : UInt8) {m0 m1 : Machine} {L : List Run} {chunk : Nat}
    (h : m0.Holds L) (hnew : pagingNew4gb flags.toNat m0 = .ok (chunk, m1)) (calls : List MapCall)
    (hcalls : ∀ x ∈ calls, x.Valid) :
    Throughout (mapStep chunk) (fun _ => True) (MapsRange chunk) m1 calls := by
  have hf := flags_lt flags
  have hfree : 1026 ≤ freeBlocks m0.heap.table := by
    by_contra hno
    rw [pagingNew4gb_fault h hf (by omega)] at hnew
    cases hnew
  obtain ⟨s, m', hrun, hh, hs, -⟩ := pagingNew4gb_run h hf hfree
  rw [hrun] at hnew
  obtain ⟨rfl, rfl⟩ := ok_inj hnew
  refine throughout_of_meets (I := fun m => ∃ entry,
      s.Maps m (flags.toNat ||| pagingIsWriteable) entry ∧ m.Holds (s.runs ++ L))
    (C := fun _ x => x.Valid) (fun _ _ => trivial) ?_ m' calls ⟨_, hs, hh⟩
    (meets_of_forall hcalls)
  rintro m x ⟨entry, hm, hhm⟩ hx
  exact mapsRange_of_maps hm hhm (lor_writeable_lt hf) hx

/-- three pages across the top of the address space -/
theorem paging_map_to_maps_top : ∃ m1 chunk, pagingNew4gb 7 emptyMachine = .ok (chunk, m1) ∧
    Throughout (mapStep chunk) (fun _ => True) (MapsRange chunk) m1
      [⟨0xFFFFF000, 0x1000, 0x4000, 7⟩] := by
  obtain ⟨s, m1, hrun, -⟩ := pagingNew4gb_run emptyMachine_holds (by decide : 7 < 4096)
    emptyMachine_free
  refine ⟨m1, _, hrun, paging_map_to_maps 7 emptyMachine_holds hrun _ (fun x hx => ?_)⟩
  obtain rfl := List.mem_singleton.mp hx
  exact ⟨by decide, by decide, by decide, by decide⟩

end LameOS
