import LameOS.Isr80h.HandlerSpec

/-!
# The text of a print command

What a system call does to the heap stays in the task's struct, its tables and a scratch block; a
string that lies elsewhere is copied as it is.

* `Spared L a`            address `a` lies below the heap or in an allocation of others;
* `PrefixAt`              what `strncpy` finds at an address, with room for some bytes;
* `strncpyMem_text`       the loop of `strncpy`;
* `Scratched.copied`      what reaches the buffer;
* `printedText_string`    **what is printed** is the string at the address on top of the stack.
-/

set_option linter.unusedVariables false

namespace LameOS
open Lib Lib.Exec

/-! ## addresses that a system call leaves alone -/

def Spared (L : List Run) (a : Nat) : Prop := a < heapAddress ∨ ∃ r ∈ L, ∃ b, r.Mem b ∧ InBlock b a

section
variable {L : List Run} {s s' : CallState} {a : Nat}

/-- a byte, from the word it lies in -/
theorem byte_of_word {m m' : Mem} (h : m'.load (a - a % 4) = m.load (a - a % 4)) :
    m' (BitVec.ofNat 32 a) = m (BitVec.ofNat 32 a) := by
  have hk := Mem.bytes_of_load h (show a % 4 < 4 by omega)
  rw [← BitVec.ofNat_add, Nat.sub_add_cancel (Nat.mod_le a 4)] at hk
  exact hk

theorem Served.byte (h : Served L s s') (ha : Spared L a) :
    s'.mem (BitVec.ofNat 32 a) = s.mem (BitVec.ofNat 32 a) := by
  refine byte_of_word ?_
  rcases ha with ha | ⟨r, hr, b, hb, hin⟩
  · have ha : a < 0x1000000 := ha
    refine h.below _ ⟨by omega, by omega⟩ ?_
    show a - a % 4 < 0x1000000
    omega
  · have e := h.untouched r hr b hb (a % 4096 / 4) (by omega)
    unfold InBlock at hin
    rw [blockAddr_page, show (4096 + b) * 4096 + 4 * (a % 4096 / 4) = a - a % 4 by omega] at e
    exact e

end

/-! ## the loop of `strncpy` -/

/-- the string `text` lies at `va` -/
def StringAt (m : Mem) (phys : Nat → Nat) (va : Nat) (text : List UInt8) : Prop :=
  (∀ i (h : i < text.length), m (BitVec.ofNat 32 (phys (va + i))) = (text.get ⟨i, h⟩).toBitVec) ∧
    m (BitVec.ofNat 32 (phys (va + text.length))) = 0

/-- a word whose low half is a byte holds a string of that byte -/
theorem StringAt.byte {m : Mem} {phys : Nat → Nat} {va a : Nat} {c : UInt8}
    (hphys : ∀ i < 2, phys (va + i) = a + i) (h : m.load a % 65536 = c.toNat) :
    StringAt m phys va [c] := by
  rw [Mem.load_half] at h
  have h0 := (m (BitVec.ofNat 32 a)).isLt
  have h1 := (m (BitVec.ofNat 32 a + 1)).isLt
  have hc := c.toNat_lt
  refine ⟨fun i hi => ?_, ?_⟩
  · obtain rfl : i = 0 := Nat.lt_one_iff.mp hi
    rw [hphys 0 Nat.two_pos, Nat.add_zero]
    refine BitVec.eq_of_toNat_eq ?_
    show (m (BitVec.ofNat 32 a)).toNat = c.toNat
    omega
  · show m (BitVec.ofNat 32 (phys (va + 1))) = 0
    rw [hphys 1 Nat.one_lt_two, BitVec.ofNat_add]
    refine BitVec.eq_of_toNat_eq ?_
    show (m (BitVec.ofNat 32 a + 1)).toNat = 0
    omega

theorem StringAt.tail {m : Mem} {phys : Nat → Nat} {va : Nat} {c : UInt8} {cs : List UInt8}
    (h : StringAt m phys va (c :: cs)) : StringAt m phys (va + 1) cs := by
  refine ⟨fun i hi => ?_, ?_⟩
  · have e := h.1 (i + 1) (Nat.succ_lt_succ hi)
    rw [show va + (i + 1) = va + 1 + i by omega] at e
    exact e
  · have e := h.2
    rw [List.length_cons, show va + (cs.length + 1) = va + 1 + cs.length by omega] at e
    exact e

/-- what `strncpy` finds at `va` with room for `n` bytes: `text`, and the end of the string when that
is in reach -/
structure PrefixAt (m : Mem) (phys : Nat → Nat) (va n : Nat) (text : List UInt8) : Prop where
  length : text.length ≤ n
  bytes : ∀ i (h : i < text.length), m (BitVec.ofNat 32 (phys (va + i))) = (text.get ⟨i, h⟩).toBitVec
  ending : text.length < n → m (BitVec.ofNat 32 (phys (va + text.length))) = 0
  clean : ∀ c ∈ text, c ≠ 0

theorem StringAt.prefixAt {m : Mem} {phys : Nat → Nat} {va n : Nat} {text : List UInt8}
    (h : StringAt m phys va text) (hn : text.length ≤ n) (hnz : ∀ c ∈ text, c ≠ 0) :
    PrefixAt m phys va n text := ⟨hn, h.1, fun _ => h.2, hnz⟩

theorem PrefixAt.tail {m : Mem} {phys : Nat → Nat} {va n : Nat} {c : UInt8} {cs : List UInt8}
    (h : PrefixAt m phys va (n + 1) (c :: cs)) : PrefixAt m phys (va + 1) n cs := by
  refine ⟨Nat.le_of_succ_le_succ h.length, fun i hi => ?_, fun hlt => ?_,
    fun d hd => h.clean d (List.mem_cons_of_mem _ hd)⟩
  · have e := h.bytes (i + 1) (Nat.succ_lt_succ hi)
    rw [show va + (i + 1) = va + 1 + i by omega] at e
    exact e
  · have e := h.ending (Nat.succ_lt_succ hlt)
    rw [List.length_cons, show va + (cs.length + 1) = va + 1 + cs.length by omega] at e
    exact e

/-- the same bytes elsewhere -/
theorem PrefixAt.congr {m m' : Mem} {phys phys' : Nat → Nat} {va n : Nat} {text : List UInt8}
    (h : PrefixAt m phys va n text) (he : ∀ k ≤ text.length, k < n →
      m' (BitVec.ofNat 32 (phys' (va + k))) = m (BitVec.ofNat 32 (phys (va + k)))) :
    PrefixAt m' phys' va n text where
  length := h.length
  bytes i hi := (he i (le_of_lt hi) (lt_of_lt_of_le hi h.length)).trans (h.bytes i hi)
  ending hlt := (he _ (le_refl _) hlt).trans (h.ending hlt)
  clean := h.clean

/-- a byte is stored that is none of the rest, which is where it was -/
theorem PrefixAt.store {m : Mem} {phys : Nat → Nat} {va n : Nat} {c : UInt8} {cs : List UInt8}
    (h : PrefixAt m phys va (n + 1) (c :: cs)) {p : BitVec 32} {x : BitVec 8}
    (hp : ∀ k ≤ cs.length, k < n → BitVec.ofNat 32 (phys (va + (k + 1))) ≠ p) :
    PrefixAt (Function.update m p x) phys (va + 1) n cs := by
  refine h.tail.congr (fun k hk hlt => ?_)
  have hne := hp k hk hlt
  rw [show va + (k + 1) = va + 1 + k by omega] at hne
  exact Function.update_of_ne hne _ _

/-- the string and its end in `n` bytes from `a` on -/
theorem shown_bytesAt (text : List UInt8) : ∀ (m : Mem) (a n : Nat), text.length < n →
    (∀ c ∈ text, c ≠ 0) → StringAt m id a text → shown (bytesAt m a n) = text := by
  induction text with
  | nil =>
    intro m a n hn _ h
    obtain ⟨n, rfl⟩ : ∃ k, n = k + 1 := ⟨n - 1, by simp at hn; omega⟩
    have h0 : m (BitVec.ofNat 32 (a + 0)) = 0 := h.2
    unfold shown bytesAt
    rw [List.range_succ_eq_map, List.map_cons, h0]
    rfl
  | cons c cs ih =>
    intro m a n hn hnz h
    rw [List.length_cons] at hn
    obtain ⟨n, rfl⟩ : ∃ k, n = k + 1 := ⟨n - 1, by omega⟩
    have h0 : m (BitVec.ofNat 32 (a + 0)) = c.toBitVec := h.1 0 (Nat.succ_pos _)
    have hrest := ih m (a + 1) n (by omega) (fun d hd => hnz d (List.mem_cons_of_mem _ hd)) h.tail
    have htail : (List.range n).map ((fun i => UInt8.ofBitVec (m (BitVec.ofNat 32 (a + i)))) ∘
        Nat.succ) = bytesAt m (a + 1) n := by
      unfold bytesAt
      refine List.map_congr_left (fun i _ => ?_)
      show UInt8.ofBitVec (m (BitVec.ofNat 32 (a + (i + 1)))) = _
      rw [show a + (i + 1) = a + 1 + i by omega]
    have hc : c ≠ 0 := hnz c List.mem_cons_self
    unfold shown at hrest ⊢
    unfold bytesAt
    rw [List.range_succ_eq_map, List.map_cons, List.map_map, htail, h0,
      show UInt8.ofBitVec c.toBitVec = c from rfl, List.takeWhile_cons_of_pos (by simp [hc]), hrest]

section
variable {phys : Nat → Nat} {dest src : Nat}

theorem ofNat_ne {a b : Nat} (ha : a < 4294967296) (hb : b < 4294967296) (h : a ≠ b) :
    BitVec.ofNat 32 a ≠ BitVec.ofNat 32 b := by
  intro e
  have e := congrArg BitVec.toNat e
  rw [BitVec.toNat_ofNat, BitVec.toNat_ofNat, Nat.mod_eq_of_lt ha, Nat.mod_eq_of_lt hb] at e
  exact h e

/-- the bytes before the ones that are stored -/
theorem strncpyMem_before (hd : dest + 4096 ≤ 4294967296) (fuel : Nat) :
    ∀ (i : Nat) (m : Mem) (j : Nat), j < i → i + fuel < 4096 →
      strncpyMem phys dest src fuel i m (BitVec.ofNat 32 (dest + j))
        = m (BitVec.ofNat 32 (dest + j)) := by
  have hne : ∀ i j, j < i → i < 4096 → BitVec.ofNat 32 (dest + j) ≠ BitVec.ofNat 32 (dest + i) :=
    fun i j hj hi => ofNat_ne (by omega) (by omega) (by omega)
  induction fuel with
  | zero =>
    intro i m j hj hi
    exact Function.update_of_ne (hne i j hj (by omega)) _ _
  | succ fuel ih =>
    intro i m j hj hi
    unfold strncpyMem
    dsimp only
    split
    · exact Function.update_of_ne (hne i j hj (by omega)) _ _
    · rw [ih (i + 1) _ j (by omega) (by omega)]
      exact Function.update_of_ne (hne i j hj (by omega)) _ _

/-- **The loop of `strncpy`**, when no byte that it reads is in the page of the destination: behind
the bytes that it finds stands a zero -/
theorem strncpyMem_text (hd : dest + 4096 ≤ 4294967296) (text : List UInt8) :
    ∀ (fuel i : Nat) (m : Mem), i + fuel < 4096 → PrefixAt m phys (src + i) fuel text →
      (∀ k ≤ text.length, k < fuel → ∀ j < 4096,
        BitVec.ofNat 32 (phys (src + i + k)) ≠ BitVec.ofNat 32 (dest + j)) →
        StringAt (strncpyMem phys dest src fuel i m) id (dest + i) text := by
  induction text with
  | nil =>
    intro fuel i m _ h _
    refine ⟨fun j hj => absurd hj (Nat.not_lt_zero j), ?_⟩
    show strncpyMem phys dest src fuel i m (BitVec.ofNat 32 (dest + i)) = 0
    cases fuel with
    | zero => exact Function.update_self (β := fun _ => BitVec 8) _ _ _
    | succ fuel =>
      have h0 : m (BitVec.ofNat 32 (phys (src + i))) = 0 := h.ending (Nat.succ_pos _)
      unfold strncpyMem
      dsimp only
      rw [if_pos h0, Function.update_self]
  | cons c cs ih =>
    intro fuel i m hi h hout
    have hlen := h.length
    rw [List.length_cons] at hlen hout
    obtain ⟨fuel, rfl⟩ : ∃ k, fuel = k + 1 := ⟨fuel - 1, by omega⟩
    have h0 : m (BitVec.ofNat 32 (phys (src + i))) = c.toBitVec := h.bytes 0 (Nat.succ_pos _)
    have hc : m (BitVec.ofNat 32 (phys (src + i))) ≠ 0 := by
      rw [h0]
      intro e
      exact h.clean c List.mem_cons_self (UInt8.eq_of_toBitVec_eq e)
    unfold strncpyMem
    dsimp only
    rw [if_neg hc, h0]
    generalize hm : Function.update m (BitVec.ofNat 32 (dest + i)) c.toBitVec = m1
    have hnext : ∀ k, src + i + (k + 1) = src + (i + 1) + k := fun k => by omega
    have hdone := ih fuel (i + 1) m1 (by omega) ?_ (fun k hk hlt j hj => ?_)
    · refine ⟨fun j hj => ?_, ?_⟩
      · cases j with
        | zero =>
          show strncpyMem phys dest src fuel (i + 1) m1 (BitVec.ofNat 32 (dest + i)) = c.toBitVec
          rw [strncpyMem_before hd fuel (i + 1) m1 i (Nat.lt_succ_self i) (by omega), ← hm,
            Function.update_self]
        | succ j =>
          have e := hdone.1 j (Nat.lt_of_succ_lt_succ hj)
          rw [show dest + (i + 1) + j = dest + i + (j + 1) by omega] at e
          exact e
      · have e := hdone.2
        rw [show dest + (i + 1) + cs.length = dest + i + (cs.length + 1) by omega] at e
        exact e
    · rw [← hm]
      refine h.store (fun k hk hlt => ?_)
      exact hout (k + 1) (Nat.succ_le_succ hk) (Nat.succ_lt_succ hlt) i (by omega)
    · have e := hout (k + 1) (Nat.succ_le_succ hk) (Nat.succ_lt_succ hlt) j hj
      rw [hnext k] at e
      exact e

end

/-! ## what is printed -/

section
variable {entry : Nat → Nat} {space : Space} {t b : Nat} {L : List Run} {s : CallState}

theorem physOf_lt (h : TaskSpace entry space t L s) (va : Nat) : physOf entry va < 4294967296 := by
  have hentry := h.maps.entry_lt (v := va % 4294967296 / 4096) (by omega)
  unfold physOf
  omega

/-- another page than the scratch page lies where it did -/
theorem physOf_scratch {va : Nat} (h : va % 4294967296 / 4096 ≠ 4096 + b) :
    physOf (scratchEntry entry (blockAddr b)) va = physOf entry va := by
  unfold physOf
  rw [scratchEntry_block, Function.update_of_ne h]

/-- an address that is not in the scratch block -/
theorem block_ne (hb : b < heapBlocks) {a j : Nat} (ha : a < 4294967296) (hin : ¬ InBlock b a)
    (hj : j < 4096) : BitVec.ofNat 32 a ≠ BitVec.ofNat 32 (blockAddr b + j) := by
  have hlt := blockAddr_lt hb
  unfold InBlock at hin
  rw [blockAddr_page] at hlt ⊢
  exact ofNat_ne ha (by omega) (by omega)

/-- what is found while the scratch page is mapped is what is copied -/
theorem Scratched.copied {max virtual : Nat} {m1 m2 : Machine} {text : List UInt8}
    (hs : Scratched entry space t L s max b m1 m2) (h1 : 1 ≤ max) (h2 : max < 4096)
    (htext : PrefixAt m2.mem (physOf (scratchEntry entry (blockAddr b))) virtual (max - 1) text)
    (hout : ∀ i ≤ text.length, i < max - 1 →
      ¬ InBlock b (physOf (scratchEntry entry (blockAddr b)) (virtual + i))) :
    copiedBytes entry b m2.mem virtual max = text ++ [0] := by
  have hb := blockAddr_lt hs.outside.lt
  have hcopy := strncpyMem_text (by omega) text (max - 1) 0 m2.mem (by omega) htext
    (fun i hi hlt j hj => block_ne hs.outside.lt (physOf_lt hs.mapped _) (hout i hi hlt) hj)
  rw [Nat.add_zero] at hcopy
  have hlen := htext.length
  unfold copiedBytes
  rw [strncpyBytes_eq, shown_bytesAt text _ _ _ (by omega) htext.clean hcopy,
    List.take_of_length_le hlen]

/-- an address that is spared is none of the scratch block -/
theorem TaskSpace.spared_block {a : Nat} (h : TaskSpace entry space t (oneBlock b :: L) s)
    (ha : Spared L a) : ¬ InBlock b a := by
  intro hin
  rcases ha with ha | ⟨r, hr, c, hc, hin'⟩
  · have ha : a < 0x1000000 := ha
    unfold InBlock at hin
    omega
  · exact h.apart hr hc (Or.inl (hin'.unique hin))

/-- **The text of a print command**: the string that the task has at `va`, when the pages of the
string are no pages of the heap and it lies where no system call writes -/
theorem printedText_string (h : Running entry space t L s)
    (hfree : 0 < freeBlocks s.kernel.machine.heap.table) {sp va : Nat} {text : List UInt8}
    (hva : userWord s.mem entry sp = va) (hlen : text.length ≤ 1022) (hnz : ∀ c ∈ text, c ≠ 0)
    (hpage : ∀ k ≤ text.length, (va + k) % 4294967296 / 4096 < 4096)
    (hspared : ∀ k ≤ text.length, Spared L (physOf entry (va + k)))
    (htext : StringAt s.mem (physOf entry) va text) (buf : List UInt8) :
    printedText entry (blockAddr space.chunk) s.kernel.machine sp buf = text := by
  obtain ⟨b, m1, m2, hs⟩ := h.taskSpace.scratchMapped (show 1 ≤ 1024 by decide)
    (show 1024 < 4096 by decide) hfree
  -- the scratch page is none of the pages of the string
  have hphys : ∀ k ≤ text.length,
      physOf (scratchEntry entry (blockAddr b)) (va + k) = physOf entry (va + k) := by
    intro k hk
    have := hpage k hk
    exact physOf_scratch (by omega)
  have htext2 : PrefixAt m2.mem (physOf (scratchEntry entry (blockAddr b))) va 1023 text := by
    refine (htext.prefixAt (by omega) hnz).congr (fun k hk _ => ?_)
    rw [hphys k hk]
    exact hs.served.byte (hspared k hk)
  have hcopied := hs.copied (by decide) (by decide) htext2 (fun k hk _ => by
    rw [hphys k hk]
    exact hs.mapped.spared_block (hspared k hk))
  have hva : userWord s.kernel.machine.mem entry sp = va := hva
  unfold printedText copiedText
  rw [hva, hs.kzalloc]
  dsimp only
  rw [if_neg blockAddr_ne, hs.pagingMap]
  show shown (copiedBytes entry b m2.mem va 1024 ++ _) = text
  rw [hcopied]
  exact shown_text hnz _

end

end LameOS
