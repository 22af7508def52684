import LameOS.Config
import LameOS.Lib.Bytes

/-!
# `idt.c`: the table of interrupts

The table and its register lie in memory as the structs of `idt.h` do; the processor takes a vector to
eight bytes of the table.

* `idtSet`, `idtInit`     what the kernel writes, and what `lidt` loads;
* `gateOf`                how the processor reads the gate of a vector;
* `HasEntry`              the descriptor that lies in an entry;
* `idt_init_gates`        **each vector leads to its function**, with the selector of the kernel's code.
-/

set_option linter.unusedVariables false

namespace LameOS
open Lib

/-! ## data -/

/-- `LAMEOS_TOTAL_INTERRUPTS` -/
abbrev totalInterrupts : Nat := 256

/-- `sizeof (struct idt_desc)` -/
abbrev idtDescSize : Nat := 8

/-- `struct idt_desc` -/
structure IdtDesc where
  offset1 : BitVec 16
  selector : BitVec 16
  zero : BitVec 8
  typeAttr : BitVec 8
  offset2 : BitVec 16

def IdtDesc.bytes (d : IdtDesc) : List (BitVec 8) :=
  [d.offset1.extractLsb' 0 8, d.offset1.extractLsb' 8 8, d.selector.extractLsb' 0 8,
    d.selector.extractLsb' 8 8, d.zero, d.typeAttr, d.offset2.extractLsb' 0 8, d.offset2.extractLsb' 8 8]

/-- the functions of `idt.asm` and `idt.c` that the table leads to -/
inductive Isr where
  | noInterrupt | idtZero | int21h | isr80hWrapper
  deriving DecidableEq, Repr

/-- the register that `lidt` loads -/
structure IdtRegister where
  limit : BitVec 16
  base : BitVec 32

/-! ## the code -/

/-- the descriptor that `idt_set` fills in -/
def idtDescOf (address : BitVec 32) : IdtDesc where
  offset1 := (address &&& 0x0000FFFF).setWidth 16
  selector := 0x08
  zero := 0x00
  typeAttr := 0xEE
  offset2 := (address >>> 16).setWidth 16

/-- `idt_set`, for the table at `idt` -/
def idtSet (idt interruptNo : Nat) (address : BitVec 32) (m : Mem) : Mem :=
  m.copy (idt + idtDescSize * interruptNo) (idtDescOf address).bytes

/-- the loop of `idt_init`, with `fuel` entries left -/
def idtLoop (idt : Nat) (address : BitVec 32) : Nat → Nat → Mem → Mem
  | 0, _, m => m
  | fuel + 1, i, m => idtLoop idt address fuel (i + 1) (idtSet idt i address m)

/-- `lidt`, of the struct at `ptr` -/
def idtLoad (ptr : Nat) (m : Mem) : IdtRegister where
  limit := m.read16 (BitVec.ofNat 32 ptr)
  base := m.read32 (BitVec.ofNat 32 (ptr + 2))

/-- `idt_init`, with the globals `idt_descriptors` and `idtr_descriptor` at `idt` and `idtr` -/
def idtInit (idt idtr : Nat) (address : Isr → BitVec 32) (m : Mem) : Mem × IdtRegister :=
  let size := totalInterrupts * idtDescSize
  let m := m.fill idt size 0
  let m := m.copy idtr [(BitVec.ofNat 16 (size - 1)).extractLsb' 0 8,
    (BitVec.ofNat 16 (size - 1)).extractLsb' 8 8]
  let m := m.write32 (BitVec.ofNat 32 (idtr + 2)) (BitVec.ofNat 32 idt)
  let m := idtLoop idt (address .noInterrupt) totalInterrupts 0 m
  let m := idtSet idt 0 (address .idtZero) m
  let m := idtSet idt 0x21 (address .int21h) m
  let m := idtSet idt 0x80 (address .isr80hWrapper) m
  (m, idtLoad idtr m)

/-! ## the processor -/

/-- a gate: type 14 is a 32-bit interrupt gate, `dpl` the privilege that `int` needs -/
structure Gate where
  offset : BitVec 32
  selector : BitVec 16
  type : BitVec 4
  system : Bool
  dpl : BitVec 2
  present : Bool
  deriving DecidableEq, Repr

/-- the gate of a vector; behind the limit there is none -/
def gateOf (m : Mem) (r : IdtRegister) (vector : Nat) : Option Gate :=
  if r.limit.toNat < idtDescSize * vector + 7 then none
  else
    let byte := fun k => m (r.base + BitVec.ofNat 32 (idtDescSize * vector + k))
    some { offset := byte 7 ++ byte 6 ++ byte 1 ++ byte 0
           selector := byte 3 ++ byte 2
           type := (byte 5).extractLsb' 0 4
           system := !(byte 5).getLsbD 4
           dpl := (byte 5).extractLsb' 5 2
           present := (byte 5).getLsbD 7 }

/-! ## an entry -/

/-- the bytes of the entry are those of `d` -/
def HasEntry (idt : Nat) (m : Mem) (vector : Nat) (d : IdtDesc) : Prop :=
  ∀ k (h : k < 8), m (BitVec.ofNat 32 (idt + idtDescSize * vector + k)) = d.bytes.get ⟨k, h⟩

section
variable {idt : Nat} {m : Mem}

theorem idtSet_same (idt i : Nat) (address : BitVec 32) (m : Mem) :
    HasEntry idt (idtSet idt i address m) i (idtDescOf address) := fun k hk =>
  Mem.copy_at m _ (idtDescOf address).bytes hk (show 8 ≤ 4294967296 by decide)

theorem idtSet_other {i j : Nat} {d : IdtDesc} (h : HasEntry idt m j d) (hne : j ≠ i) (hi : i < 256)
    (hj : j < 256) (hidt : idt + 2048 ≤ 4294967296) (address : BitVec 32) :
    HasEntry idt (idtSet idt i address m) j d := by
  intro k hk
  have hlen : (idtDescOf address).bytes.length = 8 := rfl
  have hmul : idtDescSize * i = 8 * i := rfl
  have hmul' : idtDescSize * j = 8 * j := rfl
  refine (Mem.copy_apart m _ ?_ ?_ (by omega)).trans (h k hk)
  · rw [hlen]
    omega
  · rw [hlen]
    omega

theorem idtSet_out {i : Nat} (hi : i < 256) (hidt : idt + 2048 ≤ 4294967296) (address : BitVec 32)
    (m : Mem) {x : BitVec 32} (hx : 2048 ≤ (x - BitVec.ofNat 32 idt).toNat) :
    idtSet idt i address m x = m x := by
  refine Mem.copy_out m _ ?_
  show 8 ≤ _
  have hxlt := x.isLt
  have hmul : idtDescSize * i = 8 * i := rfl
  rw [BitVec.toNat_sub, BitVec.toNat_ofNat] at hx ⊢
  omega

/-- the loop sets the entries from `i` on -/
theorem idtLoop_entries (address : BitVec 32) (fuel : Nat) (hidt : idt + 2048 ≤ 4294967296) :
    ∀ (i : Nat) (m : Mem), i + fuel ≤ 256 →
      (∀ j, i ≤ j → j < i + fuel → HasEntry idt (idtLoop idt address fuel i m) j (idtDescOf address)) ∧
      (∀ j d, j < i → HasEntry idt m j d → HasEntry idt (idtLoop idt address fuel i m) j d) ∧
      ∀ x, 2048 ≤ (x - BitVec.ofNat 32 idt).toNat → idtLoop idt address fuel i m x = m x := by
  induction fuel with
  | zero => exact fun i m _ => ⟨fun j h1 h2 => absurd h2 (by omega), fun _ _ _ h => h, fun _ _ => rfl⟩
  | succ fuel ih =>
    intro i m hi
    obtain ⟨hset, hkeep, hout⟩ := ih (i + 1) (idtSet idt i address m) (by omega)
    refine ⟨fun j h1 h2 => ?_, fun j d hj h => ?_, fun x hx => ?_⟩
    · rcases Nat.eq_or_lt_of_le h1 with rfl | h1
      · exact hkeep i _ (Nat.lt_succ_self i) (idtSet_same idt i address m)
      · exact hset j h1 (by omega)
    · exact hkeep j d (by omega) (idtSet_other h (by omega) (by omega) (by omega) hidt address)
    · exact (hout x hx).trans (idtSet_out (by omega) hidt address m hx)

theorem idtDescOf_offset (address : BitVec 32) :
    (idtDescOf address).offset2.extractLsb' 8 8 ++ (idtDescOf address).offset2.extractLsb' 0 8 ++
      (idtDescOf address).offset1.extractLsb' 8 8 ++ (idtDescOf address).offset1.extractLsb' 0 8
      = address := by
  have h1 : (idtDescOf address).offset1.toNat = address.toNat % 65536 := by
    show ((address &&& 0x0000FFFF).setWidth 16).toNat = _
    rw [BitVec.toNat_setWidth, BitVec.toNat_and]
    show (address.toNat &&& (2 ^ 16 - 1)) % 65536 = _
    rw [Nat.and_two_pow_sub_one_eq_mod]
    omega
  have h2 : (idtDescOf address).offset2.toNat = address.toNat / 65536 := by
    show ((address >>> 16).setWidth 16).toNat = _
    rw [BitVec.toNat_setWidth, BitVec.toNat_ushiftRight, Nat.shiftRight_eq_div_pow]
    have hlt := address.isLt
    omega
  refine BitVec.eq_of_toNat_eq ?_
  rw [Mem.toNat_append_add, Mem.toNat_append_add, Mem.toNat_append_add, BitVec.extractLsb'_toNat,
    BitVec.extractLsb'_toNat, BitVec.extractLsb'_toNat, BitVec.extractLsb'_toNat,
    Nat.shiftRight_eq_div_pow, Nat.shiftRight_eq_div_pow, Nat.shiftRight_eq_div_pow,
    Nat.shiftRight_eq_div_pow, h1, h2]
  have hlt := address.isLt
  omega

/-- **The gate of an entry** -/
theorem gateOf_entry {r : IdtRegister} (hbase : r.base = BitVec.ofNat 32 idt) {v : Nat}
    (hlimit : idtDescSize * v + 7 ≤ r.limit.toNat) {address : BitVec 32}
    (h : HasEntry idt m v (idtDescOf address)) :
    gateOf m r v = some ⟨address, 0x08, 14, true, 3, true⟩ := by
  have hbyte : ∀ k (hk : k < 8), m (r.base + BitVec.ofNat 32 (idtDescSize * v + k))
      = (idtDescOf address).bytes.get ⟨k, hk⟩ := by
    intro k hk
    rw [hbase, ← BitVec.ofNat_add, ← Nat.add_assoc]
    exact h k hk
  unfold gateOf
  rw [if_neg (by omega)]
  dsimp only
  rw [hbyte 0 (by decide), hbyte 1 (by decide), hbyte 2 (by decide), hbyte 3 (by decide),
    hbyte 5 (by decide), hbyte 6 (by decide), hbyte 7 (by decide)]
  have hoffset := idtDescOf_offset address
  have hselector : (0x08 : BitVec 16).extractLsb' 8 8 ++ (0x08 : BitVec 16).extractLsb' 0 8
    = (0x08 : BitVec 16) := by decide
  have htype : (0xEE : BitVec 8).extractLsb' 0 4 = 14 := by decide
  have hsystem : (!(0xEE : BitVec 8).getLsbD 4) = true := by decide
  have hdpl : (0xEE : BitVec 8).extractLsb' 5 2 = 3 := by decide
  have hpresent : (0xEE : BitVec 8).getLsbD 7 = true := by decide
  refine congrArg some ?_
  rw [Gate.mk.injEq]
  exact ⟨hoffset, hselector, htype, hsystem, hdpl, hpresent⟩

/-! ## the table -/

/-- the function of a vector -/
def isrOf (vector : Nat) : Isr :=
  if vector = 0 then .idtZero
  else if vector = 0x21 then .int21h
  else if vector = 0x80 then .isr80hWrapper
  else .noInterrupt

/-- the table after the loop and the three entries that are set after it -/
def idtFilled (idt : Nat) (address : Isr → BitVec 32) (m : Mem) : Mem :=
  idtSet idt 0x80 (address .isr80hWrapper) (idtSet idt 0x21 (address .int21h)
    (idtSet idt 0 (address .idtZero) (idtLoop idt (address .noInterrupt) totalInterrupts 0 m)))

theorem idtFilled_entries (hidt : idt + 2048 ≤ 4294967296) (address : Isr → BitVec 32) (m : Mem) {v : Nat}
    (hv : v < 256) : HasEntry idt (idtFilled idt address m) v (idtDescOf (address (isrOf v))) := by
  unfold idtFilled isrOf
  by_cases h80 : v = 0x80
  · rw [h80]
    exact idtSet_same _ _ _ _
  · refine idtSet_other ?_ h80 (by decide) hv hidt _
    by_cases h21 : v = 0x21
    · rw [h21]
      exact idtSet_same _ _ _ _
    · refine idtSet_other ?_ h21 (by decide) hv hidt _
      by_cases h0 : v = 0
      · rw [h0]
        exact idtSet_same _ _ _ _
      · rw [if_neg h0, if_neg h21, if_neg h80]
        refine idtSet_other ?_ h0 (by decide) hv hidt _
        exact (idtLoop_entries (address .noInterrupt) 256 hidt 0 m (le_refl _)).1 v (Nat.zero_le v)
          (by omega)

theorem idtFilled_out (hidt : idt + 2048 ≤ 4294967296) (address : Isr → BitVec 32) (m : Mem)
    {x : BitVec 32} (hx : 2048 ≤ (x - BitVec.ofNat 32 idt).toNat) : idtFilled idt address m x = m x := by
  unfold idtFilled
  rw [idtSet_out (by decide) hidt _ _ hx, idtSet_out (by decide) hidt _ _ hx,
    idtSet_out (by decide) hidt _ _ hx]
  exact (idtLoop_entries (address .noInterrupt) 256 hidt 0 m (le_refl _)).2.2 x hx

/-- `idtr_descriptor` and the table are apart -/
structure TableApart (idt idtr : Nat) : Prop where
  table : idt + 2048 ≤ 4294967296
  register : idtr + 6 ≤ 4294967296
  apart : idtr + 6 ≤ idt ∨ idt + 2048 ≤ idtr

/-- the bytes of `idtr_descriptor` are apart from the table -/
theorem TableApart.byte {idtr : Nat} (h : TableApart idt idtr) {k : Nat} (hk : k < 6) :
    2048 ≤ (BitVec.ofNat 32 (idtr + k) - BitVec.ofNat 32 idt).toNat := by
  obtain ⟨h1, h2, h3⟩ := h
  rw [BitVec.toNat_sub, BitVec.toNat_ofNat, BitVec.toNat_ofNat]
  omega

/-- what `lidt` loads, behind the stores of `limit` and `base` -/
theorem idtLoad_filled {idtr : Nat} (h : TableApart idt idtr) (address : Isr → BitVec 32) (m : Mem) :
    idtLoad idtr (idtFilled idt address ((m.copy idtr [0xFF, 0x07]).write32 (BitVec.ofNat 32 (idtr + 2))
      (BitVec.ofNat 32 idt))) = ⟨0x07FF, BitVec.ofNat 32 idt⟩ := by
  have hreg := h.register
  obtain ⟨m1, hm1⟩ : ∃ m1, (m.copy idtr [0xFF, 0x07]).write32 (BitVec.ofNat 32 (idtr + 2))
    (BitVec.ofNat 32 idt) = m1 := ⟨_, rfl⟩
  have hkept : ∀ k < 6, idtFilled idt address m1 (BitVec.ofNat 32 (idtr + k))
      = m1 (BitVec.ofNat 32 (idtr + k)) := fun k hk => idtFilled_out h.table address _ (h.byte hk)
  have hlimit : ∀ k (hk : k < 2), idtFilled idt address m1 (BitVec.ofNat 32 (idtr + k))
      = ([0xFF, 0x07] : List (BitVec 8)).get ⟨k, hk⟩ := by
    intro k hk
    rw [hkept k (by omega), ← hm1, Mem.write32_apart _ _ _ _ ?_]
    · exact Mem.copy_at m idtr [0xFF, 0x07] hk (by decide)
    · rw [BitVec.toNat_sub, BitVec.toNat_ofNat, BitVec.toNat_ofNat]
      omega
  rw [hm1]
  unfold idtLoad
  rw [IdtRegister.mk.injEq]
  constructor
  · have h1 : idtFilled idt address m1 (BitVec.ofNat 32 idtr + 1) = 0x07 := by
      have e := hlimit 1 (by decide)
      rwa [BitVec.ofNat_add] at e
    have h0 : idtFilled idt address m1 (BitVec.ofNat 32 idtr) = 0xFF := hlimit 0 (by decide)
    unfold Mem.read16
    rw [h1, h0]
    rfl
  · rw [Mem.read32_congr (m := m1), ← hm1, Mem.read32_write32]
    intro k hk
    have e := hkept (2 + k.toNat) (by omega)
    rwa [← Nat.add_assoc, BitVec.ofNat_add, BitVec.ofNat_toNat, BitVec.setWidth_eq] at e

/-- **The table of interrupts.**  The processor takes each of the 256 vectors to the function that
`idt_init` names for it, in the kernel's code segment, through a gate that user code may call; behind
them there is no gate, and memory has changed in the table and in `idtr_descriptor` alone. -/
theorem idt_init_gates {idtr : Nat} (h : TableApart idt idtr) (address : Isr → BitVec 32) (m : Mem) :
    (∀ v, gateOf (idtInit idt idtr address m).1 (idtInit idt idtr address m).2 v
      = if v < 256 then some ⟨address (isrOf v), 0x08, 14, true, 3, true⟩ else none) ∧
    ∀ x, 2048 ≤ (x - BitVec.ofNat 32 idt).toNat → 6 ≤ (x - BitVec.ofNat 32 idtr).toNat →
      (idtInit idt idtr address m).1 x = m x := by
  have hmem : (idtInit idt idtr address m).1 = idtFilled idt address
      (((m.fill idt 2048 0).copy idtr [0xFF, 0x07]).write32 (BitVec.ofNat 32 (idtr + 2))
        (BitVec.ofNat 32 idt)) := rfl
  have hreg : (idtInit idt idtr address m).2 = ⟨0x07FF, BitVec.ofNat 32 idt⟩ :=
    idtLoad_filled h address (m.fill idt 2048 0)
  constructor
  · intro v
    rw [hmem, hreg]
    by_cases hv : v < 256
    · rw [if_pos hv]
      refine gateOf_entry rfl ?_ (idtFilled_entries h.table address _ hv)
      show idtDescSize * v + 7 ≤ 2047
      unfold idtDescSize
      omega
    · rw [if_neg hv]
      refine if_pos ?_
      show 2047 < idtDescSize * v + 7
      unfold idtDescSize
      omega
  · intro x hx hx'
    have hreg := h.register
    rw [hmem, idtFilled_out h.table address _ hx, Mem.write32_apart _ _ _ _ ?_, Mem.copy_out _ _ ?_,
      Mem.fill_out _ _ hx]
    · exact le_trans (by decide) hx'
    · have hxlt := x.isLt
      rw [BitVec.toNat_sub, BitVec.toNat_ofNat] at hx' ⊢
      omega

end

/-- a table at `0x110000`, with its register behind it -/
theorem idt_init_gates_image : gateOf
    (idtInit 0x110000 0x110800 (fun | .isr80hWrapper => 0x101234 | _ => 0x105678) fun _ => 0).1
    (idtInit 0x110000 0x110800 (fun | .isr80hWrapper => 0x101234 | _ => 0x105678) fun _ => 0).2 0x80
      = some ⟨0x101234, 0x08, 14, true, 3, true⟩ :=
  (idt_init_gates (show TableApart 0x110000 0x110800 from ⟨by decide, by decide, by decide⟩) _ _).1 0x80

end LameOS
