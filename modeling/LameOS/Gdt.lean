import LameOS.Lib.Exec
import LameOS.Config

/-!
# `gdt.c`: the table of segments

`gdt` is memory from the start of the table on, byte by byte; an entry has eight of them.

* `encodeGdtEntry`, `gdtStructuredToGdt`   what the kernel writes;
* `decodeGdtEntry`          how the processor reads an entry;
* `gdt_round_trip`          **the processor reads back every descriptor that the kernel accepts.**
-/

set_option linter.unusedVariables false

namespace LameOS
open Lib Lib.Exec

/-! ## data -/

/-- `struct gdt_structured` -/
structure GdtStructured where
  base : UInt32
  limit : UInt32
  type : UInt8
  deriving DecidableEq

/-- the bytes from the table on -/
abbrev GdtBytes := Nat → UInt8

/-- `sizeof (struct gdt)` -/
abbrev gdtSize : Nat := 8

/-! ## encoding -/

/-- `target[i] = c` -/
def putByte (target i : Nat) (c : UInt8) : Exec Fault GdtBytes Unit :=
  modify (fun gdt => Function.update gdt (target + i) c)

/-- a `panic` for a limit that no entry has -/
def encodeGdtEntry (target : Nat) (source : GdtStructured) : Exec Fault GdtBytes Unit := do
  if source.limit > 65536 ∧ source.limit &&& 0xFFF ≠ 0xFFF then
    throw .endlessLoop
  else
    putByte target 6 0x40
    onlyIf (source.limit > 65536) (putByte target 6 0xC0)
    let limit := if source.limit > 65536 then source.limit >>> 12 else source.limit
    putByte target 0 (limit &&& 0xFF).toUInt8
    putByte target 1 ((limit >>> 8) &&& 0xFF).toUInt8
    let gdt ← get
    putByte target 6 (gdt (target + 6) ||| ((limit >>> 16) &&& 0x0F).toUInt8)
    putByte target 2 (source.base &&& 0xFF).toUInt8
    putByte target 3 ((source.base >>> 8) &&& 0xFF).toUInt8
    putByte target 4 ((source.base >>> 16) &&& 0xFF).toUInt8
    putByte target 7 ((source.base >>> 24) &&& 0xFF).toUInt8
    putByte target 5 source.type

/-- the loop of `gdtStructuredToGdt` at index `i`, with `fuel` entries left -/
def gdtLoop (structuredGdt : Nat → GdtStructured) : Nat → Nat → Exec Fault GdtBytes Unit
  | 0, _ => pure ()
  | fuel + 1, i => do
    encodeGdtEntry (gdtSize * i) (structuredGdt i)
    gdtLoop structuredGdt fuel (i + 1)

def gdtStructuredToGdt (structuredGdt : Nat → GdtStructured) (totalEntries : Int) :
    Exec Fault GdtBytes Unit := gdtLoop structuredGdt totalEntries.toNat 0

/-! ## the processor -/

/-- the descriptor in eight bytes: the limit has 20 bits and counts pages when the granularity bit
is set -/
def decodeGdtEntry (e : Nat → UInt8) : GdtStructured where
  base := .ofNat ((e 2).toNat + 256 * (e 3).toNat + 65536 * (e 4).toNat + 16777216 * (e 7).toNat)
  limit :=
    let limit : Nat := (e 0).toNat + 256 * (e 1).toNat + 65536 * ((e 6).toNat % 16)
    .ofNat (if (e 6).toNat.testBit 7 then limit <<< 12 ||| 0xFFF else limit)
  type := e 5

/-- entry `i` of the table -/
def gdtEntry (gdt : GdtBytes) (i j : Nat) : UInt8 := gdt (gdtSize * i + j)

/-! ## one entry -/

namespace GdtStructured
variable (d : GdtStructured)

/-- the descriptor has an encoding: a limit in bytes, or in pages -/
def Encodable : Prop := d.limit ≤ 65536 ∨ d.limit &&& 0xFFF = 0xFFF

instance : Decidable d.Encodable := inferInstanceAs (Decidable (_ ∨ _))

/-- the limit in the unit of the entry -/
def units : UInt32 := if d.limit > 65536 then d.limit >>> 12 else d.limit

/-- the bytes of its entry -/
def code : Nat → UInt8
  | 0 => (d.units &&& 0xFF).toUInt8
  | 1 => ((d.units >>> 8) &&& 0xFF).toUInt8
  | 2 => (d.base &&& 0xFF).toUInt8
  | 3 => ((d.base >>> 8) &&& 0xFF).toUInt8
  | 4 => ((d.base >>> 16) &&& 0xFF).toUInt8
  | 5 => d.type
  | 6 => (if d.limit > 65536 then (0xC0 : UInt8) else 0x40) ||| ((d.units >>> 16) &&& 0x0F).toUInt8
  | _ => ((d.base >>> 24) &&& 0xFF).toUInt8

end GdtStructured

section
variable {d : GdtStructured} {gdt gdt' : GdtBytes} {target : Nat}

/-- the bytes of an entry are those of its code, the others stay -/
structure Encoded (target : Nat) (d : GdtStructured) (gdt gdt' : GdtBytes) : Prop where
  entry : ∀ j < gdtSize, gdt' (target + j) = d.code j
  other : ∀ x, x < target ∨ target + gdtSize ≤ x → gdt' x = gdt x

/-- a byte of the entry after one of them is written -/
theorem update_entry (gdt : GdtBytes) (target i j : Nat) (c : UInt8) :
    Function.update gdt (target + i) c (target + j) = if j = i then c else gdt (target + j) := by
  rw [Function.update_apply]
  by_cases e : j = i
  · rw [if_pos e, if_pos (by rw [e])]
  · rw [if_neg e, if_neg (by omega)]

/-- a byte outside the entry -/
theorem update_other {x : Nat} (hx : x < target ∨ target + gdtSize ≤ x) (gdt : GdtBytes) (c : UInt8)
    (i : Nat) (hi : i < gdtSize) : Function.update gdt (target + i) c x = gdt x :=
  Function.update_of_ne (by unfold gdtSize at *; omega) c gdt

theorem onlyIf_putByte (c : Prop) [Decidable c] (target i : Nat) (v : UInt8) :
    onlyIf c (putByte target i v)
      = modify (fun gdt => if c then Function.update gdt (target + i) v else gdt) := by
  by_cases h : c
  · rw [onlyIf_pos h]
    simp only [if_pos h]
    rfl
  · rw [onlyIf_neg h]
    simp only [if_neg h]
    rfl

/-- **An entry is written as its code.** -/
theorem encodeGdtEntry_run (h : d.Encodable) (target : Nat) (gdt : GdtBytes) :
    ∃ gdt', encodeGdtEntry target d gdt = .ok ((), gdt') ∧ Encoded target d gdt gdt' := by
  have hok : ¬ (d.limit > 65536 ∧ d.limit &&& 0xFFF ≠ 0xFFF) := by
    rintro ⟨h1, h2⟩
    rcases h with h | h
    · exact absurd h1 (UInt32.not_lt.mpr h)
    · exact h2 h
  unfold encodeGdtEntry
  rw [if_neg hok, onlyIf_putByte]
  refine ⟨_, rfl, fun j hj => ?_, fun x hx => ?_⟩
  · -- each byte is the last one written at its place
    unfold gdtSize at hj
    interval_cases j <;> simp only [update_entry, ite_apply] <;> rfl
  · have hother := update_other hx
    simp (disch := decide) only [hother, ite_apply, ite_self]

/-- a descriptor without an encoding is a `panic` -/
theorem encodeGdtEntry_panic (h : ¬ d.Encodable) (target : Nat) (gdt : GdtBytes) :
    encodeGdtEntry target d gdt = .error .endlessLoop := by
  unfold GdtStructured.Encodable at h
  push Not at h
  unfold encodeGdtEntry
  rw [if_pos ⟨UInt32.not_le.mp h.1, h.2⟩]
  rfl

/-! ## reading it back -/

theorem low_byte (x : UInt32) : (x &&& 0xFF).toUInt8.toNat = x.toNat % 256 := by
  rw [UInt32.toNat_toUInt8, UInt32.toNat_and]
  show (x.toNat &&& 2 ^ 8 - 1) % 256 = _
  rw [Nat.and_two_pow_sub_one_eq_mod, Nat.mod_mod]

theorem low_nibble (x : UInt32) : (x &&& 0x0F).toUInt8.toNat = x.toNat % 16 := by
  rw [UInt32.toNat_toUInt8, UInt32.toNat_and]
  show (x.toNat &&& 2 ^ 4 - 1) % 256 = _
  rw [Nat.and_two_pow_sub_one_eq_mod]
  omega

theorem shifted (x : UInt32) {k : Nat} (hk : k < 32) :
    (x >>> UInt32.ofNat k).toNat = x.toNat / 2 ^ k := by
  rw [UInt32.toNat_shiftRight, Nat.shiftRight_eq_div_pow, UInt32.toNat_ofNat_of_lt' (by
    show k < 4294967296
    omega), Nat.mod_eq_of_lt hk]

theorem low_ones {x : UInt32} (h : x &&& 0xFFF = 0xFFF) : x.toNat % 4096 = 4095 := by
  have e : x.toNat &&& 2 ^ 12 - 1 = 4095 := (UInt32.toNat_and x 0xFFF).symm.trans (congrArg _ h)
  rwa [Nat.and_two_pow_sub_one_eq_mod] at e

/-- a nibble under the flags of an entry -/
theorem flags_nibble (c : Prop) [Decidable c] {n : UInt8} (hn : n < 16) :
    ((if c then (0xC0 : UInt8) else 0x40) ||| n).toNat % 16 = n.toNat ∧
      ((if c then (0xC0 : UInt8) else 0x40) ||| n).toNat.testBit 7 = decide c := by
  have hall : ∀ i : Fin 16, ∀ b : Bool,
      ((if b then (0xC0 : UInt8) else 0x40) ||| UInt8.ofNat i).toNat % 16 = i ∧
        ((if b then (0xC0 : UInt8) else 0x40) ||| UInt8.ofNat i).toNat.testBit 7 = b := by
    decide +kernel
  have hlt : n.toNat < 16 := hn
  have h := hall ⟨n.toNat, hlt⟩ (decide c)
  simpa using h

namespace GdtStructured

theorem units_of_big (h : d.limit > 65536) : d.units.toNat = d.limit.toNat / 4096 := by
  unfold units
  rw [if_pos h]
  exact shifted d.limit (k := 12) (by decide)

/-- the limit that the processor computes -/
theorem Encodable.limit_eq (h : d.Encodable) : (if decide (d.limit > 65536) then
    d.units.toNat <<< 12 ||| 0xFFF else d.units.toNat) = d.limit.toNat := by
  by_cases hbig : d.limit > 65536
  · have hones : d.limit.toNat % 4096 = 4095 :=
      low_ones (h.resolve_left (fun hle => UInt32.not_lt.mpr hle hbig))
    rw [if_pos (decide_eq_true hbig), units_of_big hbig,
      ← Nat.shiftLeft_add_eq_or_of_lt (by decide : 0xFFF < 2 ^ 12), Nat.shiftLeft_eq]
    omega
  · unfold units
    rw [if_neg hbig, if_neg (by simpa using hbig)]

/-- 20 bits are enough for it -/
theorem units_lt (d : GdtStructured) : d.units.toNat < 1048576 := by
  by_cases hbig : d.limit > 65536
  · have := d.limit.toNat_lt
    rw [units_of_big hbig]
    omega
  · have h : d.limit.toNat ≤ 65536 := UInt32.not_lt.mp hbig
    unfold units
    rw [if_neg hbig]
    omega

theorem Encodable.decode (h : d.Encodable) : decodeGdtEntry d.code = d := by
  have hu := d.units_lt
  have hnibble : ((d.units >>> 16) &&& 0x0F).toUInt8.toNat = d.units.toNat / 65536 := by
    rw [low_nibble, show (d.units >>> 16).toNat = _ from shifted d.units (k := 16) (by decide)]
    omega
  obtain ⟨h16, h7⟩ := flags_nibble (d.limit > 65536) (n := ((d.units >>> 16) &&& 0x0F).toUInt8)
    (by show UInt8.toNat _ < 16; rw [hnibble]; omega)
  have hlimit : (d.code 0).toNat + 256 * (d.code 1).toNat + 65536 * ((d.code 6).toNat % 16)
      = d.units.toNat := by
    have h0 : (d.code 0).toNat = d.units.toNat % 256 := low_byte d.units
    have h1 : (d.code 1).toNat = d.units.toNat / 2 ^ 8 % 256 :=
      (low_byte _).trans (by rw [← shifted d.units (k := 8) (by decide)]; rfl)
    have h6 : (d.code 6).toNat % 16 = d.units.toNat / 65536 := h16.trans hnibble
    omega
  have hbase : (d.code 2).toNat + 256 * (d.code 3).toNat + 65536 * (d.code 4).toNat
      + 16777216 * (d.code 7).toNat = d.base.toNat := by
    have hlt := d.base.toNat_lt
    have h2 : (d.code 2).toNat = d.base.toNat % 256 := low_byte d.base
    have h3 : (d.code 3).toNat = d.base.toNat / 2 ^ 8 % 256 :=
      (low_byte _).trans (by rw [← shifted d.base (k := 8) (by decide)]; rfl)
    have h4 : (d.code 4).toNat = d.base.toNat / 2 ^ 16 % 256 :=
      (low_byte _).trans (by rw [← shifted d.base (k := 16) (by decide)]; rfl)
    have h7 : (d.code 7).toNat = d.base.toNat / 2 ^ 24 % 256 :=
      (low_byte _).trans (by rw [← shifted d.base (k := 24) (by decide)]; rfl)
    omega
  have hflag : (d.code 6).toNat.testBit 7 = decide (d.limit > 65536) := h7
  unfold decodeGdtEntry
  dsimp only
  rw [hbase, hlimit, hflag, h.limit_eq, UInt32.ofNat_toNat, UInt32.ofNat_toNat]
  rfl

end GdtStructured

/-- an entry is read from its eight bytes -/
theorem decodeGdtEntry_congr {e e' : Nat → UInt8} (h : ∀ j < gdtSize, e j = e' j) :
    decodeGdtEntry e = decodeGdtEntry e' := by
  unfold gdtSize at h
  unfold decodeGdtEntry
  rw [h 0 (by decide), h 1 (by decide), h 2 (by decide), h 3 (by decide), h 4 (by decide),
    h 5 (by decide), h 6 (by decide), h 7 (by decide)]

theorem encode_decodes (hrun : encodeGdtEntry target d gdt = .ok ((), gdt')) :
    decodeGdtEntry (fun j => gdt' (target + j)) = d ∧
      ∀ x, x < target ∨ target + gdtSize ≤ x → gdt' x = gdt x := by
  have h : d.Encodable := by
    by_contra hno
    rw [encodeGdtEntry_panic hno] at hrun
    cases hrun
  obtain ⟨gdt1, hrun1, henc⟩ := encodeGdtEntry_run h target gdt
  obtain ⟨-, rfl⟩ := run_unique hrun1 hrun
  exact ⟨(decodeGdtEntry_congr henc.entry).trans h.decode, henc.other⟩

/-! ## the table -/

/-- the entries from `i` on are those of the descriptors; what lies before them stays -/
theorem gdtLoop_decodes {structuredGdt : Nat → GdtStructured} (fuel : Nat) :
    ∀ (i : Nat) (gdt gdt' : GdtBytes), gdtLoop structuredGdt fuel i gdt = .ok ((), gdt') →
      (∀ k, i ≤ k → k < i + fuel → decodeGdtEntry (gdtEntry gdt' k) = structuredGdt k) ∧
        ∀ x < gdtSize * i, gdt' x = gdt x := by
  induction fuel with
  | zero =>
    intro i gdt gdt' hrun
    obtain ⟨-, rfl⟩ := pure_eq_ok hrun
    exact ⟨fun k h1 h2 => by omega, fun x _ => rfl⟩
  | succ fuel ih =>
    intro i gdt gdt' hrun
    obtain ⟨⟨⟩, gdt1, hfirst, hrest⟩ := bind_eq_ok hrun
    obtain ⟨hdecode, hother⟩ := encode_decodes hfirst
    obtain ⟨hlater, hbefore⟩ := ih (i + 1) gdt1 gdt' hrest
    refine ⟨fun k h1 h2 => ?_, fun x hx => ?_⟩
    · rcases Nat.eq_or_lt_of_le h1 with rfl | hlt
      · -- the entries written later lie behind this one
        rw [← hdecode]
        exact decodeGdtEntry_congr (fun j hj => hbefore _ (by unfold gdtSize at *; omega))
      · exact hlater k hlt (by omega)
    · rw [hbefore x (by unfold gdtSize at *; omega), hother x (Or.inl hx)]

/-- **The processor reads back what the kernel describes.**  Each entry of a table that is written
without a `panic` decodes to its descriptor, and descriptors that differ are written differently. -/
theorem gdt_round_trip :
    (∀ (structuredGdt : Nat → GdtStructured) (totalEntries : Int) (gdt gdt' : GdtBytes),
      gdtStructuredToGdt structuredGdt totalEntries gdt = .ok ((), gdt') →
      ∀ i : Nat, (i : Int) < totalEntries → decodeGdtEntry (gdtEntry gdt' i) = structuredGdt i) ∧
    ∀ (a b : GdtStructured) (target target' : Nat) (gdt gdtA gdtB : GdtBytes),
      encodeGdtEntry target a gdt = .ok ((), gdtA) → encodeGdtEntry target' b gdt = .ok ((), gdtB) →
      a ≠ b → ∃ j < gdtSize, gdtA (target + j) ≠ gdtB (target' + j) := by
  constructor
  · intro structuredGdt totalEntries gdt gdt' hrun i hi
    exact (gdtLoop_decodes totalEntries.toNat 0 gdt gdt' hrun).1 i (Nat.zero_le i) (by omega)
  · intro a b target target' gdt gdtA gdtB ha hb hne
    by_contra hno
    push Not at hno
    refine hne ?_
    rw [← (encode_decodes ha).1, ← (encode_decodes hb).1]
    exact decodeGdtEntry_congr hno

end

/-- `gdt_structured` of `kernel.c`, with the address of the task state segment -/
def gdtStructured (tss : UInt32) : Nat → GdtStructured
  | 1 => ⟨0x00, 0xFFFFFFFF, 0x9A⟩
  | 2 => ⟨0x00, 0xFFFFFFFF, 0x92⟩
  | 3 => ⟨0x00, 0xFFFFFFFF, 0xF8⟩
  | 4 => ⟨0x00, 0xFFFFFFFF, 0xF2⟩
  | 5 => ⟨tss, 100, 0xE9⟩
  | _ => ⟨0x00, 0x00, 0x00⟩

/-- the segments of the kernel -/
theorem gdt_round_trip_kernel : ∃ gdt', gdtStructuredToGdt (gdtStructured 0x107060) 6 (fun _ => 0)
      = .ok ((), gdt') ∧
    ∀ i < 6, decodeGdtEntry (gdtEntry gdt' i) = gdtStructured 0x107060 i := by
  obtain ⟨gdt', hrun⟩ : ∃ gdt', gdtStructuredToGdt (gdtStructured 0x107060) 6 (fun _ => 0)
      = .ok ((), gdt') := ⟨_, rfl⟩
  exact ⟨gdt', hrun, fun i hi => gdt_round_trip.1 _ _ _ _ hrun i (by omega)⟩

end LameOS
