import Mathlib.Tactic
import Mathlib.Data.List.GetD

/-!
# A 32-bit address space of bytes

`Mem` gives every address its byte; words are little-endian.

* `read16`, `read32`, `write32`   accesses at any address, wrapping at the top;
* `read32_write32`        what was written is read back;
* `read32_write32_apart`  a word apart from the written one keeps its value;
* `load`, `store`, `fill`, `copy`   the same accesses at addresses that are natural numbers: aligned
                          words, and ranges of bytes.
-/

namespace Lib

/-- the byte at every address -/
abbrev Mem := BitVec 32 → BitVec 8

namespace Mem

def read16 (m : Mem) (a : BitVec 32) : BitVec 16 := m (a + 1) ++ m a

def read32 (m : Mem) (a : BitVec 32) : BitVec 32 := m (a + 3) ++ m (a + 2) ++ m (a + 1) ++ m a

def write32 (m : Mem) (a v : BitVec 32) : Mem := fun x =>
  if x = a then v.extractLsb' 0 8
  else if x = a + 1 then v.extractLsb' 8 8
  else if x = a + 2 then v.extractLsb' 16 8
  else if x = a + 3 then v.extractLsb' 24 8
  else m x

/-- the words at `a` and `b` have no byte in common -/
def Apart (a b : BitVec 32) : Prop := 4 ≤ (a - b).toNat ∧ 4 ≤ (b - a).toNat

instance (a b : BitVec 32) : Decidable (Apart a b) := inferInstanceAs (Decidable (_ ∧ _))

theorem read32_write32 (m : Mem) (a v : BitVec 32) : (m.write32 a v).read32 a = v := by
  have h0 : m.write32 a v a = v.extractLsb' 0 8 := if_pos rfl
  have h1 : m.write32 a v (a + 1) = v.extractLsb' 8 8 := by
    unfold write32
    rw [if_neg (by bv_omega), if_pos rfl]
  have h2 : m.write32 a v (a + 2) = v.extractLsb' 16 8 := by
    unfold write32
    rw [if_neg (by bv_omega), if_neg (by bv_omega), if_pos rfl]
  have h3 : m.write32 a v (a + 3) = v.extractLsb' 24 8 := by
    unfold write32
    rw [if_neg (by bv_omega), if_neg (by bv_omega), if_neg (by bv_omega), if_pos rfl]
  unfold read32
  rw [h0, h1, h2, h3, BitVec.extractLsb'_append_extractLsb'_eq_extractLsb' (by rfl),
    BitVec.extractLsb'_append_extractLsb'_eq_extractLsb' (by rfl),
    BitVec.extractLsb'_append_extractLsb'_eq_extractLsb' (by rfl)]
  exact BitVec.extractLsb'_eq_self

theorem write32_apart (m : Mem) (a v x : BitVec 32) (h : 4 ≤ (x - a).toNat) :
    m.write32 a v x = m x := by
  unfold write32
  rw [if_neg (by bv_omega), if_neg (by bv_omega), if_neg (by bv_omega), if_neg (by bv_omega)]

theorem read32_write32_apart (m : Mem) {a b : BitVec 32} (v : BitVec 32) (h : Apart a b) :
    (m.write32 a v).read32 b = m.read32 b := by
  obtain ⟨h1, h2⟩ := h
  unfold read32
  rw [write32_apart m a v b (by bv_omega), write32_apart m a v (b + 1) (by bv_omega),
    write32_apart m a v (b + 2) (by bv_omega), write32_apart m a v (b + 3) (by bv_omega)]

theorem read32_congr {m m' : Mem} {a : BitVec 32}
    (h : ∀ k : BitVec 32, k.toNat < 4 → m' (a + k) = m (a + k)) : m'.read32 a = m.read32 a := by
  have h0 := h 0#32 (by decide)
  rw [BitVec.add_zero] at h0
  unfold read32
  rw [h0, h 1 (by decide), h 2 (by decide), h 3 (by decide)]

/-! ## accesses by number -/

/-- the word at address `a` -/
def load (m : Mem) (a : Nat) : Nat := (m.read32 (BitVec.ofNat 32 a)).toNat

def store (m : Mem) (a v : Nat) : Mem := m.write32 (BitVec.ofNat 32 a) (BitVec.ofNat 32 v)

/-- `n` bytes from address `a` on set to `c` -/
def fill (m : Mem) (a n : Nat) (c : BitVec 8) : Mem := fun x =>
  if (x - BitVec.ofNat 32 a).toNat < n then c else m x

/-- the bytes `bs` written from address `a` on -/
def copy (m : Mem) (a : Nat) (bs : List (BitVec 8)) : Mem := fun x =>
  bs.getD (x - BitVec.ofNat 32 a).toNat (m x)

/-- an aligned word of the address space -/
def Word (a : Nat) : Prop := a % 4 = 0 ∧ a < 4294967296

instance (a : Nat) : Decidable (Word a) := inferInstanceAs (Decidable (_ ∧ _))

theorem load_lt (m : Mem) (a : Nat) : m.load a < 4294967296 := (m.read32 _).isLt

theorem load_store (m : Mem) (a : Nat) {v : Nat} (hv : v < 4294967296) :
    (m.store a v).load a = v := by
  unfold load store
  rw [read32_write32, BitVec.toNat_ofNat, Nat.mod_eq_of_lt hv]

theorem load_store_ne (m : Mem) {a b : Nat} (v : Nat) (ha : Word a) (hb : Word b) (h : b ≠ a) :
    (m.store a v).load b = m.load b := by
  obtain ⟨ha4, ha⟩ := ha
  obtain ⟨hb4, hb⟩ := hb
  unfold load store
  rw [read32_write32_apart]
  constructor <;> rw [BitVec.toNat_sub, BitVec.toNat_ofNat, BitVec.toNat_ofNat] <;> omega

theorem fill_in (m : Mem) {a n : Nat} (c : BitVec 8) {x : BitVec 32}
    (h : (x - BitVec.ofNat 32 a).toNat < n) : m.fill a n c x = c := if_pos h

theorem fill_out (m : Mem) {a n : Nat} (c : BitVec 8) {x : BitVec 32}
    (h : n ≤ (x - BitVec.ofNat 32 a).toNat) : m.fill a n c x = m x := if_neg (by omega)

/-- the distance of the byte `b + k` from `a` -/
theorem dist_toNat {a b : Nat} (k : Nat) (hab : a ≤ b) (hb : b + k < 4294967296) :
    (BitVec.ofNat 32 b + BitVec.ofNat 32 k - BitVec.ofNat 32 a).toNat = b + k - a := by
  rw [BitVec.toNat_sub, BitVec.toNat_add, BitVec.toNat_ofNat, BitVec.toNat_ofNat,
    BitVec.toNat_ofNat]
  omega

theorem dist_toNat_below {a b : Nat} (k : Nat) (hab : b + k < a) (ha : a < 4294967296) :
    (BitVec.ofNat 32 b + BitVec.ofNat 32 k - BitVec.ofNat 32 a).toNat
      = b + k + 4294967296 - a := by
  rw [BitVec.toNat_sub, BitVec.toNat_add, BitVec.toNat_ofNat, BitVec.toNat_ofNat,
    BitVec.toNat_ofNat]
  omega

theorem load_fill_in (m : Mem) {a n b : Nat} (h1 : a ≤ b) (h2 : b + 4 ≤ a + n)
    (h3 : a + n ≤ 4294967296) : (m.fill a n 0).load b = 0 := by
  have hk : ∀ k < 4, m.fill a n 0 (BitVec.ofNat 32 b + BitVec.ofNat 32 k) = 0 := fun k hk =>
    fill_in m 0 (by rw [dist_toNat k h1 (by omega)]; omega)
  have h0 := hk 0 (by decide)
  rw [show BitVec.ofNat 32 0 = 0#32 from rfl, BitVec.add_zero] at h0
  unfold load read32
  rw [h0, show (1 : BitVec 32) = BitVec.ofNat 32 1 from rfl, hk 1 (by decide),
    show (2 : BitVec 32) = BitVec.ofNat 32 2 from rfl, hk 2 (by decide),
    show (3 : BitVec 32) = BitVec.ofNat 32 3 from rfl, hk 3 (by decide)]
  rfl

/-- a word apart from the bytes that have changed -/
theorem load_outside {m m' : Mem} {a n b : Nat}
    (hout : ∀ x, n ≤ (x - BitVec.ofNat 32 a).toNat → m' x = m x) (h : b + 4 ≤ a ∨ a + n ≤ b)
    (ha : a < 4294967296) (han : a + n ≤ 4294967296) (hb : b + 4 ≤ 4294967296) :
    m'.load b = m.load b := by
  have hk : ∀ k < 4, m' (BitVec.ofNat 32 b + BitVec.ofNat 32 k)
      = m (BitVec.ofNat 32 b + BitVec.ofNat 32 k) := by
    intro k hk
    refine hout _ ?_
    rcases h with h | h
    · rw [dist_toNat_below k (by omega) (by omega)]
      omega
    · rw [dist_toNat k (by omega) (by omega)]
      omega
  have h0 := hk 0 (by decide)
  rw [show BitVec.ofNat 32 0 = 0#32 from rfl, BitVec.add_zero] at h0
  unfold load read32
  rw [h0, show (1 : BitVec 32) = BitVec.ofNat 32 1 from rfl, hk 1 (by decide),
    show (2 : BitVec 32) = BitVec.ofNat 32 2 from rfl, hk 2 (by decide),
    show (3 : BitVec 32) = BitVec.ofNat 32 3 from rfl, hk 3 (by decide)]

theorem load_fill_out (m : Mem) {a n b : Nat} (h : b + 4 ≤ a ∨ a + n ≤ b)
    (ha : a + n ≤ 4294967296) (hb : b + 4 ≤ 4294967296) (hpos : 1 ≤ n) :
    (m.fill a n 0).load b = m.load b :=
  load_outside (fun _ hx => fill_out m 0 hx) h (by omega) ha hb

theorem copy_out (m : Mem) {a : Nat} (bs : List (BitVec 8)) {x : BitVec 32}
    (h : bs.length ≤ (x - BitVec.ofNat 32 a).toNat) : m.copy a bs x = m x :=
  List.getD_eq_default _ _ h

theorem copy_at (m : Mem) (p : Nat) (bs : List (BitVec 8)) {i : Nat} (hi : i < bs.length)
    (h : bs.length ≤ 4294967296) : m.copy p bs (BitVec.ofNat 32 (p + i)) = bs[i] := by
  have e : (BitVec.ofNat 32 (p + i) - BitVec.ofNat 32 p).toNat = i := by
    rw [BitVec.toNat_sub, BitVec.toNat_ofNat, BitVec.toNat_ofNat]
    omega
  show bs.getD (BitVec.ofNat 32 (p + i) - BitVec.ofNat 32 p).toNat _ = _
  rw [e, List.getD_eq_getElem _ _ hi]

/-- a byte apart from what is written -/
theorem copy_apart (m : Mem) {p q : Nat} (bs : List (BitVec 8)) (h : q < p ∨ p + bs.length ≤ q)
    (hp : p + bs.length ≤ 4294967296) (hq : q < 4294967296) :
    m.copy p bs (BitVec.ofNat 32 q) = m (BitVec.ofNat 32 q) := by
  refine copy_out m bs ?_
  rw [BitVec.toNat_sub, BitVec.toNat_ofNat, BitVec.toNat_ofNat]
  omega

theorem load_copy_out (m : Mem) {a b : Nat} {bs : List (BitVec 8)}
    (h : b + 4 ≤ a ∨ a + bs.length ≤ b) (ha : a < 4294967296)
    (han : a + bs.length ≤ 4294967296) (hb : b + 4 ≤ 4294967296) :
    (m.copy a bs).load b = m.load b :=
  load_outside (fun _ hx => copy_out m bs hx) h ha han hb

theorem copy_mod (m : Mem) (a : Nat) (bs : List (BitVec 8)) :
    m.copy (a % 4294967296) bs = m.copy a bs := by
  have e : BitVec.ofNat 32 (a % 4294967296) = BitVec.ofNat 32 a := by
    refine BitVec.eq_of_toNat_eq ?_
    rw [BitVec.toNat_ofNat, BitVec.toNat_ofNat]
    omega
  unfold copy
  rw [e]

/-- bytes behind bytes -/
theorem copy_append (m : Mem) (a : Nat) (bs cs : List (BitVec 8))
    (h : bs.length + cs.length ≤ 4294967296) :
    (m.copy a bs).copy (a + bs.length) cs = m.copy a (bs ++ cs) := by
  funext x
  have hd := (x - BitVec.ofNat 32 a).isLt
  have e : (x - BitVec.ofNat 32 (a + bs.length)).toNat
      = ((x - BitVec.ofNat 32 a).toNat + (4294967296 - bs.length)) % 4294967296 := by
    rw [BitVec.toNat_sub, BitVec.toNat_sub, BitVec.toNat_ofNat, BitVec.toNat_ofNat]
    omega
  show cs.getD (x - BitVec.ofNat 32 (a + bs.length)).toNat (bs.getD (x - BitVec.ofNat 32 a).toNat (m x))
    = (bs ++ cs).getD (x - BitVec.ofNat 32 a).toNat (m x)
  rw [e]
  rcases Nat.lt_or_ge (x - BitVec.ofNat 32 a).toNat bs.length with hlt | hge
  · rw [List.getD_append _ _ _ _ hlt, List.getD_eq_default]
    omega
  · rw [List.getD_append_right _ _ _ _ hge, List.getD_eq_default _ _ hge]
    congr 1
    omega

/-! ## halves of words -/

theorem toNat_append_add {v w : Nat} (x : BitVec v) (y : BitVec w) :
    (x ++ y).toNat = x.toNat * 2 ^ w + y.toNat := by
  rw [BitVec.toNat_append, Nat.shiftLeft_eq, Nat.mul_comm, ← Nat.two_pow_add_eq_or_of_lt y.isLt]

/-- the lower half of a word -/
theorem load_half (m : Mem) (a : Nat) : m.load a % 65536
    = (m (BitVec.ofNat 32 a + 1)).toNat * 256 + (m (BitVec.ofNat 32 a)).toNat := by
  unfold load read32
  have h0 := (m (BitVec.ofNat 32 a)).isLt
  have h1 := (m (BitVec.ofNat 32 a + 1)).isLt
  rw [toNat_append_add, toNat_append_add, toNat_append_add]
  omega

theorem load_bytes (m : Mem) (a : Nat) : m.load a
    = (((m (BitVec.ofNat 32 a + 3)).toNat * 256 + (m (BitVec.ofNat 32 a + 2)).toNat) * 256
      + (m (BitVec.ofNat 32 a + 1)).toNat) * 256 + (m (BitVec.ofNat 32 a)).toNat := by
  unfold load read32
  rw [toNat_append_add, toNat_append_add, toNat_append_add]
  rfl

/-- the bytes of equal words -/
theorem bytes_of_load {m m' : Mem} {a k : Nat} (h : m'.load a = m.load a) (hk : k < 4) :
    m' (BitVec.ofNat 32 a + BitVec.ofNat 32 k) = m (BitVec.ofNat 32 a + BitVec.ofNat 32 k) := by
  rw [load_bytes, load_bytes] at h
  have h0 := (m (BitVec.ofNat 32 a)).isLt
  have h1 := (m (BitVec.ofNat 32 a + 1)).isLt
  have h2 := (m (BitVec.ofNat 32 a + 2)).isLt
  have g0 := (m' (BitVec.ofNat 32 a)).isLt
  have g1 := (m' (BitVec.ofNat 32 a + 1)).isLt
  have g2 := (m' (BitVec.ofNat 32 a + 2)).isLt
  refine BitVec.eq_of_toNat_eq ?_
  interval_cases k
  · rw [show BitVec.ofNat 32 0 = 0#32 from rfl, BitVec.add_zero]
    omega
  · show (m' (BitVec.ofNat 32 a + 1)).toNat = (m (BitVec.ofNat 32 a + 1)).toNat
    omega
  · show (m' (BitVec.ofNat 32 a + 2)).toNat = (m (BitVec.ofNat 32 a + 2)).toNat
    omega
  · show (m' (BitVec.ofNat 32 a + 3)).toNat = (m (BitVec.ofNat 32 a + 3)).toNat
    omega

theorem load_copy_half (m : Mem) (a : Nat) (lo hi : BitVec 8) :
    (m.copy a [lo, hi]).load a % 65536 = hi.toNat * 256 + lo.toNat := by
  have h0 : (BitVec.ofNat 32 a - BitVec.ofNat 32 a).toNat = 0 := by
    rw [BitVec.sub_self]
    rfl
  have h1 : (BitVec.ofNat 32 a + 1 - BitVec.ofNat 32 a).toNat = 1 := by
    rw [BitVec.add_comm, BitVec.add_sub_cancel]
    rfl
  rw [load_half]
  unfold copy
  rw [h0, h1]
  rfl

end Mem

end Lib
