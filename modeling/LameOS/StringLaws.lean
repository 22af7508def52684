import LameOS.Strings
import Mathlib.Data.List.GetD
import Mathlib.Tactic

/-!
# Names up to the case of their letters

* `tolowerChar`, `istrncmpChars`   the comparison with the conversions of C written out: a `char` is
                            signed, the bytes compared are not;
* `smallLetter`             the ASCII capitals made small, every other byte kept;
* `istrncmp_folds`          **two strings compare as equal exactly when `strncmp` finds them equal with
                            their capitals made small**, so this is an equivalence, and for names it is
                            equality up to the case of ASCII letters.
-/

set_option linter.unusedVariables false

namespace LameOS

/-! ## `char` is signed -/

/-- `tolower` on a `char` -/
def tolowerChar (s1 : Int8) : Int8 := if 65 ≤ s1 ∧ s1 ≤ 90 then s1 + 32 else s1

/-- the loop of `istrncmp`: `u1` and `u2` are `unsigned char`, and `tolower` takes a `char` -/
def istrncmpCharsLoop (s1 s2 : Nat → Int8) : Nat → Nat → Int
  | 0, _ => 0
  | n + 1, i =>
    let u1 := (s1 i).toUInt8
    let u2 := (s2 i).toUInt8
    if u1 ≠ u2 ∧ (tolowerChar u1.toInt8).toInt ≠ (tolowerChar u2.toInt8).toInt then
      (u1.toNat : Int) - u2.toNat
    else if u1 = 0 then 0
    else istrncmpCharsLoop s1 s2 n (i + 1)

def istrncmpChars (s1 s2 : Nat → Int8) (n : Nat) : Int := istrncmpCharsLoop s1 s2 n 0

/-- the bytes of a string of `char`s -/
def bytesOf (s : Nat → Int8) (i : Nat) : UInt8 := (s i).toUInt8

/-- a byte from 0x80 on is a negative `char`, and no letter -/
theorem tolowerChar_toInt8 : ∀ c : UInt8, tolowerChar c.toInt8 = (tolower c).toInt8 := by
  have hall : ∀ i : Fin 256, tolowerChar (UInt8.ofFin i).toInt8 = (tolower (UInt8.ofFin i)).toInt8 := by
    decide +kernel
  intro c
  exact hall c.toFin

theorem toInt_toInt8_inj {c d : UInt8} : c.toInt8.toInt = d.toInt8.toInt ↔ c = d := by
  rw [Int8.toInt_inj]
  constructor
  · intro h
    have := congrArg Int8.toUInt8 h
    simpa using this
  · rintro rfl
    rfl

/-- the conversions change nothing -/
theorem istrncmpCharsLoop_eq (s1 s2 : Nat → Int8) (n : Nat) : ∀ i, istrncmpCharsLoop s1 s2 n i
    = istrncmpLoop (bytesOf s1) (bytesOf s2) n i := by
  induction n with
  | zero => exact fun i => rfl
  | succ n ih =>
    intro i
    unfold istrncmpCharsLoop istrncmpLoop
    simp only [tolowerChar_toInt8, ne_eq, toInt_toInt8_inj, ih]
    rfl

/-! ## what equal strings have in common -/

/-- the strings are the same up to their end, in the first `n` bytes -/
def SameText (s1 s2 : Nat → UInt8) (n : Nat) : Prop :=
  ∀ k < n, (∀ j < k, s1 j ≠ 0) → s1 k = s2 k

section
variable {s1 s2 s3 : Nat → UInt8} {n : Nat}

theorem byte_sub_eq_zero {c d : UInt8} : (c.toNat : Int) - d.toNat = 0 ↔ c = d := by
  rw [← UInt8.toNat_inj]
  omega

/-- the first bytes, and the rest -/
theorem sameText_succ : SameText s1 s2 (n + 1) ↔
    s1 0 = s2 0 ∧ (s1 0 ≠ 0 → SameText (fun k => s1 (k + 1)) (fun k => s2 (k + 1)) n) := by
  constructor
  · intro h
    refine ⟨h 0 (Nat.succ_pos n) (fun j hj => absurd hj (Nat.not_lt_zero j)), fun h0 k hk hbefore => ?_⟩
    refine h (k + 1) (by omega) (fun j hj => ?_)
    cases j with
    | zero => exact h0
    | succ j => exact hbefore j (by omega)
  · rintro ⟨hfirst, hrest⟩ k hk hbefore
    cases k with
    | zero => exact hfirst
    | succ k => exact hrest (hbefore 0 (Nat.succ_pos k)) k (by omega) (fun j hj => hbefore (j + 1) (by omega))

/-- the loop compares the strings from `i` on -/
theorem strncmpLoop_eq_zero (s1 s2 : Nat → UInt8) (n : Nat) : ∀ i, strncmpLoop s1 s2 n i = 0 ↔
    SameText (fun k => s1 (i + k)) (fun k => s2 (i + k)) n := by
  induction n with
  | zero =>
    intro i
    exact ⟨fun _ k hk => absurd hk (Nat.not_lt_zero k), fun _ => rfl⟩
  | succ n ih =>
    intro i
    have hshift : ∀ s : Nat → UInt8, (fun k => s (i + (k + 1))) = fun k => s (i + 1 + k) := fun s =>
      funext (fun k => by rw [Nat.add_assoc, Nat.add_comm 1])
    have hrun : strncmpLoop s1 s2 (n + 1) i = if s1 i ≠ s2 i then ((s1 i).toNat : Int) - (s2 i).toNat
        else if s1 i = 0 then 0 else strncmpLoop s1 s2 n (i + 1) := rfl
    rw [sameText_succ, Nat.add_zero, hshift, hshift, ← ih (i + 1), hrun]
    by_cases hne : s1 i = s2 i
    · rw [if_neg (not_not.mpr hne)]
      by_cases h0 : s1 i = 0
      · rw [if_pos h0]
        exact ⟨fun _ => ⟨hne, fun h => absurd h0 h⟩, fun _ => rfl⟩
      · rw [if_neg h0]
        exact ⟨fun h => ⟨hne, fun _ => h⟩, fun h => h.2 h0⟩
    · rw [if_pos hne, byte_sub_eq_zero]
      exact ⟨fun h => absurd h hne, fun h => absurd h.1 hne⟩

theorem strncmp_eq_zero : strncmp s1 s2 n = 0 ↔ SameText s1 s2 n := by
  unfold strncmp
  rw [strncmpLoop_eq_zero]
  simp only [Nat.zero_add]

/-- up to where they are the same, neither ends before the other -/
theorem SameText.running (h : SameText s1 s2 n) {k : Nat} (hk : k ≤ n) (h2 : ∀ j < k, s2 j ≠ 0) :
    ∀ j < k, s1 j ≠ 0 := by
  intro j
  induction j using Nat.strong_induction_on with
  | _ j ih =>
    intro hj
    rw [h j (by omega) (fun l hl => ih l hl (by omega))]
    exact h2 j hj

theorem SameText.refl (s : Nat → UInt8) (n : Nat) : SameText s s n := fun _ _ _ => rfl

theorem SameText.symm (h : SameText s1 s2 n) : SameText s2 s1 n := fun k hk h2 =>
  (h k hk (h.running hk.le h2)).symm

theorem SameText.trans (h : SameText s1 s2 n) (h' : SameText s2 s3 n) : SameText s1 s3 n :=
  fun k hk h1 => (h k hk h1).trans (h' k hk (h.symm.running hk.le h1))

end

/-! ## the comparison of names -/

/-- an ASCII capital made small; any other byte as it is -/
def smallLetter (c : UInt8) : UInt8 :=
  if 'A'.toNat ≤ c.toNat ∧ c.toNat ≤ 'Z'.toNat then c + 32 else c

/-- a string with its capitals made small -/
def smallLetters (s : Nat → UInt8) (i : Nat) : UInt8 := smallLetter (s i)

/-- a name that fits into the buffer with its terminator -/
structure FileName (name : List UInt8) : Prop where
  short : name.length < maxPath
  text : ∀ c ∈ name, c ≠ 0

theorem tolower_eq (c : UInt8) : tolower c = smallLetter c := rfl

theorem smallLetter_eq_zero {c : UInt8} : smallLetter c = 0 ↔ c = 0 := by
  have hall : ∀ i : Fin 256, smallLetter (UInt8.ofFin i) = 0 ↔ UInt8.ofFin i = 0 := by
    decide +kernel
  exact hall c.toFin

/-- **One loop, and the other on the small letters.** -/
theorem istrncmpLoop_eq_zero (s1 s2 : Nat → UInt8) (n : Nat) : ∀ i, istrncmpLoop s1 s2 n i = 0 ↔
    strncmpLoop (smallLetters s1) (smallLetters s2) n i = 0 := by
  induction n with
  | zero => exact fun i => ⟨fun _ => rfl, fun _ => rfl⟩
  | succ n ih =>
    intro i
    unfold istrncmpLoop strncmpLoop smallLetters
    rw [tolower_eq, tolower_eq]
    by_cases h : smallLetter (s1 i) = smallLetter (s2 i)
    · rw [if_neg (fun hne => hne.2 h), if_neg (not_not.mpr h)]
      by_cases h0 : s1 i = 0
      · rw [if_pos h0, if_pos (smallLetter_eq_zero.mpr h0)]
      · rw [if_neg h0, if_neg (fun hz => h0 (smallLetter_eq_zero.mp hz))]
        exact ih (i + 1)
    · have hne : s1 i ≠ s2 i := fun e => h (by rw [e])
      rw [if_pos ⟨hne, h⟩, if_pos h, byte_sub_eq_zero, byte_sub_eq_zero]
      exact ⟨fun e => absurd e hne, fun e => absurd e h⟩

theorem istrncmp_same {s1 s2 : Nat → UInt8} {n : Nat} :
    istrncmp s1 s2 n = 0 ↔ SameText (smallLetters s1) (smallLetters s2) n :=
  (istrncmpLoop_eq_zero s1 s2 n 0).trans strncmp_eq_zero

theorem smallLetters_cstr (name : List UInt8) :
    smallLetters (cstr name) = cstr (name.map smallLetter) := by
  funext i
  unfold smallLetters cstr
  rw [List.getD_eq_getElem?_getD, List.getD_eq_getElem?_getD, List.getElem?_map]
  cases name[i]? <;> rfl

theorem FileName.small {name : List UInt8} (h : FileName name) : FileName (name.map smallLetter) := by
  refine ⟨by rw [List.length_map]; exact h.short, fun c hc h0 => ?_⟩
  obtain ⟨d, hd, rfl⟩ := List.mem_map.mp hc
  exact h.text d hd (smallLetter_eq_zero.mp h0)

theorem FileName.running {name : List UInt8} (h : FileName name) {j : Nat} (hj : j < name.length) :
    cstr name j ≠ 0 := by
  unfold cstr
  rw [List.getD_eq_getElem _ _ hj]
  exact h.text _ (List.getElem_mem hj)

theorem cstr_length (name : List UInt8) : cstr name name.length = 0 :=
  List.getD_eq_default _ _ (le_refl _)

/-- a name is no longer than one that has the same text -/
theorem FileName.length_le {a b : List UInt8} (ha : FileName a) (hb : FileName b)
    (h : SameText (cstr a) (cstr b) maxPath) : b.length ≤ a.length := by
  by_contra hlt
  push Not at hlt
  have hend := h a.length ha.short (fun j hj => ha.running hj)
  rw [cstr_length] at hend
  exact hb.running hlt hend.symm

/-- names with the same text are the same -/
theorem FileName.sameText_iff {a b : List UInt8} (ha : FileName a) (hb : FileName b) :
    SameText (cstr a) (cstr b) maxPath ↔ a = b := by
  constructor
  · intro h
    have hlen : a.length = b.length :=
      Nat.le_antisymm (hb.length_le ha h.symm) (ha.length_le hb h)
    apply List.ext_getElem hlen
    intro i h1 h2
    have hi := h i (lt_trans h1 ha.short) (fun j hj => ha.running (lt_trans hj h1))
    unfold cstr at hi
    rwa [List.getD_eq_getElem _ _ h1, List.getD_eq_getElem _ _ h2] at hi
  · rintro rfl
    exact SameText.refl _ _

/-- **Names are compared up to the case of their ASCII letters.**  Two strings compare as equal exactly
when `strncmp` finds them equal with their capitals made small; this is an equivalence; and names that
fit into the buffer are equal then but for capitals.  The signed `char`s of the strings make no
difference. -/
theorem istrncmp_folds :
    (∀ (s1 s2 : Nat → Int8) (n : Nat), istrncmpChars s1 s2 n = istrncmp (bytesOf s1) (bytesOf s2) n) ∧
    (∀ (s1 s2 : Nat → UInt8) (n : Nat),
      istrncmp s1 s2 n = 0 ↔ strncmp (smallLetters s1) (smallLetters s2) n = 0) ∧
    (∀ n : Nat, Equivalence (fun s1 s2 : Nat → UInt8 => istrncmp s1 s2 n = 0)) ∧
    ∀ a b : List UInt8, FileName a → FileName b →
      (istrncmp (cstr a) (cstr b) maxPath = 0 ↔ a.map smallLetter = b.map smallLetter) := by
  refine ⟨fun s1 s2 n => istrncmpCharsLoop_eq s1 s2 n 0,
    fun s1 s2 n => istrncmpLoop_eq_zero s1 s2 n 0, fun n => ⟨?_, ?_, ?_⟩, ?_⟩
  · exact fun s => istrncmp_same.mpr (SameText.refl _ _)
  · exact fun h => istrncmp_same.mpr (istrncmp_same.mp h).symm
  · exact fun h h' => istrncmp_same.mpr ((istrncmp_same.mp h).trans (istrncmp_same.mp h'))
  · intro a b ha hb
    rw [istrncmp_same, smallLetters_cstr, smallLetters_cstr]
    exact ha.small.sameText_iff hb.small

/-- `Ä` is two bytes without a case -/
theorem istrncmp_folds_read : istrncmp (cstr [0x52, 0xC3, 0x84]) (cstr [0x72, 0xC3, 0x84]) maxPath = 0 ∧
    istrncmp (cstr [0x52, 0xC3, 0x84]) (cstr [0x72, 0xC3, 0xA4]) maxPath ≠ 0 := by
  have hname : ∀ c d e : UInt8, c ≠ 0 → d ≠ 0 → e ≠ 0 → FileName [c, d, e] := by
    intro c d e hc hd he
    refine ⟨show 3 < maxPath by decide, fun x hx => ?_⟩
    rcases List.mem_cons.mp hx with rfl | hx
    · exact hc
    · rcases List.mem_cons.mp hx with rfl | hx
      · exact hd
      · rwa [List.mem_singleton.mp hx]
  constructor
  · exact (istrncmp_folds.2.2.2 _ _ (hname _ _ _ (by decide) (by decide) (by decide))
      (hname _ _ _ (by decide) (by decide) (by decide))).mpr (by decide)
  · intro h
    exact absurd ((istrncmp_folds.2.2.2 _ _ (hname _ _ _ (by decide) (by decide) (by decide))
      (hname _ _ _ (by decide) (by decide) (by decide))).mp h) (by decide)

end LameOS
