import LameOS.Fs.RootDirectory
import Mathlib.Data.List.TakeWhile

/-!
# The names of records

The fields of a name have 8 and 3 bytes and no terminator; `fat16_to_proper_string` looks for a
zero or a space.

* `RunTo f n`              the bytes `f` before index `n` are no blanks, and `n` is one;
* `properName`             the name as its two fields give it;
* `fullRelativeFilename_iff`  when the code returns it;
* `proper_name_iff`        when it does so whatever the rest of the record is.
-/

set_option linter.unusedVariables false

namespace LameOS
open Lib Lib.Exec

/-! ## fields -/

/-- the bytes that end a name -/
def Blank (c : UInt8) : Prop := c = 0x00 ∨ c = 0x20

instance (c : UInt8) : Decidable (Blank c) := inferInstanceAs (Decidable (_ ∨ _))

/-- the first blank of `f` is at index `n` -/
structure RunTo (f : Nat → UInt8) (n : Nat) : Prop where
  before : ∀ k < n, ¬ Blank (f k)
  stop : Blank (f n)

/-- the characters of `f` before index `n` -/
def chars (f : Nat → UInt8) (n : Nat) : List UInt8 := (List.range n).map f

/-- the bytes of a field up to its first blank, all `n` if there is none -/
def fieldString (f : Nat → UInt8) (n : Nat) : List UInt8 :=
  (chars f n).takeWhile (fun c => ¬ Blank c)

theorem chars_length (f : Nat → UInt8) (n : Nat) : (chars f n).length = n := by
  unfold chars
  rw [List.length_map, List.length_range]

theorem chars_succ (f : Nat → UInt8) (n : Nat) :
    chars f (n + 1) = f 0 :: chars (fun k => f (k + 1)) n := by
  unfold chars
  rw [List.range_succ_eq_map, List.map_cons, List.map_map]
  rfl

theorem RunTo.unique {f : Nat → UInt8} {m n : Nat} (hm : RunTo f m) (hn : RunTo f n) : m = n := by
  rcases Nat.lt_trichotomy m n with hlt | rfl | hlt
  · exact absurd hm.stop (hn.before m hlt)
  · rfl
  · exact absurd hn.stop (hm.before n hlt)

/-- the first blank before index `n` -/
theorem exists_runTo {f : Nat → UInt8} {n : Nat} (h : ∃ i < n, Blank (f i)) :
    ∃ m < n, RunTo f m := by
  obtain ⟨i, hi, hb⟩ := h
  have hex : ∃ i, Blank (f i) := ⟨i, hb⟩
  refine ⟨Nat.find hex, lt_of_le_of_lt (Nat.find_min' hex hb) hi, ?_, Nat.find_spec hex⟩
  exact fun k hk => Nat.find_min hex hk

theorem fieldString_of_runTo (n : Nat) : ∀ {f : Nat → UInt8} {m : Nat}, RunTo f m → m < n →
    fieldString f n = chars f m := by
  induction n with
  | zero =>
    intro f m h hm
    omega
  | succ n ih =>
    intro f m h hm
    unfold fieldString
    rw [chars_succ, List.takeWhile_cons]
    cases m with
    | zero =>
      have hb : ¬ (decide (¬ Blank (f 0)) = true) := fun hd => of_decide_eq_true hd h.stop
      rw [if_neg hb]
      rfl
    | succ m =>
      have hb : decide (¬ Blank (f 0)) = true := decide_eq_true (h.before 0 (Nat.succ_pos m))
      have hrest : RunTo (fun k => f (k + 1)) m :=
        ⟨fun k hk => h.before (k + 1) (by omega), h.stop⟩
      have htail := ih hrest (by omega)
      unfold fieldString at htail
      rw [if_pos hb, htail, chars_succ]

theorem fieldString_full {f : Nat → UInt8} {n : Nat} (h : ∀ k < n, ¬ Blank (f k)) :
    fieldString f n = chars f n := by
  refine List.takeWhile_eq_self_iff.mpr (fun c hc => ?_)
  obtain ⟨k, hk, rfl⟩ := List.mem_map.mp hc
  exact decide_eq_true (h k (List.mem_range.mp hk))

/-! ## the copy loop -/

section
variable {b : Buffer} {i : Nat} {out : List UInt8}

/-- the bytes from `i` on -/
def Buffer.from (b : Buffer) (i : Nat) : Nat → UInt8 := fun k => b.bytes (i + k)

theorem Buffer.from_succ (b : Buffer) (i : Nat) : (fun k => b.from i (k + 1)) = b.from (i + 1) := by
  funext k
  show b.bytes (i + (k + 1)) = b.bytes (i + 1 + k)
  rw [Nat.add_assoc, Nat.add_comm 1 k]

/-- the loop copies the characters before the first blank -/
theorem properStringLoop_run (n : Nat) : ∀ (fuel i : Nat) (out : List UInt8), RunTo (b.from i) n →
    i + n < b.size → out.length + n < maxPath → n < fuel →
    properStringLoop b fuel i out = .ok (out ++ chars (b.from i) n) := by
  induction n with
  | zero =>
    intro fuel i out h hin hout hfuel
    obtain ⟨fuel, rfl⟩ := Nat.exists_eq_add_of_le' hfuel
    have hstop : Blank (b.bytes i) := h.stop
    have hno : ¬ (b.bytes i ≠ 0x00 ∧ b.bytes i ≠ 0x20) := fun hc => hstop.elim hc.1 hc.2
    unfold properStringLoop
    rw [Buffer.get_ok (by omega), ok_bind, if_neg hno, if_neg (by omega)]
    exact congrArg Except.ok (List.append_nil out).symm
  | succ n ih =>
    intro fuel i out h hin hout hfuel
    obtain ⟨fuel, rfl⟩ := Nat.exists_eq_add_of_le' (by omega : 1 ≤ fuel)
    have hfirst : ¬ Blank (b.bytes i) := h.before 0 (Nat.succ_pos n)
    have hyes : b.bytes i ≠ 0x00 ∧ b.bytes i ≠ 0x20 :=
      ⟨fun e => hfirst (Or.inl e), fun e => hfirst (Or.inr e)⟩
    have hnext := b.from_succ i
    have hrest : RunTo (b.from (i + 1)) n := by
      rw [← hnext]
      exact ⟨fun k hk => h.before (k + 1) (by omega), h.stop⟩
    have hlen : (out ++ [b.bytes i]).length = out.length + 1 := by simp
    unfold properStringLoop
    rw [Buffer.get_ok (by omega), ok_bind, if_pos hyes, if_pos (by omega),
      ih fuel (i + 1) _ hrest (by omega) (by omega) (by omega), chars_succ, hnext, List.append_assoc]
    rfl

/-- what the loop has copied when it ends -/
theorem properStringLoop_eq_ok (fuel : Nat) : ∀ (i : Nat) (out r : List UInt8),
    properStringLoop b fuel i out = .ok r →
      ∃ n, RunTo (b.from i) n ∧ r = out ++ chars (b.from i) n := by
  induction fuel with
  | zero =>
    intro i out r hrun
    cases hrun
  | succ fuel ih =>
    intro i out r hrun
    unfold properStringLoop at hrun
    by_cases hin : i < b.size
    · rw [Buffer.get_ok hin, ok_bind] at hrun
      by_cases hyes : b.bytes i ≠ 0x00 ∧ b.bytes i ≠ 0x20
      · rw [if_pos hyes] at hrun
        split at hrun
        · obtain ⟨n, hn, rfl⟩ := ih _ _ _ hrun
          have hnext := b.from_succ i
          rw [← hnext] at hn
          refine ⟨n + 1, ⟨fun k hk => ?_, hn.stop⟩, ?_⟩
          · cases k with
            | zero => exact fun hb => hb.elim hyes.1 hyes.2
            | succ k => exact hn.before k (by omega)
          · rw [chars_succ, hnext, List.append_assoc]
            rfl
        · cases hrun
      · rw [if_neg hyes] at hrun
        split at hrun
        · cases hrun
        · obtain rfl := Except.ok.inj hrun
          refine ⟨0, ⟨fun k hk => absurd hk (Nat.not_lt_zero k), ?_⟩, (List.append_nil out).symm⟩
          show Blank (b.bytes i)
          by_contra hb
          exact hyes ⟨fun e => hb (Or.inl e), fun e => hb (Or.inr e)⟩
    · unfold Buffer.get at hrun
      rw [if_neg hin] at hrun
      cases hrun

end

/-! ## the name of a record -/

namespace FatDirectoryItem

/-- the record lies in its buffer -/
def Inside (item : FatDirectoryItem) : Prop := item.offset + fatDirectoryItemSize ≤ item.buffer.size

/-- byte `k` of the record -/
def byte (item : FatDirectoryItem) (k : Nat) : UInt8 := item.buffer.bytes (item.offset + k)

/-- byte `k` of the extension -/
def extByte (item : FatDirectoryItem) (k : Nat) : UInt8 := item.byte (8 + k)

/-- the field of the name, or of the extension, has a blank in it -/
def ShortName (item : FatDirectoryItem) : Prop := ∃ k < 8, Blank (item.byte k)

def ShortExt (item : FatDirectoryItem) : Prop := ∃ k < 3, Blank (item.extByte k)

end FatDirectoryItem

/-- the name that the two fields give -/
def properName (item : FatDirectoryItem) : List UInt8 :=
  fieldString item.byte 8
    ++ if Blank (item.extByte 0) then [] else 46 :: fieldString item.extByte 3

section
variable {item item' : FatDirectoryItem}

theorem item_from_ext (item : FatDirectoryItem) :
    item.buffer.from (item.offset + 8) = item.extByte := by
  funext k
  show item.buffer.bytes (item.offset + 8 + k) = item.buffer.bytes (item.offset + (8 + k))
  rw [Nat.add_assoc]

theorem fieldString_length (f : Nat → UInt8) (n : Nat) : (fieldString f n).length ≤ n := by
  have hle := (List.takeWhile_sublist (fun c => decide (¬ Blank c)) (l := chars f n)).length_le
  rw [chars_length] at hle
  exact hle

theorem properName_length (item : FatDirectoryItem) : (properName item).length ≤ 12 := by
  have h1 := fieldString_length item.byte 8
  have h2 := fieldString_length item.extByte 3
  unfold properName
  rw [List.length_append]
  split
  · rw [List.length_nil]
    omega
  · rw [List.length_cons]
    omega

theorem fieldString_congr {f g : Nat → UInt8} {n : Nat} (h : ∀ k < n, f k = g k) :
    fieldString f n = fieldString g n := by
  have hchars : chars f n = chars g n :=
    List.map_congr_left (fun k hk => h k (List.mem_range.mp hk))
  unfold fieldString
  rw [hchars]

/-- the name depends on 11 bytes -/
theorem properName_congr (h : ∀ k < 11, item'.byte k = item.byte k) :
    properName item' = properName item := by
  have hext : ∀ k < 3, item'.extByte k = item.extByte k := fun k hk => h (8 + k) (by omega)
  unfold properName
  rw [fieldString_congr (fun k hk => h k (by omega)), fieldString_congr hext, hext 0 (by decide)]

/-! ## what the code returns -/

theorem ext_get (hin : item.Inside) : item.buffer.get (item.offset + 8) = .ok (item.extByte 0) := by
  have hin : item.offset + 32 ≤ item.buffer.size := hin
  exact Buffer.get_ok (by omega)

theorem blank_ext {c : UInt8} : ¬ (c ≠ 0x00 ∧ c ≠ 0x20) ↔ Blank c := by
  unfold Blank
  tauto

/-- without an extension -/
theorem fullRelativeFilename_bare (hin : item.Inside) (hext : Blank (item.extByte 0)) {n : Nat}
    (hn : RunTo item.byte n) (hle : n ≤ 8) :
    fat16GetFullRelativeFilename item = .ok (chars item.byte n) := by
  have hsize : item.offset + 32 ≤ item.buffer.size := hin
  have hname : fat16ToProperString [] item.buffer item.offset = .ok ([] ++ chars item.byte n) :=
    properStringLoop_run n _ _ [] hn (by omega) (by dsimp only [maxPath, List.length_nil]; omega)
      (by omega)
  rw [List.nil_append] at hname
  unfold fat16GetFullRelativeFilename
  rw [hname, ok_bind, ext_get hin, ok_bind, if_neg (blank_ext.mpr hext)]
  rfl

/-- with one -/
theorem fullRelativeFilename_dotted (hin : item.Inside) (hext : ¬ Blank (item.extByte 0)) {n a : Nat}
    (hn : RunTo item.byte n) (hle : n ≤ 8) (ha : RunTo item.extByte a) (hale : a ≤ 3) :
    fat16GetFullRelativeFilename item = .ok (chars item.byte n ++ 46 :: chars item.extByte a) := by
  have hsize : item.offset + 32 ≤ item.buffer.size := hin
  have hname : fat16ToProperString [] item.buffer item.offset = .ok ([] ++ chars item.byte n) :=
    properStringLoop_run n _ _ [] hn (by omega) (by dsimp only [maxPath, List.length_nil]; omega)
      (by omega)
  rw [List.nil_append] at hname
  have hlen : (chars item.byte n).length = n := chars_length _ _
  have hlen' : (chars item.byte n ++ [46]).length = n + 1 := by
    rw [List.length_append, hlen]
    rfl
  have hrest : fat16ToProperString (chars item.byte n ++ [46]) item.buffer (item.offset + 8)
      = .ok (chars item.byte n ++ [46] ++ chars (item.buffer.from (item.offset + 8)) a) := by
    refine properStringLoop_run a _ _ _ ?_ (by omega) (by dsimp only [maxPath]; omega) (by omega)
    rw [item_from_ext]
    exact ha
  rw [item_from_ext, List.append_assoc] at hrest
  have hyes : item.extByte 0 ≠ 0x00 ∧ item.extByte 0 ≠ 0x20 := by
    by_contra hno
    exact hext (blank_ext.mp hno)
  unfold fat16GetFullRelativeFilename
  rw [hname, ok_bind, ext_get hin, ok_bind, if_pos hyes, if_pos (by dsimp only [maxPath]; omega),
    hrest]
  rfl

/-- what has been copied when the code returns -/
theorem fullRelativeFilename_eq_ok (hin : item.Inside) {r : List UInt8}
    (hrun : fat16GetFullRelativeFilename item = .ok r) : ∃ n, RunTo item.byte n ∧
      (¬ Blank (item.extByte 0) → ∃ a, RunTo item.extByte a ∧
        r = chars item.byte n ++ 46 :: chars item.extByte a) := by
  unfold fat16GetFullRelativeFilename at hrun
  cases hname : fat16ToProperString [] item.buffer item.offset with
  | error e =>
    rw [hname] at hrun
    cases hrun
  | ok out =>
    obtain ⟨n, hn, rfl⟩ := properStringLoop_eq_ok _ _ _ _ hname
    rw [hname, ok_bind, ext_get hin, ok_bind] at hrun
    refine ⟨n, hn, fun hext => ?_⟩
    have hyes : item.extByte 0 ≠ 0x00 ∧ item.extByte 0 ≠ 0x20 := by
      by_contra hno
      exact hext (blank_ext.mp hno)
    rw [if_pos hyes] at hrun
    split at hrun
    · obtain ⟨a, ha, rfl⟩ := properStringLoop_eq_ok _ _ _ _ hrun
      rw [item_from_ext] at ha ⊢
      refine ⟨a, ha, ?_⟩
      rw [List.nil_append, List.append_assoc]
      rfl
    · cases hrun

/-- **When the code returns the name.**  Without an extension always; with one, when the name has a
blank in its field, and the extension has one in its field or right behind it. -/
theorem fullRelativeFilename_iff (hin : item.Inside) :
    fat16GetFullRelativeFilename item = .ok (properName item) ↔ Blank (item.extByte 0) ∨
      (item.ShortName ∧ (item.ShortExt ∨ Blank (item.extByte 3))) := by
  constructor
  · intro hrun
    by_contra hno
    obtain ⟨hext, hno⟩ := not_or.mp hno
    obtain ⟨n, hn, hdot⟩ := fullRelativeFilename_eq_ok hin hrun
    obtain ⟨a, ha, hr⟩ := hdot hext
    have hlen := congrArg List.length hr
    unfold properName at hlen
    rw [if_neg hext, List.length_append, List.length_append, List.length_cons, List.length_cons,
      chars_length, chars_length] at hlen
    have ha0 : 1 ≤ a := by
      by_contra h0
      obtain rfl : a = 0 := by omega
      exact hext ha.stop
    by_cases hname : item.ShortName
    · -- the extension is copied past its field
      obtain ⟨m, hm, hrunm⟩ := exists_runTo hname
      obtain rfl := hrunm.unique hn
      rw [fieldString_of_runTo 8 hn hm, chars_length] at hlen
      have hle := fieldString_length item.extByte 3
      refine hno ⟨hname, ?_⟩
      rcases Nat.eq_or_lt_of_le (by omega : a ≤ 3) with rfl | hlt
      · exact Or.inr ha.stop
      · exact Or.inl ⟨a, hlt, ha.stop⟩
    · -- the name is copied into the extension
      have hfull : ∀ k < 8, ¬ Blank (item.byte k) := fun k hk hb => hname ⟨k, hk, hb⟩
      have hn9 : 9 ≤ n := by
        by_contra hlt
        rcases Nat.eq_or_lt_of_le (by omega : n ≤ 8) with rfl | hlt
        · exact hext hn.stop
        · exact hfull n hlt hn.stop
      rw [fieldString_full hfull, chars_length] at hlen
      by_cases hshort : item.ShortExt
      · obtain ⟨m, hm, hrunm⟩ := exists_runTo hshort
        obtain rfl := hrunm.unique ha
        rw [fieldString_of_runTo 3 ha hm, chars_length] at hlen
        omega
      · have ha3 : 3 ≤ a := by
          by_contra hlt
          exact hshort ⟨a, by omega, ha.stop⟩
        have hle := fieldString_length item.extByte 3
        omega
  · intro hcond
    by_cases hext : Blank (item.extByte 0)
    · unfold properName
      rw [if_pos hext, List.append_nil]
      by_cases hname : item.ShortName
      · obtain ⟨n, hlt, hn⟩ := exists_runTo hname
        rw [fieldString_of_runTo 8 hn hlt]
        exact fullRelativeFilename_bare hin hext hn (le_of_lt hlt)
      · have hfull : ∀ k < 8, ¬ Blank (item.byte k) := fun k hk hb => hname ⟨k, hk, hb⟩
        rw [fieldString_full hfull]
        exact fullRelativeFilename_bare hin hext ⟨hfull, hext⟩ (le_refl 8)
    · obtain ⟨hname, hshort⟩ := hcond.resolve_left hext
      obtain ⟨n, hlt, hn⟩ := exists_runTo hname
      unfold properName
      rw [if_neg hext, fieldString_of_runTo 8 hn hlt]
      by_cases hse : item.ShortExt
      · obtain ⟨a, halt, ha⟩ := exists_runTo hse
        rw [fieldString_of_runTo 3 ha halt]
        exact fullRelativeFilename_dotted hin hext hn (le_of_lt hlt) ha (le_of_lt halt)
      · have hfull : ∀ k < 3, ¬ Blank (item.extByte k) := fun k hk hb => hse ⟨k, hk, hb⟩
        rw [fieldString_full hfull]
        exact fullRelativeFilename_dotted hin hext hn (le_of_lt hlt)
          ⟨hfull, hshort.resolve_left hse⟩ (le_refl 3)

end

/-- the code returns the name that the two fields give, of 12 characters at most; the rest of the
record and what follows it in memory have no part in it -/
structure ProperlyNamed (item : FatDirectoryItem) : Prop where
  name : fat16GetFullRelativeFilename item = .ok (properName item)
  short : (properName item).length ≤ 12
  alone : ∀ item' : FatDirectoryItem, item'.Inside → (∀ k < 11, item'.byte k = item.byte k) →
    fat16GetFullRelativeFilename item' = fat16GetFullRelativeFilename item

/-- the record with the attribute byte `c` and nothing behind -/
def withAttribute (item : FatDirectoryItem) (c : UInt8) : FatDirectoryItem :=
  ⟨⟨32, fun k => if k < 11 then item.byte k else if k = 11 then c else 0⟩, 0⟩

theorem withAttribute_inside (item : FatDirectoryItem) (c : UInt8) :
    (withAttribute item c).Inside := le_refl 32

theorem withAttribute_byte (item : FatDirectoryItem) (c : UInt8) {k : Nat} (hk : k < 11) :
    (withAttribute item c).byte k = item.byte k := by
  show (if 0 + k < 11 then item.byte (0 + k) else _) = _
  rw [Nat.zero_add, if_pos hk]

/-- **Names of records.**  The code returns the name of a record, whatever else is in it, exactly
when the extension is blank, or neither field is full. -/
theorem proper_name_iff {item : FatDirectoryItem} (hin : item.Inside) :
    ProperlyNamed item ↔ Blank (item.extByte 0) ∨ (item.ShortName ∧ item.ShortExt) := by
  constructor
  · intro h
    rcases (fullRelativeFilename_iff hin).mp h.name with hext | ⟨hname, hshort⟩
    · exact Or.inl hext
    · rcases hshort with hshort | hattr
      · exact Or.inr ⟨hname, hshort⟩
      · -- another attribute byte would be read as a character
        have hin' := withAttribute_inside item 65
        have hsame := fun k (hk : k < 11) => withAttribute_byte item 65 hk
        have hrun := h.alone _ hin' hsame
        rw [h.name, ← properName_congr hsame] at hrun
        have hext : ∀ k < 3, (withAttribute item 65).extByte k = item.extByte k :=
          fun k hk => hsame (8 + k) (by omega)
        rcases (fullRelativeFilename_iff hin').mp hrun with hb | ⟨-, hse | hb⟩
        · rw [hext 0 (by decide)] at hb
          exact Or.inl hb
        · obtain ⟨k, hk, hb⟩ := hse
          rw [hext k hk] at hb
          exact Or.inr ⟨hname, k, hk, hb⟩
        · have h65 : ¬ Blank ((withAttribute item 65).extByte 3) := by
            show ¬ Blank 65
            decide
          exact absurd hb h65
  · intro hcond
    have hvalue : ∀ item' : FatDirectoryItem, item'.Inside →
        (∀ k < 11, item'.byte k = item.byte k) →
        fat16GetFullRelativeFilename item' = .ok (properName item) := by
      intro item' hin' hsame
      have hext : ∀ k < 3, item'.extByte k = item.extByte k := fun k hk => hsame (8 + k) (by omega)
      rw [← properName_congr hsame]
      refine (fullRelativeFilename_iff hin').mpr ?_
      rcases hcond with hb | ⟨⟨k, hk, hb⟩, ⟨l, hl, hb'⟩⟩
      · left
        rw [hext 0 (by decide)]
        exact hb
      · right
        refine ⟨⟨k, hk, ?_⟩, Or.inl ⟨l, hl, ?_⟩⟩
        · rw [hsame k (by omega)]
          exact hb
        · rw [hext l hl]
          exact hb'
    have hname := hvalue item hin (fun k hk => rfl)
    refine ⟨hname, properName_length item, fun item' hin' hsame => ?_⟩
    rw [hname, hvalue item' hin' hsame]

/-- the record of a file with the attribute byte `0x20` -/
def fileRecord (name : List UInt8) : FatDirectoryItem := ⟨.ofBytes 32 (name ++ [0x20]), 0⟩

/-- `HELLO.C` -/
theorem proper_name_iff_hello :
    ProperlyNamed (fileRecord [72, 69, 76, 76, 79, 32, 32, 32, 67, 32, 32]) :=
  (proper_name_iff (le_refl 32)).mpr
    (Or.inr ⟨⟨5, by decide, by decide⟩, ⟨1, by decide, by decide⟩⟩)

/-- `ABCDEFGH.TXT` comes out as `ABCDEFGHTXT.TXT` -/
theorem full_name_runs_on :
    fat16GetFullRelativeFilename (fileRecord [65, 66, 67, 68, 69, 70, 71, 72, 84, 88, 84])
      = .ok [65, 66, 67, 68, 69, 70, 71, 72, 84, 88, 84, 46, 84, 88, 84] ∧
    ¬ ProperlyNamed (fileRecord [65, 66, 67, 68, 69, 70, 71, 72, 84, 88, 84]) := by
  have hrun : fat16GetFullRelativeFilename
      (fileRecord [65, 66, 67, 68, 69, 70, 71, 72, 84, 88, 84])
        = .ok [65, 66, 67, 68, 69, 70, 71, 72, 84, 88, 84, 46, 84, 88, 84] := by rfl
  refine ⟨hrun, fun h => ?_⟩
  have hshort := h.short
  rw [h.name] at hrun
  rw [Except.ok.inj hrun] at hshort
  revert hshort
  decide

end LameOS
