import LameOS.Lib.Exec
import LameOS.Strings

/-!
# The terminal of `kernel.c`

* `Terminal`              `term_row`, `term_col` and the cells of the framebuffer;
* `termPutchar`           one cell; a write at an index past the framebuffer is a fault;
* `termInitialize`, `termWritechar`, `print`   the functions of the source;
* `rowsOf`                the rows that a text takes: one for each newline, and one for each
                          `80` characters of a line;
* `AtCursor`              where the cursor stands after a text;
* `print_stays_on_screen_iff`   **the terminal never scrolls**: what is printed stays in the
                          framebuffer exactly when no character comes after `25` rows.
-/

set_option linter.unusedVariables false

namespace LameOS

open Lib Lib.Exec

abbrev vgaWidth : Nat := 80
abbrev vgaHeight : Nat := 25

structure Terminal where
  termRow : UInt16
  termCol : UInt16
  videoMem : Nat → UInt16

/-- a `char` is signed: from `0x80` on its sign fills the byte of the colour -/
def termMakeChar (c color : UInt8) : UInt16 :=
  (color.toUInt16 <<< 8) ||| (if 128 ≤ c then 0xFF00 else 0) ||| c.toUInt16

def termPutchar (x y : Nat) (c color : UInt8) : Exec Fault Terminal Unit := do
  if y * vgaWidth + x < vgaWidth * vgaHeight then
    modify fun t =>
      { t with videoMem := Function.update t.videoMem (y * vgaWidth + x) (termMakeChar c color) }
  else throw Fault.outOfBounds

def termInitialize : Exec Fault Terminal Unit := do
  modify fun t => { t with termRow := 0, termCol := 0 }
  forM (List.range vgaHeight) fun y =>
    forM (List.range vgaWidth) fun x => termPutchar x y 32 0

def termWritechar (c color : UInt8) : Exec Fault Terminal Unit := do
  if c = 10 then
    modify fun t => { t with termRow := t.termRow + 1, termCol := 0 }
  else
    let t ← get
    termPutchar t.termCol.toNat t.termRow.toNat c color
    modify fun t => { t with termCol := t.termCol + 1 }
    let t ← get
    onlyIf (vgaWidth ≤ t.termCol.toNat)
      (modify fun t => { t with termRow := t.termRow + 1, termCol := 0 })

def print (str : List UInt8) : Exec Fault Terminal Unit :=
  forM (List.range (strlen str)) fun i => termWritechar (cstr str i) 15

/-! ## the text of a string -/

/-- what `print` writes of a string -/
def shown (str : List UInt8) : List UInt8 := str.takeWhile (· ≠ 0)

theorem shown_eq (str : List UInt8) : (List.range (strlen str)).map (cstr str) = shown str := by
  induction str with
  | nil => rfl
  | cons c cs ih =>
    unfold strlen shown
    by_cases hc : c = 0
    · rw [if_neg (not_not_intro hc), List.takeWhile_cons_of_neg (by simp [hc])]
      rfl
    · rw [if_pos hc, List.takeWhile_cons_of_pos (by simp [hc]), List.range_succ_eq_map,
        List.map_cons, List.map_map]
      exact congrArg (c :: ·) ih

theorem print_eq (str : List UInt8) : print str = forM (shown str) (termWritechar · 15) := by
  rw [← shown_eq]
  unfold print
  generalize List.range (strlen str) = l
  induction l with
  | nil => rfl
  | cons i l ih => rw [List.map_cons, List.forM_cons, List.forM_cons, ih]

theorem print_all_eq (ts : List (List UInt8)) :
    forM ts print = forM (ts.flatMap shown) (termWritechar · 15) := by
  induction ts with
  | nil => rfl
  | cons s ts ih => rw [List.forM_cons, List.flatMap_cons, List.forM_append, print_eq, ih]

/-! ## the rows of a text -/

/-- the characters of the last line of a text -/
def lastLine (p : List UInt8) : List UInt8 := (p.splitOn 10).getLastD []

/-- the rows that a text fills -/
def rowsOf (p : List UInt8) : Nat :=
  p.count 10 + ((p.splitOn 10).map fun l => l.length / vgaWidth).sum

theorem splitOn_newline (p : List UInt8) : (p ++ [10]).splitOn 10 = p.splitOn 10 ++ [[]] :=
  List.splitOn_append_cons_self p []

/-- a character goes to the end of the last line -/
theorem splitOn_char (p : List UInt8) {c : UInt8} (hc : c ≠ 10) :
    ∃ ls l, p.splitOn 10 = ls ++ [l] ∧ (p ++ [c]).splitOn 10 = ls ++ [l ++ [c]] := by
  induction p with
  | nil =>
    refine ⟨[], [], List.splitOn_nil 10, ?_⟩
    exact List.splitOn_eq_singleton (by simp [Ne.symm hc])
  | cons d p ih =>
    obtain ⟨ls, l, h1, h2⟩ := ih
    rw [List.cons_append, List.splitOn_cons_eq_if_modifyHead, List.splitOn_cons_eq_if_modifyHead,
      h1, h2]
    by_cases hd : (d == 10) = true
    · rw [if_pos hd, if_pos hd]
      exact ⟨[] :: ls, l, rfl, rfl⟩
    · rw [if_neg hd, if_neg hd]
      cases ls with
      | nil => exact ⟨[], d :: l, rfl, rfl⟩
      | cons l1 ls => exact ⟨(d :: l1) :: ls, l, rfl, rfl⟩

theorem lastLine_newline (p : List UInt8) : lastLine (p ++ [10]) = [] := by
  unfold lastLine
  rw [splitOn_newline, List.getLastD_concat]

theorem lastLine_char (p : List UInt8) {c : UInt8} (hc : c ≠ 10) :
    (lastLine (p ++ [c])).length = (lastLine p).length + 1 := by
  obtain ⟨ls, l, h1, h2⟩ := splitOn_char p hc
  unfold lastLine
  rw [h1, h2, List.getLastD_concat, List.getLastD_concat, List.length_append]
  rfl

theorem rowsOf_newline (p : List UInt8) : rowsOf (p ++ [10]) = rowsOf p + 1 := by
  unfold rowsOf
  rw [splitOn_newline, List.count_append, List.map_append, List.sum_append]
  simp
  omega

theorem rowsOf_char (p : List UInt8) {c : UInt8} (hc : c ≠ 10) :
    rowsOf (p ++ [c]) + (lastLine p).length / vgaWidth
      = rowsOf p + ((lastLine p).length + 1) / vgaWidth := by
  obtain ⟨ls, l, h1, h2⟩ := splitOn_char p hc
  have hcount : (p ++ [c]).count 10 = p.count 10 := by
    rw [List.count_append, List.count_singleton]
    simp [hc]
  unfold rowsOf lastLine
  rw [hcount, h1, h2, List.getLastD_concat, List.map_append, List.map_append, List.sum_append,
    List.sum_append]
  simp only [List.map_cons, List.map_nil, List.sum_cons, List.sum_nil, List.length_append,
    List.length_cons, List.length_nil, vgaWidth]
  omega

/-- a character fills one row at most -/
theorem rowsOf_le (p : List UInt8) : rowsOf p ≤ p.length := by
  induction p using List.reverseRecOn with
  | nil => exact le_refl 0
  | append_singleton p c ih =>
    rw [List.length_append, List.length_singleton]
    by_cases hc : c = 10
    · rw [hc, rowsOf_newline]
      omega
    · have hrows := rowsOf_char p hc
      dsimp only [vgaWidth] at hrows
      omega

/-! ## the cursor -/

/-- the cursor after the text `p`; the row is kept in 16 bits -/
def AtCursor (p : List UInt8) (t : Terminal) : Prop :=
  t.termRow.toNat = rowsOf p % 65536 ∧ t.termCol.toNat = (lastLine p).length % vgaWidth

theorem termPutchar_run {x y : Nat} (h : y * vgaWidth + x < vgaWidth * vgaHeight) (c color : UInt8)
    (t : Terminal) : termPutchar x y c color t = .ok ((), { t with
      videoMem := Function.update t.videoMem (y * vgaWidth + x) (termMakeChar c color) }) := by
  unfold termPutchar
  rw [if_pos h]
  rfl

theorem termPutchar_out {x y : Nat} (h : ¬ y * vgaWidth + x < vgaWidth * vgaHeight)
    (c color : UInt8) (t : Terminal) : termPutchar x y c color t = .error Fault.outOfBounds := by
  unfold termPutchar
  rw [if_neg h]
  rfl

theorem termWritechar_newline {p : List UInt8} {t : Terminal} (h : AtCursor p t) (color : UInt8) :
    ∃ t', termWritechar 10 color t = .ok ((), t') ∧ AtCursor (p ++ [10]) t' := by
  refine ⟨{ t with termRow := t.termRow + 1, termCol := 0 }, rfl, ?_, ?_⟩
  · show (t.termRow + 1).toNat = _
    rw [rowsOf_newline, UInt16.toNat_add, h.1]
    show (rowsOf p % 65536 + 1) % 65536 = _
    omega
  · rw [lastLine_newline]
    rfl

theorem termWritechar_char {p : List UInt8} {t : Terminal} (h : AtCursor p t) {c : UInt8}
    (hc : c ≠ 10) (color : UInt8) (hrow : rowsOf p % 65536 < vgaHeight) :
    ∃ t', termWritechar c color t = .ok ((), t') ∧ AtCursor (p ++ [c]) t' := by
  have hcol : t.termCol.toNat < vgaWidth := by
    rw [h.2]
    exact Nat.mod_lt _ (by decide)
  have hin : t.termRow.toNat * vgaWidth + t.termCol.toNat < vgaWidth * vgaHeight := by
    rw [← h.1] at hrow
    dsimp only [vgaWidth, vgaHeight] at *
    omega
  have hnext : (t.termCol + 1).toNat = t.termCol.toNat + 1 := by
    rw [UInt16.toNat_add]
    show (t.termCol.toNat + 1) % 65536 = _
    dsimp only [vgaWidth] at hcol
    omega
  have hlast := lastLine_char p hc
  have hrows := rowsOf_char p hc
  have hwrap : (t.termRow + 1).toNat = (t.termRow.toNat + 1) % 65536 := UInt16.toNat_add _ _
  unfold termWritechar
  rw [if_neg hc, bind_ok (get_run t), bind_ok (termPutchar_run hin c color t),
    bind_ok (modify_run _ _), bind_ok (get_run _)]
  have h1 := h.1
  have h2 := h.2
  dsimp only [vgaWidth] at h2 hcol hrows
  by_cases hend : vgaWidth ≤ (t.termCol + 1).toNat
  · -- the character was the last of a row
    rw [onlyIf_pos hend]
    dsimp only [vgaWidth] at hend
    refine ⟨_, rfl, ?_, ?_⟩
    · show (t.termRow + 1).toNat = rowsOf (p ++ [c]) % 65536
      omega
    · show 0 = (lastLine (p ++ [c])).length % 80
      omega
  · rw [onlyIf_neg hend]
    dsimp only [vgaWidth] at hend
    refine ⟨_, rfl, ?_, ?_⟩
    · show t.termRow.toNat = rowsOf (p ++ [c]) % 65536
      omega
    · show (t.termCol + 1).toNat = (lastLine (p ++ [c])).length % 80
      omega

theorem termWritechar_out {p : List UInt8} {t : Terminal} (h : AtCursor p t) {c : UInt8}
    (hc : c ≠ 10) (color : UInt8) (hrow : ¬ rowsOf p % 65536 < vgaHeight) :
    termWritechar c color t = .error Fault.outOfBounds := by
  have hout : ¬ t.termRow.toNat * vgaWidth + t.termCol.toNat < vgaWidth * vgaHeight := by
    rw [← h.1] at hrow
    dsimp only [vgaWidth, vgaHeight] at *
    omega
  unfold termWritechar
  rw [if_neg hc, bind_ok (get_run t), bind_error (termPutchar_out hout c color t)]

/-! ## runs -/

/-- no character of `rest` comes at a row past the screen, after the text `p` -/
def FitsAfter (p rest : List UInt8) : Prop :=
  ∀ q c r, rest = q ++ c :: r → c ≠ 10 → rowsOf (p ++ q) % 65536 < vgaHeight

theorem fitsAfter_nil (p : List UInt8) : FitsAfter p [] := by
  intro q c r h
  cases q <;> cases h

/-- a text with no more characters than the screen has rows -/
theorem fitsAfter_short {text : List UInt8} (h : text.length ≤ vgaHeight) : FitsAfter [] text := by
  intro q c r hq _
  have hlen : text.length = q.length + (r.length + 1) := by
    rw [hq, List.length_append]
    rfl
  have hrows := rowsOf_le q
  rw [List.nil_append]
  dsimp only [vgaHeight] at h ⊢
  omega

theorem fitsAfter_cons (p : List UInt8) (c : UInt8) (rest : List UInt8) :
    FitsAfter p (c :: rest)
      ↔ (c ≠ 10 → rowsOf p % 65536 < vgaHeight) ∧ FitsAfter (p ++ [c]) rest := by
  constructor
  · intro h
    refine ⟨fun hc => ?_, fun q d r hq hd => ?_⟩
    · have := h [] c rest rfl hc
      rwa [List.append_nil] at this
    · have := h (c :: q) d r (by rw [hq]; rfl) hd
      rwa [List.append_assoc]
  · rintro ⟨h1, h2⟩ q d r hq hd
    cases q with
    | nil =>
      obtain ⟨rfl, rfl⟩ := List.cons.inj hq
      rw [List.append_nil]
      exact h1 hd
    | cons e q =>
      obtain ⟨rfl, hq'⟩ := List.cons.inj hq
      have := h2 q d r hq' hd
      rwa [List.append_assoc] at this

theorem write_all_iff (color : UInt8) (rest p : List UInt8) (t : Terminal) (h : AtCursor p t) :
    (∃ t', forM rest (termWritechar · color) t = .ok ((), t')) ↔ FitsAfter p rest := by
  induction rest generalizing p t with
  | nil => exact ⟨fun _ => fitsAfter_nil p, fun _ => ⟨t, rfl⟩⟩
  | cons c rest ih =>
    rw [List.forM_cons, fitsAfter_cons]
    by_cases hc : c = 10
    · rw [hc]
      obtain ⟨t', hrun, hat⟩ := termWritechar_newline h color
      rw [bind_ok hrun, ih _ _ hat]
      exact ⟨fun hf => ⟨fun h => absurd rfl h, hf⟩, fun hf => hf.2⟩
    · by_cases hrow : rowsOf p % 65536 < vgaHeight
      · obtain ⟨t', hrun, hat⟩ := termWritechar_char h hc color hrow
        rw [bind_ok hrun, ih _ _ hat]
        exact ⟨fun hf => ⟨fun _ => hrow, hf⟩, fun hf => hf.2⟩
      · rw [bind_error (termWritechar_out h hc color hrow)]
        constructor
        · intro hrun
          obtain ⟨_, hrun⟩ := hrun
          cases hrun
        · intro hf
          exact absurd (hf.1 hc) hrow

/-- the cursor behind what has been written -/
theorem write_all_cursor (color : UInt8) (rest p : List UInt8) (t t' : Terminal) (h : AtCursor p t)
    (hrun : forM rest (termWritechar · color) t = .ok ((), t')) : AtCursor (p ++ rest) t' := by
  induction rest generalizing p t with
  | nil =>
    obtain rfl : t = t' := (ok_inj hrun).2
    rw [List.append_nil]
    exact h
  | cons c rest ih =>
    have hnext : ∀ t1, termWritechar c color t = .ok ((), t1) → AtCursor (p ++ [c]) t1 →
        AtCursor (p ++ c :: rest) t' := by
      intro t1 hrun1 hat
      rw [List.forM_cons, bind_ok hrun1] at hrun
      have e := ih (p ++ [c]) t1 hat hrun
      rwa [List.append_assoc] at e
    by_cases hc : c = 10
    · rw [hc] at hnext ⊢
      obtain ⟨t1, hrun1, hat⟩ := termWritechar_newline h color
      exact hnext t1 hrun1 hat
    · by_cases hrow : rowsOf p % 65536 < vgaHeight
      · obtain ⟨t1, hrun1, hat⟩ := termWritechar_char h hc color hrow
        exact hnext t1 hrun1 hat
      · rw [List.forM_cons, bind_error (termWritechar_out h hc color hrow)] at hrun
        cases hrun

theorem print_cursor {p text : List UInt8} {t t' : Terminal} (h : AtCursor p t)
    (hrun : print text t = .ok ((), t')) : AtCursor (p ++ shown text) t' := by
  rw [print_eq] at hrun
  exact write_all_cursor 15 (shown text) p t t' h hrun

theorem putchar_row (y : Nat) (hy : y < vgaHeight) (xs : List Nat) (hxs : ∀ x ∈ xs, x < vgaWidth)
    (t : Terminal) : ∃ t', (forM xs fun x => termPutchar x y 32 0) t = .ok ((), t')
      ∧ t'.termRow = t.termRow ∧ t'.termCol = t.termCol := by
  induction xs generalizing t with
  | nil => exact ⟨t, rfl, rfl, rfl⟩
  | cons x xs ih =>
    have hin : y * vgaWidth + x < vgaWidth * vgaHeight := by
      have hx := hxs x List.mem_cons_self
      dsimp only [vgaWidth, vgaHeight] at *
      omega
    rw [List.forM_cons, bind_ok (termPutchar_run hin 32 0 t)]
    obtain ⟨t', hrun, h1, h2⟩ := ih (fun x hx => hxs x (List.mem_cons_of_mem _ hx)) _
    exact ⟨t', hrun, h1, h2⟩

theorem putchar_rows (ys : List Nat) (hys : ∀ y ∈ ys, y < vgaHeight) (t : Terminal) :
    ∃ t', (forM ys fun y => forM (List.range vgaWidth) fun x => termPutchar x y 32 0) t
      = .ok ((), t') ∧ t'.termRow = t.termRow ∧ t'.termCol = t.termCol := by
  induction ys generalizing t with
  | nil => exact ⟨t, rfl, rfl, rfl⟩
  | cons y ys ih =>
    obtain ⟨t1, hrun, h1, h2⟩ := putchar_row y (hys y List.mem_cons_self) (List.range vgaWidth)
      (fun x hx => List.mem_range.mp hx) t
    rw [List.forM_cons, bind_ok hrun]
    obtain ⟨t2, hrun2, h3, h4⟩ := ih (fun y hy => hys y (List.mem_cons_of_mem _ hy)) t1
    exact ⟨t2, hrun2, h3.trans h1, h4.trans h2⟩

/-- clearing the screen stays in the framebuffer and puts the cursor at its first cell -/
theorem termInitialize_run (t : Terminal) :
    ∃ t', termInitialize t = .ok ((), t') ∧ AtCursor [] t' := by
  obtain ⟨t', hrun, h1, h2⟩ := putchar_rows (List.range vgaHeight)
    (fun y hy => List.mem_range.mp hy) { t with termRow := 0, termCol := 0 }
  refine ⟨t', ?_, ?_, ?_⟩
  · unfold termInitialize
    rw [bind_ok (modify_run _ t)]
    exact hrun
  · rw [h1]
    rfl
  · rw [h2]
    rfl

/-- **What is printed stays in the framebuffer exactly when no character but a newline comes after
a text of `25` rows or more** (counted in 16 bits): the rows only grow, nothing scrolls. -/
theorem print_stays_on_screen_iff (ts : List (List UInt8)) (t : Terminal) :
    (∃ t', (do termInitialize; forM ts print) t = .ok ((), t'))
      ↔ ∀ p c rest, ts.flatMap shown = p ++ c :: rest → c ≠ 10 →
          rowsOf p % 65536 < vgaHeight := by
  obtain ⟨t0, hinit, hat⟩ := termInitialize_run t
  rw [bind_ok hinit, print_all_eq]
  exact write_all_iff 15 (ts.flatMap shown) [] t0 hat

theorem rowsOf_newlines (n : Nat) : rowsOf (List.replicate n 10) = n := by
  induction n with
  | zero => rfl
  | succ n ih => rw [List.replicate_succ', rowsOf_newline, ih]

/-- twenty-five empty lines and a letter: the letter goes past the framebuffer -/
theorem print_leaves_screen : ¬ ∀ (ts : List (List UInt8)) (t : Terminal),
    ∃ t', (do termInitialize; forM ts print) t = .ok ((), t') := by
  intro h
  obtain ⟨t0, hinit, hat⟩ := termInitialize_run ⟨0, 0, fun _ => 0⟩
  have hrun := h [List.replicate 25 10 ++ [97]] ⟨0, 0, fun _ => 0⟩
  rw [bind_ok hinit, print_all_eq] at hrun
  have hfit := (write_all_iff 15 _ [] t0 hat).mp hrun
  have := hfit (List.replicate 25 10) 97 [] (by decide) (by decide)
  rw [List.nil_append, rowsOf_newlines] at this
  revert this
  decide

end LameOS
