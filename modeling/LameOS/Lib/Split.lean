import Mathlib.Tactic

/-!
# Lists cut at a separator

`xs.splitOn x` are the pieces of `xs` between the occurrences of `x`, empty ones included.

* `fullPieces x xs`     the pieces that are not empty;
* `squeeze x xs`        the list with one separator for each run of them, and none at the end;
* `squeeze_eq`          it is the first piece and the full ones behind it, put together again;
* `takeWhile_eq_filter` the front of a list is all that the filter leaves, when nothing else follows.
-/

set_option linter.unusedVariables false

namespace Lib

section
variable {α : Type} [DecidableEq α] {x : α} {xs : List α}

/-- the pieces that are not empty -/
def fullPieces (x : α) (xs : List α) : List (List α) := (xs.splitOn x).filter (· ≠ [])

/-- a separator goes when another one follows, or nothing -/
def squeeze (x : α) : List α → List α
  | [] => []
  | a :: as => if a = x ∧ as.headD x = x then squeeze x as else a :: squeeze x as

/-! ## pieces -/

theorem splitOn_sep (x : α) (xs : List α) : (x :: xs).splitOn x = [] :: xs.splitOn x := by
  rw [List.splitOn_cons_eq_if_modifyHead, if_pos (by simp)]

theorem splitOn_other {a : α} (h : a ≠ x) {p : List α} {ps : List (List α)}
    (hxs : xs.splitOn x = p :: ps) : (a :: xs).splitOn x = (a :: p) :: ps := by
  rw [List.splitOn_cons_eq_if_modifyHead, if_neg (by simp [h]), hxs]
  rfl

theorem splitOn_cases (x : α) (xs : List α) : ∃ p ps, xs.splitOn x = p :: ps :=
  List.exists_cons_of_ne_nil (List.splitOn_ne_nil x xs)

/-- the first piece is empty when the list is, or starts with a separator -/
theorem headD_eq_iff {p : List α} {ps : List (List α)} (h : xs.splitOn x = p :: ps) :
    xs.headD x = x ↔ p = [] := by
  cases xs with
  | nil =>
    obtain ⟨rfl, -⟩ := List.cons.inj h
    simp
  | cons a as =>
    by_cases ha : a = x
    · subst ha
      rw [splitOn_sep] at h
      obtain ⟨rfl, -⟩ := List.cons.inj h
      simp
    · obtain ⟨q, qs, hq⟩ := splitOn_cases x as
      rw [splitOn_other ha hq] at h
      obtain ⟨rfl, -⟩ := List.cons.inj h
      simp [ha]

/-- no piece has a separator -/
theorem not_mem_piece : ∀ {xs : List α} {p : List α}, p ∈ xs.splitOn x → x ∉ p := by
  intro xs
  induction xs with
  | nil => simp
  | cons a as ih =>
    intro p hp
    obtain ⟨q, qs, hq⟩ := splitOn_cases x as
    by_cases ha : a = x
    · subst ha
      rw [splitOn_sep] at hp
      rcases List.mem_cons.mp hp with rfl | hp
      · exact List.not_mem_nil
      · exact ih hp
    · rw [splitOn_other ha hq] at hp
      rw [hq] at ih
      rcases List.mem_cons.mp hp with rfl | hp
      · have := ih List.mem_cons_self
        simp [this, Ne.symm ha]
      · exact ih (List.mem_cons_of_mem _ hp)

theorem length_piece_le : ∀ {xs : List α} {p : List α}, p ∈ xs.splitOn x → p.length ≤ xs.length := by
  intro xs
  induction xs with
  | nil => simp
  | cons a as ih =>
    intro p hp
    obtain ⟨q, qs, hq⟩ := splitOn_cases x as
    by_cases ha : a = x
    · subst ha
      rw [splitOn_sep] at hp
      rcases List.mem_cons.mp hp with rfl | hp
      · exact Nat.zero_le _
      · exact Nat.le_succ_of_le (ih hp)
    · rw [splitOn_other ha hq] at hp
      rw [hq] at ih
      rcases List.mem_cons.mp hp with rfl | hp
      · exact Nat.succ_le_succ (ih List.mem_cons_self)
      · exact Nat.le_succ_of_le (ih (List.mem_cons_of_mem _ hp))

theorem not_mem_fullPiece {p : List α} (hp : p ∈ fullPieces x xs) : x ∉ p ∧ p ≠ [] := by
  obtain ⟨hp, hne⟩ := List.mem_filter.mp hp
  exact ⟨not_mem_piece hp, of_decide_eq_true hne⟩

/-- pieces put together are told apart again -/
theorem intercalate_inj {ps qs : List (List α)} (hp : ∀ p ∈ ps, x ∉ p) (hq : ∀ q ∈ qs, x ∉ q)
    (hps : ps ≠ []) (hqs : qs ≠ []) (h : [x].intercalate ps = [x].intercalate qs) : ps = qs := by
  rw [← List.splitOn_intercalate x hp hps, h, List.splitOn_intercalate x hq hqs]

theorem fullPieces_intercalate {ps : List (List α)} (h : ∀ p ∈ ps, x ∉ p ∧ p ≠ []) :
    fullPieces x ([x].intercalate ps) = ps := by
  unfold fullPieces
  cases ps with
  | nil => simp
  | cons p ps =>
    rw [List.splitOn_intercalate x (fun q hq => (h q hq).1) (List.cons_ne_nil p ps)]
    exact List.filter_eq_self.mpr (fun q hq => decide_eq_true (h q hq).2)

/-! ## one separator for each run -/

omit [DecidableEq α] in
theorem intercalate_cons {a : α} {p : List α} (ps : List (List α)) :
    [x].intercalate ((a :: p) :: ps) = a :: [x].intercalate (p :: ps) := by
  cases ps with
  | nil => simp
  | cons q qs => simp [List.intercalate_cons_cons]

/-- **The squeezed list** is its first piece, and behind it the full ones -/
theorem squeeze_eq (xs : List α) : ∀ {p : List α} {ps : List (List α)}, xs.splitOn x = p :: ps →
    squeeze x xs = [x].intercalate (p :: ps.filter (· ≠ [])) := by
  induction xs with
  | nil =>
    intro p ps h
    obtain ⟨rfl, rfl⟩ := List.cons.inj h
    rfl
  | cons a as ih =>
    intro p ps h
    obtain ⟨q, qs, hq⟩ := splitOn_cases x as
    have ih := ih hq
    unfold squeeze
    by_cases ha : a = x
    · subst ha
      rw [splitOn_sep, hq] at h
      obtain ⟨rfl, rfl⟩ := List.cons.inj h
      by_cases hempty : q = []
      · rw [if_pos ⟨rfl, (headD_eq_iff hq).mpr hempty⟩, ih, hempty,
          List.filter_cons_of_neg (by simp)]
      · rw [if_neg (fun hc => hempty ((headD_eq_iff hq).mp hc.2)), ih,
          List.filter_cons_of_pos (by simp [hempty]), List.intercalate_cons_cons]
        rfl
    · rw [splitOn_other ha hq] at h
      obtain ⟨rfl, rfl⟩ := List.cons.inj h
      rw [if_neg (fun hc => ha hc.1), ih, intercalate_cons]

/-! ## the front of a list -/

theorem takeWhile_eq_filter {β : Type} {f : β → Bool} {l : List β} :
    l.takeWhile f = l.filter f ↔ l.Pairwise (fun a b => f a = false → f b = false) := by
  induction l with
  | nil => simp
  | cons b bs ih =>
    rw [List.pairwise_cons]
    cases hb : f b with
    | true =>
      rw [List.takeWhile_cons_of_pos hb, List.filter_cons_of_pos hb, List.cons.injEq, ih]
      simp
    | false =>
      rw [List.takeWhile_cons_of_neg (by simp [hb]), List.filter_cons_of_neg (by simp [hb])]
      constructor
      · intro h
        have hall : ∀ c ∈ bs, f c = false := fun c hc =>
          Bool.eq_false_of_not_eq_true (List.filter_eq_nil_iff.mp h.symm c hc)
        exact ⟨fun c hc _ => hall c hc, List.pairwise_of_forall_mem_list
          (fun c hc d hd _ => hall d hd)⟩
      · intro h
        exact (List.filter_eq_nil_iff.mpr (fun c hc => by simp [h.1 c hc rfl])).symm

end

end Lib
