import Mathlib.Data.List.Rotate
import Mathlib.Data.List.Nodup

/-!
# Taking turns round a list

`turns l a` are the elements of `l` in the order of their turns after that of `a`, which has the last one.

* `turns_split`   by what lies before and behind `a`;
* `turns_next`    the turns after the next one;
* `turns_perm`, `turns_count`, `turns_getLastD`   every element has one turn, and `a` the last one;
* `turns_erase`   the turns of the others.
-/

set_option linter.unusedVariables false

namespace Lib

section
variable {α : Type} [DecidableEq α] {l r : List α} {a c : α}

def turns (l : List α) (a : α) : List α := l.rotate (l.idxOf a + 1)

theorem turns_split (h : a ∉ l) (r : List α) : turns (l ++ a :: r) a = r ++ l ++ [a] := by
  have hidx : (l ++ a :: r).idxOf a = l.length := by
    rw [List.idxOf_append_of_notMem h, List.idxOf_cons_self, Nat.add_zero]
  have hsplit : l ++ a :: r = (l ++ [a]) ++ r := by
    rw [List.append_assoc]
    rfl
  have hlength : l.length + 1 = (l ++ [a]).length := by
    rw [List.length_append]
    rfl
  unfold turns
  rw [hidx, hsplit, hlength, List.rotate_append_length_eq, List.append_assoc]

theorem turns_perm (l : List α) (a : α) : (turns l a).Perm l := List.rotate_perm l _

theorem turns_count (hl : l.Nodup) (hc : c ∈ l) : (turns l a).count c = 1 := by
  rw [(turns_perm l a).count_eq]
  exact List.count_eq_one_of_mem hl hc

theorem turns_getLastD (ha : a ∈ l) (d : α) : (turns l a).getLastD d = a := by
  obtain ⟨p, q, rfl, hp⟩ := List.eq_append_cons_of_mem ha
  rw [turns_split hp, List.getLastD_concat]

/-- after the turn of `c` the others follow, and `c` comes last -/
theorem turns_next (hl : l.Nodup) (ha : a ∈ l) {q : List α} (h : turns l a = c :: q) :
    turns l c = q ++ [c] := by
  obtain ⟨p, r, rfl, hp⟩ := List.eq_append_cons_of_mem ha
  rw [turns_split hp] at h
  cases r with
  | cons d r =>
    -- the element behind `a`
    obtain ⟨rfl, rfl⟩ := List.cons.inj h
    have hsplit : p ++ a :: d :: r = (p ++ [a]) ++ d :: r := by
      rw [List.append_assoc]
      rfl
    rw [hsplit] at hl ⊢
    have hd : d ∉ p ++ [a] := fun hin => (List.nodup_append.mp hl).2.2 d hin d List.mem_cons_self rfl
    rw [turns_split hd, ← List.append_assoc r]
    rfl
  | nil =>
    -- `a` is the last element, and the first one follows
    cases p with
    | nil =>
      obtain ⟨rfl, rfl⟩ := List.cons.inj h
      exact turns_split List.not_mem_nil []
    | cons d p =>
      obtain ⟨rfl, rfl⟩ := List.cons.inj h
      have hturns := turns_split (a := d) (l := []) List.not_mem_nil (p ++ [a])
      rw [List.append_nil] at hturns
      exact hturns

/-- without `a` the turns are the same -/
theorem turns_erase (h : a ∉ l) (hr : a ∉ r) : (turns (l ++ a :: r) a).erase a = r ++ l := by
  have hnot : a ∉ r ++ l := fun hin => (List.mem_append.mp hin).elim hr h
  rw [turns_split h, List.erase_append_right _ hnot, List.erase_cons_head, List.append_nil]

end

end Lib
