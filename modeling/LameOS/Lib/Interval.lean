import Mathlib.Tactic

/-!
# Runs of consecutive positions on a line

A `Run` is the interval `[start, start + len)` of natural numbers.

* `Run.Mem r i`      position `i` lies in the run;
* `Run.Apart`        two runs without a common position;
* `Separate L`       the runs of a list are pairwise apart;
* `Separate.eq_of_mem`   a position lies in at most one run of a separate list;
* `window_or_not`    the least window of `n` consecutive positions with a property, or none.
-/

namespace Lib

/-- the positions `start, …, start + len - 1` -/
structure Run where
  start : Nat
  len : Nat
  deriving DecidableEq, Repr

namespace Run

def Mem (r : Run) (i : Nat) : Prop := r.start ≤ i ∧ i < r.start + r.len

instance (r : Run) (i : Nat) : Decidable (r.Mem i) :=
  inferInstanceAs (Decidable (_ ∧ _))

/-- no common position -/
def Apart (r r' : Run) : Prop := ∀ i, r.Mem i → ¬ r'.Mem i

theorem Apart.symm {r r' : Run} (h : Apart r r') : Apart r' r := fun i hi hi' => h i hi' hi

instance : Std.Symm Apart := ⟨fun _ _ h => h.symm⟩

theorem mem_start {r : Run} (h : 1 ≤ r.len) : r.Mem r.start := ⟨le_refl _, by omega⟩

end Run

/-- pairwise apart -/
def Separate (L : List Run) : Prop := L.Pairwise Run.Apart

theorem Separate.perm {L L' : List Run} (h : Separate L) (hp : L.Perm L') : Separate L' :=
  (hp.pairwise_iff (fun h => h.symm)).mp h

/-- a position lies in at most one run -/
theorem Separate.eq_of_mem {L : List Run} (h : Separate L) {r r' : Run} (hr : r ∈ L)
    (hr' : r' ∈ L) {i : Nat} (hi : r.Mem i) (hi' : r'.Mem i) : r = r' := by
  by_contra hne
  exact List.Pairwise.forall h hr hr' hne i hi hi'

/-- no run is listed twice -/
theorem Separate.nodup {L : List Run} (h : Separate L) (hpos : ∀ r ∈ L, 1 ≤ r.len) : L.Nodup := by
  induction L with
  | nil => exact List.nodup_nil
  | cons r L ih =>
    obtain ⟨hr, hL⟩ := List.pairwise_cons.mp h
    refine List.nodup_cons.mpr ⟨fun hmem => ?_, ih hL (fun s hs => hpos s (List.mem_cons_of_mem _ hs))⟩
    have hs := Run.mem_start (hpos r List.mem_cons_self)
    exact hr r hmem r.start hs hs

/-- the least window of `n` consecutive positions with `p` inside the first `N`, or none -/
theorem window_or_not (p : Nat → Prop) (N n : Nat) :
    (∃ b, (b + n ≤ N ∧ ∀ i, b ≤ i → i < b + n → p i) ∧
        ∀ b' < b, ¬ (b' + n ≤ N ∧ ∀ i, b' ≤ i → i < b' + n → p i)) ∨
      ∀ b, ¬ (b + n ≤ N ∧ ∀ i, b ≤ i → i < b + n → p i) := by
  classical
  by_cases h : ∃ b, b + n ≤ N ∧ ∀ i, b ≤ i → i < b + n → p i
  · exact Or.inl ⟨Nat.find h, Nat.find_spec h, fun b' hb' => Nat.find_min h hb'⟩
  · exact Or.inr (fun b hb => h ⟨b, hb⟩)

end Lib
