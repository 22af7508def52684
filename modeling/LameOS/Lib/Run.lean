import Mathlib.Tactic

/-!
# Runs of a step function that can fail

A machine is a step function `step : σ → ι → Except ε σ`: an operation takes a state to the next
one or fails.

* `Along step P s is`    the run from `s` along `is` has no failing step and `P` holds in every
                         state it goes through, the first and the last included;
* `Meets step C s is`    every step of the run is taken in a state that `C` allows it in;
* `Throughout step P Q s is`   `P` holds in every state the run goes through and `Q` of every step,
                         until a step fails;
* `along_iff_meets`      if `C` is exactly what keeps an invariant, then a run is good in every
                         state exactly when all its steps meet `C`;
* `throughout_iff_meets`   the same of runs whose steps have to be good too, and may fail;
* `runs`, `runs_along`   the state at the end of a run.
-/

set_option linter.unusedVariables false

namespace Lib

section
variable {σ ι ε : Type*} (step : σ → ι → Except ε σ)

/-- no step of the run fails and `P` holds in all its states -/
def Along (P : σ → Prop) : σ → List ι → Prop
  | s, [] => P s
  | s, i :: is => P s ∧ ∃ s', step s i = .ok s' ∧ Along P s' is

/-- every step of the run meets `C` in the state it is taken in (until a step fails) -/
def Meets (C : σ → ι → Prop) : σ → List ι → Prop
  | _, [] => True
  | s, i :: is => C s i ∧ ∀ s', step s i = .ok s' → Meets C s' is

/-- `P` holds in all states of the run and `Q` of all its steps (until a step fails) -/
def Throughout (P : σ → Prop) (Q : σ → ι → Prop) : σ → List ι → Prop
  | s, [] => P s
  | s, i :: is => P s ∧ Q s i ∧ ∀ s', step s i = .ok s' → Throughout P Q s' is

/-- the state a run ends in -/
def runs : σ → List ι → Except ε σ
  | s, [] => .ok s
  | s, i :: is => match step s i with
    | .ok s' => runs s' is
    | .error e => .error e

variable {step}

theorem Along.head {P : σ → Prop} {s : σ} {is : List ι} (h : Along step P s is) : P s := by
  cases is with
  | nil => exact h
  | cons i is => exact h.1

theorem Throughout.head {P : σ → Prop} {Q : σ → ι → Prop} {s : σ} {is : List ι}
    (h : Throughout step P Q s is) : P s := by
  cases is with
  | nil => exact h
  | cons i is => exact h.1

theorem Along.mono {P Q : σ → Prop} (hPQ : ∀ s, P s → Q s) {s : σ} {is : List ι}
    (h : Along step P s is) : Along step Q s is := by
  induction is generalizing s with
  | nil => exact hPQ s h
  | cons i is ih =>
    obtain ⟨hs, s', hstep, hrest⟩ := h
    exact ⟨hPQ s hs, s', hstep, ih hrest⟩

theorem Meets.mono {C D : σ → ι → Prop} (hCD : ∀ s i, C s i → D s i) {s : σ} {is : List ι}
    (h : Meets step C s is) : Meets step D s is := by
  induction is generalizing s with
  | nil => trivial
  | cons i is ih => exact ⟨hCD s i h.1, fun s' hs' => ih (h.2 s' hs')⟩

theorem meets_of_forall {P : ι → Prop} {s : σ} {is : List ι} (h : ∀ i ∈ is, P i) :
    Meets step (fun _ i => P i) s is := by
  induction is generalizing s with
  | nil => trivial
  | cons i is ih =>
    exact ⟨h i List.mem_cons_self, fun s' _ => ih (fun j hj => h j (List.mem_cons_of_mem i hj))⟩

/-- a good run ends, in a good state -/
theorem runs_along {P : σ → Prop} {s : σ} {is : List ι} (h : Along step P s is) :
    ∃ s', runs step s is = .ok s' ∧ P s' := by
  induction is generalizing s with
  | nil => exact ⟨s, rfl, h⟩
  | cons i is ih =>
    obtain ⟨_, s', hstep, hrest⟩ := h
    obtain ⟨s'', hrun, hP⟩ := ih hrest
    refine ⟨s'', ?_, hP⟩
    simp only [runs, hstep]
    exact hrun

/-- the steps of a run that ends do not fail -/
theorem meets_of_runs {s t : σ} {is : List ι} (h : runs step s is = .ok t) :
    Meets step (fun s i => ∃ s', step s i = .ok s') s is := by
  induction is generalizing s with
  | nil => trivial
  | cons i is ih =>
    unfold runs at h
    cases hstep : step s i with
    | error e =>
      rw [hstep] at h
      cases h
    | ok s1 =>
      rw [hstep] at h
      refine ⟨⟨s1, hstep⟩, fun s' hs' => ?_⟩
      obtain rfl := Except.ok.inj (hstep.symm.trans hs')
      exact ih h

/-- what the steps of a run that ends meet holds of all its operations -/
theorem forall_of_meets {P : ι → Prop} {s t : σ} {is : List ι} (h : runs step s is = .ok t)
    (hm : Meets step (fun _ i => P i) s is) : ∀ i ∈ is, P i := by
  induction is generalizing s with
  | nil => exact fun i hi => absurd hi List.not_mem_nil
  | cons j is ih =>
    obtain ⟨hj, hrest⟩ := hm
    unfold runs at h
    cases hstep : step s j with
    | error e =>
      rw [hstep] at h
      cases h
    | ok s1 =>
      rw [hstep] at h
      intro i hi
      rcases List.mem_cons.mp hi with rfl | hi
      · exact hj
      · exact ih h (hrest s1 hstep) i hi

/-- **Steps that keep an invariant have what it gives, along a run.** -/
theorem throughout_of_meets {I P : σ → Prop} {C Q : σ → ι → Prop} (hIP : ∀ s, I s → P s)
    (hstep : ∀ s i, I s → C s i → Q s i ∧ ∀ s', step s i = .ok s' → I s')
    (s : σ) (is : List ι) (hI : I s) (hC : Meets step C s is) : Throughout step P Q s is := by
  induction is generalizing s with
  | nil => exact hIP s hI
  | cons i is ih =>
    obtain ⟨hQ, hnext⟩ := hstep s i hI hC.1
    exact ⟨hIP s hI, hQ, fun s' hs' => ih s' (hnext s' hs') (hC.2 s' hs')⟩

/-- **The states and the steps of a run are good exactly when its steps meet `C`**: a step that
leaves `C` is not good itself, or goes on in a state that is not. -/
theorem throughout_iff_meets {I P : σ → Prop} {C Q : σ → ι → Prop} (hIP : ∀ s, I s → P s)
    (hok : ∀ s i, I s → C s i → Q s i ∧ ∀ s', step s i = .ok s' → I s')
    (hbad : ∀ s i, I s → ¬ C s i → Q s i → ∃ s', step s i = .ok s' ∧ ¬ P s')
    (s : σ) (is : List ι) (hI : I s) : Throughout step P Q s is ↔ Meets step C s is := by
  refine ⟨fun h => ?_, throughout_of_meets hIP hok s is hI⟩
  induction is generalizing s with
  | nil => trivial
  | cons i is ih =>
    obtain ⟨_, hQ, hrest⟩ := h
    have hC : C s i := by
      by_contra hC
      obtain ⟨s', hstep, hP⟩ := hbad s i hI hC hQ
      exact hP (hrest s' hstep).head
    exact ⟨hC, fun s' hs' => ih s' ((hok s i hI hC).2 s' hs') (hrest s' hs')⟩

/-- **A run is good exactly when its steps are.**  `V` is the domain of the operations, `I` the
invariant that carries `P`; a step that leaves `C` either fails or ends in a state without `P`. -/
theorem along_iff_meets {I P : σ → Prop} {V C : σ → ι → Prop} (hIP : ∀ s, I s → P s)
    (hok : ∀ s i, I s → V s i → C s i → ∃ s', step s i = .ok s' ∧ I s')
    (hbad : ∀ s i, I s → V s i → ¬ C s i → ∀ s', step s i = .ok s' → ¬ P s')
    (s : σ) (is : List ι) (hI : I s) (hV : Meets step V s is) :
    Along step P s is ↔ Meets step C s is := by
  induction is generalizing s with
  | nil => exact ⟨fun _ => trivial, fun _ => hIP s hI⟩
  | cons i is ih =>
    constructor
    · rintro ⟨_, s', hstep, hrest⟩
      have hC : C s i := by
        by_contra hC
        exact hbad s i hI hV.1 hC s' hstep hrest.head
      refine ⟨hC, fun s'' hstep' => ?_⟩
      obtain ⟨t, ht, hIt⟩ := hok s i hI hV.1 hC
      obtain rfl : t = s'' := Except.ok.inj (ht.symm.trans hstep')
      obtain rfl : s' = t := Except.ok.inj (hstep.symm.trans ht)
      exact (ih s' hIt (hV.2 s' hstep)).mp hrest
    · rintro ⟨hC, hrest⟩
      obtain ⟨s', hstep, hI'⟩ := hok s i hI hV.1 hC
      exact ⟨hIP s hI, s', hstep, (ih s' hI' (hV.2 s' hstep)).mpr (hrest s' hstep)⟩

end

end Lib
